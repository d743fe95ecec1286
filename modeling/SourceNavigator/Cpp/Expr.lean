import SourceNavigator.Cpp.Token
import SourceNavigator.Lib.Reader

/-!
The conditions of `#if` and `#elif` (`cpp/cpplib/expr.c`).

The tokens of a condition are a ring; the functions go from one to the next and
stop at the last. An expression is evaluated while it is read, also where its
value is not needed. What the functions do with values is a parameter
(`Create`): `cexp` is what the source does, and the same functions can put
together something else.

An `int` is a `BitVec 32`. Where the arithmetic of C is not defined, it is that
of the machine: results wrap around and a shift takes the last five bits of its
count. A division by zero and that of the least `int` by -1 trap. They are
recorded as computations, and `ConstantExpression` ends with a trap when one
is among them.
-/

namespace SourceNavigator.Cpp.Expr

open Lib Lib.Reader

abbrev CEXP_DEF : Int := 0
abbrev CEXP_UNDEF : Int := 1
abbrev CEXP_NULL : Int := 2

/-- `struct sCexp`; `value` is read only where `typ` is not `CEXP_UNDEF` or `CEXP_NULL`. -/
structure Cexp where
  typ : Int
  value : BitVec 32 := 0
  deriving DecidableEq, Repr

def CexpNull : Cexp := ⟨CEXP_NULL, 0⟩

inductive UnaryOperator
  | UPLUS | UMINUS | NOT | BNOT
  deriving DecidableEq, Repr

inductive BinaryOperator
  | OROR | ANDAND | OR | ER | AND | EQ | NE | L | G | LE | GE | LS | RS | PLUS | MINUS | MULT | DIV
  | MOD
  deriving DecidableEq, Repr

/-- The value of a comparison. -/
def truth (b : Bool) : BitVec 32 := if b then 1 else 0

def UnaryOperator.apply : UnaryOperator → BitVec 32 → BitVec 32
  | UPLUS, x => x
  | UMINUS, x => -x
  | NOT, x => truth (x = 0)
  | BNOT, x => ~~~x

def BinaryOperator.apply : BinaryOperator → BitVec 32 → BitVec 32 → BitVec 32
  | OROR, x, y => truth (x ≠ 0 ∨ y ≠ 0)
  | ANDAND, x, y => truth (x ≠ 0 ∧ y ≠ 0)
  | OR, x, y => x ||| y
  | ER, x, y => x ^^^ y
  | AND, x, y => x &&& y
  | EQ, x, y => truth (x = y)
  | NE, x, y => truth (x ≠ y)
  | L, x, y => truth (x.slt y)
  | G, x, y => truth (y.slt x)
  | LE, x, y => truth (x.sle y)
  | GE, x, y => truth (y.sle x)
  | LS, x, y => x <<< (y.toNat % 32)
  | RS, x, y => x.sshiftRight (y.toNat % 32)
  | PLUS, x, y => x + y
  | MINUS, x, y => x - y
  | MULT, x, y => x * y
  | DIV, x, y => x.sdiv y
  | MOD, x, y => x.srem y

def CexpCreateOp1 (operator : UnaryOperator) (Cexp1 : Cexp) : Cexp :=
  if Cexp1.typ = CEXP_UNDEF then ⟨CEXP_UNDEF, 0⟩
  else ⟨CEXP_DEF, operator.apply Cexp1.value⟩

/-- What the branch for `||` with one operand undetermined stores is overwritten at its end. -/
def CexpCreateOp2 (operator : BinaryOperator) (Cexp1 Cexp2 : Cexp) : Cexp :=
  if Cexp1.typ = CEXP_UNDEF ∨ Cexp2.typ = CEXP_UNDEF then ⟨CEXP_UNDEF, 0⟩
  else ⟨CEXP_DEF, operator.apply Cexp1.value Cexp2.value⟩

def CexpCreateOp3 (Cexp1 Cexp2 Cexp3 : Cexp) : Cexp :=
  if Cexp1.typ = CEXP_DEF then
    if Cexp1.value ≠ 0 then Cexp2 else Cexp3
  else ⟨CEXP_UNDEF, 0⟩

/-! ### Constants -/

inductive AtolMode
  | OCTAL | DECIMAL | HEXA
  deriving DecidableEq, Repr

/-- The value of a hexadecimal digit. -/
def hexDigit (pc : UInt8) : Option (BitVec 64) :=
  if 48 ≤ pc ∧ pc ≤ 57 then some (BitVec.ofNat 64 (pc.toNat - 48))
  else if 65 ≤ pc ∧ pc ≤ 70 then some (BitVec.ofNat 64 (pc.toNat - 65 + 10))
  else if 97 ≤ pc ∧ pc ≤ 102 then some (BitVec.ofNat 64 (pc.toNat - 97 + 10))
  else none

/-- The loop of `f_Atol` from the character at `i` on. -/
def atolFrom (i : Nat) (mode : AtolMode) (value : BitVec 64) : Text → BitVec 64
  | [] => value
  | pc :: text =>
    if i = 0 ∧ pc = 48 then atolFrom (i + 1) .OCTAL value text
    else if i = 1 ∧ mode = .OCTAL ∧ (pc = 120 ∨ pc = 88) then atolFrom (i + 1) .HEXA value text
    else
      match mode with
      | .OCTAL =>
        if pc < 48 ∨ 55 < pc then value
        else atolFrom (i + 1) mode (value * 8 + BitVec.ofNat 64 pc.toNat - 48) text
      | .DECIMAL =>
        if pc < 48 ∨ 57 < pc then value
        else atolFrom (i + 1) mode (value * 10 + BitVec.ofNat 64 pc.toNat - 48) text
      | .HEXA =>
        match hexDigit pc with
        | none => value
        | some digit => atolFrom (i + 1) mode (value * 16 + digit) text

def f_Atol (text : Text) : BitVec 64 := atolFrom 0 .DECIMAL 0 text

/-- The octal digits at the front. -/
def octal (value : BitVec 64) : Text → BitVec 64
  | [] => value
  | c :: text =>
    if 48 ≤ c ∧ c ≤ 55 then octal (value * 8 + (BitVec.ofNat 64 c.toNat - 48)) text else value

def f_Ctol (text : Text) : BitVec 64 :=
  let text := if text.head? = some 39 then text.drop 1 else text
  let text := if text.getLast? = some 39 then text.dropLast else text
  match text with
  | [] => 0
  | 92 :: text =>
    match text with
    | [] => 0
    | c :: text =>
      if c = 110 then 10
      else if c = 116 then 9
      else if c = 114 then 13
      else if 48 ≤ c ∧ c ≤ 55 then octal 0 (c :: text)
      else BitVec.ofNat 64 c.toNat
  | c :: _ => BitVec.ofNat 64 c.toNat

/-! ### Reading -/

/-- An operator with its operands. -/
structure Computation (V : Type) where
  operator : BinaryOperator
  left : V
  right : V

/-- What the functions do with values. -/
structure Create (V : Type) where
  /-- `typ == CEXP_NULL` -/
  isNull : V → Bool
  null : V
  constant : BitVec 32 → V
  undetermined : V
  /-- A `Cexp_t` that nothing was stored in. -/
  garbage : Cexp → V
  op1 : UnaryOperator → V → V
  op2 : BinaryOperator → V → V → V
  op3 : V → V → V → V

/-- What the source does. -/
def cexp : Create Cexp where
  isNull Cexp := Cexp.typ = CEXP_NULL
  null := CexpNull
  constant value := ⟨CEXP_DEF, value⟩
  undetermined := ⟨CEXP_UNDEF, 0⟩
  garbage Cexp := Cexp
  op1 := CexpCreateOp1
  op2 := CexpCreateOp2
  op3 := CexpCreateOp3

/-- `TokenAct`: the tokens from it to the last one of the ring. -/
abbrev P (V α : Type) := Reader Token (Computation V) α

section Functions

variable {V : Type}

/-- The code of the first token. -/
def lexOf (ts : List Token) : Nat := (ts.head?.map Token.lex).getD 0

/-- `token( 0 )` -/
def token : P V Nat := look lexOf

/-- `ident( 0 )` -/
def ident : P V Text := look fun ts => (ts.head?.map Token.text).getD []

/-- The last token is not left. -/
def advance : List Token → List Token
  | _ :: t :: ts => t :: ts
  | ts => ts

/-- `step( 1 )` -/
def step : P V Unit := move advance

def save : P V (List Token) := look id

def restore (TokenActSave : List Token) : P V Unit := move fun _ => TokenActSave

variable (c : Create V) (uninit : List Token → Cexp) (n : Nat)

def createOp2 (operator : BinaryOperator) (Cexp1 Cexp2 : V) : P V V := do
  record ⟨operator, Cexp1, Cexp2⟩
  pure (c.op2 operator Cexp1 Cexp2)

def primary_expression (constant_expression : P V V) : P V V := do
  let TokenActSave ← save
  let t ← token
  if t = SN_INTEGERconstant ∨ t = SN_LONGconstant then
    let text ← ident
    step
    pure (c.constant ((f_Atol text).setWidth 32))
  else if t = SN_CHARACTERconstant then
    let text ← ident
    step
    pure (c.constant ((f_Ctol text).setWidth 32))
  else if t = SN_FLOATINGconstant then
    step
    pure c.undetermined
  else if t = SN_STRINGliteral then
    step
    loop n (fun _ => do
      if (← token) = SN_STRINGliteral then
        step
        pure (.inl ())
      else pure (.inr c.undetermined)) ()
  else if t = chr '(' then
    step
    let Cexp ← constant_expression
    if c.isNull Cexp then
      restore TokenActSave
      pure Cexp
    else if (← token) = chr ')' then
      step
      pure Cexp
    else pure Cexp
  else if t = SN_IDENTIFIER then
    if (← ident) = ascii "defined" then
      -- the result is not stored in this branch
      let Cexp ← look uninit
      step
      pure (c.garbage Cexp)
    else
      step
      pure c.undetermined
  else if t = SN_UNDEF then
    step
    pure c.undetermined
  else if t = SN_TRUE then
    step
    pure (c.constant 1)
  else if t = SN_FALSE then
    step
    pure (c.constant 0)
  else
    restore TokenActSave
    pure c.null

def unaryOperator (t : Nat) : Option UnaryOperator :=
  if t = chr '+' then some .UPLUS
  else if t = chr '-' then some .UMINUS
  else if t = chr '!' then some .NOT
  else if t = chr '~' then some .BNOT
  else none

def unary_expression (constant_expression : P V V) : Nat → P V V
  | 0 => unfinished
  | k + 1 => do
      let TokenActSave ← save
      let Cexp ← primary_expression c uninit n constant_expression
      if !c.isNull Cexp then pure Cexp
      else
        match unaryOperator (← token) with
        | none =>
          restore TokenActSave
          pure c.null
        | some operator =>
          step
          let Cexp1 ← unary_expression constant_expression k
          if !c.isNull Cexp1 then pure (c.op1 operator Cexp1)
          else
            restore TokenActSave
            pure c.null

/-- The operators of one precedence, from left to right. -/
def binary (operator : Nat → Option BinaryOperator) (operand : P V V) : P V V := do
  let TokenActSave ← save
  let Cexp1 ← operand
  if c.isNull Cexp1 then
    restore TokenActSave
    pure Cexp1
  else
    loop n (fun Cexp1 => do
      match operator (← token) with
      | none => pure (.inr Cexp1)
      | some operator =>
        step
        let Cexp2 ← operand
        if c.isNull Cexp2 then
          restore TokenActSave
          pure (.inr Cexp2)
        else
          let Cexp1 ← createOp2 c operator Cexp1 Cexp2
          pure (.inl Cexp1)) Cexp1

variable (constant_expression : P V V)

def multiplicative_expression : P V V :=
  binary c n (fun t =>
    if t = chr '*' then some .MULT
    else if t = chr '/' then some .DIV
    else if t = chr '%' then some .MOD
    else none) (unary_expression c uninit n constant_expression n)

def additive_expression : P V V :=
  binary c n (fun t =>
    if t = chr '+' then some .PLUS
    else if t = chr '-' then some .MINUS
    else none) (multiplicative_expression c uninit n constant_expression)

def shift_expression : P V V :=
  binary c n (fun t =>
    if t = SN_LS then some .LS
    else if t = SN_RS then some .RS
    else none) (additive_expression c uninit n constant_expression)

def relational_expression : P V V :=
  binary c n (fun t =>
    if t = chr '<' then some .L
    else if t = chr '>' then some .G
    else if t = SN_LE then some .LE
    else if t = SN_GE then some .GE
    else none) (shift_expression c uninit n constant_expression)

def equality_expression : P V V :=
  binary c n (fun t =>
    if t = SN_EQ then some .EQ
    else if t = SN_NE then some .NE
    else none) (relational_expression c uninit n constant_expression)

def and_expression : P V V :=
  binary c n (fun t => if t = chr '&' then some .AND else none)
    (equality_expression c uninit n constant_expression)

def exclusive_or_expression : P V V :=
  binary c n (fun t => if t = chr '^' then some .ER else none)
    (and_expression c uninit n constant_expression)

def inclusive_or_expression : P V V :=
  binary c n (fun t => if t = chr '|' then some .OR else none)
    (exclusive_or_expression c uninit n constant_expression)

def logical_and_expression : P V V :=
  binary c n (fun t => if t = SN_ANDAND then some .ANDAND else none)
    (inclusive_or_expression c uninit n constant_expression)

def logical_or_expression : P V V :=
  binary c n (fun t => if t = SN_OROR then some .OROR else none)
    (logical_and_expression c uninit n constant_expression)

/-- The calls of itself go the same way as those of `constant_expression`. -/
def conditional_expression : P V V := do
  let TokenActSave ← save
  let Cexp1 ← logical_or_expression c uninit n constant_expression
  if c.isNull Cexp1 then
    restore TokenActSave
    pure Cexp1
  else if (← token) ≠ chr '?' then pure Cexp1
  else
    step
    let Cexp2 ← constant_expression
    if c.isNull Cexp2 then
      restore TokenActSave
      pure Cexp2
    else if (← token) ≠ chr ':' then
      restore TokenActSave
      pure c.null
    else
      step
      let Cexp3 ← constant_expression
      if c.isNull Cexp3 then
        restore TokenActSave
        pure Cexp3
      else pure (c.op3 Cexp1 Cexp2 Cexp3)

end Functions

/-- `constant_expression` is nothing but `conditional_expression`. -/
def constant_expression {V : Type} (c : Create V) (uninit : List Token → Cexp) : Nat → P V V
  | 0 => unfinished
  | n + 1 => conditional_expression c uninit n (constant_expression c uninit n)

/-! ### The verdict -/

/-- The least `int`. -/
abbrev INT_MIN : BitVec 32 := BitVec.intMin 32

def BinaryOperator.divides (operator : BinaryOperator) : Bool := operator = .DIV || operator = .MOD

/-- The division that the machine does not do. -/
def Computation.traps (x : Computation Cexp) : Bool :=
  x.operator.divides && x.left.typ ≠ CEXP_UNDEF && x.right.typ ≠ CEXP_UNDEF &&
    (x.right.value = 0 || (x.left.value = INT_MIN && x.right.value = -1))

inductive Evaluation
  | ends (mode : Mode)
  | trapped
  | unfinished
  deriving DecidableEq, Repr

def verdict (Cexp : Cexp) : Mode :=
  if Cexp.typ = CEXP_NULL then .TRUE
  else if Cexp.typ = CEXP_UNDEF then .UNDEF
  else if Cexp.value ≠ 0 then .TRUE
  else .FALSE

/-- `__ConstantExpression`; no call and no loop comes back to a token, so that the rounds suffice. -/
def ConstantExpression (uninit : List Token → Cexp) (Token : List Token) : Evaluation :=
  match (constant_expression cexp uninit (Token.length + 2)).run Token with
  | .unfinished => .unfinished
  | .done Cexp _ computations =>
    if computations.any Computation.traps then .trapped else .ends (verdict Cexp)

end SourceNavigator.Cpp.Expr

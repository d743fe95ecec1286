import SourceNavigator.Cpp.Token
import SourceNavigator.Lib.Backtrack

/-!
The expression parser of the second pass (`cpp/cpplib/cp_expression.c`).

Each level of operators is a loop around the next one, which makes all of them
left associative, the assignment operators as well. A function that fails goes
back to the place where it began. Types, names and initializers are read in other
files: what these say there, and how many tokens they read, is a parameter.
-/

namespace SourceNavigator.Cpp.Expression

open Lib (Backtrack)
open Lib.Backtrack (look move failed unfinished loop)

abbrev SN_CATCH : Nat := 261
abbrev SN_OVERLOAD : Nat := 283
abbrev SN_SIZEOF : Nat := 291
abbrev SN_THIS : Nat := 296
abbrev SN_TRY : Nat := 298

/-- The operators for which `f_expr` looks up a function with two arguments. -/
inductive Binary
  | KOMMA
  | ASSIGN | MULTassign | DIVassign | MODassign | PLUSassign | MINUSassign | LSassign | RSassign | ANDassign
  | ERassign | ORassign
  | OROR | ANDAND | OR | ER | AND
  | EQ | NE | L | G | LE | GE
  | LS | RS | PLUS | MINUS | MULT | DIV | MOD
  | DOTstar | ARROWstar
  deriving DecidableEq, Repr

inductive Unary
  | SIZEOF_EXPRESSION | SIZEOF_TYPENAME
  | PRE_ICR | PRE_DECR | POST_ICR | POST_DECR
  | STAR | ET | UPLUS | UMINUS | NOT | BNOT
  | DELETE
  deriving DecidableEq, Repr

inductive Member
  | DOT | ARROW
  deriving DecidableEq, Repr

inductive Call
  | FUNCTION_CALL | CONSTRUCTOR_CALL
  deriving DecidableEq, Repr

/-- Where an expression stands. -/
structure Range where
  lineno_beg : Int
  charno_beg : Int
  lineno_end : Int
  charno_end : Int
  deriving DecidableEq, Repr

/-- `struct sExpr`, with the operators by what belongs to them. -/
inductive Expr_t (Type_t Init_t : Type)
  | OPERATOR_NAME (Name : Text) (range : Range)
  | OPERATOR_TYPE (type : Type_t) (range : Range)
  | unary (operator : Unary) (Expr1 : Expr_t Type_t Init_t)
  | binary (operator : Binary) (Expr1 Expr2 : Expr_t Type_t Init_t)
  | OPERATOR_CONDITIONAL (Expr1 Expr2 Expr3 : Expr_t Type_t Init_t)
  | OPERATOR_CAST (Expr1 Expr2 : Expr_t Type_t Init_t)
  | OPERATOR_ARRAY (Expr1 Expr2 : Expr_t Type_t Init_t)
  | member (operator : Member) (Expr1 Expr2 : Expr_t Type_t Init_t)
  | call (operator : Call) (Expr1 : Expr_t Type_t Init_t) (ListExpr : List (Expr_t Type_t Init_t))
  | OPERATOR_NEW (Expr1 : Expr_t Type_t Init_t) (Init : Option Init_t) (ListExpr : List (Expr_t Type_t Init_t))

/-- The tokens that were stepped over, the last one first, and those from `token( 0 )` on. -/
structure Place where
  before : List StackEntry := []
  rest : List StackEntry

namespace Place

def step (p : Place) : Nat → Place
  | 0 => p
  | n + 1 =>
    match p.rest with
    | [] => p
    | t :: ts => step ⟨t :: p.before, ts⟩ n

def current (p : Place) : StackEntry := p.rest.headD ⟨0, [], 0, 0⟩

def last (p : Place) : StackEntry := p.before.headD ⟨0, [], 0, 0⟩

end Place

/-- The types that the parser makes itself. -/
inductive Simple
  | CHAR | SHORT | INT | LONG | SIGNED | UNSIGNED | FLOAT | DOUBLE | BOOL | VOID | STRING
  | none
  deriving DecidableEq, Repr

/-- What is read in other files, with the number of tokens. -/
structure Parts (Type_t Init_t : Type) where
  f_Name : Place → Option (Text × Nat)
  f_CompleteClassName : Place → Option (Text × Nat)
  f_TypeName : Place → Option (Type_t × Nat)
  f_NewTypeName : Place → Option (Type_t × Nat)
  f_NewInitializer : Place → Option (Init_t × Nat)
  f_TypeCreate : Simple → Type_t
  f_TypeCreateName : Text → Type_t

abbrev Read (α : Type) := Backtrack Place α

def token (i : Nat) : Read Nat := look fun p => Cpp.token p.rest i

def step (n : Nat) : Read Unit := move fun p => p.step n

/-- `if( token( 0 ) == c ) step( 1 );` -/
def stepOver (c : Nat) : Read Unit := do
  let t ← token 0
  if t = c then step 1 else pure ()

/-- A step over `c`, which has to be there. -/
def expect (c : Nat) : Read Unit := do
  let t ← token 0
  if t = c then step 1 else failed

/-- `f_lineno( 0 )` and `f_charno( 0 )` -/
def place : Read (Int × Int) := look fun p => (p.current.lineno, p.current.charno)

/-- The end of the token at the place. -/
def endOfToken : Read (Int × Int) :=
  look fun p => (p.current.lineno, p.current.charno + p.current.ident.length)

/-- The end of the token in front of the place. -/
def endOfLast : Read (Int × Int) := look fun p => (p.last.lineno, p.last.charno + p.last.ident.length)

def range (beg fin : Int × Int) : Range := ⟨beg.1, beg.2, fin.1, fin.2⟩

/-- The result of another file. -/
def part {α : Type} (f : Place → Option (α × Nat)) : Read α :=
  ⟨fun p =>
    match f p with
    | none => .failed
    | some (a, n) => .found a (p.step n)⟩

/-- `f_StepTo` -/
def f_StepTo : Nat → List Nat → Place → Place
  | 0, _, p => p
  | n + 1, aiToken, p =>
    let iToken := Cpp.token p.rest 0
    if iToken ∈ aiToken ∨ iToken = 0 then p
    else
      match [(chr '(', chr ')'), (chr '[', chr ']'), (chr '{', chr '}'), (chr '<', chr '>')].lookup iToken with
      | some close => f_StepTo n aiToken ((f_StepTo n [close] (p.step 1)).step 1)
      | none => f_StepTo n aiToken (p.step 1)

def f_IsNameSimpleTypeName (Name : Text) : Bool :=
  let behind (c : Char) := Name.reverse.takeWhile fun x => x != c.toUInt8
  Name.contains '<'.toUInt8 && (!Name.contains ':'.toUInt8 || (behind '<').length < (behind ':').length)

/-! ### Levels -/

/-- The functions, from the loosest operators to the tightest. -/
inductive Level
  | expression | assignment_expression | conditional_expression | logical_or_expression | logical_and_expression | inclusive_or_expression | exclusive_or_expression | and_expression
  | equality_expression | relational_expression | shift_expression | additive_expression | multiplicative_expression | pm_expression | cast_expression | unary_expression | postfix_expression | primary_expression
  deriving DecidableEq, Repr

namespace Level

/-- The tokens and operators of the loop. -/
def operators (template_arg : Bool) : Level → List (Nat × Binary)
  | expression => [(chr ',', .KOMMA)]
  | assignment_expression =>
    [(chr '=', .ASSIGN), (SN_MULTassign, .MULTassign), (SN_DIVassign, .DIVassign), (SN_MODassign, .MODassign),
      (SN_PLUSassign, .PLUSassign), (SN_MINUSassign, .MINUSassign), (SN_LSassign, .LSassign),
      (SN_RSassign, .RSassign), (SN_ANDassign, .ANDassign), (SN_ERassign, .ERassign), (SN_ORassign, .ORassign)]
  | logical_or_expression => [(SN_OROR, .OROR)]
  | logical_and_expression => [(SN_ANDAND, .ANDAND)]
  | inclusive_or_expression => [(chr '|', .OR)]
  | exclusive_or_expression => [(chr '^', .ER)]
  | and_expression => [(chr '&', .AND)]
  | equality_expression => [(SN_EQ, .EQ), (SN_NE, .NE)]
  | relational_expression =>
    (chr '<', .L) :: (if template_arg then [] else [(chr '>', .G)]) ++ [(SN_LE, .LE), (SN_GE, .GE)]
  | shift_expression => [(SN_LS, .LS), (SN_RS, .RS)]
  | additive_expression => [(chr '+', .PLUS), (chr '-', .MINUS)]
  | multiplicative_expression => [(chr '*', .MULT), (chr '/', .DIV), (chr '%', .MOD)]
  | pm_expression => [(SN_DOTstar, .DOTstar), (SN_ARROWstar, .ARROWstar)]
  | conditional_expression | cast_expression | unary_expression | postfix_expression | primary_expression => []

/-- The function that is called for the operands. -/
def next : Level → Level
  | expression => assignment_expression
  | assignment_expression => conditional_expression
  | conditional_expression => logical_or_expression
  | logical_or_expression => logical_and_expression
  | logical_and_expression => inclusive_or_expression
  | inclusive_or_expression => exclusive_or_expression
  | exclusive_or_expression => and_expression
  | and_expression => equality_expression
  | equality_expression => relational_expression
  | relational_expression => shift_expression
  | shift_expression => additive_expression
  | additive_expression => multiplicative_expression
  | multiplicative_expression => pm_expression
  | pm_expression => cast_expression
  | cast_expression => unary_expression
  | unary_expression => postfix_expression
  | postfix_expression | primary_expression => primary_expression

end Level

/-- The operators in front of an operand, with the function that reads it. -/
def prefixes : List (Nat × Unary × Level) :=
  [(SN_ICR, .PRE_ICR, .unary_expression), (SN_DECR, .PRE_DECR, .unary_expression),
    (chr '*', .STAR, .cast_expression), (chr '&', .ET, .cast_expression), (chr '+', .UPLUS, .cast_expression),
    (chr '-', .UMINUS, .cast_expression), (chr '!', .NOT, .cast_expression), (chr '~', .BNOT, .cast_expression)]

def postfixes : List (Nat × Unary) := [(SN_ICR, .POST_ICR), (SN_DECR, .POST_DECR)]

def members : List (Nat × Member) := [(chr '.', .DOT), (SN_ARROW, .ARROW)]

def simpleTypes : List (Nat × Simple) :=
  [(SN_CHAR, .CHAR), (SN_SHORT, .SHORT), (SN_INT, .INT), (SN_LONG, .LONG), (SN_SIGNED, .SIGNED),
    (SN_UNSIGNED, .UNSIGNED), (SN_FLOAT, .FLOAT), (SN_DOUBLE, .DOUBLE), (SN_BOOL, .BOOL), (SN_VOID, .VOID)]

def constants : List (Nat × Simple) :=
  [(SN_INTEGERconstant, .INT), (SN_LONGconstant, .LONG), (SN_CHARACTERconstant, .CHAR),
    (SN_FLOATINGconstant, .FLOAT), (SN_THIS, .none)]

/-- Keywords of C++ that are names in C. -/
def keywordNames : List Nat :=
  [SN_ASM, SN_CATCH, SN_CLASS, SN_DELETE, SN_FRIEND, SN_INLINE, SN_NEW, SN_OPERATOR, SN_OVERLOAD, SN_PRIVATE,
    SN_PROTECTED, SN_PUBLIC, SN_TEMPLATE, SN_THROW, SN_TRY, SN_VIRTUAL, SN_VOLATILE]

/-- The same behind `.` and `->`. -/
def memberKeywords : List Nat := SN_THIS :: keywordNames.filter fun t => t ≠ SN_OPERATOR

variable {Type_t Init_t : Type}

/-- The loop around `body`, which steps over a token in each round. -/
def rounds {α β : Type} (body : β → Read (β ⊕ α)) (x : β) : Read α := do
  let length ← look fun p => p.rest.length
  loop (length + 1) body x

/-- The function of a level. -/
def level (operators : List (Nat × Binary)) (operand : Read (Expr_t Type_t Init_t)) : Read (Expr_t Type_t Init_t) := do
  let Expr1 ← operand
  rounds (fun Expr1 => do
    let t ← token 0
    match operators.lookup t with
    | none => return .inr Expr1
    | some operator => do
        step 1
        let Expr2 ← operand
        return .inl (.binary operator Expr1 Expr2)) Expr1

section Functions

variable (parts : Parts Type_t Init_t)

/-- A name as it stands. -/
def keywordName : Read (Expr_t Type_t Init_t) := do
  let Name ← look fun p => p.current.ident
  let beg ← place
  let fin ← endOfToken
  step 1
  return .OPERATOR_NAME Name (range beg fin)

/-- A name that `f_Name` reads, with `front` in front of it. -/
def name (front : Text) : Read (Expr_t Type_t Init_t) := do
  let beg ← place
  let Name ← part parts.f_Name
  let fin ← endOfLast
  return .OPERATOR_NAME (front ++ Name) (range beg fin)

def expression_member_name : Read (Expr_t Type_t Init_t) := do
  let t ← token 0
  if t ∈ memberKeywords then keywordName else name parts []

variable (template_arg : Bool)

section Levels

variable (cast_expression : Read (Expr_t Type_t Init_t))

def pm_expression := level (Level.pm_expression.operators template_arg) cast_expression
def multiplicative_expression :=
  level (Level.multiplicative_expression.operators template_arg) (pm_expression template_arg cast_expression)
def additive_expression :=
  level (Level.additive_expression.operators template_arg) (multiplicative_expression template_arg cast_expression)
def shift_expression :=
  level (Level.shift_expression.operators template_arg) (additive_expression template_arg cast_expression)
def relational_expression :=
  level (Level.relational_expression.operators template_arg) (shift_expression template_arg cast_expression)
def equality_expression :=
  level (Level.equality_expression.operators template_arg) (relational_expression template_arg cast_expression)
def and_expression := level (Level.and_expression.operators template_arg) (equality_expression template_arg cast_expression)
def exclusive_or_expression :=
  level (Level.exclusive_or_expression.operators template_arg) (and_expression template_arg cast_expression)
def inclusive_or_expression :=
  level (Level.inclusive_or_expression.operators template_arg) (exclusive_or_expression template_arg cast_expression)
def logical_and_expression :=
  level (Level.logical_and_expression.operators template_arg) (inclusive_or_expression template_arg cast_expression)
@[irreducible] def logical_or_expression :=
  level (Level.logical_or_expression.operators template_arg) (logical_and_expression template_arg cast_expression)

end Levels

mutual

def expression : Nat → Read (Expr_t Type_t Init_t)
  | 0 => unfinished
  | n + 1 => level (Level.expression.operators template_arg) (assignment_expression n)

def assignment_expression : Nat → Read (Expr_t Type_t Init_t)
  | 0 => unfinished
  | n + 1 => level (Level.assignment_expression.operators template_arg) (conditional_expression n)

def conditional_expression : Nat → Read (Expr_t Type_t Init_t)
  | 0 => unfinished
  | n + 1 => do
      let Expr1 ← logical_or_expression template_arg (cast_expression n)
      let t ← token 0
      if t ≠ chr '?' then return Expr1
      else do
        step 1
        let Expr2 ← expression n
        expect (chr ':')
        let Expr3 ← conditional_expression n
        return .OPERATOR_CONDITIONAL Expr1 Expr2 Expr3

/-- The end of the range of a cast is a line number twice. -/
def cast_expression : Nat → Read (Expr_t Type_t Init_t)
  | 0 => unfinished
  | n + 1 =>
    Backtrack.or
      (do
        let beg ← place
        expect (chr '(')
        let type ← part parts.f_TypeName
        let fin ← endOfToken
        expect (chr ')')
        let Expr2 ← cast_expression n
        return .OPERATOR_CAST (.OPERATOR_TYPE type (range beg (fin.1, fin.1))) Expr2)
      (unary_expression n)

def unary_expression : Nat → Read (Expr_t Type_t Init_t)
  | 0 => unfinished
  | n + 1 =>
    Backtrack.or (allocation_expression n) <|
    Backtrack.or (deallocation_expression n) <|
    Backtrack.or
      (do
        let t ← token 0
        if t ≠ chr '~' then postfix_expression n else failed) <| do
    let t ← token 0
    if t = SN_SIZEOF then do
      step 1
      Backtrack.or
        (do
          let beg ← place
          expect (chr '(')
          let type ← part parts.f_TypeName
          let fin ← endOfToken
          expect (chr ')')
          return .unary .SIZEOF_TYPENAME (.OPERATOR_TYPE type (range beg fin)))
        (do
          let Expr1 ← unary_expression n
          return .unary .SIZEOF_EXPRESSION Expr1)
    else
      match prefixes.lookup t with
      | some (operator, operand) => do
          step 1
          let Expr1 ← (if operand = .unary_expression then unary_expression n else cast_expression n)
          return .unary operator Expr1
      | none => failed

/-- The call of a constructor behind the type. -/
def constructor_call : Nat → Type_t → Read (Expr_t Type_t Init_t)
  | 0, _ => unfinished
  | n + 1, type => do
      let beg ← place
      expect (chr '(')
      let ListExpr ← expression_list_opt n
      let fin ← endOfToken
      expect (chr ')')
      return .call .CONSTRUCTOR_CALL (.OPERATOR_TYPE type (range beg fin)) ListExpr

def postfix_expression : Nat → Read (Expr_t Type_t Init_t)
  | 0 => unfinished
  | n + 1 => do
      let Expr1 ←
        Backtrack.or
          (do
            let t ← token 0
            match simpleTypes.lookup t with
            | some simple => do
                step 1
                constructor_call n (parts.f_TypeCreate simple)
            | none =>
              if t = SN_IDENTIFIER ∨ t = SN_CLCL then do
                let Name ← part parts.f_CompleteClassName
                if f_IsNameSimpleTypeName Name then constructor_call n (parts.f_TypeCreateName Name) else failed
              else failed)
          (primary_expression n)
      rounds (postfix_round n) Expr1

/-- A round of the loop of `postfix_expression`. -/
def postfix_round : Nat → Expr_t Type_t Init_t → Read (Expr_t Type_t Init_t ⊕ Expr_t Type_t Init_t)
  | 0, _ => unfinished
  | n + 1, Expr1 => do
      let t ← token 0
      if t = chr '[' then do
        step 1
        let Expr2 ← expression n
        stepOver (chr ']')
        return .inl (.OPERATOR_ARRAY Expr1 Expr2)
      else if t = chr '(' then do
        step 1
        let ListExpr ← expression_list_opt n
        move fun p => f_StepTo (p.rest.length + 1) [chr ')', chr ';', chr '{', chr '}'] p
        expect (chr ')')
        return .inl (.call .FUNCTION_CALL Expr1 ListExpr)
      else
        match members.lookup t with
        | some operator => do
            step 1
            let Expr2 ← expression_member_name parts
            return .inl (.member operator Expr1 Expr2)
        | none =>
          match postfixes.lookup t with
          | some operator => do
              step 1
              return .inl (.unary operator Expr1)
          | none => return .inr Expr1

def primary_expression : Nat → Read (Expr_t Type_t Init_t)
  | 0 => unfinished
  | n + 1 => do
      let t ← token 0
      if t ∈ keywordNames then keywordName
      else
        match constants.lookup t with
        | some simple => do
            let beg ← place
            let fin ← endOfToken
            step 1
            return .OPERATOR_TYPE (parts.f_TypeCreate simple) (range beg fin)
        | none =>
          if t = SN_STRINGliteral then do
            let beg ← place
            move fun p => p.step (p.rest.takeWhile fun t => t.token == SN_STRINGliteral).length
            let fin ← endOfLast
            return .OPERATOR_TYPE (parts.f_TypeCreate .STRING) (range beg fin)
          else if t = SN_CLCL then do
            step 1
            name parts (ascii "::")
          else if t = chr '(' then do
            step 1
            let Expr ← expression n
            expect (chr ')')
            return Expr
          else name parts []

def allocation_expression : Nat → Read (Expr_t Type_t Init_t)
  | 0 => unfinished
  | n + 1 => do
      stepOver SN_CLCL
      expect SN_NEW
      let ListExpr ← placement_opt n
      let beg ← place
      let t ← token 0
      if t = chr '(' then do
        step 1
        let type ← part parts.f_TypeName
        let fin ← endOfToken
        stepOver (chr ')')
        let Init ← Backtrack.or (some <$> part parts.f_NewInitializer) (pure none)
        return .OPERATOR_NEW (.OPERATOR_TYPE type (range beg fin)) Init ListExpr
      else do
        let type ← part parts.f_NewTypeName
        let fin ← endOfLast
        let Init ← Backtrack.or (some <$> part parts.f_NewInitializer) (pure none)
        return .OPERATOR_NEW (.OPERATOR_TYPE type (range beg fin)) Init ListExpr

def placement_opt : Nat → Read (List (Expr_t Type_t Init_t))
  | 0 => unfinished
  | n + 1 =>
    Backtrack.or
      (do
        expect (chr '(')
        let ListExpr ← expression_list n
        stepOver (chr ')')
        return ListExpr)
      (pure [])

def deallocation_expression : Nat → Read (Expr_t Type_t Init_t)
  | 0 => unfinished
  | n + 1 => do
      stepOver SN_CLCL
      expect SN_DELETE
      let t ← token 0
      let t' ← token 1
      if t = chr '[' ∧ t' = chr ']' then step 2 else pure ()
      let Expr1 ← cast_expression n
      return .unary .DELETE Expr1

def expression_list : Nat → Read (List (Expr_t Type_t Init_t))
  | 0 => unfinished
  | n + 1 => do
      let Expr ← assignment_expression n
      rounds (fun ListExpr => do
        let t ← token 0
        if t = chr ',' then do
          step 1
          let Expr ← assignment_expression n
          return .inl (ListExpr ++ [Expr])
        else return .inr ListExpr) [Expr]

/-- Behind a comma an expression can be missing. -/
def expression_list_opt : Nat → Read (List (Expr_t Type_t Init_t))
  | 0 => unfinished
  | n + 1 =>
    Backtrack.or
      (do
        let Expr ← assignment_expression n
        rounds (fun ListExpr => do
          let t ← token 0
          if t = chr ',' then do
            step 1
            Backtrack.or
              (do
                let Expr ← assignment_expression n
                return .inl (ListExpr ++ [Expr]))
              (return .inr ListExpr)
          else return .inr ListExpr) [Expr])
      (pure [])

end

end Functions

end SourceNavigator.Cpp.Expression

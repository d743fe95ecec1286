import Mathlib.Data.List.Basic
import SourceNavigator.Cpp.Token

/-!
Macro calls inside of a macro body (`cpp/cpplib/process.c`).

The tokens of the body are read one by one; a token that was read too early is
put back. `f_ProcessTokenMacroInput` delivers the next token, or the expansion of
a macro that is called there. `f_ProcessParamCreate` collects the arguments of a
call behind its opening parenthesis, one by one with `f_ProcessParamToken`, in an
array of 100 entries.

Macros are looked up with `f_MacroFind`, whose answer can change while a body is
processed: it is a parameter that is asked with the tokens that are left. The
chain of macros that were used is not a part of the result.
-/

namespace SourceNavigator.Cpp.Process

inductive MacroType
  | CPP_DEFINE | CPP_MACRO | CPP_UNDEF
  deriving DecidableEq, Repr

/-- `struct sMacro`, as far as a call reads it. -/
structure Macro where
  typ : MacroType
  tilt : Bool := false
  Token : List Token := []
  deriving DecidableEq, Repr

/-- The arguments of a call (`struct sParam`). -/
abbrev Param := List (List Token)

def f_ParameterPosition (Param : Param) (position : Nat) : List Token := (Param[position]?).getD []

/-- One token of the body of a macro that is called at `TokenBasic`. -/
def mergeToken (TokenBasic : Token) (Param : Option Param) (TokenMacro : Token) : List Token :=
  match Param with
  | some Param =>
    if 0 ≤ TokenMacro.iParameter then f_ParameterPosition Param TokenMacro.iParameter.toNat
    else [merged]
  | none => [merged]
where
  merged : Token :=
    { TokenMacro with
      mode := .FALSE
      iParameter := -1
      lineno_beg := TokenBasic.lineno_beg
      charno_beg := TokenBasic.charno_beg
      lineno_end := TokenBasic.lineno_end
      charno_end := TokenBasic.charno_end }

/-- `f_MacroMerge` with the body that is not processed yet. -/
def f_MacroMerge (Macro : Macro) (TokenBasic : Token) (Param : Option Param) : List Token :=
  Macro.Token.flatMap (mergeToken TokenBasic Param)

/-! ### The tokens of the body -/

structure Input where
  /-- `TokenProcessUnput` -/
  unput : Option Token := none
  /-- The tokens of the body from the next one on. -/
  rest : List Token

namespace Input

/-- The tokens that are still to be read. -/
def tokens (s : Input) : List Token := s.unput.toList ++ s.rest

end Input

def f_ProcessTokenInput (s : Input) : Option Token × Input :=
  match s.unput with
  | some Token => (some Token, { s with unput := none })
  | none =>
    match s.rest with
    | [] => (none, s)
    | Token :: rest => (some Token, { s with rest := rest })

/-- There is no state behind the exit with an error. -/
def f_ProcessTokenUnput (Token : Option Token) (s : Input) : Option Input :=
  match s.unput with
  | some _ => none
  | none => some { s with unput := Token }

/-! ### Calls -/

/-- How a function ends. -/
inductive Collected (α : Type)
  | done (result : α) (s : Input)
  /-- `bContinue` is read and nothing was stored in it. -/
  | undecided
  /-- An argument is stored behind the end of the array. -/
  | overflow
  /-- `exit( -1 )` -/
  | fatal
  | unfinished

def Collected.bind {α β : Type} : Collected α → (α → Input → Collected β) → Collected β
  | done a s, f => f a s
  | undecided, _ => undecided
  | overflow, _ => overflow
  | fatal, _ => fatal
  | unfinished, _ => unfinished

section Calls

variable (f_MacroFind : List Token → Text → Option Macro)

/-- The macro that an identifier calls which is not a parameter. -/
def macroOf (Token : Token) (left : List Cpp.Token) : Option Macro :=
  if Token.lex = SN_IDENTIFIER ∧ Token.iParameter = -1 then
    match f_MacroFind left Token.text with
    | some Macro => if !Macro.tilt then some Macro else none
    | none => none
  else none

/-- The number of entries of the array of arguments. -/
abbrev PARAMETERS : Nat := 100

mutual

/-- The next token or the expansion of a macro, and which of them it is. -/
def f_ProcessTokenMacroInput : Nat → Input → Collected (List Token × Bool)
  | 0, _ => .unfinished
  | n + 1, s =>
    match f_ProcessTokenInput s with
    | (none, s) => .done ([], false) s
    | (some Token, s) =>
      match macroOf f_MacroFind Token s.tokens with
      | none => .done ([Token], false) s
      | some Macro =>
        match Macro.typ with
        | .CPP_DEFINE => .done (f_MacroMerge Macro Token none, true) s
        | .CPP_MACRO =>
          match f_ProcessTokenInput s with
          | (TokenNext, s) =>
            if (TokenNext.map fun t => t.lex) = some (chr '(') then
              (f_ProcessParamCreate n [] s).bind fun Param s =>
                .done (f_MacroMerge Macro Token (some Param), true) s
            else
              match f_ProcessTokenUnput TokenNext s with
              | none => .fatal
              | some s => .done ([Token], false) s
        | .CPP_UNDEF => .done ([Token], false) s

/-- The rounds of the loop behind the first arguments. -/
def f_ProcessParamCreate : Nat → Param → Input → Collected Param
  | 0, _, _ => .unfinished
  | n + 1, Param, s =>
    (f_ProcessParamToken n [] 0 s).bind fun found s =>
      if PARAMETERS ≤ Param.length then .overflow
      else
        match found.2 with
        | none => .undecided
        | some true => f_ProcessParamCreate n (Param ++ [found.1]) s
        | some false => .done (Param ++ [found.1]) s

/-- The rounds of the loop behind the first tokens, with `p` parentheses open. Besides the tokens
the result is what was stored in `*pbContinue`. -/
def f_ProcessParamToken : Nat → List Token → Nat → Input → Collected (List Token × Option Bool)
  | 0, _, _, _ => .unfinished
  | n + 1, TokenReturn, p, s =>
    (f_ProcessTokenMacroInput n s).bind fun next s =>
      if next.2 then f_ProcessParamToken n (TokenReturn ++ next.1) p s
      else
        match next.1 with
        | [] => .done (TokenReturn, none) s
        | Token :: _ =>
          if p = 0 ∧ Token.lex = chr ',' then .done (TokenReturn, some true) s
          else if p = 0 ∧ (Token.lex = chr ')' ∨ Token.lex = 0) then
            .done (TokenReturn, some false) s
          else
            f_ProcessParamToken n (TokenReturn ++ next.1)
              (if Token.lex = chr '(' then p + 1 else if Token.lex = chr ')' then p - 1 else p) s

end

end Calls

end SourceNavigator.Cpp.Process

import SourceNavigator.Cpp.Types.Lex
import SourceNavigator.Lib.Program

/-!
Types that are read from a text (`f_TypeFromString` in `cpp/cpplib/cp_type.c`).

A type is a list of specifiers and a declarator, and a declarator is a list of
operators from the name outwards. A function has a list of declarations as its
arguments, each again with specifiers and a declarator.

The functions read the tokens by their distance from the current one, and the
token behind the last one is `0` for ever. A round of the loop over arguments
that uses up no token is repeated for ever; the tokens in front of which a round
begins are recorded.
-/

namespace SourceNavigator.Cpp.Types

open Lib Lib.Program

/-! ### Types -/

/-- The specifiers of a declaration (`struct sDeclaration`) or a type (`struct sType`). -/
structure Specifiers where
  storage_class : Nat := 0
  fct_specifier : Nat := 0
  s_unknown : Bool := false
  s_ellipsis : Bool := false
  s_const : Bool := false
  s_volatile : Bool := false
  s_char : Bool := false
  s_short : Bool := false
  s_int : Bool := false
  s_long : Bool := false
  s_signed : Bool := false
  s_unsigned : Bool := false
  s_float : Bool := false
  s_double : Bool := false
  s_bool : Bool := false
  s_void : Bool := false
  Name : Option Text := none
  /-- A class, with its name. -/
  Class : Option (Option Text) := none
  /-- An enumeration, with its name. -/
  Enum : Option (Option Text) := none
  deriving DecidableEq, Repr

mutual

/-- `struct sOper` -/
inductive Oper
  | POINTER_STAR (s_const s_volatile : Bool) (Name : Option Text)
  | POINTER_AMPERSAND (s_const s_volatile : Bool)
  | ARRAY
  | FUNCTION (ListDeclaration : List Declaration)

/-- `struct sDeclarator`, with the name and the operators. -/
inductive Declarator
  | mk (Name : Option Text) (ListOper : List Oper)

/-- `struct sDeclaration` -/
inductive Declaration
  | mk (specifiers : Specifiers) (ListDeclarator : List Declarator)

end

def Declarator.ListOper : Declarator → List Oper
  | mk _ ListOper => ListOper

/-- `struct sType` -/
structure Type_t where
  specifiers : Specifiers := {}
  Declarator : Option Declarator := none

/-- `f_TypeCreateInt()` -/
def f_TypeCreateInt : Type_t := { specifiers := { s_int := true } }

/-- A declaration has no `s_unknown`. -/
def f_TypeCastToDeclaration (type : Type_t) : Declaration :=
  .mk { type.specifiers with storage_class := 0, s_unknown := false } type.Declarator.toList

/-! ### Tokens -/

structure State where
  left : List Tok
  /-- The tokens in front of which a round of the loop over arguments begins. -/
  rounds : List (List Tok) := []

abbrev M := Program (fun _ : State => ())

/-- `Token( i )` -/
def token (i : Nat) : M Nat := read fun s => ((s.left[i]?).map Tok.iToken).getD 0

def TokenIdent (i : Nat) : M Text := read fun s => ((s.left[i]?).map Tok.text).getD []

def TokenStep (i : Nat) : M Unit := change fun s => { s with left := s.left.drop i }

def TokenSave : M (List Tok) := read State.left

def TokenRestore (left : List Tok) : M Unit := change fun s => { s with left := left }

/-- A round of the loop over arguments begins. -/
def beginRound : M Unit := change fun s => { s with rounds := s.rounds ++ [s.left] }

/-! ### Names -/

section Functions

variable (n : Nat)

def TemplateArgList (pname : Text) : M Text := do
  TokenStep 1
  loop n (fun (i, pname) => do
    if i = 0 then pure (.inr pname)
    else
      let t ← token 0
      let i := if t = chr '>' then i - 1 else if t = chr '<' then i + 1 else if t = 0 then 0 else i
      let text ← TokenIdent 0
      TokenStep 1
      pure (.inl (i, f_Strcat pname text))) (1, pname ++ ascii "<")

/-- The two colons in front of a name. -/
def leadingColons : M Text := do
  if (← token 0) = SN_CLCL then
    TokenStep 1
    pure (f_Strcat [] (ascii "::"))
  else pure []

/-- A component of a name, with its template arguments. -/
def firstComponent (ac : Text) : M Text := do
  let ac := f_Strcat ac (← TokenIdent 0)
  TokenStep 1
  if (← token 0) = chr '<' then TemplateArgList n ac else pure ac

/-- The components behind the first one. -/
def moreComponents (ac : Text) : M Text :=
  loop n (fun ac => do
    if (← token 0) = SN_CLCL ∧ (← token 1) = SN_IDENTIFIER then
      let ac := f_Strcat (f_Strcat ac (ascii "::")) (← TokenIdent 1)
      TokenStep 2
      pure (.inl ac)
    else pure (.inr ac)) ac

def CompleteClassName : M (Option Text) := do
  let iTokenA_Save ← TokenSave
  let ac ← leadingColons
  if (← token 0) = SN_IDENTIFIER then
    let ac ← firstComponent n ac
    let ac ← moreComponents n ac
    pure (some ac)
  else
    TokenRestore iTokenA_Save
    pure none

/-! ### Operators -/

/-- Whether `const` and `volatile` are among the qualifiers. -/
def CvQualifierList : M (Bool × Bool) :=
  loop n (fun (s_const, s_volatile) => do
    let t ← token 0
    if t = SN_CONST then
      TokenStep 1
      pure (.inl (true, s_volatile))
    else if t = SN_VOLATILE then
      TokenStep 1
      pure (.inl (s_const, true))
    else pure (.inr (s_const, s_volatile))) (false, false)

def PtrOperator : M (Option Oper) := do
  let iTokenA_Save ← TokenSave
  let t ← token 0
  if t = chr '*' then
    TokenStep 1
    let cv ← CvQualifierList n
    pure (some (.POINTER_STAR cv.1 cv.2 none))
  else if t = chr '&' then
    TokenStep 1
    let cv ← CvQualifierList n
    pure (some (.POINTER_AMPERSAND cv.1 cv.2))
  else if t = SN_IDENTIFIER ∨ t = SN_CLCL then
    let Name ← CompleteClassName n
    -- the name stays behind when it is not followed by two colons
    if (← token 0) ≠ SN_CLCL then pure none
    else
      TokenStep 1
      if (← token 0) = chr '*' then
        TokenStep 1
        let cv ← CvQualifierList n
        pure (some (.POINTER_STAR cv.1 cv.2 Name))
      else
        TokenRestore iTokenA_Save
        pure none
  else
    TokenRestore iTokenA_Save
    pure none

variable (TypeName : M (Option Type_t))

/-- The loop in which tokens are skipped behind an argument that is no type. -/
def skipArgument : M Unit :=
  loop n (fun _ => do
    let t ← token 0
    if t = chr ')' ∨ t = chr ',' ∨ t = SN_ELLIPSIS ∨ t = 0 then pure (.inr ())
    else
      TokenStep 1
      pure (.inl ())) ()

/-- The type of an argument. -/
def argument : M Type_t := do
  match ← TypeName with
  | some type => pure type
  | none =>
    skipArgument n
    pure f_TypeCreateInt

def ArgumentDeclarationList : M (List Declaration) :=
  loop n (fun ListDeclaration => do
    beginRound
    let before ← TokenSave
    let t ← token 0
    if t = SN_ELLIPSIS then
      TokenStep 1
      pure (.inr (ListDeclaration ++ [.mk { s_ellipsis := true } []]))
    else if t = chr ',' then
      TokenStep 1
      pure (.inl ListDeclaration)
    else if t = chr ')' then pure (.inr ListDeclaration)
    else
      let type ← argument n TypeName
      if (← TokenSave) = before then endless
      else pure (.inl (ListDeclaration ++ [f_TypeCastToDeclaration type]))) []

def FunctionOrArrayList : M (List Oper) :=
  loop n (fun ListOper => do
    let t ← token 0
    if t = chr '[' then
      TokenStep 2
      pure (.inl (ListOper ++ [.ARRAY]))
    else if t = chr '(' then
      TokenStep 1
      let ListDeclaration ← ArgumentDeclarationList n TypeName
      TokenStep 1
      pure (.inl (ListOper ++ [.FUNCTION ListDeclaration]))
    else pure (.inr ListOper)) []

/-- The operators of a declarator in parentheses, behind the first of them. -/
def parenthesized (iTokenA_Save : List Tok) (AbstractDeclarator : M (Option (List Oper))) :
    M (Option (List Oper)) := do
  match ← AbstractDeclarator with
  | some ListOper =>
    if (← token 0) = chr ')' then
      TokenStep 1
      let ListOper2 ← FunctionOrArrayList n TypeName
      pure (some (ListOper ++ ListOper2))
    else
      TokenRestore iTokenA_Save
      pure none
  | none =>
    TokenRestore iTokenA_Save
    pure none

/-- The operators of the declarator. -/
def AbstractDeclarator : Nat → M (Option (List Oper))
  | 0 => unfinished
  | k + 1 => do
      let iTokenA_Save ← TokenSave
      let t ← token 0
      if t = chr '*' ∨ t = chr '&' ∨ t = SN_IDENTIFIER ∨ t = SN_CLCL then
        match ← PtrOperator n with
        | none => pure none
        | some OperPointer =>
          let Declarator ← AbstractDeclarator k
          pure (some (Declarator.getD [] ++ [OperPointer]))
      else if t = chr '[' then
        let ListOper ← FunctionOrArrayList n TypeName
        pure (some ListOper)
      else if t = chr '(' then
        TokenStep 1
        match ← PtrOperator n with
        | some _ =>
          TokenRestore iTokenA_Save
          TokenStep 1
          parenthesized n TypeName iTokenA_Save (AbstractDeclarator k)
        | none =>
          if (← token 0) = chr '[' then
            parenthesized n TypeName iTokenA_Save (AbstractDeclarator k)
          else
            TokenRestore iTokenA_Save
            let ListOper ← FunctionOrArrayList n TypeName
            pure (some ListOper)
      else pure none

/-! ### Specifiers -/

/-- The specifier that a keyword sets, and whether it is one of the type itself. -/
def specifier (t : Nat) (type : Specifiers) : Option (Specifiers × Bool) :=
  if t = SN_CONST then some ({ type with s_const := true }, false)
  else if t = SN_VOLATILE then some ({ type with s_volatile := true }, false)
  else if t = SN_INLINE then some ({ type with fct_specifier := SN_INLINE }, false)
  else if t = SN_VIRTUAL then some ({ type with fct_specifier := SN_VIRTUAL }, false)
  else if t = SN_STRUCT ∨ t = SN_UNION ∨ t = SN_CLASS ∨ t = SN_ENUM then some (type, false)
  else if t = SN_CHAR then some ({ type with s_char := true }, true)
  else if t = SN_SHORT then some ({ type with s_short := true }, true)
  else if t = SN_INT then some ({ type with s_int := true }, true)
  else if t = SN_LONG then some ({ type with s_long := true }, true)
  else if t = SN_FLOAT then some ({ type with s_float := true }, true)
  else if t = SN_DOUBLE then some ({ type with s_double := true }, true)
  else if t = SN_BOOL then some ({ type with s_bool := true }, true)
  else if t = SN_VOID then some ({ type with s_void := true }, true)
  else if t = SN_SIGNED then some ({ type with s_signed := true }, true)
  else if t = SN_UNSIGNED then some ({ type with s_unsigned := true }, true)
  else none

/-- The loop of `TypeName` over the specifiers. -/
def specifierList : M (Option Type_t) :=
  loop n (fun (type, bFirst) => do
    let t ← token 0
    match specifier t type with
    | some (type, explicit) =>
      TokenStep 1
      pure (.inl (type, bFirst && !explicit))
    | none =>
      if t = SN_IDENTIFIER then
        if bFirst then
          let Name ← CompleteClassName n
          pure (.inl ({ type with Name := Name }, false))
        else
          match ← AbstractDeclarator n TypeName n with
          | none =>
            let Name ← CompleteClassName n
            pure (.inl ({ type with Name := type.Name <|> Name }, false))
          | some ListOper => pure (.inr (some ⟨type, some (.mk none ListOper)⟩))
      else if t = chr '*' ∨ t = chr '&' ∨ t = SN_CLCL ∨ t = chr '[' ∨ t = chr '(' then
        if bFirst then pure (.inr none)
        else
          match ← AbstractDeclarator n TypeName n with
          | none => pure (.inr none)
          | some ListOper => pure (.inr (some ⟨type, some (.mk none ListOper)⟩))
      else if bFirst then pure (.inr none)
      else pure (.inr (some ⟨type, none⟩))) ({}, true)

end Functions

/-- A type, also in parentheses. -/
def TypeName : Nat → M (Option Type_t)
  | 0 => unfinished
  | n + 1 => do
      if (← token 0) = chr '(' then
        TokenStep 1
        let type ← TypeName n
        TokenStep 1
        pure type
      else specifierList n (TypeName n)

/-- The run of `f_TypeFromString`; every call and every round that is not repeated for ever uses up
a token, so that there are enough rounds. -/
def f_TypeFromString (type : Text) : Outcome State (Option Type_t) :=
  (TypeName ((lex type).length + 3)).run { left := lex type }

end SourceNavigator.Cpp.Types

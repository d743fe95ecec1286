import SourceNavigator.Cpp.FirstPass.State

/-!
The functions of the first pass that step over tokens (`cpp/cparser.c`).

Each loop is written as the function that says, from what the loop has counted
and the tokens that are left, whether the loop goes on and with what counts.
-/

namespace SourceNavigator.Cpp.FirstPass

open Lib Lib.Program

/-- The loops that count one kind of bracket until all are closed. -/
def brackets (opening closing : Char) (i : Nat) (ts : List StackEntry) : Option Nat :=
  let t := Cpp.token ts 0
  if i = 0 ∨ t = 0 then none
  else if t = chr opening then some (i + 1)
  else if t = chr closing then some (i - 1)
  else some i

/-- The loops that look for one of some tokens or the end of the file. -/
def untilToken (stop : List Nat) (_ : Unit) (ts : List StackEntry) : Option Unit :=
  if Cpp.token ts 0 = 0 ∨ Cpp.token ts 0 ∈ stop then none else some ()

def asm_declaration : M Bool := call .asm_declaration id do
  enter
  scanning (untilToken [chr ';']) ()
  step 1
  leave
  pure true

/-- The counts of `initializer` and `constant_expression`. -/
structure Parens where
  paren1 : Int := 0
  paren2 : Int := 0
  paren3 : Int := 0
  deriving DecidableEq, Repr

def initializerNext (p : Parens) (ts : List StackEntry) : Option Parens :=
  let t := Cpp.token ts 0
  if t = chr '(' then some { p with paren1 := p.paren1 + 1 }
  else if t = chr ')' then some { p with paren1 := p.paren1 - 1 }
  else if t = chr '{' then some { p with paren2 := p.paren2 + 1 }
  else if t = chr '}' then some { p with paren2 := p.paren2 - 1 }
  else if t = chr '[' then some { p with paren3 := p.paren3 + 1 }
  else if t = chr ']' then some { p with paren3 := p.paren3 - 1 }
  else if t = 0 then none
  else if (t = chr ',' ∨ t = chr ';') ∧ p.paren1 = 0 ∧ p.paren2 = 0 ∧ p.paren3 = 0 then none
  else some p

def initializer : M Unit := callVoid .initializer do
  enter
  let _ ← scanning initializerNext {}
  leave

def ctor_initializer : M Unit := callVoid .ctor_initializer do
  enter
  scanning (untilToken [chr ';', chr '{']) ()
  if (← token 0) = chr ';' then
    if (← token 1) = chr '{' then step 1
  leave

def constantNext (p : Parens) (ts : List StackEntry) : Option Parens :=
  let t := Cpp.token ts 0
  if t = chr '(' then some { p with paren1 := p.paren1 + 1 }
  else if t = chr ')' then some { p with paren1 := p.paren1 - 1 }
  else if t = chr '[' then some { p with paren3 := p.paren3 + 1 }
  else if t = chr ']' then some { p with paren3 := p.paren3 - 1 }
  else if t = 0 then none
  else if (t = chr ',' ∨ t = chr ';' ∨ t = chr '}') ∧ p.paren1 = 0 ∧ p.paren3 = 0 then none
  else some p

def constant_expression : M Unit := callVoid .constant_expression do
  enter
  let _ ← scanning constantNext {}
  leave

/-- The open braces of a function body, and `niveau`, which follows them. -/
structure Braces where
  paren1 : Int
  niveau : Int
  started : Bool
  deriving DecidableEq, Repr

def compoundNext (b : Braces) (ts : List StackEntry) : Option Braces :=
  let t := Cpp.token ts 0
  if (b.started ∧ b.paren1 = 0) ∨ t = 0 then none
  else if t = chr '{' then some ⟨b.paren1 + 1, b.niveau + 1, true⟩
  else if t = chr '}' then some ⟨b.paren1 - 1, b.niveau - 1, true⟩
  else some { b with started := true }

def compound_statement : M Unit := callVoid .compound_statement do
  let niveau_save ← read State.niveau
  enter
  let b ← scanning compoundNext ⟨0, ← read State.niveau, false⟩
  if b.started ∧ b.paren1 = 0 then setNiveau (b.niveau - 1)
  else setNiveau niveau_save

/-- The depth, whether no argument token was there yet, and the text so far. -/
structure Arguments where
  i : Nat
  bFirst : Bool
  plstr : LongString
  deriving DecidableEq, Repr

def templateNext (a : Arguments) (ts : List StackEntry) : Option Arguments :=
  let t := Cpp.token ts 0
  let i := if t = chr '<' then a.i + 1 else if t = chr '>' then a.i - 1 else a.i
  if t = 0 ∨ i = 0 then none
  else
    let entry : StackEntry := { token := t, ident := Cpp.ident ts 0 }
    some ⟨i, false, .ofText (Names.appendToken a.bFirst a.plstr.text entry)⟩

def template_argument_skip (plstr : LongString) : M LongString := callVoid .template_argument_skip do
  enter
  step 1
  let a ← scanning templateNext ⟨1, true, plstr.append (ascii "<")⟩
  if (← token 0) = 0 then
    leave
    pure a.plstr
  else
    step 1
    leave
    pure (a.plstr.append (ascii ">"))

/-- `case RBRACE` leaves the loop with a step, as `case ';'` does outside braces. -/
def declarationEnd (i : Int) (ts : List StackEntry) : Option Int :=
  let t := Cpp.token ts 0
  if t = chr '{' then some (i + 1)
  else if t = chr '}' then if i - 1 ≤ 0 then none else some (i - 1)
  else if t = 0 then none
  else if t = chr ';' ∧ i = 0 then none
  else some i

def skip_declaration : M Unit := callVoid .skip_declaration do
  enter
  let _ ← scanning declarationEnd 0
  if (← token 0) = 0 then leave
  else
    step 1
    leave

/-- `public`, `private` and `protected` with a colon after them. -/
def accessLabel (ts : List StackEntry) : Bool :=
  (Cpp.token ts 0 = SN_PRIVATE ∨ Cpp.token ts 0 = SN_PUBLIC ∨ Cpp.token ts 0 = SN_PROTECTED) ∧
    Cpp.token ts 1 = chr ':'

def memberEnd (i : Int) (ts : List StackEntry) : Option Int :=
  let t := Cpp.token ts 0
  let i := if t = chr '{' then i + 1 else if t = chr '}' then i - 1 else i
  if t = 0 ∨ (i = 0 ∧ (t = chr ';' ∨ accessLabel ts)) ∨ i < 0 then none else some i

def skip_member_declaration : M Bool := call .skip_member_declaration id do
  enter
  let _ ← scanning memberEnd 0
  if (← token 0) = 0 then
    leave
    pure false
  else if (← token 0) = chr ';' then
    step 1
    leave
    pure true
  else
    leave
    pure true

def expressionEnd (paren : Nat) (ts : List StackEntry) : Option Nat :=
  let t := Cpp.token ts 0
  if t = chr '(' then some (paren + 1)
  else if t = chr ')' then if paren = 0 then none else some (paren - 1)
  else if t = chr ',' then if paren = 0 then none else some paren
  else some paren

def skip_expression : M Unit := callVoid .skip_expression do
  enter
  let _ ← skipping .expression expressionEnd 0
  leave

/-- The end of the file is compared with the character `'0'`. -/
def macroCallEnd (i : Nat) (ts : List StackEntry) : Option Nat :=
  let t := Cpp.token ts 0
  if i = 0 then none
  else if t = chr ')' then some (i - 1)
  else if t = chr '(' then some (i + 1)
  else if t = chr '0' then none
  else some i

/-- From behind the opening parenthesis of a macro call. -/
def macroCall : M Unit := do
  let _ ← skipping .macroCall macroCallEnd 1

def skip_macro (t : Nat) : M Bool := call ParseFunction.skip_macro id do
  let iva_save ← save
  enter
  if (← token 0) = SN_IDENTIFIER then
    step 1
    if (← token 0) = chr '(' then
      step 1
      macroCall
  if (← token 0) = t then
    leave
    pure true
  else
    leave
    restore iva_save
    pure false

def skip_macro_2 : M Unit := callVoid .skip_macro_2 do
  enter
  if (← token 0) = SN_IDENTIFIER ∧ (← token 1) = chr '(' then
    step 2
    macroCall
  leave

def skip_member_macro : M Bool := call ParseFunction.skip_member_macro id do
  let iva_save ← save
  enter
  let skipped ← do
    if (← token 0) = SN_IDENTIFIER then
      step 1
      if (← token 0) = chr '(' then
        step 1
        macroCall
        let t ← token 0
        pure (t ≠ chr ';' && t ≠ chr ':' && t ≠ chr '{' && t ≠ chr '(')
      else pure false
    else pure false
  if skipped then
    leave
    pure true
  else
    leave
    restore iva_save
    pure false

def function_argument_base_spec : M Bool := call .function_argument_base_spec id do
  let iva_save ← save
  enter
  scanning (untilToken [chr '{']) ()
  if (← token 0) = 0 then
    restore iva_save
    leave
    pure false
  else
    leave
    pure true

def namespaceNext (plstr : LongString) (ts : List StackEntry) : Option LongString :=
  if Cpp.token ts 0 = SN_CLCL then some (plstr.append (ascii "::"))
  else if Cpp.token ts 0 = SN_IDENTIFIER then some (plstr.idAppend (Cpp.ident ts 0))
  else none

def namespace_name (plstr : LongString) : M (Bool × LongString) := call .namespace_name Prod.fst do
  enter
  let plstr ← scanning namespaceNext plstr
  leave
  pure (true, plstr)

/-! ### The name behind a body -/

/-- The brackets of any kind up to the next comma or semicolon outside of them. -/
def declaratorEnd (i : Int) (ts : List StackEntry) : Option Int :=
  let t := Cpp.token ts 0
  let i := if t = chr '{' ∨ t = chr '[' ∨ t = chr '(' then i + 1
    else if t = chr '}' ∨ t = chr ']' ∨ t = chr ')' then i - 1 else i
  if t = 0 ∨ (i = 0 ∧ (t = chr ',' ∨ t = chr ';')) then none else some i

/-- The first declarator that is a plain name. -/
def plainDeclarator : Nat → Int → List StackEntry → Option StackEntry
  | 0, _, _ => none
  | n + 1, i, ts =>
    let t := Cpp.token ts 1
    if Cpp.token ts 0 = SN_IDENTIFIER ∧ (t = chr ',' ∨ t = chr ';' ∨ t = chr '=') then ts.head?
    else
      match scan declaratorEnd i (ts.drop 1) with
      | none => none
      | some (k, i) =>
        let ts := ts.drop (k + 1)
        if Cpp.token ts 0 = chr ';' ∨ Cpp.token ts 0 = 0 then none
        else plainDeclarator n i (ts.drop 1)

/-- The braces of the body, counted from its opening brace. -/
def bodyEnd (i : Int × Bool) (ts : List StackEntry) : Option (Int × Bool) :=
  let t := Cpp.token ts 0
  if (i.2 ∧ i.1 = 0) ∨ t = 0 then none
  else if t = chr '{' then some (i.1 + 1, true)
  else if t = chr '}' then some (i.1 - 1, true)
  else some (i.1, true)

/-- What `get_struct_name` finds; the position does not change. -/
def structName (ts : List StackEntry) : Option StackEntry :=
  match scan (untilToken [chr '{']) () ts with
  | none => none
  | some (k, _) =>
    match scan bodyEnd (0, false) (ts.drop k) with
    | none => none
    | some (k', i, _) => plainDeclarator (ts.length + 1) i ((ts.drop k).drop k')

def get_struct_name : M (Option StackEntry) := read fun s => structName s.left

end SourceNavigator.Cpp.FirstPass

import SourceNavigator.Cpp.FirstPass.Report

/-!
Names, enumerations and pointer operators in the first pass (`cpp/cparser.c`).

The functions of the parser call each other without an order. Those through
which every cycle of calls goes are the fields of `Calls`; the other functions
take these and are ordinary definitions. `fuel` bounds the rounds of the loops
that are not loops over tokens alone.
-/

namespace SourceNavigator.Cpp.FirstPass

open Lib Lib.Program SymbolType

/-- The functions that a cycle of calls goes through. -/
structure Calls where
  fuel : Nat
  qualified_class_name : LongString → M LongString
  qualified_name : Declarator → M (Bool × Declarator)
  declarator : Declarator → M (Bool × Declarator)
  kr_argument_declarator : Declarator → M (Bool × Declarator)
  function_argument_declarator : Declarator → M (Bool × Declarator)
  function_argument_declaration_list : LongString → LongString → M (LongString × LongString)
  f_class : Option Declaration → Class → M (Bool × Option Declaration × Class)
  declaration : Option LongString → M Unit

/-! ### Enumerations -/

def enumerator (e : Enum) : M Bool := call .enumerator id do
  let iva_save ← save
  enter
  if (← token 0) = SN_IDENTIFIER then
    let lineno ← f_lineno 0
    let charno ← f_charno 0
    Put_symbol ⟨PAF_ENUM_CONST_DEF, none, some (← ident 0), lineno, charno, lineno, charno, 0,
      e.name.buf, none, none, lineno, charno, lineno, charno + (← identleng 0)⟩
    step 1
    if (← token 0) = chr '=' then
      step 1
      constant_expression
      leave
      pure true
    else
      leave
      pure true
  else
    restore iva_save
    leave
    pure false

def enum_list (c : Calls) (e : Enum) : M Bool := call .enum_list id do
  enter
  step 1
  loop c.fuel (fun () => do
    if ← enumerator e then
      if (← token 0) = chr ',' then step 1
      pure (.inl ())
    else pure (.inr ())) ()
  leave
  pure true

/-- The report of an enumeration, behind its closing brace. -/
def Enum.report (e : Enum) (lineno charno : Int) : M Unit := do
  Put_symbol ⟨PAF_ENUM_DEF, get_scope e.name.buf, get_name e.name.buf, lineno, charno,
    ← lineno_before, (← charno_before) + 1, 0, none, none, none, e.lineno_beg, e.charno_beg,
    e.lineno_end, e.charno_end⟩

/-- A class or enumeration without a name in a `typedef` gets the name that is declared with it. -/
structure Named where
  name : LongString
  lineno_beg : Int
  charno_beg : Int
  lineno_end : Int
  charno_end : Int
  declaration : Option Declaration

def typedefName (d : Option Declaration) (name : LongString)
    (lineno_beg charno_beg lineno_end charno_end : Int) : M Named := do
  match d with
  | some declaration =>
    if declaration.storage_class = SN_TYPEDEF then
      match ← get_struct_name with
      | some found =>
        let name := name.idCopy found.ident
        pure ⟨name, found.lineno, found.charno, found.lineno, found.charno + name.len,
          some { declaration with
            storage_class := SN_TYPEDEF_TO_CLASS
            type_name := declaration.type_name.idAppend name.text }⟩
      | none => pure ⟨name.copy ANONYM, lineno_beg, charno_beg, lineno_end, charno_end, d⟩
    else pure ⟨name.copy ANONYM, lineno_beg, charno_beg, lineno_end, charno_end, d⟩
  | none => pure ⟨name.copy ANONYM, lineno_beg, charno_beg, lineno_end, charno_end, d⟩

def f_enum (c : Calls) (d : Option Declaration) (e : Enum) : M (Bool × Option Declaration × Enum) :=
  call .f_enum Prod.fst do
    enter
    let lineno ← f_lineno 0
    let charno ← f_charno 0
    let e := { e with
      lineno_beg := lineno
      charno_beg := charno
      lineno_end := lineno
      charno_end := charno + (← identleng 0) }
    let d := d.map fun d => { d with type_of_type_name := SN_ENUM }
    step 1
    if (← token 0) = chr '{' then
      let x ← typedefName d e.name e.lineno_beg e.charno_beg e.lineno_end e.charno_end
      let e : Enum := ⟨x.name, x.lineno_beg, x.charno_beg, x.lineno_end, x.charno_end⟩
      let lineno ← f_lineno 0
      let charno := (← f_charno 0) + 1
      let _ ← enum_list c e
      scanning (untilToken [chr '}']) ()
      step 1
      e.report lineno charno
      let d := x.declaration.map fun d =>
        if d.type_name.buf = none then { d with type_name := d.type_name.idAppend e.name.text } else d
      leave
      pure (true, d, e)
    else
      let name := e.name.idCopy (← ident 0)
      let lineno ← f_lineno 0
      let charno ← f_charno 0
      let e : Enum := ⟨name, lineno, charno, lineno, charno + name.len⟩
      step 1
      if (← token 0) = chr '{' then
        let _ ← enum_list c e
        scanning (untilToken [chr '}']) ()
        step 1
        e.report lineno charno
      let d := d.map fun d => { d with type_name := d.type_name.idAppend e.name.text }
      leave
      pure (true, d, e)

/-! ### Class names -/

def qualified_class_name (c : Calls) (plstr : LongString) : M LongString :=
  callVoid .qualified_class_name do
    enter
    let plstr := plstr.idAppend (← ident 0)
    step 1
    let plstr ← if (← token 0) = chr '<' then template_argument_skip plstr else pure plstr
    if (← token 0) = SN_CLCL ∧ (← token 1) = SN_IDENTIFIER then
      step 1
      let plstr ← c.qualified_class_name (plstr.append (ascii "::"))
      leave
      pure plstr
    else
      leave
      pure plstr

def complete_class_name (c : Calls) (plstr : LongString) : M (Bool × LongString) :=
  call .complete_class_name Prod.fst do
    let iva_save ← save
    enter
    if (← token 0) = SN_CLCL then
      step 1
      let plstr := plstr.append (ascii "::")
      if (← token 0) = SN_IDENTIFIER then
        let plstr ← c.qualified_class_name plstr
        leave
        pure (true, plstr)
      else
        restore iva_save
        leave
        pure (false, plstr)
    else if (← token 0) = SN_IDENTIFIER then
      let plstr ← c.qualified_class_name plstr
      leave
      pure (true, plstr)
    else
      restore iva_save
      leave
      pure (false, plstr)

/-- The qualifiers met so far, `const` first. -/
def qualifierNext (cv : Bool × Bool) (ts : List StackEntry) : Option (Bool × Bool) :=
  if Cpp.token ts 0 = SN_CONST then some (true, cv.2)
  else if Cpp.token ts 0 = SN_VOLATILE then some (cv.1, true)
  else none

def cv_qualifier_list_opt (plstr : LongString) : M LongString :=
  callVoid .cv_qualifier_list_opt do
    enter
    let cv ← scanning qualifierNext (false, false)
    let plstr := if cv.1 then plstr.append (ascii "const ") else plstr
    let plstr := if cv.2 then plstr.append (ascii "volatile ") else plstr
    leave
    pure plstr

def ptr_operator (c : Calls) (plstr : LongString) : M (Bool × LongString) :=
  call .ptr_operator Prod.fst do
    let iva_save ← save
    enter
    let t ← token 0
    if t = chr '*' ∨ t = chr '&' then
      let plstr := plstr.idAppend (← ident 0)
      step 1
      let plstr ← cv_qualifier_list_opt plstr
      leave
      pure (true, plstr)
    else if t = SN_IDENTIFIER ∨ t = SN_CLCL then
      let (found, plstr) ← complete_class_name c plstr
      if found then
        if (← token 0) = SN_CLCL ∧ (← token 1) = chr '*' then
          step 1
          step 1
          let plstr ← cv_qualifier_list_opt (plstr.append (ascii "::*"))
          leave
          pure (true, plstr)
        else if (← token 0) = chr '*' then
          step 1
          let plstr ← cv_qualifier_list_opt (plstr.append (ascii " *"))
          leave
          pure (true, plstr)
        else
          restore iva_save
          leave
          pure (false, plstr)
      else
        restore iva_save
        leave
        pure (false, plstr)
    else
      restore iva_save
      leave
      pure (false, plstr)

/-! ### Operator names -/

/-- The end of a function that gives up: it goes back and reports failure. -/
def giveUp {α : Type} (iva_save : Nat) (a : α) : M (Bool × α) := do
  restore iva_save
  leave
  pure (false, a)

/-- The end of a function that succeeds. -/
def succeed {α : Type} (a : α) : M (Bool × α) := do
  leave
  pure (true, a)

/-- The text for a class key in the name of a conversion function. -/
def classKeyText (t : Nat) : Option Text :=
  [(SN_INTERFACE, ascii "_class"), (SN_CLASS, ascii "_class"), (SN_STRUCT, ascii "_struct"),
    (SN_UNION, ascii "_union")].lookup t

def conversion_type_specifier (c : Calls) (plstr : LongString) : M (Bool × LongString) :=
  call .conversion_type_specifier Prod.fst do
    let iva_save ← save
    enter
    let t ← token 0
    match classKeyText t with
    | some name =>
      let plstr := plstr.append name
      let (f_ret, _) ← c.f_class none {}
      if f_ret then succeed plstr else giveUp iva_save plstr
    | none =>
      if t = SN_ENUM then
        let plstr := plstr.append (ascii "_enum")
        let (f_ret, _) ← f_enum c none {}
        if f_ret then succeed plstr else giveUp iva_save plstr
      else if t ∈ Names.simpleSpecifiers then
        let plstr := plstr.idAppend (← ident 0)
        step 1
        succeed plstr
      else if t = SN_IDENTIFIER ∨ t = SN_CLCL then
        let (found, plstr) ← complete_class_name c plstr
        if found then succeed plstr else giveUp iva_save plstr
      else giveUp iva_save plstr

def conversion_type_name (c : Calls) (plstr : LongString) : M (Bool × LongString) :=
  call .conversion_type_name Prod.fst do
    let iva_save ← save
    enter
    let (found, plstr) ← conversion_type_specifier c plstr
    if found then
      let plstr ← loop c.fuel (fun plstr => do
        let (found, plstr) ← conversion_type_specifier c plstr
        pure (if found then .inl plstr else .inr plstr)) plstr
      let (pointer, _) ← ptr_operator c {}
      succeed (if pointer then plstr.append (ascii "*") else plstr)
    else giveUp iva_save plstr

def operator_function_name (c : Calls) (plstr : LongString) : M (Bool × LongString) :=
  call .operator_function_name Prod.fst do
    let iva_save ← save
    enter
    if (← token 0) ≠ SN_OPERATOR then giveUp iva_save plstr
    else
      step 1
      let t ← token 0
      match Names.operatorTexts.lookup t with
      | some name =>
        let plstr := plstr.append name
        step 1
        succeed plstr
      | none =>
        if t = chr '(' then
          if (← token 1) = chr ')' then
            let plstr := plstr.append (ascii "operator()")
            step 1
            step 1
            succeed plstr
          else giveUp iva_save plstr
        else if t = chr '[' then
          if (← token 1) = chr ']' then
            let plstr := plstr.append (ascii "operator[]")
            step 1
            step 1
            succeed plstr
          else giveUp iva_save plstr
        else
          let (found, plstr) ← conversion_type_name c (plstr.append (ascii "operator_"))
          if found then succeed plstr else giveUp iva_save plstr

/-- The text goes to the name of a declarator, with the position where its last part begins. -/
def qualified_name (c : Calls) (r : Declarator) : M (Bool × Declarator) :=
  call .qualified_name Prod.fst do
    let iva_save ← save
    enter
    if (← token 0) = SN_IDENTIFIER ∧ (← token 1) = SN_CLCL then
      let r := { r with name := (r.name.idAppend (← ident 0)).append (ascii "::") }
      step 1
      step 1
      let (_, r) ← c.qualified_name r
      succeed r
    else if (← token 0) = SN_IDENTIFIER ∧ (← token 1) = chr '<' then
      let name := (r.name.idAppend (← ident 0)).append (ascii "::")
      step 1
      let r := { r with name := ← template_argument_skip name }
      if (← token 0) = SN_CLCL then
        step 1
        let (_, r) ← c.qualified_name r
        succeed r
      else giveUp iva_save r
    else
      let r := { r with name_lineno_beg := ← f_lineno 0, name_charno_beg := ← f_charno 0 }
      let t ← token 0
      if t = SN_IDENTIFIER then
        let r := { r with name := r.name.idAppend (← ident 0) }
        step 1
        succeed r
      else if t = SN_OPERATOR then
        let (found, name) ← operator_function_name c r.name
        let r := { r with name := name }
        if found then succeed r else giveUp iva_save r
      else if t = chr '~' then
        if (← token 1) = SN_IDENTIFIER then
          step 1
          let r := { r with name := (r.name.append (ascii "~")).idAppend (← ident 0) }
          step 1
          succeed r
        else giveUp iva_save r
      else giveUp iva_save r

end SourceNavigator.Cpp.FirstPass

import SourceNavigator.Cpp.FirstPass.Declarator

/-!
Declarations, classes and K&R parameters in the first pass (`cpp/cparser.c`),
and the main loop.

A declaration is read up to three times: in the keyword mode of the moment, in
the other one, and in the first one again. What is reported during a reading
stays reported when the reading fails.
-/

namespace SourceNavigator.Cpp.FirstPass

open Lib Lib.Program SymbolType

/-! ### Declarators -/

/-- The parameters are read unless the declarator is a pointer or an array already. -/
def function_operator (c : Calls) : Reader := fun r =>
  call .function_operator Prod.fst do
    let iva_save ← save
    enter
    step 1
    if r.base_typ = 0 then
      let (types, names) ← c.function_argument_declaration_list r.types r.names
      let _ ← scanning qualifierNext (false, false)
      succeed { r with types := types, names := names, base_typ := FUNCTION }
    else
      let i ← scanning (brackets '(' ')') 1
      if i ≠ 0 then giveUp iva_save r
      else
        let _ ← scanning qualifierNext (false, false)
        succeed { r with type := r.type.append (ascii "()") }

def array_operator : Reader := fun r =>
  call .array_operator Prod.fst do
    let iva_save ← save
    enter
    step 1
    let i ← scanning (brackets '[' ']') 1
    if i ≠ 0 then giveUp iva_save r
    else
      succeed { r with
        type := r.type.append (ascii "[]")
        base_typ := if r.base_typ = 0 then ARRAY else r.base_typ }

def function_or_array_list (c : Calls) : Reader :=
  functionOrArrayList .function_or_array_list c (function_operator c) array_operator

/-- There is no `Save_d` here: what is left when the list is not accepted is behind the name. -/
def declarator_operator (c : Calls) : Reader := fun r =>
  call .declarator_operator Prod.fst do
    let lineno ← f_lineno 0
    let charno ← f_charno 0
    enter
    let (found, name) ← operator_function_name c r.name
    let r := { r with name := name }
    if found then
      let r ← placed r lineno charno
      let r := { r with name_lineno_beg := lineno, name_charno_beg := charno }
      let (found, r) ← function_or_array_list c r
      if found then succeed r
      else
        log (.unrestored .declarator_operator)
        leave
        pure (false, { r with name := r.name.setLen 0 })
    else
      leave
      pure (false, { r with name := r.name.setLen 0 })

def declarator_tilde (c : Calls) : Reader :=
  tildeDeclarator .declarator_tilde (function_or_array_list c)

def declarator_identifier (c : Calls) : Reader :=
  identifierDeclarator .declarator_identifier c c.declarator (declarator_operator c)
    (function_or_array_list c)

def declarator_star (c : Calls) : Reader := starDeclarator .declarator_star c c.declarator

def declarator_paren (c : Calls) : Reader :=
  parenDeclarator .declarator_paren c.declarator (function_or_array_list c)

/-- The switch of `declarator` and `member_declarator`. -/
def declaratorSwitch (c : Calls) (other : Bool) : Reader := fun r => do
  let t ← token 0
  if t = chr '(' then declarator_paren c r
  else if t = chr '*' ∨ t = chr '&' then declarator_star c r
  else if t = SN_IDENTIFIER ∨ t = SN_CLCL then declarator_identifier c r
  else if t = SN_OPERATOR then declarator_operator c r
  else if t = chr '~' then declarator_tilde c r
  else pure (other, r)

def declarator (c : Calls) : Reader := fun r => call .declarator Prod.fst do
  let len := r.type.len
  enter
  let (ret, r) ← declaratorSwitch c false r
  leave
  pure (ret, if ret then r else { r with type := r.type.setLen len })

/-- A bit-field need not have a name. -/
def member_declarator (c : Calls) : Reader := fun r => call .member_declarator Prod.fst do
  enter
  let (ret, r) ← declaratorSwitch c true r
  leave
  pure (ret, r)

/-! ### K&R parameters -/

abbrev COMMA : UInt8 := 44

/-- `Array_t`: the strings, and whether they were changed. -/
abbrev Arrays := List (Text × Bool) × List (Text × Bool)

/-- The letters, digits and signs of a list of identifiers. -/
def singleChar (c : UInt8) : Bool :=
  (48 ≤ c && c ≤ 57) || (65 ≤ c && c ≤ 90) || (97 ≤ c && c ≤ 122) ||
    c == 95 || c == 36 || c == 46 || c == COMMA

def is_single_parameter_list (types : LongString) : Bool :=
  match types.buf with
  | none => false
  | some [] => false
  | some text => text.all singleChar

def array_create (plstr : LongString) : List (Text × Bool) :=
  ((plstr.buf.getD []).splitOn COMMA).map fun string => (string, false)

/-- The first string that is the name and was not changed gives its place to the type, and the name
goes to the same place among the names. -/
def array_change_type_and_name (arrays : Arrays) (type name : Text) : Option Arrays :=
  match arrays.1.findIdx? fun string => string.1 = name && !string.2 with
  | some i => some (arrays.1.set i (type, true), arrays.2.set i (name, true))
  | none => none

/-- What was not changed is an `int`. -/
def array_change_not_changed (arrays : Arrays) : Arrays :=
  (arrays.1.map fun string => if string.2 then string else (ascii "int", true),
    List.zipWith (fun (string : Text × Bool) name => if string.2 then name else (string.1, name.2))
      arrays.1 arrays.2 ++ arrays.2.drop arrays.1.length)

def array_to_string (array : List (Text × Bool)) : LongString :=
  .ofText (List.intercalate [COMMA] (array.map Prod.fst))

def kr_argument_declarator_identifier (c : Calls) : Reader := fun r =>
  call .kr_argument_declarator_identifier Prod.fst do
    let iva_save ← save
    enter
    if (← token 1) = SN_IDENTIFIER then step 1
    let name := r.name.idCopy (← ident 0)
    let lineno ← f_lineno 0
    let charno ← f_charno 0
    step 1
    let r ← placed { r with name := name, name_lineno_beg := lineno, name_charno_beg := charno }
      lineno charno
    let (found, r) ← function_or_array_list c r
    if found then succeed r else giveUp iva_save r

def kr_argument_declarator_star (c : Calls) : Reader :=
  starDeclarator .kr_argument_declarator_star c c.kr_argument_declarator

def kr_argument_declarator_paren (c : Calls) : Reader :=
  parenDeclarator .kr_argument_declarator_paren c.kr_argument_declarator (function_or_array_list c)

def kr_argument_declarator (c : Calls) : Reader := fun r =>
  call .kr_argument_declarator Prod.fst do
    enter
    let t ← token 0
    let (ret, r) ←
      if t = chr '(' then kr_argument_declarator_paren c r
      else if t = chr '*' then kr_argument_declarator_star c r
      else if t = SN_IDENTIFIER then kr_argument_declarator_identifier c r
      else pure (false, r)
    leave
    pure (ret, r)

/-- A declarator of a list; the strings that it changed stay changed when a later one fails. -/
def kr_argument_declarator_list (c : Calls) (d : Declaration) (arrays : Arrays) : M (Bool × Arrays) :=
  call .kr_argument_declarator_list Prod.fst do
    let iva_save ← save
    enter
    loop c.fuel (fun arrays => do
      let (found, r) ← c.kr_argument_declarator {}
      if found then
        let type := create_type {} d r
        match array_change_type_and_name arrays (type.buf.getD []) (r.name.buf.getD []) with
        | none => return .inr (← giveUp iva_save arrays)
        | some arrays =>
          let t ← token 0
          if t = chr ',' then
            step 1
            return .inl arrays
          else if t = chr ';' then
            step 1
            return .inr (← succeed arrays)
          else return .inr (← giveUp iva_save arrays)
      else return .inr (← giveUp iva_save arrays)) arrays

/-- The specifiers of a K&R parameter that are one keyword. -/
def krSpecifiers : List Nat :=
  [SN_AUTO, SN_REGISTER, SN_CONST, SN_VOLATILE, SN_CHAR, SN_SHORT, SN_INT, SN_LONG, SN_SIGNED,
    SN_UNSIGNED, SN_FLOAT, SN_DOUBLE, SN_BOOL, SN_VOID]

/-- A class name among the specifiers, with its position. -/
def classNameSpecifier (c : Calls) (d : Declaration) : M (Bool × Declaration) := do
  let lineno_beg ← f_lineno 0
  let charno_beg ← f_charno 0
  let (found, type_name) ← complete_class_name c (d.type_name.setLen 0)
  if found then
    return (true, { d with
      type_name := type_name
      complete_class_name := d.complete_class_name.idCopy type_name.text
      lineno_beg := lineno_beg
      charno_beg := charno_beg
      lineno_end := ← lineno_before
      charno_end := (← charno_before) + 1 })
  else return (false, { d with type_name := type_name })

/-- A further specifier of a K&R parameter, or the end of its declaration. -/
def krRound (c : Calls) (iva_save : Nat) (d : Declaration) (arrays : Arrays) :
    M ((Declaration × Arrays) ⊕ (Bool × Arrays)) := do
  let t ← token 0
  if t = chr ';' then
    step 1
    log (.unrestored .kr_argument_declaration)
    leave
    return .inr (false, arrays)
  else if t ∈ classKeys then
    let type_name ← function_argument_class d.storage_class d.type_name
    return .inl ({ d with type_name := type_name }, arrays)
  else if t = SN_ENUM then
    let type_name ← function_argument_enum d.storage_class d.type_name
    return .inl ({ d with type_name := type_name }, arrays)
  else if t ∈ krSpecifiers then
    step 1
    return .inl ((d.specify t).getD d, arrays)
  else if t = SN_IDENTIFIER then
    let (found, arrays) ←
      if ← notDeclarator then pure (false, arrays) else kr_argument_declarator_list c d arrays
    if found then return .inr (← succeed arrays)
    else
      let (found, d) ← classNameSpecifier c d
      if found then return .inl (d, arrays) else return .inr (← giveUp iva_save arrays)
  else if t = chr '(' ∨ t = chr '*' then
    let (found, arrays) ← kr_argument_declarator_list c d arrays
    if found then return .inr (← succeed arrays) else return .inr (← giveUp iva_save arrays)
  else return .inr (← giveUp iva_save arrays)

def kr_argument_declaration (c : Calls) (arrays : Arrays) : M (Bool × Arrays) :=
  call .kr_argument_declaration Prod.fst do
    let iva_save ← save
    enter
    loop c.fuel (fun (d, arrays) => krRound c iva_save d arrays) ({}, arrays)

/-- `strncmp( "va_dcl", text, leng ) == 0`: the length of the identifier decides how much is
compared. -/
def isVaDcl (text : Text) : Bool := text.isPrefixOf (ascii "va_dcl")

/-- The declarations up to the function body: whether they were accepted, and the arrays. -/
def krDeclarations (c : Calls) (iva_save : Nat) (arrays : Arrays) : M (Bool × Arrays) :=
  loop c.fuel (fun arrays => do
    let (found, arrays) ← kr_argument_declaration c arrays
    if found then
      if (← token 0) = chr '{' then return .inr (true, arrays) else return .inl arrays
    else if (← token 0) = SN_IDENTIFIER then
      if isVaDcl (← ident 0) then
        step 1
        if (← token 0) = chr '{' then return .inr (true, arrays) else return .inl arrays
      else
        restore iva_save
        return .inr (false, arrays)
    else
      restore iva_save
      return .inr (false, arrays)) arrays

def kr_argument_declaration_list (c : Calls) (types names : LongString) :
    M (Bool × LongString × LongString) := call .kr_argument_declaration_list Prod.fst do
  let iva_save ← save
  enter
  if !is_single_parameter_list types then
    leave
    restore iva_save
    pure (false, types, names)
  else
    let (retval, arrays) ← krDeclarations c iva_save (array_create types, array_create names)
    leave
    if retval then
      let arrays := array_change_not_changed arrays
      pure (true, array_to_string arrays.1, array_to_string arrays.2)
    else pure (false, types, names)

/-! ### Declarator lists -/

/-- What comes between a declarator and the end of its declaration. -/
def declaratorTail : M Unit := do
  let t ← token 0
  if t = chr '=' then initializer
  else if t ∈ [SN_RETURN, SN_THROW, chr ':'] then ctor_initializer

/-- The function body behind a declarator. -/
def functionBody (d : Declaration) (r : Declarator) : M Unit := do
  let lineno ← f_lineno 0
  let charno ← f_charno 0
  compound_statement
  function d r (← lineno_before) (← charno_before) lineno charno

/-- A function declarator that is followed by neither a body nor an end: the verdict on K&R
parameters, or the declarator to go on with. -/
def krTail (c : Calls) (r : Declarator) : M (Bool ⊕ Declarator) := do
  if r.base_typ = FUNCTION ∧ (← token 0) ≠ chr '{' then
    if ← skip_macro (chr '{') then return .inr r
    else
      let (found, types, names) ← kr_argument_declaration_list c r.types r.names
      if found then return .inr { r with types := types, names := names }
      else
        let declaration_try ← read State.declaration_try
        if declaration_try = 1 ∨ declaration_try = 2 then
          log (.unrestored .declarator_list)
          return .inl false
        else return .inl true
  else return .inr r

def declaratorRound (c : Calls) (iva_save : Nat) (d : Declaration) : M (Unit ⊕ Bool) := do
  let (found, r) ← c.declarator {}
  if found then
    declaratorTail
    let t ← token 0
    if t = chr ',' then
      variable_ d r
      step 1
      return .inl ()
    else if t = chr ';' then
      variable_ d r
      step 1
      leave
      return .inr true
    else
      match ← krTail c r with
      | .inl verdict =>
        leave
        return .inr verdict
      | .inr r =>
        if r.base_typ = FUNCTION ∧ (← token 0) = chr '{' then
          functionBody d r
          leave
          return .inr true
        else
          restore iva_save
          leave
          return .inr false
  else
    restore iva_save
    leave
    return .inr false

def declarator_list (c : Calls) (d : Declaration) : M Bool := call .declarator_list id do
  let iva_save ← save
  enter
  loop c.fuel (fun () => declaratorRound c iva_save d) ()

/-! ### Members -/

/-- The initialiser, bit-field width or exception list of a member. -/
def memberTail (r : Declarator) : M Declarator := do
  let t ← token 0
  if t = chr '=' then
    initializer
    pure { r with pure := true }
  else if t = chr ':' then
    if r.base_typ = FUNCTION then ctor_initializer else constant_expression
    pure r
  else if t = SN_RETURN ∨ t = SN_THROW then
    ctor_initializer
    pure r
  else pure r

/-- The body of a function in a class. -/
def methodBody (k : Class) (d : Declaration) (r : Declarator) : M Unit := do
  let lineno ← f_lineno 0
  let charno ← f_charno 0
  compound_statement
  class_method k d r (← lineno_before) (← charno_before) lineno charno

def memberDeclaratorRound (c : Calls) (iva_save : Nat) (k : Class) (d : Declaration) :
    M (Unit ⊕ Bool) := do
  let (found, r) ← member_declarator c {}
  if found then
    let r ← memberTail r
    let t ← token 0
    if t = chr ',' then
      class_member k d r
      step 1
      return .inl ()
    else if t = chr ';' then
      class_member k d r
      step 1
      leave
      return .inr true
    else if t = chr '{' then
      methodBody k d r
      leave
      return .inr true
    else
      restore iva_save
      leave
      return .inr false
  else
    restore iva_save
    leave
    return .inr false

def member_declarator_list (c : Calls) (k : Class) (d : Declaration) : M Bool :=
  call .member_declarator_list id do
    let iva_save ← save
    enter
    loop c.fuel (fun () => memberDeclaratorRound c iva_save k d) ()

/-- A reading of a declaration gives up. -/
def giveUpReading (iva_save : Nat) : M (Declaration ⊕ Bool) := do
  restore iva_save
  leave
  return .inr false

/-- A class name as the type of what is declared. -/
def typeNameRound (c : Calls) (iva_save : Nat) (d : Declaration) : M (Declaration ⊕ Bool) := do
  let (found, d) ← classNameSpecifier c { d with type_of_type_name := 0 }
  if found then return .inl d else giveUpReading iva_save

/-- A further specifier of a declaration, or the verdict on it. Declarations and members differ in
what they do with a semicolon and in the list of declarators. -/
def specifierRound (c : Calls) (iva_save : Nat) (semicolon : Declaration → M Unit)
    (declarators : Declaration → M Bool) (d : Declaration) : M (Declaration ⊕ Bool) := do
  let t ← token 0
  if t = chr ';' then
    step 1
    semicolon d
    leave
    return .inr true
  else if t ∈ classKeys then
    let (found, d', k) ← c.f_class (some d) d.sClass
    if found then return .inl { d'.getD d with sClass := k } else giveUpReading iva_save
  else if t = SN_ENUM then
    let (found, d', e) ← f_enum c (some d) d.sEnum
    if found then return .inl { d'.getD d with sEnum := e } else giveUpReading iva_save
  else if t = SN_IDENTIFIER then
    let found ← if ← notDeclarator then pure false else declarators d
    if found then
      leave
      return .inr true
    else typeNameRound c iva_save d
  else if t = SN_CLCL then
    if ← declarators d then
      leave
      return .inr true
    else typeNameRound c iva_save d
  else if t ∈ [SN_OPERATOR, chr '(', chr '*', chr '&', chr '~'] then
    if ← declarators d then
      leave
      return .inr true
    else giveUpReading iva_save
  else
    match d.specify t with
    | some d =>
      step 1
      return .inl d
    | none => giveUpReading iva_save

def _member_declaration (c : Calls) (k : Class) : M Bool := call ._member_declaration id do
  let iva_save ← save
  enter
  loop c.fuel (specifierRound c iva_save (class_empty_declarator_list k) (member_declarator_list c k)) {}

/-- A reading of a declaration, with its keyword modes in the trace when it fails. -/
def reading (m : M Bool) : M Bool := do
  let mode ← read State.keyw_cpp
  let found ← m
  if found then pure true
  else
    log (.failed mode (← read State.keyw_cpp))
    pure false

/-- The readings of a declaration, with what came of them in the trace. -/
def choosing (m : M Bool) : M Bool := do
  let mode ← read State.keyw_cpp
  let found ← m
  log (.chosen found mode (← read State.keyw_cpp))
  pure found

/-- `keyw_cpp = ! keyw_cpp` -/
def switchMode : M Unit := change State.switch

def memberReadings (c : Calls) (k : Class) : M Bool := do
  if ← reading (_member_declaration c k) then pure true
  else
    switchMode
    if ← reading (_member_declaration c k) then pure true
    else
      switchMode
      pure false

def member_declaration (c : Calls) (k : Class) : M Bool := call .member_declaration id do
  if ← choosing (memberReadings c k) then pure true
  else
    let iva_save ← save
    if ← skip_member_declaration then pure true
    else
      if (← save) ≠ iva_save then log (.unrestored .member_declaration)
      pure false

/-- The calls of `member` for a skipped macro call are the loop at the start. -/
def member (c : Calls) (k : Class) : M (Bool × Class) := call .member (fun _ => true) do
  loop c.fuel (fun () => do
    if ← skip_member_macro then pure (.inl ()) else pure (.inr ())) ()
  enter
  let t ← token 0
  if t = chr '}' then
    leave
    pure (false, k)
  else if t = SN_PRIVATE ∨ t = SN_PUBLIC ∨ t = SN_PROTECTED then
    if (← token 1) = chr ':' then
      step 1
      step 1
      leave
      pure (true, { k with access := t })
    else
      step 1
      leave
      pure (true, k)
  else
    let more ← member_declaration c k
    leave
    pure (more, k)

def member_list (c : Calls) (k : Class) : M Class := callVoid .member_list do
  enter
  step 1
  let k ← loop c.fuel (fun k => do
    let (more, k) ← member c k
    pure (if more then .inl k else .inr k)) k
  leave
  pure k

/-! ### Classes -/

/-- The attributes of a base class. -/
def baseAttributes : List (Nat × Nat) :=
  [(SN_VIRTUAL, PAF_VIRTUAL), (SN_PRIVATE, PAF_PRIVATE), (SN_PROTECTED, PAF_PROTECTED),
    (SN_PUBLIC, PAF_PUBLIC)]

abbrev LESS : UInt8 := 60

/-- The name of a base class and its template arguments. -/
def splitArguments (name : LongString) : Option Text × Option Text :=
  match name.buf with
  | none => (none, none)
  | some text =>
    match cut LESS text with
    | none => (some text, none)
    | some (class_name, args) => (some class_name, some (LESS :: args))

/-- The name of a base class, and its report. -/
def baseName (c : Calls) (k : Class) (attr : Nat) : M (Nat ⊕ Bool) := do
  let lineno ← f_lineno 0
  let charno ← f_charno 0
  let (found, aname) ← complete_class_name c {}
  if found then
    let attr := if attr = 0 ∧ k.access = SN_PUBLIC then PAF_PUBLIC
      else if attr = 0 ∧ k.access = SN_PRIVATE then PAF_PRIVATE else attr
    let (name, template_args) := splitArguments aname
    let end_lineno ← f_lineno 0
    let end_charno ← f_charno 0
    Put_symbol ⟨PAF_CLASS_INHERIT, k.name.buf, name, lineno, charno, end_lineno, end_charno,
      attr, none, none, template_args, lineno, charno, end_lineno, end_charno⟩
    leave
    return .inr true
  else
    leave
    return .inr false

def baseRound (c : Calls) (k : Class) (attr : Nat) : M (Nat ⊕ Bool) := do
  let t ← token 0
  match baseAttributes.lookup t with
  | some more =>
    step 1
    return .inl (attr ||| more)
  | none =>
    if t = SN_CLCL ∨ t = SN_IDENTIFIER then
      if t = SN_IDENTIFIER ∧ (← token 1) = SN_IDENTIFIER then step 1
      baseName c k attr
    else
      leave
      return .inr false

def base_specifier (c : Calls) (k : Class) : M Bool := call .base_specifier id do
  enter
  loop c.fuel (baseRound c k) 0

def base_spec (c : Calls) (k : Class) : M Bool := call .base_spec id do
  let iva_save ← save
  enter
  step 1
  let body ← loop c.fuel (fun () => do
    if ← base_specifier c k then
      let t ← token 0
      if t = chr '{' then return .inr true
      else if t = chr ',' then
        step 1
        return .inl ()
      else return .inr false
    else return .inr false) ()
  if body then
    leave
    pure true
  else
    scanning (untilToken [chr '{', chr ';']) ()
    if (← token 0) = chr '{' then
      leave
      pure true
    else
      restore iva_save
      leave
      pure false

/-- The kind of a class: the type of its declaration, its access, and how it is reported. -/
def classKind (t : Nat) : Nat × Nat × SymbolType × Nat :=
  if t = SN_STRUCT then (SN_STRUCT, SN_PUBLIC, PAF_CLASS_DEF, PAF_STRUCT_DEF)
  else if t = SN_UNION then (SN_UNION, SN_PUBLIC, PAF_UNION_DEF, 0)
  else (SN_CLASS, SN_PRIVATE, PAF_CLASS_DEF, 0)

/-- The members of a class, and its report behind the closing brace. -/
def classBody (c : Calls) (k : Class) (paf : SymbolType) (attr : Nat) (lineno charno : Int)
    (template_args : Option Text) : M Class := do
  let k ← member_list c k
  scanning (untilToken [chr '}']) ()
  step 1
  Put_symbol ⟨paf, get_scope k.name.buf, get_name k.name.buf, lineno, charno, ← lineno_before,
    (← charno_before) + 1, attr, none, template_args, none, k.lineno_beg, k.charno_beg, k.lineno_end,
    k.charno_end⟩
  pure k

def anonymousClass (d : Option Declaration) (k : Class) : M (Option Declaration × Class) := do
  let x ← typedefName d k.name k.lineno_beg k.charno_beg k.lineno_end k.charno_end
  pure (x.declaration, { k with
    name := x.name
    lineno_beg := x.lineno_beg
    charno_beg := x.charno_beg
    lineno_end := x.lineno_end
    charno_end := x.charno_end })

/-- The base classes and the members of a class, from behind its name. -/
def classBehindName (c : Calls) (d : Option Declaration) (k : Class) (paf : SymbolType) (attr : Nat)
    (lineno charno : Int) : M (Bool × Option Declaration × Class) := do
  if (← token 0) = chr ':' then
    let _ ← base_spec c k
    scanning (untilToken [chr '{', chr ';']) ()
  let k ←
    if (← token 0) = chr '{' then
      let template_args := (d.bind Declaration.outer).bind LongString.buf
      classBody c k paf attr lineno charno template_args
    else pure k
  let d := d.map fun d => { d with type_name := d.type_name.idAppend k.name.text }
  leave
  pure (true, d, k)

/-- A class with a name, from the name on. -/
def classFromName (c : Calls) (d : Option Declaration) (k : Class) (paf : SymbolType) (attr : Nat) :
    M (Bool × Option Declaration × Class) := do
  let lineno ← f_lineno 0
  let charno ← f_charno 0
  let name := k.name.idAppend (← ident 0)
  step 1
  let name ← if (← token 0) = chr '<' then template_argument_skip name else pure name
  let k := { k with
    name := name
    lineno_beg := lineno
    charno_beg := charno
    lineno_end := ← lineno_before
    charno_end := (← charno_before) + (← identleng_before) }
  classBehindName c d k paf attr lineno charno

/-- A class with a name, before which a macro name may stand. -/
def namedClass (c : Calls) (d : Option Declaration) (k : Class) (paf : SymbolType) (attr : Nat) :
    M (Bool × Option Declaration × Class) := do
  if (← token 1) = SN_IDENTIFIER ∧ ((← token 2) = chr ':' ∨ (← token 2) = chr '{' ∨
      (← token 2) = chr '<') then step 1
  classFromName c d k paf attr

/-- The members of a class without a name. -/
def anonymousBody (c : Calls) (d : Option Declaration) (k : Class) (paf : SymbolType) (attr : Nat) :
    M (Bool × Option Declaration × Class) := do
  let lineno ← f_lineno 0
  let charno := (← f_charno 0) + 1
  let k ← classBody c k paf attr lineno charno none
  leave
  pure (true, d, k)

def f_class (c : Calls) (d : Option Declaration) (k : Class) : M (Bool × Option Declaration × Class) :=
  call .f_class Prod.fst do
    let iva_save ← save
    enter
    let lineno ← f_lineno 0
    let charno ← f_charno 0
    let charno_end := charno + (← identleng 0)
    let (type_of_type_name, access, paf, attr) := classKind (← token 0)
    let d := d.map fun d => { d with type_of_type_name := type_of_type_name }
    let k := { k with
      access := access
      lineno_beg := lineno
      charno_beg := charno
      lineno_end := lineno
      charno_end := charno_end }
    step 1
    skip_macro_2
    let t ← token 0
    if t = SN_IDENTIFIER then namedClass c d k paf attr
    else if t = chr ':' then
      let (d, k) ← anonymousClass d k
      let _ ← base_spec c k
      scanning (untilToken [chr '{', chr ';']) ()
      if (← token 0) = chr '{' then anonymousBody c d k paf attr
      else
        restore iva_save
        leave
        pure (false, d, k)
    else if t = chr '{' then
      let (d, k) ← anonymousClass d k
      anonymousBody c d k paf attr
    else
      leave
      pure (true, d, k)

/-! ### Declarations -/

def obj_declaration (c : Calls) (d : Declaration) : M Bool := call .obj_declaration id do
  let iva_save ← save
  enter
  loop c.fuel (specifierRound c iva_save (fun _ => pure ()) (declarator_list c)) d

def template_declaration (c : Calls) (d : Declaration) : M Bool :=
  call .template_declaration id do
    let iva_save ← save
    enter
    step 1
    let t ← token 0
    if t = SN_CLASS ∨ t = SN_INTERFACE then
      step 1
      if (← token 0) = SN_IDENTIFIER then step 1
    if (← token 0) = chr '<' then
      let name ← template_argument_skip d.name
      c.declaration (some name)
      leave
      pure true
    else
      restore iva_save
      leave
      pure false

/-- The declarations of a block, from its opening brace to behind its closing brace. -/
def declarationBlock (c : Calls) (name : LongString) : M Unit := do
  step 1
  loop c.fuel (fun () => do
    let t ← token 0
    if t ≠ chr '}' ∧ t ≠ 0 then
      c.declaration (some name)
      pure (.inl ())
    else pure (.inr ())) ()
  step 1

def linkage_specification (c : Calls) (d : Declaration) : M Bool :=
  call .linkage_specification id do
    enter
    step 1
    step 1
    scanning (fun () ts => if Cpp.token ts 0 = SN_STRINGliteral then some () else none) ()
    if (← token 0) = chr '{' then declarationBlock c d.name else c.declaration (some d.name)
    leave
    pure true

def extern_declaration (c : Calls) (d : Declaration) : M Bool := call .extern_declaration id do
  enter
  let ret ← if (← token 1) = SN_STRINGliteral then linkage_specification c d else obj_declaration c d
  leave
  pure ret

def using_ (d : Declaration) : M Bool := call .using_ id do
  let iva_save ← save
  enter
  if (← token 1) = SN_NAMESPACE then
    step 1
    step 1
  else step 1
  let (found, _) ← namespace_name d.name
  if found then
    leave
    pure true
  else
    restore iva_save
    leave
    pure false

/-- The name of a namespace, or the name it stands for: whether it was read, and the name. -/
def namespaceHead (d : Declaration) : M (Bool × LongString) := do
  if (← token 1) = SN_IDENTIFIER then
    step 1
    step 1
    if (← token 0) = chr '=' then
      step 1
      namespace_name d.name
    else pure (true, d.name)
  else
    step 1
    pure (true, d.name)

def namespace_definition (c : Calls) (d : Declaration) : M Bool :=
  call .namespace_definition id do
    let iva_save ← save
    enter
    let (found, name) ← namespaceHead d
    if found ∧ (← token 0) = chr '{' then
      declarationBlock c name
      leave
      pure true
    else
      restore iva_save
      leave
      pure false

def _declaration (c : Calls) (outer : Option LongString) : M Bool := call ._declaration id do
  enter
  let d : Declaration := { outer := outer }
  let t ← token 0
  let iRetval ←
    if t = SN_ASM then asm_declaration
    else if t = SN_TEMPLATE then template_declaration c d
    else if t = SN_NAMESPACE then namespace_definition c d
    else if t = SN_USING then using_ d
    else if t = SN_EXTERN then extern_declaration c d
    else obj_declaration c d
  leave
  pure iRetval

def setTry (n : Nat) : M Unit := change fun s => s.setTry n

def declarationReadings (c : Calls) (outer : Option LongString) : M Bool := do
  setTry 1
  if ← reading (_declaration c outer) then pure true
  else
    switchMode
    setTry 2
    if ← reading (_declaration c outer) then pure true
    else
      switchMode
      setTry 3
      reading (_declaration c outer)

def declaration (c : Calls) (outer : Option LongString) : M Unit := callVoid .declaration do
  if ← choosing (declarationReadings c outer) then pure () else skip_declaration

/-! ### The cycle of calls -/

/-- Without steps no function does anything. -/
def Calls.none : Calls where
  fuel := 0
  qualified_class_name _ := unfinished
  qualified_name _ := unfinished
  declarator _ := unfinished
  kr_argument_declarator _ := unfinished
  function_argument_declarator _ := unfinished
  function_argument_declaration_list _ _ := unfinished
  f_class _ _ := unfinished
  declaration _ := unfinished

def calls : Nat → Calls
  | 0 => Calls.none
  | n + 1 =>
    let c := calls n
    { fuel := n + 1
      qualified_class_name := FirstPass.qualified_class_name c
      qualified_name := FirstPass.qualified_name c
      declarator := FirstPass.declarator c
      kr_argument_declarator := FirstPass.kr_argument_declarator c
      function_argument_declarator := FirstPass.function_argument_declarator c
      function_argument_declaration_list := FirstPass.function_argument_declaration_list c
      f_class := FirstPass.f_class c
      declaration := FirstPass.declaration c }

/-- The main loop. -/
def startParser (c : Calls) : M Unit :=
  loop c.fuel (fun () => do
    if (← token 0) ≠ 0 then
      c.declaration none
      log (.check (← read State.niveau))
      pure (.inl ())
    else pure (.inr ())) ()

/-- A file: its tokens, the token at its end, and the mode it is read in. -/
structure Source where
  tokens : List Entry
  eof : Entry := ⟨0, 0, [], 0, 0⟩
  is_cpp : Bool := true

def Source.start (x : Source) : State where
  v := x.tokens
  eof := x.eof
  keyw_cpp := x.is_cpp

/-- Enough steps for a file. -/
def Source.fuel (x : Source) : Nat := 8 * x.tokens.length + 8

/-- The run of the first pass over a file. -/
def Source.run (x : Source) : Outcome State Unit := (startParser (calls x.fuel)).run x.start

end SourceNavigator.Cpp.FirstPass

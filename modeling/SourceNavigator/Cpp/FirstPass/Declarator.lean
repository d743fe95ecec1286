import SourceNavigator.Cpp.FirstPass.Names

/-!
Declarators and parameter lists in the first pass (`cpp/cparser.c`).

Three families of functions read declarators: those of declarations and members,
those of K&R parameters and those of parameter lists. Where the members of the
families do the same, they are one definition applied to the functions they
call.
-/

namespace SourceNavigator.Cpp.FirstPass

open Lib Lib.Program SymbolType

/-- A function that reads a part of a declarator. -/
abbrev Reader := Declarator → M (Bool × Declarator)

/-! ### What the families share -/

/-- `'(' declarator ')'` and what follows. -/
def parenDeclarator (f : ParseFunction) (declarator functionOrArray : Reader) : Reader := fun r =>
  call f Prod.fst do
    let iva_save ← save
    let len := r.type.len
    enter
    let r := { r with type := r.type.append (ascii "(") }
    step 1
    let (found, r) ← declarator r
    if found then
      if (← token 0) = chr ')' then
        let r := { r with type := r.type.append (ascii ")") }
        step 1
        let (found, r) ← functionOrArray r
        if found then succeed r
        else giveUp iva_save { r with type := r.type.setLen len }
      else giveUp iva_save { r with type := r.type.setLen len }
    else giveUp iva_save { r with type := r.type.setLen len }

/-- A declarator behind a pointer operator is a pointer unless it is something else. -/
def pointerDeclarator (iva_save : Nat) (declarator : Reader) (aname : LongString) : Reader := fun r => do
  let r := { r with type := r.type.idAppend aname.text }
  let len := r.type.len
  let (found, r) ← declarator r
  if found then
    succeed (if r.base_typ = 0 then { r with base_typ := POINTER } else r)
  else giveUp iva_save { r with type := r.type.setLen len }

def starDeclarator (f : ParseFunction) (c : Calls) (declarator : Reader) : Reader := fun r =>
  call f Prod.fst do
    let iva_save ← save
    enter
    let (found, aname) ← ptr_operator c {}
    if found then pointerDeclarator iva_save declarator aname r else giveUp iva_save r

/-- What comes after the name of a declarator; the name is dropped on failure. -/
def namedDeclarator (iva_save : Nat) (functionOrArray : Reader) : Reader := fun r => do
  let (found, r) ← functionOrArray r
  if found then succeed r else giveUp iva_save { r with name := r.name.setLen 0 }

/-- The declarator with its position, from its first token on. -/
def placed (r : Declarator) (lineno charno : Int) : M Declarator := do
  pure { r with
    lineno_beg := lineno
    charno_beg := charno
    lineno_end := ← lineno_before
    charno_end := (← charno_before) + (← identleng_before) }

def nameDeclarator (iva_save : Nat) (c : Calls) (declarator functionOrArray : Reader)
    (lineno charno : Int) : Reader := fun r => do
  let (found, aname) ← ptr_operator c {}
  if found then pointerDeclarator iva_save declarator aname r
  else
    let (found, r) ← qualified_name c r
    if found then
      let r ← placed r lineno charno
      namedDeclarator iva_save functionOrArray r
    else giveUp iva_save { r with name := r.name.setLen 0 }

def identifierDeclarator (f : ParseFunction) (c : Calls)
    (declarator operator functionOrArray : Reader) : Reader := fun r =>
  call f Prod.fst do
    let iva_save ← save
    let lineno ← f_lineno 0
    let charno ← f_charno 0
    enter
    if (← token 0) = SN_IDENTIFIER ∧ (← token 1) = SN_IDENTIFIER then
      if (← token 2) = chr '(' ∧ (← token 3) = chr '(' then
        nameDeclarator iva_save c declarator functionOrArray lineno charno r
      else
        step 1
        nameDeclarator iva_save c declarator functionOrArray (← f_lineno 0) (← f_charno 0) r
    else if (← token 0) = SN_IDENTIFIER ∧ (← token 1) = SN_OPERATOR then
      step 1
      let (found, r) ← operator r
      if found then succeed r else giveUp iva_save r
    else nameDeclarator iva_save c declarator functionOrArray lineno charno r

def tildeDeclarator (f : ParseFunction) (functionOrArray : Reader) : Reader := fun r =>
  call f Prod.fst do
    let lineno_beg ← f_lineno 0
    let charno_beg ← f_charno 0
    let iva_save ← save
    enter
    step 1
    if (← token 0) = SN_IDENTIFIER then
      let r := { r with
        name_lineno_beg := lineno_beg
        name_charno_beg := charno_beg
        lineno_beg := lineno_beg
        charno_beg := charno_beg
        name := (r.name.copy (ascii "~")).idAppend (← ident 0)
        lineno_end := ← f_lineno 0
        charno_end := (← f_charno 0) + (← identleng 0) }
      step 1
      namedDeclarator iva_save functionOrArray r
    else giveUp iva_save r

/-- The lists behind a name: one parameter list and any arrays. -/
def functionOrArrayList (f : ParseFunction) (c : Calls) (function array : Reader) : Reader := fun r =>
  call f Prod.fst do
    let iva_save ← save
    enter
    if (← token 0) = SN_IDENTIFIER ∧ (← token 1) = chr '(' ∧ (← token 2) = chr '(' then step 1
    loop c.fuel (fun (i, r) => do
      let t ← token 0
      if t = chr '(' then
        let (found, r) ← function r
        if found then
          if i + 1 = 2 then return .inr (← giveUp iva_save r) else return .inl (i + 1, r)
        else return .inr (← giveUp iva_save r)
      else if t = chr '[' then
        let (found, r) ← array r
        if found then return .inl (i, r) else return .inr (← giveUp iva_save r)
      else return .inr (← succeed r)) (0, r)

/-! ### Classes and enumerations in parameters -/

/-- A body in braces, up to its end. -/
def skipBody : M Unit := do
  if (← token 0) = chr '{' then
    step 1
    let _ ← scanning (brackets '{' '}') 1

/-- The name that a class or enumeration without a name appends. -/
def anonymousName (storage_class : Nat) (plstr : LongString) : M LongString := do
  if storage_class = SN_TYPEDEF then
    match ← get_struct_name with
    | some found => pure (plstr.idAppend found.ident)
    | none => pure (plstr.append ANONYM)
  else pure (plstr.append ANONYM)

/-- The base classes and the tokens up to the body. -/
def skipBases : M Unit := do
  let _ ← function_argument_base_spec
  scanning (untilToken [chr '{']) ()

def function_argument_class (storage_class : Nat) (plstr : LongString) : M LongString :=
  callVoid .function_argument_class do
    enter
    step 1
    let t ← token 0
    if t = SN_IDENTIFIER then
      if (← token 1) = SN_IDENTIFIER ∧ ((← token 2) = chr ':' ∨ (← token 2) = chr '{' ∨
          (← token 2) = chr '<') then step 1
      let plstr := plstr.idAppend (← ident 0)
      step 1
      let plstr ← if (← token 0) = chr '<' then template_argument_skip plstr else pure plstr
      if (← token 0) = chr ':' then skipBases
      skipBody
      leave
      pure plstr
    else if t = chr ':' then
      let plstr ← anonymousName storage_class plstr
      skipBases
      skipBody
      leave
      pure plstr
    else if t = chr '{' then
      let plstr ← anonymousName storage_class plstr
      skipBody
      leave
      pure plstr
    else
      leave
      pure plstr

def function_argument_enum (storage_class : Nat) (plstr : LongString) : M LongString :=
  callVoid .function_argument_enum do
    enter
    let plstr := plstr.append (ascii "enum ")
    step 1
    let t ← token 0
    if t = chr ',' ∨ t = chr ')' then
      leave
      pure plstr
    else if t = chr '{' then
      let plstr ← anonymousName storage_class plstr
      skipBody
      leave
      pure plstr
    else
      let plstr := plstr.idAppend (← ident 0)
      step 1
      skipBody
      leave
      pure plstr

/-! ### The declarators of parameter lists -/

def function_argument_function_operator : Reader := fun r =>
  call .function_argument_function_operator Prod.fst do
    let iva_save ← save
    enter
    step 1
    let i ← scanning (brackets '(' ')') 1
    if i ≠ 0 then giveUp iva_save r
    else
      let type ← cv_qualifier_list_opt (r.type.append (ascii "()"))
      succeed { r with type := type, base_typ := if r.base_typ = 0 then FUNCTION else r.base_typ }

/-- An array parameter is a pointer: the star goes before the type so far. -/
def function_argument_array_operator : Reader := fun r =>
  call .function_argument_array_operator Prod.fst do
    let iva_save ← save
    enter
    step 1
    let i ← scanning (brackets '[' ']') 1
    if i ≠ 0 then giveUp iva_save r
    else
      succeed { r with
        type := (LongString.ofText (ascii "*")).idAppend r.type.text
        base_typ := if r.base_typ = 0 then ARRAY else r.base_typ }

def function_argument_function_or_array_list (c : Calls) : Reader :=
  functionOrArrayList .function_argument_function_or_array_list c
    function_argument_function_operator function_argument_array_operator

def function_argument_declarator_operator (c : Calls) : Reader := fun r =>
  call .function_argument_declarator_operator Prod.fst do
    let iva_save ← save
    let lineno ← f_lineno 0
    let charno ← f_charno 0
    enter
    let (found, name) ← operator_function_name c r.name
    let r := { r with name := name }
    if found then
      let r ← placed r lineno charno
      let r := { r with name_lineno_beg := lineno, name_charno_beg := charno }
      namedDeclarator iva_save (function_argument_function_or_array_list c) r
    else giveUp iva_save { r with name := r.name.setLen 0 }

def function_argument_declarator_tilde (c : Calls) : Reader :=
  tildeDeclarator .function_argument_declarator_tilde (function_argument_function_or_array_list c)

def function_argument_declarator_identifier (c : Calls) : Reader :=
  identifierDeclarator .function_argument_declarator_identifier c c.function_argument_declarator
    (function_argument_declarator_operator c) (function_argument_function_or_array_list c)

def function_argument_declarator_star (c : Calls) : Reader :=
  starDeclarator .function_argument_declarator_star c c.function_argument_declarator

def function_argument_declarator_paren (c : Calls) : Reader :=
  parenDeclarator .function_argument_declarator_paren c.function_argument_declarator
    (function_argument_function_or_array_list c)

/-- The last case is an abstract declarator. -/
def function_argument_declarator (c : Calls) : Reader := fun r =>
  call .function_argument_declarator Prod.fst do
    let iva_save ← save
    let len := r.type.len
    enter
    let t ← token 0
    let (ret, r) ←
      if t = chr '(' then function_argument_declarator_paren c r
      else if t = chr '*' ∨ t = chr '&' then function_argument_declarator_star c r
      else if t = SN_IDENTIFIER ∨ t = SN_CLCL then function_argument_declarator_identifier c r
      else if t = SN_OPERATOR then function_argument_declarator_operator c r
      else if t = chr '~' then function_argument_declarator_tilde c r
      else function_argument_function_or_array_list c r
    if ret then succeed r else giveUp iva_save { r with type := r.type.setLen len }

def function_argument_declarator_one (c : Calls) : Reader := fun r =>
  call .function_argument_declarator_one Prod.fst do
    let iva_save ← save
    enter
    let (found, r) ← c.function_argument_declarator r
    let t ← token 0
    if found ∧ (t = chr ',' ∨ t = chr ')' ∨ t = SN_ELLIPSIS) then succeed r
    else if found ∧ (t = chr '=' ∨ t = chr '+' ∨ t = chr '-') then
      skip_expression
      succeed r
    else giveUp iva_save r

/-! ### Parameter lists -/

/-- The specifiers of a declaration that are one keyword. -/
def Declaration.specifiers : List (Nat × (Declaration → Declaration)) :=
  [(SN_AUTO, fun d => { d with storage_class := SN_AUTO }),
    (SN_REGISTER, fun d => { d with storage_class := SN_REGISTER }),
    (SN_STATIC, fun d => { d with storage_class := SN_STATIC }),
    (SN_EXTERN, fun d => { d with storage_class := SN_EXTERN }),
    (SN_INLINE, fun d => { d with fct_specifier := SN_INLINE }),
    (SN_VIRTUAL, fun d => { d with fct_specifier := SN_VIRTUAL }),
    (SN_FRIEND, fun d => { d with storage_class := SN_FRIEND }),
    (SN_TYPEDEF, fun d => { d with storage_class := SN_TYPEDEF }),
    (SN_CONST, fun d => { d with s_const := true }),
    (SN_VOLATILE, fun d => { d with s_volatile := true }),
    (SN_CHAR, fun d => { d with s_char := true }),
    (SN_SHORT, fun d => { d with s_short := true }),
    (SN_INT, fun d => { d with s_int := true }),
    (SN_LONG, fun d => { d with s_long := true }),
    (SN_SIGNED, fun d => { d with s_signed := true }),
    (SN_UNSIGNED, fun d => { d with s_unsigned := true }),
    (SN_FLOAT, fun d => { d with s_float := true }),
    (SN_DOUBLE, fun d => { d with s_double := true }),
    (SN_BOOL, fun d => { d with s_bool := true }),
    (SN_VOID, fun d => { d with s_void := true })]

/-- A declaration with one more specifier. -/
def Declaration.specify (d : Declaration) (t : Nat) : Option Declaration :=
  (specifiers.lookup t).map fun set => set d

/-- The tokens that begin a class. -/
def classKeys : List Nat := [SN_INTERFACE, SN_CLASS, SN_STRUCT, SN_UNION]

/-- An identifier that cannot be a declarator: a pointer operator or a name that no macro call
follows comes next. -/
def notDeclarator : M Bool := do
  let t ← token 1
  if t = chr '*' ∨ t = chr '&' then pure true
  else if t = SN_IDENTIFIER then
    if (← token 2) = chr '(' then pure ((← token 3) ≠ chr '(') else pure true
  else pure false

/-- The constants that stand for a parameter: the type, and whether the text is the name. -/
def constantParameters : List (Nat × Text × Bool) :=
  [(SN_INTEGERconstant, ascii "int", true), (SN_FLOATINGconstant, ascii "double", true),
    (SN_CHARACTERconstant, ascii "char", false), (SN_LONGconstant, ascii "char", true),
    (SN_ELLIPSIS, ascii "...", true)]

/-- The first specifier of a parameter, and a name that cannot be a declarator. -/
def takenForType (count t : Nat) : M Bool :=
  if count = 0 then pure true else if t = SN_IDENTIFIER then notDeclarator else pure false

/-- A class name as a specifier of a parameter. -/
def classNameParameter (c : Calls) (count : Nat) (d : Declaration) :
    M ((Nat × Declaration) ⊕ (Declaration × Declarator)) := do
  let (found, type_name) ← complete_class_name c (d.type_name.setLen 0)
  let d := { d with type_name := type_name }
  if found then return .inl (count + 1, d) else return .inr (d, {})

/-- A further specifier of a parameter, or the declaration and declarator at its end. -/
def argumentRound (c : Calls) (count : Nat) (d : Declaration) :
    M ((Nat × Declaration) ⊕ (Declaration × Declarator)) := do
  let t ← token 0
  if t ∈ classKeys then
    let type_name ← function_argument_class d.storage_class d.type_name
    return .inl (count + 1, { d with type_name := type_name })
  else if t = SN_ENUM then
    let type_name ← function_argument_enum d.storage_class d.type_name
    return .inl (count + 1, { d with type_name := type_name })
  else if t = SN_IDENTIFIER ∨ t = SN_CLCL then
    if ← takenForType count t then classNameParameter c count d
    else
      let (found, r) ← function_argument_declarator_one c {}
      if found then return .inr (d, r) else classNameParameter c count d
  else if t = chr '+' ∨ t = chr '-' ∨ t = chr '=' then
    skip_expression
    return .inr (d, {})
  else if t ∈ [SN_OPERATOR, chr '(', chr '*', chr '&', chr '~', chr '['] then
    let (found, r) ← function_argument_declarator_one c {}
    return .inr (d, if found then r else {})
  else
    match d.specify t with
    | some d =>
      step 1
      return .inl (count + 1, d)
    | none => return .inr (d, {})

def function_argument_declaration (c : Calls) (types names : LongString) :
    M (LongString × LongString) := callVoid .function_argument_declaration do
  enter
  let t ← token 0
  if t = SN_STRINGliteral then
    step 1
    scanning (fun () ts => if Cpp.token ts 0 = SN_STRINGliteral then some () else none) ()
    leave
    pure (types.append (ascii "char*"), names)
  else
    match constantParameters.lookup t with
    | some (type, named) =>
      let text ← ident 0
      step 1
      leave
      pure (types.append type, if named then names.idAppend text else names)
    | none =>
      let (d, r) ← loop c.fuel (fun (count, d) => argumentRound c count d) (0, {})
      leave
      pure (create_type types d r, names.idAppend r.name.text)

/-- The tokens behind `ANSI(( ... )` up to the parenthesis that closes it. -/
def ansiEnd (i : Nat) (ts : List StackEntry) : Option Nat :=
  let t := Cpp.token ts 0
  if t = chr '(' then some (i + 1)
  else if t = chr ')' then if i = 0 then none else some (i - 1)
  else if t = 0 then none
  else some i

/-- The tokens of something unexpected, up to the next parameter or the end of the list. -/
def argumentEnd (i : Nat) (ts : List StackEntry) : Option Nat :=
  let t := Cpp.token ts 0
  if t = chr '(' then some (i + 1)
  else if t = chr ')' then if i = 0 then none else some (i - 1)
  else if t = SN_ELLIPSIS ∨ t = chr ',' then if i = 0 then none else some i
  else if t = 0 then none
  else some i

/-- What comes behind a parameter: another one, or the end of the list. -/
def argumentSeparator (types names : LongString) :
    M ((LongString × LongString) ⊕ (LongString × LongString)) := do
  let t ← token 0
  if t = chr ',' then
    step 1
    return .inl (types.append (ascii ","), names.append (ascii ","))
  else if t = chr ')' then
    step 1
    leave
    return .inr (types, names)
  else
    return .inl (types.append (ascii ","), names.append (ascii ","))

def function_argument_declaration_list (c : Calls) (types names : LongString) :
    M (LongString × LongString) := callVoid .function_argument_declaration_list do
  enter
  if (← token 0) = chr '(' then
    step 1
    let (types, names) ← c.function_argument_declaration_list types names
    let _ ← scanning ansiEnd 0
    step 1
    leave
    pure (types, names)
  else if (← token 0) = chr ')' then
    step 1
    leave
    pure (types, names)
  else
    loop c.fuel (fun (types, names) => do
      let (types, names) ← function_argument_declaration c types names
      let t ← token 0
      if t = chr ',' ∨ t = chr ')' ∨ t = SN_ELLIPSIS then argumentSeparator types names
      else
        let _ ← scanning argumentEnd 0
        let t ← token 0
        if t = chr ')' then
          step 1
          leave
          return .inr (types, names)
        else if t = 0 then
          leave
          return .inr (types, names)
        else argumentSeparator types names) (types, names)

end SourceNavigator.Cpp.FirstPass

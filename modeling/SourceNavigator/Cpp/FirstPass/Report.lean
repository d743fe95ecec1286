import SourceNavigator.Cpp.FirstPass.Skip

/-!
The reports of the first pass (`cpp/cparser.c`).

`create_type` builds the text of a type from a declaration and a declarator; the
other functions decide under which type, scope and name a declarator is
reported.
-/

namespace SourceNavigator.Cpp.FirstPass

open Lib Lib.Program SymbolType

/-! ### Attributes, types and names -/

abbrev PAF_PRIVATE : Nat := 0x000001
abbrev PAF_PROTECTED : Nat := 0x000002
abbrev PAF_PUBLIC : Nat := 0x000004
abbrev PAF_STATIC : Nat := 0x000008
abbrev PAF_VOLATILE : Nat := 0x000100
abbrev PAF_VIRTUAL : Nat := 0x001000
abbrev PAF_INLINE : Nat := 0x002000
abbrev PAF_CONSTRUCTOR : Nat := 0x004000
abbrev PAF_DESTRUCTOR : Nat := PAF_CONSTRUCTOR
abbrev PAF_PUREVIRTUAL : Nat := 0x008000 ||| PAF_VIRTUAL
abbrev PAF_STRUCT_DEF : Nat := 0x010000

/-- An attribute that is set under a condition. -/
def flag (condition : Bool) (attr : Nat) : Nat := if condition then attr else 0

def attr_from_declaration (d : Declaration) : Nat :=
  flag (d.storage_class = SN_STATIC) PAF_STATIC |||
    (flag (d.fct_specifier = SN_INLINE) PAF_INLINE |||
      flag (d.fct_specifier = SN_VIRTUAL) PAF_VIRTUAL) |||
    flag d.s_volatile PAF_VOLATILE

/-- The attribute of the access to a member. -/
def attr_from_access (access : Nat) : Nat :=
  if access = SN_PRIVATE then PAF_PRIVATE
  else if access = SN_PROTECTED then PAF_PROTECTED
  else if access = SN_PUBLIC then PAF_PUBLIC
  else 0

/-- A type under construction, and whether nothing was appended yet. -/
structure TypeText where
  type : LongString
  empty : Bool := true

def TypeText.f_Strcat (t : TypeText) (string : Text) : TypeText where
  type := (if t.empty then t.type else t.type.append (ascii " ")).append string
  empty := false

/-- A word that is appended under a condition. -/
def TypeText.word (t : TypeText) (condition : Bool) (string : String) : TypeText :=
  if condition then t.f_Strcat (ascii string) else t

/-- The words before the type itself. -/
def TypeText.qualifiers (t : TypeText) (d : Declaration) : TypeText :=
  ((((t.word (d.fct_specifier = SN_INLINE) "inline").word
    (d.fct_specifier = SN_VIRTUAL) "virtual").word
    d.s_const "const").word
    d.s_volatile "volatile").word
    d.s_unsigned "unsigned"

/-- `short` and `long` without a word that they belong to. -/
def Declaration.bare (d : Declaration) : Bool := !d.s_int && !d.s_float && !d.s_double

/-- The words of the basic types. -/
def TypeText.basic (t : TypeText) (d : Declaration) : TypeText :=
  let t := t.word (d.s_short && d.bare) "short"
  let t := t.word (d.s_long && d.bare) "long"
  let t := t.word d.s_char "char"
  let t := t.word d.s_int (if d.s_long then "long" else if d.s_short then "short" else "int")
  let t := t.word d.s_float (if d.s_long then "double" else "float")
  let t := t.word d.s_double (if d.s_short then "float" else "double")
  let t := t.word d.s_bool "bool"
  t.word d.s_void "void"

/-- Whether one of the basic types is there. -/
def Declaration.explicit (d : Declaration) : Bool :=
  ((d.s_short || d.s_long) && d.bare) || d.s_char || d.s_int || d.s_float || d.s_double ||
    d.s_bool || d.s_void

/-- The classes and enumerations without a name. -/
def anonymousTypes : List Nat := [SN_INTERFACE, SN_CLASS, SN_STRUCT, SN_UNION, SN_ENUM]

/-- The type name, the text for a class without a name, or `int`. -/
def TypeText.named (t : TypeText) (d : Declaration) : TypeText :=
  if d.type_name.len ≠ 0 then t.f_Strcat (d.type_name.buf.getD [])
  else if d.type_of_type_name ≠ 0 then
    if d.type_of_type_name ∈ anonymousTypes then ⟨t.type.append ANONYM, false⟩ else t
  else t.word (!d.explicit) "int"

def create_type (type : LongString) (d : Declaration) (r : Declarator) : LongString :=
  let t := ((TypeText.mk type true).qualifiers d).basic d |>.named d
  if r.type.len ≠ 0 then (t.f_Strcat (r.type.buf.getD [])).type else t.type

/-- The text before the last `::` of a name; the buffer for it is taken to be large enough. -/
def get_scope (name : Option Text) : Option Text :=
  name.bind fun name =>
    match Names.cutLast Names.COLON name with
    | none => none
    | some (scope, _) => if scope.getLast? = some Names.COLON then some scope.dropLast else none

def get_name (name : Option Text) : Option Text := name.map Names.get_name

/-- `*name == '~'`; a null pointer is taken for a name that begins otherwise. -/
def isDestructor (name : Option Text) : Bool := name.bind List.head? = some 126

/-- The attribute of a constructor or destructor of a class. -/
def attr_from_name (scope name : Option Text) : Nat :=
  if isDestructor name then PAF_DESTRUCTOR
  else if scope ≠ none ∧ name ≠ none ∧ scope = name then PAF_CONSTRUCTOR
  else 0

abbrev friendAttr : Nat := PAF_PROTECTED ||| PAF_PRIVATE ||| PAF_PUBLIC

/-! ### Reports of declarators -/

/-- A report about a declarator, which is highlighted. -/
def Declarator.symbol (r : Declarator) (type : SymbolType) (scope sym_name : Option Text)
    (end_lineno end_colpos : Int) (attr : Nat) (ret arg_types args : Option Text) : Symbol where
  type := type
  scope := scope
  sym_name := sym_name
  start_lineno := r.name_lineno_beg
  start_colpos := r.name_charno_beg
  end_lineno := end_lineno
  end_colpos := end_colpos
  attr := attr
  ret := ret
  arg_types := arg_types
  args := args
  start_lineno_highlight := r.lineno_beg
  start_colpos_highlight := r.charno_beg
  end_lineno_highlight := r.lineno_end
  end_colpos_highlight := r.charno_end

def variable_ (d : Declaration) (r : Declarator) : M Unit := do
  let scope := get_scope r.name.buf
  let name := get_name r.name.buf
  if d.storage_class = SN_TYPEDEF_TO_CLASS ∧ d.sClass.name.buf ≠ none ∧ name ≠ none ∧
      d.sClass.name.buf = name then
    pure ()
  else callVoid .variable_ do
    enter
    if name = none ∨ name = some [] then leave
    else
      let attr := attr_from_declaration d
      let type := (create_type {} d r).buf
      if d.storage_class = SN_TYPEDEF ∨ d.storage_class = SN_TYPEDEF_TO_CLASS then
        Put_symbol (r.symbol PAF_TYPE_DEF none name (← f_lineno 0) (← f_charno 0) attr type scope none)
      else if r.base_typ = FUNCTION then
        let paf := if scope = none then PAF_FUNC_DCL else PAF_MBR_FUNC_DCL
        let attr := if scope = none then attr else attr ||| attr_from_name scope name
        Put_symbol (r.symbol paf scope name (← f_lineno 0) (← f_charno 0) attr type
          r.types.buf r.names.buf)
      else
        let paf :=
          if d.s_const ∧ (r.base_typ = 0 ∨ r.base_typ = ARRAY) then PAF_CONS_DEF
          else PAF_GLOB_VAR_DEF
        Put_symbol (r.symbol paf none name (← f_lineno 0) (← f_charno 0) attr type scope none)
      leave

/-- A report of a function body. -/
def put_cross1 (b : Body) : M Unit := put (.body b)

def function (d : Declaration) (r : Declarator)
    (lineno_end charno_end lineno_brace_beg charno_brace_beg : Int) : M Unit :=
  callVoid .function do
    let attr := attr_from_declaration d
    enter
    let type := (create_type {} d r).buf
    let scope := get_scope r.name.buf
    let name := get_name r.name.buf
    if d.storage_class = SN_TYPEDEF then
      Put_symbol (r.symbol PAF_TYPE_DEF none name lineno_end (charno_end + 1) attr type scope none)
    else
      let paf := if scope = none then PAF_FUNC_DEF else PAF_MBR_FUNC_DEF
      let attr := if scope = none then attr else attr ||| attr_from_name scope name
      Put_symbol (r.symbol paf scope name lineno_end (charno_end + 1) attr type
        r.types.buf r.names.buf)
      put_cross1 ⟨paf, scope, name, lineno_brace_beg, charno_brace_beg, lineno_end, charno_end, attr,
        type, r.types.buf, r.names.buf, ← read State.keyw_cpp⟩
    leave

def class_member (c : Class) (d : Declaration) (r : Declarator) : M Unit :=
  callVoid .class_member do
    enter
    let attr := attr_from_declaration d ||| attr_from_access c.access
    let type := (create_type {} d r).buf
    let name := get_name r.name.buf
    if d.storage_class = SN_TYPEDEF then
      Put_symbol (r.symbol PAF_TYPE_DEF none name (← f_lineno 0) (← f_charno 0) attr type
        (get_scope r.name.buf) none)
    else if r.base_typ = FUNCTION then
      let scope := c.name.buf
      if d.storage_class = SN_FRIEND then
        Put_symbol (r.symbol PAF_FRIEND_DCL scope name (← f_lineno 0) (← f_charno 0)
          (attr ||| friendAttr) type r.types.buf r.names.buf)
      else
        let attr := attr ||| attr_from_name scope name
        let attr := attr ||| flag (d.fct_specifier = SN_VIRTUAL ∧ r.pure) PAF_PUREVIRTUAL
        Put_symbol (r.symbol PAF_MBR_FUNC_DCL scope name (← f_lineno 0) (← f_charno 0) attr type
          r.types.buf r.names.buf)
    else if r.name.len ≠ 0 then
      if d.storage_class = SN_FRIEND then
        Put_symbol (r.symbol PAF_FRIEND_DCL c.name.buf r.name.buf (← f_lineno 0) (← f_charno 0)
          (attr ||| friendAttr) type none none)
      Put_symbol (r.symbol PAF_MBR_VAR_DEF c.name.buf r.name.buf (← f_lineno 0) (← f_charno 0) attr
        type none none)
    leave

def class_method (c : Class) (d : Declaration) (r : Declarator)
    (lineno_end charno_end lineno_brace_beg charno_brace_beg : Int) : M Unit :=
  callVoid .class_method do
    enter
    let attr := attr_from_declaration d ||| attr_from_access c.access
    let type := (create_type {} d r).buf
    let name := get_name r.name.buf
    if d.storage_class = SN_TYPEDEF then
      Put_symbol (r.symbol PAF_TYPE_DEF none name lineno_end (charno_end + 1) attr type
        (get_scope r.name.buf) none)
    else
      let scope := c.name.buf
      let attr := attr ||| PAF_INLINE ||| attr_from_name scope name
      if d.storage_class = SN_FRIEND then
        Put_symbol (r.symbol PAF_FRIEND_DCL scope name lineno_end charno_end (attr ||| friendAttr)
          type r.types.buf r.names.buf)
      Put_symbol (r.symbol PAF_MBR_FUNC_DEF scope name lineno_end charno_end attr type
        r.types.buf r.names.buf)
      put_cross1 ⟨PAF_MBR_FUNC_DEF, scope, name, lineno_brace_beg, charno_brace_beg, lineno_end,
        charno_end, attr, type, r.types.buf, r.names.buf, ← read State.keyw_cpp⟩
      Put_symbol (r.symbol PAF_MBR_FUNC_DCL scope name lineno_end charno_end attr type
        r.types.buf r.names.buf)
    leave

/-- The class, the enumeration or the class name that a `friend` declaration without declarators
names. -/
def friendName (d : Declaration) : Option (Option Text × Int × Int × Int × Int) :=
  if d.sClass.name.len ≠ 0 then
    some (d.sClass.name.buf, d.sClass.lineno_beg, d.sClass.charno_beg, d.sClass.lineno_end,
      d.sClass.charno_end)
  else if d.sEnum.name.len ≠ 0 then
    some (d.sEnum.name.buf, d.sEnum.lineno_beg, d.sEnum.charno_beg, d.sEnum.lineno_end,
      d.sEnum.charno_end)
  else if d.complete_class_name.len ≠ 0 then
    some (d.complete_class_name.buf, d.lineno_beg, d.charno_beg, d.lineno_end, d.charno_end)
  else none

def class_empty_declarator_list (c : Class) (d : Declaration) : M Unit := do
  if d.storage_class = SN_FRIEND then
    match friendName d with
    | none => pure ()
    | some (name, lineno_beg, charno_beg, lineno_end, charno_end) =>
      Put_symbol ⟨PAF_FRIEND_DCL, c.name.buf, name, lineno_beg, charno_beg, lineno_end, charno_end,
        attr_from_declaration d ||| friendAttr, none, none, none, lineno_beg, charno_beg,
        lineno_end, charno_end⟩

end SourceNavigator.Cpp.FirstPass

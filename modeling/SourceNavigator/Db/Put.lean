import SourceNavigator.Symbols

/-!
The records that the parsers write (`parsers/common/parser.c`).

A record is a line of a type, a key and a data text, separated by `;`. The
fields of a key or data text are separated by the byte `1`. `put_symbol`,
`put_file` and `put_cross_ref` build the records of one call; a call that reports
an error writes none. A newline inside a symbol name or a
comment is replaced by an escape byte; the functions take that replacement as a
parameter, so that the record a call means can be written down next to the one
it writes.
-/

namespace SourceNavigator.Db

open SymbolType

/-- A line for the importer. -/
structure Line where
  type : SymbolType
  key : Text
  data : Text
  deriving DecidableEq

def Line.text (l : Line) : Text :=
  decimal l.type.code ++ KEY_DATA_SEP_CHR :: (l.key ++ KEY_DATA_SEP_CHR :: (l.data ++ [NEWLINE]))

/-- Fields with the field separator between them. -/
def joinFields (fields : List Text) : Text := List.intercalate [DB_FLDSEP_CHR] fields

/-- The options of a parser that the functions read. -/
structure Options where
  comment_database : Bool
  report_local_vars : Bool
  cross_ref_fp : Bool

/-- The replacement of newlines. -/
def escapeNewlines (s : Text) : Text := s.map fun c => if c = NEWLINE then ESCAPE else c

/-- A position as the tables sort it. -/
def sortedPosition (lineno colpos : Int) : Text := padded 6 lineno ++ ascii "." ++ padded 3 colpos

def position (lineno colpos : Int) : Text := decimal lineno ++ ascii "." ++ decimal colpos

def inBraces (s : Text) : Text := ascii "\x7b" ++ s ++ ascii "\x7d"

/-- The arguments of `put_symbol`; an absent string is a NULL pointer. -/
structure SymbolArgs where
  sym_type : SymbolType
  scope_name : Option Text
  symbol_name : Option Text
  file_name : Option Text
  start_lineno : Int
  start_colpos : Int
  end_lineno : Int
  end_colpos : Int
  attr : Nat
  ret : Option Text
  arg_types : Option Text
  args : Option Text
  comment : Option Text
  high_start_lineno : Int
  high_start_colpos : Int
  high_end_lineno : Int
  high_end_colpos : Int

/-- The types whose scope `put_symbol` drops. -/
def dropsScope : SymbolType → Bool
  | PAF_TYPE_DEF | PAF_CLASS_DEF | PAF_ENUM_DEF | PAF_CONS_DEF | PAF_MACRO_DEF | PAF_FUNC_DEF
  | PAF_GLOB_VAR_DEF | PAF_FUNC_DCL | PAF_UNION_DEF | PAF_ENUM_CONST_DEF => true
  | _ => false

/-- The types that `put_symbol` does not write without a scope. -/
def needsScope : SymbolType → Bool
  | PAF_MBR_FUNC_DEF | PAF_MBR_VAR_DEF | PAF_COMMON_MBR_VAR_DEF | PAF_CLASS_INHERIT
  | PAF_MBR_FUNC_DCL => true
  | _ => false

/-- The scope that `put_symbol` writes: not a dropped one, without leading blanks, not empty. -/
def SymbolArgs.scope (a : SymbolArgs) : Option Text :=
  if dropsScope a.sym_type then none
  else (a.scope_name.map skipSpace).filter (· ≠ [])

/-- The highlighted range: the one given, or that of the symbol name. -/
def SymbolArgs.high (a : SymbolArgs) (symbol_name : Text) : (Int × Int) × (Int × Int) :=
  if a.high_start_lineno = 0 then
    ((a.start_lineno, a.start_colpos),
      (a.start_lineno, int32 (a.start_colpos + symbol_name.length)))
  else
    ((a.high_start_lineno, a.high_start_colpos), (a.high_end_lineno, a.high_end_colpos))

/-- A comment is written for a comment database, with separators for its braces. -/
def SymbolArgs.commentText (o : Options) (a : SymbolArgs) : Text :=
  if o.comment_database then
    (a.comment.getD []).map fun c => if c = 123 ∨ c = 125 then DB_FLDSEP_CHR else c
  else
    []

/-- A string argument is written under a special name. -/
def SymbolArgs.argsText (a : SymbolArgs) : Text :=
  match a.args with
  | some s => if s.head? = some 34 then ascii "%STRING%" else s
  | none => []

/-- The record of a symbol in the table of its type. -/
def symbolLine (o : Options) (escape : Text → Text) (a : SymbolArgs)
    (symbol_name file_name : Text) : Line :=
  let high := a.high symbol_name
  { type := a.sym_type
    key := joinFields
      (a.scope.toList ++ [escape symbol_name, sortedPosition high.1.1 high.1.2, file_name])
    data := joinFields
      [position high.2.1 high.2.2, ascii "0x" ++ hexadecimal a.attr, inBraces (a.ret.getD []),
        inBraces (a.arg_types.getD []), inBraces a.argsText,
        inBraces (escape (a.commentText o))] }

/-- The record of a symbol in the table of file symbols. -/
def fileSymbolLine (escape : Text → Text) (a : SymbolArgs) (symbol_name file_name : Text) : Line :=
  let high := a.high symbol_name
  { type := PAF_FILE_SYMBOLS
    key := joinFields
      [file_name, sortedPosition a.start_lineno a.start_colpos, a.scope.getD (ascii "#"),
        escape symbol_name, a.sym_type.SN_GetSymbolType]
    data := joinFields
      [position a.end_lineno a.end_colpos, position high.1.1 high.1.2,
        position high.2.1 high.2.2, inBraces (a.arg_types.getD [])] }

def put_symbol (o : Options) (escape : Text → Text) (a : SymbolArgs) : List Line :=
  match a.file_name, a.symbol_name with
  | some file_name, some symbol_name =>
    if symbol_name = [] ∨ (a.scope = none ∧ needsScope a.sym_type) then
      []
    else
      [symbolLine o escape a (skipSpace symbol_name) (skipSpace file_name),
        fileSymbolLine escape a (skipSpace symbol_name) (skipSpace file_name)]
  | _, _ => []

structure FileArgs where
  file_name : Option Text
  group : Text
  highlight_file : Option Text

def put_file (a : FileArgs) : List Line :=
  match a.file_name with
  | some file_name =>
    [{ type := PAF_FILE
       key := file_name
       data := joinFields [a.group, a.highlight_file.getD []] }]
  | none => []

/-- How a variable is accessed at a reference. -/
inductive Access
  | PAF_REF_READ
  | PAF_REF_WRITE
  | PAF_REF_PASS
  | PAF_REF_UNUSED
  deriving DecidableEq

def acc_strings : Access → Text
  | .PAF_REF_READ => ascii "r"
  | .PAF_REF_WRITE => ascii "w"
  | .PAF_REF_PASS => ascii "p"
  | .PAF_REF_UNUSED => ascii "u"

structure CrossRefArgs where
  type : SymbolType
  scope_type : SymbolType
  scope_lev : Int
  fnc_cls : Option Text
  fnc : Option Text
  fnc_arg_types : Option Text
  scope : Option Text
  what : Option Text
  arg_types : Option Text
  file : Option Text
  lineno : Int
  acc : Access

/-- The referenced class that is written: up to a field separator, without leading blanks. -/
def CrossRefArgs.scopeText (a : CrossRefArgs) : Option Text :=
  (a.scope.map fun s => (skipSpace s).takeWhile (· ≠ DB_FLDSEP_CHR)).filter (· ≠ [])

/-- The nine fields of the key of a reference. -/
def CrossRefArgs.fields (a : CrossRefArgs) (fnc what file : Text) : List Text :=
  [((a.fnc_cls.filter (· ≠ [])).map skipSpace).getD (ascii "#"), fnc,
    a.scope_type.SN_GetSymbolType, a.scopeText.getD (ascii "#"), skipSpace what,
    (if a.type = PAF_MBR_FUNC_DCL then PAF_MBR_FUNC_DEF else a.type).SN_GetSymbolType,
    acc_strings a.acc, padded 6 a.lineno, skipSpace file]

/-- The call is one that `put_cross_ref` does not refuse. -/
def CrossRefArgs.accepted (o : Options) (a : CrossRefArgs) : Prop :=
  o.cross_ref_fp = true ∧ a.fnc.getD [] ≠ [] ∧ ¬ (a.scope_lev = 0 ∧ o.report_local_vars = false) ∧
    a.file.isSome = true ∧ a.what.getD [] ≠ [] ∧ (0 < a.type.code ∧ a.type.code ≤ 29) ∧
    (0 < a.scope_type.code ∧ a.scope_type.code < 25)

instance (o : Options) (a : CrossRefArgs) : Decidable (a.accepted o) :=
  inferInstanceAs (Decidable (_ ∧ _))

/-- `none` is undefined: the line number does not fit the buffer it is printed into.
A reference to an unknown class, `?`, is not written. -/
def put_cross_ref (o : Options) (a : CrossRefArgs) : Option (List Line) :=
  if a.accepted o then
    if 10 ≤ (padded 6 a.lineno).length then
      none
    else if (a.scopeText.getD []).head? = some 63 then
      some []
    else
      some
        [{ type := PAF_CROSS_REF
           key := joinFields (a.fields (a.fnc.getD []) (a.what.getD []) (a.file.getD []))
           data := joinFields [a.fnc_arg_types.getD [], a.arg_types.getD []] }]
  else
    some []

end SourceNavigator.Db

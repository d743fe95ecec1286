import SourceNavigator.Text

/-!
The symbol types of the project database (`hyper/sn.h`, `misc/libutils/strs.c`).

A type is a number, which starts the record of a symbol, and a short name, which
is the suffix of its table and the type field of other records.
-/

namespace SourceNavigator

inductive SymbolType
  | PAF_FILE
  | PAF_TYPE_DEF
  | PAF_CLASS_DEF
  | PAF_MBR_FUNC_DEF
  | PAF_MBR_VAR_DEF
  | PAF_ENUM_DEF
  | PAF_CONS_DEF
  | PAF_MACRO_DEF
  | PAF_FUNC_DEF
  | PAF_SUBR_DEF
  | PAF_GLOB_VAR_DEF
  | PAF_COMMON_DEF
  | PAF_COMMON_MBR_VAR_DEF
  | PAF_CLASS_INHERIT
  | PAF_FILE_SYMBOLS
  | PAF_CROSS_REF_BY
  | PAF_CROSS_REF
  | PAF_MBR_FUNC_DCL
  | PAF_FUNC_DCL
  | PAF_ENUM_CONST_DEF
  | PAF_UNION_DEF
  | PAF_FRIEND_DCL
  | PAF_NAMESPACE_DEF
  | PAF_EXCEPTION_DEF
  | PAF_LOCAL_VAR_DEF
  | PAF_VAR_DCL
  | PAF_INCLUDE_DEF
  | PAF_COMMENT_DEF
  | PAF_CROSS_REF_CPP
  | PAF_REF_UNDEFINED
  | PAF_CROSS_REF_FILE
  deriving DecidableEq

namespace SymbolType

/-- The number of a type. -/
def code (t : SymbolType) : Nat := t.ctorIdx

/-- The short name of a type (`SN_GetSymbolType`). -/
def SN_GetSymbolType : SymbolType → Text
  | PAF_FILE => ascii "f"
  | PAF_TYPE_DEF => ascii "t"
  | PAF_CLASS_DEF => ascii "cl"
  | PAF_MBR_FUNC_DEF => ascii "mi"
  | PAF_MBR_VAR_DEF => ascii "iv"
  | PAF_ENUM_DEF => ascii "e"
  | PAF_CONS_DEF => ascii "con"
  | PAF_MACRO_DEF => ascii "ma"
  | PAF_FUNC_DEF => ascii "fu"
  | PAF_SUBR_DEF => ascii "su"
  | PAF_GLOB_VAR_DEF => ascii "gv"
  | PAF_COMMON_DEF => ascii "com"
  | PAF_COMMON_MBR_VAR_DEF => ascii "cov"
  | PAF_CLASS_INHERIT => ascii "in"
  | PAF_FILE_SYMBOLS => ascii "fil"
  | PAF_CROSS_REF_BY => ascii "by"
  | PAF_CROSS_REF => ascii "to"
  | PAF_MBR_FUNC_DCL => ascii "md"
  | PAF_FUNC_DCL => ascii "fd"
  | PAF_ENUM_CONST_DEF => ascii "ec"
  | PAF_UNION_DEF => ascii "un"
  | PAF_FRIEND_DCL => ascii "fr"
  | PAF_NAMESPACE_DEF => ascii "na"
  | PAF_EXCEPTION_DEF => ascii "ex"
  | PAF_LOCAL_VAR_DEF => ascii "lv"
  | PAF_VAR_DCL => ascii "vd"
  | PAF_INCLUDE_DEF => ascii "iu"
  | PAF_COMMENT_DEF => ascii "rem"
  | PAF_CROSS_REF_CPP => ascii "cpp"
  | PAF_REF_UNDEFINED => ascii "ud"
  | PAF_CROSS_REF_FILE => ascii "xfi"

/-- The types in the order of their numbers. -/
def all : List SymbolType :=
  [PAF_FILE, PAF_TYPE_DEF, PAF_CLASS_DEF, PAF_MBR_FUNC_DEF, PAF_MBR_VAR_DEF, PAF_ENUM_DEF,
    PAF_CONS_DEF, PAF_MACRO_DEF, PAF_FUNC_DEF, PAF_SUBR_DEF, PAF_GLOB_VAR_DEF, PAF_COMMON_DEF,
    PAF_COMMON_MBR_VAR_DEF, PAF_CLASS_INHERIT, PAF_FILE_SYMBOLS, PAF_CROSS_REF_BY, PAF_CROSS_REF,
    PAF_MBR_FUNC_DCL, PAF_FUNC_DCL, PAF_ENUM_CONST_DEF, PAF_UNION_DEF, PAF_FRIEND_DCL,
    PAF_NAMESPACE_DEF, PAF_EXCEPTION_DEF, PAF_LOCAL_VAR_DEF, PAF_VAR_DCL, PAF_INCLUDE_DEF,
    PAF_COMMENT_DEF, PAF_CROSS_REF_CPP, PAF_REF_UNDEFINED, PAF_CROSS_REF_FILE]

/-- The type with a name (`db_scopes`). -/
def ofName (name : Text) : Option SymbolType := all.find? fun t => t.SN_GetSymbolType = name

theorem ofName_name (t : SymbolType) : ofName t.SN_GetSymbolType = some t := by
  cases t <;> decide

/-- The type is read back from its number as it is printed. -/
theorem strtol_code (t : SymbolType) : strtol (decimal t.code) = t.code := by
  cases t <;> decide

/-- The printed number is made of digits. -/
theorem digit_of_mem_code (t : SymbolType) {c : UInt8} (h : c ∈ decimal t.code) :
    48 ≤ c ∧ c ≤ 57 := by
  have digits : (decimal t.code).all (fun c => 48 ≤ c && c ≤ 57) = true := by
    cases t <;> rfl
  simpa using List.all_eq_true.mp digits c h

theorem sep_notMem_code (t : SymbolType) : KEY_DATA_SEP_CHR ∉ decimal t.code :=
  fun mem => absurd (t.digit_of_mem_code mem).2 (by decide)

end SymbolType

end SourceNavigator

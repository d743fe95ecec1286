import SourceNavigator.Db.LongString
import SourceNavigator.Db.Table
import SourceNavigator.Db.Import

/-!
The cross-reference tables (`db/dbutils.c`, `misc/libutils/longstr.c`).

A reference is stored twice: in the table `cross_ref` under a key that starts with the
caller, and, unless it refers to a local variable, in the table `cross_ref_by` under a key
that starts with the callee. `db_insert_entry` writes both records and
`db_remove_file_xfer_using_keys` deletes both, each from the split key.

The fields of a split `LongString` keep their lengths in a `short`. `none` is
undefined behaviour: a field that is not there, a key no byte was copied to, a
file name that overflows its buffer, the length read before it is set.
-/

namespace SourceNavigator.Db

open SymbolType

/-- The cross-reference tables; one that no entry was written to does not exist. -/
structure CrossRefTables where
  cross_ref : Option Table
  cross_ref_by : Option Table

/-! ### Split keys -/

/-- The split key of a reference to a local variable. -/
def toLocalVar (fields : List Text) : Bool :=
  (PAF_LOCAL_VAR_DEF.SN_GetSymbolType).isPrefixOf (fieldValue fields 5)

/-- The key in the table `cross_ref_by` of a split key of the table `cross_ref`. -/
def byKey (fields : List Text) : Option Text :=
  let callee := fieldSize fields 3 + fieldSize fields 4 + fieldSize fields 5 + 3
  let caller := fieldSize fields 0 + fieldSize fields 1 + fieldSize fields 2 + 3
  let place := fieldSize fields 6 + fieldSize fields 7 + fieldSize fields 8 + 2
  if fields.length < 9 ∨ (callee = 0 ∧ caller = 0 ∧ place = 0) then none
  else
    some (appended (fieldValue fields 3) callee ++ appended (fieldValue fields 0) caller ++
      appended (fieldValue fields 6) place)

/-- The data that is stored: two fields of the data of a record, in braces. -/
def xrefData (fields : List Text) (i j : Nat) : Text :=
  joinFields
    [inBraces (appended (fieldValue fields i) (fieldSize fields i)),
      inBraces (appended (fieldValue fields j) (fieldSize fields j))]

/-! ### Insertion -/

/-- `db_insert_entry` of a cross reference. A caller class `?` is looked up, and
then the key is split by the length of a key that is not set. -/
def db_insert_entry (t : CrossRefTables) (key_buf data_buf : Text) : Option CrossRefTables :=
  let data := data_buf.splitOn DB_FLDSEP_CHR
  let fields := key_buf.splitOn DB_FLDSEP_CHR
  if data.length < 2 ∨ key_buf.head? = some 63 ∨ fields.length < 6 then none
  else
    let cross_ref := (t.cross_ref.getD ∅).insert key_buf (xrefData data 0 1)
    if toLocalVar fields then
      some { t with cross_ref := some cross_ref }
    else
      (byKey fields).map fun key =>
        { cross_ref := some cross_ref
          cross_ref_by := some ((t.cross_ref_by.getD ∅).insert key (xrefData data 1 0)) }

/-! ### Deletion -/

/-- The types in whose bodies references are removed. -/
def hasBody (ref_type : Text) : Bool :=
  (ascii "md").isPrefixOf ref_type || (ascii "mi").isPrefixOf ref_type ||
    (ascii "fu").isPrefixOf ref_type || (ascii "su").isPrefixOf ref_type

/-- One record under the cursor: the record of another file stays. -/
def removeRecord (fn : Text) (t : CrossRefTables) (key : Text) : Option CrossRefTables :=
  if keyFile key = fn then
    let fields := key.splitOn DB_FLDSEP_CHR
    let cross_ref := t.cross_ref.map (·.erase key)
    match t.cross_ref_by with
    | none => some { t with cross_ref := cross_ref }
    | some dbp_by =>
      if fields.length < 6 then none
      else if toLocalVar fields then some { t with cross_ref := cross_ref }
      else
        (byKey fields).map fun by_key =>
          { cross_ref := cross_ref, cross_ref_by := some (dbp_by.erase by_key) }
  else
    some t

/-- One line of the list of keys. -/
def removeLine (t : CrossRefTables) (line : Text) : Option CrossRefTables :=
  match line.splitOn KEY_DATA_SEP_CHR with
  | [cls, name, ref_type, fn, _] =>
    if MAXPATHLEN ≤ fn.length then none
    else if hasBody ref_type then
      let key_to := joinFields [cls, name, ref_type, []]
      (((t.cross_ref.getD ∅).scan key_to).map Prod.fst).foldlM (removeRecord fn) t
    else some t
  | _ => some t

/-- `contents` is `none` when the list of keys cannot be read. -/
def db_remove_file_xfer_using_keys (t : CrossRefTables) (contents : Option Text) :
    Option CrossRefTables :=
  match contents, t.cross_ref with
  | some contents, some _ => (readLines [] contents).foldlM removeLine t
  | _, _ => some t

end SourceNavigator.Db

import SourceNavigator.Lib.Table
import SourceNavigator.Db.Put

/-!
The tables of the project database.

A table maps keys to data texts in the order of the keys. The lemmas give the
lookups in a table after a change as an update of a function.
-/

namespace SourceNavigator.Db

/-- The size of a buffer for a file name. -/
def MAXPATHLEN : Nat := 4096

/-- A database table: keys and data without their closing NUL. -/
abbrev Table := Lib.Table UInt8 Text

/-- The file name of a key: what follows the last separator. The search for it
stops at the first byte, which is skipped. -/
def keyFile (key : Text) : Text :=
  match key.splitOn DB_FLDSEP_CHR with
  | [whole] => whole.drop 1
  | fields => fields.getLastD []

theorem lookup_insert (t : Table) (key data : Text) :
    (fun k => (t.insert key data)[k]?) = Function.update (fun k => t[k]?) key (some data) := by
  funext k
  rw [Lib.Table.getElem?_insert, Function.update_apply]

theorem lookup_erase (t : Table) (key : Text) :
    (fun k => (t.erase key)[k]?) = Function.update (fun k => t[k]?) key none := by
  funext k
  rw [Lib.Table.getElem?_erase, Function.update_apply]

/-- Erasing a key of a table that may not exist. -/
theorem lookup_map_erase (t : Option Table) (key : Text) :
    (fun k => ((t.map (·.erase key)).getD ∅)[k]?) =
      Function.update (fun k => (t.getD ∅)[k]?) key none := by
  cases t with
  | none =>
    funext k
    rw [Function.update_apply]
    simp
  | some t => exact lookup_erase t key

end SourceNavigator.Db

import Mathlib.Logic.Function.Basic
import SourceNavigator.Db.CrossRef

/-!
The arrays that the importer indexes with record types (`db/dbimp.c`, `db/dbutils.c`,
`misc/libutils/strs.c`).

`db_syms` holds the open tables of a process and `SN_symbol_types` the names of
the types. The type of a record is the number in front of a line, and `main`
hands it to `db_insert_entry` unless it is below `-3` or one of the codes that
mean something else. What a line does is given with the accesses it makes to both arrays;
what the database answers is a parameter.

* `type_index_iff` says for which lines every access is inside of its array.
-/

namespace SourceNavigator.Db.TypeIndex

open SymbolType

/-! ### The arrays -/

/-- An access to `db_syms` or to `SN_symbol_types`, with its index. -/
inductive Access
  | db_syms (type : Int)
  | SN_symbol_types (type : Int)
  deriving DecidableEq

/-- The index is inside of the array. -/
def Access.Inside : Access → Prop
  | db_syms type => 0 ≤ type ∧ type < 50
  | SN_symbol_types type => 0 ≤ type ∧ type < all.length

instance : DecidablePred Access.Inside
  | .db_syms type => inferInstanceAs (Decidable (0 ≤ type ∧ type < 50))
  | .SN_symbol_types type => inferInstanceAs (Decidable (0 ≤ type ∧ type < all.length))

/-- The tables that are open: an entry of `db_syms` is not NULL. -/
abbrev Opened := Int → Bool

/-- What a step leaves: the open tables, the accesses it made, and whether it went on to its
end. -/
structure Result where
  opened : Opened
  accesses : List Access
  running : Bool

abbrev Step := Opened → Result

/-- One step behind another. -/
def Step.andThen (f g : Step) : Step := fun s =>
  if (f s).running then
    { g (f s).opened with accesses := (f s).accesses ++ (g (f s).opened).accesses }
  else f s

def skip : Step := fun s => ⟨s, [], true⟩

def access (a : Access) : Step := fun s => ⟨s, [a], true⟩

/-- What the database answers while a line is imported: which tables can be opened and which do
not exist, whether the file was already in the project, the tables that the removal of its
records or of its references opens, whether the tables for the lookup of scopes are open, and
whether the variable is stored. -/
structure Answers where
  dbopen : Int → Bool
  missing : Int → Bool
  in_project : Bool
  removed : List SymbolType
  scopes_opened : Bool
  stored : Bool

section Code

variable (w : Answers)

/-- `create_table`; a failure panics unless the table does not exist and is not created.
`SN_GetSymbolType` compares with the size of its array in bytes. -/
def create_table (create : Bool) (type : Int) : Step := fun s =>
  if s type then ⟨s, [.db_syms type, .db_syms type], true⟩
  else if type < 0 ∨ type ≥ 8 * all.length then ⟨s, [.db_syms type], false⟩
  else if w.dbopen type then
    ⟨Function.update s type true,
      [.db_syms type, .SN_symbol_types type, .db_syms type], true⟩
  else if w.missing type && !create then
    ⟨s, [.db_syms type, .SN_symbol_types type, .db_syms type], true⟩
  else ⟨s, [.db_syms type, .SN_symbol_types type], false⟩

/-- A table that is opened if it is not open. -/
def openTable (create : Bool) (type : Int) : Step := fun s =>
  if s type then skip s else create_table w create type s

/-- Tables of known types that a function opens, each after it looked for it. -/
def openTables : List SymbolType → Step
  | [] => skip
  | t :: ts => ((access (.db_syms t.code)).andThen (openTable w false t.code)).andThen (openTables ts)

/-- The tables that `open_tables_for_cross_ref` opens. -/
def scopeTables : List SymbolType :=
  [PAF_CLASS_DEF, PAF_TYPE_DEF, PAF_MBR_VAR_DEF, PAF_CONS_DEF, PAF_MACRO_DEF, PAF_FUNC_DEF,
    PAF_FUNC_DCL, PAF_GLOB_VAR_DEF, PAF_CLASS_INHERIT, PAF_MBR_FUNC_DCL, PAF_ENUM_CONST_DEF,
    PAF_ENUM_DEF, PAF_UNION_DEF]

def open_tables_for_cross_ref : Step :=
  scopeTables.foldr (fun t rest => (create_table w false t.code).andThen rest) skip

/-- `db_insert_entry` of a file: `put_file_db`, and the removal of the old records. -/
def insertFile : Step :=
  ((access (.db_syms PAF_FILE.code)).andThen (openTable w true PAF_FILE.code)).andThen
    (if w.in_project then openTables w w.removed else skip)

/-- The table of a type, opened to store a record. -/
def insertRecord (type : Int) : Step :=
  (access (.db_syms type)).andThen (openTable w true type)

/-- The reference is to a global variable that is marked as undeclared. -/
def undeclared (key data : Text) : Bool :=
  (ascii "gv" ++ [DB_FLDSEP_CHR]).isPrefixOf (fieldValue (key.splitOn DB_FLDSEP_CHR) 5) &&
    fieldValue (data.splitOn DB_FLDSEP_CHR) 1 == ascii "UNDECLARED"

/-- The rest of `db_insert_entry` of a cross reference, behind the opening of its table. -/
def insertReference (key data : Text) : Step :=
  ((if key.head? = some 63 ∧ ¬ w.scopes_opened then open_tables_for_cross_ref w else skip).andThen
    (access (.SN_symbol_types PAF_LOCAL_VAR_DEF.code))).andThen
  ((if toLocalVar (key.splitOn DB_FLDSEP_CHR) then skip
    else insertRecord w PAF_CROSS_REF_BY.code).andThen
  (if undeclared key data then
    (insertRecord w PAF_GLOB_VAR_DEF.code).andThen
      (if w.stored then skip
        else (insertRecord w PAF_GLOB_VAR_DEF.code).andThen (insertRecord w PAF_FILE_SYMBOLS.code))
  else skip))

def db_insert_entry (type : Int) (key data : Text) : Step :=
  if type = PAF_FILE.code then (access (.db_syms type)).andThen (insertFile w)
  else if type = PAF_CROSS_REF.code then (insertRecord w type).andThen (insertReference w key data)
  else insertRecord w type

/-- The loop body of `main`; the type of a line is a `long` and that of an entry an `int`. -/
def importStep (line : Text) : Step :=
  match importLine line with
  | none => skip
  | some (.removeFile _) => openTables w w.removed
  | some (.removeCrossRefs _) => openTables w [PAF_CROSS_REF, PAF_CROSS_REF_BY]
  | some .panic => fun s => ⟨s, [], false⟩
  | some (.insert type key data) => db_insert_entry w (int32 type) key data

end Code

/-- The tables that are open after some lines, if the importer still runs. -/
def importLines : Opened → List (Answers × Text) → Option Opened
  | s, [] => some s
  | s, (w, line) :: lines =>
    if (importStep w line s).running then importLines (importStep w line s).opened lines else none

/-- No table is open at the start. -/
def noTables : Opened := fun _ => false

/-! ### Steps with known types -/

/-- A number of a symbol type. -/
def IsType (type : Int) : Prop := 0 ≤ type ∧ type < all.length

instance (type : Int) : Decidable (IsType type) := inferInstanceAs (Decidable (_ ∧ _))

/-- Only tables of symbol types are open. -/
def KnownTables (s : Opened) : Prop := ∀ type, s type = true → IsType type

/-- A step that keeps to the symbol types. -/
def Tame (f : Step) : Prop :=
  ∀ s, KnownTables s → KnownTables (f s).opened ∧ ∀ a ∈ (f s).accesses, a.Inside

section Tame

variable {f g : Step} {w : Answers} {type : Int} {create : Bool} {s : Opened}

theorem isType_code (t : SymbolType) : IsType t.code := by
  cases t <;> decide

theorem inside_db_syms (known : IsType type) : (Access.db_syms type).Inside :=
  ⟨known.1, lt_trans known.2 (by decide)⟩

theorem inside_names (known : IsType type) : (Access.SN_symbol_types type).Inside := known

theorem tame_skip : Tame skip := fun _ known => ⟨known, by simp [skip]⟩

theorem tame_access {a : Access} (inside : a.Inside) : Tame (access a) :=
  fun _ known => ⟨known, by simpa [access] using inside⟩

theorem Tame.andThen (hf : Tame f) (hg : Tame g) : Tame (f.andThen g) := by
  intro s known
  obtain ⟨kept, inside⟩ := hf s known
  unfold Step.andThen
  split
  · obtain ⟨kept', inside'⟩ := hg _ kept
    refine ⟨kept', fun a mem => ?_⟩
    rcases List.mem_append.mp mem with mem | mem
    · exact inside a mem
    · exact inside' a mem
  · exact ⟨kept, inside⟩

theorem tame_ite {p : Prop} [Decidable p] (hf : Tame f) (hg : Tame g) :
    Tame (if p then f else g) := by
  split
  · exact hf
  · exact hg

/-- A known type opens a known table. -/
theorem tame_create_table (known : IsType type) : Tame (create_table w create type) := by
  intro s tables
  have db_syms := inside_db_syms known
  have names := inside_names known
  unfold create_table
  split
  · exact ⟨tables, by simp [db_syms]⟩
  split
  · exact ⟨tables, by simp [db_syms]⟩
  split
  · constructor
    · intro t opened
      by_cases same : t = type
      · rw [same]
        exact known
      · change Function.update s type true t = true at opened
        rw [Function.update_of_ne same] at opened
        exact tables t opened
    · simp [db_syms, names]
  split
  · exact ⟨tables, by simp [db_syms, names]⟩
  · exact ⟨tables, by simp [db_syms, names]⟩

theorem tame_openTable (known : IsType type) : Tame (openTable w create type) := by
  intro s tables
  unfold openTable
  split
  · exact tame_skip s tables
  · exact tame_create_table known s tables

theorem tame_insertRecord (known : IsType type) : Tame (insertRecord w type) :=
  (tame_access (inside_db_syms known)).andThen (tame_openTable known)

theorem tame_openTables (ts : List SymbolType) : Tame (openTables w ts) := by
  induction ts with
  | nil => exact tame_skip
  | cons t ts ih =>
    have known := isType_code t
    exact ((tame_access (inside_db_syms known)).andThen (tame_openTable known)).andThen ih

theorem tame_open_tables_for_cross_ref : Tame (open_tables_for_cross_ref w) := by
  unfold open_tables_for_cross_ref
  induction scopeTables with
  | nil => exact tame_skip
  | cons t ts ih => exact (tame_create_table (isType_code t)).andThen ih

theorem tame_insertReference (key data : Text) : Tame (insertReference w key data) := by
  have declared := tame_insertRecord (w := w) (isType_code PAF_GLOB_VAR_DEF)
  have symbols := tame_insertRecord (w := w) (isType_code PAF_FILE_SYMBOLS)
  have mirror := tame_insertRecord (w := w) (isType_code PAF_CROSS_REF_BY)
  refine ((tame_ite tame_open_tables_for_cross_ref tame_skip).andThen
    (tame_access (inside_names (isType_code _)))).andThen
    ((tame_ite tame_skip mirror).andThen (tame_ite ?_ tame_skip))
  exact declared.andThen (tame_ite tame_skip (declared.andThen symbols))

theorem tame_db_insert_entry (known : IsType type) (key data : Text) :
    Tame (db_insert_entry w type key data) := by
  have file := tame_insertRecord (w := w) (isType_code PAF_FILE)
  unfold db_insert_entry
  refine tame_ite ?_ (tame_ite ?_ (tame_insertRecord known))
  · exact (tame_access (inside_db_syms known)).andThen
      (file.andThen (tame_ite (tame_openTables _) tame_skip))
  · exact (tame_insertRecord known).andThen (tame_insertReference key data)

/-! ### Unknown types -/

theorem db_insert_entry_record (no_file : type ≠ PAF_FILE.code)
    (no_reference : type ≠ PAF_CROSS_REF.code) (key data : Text) :
    db_insert_entry w type key data = insertRecord w type := by
  rw [db_insert_entry, if_neg no_file, if_neg no_reference]

/-- The entry of an unknown type is looked up outside of an array. -/
theorem db_insert_entry_outside (tables : KnownTables s) (unknown : ¬ IsType type)
    (key data : Text) : ∃ a ∈ (db_insert_entry w type key data s).accesses, ¬ a.Inside := by
  have no_file : type ≠ PAF_FILE.code := by
    rintro rfl
    exact unknown (isType_code _)
  have no_reference : type ≠ PAF_CROSS_REF.code := by
    rintro rfl
    exact unknown (isType_code _)
  have closed : s type = false := by
    rw [← Bool.not_eq_true]
    exact fun opened => unknown (tables type opened)
  have looked : (insertRecord w type s).accesses =
      .db_syms type :: (create_table w true type s).accesses := by
    simp [insertRecord, Step.andThen, access, openTable, closed]
  rw [db_insert_entry_record no_file no_reference, looked]
  by_cases inside : (Access.db_syms type).Inside
  · -- the array of the tables has more entries than there are names
    have nonneg : 0 ≤ type := inside.1
    have small : type < 50 := inside.2
    have in_bytes : ¬ (type < 0 ∨ type ≥ 8 * all.length) := by
      have := (show all.length = 31 by decide)
      omega
    refine ⟨.SN_symbol_types type, ?_, unknown⟩
    unfold create_table
    rw [closed, if_neg (by simp), if_neg in_bytes]
    split
    · simp
    split
    · simp
    · simp
  · exact ⟨_, List.mem_cons_self, inside⟩

end Tame

/-! ### Lines -/

/-- The type in front of a line that is no comment and no status message and has its two
separators. -/
def lineType (bufp : Text) : Option Int :=
  if bufp.head? = some 35 ∨ bufp = [] then none
  else if (ascii "Status: ").isPrefixOf bufp then none
  else
    match cut KEY_DATA_SEP_CHR bufp with
    | none => none
    | some (number, rest) => (cut KEY_DATA_SEP_CHR rest).map fun _ => strtol number

/-- The numbers that are no types: two codes of requests, and those that `main` rejects. -/
def NoType (type : Int) : Prop := type < -3 ∨ type = -1 ∨ type = -3

/-- The type of a line is known if it is one. -/
def KnownLine (line : Text) : Prop :=
  ∀ type, lineType line = some type → NoType type ∨ IsType type

/-- A line with an unknown type is rejected. -/
def Rejects (line : Text) : Prop :=
  ∀ type, lineType line = some type → ¬ IsType type → type ≠ -1 → type ≠ -3 →
    importLine line = none

section Lines

variable {w : Answers} {line key data : Text} {type : Int} {s s' : Opened}
  {before : List (Answers × Text)}

/-- What `main` does with a line, by the type in front of it. -/
theorem importLine_cases (line : Text) :
    (lineType line = none ∧ importLine line = none) ∨
    ∃ type key data, lineType line = some type ∧ importLine line =
      if type < -3 then none
      else if type = -1 then some (.removeFile data)
      else if type = -3 then some (.removeCrossRefs data)
      else if type = PAF_CROSS_REF_CPP.code then some .panic
      else some (.insert type key (storedData type data)) := by
  unfold lineType importLine
  by_cases comment : line.head? = some 35 ∨ line = []
  · exact .inl ⟨if_pos comment, if_pos comment⟩
  rw [if_neg comment, if_neg comment]
  by_cases status : (ascii "Status: ").isPrefixOf line = true
  · exact .inl ⟨if_pos status, if_pos status⟩
  rw [if_neg status, if_neg status]
  cases cut KEY_DATA_SEP_CHR line with
  | none => exact .inl ⟨rfl, rfl⟩
  | some first =>
    obtain ⟨number, rest⟩ := first
    dsimp only
    cases cut KEY_DATA_SEP_CHR rest with
    | none => exact .inl ⟨rfl, rfl⟩
    | some second => exact .inr ⟨strtol number, second.1, second.2, rfl, rfl⟩

/-- The types of entries are those of their lines. -/
theorem insert_iff : (∃ key data, importLine line = some (.insert type key data)) ↔
    lineType line = some type ∧ ¬ NoType type ∧ type ≠ PAF_CROSS_REF_CPP.code := by
  unfold NoType
  rcases importLine_cases line with ⟨no_type, nothing⟩ | ⟨number, key, data, has_type, does⟩
  · simp [no_type, nothing]
  rw [has_type, does, Option.some.injEq]
  split
  · constructor
    · simp
    · rintro ⟨rfl, harmful, -⟩
      omega
  split
  · constructor
    · simp
    · rintro ⟨rfl, harmful, -⟩
      omega
  split
  · constructor
    · simp
    · rintro ⟨rfl, harmful, -⟩
      omega
  split
  · constructor
    · simp
    · rintro ⟨rfl, -, other⟩
      exact absurd ‹_› other
  · constructor
    · rintro ⟨key', data', same⟩
      cases same
      exact ⟨rfl, by omega, ‹_›⟩
    · rintro ⟨rfl, -, -⟩
      exact ⟨_, _, rfl⟩

/-- The entry of a line, if it has one, has a known type as an `int`. -/
def KnownEntry (line : Text) : Prop :=
  ∀ type key data, importLine line = some (.insert type key data) → IsType (int32 type)

theorem int32_of_isType (known : IsType type) : int32 type = type := by
  have := known.1
  have small : type < all.length := known.2
  have := (show all.length = 31 by decide)
  rw [int32, Int.bmod_def]
  split
  · omega
  · omega

theorem KnownLine.knownEntry (known : KnownLine line) : KnownEntry line := by
  intro type key data entry
  obtain ⟨has_type, no_code, -⟩ := insert_iff.mp ⟨key, data, entry⟩
  have is_type := (known type has_type).resolve_left no_code
  rwa [int32_of_isType is_type]

theorem KnownEntry.tame (known : KnownEntry line) : Tame (importStep w line) := by
  unfold importStep
  split
  · exact tame_skip
  · exact tame_openTables _
  · exact tame_openTables _
  · exact fun _ tables => ⟨tables, by simp⟩
  next type key data entry => exact tame_db_insert_entry (known type key data entry) key data

/-- The tables of known types are open after lines with known types. -/
theorem knownTables_importLines (tables : KnownTables s) (known : ∀ entry ∈ before, KnownLine entry.2)
    (imported : importLines s before = some s') : KnownTables s' := by
  induction before generalizing s with
  | nil =>
    cases imported
    exact tables
  | cons entry lines ih =>
    obtain ⟨first, rest⟩ := List.forall_mem_cons.mp known
    rw [importLines] at imported
    split at imported
    · exact ih (first.knownEntry.tame s tables).1 rest imported
    · cases imported

/-- Every access of a line is inside of its array if its entry has a known type, and only then. -/
theorem known_accesses_iff (tables : KnownTables s) :
    (∀ a ∈ (importStep w line s).accesses, a.Inside) ↔ KnownEntry line := by
  constructor
  · intro inside type key data entry
    by_contra unknown
    obtain ⟨a, mem, outside⟩ := db_insert_entry_outside (w := w) tables unknown key data
    have step : importStep w line s = db_insert_entry w (int32 type) key data s := by
      rw [importStep, entry]
    exact outside (inside a (step ▸ mem))
  · exact fun known => (known.tame s tables).2

theorem rejects_iff : Rejects line ↔ KnownLine line := by
  constructor
  · intro rejects type has_type
    by_contra unknown
    rw [not_or] at unknown
    have harmful := unknown.1
    unfold NoType at harmful
    have other : type ≠ PAF_CROSS_REF_CPP.code := by
      rintro rfl
      exact unknown.2 (isType_code _)
    obtain ⟨key, data, entry⟩ := insert_iff.mpr ⟨has_type, unknown.1, other⟩
    rw [rejects type has_type unknown.2 (by omega) (by omega)] at entry
    cases entry
  · intro known type has_type unknown no_file no_references
    rcases importLine_cases line with ⟨-, nothing⟩ | ⟨number, key, data, has_number, does⟩
    · exact nothing
    · obtain rfl : number = type := Option.some.inj (has_number.symm.trans has_type)
      have rejected : number < -3 :=
        ((known number has_type).resolve_right unknown).resolve_right (by omega)
      rw [does, if_pos rejected]

/-- After lines with known types, the accesses of a line are all inside of their arrays and it is
rejected if its type is unknown, if its type is known or below `-3`, and only then. -/
theorem type_index_iff (known : ∀ entry ∈ before, KnownLine entry.2)
    (imported : importLines noTables before = some s) (w : Answers) (line : Text) :
    ((∀ a ∈ (importStep w line s).accesses, a.Inside) ∧ Rejects line) ↔ KnownLine line := by
  have none_open : KnownTables noTables := by simp [KnownTables, noTables]
  have tables := knownTables_importLines none_open known imported
  rw [known_accesses_iff tables, rejects_iff]
  exact ⟨fun both => both.2, fun line_known => ⟨line_known.knownEntry, line_known⟩⟩

end Lines

/-- A database where every table can be opened and nothing is stored. -/
def freshDatabase : Answers where
  dbopen := fun _ => true
  missing := fun _ => false
  in_project := false
  removed := []
  scopes_opened := false
  stored := true

/-- A class has been imported, and a line with the first unknown type comes. -/
theorem first_unknown_type :
    ((∀ a ∈ (importStep freshDatabase (ascii "31;name;data")
        (Function.update noTables 2 true)).accesses, a.Inside) ∧ Rejects (ascii "31;name;data")) ↔
      KnownLine (ascii "31;name;data") := by
  have known : ∀ entry ∈ [(freshDatabase, ascii "2;name;data")], KnownLine entry.2 := by
    intro entry mem type has_type
    rw [List.mem_singleton.mp mem, show lineType (ascii "2;name;data") = some 2 by decide] at has_type
    cases has_type
    exact .inr (by decide)
  have line : importLine (ascii "2;name;data") =
      some (.insert 2 (ascii "name") (ascii "data")) := by decide
  have record : importStep freshDatabase (ascii "2;name;data") = insertRecord freshDatabase 2 := by
    rw [importStep, line]
    exact db_insert_entry_record (by decide) (by decide) _ _
  have imported : importLines noTables [(freshDatabase, ascii "2;name;data")] =
      some (Function.update noTables 2 true) := by
    rw [importLines, record]
    rfl
  exact type_index_iff known imported _ _

/-- The name of the table of type 31 is read behind the array. -/
theorem name_behind_array :
    Access.SN_symbol_types 31 ∈
        (importStep freshDatabase (ascii "31;name;data") noTables).accesses ∧
      ¬ (Access.SN_symbol_types 31).Inside ∧ importLine (ascii "31;name;data") ≠ none := by
  have line : importLine (ascii "31;name;data") =
      some (.insert 31 (ascii "name") (ascii "data")) := by decide
  refine ⟨?_, by decide, by simp [line]⟩
  have record : importStep freshDatabase (ascii "31;name;data") =
      insertRecord freshDatabase 31 := by
    rw [importStep, line]
    exact db_insert_entry_record (by decide) (by decide) _ _
  rw [record]
  decide

end SourceNavigator.Db.TypeIndex

import SourceNavigator.Scanf
import SourceNavigator.Db.LongString
import SourceNavigator.Db.Table
import SourceNavigator.Db.Import

/-!
The removal of the records of a file (`db/dbutils.c`).

`db_insert_entry` stores the record of a symbol in the table of its type and the
record of the file symbol in the table `PAF_FILE_SYMBOLS`.
`db_remove_file_def` reads the file symbols of a file and builds from each the
key of the symbol to delete.

A table may exist and not be open. `none` is undefined behaviour or the end of
the program by `Paf_panic`: a position that does not fit the buffer it is
reformatted in, a field that is not there, a file name that overflows.
-/

namespace SourceNavigator.Db

open SymbolType

/-- The tables that exist and those that this process has open (`db_syms`). -/
structure Database where
  table : SymbolType → Option Table
  opened : SymbolType → Bool

namespace Database

def lookup (d : Database) (t : SymbolType) (key : Text) : Option Text :=
  ((d.table t).getD ∅)[key]?

/-- The table is opened if it exists (`create_table` without `O_CREAT`). -/
def openTable (d : Database) (t : SymbolType) : Database :=
  { d with opened := Function.update d.opened t (d.opened t || (d.table t).isSome) }

def erase (d : Database) (t : SymbolType) (key : Text) : Database :=
  { d with table := Function.update d.table t ((d.table t).map (·.erase key)) }

/-- `db_insert_entry` of a record that is neither a file nor a cross reference. -/
def insert (d : Database) (l : Line) : Database :=
  { table :=
      Function.update d.table l.type
        (some (((d.table l.type).getD ∅).insert l.key (unescape l.data)))
    opened := Function.update d.opened l.type true }

end Database

/-- The prefix of the keys of a file in the tables that are sorted by files. -/
def filePrefix (file : Text) : Text := file ++ [DB_FLDSEP_CHR]

def db_remove_comment_def (d : Database) (file : Text) : Option Database :=
  if d.opened PAF_COMMENT_DEF then
    if MAXPATHLEN < file.length + 2 then none
    else
      some
        { d with
          table :=
            Function.update d.table PAF_COMMENT_DEF
              ((d.table PAF_COMMENT_DEF).map fun t =>
                t.eraseAll ((t.scan (filePrefix file)).map Prod.fst)) }
  else
    some d

/-- The highlight position, a field of the data of a file symbol, as the keys have it: the
field is copied to a buffer of eleven bytes and printed back into it. -/
def startpos (data : Text) : Option Text :=
  let fields := data.splitOn DB_FLDSEP_CHR
  let size := fieldSize fields 1
  if fields.length < 2 ∨ size < 0 ∨ 11 < size + 1 then none
  else
    let buff := (fieldValue fields 1).take size.toNat
    match scanPosition buff with
    | some (line, column) =>
      let long := sortedPosition line column
      if 11 < long.length + 1 then none else some long
    | none => some buff

/-- The types whose records are deleted under a key that starts with a scope. -/
def keyHasScope : SymbolType → Bool
  | PAF_EXCEPTION_DEF | PAF_MBR_FUNC_DEF | PAF_MBR_FUNC_DCL | PAF_FRIEND_DCL | PAF_MBR_VAR_DEF
  | PAF_COMMON_MBR_VAR_DEF | PAF_CLASS_INHERIT | PAF_LOCAL_VAR_DEF => true
  | _ => false

/-- The key to delete from the table of a type. -/
def delkey (type : SymbolType) (pars : List Text) (startpos file : Text) : Option Text :=
  let scope := appended (fieldValue pars 2) (fieldSize pars 2)
  let symbol := appended (fieldValue pars 3) (fieldSize pars 3)
  if pars.length < 4 then none
  else if keyHasScope type then some (joinFields [scope, symbol, startpos, file])
  else some (joinFields [symbol, startpos, file])

/-- The table and the key of the symbol of a file symbol; `some none` for an unknown type. -/
def symbolOf (file key data : Text) : Option (Option (SymbolType × Text)) :=
  let pars := key.splitOn DB_FLDSEP_CHR
  match ofName (pars.getLastD []) with
  | none => some none
  | some type =>
    match startpos data with
    | none => none
    | some startpos => (delkey type pars startpos file).map fun key => some (type, key)

/-- The loop body for a file symbol under the cursor. -/
def removeSymbol (file : Text) (d : Database) (record : Text × Text) : Option Database :=
  match symbolOf file record.1 record.2 with
  | none => none
  | some none => some d
  | some (some (type, sc_key)) =>
    match d.table type with
    | none => some d
    | some _ => some (((d.openTable type).erase PAF_FILE_SYMBOLS record.1).erase type sc_key)

/-- The cursor skips a record that was deleted before it is reached. -/
def removeNext (file : Text) (d : Database) (record : Text × Text) : Option Database :=
  if (d.lookup PAF_FILE_SYMBOLS record.1).isSome then removeSymbol file d record else some d

def removeSymbols (file : Text) (d : Database) : Option Database :=
  (((d.table PAF_FILE_SYMBOLS).getD ∅).scan (filePrefix file)).foldlM (removeNext file) d

/-- The part of `db_remove_file_def` after the tables are opened. -/
def removeOpened (d : Database) (file : Text) : Option Database :=
  (db_remove_comment_def d file).bind fun d =>
    if MAXPATHLEN + 1 < file.length + 2 then none else removeSymbols file d

def db_remove_file_def (d : Database) (file : Text) : Option Database :=
  if d.opened PAF_FILE_SYMBOLS then removeOpened d file
  else if (d.table PAF_FILE_SYMBOLS).isSome then
    removeOpened ((d.openTable PAF_FILE_SYMBOLS).openTable PAF_COMMENT_DEF) file
  else some d

/-! ### Lookups -/

namespace Database

variable {d : Database} {t t' : SymbolType} {key key' : Text}

theorem table_erase :
    (d.erase t key).table = Function.update d.table t ((d.table t).map (·.erase key)) :=
  rfl

theorem table_insert {l : Line} : (d.insert l).table =
    Function.update d.table l.type
      (some (((d.table l.type).getD ∅).insert l.key (unescape l.data))) :=
  rfl

theorem lookup_erase : (d.erase t key).lookup t' key' =
    if t' = t ∧ key' = key then none else d.lookup t' key' := by
  unfold lookup
  rw [table_erase]
  by_cases same : t' = t
  · subst same
    rw [Function.update_self]
    have erased := congrFun (lookup_map_erase (d.table t') key) key'
    rw [Function.update_apply] at erased
    rw [erased]
    exact if_congr (by simp) rfl rfl
  · rw [Function.update_of_ne same, if_neg fun both => same both.1]

theorem isSome_table_erase : ((d.erase t key).table t').isSome = (d.table t').isSome := by
  rw [table_erase]
  by_cases same : t' = t
  · subst same
    rw [Function.update_self, Option.isSome_map]
  · rw [Function.update_of_ne same]

theorem lookup_insert {l : Line} : (d.insert l).lookup t key =
    if t = l.type ∧ key = l.key then some (unescape l.data) else d.lookup t key := by
  unfold lookup
  rw [table_insert]
  by_cases same : t = l.type
  · subst same
    rw [Function.update_self]
    have inserted := congrFun
      (Db.lookup_insert ((d.table l.type).getD ∅) l.key (unescape l.data)) key
    rw [Function.update_apply] at inserted
    exact inserted.trans (if_congr (by simp) rfl rfl)
  · rw [Function.update_of_ne same, if_neg fun both => same both.1]

theorem isSome_table_of_lookup (found : (d.lookup t key).isSome = true) :
    (d.table t).isSome = true := by
  unfold lookup at found
  cases opened : d.table t with
  | some table => rfl
  | none =>
    rw [opened, Option.getD_none, Std.TreeMap.getElem?_emptyc] at found
    exact absurd found (by simp)

end Database

/-! ### The loop over the file symbols -/

section Loop

variable {file : Text} {d d' : Database} {records : List (Text × Text)}

/-- The records that the loop reads: each is in the table, none twice. -/
structure Walk (d : Database) (records : List (Text × Text)) : Prop where
  present : ∀ e ∈ records, d.lookup PAF_FILE_SYMBOLS e.1 = some e.2
  distinct : (records.map Prod.fst).Nodup

/-- The record leads to a symbol in a table that exists and is not the one that is walked. -/
def Leads (file : Text) (d : Database) (e : Text × Text) : Prop :=
  ∃ type key, symbolOf file e.1 e.2 = some (some (type, key)) ∧ type ≠ PAF_FILE_SYMBOLS ∧
    (d.table type).isSome = true

/-- The key is that of a record of the list or of the symbol of one. -/
def Gone (file : Text) (records : List (Text × Text)) (t : SymbolType) (key : Text) : Prop :=
  ∃ e ∈ records, (t = PAF_FILE_SYMBOLS ∧ key = e.1) ∨ symbolOf file e.1 e.2 = some (some (t, key))

theorem removeNext_leads {e : Text × Text} (present : d.lookup PAF_FILE_SYMBOLS e.1 = some e.2)
    (leads : Leads file d e) :
    ∃ d', removeNext file d e = some d' ∧
      (∀ t, (d'.table t).isSome = (d.table t).isSome) ∧
      ∀ t key, d'.lookup t key =
        if (t = PAF_FILE_SYMBOLS ∧ key = e.1) ∨ symbolOf file e.1 e.2 = some (some (t, key))
        then none else d.lookup t key := by
  obtain ⟨type, sc_key, symbol, _, exists_⟩ := leads
  obtain ⟨table, found⟩ := Option.isSome_iff_exists.mp exists_
  refine ⟨((d.openTable type).erase PAF_FILE_SYMBOLS e.1).erase type sc_key, ?_, ?_, ?_⟩
  · rw [removeNext, present, Option.isSome_some, if_pos rfl, removeSymbol, symbol]
    simp only [found]
  · intro t
    rw [Database.isSome_table_erase, Database.isSome_table_erase]
    rfl
  · intro t key
    rw [Database.lookup_erase, Database.lookup_erase, symbol]
    simp only [Option.some.injEq, Prod.mk.injEq]
    by_cases first : t = PAF_FILE_SYMBOLS ∧ key = e.1
    · rw [if_pos first, ite_self, if_pos (Or.inl first)]
    · rw [if_neg first]
      apply if_congr _ rfl rfl
      constructor
      · rintro ⟨rfl, rfl⟩
        exact .inr ⟨rfl, rfl⟩
      · rintro (both | ⟨rfl, rfl⟩)
        · exact absurd both first
        · exact ⟨rfl, rfl⟩

/-- The walk goes on behind a record that led to its symbol. -/
theorem Walk.tail {e : Text × Text} (walk : Walk d (e :: records)) (leads : Leads file d e)
    (lookups : ∀ t key, d'.lookup t key =
      if (t = PAF_FILE_SYMBOLS ∧ key = e.1) ∨ symbolOf file e.1 e.2 = some (some (t, key))
      then none else d.lookup t key) :
    Walk d' records := by
  obtain ⟨first, rest⟩ := List.nodup_cons.mp (List.map_cons ▸ walk.distinct)
  refine ⟨fun e' mem => ?_, rest⟩
  rw [lookups, if_neg, walk.present e' (List.mem_cons_of_mem e mem)]
  rintro (⟨_, same⟩ | symbol)
  · exact first (same ▸ List.mem_map_of_mem mem)
  · obtain ⟨type, key, is, other, _⟩ := leads
    rw [symbol] at is
    exact other (Prod.mk.inj (Option.some.inj (Option.some.inj is))).1.symm

/-- If every record leads to a symbol, exactly the records and their symbols are gone. -/
theorem removeNext_run (walk : Walk d records) (leads : ∀ e ∈ records, Leads file d e) :
    ∃ d', records.foldlM (removeNext file) d = some d' ∧
      (∀ t key, Gone file records t key → d'.lookup t key = none) ∧
      ∀ t key, ¬ Gone file records t key → d'.lookup t key = d.lookup t key := by
  induction records generalizing d with
  | nil => exact ⟨d, rfl, fun t key ⟨e, mem, _⟩ => absurd mem List.not_mem_nil, fun _ _ _ => rfl⟩
  | cons e records ih =>
    have here := leads e List.mem_cons_self
    obtain ⟨d₁, step, tables, lookups⟩ :=
      removeNext_leads (walk.present e List.mem_cons_self) here
    have leads₁ : ∀ e' ∈ records, Leads file d₁ e' := by
      intro e' mem
      obtain ⟨type, key, symbol, other, exists_⟩ := leads e' (List.mem_cons_of_mem e mem)
      exact ⟨type, key, symbol, other, (tables type).trans exists_⟩
    obtain ⟨d₂, run, gone, kept⟩ := ih (walk.tail here lookups) leads₁
    refine ⟨d₂, ?_, ?_, ?_⟩
    · rw [List.foldlM_cons, step]
      exact run
    · rintro t key ⟨e', mem, is⟩
      by_cases later : Gone file records t key
      · exact gone t key later
      · rcases List.mem_cons.mp mem with rfl | mem
        · rw [kept t key later, lookups, if_pos is]
        · exact absurd ⟨e', mem, is⟩ later
    · intro t key never
      have first : ¬ Gone file records t key := by
        rintro ⟨e', mem, is⟩
        exact never ⟨e', List.mem_cons_of_mem e mem, is⟩
      rw [kept t key first, lookups, if_neg]
      exact fun is => never ⟨e, List.mem_cons_self, is⟩

/-- A record whose symbol is undefined is reached and ends the loop. -/
theorem removeNext_undefined (walk : Walk d records)
    (leads : ∀ e ∈ records, symbolOf file e.1 e.2 = none ∨ Leads file d e)
    (undefined_ : ∃ e ∈ records, symbolOf file e.1 e.2 = none) :
    records.foldlM (removeNext file) d = none := by
  induction records generalizing d with
  | nil =>
    obtain ⟨e, mem, _⟩ := undefined_
    exact absurd mem List.not_mem_nil
  | cons e records ih =>
    rw [List.foldlM_cons]
    rcases leads e List.mem_cons_self with bad | here
    · have stop : removeNext file d e = none := by
        rw [removeNext, walk.present e List.mem_cons_self, Option.isSome_some, if_pos rfl,
          removeSymbol, bad]
      rw [stop]
      rfl
    · obtain ⟨d₁, step, tables, lookups⟩ :=
        removeNext_leads (walk.present e List.mem_cons_self) here
      rw [step]
      apply ih (walk.tail here lookups)
      · intro e' mem
        refine (leads e' (List.mem_cons_of_mem e mem)).imp_right ?_
        rintro ⟨type, key, symbol, other, exists_⟩
        exact ⟨type, key, symbol, other, (tables type).trans exists_⟩
      · obtain ⟨e', mem, bad⟩ := undefined_
        rcases List.mem_cons.mp mem with rfl | mem
        · obtain ⟨type, key, symbol, _⟩ := here
          rw [bad] at symbol
          exact absurd symbol (by simp)
        · exact ⟨e', mem, bad⟩

end Loop

end SourceNavigator.Db

import Mathlib.Data.List.Induction
import SourceNavigator.Db.SymbolRecords

/-!
The removal of a file undoes the insertions of its symbols.

A `History` is a list of calls that `put_symbol` accepts, for any files, whose
records are imported in some order next to a table of comments. `Removed` says
that the records of a file are gone and all others are as they were.

* `LoopStart.gone_iff` says what the loop over the file symbols deletes.
* `removed_iff` is the condition for the removal to undo the insertions.
-/

namespace SourceNavigator.Db

open SymbolType

/-! ### Histories -/

/-- Calls that `put_symbol` accepts, and their records in the order they are imported, next to
a table of comments. -/
structure History where
  o : Options
  calls : List SymbolArgs
  lines : List Line
  comments : Option Table
  accepted : ∀ a ∈ calls, put_symbol o escapeNewlines a ≠ []
  imported : lines.Perm (calls.flatMap (put_symbol o escapeNewlines))

/-- The record that was imported last for a key of a table. -/
def lastLine (lines : List Line) (t : SymbolType) (key : Text) : Option Line :=
  lines.reverse.find? fun l => t = l.type ∧ key = l.key

namespace History

variable (h : History)

/-- The tables after the import, opened or not. -/
def database (opened : SymbolType → Bool) : Database :=
  { h.lines.foldl Database.insert
      ⟨fun t => if t = PAF_COMMENT_DEF then h.comments else none, fun _ => false⟩ with
    opened := opened }

/-- The file symbol of a call was not overwritten by that of another one. -/
def Kept (a : SymbolArgs) : Prop :=
  lastLine h.lines PAF_FILE_SYMBOLS a.fileRecord.key = some a.fileRecord

/-- What the removal of a file relies on: every type has a table of its own, no file name
holds a separator, and the fields of the calls for the file can be split. -/
structure Clean (file : Text) : Prop where
  types : ∀ a ∈ h.calls, hasTable a.sym_type = true
  files : ∀ a ∈ h.calls, DB_FLDSEP_CHR ∉ a.file
  separate : DB_FLDSEP_CHR ∉ file
  path : file.length + 2 ≤ MAXPATHLEN
  split : ∀ a ∈ h.calls, a.file = file → a.Split

/-- The condition for the removal to undo the insertions. -/
structure Undone (opened : SymbolType → Bool) (file : Text) : Prop where
  scope : ∀ a ∈ h.calls, a.file = file → a.scope.isSome = keyHasScope a.sym_type
  symbols : ∀ a ∈ h.calls, a.file = file → ∃ b ∈ h.calls, b.file = file ∧ h.Kept b ∧
    b.sym_type = a.sym_type ∧ b.name = a.name ∧ b.highKey = a.highKey ∧
      (keyHasScope a.sym_type = true → b.scopeField = a.scopeField)
  positions : ∀ a ∈ h.calls, a.file = file → h.Kept a → a.PositionFits
  comments : (∃ key, filePrefix file <+: key ∧ (h.comments.getD ∅)[key]?.isSome = true) →
    h.calls ≠ [] ∧ (opened PAF_COMMENT_DEF = true ∨ opened PAF_FILE_SYMBOLS = false)

end History

/-- The records of a file are gone and all others are as they were. -/
def Removed (file : Text) (d d' : Database) : Prop :=
  (∀ t key, RecordOf file t key → d'.lookup t key = none) ∧
    ∀ t key, ¬ RecordOf file t key → d'.lookup t key = d.lookup t key

/-! ### What is in the tables -/

section Import

variable {d : Database} {lines : List Line} {t : SymbolType} {key : Text}

theorem lookup_import : (lines.foldl Database.insert d).lookup t key =
    match lastLine lines t key with
    | some l => some (unescape l.data)
    | none => d.lookup t key := by
  induction lines using List.reverseRecOn with
  | nil => rfl
  | append_singleton lines l ih =>
    rw [List.foldl_append, List.foldl_cons, List.foldl_nil, Database.lookup_insert, lastLine,
      List.reverse_append, List.reverse_singleton, List.singleton_append, List.find?_cons]
    by_cases same : t = l.type ∧ key = l.key
    · rw [if_pos same, decide_eq_true same]
    · rw [if_neg same, decide_eq_false same, ih]
      rfl

theorem lastLine_eq_some {l : Line} (found : lastLine lines t key = some l) :
    l ∈ lines ∧ t = l.type ∧ key = l.key := by
  have is := List.find?_some found
  rw [decide_eq_true_iff] at is
  exact ⟨List.mem_reverse.mp (List.mem_of_find?_eq_some found), is⟩

theorem exists_lastLine {l : Line} (mem : l ∈ lines) : ∃ l', lastLine lines l.type l.key = some l' := by
  rw [← Option.isSome_iff_exists, lastLine, List.find?_isSome]
  exact ⟨l, List.mem_reverse.mpr mem, decide_eq_true ⟨rfl, rfl⟩⟩

end Import

namespace History

variable {h : History} {file : Text} {opened : SymbolType → Bool} {t : SymbolType} {key v : Text}

/-- The imported lines are the two records of the calls. -/
theorem mem_lines {l : Line} :
    l ∈ h.lines ↔ ∃ a ∈ h.calls, l = a.symbolRecord h.o ∨ l = a.fileRecord := by
  rw [h.imported.mem_iff, List.mem_flatMap]
  constructor
  · rintro ⟨a, mem, is⟩
    rw [a.put_symbol_accepted (h.accepted a mem)] at is
    simp only [List.mem_cons, List.not_mem_nil, or_false] at is
    exact ⟨a, mem, is⟩
  · rintro ⟨a, mem, is⟩
    refine ⟨a, mem, ?_⟩
    rw [a.put_symbol_accepted (h.accepted a mem)]
    simpa using is

theorem lookup_database : (h.database opened).lookup t key =
    match lastLine h.lines t key with
    | some l => some (unescape l.data)
    | none => if t = PAF_COMMENT_DEF then (h.comments.getD ∅)[key]? else none := by
  have imported : (h.database opened).lookup t key = _ := lookup_import
  rw [imported]
  unfold Database.lookup
  split
  next => rfl
  next =>
    by_cases comment : t = PAF_COMMENT_DEF
    · simp only [if_pos comment]
    · simp only [if_neg comment]
      exact Std.TreeMap.getElem?_emptyc

/-- A record of a type with a table of its own is that of a call. -/
theorem symbol_of_lookup (own : t ≠ PAF_FILE_SYMBOLS)
    (other : t ≠ PAF_COMMENT_DEF) (found : (h.database opened).lookup t key = some v) :
    ∃ a ∈ h.calls, t = a.sym_type ∧ key = (a.symbolRecord h.o).key := by
  rw [lookup_database] at found
  split at found
  next l last =>
    obtain ⟨mem, type, same⟩ := lastLine_eq_some last
    obtain ⟨a, call, rfl | rfl⟩ := mem_lines.mp mem
    · exact ⟨a, call, type, same⟩
    · exact absurd type own
  next =>
    rw [if_neg other] at found
    exact absurd found (by simp)

/-- The symbol of a call is in the table of its type. -/
theorem lookup_symbol {a : SymbolArgs} (call : a ∈ h.calls) :
    ((h.database opened).lookup a.sym_type (a.symbolRecord h.o).key).isSome = true := by
  obtain ⟨l, last⟩ := exists_lastLine (mem_lines.mpr ⟨a, call, .inl rfl⟩)
  change lastLine h.lines a.sym_type _ = _ at last
  rw [lookup_database, last]
  rfl

/-- A file symbol is that of a call and kept. -/
theorem kept_of_lookup (clean : h.Clean file)
    (found : (h.database opened).lookup PAF_FILE_SYMBOLS key = some v) :
    ∃ a ∈ h.calls, h.Kept a ∧ key = a.fileRecord.key ∧ v = unescape a.fileRecord.data := by
  rw [lookup_database] at found
  split at found
  next l last =>
    obtain ⟨mem, type, same⟩ := lastLine_eq_some last
    obtain ⟨a, call, rfl | rfl⟩ := mem_lines.mp mem
    · have own := clean.types a call
      change PAF_FILE_SYMBOLS = a.sym_type at type
      rw [← type] at own
      exact absurd own (by decide)
    · refine ⟨a, call, ?_, same, (Option.some.inj found).symm⟩
      rw [Kept, ← same, last]
  next => exact absurd found (by simp)

theorem lookup_kept {a : SymbolArgs} (kept : h.Kept a) :
    (h.database opened).lookup PAF_FILE_SYMBOLS a.fileRecord.key =
      some (unescape a.fileRecord.data) := by
  rw [lookup_database, kept]

/-- The table of comments is the one that was there. -/
theorem lookup_comments (clean : h.Clean file) :
    (h.database opened).lookup PAF_COMMENT_DEF key = (h.comments.getD ∅)[key]? := by
  rw [lookup_database]
  split
  next l last =>
    obtain ⟨mem, type, _⟩ := lastLine_eq_some last
    obtain ⟨a, call, rfl | rfl⟩ := mem_lines.mp mem
    · have own := clean.types a call
      change PAF_COMMENT_DEF = a.sym_type at type
      rw [← type] at own
      exact absurd own (by decide)
    · exact SymbolType.noConfusion type
  next => rw [if_pos rfl]

/-- A call leaves a table of file symbols. -/
theorem isSome_table_file (some_call : h.calls ≠ []) :
    ((h.database opened).table PAF_FILE_SYMBOLS).isSome = true := by
  obtain ⟨a, calls, list⟩ := List.exists_cons_of_ne_nil some_call
  have call : a ∈ h.calls := list ▸ List.mem_cons_self
  obtain ⟨l, last⟩ := exists_lastLine (mem_lines.mpr ⟨a, call, .inr rfl⟩)
  have found : (h.database opened).lookup PAF_FILE_SYMBOLS a.fileRecord.key = _ := lookup_database
  change lastLine h.lines PAF_FILE_SYMBOLS _ = _ at last
  rw [last] at found
  exact Database.isSome_table_of_lookup (Option.isSome_iff_exists.mpr ⟨_, found⟩)

end History

/-! ### The comments -/

section Comments

variable {d : Database} {file : Text}

theorem db_remove_comment_def_spec (path : file.length + 2 ≤ MAXPATHLEN) :
    ∃ d', db_remove_comment_def d file = some d' ∧
      (∀ t, t ≠ PAF_COMMENT_DEF → d'.table t = d.table t) ∧
      ∀ key, d'.lookup PAF_COMMENT_DEF key =
        if d.opened PAF_COMMENT_DEF = true ∧ filePrefix file <+: key then none
        else d.lookup PAF_COMMENT_DEF key := by
  unfold db_remove_comment_def
  by_cases opened : d.opened PAF_COMMENT_DEF = true
  · rw [if_pos opened, if_neg (by omega)]
    refine ⟨_, rfl, fun t other => Function.update_of_ne other _ _, fun key => ?_⟩
    unfold Database.lookup
    simp only [Function.update_self]
    cases found : d.table PAF_COMMENT_DEF with
    | none => simp
    | some table =>
      simp only [Option.map_some, Option.getD_some]
      rw [Lib.Table.getElem?_eraseAll]
      by_cases has : filePrefix file <+: key
      · have purged : d.opened PAF_COMMENT_DEF = true ∧ filePrefix file <+: key := ⟨opened, has⟩
        rw [if_pos purged]
        split
        next => rfl
        next absent =>
          cases value : table[key]? with
          | none => rfl
          | some v =>
            have met := Lib.Table.mem_scan.mpr ⟨value, has⟩
            exact absurd (List.mem_map.mpr ⟨_, met, rfl⟩) absent
      · have stays : ¬ (d.opened PAF_COMMENT_DEF = true ∧ filePrefix file <+: key) :=
          fun both => has both.2
        have absent : key ∉ (Lib.Table.scan table (filePrefix file)).map Prod.fst := by
          intro mem
          obtain ⟨⟨k, v⟩, met, rfl⟩ := List.mem_map.mp mem
          exact has (Lib.Table.mem_scan.mp met).2
        rw [if_neg stays, if_neg absent]
  · rw [if_neg opened]
    refine ⟨d, rfl, fun _ _ => rfl, fun key => ?_⟩
    rw [if_neg fun both => opened both.1]

/-- With a table of file symbols the comments are removed unless only they are closed. -/
theorem db_remove_file_def_spec (path : file.length + 2 ≤ MAXPATHLEN)
    (symbols : (d.table PAF_FILE_SYMBOLS).isSome = true) :
    ∃ d', db_remove_file_def d file = removeSymbols file d' ∧
      (∀ t, t ≠ PAF_COMMENT_DEF → d'.table t = d.table t) ∧
      ∀ key, d'.lookup PAF_COMMENT_DEF key =
        if (d.opened PAF_COMMENT_DEF = true ∨ d.opened PAF_FILE_SYMBOLS = false) ∧
            filePrefix file <+: key then none
        else d.lookup PAF_COMMENT_DEF key := by
  unfold db_remove_file_def
  by_cases opened : d.opened PAF_FILE_SYMBOLS = true
  · obtain ⟨d', step, tables, comments⟩ := db_remove_comment_def_spec (d := d) path
    refine ⟨d', ?_, tables, fun key => ?_⟩
    · rw [if_pos opened, removeOpened, step, Option.bind_some, if_neg (by omega)]
    · rw [comments, opened]
      exact if_congr (by simp) rfl rfl
  · rw [Bool.not_eq_true] at opened
    obtain ⟨d', step, tables, comments⟩ := db_remove_comment_def_spec
      (d := (d.openTable PAF_FILE_SYMBOLS).openTable PAF_COMMENT_DEF) path
    refine ⟨d', ?_, tables, fun key => ?_⟩
    · rw [opened, if_neg Bool.false_ne_true, if_pos symbols, removeOpened, step,
        Option.bind_some, if_neg (by omega)]
    · rw [comments]
      change (if ((d.opened PAF_COMMENT_DEF || (d.table PAF_COMMENT_DEF).isSome) = true ∧ _)
        then none else d.lookup PAF_COMMENT_DEF key) = _
      by_cases exists_ : (d.table PAF_COMMENT_DEF).isSome = true
      · exact if_congr (by simp [exists_, opened]) rfl rfl
      · have nothing : d.lookup PAF_COMMENT_DEF key = none := by
          by_contra found
          exact exists_ (Database.isSome_table_of_lookup (Option.isSome_iff_ne_none.mpr found))
        simp only [nothing, ite_self]

end Comments

/-! ### The removal -/

section Removal

variable {h : History} {file : Text} {opened : SymbolType → Bool} {d : Database}

/-- The file symbols that the cursor meets. -/
def fileSymbols (d : Database) (file : Text) : List (Text × Text) :=
  ((d.table PAF_FILE_SYMBOLS).getD ∅).scan (filePrefix file)

theorem walk_fileSymbols : Walk d (fileSymbols d file) :=
  ⟨fun _ mem => (Lib.Table.mem_scan.mp mem).1, Lib.Table.nodup_scan⟩

/-- The tables as they are after the comments were removed, for which the loop runs. -/
structure LoopStart (h : History) (opened : SymbolType → Bool) (file : Text) (d : Database) :
    Prop where
  tables : ∀ t, t ≠ PAF_COMMENT_DEF → d.table t = (h.database opened).table t
  comments : ∀ key, d.lookup PAF_COMMENT_DEF key =
    if (opened PAF_COMMENT_DEF = true ∨ opened PAF_FILE_SYMBOLS = false) ∧ filePrefix file <+: key
    then none else (h.database opened).lookup PAF_COMMENT_DEF key

namespace LoopStart

variable (start : LoopStart h opened file d) (clean : h.Clean file)

include start

theorem lookup {t : SymbolType} (other : t ≠ PAF_COMMENT_DEF) (key : Text) :
    d.lookup t key = (h.database opened).lookup t key := by
  unfold Database.lookup
  rw [start.tables t other]

include clean

/-- The cursor meets the kept file symbols of the calls for the file. -/
theorem mem_fileSymbols {e : Text × Text} :
    e ∈ fileSymbols d file ↔ ∃ a ∈ h.calls, a.file = file ∧ h.Kept a ∧
      e = (a.fileRecord.key, unescape a.fileRecord.data) := by
  obtain ⟨key, v⟩ := e
  have meets : (key, v) ∈ fileSymbols d file ↔
      (h.database opened).lookup PAF_FILE_SYMBOLS key = some v ∧ filePrefix file <+: key := by
    rw [← start.lookup SymbolType.noConfusion]
    exact Lib.Table.mem_scan
  rw [meets]
  constructor
  · rintro ⟨found, has⟩
    obtain ⟨a, call, kept, rfl, rfl⟩ := History.kept_of_lookup clean found
    rw [a.fileRecord_key, joinFields_cons (by simp),
      filePrefix_iff clean.separate (clean.files a call)] at has
    exact ⟨a, call, has, kept, rfl⟩
  · rintro ⟨a, call, same, kept, pair⟩
    obtain ⟨rfl, rfl⟩ := Prod.mk.inj pair
    refine ⟨History.lookup_kept kept, ?_⟩
    rw [a.fileRecord_key, joinFields_cons (by simp),
      filePrefix_iff clean.separate (clean.files a call)]
    exact same

/-- The symbol of a call is in a table that exists and is not the one of the file symbols. -/
theorem leads {a : SymbolArgs} (call : a ∈ h.calls) (same : a.file = file)
    (fits : a.PositionFits) : Leads file d (a.fileRecord.key, unescape a.fileRecord.data) := by
  have own := clean.types a call
  have not_file : a.sym_type ≠ PAF_FILE_SYMBOLS := by
    intro is
    rw [is] at own
    exact absurd own (by decide)
  have not_comment : a.sym_type ≠ PAF_COMMENT_DEF := by
    intro is
    rw [is] at own
    exact absurd own (by decide)
  refine ⟨a.sym_type, a.removalKey, ?_, not_file, ?_⟩
  · rw [← same, symbolOf_fileRecord (clean.split a call same) (clean.files a call)]
    exact if_pos fits
  · rw [start.tables _ not_comment]
    exact Database.isSome_table_of_lookup (History.lookup_symbol call)

/-- What is gone after the loop: the file symbols of the file, and the keys built from the
kept ones. -/
theorem gone_iff (positions : ∀ a ∈ h.calls, a.file = file → h.Kept a → a.PositionFits)
    {t : SymbolType} {key : Text} :
    Gone file (fileSymbols d file) t key ↔ ∃ a ∈ h.calls, a.file = file ∧ h.Kept a ∧
      ((t = PAF_FILE_SYMBOLS ∧ key = a.fileRecord.key) ∨
        (t = a.sym_type ∧ key = a.removalKey)) := by
  have symbol : ∀ a ∈ h.calls, a.file = file → h.Kept a →
      (symbolOf file a.fileRecord.key (unescape a.fileRecord.data) = some (some (t, key)) ↔
        t = a.sym_type ∧ key = a.removalKey) := by
    intro a call same kept
    rw [← same, symbolOf_fileRecord (clean.split a call same) (clean.files a call),
      if_pos (positions a call same kept), Option.some.injEq, Option.some.injEq, Prod.mk.injEq]
    exact and_congr eq_comm eq_comm
  constructor
  · rintro ⟨e, mem, is⟩
    obtain ⟨a, call, same, kept, rfl⟩ := (start.mem_fileSymbols clean).mp mem
    exact ⟨a, call, same, kept, is.imp_right (symbol a call same kept).mp⟩
  · rintro ⟨a, call, same, kept, is⟩
    exact ⟨_, (start.mem_fileSymbols clean).mpr ⟨a, call, same, kept, rfl⟩,
      is.imp_right (symbol a call same kept).mpr⟩

/-- A removal that leaves nothing behind was one of symbols the deletion finds. -/
theorem undone {d' : Database} (some_call : h.calls ≠ [])
    (run : removeSymbols file d = some d') (removed : Removed file (h.database opened) d') :
    h.Undone opened file := by
  have positions : ∀ a ∈ h.calls, a.file = file → h.Kept a → a.PositionFits := by
    intro a call same kept
    by_contra wide
    have stop : removeSymbols file d = none := by
      apply removeNext_undefined walk_fileSymbols
      · intro e mem
        obtain ⟨b, call', same', kept', rfl⟩ := (start.mem_fileSymbols clean).mp mem
        by_cases fits : b.PositionFits
        · exact .inr (start.leads clean call' same' fits)
        · left
          rw [← same', symbolOf_fileRecord (clean.split b call' same') (clean.files b call')]
          exact if_neg fits
      · refine ⟨_, (start.mem_fileSymbols clean).mpr ⟨a, call, same, kept, rfl⟩, ?_⟩
        rw [← same, symbolOf_fileRecord (clean.split a call same) (clean.files a call)]
        exact if_neg wide
    rw [stop] at run
    exact absurd run (by simp)
  have leads : ∀ e ∈ fileSymbols d file, Leads file d e := by
    intro e mem
    obtain ⟨a, call, same, kept, rfl⟩ := (start.mem_fileSymbols clean).mp mem
    exact start.leads clean call same (positions a call same kept)
  obtain ⟨d₁, run₁, _, stays⟩ := removeNext_run walk_fileSymbols leads
  obtain rfl : d₁ = d' := Option.some.inj (run₁.symm.trans run)
  -- what is not gone from the loop is a record of another file
  have found : ∀ a ∈ h.calls, a.file = file → ∃ b ∈ h.calls, b.file = file ∧ h.Kept b ∧
      b.sym_type = a.sym_type ∧ b.removalKey = (a.symbolRecord h.o).key := by
    intro a call same
    have own := clean.types a call
    have record := (recordOf_symbol (o := h.o) own (clean.files a call)).mpr same
    have absent := removed.1 _ _ record
    have present : ((h.database opened).lookup a.sym_type (a.symbolRecord h.o).key).isSome = true :=
      History.lookup_symbol call
    by_contra never
    have not_gone : ¬ Gone file (fileSymbols d file) a.sym_type (a.symbolRecord h.o).key := by
      rw [start.gone_iff clean positions]
      rintro ⟨b, call', same', kept', ⟨is, _⟩ | ⟨type, key⟩⟩
      · rw [is] at own
        exact absurd own (by decide)
      · exact never ⟨b, call', same', kept', type.symm, key.symm⟩
    have not_comment : a.sym_type ≠ PAF_COMMENT_DEF := by
      intro is
      rw [is] at own
      exact absurd own (by decide)
    rw [stays _ _ not_gone, start.lookup not_comment] at absent
    rw [absent] at present
    exact absurd present (by simp)
  have shape : ∀ a ∈ h.calls, a.file = file → ∃ b ∈ h.calls, b.file = file ∧ h.Kept b ∧
      b.sym_type = a.sym_type ∧ a.scope.isSome = keyHasScope a.sym_type ∧ b.name = a.name ∧
        b.highKey = a.highKey ∧ (keyHasScope a.sym_type = true → b.scopeField = a.scopeField) := by
    intro a call same
    obtain ⟨b, call', same', kept', type, key⟩ := found a call same
    exact ⟨b, call', same', kept', type,
      (removalKey_eq_iff (clean.split a call same) (clean.split b call' same') type
        (same'.trans same.symm) (clean.files a call)).mp key⟩
  refine ⟨?_, ?_, positions, ?_⟩
  · intro a call same
    obtain ⟨b, _, _, _, _, scope, _⟩ := shape a call same
    exact scope
  · intro a call same
    obtain ⟨b, call', same', kept', type, _, rest⟩ := shape a call same
    exact ⟨b, call', same', kept', type, rest⟩
  · rintro ⟨key, has, present⟩
    refine ⟨some_call, ?_⟩
    by_contra closed
    have absent := removed.1 PAF_COMMENT_DEF key (by rw [RecordOf, if_pos (.inr rfl)]; exact has)
    have not_gone : ¬ Gone file (fileSymbols d file) PAF_COMMENT_DEF key := by
      rw [start.gone_iff clean positions]
      rintro ⟨b, call', same', kept', ⟨is, _⟩ | ⟨type, _⟩⟩
      · exact SymbolType.noConfusion is
      · have own := clean.types b call'
        rw [← type] at own
        exact absurd own (by decide)
    rw [stays _ _ not_gone, start.comments, if_neg fun both => closed both.1,
      History.lookup_comments clean] at absent
    rw [absent] at present
    exact absurd present (by simp)

/-- A symbol that the deletion finds is removed, and nothing of another file is. -/
theorem removed (undone : h.Undone opened file) :
    ∃ d', removeSymbols file d = some d' ∧ Removed file (h.database opened) d' := by
  have leads : ∀ e ∈ fileSymbols d file, Leads file d e := by
    intro e mem
    obtain ⟨a, call, same, kept, rfl⟩ := (start.mem_fileSymbols clean).mp mem
    exact start.leads clean call same (undone.positions a call same kept)
  obtain ⟨d', run, gone, stays⟩ := removeNext_run walk_fileSymbols leads
  refine ⟨d', run, ?_, ?_⟩
  · intro t key record
    by_cases is : Gone file (fileSymbols d file) t key
    · exact gone t key is
    · rw [stays t key is]
      by_cases comment : t = PAF_COMMENT_DEF
      · subst comment
        rw [RecordOf, if_pos (.inr rfl)] at record
        rw [start.comments]
        split
        next => rfl
        next closed =>
          rw [History.lookup_comments clean]
          by_contra present
          obtain ⟨_, opens⟩ :=
            undone.comments ⟨key, record, Option.isSome_iff_ne_none.mpr present⟩
          exact closed ⟨opens, record⟩
      · rw [start.lookup comment]
        by_contra present
        obtain ⟨v, found⟩ := Option.ne_none_iff_exists'.mp present
        apply is
        rw [start.gone_iff clean undone.positions]
        by_cases own : t = PAF_FILE_SYMBOLS
        · subst own
          obtain ⟨a, call, kept, rfl, _⟩ := History.kept_of_lookup clean found
          have same := (recordOf_file clean.separate (clean.files a call)).mp record
          exact ⟨a, call, same, kept, .inl ⟨rfl, rfl⟩⟩
        · obtain ⟨a, call, rfl, rfl⟩ := History.symbol_of_lookup own comment found
          have same := (recordOf_symbol (clean.types a call) (clean.files a call)).mp record
          obtain ⟨b, call', same', kept', type, rest⟩ := undone.symbols a call same
          refine ⟨b, call', same', kept', .inr ⟨type.symm, Eq.symm ?_⟩⟩
          exact (removalKey_eq_iff (clean.split a call same) (clean.split b call' same') type
            (same'.trans same.symm) (clean.files a call)).mpr ⟨undone.scope a call same, rest⟩
  · intro t key other
    have not_gone : ¬ Gone file (fileSymbols d file) t key := by
      rw [start.gone_iff clean undone.positions]
      rintro ⟨a, call, same, kept, ⟨rfl, rfl⟩ | ⟨rfl, rfl⟩⟩
      · exact other ((recordOf_file clean.separate (clean.files a call)).mpr same)
      · apply other
        have own := clean.types a call
        rw [RecordOf, if_neg]
        · rw [keyFile_removalKey (clean.files a call), same]
        · rintro (is | is)
          · rw [is] at own
            exact absurd own (by decide)
          · rw [is] at own
            exact absurd own (by decide)
    rw [stays t key not_gone]
    by_cases comment : t = PAF_COMMENT_DEF
    · subst comment
      rw [start.comments, if_neg]
      rintro ⟨_, has⟩
      exact other (by rw [RecordOf, if_pos (.inr rfl)]; exact has)
    · exact start.lookup comment key

end LoopStart

/-- Without calls the tables are left as they are, the comments too. -/
theorem removed_iff_of_no_call (clean : h.Clean file)
    (exist : ∀ t, opened t = true → ((h.database opened).table t).isSome = true)
    (no_call : h.calls = []) :
    (∃ d', db_remove_file_def (h.database opened) file = some d' ∧
      Removed file (h.database opened) d') ↔ h.Undone opened file := by
  have nothing : ∀ a, a ∉ h.calls := fun a mem => absurd (no_call ▸ mem) List.not_mem_nil
  have no_table : ((h.database opened).table PAF_FILE_SYMBOLS).isSome = false := by
    have no_lines : h.lines = [] := by
      have imported := h.imported
      rw [no_call] at imported
      exact imported.eq_nil
    rw [History.database, no_lines]
    rfl
  have closed : (h.database opened).opened PAF_FILE_SYMBOLS = false := by
    by_contra is
    rw [exist _ (Bool.not_eq_false _ ▸ is)] at no_table
    exact absurd no_table (by simp)
  have run : db_remove_file_def (h.database opened) file = some (h.database opened) := by
    rw [db_remove_file_def, closed, no_table]
    rfl
  rw [run]
  constructor
  · rintro ⟨d', step, removed⟩
    obtain rfl := Option.some.inj step
    refine ⟨fun a call => absurd call (nothing a), fun a call => absurd call (nothing a),
      fun a call => absurd call (nothing a), ?_⟩
    rintro ⟨key, has, present⟩
    have absent := removed.1 PAF_COMMENT_DEF key (by rw [RecordOf, if_pos (.inr rfl)]; exact has)
    rw [History.lookup_comments clean] at absent
    rw [absent] at present
    exact absurd present (by simp)
  · intro undone
    refine ⟨_, rfl, fun t key record => ?_, fun _ _ _ => rfl⟩
    by_contra present
    obtain ⟨v, found⟩ := Option.ne_none_iff_exists'.mp present
    by_cases comment : t = PAF_COMMENT_DEF
    · subst comment
      rw [RecordOf, if_pos (.inr rfl)] at record
      rw [History.lookup_comments clean] at found
      exact (undone.comments ⟨key, record, Option.isSome_iff_exists.mpr ⟨v, found⟩⟩).1 no_call
    · by_cases own : t = PAF_FILE_SYMBOLS
      · subst own
        obtain ⟨a, call, _⟩ := History.kept_of_lookup clean found
        exact nothing a call
      · obtain ⟨a, call, _⟩ := History.symbol_of_lookup own comment found
        exact nothing a call

/-- A removal that leaves nothing behind was one of symbols the deletion finds. -/
theorem undone_of_removed (clean : h.Clean file)
    (exist : ∀ t, opened t = true → ((h.database opened).table t).isSome = true)
    (removed : ∃ d', db_remove_file_def (h.database opened) file = some d' ∧
      Removed file (h.database opened) d') :
    h.Undone opened file := by
  by_cases some_call : h.calls = []
  · exact (removed_iff_of_no_call clean exist some_call).mp removed
  · obtain ⟨d, run, tables, comments⟩ := db_remove_file_def_spec (d := h.database opened)
      clean.path (History.isSome_table_file some_call)
    have start : LoopStart h opened file d := ⟨tables, comments⟩
    obtain ⟨d', step, is⟩ := removed
    rw [run] at step
    exact start.undone clean some_call step is

/-- Symbols the deletion finds are removed, and nothing else. -/
theorem removed_of_undone (clean : h.Clean file)
    (exist : ∀ t, opened t = true → ((h.database opened).table t).isSome = true)
    (undone : h.Undone opened file) :
    ∃ d', db_remove_file_def (h.database opened) file = some d' ∧
      Removed file (h.database opened) d' := by
  by_cases some_call : h.calls = []
  · exact (removed_iff_of_no_call clean exist some_call).mpr undone
  · obtain ⟨d, run, tables, comments⟩ := db_remove_file_def_spec (d := h.database opened)
      clean.path (History.isSome_table_file some_call)
    have start : LoopStart h opened file d := ⟨tables, comments⟩
    rw [run]
    exact start.removed clean undone

/-- The removal of a file undoes the insertions exactly if the deletion finds every symbol of
the file and opens the comments. -/
theorem removed_iff (clean : h.Clean file)
    (exist : ∀ t, opened t = true → ((h.database opened).table t).isSome = true) :
    (∃ d', db_remove_file_def (h.database opened) file = some d' ∧
      Removed file (h.database opened) d') ↔ h.Undone opened file :=
  ⟨undone_of_removed clean exist, removed_of_undone clean exist⟩

end Removal

/-! ### A friend with and without a scope -/

/-- A friend declared in line 3 of a file. -/
def friendCall (scope_name : Option Text) : SymbolArgs where
  sym_type := PAF_FRIEND_DCL
  scope_name := scope_name
  symbol_name := some (ascii "g")
  file_name := some (ascii "x.c")
  start_lineno := 3
  start_colpos := 7
  end_lineno := 3
  end_colpos := 20
  attr := 0
  ret := none
  arg_types := none
  args := none
  comment := none
  high_start_lineno := 0
  high_start_colpos := 0
  high_end_lineno := 0
  high_end_colpos := 0

/-- The same friend of another file. -/
def otherCall : SymbolArgs :=
  { friendCall (some (ascii "A")) with file_name := some (ascii "y.c") }

/-- The calls for both files, imported in their order, without comments. -/
def friendHistory (scope_name : Option Text)
    (accepted : put_symbol ⟨false, false, false⟩ escapeNewlines (friendCall scope_name) ≠ []) :
    History where
  o := ⟨false, false, false⟩
  calls := [friendCall scope_name, otherCall]
  lines := [friendCall scope_name, otherCall].flatMap
    (put_symbol ⟨false, false, false⟩ escapeNewlines)
  comments := none
  accepted := by
    intro a mem
    rcases List.mem_cons.mp mem with rfl | mem
    · exact accepted
    · rw [List.mem_singleton.mp mem]
      decide
  imported := .refl _

theorem friendHistory_clean {scope_name : Option Text}
    (accepted : put_symbol ⟨false, false, false⟩ escapeNewlines (friendCall scope_name) ≠ [])
    (scope : DB_FLDSEP_CHR ∉ (friendCall scope_name).scopeField)
    (short : (friendCall scope_name).scopeField.length < 32768) :
    (friendHistory scope_name accepted).Clean (ascii "x.c") := by
  have name : DB_FLDSEP_CHR ∉ ascii "g" := by decide
  have position : (position 3 7).length < 32768 := by decide
  refine ⟨?_, ?_, by decide, by decide, ?_⟩
  · intro a mem
    rcases List.mem_cons.mp mem with rfl | mem
    · rfl
    · rw [List.mem_singleton.mp mem]
      rfl
  · intro a mem
    rcases List.mem_cons.mp mem with rfl | mem
    · change DB_FLDSEP_CHR ∉ ascii "x.c"
      decide
    · rw [List.mem_singleton.mp mem]
      decide
  · intro a mem same
    rcases List.mem_cons.mp mem with rfl | mem
    · exact ⟨scope, name, short, Nat.lt_of_sub_eq_succ rfl, position⟩
    · rw [List.mem_singleton.mp mem] at same
      exact absurd same (by decide)

theorem removed_friend :
    ∃ d', db_remove_file_def ((friendHistory (some (ascii "A")) (by decide)).database
        fun _ => false) (ascii "x.c") = some d' ∧
      Removed (ascii "x.c") ((friendHistory (some (ascii "A")) (by decide)).database
        fun _ => false) d' := by
  have only : ∀ a ∈ (friendHistory (some (ascii "A")) (by decide)).calls, a.file = ascii "x.c" →
      a = friendCall (some (ascii "A")) := by
    intro a mem same
    rcases List.mem_cons.mp mem with rfl | mem
    · rfl
    · rw [List.mem_singleton.mp mem] at same
      exact absurd same (by decide)
  have kept : (friendHistory (some (ascii "A")) (by decide)).Kept (friendCall (some (ascii "A"))) := by
    rw [History.Kept]
    decide
  apply (removed_iff (friendHistory_clean (by decide) (by decide) (by decide))
    fun t is => absurd is Bool.false_ne_true).mpr
  refine ⟨?_, ?_, ?_, ?_⟩
  · intro a call same
    rw [only a call same]
    rfl
  · intro a call same
    rw [only a call same]
    exact ⟨_, List.mem_cons_self, rfl, kept, rfl, rfl, rfl, fun _ => rfl⟩
  · intro a call same _
    rw [only a call same]
    decide
  · rintro ⟨key, _, present⟩
    rw [friendHistory, Option.getD_none, Std.TreeMap.getElem?_emptyc] at present
    exact absurd present (by simp)

/-- Without a scope the record is written under its name and looked for under a scope `#`. -/
theorem friend_without_scope :
    ¬ ∃ d', db_remove_file_def ((friendHistory none (by decide)).database
        fun _ => false) (ascii "x.c") = some d' ∧
      Removed (ascii "x.c") ((friendHistory none (by decide)).database fun _ => false) d' := by
  intro removed
  have undone := undone_of_removed (friendHistory_clean (by decide) (by decide) (by decide))
    (fun t is => absurd is Bool.false_ne_true) removed
  have scope := undone.scope (friendCall none) List.mem_cons_self (by decide)
  exact absurd scope (by decide)

end SourceNavigator.Db

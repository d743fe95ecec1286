import SourceNavigator.Cpp.MacroStatements
import SourceNavigator.Parsers.SearchTable.History

/-!
Macro definition files (`MacroReadFile` and `paf_word` in
`parsers/cpp/cpplib/macread.c`).

* `Shows` relates the hash table to the last statements; `shows_after` is its step
  lemma for a statement, `readFile_shows` for a file, and `run_shows` the run
  lemma.
* `last_statement_counts`: `Paf_Word` reports the last statement about a name.
-/

namespace SourceNavigator.Cpp.Macread

open LongStr Parsers Lib Lib.Fuel

/-! ### The table -/

/-- The entry of a macro. The object that `data` points to is known by its line; its flag is `0`,
so that nothing is copied. -/
def Macro.entry (m : Macro) : SearchEntry where
  key := m.name
  key_len := m.name.length
  data := m.pcLine
  data_len := m.pcLine.length
  flag := 0
  key_fits := Nat.lt_of_le_of_lt m.name_fits m.line_fits
  key_len_le := Int.le_refl _
  data_fits := m.line_fits
  data_len_le := Int.le_refl _

/-- The entry with which a key is looked up or deleted; the other fields are not read. -/
def keyEntry (key : Text) (key_len : Int) (fits : key.length < 2147483648)
    (le : key_len ≤ key.length) : SearchEntry where
  key
  key_len
  data := []
  data_len := 0
  flag := 0
  key_fits := fits
  key_len_le := le
  data_fits := Nat.zero_lt_succ _
  data_len_le := Int.le_refl _

theorem deleted_le (key : Text) : (-1 : Int) ≤ key.length := by omega

section Code

variable (ckalloc : Ckalloc)

/-- What a statement does to the table. -/
def readStatement (fuel : Nat) (tbl : SearchTable) : Statement → Option SearchTable
  | .nothing => some tbl
  | .delete key fits =>
    (HashTableDelete ckalloc fuel tbl (keyEntry key (-1) fits (deleted_le key))).map (·.htable)
  | .define m =>
    (HashTableDelete ckalloc fuel tbl m.entry).bind fun r =>
      (HashTableAdd ckalloc fuel r.htable m.entry).map (·.htable)

/-- The state of the module: the table, if there is one, and whether `Paf_Word` is set. -/
structure Macros where
  pbtrMacro : Option SearchTable
  Paf_Word : Bool

/-- The table that the file is read into; `none` also if there is no memory for it. -/
def opened (fuel : Nat) (m : Macros) : Option SearchTable :=
  match m.pbtrMacro with
  | some tbl => some tbl
  | none => (HashTableCreate fuel ckalloc 1000).bind id

/-- The state after the file: an empty table is destroyed. -/
def closed (m : Macros) (tbl : SearchTable) : Macros :=
  if tbl.filled ≠ 0 then ⟨some tbl, true⟩ else ⟨none, m.Paf_Word⟩

/-- `MacroReadFile` of a file with these contents. -/
def MacroReadFile (fuel : Nat) (m : Macros) (contents : Text) : Option Macros :=
  (opened ckalloc fuel m).bind fun tbl =>
    ((texts none (lines contents)).foldlM (fun tbl text =>
      (readText (remove_unneded_chars text)).bind (readStatement ckalloc fuel tbl)) tbl).map
        (closed m)

/-- `paf_word`: the kind, the parameter list and the replacement text. -/
def paf_word (fuel : Nat) (pbtrMacro : Option SearchTable) (word : Text)
    (fits : word.length < 2147483648) : Option (Typ × Option Text × Option Text) :=
  match pbtrMacro with
  | none => some (.PAF_WORD_NONE, none, none)
  | some tbl =>
    (HashTableSearch ckalloc fuel tbl (keyEntry word word.length fits (Int.le_refl _))).map fun r =>
      match r.entry.bind fun found => readText found.data with
      | some (.define m) => (m.typ, m.parameter_list, m.macroText)
      | _ => (.PAF_WORD_NONE, none, none)

/-- A call of `Paf_Word`, where there is no macro as long as it is not set. -/
def askPafWord (fuel : Nat) (m : Macros) (word : Text) (fits : word.length < 2147483648) :
    Option (Typ × Option Text × Option Text) :=
  if m.Paf_Word then paf_word ckalloc fuel m.pbtrMacro word fits
  else some (.PAF_WORD_NONE, none, none)

/-! ### What is to be reported -/

/-- The macro of a name behind a statement. -/
def Statement.after (name : Text) (m : Option Macro) : Statement → Option Macro
  | .nothing => m
  | .delete key _ => if key = name then none else m
  | .define d => if d.name = name then some d else m

/-- The macro of the last statement about a name. -/
def lastMacro (name : Text) (statements : List Statement) : Option Macro :=
  statements.foldl (Statement.after name) none

/-- The statements of a file. -/
def fileStatements (contents : Text) : List Statement :=
  (statements none (lines contents)).filterMap fun text => readText (normalLine text)

/-- What a macro is reported as. -/
def report : Option Macro → Typ × Option Text × Option Text
  | some m => (m.typ, m.parameter_list, m.macroText)
  | none => (.PAF_WORD_NONE, none, none)

end Code

/-! ### Calls of the table -/

/-- Every call is safe in the table in which it is made. -/
def Careful : SearchTable → List Call → Prop
  | _, [] => True
  | tbl, c :: cs => c.Safe tbl ∧ ∀ reply tbl', Step tbl (c, reply) tbl' → Careful tbl' cs

/-- The calls lead from a table to another. -/
def Made : SearchTable → List Call → SearchTable → Prop
  | tbl, [], tbl' => tbl = tbl'
  | tbl, c :: cs, tbl' => ∃ reply t, Step tbl (c, reply) t ∧ Made t cs tbl'

/-- The calls that a statement makes. -/
def Statement.calls (ckalloc : Ckalloc) : Statement → List Call
  | .nothing => []
  | .delete key fits => [⟨.Delete, keyEntry key (-1) fits (deleted_le key), ckalloc⟩]
  | .define m => [⟨.Delete, m.entry, ckalloc⟩, ⟨.Add, m.entry, ckalloc⟩]

section Table

variable {ckalloc : Ckalloc} {tbl tbl' : SearchTable} {fm : FiniteMap} {cs cs' : List Call}
  {st : Statement} {spec : Text → Option Macro}

theorem Made.append : Made tbl (cs ++ cs') tbl' ↔ ∃ t, Made tbl cs t ∧ Made t cs' tbl' := by
  induction cs generalizing tbl with
  | nil => exact ⟨fun made => ⟨tbl, rfl, made⟩, fun ⟨_, same, made⟩ => same ▸ made⟩
  | cons c cs ih =>
    constructor
    · rintro ⟨reply, t, step, made⟩
      obtain ⟨u, left, right⟩ := ih.mp made
      exact ⟨u, ⟨reply, t, step, left⟩, right⟩
    · rintro ⟨u, ⟨reply, t, step, left⟩, right⟩
      exact ⟨reply, t, step, ih.mpr ⟨u, left, right⟩⟩

theorem Careful.append (careful : Careful tbl (cs ++ cs')) :
    Careful tbl cs ∧ ∀ t, Made tbl cs t → Careful t cs' := by
  induction cs generalizing tbl with
  | nil => exact ⟨trivial, fun t same => same ▸ careful⟩
  | cons c cs ih =>
    obtain ⟨safe, further⟩ := careful
    refine ⟨⟨safe, fun reply t step => (ih (further reply t step)).1⟩, ?_⟩
    rintro t ⟨reply, u, step, made⟩
    exact (ih (further reply u step)).2 t made

/-- Careful calls leave the table with what the map has behind them. -/
theorem careful_refines (h : Represents tbl fm) (careful : Careful tbl cs) (made : Made tbl cs tbl') :
    Represents tbl' (cs.foldl FiniteMap.after fm) := by
  induction cs generalizing tbl fm with
  | nil => exact made ▸ h
  | cons c cs ih =>
    obtain ⟨safe, further⟩ := careful
    obtain ⟨reply, t, step, made⟩ := made
    exact ih (Call.refines h safe step).2 (further reply t step) made

/-- Careful calls return. -/
theorem careful_returns (h : Represents tbl fm) (careful : Careful tbl cs) :
    ∃ tbl', Made tbl cs tbl' := by
  induction cs generalizing tbl fm with
  | nil => exact ⟨tbl, rfl⟩
  | cons c cs ih =>
    obtain ⟨safe, further⟩ := careful
    obtain ⟨reply, t, step⟩ := (call_returns h.wf).mpr safe.ends
    obtain ⟨t', made⟩ := ih (Call.refines h safe step).2 (further reply t step)
    exact ⟨t', reply, t, step, made⟩

theorem call_map {c : Call} :
    Returns (fun fuel => (c.perform fuel tbl).map (·.htable)) tbl' ↔
      ∃ reply, Step tbl (c, reply) tbl' := by
  rw [returns_map]
  constructor
  · rintro ⟨⟨t, reply, removed⟩, returns, rfl⟩
    exact ⟨reply, removed, returns⟩
  · rintro ⟨reply, removed, returns⟩
    exact ⟨_, returns, rfl⟩

theorem readStatement_mono (st : Statement) :
    Mono fun fuel => readStatement ckalloc fuel tbl st := by
  cases st with
  | nothing => exact .const _
  | delete key fits => exact HashTableSearchFunc_mono.map _
  | define m => exact HashTableSearchFunc_mono.bind fun r => HashTableSearchFunc_mono.map _

/-- A statement is carried out by its calls. -/
theorem readStatement_returns :
    Returns (fun fuel => readStatement ckalloc fuel tbl st) tbl' ↔
      Made tbl (st.calls ckalloc) tbl' := by
  cases st with
  | nothing => exact returns_const.trans Option.some_inj
  | delete key fits =>
    refine (call_map (c := ⟨.Delete, _, ckalloc⟩)).trans ⟨?_, ?_⟩
    · rintro ⟨reply, step⟩
      exact ⟨reply, tbl', step, rfl⟩
    · rintro ⟨reply, t, step, rfl⟩
      exact ⟨reply, step⟩
  | define m =>
    have both := returns_bind (f := fun fuel => HashTableDelete ckalloc fuel tbl m.entry)
      (g := fun fuel r => (HashTableAdd ckalloc fuel r.htable m.entry).map (·.htable))
      (b := tbl') HashTableSearchFunc_mono fun r => HashTableSearchFunc_mono.map _
    refine both.trans ⟨?_, ?_⟩
    · rintro ⟨⟨t, reply, removed⟩, deleted, added⟩
      obtain ⟨reply', step⟩ := (call_map (c := ⟨.Add, m.entry, ckalloc⟩)).mp added
      exact ⟨reply, t, ⟨removed, deleted⟩, reply', tbl', step, rfl⟩
    · rintro ⟨reply, t, ⟨removed, deleted⟩, reply', t', step, rfl⟩
      exact ⟨_, deleted, (call_map (c := ⟨.Add, m.entry, ckalloc⟩)).mpr ⟨reply', step⟩⟩

/-! ### The table and the last statements -/

/-- The macro that an entry leads to. -/
def macroOf (e : SearchEntry) : Option Macro :=
  match readText e.data with
  | some (.define m) => some m
  | _ => none

/-- The map has an entry for each macro. -/
def Shows (fm : FiniteMap) (spec : Text → Option Macro) : Prop :=
  ∀ name, (fm name).bind macroOf = spec name

/-- A key that comes without a length. -/
theorem bytes_deleted {key : Text} {fits : key.length < 2147483648} (nul : 0 ∉ key) :
    (keyEntry key (-1) fits (deleted_le key)).bytes = key := by
  refine List.takeWhile_eq_self_iff.mpr fun c mem => decide_eq_true ?_
  rintro rfl
  exact nul mem

/-- A key that comes with its length. -/
theorem bytes_of_length {item : SearchEntry} (length : item.key_len = item.key.length) :
    item.bytes = item.key := by
  rw [SearchEntry.bytes]
  split
  case isTrue empty =>
    have nothing : item.key = [] := List.length_eq_zero_iff.mp (by omega)
    rw [nothing]
    rfl
  case isFalse =>
    rw [length]
    exact List.take_length

/-- Nothing is copied for an entry without a flag. -/
theorem stored_of_flag {item : SearchEntry} (flag : item.flag = 0) :
    item.stored true = item.measure := by
  have measured : item.measure.flag = 0 := by
    rw [SearchEntry.measure]
    split <;> exact flag
  have key : item.measure.dupKey = item.measure := by
    rw [SearchEntry.dupKey, measured]
    exact if_neg (by decide)
  rw [SearchEntry.stored, if_pos rfl, key, SearchEntry.dupData, measured]
  exact if_neg (by decide)

theorem stored_entry (m : Macro) : (m.entry.stored true).data = m.pcLine := by
  rw [stored_of_flag rfl, SearchEntry.measure]
  split <;> rfl

/-- A statement is carried out in the map as in the list of the last ones. -/
theorem shows_after (shows_ : Shows fm spec) (clean : st.Clean) :
    Shows ((st.calls ckalloc).foldl FiniteMap.after fm) fun name => st.after name (spec name) := by
  intro name
  cases st with
  | nothing => exact shows_ name
  | delete key fits =>
    have bytes : (keyEntry key (-1) fits (deleted_le key)).bytes = key := bytes_deleted clean
    simp only [Statement.calls, List.foldl_cons, List.foldl_nil, FiniteMap.after, bytes,
      Statement.after, Function.update_apply]
    by_cases same : name = key
    · rw [if_pos same, if_pos same.symm, Option.bind_none]
    · rw [if_neg same, if_neg (Ne.symm same)]
      exact shows_ name
  | define m =>
    have bytes : m.entry.bytes = m.name := bytes_of_length rfl
    have good : m.entry.badFlag = false := by
      have flag : m.entry.flag = 0 := rfl
      rw [SearchEntry.badFlag, flag]
      decide
    have stored : macroOf (m.entry.stored true) = some m := by
      rw [macroOf, stored_entry, clean.2]
    simp only [Statement.calls, List.foldl_cons, List.foldl_nil, FiniteMap.after,
      FiniteMap.answer, bytes, good, Function.update_self, Statement.after,
      Function.update_apply, Bool.false_eq_true, if_false]
    by_cases same : name = m.name
    · rw [if_pos same, if_pos same.symm, Option.bind_some, stored]
    · rw [if_neg same, if_neg same, if_neg (Ne.symm same)]
      exact shows_ name

/-- What the module knows: the table shows the last statements, and without a table there is no
macro. -/
def Macros.Shows (m : Macros) (spec : Text → Option Macro) : Prop :=
  match m.pbtrMacro with
  | none => ∀ name, spec name = none
  | some tbl =>
    m.Paf_Word = true ∧ ∃ fm, Represents tbl fm ∧ Macread.Shows fm spec

/-- The statements that the code reads in a file. -/
def readStatements (contents : Text) : List Statement :=
  (texts none (lines contents)).filterMap fun text => readText (remove_unneded_chars text)

/-- Every text of the file is one that an `int` can count. -/
def Fits (contents : Text) : Prop :=
  ∀ text ∈ texts none (lines contents), (remove_unneded_chars text).length < 2147483648

theorem readText_mono (tbl : SearchTable) (text : Text) : Mono fun fuel =>
    (readText (remove_unneded_chars text)).bind (readStatement ckalloc fuel tbl) := by
  cases readText (remove_unneded_chars text) with
  | none => exact .const _
  | some st => exact readStatement_mono st

/-- The texts are read if the calls of their statements are made. -/
theorem readTexts_returns (ts : List Text) :
    Returns (fun fuel => ts.foldlM (fun tbl text =>
        (readText (remove_unneded_chars text)).bind (readStatement ckalloc fuel tbl)) tbl) tbl' ↔
      (∀ text ∈ ts, (remove_unneded_chars text).length < 2147483648) ∧
        Made tbl ((ts.filterMap fun text => readText (remove_unneded_chars text)).flatMap
          (Statement.calls ckalloc)) tbl' := by
  induction ts generalizing tbl with
  | nil => exact returns_foldlM_nil.trans ⟨fun same => ⟨by simp, same⟩, fun h => h.2⟩
  | cons text ts ih =>
    refine (returns_foldlM_cons readText_mono).trans ?_
    by_cases fits : (remove_unneded_chars text).length < 2147483648
    · have read : readText (remove_unneded_chars text) = some (f_MacroReadLine _ fits) :=
        dif_pos fits
      rw [List.filterMap_cons_some (f := fun text => readText (remove_unneded_chars text)) read,
        List.flatMap_cons, List.forall_mem_cons, Made.append]
      constructor
      · rintro ⟨t, made, further⟩
        rw [read] at made
        obtain ⟨all, further⟩ := ih.mp further
        exact ⟨⟨fits, all⟩, t, readStatement_returns.mp made, further⟩
      · rintro ⟨⟨-, all⟩, t, made, further⟩
        refine ⟨t, ?_, ih.mpr ⟨all, further⟩⟩
        rw [read]
        exact readStatement_returns.mpr made
    · have unread : readText (remove_unneded_chars text) = none := dif_neg fits
      constructor
      · rintro ⟨t, ⟨fuel, made⟩, further⟩
        rw [unread] at made
        cases made
      · rintro ⟨all, -⟩
        exact absurd (all text List.mem_cons_self) fits

/-- In a settled file the code reads the statements. -/
theorem readStatements_eq {contents : Text} (settled : Settled none (lines contents)) :
    readStatements contents = fileStatements contents := by
  have same := congrArg (List.filterMap readText) (joined_eq (lines contents) .outside settled)
  rw [List.filterMap_map, List.filterMap_map] at same
  exact same

theorem opened_mono (m : Macros) : Mono fun fuel => opened ckalloc fuel m := by
  unfold opened
  cases m.pbtrMacro with
  | some tbl => exact .const _
  | none => exact (HashTableCreate_mono ckalloc 1000).bind fun _ => .const _

theorem opened_shows {m : Macros} (known : m.Shows spec)
    (returns : Returns (fun fuel => opened ckalloc fuel m) tbl) :
    ∃ fm, Represents tbl fm ∧ Shows fm spec := by
  unfold opened at returns
  unfold Macros.Shows at known
  cases there : m.pbtrMacro with
  | some t =>
    rw [there] at returns known
    obtain rfl : t = tbl := Option.some.inj (returns_const.mp returns)
    exact known.2
  | none =>
    rw [there] at returns known
    obtain ⟨fuel, made⟩ := returns
    obtain ⟨created, made, same⟩ := Option.bind_eq_some_iff.mp made
    obtain rfl : created = some tbl := same
    have new : Created ckalloc 1000 tbl := ⟨fuel, made⟩
    exact ⟨_, new.represents, fun name => (known name).symm⟩

/-- An empty table shows no macro. -/
theorem closed_shows {m : Macros} (h : Represents tbl fm) (shows_ : Shows fm spec) :
    (closed m tbl).Shows spec := by
  unfold closed
  split
  case isTrue => exact ⟨rfl, fm, h, shows_⟩
  case isFalse empty =>
    intro name
    rw [← shows_ name, Option.bind_eq_none_iff]
    intro e stored
    obtain ⟨i, found⟩ := (h.holds name e).mp stored
    obtain ⟨used, -⟩ := slots_eq_some.mp found
    have range := h.wf.used_mem used
    have counted := h.wf.filled
    rw [Decidable.not_not.mp empty] at counted
    have member : i ∈ (Finset.Icc 1 tbl.hsize).filter fun i => (tbl.slot i).used ≠ 0 :=
      Finset.mem_filter.mpr ⟨Finset.mem_Icc.mpr range, used⟩
    rw [Finset.card_eq_zero.mp counted.symm] at member
    exact absurd member (Finset.notMem_empty i)

/-- The statements of a file are carried out one after the other. -/
theorem shows_statements (sts : List Statement) (clean : ∀ st ∈ sts, st.Clean)
    (h : Represents tbl fm) (shows_ : Shows fm spec)
    (careful : Careful tbl (sts.flatMap (Statement.calls ckalloc)))
    (made : Made tbl (sts.flatMap (Statement.calls ckalloc)) tbl') :
    ∃ fm', Represents tbl' fm' ∧ Shows fm' fun name => sts.foldl (Statement.after name) (spec name) := by
  induction sts generalizing tbl fm spec with
  | nil => exact ⟨fm, made ▸ h, shows_⟩
  | cons st sts ih =>
    rw [List.flatMap_cons] at careful made
    obtain ⟨t, first, made⟩ := Made.append.mp made
    obtain ⟨careful, further⟩ := careful.append
    exact ih (fun st' mem => clean st' (List.mem_cons_of_mem st mem))
      (careful_refines h careful first) (shows_after shows_ (clean st List.mem_cons_self))
      (further t first) made

/-- A file is read to its end. -/
def ReadFile (ckalloc : Ckalloc) (m : Macros) (contents : Text) (m' : Macros) : Prop :=
  Returns (fun fuel => MacroReadFile ckalloc fuel m contents) m'

/-- The condition on a file: its lines are joined and squeezed as they are to be, and the calls
made for it are safe in the tables in which they are made. -/
structure Sound (ckalloc : Ckalloc) (m : Macros) (contents : Text) : Prop where
  settled : Settled none (lines contents)
  careful : ∀ tbl, Returns (fun fuel => opened ckalloc fuel m) tbl →
    Careful tbl ((readStatements contents).flatMap (Statement.calls ckalloc))

theorem readFile_iff {m m' : Macros} {contents : Text} :
    ReadFile ckalloc m contents m' ↔
      ∃ tbl, Returns (fun fuel => opened ckalloc fuel m) tbl ∧ Fits contents ∧
        ∃ tbl', Made tbl ((readStatements contents).flatMap (Statement.calls ckalloc)) tbl' ∧
          closed m tbl' = m' := by
  refine (returns_bind (opened_mono m) fun tbl =>
    (Mono.foldlM readText_mono _ tbl).map (closed m)).trans ?_
  refine exists_congr fun tbl => and_congr_right fun _ => ?_
  refine returns_map.trans ⟨?_, ?_⟩
  · rintro ⟨tbl', returns, same⟩
    obtain ⟨fits, made⟩ := (readTexts_returns _).mp returns
    exact ⟨fits, tbl', made, same⟩
  · rintro ⟨fits, tbl', made, same⟩
    exact ⟨tbl', (readTexts_returns _).mpr ⟨fits, made⟩, same⟩

/-- The step lemma: behind a file the module knows the last statements. -/
theorem readFile_shows {m m' : Macros} {contents : Text} (known : m.Shows spec)
    (sound : Sound ckalloc m contents) (read : ReadFile ckalloc m contents m') :
    m'.Shows fun name => (fileStatements contents).foldl (Statement.after name) (spec name) := by
  obtain ⟨tbl, start, fits, tbl', made, rfl⟩ := readFile_iff.mp read
  obtain ⟨fm, h, shows_⟩ := opened_shows known start
  have clean : ∀ st ∈ readStatements contents, st.Clean := by
    intro st mem
    obtain ⟨text, -, read⟩ := List.mem_filterMap.mp mem
    exact readText_clean read
  rw [← readStatements_eq sound.settled]
  obtain ⟨fm', h', shows'⟩ := shows_statements _ clean h shows_ (sound.careful tbl start) made
  exact closed_shows h' shows'

/-- The run lemma: behind some files the module knows the last statements. -/
theorem run_shows {s m : Macros} {files : List Text}
    (run : Run (Guarded (Sound ckalloc) (ReadFile ckalloc)) s files m) (known : s.Shows spec) :
    m.Shows fun name =>
      (files.flatMap fileStatements).foldl (Statement.after name) (spec name) := by
  induction run generalizing spec with
  | nil => exact known
  | cons first _ ih =>
    simp only [List.flatMap_cons, List.foldl_append]
    exact ih (readFile_shows known first.1 first.2)

/-- What `Paf_Word` answers if the search of the table comes to an end. -/
theorem askPafWord_shows {m : Macros} (known : m.Shows spec) (name : Text)
    (fits : name.length < 2147483648)
    (safe : ∀ tbl, m.pbtrMacro = some tbl →
      Call.Safe ⟨.Find, keyEntry name name.length fits (Int.le_refl _), ckalloc⟩ tbl) :
    Returns (fun fuel => askPafWord ckalloc fuel m name fits) (report (spec name)) := by
  unfold Macros.Shows at known
  unfold askPafWord paf_word
  cases there : m.pbtrMacro with
  | none =>
    rw [there] at known
    rw [known name]
    exact ⟨0, by dsimp only; split <;> rfl⟩
  | some tbl =>
    rw [there] at known
    obtain ⟨set, fm, h, shows_⟩ := known
    simp only [set, if_true]
    obtain ⟨reply, tbl', step⟩ := (call_returns h.wf).mpr (safe tbl there).ends
    have answer := (Call.refines h (safe tbl there) step).1
    obtain ⟨removed, found⟩ := step
    refine returns_map.mpr ⟨_, found, ?_⟩
    have bytes : (keyEntry name name.length fits (Int.le_refl _)).bytes = name :=
      bytes_of_length rfl
    have reply_eq : reply = fm name := by rw [answer, FiniteMap.answer, bytes]
    have known := shows_ name
    rw [reply_eq, ← known]
    dsimp only
    cases fm name with
    | none => rfl
    | some e =>
      rw [Option.bind_some, Option.bind_some, macroOf]
      split <;> simp_all [report]

end Table

/-- Nothing has been read. -/
def fresh : Macros := ⟨none, false⟩

/-- If each of the files is joined and squeezed as it is to be and the calls of the table are safe,
`Paf_Word` reports the last statement about a name; a further such file is read to its end; and the
amount of white space in a line does not change what is read from it. -/
theorem last_statement_counts {ckalloc : Ckalloc} {files : List Text} {m : Macros}
    (run : Run (Guarded (Sound ckalloc) (ReadFile ckalloc)) fresh files m) :
    (∀ (name : Text) (fits : name.length < 2147483648),
      (∀ tbl, m.pbtrMacro = some tbl →
        Call.Safe ⟨.Find, keyEntry name name.length fits (Int.le_refl _), ckalloc⟩ tbl) →
      Returns (fun fuel => askPafWord ckalloc fuel m name fits)
        (report (lastMacro name (files.flatMap fileStatements)))) ∧
    (∀ contents, Sound ckalloc m contents → Fits contents →
      (∃ tbl, Returns (fun fuel => opened ckalloc fuel m) tbl) → ∃ m', ReadFile ckalloc m contents m') ∧
    ∀ line line', gaps true line = gaps true line' →
      readText (normalLine line) = readText (normalLine line') := by
  have known : m.Shows fun name => lastMacro name (files.flatMap fileStatements) :=
    run_shows run fun name => rfl
  refine ⟨fun name fits safe => askPafWord_shows known name fits safe, ?_, ?_⟩
  · rintro contents sound fits ⟨tbl, start⟩
    obtain ⟨fm, h, -⟩ := opened_shows known start
    obtain ⟨tbl', made⟩ := careful_returns h (sound.careful tbl start)
    exact ⟨_, readFile_iff.mpr ⟨tbl, start, fits, tbl', made, rfl⟩⟩
  · intro line line' same
    rw [normalLine_gaps same]

/-- The file `define F( x,\` and `   y ) x+y`. -/
def twoLines : Text := ascii "define F( x,\\\n   y ) x+y\n"

/-- The first definition in a new table is safe. -/
theorem careful_first (m : Macro) {hsize : Nat} (created : Created amplyGranted 1000 (emptyTable hsize))
    (far : ¬ (emptyTable hsize).nearFull) (room : 0 < hsize) :
    Careful (emptyTable hsize) ((Statement.define m).calls amplyGranted) := by
  have h := created.represents
  refine ⟨⟨fun add => (by cases add), fun _ i e stored => ?_, .inr (.inr (.inl room))⟩, ?_⟩
  · cases (h.holds _ e).mpr ⟨i, stored⟩
  · rintro reply t ⟨removed, returns⟩
    simp only [Call.perform_eq] at returns
    obtain ⟨n, stops, result⟩ := (returns_searchSlots h.wf).mp
      ((returns_of_room fun grow => by cases grow.1).mp returns)
    rcases stops.1 with unused | ⟨e, found⟩
    · rw [useSlot_unused h.wf unused] at result
      cases result
      exact ⟨⟨fun _ full => absurd full far, fun delete => (by cases delete), .inl rfl⟩,
        fun _ _ _ => trivial⟩
    · cases h.eq_some found

theorem settled_twoLines : Settled none (lines twoLines) := by
  have parts : lines twoLines = [ascii "define F( x,\\", ascii "   y ) x+y"] := by decide
  rw [parts, Settled, if_neg (by decide), if_pos (by decide), Settled, if_neg (by decide)]
  refine ⟨by decide, .inr (by decide), ?_⟩
  rw [if_neg (by decide)]
  refine ⟨⟨by decide, fun c last => ?_, .inr (by decide)⟩, trivial⟩
  cases last
  rfl

theorem last_statement_counts_twoLines :
    ∃ m, Run (Guarded (Sound amplyGranted) (ReadFile amplyGranted)) fresh [twoLines] m ∧
      Returns (fun fuel => askPafWord amplyGranted fuel m (ascii "F") (by decide))
        (.PAF_WORD_DEFINE, some (ascii "x,y"), some (ascii "x+y")) := by
  have size : nextPrime 40 (firstSize 1000) = some 1117 := by decide +kernel
  have made : HashTableCreate 40 amplyGranted 1000 = some (some (emptyTable 1117)) := by
    rw [HashTableCreate, size]
    rfl
  have start (tbl : SearchTable)
      (returns : Returns (fun fuel => opened amplyGranted fuel fresh) tbl) : tbl = emptyTable 1117 :=
    (opened_mono fresh).unique returns ⟨40, congrArg (fun tbl => tbl.bind id) made⟩
  have one : readStatements twoLines = [.define ⟨.PAF_WORD_DEFINE, ascii "F", some (ascii "x,y"),
      some (ascii "x+y"), ascii "define F(x,y) x+y", by decide, by decide⟩] := by rfl
  obtain ⟨m, read⟩ := Option.isSome_iff_exists.mp
    (show (MacroReadFile amplyGranted 40 fresh twoLines).isSome = true by decide +kernel)
  have sound : Sound amplyGranted fresh twoLines := by
    refine ⟨settled_twoLines, fun tbl returns => ?_⟩
    rw [start tbl returns, one]
    exact careful_first _ ⟨40, made⟩ (by decide) (by decide)
  have run : Run (Guarded (Sound amplyGranted) (ReadFile amplyGranted)) fresh [twoLines] m :=
    .single ⟨sound, 40, read⟩
  have room : (MacroReadFile amplyGranted 40 fresh twoLines).map (fun m =>
      m.pbtrMacro.map fun t => decide (t.filled < t.hsize)) = some (some true) := by decide +kernel
  have answer := (last_statement_counts run).1 (ascii "F") (by decide) fun tbl there => by
    rw [read, Option.map_some, there] at room
    exact ⟨fun add => (by cases add), fun delete => (by cases delete),
      .inr (.inr (.inl (of_decide_eq_true (Option.some.inj (Option.some.inj room)))))⟩
  refine ⟨m, run, ?_⟩
  have last : report (lastMacro (ascii "F") ([twoLines].flatMap fileStatements)) =
    (.PAF_WORD_DEFINE, some (ascii "x,y"), some (ascii "x+y")) := by decide +kernel
  rwa [last] at answer

/-- Two lines that differ in the amount of white space behind the command. In front of the bracket
the blank of the first one stays, for nothing was dropped before it. -/
theorem blank_before_bracket :
    ¬ ∀ (contents contents' name : Text) (fits : name.length < 2147483648) (m m' : Macros)
        (r r' : Typ × Option Text × Option Text),
      gaps true contents = gaps true contents' →
      ReadFile amplyGranted fresh contents m → ReadFile amplyGranted fresh contents' m' →
      Returns (fun fuel => askPafWord amplyGranted fuel m name fits) r →
      Returns (fun fuel => askPafWord amplyGranted fuel m' name fits) r' → r = r' := by
  intro same
  have first : (MacroReadFile amplyGranted 40 fresh (ascii "define A f (x)")).bind
      (fun m => askPafWord amplyGranted 40 m (ascii "A") (by decide)) =
        some (.PAF_WORD_DEFINE, none, some (ascii "f (x)")) := by decide +kernel
  have second : (MacroReadFile amplyGranted 40 fresh (ascii "define  A f (x)")).bind
      (fun m => askPafWord amplyGranted 40 m (ascii "A") (by decide)) =
        some (.PAF_WORD_DEFINE, none, some (ascii "f(x)")) := by decide +kernel
  obtain ⟨m, read, answer⟩ := Option.bind_eq_some_iff.mp first
  obtain ⟨m', read', answer'⟩ := Option.bind_eq_some_iff.mp second
  have equal := same _ _ _ (by decide) m m' _ _ (by decide) ⟨40, read⟩ ⟨40, read'⟩ ⟨40, answer⟩
    ⟨40, answer'⟩
  revert equal
  decide

end SourceNavigator.Cpp.Macread

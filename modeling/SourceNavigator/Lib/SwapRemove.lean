import Mathlib.Data.List.DropRight
import Mathlib.Data.List.Perm.Basic

/-!
Removing entries of an array by moving the last entry into the hole.

* `swapRemove` removes one entry. The others stay, in another order
  (`swapRemove_perm`).
* `sweep` is a loop over an array that removes the entries meeting a condition as
  it comes to them. It does not look at the entry it moved, so it leaves entries
  that meet the condition, unless these are away from the end (`sweep_clean_iff`).
-/

namespace Lib

universe u

variable {α : Type u}

/-- The array without one entry, whose place the last entry takes. -/
def swapRemove (l : List α) (i : Nat) : List α :=
  match l.getLast? with
  | none => []
  | some last => (l.set i last).dropLast

theorem swapRemove_concat (l : List α) (x : α) : swapRemove (l ++ [x]) l.length = l := by
  rw [swapRemove, List.getLast?_concat]
  dsimp only
  rw [List.set_append_right _ _ (Nat.le_refl _), Nat.sub_self, List.set_cons_zero,
    List.dropLast_concat]

theorem swapRemove_append (l : List α) (x : α) (seg : List α) (last : α) :
    swapRemove (l ++ x :: (seg ++ [last])) l.length = l ++ last :: seg := by
  have split : l ++ x :: (seg ++ [last]) = (l ++ x :: seg) ++ [last] := by simp
  rw [swapRemove, split, List.getLast?_concat]
  dsimp only
  rw [List.append_assoc, List.set_append_right _ _ (Nat.le_refl _), Nat.sub_self]
  change (l ++ last :: (seg ++ [last])).dropLast = _
  have split' : l ++ last :: (seg ++ [last]) = (l ++ last :: seg) ++ [last] := by simp
  rw [split', List.dropLast_concat]

theorem swapRemove_perm (l : List α) (x : α) (seg : List α) :
    (swapRemove (l ++ x :: seg) l.length).Perm (l ++ seg) := by
  rcases List.eq_nil_or_concat seg with rfl | ⟨seg, last, rfl⟩
  · rw [swapRemove_concat, List.append_nil]
  · rw [List.concat_eq_append, swapRemove_append]
    exact (List.perm_append_singleton last seg).symm.append_left l

/-! ### Removing in a loop -/

/-- What a loop leaves that removes the entries meeting a condition as it comes to them, without
looking at the entries that take their places. -/
def sweep (p : α → Bool) : List α → List α
  | [] => []
  | x :: seg =>
    if p x then
      match seg.getLast? with
      | none => []
      | some last => last :: sweep p seg.dropLast
    else x :: sweep p seg
  termination_by l => l.length
  decreasing_by
    all_goals simp only [List.length_cons, List.length_dropLast]; omega

/-- Of the last entries, one fewer than the entries that meet the condition, none meets it. -/
def AwayFromEnd (p : α → Bool) (l : List α) : Prop :=
  ∀ x ∈ l.drop (l.length - (l.countP p - 1)), p x = false

instance (p : α → Bool) (l : List α) : Decidable (AwayFromEnd p l) :=
  inferInstanceAs (Decidable (∀ x ∈ l.drop (l.length - (l.countP p - 1)), p x = false))

theorem sweep_cons_of_neg {p : α → Bool} {x : α} (keep : ¬ p x = true) (seg : List α) :
    sweep p (x :: seg) = x :: sweep p seg := by
  rw [sweep, if_neg keep]

theorem sweep_cons_concat {p : α → Bool} {x : α} (hit : p x = true) (seg : List α) (last : α) :
    sweep p (x :: (seg ++ [last])) = last :: sweep p seg := by
  rw [sweep, if_pos hit, List.getLast?_concat]
  dsimp only
  rw [List.dropLast_concat]

theorem sweep_singleton {p : α → Bool} {x : α} (hit : p x = true) : sweep p [x] = [] := by
  rw [sweep, if_pos hit]
  rfl

theorem sweep_congr {p q : α → Bool} {l : List α} (same : ∀ x ∈ l, p x = q x) :
    sweep p l = sweep q l := by
  induction size : l.length using Nat.strong_induction_on generalizing l with
  | _ n ih =>
    cases l with
    | nil => rw [sweep, sweep]
    | cons x seg =>
      rw [List.length_cons] at size
      have at_x := same x List.mem_cons_self
      by_cases hit : p x = true
      · rcases List.eq_nil_or_concat seg with rfl | ⟨seg, last, rfl⟩
        · rw [sweep_singleton hit, sweep_singleton (at_x ▸ hit)]
        · rw [List.concat_eq_append] at size same ⊢
          rw [List.length_append] at size
          rw [sweep_cons_concat hit, sweep_cons_concat (at_x ▸ hit), ih seg.length (by omega)
            (fun y mem => same y (List.mem_cons_of_mem x (List.mem_append_left _ mem))) rfl]
      · rw [sweep_cons_of_neg hit, sweep_cons_of_neg (at_x ▸ hit), ih seg.length (by omega)
          (fun y mem => same y (List.mem_cons_of_mem x mem)) rfl]

theorem awayFromEnd_cons_of_neg {p : α → Bool} {x : α} (keep : ¬ p x = true) (seg : List α) :
    AwayFromEnd p (x :: seg) ↔ AwayFromEnd p seg := by
  have le := seg.countP_le_length (p := p)
  rw [AwayFromEnd, AwayFromEnd, List.countP_cons_of_neg keep, List.length_cons]
  by_cases none : seg.countP p = 0
  · have all : (x :: seg).drop (seg.length + 1 - (seg.countP p - 1)) = [] :=
      List.drop_eq_nil_of_le (by rw [List.length_cons]; omega)
    have all' : seg.drop (seg.length - (seg.countP p - 1)) = [] :=
      List.drop_eq_nil_of_le (by omega)
    rw [all, all']
  · have shift : seg.length + 1 - (seg.countP p - 1) = seg.length - (seg.countP p - 1) + 1 := by omega
    rw [shift, List.drop_succ_cons]

theorem awayFromEnd_cons_concat {p : α → Bool} {x : α} (hit : p x = true) (seg : List α) (last : α) :
    AwayFromEnd p (x :: (seg ++ [last])) ↔ p last = false ∧ AwayFromEnd p seg := by
  have le := seg.countP_le_length (p := p)
  rw [AwayFromEnd, AwayFromEnd, List.countP_cons_of_pos hit, List.countP_append, List.length_cons,
    List.length_append, List.length_singleton]
  cases at_last : p last with
  | true =>
    rw [List.countP_cons_of_pos at_last, List.countP_nil]
    refine iff_of_false (fun clean => ?_) (fun both => nomatch both.1)
    have here : last ∈ (x :: (seg ++ [last])).drop
        (seg.length + 1 + 1 - (seg.countP p + (0 + 1) + 1 - 1)) := by
      have le' : seg.length + 1 + 1 - (seg.countP p + (0 + 1) + 1 - 1) ≤ (x :: seg).length := by
        rw [List.length_cons]
        omega
      rw [← List.cons_append, List.drop_append_of_le_length le']
      exact List.mem_append_right _ List.mem_cons_self
    exact nomatch at_last.symm.trans (clean last here)
  | false =>
    have no_last : ¬ p last = true := by rw [at_last]; exact Bool.false_ne_true
    have count : seg.countP p + (0 : Nat) + 1 - 1 = seg.countP p := by omega
    rw [List.countP_cons_of_neg no_last, List.countP_nil, count]
    by_cases none : seg.countP p = 0
    · rw [none, Nat.sub_zero, Nat.zero_sub, Nat.sub_zero, List.drop_length]
      refine iff_of_true ?_ ⟨rfl, fun y mem => absurd mem List.not_mem_nil⟩
      intro y mem
      rw [List.drop_eq_nil_of_le (by simp)] at mem
      cases mem
    · have shift : seg.length + 1 + 1 - seg.countP p = seg.length - (seg.countP p - 1) + 1 := by
        omega
      rw [shift, List.drop_succ_cons, List.drop_append_of_le_length (Nat.sub_le _ _)]
      constructor
      · intro clean
        exact ⟨rfl, fun y mem => clean y (List.mem_append_left _ mem)⟩
      · rintro ⟨-, clean⟩ y mem
        rcases List.mem_append.mp mem with earlier | here
        · exact clean y earlier
        · rw [List.mem_singleton.mp here, at_last]

/-- The loop leaves no entry that meets the condition if and only if these are away from the end of
the array. -/
theorem sweep_clean_iff (p : α → Bool) (l : List α) :
    (∀ x ∈ sweep p l, p x = false) ↔ AwayFromEnd p l := by
  induction size : l.length using Nat.strong_induction_on generalizing l with
  | _ n ih =>
    cases l with
    | nil =>
      rw [sweep]
      exact iff_of_true (fun x mem => absurd mem List.not_mem_nil) fun x mem =>
        absurd mem List.not_mem_nil
    | cons x seg =>
      rw [List.length_cons] at size
      by_cases hit : p x = true
      · rcases List.eq_nil_or_concat seg with rfl | ⟨seg, last, rfl⟩
        · rw [sweep, if_pos hit, AwayFromEnd, List.countP_cons_of_pos hit]
          exact iff_of_true (fun y mem => absurd mem List.not_mem_nil) fun y mem =>
            absurd mem List.not_mem_nil
        · rw [List.concat_eq_append] at size ⊢
          rw [List.length_append] at size
          rw [sweep_cons_concat hit, awayFromEnd_cons_concat hit, List.forall_mem_cons,
            ih seg.length (by omega) seg rfl]
      · have keep : p x = false := by simpa using hit
        rw [sweep_cons_of_neg hit, awayFromEnd_cons_of_neg hit, List.forall_mem_cons,
          ih seg.length (by omega) seg rfl]
        exact and_iff_right keep

/-! ### Closing gaps -/

/-- The entries of an array with the gaps closed: an entry from the end takes the place of a gap.
The number bounds the length. -/
def closeGaps (gap : α → Bool) : Nat → List α → List α
  | 0, _ => []
  | _, [] => []
  | n + 1, x :: seg =>
    if gap x then
      match (seg.rdropWhile gap).getLast? with
      | none => []
      | some last => last :: closeGaps gap n (seg.rdropWhile gap).dropLast
    else x :: closeGaps gap n seg

theorem filter_rdropWhile (gap : α → Bool) (l : List α) :
    (l.rdropWhile gap).filter (fun x => !gap x) = l.filter fun x => !gap x := by
  induction l using List.reverseRecOn with
  | nil => rfl
  | append_singleton l x ih =>
    by_cases at_x : gap x = true
    · rw [List.rdropWhile_concat_pos _ _ _ at_x, ih, List.filter_append]
      simp [at_x]
    · rw [List.rdropWhile_concat_neg _ _ _ at_x]

/-- Closing the gaps keeps the entries that are no gaps, in another order. -/
theorem closeGaps_perm (gap : α → Bool) {n : Nat} {l : List α} (enough : l.length ≤ n) :
    (closeGaps gap n l).Perm (l.filter fun x => !gap x) := by
  induction n generalizing l with
  | zero =>
    obtain rfl := List.eq_nil_of_length_eq_zero (Nat.le_zero.mp enough)
    exact .nil
  | succ n ih =>
    cases l with
    | nil => exact .nil
    | cons x seg =>
      rw [List.length_cons] at enough
      by_cases at_x : gap x = true
      · have drop := filter_rdropWhile gap seg
        rw [closeGaps, if_pos at_x, List.filter_cons_of_neg (by simp [at_x]), ← drop]
        rcases List.eq_nil_or_concat (seg.rdropWhile gap) with empty | ⟨rest, last, eq⟩
        · rw [empty]
          exact .nil
        · have no_gap : ¬ gap last = true := by
            have here := List.rdropWhile_last_not gap seg (by rw [eq]; simp)
            simpa [eq] using here
          have short := (List.rdropWhile_prefix gap seg).length_le
          rw [eq, List.concat_eq_append, List.length_append, List.length_singleton] at short
          rw [eq, List.concat_eq_append, List.getLast?_concat]
          dsimp only
          rw [List.dropLast_concat, List.filter_append,
            List.filter_cons_of_pos (by simpa using no_gap), List.filter_nil]
          exact ((ih (by omega)).cons last).trans (List.perm_append_singleton last _).symm
      · rw [closeGaps, if_neg at_x, List.filter_cons_of_pos (by simpa using at_x)]
        exact (ih (by omega)).cons x

end Lib

/-!
Runs of a labelled transition relation.

A component is a state type `S`, a label type `A` and a step relation
`S → A → S → Prop`. A run is a list of labels taken one after the other.
Nothing here knows what the states or labels are.

* `Run.append` and `Run.split` join and split runs.
* `Run.invariant`: what every step preserves, a whole run preserves.
* `Guarded` restricts a step relation to the states meeting a condition;
  `Run.mono` forgets the condition again.
* `Run.exists_final` says that a program whose steps use up a measure ends, and
  `Run.eq_iterate` that a program without choices runs through its iterates.
* `exists_foldlM` is the invariant rule of a loop whose steps may fail.
-/

namespace Lib

universe u v w

variable {S : Type u} {A : Type v}

/-- A run takes the labels of a list one after the other. -/
inductive Run (step : S → A → S → Prop) : S → List A → S → Prop
  | nil (s : S) : Run step s [] s
  | cons {s t u : S} {a : A} {as : List A} :
      step s a t → Run step t as u → Run step s (a :: as) u

/-- The steps of `step` that are taken in a state and with a label that meet `ok`. -/
def Guarded (ok : S → A → Prop) (step : S → A → S → Prop) (s : S) (a : A) (t : S) : Prop :=
  ok s a ∧ step s a t

namespace Run

variable {step step' : S → A → S → Prop} {s t u : S} {a : A} {as bs : List A}

theorem single (h : step s a t) : Run step s [a] t :=
  .cons h (.nil t)

theorem append (h : Run step s as t) (h' : Run step t bs u) : Run step s (as ++ bs) u := by
  induction h with
  | nil s => exact h'
  | cons first _ ih => exact .cons first (ih h')

/-- A run of an append passes through a state between the two parts. -/
theorem split (h : Run step s (as ++ bs) u) : ∃ t, Run step s as t ∧ Run step t bs u := by
  induction as generalizing s with
  | nil => exact ⟨s, .nil s, h⟩
  | cons a as ih =>
    cases h with
    | cons first rest =>
      obtain ⟨t, left, right⟩ := ih rest
      exact ⟨t, .cons first left, right⟩

/-- One more step at the end of a run. -/
theorem concat (h : Run step s as t) (last : step t a u) : Run step s (as ++ [a]) u :=
  h.append (.single last)

/-- A run of a relation is a run of every relation that contains it. -/
theorem mono (sub : ∀ s a t, step s a t → step' s a t) (h : Run step s as t) :
    Run step' s as t := by
  induction h with
  | nil s => exact .nil s
  | cons first _ ih => exact .cons (sub _ _ _ first) ih

/-- A loop whose steps may fail takes a run. -/
theorem of_foldlM {f : S → A → Option S} (h : as.foldlM f s = some t) :
    Run (fun s a t => f s a = some t) s as t := by
  induction as generalizing s with
  | nil =>
    cases h
    exact .nil _
  | cons a as ih =>
    rw [List.foldlM_cons] at h
    obtain ⟨u, first, rest⟩ := Option.bind_eq_some_iff.mp h
    exact .cons first (ih rest)

/-- The labels are taken one after the other, as long as a check holds and no step fails. -/
def play {E : Type w} (ok : S → A → Bool) (f : S → A → Except E S) : S → List A → Option S
  | s, [] => some s
  | s, a :: as =>
    if ok s a then
      match f s a with
      | .ok t => play ok f t as
      | .error _ => none
    else none

theorem of_play {E : Type w} {ok : S → A → Bool} {f : S → A → Except E S}
    (h : play ok f s as = some t) :
    Run (Guarded (fun s a => ok s a) fun s a t => f s a = .ok t) s as t := by
  induction as generalizing s with
  | nil =>
    cases h
    exact .nil _
  | cons a as ih =>
    rw [play] at h
    split at h
    case isTrue holds =>
      split at h
      case h_1 u stepped => exact .cons ⟨holds, stepped⟩ (ih h)
      case h_2 => cases h
    case isFalse => cases h

/-- The invariant rule: what every step preserves, a run preserves. -/
theorem invariant {Inv : S → Prop} (preserve : ∀ s a t, Inv s → step s a t → Inv t)
    (init : Inv s) (h : Run step s as t) : Inv t := by
  induction h with
  | nil s => exact init
  | cons first _ ih => exact ih (preserve _ _ _ init first)

/-- A program whose steps keep an invariant and use up a measure ends. -/
theorem exists_final {Inv : S → Prop} {measure : S → Nat}
    (less : ∀ s a t, Inv s → step s a t → Inv t ∧ measure t < measure s) (init : Inv s) :
    ∃ as t, Run step s as t ∧ Inv t ∧ ∀ a u, ¬ step t a u := by
  induction bound : measure s using Nat.strongRecOn generalizing s with
  | ind n ih =>
    by_cases more : ∃ a t, step s a t
    · obtain ⟨a, t, first⟩ := more
      obtain ⟨kept, fewer⟩ := less s a t init first
      obtain ⟨as, u, rest, inv, final⟩ := ih (measure t) (bound ▸ fewer) kept rfl
      exact ⟨a :: as, u, .cons first rest, inv, final⟩
    · exact ⟨[], s, .nil s, init, fun a t first => more ⟨a, t, first⟩⟩

end Run

/-! ### Programs without choices -/

section Deterministic

variable {f : S → Option S} {s t : S} {as : List Unit} {n m : Nat}

/-- The state after at most `n` steps. -/
def iterate (f : S → Option S) : Nat → S → S
  | 0, s => s
  | n + 1, s => (f s).elim s (iterate f n)

/-- The steps of a function. -/
def Steps (f : S → Option S) (s : S) (_ : Unit) (t : S) : Prop := f s = some t

theorem iterate_of_final (final : f s = none) (n : Nat) : iterate f n s = s := by
  cases n with
  | zero => rfl
  | succ n => rw [iterate, final, Option.elim_none]

theorem Run.eq_iterate (h : Run (Steps f) s as t) : iterate f as.length s = t := by
  induction h with
  | nil s => rfl
  | cons first _ ih => rw [List.length_cons, iterate, first, Option.elim_some, ih]

/-- Once the end is reached the state stays. -/
theorem iterate_stays (final : f (iterate f n s) = none) (le : n ≤ m) :
    iterate f m s = iterate f n s := by
  induction n generalizing s m with
  | zero => exact iterate_of_final final m
  | succ n ih =>
    obtain ⟨m, rfl⟩ := Nat.exists_eq_add_of_le' le
    rw [iterate] at final ⊢
    rw [show m + (n + 1) = (m + n) + 1 from rfl, iterate]
    cases first : f s with
    | none => rfl
    | some t =>
      rw [first, Option.elim_some] at final
      exact ih final (Nat.le_add_left n m)

/-- All states of a run are among the iterates up to the end. -/
theorem Run.exists_iterate (final : f (iterate f n s) = none) (h : Run (Steps f) s as t) :
    ∃ k ≤ n, iterate f k s = t := by
  by_cases within : as.length ≤ n
  · exact ⟨as.length, within, h.eq_iterate⟩
  · exact ⟨n, Nat.le_refl n, by rw [← iterate_stays final (Nat.le_of_not_le within), h.eq_iterate]⟩

/-- A run that has ended is at the end. -/
theorem Run.eq_final (final : f (iterate f n s) = none) (h : Run (Steps f) s as t)
    (last : f t = none) : t = iterate f n s := by
  have here := h.eq_iterate
  rcases Nat.le_total as.length n with le | le
  · rw [← here]
    exact (iterate_stays (by rw [here]; exact last) le).symm
  · rw [← here]
    exact iterate_stays final le

end Deterministic

/-- The invariant rule of a loop that may fail: if no step fails in a state with the invariant,
the loop ends in such a state. -/
theorem exists_foldlM {f : S → A → Option S} {Inv : S → Prop} {as : List A} {s : S}
    (preserve : ∀ a ∈ as, ∀ s, Inv s → ∃ t, f s a = some t ∧ Inv t) (init : Inv s) :
    ∃ t, as.foldlM f s = some t ∧ Inv t := by
  induction as generalizing s with
  | nil => exact ⟨s, rfl, init⟩
  | cons a as ih =>
    obtain ⟨t, step, inv⟩ := preserve a List.mem_cons_self s init
    obtain ⟨u, rest, inv'⟩ := ih (fun b mem => preserve b (List.mem_cons_of_mem a mem)) inv
    refine ⟨u, ?_, inv'⟩
    rw [List.foldlM_cons, step]
    exact rest

end Lib

import Mathlib.Data.Fintype.Card
import Mathlib.Data.Set.Finite.Basic
import Mathlib.Logic.Relation

/-!
Ways down a relation.

`Ends r a` says that every way from `a` along `r` comes to an end.

* `Ends.of_parts` leaves out the elements from which the ways are known to end.
* `ends_iff_no_cycle` says that, where finitely many elements can be reached, the
  ways end if and only if none of them goes around a cycle.
-/

namespace Lib

open Relation

universe u

variable {α : Type u} {r s : α → α → Prop} {a b : α}

/-- Every way from the element comes to an end. -/
def Ends (r : α → α → Prop) (a : α) : Prop := Acc (fun b a => r a b) a

theorem Ends.intro (h : ∀ b, r a b → Ends r b) : Ends r a := Acc.intro a h

theorem Ends.next (h : Ends r a) (step : r a b) : Ends r b := Acc.inv h step

theorem Ends.induction {P : α → Prop} (h : Ends r a)
    (step : ∀ a, (∀ b, r a b → Ends r b) → (∀ b, r a b → P b) → P a) : P a := by
  induction h with
  | intro a below ih => exact step a below ih

theorem Ends.mono (sub : ∀ a b, s a b → r a b) (h : Ends r a) : Ends s a :=
  h.induction fun _ _ ih => .intro fun b step => ih b (sub _ b step)

theorem Ends.reach (h : Ends r a) (way : ReflTransGen r a b) : Ends r b := by
  induction way with
  | refl => exact h
  | tail _ step ih => exact ih.next step

theorem Ends.no_cycle (h : Ends r a) : ¬ TransGen r a a := by
  apply h.induction
  intro a _ ih around
  obtain ⟨b, first, back⟩ := (TransGen.head'_iff).mp around
  exact ih b first (TransGen.tail' back first)

/-- If the ways end from some elements, only the others need to be looked at. -/
theorem Ends.of_parts {Z : α → Prop} (known : ∀ a, Z a → Ends r a)
    (h : Ends (fun a b => r a b ∧ ¬ Z a ∧ ¬ Z b) a) : Ends r a := by
  apply h.induction
  intro a _ ih
  by_cases here : Z a
  · exact known a here
  · apply Ends.intro
    intro b step
    by_cases there : Z b
    · exact known b there
    · exact ih b ⟨step, here, there⟩

theorem ends_iff_no_cycle (fin : {b | ReflTransGen r a b}.Finite) :
    Ends r a ↔ ∀ b, ReflTransGen r a b → ¬ TransGen r b b := by
  constructor
  · intro h b way
    exact (h.reach way).no_cycle
  · intro none_around
    -- on the finitely many elements that can be reached, the relation has no cycles
    let R : {b | ReflTransGen r a b} → {b | ReflTransGen r a b} → Prop :=
      fun c b => TransGen r b.1 c.1
    have finite : Finite {b | ReflTransGen r a b} := fin
    have trans_R : IsTrans _ R := ⟨fun _ _ _ second first => first.trans second⟩
    have irrefl_R : Std.Irrefl R := ⟨fun b => none_around b.1 b.2⟩
    have wf : WellFounded R := Finite.wellFounded_of_trans_of_irrefl R
    have all : ∀ b : {b | ReflTransGen r a b}, Ends r b.1 := by
      intro b
      induction b using wf.induction with
      | _ b ih => exact .intro fun c step => ih ⟨c, b.2.tail step⟩ (.single step)
    exact all ⟨a, .refl⟩

end Lib

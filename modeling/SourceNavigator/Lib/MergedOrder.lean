import Mathlib.Data.Set.Basic

/-!
An order in which some keys are made equal.

`merged same cmp` compares keys with `cmp`, but keys that are the `same` are
equal. This is an order only where the same keys stand together in the order
`cmp`.

* `transOn_merged_iff` says that the comparison is transitive on a set of keys
  exactly if no key of the set that is not the same stands between two that are.
-/

namespace Lib

universe u

variable {K : Type u}

/-- Keys that are the same are equal, others are compared. -/
def merged (same : K → K → Bool) (cmp : K → K → Ordering) (a b : K) : Ordering :=
  if same a b then .eq else cmp a b

/-- The comparison is transitive on a set of keys. -/
def TransOn (S : Set K) (cmp : K → K → Ordering) : Prop :=
  ∀ a ∈ S, ∀ b ∈ S, ∀ c ∈ S, (cmp a b).isLE → (cmp b c).isLE → (cmp a c).isLE

/-- A key of the set stands between two others that are the same, and is not the same. -/
def Straddled (S : Set K) (same : K → K → Bool) (cmp : K → K → Ordering) : Prop :=
  ∃ a ∈ S, ∃ b ∈ S, ∃ c ∈ S, same a b ∧ ¬ same a c ∧ cmp b c = .lt ∧ cmp c a = .lt

section Merged

variable {same : K → K → Bool} {cmp : K → K → Ordering} {a b c : K} {S : Set K}

theorem merged_same (h : same a b) : merged same cmp a b = .eq :=
  if_pos h

theorem merged_other (h : ¬ same a b) : merged same cmp a b = cmp a b :=
  if_neg h

theorem lt_of_not_isLE [Std.OrientedCmp cmp] (h : ¬ (cmp a b).isLE) : cmp b a = .lt := by
  have swap : cmp b a = (cmp a b).swap := Std.OrientedCmp.eq_swap
  rw [swap]
  cases order : cmp a b with
  | lt => rw [order] at h; exact absurd rfl h
  | eq => rw [order] at h; exact absurd rfl h
  | gt => rfl

variable (equivalence : Equivalence fun a b => same a b = true)
include equivalence

theorem merged_swap [Std.OrientedCmp cmp] : merged same cmp a b = (merged same cmp b a).swap := by
  by_cases h : same a b
  · rw [merged_same h, merged_same (equivalence.symm h)]
    rfl
  · have back : ¬ same b a := fun back => h (equivalence.symm back)
    rw [merged_other h, merged_other back]
    exact Std.OrientedCmp.eq_swap

/-- Keys that are not the same are apart in the order. -/
theorem lt_of_isLE [Std.LawfulEqCmp cmp] (other : ¬ same a b) (h : (cmp a b).isLE) :
    cmp a b = .lt := by
  cases order : cmp a b with
  | lt => rfl
  | eq =>
    obtain rfl := Std.LawfulEqCmp.eq_of_compare order
    exact absurd (equivalence.refl a) other
  | gt => rw [order] at h; cases h

theorem not_straddled_of_transOn [Std.OrientedCmp cmp] (trans : TransOn S (merged same cmp)) :
    ¬ Straddled S same cmp := by
  rintro ⟨a, mem_a, b, mem_b, c, mem_c, ab, ac, low, high⟩
  have bc : ¬ same b c := fun bc => ac (equivalence.trans ab bc)
  have first : (merged same cmp a b).isLE := by
    rw [merged_same ab]
    rfl
  have second : (merged same cmp b c).isLE := by
    rw [merged_other bc, low]
    rfl
  have third := trans a mem_a b mem_b c mem_c first second
  have swap : cmp a c = (cmp c a).swap := Std.OrientedCmp.eq_swap
  rw [merged_other ac, swap, high] at third
  cases third

theorem transOn_of_not_straddled [Std.TransCmp cmp] [Std.LawfulEqCmp cmp]
    (none : ¬ Straddled S same cmp) : TransOn S (merged same cmp) := by
  intro a mem_a b mem_b c mem_c first second
  by_contra third
  have ac : ¬ same a c := by
    intro ac
    rw [merged_same ac] at third
    exact third rfl
  rw [merged_other ac] at third
  have back := lt_of_not_isLE third
  by_cases ab : same a b
  · have bc : ¬ same b c := fun bc => ac (equivalence.trans ab bc)
    rw [merged_other bc] at second
    exact none ⟨a, mem_a, b, mem_b, c, mem_c, ab, ac, lt_of_isLE equivalence bc second, back⟩
  · rw [merged_other ab] at first
    by_cases bc : same b c
    · have ba : ¬ same b a := fun ba => ab (equivalence.symm ba)
      exact none ⟨b, mem_b, c, mem_c, a, mem_a, bc, ba, back, lt_of_isLE equivalence ab first⟩
    · rw [merged_other bc] at second
      exact third (Std.TransCmp.isLE_trans first second)

/-- The comparison is transitive on a set of keys exactly if the same keys stand together. -/
theorem transOn_merged_iff [Std.TransCmp cmp] [Std.LawfulEqCmp cmp] :
    TransOn S (merged same cmp) ↔ ¬ Straddled S same cmp :=
  ⟨not_straddled_of_transOn equivalence, transOn_of_not_straddled equivalence⟩

end Merged

end Lib

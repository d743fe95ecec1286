import Mathlib.Logic.Function.Basic

/-!
A secondary index of a store.

A store maps keys `K` to values `V`. An index maps keys `K'` to values `V'`:
`keyOf` says under which key of the index a key of the store is found, if under
any, and `valOf` what the index keeps of a value. `IsIndex` says that the index
holds what the store holds and nothing else.

* `IsIndex.update` is the rule of maintenance. No two keys of the store may be
  found at one key of the index.
-/

namespace Lib

universe u v w x

variable {K : Type u} {V : Type v} {K' : Type w} {V' : Type x}

/-- No two keys of the store are found at one key of the index. -/
def Separates (keyOf : K → Option K') : Prop :=
  ∀ k₁ k₂ k', keyOf k₁ = some k' → keyOf k₂ = some k' → k₁ = k₂

/-- The index is the image of the store. -/
def IsIndex (keyOf : K → Option K') (valOf : V → V') (store : K → Option V)
    (index : K' → Option V') : Prop :=
  ∀ k' v', index k' = some v' ↔ ∃ k v, store k = some v ∧ keyOf k = some k' ∧ valOf v = v'

namespace IsIndex

variable {keyOf : K → Option K'} {valOf : V → V'} {store : K → Option V} {index : K' → Option V'}

theorem empty : IsIndex keyOf valOf (fun _ => none) (fun _ => none) := by
  intro k' v'
  simp

variable [DecidableEq K]

/-- A change of a key that the index does not hold leaves the index alone. -/
theorem update_hidden (h : IsIndex keyOf valOf store index) {k : K} (o : Option V)
    (hidden : keyOf k = none) : IsIndex keyOf valOf (Function.update store k o) index := by
  intro k' v'
  have other : ∀ q, keyOf q = some k' → q ≠ k := by
    rintro q at_ rfl
    rw [hidden] at at_
    exact Option.some_ne_none k' at_.symm
  rw [h]
  constructor
  · rintro ⟨q, v, found, at_, is⟩
    exact ⟨q, v, by rw [Function.update_of_ne (other q at_), found], at_, is⟩
  · rintro ⟨q, v, found, at_, is⟩
    rw [Function.update_of_ne (other q at_)] at found
    exact ⟨q, v, found, at_, is⟩

variable [DecidableEq K']

/-- A change of a key is repeated at the key of the index. -/
theorem update (sep : Separates keyOf) (h : IsIndex keyOf valOf store index) {k : K} {i : K'}
    (o : Option V) (shown : keyOf k = some i) :
    IsIndex keyOf valOf (Function.update store k o) (Function.update index i (o.map valOf)) := by
  intro k' v'
  by_cases same : k' = i
  · subst same
    rw [Function.update_self, Option.map_eq_some_iff]
    constructor
    · rintro ⟨v, rfl, is⟩
      exact ⟨k, v, Function.update_self .., shown, is⟩
    · rintro ⟨q, v, found, at_, is⟩
      obtain rfl := sep q k k' at_ shown
      rw [Function.update_self] at found
      exact ⟨v, found, is⟩
  · rw [Function.update_of_ne same, h]
    have other : ∀ q, keyOf q = some k' → q ≠ k := by
      rintro q at_ rfl
      exact same (Option.some.inj (at_.symm.trans shown))
    constructor
    · rintro ⟨q, v, found, at_, is⟩
      exact ⟨q, v, by rw [Function.update_of_ne (other q at_), found], at_, is⟩
    · rintro ⟨q, v, found, at_, is⟩
      rw [Function.update_of_ne (other q at_)] at found
      exact ⟨q, v, found, at_, is⟩

end IsIndex

end Lib

import Mathlib.Algebra.Field.ZMod
import Mathlib.Logic.Function.Iterate
import Mathlib.Tactic.Ring

/-!
Open addressing.

A table is a function from slots to the entry a slot holds, and every key has a
probe sequence of slots. A search for a key walks along its probe sequence and
stops at the first slot that is empty or holds the key.

* `firstStop` is the walk with a bound on its steps (`firstStop_eq_some`).
* `Linked` is the invariant that lets a search find what the table holds: every
  stored key is where its own search stops.
* `Linked.insert` and `holds_insert` fill the empty slot where a search stopped.
* `linked_erase_iff`: clearing a slot keeps the invariant exactly if no other
  stored key is searched for across it.
* `stepDown` is the walk over the slots `1 .. p` that goes down by a fixed
  distance; it visits each of them when `p` is a prime (`exists_stepDown_eq`).
-/

namespace Lib.OpenAddressing

universe u v w

/-! ### Walking to the first stop -/

section Walk

variable {ι : Type w} (stop : ι → Bool) (next : ι → ι)

/-- Walk along `next` to the first slot that meets `stop`, in less than `fuel` steps. -/
def firstStop : Nat → ι → Option ι
  | 0, _ => none
  | fuel + 1, i => if stop i then some i else firstStop fuel (next i)

variable {stop next} {fuel : Nat} {i j : ι}

/-- The walk returns the first slot on its way that meets `stop`. -/
theorem firstStop_eq_some :
    firstStop stop next fuel i = some j ↔
      ∃ n < fuel, next^[n] i = j ∧ stop j = true ∧ ∀ m < n, stop (next^[m] i) = false := by
  induction fuel generalizing i with
  | zero => simp [firstStop]
  | succ fuel ih =>
    rw [firstStop]
    by_cases here : stop i = true
    · rw [if_pos here]
      constructor
      · intro h
        cases h
        exact ⟨0, by omega, rfl, here, by omega⟩
      · rintro ⟨n, _, rfl, _, before⟩
        cases n with
        | zero => rfl
        | succ n => exact absurd here (by simpa using before 0 (by omega))
    · rw [if_neg here, ih]
      constructor
      · rintro ⟨n, bound, at_j, stops, before⟩
        refine ⟨n + 1, by omega, at_j, stops, fun m below => ?_⟩
        cases m with
        | zero => simpa using here
        | succ m => exact before m (by omega)
      · rintro ⟨n, bound, at_j, stops, before⟩
        cases n with
        | zero =>
          subst at_j
          exact absurd stops here
        | succ n =>
          exact ⟨n, by omega, at_j, stops, fun m below => before (m + 1) (by omega)⟩

/-- A longer walk returns the same slot. -/
theorem firstStop_succ (found : firstStop stop next fuel i = some j) :
    firstStop stop next (fuel + 1) i = some j := by
  obtain ⟨n, bound, rest⟩ := firstStop_eq_some.mp found
  exact firstStop_eq_some.mpr ⟨n, by omega, rest⟩

end Walk

/-! ### Tables and searches -/

section Table

variable {K : Type u} {V : Type v} {ι : Type w} (probe : K → Nat → ι)

/-- The table holds the entry `v` under the key `k`. -/
def Holds (t : ι → Option (K × V)) (k : K) (v : V) : Prop :=
  ∃ i, t i = some (k, v)

/-- A search for `k` stops at slot `i`: the slot is empty or holds the key. -/
def Stops (t : ι → Option (K × V)) (k : K) (i : ι) : Prop :=
  t i = none ∨ ∃ v, t i = some (k, v)

/-- The search for `k` stops at the `n`-th slot of its probe sequence and not before. -/
def StopsAt (t : ι → Option (K × V)) (k : K) (n : Nat) : Prop :=
  Stops t k (probe k n) ∧ ∀ m < n, ¬ Stops t k (probe k m)

/-- Every stored key is where its own search stops. -/
def Linked (t : ι → Option (K × V)) : Prop :=
  ∀ i k v, t i = some (k, v) → ∃ n, probe k n = i ∧ StopsAt probe t k n

/-- No key stored in another slot is searched for across slot `i`. -/
def Removable (t : ι → Option (K × V)) (i : ι) : Prop :=
  ∀ k v n, t (probe k n) = some (k, v) → StopsAt probe t k n → ∀ m < n, probe k m ≠ i

variable {probe} {t : ι → Option (K × V)} {k k' : K} {v w : V} {i : ι} {n m : Nat}

theorem linked_empty : Linked probe (fun _ => none : ι → Option (K × V)) := by
  intro i k v h
  cases h

/-- A search has one stop. -/
theorem StopsAt.unique (h : StopsAt probe t k n) (h' : StopsAt probe t k m) : n = m := by
  rcases Nat.lt_trichotomy n m with less | same | more
  · exact absurd h.1 (h'.2 n less)
  · exact same
  · exact absurd h'.1 (h.2 m more)

/-- A search that can stop does stop. -/
theorem exists_stopsAt (h : Stops t k (probe k n)) : ∃ m ≤ n, StopsAt probe t k m := by
  induction n using Nat.strongRecOn with
  | ind n ih =>
    by_cases first : ∀ m < n, ¬ Stops t k (probe k m)
    · exact ⟨n, le_rfl, h, first⟩
    · push Not at first
      obtain ⟨m, below, stops⟩ := first
      obtain ⟨m', le, found⟩ := ih m below stops
      exact ⟨m', by omega, found⟩

/-- What the table holds under a key is what the slot where the search stops holds. -/
theorem Linked.holds_iff (linked : Linked probe t) (h : StopsAt probe t k n) :
    Holds t k v ↔ t (probe k n) = some (k, v) := by
  constructor
  · rintro ⟨i, stored⟩
    obtain ⟨m, rfl, stops⟩ := linked i k v stored
    rwa [h.unique stops]
  · exact fun stored => ⟨_, stored⟩

/-- A search that stops at an empty slot says that the table holds nothing under the key. -/
theorem Linked.not_holds (linked : Linked probe t) (h : StopsAt probe t k n)
    (empty : t (probe k n) = none) : ¬ Holds t k v := by
  intro stored
  rw [linked.holds_iff h, empty] at stored
  cases stored

/-! ### Filling and clearing a slot -/

variable [DecidableEq ι]

/-- Filling the empty slot where a search stopped keeps every stored key where its search stops. -/
theorem Linked.insert (linked : Linked probe t) (h : StopsAt probe t k n)
    (empty : t (probe k n) = none) :
    Linked probe (Function.update t (probe k n) (some (k, v))) := by
  -- a slot that does not stop a search is full, so it is not the one that is filled
  have passes : ∀ {k' m}, ¬ Stops t k' (probe k' m) →
      ¬ Stops (Function.update t (probe k n) (some (k, v))) k' (probe k' m) := by
    intro k' m passed
    have other : probe k' m ≠ probe k n := fun same => passed (.inl (same ▸ empty))
    simpa [Stops, Function.update_of_ne other] using passed
  intro i k' w stored
  by_cases here : i = probe k n
  · subst here
    rw [Function.update_self] at stored
    cases stored
    exact ⟨n, rfl, .inr ⟨v, Function.update_self ..⟩, fun m below => passes (h.2 m below)⟩
  · rw [Function.update_of_ne here] at stored
    obtain ⟨m, rfl, stops⟩ := linked i k' w stored
    refine ⟨m, rfl, .inr ⟨w, ?_⟩, fun m' below => passes (stops.2 m' below)⟩
    rw [Function.update_of_ne here, stored]

/-- A filled slot adds its entry and keeps the others. -/
theorem holds_insert (empty : t i = none) :
    Holds (Function.update t i (some (k, v))) k' w ↔ (k' = k ∧ w = v) ∨ Holds t k' w := by
  constructor
  · rintro ⟨j, stored⟩
    by_cases here : j = i
    · subst here
      rw [Function.update_self] at stored
      cases stored
      exact .inl ⟨rfl, rfl⟩
    · rw [Function.update_of_ne here] at stored
      exact .inr ⟨j, stored⟩
  · rintro (⟨rfl, rfl⟩ | ⟨j, stored⟩)
    · exact ⟨i, Function.update_self ..⟩
    · have other : j ≠ i := by
        rintro rfl
        rw [empty] at stored
        cases stored
      exact ⟨j, by rw [Function.update_of_ne other, stored]⟩

/-- Clearing a slot keeps the table linked exactly when no other stored key is
searched for across the slot. -/
theorem linked_erase_iff (linked : Linked probe t) :
    Linked probe (Function.update t i none) ↔ Removable probe t i := by
  constructor
  · intro erased k v n stored stops m below across
    have other : probe k n ≠ i := by
      rintro rfl
      exact stops.2 m below (.inr ⟨v, across ▸ stored⟩)
    obtain ⟨n', at_n, stops'⟩ := erased (probe k n) k v (by rw [Function.update_of_ne other, stored])
    have cleared : Stops (Function.update t i none) k (probe k m) :=
      .inl (by rw [across, Function.update_self])
    -- the search now stops at slot `m`, short of the slot that holds the key
    have early : n' ≤ m := by
      by_contra late
      exact stops'.2 m (by omega) cleared
    refine stops.2 n' (by omega) (.inr ⟨v, ?_⟩)
    rw [at_n, stored]
  · intro removable j k v stored
    have other : j ≠ i := by
      rintro rfl
      rw [Function.update_self] at stored
      cases stored
    rw [Function.update_of_ne other] at stored
    obtain ⟨n, rfl, stops⟩ := linked j k v stored
    refine ⟨n, rfl, .inr ⟨v, by rw [Function.update_of_ne other, stored]⟩, fun m below => ?_⟩
    have aside := removable k v n stored stops m below
    simpa [Stops, Function.update_of_ne aside] using stops.2 m below

/-- A cleared slot takes its entry away and keeps the others. -/
theorem holds_erase (linked : Linked probe t) (stored : t i = some (k, v)) :
    Holds (Function.update t i none) k' w ↔ k' ≠ k ∧ Holds t k' w := by
  constructor
  · rintro ⟨j, kept⟩
    have other : j ≠ i := by
      rintro rfl
      rw [Function.update_self] at kept
      cases kept
    rw [Function.update_of_ne other] at kept
    refine ⟨?_, j, kept⟩
    rintro rfl
    obtain ⟨n, rfl, stops⟩ := linked i k' v stored
    obtain ⟨m, rfl, stops'⟩ := linked j k' w kept
    exact other (by rw [stops.unique stops'])
  · rintro ⟨different, j, kept⟩
    have other : j ≠ i := by
      rintro rfl
      rw [stored] at kept
      cases kept
      exact different rfl
    exact ⟨j, by rw [Function.update_of_ne other, kept]⟩

end Table

/-! ### Stepping down through the slots `1 .. p` -/

section StepDown

/-- One step down by `d` among the slots `1 .. p`, wrapping below slot `1`. -/
def stepDown (p d i : Nat) : Nat :=
  if i ≤ d then p + i - d else i - d

variable {p d i j : Nat}

/-- The step stays among the slots. -/
theorem stepDown_mem (hd : 0 < d) (hdp : d < p) (hi : 0 < i) (hip : i ≤ p) :
    0 < stepDown p d i ∧ stepDown p d i ≤ p := by
  unfold stepDown
  split <;> omega

theorem stepDown_iterate_mem (hd : 0 < d) (hdp : d < p) (hi : 0 < i) (hip : i ≤ p) (n : Nat) :
    0 < (stepDown p d)^[n] i ∧ (stepDown p d)^[n] i ≤ p := by
  induction n with
  | zero => exact ⟨hi, hip⟩
  | succ n ih =>
    rw [Function.iterate_succ_apply']
    exact stepDown_mem hd hdp ih.1 ih.2

/-- Modulo `p` the step subtracts `d`. -/
theorem stepDown_cast (hdp : d < p) : ((stepDown p d i : Nat) : ZMod p) = (i : ZMod p) - d := by
  unfold stepDown
  split
  · rw [Nat.cast_sub (by omega), Nat.cast_add, ZMod.natCast_self, zero_add]
  · rw [Nat.cast_sub (by omega)]

theorem stepDown_iterate_cast (hdp : d < p) (n : Nat) :
    (((stepDown p d)^[n] i : Nat) : ZMod p) = (i : ZMod p) - n * d := by
  induction n with
  | zero => simp
  | succ n ih =>
    rw [Function.iterate_succ_apply', stepDown_cast hdp, ih]
    push_cast
    ring

/-- Two slots of `1 .. p` that agree modulo `p` are the same slot. -/
theorem slot_eq_of_cast_eq (hi : 0 < i) (hip : i ≤ p) (hj : 0 < j) (hjp : j ≤ p)
    (h : (i : ZMod p) = j) : i = j := by
  have same : (i : ZMod p) - j = 0 := sub_eq_zero.mpr h
  rcases Nat.le_total i j with le | le
  · have dvd : p ∣ j - i := by
      rw [← ZMod.natCast_eq_zero_iff, Nat.cast_sub le, ← neg_sub, same, neg_zero]
    have := Nat.eq_zero_of_dvd_of_lt dvd (by omega)
    omega
  · have dvd : p ∣ i - j := by
      rw [← ZMod.natCast_eq_zero_iff, Nat.cast_sub le, same]
    have := Nat.eq_zero_of_dvd_of_lt dvd (by omega)
    omega

/-- With a prime number of slots the walk reaches every slot within `p` steps. -/
theorem exists_stepDown_eq (hp : p.Prime) (hd : 0 < d) (hdp : d < p) (hi : 0 < i) (hip : i ≤ p)
    (hj : 0 < j) (hjp : j ≤ p) : ∃ n < p, (stepDown p d)^[n] i = j := by
  have : Fact p.Prime := ⟨hp⟩
  have : NeZero p := ⟨hp.ne_zero⟩
  have unit : (d : ZMod p) ≠ 0 := by
    rw [Ne, ZMod.natCast_eq_zero_iff]
    exact Nat.not_dvd_of_pos_of_lt hd hdp
  set n := (((i : ZMod p) - j) * (d : ZMod p)⁻¹).val with hn
  have there := stepDown_iterate_mem hd hdp hi hip n
  refine ⟨n, ZMod.val_lt _, slot_eq_of_cast_eq there.1 there.2 hj hjp ?_⟩
  rw [stepDown_iterate_cast hdp, hn, ZMod.natCast_val, ZMod.cast_id', id, mul_assoc,
    inv_mul_cancel₀ unit]
  ring

/-- After `p` steps the walk is where it was. -/
theorem stepDown_period (hd : 0 < d) (hdp : d < p) (hi : 0 < i) (hip : i ≤ p) (n : Nat) :
    (stepDown p d)^[n + p] i = (stepDown p d)^[n] i := by
  have later := stepDown_iterate_mem hd hdp hi hip (n + p)
  have sooner := stepDown_iterate_mem hd hdp hi hip n
  apply slot_eq_of_cast_eq later.1 later.2 sooner.1 sooner.2
  rw [stepDown_iterate_cast hdp, stepDown_iterate_cast hdp, Nat.cast_add, ZMod.natCast_self,
    add_zero]

/-- With a prime number of slots `p` steps take each slot once. -/
theorem perm_stepDown (hp : p.Prime) (hd : 0 < d) (hdp : d < p) (hi : 0 < i) (hip : i ≤ p) :
    ((List.range p).map fun n => (stepDown p d)^[n] i).Perm (List.range' 1 p) := by
  have each : List.range' 1 p ⊆ (List.range p).map fun n => (stepDown p d)^[n] i := by
    intro j mem
    obtain ⟨one, top⟩ := List.mem_range'_1.mp mem
    obtain ⟨n, below, there⟩ := exists_stepDown_eq hp hd hdp hi hip one (by omega)
    exact List.mem_map.mpr ⟨n, List.mem_range.mpr below, there⟩
  have once := List.subperm_of_subset List.nodup_range' each
  exact (once.perm_of_length_le (by simp)).symm

end StepDown

end Lib.OpenAddressing

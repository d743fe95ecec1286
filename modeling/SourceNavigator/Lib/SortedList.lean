import Mathlib.Data.List.Basic
import Mathlib.Order.Lattice

/-!
Binary search in a sorted list of keys and values.

`bisect` is the loop of a binary search that remembers the last place it looked
at and how the key compared there. `f i` is the comparison of the key with the
place `i`.

* `bisect_place`: the loop returns a place with the key, or a place to insert it.
* `Sorted` is strict order of the keys, which each operation at that place keeps.
-/

namespace Lib

universe u v

/-- The loop of a binary search between `l` and `u`, with a bound on its steps. -/
def bisect (f : Nat → Ordering) : Nat → Nat → Nat → Nat → Ordering → Bool × Nat × Ordering
  | 0, _, _, idx, comparison => (false, idx, comparison)
  | fuel + 1, l, u, idx, comparison =>
    if l < u then
      let idx := (l + u) / 2
      match f idx with
      | .lt => bisect f fuel l idx idx .lt
      | .gt => bisect f fuel (idx + 1) u idx .gt
      | .eq => (true, idx, .eq)
    else (false, idx, comparison)

/-- The place before which all keys are smaller and from which all are larger. -/
structure InsertAt (f : Nat → Ordering) (n pos : Nat) : Prop where
  le : pos ≤ n
  before : ∀ i, i < pos → f i = .gt
  behind : ∀ i, pos ≤ i → i < n → f i = .lt

/-- Where a key that was not found is inserted. -/
def insertPlace (idx : Nat) (comparison : Ordering) : Nat :=
  if comparison = .gt then idx + 1 else idx

/-- What a binary search among `n` places returns. -/
inductive Place (f : Nat → Ordering) (n : Nat) : Bool × Nat × Ordering → Prop
  | found (idx : Nat) (lt : idx < n) (eq : f idx = .eq) : Place f n (true, idx, .eq)
  | absent (idx : Nat) (comparison : Ordering) (at_place : InsertAt f n (insertPlace idx comparison)) :
      Place f n (false, idx, comparison)

/-- The comparisons of a key with the places of a sorted list. -/
structure Falling (f : Nat → Ordering) (n : Nat) : Prop where
  lt : ∀ i j, i ≤ j → j < n → f i = .lt → f j = .lt
  gt : ∀ i j, i ≤ j → j < n → f j = .gt → f i = .gt

section Bisect

variable {f : Nat → Ordering} {n fuel l u idx : Nat} {comparison : Ordering}

/-- All places below `l` hold smaller keys, all from `u` on larger ones, and once the loop has
looked at a place, that place stands next to the interval. -/
structure Between (f : Nat → Ordering) (n l u idx : Nat) (comparison : Ordering) : Prop where
  le : l ≤ u
  le_n : u ≤ n
  below : ∀ i, i < l → f i = .gt
  above : ∀ i, u ≤ i → i < n → f i = .lt
  next : l = u → insertPlace idx comparison = l

theorem bisect_between (falling : Falling f n) (h : Between f n l u idx comparison)
    (enough : u - l ≤ fuel) : Place f n (bisect f fuel l u idx comparison) := by
  induction fuel generalizing l u idx comparison with
  | zero =>
    have closed : l = u := Nat.le_antisymm h.le (by omega)
    refine .absent idx comparison ?_
    rw [h.next closed]
    exact ⟨closed ▸ h.le_n, h.below, closed ▸ h.above⟩
  | succ fuel ih =>
    rw [bisect]
    split
    case isFalse done =>
      have closed : l = u := Nat.le_antisymm h.le (Nat.le_of_not_lt done)
      refine .absent idx comparison ?_
      rw [h.next closed]
      exact ⟨closed ▸ h.le_n, h.below, closed ▸ h.above⟩
    case isTrue less =>
      have low : l ≤ (l + u) / 2 := by omega
      have high : (l + u) / 2 < u := by omega
      have inside : (l + u) / 2 < n := Nat.lt_of_lt_of_le high h.le_n
      dsimp only
      split
      case h_1 smaller =>
        apply ih _ (by omega)
        refine ⟨low, Nat.le_of_lt inside, h.below, fun i le lt => ?_, fun _ => ?_⟩
        · exact falling.lt _ i le lt smaller
        · rw [insertPlace, if_neg (by decide)]
          omega
      case h_2 larger =>
        apply ih _ (by omega)
        refine ⟨high, h.le_n, fun i lt => ?_, h.above, fun _ => ?_⟩
        · exact falling.gt i _ (Nat.le_of_lt_succ lt) inside larger
        · exact if_pos rfl
      case h_3 same => exact .found _ inside same

/-- A binary search among all places. -/
theorem bisect_place (falling : Falling f n) : Place f n (bisect f n 0 n 0 .lt) := by
  refine bisect_between falling ?_ (Nat.sub_le n 0)
  refine ⟨Nat.zero_le n, Nat.le_refl n, fun i lt => absurd lt (Nat.not_lt_zero i), ?_, fun _ => ?_⟩
  · intro i le lt
    exact absurd lt (Nat.not_lt.mpr le)
  · exact if_neg (by decide)

end Bisect

/-! ### Sorted lists -/

section Sorted

variable {K : Type u} {V : Type v} {cmp : K → K → Ordering} {t : List (K × V)} {k k' : K} {v v' : V}
  {i pos : Nat}

/-- The keys are in strict order. -/
def Sorted (cmp : K → K → Ordering) (t : List (K × V)) : Prop :=
  t.Pairwise fun a b => cmp a.1 b.1 = .lt

/-- The comparison of a key with the place `i`. -/
def compareAt (cmp : K → K → Ordering) (t : List (K × V)) (k : K) (i : Nat) : Ordering :=
  match t[i]? with
  | some e => cmp k e.1
  | none => .lt

theorem compareAt_of_lt (lt : i < t.length) : compareAt cmp t k i = cmp k (t[i]).1 := by
  rw [compareAt, List.getElem?_eq_getElem lt]

section Trans

variable [Std.TransCmp cmp]

theorem Sorted.falling (h : Sorted cmp t) (k : K) : Falling (compareAt cmp t k) t.length := by
  have order : ∀ i j (first : i < t.length) (in_list : j < t.length), i < j →
      cmp (t[i]).1 (t[j]).1 = .lt :=
    fun i j first in_list less => List.pairwise_iff_getElem.mp h i j first in_list less
  constructor
  · intro i j le in_list smaller
    rcases Nat.lt_or_eq_of_le le with less | rfl
    · rw [compareAt_of_lt (Nat.lt_trans less in_list)] at smaller
      rw [compareAt_of_lt in_list]
      exact Std.TransCmp.lt_trans smaller (order i j _ in_list less)
    · exact smaller
  · intro i j le in_list larger
    rcases Nat.lt_or_eq_of_le le with less | rfl
    · rw [compareAt_of_lt in_list] at larger
      rw [compareAt_of_lt (Nat.lt_trans less in_list)]
      exact Std.TransCmp.gt_trans larger (Std.OrientedCmp.gt_of_lt (order i j _ in_list less))
    · exact larger

theorem Sorted.place (h : Sorted cmp t) (k : K) :
    Place (compareAt cmp t k) t.length (bisect (compareAt cmp t k) t.length 0 t.length 0 .lt) :=
  bisect_place (h.falling k)

end Trans

theorem Sorted.append_iff {a b : List (K × V)} :
    Sorted cmp (a ++ b) ↔
      Sorted cmp a ∧ Sorted cmp b ∧ ∀ e ∈ a, ∀ e' ∈ b, cmp e.1 e'.1 = .lt :=
  List.pairwise_append

/-- The list around a place that holds the key. -/
theorem split_found [Std.LawfulEqCmp cmp] (lt : i < t.length) (eq : compareAt cmp t k i = .eq) :
    ∃ v, t[i]? = some (k, v) ∧ t = t.take i ++ (k, v) :: t.drop (i + 1) := by
  rw [compareAt_of_lt lt] at eq
  have key : k = (t[i]).1 := Std.LawfulEqCmp.eq_of_compare eq
  refine ⟨(t[i]).2, ?_, ?_⟩
  · rw [List.getElem?_eq_getElem lt, key]
  · have whole := List.take_append_drop i t
    rw [List.drop_eq_getElem_cons lt] at whole
    rw [key]
    exact whole.symm

/-- No other entry of a sorted list has the key of one of its entries. -/
theorem Sorted.ne_of_mem [Std.TransCmp cmp] {a b : List (K × V)} (h : Sorted cmp (a ++ (k, v) :: b))
    (mem : (k', v') ∈ a ++ b) : k' ≠ k := by
  obtain ⟨_, right, across⟩ := Sorted.append_iff.mp h
  have self : cmp k k ≠ .lt := by
    have equal : cmp k k = .eq := Std.ReflCmp.compare_self
    rw [equal]
    decide
  rintro rfl
  rcases List.mem_append.mp mem with left | behind
  · exact self (across (k', v') left (k', v) List.mem_cons_self)
  · exact self (List.rel_of_pairwise_cons right behind)

theorem mem_around {a b : List (K × V)} {e : K × V} :
    e ∈ a ++ (k, v) :: b ↔ e = (k, v) ∨ e ∈ a ++ b := by
  rw [List.mem_append, List.mem_cons, List.mem_append]
  tauto

/-- One value for each key. -/
theorem Sorted.single [Std.TransCmp cmp] (h : Sorted cmp t) (mem : (k, v) ∈ t) (mem' : (k, v') ∈ t) :
    v = v' := by
  obtain ⟨a, b, rfl⟩ := List.append_of_mem mem
  rcases mem_around.mp mem' with same | other
  · exact (Prod.mk.inj same).2.symm
  · exact absurd rfl (h.ne_of_mem other)

/-! ### Changes at a place -/

section Change

variable [Std.TransCmp cmp] {a b : List (K × V)}

omit [Std.TransCmp cmp] in
theorem Sorted.remove (h : Sorted cmp (a ++ (k, v) :: b)) : Sorted cmp (a ++ b) :=
  List.Pairwise.sublist (List.Sublist.append_left (List.sublist_cons_self (k, v) b) a) h

theorem Sorted.mem_remove (h : Sorted cmp (a ++ (k, v) :: b)) :
    (k', v') ∈ a ++ b ↔ (k', v') ∈ a ++ (k, v) :: b ∧ k' ≠ k := by
  constructor
  · intro mem
    exact ⟨mem_around.mpr (.inr mem), h.ne_of_mem mem⟩
  · rintro ⟨mem, other⟩
    rcases mem_around.mp mem with same | mem
    · exact absurd (Prod.mk.inj same).1 other
    · exact mem

omit [Std.TransCmp cmp] in
theorem Sorted.replace (h : Sorted cmp (a ++ (k, v) :: b)) : Sorted cmp (a ++ (k, v') :: b) := by
  obtain ⟨left, right, across⟩ := Sorted.append_iff.mp h
  obtain ⟨first, rest⟩ := List.pairwise_cons.mp right
  refine Sorted.append_iff.mpr ⟨left, List.pairwise_cons.mpr ⟨first, rest⟩, ?_⟩
  intro e mem e' mem'
  rcases List.mem_cons.mp mem' with rfl | mem'
  · exact across e mem (k, v) List.mem_cons_self
  · exact across e mem e' (List.mem_cons_of_mem _ mem')

/-- An entry put where a search found no key. -/
theorem Sorted.insert (h : Sorted cmp t) (at_place : InsertAt (compareAt cmp t k) t.length pos) :
    Sorted cmp (t.take pos ++ (k, v) :: t.drop pos) := by
  rw [← List.take_append_drop pos t] at h
  obtain ⟨left, right, across⟩ := Sorted.append_iff.mp h
  have smaller : ∀ e ∈ t.take pos, cmp e.1 k = .lt := by
    intro e mem
    obtain ⟨i, less, rfl⟩ := List.mem_iff_getElem.mp mem
    rw [List.length_take] at less
    have in_list : i < t.length := by omega
    have larger := at_place.before i (by omega)
    rw [compareAt_of_lt in_list] at larger
    rw [List.getElem_take]
    exact Std.OrientedCmp.lt_of_gt larger
  have larger : ∀ e ∈ t.drop pos, cmp k e.1 = .lt := by
    intro e mem
    obtain ⟨i, less, rfl⟩ := List.mem_iff_getElem.mp mem
    rw [List.length_drop] at less
    have in_list : pos + i < t.length := by omega
    have smaller := at_place.behind (pos + i) (Nat.le_add_right pos i) in_list
    rw [compareAt_of_lt in_list] at smaller
    rw [List.getElem_drop]
    exact smaller
  refine Sorted.append_iff.mpr ⟨left, List.pairwise_cons.mpr ⟨larger, right⟩, ?_⟩
  intro e mem e' mem'
  rcases List.mem_cons.mp mem' with rfl | mem'
  · exact smaller e mem
  · exact across e mem e' mem'

/-- A key that a search does not find is not in the list. -/
theorem absent_of_insertAt (at_place : InsertAt (compareAt cmp t k) t.length pos) :
    (k, v) ∉ t := by
  intro mem
  obtain ⟨i, less, found⟩ := List.mem_iff_getElem.mp mem
  have self : compareAt cmp t k i = .eq := by
    rw [compareAt_of_lt less, found]
    exact Std.ReflCmp.compare_self
  rcases Nat.lt_or_ge i pos with before | behind
  · rw [at_place.before i before] at self
    cases self
  · rw [at_place.behind i behind less] at self
    cases self

end Change

end Sorted

end Lib

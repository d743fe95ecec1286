import Mathlib.Data.List.Chain
import Mathlib.Data.List.Nodup

/-!
Doubly linked rings.

`Ring` says that the members of a list are linked both ways, each with the one
behind it and the last with the first. A ring may be read from any of its members
(`Ring.rotate`). Two rings are made one, and a member is taken out, by setting the
links at the seams (`Ring.splice`, `Ring.unlink`).
-/

namespace Lib

/-- The links of the members. -/
structure RingLinks (α : Type*) where
  next : α → α
  prev : α → α

namespace RingLinks

variable {α : Type*} {k k' : RingLinks α} {l u v : List α} {x y a b : α}

/-- Two members are linked both ways. -/
def Linked (k : RingLinks α) (x y : α) : Prop := k.next x = y ∧ k.prev y = x

structure Ring (k : RingLinks α) (l : List α) : Prop where
  nodup : l.Nodup
  chain : l.IsChain k.Linked
  closes : ∀ e ∈ l.getLast?, ∀ a ∈ l.head?, k.Linked e a

/-- A chain reads the links forward of all but its last member, and the links back of all but its
first. -/
theorem chain_congr (nodup : l.Nodup) (chain : l.IsChain k.Linked)
    (next : ∀ x ∈ l, x ∉ l.getLast? → k'.next x = k.next x)
    (prev : ∀ y ∈ l.tail, k'.prev y = k.prev y) : l.IsChain k'.Linked := by
  induction l with
  | nil => exact .nil
  | cons x l ih =>
    cases l with
    | nil => exact .singleton x
    | cons y l =>
      obtain ⟨link, rest⟩ := List.isChain_cons_cons.mp chain
      have inner := (List.nodup_cons.mp nodup).2
      refine List.isChain_cons_cons.mpr ⟨⟨?_, ?_⟩, ih inner rest ?_ ?_⟩
      · rw [next x List.mem_cons_self, link.1]
        intro last
        exact (List.nodup_cons.mp nodup).1 (List.mem_of_getLast? (by simpa using last))
      · rw [prev y List.mem_cons_self, link.2]
      · intro z mem not_last
        exact next z (List.mem_cons_of_mem x mem) (by simpa using not_last)
      · intro z mem
        exact prev z (List.mem_cons_of_mem y mem)

/-- A ring may be read from any member. -/
theorem Ring.rotate (ring : k.Ring (u ++ v)) : k.Ring (v ++ u) := by
  obtain ⟨front, back, seam⟩ := List.isChain_append.mp ring.chain
  refine ⟨List.nodup_append_comm.mp ring.nodup, List.isChain_append.mpr ⟨back, front, ?_⟩, ?_⟩
  · intro e last a first
    refine ring.closes e ?_ a ?_
    · rw [List.getLast?_append, Option.mem_def.mp last]
      rfl
    · rw [List.head?_append, Option.mem_def.mp first]
      rfl
  · cases u with
    | nil => simpa using ring.closes
    | cons c u =>
      cases v with
      | nil => simpa using ring.closes
      | cons d v =>
        intro e last a first
        refine seam e ?_ a ?_
        · rwa [List.getLast?_append_of_ne_nil _ (List.cons_ne_nil c u)] at last
        · exact first

/-- Behind a member comes the next one of the list. -/
theorem Ring.next_eq (ring : k.Ring (u ++ x :: y :: v)) : k.next x = y :=
  (List.isChain_append_cons_cons.mp ring.chain).2.1.1

theorem Ring.next_last (ring : k.Ring (u ++ [x])) (first : a ∈ (u ++ [x]).head?) : k.next x = a :=
  (ring.closes x (by simp) a first).1

theorem Ring.prev_first (ring : k.Ring l) (first : a ∈ l.head?) (last : x ∈ l.getLast?) :
    k.prev a = x :=
  (ring.closes x last a first).2

/-- Two rings, linked at their ends. -/
theorem Ring.splice (ring : k.Ring u) (ring' : k.Ring v) (apart : u.Disjoint v)
    (next : ∀ z, z ∉ u.getLast? → z ∉ v.getLast? → k'.next z = k.next z)
    (prev : ∀ z, z ∉ u.head? → z ∉ v.head? → k'.prev z = k.prev z)
    (seam : ∀ e ∈ u.getLast?, ∀ b ∈ v.head?, k'.Linked e b)
    (closes : ∀ e ∈ v.getLast?, ∀ a ∈ u.head?, k'.Linked e a)
    (some_left : u ≠ []) (some_right : v ≠ []) : k'.Ring (u ++ v) := by
  have outside {l : List α} (nodup : l.Nodup) : ∀ y ∈ l.tail, y ∉ l.head? := by
    intro y mem first
    cases l with
    | nil => cases mem
    | cons c l =>
      obtain rfl := Option.some.inj first
      exact (List.nodup_cons.mp nodup).1 mem
  refine ⟨List.nodup_append'.mpr ⟨ring.nodup, ring'.nodup, apart⟩,
    List.isChain_append.mpr ⟨?_, ?_, seam⟩, ?_⟩
  · refine chain_congr ring.nodup ring.chain (fun x mem off => next x off ?_) fun y mem =>
      prev y (outside ring.nodup y mem) ?_
    · exact fun last => apart mem (List.mem_of_getLast? last)
    · exact fun first => apart (List.mem_of_mem_tail mem) (List.mem_of_head? first)
  · refine chain_congr ring'.nodup ring'.chain (fun x mem off => next x ?_ off) fun y mem =>
      prev y ?_ (outside ring'.nodup y mem)
    · exact fun last => apart (List.mem_of_getLast? last) mem
    · exact fun first => apart (List.mem_of_head? first) (List.mem_of_mem_tail mem)
  · intro e last a first
    rw [List.getLast?_append_of_ne_nil _ some_right] at last
    rw [List.head?_append_of_ne_nil _ some_left] at first
    exact closes e last a first

/-- A ring without its first member. -/
theorem Ring.unlink_first (ring : k.Ring (a :: l)) (some_left : l ≠ [])
    (next : ∀ z, z ∉ l.getLast? → k'.next z = k.next z)
    (prev : ∀ z, z ∉ l.head? → k'.prev z = k.prev z)
    (closes : ∀ e ∈ l.getLast?, ∀ b ∈ l.head?, k'.Linked e b) : k'.Ring l := by
  have inner := (List.nodup_cons.mp ring.nodup).2
  refine ⟨inner, chain_congr inner ring.chain.tail (fun x _ off => next x off) fun y mem => ?_,
    closes⟩
  refine prev y fun first => ?_
  cases l with
  | nil => exact some_left rfl
  | cons c l =>
    obtain rfl := Option.some.inj first
    exact (List.nodup_cons.mp inner).1 mem

end RingLinks

end Lib

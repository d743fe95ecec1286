import SourceNavigator.Db.Compare
import SourceNavigator.Lib.SortedList

/-!
The sorted variant of the parsers' search table (`parsers/common/srchtbl.c`).

The filled slots are a list of keys with their data. `keyComparison` compares
the first bytes of two keys as `char` and the keys themselves as `memcmp` does.

* `keyOrder_eq` says that this is an order, so that binary search finds every key.
* `Represents` relates a table to the data of each key, and the lemmas on
  `BtreeTableSearch`, `BtreeTableAdd` and `BtreeTableDelete` say what each of
  them does to it.
-/

namespace SourceNavigator.Parsers

open Lib Db

/-- The value of a byte as a `char`. -/
def signedChar (c : UInt8) : Int := if c.toNat < 128 then c.toNat else (c.toNat : Int) - 256

/-- The comparison of a key that is searched with the key of a slot. -/
def keyComparison (key pkey : Text) : Int :=
  let comparison := signedChar (key.headD 0) - signedChar (pkey.headD 0)
  if comparison = 0 then
    let cmp := (key.length : Int) - pkey.length
    let len := if cmp < 0 then key.length else pkey.length
    let comparison := memcmp key pkey len
    if comparison = 0 then cmp else comparison
  else comparison

def keyOrder (key pkey : Text) : Ordering := sign (keyComparison key pkey)

/-- A table of the sorted variant. -/
structure BtreeTable (D : Type) where
  data : List (Text × D)
  cursor : Nat

variable {D : Type}

/-- The search loop of `BtreeTableSearchFunc`: whether the key was found, the last index and how
the key compared there. -/
def BtreeTable.search (htable : BtreeTable D) (key : Text) : Bool × Nat × Ordering :=
  bisect (compareAt keyOrder htable.data key) htable.data.length 0 htable.data.length 0 .lt

/-- `Find` -/
def BtreeTableSearch (htable : BtreeTable D) (key : Text) : BtreeTable D × Option (Text × D) :=
  match htable.search key with
  | (true, idx, _) => ({ htable with cursor := idx }, htable.data[idx]?)
  | (false, _, _) => (htable, none)

/-- `Delete`: the slots behind the entry move down, and the cursor stays. -/
def BtreeTableDelete (htable : BtreeTable D) (key : Text) : BtreeTable D :=
  match htable.search key with
  | (true, idx, _) => { htable with data := htable.data.take idx ++ htable.data.drop (idx + 1) }
  | (false, _, _) => htable

/-- `Add`: a key that is there keeps its entry. -/
def BtreeTableAdd (htable : BtreeTable D) (key : Text) (data : D) : BtreeTable D :=
  match htable.search key with
  | (true, _, _) => htable
  | (false, idx, comparison) =>
    let idx := insertPlace idx comparison
    { data := htable.data.take idx ++ (key, data) :: htable.data.drop idx, cursor := idx }

/-- `BtreeTableSeq`: the index that is read next, `pos` 0 for the first. -/
def BtreeTable.next (htable : BtreeTable D) (pos : Nat) : Nat :=
  if pos = 0 then 0 else htable.cursor + 1

def BtreeTableSeq (htable : BtreeTable D) (pos : Nat) : BtreeTable D × Option (Text × D) :=
  match htable.data[htable.next pos]? with
  | none => (htable, none)
  | some entry => ({ htable with cursor := htable.next pos }, some entry)

/-! ### The order of the keys -/

theorem keyOrder_eq (a b : Text) :
    keyOrder a b = (compare (signedChar (a.headD 0)) (signedChar (b.headD 0))).then (compare a b) := by
  unfold keyOrder keyComparison
  dsimp only
  split
  case isTrue same =>
    have first : compare (signedChar (a.headD 0)) (signedChar (b.headD 0)) = .eq :=
      Int.compare_eq_eq.mpr (by omega)
    have len : (if (a.length : Int) - b.length < 0 then a.length else b.length) =
        min a.length b.length := by
      split <;> omega
    have whole := @sign_memcmp a b
    rw [first, len]
    change _ = compare a b
    rw [← whole]
    split
    case isTrue zero =>
      rw [if_neg (Decidable.not_not.mpr zero)]
    case isFalse => rfl
  case isFalse other =>
    rcases Int.lt_or_gt_of_ne (fun h => other (Int.sub_eq_zero.mpr h)) with less | greater
    · rw [Int.compare_eq_lt.mpr less]
      exact Int.compare_eq_lt.mpr (by omega)
    · rw [Int.compare_eq_gt.mpr greater]
      exact Int.compare_eq_gt.mpr (by omega)

instance : Std.TransCmp keyOrder where
  eq_swap {a b} := by
    have first : compare (signedChar (a.headD 0)) (signedChar (b.headD 0)) =
        (compare (signedChar (b.headD 0)) (signedChar (a.headD 0))).swap := Std.OrientedCmp.eq_swap
    have rest : compare a b = (compare b a).swap := Std.OrientedCmp.eq_swap
    rw [keyOrder_eq, keyOrder_eq, first, rest, Ordering.swap_then]
  isLE_trans {a b c} := by
    rw [keyOrder_eq, keyOrder_eq, keyOrder_eq]
    have trans := @Std.TransCmp.isLE_trans Text
      (compareLex (compareOn fun a => signedChar (a.headD 0)) (compareOn id)) _ a b c
    exact trans

instance : Std.LawfulEqCmp keyOrder where
  compare_self := Std.ReflCmp.compare_self
  eq_of_compare {a b} same := by
    rw [keyOrder_eq, Ordering.then_eq_eq] at same
    exact Std.LawfulEqCmp.eq_of_compare same.2

/-! ### What the operations do -/

section Operations

variable {htable : BtreeTable D} {key : Text} {data : D}

/-- The three ways a search ends. -/
theorem search_cases (sorted : Sorted keyOrder htable.data) (key : Text) :
    (∃ idx d, htable.search key = (true, idx, .eq) ∧ htable.data[idx]? = some (key, d) ∧
      htable.data = htable.data.take idx ++ (key, d) :: htable.data.drop (idx + 1)) ∨
    ∃ idx comparison, htable.search key = (false, idx, comparison) ∧
      InsertAt (compareAt keyOrder htable.data key) htable.data.length
        (insertPlace idx comparison) := by
  have place := sorted.place key
  unfold BtreeTable.search
  generalize bisect (compareAt keyOrder htable.data key) htable.data.length 0 htable.data.length 0 .lt
    = result at place
  cases place with
  | found idx less same =>
    obtain ⟨d, slot, around⟩ := split_found less same
    exact .inl ⟨idx, d, rfl, slot, around⟩
  | absent idx comparison at_place => exact .inr ⟨idx, comparison, rfl, at_place⟩

/-- A search finds the entry of a key, or none where there is none. -/
theorem BtreeTableSearch_eq (sorted : Sorted keyOrder htable.data) (key : Text) :
    (BtreeTableSearch htable key).1.data = htable.data ∧
      ((∃ d, (BtreeTableSearch htable key).2 = some (key, d) ∧ (key, d) ∈ htable.data) ∨
        (BtreeTableSearch htable key).2 = none ∧ ∀ d, (key, d) ∉ htable.data) := by
  unfold BtreeTableSearch
  rcases search_cases sorted key with ⟨idx, d, found, slot, _⟩ | ⟨idx, comparison, none, at_place⟩
  · rw [found]
    exact ⟨rfl, .inl ⟨d, slot, List.mem_of_getElem? slot⟩⟩
  · rw [none]
    exact ⟨rfl, .inr ⟨rfl, fun d => absent_of_insertAt at_place⟩⟩

/-- A new key is added to the entries. -/
theorem BtreeTableAdd_new (sorted : Sorted keyOrder htable.data) (new : ∀ d, (key, d) ∉ htable.data) :
    Sorted keyOrder (BtreeTableAdd htable key data).data ∧
      ∀ e, e ∈ (BtreeTableAdd htable key data).data ↔ e = (key, data) ∨ e ∈ htable.data := by
  unfold BtreeTableAdd
  rcases search_cases sorted key with ⟨idx, d, _, slot, _⟩ | ⟨idx, comparison, none, at_place⟩
  · exact absurd (List.mem_of_getElem? slot) (new d)
  · rw [none]
    refine ⟨sorted.insert at_place, fun e => ?_⟩
    dsimp only
    rw [mem_around, List.take_append_drop]

/-- The entry of a key is taken out where it stands. -/
theorem BtreeTableDelete_eq {a b : List (Text × D)} (sorted : Sorted keyOrder htable.data)
    (around : htable.data = a ++ (key, data) :: b) :
    BtreeTableDelete htable key = { htable with data := a ++ b } := by
  unfold BtreeTableDelete
  rcases search_cases sorted key with ⟨idx, d, found, slot, _⟩ | ⟨idx, comparison, _, at_place⟩
  · rw [found]
    rw [around] at sorted slot
    have place : idx = a.length := by
      rcases Nat.lt_trichotomy idx a.length with before | same | behind
      · rw [List.getElem?_append_left before] at slot
        have mem := List.mem_append_left b (List.mem_of_getElem? slot)
        exact absurd rfl (sorted.ne_of_mem mem)
      · exact same
      · obtain ⟨j, rfl⟩ : ∃ j, idx = a.length + (j + 1) := ⟨idx - a.length - 1, by omega⟩
        rw [List.getElem?_append_right (Nat.le_add_right _ _), Nat.add_sub_cancel_left,
          List.getElem?_cons_succ] at slot
        have mem := List.mem_append_right a (List.mem_of_getElem? slot)
        exact absurd rfl (sorted.ne_of_mem mem)
    have before : (a ++ (key, data) :: b).take idx = a := by
      rw [place]
      exact List.take_left
    have behind : (a ++ (key, data) :: b).drop (idx + 1) = b := by
      rw [place, List.drop_append, List.drop_eq_nil_of_le (Nat.le_succ _), Nat.add_sub_cancel_left]
      rfl
    dsimp only
    rw [around, before, behind]
  · have mem : (key, data) ∈ htable.data := around ▸ mem_around.mpr (.inl rfl)
    exact absurd mem (absent_of_insertAt at_place)

end Operations

end SourceNavigator.Parsers

import SourceNavigator.Parsers.BtreeTable.Slots

/-!
Histories of a sorted table (`parsers/common/srchtbl.c`).

* `entries` reads the filled slots as a list of keys and entries, and
  `search_eq` says that the search loop is the binary search in that list. With
  them `deleteSlot` and `addSlot` do what `BtreeTableDelete` and `BtreeTableAdd`
  do to the list.
* `Op.refines` is the step lemma of the refinement of a finite map.
* `BtreeTable_refines_map` says so of every history of proper operations, and
  `variants_agree` compares it with a hash table.
-/

namespace SourceNavigator.Parsers.Btree

open Lib Lib.Fuel Db

/-! ### Keys -/

/-- The item has a key: its length is given or is to be measured, and it is not empty. -/
structure Keyed (item : SearchEntry) : Prop where
  length : item.key_len = -1 ∨ 0 < item.key_len
  nonempty : item.bytes ≠ []

/-- An entry with a measured key that is not empty. -/
structure Measured (item : SearchEntry) : Prop where
  same : item.measure = item
  nonempty : item.bytes ≠ []

section Keys

variable {item p : SearchEntry}

theorem Keyed.measure_eq (keyed : Keyed item) : measure item = item.measure := by
  unfold measure SearchEntry.measure
  rcases keyed.length with minus | pos
  · rw [if_pos minus, if_pos (by omega)]
  · rw [if_neg (by omega), if_neg (by omega)]

theorem Keyed.measured (keyed : Keyed item) : Measured (measure item) := by
  rw [keyed.measure_eq]
  refine ⟨item.measure_measure, ?_⟩
  rw [item.bytes_measure]
  exact keyed.nonempty

theorem Keyed.bytes_measure (keyed : Keyed item) : (measure item).bytes = item.bytes := by
  rw [keyed.measure_eq, item.bytes_measure]

theorem Measured.first (h : Measured item) : item.key.headD 0 = item.bytes.headD 0 := by
  obtain ⟨bytes, len⟩ := SearchEntry.measured_bytes h.same
  have nonempty := h.nonempty
  rw [bytes] at nonempty ⊢
  cases key : item.key with
  | nil => rw [List.take_nil]
  | cons c rest =>
    cases count : item.key_len.toNat with
    | zero =>
      rw [count, List.take_zero] at nonempty
      exact absurd rfl nonempty
    | succ n => rfl

theorem memcmp_take (a b : Text) {n m k : Nat} (hn : k ≤ n) (hm : k ≤ m) :
    memcmp (a.take n) (b.take m) k = memcmp a b k := by
  induction k generalizing a b n m with
  | zero => simp [memcmp]
  | succ k ih =>
    obtain ⟨n, rfl⟩ := Nat.exists_eq_succ_of_ne_zero (by omega : n ≠ 0)
    obtain ⟨m, rfl⟩ := Nat.exists_eq_succ_of_ne_zero (by omega : m ≠ 0)
    cases a with
    | nil => simp [memcmp]
    | cons c a =>
      cases b with
      | nil => simp [memcmp]
      | cons d b =>
        rw [List.take_succ_cons, List.take_succ_cons, memcmp, memcmp,
          ih a b (Nat.le_of_succ_le_succ hn) (Nat.le_of_succ_le_succ hm)]

/-- The slots are compared as their keys are. -/
theorem comparison_eq (h : Measured item) (h' : Measured p) :
    comparison item p = keyComparison item.bytes p.bytes := by
  obtain ⟨bytes, len⟩ := SearchEntry.measured_bytes h.same
  obtain ⟨bytes', len'⟩ := SearchEntry.measured_bytes h'.same
  have shorter : (if item.key_len - p.key_len < 0 then item.key_len else p.key_len).toNat =
      if (item.bytes.length : Int) - p.bytes.length < 0 then item.bytes.length
      else p.bytes.length := by
    rw [len, len']
    split <;> exact Int.toNat_natCast _
  have common : memcmp item.key p.key
      (if item.key_len - p.key_len < 0 then item.key_len else p.key_len).toNat =
      memcmp item.bytes p.bytes (if (item.bytes.length : Int) - p.bytes.length < 0 then
        item.bytes.length else p.bytes.length) := by
    rw [shorter]
    have left : (if (item.bytes.length : Int) - p.bytes.length < 0 then item.bytes.length
        else p.bytes.length) ≤ item.key_len.toNat := by
      split <;> omega
    have right : (if (item.bytes.length : Int) - p.bytes.length < 0 then item.bytes.length
        else p.bytes.length) ≤ p.key_len.toNat := by
      split <;> omega
    generalize (if (item.bytes.length : Int) - p.bytes.length < 0 then item.bytes.length
      else p.bytes.length) = k at left right ⊢
    rw [bytes, bytes', memcmp_take _ _ left right]
  unfold comparison keyComparison
  dsimp only
  rw [common, h.first, h'.first, len, len']

end Keys

/-! ### The slots as a list -/

/-- The filled slots as keys with their entries. -/
def entries (t : SearchTable) : List (Text × SearchEntry) :=
  (List.range t.filled).map fun i => ((t.slot i).entry.bytes, (t.slot i).entry)

/-- The slots and the position of a table. -/
def abstract (t : SearchTable) : BtreeTable SearchEntry := ⟨entries t, t.cursor.toNat⟩

/-- A table whose slots are in order. -/
structure Ordered (t : SearchTable) : Prop where
  fits : Fits t
  measured : ∀ i, i < t.filled → Measured (t.slot i).entry
  sorted : Sorted keyOrder (entries t)

section Slots

variable {t : SearchTable} {item : SearchEntry} {i idx : Nat}

theorem length_entries (t : SearchTable) : (entries t).length = t.filled := by
  simp [entries]

theorem getElem?_entries : (entries t)[i]? =
    if i < t.filled then some ((t.slot i).entry.bytes, (t.slot i).entry) else none := by
  unfold entries
  split
  case isTrue inside => rw [List.getElem?_map, List.getElem?_range inside, Option.map_some]
  case isFalse outside =>
    apply List.getElem?_eq_none
    simpa using outside

/-- The comparison with a slot is that with an element of the list. -/
theorem compareAt_entries (measured : ∀ i, i < t.filled → Measured (t.slot i).entry)
    (h : Measured item) (inside : i < t.filled) :
    compareAt keyOrder (entries t) item.bytes i = sign (comparison item (t.slot i).entry) := by
  rw [compareAt, getElem?_entries, if_pos inside, comparison_eq h (measured i inside)]
  rfl

/-- The search loop is a binary search in the list. -/
theorem searchLoop_eq (measured : ∀ i, i < t.filled → Measured (t.slot i).entry) (h : Measured item)
    {fuel l u : Nat} {c : Int} (le : u ≤ t.filled) :
    bisect (compareAt keyOrder (entries t) item.bytes) fuel l u idx (sign c) =
      ((searchLoop t item fuel l u idx c).found, (searchLoop t item fuel l u idx c).idx,
        sign (searchLoop t item fuel l u idx c).comparison) := by
  induction fuel generalizing l u idx c with
  | zero => rfl
  | succ fuel ih =>
    rw [bisect, searchLoop]
    by_cases less : l < u
    · rw [if_pos less, if_pos less]
      have inside : (l + u) / 2 < t.filled := by omega
      dsimp only
      rw [compareAt_entries measured h inside]
      generalize comparison item (t.slot ((l + u) / 2)).entry = c'
      rcases Int.lt_trichotomy c' 0 with smaller | rfl | larger
      · have order : sign c' = .lt := Int.compare_eq_lt.mpr smaller
        rw [if_pos smaller, order]
        dsimp only
        rw [← order]
        exact ih (Nat.le_of_lt inside)
      · rfl
      · have order : sign c' = .gt := Int.compare_eq_gt.mpr larger
        rw [if_neg (by omega), if_pos larger, order]
        dsimp only
        rw [← order]
        exact ih le
    · rw [if_neg less, if_neg less]

theorem search_eq (measured : ∀ i, i < t.filled → Measured (t.slot i).entry) (h : Measured item) :
    (abstract t).search item.bytes =
      ((search t item).found, (search t item).idx, sign (search t item).comparison) := by
  have loop := @searchLoop_eq t item 0 measured h t.filled 0 _ (-1) (Nat.le_refl _)
  unfold BtreeTable.search abstract
  rw [length_entries]
  exact loop

theorem Found.insertPlace_eq (r : Found) : insertPlace r.idx (sign r.comparison) = r.place := by
  unfold insertPlace Found.place
  by_cases larger : 0 < r.comparison
  · have order : sign r.comparison = .gt := Int.compare_eq_gt.mpr larger
    rw [if_pos larger, if_pos order]
  · have order : sign r.comparison ≠ .gt := fun gt => larger (Int.compare_eq_gt.mp gt)
    rw [if_neg larger, if_neg order]

theorem slot_memmove {data : Array DATA} {dst src n : Nat} :
    (memmove data dst src n).getD i .zero =
      if i < data.size then
        if dst ≤ i ∧ i < dst + n then data.getD (src + (i - dst)) .zero else data.getD i .zero
      else .zero := by
  unfold memmove
  by_cases inside : i < data.size
  · rw [if_pos inside, Array.getD_eq_getD_getElem?, Array.getElem?_ofFn]
    simp [inside]
  · rw [if_neg inside, Array.getD_eq_getD_getElem?, Array.getElem?_ofFn]
    simp [inside]

theorem slot_deleteSlot (fits : Fits t) (inside : i < t.filled) :
    (deleteSlot t idx).htable.slot i = if idx ≤ i then t.slot (i + 1) else t.slot i := by
  have allocated := fits.allocated
  have free := fits.free
  change (memmove t.data idx (idx + 1) (t.filled - idx + 1)).getD i .zero = _
  rw [slot_memmove, if_pos (by omega)]
  by_cases behind : idx ≤ i
  · have next : idx + 1 + (i - idx) = i + 1 := by omega
    rw [if_pos (by omega), if_pos behind, next]
    rfl
  · rw [if_neg (by omega), if_neg behind]
    rfl

/-- A deletion takes an entry out of the list. -/
theorem entries_deleteSlot (fits : Fits t) (inside : idx < t.filled) :
    entries (deleteSlot t idx).htable = (entries t).take idx ++ (entries t).drop (idx + 1) := by
  apply List.ext_getElem?
  intro i
  have filled : (deleteSlot t idx).htable.filled = t.filled - 1 := rfl
  have cut : ((entries t).take idx).length = idx := by
    rw [List.length_take, length_entries]
    omega
  rw [getElem?_entries, filled, List.getElem?_append, cut]
  by_cases before : i < idx
  · rw [if_pos (by omega), if_pos before, List.getElem?_take, if_pos before, getElem?_entries,
      if_pos (by omega), slot_deleteSlot fits (by omega), if_neg (by omega)]
  · have next : idx + 1 + (i - idx) = i + 1 := by omega
    rw [if_neg before, List.getElem?_drop, next, getElem?_entries]
    by_cases last : i < t.filled - 1
    · rw [if_pos last, if_pos (by omega), slot_deleteSlot fits (by omega), if_pos (by omega)]
    · rw [if_neg last, if_neg (by omega)]

theorem slot_addSlot (fits : Fits t) (room : t.filled + 1 < t.hsize) (le : idx ≤ t.filled)
    (good : item.badFlag = false) (inside : i < t.filled + 1) :
    (addSlot t item idx).htable.slot i =
      if i < idx then t.slot i else if i = idx then ⟨item.dupKey.dupData, 1⟩ else t.slot (i - 1) := by
  have allocated := fits.allocated
  have around := @slot_memmove i t.data (idx + 1) idx (t.filled - idx + 1)
  unfold addSlot
  dsimp only
  rw [good, if_neg Bool.false_ne_true]
  change (SearchTable.setSlot _ idx _).slot i = _
  rw [slot_setSlot (by simp only [memmove, Array.size_ofFn]; omega)]
  by_cases here : i = idx
  · rw [if_pos here, if_neg (by omega), if_pos here]
  · rw [if_neg here]
    refine around.trans ?_
    rw [if_pos (by omega)]
    by_cases before : i < idx
    · rw [if_neg (by omega), if_pos before]
      rfl
    · have next : idx + (i - (idx + 1)) = i - 1 := by omega
      rw [if_pos (by omega), if_neg before, if_neg here, next]
      rfl

theorem addSlot_entry (good : item.badFlag = false) :
    (addSlot t item idx).entry = some item.dupKey.dupData := by
  unfold addSlot
  dsimp only
  rw [good, if_neg Bool.false_ne_true]

/-- An addition puts an entry into the list. -/
theorem entries_addSlot (fits : Fits t) (room : t.filled + 1 < t.hsize) (le : idx ≤ t.filled)
    (good : item.badFlag = false) :
    entries (addSlot t item idx).htable = (entries t).take idx ++
      ((item.dupKey.dupData).bytes, item.dupKey.dupData) :: (entries t).drop idx := by
  apply List.ext_getElem?
  intro i
  have filled : (addSlot t item idx).htable.filled = t.filled + 1 := by
    unfold addSlot
    dsimp only
    rw [good, if_neg Bool.false_ne_true]
  have cut : ((entries t).take idx).length = idx := by
    rw [List.length_take, length_entries]
    omega
  rw [getElem?_entries, filled, List.getElem?_append, cut]
  by_cases before : i < idx
  · rw [if_pos (by omega), if_pos before, List.getElem?_take, if_pos before, getElem?_entries,
      if_pos (by omega), slot_addSlot fits room le good (by omega), if_pos before]
  · rw [if_neg before]
    rcases Nat.eq_or_lt_of_le (Nat.le_of_not_lt before) with rfl | behind
    · rw [if_pos (by omega), slot_addSlot fits room le good (by omega), if_neg before, if_pos rfl,
        Nat.sub_self]
      rfl
    · obtain ⟨k, rfl⟩ : ∃ k, i = idx + (k + 1) := ⟨i - idx - 1, by omega⟩
      rw [Nat.add_sub_cancel_left, List.getElem?_cons_succ, List.getElem?_drop, getElem?_entries]
      by_cases last : idx + (k + 1) < t.filled + 1
      · rw [if_pos last, if_pos (by omega), slot_addSlot fits room le good last, if_neg before,
          if_neg (by omega)]
        rfl
      · rw [if_neg last, if_neg (by omega)]

end Slots

/-! ### The finite map -/

/-- An operation with a key, whose flag has no bit that the table does not know. -/
def Op.Proper (op : Op) : Prop :=
  match op with
  | .call c => Keyed c.item ∧ (c.action = .Add → c.item.badFlag = false)
  | .seq _ => True

/-- The map after an operation. -/
def mapAfter (m : FiniteMap) (op : Op) : FiniteMap :=
  match op with
  | .call c => m.after c
  | .seq _ => m

/-- The map after a history. -/
def mapOf (hist : List (Op × Option SearchEntry)) : FiniteMap :=
  hist.foldl (fun m a => mapAfter m a.1) fun _ => none

/-- The reply is that of the map. A deletion replies whether there was an entry; what its pointer
leads to is another entry by then. -/
def Answers (m : FiniteMap) (op : Op) (reply : Option SearchEntry) : Prop :=
  match op with
  | .call c =>
    if c.action = .Delete then reply.isSome = (m c.item.bytes).isSome else reply = m.answer c
  | .seq _ => True

/-- All replies are those of the map. -/
def Agrees : FiniteMap → List (Op × Option SearchEntry) → Prop
  | _, [] => True
  | m, a :: hist => Answers m a.1 a.2 ∧ Agrees (mapAfter m a.1) hist

/-- The table is in order and holds what the map holds. -/
structure Represents (t : SearchTable) (m : FiniteMap) : Prop where
  ordered : Ordered t
  holds : ∀ k e, m k = some e ↔ (k, e) ∈ entries t

section Refinement

variable {ckalloc : Ckalloc} {nel : Nat} {t₀ t t' : SearchTable} {m : FiniteMap} {op : Op}
  {item : SearchEntry} {reply : Option SearchEntry} {hist : List (Op × Option SearchEntry)}

theorem mem_entries {k : Text} {e : SearchEntry} :
    (k, e) ∈ entries t ↔ ∃ i, i < t.filled ∧ (t.slot i).entry = e ∧ e.bytes = k := by
  unfold entries
  rw [List.mem_map]
  constructor
  · rintro ⟨i, mem, same⟩
    obtain ⟨rfl, rfl⟩ := Prod.mk.inj same
    exact ⟨i, List.mem_range.mp mem, rfl, rfl⟩
  · rintro ⟨i, inside, rfl, rfl⟩
    exact ⟨i, List.mem_range.mpr inside, rfl⟩

/-- The order of a table is a matter of its list. -/
theorem ordered_iff (fits : Fits t) :
    Ordered t ↔ Sorted keyOrder (entries t) ∧ ∀ k e, (k, e) ∈ entries t → Measured e := by
  constructor
  · intro ordered
    refine ⟨ordered.sorted, fun k e mem => ?_⟩
    obtain ⟨i, inside, rfl, -⟩ := mem_entries.mp mem
    exact ordered.measured i inside
  · rintro ⟨sorted, measured⟩
    refine ⟨fits, fun i inside => ?_, sorted⟩
    exact measured _ _ (mem_entries.mpr ⟨i, inside, rfl, rfl⟩)

theorem entries_grow (grown : grow ckalloc t = some t') (fits : Fits t) : entries t' = entries t := by
  unfold grow at grown
  split at grown
  case isTrue =>
    dsimp only at grown
    split at grown
    case isTrue =>
      cases grown
      have same : ∀ i, i < t.filled → (t.data ++ Array.replicate
          (unsigned (t.hsize * 2) - t.data.size) DATA.zero).getD i .zero = t.data.getD i .zero := by
        intro i inside
        have allocated := fits.allocated
        have free := fits.free
        rw [Array.getD_eq_getD_getElem?, Array.getD_eq_getD_getElem?,
          Array.getElem?_append_left (by omega)]
      refine List.map_congr_left fun i mem => ?_
      have slot := same i (List.mem_range.mp mem)
      change _ = ((t.data.getD i .zero).entry.bytes, (t.data.getD i .zero).entry)
      rw [← slot]
      rfl
    case isFalse => cases grown
  case isFalse =>
    cases grown
    rfl

/-- The ways a search ends: at the entry of the key, or at its place. -/
theorem Represents.search_cases (h : Represents t m) (measured : Measured item) :
    (∃ e, (search t item).found = true ∧ (search t item).idx < t.filled ∧
      (t.slot (search t item).idx).entry = e ∧ m item.bytes = some e ∧
      entries t = (entries t).take (search t item).idx ++ (item.bytes, e) ::
        (entries t).drop ((search t item).idx + 1)) ∨
    ((search t item).found = false ∧ m item.bytes = none ∧ (search t item).place ≤ t.filled ∧
      InsertAt (compareAt keyOrder (entries t) item.bytes) (entries t).length
        (search t item).place) := by
  have result := search_eq h.ordered.measured measured
  obtain ⟨-, last, place⟩ := search_inside t item
  rcases @Parsers.search_cases _ (abstract t) h.ordered.sorted item.bytes with
    ⟨idx, e, found, slot, around⟩ | ⟨idx, c, absent, at_place⟩
  · rw [result, Prod.mk.injEq, Prod.mk.injEq] at found
    obtain ⟨found, rfl, -⟩ := found
    refine .inl ⟨e, found, last found, ?_, ?_, around⟩
    · have same : (entries t)[(search t item).idx]? = some (item.bytes, e) := slot
      rw [getElem?_entries, if_pos (last found)] at same
      exact (Prod.mk.inj (Option.some.inj same)).2
    · exact (h.holds _ _).mpr (List.mem_of_getElem? slot)
  · rw [result, Prod.mk.injEq, Prod.mk.injEq] at absent
    obtain ⟨absent, rfl, rfl⟩ := absent
    rw [Found.insertPlace_eq] at at_place
    refine .inr ⟨absent, ?_, place, at_place⟩
    refine Option.eq_none_iff_forall_ne_some.mpr fun e stored => ?_
    exact absent_of_insertAt at_place ((h.holds _ _).mp stored)

/-- A change of the position alone. -/
theorem Represents.cursor (h : Represents t m) (cursor : Int) :
    Represents { t with cursor := cursor } m where
  ordered :=
    { fits := ⟨h.ordered.fits.allocated, h.ordered.fits.free, h.ordered.fits.memory⟩
      measured := h.ordered.measured
      sorted := h.ordered.sorted }
  holds := h.holds

theorem Represents.delete (h : Represents t m) {idx : Nat} {k : Text} {e : SearchEntry}
    (inside : idx < t.filled)
    (around : entries t = (entries t).take idx ++ (k, e) :: (entries t).drop (idx + 1)) :
    Represents (deleteSlot t idx).htable (Function.update m k none) := by
  have fits' := deleteSlot_fits h.ordered.fits idx
  have list := entries_deleteSlot h.ordered.fits inside
  have sorted := h.ordered.sorted
  rw [around] at sorted
  have mem : ∀ k' e', (k', e') ∈ entries (deleteSlot t idx).htable ↔ (k', e') ∈ entries t ∧ k' ≠ k := by
    intro k' e'
    rw [list, sorted.mem_remove, ← around]
  refine ⟨(ordered_iff fits').mpr ⟨?_, fun k' e' stored => ?_⟩, fun k' e' => ?_⟩
  · rw [list]
    exact sorted.remove
  · exact ((ordered_iff h.ordered.fits).mp h.ordered).2 k' e' ((mem k' e').mp stored).1
  · rw [mem, ← h.holds, Function.update_apply]
    by_cases same : k' = k
    · simp [same]
    · simp [same]

theorem Represents.add (h : Represents t m) (room : t.filled + 1 < t.hsize) {idx : Nat}
    (le : idx ≤ t.filled) (good : item.badFlag = false)
    (at_place : InsertAt (compareAt keyOrder (entries t) item.dupKey.dupData.bytes)
      (entries t).length idx)
    (absent : m item.dupKey.dupData.bytes = none) (measured : Measured item.dupKey.dupData) :
    Represents (addSlot t item idx).htable
      (Function.update m item.dupKey.dupData.bytes (some item.dupKey.dupData)) := by
  have fits' := addSlot_fits h.ordered.fits room item idx
  have list := entries_addSlot h.ordered.fits room le good
  have mem : ∀ x, x ∈ entries (addSlot t item idx).htable ↔
      x = (item.dupKey.dupData.bytes, item.dupKey.dupData) ∨ x ∈ entries t := by
    intro x
    rw [list, mem_around, List.take_append_drop]
  refine ⟨(ordered_iff fits').mpr ⟨?_, fun k e stored => ?_⟩, fun k e => ?_⟩
  · rw [list]
    exact h.ordered.sorted.insert at_place
  · rcases (mem _).mp stored with same | stored
    · rw [(Prod.mk.inj same).2]
      exact measured
    · exact ((ordered_iff h.ordered.fits).mp h.ordered).2 k e stored
  · rw [mem, ← h.holds, Function.update_apply, Prod.mk.injEq]
    by_cases same : k = item.dupKey.dupData.bytes
    · simp [same, absent, eq_comm]
    · simp [same]

theorem Represents.grow (h : Represents t m) (grown : grow ckalloc t = some t') : Represents t' m := by
  have list := entries_grow grown h.ordered.fits
  have fits' := (grow_fits h.ordered.fits grown).1
  refine ⟨(ordered_iff fits').mpr ?_, fun k e => ?_⟩
  · rw [list]
    exact (ordered_iff h.ordered.fits).mp h.ordered
  · rw [list]
    exact h.holds k e

/-- The step lemma: an operation replies as the map does. -/
theorem Op.refines (h : Represents t m) (proper : op.Proper) (step : Step t (op, reply) t') :
    Answers m op reply ∧ Represents t' (mapAfter m op) := by
  obtain ⟨removed, accesses, done⟩ := step
  cases op with
  | seq pos =>
    refine ⟨trivial, ?_⟩
    simp only [Op.perform, BtreeTableSeq, Option.some.injEq] at done
    split at done
    · cases done
      exact h
    · cases done
      exact h.cursor _
  | call c =>
    obtain ⟨keyed, flag⟩ := proper
    have bytes := keyed.bytes_measure
    simp only [Op.perform, BtreeTableSearchFunc] at done
    unfold Answers mapAfter FiniteMap.after FiniteMap.answer
    dsimp only
    rcases h.search_cases keyed.measured with
      ⟨e, found, inside, entry, present, around⟩ | ⟨absent, none, le, at_place⟩
    · rw [bytes] at present around
      rw [found, if_pos rfl, entry] at done
      cases action : c.action with
      | Find =>
        rw [action] at done
        cases done
        exact ⟨by simp [present], h.cursor _⟩
      | Add =>
        rw [action] at done
        cases done
        have same : Function.update m c.item.bytes (some e) = m := by
          rw [← present, Function.update_eq_self]
        simp only [present, same]
        exact ⟨by simp, h⟩
      | Delete =>
        rw [action] at done
        cases done
        exact ⟨by simp [present, deleteSlot], h.delete inside around⟩
    · rw [bytes] at none at_place
      rw [absent, if_neg Bool.false_ne_true] at done
      cases action : c.action with
      | Find =>
        rw [action] at done
        cases done
        exact ⟨by simp [none], h⟩
      | Delete =>
        rw [action] at done
        cases done
        have same : Function.update m c.item.bytes Option.none = m := by
          rw [← none, Function.update_eq_self]
        rw [same]
        exact ⟨by simp [none], h⟩
      | Add =>
        rw [action] at done
        obtain ⟨u, grown, made⟩ := Option.map_eq_some_iff.mp done
        have good := flag action
        have good' : (measure c.item).badFlag = false := by
          rw [keyed.measure_eq, SearchEntry.badFlag_measure]
          exact good
        have stored : (measure c.item).dupKey.dupData = c.item.stored true := by
          rw [keyed.measure_eq]
          rfl
        have key : (measure c.item).dupKey.dupData.bytes = c.item.bytes := by
          rw [stored, c.item.bytes_stored]
        obtain ⟨-, filled, room⟩ := grow_fits h.ordered.fits grown
        have list := entries_grow grown h.ordered.fits
        have added := @Represents.add _ _ (measure c.item) (h.grow grown) (filled ▸ room) _
          (filled ▸ le) good' (by rw [key, list]; exact at_place) (by rw [key]; exact none)
          ⟨by rw [stored, c.item.measure_stored], by rw [key]; exact keyed.nonempty⟩
        rw [key, stored] at added
        cases made
        simp only [addSlot_entry good', stored, none, good]
        exact ⟨rfl, added⟩

/-- An addition of a key that is there changes nothing. -/
theorem add_present (h : Represents t m) {c : Call} (keyed : Keyed c.item) (add : c.action = .Add)
    (present : m c.item.bytes ≠ none) (step : Step t (.call c, reply) t') : t' = t := by
  obtain ⟨removed, accesses, done⟩ := step
  rcases h.search_cases keyed.measured with ⟨e, found, -⟩ | ⟨-, none, -⟩
  · simp only [Op.perform, BtreeTableSearchFunc, found, add, if_true] at done
    cases done
    rfl
  · rw [keyed.bytes_measure] at none
    exact absurd none present

theorem Created.represents (created : Created ckalloc nel t) : Represents t fun _ => none := by
  have fits := created.fits
  have none : entries t = [] := by
    obtain ⟨n, -, -, rfl⟩ := created.eq_empty
    rfl
  refine ⟨(ordered_iff fits).mpr ⟨?_, fun k e mem => ?_⟩, fun k e => ?_⟩
  · rw [none]
    exact List.Pairwise.nil
  · rw [none] at mem
    exact absurd mem List.not_mem_nil
  · simp [none]

/-- A history all of whose operations are proper. -/
abbrev ProperHistory := Run (Guarded (fun _ (a : Op × Option SearchEntry) => a.1.Proper) Step)

/-- The run lemma. -/
theorem history_refines (h : Represents t₀ m) (run : ProperHistory t₀ hist t) :
    Agrees m hist ∧ Represents t (hist.foldl (fun m a => mapAfter m a.1) m) := by
  induction run generalizing m with
  | nil t => exact ⟨trivial, h⟩
  | @cons t u v a hist first _ ih =>
    obtain ⟨op, reply⟩ := a
    obtain ⟨answer, next⟩ := Op.refines h first.1 first.2
    obtain ⟨answers, last⟩ := ih next
    exact ⟨⟨answer, answers⟩, last⟩

/-! ### Sequential access -/

/-- Calls of `seq` up to the first NULL. -/
def sequence : Nat → SearchTable → Int → Option (List SearchEntry)
  | 0, _, _ => none
  | fuel + 1, htable, pos =>
    let r := BtreeTableSeq htable pos
    match r.entry with
    | none => some []
    | some e => (sequence fuel r.htable 1).map fun out => e :: out

theorem sequence_eq {fuel : Nat} {pos : Int} (enough : t.filled - t.seqStart pos < fuel) :
    sequence fuel t pos = some (((entries t).drop (t.seqStart pos)).map Prod.snd) := by
  induction fuel generalizing t pos with
  | zero => exact absurd enough (Nat.not_lt_zero _)
  | succ fuel ih =>
    rw [sequence]
    generalize start : t.seqStart pos = cou at enough ⊢
    unfold BtreeTableSeq
    dsimp only
    rw [start]
    by_cases past : t.filled ≤ cou
    · rw [if_pos past, List.drop_eq_nil_of_le (by rw [length_entries]; exact past)]
      rfl
    · have next : ({ t with cursor := (cou : Int) } : SearchTable).seqStart 1 = cou + 1 := by
        simp only [SearchTable.seqStart, one_ne_zero, if_false]
        omega
      have rest := @ih { t with cursor := cou } 1 (by rw [next]; dsimp only; omega)
      have inside : cou < (entries t).length := by
        rw [length_entries]
        omega
      have here : ((entries t)[cou]).2 = (t.slot cou).entry := by
        have slot := getElem?_entries (t := t) (i := cou)
        rw [List.getElem?_eq_getElem inside, if_pos (by omega), Option.some.injEq] at slot
        rw [slot]
      rw [next] at rest
      rw [if_neg past]
      dsimp only
      rw [rest, List.drop_eq_getElem_cons inside, List.map_cons, here]
      rfl

end Refinement

theorem callOf_proper (action : Search_Action) (c : UInt8) (nonzero : c ≠ 0) :
    (Op.call (callOf action c)).Proper := by
  have bytes : (callOf action c).item.bytes = [c] := by
    change cstring [c] = [c]
    simp [cstring, nonzero]
  have nonempty : (callOf action c).item.bytes ≠ [] := by
    rw [bytes]
    exact List.cons_ne_nil _ _
  exact ⟨⟨.inl rfl, nonempty⟩, fun _ => by simp [callOf, SearchEntry.badFlag]⟩

/-- Perform operations one after the other. -/
def performAll : List Op → SearchTable → Option (List (Option SearchEntry) × SearchTable)
  | [], htable => some ([], htable)
  | op :: ops, htable =>
    (op.perform htable).bind fun r =>
      (performAll ops r.htable).map fun out => (r.entry :: out.1, out.2)

theorem history_of_performAll {ops : List Op} {t₀ t : SearchTable}
    {replies : List (Option SearchEntry)} (proper : ∀ op ∈ ops, op.Proper)
    (h : performAll ops t₀ = some (replies, t)) : ProperHistory t₀ (ops.zip replies) t := by
  induction ops generalizing t₀ replies with
  | nil =>
    cases h
    exact .nil _
  | cons op ops ih =>
    obtain ⟨r, first, mapped⟩ := Option.bind_eq_some_iff.mp h
    obtain ⟨⟨replies', u⟩, rest, same⟩ := Option.map_eq_some_iff.mp mapped
    cases same
    obtain ⟨here, later⟩ := List.forall_mem_cons.mp proper
    exact .cons ⟨here, r.removed, r.accesses, first⟩ (ih later rest)

/-- An operation that updates nothing. -/
def Op.reads : Op → Bool
  | .call c => c.action = .Find
  | .seq pos => pos ≠ 0

/-- The entries that the sequential access replied with. -/
def visited (hist : List (Op × Option SearchEntry)) : List SearchEntry :=
  hist.filterMap fun a =>
    match a.1 with
    | .call _ => none
    | .seq _ => a.2

/-- A call, with the replies of a hash table and of a sorted one. -/
abbrev Replies := List (Call × Option SearchEntry × Option SearchEntry)

/-- A hash table and a sorted table that represent one map reply alike and stay alike. A deletion
replies with a cleared slot or with what stands there then. -/
theorem Represents.alike {t t' u u' : SearchTable} {m : FiniteMap} {hist : Replies}
    (hashed : Parsers.Represents t m) (sorted : Represents u m)
    (run : SafeHistory t (hist.map fun a => (a.1, a.2.1)) t')
    (run' : ProperHistory u (hist.map fun a => (.call a.1, a.2.2)) u') :
    (∀ a ∈ hist, a.2.1.isSome = a.2.2.isSome ∧ (a.1.action ≠ .Delete → a.2.1 = a.2.2)) ∧
      ∀ k e, t'.Holds k e ↔ (k, e) ∈ entries u' := by
  induction hist generalizing t u m with
  | nil =>
    cases run
    cases run'
    exact ⟨by simp, fun k e => (hashed.holds k e).symm.trans (sorted.holds k e)⟩
  | cons a hist ih =>
    rw [List.map_cons] at run run'
    obtain _ | ⟨first, rest⟩ := run
    obtain _ | ⟨first', rest'⟩ := run'
    obtain ⟨answer, hashed⟩ := Call.refines hashed first.1 first.2
    obtain ⟨answer', sorted⟩ := Op.refines sorted first'.1 first'.2
    obtain ⟨alike, holds⟩ := ih hashed sorted rest rest'
    refine ⟨List.forall_mem_cons.mpr ⟨?_, alike⟩, holds⟩
    rw [Answers] at answer'
    split at answer'
    next delete =>
      refine ⟨?_, fun other => absurd delete other⟩
      rw [answer, answer', FiniteMap.answer, delete, Option.isSome_map]
    next =>
      rw [answer, answer']
      exact ⟨rfl, fun _ => rfl⟩

end SourceNavigator.Parsers.Btree

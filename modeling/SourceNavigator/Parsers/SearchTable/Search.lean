import SourceNavigator.Lib.OpenAddressing
import SourceNavigator.Parsers.SearchTable.Size

/-!
Searching a hash table (the probe loop of `HashTableSearchFunc`).

* `SearchTable.WellFormed` is what every history of a table keeps, deletions
  included; `WellFormed.fill` and `WellFormed.clear` are its step lemmas.
* `slots` reads a table as an open-addressing table over `probe`, and
  `locate_eq_some` says that the probe loop ends at the first slot of the probe
  sequence that is unused or holds the key.
-/

namespace SourceNavigator.Parsers

open Lib.Fuel Lib.OpenAddressing

/-! ### Keys -/

namespace SearchEntry

variable {item item' : SearchEntry}

theorem measure_of_pos (h : 0 < item.key_len) : item.measure = item :=
  if_neg (by omega)

theorem key_len_of_nonpos (h : item.key_len ≤ 0) :
    item.measure.key_len = (cstring item.key).length := by
  rw [measure, if_pos h]

theorem bytes_of_nonpos (h : item.key_len ≤ 0) : item.bytes = cstring item.key :=
  if_pos h

/-- A measured entry counts the bytes of its key. -/
theorem measured_bytes (h : item.measure = item) :
    item.bytes = item.key.take item.key_len.toNat ∧ item.key_len = item.bytes.length := by
  rcases lt_or_ge 0 item.key_len with pos | nonpos
  · have := item.key_len_le
    have bytes : item.bytes = item.key.take item.key_len.toNat := if_neg (by omega)
    refine ⟨bytes, ?_⟩
    rw [bytes, List.length_take]
    omega
  · have len : item.key_len = (cstring item.key).length := by
      rw [← key_len_of_nonpos nonpos, h]
    have none : cstring item.key = [] := List.eq_nil_of_length_eq_zero (by omega)
    have zero : item.key_len.toNat = 0 := by omega
    rw [bytes_of_nonpos nonpos, zero]
    exact ⟨none, len⟩

/-- Measuring again changes nothing. -/
theorem measure_measure (item : SearchEntry) : item.measure.measure = item.measure := by
  rcases lt_or_ge 0 item.key_len with pos | nonpos
  · rw [measure_of_pos pos, measure_of_pos pos]
  · by_cases none : (cstring item.key).length = 0
    · simp [measure, nonpos, none]
    · refine measure_of_pos ?_
      rw [key_len_of_nonpos nonpos]
      exact_mod_cast Nat.pos_of_ne_zero none

theorem bytes_measure (item : SearchEntry) : item.measure.bytes = item.bytes := by
  rcases lt_or_ge 0 item.key_len with pos | nonpos
  · rw [measure_of_pos pos]
  · have key : item.measure.key = item.key := by
      rw [measure, if_pos nonpos]
    rw [(measured_bytes (measure_measure item)).1, key, key_len_of_nonpos nonpos,
      bytes_of_nonpos nonpos, Int.toNat_natCast]
    exact (List.prefix_iff_eq_take.mp (List.takeWhile_prefix _)).symm

/-- Measured entries have the same key when the length and the compared bytes agree. -/
theorem same_key_iff (h : item.measure = item) (h' : item'.measure = item') :
    (item.key_len = item'.key_len ∧
      item.key.take item.key_len.toNat = item'.key.take item.key_len.toNat) ↔
      item.bytes = item'.bytes := by
  obtain ⟨bytes, len⟩ := measured_bytes h
  obtain ⟨bytes', len'⟩ := measured_bytes h'
  constructor
  · rintro ⟨same_len, same⟩
    rw [bytes, bytes', same, same_len]
  · intro same
    have same_len : item.key_len = item'.key_len := by rw [len, len', same]
    refine ⟨same_len, ?_⟩
    rw [← bytes, same_len, ← bytes', same]

end SearchEntry

/-! ### Slots -/

section Slots

variable {htable : SearchTable} {i j : Nat} {d : DATA}

theorem slot_setSlot (h : i < htable.data.size) :
    (htable.setSlot i d).slot j = if j = i then d else htable.slot j := by
  simp only [SearchTable.slot, SearchTable.setSlot, Array.getD_eq_getD_getElem?,
    Array.getElem?_setIfInBounds]
  by_cases same : j = i
  · subst same
    simp [h]
  · simp [same, Ne.symm same]

theorem slot_emptyTable (hsize : Nat) : (emptyTable hsize).slot i = .zero := by
  simp only [SearchTable.slot, emptyTable, Array.getD_eq_getD_getElem?]
  by_cases h : i < hsize + 1 <;> simp [h]

/-- The table as slots that hold an entry under its key. -/
def SearchTable.slots (htable : SearchTable) (i : Nat) : Option (List UInt8 × SearchEntry) :=
  if (htable.slot i).used = 0 then none
  else some ((htable.slot i).entry.bytes, (htable.slot i).entry)

/-- The indices that the search for a key tries, one after the other. -/
def probe (hsize : Nat) (key : List UInt8) (n : Nat) : Nat :=
  (stepDown hsize (secondStep hsize (firstIndex hsize key)))^[n] (firstIndex hsize key)

theorem slots_eq_none : htable.slots i = none ↔ (htable.slot i).used = 0 := by
  simp [SearchTable.slots]

theorem slots_eq_some {key : List UInt8} {e : SearchEntry} :
    htable.slots i = some (key, e) ↔
      (htable.slot i).used ≠ 0 ∧ (htable.slot i).entry = e ∧ e.bytes = key := by
  unfold SearchTable.slots
  split
  case isTrue unused => simp [unused]
  case isFalse used =>
    simp only [Option.some.injEq, Prod.mk.injEq]
    constructor
    · rintro ⟨rfl, rfl⟩
      exact ⟨used, rfl, rfl⟩
    · rintro ⟨-, rfl, rfl⟩
      exact ⟨rfl, rfl⟩

end Slots

/-! ### Well-formed tables -/

/-- What every history of a table keeps. -/
structure SearchTable.WellFormed (htable : SearchTable) : Prop where
  size : TableSize htable.hsize
  memory : (htable.hsize + 1) * sizeof_DATA < 4294967296
  allocated : htable.data.size = htable.hsize + 1
  reserved : (htable.slot 0).used = 0
  hashed : ∀ i, (htable.slot i).used ≠ 0 →
    (htable.slot i).used = firstIndex htable.hsize (htable.slot i).entry.bytes ∧
      (htable.slot i).entry.measure = (htable.slot i).entry
  filled : htable.filled =
    ((Finset.Icc 1 htable.hsize).filter fun i => (htable.slot i).used ≠ 0).card

theorem TableSize.pos {hsize : Nat} (h : TableSize hsize) : 0 < hsize := by
  have := h.odd
  omega

theorem firstIndex_mem {hsize : Nat} (h : 0 < hsize) (key : List UInt8) :
    0 < firstIndex hsize key ∧ firstIndex hsize key ≤ hsize := by
  have := Nat.mod_lt (hashValue key).toNat h
  unfold firstIndex
  split <;> omega

theorem secondStep_mem {hsize : Nat} (five : 5 ≤ hsize) (small : hsize < 4294967296) (hval : Nat) :
    0 < secondStep hsize hval ∧ secondStep hsize hval < hsize := by
  have two : unsigned (hsize + 4294967296 - 2) = hsize - 2 := by
    unfold unsigned
    omega
  have := Nat.mod_lt hval (by omega : 0 < hsize - 2)
  rw [secondStep, two]
  omega

theorem emptyTable_wellFormed {hsize : Nat} (size : TableSize hsize)
    (memory : (hsize + 1) * sizeof_DATA < 4294967296) : (emptyTable hsize).WellFormed := by
  refine ⟨size, memory, Array.size_replicate, ?_, ?_, ?_⟩
  · rw [slot_emptyTable]
    rfl
  · intro i used
    rw [slot_emptyTable] at used
    exact absurd rfl used
  · have unused : ∀ i, ((emptyTable hsize).slot i).used = 0 := fun i => by
      rw [slot_emptyTable]
      rfl
    simp only [unused]
    simp [emptyTable]

namespace SearchTable.WellFormed

variable {htable : SearchTable} {item : SearchEntry} {i : Nat}

theorem small (wf : htable.WellFormed) : htable.hsize < 107374182 := by
  have := wf.memory
  unfold sizeof_DATA at this
  omega

/-- A used slot is one of `1 .. hsize`. -/
theorem used_mem (wf : htable.WellFormed) (used : (htable.slot i).used ≠ 0) :
    0 < i ∧ i ≤ htable.hsize := by
  constructor
  · rcases Nat.eq_zero_or_pos i with rfl | pos
    · exact absurd wf.reserved used
    · exact pos
  · by_contra outside
    apply used
    have : htable.data[i]? = none := Array.getElem?_eq_none (by have := wf.allocated; omega)
    simp [SearchTable.slot, Array.getD_eq_getD_getElem?, this, DATA.zero]

theorem filled_le (wf : htable.WellFormed) : htable.filled ≤ htable.hsize := by
  rw [wf.filled]
  exact (Finset.card_filter_le _ _).trans (by simp)

/-- The table has an unused slot exactly when the count says so. -/
theorem filled_lt_iff (wf : htable.WellFormed) :
    htable.filled < htable.hsize ↔
      ∃ i, 0 < i ∧ i ≤ htable.hsize ∧ (htable.slot i).used = 0 := by
  have total : htable.hsize = (Finset.Icc 1 htable.hsize).card := by simp
  constructor
  · intro less
    by_contra full
    push Not at full
    rw [wf.filled, Finset.filter_true_of_mem, ← total] at less
    · exact absurd less (lt_irrefl _)
    · intro i mem
      rw [Finset.mem_Icc] at mem
      exact full i mem.1 mem.2
  · rintro ⟨i, pos, le, unused⟩
    rw [wf.filled]
    conv_rhs => rw [total]
    refine Finset.card_lt_card (Finset.filter_ssubset.mpr ⟨i, Finset.mem_Icc.mpr ⟨pos, le⟩, ?_⟩)
    simpa using unused

/-- A probe sequence stays among the slots `1 .. hsize` when there are several. -/
theorem probe_mem (wf : htable.WellFormed) (several : htable.hsize ≠ 1) (key : List UInt8)
    (n : Nat) :
    0 < probe htable.hsize key n ∧ probe htable.hsize key n ≤ htable.hsize := by
  have five := (wf.size.resolve_left several).2
  have step := secondStep_mem five (by have := wf.small; omega) (firstIndex htable.hsize key)
  have first := firstIndex_mem wf.size.pos key
  exact stepDown_iterate_mem step.1 step.2 first.1 first.2 n

/-- It visits all of them. -/
theorem exists_probe_eq (wf : htable.WellFormed) (several : htable.hsize ≠ 1) (key : List UInt8)
    (pos : 0 < i) (le : i ≤ htable.hsize) : ∃ n, probe htable.hsize key n = i := by
  obtain ⟨prime, five⟩ := wf.size.resolve_left several
  have step := secondStep_mem five (by have := wf.small; omega) (firstIndex htable.hsize key)
  have first := firstIndex_mem wf.size.pos key
  obtain ⟨n, -, there⟩ := exists_stepDown_eq prime step.1 step.2 first.1 first.2 pos le
  exact ⟨n, there⟩

/-- A slot matches a measured entry when it holds an entry under the same key. -/
theorem matches_iff (wf : htable.WellFormed) (measured : item.measure = item) :
    htable.matches item (firstIndex htable.hsize item.bytes) i = true ↔
      ∃ e, htable.slots i = some (item.bytes, e) := by
  have first := firstIndex_mem wf.size.pos item.bytes
  simp only [SearchTable.matches, Bool.and_eq_true, beq_iff_eq, and_assoc]
  constructor
  · rintro ⟨used, len, same⟩
    have taken : (htable.slot i).used ≠ 0 := by omega
    refine ⟨(htable.slot i).entry, slots_eq_some.mpr ⟨taken, rfl, ?_⟩⟩
    exact ((SearchEntry.same_key_iff measured (wf.hashed i taken).2).mp ⟨len, same⟩).symm
  · rintro ⟨e, stored⟩
    obtain ⟨taken, rfl, same⟩ := slots_eq_some.mp stored
    obtain ⟨used, measured'⟩ := wf.hashed i taken
    refine ⟨by rw [used, same], ?_⟩
    exact (SearchEntry.same_key_iff measured measured').mpr same.symm

end SearchTable.WellFormed

/-! ### The probe loop -/

section Locate

variable {htable : SearchTable} {item : SearchEntry} {key : List UInt8} {fuel idx : Nat}

/-- The slots at which the search for a measured entry ends. -/
def stop (htable : SearchTable) (item : SearchEntry) (hval idx : Nat) : Bool :=
  htable.matches item hval idx || (htable.slot idx).used == 0

theorem probeLoop_eq_firstStop (hval hval2 : Nat) :
    probeLoop htable item hval hval2 fuel idx =
      firstStop (stop htable item hval) (stepDown htable.hsize hval2) fuel
        (stepDown htable.hsize hval2 idx) := by
  induction fuel generalizing idx with
  | zero => rfl
  | succ fuel ih =>
    have next : (if idx ≤ hval2 then htable.hsize + idx - hval2 else idx - hval2) =
        stepDown htable.hsize hval2 idx := rfl
    simp only [probeLoop, firstStop, stop, next]
    by_cases found : htable.matches item hval (stepDown htable.hsize hval2 idx) = true
    · simp [found]
    · by_cases unused : (htable.slot (stepDown htable.hsize hval2 idx)).used = 0
      · simp [found, unused]
      · simpa [found, unused, stop] using ih

theorem locate_eq_firstStop :
    locate fuel htable item =
      firstStop (stop htable item (firstIndex htable.hsize item.bytes))
        (stepDown htable.hsize (secondStep htable.hsize (firstIndex htable.hsize item.bytes)))
        (fuel + 1) (firstIndex htable.hsize item.bytes) := by
  simp only [locate, firstStop, probeLoop_eq_firstStop, stop]
  by_cases unused : (htable.slot (firstIndex htable.hsize item.bytes)).used = 0
  · simp [unused]
  · by_cases found : htable.matches item (firstIndex htable.hsize item.bytes)
        (firstIndex htable.hsize item.bytes) = true
    · simp [unused, found]
    · simp [unused, found]

theorem stop_iff (wf : htable.WellFormed) (measured : item.measure = item) :
    stop htable item (firstIndex htable.hsize item.bytes) idx = true ↔
      Stops htable.slots item.bytes idx := by
  rw [stop, Bool.or_eq_true, wf.matches_iff measured, beq_iff_eq, ← slots_eq_none, Stops, or_comm]

/-- The probe loop ends at the first slot of the probe sequence that is unused
or holds the key. -/
theorem locate_eq_some (wf : htable.WellFormed) (measured : item.measure = item) :
    locate fuel htable item = some idx ↔
      ∃ n < fuel + 1, probe htable.hsize item.bytes n = idx ∧
        StopsAt (probe htable.hsize) htable.slots item.bytes n := by
  rw [locate_eq_firstStop, firstStop_eq_some]
  refine exists_congr fun n => and_congr_right fun _ => and_congr_right fun at_n => ?_
  rw [stop_iff wf measured, StopsAt, probe, at_n]
  refine and_congr_right fun _ => forall_congr' fun m => forall_congr' fun _ => ?_
  rw [← Bool.not_eq_true, stop_iff wf measured, probe]

theorem returns_locate (wf : htable.WellFormed) (measured : item.measure = item) :
    Returns (fun fuel => locate fuel htable item) idx ↔
      ∃ n, probe htable.hsize item.bytes n = idx ∧
        StopsAt (probe htable.hsize) htable.slots item.bytes n := by
  simp only [Returns, locate_eq_some wf measured]
  constructor
  · rintro ⟨_, n, _, found⟩
    exact ⟨n, found⟩
  · rintro ⟨n, found⟩
    exact ⟨n, n, by omega, found⟩

/-- A search has a slot to stop at unless the table is full and the key is not in it. -/
theorem stopsAt_iff (wf : htable.WellFormed) (key : List UInt8) :
    (∃ n, StopsAt (probe htable.hsize) htable.slots key n) ↔
      htable.hsize = 1 ∨ htable.filled < htable.hsize ∨ ∃ e, Holds htable.slots key e := by
  by_cases single : htable.hsize = 1
  · -- the second index tried is the reserved slot
    refine ⟨fun _ => .inl single, fun _ => ?_⟩
    have second : probe htable.hsize key 1 = 0 := by
      have first : firstIndex 1 key = 1 := by
        have := firstIndex_mem Nat.one_pos key
        omega
      rw [single, probe, first]
      rfl
    have empty : Stops htable.slots key (probe htable.hsize key 1) := by
      rw [second]
      exact .inl (slots_eq_none.mpr wf.reserved)
    obtain ⟨n, _, found⟩ := exists_stopsAt empty
    exact ⟨n, found⟩
  · rw [wf.filled_lt_iff]
    constructor
    · rintro ⟨n, empty | ⟨e, stored⟩, _⟩
      · have := wf.probe_mem single key n
        exact .inr (.inl ⟨_, this.1, this.2, slots_eq_none.mp empty⟩)
      · exact .inr (.inr ⟨e, _, stored⟩)
    · rintro (one | ⟨i, pos, le, unused⟩ | ⟨e, i, stored⟩)
      · exact absurd one single
      · obtain ⟨n, rfl⟩ := wf.exists_probe_eq single key pos le
        obtain ⟨m, _, found⟩ : ∃ m ≤ n, StopsAt (probe htable.hsize) htable.slots key m :=
          exists_stopsAt (.inl (slots_eq_none.mpr unused))
        exact ⟨m, found⟩
      · have mem := wf.used_mem (slots_eq_some.mp stored).1
        obtain ⟨n, rfl⟩ := wf.exists_probe_eq single key mem.1 mem.2
        obtain ⟨m, _, found⟩ : ∃ m ≤ n, StopsAt (probe htable.hsize) htable.slots key m :=
          exists_stopsAt (.inr ⟨e, stored⟩)
        exact ⟨m, found⟩

theorem locate_succ (found : locate fuel htable item = some idx) :
    locate (fuel + 1) htable item = some idx := by
  rw [locate_eq_firstStop] at found ⊢
  exact firstStop_succ found

/-- While there is room a search ends at one of the slots `1 .. hsize`. -/
theorem SearchTable.WellFormed.stop_mem (wf : htable.WellFormed)
    (room : htable.filled < htable.hsize) {n : Nat}
    (h : StopsAt (probe htable.hsize) htable.slots key n) :
    0 < probe htable.hsize key n ∧ probe htable.hsize key n ≤ htable.hsize := by
  by_cases single : htable.hsize = 1
  · -- the only slot is unused, so the search ends at the first index
    obtain ⟨i, pos, le, unused⟩ := wf.filled_lt_iff.mp room
    have first := firstIndex_mem wf.size.pos key
    have same : probe htable.hsize key 0 = i := by
      have : probe htable.hsize key 0 = firstIndex htable.hsize key := rfl
      omega
    have start : n = 0 := by
      by_contra later
      exact h.2 0 (by omega) (.inl (by rw [same]; exact slots_eq_none.mpr unused))
    rw [start]
    exact first
  · exact wf.probe_mem single key n

end Locate

/-! ### Filling and clearing a slot -/

section Update

variable {htable : SearchTable} {item : SearchEntry} {i : Nat}

theorem SearchTable.WellFormed.index_lt (wf : htable.WellFormed) (le : i ≤ htable.hsize) :
    i < htable.data.size := by
  have := wf.allocated
  omega

theorem slot_fill (wf : htable.WellFormed) (le : i ≤ htable.hsize) (hval j : Nat) :
    (htable.fill i hval item).slot j = if j = i then ⟨item, hval⟩ else htable.slot j :=
  slot_setSlot (wf.index_lt le)

theorem slot_clear (wf : htable.WellFormed) (le : i ≤ htable.hsize) (j : Nat) :
    (htable.clear i).slot j = if j = i then .zero else htable.slot j :=
  slot_setSlot (wf.index_lt le)

theorem slots_fill (wf : htable.WellFormed) (le : i ≤ htable.hsize) {hval : Nat} (pos : 0 < hval) :
    (htable.fill i hval item).slots = Function.update htable.slots i (some (item.bytes, item)) := by
  funext j
  simp only [SearchTable.slots, slot_fill wf le, Function.update_apply]
  by_cases here : j = i
  · simp [here, Nat.pos_iff_ne_zero.mp pos]
  · simp [here]

theorem slots_clear (wf : htable.WellFormed) (le : i ≤ htable.hsize) :
    (htable.clear i).slots = Function.update htable.slots i none := by
  funext j
  simp only [SearchTable.slots, slot_clear wf le, Function.update_apply]
  by_cases here : j = i
  · simp [here, DATA.zero]
  · simp [here]

/-- Filling an unused slot with a measured entry keeps the table well formed. -/
theorem SearchTable.WellFormed.fill (wf : htable.WellFormed) (pos : 0 < i) (le : i ≤ htable.hsize)
    (unused : (htable.slot i).used = 0) (measured : item.measure = item) :
    (htable.fill i (firstIndex htable.hsize item.bytes) item).WellFormed := by
  have first := firstIndex_mem wf.size.pos item.bytes
  refine ⟨wf.size, wf.memory, ?_, ?_, ?_, ?_⟩
  · exact (Array.size_setIfInBounds ..).trans wf.allocated
  · rw [slot_fill wf le, if_neg (by omega)]
    exact wf.reserved
  · intro j used
    rw [slot_fill wf le] at used ⊢
    by_cases here : j = i
    · rw [if_pos here]
      exact ⟨rfl, measured⟩
    · rw [if_neg here] at used ⊢
      exact wf.hashed j used
  · change htable.filled + 1 = ((Finset.Icc 1 htable.hsize).filter _).card
    rw [wf.filled, ← Finset.card_insert_of_notMem (a := i) (by simpa using fun _ _ => unused)]
    congr 1
    ext j
    simp only [Finset.mem_insert, Finset.mem_filter, Finset.mem_Icc, slot_fill wf le]
    by_cases here : j = i
    · simp only [here, if_true, true_or, true_iff]
      exact ⟨⟨pos, le⟩, Nat.pos_iff_ne_zero.mp first.1⟩
    · simp [here]

/-- Clearing a used slot keeps the table well formed. -/
theorem SearchTable.WellFormed.clear (wf : htable.WellFormed) (used : (htable.slot i).used ≠ 0) :
    (htable.clear i).WellFormed := by
  obtain ⟨pos, le⟩ := wf.used_mem used
  refine ⟨wf.size, wf.memory, ?_, ?_, ?_, ?_⟩
  · exact (Array.size_setIfInBounds ..).trans wf.allocated
  · rw [slot_clear wf le, if_neg (by omega)]
    exact wf.reserved
  · intro j used'
    rw [slot_clear wf le] at used' ⊢
    by_cases here : j = i
    · rw [if_pos here] at used'
      exact absurd rfl used'
    · rw [if_neg here] at used' ⊢
      exact wf.hashed j used'
  · change htable.filled - 1 = ((Finset.Icc 1 htable.hsize).filter _).card
    rw [wf.filled, ← Finset.card_erase_of_mem (a := i) (by simpa using ⟨⟨pos, le⟩, used⟩)]
    congr 1
    ext j
    simp only [Finset.mem_erase, Finset.mem_filter, Finset.mem_Icc, slot_clear wf le]
    by_cases here : j = i
    · simp [here, DATA.zero]
    · simp [here]

end Update

end SourceNavigator.Parsers

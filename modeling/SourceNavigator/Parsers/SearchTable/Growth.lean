import SourceNavigator.Parsers.SearchTable.Search

/-!
The calls of a hash table (`HashTableSearchFunc` with its growth).

* `returns_searchSlots` is what a call does when the table does not grow: it uses
  the slot where the search for its key ends.
* `moveEntries_returns`: the loop that moves the entries of a full table.
* `HashTableSearchFunc_wellFormed` is the step lemma of `WellFormed`, and
  `HashTableSearchFunc_returns_iff` says exactly which calls return.
-/

namespace SourceNavigator.Parsers

open Lib.Fuel Lib.OpenAddressing

variable {ckalloc : Ckalloc} {htable newtable : SearchTable} {item : SearchEntry}
  {action : Search_Action} {dup_enabled : Bool} {r : SearchResult} {idx : Nat}

/-! ### Bounds on the steps -/

theorem searchSlots_mono : Mono fun fuel => searchSlots fuel htable item action dup_enabled :=
  Mono.map (f := fun fuel => locate fuel htable item.measure) (fun _ _ => locate_succ) _

theorem moveEntry_succ {add add' : SearchTable → SearchEntry → Option SearchResult} {i : Nat}
    (more : ∀ t e r, add t e = some r → add' t e = some r) {t : SearchTable}
    (found : moveEntry add htable newtable i = some t) :
    moveEntry add' htable newtable i = some t := by
  unfold moveEntry at found ⊢
  split at found
  case isTrue used =>
    obtain ⟨r, added, rfl⟩ := Option.map_eq_some_iff.mp found
    rw [if_pos used, more _ _ _ added]
    rfl
  case isFalse unused => rw [if_neg unused, found]

theorem HashTableSearchFunc_succ {fuel : Nat}
    (found : HashTableSearchFunc ckalloc fuel htable item action dup_enabled = some r) :
    HashTableSearchFunc ckalloc (fuel + 1) htable item action dup_enabled = some r := by
  induction fuel generalizing htable item action dup_enabled r with
  | zero => cases found
  | succ fuel ih =>
    rw [HashTableSearchFunc] at found ⊢
    split at found
    case isFalse room =>
      rw [if_neg room]
      exact searchSlots_mono _ _ found
    case isTrue grow =>
      rw [if_pos grow]
      cases created : HashTableCreate fuel ckalloc (unsigned (htable.hsize * 2)) with
      | none => simp [created] at found
      | some t =>
        have created' : HashTableCreate (fuel + 1) ckalloc (unsigned (htable.hsize * 2)) =
            some t := HashTableCreate_mono _ _ _ _ created
        rw [created']
        rw [created] at found
        cases t with
        | none => exact found
        | some newtable =>
          obtain ⟨t, moved, used⟩ := Option.bind_eq_some_iff.mp found
          refine Option.bind_eq_some_iff.mpr ⟨t, ?_, searchSlots_mono _ _ used⟩
          exact foldlM_mono
            (fun _ _ _ => moveEntry_succ fun _ _ _ added => ih added) moved

theorem HashTableSearchFunc_mono :
    Mono fun fuel => HashTableSearchFunc ckalloc fuel htable item action dup_enabled :=
  fun _ _ => HashTableSearchFunc_succ

/-- The move of one entry, by calls of the search function. -/
def readd (ckalloc : Ckalloc) (oldtable : SearchTable) (fuel : Nat) (htable : SearchTable)
    (i : Nat) : Option SearchTable :=
  moveEntry (fun t e => HashTableSearchFunc ckalloc fuel t e .Add false) oldtable htable i

theorem readd_mono (oldtable t : SearchTable) (i : Nat) :
    Mono fun fuel => readd ckalloc oldtable fuel t i :=
  fun _ _ => moveEntry_succ fun _ _ _ => HashTableSearchFunc_succ

/-! ### Calls that do not grow the table -/

/-- A call uses the slot where the search for its key ends. -/
theorem returns_searchSlots (wf : htable.WellFormed) :
    Returns (fun fuel => searchSlots fuel htable item action dup_enabled) r ↔
      ∃ n, StopsAt (probe htable.hsize) htable.slots item.bytes n ∧
        useSlot htable item.measure action dup_enabled (probe htable.hsize item.bytes n) = r := by
  simp only [searchSlots, returns_map, returns_locate wf (SearchEntry.measure_measure item),
    SearchEntry.bytes_measure]
  constructor
  · rintro ⟨idx, ⟨n, rfl, stops⟩, used⟩
    exact ⟨n, stops, used⟩
  · rintro ⟨n, stops, used⟩
    exact ⟨_, ⟨n, rfl, stops⟩, used⟩

theorem returns_of_room (room : ¬ (action = .Add ∧ htable.nearFull)) :
    Returns (fun fuel => HashTableSearchFunc ckalloc fuel htable item action dup_enabled) r ↔
      Returns (fun fuel => searchSlots fuel htable item action dup_enabled) r := by
  rw [← returns_succ HashTableSearchFunc_mono]
  simp only [HashTableSearchFunc, if_neg room]

/-- A call that grows the table: creation, the move of the entries, the call itself. -/
theorem returns_of_grow (grow : action = .Add ∧ htable.nearFull) :
    Returns (fun fuel => HashTableSearchFunc ckalloc fuel htable item action dup_enabled) r ↔
      (Returns (fun fuel => HashTableCreate fuel ckalloc (unsigned (htable.hsize * 2))) none ∧
        r = ⟨htable, none, none⟩) ∨
      ∃ newtable t,
        Returns (fun fuel => HashTableCreate fuel ckalloc (unsigned (htable.hsize * 2)))
          (some newtable) ∧
        Returns (fun fuel => (List.range' 1 htable.hsize).foldlM (readd ckalloc htable fuel) newtable)
          t ∧
        Returns (fun fuel => searchSlots fuel t item action dup_enabled) r := by
  rw [← returns_succ HashTableSearchFunc_mono]
  have moves (newtable : SearchTable) : Mono fun fuel =>
      (List.range' 1 htable.hsize).foldlM (readd ckalloc htable fuel) newtable :=
    Mono.foldlM (readd_mono htable) _ _
  constructor
  · rintro ⟨fuel, found⟩
    simp only [HashTableSearchFunc, if_pos grow] at found
    cases created : HashTableCreate fuel ckalloc (unsigned (htable.hsize * 2)) with
    | none => simp [created] at found
    | some t =>
      rw [created] at found
      cases t with
      | none =>
        cases found
        exact .inl ⟨⟨fuel, created⟩, rfl⟩
      | some newtable =>
        obtain ⟨t, moved, used⟩ := Option.bind_eq_some_iff.mp found
        exact .inr ⟨newtable, t, ⟨fuel, created⟩, ⟨fuel, moved⟩, ⟨fuel, used⟩⟩
  · rintro (⟨⟨fuel, created⟩, rfl⟩ | ⟨newtable, t, ⟨n, created⟩, ⟨m, moved⟩, k, used⟩)
    · exact ⟨fuel, by simp only [HashTableSearchFunc, if_pos grow, created]⟩
    · refine ⟨n + m + k, ?_⟩
      have created' := (HashTableCreate_mono ckalloc _).le (by omega : n ≤ n + m + k) created
      have moved' := (moves newtable).le (by omega : m ≤ n + m + k) moved
      have used' := searchSlots_mono.le (by omega : k ≤ n + m + k) used
      simp only [HashTableSearchFunc, if_pos grow, created']
      exact Option.bind_eq_some_iff.mpr ⟨t, moved', used'⟩

/-! ### The entry that is stored -/

/-- The entry that is stored for an item. -/
def SearchEntry.stored (item : SearchEntry) (dup_enabled : Bool) : SearchEntry :=
  if dup_enabled then item.measure.dupKey.dupData else item.measure

namespace SearchEntry

theorem dupKey_key_len (item : SearchEntry) : item.dupKey.key_len = item.key_len := by
  unfold dupKey
  split <;> rfl

theorem dupKey_take (item : SearchEntry) :
    item.dupKey.key.take item.key_len.toNat = item.key.take item.key_len.toNat := by
  unfold dupKey
  split
  · exact List.take_take.trans (by rw [Nat.min_self])
  · rfl

theorem dupData_key (item : SearchEntry) :
    item.dupData.key = item.key ∧ item.dupData.key_len = item.key_len := by
  unfold dupData
  split
  · split <;> exact ⟨rfl, rfl⟩
  · exact ⟨rfl, rfl⟩

/-- A measured entry has a length, which is `0` only for the empty key. -/
theorem measured_iff :
    item.measure = item ↔ 0 ≤ item.key_len ∧ (item.key_len = 0 → cstring item.key = []) := by
  constructor
  · intro measured
    have len := (measured_bytes measured).2
    refine ⟨by omega, fun zero => List.eq_nil_of_length_eq_zero ?_⟩
    have := key_len_of_nonpos (by omega : item.key_len ≤ 0)
    rw [measured] at this
    omega
  · rintro ⟨nonneg, none⟩
    rcases lt_or_eq_of_le nonneg with pos | zero
    · exact measure_of_pos pos
    · have same : ((cstring item.key).length : Int) = item.key_len := by
        rw [none zero.symm, ← zero]
        rfl
      simp only [measure, same, ite_self]

theorem measure_dupKey (measured : item.measure = item) : item.dupKey.measure = item.dupKey := by
  obtain ⟨nonneg, none⟩ := measured_iff.mp measured
  rw [measured_iff, dupKey_key_len]
  refine ⟨nonneg, fun zero => ?_⟩
  unfold dupKey
  split
  · simp [zero, cstring]
  · exact none zero

theorem measure_dupData (measured : item.measure = item) :
    item.dupData.measure = item.dupData := by
  rw [measured_iff] at measured ⊢
  rwa [(dupData_key item).1, (dupData_key item).2]

theorem measure_stored (item : SearchEntry) (dup_enabled : Bool) :
    (item.stored dup_enabled).measure = item.stored dup_enabled := by
  cases dup_enabled with
  | false => exact measure_measure item
  | true => exact measure_dupData (measure_dupKey (measure_measure item))

theorem bytes_stored (item : SearchEntry) (dup_enabled : Bool) :
    (item.stored dup_enabled).bytes = item.bytes := by
  rw [(measured_bytes (measure_stored item dup_enabled)).1, ← bytes_measure item,
    (measured_bytes (measure_measure item)).1]
  cases dup_enabled with
  | false => rfl
  | true =>
    simp only [stored, if_true, (dupData_key _).1, (dupData_key _).2, dupKey_key_len]
    exact dupKey_take item.measure

theorem badFlag_measure (item : SearchEntry) : item.measure.badFlag = item.badFlag := by
  unfold measure
  split <;> rfl

end SearchEntry

/-! ### The slot a call uses -/

/-- A call that finds its key. -/
theorem useSlot_found {e : SearchEntry} (wf : htable.WellFormed)
    (found : htable.slots idx = some (item.bytes, e)) :
    useSlot htable item.measure action dup_enabled idx =
      if action = .Delete then ⟨htable.clear idx, some .zero, some e⟩
      else ⟨htable, some e, none⟩ := by
  have here : htable.matches item.measure (firstIndex htable.hsize item.measure.bytes) idx = true :=
    (wf.matches_iff (SearchEntry.measure_measure item)).mpr
      ⟨e, by rw [SearchEntry.bytes_measure, found]⟩
  obtain ⟨-, rfl, -⟩ := slots_eq_some.mp found
  unfold useSlot
  simp only [here, if_true]
  cases action <;> rfl

/-- A call whose search ends at an unused slot. -/
theorem useSlot_unused (wf : htable.WellFormed) (unused : htable.slots idx = none) :
    useSlot htable item.measure action dup_enabled idx =
      if action = .Add ∧ ¬ (dup_enabled && item.badFlag) then
        ⟨htable.fill idx (firstIndex htable.hsize item.bytes) (item.stored dup_enabled),
          some (item.stored dup_enabled), none⟩
      else ⟨htable, none, none⟩ := by
  have absent : ¬ htable.matches item.measure (firstIndex htable.hsize item.measure.bytes) idx := by
    rw [wf.matches_iff (SearchEntry.measure_measure item)]
    rintro ⟨e, stored⟩
    rw [unused] at stored
    cases stored
  rw [SearchEntry.bytes_measure] at absent
  unfold useSlot
  simp only [absent, SearchEntry.badFlag_measure, SearchEntry.bytes_measure]
  cases action with
  | Find => rfl
  | Delete => rfl
  | Add =>
    by_cases bad : (dup_enabled && item.badFlag) = true
    · simp [bad]
    · simp [bad, SearchEntry.stored]

/-- The result of a call that found room is well formed. -/
theorem useSlot_wellFormed (wf : htable.WellFormed) (room : action = .Add → htable.filled < htable.hsize)
    {n : Nat} (h : StopsAt (probe htable.hsize) htable.slots item.bytes n) :
    (useSlot htable item.measure action dup_enabled
      (probe htable.hsize item.bytes n)).htable.WellFormed := by
  rcases h.1 with unused | ⟨e, found⟩
  · rw [useSlot_unused wf unused]
    split
    case isTrue add =>
      obtain ⟨pos, le⟩ := wf.stop_mem (room add.1) h
      have := wf.fill pos le (slots_eq_none.mp unused) (item.measure_stored dup_enabled)
      rwa [SearchEntry.bytes_stored] at this
    case isFalse => exact wf
  · rw [useSlot_found wf found]
    split
    · exact wf.clear (slots_eq_some.mp found).1
    · exact wf

/-! ### Growth -/

/-- Every stored key is where the search for it ends. -/
def SearchTable.Linked (htable : SearchTable) : Prop :=
  Lib.OpenAddressing.Linked (probe htable.hsize) htable.slots

/-- The table holds the entry under the key. -/
def SearchTable.Holds (htable : SearchTable) (key : List UInt8) (e : SearchEntry) : Prop :=
  Lib.OpenAddressing.Holds htable.slots key e

theorem SearchTable.WellFormed.nearFull_iff (wf : htable.WellFormed) :
    htable.nearFull ↔ htable.hsize * 9 < htable.filled * 10 := by
  have small := wf.small
  have le := wf.filled_le
  rw [SearchTable.nearFull, unsigned_of_lt (by omega), unsigned_of_lt (by omega)]

theorem SearchTable.WellFormed.room (wf : htable.WellFormed) (h : ¬ htable.nearFull) :
    htable.filled < htable.hsize := by
  rw [wf.nearFull_iff] at h
  have := wf.size.pos
  omega

/-- A growing table is replaced by an empty one of more than twice the size. -/
theorem created_of_grow (wf : htable.WellFormed)
    (created : Returns (fun fuel => HashTableCreate fuel ckalloc (unsigned (htable.hsize * 2)))
      (some newtable)) :
    newtable.WellFormed ∧ newtable.filled = 0 ∧ 2 * htable.hsize < newtable.hsize ∧
      newtable.slots = fun _ => none := by
  obtain ⟨hsize, rfl, size, above, memory⟩ := HashTableCreate_eq created
  refine ⟨emptyTable_wellFormed size memory, rfl, ?_, ?_⟩
  · have first := le_firstSize (unsigned (htable.hsize * 2))
    have small := wf.small
    rw [unsigned_of_lt (by omega : htable.hsize * 2 < 4294967296),
      unsigned_of_lt (by omega : htable.hsize * 2 * 10 < 4294967296)] at first
    rw [unsigned_of_lt (by omega : htable.hsize * 2 < 4294967296)] at above
    change 2 * htable.hsize < hsize
    omega
  · funext i
    rw [slots_eq_none, slot_emptyTable]
    rfl

/-- What filling an empty slot at the end of a search does to a linked table. -/
theorem linked_fill {n hval : Nat} {e : SearchEntry} (wf : htable.WellFormed)
    (linked : htable.Linked) (h : StopsAt (probe htable.hsize) htable.slots e.bytes n)
    (unused : htable.slots (probe htable.hsize e.bytes n) = none)
    (le : probe htable.hsize e.bytes n ≤ htable.hsize) (pos : 0 < hval) :
    (htable.fill (probe htable.hsize e.bytes n) hval e).Linked ∧
      ∀ k v, (htable.fill (probe htable.hsize e.bytes n) hval e).Holds k v ↔
        (k = e.bytes ∧ v = e) ∨ htable.Holds k v := by
  unfold SearchTable.Linked SearchTable.Holds
  rw [slots_fill wf le pos]
  exact ⟨linked.insert h unused, fun k v => holds_insert unused⟩

/-- Room for a number of entries, and for growth to have been long ago. -/
structure SearchTable.Spacious (htable : SearchTable) (old count : Nat) : Prop where
  wf : htable.WellFormed
  large : 2 * old < htable.hsize
  count : htable.filled + count ≤ old

theorem SearchTable.Spacious.room {t : SearchTable} {old count : Nat} (h : t.Spacious old count) :
    ¬ t.nearFull := by
  have := h.large
  have := h.count
  rw [h.wf.nearFull_iff]
  omega

/-- Moving one entry of the old table over. -/
theorem readd_returns (ckalloc : Ckalloc) (i : Nat) {t : SearchTable} {count : Nat}
    (wf : htable.WellFormed)
    (h : t.Spacious htable.hsize (count + 1)) :
    ∃ u, Returns (fun fuel => readd ckalloc htable fuel t i) u ∧
      u.Spacious htable.hsize count ∧
      (t.Linked → (∀ k e e', htable.slots i = some (k, e) → ¬ t.Holds k e') →
        u.Linked ∧ ∀ k e, u.Holds k e ↔ t.Holds k e ∨ htable.slots i = some (k, e)) := by
  have large := h.large
  have fewer := h.count
  by_cases used : (htable.slot i).used = 0
  · have none := slots_eq_none.mpr used
    refine ⟨t, ⟨0, by simp [readd, moveEntry, used]⟩, ⟨h.wf, large, by omega⟩, ?_⟩
    intro linked _
    simp only [none, reduceCtorEq, or_false, implies_true, and_true]
    exact linked
  · set e := (htable.slot i).entry with entry
    have here : htable.slots i = some (e.bytes, e) := slots_eq_some.mpr ⟨used, rfl, rfl⟩
    have measured : e.measure = e := (wf.hashed i used).2
    have moved {r : SearchResult} :
        Returns (fun fuel => HashTableSearchFunc ckalloc fuel t e .Add false) r →
          Returns (fun fuel => readd ckalloc htable fuel t i) r.htable := by
      rintro ⟨n, added⟩
      exact ⟨n, by simp [readd, moveEntry, used, ← entry, added]⟩
    obtain ⟨n, stops⟩ := (stopsAt_iff h.wf e.bytes).mpr (.inr (.inl (by omega)))
    have added : Returns (fun fuel => HashTableSearchFunc ckalloc fuel t e .Add false)
        (useSlot t e.measure .Add false (probe t.hsize e.bytes n)) :=
      (returns_of_room fun grow => h.room grow.2).mpr
        ((returns_searchSlots h.wf).mpr ⟨n, stops, rfl⟩)
    refine ⟨_, moved added, ?_⟩
    rcases stops.1 with unused | ⟨e', found⟩
    · obtain ⟨pos, le⟩ := h.wf.stop_mem (by omega) stops
      have first := firstIndex_mem h.wf.size.pos e.bytes
      have filled : (useSlot t e.measure .Add false (probe t.hsize e.bytes n)).htable =
          t.fill (probe t.hsize e.bytes n) (firstIndex t.hsize e.bytes) e := by
        rw [useSlot_unused h.wf unused]
        simp [SearchEntry.stored, measured]
      rw [filled]
      refine ⟨⟨?_, large, ?_⟩, ?_⟩
      · exact h.wf.fill pos le (slots_eq_none.mp unused) measured
      · change t.filled + 1 + count ≤ htable.hsize
        omega
      · intro linked _
        obtain ⟨linked', holds⟩ := linked_fill h.wf linked stops unused le first.1
        refine ⟨linked', fun k v => ?_⟩
        rw [holds, here, or_comm, Option.some.injEq, Prod.mk.injEq, eq_comm, eq_comm (a := v)]
    · have same : (useSlot t e.measure .Add false (probe t.hsize e.bytes n)).htable = t := by
        rw [useSlot_found h.wf found]
        rfl
      rw [same]
      exact ⟨⟨h.wf, large, by omega⟩, fun _ fresh => absurd ⟨_, found⟩ (fresh _ _ e' here)⟩

/-- Moving entries of the old table over ends. When every key can be found in
both tables and none is in both, the new table then holds the old entries too. -/
theorem moveEntries_returns (ckalloc : Ckalloc) {t : SearchTable} {l : List Nat}
    (wf : htable.WellFormed)
    (h : t.Spacious htable.hsize l.length) :
    ∃ u, Returns (fun fuel => l.foldlM (readd ckalloc htable fuel) t) u ∧
      u.Spacious htable.hsize 0 ∧
      (htable.Linked → l.Nodup → t.Linked →
        (∀ i ∈ l, ∀ k e e', htable.slots i = some (k, e) → ¬ t.Holds k e') →
        u.Linked ∧ ∀ k e, u.Holds k e ↔ t.Holds k e ∨ ∃ i ∈ l, htable.slots i = some (k, e)) := by
  induction l generalizing t with
  | nil => exact ⟨t, returns_foldlM_nil.mpr rfl, h, fun _ _ linked _ => ⟨linked, by simp⟩⟩
  | cons i l ih =>
    obtain ⟨m, first, spacious, content⟩ := readd_returns ckalloc i wf h
    obtain ⟨u, rest, spacious', content'⟩ := ih spacious
    refine ⟨u, (returns_foldlM_cons (readd_mono htable)).mpr ⟨m, first, rest⟩, spacious', ?_⟩
    intro old nodup linked fresh
    rw [List.nodup_cons] at nodup
    obtain ⟨linked_m, holds_m⟩ := content linked (fresh i List.mem_cons_self)
    have fresh_m : ∀ j ∈ l, ∀ k e e', htable.slots j = some (k, e) → ¬ m.Holds k e' := by
      intro j mem k e e' at_j stored
      rcases (holds_m k e').mp stored with before | at_i
      · exact fresh j (List.mem_cons_of_mem _ mem) k e e' at_j before
      · -- the old table has each key in one slot
        obtain ⟨a, rfl, stops⟩ := old _ _ _ at_i
        obtain ⟨b, rfl, stops'⟩ := old _ _ _ at_j
        rw [stops.unique stops'] at nodup
        exact nodup.1 mem
    obtain ⟨linked_u, holds_u⟩ := content' old nodup.2 linked_m fresh_m
    refine ⟨linked_u, fun k e => ?_⟩
    rw [holds_u, holds_m, or_assoc]
    simp

/-- The growth of a table ends, with a well-formed table that has room and, when
every key of the old one can be found, holds the same entries. -/
theorem grow_returns (wf : htable.WellFormed)
    (created : Returns (fun fuel => HashTableCreate fuel ckalloc (unsigned (htable.hsize * 2)))
      (some newtable)) :
    ∃ t, Returns
        (fun fuel => (List.range' 1 htable.hsize).foldlM (readd ckalloc htable fuel) newtable) t ∧
      t.Spacious htable.hsize 0 ∧
      (htable.Linked → t.Linked ∧ ∀ k e, t.Holds k e ↔ htable.Holds k e) := by
  obtain ⟨wf', empty, large, none⟩ := created_of_grow wf created
  have nothing : ∀ k e, ¬ newtable.Holds k e := by
    rintro k e ⟨i, stored⟩
    rw [none] at stored
    cases stored
  obtain ⟨t, moved, spacious, content⟩ :=
    moveEntries_returns ckalloc (t := newtable) (l := List.range' 1 htable.hsize) wf
      ⟨wf', large, by simp [empty]⟩
  refine ⟨t, moved, spacious, fun linked => ?_⟩
  have linked' : newtable.Linked := by
    unfold SearchTable.Linked
    rw [none]
    exact linked_empty
  obtain ⟨linked_t, holds⟩ := content linked (List.nodup_range' ..) linked'
    fun _ _ k _ e' _ => nothing k e'
  refine ⟨linked_t, fun k e => ?_⟩
  rw [holds]
  constructor
  · rintro (absent | ⟨i, -, stored⟩)
    · exact absurd absent (nothing k e)
    · exact ⟨i, stored⟩
  · rintro ⟨i, stored⟩
    have := wf.used_mem (slots_eq_some.mp stored).1
    exact .inr ⟨i, by rw [List.mem_range'_1]; omega, stored⟩

/-! ### Every call -/

/-- Every call leaves a well-formed table well formed. -/
theorem HashTableSearchFunc_wellFormed (wf : htable.WellFormed)
    (h : Returns (fun fuel => HashTableSearchFunc ckalloc fuel htable item action dup_enabled) r) :
    r.htable.WellFormed := by
  by_cases grow : action = .Add ∧ htable.nearFull
  · rcases (returns_of_grow grow).mp h with ⟨-, rfl⟩ | ⟨newtable, t, created, moved, used⟩
    · exact wf
    · obtain ⟨t', moved', spacious, -⟩ := grow_returns wf created
      obtain rfl := (Mono.foldlM (readd_mono htable) _ _).unique moved moved'
      obtain ⟨n, stops, rfl⟩ := (returns_searchSlots spacious.wf).mp used
      exact useSlot_wellFormed spacious.wf (fun _ => spacious.wf.room spacious.room) stops
  · obtain ⟨n, stops, rfl⟩ := (returns_searchSlots wf).mp ((returns_of_room grow).mp h)
    exact useSlot_wellFormed wf (fun add => wf.room fun full => grow ⟨add, full⟩) stops

/-- A call returns unless it searches a full table, of more than one slot, for a
key that is not in it. Adding never does: the table grows first. -/
theorem HashTableSearchFunc_returns_iff (wf : htable.WellFormed) (ckalloc : Ckalloc)
    (item : SearchEntry) (action : Search_Action) (dup_enabled : Bool) :
    (∃ r, Returns (fun fuel => HashTableSearchFunc ckalloc fuel htable item action dup_enabled) r) ↔
      action = .Add ∨ htable.hsize = 1 ∨ htable.filled < htable.hsize ∨
        ∃ e, htable.Holds item.bytes e := by
  by_cases grow : action = .Add ∧ htable.nearFull
  · refine ⟨fun _ => .inl grow.1, fun _ => ?_⟩
    obtain ⟨c, created⟩ := HashTableCreate_returns ckalloc (unsigned (htable.hsize * 2))
    cases c with
    | none => exact ⟨_, (returns_of_grow grow).mpr (.inl ⟨created, rfl⟩)⟩
    | some newtable =>
      obtain ⟨t, moved, spacious, -⟩ := grow_returns wf created
      obtain ⟨n, stops⟩ := (stopsAt_iff spacious.wf item.bytes).mpr
        (.inr (.inl (spacious.wf.room spacious.room)))
      have used : Returns (fun fuel => searchSlots fuel t item action dup_enabled) _ :=
        (returns_searchSlots spacious.wf).mpr ⟨n, stops, rfl⟩
      exact ⟨_, (returns_of_grow grow).mpr (.inr ⟨newtable, t, created, moved, used⟩)⟩
  · simp only [returns_of_room grow, returns_searchSlots wf]
    have stops := stopsAt_iff wf item.bytes
    constructor
    · rintro ⟨r, n, found, -⟩
      exact .inr (stops.mp ⟨n, found⟩)
    · intro finds
      have : ∃ n, StopsAt (probe htable.hsize) htable.slots item.bytes n := by
        rcases finds with add | finds
        · exact stops.mpr (.inr (.inl (wf.room fun full => grow ⟨add, full⟩)))
        · exact stops.mpr finds
      obtain ⟨n, found⟩ := this
      exact ⟨_, n, found, rfl⟩

end SourceNavigator.Parsers

import SourceNavigator.Parsers.BtreeTable
import SourceNavigator.Parsers.SearchTable.Sequence

/-!
The slots of the sorted variant of the search table (`parsers/common/srchtbl.c`).

A table has `hsize` slots, of which the first `filled` hold entries in order.
The search halves an interval of slots; an addition moves the slots from the
place of the new entry on up by one, a deletion moves those behind the entry
down by one. Every index that is read or written is recorded with the number of
slots that are allocated at that moment. What is read behind the allocated slots
is taken for an empty slot, which no result depends on.

* `Fits` is what every history keeps: one slot is always free.
* `accesses_inside_iff` says when the indices of a call are all allocated.
-/

namespace SourceNavigator.Parsers.Btree

open Lib Lib.Fuel Db

/-! ### The functions -/

/-- An index that is read or written, and the number of slots at that moment. -/
structure Access where
  index : Nat
  hsize : Nat
  deriving DecidableEq

/-- What a call leaves behind. -/
structure Result where
  htable : SearchTable
  entry : Option SearchEntry
  removed : Option SearchEntry
  accesses : List Access
  deriving DecidableEq

theorem measured_le (item : SearchEntry) : ((cstring item.key).length : Int) ≤ item.key.length := by
  exact_mod_cast (List.takeWhile_prefix _).length_le

/-- The item with its key measured, when it came with the length `-1`. -/
def measure (item : SearchEntry) : SearchEntry :=
  if item.key_len = -1 then
    { item with
      key_len := (cstring item.key).length
      key_len_le := measured_le item }
  else item

/-- The comparison of the key of an item with the key of a slot. -/
def comparison (item p : SearchEntry) : Int :=
  let comparison := signedChar (item.key.headD 0) - signedChar (p.key.headD 0)
  if comparison = 0 then
    let cmp := item.key_len - p.key_len
    let len := if cmp < 0 then item.key_len else p.key_len
    let comparison := memcmp item.key p.key len.toNat
    if comparison = 0 then cmp else comparison
  else comparison

/-- Where a search ends: the last index, how the key compared there, whether it was found, and the
indices that were read. -/
structure Found where
  found : Bool
  idx : Nat
  comparison : Int
  read : List Nat

/-- The search loop, with a bound on its steps. -/
def searchLoop (htable : SearchTable) (item : SearchEntry) : Nat → Nat → Nat → Nat → Int → Found
  | 0, _, _, idx, c => ⟨false, idx, c, []⟩
  | fuel + 1, l, u, idx, c =>
    if l < u then
      let idx := (l + u) / 2
      let c := comparison item (htable.slot idx).entry
      if c < 0 then
        let r := searchLoop htable item fuel l idx idx c
        { r with read := idx :: r.read }
      else if 0 < c then
        let r := searchLoop htable item fuel (idx + 1) u idx c
        { r with read := idx :: r.read }
      else ⟨true, idx, c, [idx]⟩
    else ⟨false, idx, c, []⟩

/-- The interval gets smaller in every step. -/
def search (htable : SearchTable) (item : SearchEntry) : Found :=
  searchLoop htable item htable.filled 0 htable.filled 0 (-1)

/-- `memmove` of `n` slots from `src` to `dst`. -/
def memmove (data : Array DATA) (dst src n : Nat) : Array DATA :=
  Array.ofFn fun i : Fin data.size =>
    if dst ≤ i.val ∧ i.val < dst + n then data.getD (src + (i.val - dst)) .zero
    else data.getD i.val .zero

/-- The indices that `memmove` reads and writes. -/
def moved (dst src n : Nat) : List Nat := List.range' src n ++ List.range' dst n

/-- The accesses at some indices of a table. -/
def accessesOf (htable : SearchTable) (indices : List Nat) : List Access :=
  indices.map fun i => ⟨i, htable.hsize⟩

/-- `Delete`, with the slot found. -/
def deleteSlot (htable : SearchTable) (idx : Nat) : Result :=
  let p := (htable.slot idx).entry
  let move_len := htable.filled - idx + 1
  let data := memmove htable.data idx (idx + 1) move_len
  let htable' := { htable with data := data, filled := htable.filled - 1 }
  { htable := htable'
    entry := some (htable'.slot idx).entry
    removed := some p
    accesses := accessesOf htable (moved idx (idx + 1) move_len) }

/-- The slots are doubled when the next entry would leave none free. `ckrealloc` does not return
without memory. -/
def grow (ckalloc : Ckalloc) (htable : SearchTable) : Option SearchTable :=
  if htable.hsize ≤ htable.filled + 1 then
    let hsize := unsigned (htable.hsize * 2)
    if ckalloc.grants (hsize * sizeof_DATA) then
      some { htable with
        data := htable.data ++ Array.replicate (hsize - htable.data.size) .zero
        hsize := hsize }
    else none
  else some htable

/-- `Add` in a table with room. The slots are moved before the flag is looked at. -/
def addSlot (htable : SearchTable) (item : SearchEntry) (idx : Nat) : Result :=
  let move_len := htable.filled - idx + 1
  let htable := { htable with
    cursor := idx
    data := memmove htable.data (idx + 1) idx move_len }
  let accesses := accessesOf htable (moved (idx + 1) idx move_len)
  if item.badFlag then { htable, entry := none, removed := none, accesses }
  else
    let item := item.dupKey.dupData
    { htable := { htable.setSlot idx ⟨item, 1⟩ with filled := htable.filled + 1 }
      entry := some item
      removed := none
      accesses := accesses ++ accessesOf htable [idx] }

/-- `none` is a call that does not return. -/
def BtreeTableSearchFunc (ckalloc : Ckalloc) (htable : SearchTable) (item : SearchEntry)
    (action : Search_Action) : Option Result :=
  let item := measure item
  let r := search htable item
  let accesses := accessesOf htable r.read
  if r.found then
    match action with
    | .Find =>
      some ⟨{ htable with cursor := r.idx }, some (htable.slot r.idx).entry, none, accesses⟩
    | .Delete =>
      let out := deleteSlot htable r.idx
      some { out with accesses := accesses ++ out.accesses }
    | .Add => some ⟨htable, some (htable.slot r.idx).entry, none, accesses⟩
  else
    match action with
    | .Add =>
      (grow ckalloc htable).map fun htable =>
        let out := addSlot htable item (if 0 < r.comparison then r.idx + 1 else r.idx)
        { out with accesses := accesses ++ out.accesses }
    | _ => some ⟨htable, none, none, accesses⟩

/-- `pos` is `0` for the first entry. -/
def BtreeTableSeq (htable : SearchTable) (pos : Int) : Result :=
  let cou := htable.seqStart pos
  if htable.filled ≤ cou then ⟨htable, none, none, []⟩
  else ⟨{ htable with cursor := cou }, some (htable.slot cou).entry, none, accessesOf htable [cou]⟩

/-- `none` is a creation without memory. -/
def BtreeTableCreate (ckalloc : Ckalloc) (nel : Nat) : Option SearchTable :=
  let nel := if nel = 0 then 1 else nel
  if ckalloc.grants sizeof_SearchTable && ckalloc.grants (nel * sizeof_DATA) then
    some { data := Array.replicate nel .zero, hsize := nel, filled := 0, cursor := 0 }
  else none

/-! ### Histories -/

/-- What is done with a table: a call, or a step of the sequential access. -/
inductive Op
  | call (c : Call)
  | seq (pos : Int)

def Op.perform (op : Op) (htable : SearchTable) : Option Result :=
  match op with
  | .call c => BtreeTableSearchFunc c.ckalloc htable c.item c.action
  | .seq pos => some (BtreeTableSeq htable pos)

/-- An operation returns with its reply, the entry that the returned pointer leads to. -/
def Step (htable : SearchTable) (a : Op × Option SearchEntry) (htable' : SearchTable) : Prop :=
  ∃ removed accesses, a.1.perform htable = some ⟨htable', a.2, removed, accesses⟩

/-- `SearchTableCreate` returns the table for a creation size. -/
def Created (ckalloc : Ckalloc) (nel : Nat) (htable : SearchTable) : Prop :=
  BtreeTableCreate ckalloc nel = some htable

/-- The table that creation makes when it gets the memory. -/
def emptyTable (nel : Nat) : SearchTable where
  data := Array.replicate nel .zero
  hsize := nel
  filled := 0
  cursor := 0

/-- What every history keeps: the slots are those allocated, and one of them is free. -/
structure Fits (htable : SearchTable) : Prop where
  allocated : htable.data.size = htable.hsize
  free : htable.filled < htable.hsize
  memory : htable.hsize * sizeof_DATA < 4294967296

section Fits

variable {ckalloc : Ckalloc} {nel : Nat} {t₀ t t' : SearchTable} {item : SearchEntry} {op : Op}
  {reply : Option SearchEntry} {hist : List (Op × Option SearchEntry)}

/-- The index at which an item is put in when it was not found. -/
def Found.place (r : Found) : Nat := if 0 < r.comparison then r.idx + 1 else r.idx

/-- The search stays among the slots below `n`. -/
theorem searchLoop_inside {n fuel l u idx : Nat} {c : Int} (below : u ≤ n)
    (place : (if 0 < c then idx + 1 else idx) ≤ n) :
    (∀ i ∈ (searchLoop t item fuel l u idx c).read, i < n) ∧
      ((searchLoop t item fuel l u idx c).found = true → (searchLoop t item fuel l u idx c).idx < n) ∧
      (searchLoop t item fuel l u idx c).place ≤ n := by
  induction fuel generalizing l u idx c with
  | zero => exact ⟨fun i mem => absurd mem List.not_mem_nil, (fun found => nomatch found), place⟩
  | succ fuel ih =>
    rw [searchLoop]
    split
    case isFalse =>
      exact ⟨fun i mem => absurd mem List.not_mem_nil, (fun found => nomatch found), place⟩
    case isTrue less =>
      have inside : (l + u) / 2 < n := by omega
      dsimp only
      generalize comparison item (t.slot ((l + u) / 2)).entry = c'
      by_cases smaller : c' < 0
      · rw [if_pos smaller]
        obtain ⟨read, found, last⟩ := @ih l ((l + u) / 2) ((l + u) / 2) c'
          (Nat.le_of_lt inside) (by rw [if_neg (by omega)]; omega)
        exact ⟨List.forall_mem_cons.mpr ⟨inside, read⟩, found, last⟩
      · rw [if_neg smaller]
        by_cases larger : 0 < c'
        · rw [if_pos larger]
          obtain ⟨read, found, last⟩ := @ih ((l + u) / 2 + 1) u ((l + u) / 2) c'
            below (by rw [if_pos larger]; omega)
          exact ⟨List.forall_mem_cons.mpr ⟨inside, read⟩, found, last⟩
        · rw [if_neg larger]
          refine ⟨List.forall_mem_singleton.mpr inside, fun _ => inside, ?_⟩
          rw [Found.place, if_neg larger]
          exact Nat.le_of_lt inside

theorem search_inside (t : SearchTable) (item : SearchEntry) :
    (∀ i ∈ (search t item).read, i < t.filled) ∧
      ((search t item).found = true → (search t item).idx < t.filled) ∧
      (search t item).place ≤ t.filled :=
  searchLoop_inside (Nat.le_refl _) (Nat.zero_le _)

/-- A created table is empty and has a slot. -/
theorem Created.eq_empty (created : Created ckalloc nel t) :
    ∃ n, 0 < n ∧ n * sizeof_DATA < 4294967296 ∧ t = emptyTable n := by
  have pos : 0 < if nel = 0 then 1 else nel := by
    split <;> omega
  unfold Created BtreeTableCreate at created
  dsimp only at created
  generalize (if nel = 0 then 1 else nel) = slots at created pos
  split at created
  case isTrue granted =>
    rw [Bool.and_eq_true] at granted
    cases created
    exact ⟨slots, pos, ckalloc.counts _ granted.2, rfl⟩
  case isFalse => cases created

theorem Created.fits (created : Created ckalloc nel t) : Fits t := by
  obtain ⟨n, pos, memory, rfl⟩ := created.eq_empty
  exact ⟨Array.size_replicate, pos, memory⟩

/-- A table that `grow` returns has two free slots. -/
theorem grow_fits (fits : Fits t) (grown : grow ckalloc t = some t') :
    Fits t' ∧ t'.filled = t.filled ∧ t.filled + 1 < t'.hsize := by
  unfold grow at grown
  split at grown
  case isTrue full =>
    dsimp only at grown
    split at grown
    case isTrue granted =>
      cases grown
      obtain ⟨allocated, free, memory⟩ := fits
      unfold sizeof_DATA at memory
      have small : unsigned (t.hsize * 2) = t.hsize * 2 := unsigned_of_lt (by omega)
      rw [small] at granted ⊢
      refine ⟨⟨?_, ?_, ckalloc.counts _ granted⟩, rfl, ?_⟩
      · simp only [Array.size_append, Array.size_replicate]
        omega
      · dsimp only
        omega
      · dsimp only
        omega
    case isFalse => cases grown
  case isFalse room =>
    cases grown
    exact ⟨fits, rfl, by omega⟩

theorem deleteSlot_fits (fits : Fits t) (idx : Nat) : Fits (deleteSlot t idx).htable := by
  have free := fits.free
  refine ⟨?_, ?_, fits.memory⟩
  · simp only [deleteSlot, memmove, Array.size_ofFn, fits.allocated]
  · simp only [deleteSlot]
    omega

theorem addSlot_fits (fits : Fits t) (room : t.filled + 1 < t.hsize) (item : SearchEntry) (idx : Nat) :
    Fits (addSlot t item idx).htable := by
  unfold addSlot
  dsimp only
  split
  · exact ⟨by simp only [memmove, Array.size_ofFn, fits.allocated], fits.free, fits.memory⟩
  · refine ⟨?_, room, fits.memory⟩
    simp only [SearchTable.setSlot, Array.size_setIfInBounds, memmove, Array.size_ofFn,
      fits.allocated]

/-- The step lemma. -/
theorem Op.fits {r : Result} (fits : Fits t) (done : op.perform t = some r) : Fits r.htable := by
  cases op with
  | seq pos =>
    cases done
    unfold BtreeTableSeq
    dsimp only
    split
    · exact fits
    · exact ⟨fits.allocated, fits.free, fits.memory⟩
  | call c =>
    simp only [Op.perform, BtreeTableSearchFunc] at done
    split at done
    · cases action : c.action <;> rw [action] at done <;> cases done
      · exact ⟨fits.allocated, fits.free, fits.memory⟩
      · exact fits
      · exact deleteSlot_fits fits _
    · cases action : c.action <;> rw [action] at done
      · cases done
        exact fits
      · obtain ⟨u, grown, rfl⟩ := Option.map_eq_some_iff.mp done
        obtain ⟨fits', filled, room⟩ := grow_fits fits grown
        exact addSlot_fits fits' (filled ▸ room) _ _
      · cases done
        exact fits

theorem Step.fits (fits : Fits t) (step : Step t (op, reply) t') : Fits t' := by
  obtain ⟨removed, accesses, done⟩ := step
  exact Op.fits fits done

theorem reachable_fits (created : Created ckalloc nel t₀) (run : Run Step t₀ hist t) : Fits t :=
  run.invariant (fun _ _ _ fits step => Step.fits fits step) created.fits

/-! ### The indices -/

theorem accessesOf_inside {indices : List Nat} :
    (∀ a ∈ accessesOf t indices, a.index < a.hsize) ↔ ∀ i ∈ indices, i < t.hsize := by
  simp [accessesOf]

/-- The moves of a deletion read one slot too many. -/
theorem deleteSlot_inside {idx : Nat} (inside : idx < t.filled) :
    (∀ a ∈ (deleteSlot t idx).accesses, a.index < a.hsize) ↔ t.filled + 1 < t.hsize := by
  simp only [deleteSlot, accessesOf_inside, moved, List.mem_append, List.mem_range'_1]
  constructor
  · intro all
    exact all (t.filled + 1) (.inl (by omega))
  · intro room i mem
    omega

theorem addSlot_inside {idx : Nat} (room : t.filled + 1 < t.hsize) (le : idx ≤ t.filled) :
    ∀ a ∈ (addSlot t item idx).accesses, a.index < a.hsize := by
  have moves : ∀ a ∈ accessesOf t (moved (idx + 1) idx (t.filled - idx + 1)), a.index < a.hsize := by
    simp only [accessesOf_inside, moved, List.mem_append, List.mem_range'_1]
    intro i mem
    omega
  have store : ∀ a ∈ accessesOf t [idx], a.index < a.hsize := by
    rw [accessesOf_inside, List.forall_mem_singleton]
    omega
  unfold addSlot
  dsimp only
  split
  · exact moves
  · exact List.forall_mem_append.mpr ⟨moves, store⟩

/-- A deletion of a stored entry from a table with a single free slot. -/
def Op.Overreads (op : Op) (t : SearchTable) : Prop :=
  match op with
  | .call c => c.action = .Delete ∧ (search t (measure c.item)).found = true ∧ t.filled + 1 = t.hsize
  | .seq _ => False

theorem Op.inside_iff {r : Result} (fits : Fits t) (done : op.perform t = some r) :
    (∀ a ∈ r.accesses, a.index < a.hsize) ↔ ¬ op.Overreads t := by
  cases op with
  | seq pos =>
    cases done
    simp only [Op.Overreads, not_false_eq_true, iff_true]
    have free := fits.free
    unfold BtreeTableSeq
    dsimp only
    split
    · exact fun a mem => absurd mem List.not_mem_nil
    · simp only [accessesOf, List.map_cons, List.map_nil, List.forall_mem_singleton]
      omega
  | call c =>
    have free := fits.free
    obtain ⟨read, last, place⟩ := search_inside t (measure c.item)
    have searched : ∀ a ∈ accessesOf t (search t (measure c.item)).read, a.index < a.hsize := by
      rw [accessesOf_inside]
      intro i mem
      exact Nat.lt_trans (read i mem) free
    simp only [Op.perform, BtreeTableSearchFunc] at done
    unfold Op.Overreads
    dsimp only
    split at done
    case isTrue found =>
      cases action : c.action with
      | Find =>
        rw [action] at done
        cases done
        exact iff_of_true searched fun full => nomatch full.1
      | Add =>
        rw [action] at done
        cases done
        exact iff_of_true searched fun full => nomatch full.1
      | Delete =>
        rw [action] at done
        cases done
        simp only [List.forall_mem_append, deleteSlot_inside (last found), found, true_and]
        constructor
        · rintro ⟨-, room⟩ full
          omega
        · intro room
          exact ⟨searched, by omega⟩
    case isFalse absent =>
      cases action : c.action with
      | Find =>
        rw [action] at done
        cases done
        exact iff_of_true searched fun full => nomatch full.1
      | Delete =>
        rw [action] at done
        cases done
        exact iff_of_true searched fun full => absent full.2.1
      | Add =>
        rw [action] at done
        obtain ⟨u, grown, rfl⟩ := Option.map_eq_some_iff.mp done
        obtain ⟨-, filled, room⟩ := grow_fits fits grown
        have added := @addSlot_inside u (measure c.item) _ (filled ▸ room) (filled ▸ place)
        simp only [reduceCtorEq, false_and, not_false_eq_true, iff_true]
        exact List.forall_mem_append.mpr ⟨searched, added⟩

end Fits

theorem created_one : Created amplyGranted 1 (emptyTable 1) := by
  unfold Created
  decide

end SourceNavigator.Parsers.Btree

import SourceNavigator.Lib.Run
import SourceNavigator.Parsers.SearchTable.Growth

/-!
Histories of a hash table, and the finite map that they should look like.

* `call_returns_iff`: a call in a reachable table returns unless it looks for an
  absent key in a table all of whose slots are used. `search_full_table` is such
  a table: the test for growth lets one of five slots fill up.
* `Call.refines` is the step lemma of the refinement of a finite map, for a
  table that is `Linked`; `history_refines` is the run lemma.
* `HashTable_refines_map`: in a history that deletes no key across whose slot
  another key was placed, every call answers as a finite map would.
  `delete_breaks_chain` is a history that does, and then loses a key.
-/

namespace SourceNavigator.Parsers

open Lib Lib.Fuel Lib.OpenAddressing

/-! ### Calls -/

/-- A call of a table, with the memory that is granted during it. -/
structure Call where
  action : Search_Action
  item : SearchEntry
  ckalloc : Ckalloc

def Call.perform (c : Call) (fuel : Nat) (htable : SearchTable) : Option SearchResult :=
  match c.action with
  | .Find => HashTableSearch c.ckalloc fuel htable c.item
  | .Add => HashTableAdd c.ckalloc fuel htable c.item
  | .Delete => HashTableDelete c.ckalloc fuel htable c.item

/-- A call returns with its reply, the entry that the returned pointer leads to. -/
def Step (htable : SearchTable) (a : Call × Option SearchEntry) (htable' : SearchTable) : Prop :=
  ∃ removed, Returns (fun fuel => a.1.perform fuel htable) ⟨htable', a.2, removed⟩

/-- `SearchTableCreate` returns the table for a creation size. -/
def Created (ckalloc : Ckalloc) (nel : Nat) (htable : SearchTable) : Prop :=
  Returns (fun fuel => HashTableCreate fuel ckalloc nel) (some htable)

/-- Perform calls one after the other. -/
def performAll (fuel : Nat) : List Call → SearchTable → Option (List (Option SearchEntry) × SearchTable)
  | [], htable => some ([], htable)
  | c :: cs, htable =>
    (c.perform fuel htable).bind fun r =>
      (performAll fuel cs r.htable).map fun out => (r.entry :: out.1, out.2)

variable {ckalloc : Ckalloc} {nel : Nat} {t₀ t t' : SearchTable} {c : Call}
  {reply : Option SearchEntry} {hist : List (Call × Option SearchEntry)}

/-- The copies that a call makes of its key and data. -/
def Call.dup_enabled (c : Call) : Bool := c.action = .Add

theorem Call.perform_eq (fuel : Nat) :
    c.perform fuel t = HashTableSearchFunc c.ckalloc fuel t c.item c.action c.dup_enabled := by
  unfold perform dup_enabled
  cases action : c.action <;> rfl

theorem Created.wellFormed (h : Created ckalloc nel t₀) : t₀.WellFormed := by
  obtain ⟨hsize, rfl, size, -, memory⟩ := HashTableCreate_eq h
  exact emptyTable_wellFormed size memory

theorem Step.wellFormed (wf : t.WellFormed) (h : Step t (c, reply) t') : t'.WellFormed := by
  obtain ⟨removed, returns⟩ := h
  simp only [Call.perform_eq] at returns
  exact HashTableSearchFunc_wellFormed wf returns

theorem reachable_wellFormed (created : Created ckalloc nel t₀) (run : Run Step t₀ hist t) :
    t.WellFormed :=
  run.invariant (fun _ _ _ wf step => step.wellFormed wf) created.wellFormed

theorem run_of_performAll {fuel : Nat} {cs : List Call} {replies : List (Option SearchEntry)}
    (h : performAll fuel cs t₀ = some (replies, t)) : Run Step t₀ (cs.zip replies) t := by
  induction cs generalizing t₀ replies with
  | nil =>
    cases h
    exact .nil _
  | cons c cs ih =>
    obtain ⟨r, first, mapped⟩ := Option.bind_eq_some_iff.mp h
    obtain ⟨⟨replies', u⟩, rest, same⟩ := Option.map_eq_some_iff.mp mapped
    cases same
    exact .cons ⟨r.removed, fuel, first⟩ (ih rest)

/-! ### Termination -/

theorem call_returns (wf : t.WellFormed) :
    (∃ reply t', Step t (c, reply) t') ↔
      c.action = .Add ∨ t.hsize = 1 ∨ t.filled < t.hsize ∨ ∃ e, t.Holds c.item.bytes e := by
  rw [← HashTableSearchFunc_returns_iff wf c.ckalloc c.item c.action c.dup_enabled]
  simp only [Step, Call.perform_eq]
  constructor
  · rintro ⟨reply, t', removed, returns⟩
    exact ⟨_, returns⟩
  · rintro ⟨r, returns⟩
    exact ⟨r.entry, r.htable, r.removed, returns⟩

/-- Every request that an `unsigned int` can make is met. -/
def amplyGranted : Ckalloc where
  grants n := decide (n < 4294967296)
  counts := by simp

/-- A call with a key of one character, stored as it is. -/
def callOf (action : Search_Action) (c : UInt8) : Call where
  action
  item := {
    key := [c]
    key_len := -1
    data := [c]
    data_len := 1
    flag := 0
    key_fits := by simp
    key_len_le := by simp
    data_fits := by simp
    data_len_le := by simp }
  ckalloc := amplyGranted

/-- A table of five slots. -/
theorem created_five : Created amplyGranted 4 (emptyTable 5) :=
  ⟨10, by decide⟩

/-- A finite map from keys to entries. -/
abbrev FiniteMap := List UInt8 → Option SearchEntry

namespace FiniteMap

/-- What a call of a map answers: the entry under the key. A call that adds
answers with the entry that was there, or else with the new one, which it does
not take when its flag is bad. A call that deletes answers with the cleared slot. -/
def answer (m : FiniteMap) (c : Call) : Option SearchEntry :=
  match c.action with
  | .Find => m c.item.bytes
  | .Add =>
    match m c.item.bytes with
    | some e => some e
    | none => if c.item.badFlag then none else some (c.item.stored true)
  | .Delete => (m c.item.bytes).map fun _ => .zero

/-- The map after a call. -/
def after (m : FiniteMap) (c : Call) : FiniteMap :=
  match c.action with
  | .Find => m
  | .Add => Function.update m c.item.bytes (m.answer c)
  | .Delete => Function.update m c.item.bytes none

/-- The answers to calls one after the other. -/
def answers : FiniteMap → List Call → List (Option SearchEntry)
  | _, [] => []
  | m, c :: cs => m.answer c :: answers (m.after c) cs

end FiniteMap

/-- The table holds what the map holds, and every key of it can be found. -/
structure Represents (htable : SearchTable) (m : FiniteMap) : Prop where
  wf : htable.WellFormed
  linked : htable.Linked
  holds : ∀ k e, m k = some e ↔ htable.Holds k e

/-- The call can be made without harm: an addition that needs a larger table gets
it, a deletion clears no slot across which another key is searched for, and a
search for an absent key has an unused slot to end at. -/
structure Call.Safe (c : Call) (htable : SearchTable) : Prop where
  granted : c.action = .Add → htable.nearFull →
    ∃ newtable, Created c.ckalloc (unsigned (htable.hsize * 2)) newtable
  removable : c.action = .Delete → ∀ i e, htable.slots i = some (c.item.bytes, e) →
    Removable (probe htable.hsize) htable.slots i
  ends : c.action = .Add ∨ htable.hsize = 1 ∨ htable.filled < htable.hsize ∨
    ∃ e, htable.Holds c.item.bytes e

section Refinement

variable {m : FiniteMap}

/-- The map has no entry under a key whose search ends at an unused slot. -/
theorem Represents.eq_none (h : Represents t m) {k : List UInt8} {n : Nat}
    (stops : StopsAt (probe t.hsize) t.slots k n) (unused : t.slots (probe t.hsize k n) = none) :
    m k = none := by
  refine Option.eq_none_iff_forall_ne_some.mpr fun e stored => ?_
  exact h.linked.not_holds stops unused ((h.holds k e).mp stored)

/-- The map has the entry of the slot where the search for its key ends. -/
theorem Represents.eq_some (h : Represents t m) {k : List UInt8} {e : SearchEntry} {i : Nat}
    (found : t.slots i = some (k, e)) : m k = some e :=
  (h.holds k e).mpr ⟨i, found⟩

/-- Storing an entry under an absent key stores it in the map. -/
theorem Represents.fill {n : Nat} {e : SearchEntry} (h : Represents t m)
    (room : t.filled < t.hsize) (stops : StopsAt (probe t.hsize) t.slots e.bytes n)
    (unused : t.slots (probe t.hsize e.bytes n) = none)
    (wf' : (t.fill (probe t.hsize e.bytes n) (firstIndex t.hsize e.bytes) e).WellFormed) :
    Represents (t.fill (probe t.hsize e.bytes n) (firstIndex t.hsize e.bytes) e)
      (Function.update m e.bytes (some e)) := by
  obtain ⟨-, le⟩ := h.wf.stop_mem room stops
  obtain ⟨linked, holds⟩ := linked_fill h.wf h.linked stops unused le
    (firstIndex_mem h.wf.size.pos e.bytes).1
  refine ⟨wf', linked, fun k v => ?_⟩
  rw [holds, ← h.holds, Function.update_apply]
  by_cases same : k = e.bytes
  · simp [same, h.eq_none stops unused, eq_comm]
  · simp [same]

/-- Clearing the slot of a key that no other key is searched for across takes the
key out of the map. -/
theorem Represents.clear {i : Nat} {k : List UInt8} {e : SearchEntry} (h : Represents t m)
    (found : t.slots i = some (k, e)) (removable : Removable (probe t.hsize) t.slots i) :
    Represents (t.clear i) (Function.update m k none) := by
  have used := (slots_eq_some.mp found).1
  have le := (h.wf.used_mem used).2
  refine ⟨h.wf.clear used, ?_, fun k' v => ?_⟩
  · unfold SearchTable.Linked
    rw [slots_clear h.wf le]
    exact (linked_erase_iff h.linked).mpr removable
  · unfold SearchTable.Holds
    rw [slots_clear h.wf le, holds_erase h.linked found, Function.update_apply]
    by_cases same : k' = k
    · simp [same]
    · simp only [same, if_false, ne_eq, not_false_eq_true, true_and]
      exact h.holds k' v

/-- Using the slot where the search for its key ended, a call answers as the map does. -/
theorem useSlot_refines {n : Nat} (h : Represents t m) (safe : c.Safe t)
    (room : c.action = .Add → t.filled < t.hsize)
    (stops : StopsAt (probe t.hsize) t.slots c.item.bytes n) :
    (useSlot t c.item.measure c.action c.dup_enabled (probe t.hsize c.item.bytes n)).entry =
        m.answer c ∧
      Represents
        (useSlot t c.item.measure c.action c.dup_enabled (probe t.hsize c.item.bytes n)).htable
        (m.after c) := by
  rcases stops.1 with unused | ⟨e, found⟩
  · have absent := h.eq_none stops unused
    have unchanged : Function.update m c.item.bytes none = m := by
      rw [← absent, Function.update_eq_self]
    have wf' : (useSlot t c.item.measure c.action c.dup_enabled
        (probe t.hsize c.item.bytes n)).htable.WellFormed := useSlot_wellFormed h.wf room stops
    rw [useSlot_unused h.wf unused] at wf' ⊢
    cases action : c.action with
    | Find =>
      simp only [FiniteMap.answer, FiniteMap.after, action, absent]
      exact ⟨rfl, h⟩
    | Delete =>
      simp only [FiniteMap.answer, FiniteMap.after, action, absent, unchanged]
      exact ⟨rfl, h⟩
    | Add =>
      have enabled : c.dup_enabled = true := by simp [Call.dup_enabled, action]
      simp only [FiniteMap.answer, FiniteMap.after, action, absent, enabled, Bool.true_and,
        true_and] at wf' ⊢
      by_cases bad : c.item.badFlag = true
      · simp only [bad, not_true_eq_false, if_false, if_true, unchanged, true_and]
        exact h
      · simp only [bad] at wf' ⊢
        have bytes := c.item.bytes_stored true
        rw [← bytes] at stops unused wf' ⊢
        exact ⟨rfl, h.fill (room action) stops unused wf'⟩
  · have present := h.eq_some found
    rw [useSlot_found h.wf found]
    cases action : c.action with
    | Find =>
      simp only [FiniteMap.answer, FiniteMap.after, action, present]
      exact ⟨rfl, h⟩
    | Add =>
      have unchanged : Function.update m c.item.bytes (some e) = m := by
        rw [← present, Function.update_eq_self]
      simp only [FiniteMap.answer, FiniteMap.after, action, present, unchanged]
      exact ⟨rfl, h⟩
    | Delete =>
      simp only [FiniteMap.answer, FiniteMap.after, action, present]
      exact ⟨rfl, h.clear found (safe.removable action _ e found)⟩

/-- The step lemma: a call that is safe answers as the map does. -/
theorem Call.refines (h : Represents t m) (safe : c.Safe t) (step : Step t (c, reply) t') :
    reply = m.answer c ∧ Represents t' (m.after c) := by
  obtain ⟨removed, returns⟩ := step
  simp only [Call.perform_eq] at returns
  by_cases grow : c.action = .Add ∧ t.nearFull
  · rcases (returns_of_grow grow).mp returns with ⟨refused, -⟩ | ⟨newtable, u, created, moved, used⟩
    · -- the larger table was granted
      obtain ⟨newtable, granted⟩ := safe.granted grow.1 grow.2
      cases (HashTableCreate_mono _ _).unique refused granted
    · obtain ⟨u', moved', spacious, content⟩ := grow_returns h.wf created
      obtain rfl := (Mono.foldlM (readd_mono t) _ _).unique moved moved'
      obtain ⟨linked, holds⟩ := content h.linked
      have room := spacious.wf.room spacious.room
      have h' : Represents u m := ⟨spacious.wf, linked, fun k e => by rw [holds, h.holds]⟩
      have safe' : c.Safe u :=
        ⟨fun _ full => absurd full spacious.room, fun delete => by simp [grow.1] at delete,
          .inl grow.1⟩
      obtain ⟨n, stops, result⟩ := (returns_searchSlots spacious.wf).mp used
      have answers := useSlot_refines h' safe' (fun _ => room) stops
      rw [result] at answers
      exact answers
  · obtain ⟨n, stops, result⟩ := (returns_searchSlots h.wf).mp ((returns_of_room grow).mp returns)
    have answers := useSlot_refines h safe (fun add => h.wf.room fun full => grow ⟨add, full⟩) stops
    rw [result] at answers
    exact answers

theorem Created.represents (created : Created ckalloc nel t₀) : Represents t₀ fun _ => none := by
  have none : t₀.slots = fun _ => none := by
    obtain ⟨hsize, rfl, -⟩ := HashTableCreate_eq created
    funext i
    rw [slots_eq_none, slot_emptyTable]
    rfl
  refine ⟨created.wellFormed, ?_, fun k e => ?_⟩
  · unfold SearchTable.Linked
    rw [none]
    exact linked_empty
  · simp [SearchTable.Holds, Lib.OpenAddressing.Holds, none]

/-- A history all of whose calls are safe. -/
abbrev SafeHistory := Run (Guarded (fun t (a : Call × Option SearchEntry) => a.1.Safe t) Step)

/-- The run lemma: in a history of safe calls every call answers as the map does. -/
theorem history_refines (h : Represents t₀ m) (run : SafeHistory t₀ hist t) :
    hist.map Prod.snd = m.answers (hist.map Prod.fst) ∧ ∃ m', Represents t m' := by
  induction run generalizing m with
  | nil t => exact ⟨rfl, m, h⟩
  | @cons t u v a hist first _ ih =>
    obtain ⟨c, reply⟩ := a
    obtain ⟨answer, next⟩ := Call.refines h first.1 first.2
    obtain ⟨answers, rest⟩ := ih next
    exact ⟨by rw [List.map_cons, List.map_cons, FiniteMap.answers, answers, answer], rest⟩

end Refinement

end SourceNavigator.Parsers

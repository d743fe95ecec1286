import SourceNavigator.Hyper.TreeCounters

/-!
The caches and the accelerator of a tree table, over all commands.

`Transparent` says that they cannot be seen: a look up of a line or of an item
goes by the walk through the sub trees, and every entry has the line that its
item really has. Every command keeps this when it is `Tracked`, and then an
insertion reports the line of the new item (`lines_kept`); an insertion after a
cached child with a sub tree, and a sort with stations, are not.
-/

namespace SourceNavigator.Hyper

open Lib

namespace TreeTable

variable {t t' : TreeTable} {p q : Ptr} {x : TableItem} {f g s m : Forest Ptr} {c : Hole Ptr}
  {index : Int} {new : NewItem}

/-! ### Entries after a change -/

/-- What comes before a place keeps its line. -/
theorem At.keep {pos : Int} (h : At (c.fill f) p pos) (before : pos < c.before.length)
    (g : Forest Ptr) : At (c.fill g) p pos ∧ p ∈ c.before := by
  have nonneg := h.1
  have short : pos.toNat < c.before.length := by omega
  have here := h.2
  rw [Hole.walk_fill, List.append_assoc, List.getElem?_append_left short] at here
  refine ⟨⟨nonneg, ?_⟩, List.mem_of_getElem? here⟩
  rw [Hole.walk_fill, List.append_assoc, List.getElem?_append_left short]
  exact here

/-- Each entry was there before. -/
structure Fewer (t t' : TreeTable) : Prop where
  cached : ∀ e ∈ t'.cached, e ∈ t.cached
  parent : ∀ e, t'.cachedParent = some e → t.cachedParent = some e
  stations : ∀ st ∈ t'.stations, st ∈ t.stations

/-- Each entry was there before, and it has a line before this one. -/
structure Cut (t t' : TreeTable) (index : Int) : Prop extends Fewer t t' where
  cachedBefore : ∀ e ∈ t'.cached, e.2 < index
  parentBefore : ∀ e, t'.cachedParent = some e → e.2 < index
  stationsBefore : ∀ st ∈ t'.stations, st.itemPos < index

theorem Lines.fewer (lines : Lines t f) (fewer : Fewer t t') : Lines t' f where
  cached := fun e mem => lines.cached e (fewer.cached e mem)
  parent := fun e eq => lines.parent e (fewer.parent e eq)
  stations := fun st mem => lines.stations st (fewer.stations st mem)

theorem fewer_of_caches (same : t'.toCaches = t.toCaches) : Fewer t t' := by
  have cached : t'.cached = t.cached :=
    congrArg (fun caches : Caches => caches.cachedItem.toList.reduceOption) same
  have stations : t'.stations = t.stations :=
    congrArg (fun caches : Caches => caches.pathFinder.getD []) same
  have parent : t'.cachedParent = t.cachedParent := congrArg Caches.cachedParent same
  exact ⟨fun e mem => cached ▸ mem, fun e eq => parent ▸ eq, fun st mem => stations ▸ mem⟩

/-- What is cached before a place stays right when the place changes. -/
theorem Lines.cut (lines : Lines t (c.fill f)) (nodup : (c.fill f).walk.Nodup)
    (cut : Cut t t' c.before.length) (g : Forest Ptr) : Lines t' (c.fill g) := by
  refine ⟨?_, ?_, ?_⟩
  · intro e mem
    exact ((lines.cached e (cut.cached e mem)).keep (cut.cachedBefore e mem) g).1
  · intro e eq
    exact ((lines.parent e (cut.parent e eq)).keep (cut.parentBefore e eq) g).1
  · intro st mem
    obtain ⟨here, top⟩ := lines.stations st (cut.stations st mem)
    obtain ⟨kept, in_before⟩ := here.keep (cut.stationsBefore st mem) g
    refine ⟨kept, Hole.mem_tops_of_fill ?_ top⟩
    intro inside
    have rest : st.itemPtr ∈ c.rest := List.mem_append_left _ in_before
    exact absurd (Forest.mem_walk_of_tops inside) ((Hole.nodup_fill.mp nodup).2.2 _ rest)

/-- Nothing is cached before the first line. -/
theorem Lines.dropped (lines : Lines t f) (cut : Cut t t' index) (le : index ≤ 0)
    (g : Forest Ptr) : Lines t' g := by
  refine ⟨?_, ?_, ?_⟩
  · intro e mem
    have nonneg := (lines.cached e (cut.cached e mem)).1
    have before := cut.cachedBefore e mem
    omega
  · intro e eq
    have nonneg := (lines.parent e (cut.parent e eq)).1
    have before := cut.parentBefore e eq
    omega
  · intro st mem
    have nonneg := (lines.stations st (cut.stations st mem)).1.1
    have before := cut.stationsBefore st mem
    omega

theorem cachedParent_FREE_RONG {e : Ptr × Int}
    (eq : (t.FREE_RONG_PARENT_CACHE index).cachedParent = some e) :
    t.cachedParent = some e ∧ e.2 < index := by
  obtain ⟨eq, before⟩ := Option.filter_eq_some_iff.mp eq
  exact ⟨eq, of_decide_eq_true before⟩

theorem fewer_DELETE_FROM_PATHFINDER (t : TreeTable) (pos : Int) :
    Fewer t (t.DELETE_FROM_PATHFINDER pos) where
  cached := fun _ mem => mem
  parent := fun _ eq => eq
  stations := fun st mem => by
    rw [stations_DELETE_FROM_PATHFINDER] at mem
    exact (List.takeWhile_sublist _).subset mem

theorem Uncached.cut (h : Uncached t t' index) : Cut t t' index := by
  have cached (e : Ptr × Int) (mem : e ∈ t'.cached) : e ∈ t.cached ∧ e.2 < index := by
    have same : t'.cached = (t.FREE_RONG_CACHE index).cached :=
      congrArg (fun v : Vector (Option (Ptr × Int)) MAX_CACHED => v.toList.reduceOption) h.cachedItem
    exact cached_FREE_RONG_CACHE (same ▸ mem)
  have parent (e : Ptr × Int) (eq : t'.cachedParent = some e) :
      t.cachedParent = some e ∧ e.2 < index :=
    cachedParent_FREE_RONG (h.cachedParent.symm.trans eq)
  exact
    { cached := fun e mem => (cached e mem).1
      parent := fun e eq => (parent e eq).1
      stations := fun st mem => (h.stations st mem).1
      cachedBefore := fun e mem => (cached e mem).2
      parentBefore := fun e eq => (parent e eq).2
      stationsBefore := fun st mem => (h.stations st mem).2 }

/-- The entries from a line on are thrown away. -/
theorem cut_free (t : TreeTable) (index : Int) :
    Cut t (((t.FREE_RONG_CACHE index).FREE_RONG_PARENT_CACHE index).DELETE_FROM_PATHFINDER index)
      index := by
  have stations (st : PathFinder_t)
      (mem : st ∈ (((t.FREE_RONG_CACHE index).FREE_RONG_PARENT_CACHE
        index).DELETE_FROM_PATHFINDER index).stations) :
      st ∈ t.stations ∧ st.itemPos < index := by
    rw [stations_DELETE_FROM_PATHFINDER] at mem
    have before := List.mem_takeWhile_imp mem
    exact ⟨(List.takeWhile_sublist _).subset mem, of_decide_eq_true before⟩
  exact
    { cached := fun e mem => (cached_FREE_RONG_CACHE (t := t) mem).1
      parent := fun e eq => (cachedParent_FREE_RONG (t := t) eq).1
      stations := fun st mem => (stations st mem).1
      cachedBefore := fun e mem => (cached_FREE_RONG_CACHE (t := t) mem).2
      parentBefore := fun e eq => (cachedParent_FREE_RONG (t := t) eq).2
      stationsBefore := fun st mem => (stations st mem).2 }

theorem DELETE_FROM_PATHFINDER_SET_CACHED (t : TreeTable) (p : Ptr) (pos line : Int) :
    (t.SET_CACHED p pos).DELETE_FROM_PATHFINDER line =
      (t.DELETE_FROM_PATHFINDER line).SET_CACHED p pos := by
  have same : (t.DELETE_FROM_PATHFINDER line).cached = t.cached := rfl
  rw [SET_CACHED, SET_CACHED, same]
  split
  · rfl
  · rfl

/-! ### Insertion and removal -/

/-- All items are in a forest, and all entries are right. -/
def Traced (t : TreeTable) : Prop := ∃ f, Shape t f ∧ Lines t f

theorem Traced.fewer (h : Traced t) (items : t'.toItems = t.toItems) (fewer : Fewer t t') :
    Traced t' := by
  obtain ⟨f, shape, lines⟩ := h
  exact ⟨f, shape.of_items items, lines.fewer fewer⟩

theorem traced_create (accelerator sortedInsertion : Bool) (sortColumn : Int) (sortNoCase : Bool) :
    Traced (create accelerator sortedInsertion sortColumn sortNoCase) := by
  refine ⟨.nil, ⟨rfl, List.nodup_nil, ?_, trivial, rfl⟩, ?_, ?_, ?_⟩
  · intro p
    exact iff_of_false (by exact nofun) List.not_mem_nil
  · intro e mem
    cases mem
  · intro e eq
    cases eq
  · intro st mem
    cases accelerator <;> cases mem

/-- A new item that is cached with its line, or with none. -/
theorem Inserted.lines {newIndex : Int} (inserted : Inserted t t' c g q newIndex)
    (shape : Shape t (c.fill g)) (lines : Lines t (c.fill g))
    (line : newIndex = c.before.length ∨ newIndex = -1) :
    Lines t' (c.fill (.node q .nil g)) := by
  obtain ⟨u, found, caches⟩ := inserted.caches
  have free := cut_free u newIndex
  have old := found.lines lines
  have set : Lines (u.recache q newIndex) (c.fill (.node q .nil g)) := by
    rw [recache, DELETE_FROM_PATHFINDER_SET_CACHED]
    rcases line with rfl | rfl
    · exact (old.cut shape.nodup free _).set_cached fun _ => at_before c q .nil g
    · refine (old.dropped free (by decide) _).set_cached ?_
      intro nonneg
      exact absurd nonneg (by decide)
  exact set.fewer (fewer_of_caches caches)

/-- The place that a new item gets is in the list of its parent, and its line is reported. -/
def exactItem (t : TreeTable) (index : Int) (new : NewItem) : Bool :=
  t.properPlace new.item (t.insertLine index) && t.exactPlace new.item (t.insertLine index)

theorem Lines.insertItem {prevPtr r : Option Ptr} (shape : Shape t f) (lines : Lines t f)
    (place : new.accepted = true → prevPtr = none → t.exactItem index new)
    (insert : t.TreeTableInsertItem index prevPtr new = .ok (t', r)) :
    Traced t' ∧ (new.accepted = true → prevPtr = none → ∃ f', Shape t' f' ∧ Lines t' f' ∧
      At f' new.ptr t'.InsertedNewPosition) := by
  cases options : new.accepted with
  | false =>
    have rejected (e : Ptr × Int) (mem : e ∈ t.cached) : e.1 ≠ new.ptr := by
      intro eq
      have live := shape.isSome (lines.cached e mem).mem
      rw [TreeTableInsertItem] at insert
      split at insert
      · cases insert
      case isFalse free => exact free (eq ▸ live)
    obtain ⟨rfl, -⟩ := shape.insertItem_rejected options rejected insert
    exact ⟨⟨f, shape, lines⟩, by rintro ⟨⟩⟩
  | true =>
    have proper (front : prevPtr = none) : t.properPlace new.item (t.insertLine index) :=
      (Bool.and_eq_true_iff.mp (place options front)).1
    obtain ⟨-, -, c, g, newIndex, rfl, inserted, exact, behind⟩ :=
      shape.insertItem options proper insert
    have front (first : prevPtr = none) : newIndex = c.before.length :=
      exact ⟨lines, first, (Bool.and_eq_true_iff.mp (place options first)).2⟩
    have line : newIndex = c.before.length ∨ newIndex = -1 := by
      by_cases first : prevPtr = none
      · exact .inl (front first)
      · exact .inr (behind first)
    have lines' := inserted.lines shape lines line
    refine ⟨⟨_, inserted.shape, lines'⟩, ?_⟩
    intro _ first
    refine ⟨_, inserted.shape, lines', ?_⟩
    rw [inserted.position, front first]
    exact at_before c new.ptr .nil g

theorem Traced.insertItems {items : List NewItem} (h : Traced t)
    (first : ∀ new, items.find? (fun new => new.text ≠ []) = some new → new.accepted = true →
      t.exactItem index new)
    (insert : TreeTableInsertItems index none t items = .ok t') : Traced t' := by
  refine insertItems_inv ?_ ?_ h insert
  · intro new found t₁ r one
    obtain ⟨f, shape, lines⟩ := h
    exact (lines.insertItem shape (fun options _ => first new found options) one).1
  · rintro prevPtr u u' r new - ⟨f, shape, lines⟩ one
    refine (lines.insertItem shape ?_ one).1
    intro _ front
    cases front

/-- The item of a line is removed. -/
theorem Lines.removeItem {original_item : Bool} {u : TreeTable} {k : Int} (shape : Shape t f)
    (lines : Lines t f) (find : t.TreeTableFindItem index = .ok (u, some p))
    (removed : TreeTableRemoveItem original_item false u.fuel u p index = .ok (t', k)) :
    Traced t' := by
  obtain ⟨found, right⟩ := shape.found find
  have shape_u := found.shape shape
  have lines_u := found.lines lines
  obtain ⟨c, s, m, rfl, result⟩ := shape_u.removeItem (nonneg_of_find find) removed
  have line : index = c.before.length :=
    (right lines p rfl).unique (at_before c p s m) shape.nodup
  refine ⟨_, result.shape, ?_⟩
  exact lines_u.cut shape_u.nodup (line ▸ result.uncached.cut) m

theorem Traced.deleteLines {start : Int} {n : Nat} (h : Traced t)
    (deleted : TreeTable.deleteLines start n t = .ok t') : Traced t' := by
  refine deleteLines_inv ?_ h deleted
  rintro t t₁ index r ⟨f, shape, lines⟩ find
  have found := (shape.found find).1
  refine ⟨⟨f, found.shape shape, found.lines lines⟩, ?_⟩
  rintro p t' k rfl remove
  exact lines.removeItem shape find remove

theorem Traced.countNotHidden (h : Traced t) (counted : t.TreeTableCountNotHidden = .ok t') :
    Traced t' := by
  obtain ⟨f, shape, lines⟩ := h
  rw [shape.countNotHidden] at counted
  obtain rfl := Except.ok.inj counted
  exact ⟨f, shape.of_same rfl rfl rfl, lines.fewer (fewer_of_caches rfl)⟩

theorem Traced.deleteRange {start stop : Int} (h : Traced t)
    (deleted : t.TreeTableDeleteRange start stop = .ok t') : Traced t' := by
  rw [TreeTableDeleteRange] at deleted
  split at deleted
  · exact Except.ok.inj deleted ▸ h
  case isFalse some =>
    dsimp only at deleted
    split at deleted
    · obtain ⟨u, removed, counted⟩ := Fuel.bind_eq_ok deleted
      obtain ⟨f, shape, lines⟩ := h
      have ne : f ≠ .nil := by
        rintro rfl
        exact some (.inl shape.numItems)
      obtain ⟨u', all, shape', uncached⟩ := shape.deleteAll ne
      obtain rfl := Except.ok.inj (all.symm.trans removed)
      have traced : Traced u' := ⟨.nil, shape', lines.dropped uncached.cut (Int.le_refl 0) .nil⟩
      exact traced.countNotHidden counted
    · obtain ⟨u, removed, counted⟩ := Fuel.bind_eq_ok deleted
      exact (h.deleteLines removed).countNotHidden counted

theorem Traced.find {r : Option Ptr} (h : Traced t)
    (find : t.TreeTableFindItem index = .ok (t', r)) : Traced t' := by
  obtain ⟨f, shape, lines⟩ := h
  have found := (shape.found find).1
  exact ⟨f, found.shape shape, found.lines lines⟩

theorem Traced.remove (h : Traced t) (removed : t.remove index = .ok t') : Traced t' := by
  obtain ⟨⟨u, itemPtr⟩, find, removed⟩ := Fuel.bind_eq_ok removed
  cases itemPtr with
  | none => exact Except.ok.inj removed ▸ h.find find
  | some p =>
    obtain ⟨⟨v, k⟩, remove, removed⟩ := Fuel.bind_eq_ok removed
    obtain rfl := Except.ok.inj removed
    obtain ⟨f, shape, lines⟩ := h
    exact lines.removeItem shape find remove

theorem Traced.removeChildren (h : Traced t) (removed : t.removeChildren index = .ok t') :
    Traced t' :=
  removeChildren_inv (fun _ _ _ _ h find => h.find find)
    (fun _ _ _ _ h deleted => h.deleteRange deleted) h removed

/-! ### Hiding and sorting -/

theorem Traced.toggleItem {hide : Bool} (h : Traced t)
    (toggled : t.TreeTableToggleItem p hide = .ok t') : Traced t' := by
  obtain ⟨f, shape, lines⟩ := h
  obtain ⟨x, read, toggled⟩ := Fuel.bind_eq_ok toggled
  split at toggled
  · exact Except.ok.inj toggled ▸ ⟨f, shape, lines⟩
  · have item := item_of_read read
    obtain ⟨c, s, m, rfl⟩ := Hole.exists_hole (shape.mem item)
    obtain ⟨u, toggled', result⟩ := shape.toggleIt item
    obtain rfl := Except.ok.inj (toggled'.symm.trans toggled)
    exact ⟨_, result.shape shape, lines.fewer (fewer_of_caches result.toCaches)⟩

theorem Traced.toggle {hide : Option Bool} {real : Bool} (h : Traced t)
    (toggled : t.toggle index hide real = .ok t') : Traced t' :=
  toggle_inv (fun _ _ _ _ h find => h.find find)
    (fun t pos h => h.fewer rfl (fewer_DELETE_FROM_PATHFINDER t pos))
    (fun _ _ _ _ h toggled => h.toggleItem toggled) h toggled

theorem Traced.sort {qqsort : (Ptr → Ptr → Int) → List Ptr → List Ptr}
    (perm : ∀ compar l, (qqsort compar l).Perm l) {col : Option Int} {noCase : Bool}
    (h : Traced t) (unstationed : t.stations = [])
    (sorted : t.TreeTableSort qqsort col noCase = .ok t') : Traced t' := by
  obtain ⟨f, shape, -⟩ := h
  obtain ⟨u, f', sorted', shape', -, -, -, caches⟩ := shape.sort perm col noCase
  obtain rfl := Except.ok.inj (sorted'.symm.trans sorted)
  have fewer := fewer_of_caches caches
  have none_cached : t.FREE_CACHE.FREE_PARENT_CACHE.cached = [] := rfl
  refine ⟨f', shape', ?_, ?_, ?_⟩
  · intro e mem
    have old := fewer.cached e mem
    rw [none_cached] at old
    cases old
  · intro e eq
    exact nomatch fewer.parent e eq
  · intro st mem
    have old : st ∈ t.stations := fewer.stations st mem
    rw [unstationed] at old
    cases old

/-! ### Drawing -/

section Display

variable {topIndex limit seenpos realpos seenpos' realpos' : Int} {n : Nat} {skip : Bool}
  {Pf Pf' : Option (List PathFinder_t)} {ptr owner : Option Ptr}

/-- Once a line after the last one is reached, nothing is done. -/
theorem display_stopped (past : topIndex ≤ seenpos) (after : limit < seenpos)
    (display : t.DisplayRecursive topIndex limit n skip Pf seenpos realpos ptr =
      .ok (Pf', seenpos', realpos')) : Pf' = Pf ∧ seenpos' = seenpos ∧ realpos' = realpos := by
  have stopped : (Pf, seenpos, realpos) = (Pf', seenpos', realpos') := by
    cases ptr with
    | none => cases n <;> exact Except.ok.inj display
    | some p =>
      cases n with
      | zero => cases display
      | succ n =>
        have shown : (skip && decide (seenpos < topIndex)) = false := by
          rw [decide_eq_false (Int.not_lt.mpr past), Bool.and_false]
        rw [DisplayRecursive] at display
        dsimp only at display
        rw [shown, if_pos (by simpa using after)] at display
        exact Except.ok.inj display
  obtain ⟨rfl, rest⟩ := Prod.mk.inj stopped
  obtain ⟨rfl, rfl⟩ := Prod.mk.inj rest
  exact ⟨rfl, rfl, rfl⟩

theorem mem_addStation {st : PathFinder_t}
    (mem : st ∈ (addStation Pf p realpos seenpos).getD []) :
    st ∈ Pf.getD [] ∨ st.itemPtr = p ∧ st.itemPos = realpos := by
  cases Pf with
  | none => exact .inl mem
  | some stations =>
    change st ∈ (if _ then _ else _) at mem
    split at mem
    · rcases List.mem_append.mp mem with old | last
      · exact .inl old
      · rw [List.mem_singleton.mp last]
        exact .inr ⟨rfl, rfl⟩
    · exact .inl mem

/-- What the loops over a list of items have done. The line after the list is right, unless a line
after the last one was reached. -/
structure Displayed (topIndex limit : Int) (g : Forest Ptr) (Pf : Option (List PathFinder_t))
    (seenpos realpos : Int) (Pf' : Option (List PathFinder_t)) (seenpos' realpos' : Int) :
    Prop where
  past : topIndex ≤ seenpos → topIndex ≤ seenpos'
  line : realpos' = realpos + g.size ∨ topIndex ≤ seenpos' ∧ limit < seenpos'
  stations : ∀ st ∈ Pf'.getD [], st ∈ Pf.getD [] ∨
    ∃ k : Nat, g.walk[k]? = some st.itemPtr ∧ st.itemPos = realpos + k ∧ st.itemPtr ∈ g.tops

/-- One item with its sub tree, and then the rest of the list. -/
theorem Displayed.node {seenpos₁ realpos₁ : Int}
    (past : topIndex ≤ seenpos → topIndex ≤ seenpos₁)
    (line : realpos₁ = realpos + 1 + s.size ∨ topIndex ≤ seenpos₁ ∧ limit < seenpos₁)
    (rest : Displayed topIndex limit m (addStation Pf p realpos seenpos) seenpos₁ realpos₁ Pf'
      seenpos' realpos')
    (stopped : topIndex ≤ seenpos₁ ∧ limit < seenpos₁ →
      Pf' = addStation Pf p realpos seenpos ∧ seenpos' = seenpos₁ ∧ realpos' = realpos₁) :
    Displayed topIndex limit (.node p s m) Pf seenpos realpos Pf' seenpos' realpos' := by
  have first (st : PathFinder_t) (mem : st ∈ (addStation Pf p realpos seenpos).getD []) :
      st ∈ Pf.getD [] ∨ ∃ k : Nat, (Forest.node p s m).walk[k]? = some st.itemPtr ∧
        st.itemPos = realpos + k ∧ st.itemPtr ∈ (Forest.node p s m).tops := by
    refine (mem_addStation mem).imp_right ?_
    rintro ⟨ptr, pos⟩
    refine ⟨0, ?_, ?_, ?_⟩
    · rw [ptr]
      rfl
    · simpa using pos
    · rw [ptr]
      exact List.mem_cons_self
  rcases line with line | ended
  · refine ⟨fun le => rest.past (past le), ?_, ?_⟩
    · refine rest.line.imp_left ?_
      intro eq
      rw [eq, line, Forest.size_node]
      push_cast
      ring
    · intro st mem
      rcases rest.stations st mem with old | ⟨k, here, pos, top⟩
      · exact first st old
      · refine .inr ⟨1 + s.size + k, ?_, ?_, List.mem_cons_of_mem p top⟩
        · have shift : 1 + s.size + k = s.walk.length + k + 1 := by
            rw [s.length_walk]
            omega
          rw [Forest.walk, shift, List.getElem?_cons_succ,
            List.getElem?_append_right (Nat.le_add_right _ _), Nat.add_sub_cancel_left]
          exact here
        · rw [pos, line]
          push_cast
          ring
  · obtain ⟨rfl, rfl, rfl⟩ := stopped ended
    exact ⟨past, .inr ended, first⟩

theorem display_spec (linked : g.Linked t.links owner ptr) (counted : g.Counted t.counts)
    (past : skip = false → topIndex ≤ seenpos)
    (display : t.DisplayRecursive topIndex limit n skip Pf seenpos realpos ptr =
      .ok (Pf', seenpos', realpos')) :
    Displayed topIndex limit g Pf seenpos realpos Pf' seenpos' realpos' := by
  induction g generalizing n owner ptr skip Pf seenpos realpos Pf' seenpos' realpos' with
  | nil =>
    obtain rfl : ptr = none := linked
    have same : (Pf, seenpos, realpos) = (Pf', seenpos', realpos') := by
      cases n <;> exact Except.ok.inj display
    obtain ⟨rfl, rest⟩ := Prod.mk.inj same
    obtain ⟨rfl, rfl⟩ := Prod.mk.inj rest
    exact ⟨id, .inl (by simp), fun st mem => .inl mem⟩
  | node p s m s_ih m_ih =>
    obtain ⟨rfl, -, sub, next⟩ := linked
    obtain ⟨all, -, s_counted, m_counted⟩ := counted
    cases n with
    | zero => cases display
    | succ n =>
    rw [DisplayRecursive] at display
    dsimp only at display
    -- the first loop is over at the line
    have reached (shown : (skip && decide (seenpos < topIndex)) = false) : topIndex ≤ seenpos := by
      rcases Bool.and_eq_false_iff.mp shown with second | le
      · exact past second
      · exact Int.not_lt.mp (of_decide_eq_false le)
    split at display
    case isTrue ended =>
      rw [Bool.and_eq_true, Bool.not_eq_true', decide_eq_true_eq] at ended
      obtain ⟨rfl, rest⟩ := Prod.mk.inj (Except.ok.inj display)
      obtain ⟨rfl, rfl⟩ := Prod.mk.inj rest
      exact ⟨id, .inr ⟨reached ended.1, ended.2⟩, fun st mem => .inl mem⟩
    case isFalse =>
    obtain ⟨x, read, display⟩ := Fuel.bind_eq_ok display
    have item := item_of_read read
    rw [links_succ item] at sub
    rw [links_next item] at next
    rw [counts_all item] at all
    have behind {seenpos₁ realpos₁ : Int} (past' : topIndex ≤ seenpos → topIndex ≤ seenpos₁)
        (line : realpos₁ = realpos + 1 + s.size ∨ topIndex ≤ seenpos₁ ∧ limit < seenpos₁)
        (rest : t.DisplayRecursive topIndex limit n (skip && decide (seenpos < topIndex))
          (addStation Pf p realpos seenpos) seenpos₁ realpos₁ x.nextPtr =
            .ok (Pf', seenpos', realpos')) :
        Displayed topIndex limit (.node p s m) Pf seenpos realpos Pf' seenpos' realpos' := by
      refine .node past' line (m_ih next m_counted ?_ rest) ?_
      · intro shown
        exact past' (reached shown)
      · intro ended
        exact display_stopped ended.1 ended.2 rest
    split at display
    · split at display
      case isTrue jump =>
        simp only [Bool.and_eq_true, decide_eq_true_eq] at jump
        refine behind ?_ (.inl (by rw [all])) display
        intro le
        omega
      case isFalse =>
        obtain ⟨⟨Pf₁, seenpos₁, realpos₁⟩, inner, display⟩ := Fuel.bind_eq_ok display
        have below := s_ih sub s_counted (by exact nofun) inner
        refine behind ?_ below.line display
        intro le
        exact below.past (by omega)
    · refine behind ?_ (.inl (by rw [all])) display
      intro le
      split
      case isTrue skipped =>
        simp only [Bool.and_eq_true, decide_eq_true_eq] at skipped
        omega
      case isFalse => omega

theorem Traced.display {numLines : Int} (h : Traced t)
    (display : t.DisplayTreeTable topIndex numLines = .ok t') : Traced t' := by
  obtain ⟨f, shape, lines⟩ := h
  -- the new stations are in the root list from a hole of it on
  have drawn {c : Hole Ptr} {g : Forest Ptr} {ptr : Option Ptr} {seenpos seenpos' realpos' : Int}
      {stations : List PathFinder_t} {Pf : Option (List PathFinder_t)} {limit : Int}
      (fill : f = c.fill g) (up : c.ancestors = []) (linked : g.Linked t.links none ptr)
      (counted : g.Counted t.counts) (on : t.pathFinder = some stations)
      (loop : t.DisplayRecursive topIndex limit t.fuel true (some stations) seenpos
        c.before.length ptr = .ok (Pf, seenpos', realpos')) :
      Lines { t with pathFinder := Pf } f := by
    have displayed := display_spec linked counted (by exact nofun) loop
    refine ⟨lines.cached, lines.parent, ?_⟩
    intro st mem
    rcases displayed.stations st mem with old | ⟨k, here, pos, top⟩
    · refine lines.stations st ?_
      rw [TreeTable.stations, on]
      exact old
    · subst fill
      refine ⟨⟨by omega, ?_⟩, Hole.mem_tops_fill up top⟩
      have index : st.itemPos.toNat = c.before.length + k := by omega
      have inside : k < g.walk.length := (List.getElem?_eq_some_iff.mp here).1
      rw [index, Hole.walk_fill, Hole.after_eq_nil up, List.append_nil,
        List.getElem?_append_right (Nat.le_add_right _ _), Nat.add_sub_cancel_left]
      exact here
  have same : Traced t := ⟨f, shape, lines⟩
  rw [DisplayTreeTable] at display
  dsimp only at display
  split at display
  · obtain ⟨_, -, display⟩ := Fuel.bind_eq_ok display
    exact Except.ok.inj display ▸ same
  · cases display
  case h_3 stations ptr on itemPtr =>
    obtain ⟨x, -, display⟩ := Fuel.bind_eq_ok display
    split at display
    · obtain ⟨_, -, display⟩ := Fuel.bind_eq_ok display
      exact Except.ok.inj display ▸ same
    · obtain ⟨⟨Pf, seenpos', realpos'⟩, loop, display⟩ := Fuel.bind_eq_ok display
      obtain rfl := Except.ok.inj display
      refine ⟨f, shape.of_items rfl, ?_⟩
      cases station : t.FIND_IN_PATHFINDER topIndex with
      | none =>
        rw [station] at loop
        exact drawn (c := .top) rfl rfl (itemPtr ▸ shape.linked) shape.counted on loop
      | some pf =>
        rw [station] at loop
        obtain ⟨here, top⟩ := lines.stations pf (mem_of_FIND_IN_PATHFINDER station).1
        obtain ⟨c, s, n, fill, up⟩ := Hole.exists_hole_tops top
        have shape' : Shape t (c.fill (.node pf.itemPtr s n)) := fill ▸ shape
        have line : pf.itemPos = c.before.length :=
          (fill ▸ here : At (c.fill _) _ _).unique (at_before c pf.itemPtr s n) shape'.nodup
        obtain ⟨-, inside⟩ := shape'.around
        have ptr_eq : t.links.get c.cell = some pf.itemPtr := inside.1
        have owner_eq : c.owner = none := by
          rw [Hole.owner, up]
          rfl
        rw [ptr_eq, owner_eq] at inside
        dsimp only at loop
        rw [line] at loop
        exact drawn fill up inside (Hole.counted_fill.mp shape'.counted).2 on loop

end Display

/-! ### Runs -/

/-- An item is at this line of the walk. -/
def OnLine (l : List Ptr) (p : Ptr) (pos : Int) : Prop := 0 ≤ pos ∧ l[pos.toNat]? = some p

/-- The look ups go by the walk through the sub trees, and so do the caches and the stations. -/
structure Transparent (t : TreeTable) (l : List Ptr) : Prop where
  preorder : Preorder t.links t.itemPtr l
  items : ∀ p, p ∈ l ↔ (t.item p).isSome
  findItem : ∀ index, ∃ t', t.TreeTableFindItem index =
    .ok (t', if index < 0 then none else l[index.toNat]?)
  findIndex : ∀ p ∈ l, t.TreeTableFindIndex p = .ok (l.idxOf p)
  cached : ∀ e ∈ t.cached, OnLine l e.1 e.2
  parent : ∀ e, t.cachedParent = some e → OnLine l e.1 e.2
  stations : ∀ st ∈ t.stations, OnLine l st.itemPtr st.itemPos

theorem Lines.transparent (shape : Shape t f) (lines : Lines t f) : Transparent t f.walk where
  preorder := shape.linked.preorder
  items := fun p => (shape.live p).symm
  findItem := by
    intro index
    split
    case isTrue negative =>
      refine ⟨t, ?_⟩
      rw [TreeTableFindItem, if_pos negative]
    case isFalse nonneg =>
      obtain ⟨t', find, -, -⟩ := TreeTableFindItem_eq shape lines (Int.not_lt.mp nonneg)
      exact ⟨t', find⟩
  findIndex := fun p mem => TreeTableFindIndex_eq shape lines mem
  cached := lines.cached
  parent := lines.parent
  stations := fun st mem => (lines.stations st mem).1

theorem Traced.transparent (h : Traced t) : ∃ l, Transparent t l := by
  obtain ⟨f, shape, lines⟩ := h
  exact ⟨f.walk, lines.transparent shape⟩

/-- A command keeps the entries right. -/
def Tracked (t : TreeTable) : Command → Bool
  | .insert index new =>
    let index := t.GetTreeTableIndex true index
    !new.accepted || { t with InsertedNewPosition := index }.exactItem index new
  | .insertList index items =>
    (items.find? fun new => new.text ≠ []).all fun new =>
      !new.accepted || t.exactItem (t.GetTreeTableIndex true index) new
  | .sort _ _ => t.stations.isEmpty
  | _ => true

section Step

variable {qqsort : (Ptr → Ptr → Int) → List Ptr → List Ptr}

/-- An insertion keeps the entries right and reports the line of the new item. -/
theorem Traced.insert {t' : TreeTable} (h : Traced t) (tracked : t.Tracked (.insert index new))
    (stepped : t.step qqsort (.insert index new) = .ok t') :
    Traced t' ∧ (new.accepted = true →
      ∃ l, Transparent t' l ∧ OnLine l new.ptr t'.InsertedNewPosition) := by
  obtain ⟨⟨u, r⟩, insert, stepped⟩ := Fuel.bind_eq_ok stepped
  obtain rfl := Except.ok.inj stepped
  obtain ⟨f, shape, lines⟩ := h
  have start : Shape { t with InsertedNewPosition := t.GetTreeTableIndex true index } f :=
    shape.of_items rfl
  have lines' : Lines { t with InsertedNewPosition := t.GetTreeTableIndex true index } f :=
    lines.fewer (fewer_of_caches rfl)
  have place (options : new.accepted = true) (_ : (none : Option Ptr) = none) :
      { t with InsertedNewPosition := t.GetTreeTableIndex true index }.exactItem
        (t.GetTreeTableIndex true index) new := by
    simpa [Tracked, options] using tracked
  obtain ⟨traced, reported⟩ := lines'.insertItem start place insert
  refine ⟨traced, ?_⟩
  intro options
  obtain ⟨f', shape', lines'', here⟩ := reported options rfl
  exact ⟨f'.walk, lines''.transparent shape', here⟩

theorem Traced.step (perm : ∀ compar l, (qqsort compar l).Perm l) {command : Command}
    (h : Traced t) (tracked : t.Tracked command)
    (stepped : t.step qqsort command = .ok t') : Traced t' := by
  cases command with
  | insert index new => exact (h.insert tracked stepped).1
  | insertList index items =>
    refine h.insertItems ?_ stepped
    intro new found options
    rw [Tracked, found] at tracked
    simpa [options] using tracked
  | delete start stop => exact h.deleteRange stepped
  | remove index => exact h.remove stepped
  | removeChildren index => exact h.removeChildren stepped
  | toggle index hide real => exact h.toggle stepped
  | sort col noCase => exact h.sort perm (List.isEmpty_iff.mp tracked) stepped
  | get index =>
    obtain ⟨⟨u, r⟩, find, stepped⟩ := Fuel.bind_eq_ok stepped
    obtain rfl := Except.ok.inj stepped
    exact h.find find
  | display topIndex numLines => exact h.display stepped
  | configure accelerator sortedInsertion sortNoCase sortColumn =>
    obtain rfl := Except.ok.inj stepped
    refine h.fewer rfl ⟨fun e mem => mem, fun e eq => eq, ?_⟩
    intro st mem
    cases accelerator with
    | true => exact mem
    | false => cases mem

/-- In every run of tracked commands the caches and the accelerator cannot be seen, and an
insertion after it reports the line of the new item. -/
theorem lines_kept (perm : ∀ compar l, (qqsort compar l).Perm l) {commands : List Command}
    {accelerator sortedInsertion sortNoCase : Bool} {sortColumn : Int}
    (run : Run (Guarded (fun t command => t.Tracked command) fun t command t' =>
      t.step qqsort command = .ok t') (create accelerator sortedInsertion sortColumn sortNoCase)
      commands t) :
    (∃ l, Transparent t l) ∧ ∀ index new t', new.accepted = true →
      t.Tracked (.insert index new) → t.step qqsort (.insert index new) = .ok t' →
        ∃ l, Transparent t' l ∧ OnLine l new.ptr t'.InsertedNewPosition := by
  have traced : Traced t := by
    refine run.invariant ?_ (traced_create _ _ _ _)
    rintro t command t' traced ⟨tracked, stepped⟩
    exact traced.step perm tracked stepped
  refine ⟨traced.transparent, ?_⟩
  intro index new t' options tracked stepped
  exact (traced.insert tracked stepped).2 options

end Step

/-! ### Two runs -/

/-- A table with the accelerator on that is drawn between insertions, deletions and look ups. -/
def trackedCommands : List Command :=
  [.insert 0 (newItem 0 (-1) (ascii "a")), .insert 1 (newItem 1 0 (ascii "c")),
    .insert 2 (newItem 2 0 (ascii "b")), .insert 3 (newItem 3 (-1) (ascii "d")), .display 0 10,
    .get 2, .insertList 4 [newItem 4 (-1) (ascii "e"), newItem 5 (-1) (ascii "f")],
    .toggle 0 none true, .remove 1, .sort none false, .get 3, .delete 2 none]

/-- An item of the root list that is inserted at the line of a child. -/
def clippedCommands : List Command :=
  [.insert 0 (newItem 0 (-1) (ascii "a")), .insert 1 (newItem 1 0 (ascii "b")),
    .insert 1 (newItem 2 (-1) (ascii "c"))]

theorem play_tracked :
    ((Run.play Tracked (fun t command => t.step insertionSort command)
      (create true false (-1) false) trackedCommands).map fun t => t.numItems) = some 4 := by
  decide +kernel

theorem play_clipped :
    ((Run.play (fun _ _ => true) (fun t command => t.step insertionSort command)
      (create true false (-1) false) clippedCommands).map fun t =>
        ((t.TreeTableFindIndex 1).toOption, (t.TreeTableFindIndex 2).toOption,
          (t.item 1).isSome, (t.item 2).isSome)) = some (some 1, some 1, true, true) := by
  decide +kernel

theorem lines_kept_twelve :
    ∃ t, Run.play Tracked (fun t command => t.step insertionSort command)
      (create true false (-1) false) trackedCommands = some t ∧
        (∃ l, Transparent t l) ∧ ∀ index new t', new.accepted = true →
          t.Tracked (.insert index new) → t.step insertionSort (.insert index new) = .ok t' →
            ∃ l, Transparent t' l ∧ OnLine l new.ptr t'.InsertedNewPosition := by
  obtain ⟨t, played, -⟩ := Option.map_eq_some_iff.mp play_tracked
  exact ⟨t, played, lines_kept perm_insertionSort (Run.of_play played)⟩

/-- Two items are found at one line in the end. -/
theorem insert_reports_child_line :
    ∃ t, Run (fun t command t' => t.step insertionSort command = .ok t')
      (create true false (-1) false) clippedCommands t ∧ ¬ ∃ l, Transparent t l := by
  obtain ⟨t, played, found⟩ := Option.map_eq_some_iff.mp play_clipped
  refine ⟨t, (Run.of_play played).mono fun _ _ _ h => h.2, ?_⟩
  rintro ⟨l, transparent⟩
  simp only [Prod.mk.injEq] at found
  obtain ⟨first, second, live₁, live₂⟩ := found
  have mem₁ := (transparent.items 1).mpr live₁
  have mem₂ := (transparent.items 2).mpr live₂
  rw [transparent.findIndex 1 mem₁] at first
  rw [transparent.findIndex 2 mem₂] at second
  have same : l.idxOf 1 = l.idxOf 2 := by
    have eq := Option.some.inj (first.trans second.symm)
    exact_mod_cast eq
  exact absurd ((List.idxOf_inj mem₁).mp same) (by decide)

end TreeTable

end SourceNavigator.Hyper

import SourceNavigator.Hyper.TreePlace

/-!
Inserting items into a tree table.

An item whose options are accepted is linked in at its place (`Inserted`), and
one whose options are rejected is freed again before it is linked, which leaves
the table as it was when its address is not in the item cache.
-/

namespace SourceNavigator.Hyper

open Lib

namespace TreeTable

variable {t t' : TreeTable} {p q : Ptr} {f g : Forest Ptr} {c : Hole Ptr} {index newIndex : Int}
  {new : NewItem} {prevPtr : Option Ptr}

/-- The line of an insertion is a line of the table, or the line after the last one. -/
def insertLine (t : TreeTable) (index : Int) : Int :=
  let index := if index ≤ 0 then 0 else index
  if index > t.numItems then t.numItems else index

/-- A new item was linked in at a hole. -/
structure Inserted (t t' : TreeTable) (c : Hole Ptr) (g : Forest Ptr) (q : Ptr) (newIndex : Int) :
    Prop where
  shape : Shape t' (c.fill (.node q .nil g))
  hidden : t'.hidden = t.hidden
  numViewed : t'.numViewed = if c.ancestors.any t.hidden then t.numViewed else t.numViewed + 1
  caches : ∃ u, Found t u (c.fill g) ∧ t'.toCaches = (u.recache q newIndex).toCaches
  position : t'.InsertedNewPosition = newIndex

theorem blank_item (new : NewItem) : Blank new.item := ⟨rfl, rfl, rfl, rfl⟩

/-- The entries after an insertion. -/
theorem cached_recache {u : TreeTable} {e : Ptr × Int}
    (mem : e ∈ (u.recache q newIndex).cached) : e ∈ u.cached ∧ e.2 < newIndex ∨
      0 ≤ newIndex ∧ e = (q, newIndex) := by
  have same : (u.recache q newIndex).cached =
      (((u.FREE_RONG_CACHE newIndex).FREE_RONG_PARENT_CACHE newIndex).SET_CACHED q newIndex).cached :=
    rfl
  rw [same] at mem
  rcases cached_SET_CACHED mem with old | new
  · exact .inl (cached_FREE_RONG_CACHE old)
  · exact .inr new

theorem toItems_recache (u : TreeTable) (q : Ptr) (newIndex : Int) :
    (u.recache q newIndex).toItems = u.toItems :=
  (looked_SET_CACHED ((u.FREE_RONG_CACHE newIndex).FREE_RONG_PARENT_CACHE newIndex) q
    newIndex).toItems

theorem toCaches_SET_CACHED {u : TreeTable} (same : t.toCaches = u.toCaches) (p : Ptr) (pos : Int) :
    (t.SET_CACHED p pos).toCaches = (u.SET_CACHED p pos).toCaches := by
  have cached : t.cached = u.cached :=
    congrArg (fun caches : Caches => caches.cachedItem.toList.reduceOption) same
  rw [SET_CACHED, SET_CACHED, cached]
  split
  · exact congrArg (fun caches : Caches =>
      { caches with
        cachedItem := caches.cachedItem.set caches.cacheIndex (some (p, pos)) caches.cacheIndex.isLt
        cacheIndex := ⟨(caches.cacheIndex + 1) % MAX_CACHED, Nat.mod_lt _ (by decide)⟩ }) same
  · exact same

/-- What is cached after an insertion depends on what was cached before. -/
theorem toCaches_recache {u : TreeTable} (same : t.toCaches = u.toCaches) (q : Ptr)
    (newIndex : Int) : (t.recache q newIndex).toCaches = (u.recache q newIndex).toCaches := by
  have freed : ((t.FREE_RONG_CACHE newIndex).FREE_RONG_PARENT_CACHE newIndex).toCaches =
      ((u.FREE_RONG_CACHE newIndex).FREE_RONG_PARENT_CACHE newIndex).toCaches :=
    congrArg (fun caches : Caches =>
      { caches with
        cachedItem := caches.cachedItem.map fun e : Option (Ptr × Int) =>
          e.filter fun entry => entry.2 < newIndex
        cachedParent := caches.cachedParent.filter fun entry => entry.2 < newIndex }) same
  exact congrArg (fun caches : Caches =>
    { caches with
      pathFinder := caches.pathFinder.map (List.takeWhile fun pf => pf.itemPos < newIndex) })
    (toCaches_SET_CACHED freed q newIndex)

/-- Linking in an item that has its place. -/
theorem Shape.inserted {u : TreeTable} {item : TableItem} (h : Shape t (c.fill g))
    (found : Found t u (c.fill g)) (fresh : t.item q = none) (blank : Blank item)
    (owner : item.parentPtr = c.owner) (newIndex : Int) :
    let r := climb 1 (u.link q item c.cell) false c.ancestors
    Inserted t
      { r.1.recache q newIndex with
        InsertedNewPosition := newIndex
        numItems := (r.1.recache q newIndex).numItems + 1
        numViewed :=
          if r.2 then (r.1.recache q newIndex).numViewed
          else (r.1.recache q newIndex).numViewed + 1 }
      c g q newIndex := by
  intro r
  have shape := found.shape h
  have fresh_u : u.item q = none := by rw [found.item, fresh]
  have recount : Recounted (u.link q item c.cell) r.1 := recounted_climb 1 c.ancestors _ false
  have link_rest : (u.link q item c.cell).numItems = u.numItems ∧
      (u.link q item c.cell).numViewed = u.numViewed ∧
      (u.link q item c.cell).toCaches = u.toCaches := by
    rw [link]
    cases c.cell <;> exact ⟨rfl, rfl, rfl⟩
  have numItems : r.1.numItems = t.numItems := by
    have from_link := congrArg (fun t : TreeTable => t.numItems) recount.rest
    exact (from_link.trans link_rest.1).trans (congrArg Items.numItems found.looked.toItems)
  have numViewed : r.1.numViewed = t.numViewed := by
    have from_link := congrArg (fun t : TreeTable => t.numViewed) recount.rest
    exact (from_link.trans link_rest.2.1).trans (congrArg Items.numViewed found.looked.toItems)
  have toCaches : r.1.toCaches = u.toCaches := by
    have from_link := congrArg (fun t : TreeTable => t.toCaches) recount.rest
    exact from_link.trans link_rest.2.2
  have same := toItems_recache r.1 q newIndex
  have hidden_u : u.hidden = t.hidden := by
    funext p
    rw [TreeTable.hidden, TreeTable.hidden, found.item]
  have hidden_link : (u.link q item c.cell).hidden = u.hidden :=
    congrArg Counts.shut (counts_link fresh_u blank.shown blank.succNum blank.seenNum)
  have any : r.2 = c.ancestors.any t.hidden := by
    rw [hidden_climb, Bool.false_or, hidden_link, hidden_u]
  refine ⟨?_, ?_, ?_, ⟨u, found, ?_⟩, rfl⟩
  · refine shape.insert fresh_u blank owner ?_ ?_ ?_
    · have item_eq : (r.1.recache q newIndex).item = r.1.item := congrArg Items.item same
      exact item_eq
    · have itemPtr_eq : (r.1.recache q newIndex).itemPtr = r.1.itemPtr :=
        congrArg Items.itemPtr same
      exact itemPtr_eq
    · change (r.1.recache q newIndex).numItems + 1 = u.numItems + 1
      rw [congrArg Items.numItems same, congrArg Items.numItems found.looked.toItems, numItems]
  · rw [← hidden_u, ← hidden_link, ← recount.hidden]
    funext p
    have item_eq : (r.1.recache q newIndex).item = r.1.item := congrArg Items.item same
    exact congrArg (fun item => ((item p).map TableItem.hidden_subtree).getD false) item_eq
  · change (if r.2 then _ else _) = _
    rw [any, congrArg Items.numViewed same, numViewed]
  · exact toCaches_recache toCaches q newIndex

/-- An item that is accepted is linked in at its place. -/
theorem Shape.insertItem {r : Option Ptr} (h : Shape t f) (accepted : new.accepted = true)
    (proper : prevPtr = none → t.properPlace new.item (t.insertLine index))
    (insert : t.TreeTableInsertItem index prevPtr new = .ok (t', r)) :
    t.item new.ptr = none ∧ r = some new.ptr ∧ ∃ c g newIndex,
      f = c.fill g ∧ Inserted t t' c g new.ptr newIndex ∧
        (Lines t f ∧ prevPtr = none ∧ t.exactPlace new.item (t.insertLine index) →
          newIndex = c.before.length) ∧
        (prevPtr ≠ none → newIndex = -1) := by
  rw [TreeTableInsertItem] at insert
  split at insert
  case isTrue => exact nomatch insert
  case isFalse free =>
  have fresh : t.item new.ptr = none := Option.not_isSome_iff_eq_none.mp free
  rw [accepted] at insert
  obtain ⟨⟨u, hidden, newIndex⟩, list, insert⟩ := Fuel.bind_eq_ok insert
  obtain ⟨⟨t₁, cell, item, line⟩, place, list⟩ := Fuel.bind_eq_ok list
  obtain ⟨found, blank, ⟨c, g, fill, owner, here, exact⟩, behind⟩ :=
    h.findPlace (blank_item new) rfl proper place
  subst fill
  have up : t₁.ancestors item.parentPtr = .ok c.ancestors := by
    rw [← owner]
    exact (found.shape h).ancestors
  obtain ⟨above, up', list⟩ := Fuel.bind_eq_ok list
  obtain rfl := Except.ok.inj (up.symm.trans up')
  rw [← here] at list
  obtain ⟨rfl, rest⟩ := Prod.mk.inj (Except.ok.inj list)
  obtain ⟨rfl, rfl⟩ := Prod.mk.inj rest
  obtain ⟨rfl, rfl⟩ := Prod.mk.inj (Except.ok.inj insert)
  exact ⟨fresh, rfl, c, g, line, rfl, h.inserted found fresh blank owner.symm line, exact, behind⟩

/-- An item that is not linked is not found. -/
theorem Shape.findIndex_unlinked (h : Shape t f) {x : TableItem} (fresh : t.item q = none)
    (uncached : ∀ e ∈ t.cached, e.1 ≠ q) :
    ({ t with item := Function.update t.item q (some x) } : TreeTable).TreeTableFindIndex q =
      .ok (-1) := by
  let u : TreeTable := { t with item := Function.update t.item q (some x) }
  have out : q ∉ f.walk := by
    intro mem
    have live := h.isSome mem
    rw [fresh] at live
    exact nomatch live
  have same (p : Ptr) (mem : p ∈ f.walk) : u.item p = t.item p := by
    have ne : p ≠ q := by
      rintro rfl
      exact out mem
    exact Function.update_of_ne ne (some x) t.item
  have linked : f.Linked u.links none u.itemPtr := by
    refine h.linked.congr ?_
    intro p mem
    have field {β : Type} (get : TableItem → Option β) :
        (u.item p).bind get = (t.item p).bind get :=
      congrArg (fun o : Option TableItem => o.bind get) (same p mem)
    exact ⟨field TableItem.parentPtr, field TableItem.succPtr, field TableItem.nextPtr⟩
  have live (p : Ptr) (mem : p ∈ f.walk) : (u.item p).isSome := by
    rw [same p mem]
    exact h.isSome mem
  have unlisted : u.RET_CACHED_INDEX q = none := by
    have not_found : u.cached.find? (fun e => e.1 = q) = none := by
      rw [List.find?_eq_none]
      intro e mem eq
      exact uncached e mem (of_decide_eq_true eq)
    rw [RET_CACHED_INDEX, not_found]
    rfl
  change u.TreeTableFindIndex q = _
  rw [TreeTableFindIndex, unlisted]
  change (u.TreeTableFindIndex_x q u.fuel u.itemPtr 0 >>= _) = _
  have enough : f.size ≤ u.fuel := Nat.le_of_lt h.size_lt_fuel
  rw [TreeTableFindIndex_x_eq linked live enough (Int.le_refl 0), lineOf, if_neg out]
  rfl

/-- An item that is rejected is freed again. -/
theorem Shape.insertItem_rejected {r : Option Ptr} (h : Shape t f) (rejected : new.accepted = false)
    (uncached : ∀ e ∈ t.cached, e.1 ≠ new.ptr)
    (insert : t.TreeTableInsertItem index prevPtr new = .ok (t', r)) : t' = t ∧ r = none := by
  rw [TreeTableInsertItem] at insert
  split at insert
  case isTrue => exact nomatch insert
  case isFalse free =>
  have fresh : t.item new.ptr = none := Option.not_isSome_iff_eq_none.mp free
  rw [rejected] at insert
  let u : TreeTable := { t with item := Function.update t.item new.ptr (some new.item) }
  have item : u.item new.ptr = some new.item := Function.update_self _ _ _
  have find : u.TreeTableFindIndex new.ptr = .ok (-1) := h.findIndex_unlinked fresh uncached
  have removed : TreeTableRemoveItem false false u.fuel u new.ptr (-1) =
      .ok (u.TreeTableFreeItem new.ptr, 0) := by
    rw [fuel, TreeTableRemoveItem, read_eq item, Fuel.ok_bind, if_pos rfl]
    rw [find]
    rfl
  have back : u.TreeTableFreeItem new.ptr = t := by
    have item_eq : Function.update u.item new.ptr none = t.item := by
      change Function.update (Function.update t.item new.ptr (some new.item)) new.ptr none = t.item
      rw [Function.update_idem, ← fresh, Function.update_eq_self]
    rw [TreeTableFreeItem, item_eq]
  obtain ⟨⟨v, n⟩, remove, insert⟩ := Fuel.bind_eq_ok insert
  obtain ⟨rfl, rfl⟩ := Prod.mk.inj (Except.ok.inj (removed.symm.trans remove))
  obtain ⟨rfl, rfl⟩ := Prod.mk.inj (Except.ok.inj insert)
  exact ⟨back, rfl⟩

/-! ### Lists of items -/

section Items

variable {Inv : TreeTable → Prop} {items : List NewItem}

/-- The items of a list after the first one. -/
theorem insertItems_keep
    (keep : ∀ prevPtr t t' r new, new ∈ items → Inv t →
      t.TreeTableInsertItem index (some prevPtr) new = .ok (t', r) → Inv t')
    (prevPtr : Ptr) (start : Inv t)
    (insert : TreeTableInsertItems index (some prevPtr) t items = .ok t') : Inv t' := by
  induction items generalizing t prevPtr with
  | nil => exact Except.ok.inj insert ▸ start
  | cons new items ih =>
    have later := fun prevPtr t t' r new' mem => keep prevPtr t t' r new' (List.mem_cons_of_mem new mem)
    rw [TreeTableInsertItems] at insert
    split at insert
    · exact ih later prevPtr start insert
    obtain ⟨⟨u, r⟩, one, insert⟩ := Fuel.bind_eq_ok insert
    have kept := keep prevPtr t u r new List.mem_cons_self start one
    cases r with
    | none => exact Except.ok.inj insert ▸ kept
    | some p => exact ih later p kept insert

/-- A list of items: the first one is inserted at the line, and each other one after the one
before. -/
theorem insertItems_inv
    (first : ∀ new, items.find? (fun new => new.text ≠ []) = some new → ∀ t' r,
      t.TreeTableInsertItem index none new = .ok (t', r) → Inv t')
    (keep : ∀ prevPtr t t' r new, new ∈ items → Inv t →
      t.TreeTableInsertItem index (some prevPtr) new = .ok (t', r) → Inv t')
    (start : Inv t) (insert : TreeTableInsertItems index none t items = .ok t') : Inv t' := by
  induction items with
  | nil => exact Except.ok.inj insert ▸ start
  | cons new items ih =>
    have later := fun prevPtr t t' r new' mem => keep prevPtr t t' r new' (List.mem_cons_of_mem new mem)
    rw [TreeTableInsertItems] at insert
    split at insert
    case isTrue empty =>
      refine ih ?_ later insert
      intro new' found
      refine first new' ?_
      rwa [List.find?_cons_of_neg (by simpa using empty)]
    case isFalse text =>
      obtain ⟨⟨u, r⟩, one, insert⟩ := Fuel.bind_eq_ok insert
      have kept := first new (List.find?_cons_of_pos (by simpa using text)) u r one
      cases r with
      | none => exact Except.ok.inj insert ▸ kept
      | some p => exact insertItems_keep later p kept insert

end Items

end TreeTable

end SourceNavigator.Hyper

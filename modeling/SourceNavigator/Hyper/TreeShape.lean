import SourceNavigator.Hyper.TreeTableCommand
import SourceNavigator.Lib.ForestCount
import SourceNavigator.Lib.Fuel

/-!
The forest of a tree table.

`Shape t f` says that the items of a table are the nodes of the forest `f`, that
their pointers lead through it, and that their counters are right. Linking an
item in, taking one out, hiding and showing a sub tree and sorting take the
shape of a table to the shape of the forest after the same operation; what the
caches hold plays no part here.
-/

namespace SourceNavigator.Hyper

open Lib

namespace TreeTable

variable {t t' : TreeTable} {p q : Ptr} {x : TableItem}

/-- The pointers of a table. -/
def links (t : TreeTable) : Links Ptr :=
  { head := t.itemPtr
    par := fun p => (t.item p).bind TableItem.parentPtr
    succ := fun p => (t.item p).bind TableItem.succPtr
    next := fun p => (t.item p).bind TableItem.nextPtr }

/-- The counters of a table. -/
def counts (t : TreeTable) : Counts Ptr :=
  { shut := t.hidden
    all := fun p => ((t.item p).map TableItem.succNum).getD 0
    seen := fun p => ((t.item p).map TableItem.seenNum).getD 0 }

section Fields

variable (item : t.item p = some x)
include item

theorem links_par : t.links.par p = x.parentPtr := by
  change (t.item p).bind _ = _
  rw [item, Option.bind_some]

theorem links_succ : t.links.succ p = x.succPtr := by
  change (t.item p).bind _ = _
  rw [item, Option.bind_some]

theorem links_next : t.links.next p = x.nextPtr := by
  change (t.item p).bind _ = _
  rw [item, Option.bind_some]

theorem hidden_eq : t.hidden p = x.hidden_subtree := by
  rw [hidden, item]
  rfl

theorem counts_all : t.counts.all p = x.succNum := by
  change ((t.item p).map _).getD _ = _
  rw [item]
  rfl

theorem counts_seen : t.counts.seen p = x.seenNum := by
  change ((t.item p).map _).getD _ = _
  rw [item]
  rfl

theorem read_eq : t.read p = .ok x := by
  rw [read, item]

end Fields

theorem getCell_eq (t : TreeTable) (cell : Cell Ptr) : t.getCell cell = t.links.get cell := by
  cases cell <;> rfl

theorem item_of_read (h : t.read p = .ok x) : t.item p = some x := by
  cases item : t.item p with
  | none =>
    rw [read, item] at h
    exact nomatch h
  | some y =>
    rw [read, item] at h
    exact congrArg some (Except.ok.inj h)

/-! ### Following pointers -/

theorem follow_eq {pointer : TableItem → Option Ptr} {ptr : Option Ptr} {l : List Ptr} {n : Nat}
    (chain : Chain (fun p => (t.item p).bind pointer) ptr l) (live : ∀ p ∈ l, (t.item p).isSome)
    (enough : l.length ≤ n) : t.follow pointer n ptr = .ok l := by
  induction l generalizing ptr n with
  | nil =>
    obtain rfl : ptr = none := chain
    cases n <;> rfl
  | cons p l ih =>
    obtain ⟨rfl, chain⟩ := chain
    obtain ⟨x, item⟩ := Option.isSome_iff_exists.mp (live p List.mem_cons_self)
    have next : (t.item p).bind pointer = pointer x := by rw [item, Option.bind_some]
    have rest : Chain (fun p => (t.item p).bind pointer) (pointer x) l := next ▸ chain
    cases n with
    | zero => exact absurd enough (Nat.not_succ_le_zero _)
    | succ n =>
      rw [follow, read_eq item, Fuel.ok_bind,
        ih rest (fun q mem => live q (List.mem_cons_of_mem p mem)) (Nat.le_of_succ_le_succ enough)]
      rfl

/-- The items of a forest. -/
structure Shape (t : TreeTable) (f : Forest Ptr) : Prop where
  linked : f.Linked t.links none t.itemPtr
  nodup : f.walk.Nodup
  live : ∀ p, (t.item p).isSome ↔ p ∈ f.walk
  counted : f.Counted t.counts
  numItems : t.numItems = f.size

namespace Shape

variable {f g s n : Forest Ptr} {c : Hole Ptr}

/-- The shape depends on the items only. -/
theorem of_same (h : Shape t f) (item : t'.item = t.item) (itemPtr : t'.itemPtr = t.itemPtr)
    (numItems : t'.numItems = t.numItems) : Shape t' f := by
  have links : t'.links = t.links := by rw [links, links, item, itemPtr]
  have counts : t'.counts = t.counts := by
    unfold counts hidden
    rw [item]
  exact
    { linked := by rw [links, itemPtr]; exact h.linked
      nodup := h.nodup
      live := by rw [item]; exact h.live
      counted := by rw [counts]; exact h.counted
      numItems := numItems.trans h.numItems }

theorem of_items (h : Shape t f) (same : t'.toItems = t.toItems) : Shape t' f :=
  h.of_same (congrArg Items.item same) (congrArg Items.itemPtr same)
    (congrArg Items.numItems same)

theorem isSome (h : Shape t f) (mem : p ∈ f.walk) : (t.item p).isSome := (h.live p).mpr mem

theorem exists_item (h : Shape t f) (mem : p ∈ f.walk) : ∃ x, t.item p = some x :=
  Option.isSome_iff_exists.mp (h.isSome mem)

theorem mem (h : Shape t f) (item : t.item p = some x) : p ∈ f.walk :=
  (h.live p).mp (by rw [item]; rfl)

theorem size_lt_fuel (h : Shape t f) : f.size < t.fuel := by
  rw [fuel, h.numItems, Int.toNat_natCast]
  exact Nat.lt_succ_self _

theorem length_le_fuel (h : Shape t f) {l : List Ptr} (sub : l.Sublist f.walk) :
    l.length ≤ t.fuel := by
  have short := sub.length_le
  rw [f.length_walk] at short
  exact Nat.le_of_lt (Nat.lt_of_le_of_lt short h.size_lt_fuel)

theorem around (h : Shape t (c.fill g)) :
    c.Linked t.links ∧ g.Linked t.links c.owner (t.links.get c.cell) :=
  Hole.linked_fill.mp h.linked

/-- Reading the list from a hole on. -/
theorem siblings (h : Shape t (c.fill g)) : t.siblings (t.links.get c.cell) = .ok g.tops :=
  follow_eq h.around.2.chain
    (fun _ mem => h.isSome (Hole.mem_walk_fill.mpr (.inr (Forest.mem_walk_of_tops mem))))
    (h.length_le_fuel ((List.sublist_append_right _ _).trans (c.lefts_sublist g)))

theorem ancestors (h : Shape t (c.fill g)) : t.ancestors c.owner = .ok c.ancestors := by
  refine follow_eq h.around.1.ancestors
    (fun _ mem => h.isSome (Hole.mem_walk_fill.mpr (.inl (Hole.mem_rest_of_ancestors mem)))) ?_
  have short := h.size_lt_fuel
  rw [Hole.size_fill] at short
  exact Nat.le_of_lt (Nat.lt_of_le_of_lt
    (c.length_ancestors_le.trans (Nat.le_add_right _ _)) short)

/-- The pointers of the item at a hole. -/
theorem item_at (h : Shape t (c.fill (.node p s n))) (item : t.item p = some x) :
    t.links.get c.cell = some p ∧ x.parentPtr = c.owner ∧
      s.Linked t.links (some p) x.succPtr ∧ n.Linked t.links c.owner x.nextPtr := by
  obtain ⟨-, here, par, sub, next⟩ := h.around
  rw [links_par item] at par
  rw [links_succ item] at sub
  rw [links_next item] at next
  exact ⟨here, par, sub, next⟩

/-- The counters of the item at a hole. -/
theorem counts_at (h : Shape t (c.fill (.node p s n))) (item : t.item p = some x) :
    x.succNum = s.size ∧ x.seenNum = if x.hidden_subtree then 0 else (s.seen t.hidden : Int) := by
  obtain ⟨-, all, seen, -, -⟩ := Hole.counted_fill.mp h.counted
  have shut : t.counts.shut p = x.hidden_subtree := hidden_eq item
  rw [counts_all item] at all
  rw [counts_seen item, shut] at seen
  exact ⟨all, seen⟩

end Shape

/-! ### Writing to items -/

section Modify

variable {change : TableItem → TableItem}

theorem item_modify_self : (t.modify p change).item p = (t.item p).map change :=
  Function.update_self p _ t.item

theorem item_modify_ne (ne : q ≠ p) : (t.modify p change).item q = t.item q :=
  Function.update_of_ne ne _ t.item

theorem isSome_modify (q : Ptr) : ((t.modify p change).item q).isSome = (t.item q).isSome := by
  by_cases eq : q = p
  · rw [eq, item_modify_self, Option.isSome_map]
  · rw [item_modify_ne eq]

theorem map_modify {β : Type} (field : TableItem → β) (same : ∀ x, field (change x) = field x)
    (q : Ptr) : ((t.modify p change).item q).map field = (t.item q).map field := by
  by_cases eq : q = p
  · rw [eq, item_modify_self, Option.map_map]
    exact congrArg (fun f => (t.item p).map f) (funext same)
  · rw [item_modify_ne eq]

theorem bind_modify {β : Type} (field : TableItem → Option β)
    (same : ∀ x, field (change x) = field x) (q : Ptr) :
    ((t.modify p change).item q).bind field = (t.item q).bind field := by
  by_cases eq : q = p
  · rw [eq, item_modify_self, Option.bind_map]
    exact congrArg (fun f => (t.item p).bind f) (funext same)
  · rw [item_modify_ne eq]

theorem hidden_modify (same : ∀ x, (change x).hidden_subtree = x.hidden_subtree) :
    (t.modify p change).hidden = t.hidden :=
  funext fun q => congrArg (fun o : Option Bool => o.getD false) (map_modify _ same q)

/-- A write of one of the pointers. -/
theorem links_setCell {cell : Cell Ptr} {ptr : Option Ptr}
    (live : ∀ p, cell = .succ p ∨ cell = .next p → (t.item p).isSome) :
    (t.setCell cell ptr).links = t.links.set cell ptr := by
  cases cell with
  | head => rfl
  | succ p =>
    obtain ⟨x, item⟩ := Option.isSome_iff_exists.mp (live p (.inl rfl))
    refine Links.ext rfl ?_ ?_ ?_
    · exact funext fun q => bind_modify TableItem.parentPtr (by exact fun _ => rfl) q
    · refine funext fun q => ?_
      change ((t.modify p _).item q).bind _ = Function.update t.links.succ p ptr q
      by_cases eq : q = p
      · rw [eq, item_modify_self, item, Function.update_self]
        rfl
      · rw [item_modify_ne eq, Function.update_of_ne eq]
        rfl
    · exact funext fun q => bind_modify TableItem.nextPtr (by exact fun _ => rfl) q
  | next p =>
    obtain ⟨x, item⟩ := Option.isSome_iff_exists.mp (live p (.inr rfl))
    refine Links.ext rfl ?_ ?_ ?_
    · exact funext fun q => bind_modify TableItem.parentPtr (by exact fun _ => rfl) q
    · exact funext fun q => bind_modify TableItem.succPtr (by exact fun _ => rfl) q
    · refine funext fun q => ?_
      change ((t.modify p _).item q).bind _ = Function.update t.links.next p ptr q
      by_cases eq : q = p
      · rw [eq, item_modify_self, item, Function.update_self]
        rfl
      · rw [item_modify_ne eq, Function.update_of_ne eq]
        rfl

/-- A change of an item that keeps its counters and its flag. -/
theorem counts_modify (shut : ∀ x, (change x).hidden_subtree = x.hidden_subtree)
    (all : ∀ x, (change x).succNum = x.succNum) (seen : ∀ x, (change x).seenNum = x.seenNum) :
    (t.modify p change).counts = t.counts :=
  Counts.ext (hidden_modify shut)
    (funext fun q => congrArg (fun o : Option Int => o.getD 0) (map_modify _ all q))
    (funext fun q => congrArg (fun o : Option Int => o.getD 0) (map_modify _ seen q))

theorem counts_setCell (t : TreeTable) (cell : Cell Ptr) (ptr : Option Ptr) :
    (t.setCell cell ptr).counts = t.counts := by
  cases cell with
  | head => rfl
  | succ p => exact counts_modify (fun _ => rfl) (fun _ => rfl) fun _ => rfl
  | next p => exact counts_modify (fun _ => rfl) (fun _ => rfl) fun _ => rfl

theorem isSome_setCell (t : TreeTable) (cell : Cell Ptr) (ptr : Option Ptr) (q : Ptr) :
    ((t.setCell cell ptr).item q).isSome = (t.item q).isSome := by
  cases cell with
  | head => rfl
  | succ p => exact isSome_modify q
  | next p => exact isSome_modify q

end Modify

/-! ### Linking an item in -/

section Link

variable {new : TableItem} {cell : Cell Ptr} (fresh : t.item q = none)
include fresh

theorem links_link (succPtr : new.succPtr = none)
    (live : ∀ p, cell = .succ p ∨ cell = .next p → (t.item p).isSome) :
    (t.link q new cell).links = t.links.insert cell new.parentPtr q := by
  let u : TreeTable :=
    { t with
      item := Function.update t.item q (some { new with nextPtr := t.getCell cell }) }
  have bind_update (field : TableItem → Option Ptr) :
      (fun p => (u.item p).bind field) =
        Function.update (fun p => (t.item p).bind field) q
          (field { new with nextPtr := t.getCell cell }) := by
    funext p
    by_cases eq : p = q
    · simp [u, eq]
    · simp [u, eq]
  have same : u.links =
      { t.links with
        par := Function.update t.links.par q new.parentPtr
        succ := Function.update t.links.succ q none
        next := Function.update t.links.next q (t.links.get cell) } := by
    refine Links.ext rfl (bind_update TableItem.parentPtr) ?_ ?_
    · exact (bind_update TableItem.succPtr).trans (congrArg _ succPtr)
    · exact (bind_update TableItem.nextPtr).trans (congrArg _ (t.getCell_eq cell))
  have live' (p : Ptr) (h : cell = .succ p ∨ cell = .next p) : (u.item p).isSome := by
    have ne : p ≠ q := fun eq => by
      have := live p h
      rw [eq, fresh] at this
      exact nomatch this
    rw [show u.item p = t.item p from Function.update_of_ne ne _ _]
    exact live p h
  rw [Links.insert, ← same]
  exact links_setCell live'

theorem counts_link (shut : new.hidden_subtree = false) (all : new.succNum = 0)
    (seen : new.seenNum = 0) : (t.link q new cell).counts = t.counts := by
  refine (counts_setCell _ cell _).trans ?_
  have map_update {β : Type} (field : TableItem → β) (d : β)
      (eq : field { new with nextPtr := t.getCell cell } = d) (p : Ptr) :
      ((Function.update t.item q (some { new with nextPtr := t.getCell cell }) p).map field).getD d =
        ((t.item p).map field).getD d := by
    by_cases here : p = q
    · rw [here, Function.update_self, fresh]
      exact eq
    · rw [Function.update_of_ne here]
  exact Counts.ext (funext (map_update TableItem.hidden_subtree false shut))
    (funext (map_update TableItem.succNum 0 all)) (funext (map_update TableItem.seenNum 0 seen))

end Link

theorem isSome_link {new : TableItem} {cell : Cell Ptr} :
    ((t.link q new cell).item p).isSome ↔ p = q ∨ (t.item p).isSome := by
  rw [link, isSome_setCell]
  by_cases eq : p = q
  · simp [eq]
  · simp [eq]

/-! ### Going up -/

/-- An item without its counters. -/
def plain (x : TableItem) : TableItem := { x with succNum := 0, seenNum := 0 }

section Plain

variable {o o' : Option TableItem} (h : o'.map plain = o.map plain)
include h

theorem map_of_plain {β : Type} (field : TableItem → β) (same : ∀ x, field (plain x) = field x) :
    o'.map field = o.map field := by
  have through (o : Option TableItem) : (o.map plain).map field = o.map field := by
    rw [Option.map_map]
    exact congrArg (fun f => o.map f) (funext same)
  rw [← through, h, through]

theorem bind_of_plain {β : Type} (field : TableItem → Option β)
    (same : ∀ x, field (plain x) = field x) : o'.bind field = o.bind field := by
  have join_map (o : Option TableItem) : (o.map field).join = o.bind field := by
    cases o <;> rfl
  rw [← join_map, map_of_plain h field same, join_map]

theorem isSome_of_plain : o'.isSome = o.isSome := by
  have eq := congrArg Option.isSome h
  rwa [Option.isSome_map, Option.isSome_map] at eq

end Plain

/-- Two tables differ in the counters of their items only. -/
structure Recounted (t t' : TreeTable) : Prop where
  kept : ∀ p, (t'.item p).map plain = (t.item p).map plain
  rest : t' = { t with item := t'.item }

namespace Recounted

theorem refl (t : TreeTable) : Recounted t t := ⟨fun _ => rfl, rfl⟩

theorem trans {t'' : TreeTable} (h : Recounted t t') (h' : Recounted t' t'') :
    Recounted t t'' := by
  refine ⟨fun p => (h'.kept p).trans (h.kept p), ?_⟩
  rw [h'.rest, h.rest]

theorem isSome (h : Recounted t t') (p : Ptr) : (t'.item p).isSome = (t.item p).isSome :=
  isSome_of_plain (h.kept p)

theorem links (h : Recounted t t') : t'.links = t.links := by
  refine Links.ext ?_ (funext fun p => bind_of_plain (h.kept p) _ fun _ => rfl)
    (funext fun p => bind_of_plain (h.kept p) _ fun _ => rfl)
    (funext fun p => bind_of_plain (h.kept p) _ fun _ => rfl)
  have itemPtr := congrArg (fun t : TreeTable => t.itemPtr) h.rest
  exact itemPtr

theorem hidden (h : Recounted t t') : t'.hidden = t.hidden :=
  funext fun p => congrArg (fun o : Option Bool => o.getD false)
    (map_of_plain (h.kept p) _ fun _ => rfl)

/-- A change of the counters of one item. -/
theorem modify {change : TableItem → TableItem}
    (same : ∀ x, plain (change x) = plain x) : Recounted t (t.modify p change) :=
  ⟨map_modify _ same, rfl⟩

end Recounted

theorem recounted_climb (n : Int) (above : List Ptr) (t : TreeTable) (hid : Bool) :
    Recounted t (climb n t hid above).1 := by
  induction above generalizing t hid with
  | nil => exact .refl t
  | cons p above ih => exact (Recounted.modify (by exact fun _ => rfl)).trans (ih _ _)

theorem hidden_climb (n : Int) (above : List Ptr) (t : TreeTable) (hid : Bool) :
    (climb n t hid above).2 = (hid || above.any t.hidden) := by
  induction above generalizing t hid with
  | nil => exact (Bool.or_false hid).symm
  | cons p above ih =>
    rw [climb, ih, hidden_modify (by exact fun _ => rfl), List.any_cons, Bool.or_assoc]

/-- Adding to the counters of one item. -/
theorem counts_add {k v : Int} (item : t.item p = some x) :
    (t.modify p fun x => { x with succNum := x.succNum + k, seenNum := x.seenNum + v }).counts =
      t.counts.add p k v := by
  have update {field : TableItem → Int} {change : TableItem → TableItem} {d : Int}
      (eq : field (change x) = field x + d) (q : Ptr) :
      (((t.modify p change).item q).map field).getD 0 =
        Function.update (fun q => ((t.item q).map field).getD 0) p
          (((t.item p).map field).getD 0 + d) q := by
    by_cases here : q = p
    · rw [here, item_modify_self, Function.update_self, item]
      exact eq
    · rw [item_modify_ne here, Function.update_of_ne here]
  exact Counts.ext (hidden_modify (by exact fun _ => rfl)) (funext (update (by rfl)))
    (funext (update (by rfl)))

theorem counts_climb (n : Int) {above : List Ptr} {t : TreeTable} {hid : Bool}
    (live : ∀ p ∈ above, (t.item p).isSome) :
    (climb n t hid above).1.counts = t.counts.climb n (if hid then 0 else n) above := by
  induction above generalizing t hid with
  | nil => rfl
  | cons p above ih =>
    obtain ⟨x, item⟩ := Option.isSome_iff_exists.mp (live p List.mem_cons_self)
    let v := if hid || t.hidden p then 0 else n
    have change_eq : (fun x : TableItem =>
        { x with
          succNum := x.succNum + n
          seenNum := if hid || t.hidden p then x.seenNum else x.seenNum + n }) =
        fun x => { x with succNum := x.succNum + n, seenNum := x.seenNum + v } := by
      funext x
      cases eq : hid || t.hidden p <;> simp [v, eq]
    have v_eq : (if t.counts.shut p then 0 else if hid then 0 else n) = v := by
      change (if t.hidden p then 0 else if hid then 0 else n) = v
      cases hid <;> cases eq : t.hidden p <;> simp [v, eq]
    rw [climb, Counts.climb, v_eq, change_eq, ih fun q mem => by
      rw [isSome_modify]; exact live q (List.mem_cons_of_mem p mem), counts_add item]

/-! ### Insertion -/

/-- An item that has no sub tree yet. -/
structure Blank (new : TableItem) : Prop where
  succPtr : new.succPtr = none
  shown : new.hidden_subtree = false
  succNum : new.succNum = 0
  seenNum : new.seenNum = 0

section Insert

variable {c : Hole Ptr} {g : Forest Ptr} {new : TableItem}

/-- A new item is linked in at a hole, and the items above are told. -/
theorem Shape.insert (h : Shape t (c.fill g)) (fresh : t.item q = none) (blank : Blank new)
    (owner : new.parentPtr = c.owner)
    (item : t'.item = (climb 1 (t.link q new c.cell) false c.ancestors).1.item)
    (itemPtr : t'.itemPtr = (climb 1 (t.link q new c.cell) false c.ancestors).1.itemPtr)
    (numItems : t'.numItems = t.numItems + 1) :
    Shape t' (c.fill (.node q .nil g)) := by
  have out : q ∉ (c.fill g).walk := fun mem => by
    have live := h.isSome mem
    rw [fresh] at live
    exact nomatch live
  have cell_live (p : Ptr) (at_p : c.cell = .succ p ∨ c.cell = .next p) : (t.item p).isSome :=
    h.isSome (Hole.mem_walk_fill.mpr (.inl (Hole.mem_rest_of_cell at_p)))
  obtain ⟨rest_nodup, g_nodup, apart⟩ := Hole.nodup_fill.mp h.nodup
  obtain ⟨out_rest, out_g⟩ := not_or.mp (mt Hole.mem_walk_fill.mpr out)
  let u := t.link q new c.cell
  let r := (climb 1 u false c.ancestors).1
  have recount : Recounted u r := recounted_climb 1 c.ancestors u false
  have u_live (p : Ptr) (mem : p ∈ c.ancestors) : (u.item p).isSome :=
    isSome_link.mpr (.inr (h.isSome (Hole.mem_walk_fill.mpr (.inl
      (Hole.mem_rest_of_ancestors mem)))))
  have counts : r.counts = t.counts.climb 1 1 c.ancestors := by
    rw [← counts_link fresh blank.shown blank.succNum blank.seenNum]
    exact counts_climb 1 u_live
  have links : r.links = t.links.insert c.cell c.owner q := by
    rw [recount.links, ← owner]
    exact links_link fresh blank.succPtr cell_live
  have shape : Shape { r with numItems := t.numItems + 1 } (c.fill (.node q .nil g)) := by
    refine ⟨?_, ?_, ?_, ?_, ?_⟩
    · change (c.fill (.node q .nil g)).Linked r.links none r.links.head
      rw [links]
      exact Links.insert_linked out h.nodup h.linked
    · refine Hole.nodup_fill.mpr ⟨rest_nodup, ?_, ?_⟩
      · exact List.nodup_cons.mpr ⟨out_g, g_nodup⟩
      · intro p mem in_node
        rcases Forest.mem_walk_node.mp in_node with rfl | in_nil | in_g
        · exact out_rest mem
        · exact nomatch in_nil
        · exact apart p mem in_g
    · intro p
      change (r.item p).isSome ↔ _
      rw [recount.isSome, isSome_link, h.live, Hole.mem_walk_fill, Hole.mem_walk_fill,
        Forest.mem_walk_node, Forest.walk]
      simp only [List.not_mem_nil, false_or]
      tauto
    · change (c.fill (.node q .nil g)).Counted r.counts
      obtain ⟨around, inside⟩ := Hole.counted_fill.mp h.counted
      have same : t.counts.AgreeOn r.counts (q :: g.walk) := by
        rw [counts]
        refine Counts.agreeOn_climb fun p mem in_node => ?_
        have in_rest := Hole.mem_rest_of_ancestors mem
        rcases List.mem_cons.mp in_node with rfl | in_g
        · exact out_rest in_rest
        · exact apart p in_rest in_g
      have shut : r.counts.shut = t.counts.shut := by rw [counts, Counts.shut_climb]
      obtain ⟨all_q, seen_q⟩ := same q List.mem_cons_self
      refine Hole.counted_fill.mpr ⟨?_, ?_, ?_, trivial, ?_⟩
      · have more := around.climb 1 1 rest_nodup
        rw [← counts] at more
        rw [shut]
        convert more using 1
        · simp [Int.add_comm]
        · simp [Int.add_comm]
      · rw [all_q]
        change ((t.item q).map _).getD 0 = 0
        rw [fresh]
        rfl
      · rw [seen_q]
        change ((t.item q).map _).getD 0 = _
        rw [fresh]
        simp
      · exact inside.congr (same.mono fun p mem => List.mem_cons_of_mem q mem)
          fun p _ => congrFun shut p
    · change t.numItems + 1 = _
      rw [h.numItems, Hole.size_fill, Hole.size_fill, Forest.size, Forest.size]
      push_cast
      ring
  exact shape.of_same item itemPtr numItems

end Insert

end TreeTable

end SourceNavigator.Hyper

import SourceNavigator.Hyper.TreeLookup

/-!
The place of a new item in a tree table.

The pointer that will point to the new item is the pointer of a hole of the
forest, and the items above are the ancestors of the hole (`Shape.findPlace`).
The line that is reported for it is the line of the hole when `exactPlace`
holds: an item from the cache has no sub tree of its own, and an item of the
root list goes to the end of the table or before another one of the root list.
Without a right cache the pointer may lead to another list; `properPlace` is
what keeps the new item in the list of its parent.
-/

namespace SourceNavigator.Hyper

open Lib

namespace TreeTable

/-- An item that is cached for the line before is a child of the parent, or the search goes over
the first child. -/
def properPlace (t : TreeTable) (new : TableItem) (index : Int) : Bool :=
  match t.findParent new.parent with
  | .ok (t, some p) =>
    t.sortedInsertion || ((t.item p).bind TableItem.succPtr).isNone ||
      ((t.GET_CACHED_ITEM (index - 1)).bind t.item).all fun y =>
        y.parentPtr = some p || new.parent + 1 < index
  | _ => true

/-- The item that is cached for the line before is no child of the parent, or it has no sub tree;
the item at the line is in the root list when the new item gets there. -/
def exactPlace (t : TreeTable) (new : TableItem) (index : Int) : Bool :=
  match t.findParent new.parent with
  | .ok (t, some p) =>
    t.sortedInsertion || ((t.item p).bind TableItem.succPtr).isNone ||
      ((t.GET_CACHED_ITEM (index - 1)).bind t.item).all fun y =>
        y.parentPtr ≠ some p || y.succNum = 0
  | .ok (t, none) =>
    t.sortedInsertion ||
      match t.TreeTableFindItem index with
      | .ok (t, some q) => ((t.item q).bind TableItem.parentPtr).isNone
      | _ => true
  | .error _ => true

variable {t t' : TreeTable} {p q : Ptr} {x : TableItem} {f g : Forest Ptr} {c : Hole Ptr}
  {index newIndex : Int} {posPtr : Option Ptr}

/-! ### Going over a list -/

/-- From one place of a list to a later one: the item to insert after, and the line. -/
structure Further (c : Hole Ptr) (g : Forest Ptr) (posPtr : Option Ptr) (newIndex : Int)
    (c' : Hole Ptr) (g' : Forest Ptr) (posPtr' : Option Ptr) (newIndex' : Int) : Prop where
  fill : c'.fill g' = c.fill g
  ancestors : c'.ancestors = c.ancestors
  line : newIndex' - newIndex = c'.before.length - c.before.length
  cell : posPtr' = posPtr ∧ c' = c ∨ ∃ q, posPtr' = some q ∧ c'.cell = .next q

theorem Further.refl : Further c g posPtr newIndex c g posPtr newIndex :=
  ⟨rfl, rfl, by omega, .inl ⟨rfl, rfl⟩⟩

/-- Over one item and its sub tree. -/
theorem Further.pass {s m : Forest Ptr} {c' : Hole Ptr} {g' : Forest Ptr} {posPtr' : Option Ptr}
    {newIndex' succNum : Int} (all : succNum = s.size)
    (rest : Further (.behind p s c) m (some p) (newIndex + 1 + succNum) c' g' posPtr' newIndex') :
    Further c (.node p s m) posPtr newIndex c' g' posPtr' newIndex' ∧
      ∃ q, posPtr' = some q ∧ c'.cell = .next q := by
  have cell : ∃ q, posPtr' = some q ∧ c'.cell = .next q := by
    rcases rest.cell with ⟨rfl, rfl⟩ | other
    · exact ⟨p, rfl, rfl⟩
    · exact other
  refine ⟨⟨rest.fill, rest.ancestors, ?_, .inr cell⟩, cell⟩
  have line := rest.line
  rw [Hole.before, List.length_append, List.length_cons, Forest.length_walk] at line
  push_cast at line
  omega

theorem Shape.sortFindPrev (h : Shape t (c.fill g)) (text : Text) (posPtr : Option Ptr)
    (newIndex : Int) :
    ∃ posPtr' newIndex' c' g',
      t.TreeTableSortFindPrev text g.tops posPtr newIndex = .ok (posPtr', newIndex') ∧
        Further c g posPtr newIndex c' g' posPtr' newIndex' := by
  induction g generalizing c posPtr newIndex with
  | nil => exact ⟨posPtr, newIndex, c, .nil, rfl, .refl⟩
  | node p s m _ ih =>
    obtain ⟨x, item⟩ := h.exists_item (Hole.mem_walk_fill.mpr (.inr List.mem_cons_self))
    obtain ⟨all, -⟩ := h.counts_at item
    rw [Forest.tops, TreeTableSortFindPrev, read_eq item, Fuel.ok_bind]
    split
    · exact ⟨posPtr, newIndex, c, .node p s m, rfl, .refl⟩
    · obtain ⟨posPtr', newIndex', c', g', loop, further⟩ :=
        ih (c := .behind p s c) h (some p) (newIndex + 1 + x.succNum)
      exact ⟨posPtr', newIndex', c', g', loop, (further.pass all).1⟩

theorem Shape.skipItems (h : Shape t (c.fill g)) (i : Int) (posPtr : Option Ptr)
    (newIndex : Int) :
    ∃ posPtr' newIndex' c' g',
      t.skipItems g.tops i posPtr newIndex = .ok (posPtr', newIndex') ∧
        Further c g posPtr newIndex c' g' posPtr' newIndex' ∧
        (0 < i → g ≠ .nil → ∃ q, posPtr' = some q ∧ c'.cell = .next q) := by
  induction g generalizing c posPtr newIndex i with
  | nil =>
    refine ⟨posPtr, newIndex, c, .nil, rfl, .refl, ?_⟩
    intro _ ne
    exact absurd rfl ne
  | node p s m _ ih =>
    obtain ⟨x, item⟩ := h.exists_item (Hole.mem_walk_fill.mpr (.inr List.mem_cons_self))
    obtain ⟨all, -⟩ := h.counts_at item
    rw [Forest.tops, TreeTable.skipItems]
    split
    case isTrue more =>
      obtain ⟨posPtr', newIndex', c', g', loop, further, -⟩ :=
        ih (c := .behind p s c) h (i - 1) (some p) (newIndex + 1 + x.succNum)
      obtain ⟨passed, cell⟩ := further.pass all
      refine ⟨posPtr', newIndex', c', g', ?_, passed, fun _ _ => cell⟩
      rw [read_eq item, Fuel.ok_bind]
      exact loop
    case isFalse done =>
      refine ⟨posPtr, newIndex, c, .node p s m, rfl, .refl, ?_⟩
      intro more
      exact absurd more done

/-! ### The parent -/

/-- What a look up leaves behind. -/
structure Found (t t' : TreeTable) (f : Forest Ptr) : Prop where
  looked : Looked t t'
  cached : ∀ e ∈ t'.cached, e ∈ t.cached ∨ (t.item e.1).isSome
  lines : Lines t f → Lines t' f

namespace Found

theorem refl (t : TreeTable) (f : Forest Ptr) : Found t t f :=
  ⟨.refl t, fun _ mem => .inl mem, fun lines => lines⟩

theorem trans {t'' : TreeTable} (h : Found t t' f) (h' : Found t' t'' f) : Found t t'' f := by
  refine ⟨h.looked.trans h'.looked, ?_, fun lines => h'.lines (h.lines lines)⟩
  intro e mem
  rcases h'.cached e mem with mem | live
  · exact h.cached e mem
  · right
    rwa [← congrArg Items.item h.looked.toItems]

theorem shape (h : Found t t' f) (shape : Shape t f) : Shape t' f := shape.of_items h.looked.toItems

theorem item (h : Found t t' f) : t'.item = t.item := congrArg Items.item h.looked.toItems

end Found

theorem Shape.found (h : Shape t f) {r : Option Ptr}
    (find : t.TreeTableFindItem index = .ok (t', r)) :
    Found t t' f ∧ (Lines t f → ∀ p, r = some p → At f p index) := by
  obtain ⟨looked, cached⟩ := h.looked_find find
  by_cases nonneg : 0 ≤ index
  case neg =>
    rw [TreeTableFindItem, if_pos (Int.not_le.mp nonneg)] at find
    obtain ⟨rfl, rfl⟩ := Prod.mk.inj (Except.ok.inj find)
    exact ⟨.refl t f, by rintro _ _ ⟨⟩⟩
  have right (lines : Lines t f) : Lines t' f ∧ r = f.walk[index.toNat]? := by
    obtain ⟨t₁, find', -, lines'⟩ := TreeTableFindItem_eq h lines nonneg
    obtain ⟨rfl, rfl⟩ := Prod.mk.inj (Except.ok.inj (find.symm.trans find'))
    exact ⟨lines', rfl⟩
  refine ⟨⟨looked, cached, fun lines => (right lines).1⟩, ?_⟩
  intro lines p eq
  exact ⟨nonneg, (right lines).2.symm.trans eq⟩

theorem Shape.findParent (h : Shape t f) {parent : Int} {r : Option Ptr}
    (find : t.findParent parent = .ok (t', r)) :
    Found t t' f ∧ ∀ p, r = some p → p ∈ f.walk ∧ (Lines t f → At f p parent) := by
  rw [TreeTable.findParent] at find
  split at find
  case isFalse none =>
    obtain ⟨rfl, rfl⟩ := Prod.mk.inj (Except.ok.inj find)
    exact ⟨.refl t f, fun p eq => nomatch eq⟩
  obtain ⟨⟨t₁, parentPtr⟩, get, find⟩ := Fuel.bind_eq_ok find
  have got : Found t t₁ f ∧ (Lines t f → ∀ p, parentPtr = some p → At f p parent) := by
    rw [GET_CACHED_PARENT] at get
    split at get
    case h_2 => exact h.found get
    case h_1 p cachedParent cached =>
      split at get
      case isFalse => exact h.found get
      case isTrue line =>
        obtain ⟨rfl, rfl⟩ := Prod.mk.inj (Except.ok.inj get)
        refine ⟨.refl t f, ?_⟩
        intro lines q eq
        obtain rfl := Option.some.inj eq
        rw [← line]
        exact lines.parent _ cached
  obtain ⟨found, right⟩ := got
  cases parentPtr with
  | none =>
    obtain ⟨rfl, rfl⟩ := Prod.mk.inj (Except.ok.inj find)
    exact ⟨found, fun p eq => nomatch eq⟩
  | some p =>
    obtain ⟨x, read, find⟩ := Fuel.bind_eq_ok find
    obtain ⟨rfl, rfl⟩ := Prod.mk.inj (Except.ok.inj find)
    refine ⟨⟨?_, found.cached, ?_⟩, ?_⟩
    · exact found.looked.trans ⟨rfl⟩
    · intro lines
      have lines' := found.lines lines
      refine ⟨lines'.cached, ?_, lines'.stations⟩
      intro e eq
      obtain rfl := Option.some.inj eq
      exact right lines p rfl
    · intro q eq
      obtain rfl := Option.some.inj eq
      exact ⟨(found.shape h).mem (item_of_read read), fun lines => right lines p rfl⟩

/-! ### The list of the parent -/

section Child

variable {s m : Forest Ptr} {new : TableItem}

/-- The pointer after an item, or the first pointer of a list. -/
def cellAfter (first : Cell Ptr) (posPtr : Option Ptr) : Cell Ptr := posPtr.elim first .next

theorem Further.cellAfter {c' : Hole Ptr} {g' : Forest Ptr} {newIndex' : Int}
    (h : Further c g none newIndex c' g' posPtr newIndex') :
    cellAfter c.cell posPtr = c'.cell := by
  rcases h.cell with ⟨rfl, rfl⟩ | ⟨q, rfl, next⟩
  · rfl
  · exact next.symm

/-- A pointer leads to a hole of the forest, in the list of an owner. When the condition holds the
line is the line of the hole. -/
def Place (f : Forest Ptr) (owner : Option Ptr) (cell : Cell Ptr) (newIndex : Int) (exact : Prop) :
    Prop :=
  ∃ (c : Hole Ptr) (g : Forest Ptr),
    c.fill g = f ∧ c.owner = owner ∧ c.cell = cell ∧ (exact → newIndex = c.before.length)

theorem Place.mono {owner : Option Ptr} {cell : Cell Ptr} {exact exact' : Prop}
    (h : Place f owner cell newIndex exact) (weaker : exact' → exact) :
    Place f owner cell newIndex exact' := by
  obtain ⟨c, g, fill, up, here, line⟩ := h
  exact ⟨c, g, fill, up, here, fun holds => line (weaker holds)⟩

/-- What the cache may hold for the line before a new item. -/
structure Proper (t : TreeTable) (p : Ptr) (new : TableItem) (index : Int) : Prop where
  cached : t.sortedInsertion = false → ∀ q y, t.GET_CACHED_ITEM (index - 1) = some q →
    t.item q = some y → y.parentPtr = some p ∨ new.parent + 1 < index

/-- No child with a sub tree is cached for the line before a new item. -/
structure Exact (t : TreeTable) (p : Ptr) (index : Int) : Prop where
  cached : t.sortedInsertion = false → ∀ q y, t.GET_CACHED_ITEM (index - 1) = some q →
    t.item q = some y → y.parentPtr = some p → y.succNum = 0

/-- The place after an item of the list of a parent. -/
theorem Shape.findPrev (h : Shape t (c.fill (.node p s m))) (inner : s ≠ .nil)
    (proper : Proper t p new index)
    (found : t.findPrev p s.tops new index = .ok (posPtr, newIndex)) :
    Place (c.fill (.node p s m)) (some p) (cellAfter (.succ p) posPtr) newIndex
      (Lines t (c.fill (.node p s m)) ∧ new.parent = c.before.length ∧ Exact t p index) := by
  have start : ((Hole.under p m c).before.length : Int) = c.before.length + 1 := by
    rw [Hole.before, List.length_append, List.length_singleton]
    push_cast
    rfl
  -- the place is reached by going over some children
  have reached {posPtr₀ : Option Ptr} {c' : Hole Ptr} {g' : Forest Ptr}
      (walk : Further (.under p m c) s posPtr₀ (new.parent + 1) c' g' posPtr newIndex)
      (cell : cellAfter (.succ p) posPtr = c'.cell) :
      Place (c.fill (.node p s m)) (some p) (cellAfter (.succ p) posPtr) newIndex
        (Lines t (c.fill (.node p s m)) ∧ new.parent = c.before.length ∧ Exact t p index) := by
    refine ⟨c', g', walk.fill, ?_, cell.symm, ?_⟩
    · rw [Hole.owner, walk.ancestors]
      rfl
    · rintro ⟨_, line, _⟩
      have moved := walk.line
      omega
  rw [TreeTable.findPrev] at found
  split at found
  case isTrue sorted =>
    obtain ⟨posPtr', newIndex', c', g', loop, walk⟩ :=
      Shape.sortFindPrev (c := .under p m c) h new.text none (new.parent + 1)
    obtain ⟨rfl, rfl⟩ := Prod.mk.inj (Except.ok.inj (found.symm.trans loop))
    exact reached walk walk.cellAfter
  case isFalse unsorted =>
    have unsorted : t.sortedInsertion = false := Bool.eq_false_iff.mpr unsorted
    cases cached : t.GET_CACHED_ITEM (index - 1) with
    | none =>
      rw [cached] at found
      obtain ⟨posPtr', newIndex', c', g', loop, walk, -⟩ :=
        Shape.skipItems (c := .under p m c) h (index - new.parent - 1) none (new.parent + 1)
      obtain ⟨rfl, rfl⟩ := Prod.mk.inj (Except.ok.inj (found.symm.trans loop))
      exact reached walk walk.cellAfter
    | some q =>
      rw [cached] at found
      obtain ⟨y, read, found⟩ := Fuel.bind_eq_ok found
      have item := item_of_read read
      split at found
      case isTrue child =>
        obtain ⟨rfl, rfl⟩ := Prod.mk.inj (Except.ok.inj found)
        obtain ⟨c', s', n', eq⟩ := Hole.exists_hole (h.mem item)
        have there : Shape t (c'.fill (.node q s' n')) := eq ▸ h
        obtain ⟨-, owner, -, -⟩ := there.item_at item
        refine ⟨.behind q s' c', n', eq.symm, owner.symm.trans child, rfl, ?_⟩
        rintro ⟨lines, _, exact⟩
        have here := lines.cached _ (mem_of_GET_CACHED_ITEM cached)
        rw [eq] at here
        have line := here.unique (at_before c' q s' n') there.nodup
        have leaf := exact.cached unsorted q y cached item child
        rw [(there.counts_at item).1] at leaf
        rw [Hole.before, List.length_append, List.length_cons, Forest.length_walk]
        omega
      case isFalse other =>
        have more := (proper.cached unsorted q y cached item).resolve_left other
        obtain ⟨posPtr', newIndex', c', g', loop, walk, cell⟩ :=
          Shape.skipItems (c := .under p m c) h (index - new.parent - 1) (some q)
            (new.parent + 1)
        obtain ⟨rfl, rfl⟩ := Prod.mk.inj (Except.ok.inj (found.symm.trans loop))
        obtain ⟨r, rfl, next⟩ := cell (by omega) inner
        exact reached walk next.symm

/-- The place in the list of a parent. -/
theorem Shape.findChildPlace {cell : Cell Ptr} (h : Shape t f) (mem : p ∈ f.walk)
    (proper : ((t.item p).bind TableItem.succPtr).isSome → Proper t p new index)
    (found : t.findChildPlace p new index = .ok (cell, newIndex)) :
    Place f (some p) cell newIndex
      (Lines t f ∧ At f p new.parent ∧
        (((t.item p).bind TableItem.succPtr).isSome → Exact t p index)) := by
  obtain ⟨x, item⟩ := h.exists_item mem
  obtain ⟨c, s, m, rfl⟩ := Hole.exists_hole mem
  obtain ⟨-, -, sub, -⟩ := h.item_at item
  have line (here : At (c.fill (.node p s m)) p new.parent) : new.parent = c.before.length :=
    here.unique (at_before c p s m) h.nodup
  rw [item, Option.bind_some] at proper ⊢
  rw [TreeTable.findChildPlace, read_eq item, Fuel.ok_bind] at found
  split at found
  case isTrue leaf =>
    obtain ⟨rfl, rfl⟩ := Prod.mk.inj (Except.ok.inj found)
    refine ⟨.under p m c, s, rfl, rfl, rfl, ?_⟩
    rintro ⟨_, here, _⟩
    rw [Hole.before, List.length_append, List.length_singleton, line here]
    push_cast
    rfl
  case isFalse inner =>
    have some_succ : x.succPtr.isSome := by
      cases eq : x.succPtr with
      | none => exact absurd (by rw [eq]; rfl) inner
      | some q => rfl
    have ne : s ≠ .nil := by
      rintro rfl
      have none : x.succPtr = none := sub
      rw [none] at some_succ
      cases some_succ
    have list : t.siblings (t.links.succ p) = .ok s.tops := Shape.siblings (c := .under p m c) h
    rw [← links_succ item, list, Fuel.ok_bind] at found
    obtain ⟨⟨posPtr, line'⟩, prev, found⟩ := Fuel.bind_eq_ok found
    have place := Shape.findPrev h ne (proper some_succ) prev
    have same : cellAfter (.succ p) posPtr = cell ∧ line' = newIndex := by
      cases posPtr with
      | none => exact Prod.mk.inj (Except.ok.inj found)
      | some q => exact Prod.mk.inj (Except.ok.inj found)
    rw [same.1, same.2] at place
    refine place.mono ?_
    rintro ⟨lines, here, exact⟩
    exact ⟨lines, line here, exact some_succ⟩

end Child

/-! ### The root list -/

section Root

variable {new : TableItem}

/-- The item at a line is in the root list. -/
structure RootLine (t : TreeTable) (index : Int) : Prop where
  found : t.sortedInsertion = false → ∀ t₁ q y, t.TreeTableFindItem index = .ok (t₁, some q) →
    t.item q = some y → y.parentPtr = none

/-- The end of the sub tree of an item of the root list is the line of an item that is in the root
list, if an item of the sub tree is at the line before. -/
theorem root_end {r : Ptr} {s m : Forest Ptr} (h : Shape t (c.fill (.node r s m)))
    (nonneg : 0 ≤ index) (root : ∀ q y, (c.fill (.node r s m)).walk[index.toNat]? = some q →
      t.item q = some y → y.parentPtr = none)
    (after : (c.before.length : Int) < index) (le : index ≤ c.before.length + 1 + s.size) :
    index = c.before.length + 1 + s.size := by
  by_contra ne
  have len := s.length_walk
  have inside : index.toNat - c.before.length - 1 < s.walk.length := by omega
  have here : (c.fill (.node r s m)).walk[index.toNat]? =
      some s.walk[index.toNat - c.before.length - 1] := by
    rw [Hole.walk_fill, Forest.walk, List.append_assoc, List.getElem?_append_right (by omega)]
    obtain ⟨k, eq⟩ : ∃ k, index.toNat - c.before.length = k + 1 :=
      Nat.exists_eq_add_of_le' (by omega)
    simp only [eq, Nat.add_sub_cancel] at inside ⊢
    rw [List.cons_append, List.getElem?_cons_succ, List.append_assoc,
      List.getElem?_append_left inside, List.getElem?_eq_getElem inside]
  have mem : s.walk[index.toNat - c.before.length - 1] ∈ s.walk := List.getElem_mem inside
  obtain ⟨y, item⟩ := h.exists_item (Hole.mem_walk_fill.mpr (.inr
    (Forest.mem_walk_node.mpr (.inr (.inl mem)))))
  obtain ⟨-, -, -, sub, -⟩ := h.around
  obtain ⟨b, up, -⟩ := Relation.TransGen.head'_iff.mp (sub.transGen mem)
  have none := root _ y here item
  rw [Links.Child, links_par item, none] at up
  cases up

/-- The items from an item up to the root list. -/
theorem Shape.ancestors_some {s m : Forest Ptr} (h : Shape t (c.fill (.node p s m))) :
    t.ancestors (some p) = .ok (p :: c.ancestors) :=
  Shape.ancestors (c := .under p m c) h

/-- The item to insert after in the root list, and the end of its sub tree. -/
theorem Shape.findRootPrev (h : Shape t f) (later : 0 < index) {above : List Ptr}
    (prev : t.findRootPrev new index = .ok (t', posPtr, newIndex))
    (up : t'.ancestors posPtr = .ok above) :
    Found t t' f ∧ Place f none (cellAfter .head above.getLast?) newIndex
      (Lines t f ∧ RootLine t index) := by
  have head (exact : Prop) : Place f none .head 0 exact := ⟨.top, f, rfl, rfl, rfl, fun _ => rfl⟩
  rw [TreeTable.findRootPrev] at prev
  split at prev
  case isTrue sorted =>
    have list : t.siblings t.itemPtr = .ok f.tops := Shape.siblings (c := .top) h
    rw [list, Fuel.ok_bind] at prev
    obtain ⟨posPtr', newIndex', c', g', loop, walk⟩ := Shape.sortFindPrev (c := .top) h new.text none 0
    rw [loop] at prev
    obtain ⟨rfl, eq⟩ := Prod.mk.inj (Except.ok.inj prev)
    obtain ⟨rfl, rfl⟩ := Prod.mk.inj eq
    refine ⟨.refl t f, ?_⟩
    have line : newIndex' = c'.before.length := by
      have moved := walk.line
      change newIndex' - 0 = (c'.before.length : Int) - 0 at moved
      omega
    rcases walk.cell with ⟨rfl, rfl⟩ | ⟨q, rfl, next⟩
    · obtain rfl : [] = above := Except.ok.inj up
      rw [line]
      exact head _
    · have fill : c'.fill g' = f := walk.fill
      have root : c'.ancestors = [] := walk.ancestors
      cases c' with
      | top => cases next
      | under a n outer => cases next
      | behind a s outer =>
        obtain rfl : a = q := Cell.next.inj next
        have there : Shape t (outer.fill (.node a s g')) := fill ▸ h
        obtain rfl := Except.ok.inj (there.ancestors_some.symm.trans up)
        have alone : outer.ancestors = [] := root
        refine ⟨.behind a s outer, g', fill, ?_, ?_, fun _ => line⟩
        · rw [Hole.owner, root]
          rfl
        · rw [alone]
          rfl
  case isFalse unsorted =>
    have unsorted : t.sortedInsertion = false := Bool.eq_false_iff.mpr unsorted
    obtain ⟨⟨t₁, q⟩, find, prev⟩ := Fuel.bind_eq_ok prev
    obtain ⟨rfl, eq⟩ := Prod.mk.inj (Except.ok.inj prev)
    obtain ⟨rfl, rfl⟩ := Prod.mk.inj eq
    obtain ⟨found, right⟩ := h.found find
    refine ⟨found, ?_⟩
    cases q with
    | none =>
      obtain rfl : [] = above := Except.ok.inj up
      exact head _
    | some q =>
      have h₁ := found.shape h
      obtain ⟨x, item⟩ : ∃ x, t₁.item q = some x := by
        cases item : t₁.item q with
        | none =>
          rw [TreeTable.ancestors, TreeTable.fuel, follow, read, item] at up
          cases up
        | some x => exact ⟨x, rfl⟩
      obtain ⟨c₀, s₀, n₀, rfl⟩ := Hole.exists_hole (h₁.mem item)
      obtain ⟨r, c', s, n, eq, root, last, le, le'⟩ := c₀.exists_root q s₀ n₀
      obtain rfl := Except.ok.inj (h₁.ancestors_some.symm.trans up)
      rw [last]
      refine ⟨.behind r s c', n, eq.symm, ?_, rfl, ?_⟩
      · have top : (Hole.behind r s c').ancestors = [] := root
        rw [Hole.owner, top]
        rfl
      · rintro ⟨lines, roots⟩
        have here := (right lines q rfl).unique (at_before c₀ q s₀ n₀) h.nodup
        have nonneg : 0 ≤ index := Int.le_of_lt later
        obtain ⟨t₂, find', -, -⟩ := TreeTableFindItem_eq h lines nonneg
        rw [eq] at h find'
        have line : index = c'.before.length + 1 + s.size := by
          refine root_end h nonneg ?_ (by omega) (by omega)
          intro a y at_a item
          exact roots.found unsorted t₂ a y (by rw [find', at_a]) item
        rw [Hole.before, List.length_append, List.length_cons, Forest.length_walk]
        change index = _
        omega

/-- The place in the root list. -/
theorem Shape.findRootPlace {cell : Cell Ptr} (h : Shape t f)
    (found : t.findRootPlace new index = .ok (t', cell, newIndex)) :
    Found t t' f ∧ Place f none cell newIndex (Lines t f ∧ RootLine t index) := by
  rw [TreeTable.findRootPlace] at found
  split at found
  case isTrue front =>
    obtain ⟨rfl, eq⟩ := Prod.mk.inj (Except.ok.inj found)
    obtain ⟨rfl, rfl⟩ := Prod.mk.inj eq
    exact ⟨.refl t f, .top, f, rfl, rfl, rfl, fun _ => rfl⟩
  case isFalse later =>
    obtain ⟨⟨t₁, posPtr, line⟩, prev, found⟩ := Fuel.bind_eq_ok found
    obtain ⟨above, up, found⟩ := Fuel.bind_eq_ok found
    obtain ⟨looked, place⟩ := h.findRootPrev (Int.not_le.mp (not_or.mp later).1) prev up
    have same : t₁ = t' ∧ cellAfter .head above.getLast? = cell ∧ line = newIndex := by
      cases last : above.getLast? with
      | none =>
        rw [last] at found
        obtain ⟨eq, eq'⟩ := Prod.mk.inj (Except.ok.inj found)
        exact ⟨eq, Prod.mk.inj eq'⟩
      | some top =>
        rw [last] at found
        obtain ⟨eq, eq'⟩ := Prod.mk.inj (Except.ok.inj found)
        exact ⟨eq, Prod.mk.inj eq'⟩
    rw [← same.1, ← same.2.1, ← same.2.2]
    exact ⟨looked, place⟩

end Root

/-! ### The place -/

theorem proper_of_properPlace {new : TableItem} (h : t.properPlace new index)
    (parent : t.findParent new.parent = .ok (t', some p))
    (inner : ((t'.item p).bind TableItem.succPtr).isSome) : Proper t' p new index := by
  rw [properPlace, parent] at h
  refine ⟨?_⟩
  intro unsorted q y cached item
  have outer : ((t'.item p).bind TableItem.succPtr).isNone = false := by
    rw [Option.isNone_eq_false_iff]
    exact inner
  simp only [unsorted, outer, cached, Option.bind_some, item, Option.all_some, Bool.false_or,
    Bool.or_eq_true, decide_eq_true_eq] at h
  exact h

theorem exact_of_exactPlace {new : TableItem} (h : t.exactPlace new index)
    (parent : t.findParent new.parent = .ok (t', some p))
    (inner : ((t'.item p).bind TableItem.succPtr).isSome) : Exact t' p index := by
  rw [exactPlace, parent] at h
  refine ⟨?_⟩
  intro unsorted q y cached item child
  have outer : ((t'.item p).bind TableItem.succPtr).isNone = false := by
    rw [Option.isNone_eq_false_iff]
    exact inner
  simpa [unsorted, outer, cached, item, child] using h

theorem rootLine_of_exactPlace {new : TableItem} (shape : Shape t' f)
    (h : t.exactPlace new index) (parent : t.findParent new.parent = .ok (t', none)) :
    RootLine t' index := by
  rw [exactPlace, parent] at h
  refine ⟨?_⟩
  intro unsorted t₁ q y find item
  have same : t₁.item = t'.item := (shape.found find).1.item
  simpa [unsorted, find, same, item] using h

/-- A new item gets a place in the list of the parent it gets. -/
theorem Shape.findPlace {new new' : TableItem} {prevPtr : Option Ptr} {cell : Cell Ptr}
    (h : Shape t f) (blank : Blank new) (free : new.parentPtr = none)
    (proper : prevPtr = none → t.properPlace new index)
    (found : t.findPlace new prevPtr index = .ok (t', cell, new', newIndex)) :
    Found t t' f ∧ Blank new' ∧
      Place f new'.parentPtr cell newIndex
        (Lines t f ∧ prevPtr = none ∧ t.exactPlace new index) ∧
      (prevPtr ≠ none → newIndex = -1) := by
  cases prevPtr with
  | some prevPtr =>
    rw [TreeTable.findPlace] at found
    obtain ⟨x, read, found⟩ := Fuel.bind_eq_ok found
    obtain ⟨rfl, rest⟩ := Prod.mk.inj (Except.ok.inj found)
    obtain ⟨rfl, eq⟩ := Prod.mk.inj rest
    obtain ⟨rfl, rfl⟩ := Prod.mk.inj eq
    have item := item_of_read read
    obtain ⟨c, s, n, rfl⟩ := Hole.exists_hole (h.mem item)
    obtain ⟨-, owner, -, -⟩ := h.item_at item
    refine ⟨.refl t _, ⟨blank.succPtr, blank.shown, blank.succNum, blank.seenNum⟩, ?_, fun _ => rfl⟩
    refine ⟨.behind prevPtr s c, n, rfl, owner.symm, rfl, ?_⟩
    rintro ⟨_, front, _⟩
    cases front
  | none =>
    rw [TreeTable.findPlace] at found
    obtain ⟨⟨t₁, parentPtr⟩, parent, found⟩ := Fuel.bind_eq_ok found
    obtain ⟨looked, right⟩ := h.findParent parent
    have h₁ := looked.shape h
    cases parentPtr with
    | some p =>
      obtain ⟨⟨cell', line⟩, place, found⟩ := Fuel.bind_eq_ok found
      obtain ⟨rfl, rest⟩ := Prod.mk.inj (Except.ok.inj found)
      obtain ⟨rfl, eq⟩ := Prod.mk.inj rest
      obtain ⟨rfl, rfl⟩ := Prod.mk.inj eq
      obtain ⟨mem, at_parent⟩ := right p rfl
      refine ⟨looked, ⟨blank.succPtr, blank.shown, blank.succNum, blank.seenNum⟩, ?_,
        fun some => absurd rfl some⟩
      refine (h₁.findChildPlace mem ?_ place).mono ?_
      · intro inner
        exact proper_of_properPlace (proper rfl) parent inner
      · rintro ⟨lines, _, exact⟩
        exact ⟨looked.lines lines, at_parent lines,
          fun inner => exact_of_exactPlace exact parent inner⟩
    | none =>
      obtain ⟨⟨t₂, cell', line⟩, place, found⟩ := Fuel.bind_eq_ok found
      obtain ⟨rfl, rest⟩ := Prod.mk.inj (Except.ok.inj found)
      obtain ⟨rfl, eq⟩ := Prod.mk.inj rest
      obtain ⟨rfl, rfl⟩ := Prod.mk.inj eq
      obtain ⟨looked', root⟩ := h₁.findRootPlace place
      refine ⟨looked.trans looked', blank, ?_, fun some => absurd rfl some⟩
      rw [free]
      refine root.mono ?_
      rintro ⟨lines, _, exact⟩
      exact ⟨looked.lines lines, rootLine_of_exactPlace h₁ exact parent⟩

end TreeTable

end SourceNavigator.Hyper

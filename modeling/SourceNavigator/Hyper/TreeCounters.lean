import Mathlib.Data.List.Sort
import Mathlib.Data.Set.Card
import SourceNavigator.Hyper.TreeInsert
import SourceNavigator.Hyper.TreeSort
import SourceNavigator.Lib.Run

/-!
The counters of a tree table, over all commands.

`WellCounted` says it of the items in memory: every item is in the list of the
owner it points to, an item holds the number of the items below it and of those
that are seen from it, and the table holds the number of all items and of those
with no hidden item above. Every command keeps this when it is `Careful`
(`counters_kept`); the removal of an item with a hidden item in its sub tree is
not (`remove_counts_hidden`).
-/

namespace SourceNavigator.Hyper

open Lib

namespace TreeTable

variable {t t' : TreeTable} {p q : Ptr} {x : TableItem} {f g s m : Forest Ptr} {c : Hole Ptr}
  {index : Int} {new : NewItem}

/-! ### What the counters say -/

/-- An item is below another one when it comes to it by going from owner to owner. -/
def Below (t : TreeTable) : Ptr → Ptr → Prop := Relation.TransGen t.links.Child

/-- The pointers and counters of a table are right. -/
structure WellCounted (t : TreeTable) : Prop where
  owner : ∀ p o, t.links.par p = some o → (t.item o).isSome
  lists : ∀ owner, (∀ o, owner = some o → (t.item o).isSome) →
    ∃ l, Chain t.links.next (t.links.get (.first owner)) l ∧ l.Nodup ∧
      ∀ p, p ∈ l ↔ (t.item p).isSome ∧ t.links.par p = owner
  acyclic : ∀ p, ¬ t.Below p p
  succNum : ∀ p x, t.item p = some x → x.succNum = {q | t.Below q p}.ncard
  seenNum : ∀ p x, t.item p = some x → ∃ l, Chain t.links.next x.succPtr l ∧
    x.seenNum = if x.hidden_subtree then 0 else (l.map fun q => 1 + t.counts.seen q).sum
  numItems : t.numItems = {p | (t.item p).isSome}.ncard
  numViewed : t.numViewed =
    {p | (t.item p).isSome ∧ ∀ q, t.Below p q → t.hidden q = false}.ncard

theorem ncard_list {l : List Ptr} {S : Set Ptr} (nodup : l.Nodup) (mem : ∀ p, p ∈ S ↔ p ∈ l) :
    S.ncard = l.length := by
  have eq : S = ↑l.toFinset := by
    ext p
    rw [mem, List.coe_toFinset]
    rfl
  rw [eq, Set.ncard_coe_finset, List.toFinset_card_of_nodup nodup]

theorem Shape.owner_mem (h : Shape t f) (up : t.links.par p = some q) :
    p ∈ f.walk ∧ q ∈ f.walk := by
  obtain ⟨x, item⟩ : ∃ x, t.item p = some x := by
    cases item : t.item p with
    | none =>
      change (t.item p).bind _ = _ at up
      rw [item] at up
      cases up
    | some x => exact ⟨x, rfl⟩
  have mem := h.mem item
  obtain ⟨c, s, m, rfl⟩ := Hole.exists_hole mem
  obtain ⟨-, owner, -, -⟩ := h.item_at item
  rw [links_par item, owner] at up
  refine ⟨mem, Hole.mem_walk_fill.mpr (.inl ?_)⟩
  exact Hole.mem_rest_of_ancestors (List.mem_of_mem_head? up)

theorem Shape.below_mem (h : Shape t f) (below : t.Below q p) : q ∈ f.walk ∧ p ∈ f.walk := by
  obtain ⟨b, first, -⟩ := Relation.TransGen.head'_iff.mp below
  obtain ⟨d, -, last⟩ := Relation.TransGen.tail'_iff.mp below
  exact ⟨(h.owner_mem first).1, (h.owner_mem last).2⟩

/-- What is below an item is its sub tree. -/
theorem Shape.below_iff (h : Shape t (c.fill (.node p s m))) : t.Below q p ↔ q ∈ s.walk := by
  have mem_p : p ∈ (c.fill (.node p s m)).walk := Hole.mem_walk_fill.mpr (.inr List.mem_cons_self)
  constructor
  · intro below
    have inside := (mem_subOf_iff h.nodup h.linked (h.below_mem below).1 mem_p).mpr below
    rwa [Hole.subOf_fill h.nodup] at inside
  · intro mem
    have mem_q : q ∈ (c.fill (.node p s m)).walk :=
      Hole.mem_walk_fill.mpr (.inr (Forest.mem_walk_node.mpr (.inr (.inl mem))))
    refine (mem_subOf_iff h.nodup h.linked mem_q mem_p).mp ?_
    rwa [Hole.subOf_fill h.nodup]

/-- What is above an item is above its hole. -/
theorem Shape.above_iff (h : Shape t (c.fill (.node p s m))) : t.Below p q ↔ q ∈ c.ancestors := by
  obtain ⟨around, -, par, -, -⟩ := h.around
  refine transGen_par ?_
  rw [par]
  exact around.ancestors

/-- A list has the items that point to its owner. -/
theorem Shape.mem_list (h : Shape t (c.fill s)) (first : c.cell = .first c.owner) :
    p ∈ s.tops ↔ (t.item p).isSome ∧ t.links.par p = c.owner := by
  constructor
  · intro top
    obtain ⟨-, inside⟩ := h.around
    refine ⟨h.isSome ?_, inside.par_of_tops top⟩
    exact Hole.mem_walk_fill.mpr (.inr (Forest.mem_walk_of_tops top))
  · rintro ⟨live, par⟩
    obtain ⟨x, item⟩ := Option.isSome_iff_exists.mp live
    obtain ⟨c', s', m', eq⟩ := Hole.exists_hole (h.mem item)
    have there : Shape t (c'.fill (.node p s' m')) := eq ▸ h
    obtain ⟨-, owner, -, -⟩ := there.item_at item
    have same : c'.owner = c.owner := by rw [← par, links_par item, owner]
    have tops : p ∈ (Forest.node p s' m').tops := List.mem_cons_self
    cases c with
    | behind b r outer =>
      change Cell.next b = .first _ at first
      cases owner_eq : (Hole.behind b r outer).owner with
      | none => rw [owner_eq] at first; cases first
      | some o => rw [owner_eq] at first; cases first
    | top =>
      rcases c'.owner_eq_none_or tops with ⟨-, top⟩ | ⟨b, -, -, -, inner, -, -⟩
      · have whole : s = c'.fill (.node p s' m') := eq
        rwa [whole]
      · exact nomatch same.symm.trans inner
    | under b n outer =>
      rcases c'.owner_eq_none_or tops with ⟨root, -⟩ | ⟨d, c'', s'', m'', inner, eq', top⟩
      · exact nomatch same.symm.trans root
      · obtain rfl : b = d := Option.some.inj (same.symm.trans inner)
        have whole : outer.fill (.node b s n) = c''.fill (.node b s'' m'') := eq.trans eq'
        have nodup : (outer.fill (.node b s n)).walk.Nodup := h.nodup
        have sub := Hole.subOf_fill nodup
        have sub' := Hole.subOf_fill (whole ▸ nodup)
        rw [whole] at sub
        rwa [← sub, sub']

/-- The counters of a shape are the counters of the items in memory. -/
theorem Shape.wellCounted (h : Shape t f) (viewed : t.numViewed = f.seen t.hidden) :
    WellCounted t := by
  refine ⟨?_, ?_, ?_, ?_, ?_, ?_, ?_⟩
  · intro p o up
    exact h.isSome (h.owner_mem up).2
  · intro owner live
    have list {c : Hole Ptr} {s : Forest Ptr} (eq : f = c.fill s) (up : c.owner = owner)
        (first : c.cell = .first c.owner) :
        ∃ l, Chain t.links.next (t.links.get (.first owner)) l ∧ l.Nodup ∧
          ∀ p, p ∈ l ↔ (t.item p).isSome ∧ t.links.par p = owner := by
      subst eq up
      obtain ⟨-, inside⟩ := h.around
      refine ⟨s.tops, ?_, ?_, fun p => h.mem_list first⟩
      · rw [← first]
        exact inside.chain
      · exact (s.tops_sublist.trans (c.walk_sublist_fill s)).nodup h.nodup
    cases owner with
    | none => exact list (c := .top) rfl rfl rfl
    | some o =>
      obtain ⟨c, s, m, rfl⟩ := Hole.exists_hole ((h.live o).mp (live o rfl))
      exact list (c := .under o m c) rfl rfl rfl
  · intro p below
    obtain ⟨c, s, m, rfl⟩ := Hole.exists_hole (h.below_mem below).1
    obtain ⟨-, node_nodup, -⟩ := Hole.nodup_fill.mp h.nodup
    exact (List.nodup_cons.mp node_nodup).1 (List.mem_append_left _ (h.below_iff.mp below))
  · intro p x item
    obtain ⟨c, s, m, rfl⟩ := Hole.exists_hole (h.mem item)
    obtain ⟨-, node_nodup, -⟩ := Hole.nodup_fill.mp h.nodup
    have s_nodup : s.walk.Nodup :=
      (List.nodup_append.mp (List.nodup_cons.mp node_nodup).2).1
    have count : {q | t.Below q p}.ncard = s.walk.length :=
      ncard_list s_nodup fun q => h.below_iff
    rw [count, (h.counts_at item).1, s.length_walk]
  · intro p x item
    obtain ⟨c, s, m, rfl⟩ := Hole.exists_hole (h.mem item)
    obtain ⟨-, -, sub, -⟩ := h.item_at item
    obtain ⟨-, -, -, counted, -⟩ := Hole.counted_fill.mp h.counted
    refine ⟨s.tops, sub.chain, ?_⟩
    rw [(h.counts_at item).2, ← seen_eq_sum counted]
    rfl
  · have count : {p | (t.item p).isSome}.ncard = f.walk.length := ncard_list h.nodup h.live
    rw [count, h.numItems, f.length_walk]
  · have count : {p | (t.item p).isSome ∧ ∀ q, t.Below p q → t.hidden q = false}.ncard =
        (f.visible t.hidden).length := by
      refine ncard_list ((f.visible_sublist t.hidden).nodup h.nodup) ?_
      intro p
      have place (mem : p ∈ f.walk) :
          p ∈ f.visible t.hidden ↔ ∀ q, t.Below p q → t.hidden q = false := by
        obtain ⟨c, s, m, rfl⟩ := Hole.exists_hole mem
        have out : p ∉ c.rest := by
          intro in_rest
          exact (Hole.nodup_fill.mp h.nodup).2.2 p in_rest List.mem_cons_self
        have here : p ∈ (Forest.node p s m).visible t.hidden := List.mem_cons_self
        rw [Hole.mem_visible_fill out, and_iff_right here]
        exact forall_congr' fun q => by rw [h.above_iff]
      constructor
      · rintro ⟨live, shown⟩
        exact (place ((h.live p).mp live)).mpr shown
      · intro seen
        have mem := (f.visible_sublist t.hidden).subset seen
        exact ⟨h.isSome mem, (place mem).mp seen⟩
    rw [viewed, count]
    rfl

/-! ### Single operations -/

/-- The items of a table are a forest, with right counters. -/
def Tallied (t : TreeTable) : Prop := ∃ f, Shape t f ∧ t.numViewed = f.seen t.hidden

theorem Tallied.wellCounted (h : Tallied t) : WellCounted t := by
  obtain ⟨f, shape, viewed⟩ := h
  exact shape.wellCounted viewed

theorem Tallied.of_items (h : Tallied t) (same : t'.toItems = t.toItems) : Tallied t' := by
  obtain ⟨f, shape, viewed⟩ := h
  have hidden : t'.hidden = t.hidden :=
    congrArg (fun items : Items => fun p => ((items.item p).map TableItem.hidden_subtree).getD false)
      same
  have numViewed : t'.numViewed = t.numViewed := congrArg Items.numViewed same
  exact ⟨f, shape.of_items same, by rw [hidden, numViewed, viewed]⟩

theorem tallied_create (accelerator sortedInsertion : Bool) (sortColumn : Int) (sortNoCase : Bool) :
    Tallied (create accelerator sortedInsertion sortColumn sortNoCase) := by
  refine ⟨.nil, ⟨rfl, List.nodup_nil, ?_, trivial, rfl⟩, rfl⟩
  intro p
  exact iff_of_false (by exact nofun) List.not_mem_nil

theorem Inserted.tallied {newIndex : Int} (inserted : Inserted t t' c g q newIndex)
    (viewed : t.numViewed = (c.fill g).seen t.hidden) : Tallied t' := by
  refine ⟨_, inserted.shape, ?_⟩
  rw [inserted.numViewed, inserted.hidden, viewed, c.seen_fill g (.node q .nil g), seen_node]
  split <;> simp

theorem Inserted.isSome {newIndex : Int} (inserted : Inserted t t' c g q newIndex)
    (h : Shape t (c.fill g)) : (t'.item p).isSome ↔ p = q ∨ (t.item p).isSome := by
  rw [inserted.shape.live, h.live, Hole.mem_walk_fill, Hole.mem_walk_fill, Forest.mem_walk_node,
    Forest.walk]
  simp only [List.not_mem_nil, false_or]
  tauto

/-- The options of a new item are accepted and its place is in the list of its parent, or they are
rejected and its address is not in the item cache. -/
def carefulItem (t : TreeTable) (index : Int) (new : NewItem) : Bool :=
  if new.accepted then t.properPlace new.item (t.insertLine index)
  else t.cached.all fun e => e.1 ≠ new.ptr

theorem Tallied.insertItem {prevPtr r : Option Ptr} (h : Tallied t)
    (accepted : new.accepted = true → prevPtr = none → t.properPlace new.item (t.insertLine index))
    (rejected : new.accepted = false → ∀ e ∈ t.cached, e.1 ≠ new.ptr)
    (insert : t.TreeTableInsertItem index prevPtr new = .ok (t', r)) :
    Tallied t' ∧ (∀ p, (t.item p).isSome → (t'.item p).isSome) ∧
      ∀ e ∈ t'.cached, e ∈ t.cached ∨ (t'.item e.1).isSome := by
  obtain ⟨f, shape, viewed⟩ := h
  cases options : new.accepted with
  | false =>
    obtain ⟨rfl, -⟩ := shape.insertItem_rejected options (rejected options) insert
    exact ⟨⟨f, shape, viewed⟩, fun _ live => live, fun _ mem => .inl mem⟩
  | true =>
    obtain ⟨-, -, c, g, newIndex, rfl, inserted, -, -⟩ :=
      shape.insertItem options (accepted options) insert
    refine ⟨inserted.tallied viewed, ?_, ?_⟩
    · intro p live
      exact (inserted.isSome shape).mpr (.inr live)
    · intro e mem
      obtain ⟨u, found, caches⟩ := inserted.caches
      have same : t'.cached = (u.recache new.ptr newIndex).cached :=
        congrArg (fun caches : Caches => caches.cachedItem.toList.reduceOption) caches
      rw [same] at mem
      rcases cached_recache mem with ⟨old, -⟩ | ⟨-, rfl⟩
      · rcases found.cached e old with old | live
        · exact .inl old
        · exact .inr ((inserted.isSome shape).mpr (.inr live))
      · exact .inr ((inserted.isSome shape).mpr (.inl rfl))

/-- The item of a line has no hidden item in its sub tree, or it is below a hidden item. -/
def seenWhole (t : TreeTable) (index : Int) : Bool :=
  match t.TreeTableFindItem index with
  | .ok (t, some p) =>
    (t.item p).all fun x =>
      x.succNum = x.seenNum ||
        match t.ancestors x.parentPtr with
        | .ok above => above.any t.hidden
        | .error _ => true
  | _ => true

theorem Removed.seen {numViewed : Int} (removed : Removed t t' c m index numViewed) :
    (c.fill m).seen t'.hidden = (c.fill m).seen t.hidden :=
  seen_congr removed.hidden

theorem nonneg_of_find (find : t.TreeTableFindItem index = .ok (t', some p)) : 0 ≤ index := by
  by_contra negative
  rw [TreeTableFindItem, if_pos (Int.not_le.mp negative)] at find
  cases find

theorem removeItem_live {original_item children : Bool} {n : Nat} {r : TreeTable × Int}
    (removed : TreeTableRemoveItem original_item children n t p index = .ok r) :
    ∃ x, t.item p = some x := by
  cases n with
  | zero => cases removed
  | succ n =>
    rw [TreeTableRemoveItem] at removed
    obtain ⟨x, read, -⟩ := Fuel.bind_eq_ok removed
    exact ⟨x, item_of_read read⟩

/-- A removal takes the shape of a table to a shape. -/
theorem Shape.removeItem {original_item : Bool} {k : Int} (h : Shape t f) (nonneg : 0 ≤ index)
    (removed : TreeTableRemoveItem original_item false t.fuel t p index = .ok (t', k)) :
    ∃ c s m, f = c.fill (.node p s m) ∧ Removed t t' c m index
      (if original_item && !c.ancestors.any t.hidden then t.numViewed - (1 + s.size)
        else t.numViewed) := by
  obtain ⟨x, item⟩ := removeItem_live removed
  obtain ⟨c, s, m, rfl⟩ := Hole.exists_hole (h.mem item)
  obtain ⟨t₁, removed', result⟩ := h.remove original_item nonneg
  obtain ⟨rfl, -⟩ := Prod.mk.inj (Except.ok.inj (removed'.symm.trans removed))
  exact ⟨c, s, m, rfl, result⟩

theorem Tallied.remove (h : Tallied t) (whole : t.seenWhole (t.GetTreeTableIndex false index))
    (removed : t.remove index = .ok t') : Tallied t' := by
  obtain ⟨f, shape, viewed⟩ := h
  obtain ⟨⟨u, itemPtr⟩, find, removed⟩ := Fuel.bind_eq_ok removed
  have looked := (shape.found find).1
  have tallied : Tallied u := Tallied.of_items ⟨f, shape, viewed⟩ looked.looked.toItems
  cases itemPtr with
  | none => exact Except.ok.inj removed ▸ tallied
  | some p =>
    obtain ⟨⟨v, k⟩, remove, removed⟩ := Fuel.bind_eq_ok removed
    obtain rfl := Except.ok.inj removed
    have shape_u := looked.shape shape
    obtain ⟨c, s, m, rfl, result⟩ := shape_u.removeItem (nonneg_of_find find) remove
    obtain ⟨x, item⟩ := removeItem_live remove
    obtain ⟨-, owner, -, -⟩ := shape_u.item_at item
    obtain ⟨all, seen⟩ := shape_u.counts_at item
    rw [seenWhole, find] at whole
    simp only [item, Option.all_some, owner, shape_u.ancestors, Bool.or_eq_true,
      decide_eq_true_eq] at whole
    have viewed_u : u.numViewed = (c.fill (.node p s m)).seen u.hidden := by
      have numViewed : u.numViewed = t.numViewed := congrArg Items.numViewed looked.looked.toItems
      have hidden : u.hidden = t.hidden := by
        funext q
        rw [TreeTable.hidden, TreeTable.hidden, looked.item]
      rw [numViewed, hidden, viewed]
    refine ⟨c.fill m, result.shape, ?_⟩
    rw [result.numViewed, result.seen, c.seen_fill (.node p s m) m, seen_node, hidden_eq item,
      viewed_u]
    cases above : c.ancestors.any u.hidden with
    | true => simp
    | false =>
      have same : (s.size : Int) = if x.hidden_subtree then 0 else (s.seen u.hidden : Int) := by
        rw [← all, ← seen]
        exact whole.resolve_right (by rw [above]; exact Bool.false_ne_true)
      simp only [Bool.not_false, Bool.and_true, if_true, Bool.false_eq_true, if_false]
      push_cast
      rw [same]
      ring

/-! ### Deletions -/

/-- What the look up and the removal of a line keep, a deletion of lines keeps. -/
theorem deleteLines_inv {Inv : TreeTable → Prop} {start : Int} {n : Nat}
    (keep : ∀ t t₁ index r, Inv t → t.TreeTableFindItem index = .ok (t₁, r) →
      Inv t₁ ∧ ∀ p t' k, r = some p →
        TreeTableRemoveItem false false t₁.fuel t₁ p index = .ok (t', k) → Inv t')
    (init : Inv t) (deleted : deleteLines start n t = .ok t') : Inv t' := by
  induction n generalizing t with
  | zero => exact Except.ok.inj deleted ▸ init
  | succ n ih =>
    rw [deleteLines] at deleted
    obtain ⟨⟨u, posPtr⟩, find, deleted⟩ := Fuel.bind_eq_ok deleted
    obtain ⟨kept, removed⟩ := keep t u _ posPtr init find
    cases posPtr with
    | none => exact ih kept deleted
    | some p =>
      obtain ⟨⟨v, k⟩, remove, deleted⟩ := Fuel.bind_eq_ok deleted
      exact ih (removed p v k rfl remove) deleted

theorem Shape.deleteLines {start : Int} {n : Nat} (h : Shape t f)
    (deleted : TreeTable.deleteLines start n t = .ok t') : ∃ f', Shape t' f' := by
  let Inv : TreeTable → Prop := fun t => ∃ f, Shape t f
  have init : Inv t := ⟨f, h⟩
  have kept : Inv t' := by
    refine deleteLines_inv ?_ init deleted
    rintro t t₁ index r ⟨f, shape⟩ find
    have found := (shape.found find).1.shape shape
    refine ⟨⟨f, found⟩, ?_⟩
    rintro p t' k rfl remove
    obtain ⟨c, s, m, -, result⟩ := found.removeItem (nonneg_of_find find) remove
    exact ⟨c.fill m, result.shape⟩
  exact kept

theorem Tallied.deleteRange {start stop : Int} (h : Tallied t)
    (deleted : t.TreeTableDeleteRange start stop = .ok t') : Tallied t' := by
  obtain ⟨f, shape, viewed⟩ := h
  rw [TreeTableDeleteRange] at deleted
  split at deleted
  · exact Except.ok.inj deleted ▸ ⟨f, shape, viewed⟩
  case isFalse some =>
    have recount {u : TreeTable} {f' : Forest Ptr} (shape' : Shape u f')
        (counted : u.TreeTableCountNotHidden = .ok t') : Tallied t' := by
      rw [shape'.countNotHidden] at counted
      exact Except.ok.inj counted ▸ ⟨f', shape'.of_same rfl rfl rfl, rfl⟩
    dsimp only at deleted
    split at deleted
    · obtain ⟨u, removed, counted⟩ := Fuel.bind_eq_ok deleted
      have ne : f ≠ .nil := by
        rintro rfl
        exact some (.inl shape.numItems)
      obtain ⟨u', all, shape', -⟩ := shape.deleteAll ne
      obtain rfl := Except.ok.inj (all.symm.trans removed)
      exact recount shape' counted
    · obtain ⟨u, removed, counted⟩ := Fuel.bind_eq_ok deleted
      obtain ⟨f', shape'⟩ := shape.deleteLines removed
      exact recount shape' counted

/-- What the look up of a line and a deletion of lines keep, the removal of the children keeps. -/
theorem removeChildren_inv {Inv : TreeTable → Prop}
    (look : ∀ t t₁ index r, Inv t → t.TreeTableFindItem index = .ok (t₁, r) → Inv t₁)
    (delete : ∀ t t₁ start stop, Inv t → t.TreeTableDeleteRange start stop = .ok t₁ → Inv t₁)
    (init : Inv t) (removed : t.removeChildren index = .ok t') : Inv t' := by
  obtain ⟨⟨u, itemPtr⟩, find, removed⟩ := Fuel.bind_eq_ok removed
  have kept : Inv u := look t u _ itemPtr init find
  cases itemPtr with
  | none => exact Except.ok.inj removed ▸ kept
  | some p =>
    obtain ⟨x, -, removed⟩ := Fuel.bind_eq_ok removed
    obtain ⟨list, -, removed⟩ := Fuel.bind_eq_ok removed
    obtain ⟨stop, -, removed⟩ := Fuel.bind_eq_ok removed
    split at removed
    · exact delete u t' _ _ kept removed
    · exact Except.ok.inj removed ▸ kept

theorem Tallied.find {r : Option Ptr} (h : Tallied t)
    (find : t.TreeTableFindItem index = .ok (t', r)) : Tallied t' := by
  obtain ⟨f, shape, viewed⟩ := h
  exact Tallied.of_items ⟨f, shape, viewed⟩ (shape.found find).1.looked.toItems

theorem Tallied.removeChildren (h : Tallied t) (removed : t.removeChildren index = .ok t') :
    Tallied t' :=
  removeChildren_inv (fun _ _ _ _ h find => h.find find)
    (fun _ _ _ _ h deleted => h.deleteRange deleted) h removed

/-! ### Hiding, sorting and drawing -/

theorem Tallied.toggleItem {hide : Bool} (h : Tallied t)
    (toggled : t.TreeTableToggleItem p hide = .ok t') : Tallied t' := by
  obtain ⟨f, shape, viewed⟩ := h
  obtain ⟨x, read, toggled⟩ := Fuel.bind_eq_ok toggled
  split at toggled
  · exact Except.ok.inj toggled ▸ ⟨f, shape, viewed⟩
  · have item := item_of_read read
    obtain ⟨c, s, m, rfl⟩ := Hole.exists_hole (shape.mem item)
    obtain ⟨u, toggled', result⟩ := shape.toggleIt item
    obtain rfl := Except.ok.inj (toggled'.symm.trans toggled)
    refine ⟨_, result.shape shape, ?_⟩
    rw [result.numViewed, result.hidden, viewed, seen_toggle shape.nodup]

/-- What the look up of a line, a shorter `pathFinder` and the hiding of an item keep, the command
keeps. -/
theorem toggle_inv {Inv : TreeTable → Prop} {hide : Option Bool} {real : Bool}
    (look : ∀ t t₁ index r, Inv t → t.TreeTableFindItem index = .ok (t₁, r) → Inv t₁)
    (cut : ∀ t pos, Inv t → Inv (t.DELETE_FROM_PATHFINDER pos))
    (item : ∀ t t₁ p hide, Inv t → t.TreeTableToggleItem p hide = .ok t₁ → Inv t₁)
    (init : Inv t) (toggled : t.toggle index hide real = .ok t') : Inv t' := by
  have shown {u : TreeTable} (itemPtr : Option Ptr) (kept : Inv u)
      (toggled : itemPtr.elim (pure u) (fun p => do
          let x ← u.read p
          (u.DELETE_FROM_PATHFINDER (t.GetTreeTableIndex false index)).TreeTableToggleItem p
            (hide.getD !x.hidden_subtree)) = Except.ok t') : Inv t' := by
    cases itemPtr with
    | none => exact Except.ok.inj toggled ▸ kept
    | some p =>
      obtain ⟨x, -, toggled⟩ := Fuel.bind_eq_ok toggled
      exact item _ t' p _ (cut u _ kept) toggled
  rw [TreeTable.toggle] at toggled
  dsimp only at toggled
  split at toggled
  · obtain ⟨⟨u, itemPtr⟩, find, toggled⟩ := Fuel.bind_eq_ok toggled
    refine shown itemPtr (look t u _ itemPtr init find) ?_
    cases itemPtr <;> exact toggled
  · obtain ⟨itemPtr, -, toggled⟩ := Fuel.bind_eq_ok toggled
    refine shown itemPtr init ?_
    cases itemPtr <;> exact toggled

theorem Tallied.toggle {hide : Option Bool} {real : Bool} (h : Tallied t)
    (toggled : t.toggle index hide real = .ok t') : Tallied t' :=
  toggle_inv (fun _ _ _ _ h find => h.find find) (fun _ _ h => h.of_items rfl)
    (fun _ _ _ _ h toggled => h.toggleItem toggled) h toggled

theorem toItems_display {topIndex numLines : Int}
    (display : t.DisplayTreeTable topIndex numLines = .ok t') : t'.toItems = t.toItems := by
  rw [DisplayTreeTable] at display
  dsimp only at display
  split at display
  · obtain ⟨_, -, display⟩ := Fuel.bind_eq_ok display
    exact Except.ok.inj display ▸ rfl
  · cases display
  · obtain ⟨x, -, display⟩ := Fuel.bind_eq_ok display
    split at display
    · obtain ⟨_, -, display⟩ := Fuel.bind_eq_ok display
      exact Except.ok.inj display ▸ rfl
    · obtain ⟨_, -, display⟩ := Fuel.bind_eq_ok display
      exact Except.ok.inj display ▸ rfl

/-! ### Runs -/

/-- A command keeps the counters right. -/
def Careful (t : TreeTable) : Command → Bool
  | .insert index new =>
    let index := t.GetTreeTableIndex true index
    { t with InsertedNewPosition := index }.carefulItem index new
  | .insertList index items =>
    ((items.find? fun new => new.text ≠ []).all fun new =>
      !new.accepted || t.properPlace new.item (t.insertLine (t.GetTreeTableIndex true index))) &&
    items.all fun new => new.accepted || t.cached.all fun e => e.1 ≠ new.ptr
  | .remove index => t.seenWhole (t.GetTreeTableIndex false index)
  | _ => true

theorem Tallied.insertItems {items : List NewItem} (h : Tallied t)
    (first : ∀ new, items.find? (fun new => new.text ≠ []) = some new → new.accepted = true →
      t.properPlace new.item (t.insertLine index))
    (rejected : ∀ new ∈ items, new.accepted = false → ∀ e ∈ t.cached, e.1 ≠ new.ptr)
    (insert : TreeTableInsertItems index none t items = .ok t') : Tallied t' := by
  -- what is cached later was cached at the start, or it is an item of the table
  let Inv : TreeTable → Prop := fun u =>
    Tallied u ∧ ∀ e ∈ u.cached, e ∈ t.cached ∨ (u.item e.1).isSome
  have kept {u u' : TreeTable} {prevPtr r : Option Ptr} {new : NewItem} (inv : Inv u)
      (mem : new ∈ items)
      (accepted : new.accepted = true → prevPtr = none → u.properPlace new.item (u.insertLine index))
      (one : u.TreeTableInsertItem index prevPtr new = .ok (u', r)) : Inv u' := by
    have fresh : u.item new.ptr = none := by
      rw [TreeTableInsertItem] at one
      split at one
      · cases one
      case isFalse free => exact Option.not_isSome_iff_eq_none.mp free
    obtain ⟨tallied, live, cached⟩ := inv.1.insertItem accepted (by
      intro options e mem' eq
      rcases inv.2 e mem' with old | live
      · exact rejected new mem options e old eq
      · rw [eq, fresh] at live
        cases live) one
    refine ⟨tallied, ?_⟩
    intro e mem'
    rcases cached e mem' with old | live'
    · exact (inv.2 e old).imp_right (live e.1)
    · exact .inr live'
  have start : Inv t := ⟨h, fun e mem => .inl mem⟩
  have inv : Inv t' := by
    refine insertItems_inv ?_ ?_ start insert
    · intro new found t₁ r one
      exact kept start (List.mem_of_find?_eq_some found) (fun options _ => first new found options) one
    · intro prevPtr u u' r new mem inv one
      refine kept inv mem ?_ one
      intro _ front
      cases front
  exact inv.1

section Step

variable {qqsort : (Ptr → Ptr → Int) → List Ptr → List Ptr}
  (perm : ∀ compar l, (qqsort compar l).Perm l)
include perm

theorem Tallied.step {command : Command} (h : Tallied t) (careful : t.Careful command)
    (stepped : t.step qqsort command = .ok t') : Tallied t' := by
  cases command with
  | insert index new =>
    obtain ⟨⟨u, r⟩, insert, stepped⟩ := Fuel.bind_eq_ok stepped
    obtain rfl := Except.ok.inj stepped
    have start : Tallied { t with InsertedNewPosition := t.GetTreeTableIndex true index } :=
      h.of_items rfl
    refine (start.insertItem ?_ ?_ insert).1
    · intro options _
      simpa [Careful, carefulItem, options] using careful
    · intro options
      simpa [Careful, carefulItem, options] using careful
  | insertList index items =>
    rw [Careful, Bool.and_eq_true] at careful
    refine h.insertItems ?_ ?_ stepped
    · intro new found options
      have place := careful.1
      rw [found] at place
      simpa [options] using place
    · intro new mem options
      have all := List.all_eq_true.mp careful.2 new mem
      simpa [options] using all
  | delete start stop => exact h.deleteRange stepped
  | remove index => exact h.remove careful stepped
  | removeChildren index => exact h.removeChildren stepped
  | toggle index hide real => exact h.toggle stepped
  | sort col noCase =>
    obtain ⟨f, shape, viewed⟩ := h
    obtain ⟨u, f', sorted, shape', same, hidden, numViewed, -⟩ := shape.sort perm col noCase
    obtain rfl := Except.ok.inj (sorted.symm.trans stepped)
    exact ⟨f', shape', by rw [hidden, numViewed, viewed, same.seen]⟩
  | get index =>
    obtain ⟨f, shape, viewed⟩ := h
    obtain ⟨⟨u, r⟩, find, stepped⟩ := Fuel.bind_eq_ok stepped
    obtain rfl := Except.ok.inj stepped
    exact Tallied.of_items ⟨f, shape, viewed⟩ (shape.found find).1.looked.toItems
  | display topIndex numLines => exact h.of_items (toItems_display stepped)
  | configure accelerator sortedInsertion sortNoCase sortColumn =>
    exact Except.ok.inj stepped ▸ h.of_items rfl

/-- In every run of careful commands the counters are right in every table reached. -/
theorem counters_kept {commands : List Command} {accelerator sortedInsertion sortNoCase : Bool}
    {sortColumn : Int}
    (run : Run (Guarded (fun t command => t.Careful command) fun t command t' =>
      t.step qqsort command = .ok t') (create accelerator sortedInsertion sortColumn sortNoCase)
      commands t) : WellCounted t := by
  refine Tallied.wellCounted (run.invariant ?_ (tallied_create _ _ _ _))
  rintro t command t' tallied ⟨careful, stepped⟩
  exact tallied.step perm careful stepped

end Step

/-! ### Two runs -/

/-- A sorting function. -/
def insertionSort (compar : Ptr → Ptr → Int) (l : List Ptr) : List Ptr :=
  l.insertionSort fun p q => compar p q ≤ 0

theorem perm_insertionSort (compar : Ptr → Ptr → Int) (l : List Ptr) :
    (insertionSort compar l).Perm l :=
  List.perm_insertionSort _ l

/-- A new item that is accepted. -/
def newItem (ptr : Ptr) (parent : Int) (text : Text) : NewItem :=
  { ptr, parent, text, accepted := true }

/-- A parent with two children that is closed and opened, sorted, and loses a child. -/
def carefulCommands : List Command :=
  [.insert 0 (newItem 0 (-1) (ascii "a")), .insert 1 (newItem 1 0 (ascii "c")),
    .insert 2 (newItem 2 0 (ascii "b")),
    .insertList 3 [newItem 3 (-1) (ascii "d"), newItem 4 (-1) (ascii "e")],
    .toggle 0 none true, .toggle 0 none true, .sort none false, .remove 1, .delete 2 none]

/-- A parent with two children that is closed and removed. -/
def closedCommands : List Command :=
  [.insert 0 (newItem 0 (-1) (ascii "a")), .insert 1 (newItem 1 0 (ascii "b")),
    .insert 2 (newItem 2 0 (ascii "c")), .toggle 0 none true, .remove 0]

theorem play_careful :
    ((Run.play Careful (fun t command => t.step insertionSort command)
      (create false false (-1) false) carefulCommands).map fun t => t.numViewed) = some 3 := by
  decide +kernel

theorem play_closed :
    ((Run.play (fun _ _ => true) (fun t command => t.step insertionSort command)
      (create false false (-1) false) closedCommands).map fun t => t.numViewed) = some (-2) := by
  decide +kernel

theorem counters_kept_nine :
    ∃ t, Run.play Careful (fun t command => t.step insertionSort command)
      (create false false (-1) false) carefulCommands = some t ∧ WellCounted t := by
  obtain ⟨t, played, -⟩ := Option.map_eq_some_iff.mp play_careful
  exact ⟨t, played, counters_kept perm_insertionSort (Run.of_play played)⟩

/-- The number of the lines that are seen is negative in the end. -/
theorem remove_counts_hidden :
    ∃ t, Run (fun t command t' => t.step insertionSort command = .ok t')
      (create false false (-1) false) closedCommands t ∧ ¬ WellCounted t := by
  obtain ⟨t, played, viewed⟩ := Option.map_eq_some_iff.mp play_closed
  refine ⟨t, (Run.of_play played).mono fun _ _ _ h => h.2, ?_⟩
  intro counted
  have count := counted.numViewed
  omega

end TreeTable

end SourceNavigator.Hyper

import SourceNavigator.Hyper.TreeToggle

/-!
Sorting a tree table.

Each list is sorted after the lists below its items: it is read into an array,
and its items are linked again in the order of the sorted array. Whatever order
the function gives, as long as it is an order of the same items, the items below
each item stay the same (`Shape.sort`).
-/

namespace SourceNavigator.Hyper

open Lib

namespace TreeTable

variable {t t' : TreeTable} {p : Ptr} {f g s m : Forest Ptr} {c : Hole Ptr} {l : List Ptr} {n : Nat}

/-- Two tables differ in the pointers between their items only. -/
structure Repointed (t t' : TreeTable) : Prop where
  counts : t'.counts = t.counts
  isSome : ∀ q, (t'.item q).isSome = (t.item q).isSome
  rest : t' = { t with item := t'.item, itemPtr := t'.itemPtr }

namespace Repointed

theorem refl (t : TreeTable) : Repointed t t := ⟨rfl, fun _ => rfl, rfl⟩

theorem trans {t'' : TreeTable} (h : Repointed t t') (h' : Repointed t' t'') : Repointed t t'' := by
  refine ⟨h'.counts.trans h.counts, fun q => (h'.isSome q).trans (h.isSome q), ?_⟩
  rw [h'.rest, h.rest]

end Repointed

theorem repointed_setCell (t : TreeTable) (cell : Cell Ptr) (ptr : Option Ptr) :
    Repointed t (t.setCell cell ptr) := by
  refine ⟨counts_setCell t cell ptr, isSome_setCell t cell ptr, ?_⟩
  cases cell <;> rfl

theorem repointed_relink (l : List Ptr) (t : TreeTable) : Repointed t (t.relink l) := by
  induction l generalizing t with
  | nil => exact .refl t
  | cons p l ih => exact (repointed_setCell t _ _).trans (ih _)

theorem links_relink (live : ∀ q ∈ l, (t.item q).isSome) :
    (t.relink l).links = t.links.relink l := by
  induction l generalizing t with
  | nil => rfl
  | cons p l ih =>
    have first : (t.setCell (.next p) l.head?).links = t.links.set (.next p) l.head? :=
      links_setCell fun q cell => by
        rcases cell with cell | cell
        · cases cell
        · exact Cell.next.inj cell ▸ live p List.mem_cons_self
    rw [relink, Links.relink, ← first]
    refine ih ?_
    intro q mem
    rw [isSome_setCell]
    exact live q (List.mem_cons_of_mem p mem)

/-- The same items, below the same items. -/
structure Rearranged (f f' : Forest Ptr) : Prop where
  walk : f'.walk.Perm f.walk
  seen : ∀ shut, f'.seen shut = f.seen shut

theorem Rearranged.refl (f : Forest Ptr) : Rearranged f f := ⟨.refl _, fun _ => rfl⟩

theorem Rearranged.trans {f' f'' : Forest Ptr} (h : Rearranged f f') (h' : Rearranged f' f'') :
    Rearranged f f'' :=
  ⟨h'.walk.trans h.walk, fun shut => (h'.seen shut).trans (h.seen shut)⟩

theorem Rearranged.size {f' : Forest Ptr} (h : Rearranged f f') : f'.size = f.size := by
  rw [← Forest.length_walk, h.walk.length_eq, Forest.length_walk]

/-- The items of a list are linked in another order. -/
theorem Shape.arrange (h : Shape t (c.fill f)) (perm : l.Perm f.tops) :
    Shape ((t.setCell c.cell l.head?).relink l) (c.fill (.arrange f.subOf l)) ∧
      Rearranged f (.arrange f.subOf l) := by
  obtain ⟨rest_nodup, f_nodup, apart⟩ := Hole.nodup_fill.mp h.nodup
  have whole : Forest.arrange f.subOf f.tops = f := Forest.arrange_tops f_nodup
  have walk : (Forest.arrange f.subOf l).walk.Perm f.walk := by
    conv_rhs => rw [← whole]
    exact walk_arrange_perm perm
  have seen (shut : Ptr → Bool) : (Forest.arrange f.subOf l).seen shut = f.seen shut := by
    conv_rhs => rw [← whole]
    exact seen_arrange_perm perm
  have same : Rearranged f (.arrange f.subOf l) := ⟨walk, seen⟩
  refine ⟨?_, same⟩
  have in_f (q : Ptr) (mem : q ∈ l) : q ∈ f.walk := Forest.mem_walk_of_tops (perm.mem_iff.mp mem)
  have repointed : Repointed t ((t.setCell c.cell l.head?).relink l) :=
    (repointed_setCell t _ _).trans (repointed_relink l _)
  have links : ((t.setCell c.cell l.head?).relink l).links =
      (t.links.set c.cell l.head?).relink l := by
    rw [links_relink, links_setCell]
    · intro q cell
      exact h.isSome (Hole.mem_walk_fill.mpr (.inl (Hole.mem_rest_of_cell cell)))
    · intro q mem
      rw [isSome_setCell]
      exact h.isSome (Hole.mem_walk_fill.mpr (.inr (in_f q mem)))
  have numItems : ((t.setCell c.cell l.head?).relink l).numItems = t.numItems := by
    have eq := congrArg (fun t : TreeTable => t.numItems) repointed.rest
    exact eq
  refine ⟨?_, ?_, ?_, ?_, ?_⟩
  · change (c.fill _).Linked _ none ((t.setCell c.cell l.head?).relink l).links.head
    rw [links]
    exact Links.arrange_linked h.nodup h.linked perm
  · refine Hole.nodup_fill.mpr ⟨rest_nodup, walk.nodup_iff.mpr f_nodup, ?_⟩
    intro q mem in_l
    exact apart q mem (walk.mem_iff.mp in_l)
  · intro q
    rw [repointed.isSome, h.live, Hole.mem_walk_fill, Hole.mem_walk_fill, walk.mem_iff]
  · rw [repointed.counts]
    obtain ⟨around, inside⟩ := Hole.counted_fill.mp h.counted
    refine Hole.counted_fill.mpr ⟨?_, ?_⟩
    · rw [same.size, seen]
      exact around
    · refine counted_arrange_perm perm.symm ?_
      rwa [whole]
  · rw [numItems, h.numItems, Hole.size_fill, Hole.size_fill, same.size]

/-! ### The recursion -/

section Lists

variable {qqsort : (Ptr → Ptr → Int) → List Ptr → List Ptr} {col : Int} {noCase : Bool}

/-- The loop over the items of a list. -/
def sortSubs (qqsort : (Ptr → Ptr → Int) → List Ptr → List Ptr) (col : Int) (noCase : Bool)
    (n : Nat) (t : TreeTable) (items : List Ptr) : Except Fault TreeTable :=
  items.foldlM
    (fun t p => do
      let x ← t.read p
      if x.succPtr.isSome then TreeTableSort_x qqsort col noCase n t (some p) else pure t)
    t

theorem sortSubs_cons {x : TableItem} {t₁ : TreeTable} (item : t.item p = some x)
    (sorted : (if x.succPtr.isSome then TreeTableSort_x qqsort col noCase n t (some p)
      else pure t) = .ok t₁) :
    sortSubs qqsort col noCase n t (p :: l) = sortSubs qqsort col noCase n t₁ l := by
  rw [sortSubs, List.foldlM_cons, read_eq item]
  change ((if x.succPtr.isSome then TreeTableSort_x qqsort col noCase n t (some p)
    else pure t) >>= _) = _
  rw [sorted]
  rfl

/-- The lists below the items of a list are sorted. -/
def Sorts (qqsort : (Ptr → Ptr → Int) → List Ptr → List Ptr) (col : Int) (noCase : Bool)
    (g : Forest Ptr) : Prop :=
  ∀ {c : Hole Ptr} {t : TreeTable} (n : Nat), Shape t (c.fill g) → g.size ≤ n →
    ∃ t' g', sortSubs qqsort col noCase n t g.tops = .ok t' ∧ Shape t' (c.fill g') ∧
      g'.tops = g.tops ∧ Rearranged g g' ∧ Repointed t t'

variable (perm : ∀ compar l, (qqsort compar l).Perm l)
include perm

/-- The list of an owner and the lists below its items are sorted. -/
theorem Shape.sort_x (sorts : Sorts qqsort col noCase s) (h : Shape t (c.fill s))
    (first : c.cell = .first c.owner) (enough : s.size ≤ n) :
    ∃ t' s', TreeTableSort_x qqsort col noCase (n + 1) t c.owner = .ok t' ∧
      Shape t' (c.fill s') ∧ Rearranged s s' ∧ Repointed t t' := by
  have get {u : TreeTable} {s' : Forest Ptr} (h : Shape u (c.fill s')) :
      u.first c.owner = .ok (u.links.get c.cell) := by
    rw [first]
    refine first_eq ?_
    intro o eq
    exact h.isSome (Hole.mem_walk_fill.mpr (.inl
      (Hole.mem_rest_of_ancestors (List.mem_of_mem_head? eq))))
  obtain ⟨t₁, s₁, loop, shape, tops, same, repointed⟩ := sorts n h enough
  rw [TreeTableSort_x, get h, Fuel.ok_bind, h.siblings, Fuel.ok_bind]
  change ∃ t' s', (sortSubs qqsort col noCase n t s.tops >>= _) = _ ∧ _
  rw [loop, Fuel.ok_bind, get shape, Fuel.ok_bind, shape.siblings, Fuel.ok_bind]
  split
  · exact ⟨t₁, s₁, rfl, shape, same, repointed⟩
  · let l := qqsort (t₁.compar col noCase) s₁.tops
    obtain ⟨arranged, same'⟩ := shape.arrange (perm (t₁.compar col noCase) s₁.tops)
    refine ⟨_, _, rfl, ?_, same.trans same', ?_⟩
    · rw [← first]
      exact arranged
    · exact repointed.trans ((repointed_setCell t₁ _ _).trans (repointed_relink l _))

theorem sorts (g : Forest Ptr) : Sorts qqsort col noCase g := by
  induction g with
  | nil =>
    intro c t n h _
    exact ⟨t, .nil, rfl, h, rfl, .refl _, .refl t⟩
  | node p s m s_ih m_ih =>
    intro c t n h enough
    rw [Forest.size_node] at enough
    obtain ⟨n, rfl⟩ := Nat.exists_eq_add_of_le' (Nat.le_trans (by omega : 1 ≤ _) enough)
    obtain ⟨x, item⟩ := h.exists_item (Hole.mem_walk_fill.mpr (.inr List.mem_cons_self))
    obtain ⟨-, -, sub, -⟩ := h.item_at item
    have below : ∃ t₁ s₁, (if x.succPtr.isSome
          then TreeTableSort_x qqsort col noCase (n + 1) t (some p) else pure t) = .ok t₁ ∧
        Shape t₁ (c.fill (.node p s₁ m)) ∧ Rearranged s s₁ ∧ Repointed t t₁ := by
      split
      · exact Shape.sort_x (c := .under p m c) perm s_ih h rfl (by omega)
      · exact ⟨t, s, rfl, h, .refl s, .refl t⟩
    obtain ⟨t₁, s₁, sorted, shape, same, repointed⟩ := below
    obtain ⟨t₂, m₂, loop, shape', tops, same', repointed'⟩ :=
      m_ih (c := .behind p s₁ c) (n + 1) shape (by omega)
    refine ⟨t₂, .node p s₁ m₂, ?_, shape', ?_, ⟨?_, ?_⟩, repointed.trans repointed'⟩
    · rw [Forest.tops, sortSubs_cons item sorted]
      exact loop
    · rw [Forest.tops, Forest.tops, tops]
    · exact (same.walk.append same'.walk).cons p
    · intro shut
      rw [seen_node, seen_node, same.seen, same'.seen]

/-- Sorting keeps the items and the stations, and the caches are freed. -/
theorem Shape.sort (h : Shape t f) (col : Option Int) (noCase : Bool) :
    ∃ t' f', t.TreeTableSort qqsort col noCase = .ok t' ∧ Shape t' f' ∧ Rearranged f f' ∧
      t'.hidden = t.hidden ∧ t'.numViewed = t.numViewed ∧
      t'.toCaches = t.FREE_CACHE.FREE_PARENT_CACHE.toCaches := by
  have start (u : TreeTable) (same : u.toItems = t.toItems) :
      ∃ t' f', TreeTableSort_x qqsort (col.getD (-1)) noCase u.fuel u none = .ok t' ∧
        Shape t' f' ∧ Rearranged f f' ∧ t'.hidden = t.hidden ∧ t'.numViewed = t.numViewed ∧
        t'.toCaches = u.toCaches := by
    have shape : Shape u f := h.of_items same
    have enough : f.size ≤ u.numItems.toNat := by
      rw [shape.numItems, Int.toNat_natCast]
    have all : Sorts qqsort (col.getD (-1)) noCase f := sorts perm f
    obtain ⟨t', f', sorted, shape', same', repointed⟩ :=
      Shape.sort_x (c := .top) perm all shape rfl enough
    have hidden : t'.hidden = u.hidden := congrArg Counts.shut repointed.counts
    have numViewed := congrArg (fun t : TreeTable => t.numViewed) repointed.rest
    have toCaches := congrArg (fun t : TreeTable => t.toCaches) repointed.rest
    refine ⟨t', f', sorted, shape', same', ?_, ?_, toCaches⟩
    · rw [hidden]
      exact congrArg (fun items : Items => fun p =>
        ((items.item p).map TableItem.hidden_subtree).getD false) same
    · have from_u : u.numViewed = t.numViewed := congrArg Items.numViewed same
      exact numViewed.trans from_u
  cases col with
  | none => exact start t.FREE_CACHE.FREE_PARENT_CACHE rfl
  | some col =>
    rw [TreeTableSort]
    split
    · exact start ({ t with sortColumn := col } : TreeTable).FREE_CACHE.FREE_PARENT_CACHE rfl
    · exact start t.FREE_CACHE.FREE_PARENT_CACHE rfl

end Lists

end TreeTable

end SourceNavigator.Hyper

import Mathlib.Data.List.TakeWhile
import SourceNavigator.Hyper.TreeLookup

/-!
Removing items from a tree table.

The items of a sub tree are freed one after the other, without being taken out
of their lists, and each of them is subtracted from the counters above.
`removeSubs` is this loop: what is left of the forest is counted right.
-/

namespace SourceNavigator.Hyper

open Lib

namespace TreeTable

variable {t t' t'' : TreeTable} {p q : Ptr} {x : TableItem}

/-- Some items are freed, and the others differ in their counters only. -/
structure Trimmed (gone : List Ptr) (t t' : TreeTable) : Prop where
  freed : ∀ p ∈ gone, t'.item p = none
  kept : ∀ p ∉ gone, (t'.item p).map plain = (t.item p).map plain
  numItems : t'.numItems = t.numItems - gone.length
  stations : ∀ st ∈ t'.stations, st ∈ t.stations
  accelerator : t'.pathFinder.isSome = t.pathFinder.isSome
  rest : t' = { t with item := t'.item, numItems := t'.numItems, pathFinder := t'.pathFinder }

theorem Recounted.trimmed (h : Recounted t t') : Trimmed [] t t' := by
  have numItems := congrArg (fun t : TreeTable => t.numItems) h.rest
  have pathFinder := congrArg (fun t : TreeTable => t.pathFinder) h.rest
  dsimp only at numItems pathFinder
  exact
    { freed := fun p mem => (nomatch mem)
      kept := fun p _ => h.kept p
      numItems := by simpa using numItems
      stations := fun st mem => by
        unfold TreeTable.stations at mem ⊢
        rwa [pathFinder] at mem
      accelerator := by rw [pathFinder]
      rest := by rw [numItems, pathFinder]; exact h.rest }

namespace Trimmed

variable {gone gone' nodes : List Ptr}

theorem trans (h : Trimmed gone t t') (h' : Trimmed gone' t' t'') :
    Trimmed (gone ++ gone') t t'' := by
  refine ⟨fun p mem => ?_, fun p out => ?_, ?_, fun st mem => h.stations st (h'.stations st mem),
    h'.accelerator.trans h.accelerator, ?_⟩
  · by_cases later : p ∈ gone'
    · exact h'.freed p later
    · have first : t'.item p = none := h.freed p ((List.mem_append.mp mem).resolve_right later)
      have same := h'.kept p later
      rw [first] at same
      exact Option.map_eq_none_iff.mp same
  · rw [List.mem_append, not_or] at out
    exact (h'.kept p out.2).trans (h.kept p out.1)
  · rw [h'.numItems, h.numItems, List.length_append]
    push_cast
    ring
  · rw [h'.rest, h.rest]

theorem perm (h : Trimmed gone t t') (perm : gone.Perm gone') : Trimmed gone' t t' :=
  { freed := fun p mem => h.freed p (perm.mem_iff.mpr mem)
    kept := fun p out => h.kept p fun mem => out (perm.mem_iff.mp mem)
    numItems := by rw [h.numItems, perm.length_eq]
    stations := h.stations
    accelerator := h.accelerator
    rest := h.rest }

theorem isSome (h : Trimmed gone t t') (out : p ∉ gone) :
    (t'.item p).isSome = (t.item p).isSome :=
  isSome_of_plain (h.kept p out)

theorem hidden (h : Trimmed gone t t') (out : p ∉ gone) : t'.hidden p = t.hidden p :=
  congrArg (fun o : Option Bool => o.getD false) (map_of_plain (h.kept p out) _ fun _ => rfl)

theorem itemPtr (h : Trimmed gone t t') : t'.itemPtr = t.itemPtr := by
  have eq := congrArg (fun t : TreeTable => t.itemPtr) h.rest
  exact eq

/-- The pointers of the items that were kept. -/
theorem links (h : Trimmed gone t t') (out : ∀ p ∈ nodes, p ∉ gone) :
    t.links.AgreeOn t'.links nodes := fun p mem =>
  ⟨bind_of_plain (h.kept p (out p mem)) _ fun _ => rfl,
    bind_of_plain (h.kept p (out p mem)) _ fun _ => rfl,
    bind_of_plain (h.kept p (out p mem)) _ fun _ => rfl⟩

end Trimmed

/-- The last steps of the removal of one item. -/
theorem trimmed_free (t : TreeTable) (p : Ptr) (index : Int) :
    Trimmed [p] t
      ((({ t with numItems := t.numItems - 1 } : TreeTable).DELETE_FROM_PATHFINDER
        index).TreeTableFreeItem p) where
  freed := fun q mem => by
    obtain rfl := List.mem_singleton.mp mem
    exact Function.update_self q none t.item
  kept := fun q out => by
    have ne : q ≠ p := fun eq => out (List.mem_singleton.mpr eq)
    change (Function.update t.item p none q).map plain = _
    rw [Function.update_of_ne ne]
  numItems := rfl
  stations := fun st mem => by
    have kept := stations_DELETE_FROM_PATHFINDER { t with numItems := t.numItems - 1 } index
    change st ∈ TreeTable.stations _ at mem
    exact (List.takeWhile_sublist _).subset (kept ▸ mem)
  accelerator := Option.isSome_map
  rest := rfl

/-! ### A sub tree -/

/-- What the removal of items from a hole on needs: the items around are there, the way up is open,
and what is left is counted right. -/
structure Standing (t : TreeTable) (c : Hole Ptr) (g : Forest Ptr) : Prop where
  above : Chain t.links.par c.owner c.ancestors
  live : ∀ p ∈ (c.fill g).walk, (t.item p).isSome
  nodup : (c.fill g).walk.Nodup
  counted : (c.fill g).Counted t.counts
  numItems : ((c.fill g).size : Int) ≤ t.numItems

theorem Shape.standing {c : Hole Ptr} {g : Forest Ptr} (h : Shape t (c.fill g)) :
    Standing t c g where
  above := h.around.1.ancestors
  live := fun _ mem => h.isSome mem
  nodup := h.nodup
  counted := h.counted
  numItems := Int.le_of_eq h.numItems.symm

namespace Standing

variable {c : Hole Ptr} {g s m : Forest Ptr}

theorem siblings {ptr owner : Option Ptr} (h : Standing t c g)
    (linked : s.Linked t.links owner ptr) (sub : s.walk.Sublist (c.fill g).walk) :
    t.siblings ptr = .ok s.tops := by
  refine follow_eq linked.chain (fun q mem => h.live q (sub.subset (Forest.mem_walk_of_tops mem))) ?_
  have short := (s.tops_sublist.trans sub).length_le
  rw [Forest.length_walk] at short
  have items := h.numItems
  unfold fuel
  omega

theorem live_above (h : Standing t c g) (mem : q ∈ c.ancestors) : (t.item q).isSome :=
  h.live q (Hole.mem_walk_fill.mpr (.inl (Hole.mem_rest_of_ancestors mem)))

theorem ancestors (h : Standing t c g) : t.ancestors c.owner = .ok c.ancestors := by
  refine follow_eq h.above (fun q mem => h.live_above mem) ?_
  have short := c.length_ancestors_le
  have items := h.numItems
  rw [Hole.size_fill] at items
  unfold fuel
  omega

/-- The hole below an item. -/
theorem under (h : Standing t c (.node p s m)) (par : t.links.par p = c.owner) :
    Standing t (.under p m c) s where
  above := ⟨rfl, by rw [par]; exact h.above⟩
  live := h.live
  nodup := h.nodup
  counted := h.counted
  numItems := h.numItems

/-- After some items are freed that are not around the hole. -/
theorem trimmed {gone : List Ptr} {g' : Forest Ptr} (h : Standing t c g)
    (trim : Trimmed gone t t') (perm : (gone ++ g'.walk).Perm g.walk)
    (counted : (c.fill g').Counted t'.counts) : Standing t' c g' := by
  obtain ⟨rest_nodup, g_nodup, apart⟩ := Hole.nodup_fill.mp h.nodup
  rw [← perm.nodup_iff, List.nodup_append] at g_nodup
  have in_g (q : Ptr) (mem : q ∈ g'.walk) : q ∈ g.walk :=
    perm.mem_iff.mp (List.mem_append_right _ mem)
  have out_rest (q : Ptr) (mem : q ∈ c.rest) : q ∉ gone := fun gone =>
    apart q mem (perm.mem_iff.mp (List.mem_append_left _ gone))
  have out (q : Ptr) (mem : q ∈ (c.fill g').walk) : q ∉ gone := by
    rcases Hole.mem_walk_fill.mp mem with in_rest | in_g'
    · exact out_rest q in_rest
    · exact fun gone => g_nodup.2.2 q gone q in_g' rfl
  refine ⟨h.above.congr fun q mem => ?_, fun q mem => ?_, ?_, counted, ?_⟩
  · have above : t.links.AgreeOn t'.links c.ancestors :=
      trim.links fun d mem => out_rest d (Hole.mem_rest_of_ancestors mem)
    exact (above q mem).1
  · rw [trim.isSome (out q mem)]
    refine h.live q (Hole.mem_walk_fill.mpr ?_)
    rcases Hole.mem_walk_fill.mp mem with in_rest | in_g'
    · exact .inl in_rest
    · exact .inr (in_g q in_g')
  · exact Hole.nodup_fill.mpr ⟨rest_nodup, g_nodup.2.1, fun q mem mem' => apart q mem (in_g q mem')⟩
  · have items := h.numItems
    have len := perm.length_eq
    rw [List.length_append, Forest.length_walk, Forest.length_walk] at len
    rw [Hole.size_fill] at items ⊢
    rw [trim.numItems]
    omega

end Standing

/-- The counters depend on the items of the forest. -/
theorem counted_of_item {f : Forest Ptr} (h : f.Counted t.counts)
    (same : ∀ p ∈ f.walk, t'.item p = t.item p) : f.Counted t'.counts := by
  refine h.congr (fun p mem => ⟨?_, ?_⟩) fun p mem => ?_
  · exact congrArg (fun o : Option TableItem => (o.map TableItem.succNum).getD 0) (same p mem)
  · exact congrArg (fun o : Option TableItem => (o.map TableItem.seenNum).getD 0) (same p mem)
  · exact congrArg (fun o : Option TableItem => (o.map TableItem.hidden_subtree).getD false)
      (same p mem)

section RemoveThis

variable {c : Hole Ptr} {m : Forest Ptr} {index deleted : Int}

/-- The items above are told that an item without a sub tree goes. -/
theorem Standing.climb (h : Standing t c (.node p .nil m)) :
    (c.fill m).Counted (climb (-1) t false c.ancestors).1.counts := by
  obtain ⟨rest_nodup, -, apart⟩ := Hole.nodup_fill.mp h.nodup
  obtain ⟨around, -, -, -, inside⟩ := Hole.counted_fill.mp h.counted
  have counts : (TreeTable.climb (-1) t false c.ancestors).1.counts =
      t.counts.climb (-1) (-1) c.ancestors :=
    counts_climb (-1) fun q mem => h.live_above mem
  have shut (q : Ptr) : (TreeTable.climb (-1) t false c.ancestors).1.counts.shut q =
      t.counts.shut q := by
    rw [counts, Counts.shut_climb]
  have less := around.climb (-1) (-1) rest_nodup
  refine Hole.counted_fill.mpr ⟨?_, ?_⟩
  · rw [seen_congr fun q _ => shut q, counts]
    convert less using 1
    · simp
    · rw [seen_node]
      simp
  · refine inside.congr ?_ fun q _ => shut q
    rw [counts]
    exact Counts.agreeOn_climb fun q mem in_m =>
      apart q (Hole.mem_rest_of_ancestors mem) (Forest.mem_walk_node.mpr (.inr (.inr in_m)))

/-- An item of a sub tree that is removed. -/
theorem removeThis_child (h : Standing t c (.node p .nil m)) (owner : x.parentPtr = c.owner) :
    ∃ t', t.removeThis false true p x index deleted = .ok (t', deleted) ∧ Trimmed [p] t t' ∧
      (c.fill m).Counted t'.counts ∧ ∀ st ∈ t'.stations, st.itemPos < index := by
  let r := (TreeTable.climb (-1) t false c.ancestors).1
  refine ⟨(({ r with numItems := r.numItems - 1 } : TreeTable).DELETE_FROM_PATHFINDER
    index).TreeTableFreeItem p, ?_, ?_, ?_, ?_⟩
  · rw [removeThis, owner, h.ancestors]
    rfl
  · exact (recounted_climb (-1) c.ancestors t false).trimmed.trans (trimmed_free r p index)
  · refine counted_of_item h.climb fun q mem => ?_
    change Function.update r.item p none q = r.item q
    have ne : q ≠ p := by
      rintro rfl
      obtain ⟨-, node_nodup, apart⟩ := Hole.nodup_fill.mp h.nodup
      rcases Hole.mem_walk_fill.mp mem with in_rest | in_m
      · exact apart q in_rest List.mem_cons_self
      · exact (List.nodup_cons.mp node_nodup).1 in_m
    exact Function.update_of_ne ne none r.item
  · intro st mem
    have kept := stations_DELETE_FROM_PATHFINDER { r with numItems := r.numItems - 1 } index
    change st ∈ TreeTable.stations _ at mem
    have before : st ∈ List.takeWhile (fun pf => decide (pf.itemPos < index)) r.stations :=
      kept ▸ mem
    have holds := List.mem_takeWhile_imp before
    exact of_decide_eq_true holds

end RemoveThis

/-! ### The items of a sub tree -/

section RemoveSubs

variable {c : Hole Ptr} {s m : Forest Ptr} {ptr : Option Ptr} {index deleted : Int} {n : Nat}

/-- The loop of `TreeTableRemoveItem`. -/
def removeSubs (n : Nat) (index : Int) (t : TreeTable) (deleted : Int) (subs : List Ptr) :
    Except Fault (TreeTable × Int) :=
  subs.foldlM
    (fun (t, deleted) sub => do
      let (t, r) ← TreeTableRemoveItem false true n t sub (index + deleted)
      pure (t, deleted + r))
    (t, deleted)

theorem removeItem_eq {original_item children : Bool} (item : t.item p = some x)
    (index_nonneg : 0 ≤ index) :
    TreeTableRemoveItem original_item children (n + 1) t p index = (do
      let subs ← t.siblings x.succPtr
      let (t, deleted) ← removeSubs n index t 1 subs
      t.removeThis original_item children p x index deleted) := by
  have given : index ≠ -1 := by omega
  rw [TreeTableRemoveItem, read_eq item, Fuel.ok_bind, if_neg given]
  change (if index = -1 then _ else _) = _
  rw [if_neg given]
  rfl

/-- What the loop does to the lists from a hole on. -/
def Frees (s : Forest Ptr) : Prop :=
  ∀ {c : Hole Ptr} {t : TreeTable} {ptr : Option Ptr} (index deleted : Int) (n : Nat),
    Standing t c s → s.Linked t.links c.owner ptr → 0 ≤ index → 0 ≤ deleted → s.size ≤ n →
      ∃ t', removeSubs n index t deleted s.tops = .ok (t', deleted + s.size) ∧
        Trimmed s.walk t t' ∧ (c.fill .nil).Counted t'.counts

theorem Standing.siblings_sub (h : Standing t c (.node p s m)) {ptr : Option Ptr}
    (linked : s.Linked t.links (some p) ptr) : t.siblings ptr = .ok s.tops := by
  have whole : s.walk.Sublist (Forest.node p s m).walk := (List.sublist_append_left _ _).cons p
  exact h.siblings linked (whole.trans (Hole.walk_sublist_fill c _))

/-- One item of a sub tree with what is below it. -/
theorem removeItem_child (index : Int) (n : Nat) (frees : Frees s)
    (h : Standing t c (.node p s m))
    (linked : (Forest.node p s m).Linked t.links c.owner ptr) (index_nonneg : 0 ≤ index)
    (fuel : s.size ≤ n) :
    ∃ t', TreeTableRemoveItem false true (n + 1) t p index = .ok (t', 1 + s.size) ∧
      Trimmed (p :: s.walk) t t' ∧ (c.fill m).Counted t'.counts ∧
      ∀ st ∈ t'.stations, st.itemPos < index := by
  obtain ⟨x, item⟩ := Option.isSome_iff_exists.mp
    (h.live p (Hole.mem_walk_fill.mpr (.inr List.mem_cons_self)))
  obtain ⟨-, par, sub, -⟩ := linked
  obtain ⟨t₁, loop, trim, counted⟩ :=
    frees index 1 n (h.under par) sub index_nonneg Int.one_nonneg fuel
  have standing : Standing t₁ c (.node p .nil m) := h.trimmed trim List.perm_middle counted
  have owner_eq : x.parentPtr = c.owner := (links_par item).symm.trans par
  obtain ⟨t₂, this, trim', counted', before⟩ := removeThis_child standing owner_eq
  refine ⟨t₂, ?_, (trim.trans trim').perm List.perm_append_comm, counted', before⟩
  rw [links_succ item] at sub
  rw [removeItem_eq item index_nonneg, h.siblings_sub sub, Fuel.ok_bind, loop, Fuel.ok_bind]
  exact this

theorem removeSubs_cons (n : Nat) (index deleted : Int) (subs : List Ptr) :
    removeSubs n index t deleted (p :: subs) = (do
      let (t, r) ← TreeTableRemoveItem false true n t p (index + deleted)
      removeSubs n index t (deleted + r) subs) := by
  rw [removeSubs, List.foldlM_cons]
  dsimp only
  cases TreeTableRemoveItem false true n t p (index + deleted) with
  | error e => rfl
  | ok r => rfl

theorem frees (s : Forest Ptr) : Frees s := by
  induction s with
  | nil =>
    intro c t ptr index deleted n h _ _ _ _
    refine ⟨t, ?_, (Recounted.refl t).trimmed, h.counted⟩
    change Except.ok (t, deleted) = Except.ok (t, deleted + 0)
    rw [Int.add_zero]
  | node p s m s_ih m_ih =>
    intro c t ptr index deleted n h linked index_nonneg deleted_nonneg fuel
    rw [Forest.size_node] at fuel
    obtain ⟨n, rfl⟩ := Nat.exists_eq_add_of_le' (Nat.le_trans (by omega : 1 ≤ _) fuel)
    obtain ⟨t₁, first, trim, counted, -⟩ :=
      removeItem_child (index + deleted) n s_ih h linked (by omega) (by omega)
    obtain ⟨-, nodup, -⟩ := Hole.nodup_fill.mp h.nodup
    have split : (p :: s.walk ++ m.walk).Nodup := nodup
    have apart : ∀ q ∈ m.walk, q ∉ p :: s.walk := fun q mem gone =>
      (List.nodup_append.mp split).2.2 q gone q mem rfl
    have rest := linked.2.2.2.congr (trim.links apart)
    obtain ⟨t₂, loop, trim', counted'⟩ :=
      m_ih index (deleted + (1 + s.size)) (n + 1) (h.trimmed trim (.refl _) counted) rest
        index_nonneg (by omega) (by omega)
    refine ⟨t₂, ?_, trim.trans trim', counted'⟩
    rw [Forest.tops, removeSubs_cons, first, Fuel.ok_bind]
    refine loop.trans ?_
    rw [Forest.size_node]
    push_cast
    ring_nf

end RemoveSubs

/-! ### Taking an item out of its list -/

section Unlink

variable {c : Hole Ptr} {s : Forest Ptr} {after : List Ptr} {u : TreeTable}

theorem first_eq {owner : Option Ptr} (live : ∀ o, owner = some o → (u.item o).isSome) :
    u.first owner = .ok (u.links.get (.first owner)) := by
  cases owner with
  | none => rfl
  | some o =>
    obtain ⟨y, item⟩ := Option.isSome_iff_exists.mp (live o rfl)
    rw [first, read_eq item, Fuel.ok_bind]
    exact congrArg Except.ok (links_succ item).symm

theorem unlink_eq (here : u.links.get c.cell = some p)
    (chain : Chain u.links.next (u.links.get (.first c.owner)) (c.lefts ++ p :: after))
    (nodup : (c.lefts ++ p :: after).Nodup)
    (live : ∀ q ∈ c.lefts ++ p :: after, (u.item q).isSome)
    (owner_live : ∀ o, c.owner = some o → (u.item o).isSome)
    (enough : (c.lefts ++ p :: after).length ≤ u.fuel) (owner : x.parentPtr = c.owner) :
    u.unlink p x = .ok (u.setCell c.cell x.nextPtr) := by
  have siblings : u.siblings (u.links.get (.first c.owner)) = .ok (c.lefts ++ p :: after) :=
    follow_eq chain live enough
  rw [unlink, owner, first_eq owner_live, Fuel.ok_bind]
  cases c with
  | top =>
    rw [show u.links.get (.first (Hole.top : Hole Ptr).owner) = some p from here]
    exact if_pos rfl
  | under a n outer =>
    rw [show u.links.get (.first (Hole.under a n outer).owner) = some p from here]
    exact if_pos rfl
  | behind b s outer =>
    have mem : b ∈ (Hole.behind b s outer).lefts ++ p :: after := by simp [Hole.lefts]
    have prev := chain.find_prev nodup mem here
    obtain ⟨top, lefts, eq⟩ : ∃ top lefts, (Hole.behind b s outer).lefts = top :: lefts :=
      List.exists_cons_of_ne_nil (by simp [Hole.lefts])
    rw [eq] at chain nodup siblings prev
    obtain ⟨first, -⟩ := chain
    have ne : top ≠ p := by
      rintro rfl
      simp at nodup
    rw [first] at siblings ⊢
    change (if top = p then _ else _) = _
    rw [if_neg ne, siblings, Fuel.ok_bind]
    have found : List.find? (fun q => decide (u.nextPtr q = some p)) (top :: lefts ++ p :: after) =
        some b := prev
    rw [found]
    rfl

end Unlink

/-! ### Removing an item -/

section Remove

variable {c : Hole Ptr} {s m : Forest Ptr}

/-- What is left of the caches when the items from a line on were moved. -/
structure Uncached (t t' : TreeTable) (index : Int) : Prop where
  cachedItem : t'.cachedItem = (t.FREE_RONG_CACHE index).cachedItem
  cachedParent : t'.cachedParent = (t.FREE_RONG_PARENT_CACHE index).cachedParent
  stations : ∀ st ∈ t'.stations, st ∈ t.stations ∧ st.itemPos < index
  accelerator : t'.pathFinder.isSome = t.pathFinder.isSome

/-- An item is taken out of its list and freed after its sub tree. -/
theorem Shape.unlinked {u : TreeTable} (h : Shape t (c.fill (.node p s m)))
    (item : t.item p = some x) (trim : Trimmed s.walk t u) (counted : (c.fill m).Counted u.counts)
    (items : t'.item = Function.update (u.setCell c.cell x.nextPtr).item p none)
    (itemPtr : t'.itemPtr = (u.setCell c.cell x.nextPtr).itemPtr)
    (numItems : t'.numItems = u.numItems - 1) : Shape t' (c.fill m) := by
  obtain ⟨nodup, left⟩ := Hole.nodup_fill_node h.nodup
  have there (q : Ptr) (mem : q ∈ (c.fill m).walk) : (u.item q).isSome := by
    rw [trim.isSome (left q mem).2]
    exact h.isSome (Hole.mem_fill_node_of_mem mem)
  have links : (u.setCell c.cell x.nextPtr).links = u.links.set c.cell x.nextPtr :=
    links_setCell fun q at_q =>
      there q (Hole.mem_walk_fill.mpr (.inl (Hole.mem_rest_of_cell at_q)))
  have item_eq (q : Ptr) (mem : q ∈ (c.fill m).walk) :
      t'.item q = (u.setCell c.cell x.nextPtr).item q := by
    rw [items, Function.update_of_ne (left q mem).1]
  refine ⟨?_, ?_, fun q => ⟨fun live => ?_, fun mem => ?_⟩, ?_, ?_⟩
  · have removed := Links.remove_linked h.nodup h.linked
    rw [links_next item] at removed
    have head : (t.links.set c.cell x.nextPtr).head = t'.itemPtr := by
      rw [itemPtr]
      cases c.cell with
      | head => rfl
      | succ q => exact trim.itemPtr.symm
      | next q => exact trim.itemPtr.symm
    rw [head] at removed
    refine removed.congr fun q mem => ?_
    have kept : t.links.AgreeOn u.links (c.fill m).walk := trim.links fun q mem => (left q mem).2
    have agree := kept.set c.cell x.nextPtr
    rw [← links] at agree
    obtain ⟨par, succ, next⟩ := agree q mem
    have same {β : Type} (field : TableItem → Option β) :
        (t'.item q).bind field = ((u.setCell c.cell x.nextPtr).item q).bind field :=
      congrArg (fun o => Option.bind o field) (item_eq q mem)
    exact ⟨(same _).trans par, (same _).trans succ, (same _).trans next⟩
  · exact nodup
  · rw [items] at live
    by_cases eq : q = p
    · rw [eq, Function.update_self] at live
      exact nomatch live
    · rw [Function.update_of_ne eq, isSome_setCell] at live
      have out : q ∉ s.walk := fun in_s => by
        rw [trim.freed q in_s] at live
        exact nomatch live
      rw [trim.isSome out, h.live, Hole.mem_walk_fill, Forest.mem_walk_node] at live
      rw [Hole.mem_walk_fill]
      tauto
  · rw [item_eq q mem, isSome_setCell]
    exact there q mem
  · refine counted_of_item ?_ item_eq
    rwa [counts_setCell]
  · have size := h.numItems
    rw [Hole.size_fill, Forest.size_node] at size
    rw [numItems, trim.numItems, Hole.size_fill, Forest.length_walk]
    omega

/-- What the removal of an item does, with `removed` items in its sub tree and the item. -/
structure Removed (t t' : TreeTable) (c : Hole Ptr) (m : Forest Ptr) (index numViewed : Int) :
    Prop where
  shape : Shape t' (c.fill m)
  hidden : ∀ q ∈ (c.fill m).walk, t'.hidden q = t.hidden q
  numViewed : t'.numViewed = numViewed
  uncached : Uncached t t' index

theorem toItems_setCell {u u' : TreeTable} (same : u'.toItems = u.toItems) (cell : Cell Ptr)
    (ptr : Option Ptr) : (u'.setCell cell ptr).toItems = (u.setCell cell ptr).toItems := by
  cases cell with
  | head =>
    exact congrArg (fun items : Items => { items with itemPtr := ptr }) same
  | succ q =>
    exact congrArg (fun items : Items =>
      { items with
        item := Function.update items.item q
          ((items.item q).map fun y : TableItem => { y with succPtr := ptr }) }) same
  | next q =>
    exact congrArg (fun items : Items =>
      { items with
        item := Function.update items.item q
          ((items.item q).map fun y : TableItem => { y with nextPtr := ptr }) }) same

theorem toCaches_setCell (t : TreeTable) (cell : Cell Ptr) (ptr : Option Ptr) :
    (t.setCell cell ptr).toCaches = t.toCaches := by
  cases cell <;> rfl

/-- Removing an item that is not in the sub tree of one that is removed. -/
theorem Shape.removeThis (h : Shape t (c.fill (.node p s m))) (item : t.item p = some x)
    {u : TreeTable} (trim : Trimmed s.walk t u) (counted : (c.fill (.node p .nil m)).Counted u.counts)
    (original_item : Bool) (index deleted : Int) :
    ∃ t', u.removeThis original_item false p x index deleted = .ok (t', deleted) ∧
      Removed t t' c m index
        (if original_item && !c.ancestors.any t.hidden then t.numViewed - deleted
          else t.numViewed) := by
  obtain ⟨-, owner, -, -⟩ := h.item_at item
  have standing : Standing u c (.node p .nil m) := h.standing.trimmed trim List.perm_middle counted
  let r := (TreeTable.climb (-1) u false c.ancestors).1
  have recount : Recounted u r := recounted_climb (-1) c.ancestors u false
  have trim_r : Trimmed s.walk t r := by
    have both := trim.trans recount.trimmed
    rwa [List.append_nil] at both
  let v := (r.FREE_RONG_CACHE index).FREE_RONG_PARENT_CACHE index
  have v_links : v.links = u.links := recount.links
  have v_live (q : Ptr) (mem : q ∈ (c.fill (.node p .nil m)).walk) : (v.item q).isSome := by
    change (r.item q).isSome
    rw [recount.isSome]
    exact standing.live q mem
  have v_fuel : v.fuel = u.fuel := by
    unfold fuel
    have numItems := congrArg (fun t : TreeTable => t.numItems) recount.rest
    exact congrArg (fun n : Int => n.toNat + 1) numItems
  have unlink : v.unlink p x = .ok (v.setCell c.cell x.nextPtr) := by
    obtain ⟨around, inside⟩ := h.around
    have in_list : ∀ q ∈ c.lefts ++ p :: m.tops, q ∈ (c.fill (.node p .nil m)).walk :=
      fun q mem => (c.lefts_sublist (.node p .nil m)).subset mem
    have in_rest : ∀ q ∈ c.rest, q ∈ (c.fill (.node p .nil m)).walk :=
      fun q mem => Hole.mem_walk_fill.mpr (.inl mem)
    have agree : t.links.AgreeOn v.links (c.fill (.node p .nil m)).walk := by
      rw [v_links]
      refine trim.links fun q mem in_s => ?_
      rcases Hole.mem_walk_fill.mp mem with in_rest | in_node
      · exact (Hole.nodup_fill.mp h.nodup).2.2 q in_rest (Forest.mem_walk_node.mpr (.inr (.inl in_s)))
      · rcases Forest.mem_walk_node.mp in_node with rfl | in_nil | in_m
        · exact (List.nodup_cons.mp (Hole.nodup_fill.mp h.nodup).2.1).1
            (List.mem_append_left _ in_s)
        · exact nomatch in_nil
        · exact ((Hole.nodup_fill_node h.nodup).2 q (Hole.mem_walk_fill.mpr (.inr in_m))).2 in_s
    have head : v.links.head = t.links.head := trim_r.itemPtr
    have first : v.links.get (.first c.owner) = t.links.get (.first c.owner) := by
      cases owner_eq : c.owner with
      | none => exact head
      | some o =>
        have above : o ∈ c.ancestors := List.mem_of_mem_head? owner_eq
        exact (agree o (in_rest o (Hole.mem_rest_of_ancestors above))).2.1
    have chain := (around.chain inside).congr fun q mem => (agree q (in_list q mem)).2.2
    rw [← first] at chain
    refine unlink_eq ((Hole.get_congr (agree.mono in_rest) head).trans inside.1) chain
      ((c.lefts_sublist (.node p s m)).nodup h.nodup) (fun q mem => v_live q (in_list q mem))
      (fun o eq => v_live o (in_rest o (Hole.mem_rest_of_ancestors (List.mem_of_mem_head? eq)))) ?_
      owner
    have short := (c.lefts_sublist (.node p .nil m)).length_le
    rw [Forest.length_walk] at short
    have items := standing.numItems
    rw [v_fuel]
    unfold fuel
    change (c.lefts ++ (Forest.node p .nil m).tops).length ≤ _
    omega
  let w := v.setCell c.cell x.nextPtr
  have w_items : w.toItems = (r.setCell c.cell x.nextPtr).toItems := toItems_setCell
    (show v.toItems = r.toItems from rfl) c.cell x.nextPtr
  let freed : TreeTable :=
    (({ w with numItems := w.numItems - 1 } : TreeTable).DELETE_FROM_PATHFINDER
      index).TreeTableFreeItem p
  let t' : TreeTable :=
    if original_item && !c.ancestors.any t.hidden then
      { freed with numViewed := freed.numViewed - deleted }
    else freed
  have hid : (TreeTable.climb (-1) u false c.ancestors).2 = c.ancestors.any t.hidden := by
    rw [hidden_climb, Bool.false_or]
    rw [Bool.eq_iff_iff, List.any_eq_true, List.any_eq_true]
    refine exists_congr fun q => and_congr_right fun mem => ?_
    have out : q ∉ s.walk := fun in_s => (Hole.nodup_fill.mp h.nodup).2.2 q
      (Hole.mem_rest_of_ancestors mem) (Forest.mem_walk_node.mpr (.inr (.inl in_s)))
    rw [trim.hidden out]
  have freed_items : t'.item = freed.item ∧ t'.itemPtr = freed.itemPtr ∧
      t'.numItems = freed.numItems ∧ t'.toCaches = freed.toCaches := by
    simp only [t']
    split <;> exact ⟨rfl, rfl, rfl, rfl⟩
  obtain ⟨item_eq, itemPtr_eq, numItems_eq, caches_eq⟩ := freed_items
  have w_item : w.item = (r.setCell c.cell x.nextPtr).item := congrArg Items.item w_items
  have w_itemPtr : w.itemPtr = (r.setCell c.cell x.nextPtr).itemPtr := congrArg Items.itemPtr w_items
  have w_numItems : w.numItems = r.numItems := by
    simp only [w]
    cases c.cell <;> rfl
  have shape : Shape t' (c.fill m) := by
    refine Shape.unlinked h item trim_r standing.climb ?_ ?_ ?_
    · rw [item_eq, ← w_item]
      rfl
    · rw [itemPtr_eq, ← w_itemPtr]
      rfl
    · rw [numItems_eq, ← w_numItems]
      rfl
  refine ⟨t', ?_, shape, ?_, ?_, ?_⟩
  · rw [TreeTable.removeThis, owner, standing.ancestors, Fuel.ok_bind]
    change (v.unlink p x >>= _) = _
    rw [unlink, Fuel.ok_bind, hid]
    simp only [t']
    split <;> rfl
  · intro q mem
    obtain ⟨ne, out⟩ := (Hole.nodup_fill_node h.nodup).2 q mem
    rw [← trim_r.hidden out]
    have same : t'.item q = w.item q := by
      rw [item_eq]
      exact Function.update_of_ne ne none w.item
    have counts : w.counts = r.counts := counts_setCell v c.cell x.nextPtr
    calc
      t'.hidden q = w.hidden q :=
        congrArg (fun o : Option TableItem => (o.map TableItem.hidden_subtree).getD false) same
      _ = r.hidden q := congrFun (congrArg Counts.shut counts) q
  · have numViewed : freed.numViewed = t.numViewed := by
      have from_t := congrArg (fun t : TreeTable => t.numViewed) trim_r.rest
      have from_r : w.numViewed = r.numViewed := by
        simp only [w]
        cases c.cell <;> rfl
      exact from_r.trans from_t
    simp only [t']
    rw [← numViewed]
    split <;> rfl
  · have w_caches : w.toCaches = v.toCaches := toCaches_setCell v c.cell x.nextPtr
    have from_t := congrArg (fun t : TreeTable => (t.cachedItem, t.cachedParent)) trim_r.rest
    obtain ⟨cachedItem, cachedParent⟩ := Prod.mk.inj from_t
    have stations : t'.stations = w.stations.takeWhile fun pf => pf.itemPos < index := by
      refine Eq.trans ?_ (stations_DELETE_FROM_PATHFINDER { w with numItems := w.numItems - 1 } index)
      exact congrArg (fun caches : Caches => caches.pathFinder.getD []) caches_eq
    have w_stations : w.stations = v.stations :=
      congrArg (fun caches : Caches => caches.pathFinder.getD []) w_caches
    refine ⟨?_, ?_, ?_, ?_⟩
    · rw [congrArg Caches.cachedItem caches_eq]
      refine (congrArg Caches.cachedItem w_caches).trans ?_
      exact congrArg (fun entries : Vector (Option (Ptr × Int)) MAX_CACHED =>
        entries.map fun e => e.filter fun entry => entry.2 < index) cachedItem
    · rw [congrArg Caches.cachedParent caches_eq]
      refine (congrArg Caches.cachedParent w_caches).trans ?_
      exact congrArg (fun e : Option (Ptr × Int) => e.filter fun entry => entry.2 < index)
        cachedParent
    · intro st mem
      rw [stations] at mem
      have before := List.mem_takeWhile_imp mem
      refine ⟨trim_r.stations st ?_, of_decide_eq_true before⟩
      have still : st ∈ v.stations := w_stations ▸ (List.takeWhile_sublist _).subset mem
      exact still
    · rw [congrArg Caches.pathFinder caches_eq]
      refine Option.isSome_map.trans ?_
      rw [congrArg Caches.pathFinder w_caches]
      exact trim_r.accelerator

/-- The removal of an item that is in the table, at any line. -/
theorem Shape.remove (h : Shape t (c.fill (.node p s m))) (original_item : Bool) {index : Int}
    (index_nonneg : 0 ≤ index) :
    ∃ t', TreeTableRemoveItem original_item false t.fuel t p index = .ok (t', 1 + s.size) ∧
      Removed t t' c m index
        (if original_item && !c.ancestors.any t.hidden then t.numViewed - (1 + s.size)
          else t.numViewed) := by
  obtain ⟨x, item⟩ := h.exists_item (Hole.mem_walk_fill.mpr (.inr List.mem_cons_self))
  obtain ⟨-, par, sub, -⟩ := h.around.2
  have enough : s.size ≤ t.numItems.toNat := by
    rw [h.numItems, Hole.size_fill, Forest.size_node]
    omega
  obtain ⟨u, loop, trim, counted⟩ := frees s index 1 t.numItems.toNat (h.standing.under par) sub
    index_nonneg Int.one_nonneg enough
  obtain ⟨t', this, removed⟩ := h.removeThis item trim counted original_item index (1 + s.size)
  refine ⟨t', ?_, removed⟩
  rw [links_succ item] at sub
  rw [fuel, removeItem_eq item index_nonneg, h.standing.siblings_sub sub, Fuel.ok_bind, loop,
    Fuel.ok_bind]
  exact this

/-- The loop of `deleteAll`. -/
def deleteTops (t : TreeTable) (i : Int) (list : List Ptr) : Except Fault (TreeTable × Int) :=
  list.foldlM
    (fun (t, i) p => do
      let x ← t.read p
      let (t, _) ← TreeTableRemoveItem false true t.fuel t p i
      pure (t, i + 1 + x.succNum))
    (t, i)

theorem deleteTops_cons {list : List Ptr} {i n : Int} (item : t.item p = some x)
    (removed : TreeTableRemoveItem false true t.fuel t p i = .ok (t', n)) :
    deleteTops t i (p :: list) = deleteTops t' (i + 1 + x.succNum) list := by
  rw [deleteTops, List.foldlM_cons]
  change ((t.read p >>= _) >>= _) = _
  rw [read_eq item, Fuel.ok_bind, removed]
  rfl

theorem deleteTops_eq {f : Forest Ptr} {ptr : Option Ptr} {i : Int} (h : Standing t .top f)
    (linked : f.Linked t.links none ptr) (nonneg : 0 ≤ i) :
    ∃ t' j, deleteTops t i f.tops = .ok (t', j) ∧ Trimmed f.walk t t' ∧
      (f ≠ .nil → ∀ st ∈ t'.stations, st.itemPos < i) := by
  induction f generalizing t ptr i with
  | nil =>
    refine ⟨t, i, rfl, (Recounted.refl t).trimmed, ?_⟩
    intro ne
    exact absurd rfl ne
  | node p s m _ ih =>
    have items : ((Forest.node p s m).size : Int) ≤ t.numItems := h.numItems
    rw [Forest.size_node] at items
    obtain ⟨x, item⟩ := Option.isSome_iff_exists.mp (h.live p List.mem_cons_self)
    obtain ⟨all, -⟩ := h.counted
    rw [counts_all item] at all
    obtain ⟨t₁, removed, trim, counted, before⟩ :=
      removeItem_child i t.numItems.toNat (frees s) h linked nonneg (by omega)
    have split : (p :: s.walk ++ m.walk).Nodup := h.nodup
    have apart : ∀ q ∈ m.walk, q ∉ p :: s.walk := fun q mem gone =>
      (List.nodup_append.mp split).2.2 q gone q mem rfl
    have rest := linked.2.2.2.congr (trim.links apart)
    obtain ⟨t₂, j, loop, trim', -⟩ :=
      ih (i := i + 1 + x.succNum) (h.trimmed trim (.refl _) counted) rest (by omega)
    refine ⟨t₂, j, ?_, trim.trans trim', ?_⟩
    · rw [Forest.tops, deleteTops_cons item removed]
      exact loop
    · intro _ st mem
      exact before st (trim'.stations st mem)

/-- The deletion of all items. -/
theorem Shape.deleteAll {f : Forest Ptr} (h : Shape t f) (ne : f ≠ .nil) :
    ∃ t', t.deleteAll = .ok t' ∧ Shape t' .nil ∧ Uncached t t' 0 := by
  obtain ⟨u, j, loop, trim, before⟩ :=
    deleteTops_eq (Shape.standing (c := .top) h) h.linked (Int.le_refl 0)
  have list : t.siblings t.itemPtr = .ok f.tops := Shape.siblings (c := .top) h
  refine ⟨{ (u.FREE_RONG_CACHE 0).FREE_RONG_PARENT_CACHE 0 with itemPtr := none }, ?_, ?_, ?_⟩
  · rw [TreeTable.deleteAll, list, Fuel.ok_bind]
    change (deleteTops t 0 f.tops >>= _) = _
    rw [loop]
    rfl
  · refine ⟨rfl, List.nodup_nil, ?_, trivial, ?_⟩
    · intro q
      refine iff_of_false ?_ List.not_mem_nil
      intro live
      change (u.item q).isSome at live
      by_cases mem : q ∈ f.walk
      · rw [trim.freed q mem] at live
        exact nomatch live
      · rw [trim.isSome mem] at live
        exact mem ((h.live q).mp live)
    · have items := trim.numItems
      rw [h.numItems, Forest.length_walk] at items
      change u.numItems = ((Forest.nil : Forest Ptr).size : Int)
      rw [items, Int.sub_self]
      rfl
  · have from_t := congrArg (fun t : TreeTable => (t.cachedItem, t.cachedParent)) trim.rest
    obtain ⟨cachedItem, cachedParent⟩ := Prod.mk.inj from_t
    refine ⟨?_, ?_, ?_, trim.accelerator⟩
    · exact congrArg (fun entries : Vector (Option (Ptr × Int)) MAX_CACHED =>
        entries.map fun e => e.filter fun entry => entry.2 < 0) cachedItem
    · exact congrArg (fun e : Option (Ptr × Int) => e.filter fun entry => entry.2 < 0) cachedParent
    · intro st mem
      exact ⟨trim.stations st mem, before ne st mem⟩

end Remove

end TreeTable

end SourceNavigator.Hyper

import SourceNavigator.Hyper.TreeRemove

/-!
Hiding and showing sub trees, and counting what is seen.

`Shape.toggleIt` says that the counters above are right again after one item was
hidden or shown, and how `numViewed` changes. A deletion counts all items of the
root list instead (`Shape.countNotHidden`).
-/

namespace SourceNavigator.Hyper

open Lib

namespace TreeTable

variable {t t' : TreeTable} {p : Ptr} {x : TableItem} {f g s m : Forest Ptr} {c : Hole Ptr}

/-! ### Counting -/

/-- The loop over a list. -/
theorem foldlM_seen {l : List Ptr} (live : ∀ q ∈ l, (t.item q).isSome) (i : Int) :
    l.foldlM (fun i p => do
      let x ← t.read p
      pure (i + 1 + x.seenNum)) i =
      (Except.ok (i + (l.map fun q => 1 + t.counts.seen q).sum) : Except Fault Int) := by
  induction l generalizing i with
  | nil =>
    change Except.ok i = _
    simp
  | cons q l ih =>
    obtain ⟨y, item⟩ := Option.isSome_iff_exists.mp (live q List.mem_cons_self)
    rw [List.foldlM_cons, read_eq item, Fuel.ok_bind]
    change List.foldlM _ (i + 1 + y.seenNum) l = _
    rw [ih fun r mem => live r (List.mem_cons_of_mem q mem), List.map_cons, List.sum_cons,
      counts_seen item]
    congr 1
    ring

theorem Shape.countNotHidden_x (h : Shape t (c.fill g)) :
    t.TreeTableCountNotHidden_x (t.links.get c.cell) = .ok (g.seen t.hidden) := by
  have live (q : Ptr) (mem : q ∈ g.tops) : (t.item q).isSome :=
    h.isSome (Hole.mem_walk_fill.mpr (.inr (Forest.mem_walk_of_tops mem)))
  have sum := seen_eq_sum (Hole.counted_fill.mp h.counted).2
  rw [TreeTableCountNotHidden_x, h.siblings, Fuel.ok_bind, foldlM_seen live, Int.zero_add, ← sum]
  rfl

theorem Shape.countNotHidden (h : Shape t f) :
    t.TreeTableCountNotHidden = .ok { t with numViewed := f.seen t.hidden } := by
  have count : t.TreeTableCountNotHidden_x t.itemPtr = .ok (f.seen t.hidden) :=
    Shape.countNotHidden_x (c := .top) h
  rw [TreeTableCountNotHidden, count, Fuel.ok_bind]
  rfl

/-! ### Going up to a hidden item -/

theorem recounted_climbSeen (n : Int) (above : List Ptr) (t : TreeTable) :
    Recounted t (climbSeen n t above).1 := by
  induction above generalizing t with
  | nil => exact .refl t
  | cons p above ih =>
    rw [climbSeen]
    split
    · exact .refl t
    · exact (Recounted.modify (by exact fun _ => rfl)).trans (ih _)

theorem hidden_climbSeen (n : Int) (above : List Ptr) (t : TreeTable) :
    (climbSeen n t above).2 = above.any t.hidden := by
  induction above generalizing t with
  | nil => rfl
  | cons p above ih =>
    rw [climbSeen, List.any_cons]
    split
    case isTrue shut => rw [shut, Bool.true_or]
    case isFalse shown =>
      rw [Bool.eq_false_iff.mpr shown, Bool.false_or, ih, hidden_modify (by exact fun _ => rfl)]

theorem counts_climbSeen (n : Int) {above : List Ptr} {t : TreeTable}
    (live : ∀ p ∈ above, (t.item p).isSome) :
    (climbSeen n t above).1.counts = t.counts.climb 0 n above := by
  induction above generalizing t with
  | nil => rfl
  | cons p above ih =>
    obtain ⟨x, item⟩ := Option.isSome_iff_exists.mp (live p List.mem_cons_self)
    rw [climbSeen, Counts.climb]
    change _ = Counts.climb 0 (if t.hidden p then 0 else n) above
      (t.counts.add p 0 (if t.hidden p then 0 else n))
    split
    case isTrue shut => rw [Counts.add_zero, Counts.climb_zero]
    case isFalse shown =>
      have change_eq : (fun x : TableItem => { x with seenNum := x.seenNum + n }) =
          fun x => { x with succNum := x.succNum + 0, seenNum := x.seenNum + n } := by
        funext x
        rw [Int.add_zero]
      rw [ih fun q mem => by
        rw [isSome_modify]; exact live q (List.mem_cons_of_mem p mem), change_eq,
        counts_add item]

/-! ### Hiding and showing -/

/-- The flag and the counter of an item are written. -/
theorem counts_shutting {change : TableItem → TableItem} {b : Bool} {v : Int}
    (item : t.item p = some x) (shut : (change x).hidden_subtree = b) (seen : (change x).seenNum = v)
    (all : ∀ x, (change x).succNum = x.succNum) :
    (t.modify p change).counts = t.counts.shutting p b v := by
  have update {β : Type} {field : TableItem → β} {d w : β} (eq : field (change x) = w) (q : Ptr) :
      (((t.modify p change).item q).map field).getD d =
        Function.update (fun q => ((t.item q).map field).getD d) p w q := by
    by_cases here : q = p
    · rw [here, item_modify_self, Function.update_self, item]
      exact eq
    · rw [item_modify_ne here, Function.update_of_ne here]
  exact Counts.ext (funext (update shut))
    (funext fun q => congrArg (fun o : Option Int => o.getD 0) (map_modify _ all q))
    (funext (update seen))

theorem links_modify {change : TableItem → TableItem}
    (par : ∀ x, (change x).parentPtr = x.parentPtr) (succ : ∀ x, (change x).succPtr = x.succPtr)
    (next : ∀ x, (change x).nextPtr = x.nextPtr) : (t.modify p change).links = t.links :=
  Links.ext rfl (funext (bind_modify _ par)) (funext (bind_modify _ succ))
    (funext (bind_modify _ next))

/-- An item was hidden or shown. -/
structure Toggled (t t' : TreeTable) (p : Ptr) (c : Hole Ptr) (s : Forest Ptr) (b : Bool) : Prop where
  links : t'.links = t.links
  isSome : ∀ q, (t'.item q).isSome = (t.item q).isSome
  counts : t'.counts = (t.counts.shutting p b (if b then 0 else s.seen t.hidden)).climb 0
    ((if b then 0 else (s.seen t.hidden : Int)) - if t.hidden p then 0 else s.seen t.hidden)
    c.ancestors
  numItems : t'.numItems = t.numItems
  numViewed : t'.numViewed = t.numViewed + if c.ancestors.any t.hidden then 0
    else (if b then 0 else (s.seen t.hidden : Int)) - if t.hidden p then 0 else s.seen t.hidden
  toCaches : t'.toCaches = t.toCaches

theorem Toggled.shape {b : Bool} (h : Shape t (c.fill (.node p s m))) (toggled : Toggled t t' p c s b) :
    Shape t' (c.fill (.node p s m)) := by
  have itemPtr : t'.itemPtr = t.itemPtr := congrArg Links.head toggled.links
  refine ⟨?_, h.nodup, ?_, ?_, toggled.numItems.trans h.numItems⟩
  · rw [toggled.links, itemPtr]
    exact h.linked
  · intro q
    rw [toggled.isSome, h.live]
  · rw [toggled.counts]
    exact h.counted.toggle b h.nodup

theorem Toggled.hidden {b : Bool} (toggled : Toggled t t' p c s b) :
    t'.hidden = Function.update t.hidden p b := by
  have shut := congrArg Counts.shut toggled.counts
  rw [Counts.shut_climb] at shut
  exact shut

/-- What is seen changes by this number. -/
def difference (t : TreeTable) (p : Ptr) (s : Forest Ptr) (b : Bool) : Int :=
  (if b then 0 else (s.seen t.hidden : Int)) - if t.hidden p then 0 else s.seen t.hidden

/-- The last step: the number of lines is changed when nothing above is hidden. -/
theorem toggled_of {v : TreeTable} {b : Bool} (links : v.links = t.links)
    (isSome : ∀ q, (v.item q).isSome = (t.item q).isSome)
    (counts : v.counts = (t.counts.shutting p b (if b then 0 else s.seen t.hidden)).climb 0
      (difference t p s b) c.ancestors)
    (rest : v = { t with item := v.item }) :
    Toggled t (if c.ancestors.any t.hidden then v
      else { v with numViewed := v.numViewed + difference t p s b }) p c s b := by
  have numItems := congrArg (fun t : TreeTable => t.numItems) rest
  have numViewed := congrArg (fun t : TreeTable => t.numViewed) rest
  have toCaches := congrArg (fun t : TreeTable => t.toCaches) rest
  split
  case isTrue shut => exact ⟨links, isSome, counts, numItems, by simpa [shut] using numViewed, toCaches⟩
  case isFalse shown =>
    refine ⟨links, isSome, counts, numItems, ?_, toCaches⟩
    rw [if_neg shown]
    exact congrArg (fun n => n + difference t p s b) numViewed

theorem Shape.toggleIt (h : Shape t (c.fill (.node p s m))) (item : t.item p = some x) :
    ∃ t', t.TreeTableToggleIt p = .ok t' ∧ Toggled t t' p c s (!x.hidden_subtree) := by
  obtain ⟨-, owner, sub, -⟩ := h.item_at item
  obtain ⟨-, seen⟩ := h.counts_at item
  have out : p ∉ c.ancestors := by
    intro mem
    exact (Hole.nodup_fill.mp h.nodup).2.2 p (Hole.mem_rest_of_ancestors mem) List.mem_cons_self
  have live {u : TreeTable} (same : ∀ q, (u.item q).isSome = (t.item q).isSome) :
      ∀ q ∈ c.ancestors, (u.item q).isSome := by
    intro q mem
    rw [same]
    exact h.isSome (Hole.mem_walk_fill.mpr (.inl (Hole.mem_rest_of_ancestors mem)))
  have flag : t.hidden p = x.hidden_subtree := hidden_eq item
  rw [TreeTableToggleIt, read_eq item, Fuel.ok_bind, owner, h.ancestors, Fuel.ok_bind]
  split
  case isTrue shut =>
    have count : t.TreeTableCountNotHidden_x x.succPtr = .ok (s.seen t.hidden) := by
      have list := Shape.countNotHidden_x (c := .under p m c) h
      rwa [show t.links.get (Hole.under p m c).cell = x.succPtr from links_succ item] at list
    let u := t.modify p fun x => { x with hidden_subtree := false, seenNum := s.seen t.hidden }
    let v := (climbSeen (s.seen t.hidden) u c.ancestors).1
    have recount : Recounted u v := recounted_climbSeen _ c.ancestors u
    have u_counts : u.counts = t.counts.shutting p false (s.seen t.hidden) :=
      counts_shutting item rfl rfl fun _ => rfl
    have change : difference t p s false = s.seen t.hidden := by
      rw [difference, flag, shut]
      simp
    have hid : (climbSeen (s.seen t.hidden) u c.ancestors).2 = c.ancestors.any t.hidden := by
      have u_hidden : u.hidden = Function.update t.hidden p false := congrArg Counts.shut u_counts
      rw [hidden_climbSeen, u_hidden, any_update out]
    refine ⟨if c.ancestors.any t.hidden then v
      else { v with numViewed := v.numViewed + difference t p s false }, ?_, ?_⟩
    · rw [count, Fuel.ok_bind, change]
      change (Except.ok (if (climbSeen (s.seen t.hidden) u c.ancestors).2 then v
        else { v with numViewed := v.numViewed + s.seen t.hidden }) : Except Fault TreeTable) = _
      rw [hid]
    · rw [shut]
      refine toggled_of ?_ (fun q => (recount.isSome q).trans (isSome_modify q)) ?_ recount.rest
      · rw [recount.links]
        exact links_modify (fun _ => rfl) (fun _ => rfl) fun _ => rfl
      · rw [change]
        change _ = Counts.climb _ _ _ (t.counts.shutting p false (s.seen t.hidden))
        rw [← u_counts]
        exact counts_climbSeen _ (live fun q => isSome_modify q)
  case isFalse shown =>
    have shown : x.hidden_subtree = false := Bool.eq_false_iff.mpr shown
    rw [shown] at seen
    let u := t.modify p fun x => { x with hidden_subtree := true }
    let v := (climbSeen (-x.seenNum) u c.ancestors).1
    let w := v.modify p fun x => { x with seenNum := 0 }
    have recount : Recounted u v := recounted_climbSeen _ c.ancestors u
    have u_counts : u.counts = t.counts.shutting p true x.seenNum :=
      counts_shutting item rfl rfl fun _ => rfl
    have change : difference t p s true = -x.seenNum := by
      rw [difference, flag, shown, seen]
      simp
    have hid : (climbSeen (-x.seenNum) u c.ancestors).2 = c.ancestors.any t.hidden := by
      have u_hidden : u.hidden = Function.update t.hidden p true := congrArg Counts.shut u_counts
      rw [hidden_climbSeen, u_hidden, any_update out]
    have v_counts : v.counts = u.counts.climb 0 (-x.seenNum) c.ancestors :=
      counts_climbSeen _ (live fun q => isSome_modify q)
    have w_counts : w.counts = (t.counts.shutting p true 0).climb 0 (-x.seenNum) c.ancestors := by
      obtain ⟨y, v_item⟩ := Option.isSome_iff_exists.mp (show (v.item p).isSome by
        rw [recount.isSome, isSome_modify, item]; rfl)
      have written : w.counts = v.counts.shutting p (v.hidden p) 0 :=
        counts_shutting v_item (hidden_eq v_item).symm rfl fun _ => rfl
      have same_flag : v.counts.shutting p (v.hidden p) 0 =
          { v.counts with seen := Function.update v.counts.seen p 0 } :=
        Counts.ext (Function.update_eq_self p v.hidden) rfl rfl
      rw [written, same_flag, v_counts, ← Counts.climb_update out, u_counts]
      congr 1
      exact Counts.ext rfl rfl (Function.update_idem _ _ _)
    refine ⟨if c.ancestors.any t.hidden then w
      else { w with numViewed := w.numViewed + difference t p s true }, ?_, ?_⟩
    · rw [change]
      change (Except.ok (if (climbSeen (-x.seenNum) u c.ancestors).2 then w
        else { w with numViewed := w.numViewed - x.seenNum }) : Except Fault TreeTable) = _
      rw [hid, Int.sub_eq_add_neg]
    · rw [shown]
      refine toggled_of ?_ (fun q => ?_) ?_ ?_
      · have w_links : w.links = v.links := links_modify (fun _ => rfl) (fun _ => rfl) fun _ => rfl
        rw [w_links, recount.links]
        exact links_modify (fun _ => rfl) (fun _ => rfl) fun _ => rfl
      · have w_live : (w.item q).isSome = (v.item q).isSome := isSome_modify q
        rw [w_live, recount.isSome]
        exact isSome_modify q
      · rw [w_counts, change]
        rfl
      · have from_u : v = { u with item := v.item } := recount.rest
        exact congrArg (fun z : TreeTable => { z with item := w.item }) from_u

end TreeTable

end SourceNavigator.Hyper

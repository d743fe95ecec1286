import SourceNavigator.Hyper.TreeShape

/-!
Looking up lines in a tree table.

A search goes through the lists and jumps over sub trees by their counters; it
finds the line or stops at the line after the items it went through
(`TreeTableIndex_eq`, `TreeTableFindIndex_x_eq`). The entries of the caches and
the stations are right when each of them has the line of its item (`Lines`), and
then `TreeTableFindItem` and `TreeTableFindIndex` are the two directions of the
preorder.
-/

namespace SourceNavigator.Hyper

open Lib

namespace TreeTable

variable {t t' : TreeTable} {p q : Ptr} {x : TableItem} {f g : Forest Ptr} {index pos : Int}

/-! ### Searching -/

/-- The result of a search in some items that start at a line. -/
def searched (l : List Ptr) (index pos : Int) : Option Ptr × Int :=
  match l[(index - pos).toNat]? with
  | some p => (some p, -1)
  | none => (none, pos + l.length)

theorem searched_cons {l : List Ptr} (after : pos < index) :
    searched (p :: l) index pos = searched l index (pos + 1) := by
  have shift : (index - pos).toNat = (index - (pos + 1)).toNat + 1 := by omega
  rw [searched, searched, shift, List.getElem?_cons_succ, List.length_cons]
  have stop : pos + ((l.length + 1 : Nat) : Int) = pos + 1 + l.length := by
    push_cast
    ring
  rw [stop]

theorem searched_append_of_lt {l : List Ptr} (l' : List Ptr) (le : pos ≤ index)
    (inside : index < pos + l.length) :
    ∃ q, searched l index pos = (some q, -1) ∧ searched (l ++ l') index pos = (some q, -1) := by
  have short : (index - pos).toNat < l.length := by omega
  refine ⟨l[(index - pos).toNat], ?_, ?_⟩
  · rw [searched, List.getElem?_eq_getElem short]
  · rw [searched, List.getElem?_append_left short, List.getElem?_eq_getElem short]

theorem searched_of_le {l : List Ptr} (after : pos + l.length ≤ index) :
    searched l index pos = (none, pos + l.length) := by
  rw [searched, List.getElem?_eq_none (by omega)]

theorem searched_append_of_le {l l' : List Ptr} (after : pos + l.length ≤ index) :
    searched (l ++ l') index pos = searched l' index (pos + l.length) := by
  have shift : (index - pos).toNat - l.length = (index - (pos + l.length)).toNat := by omega
  have stop : pos + ((l.length + l'.length : Nat) : Int) = pos + l.length + l'.length := by
    push_cast
    ring
  rw [searched, searched, List.getElem?_append_right (by omega), shift, List.length_append, stop]

/-- What is known of the first item of a list. -/
theorem open_node {s m : Forest Ptr} {n : Nat} {owner ptr : Option Ptr}
    (linked : (Forest.node p s m).Linked t.links owner ptr)
    (live : ∀ q ∈ (Forest.node p s m).walk, (t.item q).isSome)
    (enough : (Forest.node p s m).size ≤ n) :
    ∃ x n', t.item p = some x ∧ ptr = some p ∧ n = n' + 1 ∧ 1 + s.size + m.size ≤ n' + 1 ∧
      s.Linked t.links (some p) x.succPtr ∧ m.Linked t.links owner x.nextPtr ∧
      (∀ q ∈ s.walk, (t.item q).isSome) ∧ ∀ q ∈ m.walk, (t.item q).isSome := by
  obtain ⟨rfl, par, sub, next⟩ := linked
  obtain ⟨x, item⟩ := Option.isSome_iff_exists.mp (live p List.mem_cons_self)
  rw [links_succ item] at sub
  rw [links_next item] at next
  rw [Forest.size_node] at enough
  obtain ⟨n, rfl⟩ := Nat.exists_eq_add_of_le' (Nat.le_trans (by omega : 1 ≤ _) enough)
  exact ⟨x, n, item, rfl, rfl, by omega, sub, next,
    fun q mem => live q (Forest.mem_walk_node.mpr (.inr (.inl mem))),
    fun q mem => live q (Forest.mem_walk_node.mpr (.inr (.inr mem)))⟩

theorem TreeTableIndex_eq {n : Nat} {owner ptr : Option Ptr} (linked : g.Linked t.links owner ptr)
    (live : ∀ p ∈ g.walk, (t.item p).isSome) (counted : g.Counted t.counts) (enough : g.size ≤ n)
    (nonneg : 0 ≤ pos) (le : pos ≤ index) :
    t.TreeTableIndex index n ptr pos = .ok (searched g.walk index pos) := by
  induction g generalizing n owner ptr pos with
  | nil =>
    obtain rfl : ptr = none := linked
    cases n <;> simp [TreeTableIndex, searched, Forest.walk]
  | node p s m s_ih m_ih =>
    obtain ⟨x, n, item, rfl, rfl, enough, sub, next, s_live, m_live⟩ := open_node linked live enough
    obtain ⟨all, -, s_counted, m_counted⟩ := counted
    rw [counts_all item] at all
    rw [TreeTableIndex, if_neg (by omega)]
    by_cases here : pos = index
    · rw [if_pos here, here, searched, Int.sub_self]
      rfl
    have after : pos < index := by omega
    rw [if_neg here, read_eq item, Fuel.ok_bind, Forest.walk, searched_cons after]
    -- the search goes on behind the sub tree
    have behind (past : pos + 1 + s.size ≤ index) :
        t.TreeTableIndex index n x.nextPtr (pos + 1 + s.size) =
          .ok (searched (s.walk ++ m.walk) index (pos + 1)) := by
      rw [m_ih next m_live m_counted (by omega) (by omega) past, ← s.length_walk,
        searched_append_of_le (by rwa [s.length_walk])]
    by_cases leaf : x.succPtr.isNone
    · rw [if_pos leaf]
      cases s with
      | nil => simpa using behind (by simpa using Int.add_one_le_of_lt after)
      | node q s' m' =>
        rw [sub.1] at leaf
        cases leaf
    rw [if_neg leaf, all]
    by_cases jump : pos + 1 + s.size < index
    · rw [if_pos jump]
      exact behind (Int.le_of_lt jump)
    rw [if_neg jump, s_ih sub s_live s_counted (by omega) (by omega) (by omega), Fuel.ok_bind]
    by_cases inside : index < pos + 1 + s.walk.length
    · obtain ⟨q, in_s, in_both⟩ := searched_append_of_lt m.walk (by omega) inside
      rw [in_s, in_both]
      rfl
    · rw [searched_of_le (Int.le_of_not_gt inside), s.length_walk]
      rw [s.length_walk] at inside
      change (if pos + 1 + (s.size : Int) < 0 then _ else _) = _
      rw [if_neg (by omega)]
      exact behind (Int.le_of_not_gt inside)

/-- The result of the search for an item in some items that start at a line. -/
def lineOf (l : List Ptr) (p : Ptr) (pos : Int) : Option Int × Int :=
  if p ∈ l then (some (pos + l.idxOf p), -1) else (none, pos + l.length)

theorem lineOf_cons_self {l : List Ptr} : lineOf (p :: l) p pos = (some pos, -1) := by
  rw [lineOf, if_pos List.mem_cons_self, List.idxOf_cons_self]
  simp

theorem lineOf_cons_ne {l : List Ptr} (ne : q ≠ p) :
    lineOf (q :: l) p pos = lineOf l p (pos + 1) := by
  have mem : p ∈ q :: l ↔ p ∈ l := by
    rw [List.mem_cons]
    exact or_iff_right (Ne.symm ne)
  have stop : pos + ((l.length + 1 : Nat) : Int) = pos + 1 + l.length := by
    push_cast
    ring
  have found : pos + ((l.idxOf p + 1 : Nat) : Int) = pos + 1 + l.idxOf p := by
    push_cast
    ring
  simp only [lineOf, mem, List.idxOf_cons_ne l ne, List.length_cons, stop, found]

theorem lineOf_append_of_mem {l : List Ptr} (l' : List Ptr) (mem : p ∈ l) :
    lineOf l p pos = (some (pos + l.idxOf p), -1) ∧
      lineOf (l ++ l') p pos = (some (pos + l.idxOf p), -1) := by
  refine ⟨if_pos mem, ?_⟩
  rw [lineOf, if_pos (List.mem_append_left l' mem), List.idxOf_append_of_mem mem]

theorem lineOf_append_of_notMem {l l' : List Ptr} (out : p ∉ l) :
    lineOf (l ++ l') p pos = lineOf l' p (pos + l.length) := by
  have mem : p ∈ l ++ l' ↔ p ∈ l' := by
    rw [List.mem_append]
    exact or_iff_right out
  have stop : pos + ((l.length + l'.length : Nat) : Int) = pos + l.length + l'.length := by
    push_cast
    ring
  have found : pos + ((l.length + l'.idxOf p : Nat) : Int) = pos + l.length + l'.idxOf p := by
    push_cast
    ring
  simp only [lineOf, mem, List.idxOf_append_of_notMem out, List.length_append, stop, found]

theorem TreeTableFindIndex_x_eq {n : Nat} {owner ptr : Option Ptr}
    (linked : g.Linked t.links owner ptr) (live : ∀ p ∈ g.walk, (t.item p).isSome)
    (enough : g.size ≤ n) (nonneg : 0 ≤ pos) :
    t.TreeTableFindIndex_x q n ptr pos = .ok (lineOf g.walk q pos) := by
  induction g generalizing n owner ptr pos with
  | nil =>
    obtain rfl : ptr = none := linked
    cases n <;> simp [TreeTableFindIndex_x, lineOf, Forest.walk]
  | node p s m s_ih m_ih =>
    obtain ⟨x, n, item, rfl, rfl, enough, sub, next, s_live, m_live⟩ := open_node linked live enough
    rw [TreeTableFindIndex_x]
    by_cases here : p = q
    · rw [if_pos here, here, Forest.walk, lineOf_cons_self]
    rw [if_neg here, read_eq item, Fuel.ok_bind, Forest.walk, lineOf_cons_ne here]
    by_cases leaf : x.succPtr.isNone
    · rw [if_pos leaf]
      cases s with
      | nil => exact m_ih next m_live (by omega) (by omega)
      | node q s' m' =>
        rw [sub.1] at leaf
        cases leaf
    rw [if_neg leaf, s_ih sub s_live (by omega) (by omega), Fuel.ok_bind]
    by_cases mem : q ∈ s.walk
    · obtain ⟨in_s, in_both⟩ := lineOf_append_of_mem m.walk mem
      rw [in_s, in_both]
      rfl
    · rw [lineOf_append_of_notMem mem, lineOf, if_neg mem]
      change (if pos + 1 + (s.walk.length : Int) < 0 then _ else _) = _
      rw [if_neg (by omega)]
      exact m_ih next m_live (by omega) (by omega)

/-! ### Entries -/

/-- The stations of the path finder. -/
def stations (t : TreeTable) : List PathFinder_t := t.pathFinder.getD []

theorem stations_DELETE_FROM_PATHFINDER (t : TreeTable) (pos : Int) :
    (t.DELETE_FROM_PATHFINDER pos).stations = t.stations.takeWhile fun pf => pf.itemPos < pos := by
  unfold stations DELETE_FROM_PATHFINDER
  cases t.pathFinder <;> rfl

theorem cached_FREE_RONG_CACHE {e : Ptr × Int} (mem : e ∈ (t.FREE_RONG_CACHE index).cached) :
    e ∈ t.cached ∧ e.2 < index := by
  rw [cached, FREE_RONG_CACHE, Vector.toList_map, List.reduceOption_mem_iff, List.mem_map] at mem
  obtain ⟨o, mem, kept⟩ := mem
  obtain ⟨rfl, lt⟩ := Option.filter_eq_some_iff.mp kept
  exact ⟨List.reduceOption_mem_iff.mpr mem, of_decide_eq_true lt⟩

theorem cached_SET_CACHED {e : Ptr × Int} (mem : e ∈ (t.SET_CACHED p pos).cached) :
    e ∈ t.cached ∨ 0 ≤ pos ∧ e = (p, pos) := by
  rw [SET_CACHED] at mem
  split at mem
  case isFalse => exact .inl mem
  case isTrue free =>
    rw [cached, Vector.toList_set, List.reduceOption_mem_iff] at mem
    rcases List.mem_or_eq_of_mem_set mem with old | new
    · exact .inl (List.reduceOption_mem_iff.mpr old)
    · exact .inr ⟨free.1, Option.some.inj new⟩

theorem mem_of_RET_CACHED_ITEM (h : t.RET_CACHED_ITEM index = some p) : (p, index) ∈ t.cached := by
  obtain ⟨e, found, rfl⟩ := Option.map_eq_some_iff.mp h
  have line := List.find?_some found
  rw [← of_decide_eq_true line]
  exact List.mem_of_find?_eq_some found

theorem mem_of_RET_CACHED_INDEX (h : t.RET_CACHED_INDEX p = some index) : (p, index) ∈ t.cached := by
  obtain ⟨e, found, rfl⟩ := Option.map_eq_some_iff.mp h
  have line := List.find?_some found
  rw [← of_decide_eq_true line]
  exact List.mem_of_find?_eq_some found

theorem mem_of_GET_CACHED_ITEM (h : t.GET_CACHED_ITEM index = some p) : (p, index) ∈ t.cached := by
  obtain ⟨e, found, rfl⟩ := Option.map_eq_some_iff.mp h
  obtain ⟨mem, line⟩ := List.mem_filter.mp (List.mem_of_getLast? found)
  rw [← of_decide_eq_true line]
  exact mem

theorem mem_of_FIND_IN_PATHFINDER {st : PathFinder_t} (h : t.FIND_IN_PATHFINDER pos = some st) :
    st ∈ t.stations ∧ st.itemPos < pos := by
  obtain ⟨mem, line⟩ := List.mem_filter.mp (List.mem_of_getLast? h)
  exact ⟨mem, of_decide_eq_true line⟩

/-- Two tables differ in the entries of their caches only. -/
structure Looked (t t' : TreeTable) : Prop where
  rest : t' = { t with
    cachedItem := t'.cachedItem
    cacheIndex := t'.cacheIndex
    cachedParent := t'.cachedParent }

namespace Looked

theorem refl (t : TreeTable) : Looked t t := ⟨rfl⟩

theorem trans {t'' : TreeTable} (h : Looked t t') (h' : Looked t' t'') : Looked t t'' := by
  refine ⟨?_⟩
  rw [h'.rest, h.rest]

theorem toItems (h : Looked t t') : t'.toItems = t.toItems := by
  have eq := congrArg (fun t : TreeTable => t.toItems) h.rest
  exact eq

theorem pathFinder (h : Looked t t') : t'.pathFinder = t.pathFinder := by
  have eq := congrArg (fun t : TreeTable => t.pathFinder) h.rest
  exact eq

end Looked

theorem looked_SET_CACHED (t : TreeTable) (p : Ptr) (pos : Int) : Looked t (t.SET_CACHED p pos) := by
  rw [SET_CACHED]
  split
  · exact ⟨rfl⟩
  · exact .refl t

/-- Where a search starts. -/
def start (t : TreeTable) (index : Int) : Option Ptr × Int :=
  match t.FIND_IN_PATHFINDER index with
  | some pf => (some pf.itemPtr, pf.itemPos)
  | none => (t.itemPtr, 0)

theorem find_eq (nonneg : 0 ≤ index) (cached : t.RET_CACHED_ITEM index = none) :
    t.TreeTableFindItem index = (do
      let r ← t.TreeTableIndex index t.fuel (t.start index).1 (t.start index).2
      match r.1 with
      | some p => pure (t.SET_CACHED p index, some p)
      | none => pure (t, none)) := by
  rw [TreeTableFindItem, if_neg (Int.not_lt.mpr nonneg), cached]
  rfl

/-- The items that the pointers of an item lead to are there. -/
theorem Shape.live_pointers (h : Shape t f) (item : t.item p = some x)
    (led : x.succPtr = some q ∨ x.nextPtr = some q) : (t.item q).isSome := by
  obtain ⟨c, s, n, rfl⟩ := Hole.exists_hole (h.mem item)
  obtain ⟨-, -, sub, next⟩ := h.item_at item
  have inside : (Forest.node p s n).walk.Sublist (c.fill (.node p s n)).walk :=
    c.walk_sublist_fill _
  rcases led with led | led
  · rw [led] at sub
    cases s with
    | nil => cases sub
    | node a s' n' =>
      obtain rfl : q = a := Option.some.inj sub.1
      exact h.isSome (inside.subset (by simp))
  · rw [led] at next
    cases n with
    | nil => cases next
    | node a s' n' =>
      obtain rfl : q = a := Option.some.inj next.1
      exact h.isSome (inside.subset (by simp))

/-- What a search finds is there, also when it starts at a station that is not right. -/
theorem live_of_TreeTableIndex (h : Shape t f) {n : Nat} {ptr : Option Ptr} {r : Int}
    (from_live : pos ≠ index ∨ ∀ q, ptr = some q → (t.item q).isSome)
    (found : t.TreeTableIndex index n ptr pos = .ok (some p, r)) : (t.item p).isSome := by
  induction n generalizing ptr pos r with
  | zero => cases ptr <;> cases found
  | succ n ih =>
    cases ptr with
    | none => cases found
    | some item =>
      rw [TreeTableIndex] at found
      split at found
      · cases found
      split at found
      case isTrue here =>
        obtain rfl : item = p := Option.some.inj (Prod.mk.inj (Except.ok.inj found)).1
        exact (from_live.resolve_left (not_not_intro here)) item rfl
      obtain ⟨x, read, found⟩ := Fuel.bind_eq_ok found
      have item_eq := item_of_read read
      have next_live (q : Ptr) (eq : x.nextPtr = some q) : (t.item q).isSome :=
        h.live_pointers item_eq (.inr eq)
      have succ_live (q : Ptr) (eq : x.succPtr = some q) : (t.item q).isSome :=
        h.live_pointers item_eq (.inl eq)
      split at found
      · exact ih (.inr next_live) found
      split at found
      · exact ih (.inr next_live) found
      obtain ⟨⟨itemRet, i⟩, inner, found⟩ := Fuel.bind_eq_ok found
      dsimp only at found
      split at found
      · obtain ⟨rfl, rfl⟩ := Prod.mk.inj (Except.ok.inj found)
        exact ih (.inr succ_live) inner
      · exact ih (.inr next_live) found

/-- A look up changes the caches only, and what it caches is there. -/
theorem Shape.looked_find (h : Shape t f) {r : Option Ptr}
    (find : t.TreeTableFindItem index = .ok (t', r)) :
    Looked t t' ∧ ∀ e ∈ t'.cached, e ∈ t.cached ∨ (t.item e.1).isSome := by
  by_cases nonneg : 0 ≤ index
  case neg =>
    rw [TreeTableFindItem, if_pos (Int.not_le.mp nonneg)] at find
    obtain ⟨rfl, rfl⟩ := Prod.mk.inj (Except.ok.inj find)
    exact ⟨.refl t, fun e mem => .inl mem⟩
  cases cached : t.RET_CACHED_ITEM index with
  | some p =>
    rw [TreeTableFindItem, if_neg (Int.not_lt.mpr nonneg), cached] at find
    obtain ⟨rfl, rfl⟩ := Prod.mk.inj (Except.ok.inj find)
    exact ⟨.refl t, fun e mem => .inl mem⟩
  | none =>
    rw [find_eq nonneg cached] at find
    obtain ⟨⟨itemRet, i⟩, search, find⟩ := Fuel.bind_eq_ok find
    cases itemRet with
    | none =>
      obtain ⟨rfl, rfl⟩ := Prod.mk.inj (Except.ok.inj find)
      exact ⟨.refl t, fun e mem => .inl mem⟩
    | some p =>
      obtain ⟨rfl, rfl⟩ := Prod.mk.inj (Except.ok.inj find)
      refine ⟨looked_SET_CACHED t p index, ?_⟩
      intro e mem
      rcases cached_SET_CACHED mem with old | ⟨-, rfl⟩
      · exact .inl old
      · refine .inr (live_of_TreeTableIndex h ?_ search)
        rw [start]
        cases station : t.FIND_IN_PATHFINDER index with
        | none =>
          refine .inr ?_
          intro q eq
          cases f with
          | nil =>
            have none : t.itemPtr = none := h.linked
            exact nomatch none.symm.trans eq
          | node a s n =>
            obtain rfl : a = q := Option.some.inj (h.linked.1.symm.trans eq)
            exact h.isSome List.mem_cons_self
        | some pf => exact .inl (Int.ne_of_lt (mem_of_FIND_IN_PATHFINDER station).2)

/-! ### Right entries -/

/-- The line of an item. -/
def At (f : Forest Ptr) (p : Ptr) (pos : Int) : Prop := 0 ≤ pos ∧ f.walk[pos.toNat]? = some p

theorem At.mem (h : At f p pos) : p ∈ f.walk := List.mem_of_getElem? h.2

theorem At.unique (h : At f p pos) (h' : At f p index) (nodup : f.walk.Nodup) : pos = index := by
  have inside := (List.getElem?_eq_some_iff.mp h.2).1
  have same := (List.getElem?_inj inside nodup).mp (h.2.trans h'.2.symm)
  have nonneg := h.1
  have nonneg' := h'.1
  omega

theorem at_before (c : Hole Ptr) (p : Ptr) (s n : Forest Ptr) :
    At (c.fill (.node p s n)) p c.before.length :=
  ⟨Int.natCast_nonneg _, c.getElem?_before p s n⟩

/-- All entries are right. -/
structure Lines (t : TreeTable) (f : Forest Ptr) : Prop where
  cached : ∀ e ∈ t.cached, At f e.1 e.2
  parent : ∀ e, t.cachedParent = some e → At f e.1 e.2
  stations : ∀ st ∈ t.stations, At f st.itemPtr st.itemPos ∧ st.itemPtr ∈ f.tops

theorem Lines.set_cached (lines : Lines t f) (at_pos : 0 ≤ pos → At f p pos) :
    Lines (t.SET_CACHED p pos) f := by
  have looked := looked_SET_CACHED t p pos
  refine ⟨fun e mem => ?_, ?_, ?_⟩
  · rcases cached_SET_CACHED mem with old | ⟨nonneg, rfl⟩
    · exact lines.cached e old
    · exact at_pos nonneg
  · have same : (t.SET_CACHED p pos).cachedParent = t.cachedParent := by
      rw [SET_CACHED]
      split <;> rfl
    rw [same]
    exact lines.parent
  · rw [TreeTable.stations, looked.pathFinder]
    exact lines.stations

theorem searched_fst (l : List Ptr) (index pos : Int) :
    (searched l index pos).1 = l[(index - pos).toNat]? := by
  rw [searched]
  cases l[(index - pos).toNat]? <;> rfl

/-- The search in the whole forest, or from a station on. -/
theorem search_eq (h : Shape t f) (lines : Lines t f) (nonneg : 0 ≤ index) :
    ∃ r : Int, t.TreeTableIndex index t.fuel (t.start index).1 (t.start index).2 =
      .ok (f.walk[index.toNat]?, r) := by
  unfold start
  cases station : t.FIND_IN_PATHFINDER index with
  | none =>
    refine ⟨(searched f.walk index 0).2, ?_⟩
    refine (TreeTableIndex_eq h.linked (fun q mem => h.isSome mem) h.counted
      (Nat.le_of_lt h.size_lt_fuel) (Int.le_refl 0) nonneg).trans ?_
    refine congrArg Except.ok (Prod.ext ?_ rfl)
    rw [searched_fst, Int.sub_zero]
  | some pf =>
    obtain ⟨mem, before⟩ := mem_of_FIND_IN_PATHFINDER station
    obtain ⟨here, top⟩ := lines.stations pf mem
    obtain ⟨c, s, n, rfl, up⟩ := Hole.exists_hole_tops top
    have line : pf.itemPos = c.before.length :=
      here.unique (at_before c pf.itemPtr s n) h.nodup
    obtain ⟨-, inside⟩ := h.around
    have ptr : t.links.get c.cell = some pf.itemPtr := inside.1
    rw [ptr] at inside
    have size := h.size_lt_fuel
    rw [Hole.size_fill] at size
    refine ⟨(searched (Forest.node pf.itemPtr s n).walk index pf.itemPos).2, ?_⟩
    refine (TreeTableIndex_eq inside
      (fun q mem => h.isSome ((c.walk_sublist_fill _).subset mem))
      (Hole.counted_fill.mp h.counted).2 (by omega) here.1 (Int.le_of_lt before)).trans ?_
    refine congrArg Except.ok (Prod.ext ?_ rfl)
    rw [searched_fst, Hole.walk_fill, Hole.after_eq_nil up, List.append_nil,
      List.getElem?_append_right (by omega), line]
    congr 1
    omega

/-- A line is found when all entries are right. -/
theorem TreeTableFindItem_eq (h : Shape t f) (lines : Lines t f) (nonneg : 0 ≤ index) :
    ∃ t', t.TreeTableFindItem index = .ok (t', f.walk[index.toNat]?) ∧ Looked t t' ∧
      Lines t' f := by
  cases cached : t.RET_CACHED_ITEM index with
  | some p =>
    have here := lines.cached _ (mem_of_RET_CACHED_ITEM cached)
    refine ⟨t, ?_, .refl t, lines⟩
    rw [TreeTableFindItem, if_neg (Int.not_lt.mpr nonneg), cached, here.2]
  | none =>
    obtain ⟨r, search⟩ := search_eq h lines nonneg
    rw [find_eq nonneg cached, search, Fuel.ok_bind]
    cases found : f.walk[index.toNat]? with
    | none => exact ⟨t, rfl, .refl t, lines⟩
    | some p =>
      exact ⟨t.SET_CACHED p index, rfl, looked_SET_CACHED t p index,
        lines.set_cached fun nonneg => ⟨nonneg, found⟩⟩

/-- An item is found when all entries are right. -/
theorem TreeTableFindIndex_eq (h : Shape t f) (lines : Lines t f) (mem : p ∈ f.walk) :
    t.TreeTableFindIndex p = .ok (f.walk.idxOf p) := by
  rw [TreeTableFindIndex]
  cases cached : t.RET_CACHED_INDEX p with
  | some pos =>
    have here := lines.cached _ (mem_of_RET_CACHED_INDEX cached)
    have there : At f p (f.walk.idxOf p) :=
      ⟨Int.natCast_nonneg _, List.getElem?_idxOf mem⟩
    exact congrArg Except.ok (here.unique there h.nodup)
  | none =>
    change (t.TreeTableFindIndex_x p t.fuel t.itemPtr 0 >>= _) = _
    rw [TreeTableFindIndex_x_eq h.linked (fun q mem => h.isSome mem)
      (Nat.le_of_lt h.size_lt_fuel) (Int.le_refl 0), lineOf, if_pos mem, Int.zero_add]
    rfl

end TreeTable

end SourceNavigator.Hyper

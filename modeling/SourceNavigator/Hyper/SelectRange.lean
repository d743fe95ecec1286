import SourceNavigator.Hyper.ViewIndex

/-!
Selecting a range of lines in a tree table (`hyper/tkTreeTable.c`).

The walk over a list starts at a stop station of the root list, and so does the
walk over the sub tree of an item: a station takes it back to the root list.

* `selectLoop_stuck` says that a walk that is taken back does not come to an end.
* `selects_right_iff` says when a range is selected.
-/

namespace SourceNavigator.Hyper

open Lib

/-- The flags `ITEM_SELECTED` of the items, and what the table remembers of the selection. -/
structure Selection where
  selected : Ptr → Bool
  numSelected : Int
  lastSelected : Option Ptr
  selectFirst : Int

/-- The item of a line is selected. -/
def Selection.select (s : Selection) (p : Ptr) (i : Int) : Selection :=
  { selected := Function.update s.selected p true
    selectFirst := if s.selectFirst > i then i else s.selectFirst
    lastSelected := if s.numSelected = 0 then some p else s.lastSelected
    numSelected := s.numSelected + 1 }

theorem Selection.selected_select {s : Selection} {p q : Ptr} {i : Int} :
    (s.select p i).selected q = true ↔ s.selected q = true ∨ q = p := by
  change Function.update s.selected p true q = true ↔ _
  by_cases same : q = p
  · rw [same, Function.update_self]
    simp
  · rw [Function.update_of_ne same]
    simp [same]

namespace TreeTable

variable (t : TreeTable)

/-- `FIND_IN_PATHFINDER (start, Ptr, i)` -/
def startAt (start : Int) (ptr : Option Ptr) (i : Int) : Option Ptr × Int :=
  match t.FIND_IN_PATHFINDER start with
  | some pf => (some pf.itemPtr, pf.itemPos)
  | none => (ptr, i)

/-- The loop of `TreeTableSelectFromTo`, with the selection and the line. -/
def selectLoop (start stop : Int) :
    Nat → Option Ptr → Int → Selection → Except Fault (Selection × Int)
  | _, none, i, s => .ok (s, i)
  | 0, some _, _, _ => .error .fuel
  | n + 1, some p, i, s =>
    if stop < i then .ok (s, i)
    else do
      let x ← t.read p
      let s := if start ≤ i ∧ s.selected p = false then s.select p i else s
      let (s, i) ←
        if x.succPtr.isSome then
          if !x.hidden_subtree then
            -- `TreeTableSelectFromTo` for the sub tree
            let (ptr, i) := t.startAt start x.succPtr (i + 1)
            selectLoop start stop n ptr i s
          else pure (s, i + 1 + x.succNum)
        else pure (s, i + 1)
      selectLoop start stop n x.nextPtr i s

/-- The number bounds the depth of the recursion. -/
def TreeTableSelectFromTo (start stop : Int) (n : Nat) (itemPtr : Option Ptr) (pos : Int)
    (s : Selection) : Except Fault (Selection × Int) :=
  let (ptr, i) := t.startAt start itemPtr pos
  t.selectLoop start stop n ptr i s

variable {t : TreeTable} {p : Ptr} {x : TableItem} {f g : Forest Ptr} {start stop i : Int} {n : Nat}
  {s s' : Selection}

/-! ### Walks that end -/

/-- The items of a list on lines up to `stop` are closed or without sub tree. -/
def Calm (t : TreeTable) (stop : Int) : Forest Ptr → Int → Prop
  | .nil, _ => True
  | .node p sub m, i =>
    stop < i ∨ (t.hidden p = true ∨ sub = .nil) ∧ Calm t stop m (i + 1 + sub.size)

/-- These items are selected, and those that were. -/
def Marks (s s' : Selection) (marked : List Ptr) : Prop :=
  ∀ p, s'.selected p = true ↔ s.selected p = true ∨ p ∈ marked

theorem Marks.refl (s : Selection) : Marks s s [] :=
  fun p => by simp

theorem Marks.trans {s'' : Selection} {l l' : List Ptr} (h : Marks s s' l) (h' : Marks s' s'' l') :
    Marks s s'' (l ++ l') := by
  intro p
  rw [h', h, List.mem_append, or_assoc]

/-- The items on the lines of a range. -/
def inRange (start stop : Int) (l : List (Ptr × Int)) : List Ptr :=
  (l.filter fun e => decide (start ≤ e.2 ∧ e.2 ≤ stop)).map Prod.fst

theorem inRange_append (l l' : List (Ptr × Int)) :
    inRange start stop (l ++ l') = inRange start stop l ++ inRange start stop l' := by
  rw [inRange, List.filter_append, List.map_append]
  rfl

theorem marks_here (start : Int) (s : Selection) (p : Ptr) (le : i ≤ stop) :
    Marks s (if start ≤ i ∧ s.selected p = false then s.select p i else s)
      (inRange start stop [(p, i)]) := by
  intro q
  by_cases inside : start ≤ i
  · have marked : inRange start stop [(p, i)] = [p] := by simp [inRange, inside, le]
    rw [marked, List.mem_singleton]
    by_cases new : s.selected p = false
    · rw [if_pos ⟨inside, new⟩, Selection.selected_select]
    · rw [if_neg (fun h => new h.2)]
      constructor
      · exact .inl
      · rintro (old | rfl)
        · exact old
        · simpa using new
  · have marked : inRange start stop [(p, i)] = [] := by simp [inRange, inside]
    rw [marked, if_neg (fun h => inside h.1)]
    simp

/-- Behind the end of the range nothing is selected. -/
theorem inRange_past {shut : Ptr → Bool} (past : stop < i) :
    inRange start stop (g.lined shut i) = [] := by
  rw [inRange, List.map_eq_nil_iff, List.filter_eq_nil_iff]
  rintro ⟨q, line⟩ mem
  have le := (Forest.getElem?_of_mem_lined mem).1
  simp only [decide_eq_true_eq, not_and, Int.not_le]
  intro _
  omega

theorem selectLoop_spec (start stop i : Int) (s : Selection) {owner ptr : Option Ptr}
    (linked : g.Linked t.links owner ptr) (live : ∀ p ∈ g.walk, (t.item p).isSome) (counted : g.Counted t.counts) (enough : g.size ≤ n)
    (forward : t.FIND_IN_PATHFINDER start = none ∨ t.Calm stop g i) :
    ∃ s' i', t.selectLoop start stop n ptr i s = .ok (s', i') ∧
      Marks s s' (inRange start stop (g.lined t.hidden i)) ∧
        (i' = i + g.size ∨ stop < i' ∧ i' ≤ i + g.size) := by
  induction g generalizing n owner ptr i s with
  | nil =>
    obtain rfl : ptr = none := linked
    refine ⟨s, i, by cases n <;> rfl, Marks.refl s, .inl ?_⟩
    rw [Forest.size_nil]
    omega
  | node p sub m sub_ih m_ih =>
    obtain ⟨x, n, item, rfl, rfl, enough, below, next, sub_live, m_live⟩ :=
      open_node linked live enough
    obtain ⟨all, -, sub_counted, m_counted⟩ := counted
    have shut : t.hidden p = x.hidden_subtree := hidden_eq item
    rw [counts_all item] at all
    rw [Forest.size_node]
    rw [selectLoop]
    by_cases past : stop < i
    · rw [if_pos past, inRange_past past]
      exact ⟨s, i, rfl, Marks.refl s, .inr ⟨past, by omega⟩⟩
    rw [if_neg past, read_eq item, Fuel.ok_bind, Forest.lined, ← List.singleton_append,
      inRange_append, inRange_append]
    have here := marks_here start s p (Int.not_lt.mp past)
    generalize (if start ≤ i ∧ s.selected p = false then s.select p i else s) = s₁ at here ⊢
    -- the walk goes on in the list, on a line that is right or behind the range
    have behind (s₂ : Selection) (i₂ : Int)
        (marked : Marks s₁ s₂
          (inRange start stop (if t.hidden p then [] else sub.lined t.hidden (i + 1))))
        (line : i₂ = i + 1 + sub.size ∨ stop < i₂ ∧ i₂ ≤ i + 1 + sub.size) :
        ∃ s' i', t.selectLoop start stop n x.nextPtr i₂ s₂ = .ok (s', i') ∧
          Marks s s' (inRange start stop [(p, i)] ++
            (inRange start stop (if t.hidden p then [] else sub.lined t.hidden (i + 1)) ++
              inRange start stop (m.lined t.hidden (i + 1 + sub.size)))) ∧
          (i' = i + ((1 + sub.size + m.size : Nat) : Int) ∨
            stop < i' ∧ i' ≤ i + ((1 + sub.size + m.size : Nat) : Int)) := by
      have forward' : t.FIND_IN_PATHFINDER start = none ∨ t.Calm stop m i₂ := by
        rcases line with rfl | ⟨over_, -⟩
        · exact forward.imp_right fun calm => (calm.resolve_left past).2
        · cases m with
          | nil => exact .inr trivial
          | node q m' m'' => exact .inr (.inl over_)
      have same : inRange start stop (m.lined t.hidden i₂) =
          inRange start stop (m.lined t.hidden (i + 1 + sub.size)) := by
        rcases line with rfl | ⟨over_, le⟩
        · rfl
        · rw [inRange_past over_, inRange_past (Int.lt_of_lt_of_le over_ le)]
      obtain ⟨s₃, i₃, ran, rest, at_⟩ :=
        m_ih (n := n) i₂ s₂ next m_live m_counted (by omega) forward'
      refine ⟨s₃, i₃, ran, here.trans (marked.trans (same ▸ rest)), ?_⟩
      push_cast
      omega
    by_cases leaf : sub = .nil
    · have no_sub : ¬ x.succPtr.isSome = true := fun some_sub =>
        below.isSome_iff.mp some_sub leaf
      have none_seen : (if t.hidden p then [] else sub.lined t.hidden (i + 1)) = [] := by
        rw [leaf]
        exact ite_self []
      rw [if_neg no_sub]
      refine behind s₁ (i + 1) ?_ (.inl ?_)
      · rw [none_seen]
        exact Marks.refl s₁
      · rw [leaf, Forest.size_nil]
        omega
    have some_sub : x.succPtr.isSome = true := below.isSome_iff.mpr leaf
    rw [if_pos some_sub, all]
    cases hid : x.hidden_subtree with
    | true =>
      rw [hid] at shut
      rw [Bool.not_true, if_neg Bool.false_ne_true]
      refine behind s₁ (i + 1 + sub.size) ?_ (.inl rfl)
      rw [if_pos shut]
      exact Marks.refl s₁
    | false =>
      rw [hid] at shut
      have none_before : t.FIND_IN_PATHFINDER start = none := by
        rcases forward with none_before | calm
        · exact none_before
        · rcases (calm.resolve_left past).1 with closed | empty
          · rw [shut] at closed
            cases closed
          · exact absurd empty leaf
      have start_sub : t.startAt start x.succPtr (i + 1) = (x.succPtr, i + 1) := by
        rw [startAt, none_before]
      obtain ⟨s₂, i₂, ran, marked, line⟩ := sub_ih (n := n) (i + 1) s₁ below sub_live
        sub_counted (by omega) (.inl none_before)
      rw [Bool.not_false, if_pos rfl, start_sub]
      dsimp only
      rw [ran, Fuel.ok_bind]
      refine behind s₂ i₂ ?_ line
      rw [shut, if_neg Bool.false_ne_true]
      exact marked

/-! ### Walks that are taken back -/

/-- A walk that comes to an open item is taken back to the station again and again. -/
theorem selectLoop_stuck {st : PathFinder_t} (station : t.FIND_IN_PATHFINDER start = some st)
    {root : Forest Ptr} {owner : Option Ptr}
    (linked : root.Linked t.links owner (some st.itemPtr))
    (live : ∀ p ∈ root.walk, (t.item p).isSome) (counted : root.Counted t.counts)
    (restless : ¬ t.Calm stop root st.itemPos) (n : Nat) (s : Selection) :
    t.selectLoop start stop n (some st.itemPtr) st.itemPos s = .error .fuel := by
  induction n using Nat.strong_induction_on generalizing s with
  | _ n again =>
    -- a walk over the rest of the list comes to the open item, or runs out before
    have walk (g : Forest Ptr) : ∀ (k : Nat) (owner ptr : Option Ptr) (i : Int) (s : Selection),
        k ≤ n → g.Linked t.links owner ptr → (∀ p ∈ g.walk, (t.item p).isSome) →
          g.Counted t.counts → ¬ t.Calm stop g i →
            t.selectLoop start stop k ptr i s = .error .fuel := by
      induction g with
      | nil =>
        intro k owner ptr i s le linked live counted restless
        exact absurd trivial restless
      | node p sub m _ m_ih =>
        intro k owner ptr i s le linked live counted restless
        obtain ⟨rfl, -, below, next⟩ := linked
        obtain ⟨x, item⟩ := Option.isSome_iff_exists.mp (live p List.mem_cons_self)
        obtain ⟨all, -, -, m_counted⟩ := counted
        have shut : t.hidden p = x.hidden_subtree := hidden_eq item
        rw [counts_all item] at all
        rw [links_succ item] at below
        rw [links_next item] at next
        have m_live : ∀ q ∈ m.walk, (t.item q).isSome := fun q mem =>
          live q (Forest.mem_walk_node.mpr (.inr (.inr mem)))
        obtain ⟨inside, open_or⟩ := not_or.mp restless
        cases k with
        | zero => rfl
        | succ k =>
          rw [selectLoop, if_neg inside, read_eq item, Fuel.ok_bind]
          generalize (if start ≤ i ∧ s.selected p = false then s.select p i else s) = s₁
          by_cases closed : t.hidden p = true ∨ sub = .nil
          · have rest : ¬ t.Calm stop m (i + 1 + sub.size) := fun calm =>
              open_or ⟨closed, calm⟩
            have behind := m_ih k owner x.nextPtr (i + 1 + sub.size) s₁ (by omega) next m_live
              m_counted rest
            by_cases leaf : sub = .nil
            · have no_sub : ¬ x.succPtr.isSome = true := fun some_sub =>
                below.isSome_iff.mp some_sub leaf
              rw [if_neg no_sub]
              rw [leaf, Forest.size_nil, Int.natCast_zero, Int.add_zero] at behind
              exact behind
            · have hid : x.hidden_subtree = true := by
                rw [← shut]
                exact closed.resolve_right leaf
              rw [if_pos (below.isSome_iff.mpr leaf), hid, Bool.not_true,
                if_neg Bool.false_ne_true, all]
              exact behind
          · obtain ⟨shown, leaf⟩ := not_or.mp closed
            have hid : x.hidden_subtree = false := by
              rw [← shut]
              simpa using shown
            have back : t.startAt start x.succPtr (i + 1) = (some st.itemPtr, st.itemPos) := by
              rw [startAt, station]
            rw [if_pos (below.isSome_iff.mpr leaf), hid, Bool.not_false, if_pos rfl, back]
            dsimp only
            rw [again k (by omega)]
            rfl
    exact walk root n owner (some st.itemPtr) st.itemPos s (Nat.le_refl n) linked live counted
      restless

/-! ### Ranges -/

/-- The selection of a range comes to an end, and exactly the items of the range that are not in a
hidden sub tree are selected with those that were. -/
def SelectsRight (t : TreeTable) (f : Forest Ptr) (start stop : Int) (s : Selection) : Prop :=
  ∃ n s' i, t.TreeTableSelectFromTo start stop n t.itemPtr 0 s = .ok (s', i) ∧
    ∀ p, s'.selected p = true ↔ s.selected p = true ∨
      p ∈ f.visible t.hidden ∧ ∃ line, At f p line ∧ start ≤ line ∧ line ≤ stop

theorem mem_inRange (nodup : f.walk.Nodup) {shut : Ptr → Bool} :
    p ∈ inRange start stop (f.lined shut 0) ↔
      p ∈ f.visible shut ∧ ∃ line, At f p line ∧ start ≤ line ∧ line ≤ stop := by
  rw [inRange, List.mem_map]
  constructor
  · rintro ⟨⟨q, line⟩, mem, rfl⟩
    obtain ⟨mem, range⟩ := List.mem_filter.mp mem
    obtain ⟨seen, nonneg, here⟩ := (Forest.mem_lined_iff nodup).mp mem
    exact ⟨seen, line, ⟨nonneg, here⟩, of_decide_eq_true range⟩
  · rintro ⟨seen, line, here, range⟩
    have mem := (Forest.mem_lined_iff nodup).mpr ⟨seen, here.1, here.2⟩
    exact ⟨(p, line), List.mem_filter.mpr ⟨mem, decide_eq_true range⟩, rfl⟩

/-- An item at a hole of the root list, or behind it, is not on an earlier line. -/
theorem le_line {c : Hole Ptr} {line : Int} (nodup : (c.fill g).walk.Nodup) (mem : p ∈ g.walk)
    (here : At (c.fill g) p line) : (c.before.length : Int) ≤ line := by
  by_contra early
  have inside : line.toNat < c.before.length := by
    have nonneg := here.1
    omega
  have front := here.2
  rw [Hole.walk_fill, List.append_assoc, List.getElem?_append_left inside] at front
  have before : p ∈ c.rest := List.mem_append_left _ (List.mem_of_getElem? front)
  exact (Hole.nodup_fill.mp nodup).2.2 p before mem

/-- An item before a hole is on an earlier line. -/
theorem line_lt {c : Hole Ptr} {line : Int} (nodup : (c.fill g).walk.Nodup) (mem : p ∈ c.before)
    (here : At (c.fill g) p line) : line < c.before.length := by
  obtain ⟨k, inside, there⟩ := List.mem_iff_getElem.mp mem
  have place : (c.fill g).walk[k]? = some p := by
    rw [Hole.walk_fill, List.append_assoc, List.getElem?_append_left inside, ← there]
    exact List.getElem?_eq_getElem inside
  have same : line = k := here.unique ⟨Int.natCast_nonneg k, place⟩ nodup
  omega

/-- Calm lists, by the lines of their items. -/
theorem calm_iff {c : Hole Ptr} (up : c.ancestors = []) (h : Shape t (c.fill g)) :
    t.Calm stop g c.before.length ↔
      ∀ q line, q ∈ g.tops → At (c.fill g) q line → line ≤ stop →
        t.hidden q = true ∨ t.links.succ q = none := by
  induction g generalizing c with
  | nil =>
    refine iff_of_true trivial ?_
    intro q line mem
    cases mem
  | node p sub m _ ih =>
    have here := at_before c p sub m
    have below : sub.Linked t.links (some p) (t.links.succ p) := h.around.2.2.2.1
    have leaf_iff : sub = .nil ↔ t.links.succ p = none := by
      rw [← Option.isNone_iff_eq_none, ← Option.not_isSome, Bool.not_eq_true', ← Bool.not_eq_true,
        below.isSome_iff, not_not]
    have next : t.Calm stop m (c.before.length + 1 + sub.size) ↔
        ∀ q line, q ∈ m.tops → At (c.fill (.node p sub m)) q line → line ≤ stop →
          t.hidden q = true ∨ t.links.succ q = none := by
      have line : ((Hole.behind p sub c).before.length : Int) = c.before.length + 1 + sub.size := by
        rw [Hole.before, List.length_append, List.length_cons, sub.length_walk]
        push_cast
        omega
      rw [← line]
      exact ih (c := .behind p sub c) up h
    rw [Calm, next, leaf_iff]
    constructor
    · rintro (past | ⟨closed, rest⟩) q line mem at_line le
      · have inside := le_line h.nodup (Forest.mem_walk_of_tops mem) at_line
        omega
      · rcases List.mem_cons.mp mem with rfl | mem
        · exact closed
        · exact rest q line mem at_line le
    · intro all
      by_cases past : stop < c.before.length
      · exact .inl past
      · refine .inr ⟨all p _ List.mem_cons_self here (Int.not_lt.mp past), ?_⟩
        intro q line mem at_line le
        exact all q line (List.mem_cons_of_mem p mem) at_line le

/-- A range is selected if and only if no station is before it, or the items of the root list from
the station up to the end of the range are closed or without sub tree. -/
theorem selects_right_iff (h : Indexed t f) (start stop : Int) (s : Selection) :
    SelectsRight t f start stop s ↔
      ∀ st, t.FIND_IN_PATHFINDER start = some st → ∀ q line, q ∈ f.tops → At f q line →
        st.itemPos ≤ line → line ≤ stop → t.hidden q = true ∨ t.links.succ q = none := by
  have nodup := h.shape.nodup
  cases station : t.FIND_IN_PATHFINDER start with
  | none =>
    refine iff_of_true ?_ fun st found => nomatch found
    obtain ⟨s', i', ran, marked, -⟩ := selectLoop_spec start stop 0 s h.shape.linked
      (fun q mem => h.shape.isSome mem) h.shape.counted (Nat.le_of_lt h.shape.size_lt_fuel)
      (.inl station)
    refine ⟨t.fuel, s', i', ?_, ?_⟩
    · rw [TreeTableSelectFromTo, startAt, station]
      exact ran
    · intro p
      rw [marked p, mem_inRange nodup]
  | some st =>
    obtain ⟨here, top⟩ := h.lines.stations st (mem_of_FIND_IN_PATHFINDER station).1
    have before := (mem_of_FIND_IN_PATHFINDER station).2
    obtain ⟨c, sub, m, rfl, up⟩ := Hole.exists_hole_tops top
    have line : st.itemPos = c.before.length :=
      here.unique (at_before c st.itemPtr sub m) nodup
    obtain ⟨-, inside⟩ := h.shape.around
    have ptr : t.links.get c.cell = some st.itemPtr := inside.1
    rw [ptr] at inside
    have live : ∀ q ∈ (Forest.node st.itemPtr sub m).walk, (t.item q).isSome := fun q mem =>
      h.shape.isSome ((c.walk_sublist_fill _).subset mem)
    have counted := (Hole.counted_fill.mp h.shape.counted).2
    have started (n : Nat) : t.TreeTableSelectFromTo start stop n t.itemPtr 0 s =
        t.selectLoop start stop n (some st.itemPtr) st.itemPos s := by
      rw [TreeTableSelectFromTo, startAt, station]
    have calm : t.Calm stop (.node st.itemPtr sub m) st.itemPos ↔
        ∀ st', some st = some st' → ∀ q line, q ∈ (c.fill (.node st.itemPtr sub m)).tops →
          At (c.fill (.node st.itemPtr sub m)) q line → st'.itemPos ≤ line → line ≤ stop →
            t.hidden q = true ∨ t.links.succ q = none := by
      rw [line, calm_iff up h.shape]
      constructor
      · rintro closed st' found q line' mem at_line le le_stop
        obtain rfl := Option.some.inj found
        rcases Hole.mem_tops_or up mem with earlier | later
        · have inside := line_lt nodup earlier at_line
          omega
        · exact closed q line' later at_line le_stop
      · intro closed q line' mem at_line le_stop
        refine closed st rfl q line' (Hole.mem_tops_fill up mem) at_line ?_ le_stop
        rw [line]
        exact le_line nodup (Forest.mem_walk_of_tops mem) at_line
    rw [← calm]
    constructor
    · rintro ⟨n, s', i, ran, -⟩
      by_contra restless
      rw [started, selectLoop_stuck station inside live counted restless] at ran
      cases ran
    · intro quiet
      have size := h.shape.size_lt_fuel
      rw [Hole.size_fill] at size
      have enough : (Forest.node st.itemPtr sub m).size ≤ t.fuel := by omega
      obtain ⟨s', i', ran, marked, -⟩ :=
        selectLoop_spec start stop st.itemPos s inside live counted enough (.inr quiet)
      refine ⟨t.fuel, s', i', by rw [started, ran], ?_⟩
      intro p
      obtain ⟨l, listed, early⟩ := Hole.lined_fill up t.hidden (.node st.itemPtr sub m) 0
      have none_early : inRange start stop l = [] := by
        rw [inRange, List.map_eq_nil_iff, List.filter_eq_nil_iff]
        intro e mem
        have := early e mem
        rw [decide_eq_true_iff]
        omega
      rw [marked p, ← mem_inRange nodup, listed, inRange_append, none_early, List.nil_append, line,
        Int.zero_add]

/-! ### A long table -/

/-- The items `a`, `a + 1`, ... without sub trees, `k` of them, and what follows them. -/
def leaves : Nat → Nat → Forest Ptr → Forest Ptr
  | _, 0, g => g
  | a, k + 1, g => .node a .nil (leaves (a + 1) k g)

/-- `k` items without sub trees, and an open item with one item in its sub tree. -/
def longForest (k : Nat) : Forest Ptr := leaves 0 k (.node k (.node (k + 1) .nil .nil) .nil)

def leafItem (p : Ptr) : TableItem :=
  { parent := -1
    text := ascii "a"
    hidden_subtree := false
    succNum := 0
    seenNum := 0
    succPtr := none
    parentPtr := none
    nextPtr := some (p + 1) }

def ownerItem (k : Ptr) : TableItem :=
  { leafItem k with succNum := 1, seenNum := 1, succPtr := some (k + 1), nextPtr := none }

def childItem (k : Ptr) : TableItem :=
  { leafItem (k + 1) with parent := k, parentPtr := some k, nextPtr := none }

/-- The table of these items, with the station that drawing leaves on line 1024. -/
def longTable (k : Nat) : TreeTable :=
  { create true false (-1) false with
    item := fun p =>
      if p < k then some (leafItem p)
      else if p = k then some (ownerItem k)
      else if p = k + 1 then some (childItem k)
      else none
    numItems := k + 2
    numViewed := k + 2
    itemPtr := some 0
    pathFinder := some [⟨1024, 1024, 1024⟩] }

theorem walk_leaves (a k : Nat) (g : Forest Ptr) :
    (leaves a k g).walk = List.range' a k ++ g.walk := by
  induction k generalizing a with
  | zero => rfl
  | succ k ih =>
    rw [leaves, Forest.walk, ih, List.range'_succ]
    rfl

theorem walk_longForest (k : Nat) : (longForest k).walk = List.range' 0 (k + 2) := by
  rw [longForest, walk_leaves, ← List.range'_append_1]
  simp [Forest.walk, List.range'_succ]

theorem size_longForest (k : Nat) : (longForest k).size = k + 2 := by
  rw [← Forest.length_walk, walk_longForest, List.length_range']

theorem item_leaf {k p : Nat} (lt : p < k) : (longTable k).item p = some (leafItem p) := if_pos lt

theorem item_owner (k : Nat) : (longTable k).item k = some (ownerItem k) := by
  change (if k < k then _ else if k = k then _ else _) = _
  rw [if_neg (Nat.lt_irrefl k), if_pos rfl]

theorem item_child (k : Nat) : (longTable k).item (k + 1) = some (childItem k) := by
  change (if k + 1 < k then _ else if k + 1 = k then _ else if k + 1 = k + 1 then _ else _) = _
  rw [if_neg (by omega), if_neg (by omega), if_pos rfl]

theorem hidden_longTable (k p : Nat) : (longTable k).hidden p = false := by
  unfold hidden
  change ((if p < k then some (leafItem p) else if p = k then some (ownerItem k)
    else if p = k + 1 then some (childItem k) else none).map _).getD false = false
  split
  · rfl
  split
  · rfl
  split
  · rfl
  · rfl

theorem seen_longForest (k : Nat) : (longForest k).seen (longTable k).hidden = k + 2 := by
  have whole (g : Forest Ptr) : g.seen (longTable k).hidden = g.size := by
    induction g with
    | nil => rfl
    | node p s m s_ih m_ih =>
      rw [seen_node, hidden_longTable, if_neg Bool.false_ne_true, s_ih, m_ih, Forest.size_node]
  rw [whole, size_longForest]

/-- What holds of the end of the list and is kept by an item before it, holds of the list. -/
theorem leaves_induction {P : Forest Ptr → Nat → Prop} {k : Nat} {g : Forest Ptr} (last : P g k)
    (step : ∀ g' p, p < k → P g' (p + 1) → P (.node p .nil g') p) (a n : Nat) (total : a + n = k) :
    P (leaves a n g) a := by
  induction n generalizing a with
  | zero =>
    obtain rfl : a = k := total
    exact last
  | succ n ih => exact step _ a (by omega) (ih (a + 1) (by omega))

theorem linked_longForest (k : Nat) :
    (longForest k).Linked (longTable k).links none (longTable k).itemPtr := by
  apply leaves_induction (P := fun g p => g.Linked (longTable k).links none (some p)) _ _ 0 k
    (Nat.zero_add k)
  · refine ⟨rfl, links_par (item_owner k), ⟨links_succ (item_owner k), ?_, ?_, ?_⟩, ?_⟩
    · exact links_par (item_child k)
    · exact links_succ (item_child k)
    · exact links_next (item_child k)
    · exact links_next (item_owner k)
  · intro g p lt rest
    refine ⟨rfl, links_par (item_leaf lt), links_succ (item_leaf lt), ?_⟩
    rw [links_next (item_leaf lt)]
    exact rest

theorem counted_longForest (k : Nat) : (longForest k).Counted (longTable k).counts := by
  have open_ (p : Nat) : (longTable k).counts.shut p = false := hidden_longTable k p
  apply leaves_induction (P := fun g _ => g.Counted (longTable k).counts) _ _ 0 k (Nat.zero_add k)
  · refine ⟨counts_all (item_owner k), ?_, ⟨counts_all (item_child k), ?_, trivial, trivial⟩, trivial⟩
    · rw [counts_seen (item_owner k), open_, if_neg Bool.false_ne_true, seen_node, seen_nil, ite_self]
      rfl
    · rw [counts_seen (item_child k), seen_nil, Int.natCast_zero, ite_self]
      rfl
  · intro g p lt rest
    refine ⟨counts_all (item_leaf lt), ?_, trivial, rest⟩
    rw [counts_seen (item_leaf lt), seen_nil, Int.natCast_zero, ite_self]
    rfl

theorem tops_leaves (g : Forest Ptr) (a n : Nat) :
    (leaves a n g).tops = List.range' a n ++ g.tops := by
  induction n generalizing a with
  | zero => rfl
  | succ n ih =>
    rw [leaves, Forest.tops, ih, List.range'_succ]
    rfl

theorem shape_longTable (k : Nat) : Shape (longTable k) (longForest k) := by
  refine ⟨linked_longForest k, ?_, ?_, counted_longForest k, ?_⟩
  · rw [walk_longForest]
    exact List.nodup_range'
  · intro p
    rw [walk_longForest, List.mem_range'_1]
    rcases Nat.lt_trichotomy p k with lt | rfl | gt
    · rw [item_leaf lt]
      exact iff_of_true rfl ⟨Nat.zero_le p, by omega⟩
    · rw [item_owner]
      exact iff_of_true rfl ⟨Nat.zero_le p, by omega⟩
    · rcases Nat.eq_or_lt_of_le (Nat.succ_le_of_lt gt) with rfl | past
      · rw [item_child]
        exact iff_of_true rfl ⟨Nat.zero_le _, by omega⟩
      · have none_there : (longTable k).item p = none := by
          have behind : ¬ p < k := Nat.not_lt.mpr (Nat.le_of_lt gt)
          have other : ¬ p = k := Nat.ne_of_gt gt
          have no_child : ¬ p = k + 1 := Nat.ne_of_gt past
          change (if p < k then _ else if p = k then _ else if p = k + 1 then _ else _) = _
          rw [if_neg behind, if_neg other, if_neg no_child]
        rw [none_there]
        exact iff_of_false (fun h => nomatch h) (fun h => by omega)
  · rw [size_longForest]
    rfl

theorem indexed_longTable {k : Nat} (long : 1024 < k) : Indexed (longTable k) (longForest k) := by
  refine ⟨shape_longTable k, ?_, ?_, ?_, ?_⟩
  · rw [seen_longForest]
    rfl
  · intro e mem
    cases mem
  · intro e eq
    cases eq
  · intro st mem
    obtain rfl := List.mem_singleton.mp mem
    refine ⟨⟨by decide, ?_⟩, ?_⟩
    · change (longForest k).walk[1024]? = some 1024
      rw [walk_longForest, List.getElem?_range' (by omega)]
    · change 1024 ∈ (longForest k).tops
      rw [longForest, tops_leaves, List.mem_append, List.mem_range'_1]
      exact .inl ⟨Nat.zero_le _, by omega⟩

/-- The items of the long table from its station on. -/
def lastItems : Forest Ptr := .node 1024 .nil (.node 1025 (.node 1026 .nil .nil) .nil)

/-- Nothing is selected. -/
def Selection.none : Selection := ⟨fun _ => false, 0, Option.none, -1⟩

/-- The station is not before the line, so everything behind the line is selected. -/
theorem selects_right_five :
    SelectsRight (longTable 1025) (longForest 1025) 5 1026 Selection.none :=
  (selects_right_iff (indexed_longTable (by decide)) 5 1026 Selection.none).mpr
    fun _ found => nomatch found

/-- The last item of the root list, which is open, is never selected. -/
theorem station_before_open_item :
    Indexed (longTable 1025) (longForest 1025) ∧
      (∀ n, (longTable 1025).TreeTableSelectFromTo 1025 1025 n (longTable 1025).itemPtr 0
        Selection.none = .error .fuel) ∧
      ¬ SelectsRight (longTable 1025) (longForest 1025) 1025 1025 Selection.none := by
  have indexed : Indexed (longTable 1025) (longForest 1025) := indexed_longTable (by decide)
  have station : (longTable 1025).FIND_IN_PATHFINDER 1025 = some ⟨1024, 1024, 1024⟩ := rfl
  have leaf : (longTable 1025).item 1024 = some (leafItem 1024) := item_leaf (by decide)
  have owner : (longTable 1025).item 1025 = some (ownerItem 1025) := item_owner 1025
  have child : (longTable 1025).item 1026 = some (childItem 1025) := item_child 1025
  have linked : lastItems.Linked (longTable 1025).links none (some 1024) := by
    refine ⟨rfl, links_par leaf, links_succ leaf, ?_⟩
    rw [links_next leaf]
    refine ⟨rfl, links_par owner, ⟨links_succ owner, ?_, ?_, ?_⟩, links_next owner⟩
    · exact links_par child
    · exact links_succ child
    · exact links_next child
  have live : ∀ p ∈ lastItems.walk, ((longTable 1025).item p).isSome := by
    intro p mem
    have mem : p ∈ [1024, 1025, 1026] := mem
    simp only [List.mem_cons, List.not_mem_nil, or_false] at mem
    obtain rfl | rfl | rfl := mem <;> rfl
  have counted : lastItems.Counted (longTable 1025).counts := by
    refine ⟨counts_all leaf, ?_, trivial, counts_all owner, ?_, ⟨counts_all child, ?_, trivial,
      trivial⟩, trivial⟩
    · exact counts_seen leaf
    · exact counts_seen owner
    · exact counts_seen child
  have restless : ¬ (longTable 1025).Calm 1025 lastItems 1024 := by
    rintro (past | ⟨-, past | ⟨closed, -⟩⟩)
    · exact absurd past (by decide)
    · exact absurd past (by decide)
    · rcases closed with closed | empty
      · rw [hidden_longTable] at closed
        cases closed
      · cases empty
  have stuck (n : Nat) : (longTable 1025).TreeTableSelectFromTo 1025 1025 n
      (longTable 1025).itemPtr 0 Selection.none = .error .fuel := by
    rw [TreeTableSelectFromTo, startAt, station]
    exact selectLoop_stuck station linked live counted restless n Selection.none
  refine ⟨indexed, stuck, ?_⟩
  rintro ⟨n, s', i, ran, -⟩
  rw [stuck n] at ran
  cases ran

end TreeTable

end SourceNavigator.Hyper

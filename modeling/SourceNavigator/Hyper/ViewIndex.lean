import SourceNavigator.Hyper.TreeLines
import SourceNavigator.Lib.ForestView

/-!
The two line numbers of an item in a tree table (`hyper/tkTreeTable.c`).

The real index of an item is its line among all items, the view index its line
among those that are not in a hidden sub tree. `TreeTableRealyIndex` leads from
the second to the first, `TreeTableViewedIndex` back.

* `RealyIndex_x_eq`: the first search is right in every list it is started in,
  but it counts from 0 also where it starts at a stop station.
* `ViewedIndex_x_eq`: the second takes the item right behind a hidden sub tree
  for an item of it (`viewedAt`).
* `indices_right_iff` says when both are right.
-/

namespace SourceNavigator.Hyper

open Lib

namespace TreeTable

variable (t : TreeTable)

/-- The result, `*pos` and `*rindex`. -/
def TreeTableRealyIndex_x (index : Int) :
    Nat → Option Ptr → Int → Int → Except Fault (Int × Int × Int)
  | _, none, pos, rindex => .ok (rindex, pos, rindex)
  | 0, some _, _, _ => .error .fuel
  | n + 1, some p, pos, rindex =>
    if index < pos then .ok (rindex, pos, rindex)
    else if pos = index then .ok (-1, pos, rindex)
    else do
      let x ← t.read p
      let pos := pos + 1
      let rindex := rindex + 1
      if !x.hidden_subtree && x.succPtr.isSome then
        if pos + x.seenNum < index then
          TreeTableRealyIndex_x index n x.nextPtr (pos + x.seenNum) (rindex + x.succNum)
        else do
          let (ret, pos, rindex) ← TreeTableRealyIndex_x index n x.succPtr pos rindex
          if ret < 0 then pure (ret, pos, rindex)
          else TreeTableRealyIndex_x index n x.nextPtr pos rindex
      else TreeTableRealyIndex_x index n x.nextPtr pos (rindex + x.succNum)

/-- The search starts at a station, but the position of the station is overwritten. -/
def TreeTableRealyIndex (index : Int) : Except Fault Int :=
  if t.numViewed = t.numItems then .ok index
  else do
    let itemPtr :=
      match t.FIND_IN_PATHFINDER index with
      | some pf => some pf.itemPtr
      | none => t.itemPtr
    let (ret, _, rindex) ← t.TreeTableRealyIndex_x index t.fuel itemPtr 0 0
    pure (if ret < 0 then rindex else -1)

/-- The result, `*realpos` and `*vindex`. -/
def TreeTableViewedIndex_x (index : Int) :
    Nat → Option Ptr → Int → Int → Except Fault (Int × Int × Int)
  | _, none, realpos, vindex => .ok (vindex, realpos, vindex)
  | 0, some _, _, _ => .error .fuel
  | n + 1, some p, realpos, vindex =>
    if index < realpos then .ok (vindex, realpos, vindex)
    else if realpos = index then .ok (-1, realpos, vindex)
    else do
      let x ← t.read p
      let realpos := realpos + 1
      let vindex := vindex + 1
      if x.succPtr.isSome then
        if !x.hidden_subtree then
          if realpos + x.succNum < index then
            TreeTableViewedIndex_x index n x.nextPtr (realpos + x.succNum) (vindex + x.seenNum)
          else do
            let (ret, realpos, vindex) ← TreeTableViewedIndex_x index n x.succPtr realpos vindex
            if ret < 0 then pure (ret, realpos, vindex)
            else TreeTableViewedIndex_x index n x.nextPtr realpos vindex
        -- also where the index is the line behind the hidden sub tree
        else if realpos + x.succNum ≥ index then .ok (-1, realpos, vindex - 1)
        else TreeTableViewedIndex_x index n x.nextPtr (realpos + x.succNum) (vindex + x.seenNum)
      else TreeTableViewedIndex_x index n x.nextPtr realpos vindex

def TreeTableViewedIndex (index : Int) : Except Fault Int :=
  if t.numViewed = t.numItems then .ok index
  else do
    let (ret, _, vindex) ← t.TreeTableViewedIndex_x index t.fuel t.itemPtr 0 0
    pure (if ret < 0 then vindex else -1)

variable {t : TreeTable} {p : Ptr} {x : TableItem} {f g : Forest Ptr} {index pos rindex vindex : Int}
  {n : Nat}

/-! ### From view to real -/

/-- What the search returns: the item is in the list, or the search goes on behind it. -/
def realResult (shut : Ptr → Bool) (g : Forest Ptr) (index pos rindex : Int) : Int × Int × Int :=
  if index - pos < g.seen shut then
    (-1, index, rindex + g.realLine shut (index - pos).toNat)
  else (rindex + g.size, pos + g.seen shut, rindex + g.size)

theorem realResult_zero {a : Ptr} {s m : Forest Ptr} {shut : Ptr → Bool} :
    realResult shut (.node a s m) index index rindex = (-1, index, rindex) := by
  have inside : index - index < ((Forest.node a s m).seen shut : Int) := by
    rw [seen_node]
    omega
  rw [realResult, if_pos inside, Int.sub_self]
  simp [Forest.realLine]

/-- Behind the sub tree of an item. -/
theorem realResult_behind {a : Ptr} {s m : Forest Ptr} {shut : Ptr → Bool} {k : Nat}
    (sub : (if shut a then 0 else s.seen shut) = k) (past : pos + 1 + k ≤ index) :
    realResult shut m index (pos + 1 + k) (rindex + 1 + s.size) =
      realResult shut (.node a s m) index pos rindex := by
  have shift : (index - pos).toNat = (index - (pos + 1 + k)).toNat + k + 1 := by omega
  unfold realResult
  rw [seen_node, sub, shift, Forest.realLine, sub, if_neg (by omega : ¬ _ + k < k),
    Nat.add_sub_cancel]
  by_cases inside : index - (pos + 1 + k) < m.seen shut
  · rw [if_pos inside, if_pos (by push_cast; omega)]
    push_cast
    congr 2
    omega
  · have all : rindex + 1 + s.size + m.size = rindex + ((1 + s.size + m.size : Nat) : Int) := by
      push_cast
      omega
    have lines : pos + 1 + k + m.seen shut = pos + ((1 + k + m.seen shut : Nat) : Int) := by
      push_cast
      omega
    rw [if_neg inside, if_neg (by push_cast; omega), Forest.size_node, all, lines]

theorem RealyIndex_x_eq {owner ptr : Option Ptr} (linked : g.Linked t.links owner ptr)
    (live : ∀ p ∈ g.walk, (t.item p).isSome) (counted : g.Counted t.counts) (enough : g.size ≤ n)
    (le : pos ≤ index) (nonneg : 0 ≤ rindex) :
    t.TreeTableRealyIndex_x index n ptr pos rindex =
      .ok (realResult t.hidden g index pos rindex) := by
  induction g generalizing n owner ptr pos rindex with
  | nil =>
    obtain rfl : ptr = none := linked
    have outside : ¬ index - pos < ((Forest.nil : Forest Ptr).seen t.hidden : Int) := by
      rw [seen_nil]
      omega
    rw [realResult, if_neg outside]
    cases n <;> simp [TreeTableRealyIndex_x]
  | node p s m s_ih m_ih =>
    obtain ⟨x, n, item, rfl, rfl, enough, sub, next, s_live, m_live⟩ := open_node linked live enough
    obtain ⟨all, seen, s_counted, m_counted⟩ := counted
    have shut : t.counts.shut p = x.hidden_subtree := hidden_eq item
    have shut' : t.hidden p = x.hidden_subtree := hidden_eq item
    rw [counts_all item] at all
    rw [counts_seen item, shut] at seen
    rw [TreeTableRealyIndex_x, if_neg (by omega)]
    by_cases here : pos = index
    · rw [if_pos here, here, realResult_zero]
    rw [if_neg here, read_eq item, Fuel.ok_bind]
    -- the search goes on behind the sub tree, with `k` items seen of it
    have behind (k : Nat) (is : (if t.hidden p then 0 else s.seen t.hidden) = k)
        (past : pos + 1 + k ≤ index) :
        t.TreeTableRealyIndex_x index n x.nextPtr (pos + 1 + k) (rindex + 1 + s.size) =
          .ok (realResult t.hidden (.node p s m) index pos rindex) := by
      rw [m_ih next m_live m_counted (by omega) past (by omega), realResult_behind is past]
    dsimp only
    by_cases descend : (!x.hidden_subtree && x.succPtr.isSome) = true
    case neg =>
      rw [if_neg descend, all]
      have none_seen : (if t.hidden p then 0 else s.seen t.hidden) = 0 := by
        rw [shut']
        cases hid : x.hidden_subtree with
        | true => rfl
        | false =>
          rw [hid, Bool.not_false, Bool.true_and] at descend
          have leaf : s = .nil := by
            by_contra other
            exact descend ((sub.isSome_iff).mpr other)
          rw [leaf]
          rfl
      have rest := behind 0 none_seen (by omega)
      rwa [Int.natCast_zero, Int.add_zero] at rest
    obtain ⟨shown, some_sub⟩ := Bool.and_eq_true_iff.mp descend
    have open_ : x.hidden_subtree = false := by simpa using shown
    have s_seen : (if t.hidden p then 0 else s.seen t.hidden) = s.seen t.hidden := by
      rw [shut', open_]
      rfl
    rw [open_, if_neg Bool.false_ne_true] at seen
    rw [if_pos descend, all, seen]
    change (if pos + 1 + (s.seen t.hidden : Int) < index then _ else _) = _
    by_cases jump : pos + 1 + (s.seen t.hidden : Int) < index
    · rw [if_pos jump]
      exact behind (s.seen t.hidden) s_seen (Int.le_of_lt jump)
    rw [if_neg jump, s_ih sub s_live s_counted (by omega) (by omega) (by omega), Fuel.ok_bind]
    by_cases inside : index - (pos + 1) < s.seen t.hidden
    · have shift : (index - pos).toNat = (index - (pos + 1)).toNat + 1 := by omega
      have found : realResult t.hidden (.node p s m) index pos rindex =
          (-1, index, rindex + 1 + s.realLine t.hidden (index - (pos + 1)).toNat) := by
        unfold realResult
        rw [seen_node, s_seen, if_pos (by push_cast; omega), shift, Forest.realLine, s_seen,
          if_pos (by omega)]
        push_cast
        congr 2
        omega
      have inner : realResult t.hidden s index (pos + 1) (rindex + 1) =
          (-1, index, rindex + 1 + s.realLine t.hidden (index - (pos + 1)).toNat) :=
        if_pos inside
      rw [inner, found]
      rfl
    · have inner : realResult t.hidden s index (pos + 1) (rindex + 1) =
          (rindex + 1 + s.size, pos + 1 + s.seen t.hidden, rindex + 1 + s.size) :=
        if_neg inside
      rw [inner]
      change (if rindex + 1 + (s.size : Int) < 0 then _ else _) = _
      rw [if_neg (by omega)]
      exact behind (s.seen t.hidden) s_seen (by omega)

/-! ### From real to view -/

/-- The line that the second search finds for the `i`-th item: the first line behind a hidden sub
tree is taken for one of its lines. -/
def viewedAt (shut : Ptr → Bool) : Forest Ptr → Nat → Option Nat
  | .nil, _ => none
  | .node _ _ _, 0 => some 0
  | .node a s m, i + 1 =>
    if s.size = 0 then (viewedAt shut m i).map (1 + ·)
    else if shut a then
      if i ≤ s.size then some 0 else (viewedAt shut m (i - s.size)).map (1 + ·)
    else
      match viewedAt shut s i with
      | some k => some (1 + k)
      | none => (viewedAt shut m (i - s.size)).map (1 + s.seen shut + ·)

variable {shut : Ptr → Bool} {i k : Nat}

theorem viewedAt_inside (shut : Ptr → Bool) (inside : i < f.size) : ∃ k, viewedAt shut f i = some k := by
  induction f generalizing i with
  | nil => exact absurd inside (Nat.not_lt_zero i)
  | node a s m s_ih m_ih =>
    rw [Forest.size_node] at inside
    cases i with
    | zero => exact ⟨0, rfl⟩
    | succ i =>
      rw [viewedAt]
      by_cases leaf : s.size = 0
      · obtain ⟨k, found⟩ := m_ih (i := i) (by omega)
        rw [if_pos leaf, found]
        exact ⟨1 + k, rfl⟩
      rw [if_neg leaf]
      by_cases hid : shut a
      · rw [if_pos hid]
        by_cases below : i ≤ s.size
        · rw [if_pos below]
          exact ⟨0, rfl⟩
        · obtain ⟨k, found⟩ := m_ih (i := i - s.size) (by omega)
          rw [if_neg below, found]
          exact ⟨1 + k, rfl⟩
      · rw [if_neg hid]
        by_cases below : i < s.size
        · obtain ⟨k, found⟩ := s_ih below
          rw [found]
          exact ⟨1 + k, rfl⟩
        · cases viewedAt shut s i with
          | some k => exact ⟨1 + k, rfl⟩
          | none =>
            obtain ⟨k, found⟩ := m_ih (i := i - s.size) (by omega)
            rw [found]
            exact ⟨1 + s.seen shut + k, rfl⟩

theorem viewedAt_outside (outside : f.size < i) : viewedAt shut f i = none := by
  induction f generalizing i with
  | nil => rfl
  | node a s m s_ih m_ih =>
    rw [Forest.size_node] at outside
    cases i with
    | zero => exact absurd outside (Nat.not_lt_zero _)
    | succ i =>
      rw [viewedAt]
      by_cases leaf : s.size = 0
      · rw [if_pos leaf, m_ih (by omega)]
        rfl
      rw [if_neg leaf]
      by_cases hid : shut a
      · rw [if_pos hid, if_neg (by omega), m_ih (by omega)]
        rfl
      · rw [if_neg hid, s_ih (by omega), m_ih (by omega)]
        rfl

theorem viewedAt_lt (found : viewedAt shut f i = some k) : k < f.seen shut := by
  induction f generalizing i k with
  | nil => cases found
  | node a s m s_ih m_ih =>
    rw [seen_node]
    cases i with
    | zero =>
      obtain rfl : 0 = k := Option.some.inj found
      omega
    | succ i =>
      rw [viewedAt] at found
      split at found
      · obtain ⟨j, inner, rfl⟩ := Option.map_eq_some_iff.mp found
        have := m_ih inner
        omega
      split at found
      · split at found
        · obtain rfl : 0 = k := Option.some.inj found
          omega
        · obtain ⟨j, inner, rfl⟩ := Option.map_eq_some_iff.mp found
          have := m_ih inner
          omega
      case isFalse hid =>
        rw [if_neg hid]
        split at found
        case h_1 j inner =>
          obtain rfl : 1 + j = k := Option.some.inj found
          have := s_ih inner
          omega
        case h_2 =>
          obtain ⟨j, inner, rfl⟩ := Option.map_eq_some_iff.mp found
          have := m_ih inner
          omega

/-- What the second search returns. -/
def viewedResult (shut : Ptr → Bool) (g : Forest Ptr) (index realpos vindex : Int) :
    Int × Int × Int → Prop := fun result =>
  match viewedAt shut g (index - realpos).toNat with
  | some k => result.1 = -1 ∧ result.2.2 = vindex + k
  | none => result = (vindex + g.seen shut, realpos + g.size, vindex + g.seen shut)

theorem ViewedIndex_x_eq {owner ptr : Option Ptr} {realpos : Int}
    (linked : g.Linked t.links owner ptr) (live : ∀ p ∈ g.walk, (t.item p).isSome)
    (counted : g.Counted t.counts) (enough : g.size ≤ n) (le : realpos ≤ index)
    (nonneg : 0 ≤ vindex) :
    ∃ result, t.TreeTableViewedIndex_x index n ptr realpos vindex = .ok result ∧
      viewedResult t.hidden g index realpos vindex result := by
  induction g generalizing n owner ptr realpos vindex with
  | nil =>
    obtain rfl : ptr = none := linked
    refine ⟨(vindex, realpos, vindex), by cases n <;> rfl, ?_⟩
    simp [viewedResult, viewedAt]
  | node p s m s_ih m_ih =>
    obtain ⟨x, n, item, rfl, rfl, enough, sub, next, s_live, m_live⟩ := open_node linked live enough
    obtain ⟨all, seen, s_counted, m_counted⟩ := counted
    have shut : t.counts.shut p = x.hidden_subtree := hidden_eq item
    have shut' : t.hidden p = x.hidden_subtree := hidden_eq item
    rw [counts_all item] at all
    rw [counts_seen item, shut] at seen
    rw [TreeTableViewedIndex_x, if_neg (by omega)]
    by_cases here : realpos = index
    · rw [if_pos here]
      refine ⟨_, rfl, ?_⟩
      rw [viewedResult, here, Int.sub_self]
      simp [viewedAt]
    rw [if_neg here, read_eq item, Fuel.ok_bind]
    obtain ⟨i, line⟩ : ∃ i : Nat, (index - realpos).toNat = i + 1 :=
      ⟨(index - realpos).toNat - 1, by omega⟩
    -- the search goes on behind the sub tree, with `k` items seen of it
    have behind (k : Nat) (past : s.size ≤ i)
        (at_node : viewedAt t.hidden (.node p s m) (i + 1) =
          (viewedAt t.hidden m (i - s.size)).map (1 + k + ·))
        (total : (Forest.node p s m).seen t.hidden = 1 + k + m.seen t.hidden) :
        ∃ result, t.TreeTableViewedIndex_x index n x.nextPtr (realpos + 1 + s.size)
            (vindex + 1 + k) = .ok result ∧
          viewedResult t.hidden (.node p s m) index realpos vindex result := by
      obtain ⟨result, ran, is⟩ := @m_ih (vindex + 1 + k) n owner x.nextPtr
        (realpos + 1 + s.size) next m_live m_counted (by omega) (by omega) (by omega)
      refine ⟨result, ran, ?_⟩
      have shift : (index - (realpos + 1 + s.size)).toNat = i - s.size := by omega
      rw [viewedResult, shift] at is
      rw [viewedResult, line, at_node, total, Forest.size_node]
      cases found : viewedAt t.hidden m (i - s.size) with
      | some j =>
        rw [found] at is
        refine ⟨is.1, ?_⟩
        rw [is.2]
        push_cast
        omega
      | none =>
        rw [found] at is
        rw [is]
        push_cast
        refine Prod.ext ?_ (Prod.ext ?_ ?_)
        · change _ + _ = _ + _
          omega
        · change _ + _ = _ + _
          omega
        · change _ + _ = _ + _
          omega
    dsimp only
    by_cases leaf : s.size = 0
    · have no_sub : ¬ x.succPtr.isSome = true := by
        intro some_sub
        apply (sub.isSome_iff).mp some_sub
        exact Forest.eq_nil_of_size leaf
      have none_seen : s.seen t.hidden = 0 := by
        rw [Forest.eq_nil_of_size leaf]
        rfl
      rw [if_neg no_sub]
      have rest := behind 0 (by omega) (by rw [viewedAt, if_pos leaf, leaf, Nat.sub_zero])
        (by rw [seen_node, none_seen, ite_self])
      rwa [leaf, Int.natCast_zero, Int.add_zero, Int.add_zero] at rest
    have some_sub : x.succPtr.isSome = true := by
      apply (sub.isSome_iff).mpr
      rintro rfl
      exact leaf rfl
    rw [if_pos some_sub, all]
    cases hid : x.hidden_subtree with
    | true =>
      rw [hid] at shut' seen
      rw [Bool.not_true, if_neg Bool.false_ne_true]
      by_cases below : i ≤ s.size
      · rw [if_pos (by omega)]
        refine ⟨_, rfl, ?_⟩
        rw [viewedResult, line, viewedAt, if_neg leaf, if_pos shut', if_pos below]
        refine ⟨rfl, ?_⟩
        change vindex + 1 - 1 = vindex + 0
        omega
      · rw [if_neg (by omega), seen, if_pos rfl]
        exact behind 0 (by omega)
          (by rw [viewedAt, if_neg leaf, if_pos shut', if_neg below])
          (by rw [seen_node, shut', if_pos rfl])
    | false =>
      rw [hid] at shut' seen
      rw [if_neg Bool.false_ne_true] at seen
      rw [Bool.not_false, if_pos rfl, seen]
      have total : (Forest.node p s m).seen t.hidden =
          1 + s.seen t.hidden + m.seen t.hidden := by
        rw [seen_node, shut', if_neg Bool.false_ne_true]
      have at_node (missing : viewedAt t.hidden s i = none) :
          viewedAt t.hidden (.node p s m) (i + 1) =
            (viewedAt t.hidden m (i - s.size)).map (1 + s.seen t.hidden + ·) := by
        rw [viewedAt, if_neg leaf, shut', if_neg Bool.false_ne_true, missing]
      by_cases jump : realpos + 1 + (s.size : Int) < index
      · rw [if_pos jump]
        exact behind _ (by omega) (at_node (viewedAt_outside (by omega))) total
      rw [if_neg jump]
      obtain ⟨inner, ran, is⟩ := @s_ih (vindex + 1) n (some p) x.succPtr
        (realpos + 1) sub s_live s_counted (by omega) (by omega) (by omega)
      have shift : (index - (realpos + 1)).toNat = i := by omega
      rw [viewedResult, shift] at is
      rw [ran, Fuel.ok_bind]
      cases found : viewedAt t.hidden s i with
      | some k =>
        rw [found] at is
        refine ⟨inner, ?_, ?_⟩
        · rw [if_pos (by rw [is.1]; decide)]
          rfl
        · rw [viewedResult, line, viewedAt, if_neg leaf, shut', if_neg Bool.false_ne_true,
            found]
          refine ⟨is.1, ?_⟩
          rw [is.2]
          push_cast
          omega
      | none =>
        rw [found] at is
        have past : s.size ≤ i := by
          by_contra below
          obtain ⟨k, some_line⟩ := viewedAt_inside t.hidden (Nat.not_le.mp below)
          exact nomatch found.symm.trans some_line
        rw [is]
        dsimp only
        rw [if_neg (by omega)]
        exact behind _ past (at_node found) total

/-! ### When the second search is right -/

/-- Where all items are seen, no hidden sub tree ends. -/
theorem viewedAt_size_of_whole (whole : f.seen shut = f.size) : viewedAt shut f f.size = none := by
  induction f with
  | nil => rfl
  | node a s m s_ih m_ih =>
    have s_short := s.seen_le_size shut
    have m_short := m.seen_le_size shut
    have total : (Forest.node a s m).size = s.size + m.size + 1 := by
      rw [Forest.size_node]
      omega
    rw [seen_node, Forest.size_node] at whole
    rw [total, viewedAt]
    by_cases leaf : s.size = 0
    · rw [if_pos leaf, leaf, Nat.zero_add, m_ih (by split at whole <;> omega)]
      rfl
    rw [if_neg leaf]
    by_cases hid : shut a
    · rw [if_pos hid] at whole
      omega
    rw [if_neg hid] at whole ⊢
    have inner : viewedAt shut s (s.size + m.size) = none := by
      rcases Nat.eq_zero_or_pos m.size with none_behind | some_behind
      · rw [none_behind]
        exact s_ih (by omega)
      · exact viewedAt_outside (by omega)
    rw [inner, Nat.add_sub_cancel_left, m_ih (by omega)]
    rfl

theorem whole_of_viewedAt_size (last : f.ShutLast shut) (missing : viewedAt shut f f.size = none) :
    f.seen shut = f.size := by
  induction f with
  | nil => rfl
  | node a s m s_ih m_ih =>
    obtain ⟨inner, equal, rest⟩ := last
    have total : (Forest.node a s m).size = s.size + m.size + 1 := by
      rw [Forest.size_node]
      omega
    rw [total, viewedAt] at missing
    rw [seen_node, Forest.size_node]
    by_cases leaf : s.size = 0
    · have none_seen : s.seen shut = 0 := by
        rw [Forest.eq_nil_of_size leaf]
        rfl
      rw [if_pos leaf, leaf, Nat.zero_add] at missing
      rw [none_seen, ite_self, m_ih rest (Option.map_eq_none_iff.mp missing), leaf]
    rw [if_neg leaf] at missing
    by_cases hid : shut a
    · rw [if_pos hid] at equal missing
      rcases equal with rfl | none_below
      · rw [Forest.size_nil, Nat.add_zero, if_pos (Nat.le_refl _)] at missing
        cases missing
      · exact absurd none_below.symm leaf
    rw [if_neg hid] at equal missing ⊢
    have open_ : shut a = false := by simpa using hid
    cases found : viewedAt shut s (s.size + m.size) with
    | some k =>
      rw [found] at missing
      cases missing
    | none =>
      rw [found] at missing
      rw [Nat.add_sub_cancel_left] at missing
      rw [m_ih rest (Option.map_eq_none_iff.mp missing)]
      rcases equal with rfl | equal
      · rw [Forest.size_nil, Nat.add_zero] at found
        rw [s_ih (inner open_) found]
      · rw [equal]

/-- The line of an item behind a sub tree of which everything is seen. -/
theorem viewedAt_behind {a : Ptr} {s m : Forest Ptr}
    (whole : (if shut a then 0 else s.seen shut) = s.size) :
    viewedAt shut (.node a s m) (s.size + i + 1) =
      (viewedAt shut m i).map (1 + s.size + ·) := by
  rw [viewedAt]
  by_cases leaf : s.size = 0
  · rw [if_pos leaf, leaf, Nat.zero_add]
  rw [if_neg leaf]
  by_cases hid : shut a
  · rw [if_pos hid] at whole
    exact absurd whole.symm leaf
  rw [if_neg hid] at whole ⊢
  have inner : viewedAt shut s (s.size + i) = none := by
    rcases Nat.eq_zero_or_pos i with rfl | some_behind
    · exact viewedAt_size_of_whole whole
    · exact viewedAt_outside (by omega)
  rw [inner, Nat.add_sub_cancel_left, whole]

theorem viewLine_behind {a : Ptr} {s m : Forest Ptr}
    (whole : (if shut a then 0 else s.seen shut) = s.size) :
    (Forest.node a s m).viewLine shut (s.size + i + 1) = 1 + s.size + m.viewLine shut i := by
  rw [Forest.viewLine, if_neg (by omega), Nat.add_sub_cancel_left, whole]

/-- The second search is right for all items if and only if no item is seen behind a hidden one. -/
theorem viewedAt_right_iff :
    (∀ i, i < f.size → viewedAt shut f i = some (f.viewLine shut i)) ↔ f.ShutLast shut := by
  induction f with
  | nil => exact iff_of_true (fun i inside => absurd inside (Nat.not_lt_zero i)) trivial
  | node a s m s_ih m_ih =>
    constructor
    · intro right
      have inner (open_ : shut a = false) : s.ShutLast shut := by
        apply s_ih.mp
        intro i below
        have here := right (i + 1) (by rw [Forest.size_node]; omega)
        obtain ⟨k, found⟩ := viewedAt_inside shut below
        rw [viewedAt, if_neg (by omega), open_, if_neg Bool.false_ne_true, found,
          Forest.viewLine, if_pos below, open_, if_neg Bool.false_ne_true] at here
        rw [found, Nat.add_left_cancel (Option.some.inj here)]
      have equal : m = .nil ∨ (if shut a then 0 else s.seen shut) = s.size := by
        cases m with
        | nil => exact .inl rfl
        | node b s' m' =>
          right
          have here := right (s.size + 1) (by rw [Forest.size_node, Forest.size_node]; omega)
          rw [viewedAt, Forest.viewLine, if_neg (Nat.lt_irrefl _), Nat.sub_self,
            Forest.viewLine] at here
          by_cases leaf : s.size = 0
          · rw [Forest.eq_nil_of_size leaf]
            exact ite_self 0
          rw [if_neg leaf] at here
          by_cases hid : shut a
          · rw [if_pos hid, if_pos (Nat.le_refl _), if_pos hid] at here
            exact absurd (Option.some.inj here) (by omega)
          rw [if_neg hid, if_neg hid] at here
          rw [if_neg hid]
          apply whole_of_viewedAt_size (inner (by simpa using hid))
          cases found : viewedAt shut s s.size with
          | none => rfl
          | some k =>
            rw [found] at here
            have short := viewedAt_lt found
            have same := Option.some.inj here
            omega
      refine ⟨inner, equal, ?_⟩
      apply m_ih.mp
      intro i below
      have whole : (if shut a then 0 else s.seen shut) = s.size := by
        rcases equal with rfl | whole
        · exact absurd below (Nat.not_lt_zero i)
        · exact whole
      have here := right (s.size + i + 1) (by rw [Forest.size_node]; omega)
      obtain ⟨k, found⟩ := viewedAt_inside shut below
      rw [viewedAt_behind whole, viewLine_behind whole, found] at here
      rw [found, Nat.add_left_cancel (Option.some.inj here)]
    · rintro ⟨inner, equal, rest⟩ i inside
      rw [Forest.size_node] at inside
      cases i with
      | zero => rfl
      | succ i =>
        by_cases below : i < s.size
        · rw [viewedAt, if_neg (by omega), Forest.viewLine, if_pos below]
          cases hid : shut a with
          | true => rw [if_pos rfl, if_pos (Nat.le_of_lt below), if_pos rfl]
          | false =>
            rw [if_neg Bool.false_ne_true, s_ih.mpr (inner hid) i below,
              if_neg Bool.false_ne_true]
        · have whole : (if shut a then 0 else s.seen shut) = s.size := by
            rcases equal with rfl | whole
            · rw [Forest.size_nil] at inside
              omega
            · exact whole
          obtain ⟨j, rfl⟩ := Nat.exists_eq_add_of_le (Nat.le_of_not_lt below)
          rw [viewedAt_behind whole, viewLine_behind whole, m_ih.mpr rest j (by omega)]
          rfl

/-! ### Both indices -/

/-- The table has the items of a forest, with right counters, caches and stations. -/
structure Indexed (t : TreeTable) (f : Forest Ptr) : Prop where
  shape : Shape t f
  viewed : t.numViewed = f.seen t.hidden
  lines : Lines t f

/-- Both indices are right. -/
structure IndicesRight (t : TreeTable) (f : Forest Ptr) : Prop where
  /-- The `v`-th item that is seen is on the line that is found. -/
  real : ∀ (v : Nat) (p : Ptr), (f.visible t.hidden)[v]? = some p →
    ∃ i : Nat, f.walk[i]? = some p ∧ t.TreeTableRealyIndex v = .ok i
  /-- For an item the line is found on which it is seen, or the outermost item above it with a
  hidden sub tree. -/
  viewed : ∀ (c : Hole Ptr) (p : Ptr) (s m : Forest Ptr), f = c.fill (.node p s m) →
    ∃ k : Nat, (f.visible t.hidden)[k]? = some ((c.cover t.hidden).getD p) ∧
      t.TreeTableViewedIndex c.before.length = .ok k
  back : ∀ v : Nat, v < t.numViewed →
    ∃ i, t.TreeTableRealyIndex v = .ok i ∧ t.TreeTableViewedIndex i = .ok v
  mono : ∀ (i j : Nat) (k l : Int), i ≤ j → j < t.numItems → t.TreeTableViewedIndex i = .ok k →
    t.TreeTableViewedIndex j = .ok l → k ≤ l

namespace Indexed

variable {c : Hole Ptr} {v : Nat}

theorem visible_nodup (h : Indexed t f) : (f.visible t.hidden).Nodup :=
  (f.visible_sublist t.hidden).nodup h.shape.nodup

/-- Nothing is hidden. -/
theorem whole (h : Indexed t f) (all_seen : t.numViewed = t.numItems) :
    f.seen t.hidden = f.size := by
  rw [h.viewed, h.shape.numItems] at all_seen
  exact Int.natCast_inj.mp all_seen

/-- If everything is seen, the numberings are the same. -/
theorem realLine_whole (h : Indexed t f) (whole : f.seen t.hidden = f.size)
    (inside : v < f.seen t.hidden) : f.realLine t.hidden v = v := by
  have found := Forest.getElem?_realLine inside
  rw [Forest.visible_eq_walk whole] at found
  have short : v < f.walk.length := by rwa [f.length_walk, ← whole]
  exact ((List.getElem?_inj short h.shape.nodup).mp found.symm).symm

theorem viewLine_whole (h : Indexed t f) (whole : f.seen t.hidden = f.size) {i : Nat}
    (inside : i < f.size) : f.viewLine t.hidden i = i := by
  have seen : i < f.seen t.hidden := by rwa [whole]
  have back := Forest.viewLine_realLine seen
  rwa [h.realLine_whole whole seen] at back

/-- If the last station before a line is the first item, so is the last one before an earlier
line. -/
theorem station_first (h : Indexed t f) (first : ∀ st, t.FIND_IN_PATHFINDER pos = some st →
    st.itemPos = 0) (le : index ≤ pos) {st : PathFinder_t}
    (station : t.FIND_IN_PATHFINDER index = some st) : st.itemPos = 0 := by
  obtain ⟨mem, before⟩ := mem_of_FIND_IN_PATHFINDER station
  have nonneg := (h.lines.stations st mem).1.1
  have inner : (t.pathFinder.getD []).filter (fun pf => pf.itemPos < index) =
      ((t.pathFinder.getD []).filter fun pf => pf.itemPos < pos).filter
        fun pf => pf.itemPos < index := by
    rw [List.filter_filter]
    apply List.filter_congr
    intro pf _
    by_cases early : pf.itemPos < index
    · simp [early, Int.lt_of_lt_of_le early le]
    · simp [early]
  have mem' : st ∈ (t.pathFinder.getD []).filter fun pf => pf.itemPos < pos :=
    List.mem_filter.mpr ⟨mem, decide_eq_true (Int.lt_of_lt_of_le before le)⟩
  obtain ⟨init, last, split⟩ := List.eq_nil_or_concat _ |>.resolve_left (List.ne_nil_of_mem mem')
  have zero : last.itemPos = 0 := by
    apply first
    rw [FIND_IN_PATHFINDER, split, List.concat_eq_append, List.getLast?_concat]
  have kept : decide (last.itemPos < index) = true := by
    apply decide_eq_true
    omega
  have one : [last].filter (fun pf => decide (pf.itemPos < index)) = [last] :=
    List.filter_cons_of_pos kept
  rw [FIND_IN_PATHFINDER, inner, split, List.concat_eq_append, List.filter_append, one,
    List.getLast?_concat] at station
  rw [← Option.some.inj station, zero]

/-- The first search, where it does not start at a station. -/
theorem realyIndex_eq (h : Indexed t f) (hidden : t.numViewed ≠ t.numItems)
    (first : ∀ st, t.FIND_IN_PATHFINDER v = some st → st.itemPos = 0) (inside : v < f.seen t.hidden) :
    t.TreeTableRealyIndex v = .ok (f.realLine t.hidden v : Nat) := by
  have started : (match t.FIND_IN_PATHFINDER v with
      | some pf => some pf.itemPtr
      | none => t.itemPtr) = t.itemPtr := by
    cases station : t.FIND_IN_PATHFINDER v with
    | none => rfl
    | some st =>
      have here := (h.lines.stations st (mem_of_FIND_IN_PATHFINDER station).1).1
      rw [first st station] at here
      cases f with
      | nil => exact nomatch here.2
      | node p s m =>
        have head : p = st.itemPtr := Option.some.inj here.2
        change some st.itemPtr = t.itemPtr
        rw [← head]
        exact h.shape.linked.1.symm
  have search : t.TreeTableRealyIndex_x v t.fuel t.itemPtr 0 0 =
      .ok (realResult t.hidden f v 0 0) := RealyIndex_x_eq h.shape.linked
    (fun q mem => h.shape.isSome mem) h.shape.counted (Nat.le_of_lt h.shape.size_lt_fuel)
    (Int.natCast_nonneg v) (Int.le_refl 0)
  have found : realResult t.hidden f v 0 0 = (-1, (v : Int), (f.realLine t.hidden v : Int)) := by
    have inside' : (v : Int) - 0 < f.seen t.hidden := by omega
    rw [realResult, if_pos inside', Int.sub_zero, Int.toNat_natCast, Int.zero_add]
  rw [found] at search
  rw [TreeTableRealyIndex, if_neg hidden]
  dsimp only
  rw [started, search]
  rfl

/-- The first search finds nothing for the last line that is seen, if it starts at a station. -/
theorem realyIndex_of_station (h : Indexed t f) (hidden : t.numViewed ≠ t.numItems)
    {st : PathFinder_t} (station : t.FIND_IN_PATHFINDER v = some st) (behind : st.itemPos ≠ 0)
    (last : v + 1 = f.seen t.hidden) : t.TreeTableRealyIndex v = .ok (-1) := by
  obtain ⟨here, top⟩ := h.lines.stations st (mem_of_FIND_IN_PATHFINDER station).1
  obtain ⟨c, s, m, rfl, up⟩ := Hole.exists_hole_tops top
  have line : st.itemPos = c.before.length :=
    here.unique (at_before c st.itemPtr s m) h.shape.nodup
  have some_before : 1 ≤ (c.fill .nil).seen t.hidden := by
    have size : (c.fill .nil).size ≠ 0 := by
      rw [Hole.size_fill, Hole.rest, List.length_append]
      omega
    cases whole : c.fill .nil with
    | nil =>
      rw [whole] at size
      exact absurd rfl size
    | node a s' m' =>
      rw [seen_node]
      omega
  have split : ((c.fill (.node st.itemPtr s m)).seen t.hidden : Int) = _ :=
    Hole.seen_fill c .nil (.node st.itemPtr s m)
  rw [up, List.any_nil, if_neg Bool.false_ne_true, seen_nil] at split
  obtain ⟨-, inside⟩ := h.shape.around
  have ptr : t.links.get c.cell = some st.itemPtr := inside.1
  rw [ptr] at inside
  have size := h.shape.size_lt_fuel
  rw [Hole.size_fill] at size
  have search : t.TreeTableRealyIndex_x v t.fuel (some st.itemPtr) 0 0 =
      .ok (realResult t.hidden (.node st.itemPtr s m) v 0 0) := RealyIndex_x_eq inside
    (fun q mem => h.shape.isSome ((c.walk_sublist_fill _).subset mem))
    (Hole.counted_fill.mp h.shape.counted).2 (by omega) (Int.natCast_nonneg v) (Int.le_refl 0)
  have outside : ¬ (v : Int) - 0 < ((Forest.node st.itemPtr s m).seen t.hidden : Int) := by
    omega
  rw [realResult, if_neg outside] at search
  rw [TreeTableRealyIndex, if_neg hidden]
  dsimp only
  rw [station]
  dsimp only
  rw [search, Fuel.ok_bind]
  dsimp only
  rw [if_neg (by omega)]
  rfl

/-- The second search. -/
theorem viewedIndex_eq (h : Indexed t f) (hidden : t.numViewed ≠ t.numItems) {i k : Nat}
    (found : viewedAt t.hidden f i = some k) : t.TreeTableViewedIndex i = .ok k := by
  obtain ⟨result, ran, is⟩ : ∃ result, t.TreeTableViewedIndex_x i t.fuel t.itemPtr 0 0 =
      .ok result ∧ viewedResult t.hidden f i 0 0 result := ViewedIndex_x_eq h.shape.linked
    (fun q mem => h.shape.isSome mem) h.shape.counted (Nat.le_of_lt h.shape.size_lt_fuel)
    (Int.natCast_nonneg i) (Int.le_refl 0)
  rw [viewedResult, Int.sub_zero, Int.toNat_natCast, found] at is
  rw [TreeTableViewedIndex, if_neg hidden, ran, Fuel.ok_bind]
  dsimp only
  rw [is.1, is.2, Int.zero_add]
  rfl

/-- What stands for an item is seen on its view line. -/
theorem visible_viewLine (c : Hole Ptr) (p : Ptr) (s m : Forest Ptr) (shut : Ptr → Bool) :
    ((c.fill (.node p s m)).visible shut)[(c.fill (.node p s m)).viewLine shut c.before.length]? =
      some ((c.cover shut).getD p) := by
  have inside : c.before.length < (c.fill (.node p s m)).size := by
    rw [Hole.size_fill, Hole.rest, List.length_append, Forest.size_node]
    omega
  rw [Forest.getElem?_viewLine inside, c.getElem?_standIns]

/-- If the searches find the lines, both indices are right. -/
theorem right_of_lines (h : Indexed t f)
    (real : ∀ v : Nat, v < f.seen t.hidden →
      t.TreeTableRealyIndex v = .ok (f.realLine t.hidden v : Nat))
    (viewed : ∀ i : Nat, i < f.size →
      t.TreeTableViewedIndex i = .ok (f.viewLine t.hidden i : Nat)) : IndicesRight t f := by
  refine ⟨?_, ?_, ?_, ?_⟩
  · intro v p here
    have inside := (List.getElem?_eq_some_iff.mp here).1
    exact ⟨f.realLine t.hidden v, (Forest.getElem?_realLine inside).trans here, real v inside⟩
  · rintro c p s m rfl
    refine ⟨_, visible_viewLine c p s m t.hidden, viewed _ ?_⟩
    rw [Hole.size_fill, Hole.rest, List.length_append, Forest.size_node]
    omega
  · intro v inside
    rw [h.viewed] at inside
    have inside' : v < f.seen t.hidden := by omega
    refine ⟨_, real v inside', ?_⟩
    rw [viewed _ (Forest.realLine_lt inside'), Forest.viewLine_realLine inside']
  · intro i j k l le inside at_i at_j
    rw [h.shape.numItems] at inside
    have inside' : j < f.size := by omega
    rw [viewed i (by omega)] at at_i
    rw [viewed j inside'] at at_j
    have mono : f.viewLine t.hidden i ≤ f.viewLine t.hidden j := Forest.viewLine_mono le inside'
    have left := Except.ok.inj at_i
    have right := Except.ok.inj at_j
    omega

/-- If the second index is right, the second search finds the lines. -/
theorem viewLine_of_right (h : Indexed t f) (right : IndicesRight t f) {i : Nat}
    (inside : i < f.size) : t.TreeTableViewedIndex i = .ok (f.viewLine t.hidden i : Nat) := by
  rw [← f.length_walk] at inside
  obtain ⟨p, here⟩ : ∃ p, f.walk[i]? = some p := ⟨_, List.getElem?_eq_getElem inside⟩
  obtain ⟨c, s, m, eq, length⟩ := Hole.exists_fill .top here
  have eq' : f = c.fill (.node p s m) := eq.symm
  have line : c.before.length = i := by
    rw [length]
    exact Nat.zero_add i
  obtain ⟨k, seen, found⟩ := right.viewed c p s m eq'
  have also := visible_viewLine c p s m t.hidden
  rw [← eq', line] at also
  have short := (List.getElem?_eq_some_iff.mp also).1
  have same := (List.getElem?_inj short h.visible_nodup).mp (also.trans seen.symm)
  rw [line] at found
  rw [found, same]

end Indexed

/-- Both indices are right if and only if no station stands before the last line that is seen,
unless nothing is hidden, and the items that are seen are the first ones of the table. -/
theorem indices_right_iff (h : Indexed t f) :
    IndicesRight t f ↔
      (t.numViewed = t.numItems ∨
        ∀ st, t.FIND_IN_PATHFINDER (t.numViewed - 1) = some st → st.itemPos = 0) ∧
      f.visible t.hidden <+: f.walk := by
  rw [Forest.visible_prefix_iff h.shape.nodup, ← viewedAt_right_iff]
  by_cases hidden : t.numViewed = t.numItems
  · have whole := h.whole hidden
    constructor
    · intro _
      refine ⟨.inl hidden, ?_⟩
      apply viewedAt_right_iff.mpr
      apply (Forest.visible_prefix_iff h.shape.nodup).mp
      rw [Forest.visible_eq_walk whole]
    · intro _
      apply h.right_of_lines
      · intro v inside
        rw [TreeTableRealyIndex, if_pos hidden, h.realLine_whole whole inside]
      · intro i inside
        rw [TreeTableViewedIndex, if_pos hidden, h.viewLine_whole whole inside]
  · constructor
    · intro right
      refine ⟨.inr ?_, ?_⟩
      · intro st station
        by_contra behind
        have here := (h.lines.stations st (mem_of_FIND_IN_PATHFINDER station).1).1
        obtain ⟨v, last⟩ : ∃ v, v + 1 = f.seen t.hidden := by
          cases f with
          | nil => exact nomatch here.2
          | node p s m =>
            refine ⟨(Forest.node p s m).seen t.hidden - 1, ?_⟩
            rw [seen_node]
            omega
        have index : t.numViewed - 1 = v := by
          rw [h.viewed]
          omega
        rw [index] at station
        obtain ⟨i, -, found⟩ := right.real v _ (List.getElem?_eq_getElem (by
          rw [← Forest.seen, ← last]
          exact Nat.lt_succ_self v))
        rw [h.realyIndex_of_station hidden station behind last] at found
        have := Except.ok.inj found
        omega
      · intro i inside
        obtain ⟨k, found⟩ := viewedAt_inside t.hidden inside
        have ran := h.viewedIndex_eq hidden found
        rw [h.viewLine_of_right right inside] at ran
        rw [found, Int.natCast_inj.mp (Except.ok.inj ran)]
    · rintro ⟨stations, viewed⟩
      have first := stations.resolve_left hidden
      apply h.right_of_lines
      · intro v inside
        apply h.realyIndex_eq hidden _ inside
        intro st station
        have before : (v : Int) ≤ t.numViewed - 1 := by
          rw [h.viewed]
          omega
        exact h.station_first first before station
      · intro i inside
        exact h.viewedIndex_eq hidden (viewed i inside)

section Step

variable {qqsort : (Ptr → Ptr → Int) → List Ptr → List Ptr}
  (perm : ∀ compar l, (qqsort compar l).Perm l) {commands : List Command}
  {accelerator sortedInsertion sortNoCase : Bool} {sortColumn : Int}
include perm

/-- Runs that keep the counters and the entries right reach such tables. -/
theorem indexed_of_run
    (run : Run (Guarded (fun t command => t.Careful command ∧ t.Tracked command)
      fun t command t' => t.step qqsort command = .ok t')
      (create accelerator sortedInsertion sortColumn sortNoCase) commands t) :
    ∃ f, Indexed t f := by
  have tallied : Tallied t := by
    refine run.invariant ?_ (tallied_create accelerator sortedInsertion sortColumn sortNoCase)
    rintro t command t' tallied ⟨⟨careful, -⟩, stepped⟩
    exact tallied.step perm careful stepped
  have traced : Traced t := by
    refine run.invariant ?_ (traced_create accelerator sortedInsertion sortColumn sortNoCase)
    rintro t command t' traced ⟨⟨-, tracked⟩, stepped⟩
    exact traced.step perm tracked stepped
  obtain ⟨f, shape, viewed⟩ := tallied
  obtain ⟨f', shape', lines⟩ := traced
  obtain rfl := shape.linked.unique shape'.linked
  exact ⟨f, shape, viewed, lines⟩

end Step

/-! ### Two runs -/

/-- A table whose last item is closed. -/
def closedLastCommands : List Command :=
  [.insert 0 (newItem 0 (-1) (ascii "a")), .insert 1 (newItem 1 (-1) (ascii "b")),
    .insert 2 (newItem 2 1 (ascii "c")), .display 0 10, .toggle 1 none true]

/-- An item behind a closed one. -/
def behindClosedCommands : List Command :=
  [.insert 0 (newItem 0 (-1) (ascii "a")), .insert 1 (newItem 1 0 (ascii "b")),
    .insert 2 (newItem 2 (-1) (ascii "c")), .toggle 0 none true]

theorem play_closedLast :
    ((Run.play (fun t command => t.Careful command && t.Tracked command)
      (fun t command => t.step insertionSort command)
      (create true false (-1) false) closedLastCommands).map fun t => t.numViewed) = some 2 := by
  decide +kernel

theorem play_behindClosed :
    ((Run.play (fun _ _ => true) (fun t command => t.step insertionSort command)
      (create false false (-1) false) behindClosedCommands).map fun t =>
        (t.numViewed, (t.TreeTableRealyIndex 1).toOption, (t.TreeTableViewedIndex 2).toOption)) =
      some (2, some 2, some 0) := by
  decide +kernel

theorem indices_right_closed_last :
    ∃ t f, Run.play (fun t command => t.Careful command && t.Tracked command)
      (fun t command => t.step insertionSort command)
      (create true false (-1) false) closedLastCommands = some t ∧
        (IndicesRight t f ↔
          (t.numViewed = t.numItems ∨
            ∀ st, t.FIND_IN_PATHFINDER (t.numViewed - 1) = some st → st.itemPos = 0) ∧
          f.visible t.hidden <+: f.walk) := by
  obtain ⟨t, played, -⟩ := Option.map_eq_some_iff.mp play_closedLast
  have run := Run.of_play played
  obtain ⟨f, indexed⟩ := indexed_of_run perm_insertionSort (run.mono fun t command t' h =>
    ⟨by simpa using h.1, h.2⟩)
  exact ⟨t, f, played, indices_right_iff indexed⟩

theorem ok_of_toOption {β : Type} {e : Except Fault β} {b : β} (h : e.toOption = some b) :
    e = .ok b := by
  cases e with
  | error fault => cases h
  | ok b' => exact congrArg Except.ok (Option.some.inj h)

/-- The item behind the closed one is on the second line that is seen, and is said to be on the
first. -/
theorem behind_hidden_sub_tree :
    ∃ t, Run (fun t command t' => t.step insertionSort command = .ok t')
      (create false false (-1) false) behindClosedCommands t ∧
        t.TreeTableRealyIndex 1 = .ok 2 ∧ t.TreeTableViewedIndex 2 = .ok 0 ∧
          ∀ f, ¬ IndicesRight t f := by
  obtain ⟨t, played, found⟩ := Option.map_eq_some_iff.mp play_behindClosed
  simp only [Prod.mk.injEq] at found
  obtain ⟨viewed, real, back⟩ := found
  have real' : t.TreeTableRealyIndex 1 = .ok 2 := ok_of_toOption real
  have back' : t.TreeTableViewedIndex 2 = .ok 0 := ok_of_toOption back
  refine ⟨t, (Run.of_play played).mono fun _ _ _ h => h.2, real', back', ?_⟩
  intro f right
  obtain ⟨i, first, second⟩ := right.back 1 (by rw [viewed]; decide)
  have line : (2 : Int) = i := Except.ok.inj (real'.symm.trans first)
  rw [← line] at second
  exact absurd (Except.ok.inj (back'.symm.trans second)) (by decide)

end TreeTable

end SourceNavigator.Hyper

import Mathlib.Data.List.Basic
import SourceNavigator.Lib.ForestCount

/-!
The nodes of a forest that are seen, and their positions.

With some nodes shut there are two numberings: the position of a node in
preorder, and its position among the nodes that are seen.

* `realLine` leads from the second to the first (`getElem?_realLine`).
* `viewLine` leads back (`getElem?_viewLine`). What stands for a node that is not
  seen is the outermost shut node above it (`standIns`).
* `ShutLast`: nothing is seen behind a node that is not seen; then the numberings
  agree as far as nodes are seen (`visible_prefix_iff`).
-/

namespace Lib

universe u

variable {α : Type u}

namespace Forest

/-- The position in preorder of the `v`-th node that is seen. -/
def realLine (shut : α → Bool) : Forest α → Nat → Nat
  | nil, _ => 0
  | node _ _ _, 0 => 0
  | node a s n, v + 1 =>
    let k := if shut a then 0 else s.seen shut
    if v < k then 1 + s.realLine shut v else 1 + s.size + n.realLine shut (v - k)

/-- What stands for each node, in preorder: the outermost shut node above it, or the node. -/
def standIns (shut : α → Bool) : Forest α → List α
  | nil => []
  | node a s n =>
    a :: ((if shut a then List.replicate s.size a else s.standIns shut) ++ n.standIns shut)

/-- The position of what stands for the `i`-th node, among the nodes that are seen. -/
def viewLine (shut : α → Bool) : Forest α → Nat → Nat
  | nil, _ => 0
  | node _ _ _, 0 => 0
  | node a s n, i + 1 =>
    if i < s.size then if shut a then 0 else 1 + s.viewLine shut i
    else 1 + (if shut a then 0 else s.seen shut) + n.viewLine shut (i - s.size)

/-- The nodes that are seen, with their positions in preorder counted from `i`. -/
def lined (shut : α → Bool) : Forest α → Int → List (α × Int)
  | nil, _ => []
  | node a s n, i =>
    (a, i) :: ((if shut a then [] else s.lined shut (i + 1)) ++ n.lined shut (i + 1 + s.size))

/-- No node is seen behind one that is not seen. -/
def ShutLast (shut : α → Bool) : Forest α → Prop
  | nil => True
  | node a s n =>
    (shut a = false → s.ShutLast shut) ∧
      (n = nil ∨ (if shut a then 0 else s.seen shut) = s.size) ∧ n.ShutLast shut

variable {shut : α → Bool} {f s n : Forest α} {a : α} {i j v : Nat}

theorem eq_nil_of_size (empty : f.size = 0) : f = .nil := by
  cases f with
  | nil => rfl
  | node a s m =>
    rw [size_node] at empty
    omega

theorem Linked.isSome_iff {L : Links α} {owner ptr : Option α} (linked : f.Linked L owner ptr) :
    ptr.isSome ↔ f ≠ .nil := by
  cases f with
  | nil =>
    obtain rfl : ptr = none := linked
    simp
  | node a s m =>
    obtain ⟨rfl, -⟩ := linked
    simp

theorem seen_le_size (shut : α → Bool) (f : Forest α) : f.seen shut ≤ f.size := by
  have short := (f.visible_sublist shut).length_le
  rwa [f.length_walk] at short

/-- What is seen of a sub forest. -/
theorem length_seen (shut : α → Bool) (a : α) (s : Forest α) :
    (if shut a then [] else s.visible shut).length = if shut a then 0 else s.seen shut := by
  cases shut a <;> rfl

theorem getElem?_realLine (inside : v < f.seen shut) :
    f.walk[f.realLine shut v]? = (f.visible shut)[v]? := by
  induction f generalizing v with
  | nil => exact absurd inside (Nat.not_lt_zero v)
  | node a s n s_ih n_ih =>
    cases v with
    | zero => rfl
    | succ v =>
      have within : v < (if shut a then 0 else s.seen shut) + n.seen shut := by
        rw [seen_node] at inside
        omega
      have length := length_seen shut a s
      rw [realLine, visible, walk, List.getElem?_cons_succ]
      by_cases below : v < if shut a then 0 else s.seen shut
      · cases open_ : shut a with
        | true => simp [open_] at below
        | false =>
          rw [open_, if_neg Bool.false_ne_true] at below
          have left := s_ih below
          have s_inside : s.realLine shut v < s.walk.length := by
            rw [List.getElem?_eq_getElem below] at left
            exact (List.getElem?_eq_some_iff.mp left).1
          rw [if_neg Bool.false_ne_true, if_neg Bool.false_ne_true, if_pos below,
            Nat.add_comm 1, List.getElem?_cons_succ, List.getElem?_append_left s_inside, left,
            List.getElem?_append_left below]
      · have rest := n_ih (v := v - if shut a then 0 else s.seen shut) (by omega)
        have shift : 1 + s.size + n.realLine shut (v - if shut a then 0 else s.seen shut) =
            s.walk.length + n.realLine shut (v - if shut a then 0 else s.seen shut) + 1 := by
          rw [s.length_walk]
          omega
        rw [if_neg below, shift, List.getElem?_cons_succ,
          List.getElem?_append_right (Nat.le_add_right _ _), Nat.add_sub_cancel_left, rest,
          List.getElem?_append_right (by rw [length]; exact Nat.le_of_not_lt below), length]

theorem length_standIns (shut : α → Bool) (f : Forest α) : (f.standIns shut).length = f.size := by
  induction f with
  | nil => rfl
  | node a s n s_ih n_ih =>
    rw [standIns, List.length_cons, List.length_append, n_ih, size_node]
    cases shut a
    · rw [if_neg Bool.false_ne_true, s_ih]
      omega
    · rw [if_pos rfl, List.length_replicate]
      omega

theorem viewLine_lt (inside : i < f.size) : f.viewLine shut i < f.seen shut := by
  induction f generalizing i with
  | nil => exact absurd inside (Nat.not_lt_zero i)
  | node a s n s_ih n_ih =>
    rw [size_node] at inside
    rw [seen_node]
    cases i with
    | zero =>
      rw [viewLine]
      omega
    | succ i =>
      rw [viewLine]
      by_cases below : i < s.size
      · have under := s_ih below
        rw [if_pos below]
        cases shut a
        · simp only [Bool.false_eq_true, if_false]
          omega
        · simp only [if_true]
          omega
      · have rest := n_ih (i := i - s.size) (by omega)
        rw [if_neg below]
        omega

theorem getElem?_viewLine (inside : i < f.size) :
    (f.visible shut)[f.viewLine shut i]? = (f.standIns shut)[i]? := by
  induction f generalizing i with
  | nil => exact absurd inside (Nat.not_lt_zero i)
  | node a s n s_ih n_ih =>
    rw [size_node] at inside
    cases i with
    | zero => rfl
    | succ i =>
      have length := length_seen shut a s
      rw [viewLine, visible, standIns, List.getElem?_cons_succ]
      by_cases below : i < s.size
      · rw [if_pos below]
        cases shut a with
        | true =>
          have replicated : i < (List.replicate s.size a).length := by
            rwa [List.length_replicate]
          rw [if_pos rfl, if_pos rfl, if_pos rfl, List.getElem?_append_left replicated,
            List.getElem?_replicate_of_lt below]
          rfl
        | false =>
          have under : s.viewLine shut i < (s.visible shut).length := viewLine_lt below
          have stand : i < (s.standIns shut).length := by rwa [length_standIns]
          rw [if_neg Bool.false_ne_true, if_neg Bool.false_ne_true,
            if_neg Bool.false_ne_true, Nat.add_comm 1, List.getElem?_cons_succ,
            List.getElem?_append_left under, List.getElem?_append_left stand, s_ih below]
      · have rest := n_ih (i := i - s.size) (by omega)
        have stand : (if shut a then List.replicate s.size a else s.standIns shut).length =
            s.size := by
          cases shut a
          · exact length_standIns shut s
          · exact List.length_replicate
        have shift : 1 + (if shut a then 0 else s.seen shut) + n.viewLine shut (i - s.size) =
            (if shut a then 0 else s.seen shut) + n.viewLine shut (i - s.size) + 1 := by
          omega
        rw [if_neg below, shift, List.getElem?_cons_succ,
          List.getElem?_append_right (by rw [length]; exact Nat.le_add_right _ _), length,
          Nat.add_sub_cancel_left, rest,
          List.getElem?_append_right (by rw [stand]; exact Nat.le_of_not_lt below), stand]

theorem viewLine_mono (le : i ≤ j) (inside : j < f.size) :
    f.viewLine shut i ≤ f.viewLine shut j := by
  induction f generalizing i j with
  | nil => exact absurd inside (Nat.not_lt_zero j)
  | node a s n s_ih n_ih =>
    rw [size_node] at inside
    cases i with
    | zero => exact Nat.zero_le _
    | succ i =>
      cases j with
      | zero => exact absurd le (Nat.not_succ_le_zero i)
      | succ j =>
        rw [viewLine, viewLine]
        by_cases below : j < s.size
        · have under := s_ih (Nat.le_of_succ_le_succ le) below
          rw [if_pos below, if_pos (by omega)]
          split
          · exact Nat.le_refl 0
          · omega
        rw [if_neg below]
        by_cases before : i < s.size
        · have under : s.viewLine shut i < s.seen shut := viewLine_lt before
          rw [if_pos before]
          split
          · exact Nat.zero_le _
          · omega
        · have rest := n_ih (i := i - s.size) (j := j - s.size) (by omega) (by omega)
          rw [if_neg before]
          omega

theorem realLine_lt (inside : v < f.seen shut) : f.realLine shut v < f.size := by
  have found := getElem?_realLine inside
  rw [List.getElem?_eq_getElem inside] at found
  have short := (List.getElem?_eq_some_iff.mp found).1
  rwa [f.length_walk] at short

theorem viewLine_realLine (inside : v < f.seen shut) :
    f.viewLine shut (f.realLine shut v) = v := by
  induction f generalizing v with
  | nil => exact absurd inside (Nat.not_lt_zero v)
  | node a s n s_ih n_ih =>
    rw [seen_node] at inside
    cases v with
    | zero => rfl
    | succ v =>
      rw [realLine]
      by_cases below : v < if shut a then 0 else s.seen shut
      · rw [if_pos below]
        cases open_ : shut a with
        | true => simp [open_] at below
        | false =>
          rw [open_, if_neg Bool.false_ne_true] at below
          rw [Nat.add_comm 1, viewLine, if_pos (realLine_lt below), open_,
            if_neg Bool.false_ne_true, s_ih below, Nat.add_comm]
      · have rest := n_ih (v := v - if shut a then 0 else s.seen shut) (by omega)
        have shift : 1 + s.size + n.realLine shut (v - if shut a then 0 else s.seen shut) =
            s.size + n.realLine shut (v - if shut a then 0 else s.seen shut) + 1 := by
          omega
        rw [if_neg below, shift, viewLine, if_neg (by omega), Nat.add_sub_cancel_left, rest]
        omega

theorem map_fst_lined (shut : α → Bool) (f : Forest α) (i : Int) :
    (f.lined shut i).map Prod.fst = f.visible shut := by
  induction f generalizing i with
  | nil => rfl
  | node a s n s_ih n_ih =>
    rw [lined, visible, List.map_cons, List.map_append, n_ih]
    cases shut a
    · rw [if_neg Bool.false_ne_true, if_neg Bool.false_ne_true, s_ih]
    · rfl

theorem getElem?_of_mem_lined {i line : Int} (mem : (a, line) ∈ f.lined shut i) :
    i ≤ line ∧ f.walk[(line - i).toNat]? = some a := by
  induction f generalizing i with
  | nil => cases mem
  | node b s n s_ih n_ih =>
    rw [lined, List.mem_cons, List.mem_append] at mem
    rcases mem with here | below | behind
    · obtain ⟨rfl, rfl⟩ := Prod.mk.inj here
      rw [Int.sub_self]
      exact ⟨Int.le_refl _, rfl⟩
    · have inner : (a, line) ∈ s.lined shut (i + 1) := by
        split at below
        · cases below
        · exact below
      obtain ⟨le, here⟩ := s_ih inner
      have shift : (line - i).toNat = (line - (i + 1)).toNat + 1 := by omega
      have short := (List.getElem?_eq_some_iff.mp here).1
      rw [shift, walk, List.getElem?_cons_succ, List.getElem?_append_left short]
      exact ⟨by omega, here⟩
    · obtain ⟨le, here⟩ := n_ih behind
      have shift : (line - i).toNat = s.walk.length + (line - (i + 1 + s.size)).toNat + 1 := by
        rw [s.length_walk]
        omega
      rw [shift, walk, List.getElem?_cons_succ,
        List.getElem?_append_right (Nat.le_add_right _ _), Nat.add_sub_cancel_left]
      exact ⟨by omega, here⟩

theorem line_lt_of_mem_lined {i line : Int} (mem : (a, line) ∈ f.lined shut i) :
    line < i + f.size := by
  obtain ⟨le, here⟩ := getElem?_of_mem_lined mem
  have short := (List.getElem?_eq_some_iff.mp here).1
  rw [f.length_walk] at short
  omega

theorem lined_pairwise (shut : α → Bool) (f : Forest α) (i : Int) :
    (f.lined shut i).Pairwise fun e e' => e.2 < e'.2 := by
  induction f generalizing i with
  | nil => exact .nil
  | node a s n s_ih n_ih =>
    have below : ∀ e ∈ if shut a then [] else s.lined shut (i + 1),
        i + 1 ≤ e.2 ∧ e.2 < i + 1 + s.size := by
      intro e mem
      split at mem
      · cases mem
      · exact ⟨(getElem?_of_mem_lined mem).1, line_lt_of_mem_lined mem⟩
    have behind : ∀ e ∈ n.lined shut (i + 1 + s.size), i + 1 + s.size ≤ e.2 :=
      fun e mem => (getElem?_of_mem_lined mem).1
    rw [lined, List.pairwise_cons, List.pairwise_append]
    refine ⟨?_, ?_, n_ih _, ?_⟩
    · intro e mem
      dsimp only
      rcases List.mem_append.mp mem with inner | rest
      · have := below e inner
        omega
      · have := behind e rest
        omega
    · split
      · exact .nil
      · exact s_ih _
    · intro e inner e' rest
      have := below e inner
      have := behind e' rest
      omega

theorem eq_of_line {i : Int} {e e' : α × Int} (mem : e ∈ f.lined shut i) (mem' : e' ∈ f.lined shut i)
    (same : e.2 = e'.2) : e = e' := by
  have here := (getElem?_of_mem_lined mem).2
  have here' := (getElem?_of_mem_lined mem').2
  rw [same, here'] at here
  exact Prod.ext (Option.some.inj here).symm same

/-- The nodes that are seen are listed with their positions. -/
theorem mem_lined_iff (nodup : f.walk.Nodup) {line : Int} :
    (a, line) ∈ f.lined shut 0 ↔
      a ∈ f.visible shut ∧ 0 ≤ line ∧ f.walk[line.toNat]? = some a := by
  constructor
  · intro mem
    obtain ⟨nonneg, here⟩ := getElem?_of_mem_lined mem
    rw [Int.sub_zero] at here
    refine ⟨?_, nonneg, here⟩
    rw [← map_fst_lined shut f 0]
    exact List.mem_map.mpr ⟨(a, line), mem, rfl⟩
  · rintro ⟨seen, nonneg, here⟩
    rw [← map_fst_lined shut f 0] at seen
    obtain ⟨⟨b, line'⟩, mem, rfl⟩ := List.mem_map.mp seen
    obtain ⟨nonneg', here'⟩ := getElem?_of_mem_lined mem
    rw [Int.sub_zero] at here'
    have short := (List.getElem?_eq_some_iff.mp here).1
    have same := (List.getElem?_inj short nodup).mp (here.trans here'.symm)
    obtain rfl : line = line' := by omega
    exact mem

/-! ### Seen nodes in front -/

theorem eq_of_sublist_of_length {l l' : List α} (sub : l.Sublist l') (le : l'.length ≤ l.length) :
    l = l' :=
  sub.eq_of_length (Nat.le_antisymm sub.length_le le)

theorem visible_eq_walk (whole : f.seen shut = f.size) : f.visible shut = f.walk :=
  eq_of_sublist_of_length (f.visible_sublist shut) (by rw [f.length_walk, ← whole]; rfl)

/-- An element that a list does not have ends a common prefix. -/
theorem length_le_of_prefix {l l' k k' : List α} {b : α} (out : b ∉ l')
    (front : l ++ b :: k <+: l' ++ k') : l'.length ≤ l.length := by
  by_contra short
  obtain ⟨rest, eq⟩ := front
  have here : (l ++ b :: k ++ rest)[l.length]? = some b := by
    rw [List.append_assoc, List.getElem?_append_right (Nat.le_refl _), Nat.sub_self]
    rfl
  rw [eq, List.getElem?_append_left (Nat.not_le.mp short)] at here
  exact out (List.mem_of_getElem? here)

/-- The nodes that are seen are the first ones in preorder if nothing is seen behind a node that
is not. -/
theorem visible_prefix_iff (nodup : f.walk.Nodup) :
    f.visible shut <+: f.walk ↔ f.ShutLast shut := by
  induction f with
  | nil => exact iff_of_true List.prefix_rfl trivial
  | node a s n s_ih n_ih =>
    rw [walk, List.nodup_cons, List.nodup_append] at nodup
    obtain ⟨-, s_nodup, n_nodup, apart⟩ := nodup
    have length := length_seen shut a s
    have sub : (if shut a then [] else s.visible shut).Sublist s.walk := by
      split
      · exact List.nil_sublist _
      · exact s.visible_sublist shut
    rw [visible, walk, List.cons_prefix_cons]
    constructor
    · rintro ⟨-, front⟩
      have inner : (if shut a then [] else s.visible shut) <+: s.walk :=
        List.prefix_of_prefix_length_le ((List.prefix_append _ _).trans front)
          (List.prefix_append _ _) sub.length_le
      refine ⟨?_, ?_⟩
      · intro open_
        rw [open_, if_neg Bool.false_ne_true] at inner
        exact (s_ih s_nodup).mp inner
      cases n with
      | nil => exact ⟨.inl rfl, trivial⟩
      | node b s' n' =>
        have out : b ∉ s.walk := fun mem => apart b mem b List.mem_cons_self rfl
        have whole := length_le_of_prefix out front
        rw [length, s.length_walk] at whole
        have equal : (if shut a then 0 else s.seen shut) = s.size := by
          have short := sub.length_le
          rw [length, s.length_walk] at short
          exact Nat.le_antisymm short whole
        have same : (if shut a then [] else s.visible shut) = s.walk :=
          eq_of_sublist_of_length sub (by rw [length, s.length_walk, equal])
        rw [same] at front
        exact ⟨.inr equal, (n_ih n_nodup).mp (List.prefix_append_right_inj _ |>.mp front)⟩
    · rintro ⟨inner, last, rest⟩
      refine ⟨rfl, ?_⟩
      rcases last with rfl | equal
      · rw [visible, walk, List.append_nil, List.append_nil]
        cases open_ : shut a with
        | true => exact List.nil_prefix
        | false => exact (s_ih s_nodup).mpr (inner open_)
      · have same : (if shut a then [] else s.visible shut) = s.walk :=
          eq_of_sublist_of_length sub (by rw [length, s.length_walk, equal])
        rw [same]
        exact (List.prefix_append_right_inj _).mpr ((n_ih n_nodup).mpr rest)

end Forest

/-- A node of the first list is before a hole in it, or in the list at the hole. -/
theorem Hole.mem_tops_or {c : Hole α} {f : Forest α} {a : α} (up : c.ancestors = [])
    (top : a ∈ (c.fill f).tops) : a ∈ c.before ∨ a ∈ f.tops := by
  induction c generalizing f with
  | top => exact .inr top
  | under b n outer _ => cases up
  | behind b s outer ih =>
    rcases ih up top with earlier | here
    · exact .inl (List.mem_append_left _ earlier)
    · rcases List.mem_cons.mp here with rfl | rest
      · exact .inl (List.mem_append_right _ List.mem_cons_self)
      · exact .inr rest

/-- What is before a hole in the first list is listed first, on earlier positions. -/
theorem Hole.lined_fill {c : Hole α} (up : c.ancestors = []) (shut : α → Bool) (f : Forest α)
    (i : Int) :
    ∃ l : List (α × Int), (c.fill f).lined shut i = l ++ f.lined shut (i + c.before.length) ∧
      ∀ e ∈ l, e.2 < i + c.before.length := by
  induction c generalizing f with
  | top =>
    refine ⟨[], ?_, fun e mem => absurd mem List.not_mem_nil⟩
    rw [before, List.length_nil, Int.natCast_zero, Int.add_zero]
    rfl
  | under b n outer _ => cases up
  | behind b s outer ih =>
    obtain ⟨l, eq, early⟩ := ih up (.node b s f)
    have length : ((behind b s outer).before.length : Int) =
        outer.before.length + 1 + s.size := by
      rw [before, List.length_append, List.length_cons, s.length_walk]
      omega
    have shift : i + (outer.before.length + 1 + s.size : Int) =
        i + outer.before.length + 1 + s.size := by omega
    refine ⟨l ++ (b, i + outer.before.length) ::
      (if shut b then [] else s.lined shut (i + outer.before.length + 1)), ?_, ?_⟩
    · rw [fill, eq, Forest.lined, length, shift]
      simp only [List.append_assoc, List.cons_append]
    · intro e mem
      rw [length]
      rcases List.mem_append.mp mem with first | mem
      · have := early e first
        omega
      rcases List.mem_cons.mp mem with rfl | below
      · dsimp only
        omega
      · split at below
        · cases below
        · have inside : e.2 < _ := Forest.line_lt_of_mem_lined below
          omega

/-- The outermost shut node above a hole. -/
def Hole.cover (shut : α → Bool) (c : Hole α) : Option α := (c.ancestors.filter shut).getLast?

/-- Below a shut node the outermost one stands for every node; else the nodes stand for
themselves. -/
theorem Hole.standIns_fill (shut : α → Bool) (c : Hole α) (g : Forest α) :
    ∃ l l' : List α, l.length = c.before.length ∧
      (c.fill g).standIns shut =
        l ++ ((c.cover shut).elim (g.standIns shut) (List.replicate g.size) ++ l') := by
  induction c generalizing g with
  | top => exact ⟨[], [], rfl, by simp [fill, cover, ancestors]⟩
  | under a n outer ih =>
    obtain ⟨l, l', length, eq⟩ := ih (.node a g n)
    rw [fill, eq]
    cases above : outer.cover shut with
    | some b =>
      have cover : (under a n outer).cover shut = some b := by
        unfold Hole.cover at above ⊢
        rw [ancestors, List.filter_cons]
        split
        · rw [List.getLast?_cons, above]
          rfl
        · exact above
      refine ⟨l ++ [b], List.replicate n.size b ++ l', ?_, ?_⟩
      · rw [List.length_append, length, before, List.length_append]
        rfl
      · have split : List.replicate (Forest.node a g n).size b =
            [b] ++ (List.replicate g.size b ++ List.replicate n.size b) := by
          rw [Forest.size_node, Nat.add_assoc, List.replicate_add, List.replicate_add]
          rfl
        rw [cover, Option.elim_some, Option.elim_some, split]
        simp only [List.append_assoc]
    | none =>
      have none_above : outer.ancestors.filter shut = [] := List.getLast?_eq_none_iff.mp above
      have cover : (under a n outer).cover shut = if shut a then some a else none := by
        unfold Hole.cover
        rw [ancestors, List.filter_cons, none_above]
        split <;> rfl
      refine ⟨l ++ [a], n.standIns shut ++ l', ?_, ?_⟩
      · rw [List.length_append, length, before, List.length_append]
      · rw [cover, Option.elim_none, Forest.standIns]
        cases shut a
        · simp
        · simp
  | behind a s outer ih =>
    obtain ⟨l, l', length, eq⟩ := ih (.node a s g)
    have cover : (behind a s outer).cover shut = outer.cover shut := rfl
    rw [fill, eq, cover]
    cases outer.cover shut with
    | some b =>
      refine ⟨l ++ List.replicate (1 + s.size) b, l', ?_, ?_⟩
      · rw [List.length_append, length, before, List.length_append, List.length_replicate,
          List.length_cons, s.length_walk, Nat.add_comm 1]
      · rw [Option.elim_some, Option.elim_some, Forest.size_node, List.replicate_add]
        simp only [List.append_assoc]
    | none =>
      refine ⟨l ++ a :: (if shut a then List.replicate s.size a else s.standIns shut), l', ?_, ?_⟩
      · have inner : (if shut a then List.replicate s.size a else s.standIns shut).length =
            s.size := by
          cases shut a
          · exact Forest.length_standIns shut s
          · exact List.length_replicate
        rw [List.length_append, length, before, List.length_append, List.length_cons, inner,
          List.length_cons, s.length_walk]
      · rw [Option.elim_none, Option.elim_none, Forest.standIns]
        simp

/-- What stands for the node at a hole. -/
theorem Hole.getElem?_standIns (shut : α → Bool) (c : Hole α) (a : α) (s n : Forest α) :
    ((c.fill (.node a s n)).standIns shut)[c.before.length]? = some ((c.cover shut).getD a) := by
  obtain ⟨l, l', length, eq⟩ := c.standIns_fill shut (.node a s n)
  rw [eq, ← length, List.getElem?_append_right (Nat.le_refl _), Nat.sub_self]
  cases c.cover shut with
  | none => rfl
  | some b =>
    rw [Option.elim_some, Forest.size_node, Nat.add_assoc, Nat.add_comm 1, List.replicate_succ]
    rfl

end Lib

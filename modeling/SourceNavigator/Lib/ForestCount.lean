import Mathlib.Algebra.BigOperators.Group.List.Basic
import Mathlib.Algebra.Order.Group.Int
import Mathlib.Tactic.Ring
import SourceNavigator.Lib.Forest

/-!
Counters that are kept at the nodes of a forest.

Some nodes are shut: what is below them is not seen. `Forest.Counted` says that
every node holds the number of nodes below it and the number of those that are
seen from it.

* `counted_fill` splits it at a hole. Around the hole it depends on the two
  numbers of what is in the hole only.
* `Hole.Counted.climb` is the rule of an update: when the numbers in the hole
  change, the counters are right again after `Counts.climb` has added the
  differences to the nodes above, up to the first node that is shut.
-/

namespace Lib

universe u

variable {α : Type u}

/-- The counters at the nodes, and which nodes are shut. -/
structure Counts (α : Type u) where
  shut : α → Bool
  all : α → Int
  seen : α → Int

attribute [ext] Counts

namespace Forest

/-- The nodes that have no node above them that is shut. -/
def visible (shut : α → Bool) : Forest α → List α
  | nil => []
  | node a s n => a :: ((if shut a then [] else s.visible shut) ++ n.visible shut)

/-- The number of nodes that have no node above them that is shut. -/
def seen (shut : α → Bool) (f : Forest α) : Nat := (f.visible shut).length

/-- Every node holds the numbers of what is below it. -/
def Counted (N : Counts α) : Forest α → Prop
  | nil => True
  | node a s n =>
    N.all a = s.size ∧ N.seen a = (if N.shut a then 0 else (s.seen N.shut : Int)) ∧
      s.Counted N ∧ n.Counted N

end Forest

variable {shut : α → Bool} {N N' : Counts α} {c : Hole α} {f g s n : Forest α} {a : α}

@[simp]
theorem seen_nil : (Forest.nil : Forest α).seen shut = 0 := rfl

@[simp]
theorem seen_node :
    (Forest.node a s n).seen shut = 1 + (if shut a then 0 else s.seen shut) + n.seen shut := by
  unfold Forest.seen
  rw [Forest.visible, List.length_cons, List.length_append]
  cases shut a <;> simp <;> omega

theorem Forest.visible_sublist (shut : α → Bool) (f : Forest α) :
    (f.visible shut).Sublist f.walk := by
  induction f with
  | nil => exact .slnil
  | node a s n s_ih n_ih =>
    refine List.Sublist.cons_cons a (List.Sublist.append ?_ n_ih)
    split
    · exact List.nil_sublist _
    · exact s_ih

/-- What a node sees is what its children see, and the children. -/
theorem seen_eq_sum (h : f.Counted N) :
    (f.seen N.shut : Int) = (f.tops.map fun a => 1 + N.seen a).sum := by
  induction f with
  | nil => rfl
  | node a s n _ ih =>
    obtain ⟨-, here, -, next⟩ := h
    rw [Forest.tops, List.map_cons, List.sum_cons, ← ih next, here, seen_node]
    split <;> push_cast <;> ring

/-! ### Agreeing counters -/

def Counts.AgreeOn (N N' : Counts α) (nodes : List α) : Prop :=
  ∀ a ∈ nodes, N'.all a = N.all a ∧ N'.seen a = N.seen a

theorem Counts.AgreeOn.mono {nodes nodes' : List α} (h : N.AgreeOn N' nodes)
    (sub : ∀ a ∈ nodes', a ∈ nodes) : N.AgreeOn N' nodes' :=
  fun a mem => h a (sub a mem)

theorem Counts.AgreeOn.trans {N'' : Counts α} {nodes : List α} (h : N.AgreeOn N' nodes)
    (h' : N'.AgreeOn N'' nodes) : N.AgreeOn N'' nodes :=
  fun a mem => ⟨(h' a mem).1.trans (h a mem).1, (h' a mem).2.trans (h a mem).2⟩

theorem visible_congr {shut' : α → Bool} (same : ∀ a ∈ f.walk, shut' a = shut a) :
    f.visible shut' = f.visible shut := by
  induction f with
  | nil => rfl
  | node a s n s_ih n_ih =>
    rw [Forest.visible, Forest.visible, same a List.mem_cons_self,
      s_ih fun b mem => same b (Forest.mem_walk_node.mpr (.inr (.inl mem))),
      n_ih fun b mem => same b (Forest.mem_walk_node.mpr (.inr (.inr mem)))]

theorem seen_congr {shut' : α → Bool} (same : ∀ a ∈ f.walk, shut' a = shut a) :
    f.seen shut' = f.seen shut :=
  congrArg List.length (visible_congr same)

theorem Forest.Counted.congr (same : N.AgreeOn N' f.walk)
    (shut : ∀ a ∈ f.walk, N'.shut a = N.shut a) (h : f.Counted N) : f.Counted N' := by
  induction f with
  | nil => trivial
  | node a s n s_ih n_ih =>
    obtain ⟨all, seen, sub, next⟩ := h
    obtain ⟨all_eq, seen_eq⟩ := same a List.mem_cons_self
    have in_s (b : α) (mem : b ∈ s.walk) : b ∈ (node a s n).walk :=
      mem_walk_node.mpr (.inr (.inl mem))
    have in_n (b : α) (mem : b ∈ n.walk) : b ∈ (node a s n).walk :=
      mem_walk_node.mpr (.inr (.inr mem))
    have seen_same : s.seen N'.shut = s.seen N.shut :=
      seen_congr fun b mem => shut b (in_s b mem)
    refine ⟨all_eq.trans all, ?_, s_ih (same.mono in_s) (fun b mem => shut b (in_s b mem)) sub,
      n_ih (same.mono in_n) (fun b mem => shut b (in_n b mem)) next⟩
    rw [seen_eq, seen, shut a List.mem_cons_self, seen_same]

/-! ### Counters around a hole -/

namespace Hole

/-- The nodes around a hole hold the right numbers when `k` nodes are in the hole and `v` of them
are seen from there. -/
def Counted (N : Counts α) : Hole α → Int → Int → Prop
  | top, _, _ => True
  | under a n outer, k, v =>
    N.all a = k ∧ N.seen a = (if N.shut a then 0 else v) ∧ n.Counted N ∧
      outer.Counted N (1 + k + n.size) (1 + (if N.shut a then 0 else v) + n.seen N.shut)
  | behind a s outer, k, v =>
    N.all a = s.size ∧ N.seen a = (if N.shut a then 0 else (s.seen N.shut : Int)) ∧
      s.Counted N ∧
      outer.Counted N (1 + s.size + k)
        (1 + (if N.shut a then 0 else (s.seen N.shut : Int)) + v)

theorem counted_fill :
    (c.fill f).Counted N ↔ c.Counted N f.size (f.seen N.shut) ∧ f.Counted N := by
  induction c generalizing f with
  | top => exact (iff_of_eq (true_and _)).symm
  | under a n outer ih =>
    rw [fill, ih, seen_node, Forest.size]
    simp only [Counted, Forest.Counted]
    push_cast
    tauto
  | behind a s outer ih =>
    rw [fill, ih, seen_node, Forest.size]
    simp only [Counted, Forest.Counted]
    push_cast
    tauto

theorem Counted.congr {k v : Int} (same : N.AgreeOn N' c.rest)
    (shut : ∀ a ∈ c.rest, N'.shut a = N.shut a) (h : c.Counted N k v) : c.Counted N' k v := by
  induction c generalizing k v with
  | top => trivial
  | under a n outer ih =>
    obtain ⟨all, seen, next, out⟩ := h
    obtain ⟨all_eq, seen_eq⟩ := same a (mem_rest_under.mpr (.inl rfl))
    have in_n (b : α) (mem : b ∈ n.walk) : b ∈ (under a n outer).rest :=
      mem_rest_under.mpr (.inr (.inl mem))
    have in_outer (b : α) (mem : b ∈ outer.rest) : b ∈ (under a n outer).rest :=
      mem_rest_under.mpr (.inr (.inr mem))
    have shut_a := shut a (mem_rest_under.mpr (.inl rfl))
    have seen_same : n.seen N'.shut = n.seen N.shut :=
      seen_congr fun b mem => shut b (in_n b mem)
    refine ⟨all_eq.trans all, ?_, ?_, ?_⟩
    · rw [seen_eq, seen, shut_a]
    · exact next.congr (same.mono in_n) fun b mem => shut b (in_n b mem)
    · rw [shut_a, seen_same]
      exact ih (same.mono in_outer) (fun b mem => shut b (in_outer b mem)) out
  | behind a s outer ih =>
    obtain ⟨all, seen, sub, out⟩ := h
    obtain ⟨all_eq, seen_eq⟩ := same a (mem_rest_behind.mpr (.inl rfl))
    have in_s (b : α) (mem : b ∈ s.walk) : b ∈ (behind a s outer).rest :=
      mem_rest_behind.mpr (.inr (.inl mem))
    have in_outer (b : α) (mem : b ∈ outer.rest) : b ∈ (behind a s outer).rest :=
      mem_rest_behind.mpr (.inr (.inr mem))
    have shut_a := shut a (mem_rest_behind.mpr (.inl rfl))
    have seen_same : s.seen N'.shut = s.seen N.shut :=
      seen_congr fun b mem => shut b (in_s b mem)
    refine ⟨all_eq.trans all, ?_, ?_, ?_⟩
    · rw [seen_eq, seen, shut_a, seen_same]
    · exact sub.congr (same.mono in_s) fun b mem => shut b (in_s b mem)
    · rw [shut_a, seen_same]
      exact ih (same.mono in_outer) (fun b mem => shut b (in_outer b mem)) out

/-- A change in a hole that no shut node hides is seen from outside. -/
theorem seen_fill (c : Hole α) (f g : Forest α) :
    ((c.fill g).seen shut : Int) =
      (c.fill f).seen shut +
        if c.ancestors.any shut then 0 else (g.seen shut : Int) - f.seen shut := by
  induction c generalizing f g with
  | top => simp [fill, ancestors]
  | under a n outer ih =>
    rw [fill, fill, ih (.node a f n) (.node a g n), seen_node, seen_node, ancestors,
      List.any_cons]
    cases shut a <;> simp
  | behind a s outer ih =>
    rw [fill, fill, ih (.node a s f) (.node a s g), seen_node, seen_node, ancestors]
    push_cast
    split <;> ring

/-- A node is seen from outside when nothing above its hole is shut. -/
theorem mem_visible_fill (out : a ∉ c.rest) :
    a ∈ (c.fill f).visible shut ↔
      a ∈ f.visible shut ∧ ∀ b ∈ c.ancestors, shut b = false := by
  induction c generalizing f with
  | top => simp [fill, ancestors]
  | under b n outer ih =>
    rw [mem_rest_under, not_or, not_or] at out
    obtain ⟨ne, out_n, out_outer⟩ := out
    have hidden : a ∉ n.visible shut := fun mem => out_n ((n.visible_sublist shut).subset mem)
    rw [fill, ih (f := .node b f n) out_outer, Forest.visible, ancestors,
      List.forall_mem_cons, List.mem_cons, List.mem_append]
    cases shut b <;> simp [ne, hidden]
  | behind b s outer ih =>
    rw [mem_rest_behind, not_or, not_or] at out
    obtain ⟨ne, out_s, out_outer⟩ := out
    have hidden : a ∉ s.visible shut := fun mem => out_s ((s.visible_sublist shut).subset mem)
    rw [fill, ih (f := .node b s f) out_outer, Forest.visible, ancestors, List.mem_cons,
      List.mem_append]
    cases shut b <;> simp [ne, hidden]

end Hole

/-! ### Updating the counters above a hole -/

section Climb

variable [DecidableEq α] {k v k' v' : Int}

/-- `k` and `v` are added to the counters of a node. -/
def Counts.add (N : Counts α) (a : α) (k v : Int) : Counts α :=
  { N with
    all := Function.update N.all a (N.all a + k)
    seen := Function.update N.seen a (N.seen a + v) }

theorem Counts.agreeOn_add {nodes : List α} (out : a ∉ nodes) : N.AgreeOn (N.add a k v) nodes := by
  intro b mem
  have ne : b ≠ a := fun eq => out (eq ▸ mem)
  exact ⟨Function.update_of_ne ne _ _, Function.update_of_ne ne _ _⟩

/-- `k` and `v` are added to the counters of these nodes, `v` up to the first node that is shut. -/
def Counts.climb (k v : Int) : List α → Counts α → Counts α
  | [], N => N
  | a :: above, N =>
    let v := if N.shut a then 0 else v
    Counts.climb k v above (N.add a k v)

@[simp]
theorem Counts.shut_climb (above : List α) (N : Counts α) :
    (N.climb k v above).shut = N.shut := by
  induction above generalizing N v with
  | nil => rfl
  | cons a above ih =>
    rw [climb, ih]
    rfl

theorem Counts.agreeOn_climb {above nodes : List α} (apart : ∀ a ∈ above, a ∉ nodes) :
    N.AgreeOn (N.climb k v above) nodes := by
  induction above generalizing N v with
  | nil => exact fun a _ => ⟨rfl, rfl⟩
  | cons a above ih =>
    exact (agreeOn_add (apart a List.mem_cons_self)).trans
      (ih fun b later => apart b (List.mem_cons_of_mem a later))

/-- The rule of an update. -/
theorem Hole.Counted.climb (k' v' : Int) (nodup : c.rest.Nodup) (h : c.Counted N k v) :
    c.Counted (N.climb k' v' c.ancestors) (k + k') (v + v') := by
  have apart {c : Hole α} {nodes : List α} (out : ∀ b ∈ nodes, b ∉ c.rest) :
      ∀ b ∈ c.ancestors, b ∉ nodes :=
    fun b mem in_nodes => out b in_nodes (mem_rest_of_ancestors mem)
  induction c generalizing N k v v' with
  | top => trivial
  | under a n outer ih =>
    obtain ⟨all, seen, next, out⟩ := h
    obtain ⟨out_n, out_outer, n_outer, outer_nodup⟩ := nodup_rest_under nodup
    let w := if N.shut a then 0 else v'
    have later : (N.add a k' w).AgreeOn ((N.add a k' w).climb k' w outer.ancestors) [a] :=
      Counts.agreeOn_climb (apart (by simpa using out_outer))
    obtain ⟨all_eq, seen_eq⟩ := later a List.mem_cons_self
    have added : outer.Counted (N.add a k' w) _ _ := out.congr (Counts.agreeOn_add out_outer) fun b _ => rfl
    have around : outer.Counted ((N.add a k' w).climb k' w outer.ancestors) _ _ :=
      ih w outer_nodup added
    rw [ancestors, Counts.climb]
    refine ⟨?_, ?_, ?_, ?_⟩
    · rw [← all]
      exact all_eq.trans (Function.update_self a _ N.all)
    · refine (seen_eq.trans (Function.update_self a _ N.seen)).trans ?_
      rw [seen, Counts.shut_climb]
      change _ = if N.shut a then 0 else v + v'
      cases eq : N.shut a <;> simp [w, eq]
    · exact next.congr ((Counts.agreeOn_add out_n).trans (Counts.agreeOn_climb (apart n_outer)))
        fun b _ => congrFun (Counts.shut_climb outer.ancestors _) b
    · rw [Counts.shut_climb]
      change outer.Counted _ _ (1 + (if N.shut a then 0 else v + v') + n.seen N.shut)
      convert around using 1
      · ring
      · simp only [w]
        split <;> ring
  | behind a s outer ih =>
    obtain ⟨all, seen, sub, out⟩ := h
    obtain ⟨out_s, out_outer, s_outer, outer_nodup⟩ := nodup_rest_behind nodup
    have same : N.AgreeOn (N.climb k' v' outer.ancestors) [a] :=
      Counts.agreeOn_climb (apart (by simpa using out_outer))
    obtain ⟨all_eq, seen_eq⟩ := same a List.mem_cons_self
    refine ⟨all_eq.trans all, ?_, ?_, ?_⟩
    · rw [ancestors, seen_eq, seen, Counts.shut_climb]
    · exact sub.congr (Counts.agreeOn_climb (apart (c := outer) s_outer))
        fun b _ => congrFun (Counts.shut_climb outer.ancestors _) b
    · rw [ancestors, Counts.shut_climb]
      convert ih v' outer_nodup out using 1 <;> ring

theorem Counts.add_zero (N : Counts α) (a : α) : N.add a 0 0 = N := by
  rw [add, Int.add_zero, Int.add_zero, Function.update_eq_self, Function.update_eq_self]

theorem Counts.climb_zero (above : List α) (N : Counts α) : N.climb 0 0 above = N := by
  induction above generalizing N with
  | nil => rfl
  | cons a above ih => rw [climb, ite_self, add_zero, ih]

/-- Another node may be written before or after. -/
theorem Counts.climb_update {above : List α} (out : a ∉ above) (w : Int) (N : Counts α) :
    { N with seen := Function.update N.seen a w }.climb k v above =
      { N.climb k v above with seen := Function.update (N.climb k v above).seen a w } := by
  induction above generalizing N v with
  | nil => rfl
  | cons b above ih =>
    rw [List.mem_cons, not_or] at out
    have swap (v : Int) : { N with seen := Function.update N.seen a w }.add b k v =
        { N.add b k v with seen := Function.update (N.add b k v).seen a w } := by
      refine Counts.ext rfl rfl ?_
      change Function.update (Function.update N.seen a w) b (Function.update N.seen a w b + v) = _
      rw [Function.update_of_ne (Ne.symm out.1)]
      exact (Function.update_comm (Ne.symm out.1) _ _ N.seen).symm
    rw [climb, swap, ih out.2]
    rfl

/-- A node is shut or opened. -/
def Counts.shutting (N : Counts α) (a : α) (b : Bool) (v : Int) : Counts α :=
  { N with
    shut := Function.update N.shut a b
    seen := Function.update N.seen a v }

theorem Counts.shutting_same {nodes : List α} {b : Bool} (out : a ∉ nodes) :
    N.AgreeOn (N.shutting a b v) nodes ∧ ∀ d ∈ nodes, (N.shutting a b v).shut d = N.shut d := by
  have ne (d : α) (mem : d ∈ nodes) : d ≠ a := fun eq => out (eq ▸ mem)
  refine ⟨?_, ?_⟩
  · intro d mem
    exact ⟨rfl, Function.update_of_ne (ne d mem) _ _⟩
  · intro d mem
    exact Function.update_of_ne (ne d mem) _ _

/-- When a node is shut or opened, the nodes above are told what is below it. -/
theorem Forest.Counted.toggle (b : Bool) (nodup : (c.fill (.node a s n)).walk.Nodup)
    (h : (c.fill (.node a s n)).Counted N) :
    (c.fill (.node a s n)).Counted
      ((N.shutting a b (if b then 0 else s.seen N.shut)).climb 0
        ((if b then 0 else (s.seen N.shut : Int)) - if N.shut a then 0 else s.seen N.shut)
        c.ancestors) := by
  obtain ⟨rest_nodup, node_nodup, apart⟩ := Hole.nodup_fill.mp nodup
  obtain ⟨around, all, seen, sub, next⟩ := Hole.counted_fill.mp h
  obtain ⟨out, inside⟩ := List.nodup_cons.mp node_nodup
  have out_rest : a ∉ c.rest := fun mem => apart a mem List.mem_cons_self
  have out_s : a ∉ s.walk := fun mem => out (List.mem_append_left _ mem)
  have out_n : a ∉ n.walk := fun mem => out (List.mem_append_right _ mem)
  let M := N.shutting a b (if b then 0 else s.seen N.shut)
  obtain ⟨rest_same, rest_shut⟩ : N.AgreeOn M c.rest ∧ ∀ d ∈ c.rest, M.shut d = N.shut d :=
    Counts.shutting_same out_rest
  obtain ⟨s_same, s_shut⟩ : N.AgreeOn M s.walk ∧ ∀ d ∈ s.walk, M.shut d = N.shut d :=
    Counts.shutting_same out_s
  obtain ⟨n_same, n_shut⟩ : N.AgreeOn M n.walk ∧ ∀ d ∈ n.walk, M.shut d = N.shut d :=
    Counts.shutting_same out_n
  have shut_a : M.shut a = b := by
    change Function.update N.shut a b a = b
    rw [Function.update_self]
  have here : (Forest.node a s n).Counted M := by
    refine ⟨all, ?_, sub.congr s_same s_shut, next.congr n_same n_shut⟩
    rw [shut_a, seen_congr s_shut]
    exact Function.update_self a _ N.seen
  have told := (around.congr rest_same rest_shut).climb 0
    ((if b then 0 else (s.seen N.shut : Int)) - if N.shut a then 0 else s.seen N.shut) rest_nodup
  have still : M.AgreeOn (M.climb 0
      ((if b then 0 else (s.seen N.shut : Int)) - if N.shut a then 0 else s.seen N.shut)
      c.ancestors) (Forest.node a s n).walk :=
    Counts.agreeOn_climb fun d mem => apart d (Hole.mem_rest_of_ancestors mem)
  refine Hole.counted_fill.mpr ⟨?_, ?_⟩
  · convert told using 1
    · rw [Int.add_zero]
    · rw [Counts.shut_climb]
      change ((Forest.node a s n).seen M.shut : Int) = _
      rw [seen_node, seen_node, shut_a, seen_congr s_shut, seen_congr n_shut]
      cases b <;> cases N.shut a <;> simp <;> ring
  · refine here.congr still ?_
    intro d _
    rw [Counts.shut_climb]

theorem any_update {l : List α} {b : Bool} (out : a ∉ l) :
    l.any (Function.update shut a b) = l.any shut := by
  rw [Bool.eq_iff_iff, List.any_eq_true, List.any_eq_true]
  refine exists_congr fun d => and_congr_right ?_
  intro mem
  have ne : d ≠ a := by
    rintro rfl
    exact out mem
  rw [Function.update_of_ne ne]

/-- The number that is seen from outside after a node was shut or opened. -/
theorem seen_toggle {b : Bool} (nodup : (c.fill (.node a s n)).walk.Nodup) :
    ((c.fill (.node a s n)).seen (Function.update shut a b) : Int) =
      (c.fill (.node a s n)).seen shut +
        if c.ancestors.any shut then 0
        else (if b then 0 else (s.seen shut : Int)) - if shut a then 0 else s.seen shut := by
  obtain ⟨-, node_nodup, apart⟩ := Hole.nodup_fill.mp nodup
  obtain ⟨out, -⟩ := List.nodup_cons.mp node_nodup
  have out_rest : a ∉ c.rest := fun mem => apart a mem List.mem_cons_self
  have same {nodes : List α} (out : a ∉ nodes) (d : α) (mem : d ∈ nodes) :
      Function.update shut a b d = shut d := by
    have ne : d ≠ a := by
      rintro rfl
      exact out mem
    rw [Function.update_of_ne ne]
  have above : c.ancestors.any (Function.update shut a b) = c.ancestors.any shut :=
    any_update fun mem => out_rest (Hole.mem_rest_of_ancestors mem)
  have rest : (c.fill .nil).seen (Function.update shut a b) = (c.fill .nil).seen shut := by
    refine seen_congr (same ?_)
    intro mem
    rcases Hole.mem_walk_fill.mp mem with mem | mem
    · exact out_rest mem
    · exact nomatch mem
  have s_same : s.seen (Function.update shut a b) = s.seen shut :=
    seen_congr (same fun mem => out (List.mem_append_left _ mem))
  have n_same : n.seen (Function.update shut a b) = n.seen shut :=
    seen_congr (same fun mem => out (List.mem_append_right _ mem))
  rw [c.seen_fill .nil (.node a s n), c.seen_fill .nil (.node a s n), above, rest, seen_node,
    seen_node, s_same, n_same, Function.update_self]
  cases c.ancestors.any shut <;> cases b <;> cases shut a <;> simp <;> ring

end Climb

/-! ### A list in another order -/

section Arrange

variable {sub : α → Forest α} {l l' : List α}

theorem seen_arrange :
    (Forest.arrange sub l).seen shut =
      (l.map fun a => 1 + if shut a then 0 else (sub a).seen shut).sum := by
  induction l with
  | nil => rfl
  | cons a l ih => rw [Forest.arrange, seen_node, ih, List.map_cons, List.sum_cons]

theorem counted_arrange :
    (Forest.arrange sub l).Counted N ↔
      ∀ a ∈ l, N.all a = (sub a).size ∧
        N.seen a = (if N.shut a then 0 else ((sub a).seen N.shut : Int)) ∧ (sub a).Counted N := by
  induction l with
  | nil => exact ⟨fun _ a mem => (nomatch mem), fun _ => trivial⟩
  | cons a l ih =>
    rw [List.forall_mem_cons, ← ih, Forest.arrange, Forest.Counted]
    tauto

theorem seen_arrange_perm (perm : l.Perm l') :
    (Forest.arrange sub l).seen shut = (Forest.arrange sub l').seen shut := by
  rw [seen_arrange, seen_arrange]
  exact (perm.map _).sum_eq

theorem counted_arrange_perm (perm : l.Perm l') (h : (Forest.arrange sub l).Counted N) :
    (Forest.arrange sub l').Counted N :=
  counted_arrange.mpr fun a mem => counted_arrange.mp h a (perm.mem_iff.mpr mem)

end Arrange

end Lib

import Mathlib.Data.List.Nodup
import Mathlib.Data.List.Perm.Lattice
import Mathlib.Logic.Function.Basic
import Mathlib.Logic.Relation

/-!
Ordered forests that are linked by pointers.

A `Forest` is written the way it is linked: a node has the forest below it and
the rest of its sibling list. A `Hole` is a forest with one place left out, seen
from that place outwards; every place at which a node can be linked in or taken
out is a hole, and `Hole.cell` is the pointer that leads to it.

* `Forest.Linked` says that the pointers of `Links` lead through a forest, and
  `linked_fill` splits it at a hole.
* `Links.insert_linked` and `Links.remove_linked` write the pointer of the hole.
* `Chain` is one sibling list, and `linked_arrange` builds a forest from one.
-/

namespace Lib

universe u

/-- An ordered forest: the first node, what is below it, and what comes after it. -/
inductive Forest (α : Type u)
  | nil
  | node (a : α) (sub next : Forest α)

/-- A place in a forest: the whole forest, the place below a node, and the place after one. -/
inductive Hole (α : Type u)
  | top
  | under (a : α) (next : Forest α) (outer : Hole α)
  | behind (a : α) (sub : Forest α) (outer : Hole α)

/-- A pointer of a forest. -/
inductive Cell (α : Type u)
  | head
  | succ (a : α)
  | next (a : α)
  deriving DecidableEq

/-- The pointers of a forest: to its first node, and from each node to the owner of its sibling
list, to the first node below it, and to the node after it. -/
structure Links (α : Type u) where
  head : Option α
  par : α → Option α
  succ : α → Option α
  next : α → Option α

attribute [ext] Links

variable {α : Type u}

namespace Forest

/-- The nodes in preorder. -/
def walk : Forest α → List α
  | nil => []
  | node a sub next => a :: (sub.walk ++ next.walk)

/-- The first sibling list. -/
def tops : Forest α → List α
  | nil => []
  | node a _ next => a :: next.tops

def size : Forest α → Nat
  | nil => 0
  | node _ sub next => 1 + sub.size + next.size

@[simp]
theorem size_nil : (nil : Forest α).size = 0 := rfl

@[simp]
theorem size_node {a : α} {s n : Forest α} : (node a s n).size = 1 + s.size + n.size := rfl

theorem length_walk (f : Forest α) : f.walk.length = f.size := by
  induction f with
  | nil => rfl
  | node a sub next sub_ih next_ih =>
    rw [walk, List.length_cons, List.length_append, sub_ih, next_ih, size]
    omega

@[simp]
theorem mem_walk_node {a b : α} {s n : Forest α} :
    a ∈ (node b s n).walk ↔ a = b ∨ a ∈ s.walk ∨ a ∈ n.walk := by
  rw [walk, List.mem_cons, List.mem_append]

theorem mem_walk_of_tops {f : Forest α} {a : α} (mem : a ∈ f.tops) : a ∈ f.walk := by
  induction f with
  | nil => exact mem
  | node b sub next _ ih =>
    rcases List.mem_cons.mp mem with rfl | mem
    · exact List.mem_cons_self
    · exact mem_walk_node.mpr (.inr (.inr (ih mem)))

theorem tops_sublist (f : Forest α) : f.tops.Sublist f.walk := by
  induction f with
  | nil => exact .slnil
  | node a sub next _ ih => exact (ih.trans (List.sublist_append_right _ _)).cons_cons a

/-- Pointers lead through a forest: `owner` is the owner of the first sibling list, and `ptr`
points to its first node. -/
def Linked (L : Links α) : Option α → Option α → Forest α → Prop
  | _, ptr, nil => ptr = none
  | owner, ptr, node a sub next =>
    ptr = some a ∧ L.par a = owner ∧ Linked L (some a) (L.succ a) sub ∧
      Linked L owner (L.next a) next

/-- Pointers lead through one forest. -/
theorem Linked.unique {L : Links α} {f g : Forest α} {owner ptr : Option α}
    (h : f.Linked L owner ptr) (h' : g.Linked L owner ptr) : f = g := by
  induction f generalizing g owner ptr with
  | nil =>
    cases g with
    | nil => rfl
    | node b s' n' =>
      obtain rfl : ptr = none := h
      exact nomatch h'.1
  | node a s n s_ih n_ih =>
    obtain ⟨rfl, -, sub, next⟩ := h
    cases g with
    | nil => exact nomatch h'
    | node b s' n' =>
      obtain ⟨same, -, sub', next'⟩ := h'
      obtain rfl := Option.some.inj same
      rw [s_ih sub sub', n_ih next next']

end Forest

/-- The nodes in preorder, as the pointers lead to them. -/
inductive Preorder (L : Links α) : Option α → List α → Prop
  | nil : Preorder L none []
  | cons {a : α} {l l' : List α} :
      Preorder L (L.succ a) l → Preorder L (L.next a) l' → Preorder L (some a) (a :: (l ++ l'))

theorem Forest.Linked.preorder {L : Links α} {f : Forest α} {owner ptr : Option α}
    (h : f.Linked L owner ptr) : Preorder L ptr f.walk := by
  induction f generalizing owner ptr with
  | nil =>
    obtain rfl : ptr = none := h
    exact .nil
  | node a s n s_ih n_ih =>
    obtain ⟨rfl, -, sub, next⟩ := h
    exact .cons (s_ih sub) (n_ih next)

namespace Hole

/-- The forest with another one put into the hole. -/
def fill : Hole α → Forest α → Forest α
  | top, f => f
  | under a next outer, f => outer.fill (.node a f next)
  | behind a sub outer, f => outer.fill (.node a sub f)

/-- The nodes that come before the hole in preorder. -/
def before : Hole α → List α
  | top => []
  | under a _ outer => outer.before ++ [a]
  | behind a sub outer => outer.before ++ a :: sub.walk

def after : Hole α → List α
  | top => []
  | under _ next outer => next.walk ++ outer.after
  | behind _ _ outer => outer.after

/-- The nodes above the hole, the innermost first. -/
def ancestors : Hole α → List α
  | top => []
  | under a _ outer => a :: outer.ancestors
  | behind _ _ outer => outer.ancestors

/-- The owner of the sibling list that the hole is in. -/
def owner (c : Hole α) : Option α := c.ancestors.head?

/-- The pointer that leads to the hole. -/
def cell : Hole α → Cell α
  | top => .head
  | under a _ _ => .succ a
  | behind a _ _ => .next a

theorem walk_fill (c : Hole α) (f : Forest α) : (c.fill f).walk = c.before ++ f.walk ++ c.after := by
  induction c generalizing f with
  | top => simp [fill, before, after]
  | under a next outer ih => simp [fill, before, after, ih, Forest.walk]
  | behind a sub outer ih => simp [fill, before, after, ih, Forest.walk]

theorem walk_sublist_fill (c : Hole α) (f : Forest α) : f.walk.Sublist (c.fill f).walk := by
  rw [walk_fill]
  exact (List.sublist_append_right _ _).trans (List.sublist_append_left _ _)

/-- The nodes around a hole. -/
def rest (c : Hole α) : List α := c.before ++ c.after

theorem mem_walk_fill {c : Hole α} {f : Forest α} {a : α} :
    a ∈ (c.fill f).walk ↔ a ∈ c.rest ∨ a ∈ f.walk := by
  rw [walk_fill, rest]
  simp only [List.mem_append]
  tauto

theorem walk_fill_perm (c : Hole α) (f : Forest α) : ((c.fill f).walk).Perm (c.rest ++ f.walk) := by
  rw [walk_fill, rest, List.append_assoc, List.append_assoc]
  exact List.perm_append_comm.append_left _

theorem nodup_fill {c : Hole α} {f : Forest α} :
    (c.fill f).walk.Nodup ↔ c.rest.Nodup ∧ f.walk.Nodup ∧ ∀ a ∈ c.rest, a ∉ f.walk := by
  rw [(c.walk_fill_perm f).nodup_iff, List.nodup_append]
  exact and_congr_right fun _ => and_congr_right fun _ =>
    ⟨fun h a mem mem' => h a mem a mem' rfl, fun h a mem b mem' eq => h a mem (eq ▸ mem')⟩

/-- What is left when a node is taken out with what is below it. -/
theorem nodup_fill_node {c : Hole α} {a : α} {s n : Forest α}
    (h : (c.fill (.node a s n)).walk.Nodup) :
    (c.fill n).walk.Nodup ∧ ∀ b ∈ (c.fill n).walk, b ≠ a ∧ b ∉ s.walk := by
  obtain ⟨rest_nodup, node_nodup, apart⟩ := nodup_fill.mp h
  rw [Forest.walk, List.nodup_cons, List.nodup_append] at node_nodup
  obtain ⟨out, -, n_nodup, s_n⟩ := node_nodup
  refine ⟨nodup_fill.mpr ⟨rest_nodup, n_nodup, fun b mem in_n =>
    apart b mem (Forest.mem_walk_node.mpr (.inr (.inr in_n)))⟩, fun b mem => ?_⟩
  rcases mem_walk_fill.mp mem with in_rest | in_n
  · have away := apart b in_rest
    rw [Forest.mem_walk_node, not_or, not_or] at away
    exact ⟨away.1, away.2.1⟩
  · exact ⟨fun eq => out (List.mem_append_right _ (eq ▸ in_n)),
      fun in_s => s_n b in_s b in_n rfl⟩

theorem mem_fill_node_of_mem {c : Hole α} {a b : α} {s n : Forest α}
    (mem : b ∈ (c.fill n).walk) : b ∈ (c.fill (.node a s n)).walk := by
  rw [mem_walk_fill] at mem ⊢
  exact mem.imp_right fun in_n => Forest.mem_walk_node.mpr (.inr (.inr in_n))

theorem size_fill (c : Hole α) (f : Forest α) : (c.fill f).size = c.rest.length + f.size := by
  rw [← Forest.length_walk, (c.walk_fill_perm f).length_eq, List.length_append, Forest.length_walk]

theorem mem_rest_of_ancestors {c : Hole α} {a : α} (mem : a ∈ c.ancestors) : a ∈ c.rest := by
  induction c with
  | top => exact nomatch mem
  | under b next outer ih =>
    rcases List.mem_cons.mp mem with rfl | mem
    · simp [rest, before]
    · have inside := ih mem
      simp only [rest, before, after, List.mem_append] at inside ⊢
      tauto
  | behind b sub outer ih =>
    have inside := ih mem
    simp only [rest, before, after, List.mem_append] at inside ⊢
    tauto

theorem length_ancestors_le (c : Hole α) : c.ancestors.length ≤ c.rest.length := by
  induction c with
  | top => exact Nat.le_refl _
  | under a n outer ih =>
    simp only [ancestors, rest, before, after, List.length_append, List.length_cons,
      List.length_nil] at ih ⊢
    omega
  | behind a s outer ih =>
    simp only [ancestors, rest, before, after, List.length_append, List.length_cons] at ih ⊢
    omega

end Hole

/-! ### The place of a node -/

namespace Hole

/-- A node of a forest has a hole of its own, at the position of the node. -/
theorem exists_fill {f : Forest α} {a : α} {i : Nat} (c : Hole α) (here : f.walk[i]? = some a) :
    ∃ (c' : Hole α) (s n : Forest α),
      c'.fill (.node a s n) = c.fill f ∧ c'.before.length = c.before.length + i := by
  induction f generalizing c i with
  | nil => exact nomatch here
  | node b s n s_ih n_ih =>
    cases i with
    | zero =>
      obtain rfl : b = a := Option.some.inj here
      exact ⟨c, s, n, rfl, rfl⟩
    | succ i =>
      rw [Forest.walk, List.getElem?_cons_succ] at here
      by_cases inside : i < s.walk.length
      · rw [List.getElem?_append_left inside] at here
        obtain ⟨c', s', n', eq, len⟩ := s_ih (.under b n c) here
        refine ⟨c', s', n', eq, ?_⟩
        rw [len, before, List.length_append, List.length_singleton]
        omega
      · rw [List.getElem?_append_right (Nat.le_of_not_lt inside)] at here
        obtain ⟨c', s', n', eq, len⟩ := n_ih (.behind b s c) here
        refine ⟨c', s', n', eq, ?_⟩
        rw [len, before, List.length_append, List.length_cons]
        omega

theorem exists_hole {f : Forest α} {a : α} (mem : a ∈ f.walk) :
    ∃ (c : Hole α) (s n : Forest α), f = c.fill (.node a s n) := by
  obtain ⟨i, here⟩ := List.mem_iff_getElem?.mp mem
  obtain ⟨c, s, n, eq, -⟩ := exists_fill .top here
  exact ⟨c, s, n, eq.symm⟩

theorem getElem?_before (c : Hole α) (a : α) (s n : Forest α) :
    (c.fill (.node a s n)).walk[c.before.length]? = some a := by
  rw [walk_fill, Forest.walk, List.append_assoc, List.getElem?_append_right (Nat.le_refl _),
    Nat.sub_self]
  rfl

/-- The list that a node is in has an owner, or it is the first list. -/
theorem owner_eq_none_or (c : Hole α) {f : Forest α} {a : α} (top : a ∈ f.tops) :
    c.owner = none ∧ a ∈ (c.fill f).tops ∨
      ∃ (b : α) (c' : Hole α) (s n : Forest α),
        c.owner = some b ∧ c.fill f = c'.fill (.node b s n) ∧ a ∈ s.tops := by
  induction c generalizing f with
  | top => exact .inl ⟨rfl, top⟩
  | under b n outer _ => exact .inr ⟨b, outer, f, n, rfl, rfl, top⟩
  | behind b s outer ih => exact ih (f := .node b s f) (List.mem_cons_of_mem b top)

/-- What is in a hole is below all ancestors of the hole. -/
theorem fill_of_ancestors (c : Hole α) {f : Forest α} {a b : α} (above : b ∈ c.ancestors)
    (mem : a ∈ f.walk) :
    ∃ (c' : Hole α) (s n : Forest α), c.fill f = c'.fill (.node b s n) ∧ a ∈ s.walk := by
  induction c generalizing f with
  | top => exact nomatch above
  | under d n outer ih =>
    rcases List.mem_cons.mp above with rfl | above
    · exact ⟨outer, f, n, rfl, mem⟩
    · exact ih above (Forest.mem_walk_node.mpr (.inr (.inl mem)))
  | behind d s outer ih => exact ih above (Forest.mem_walk_node.mpr (.inr (.inr mem)))

/-- A node of the first list has a hole with nothing above it. -/
theorem exists_hole_tops {f : Forest α} {a : α} (top : a ∈ f.tops) :
    ∃ (c : Hole α) (s n : Forest α), f = c.fill (.node a s n) ∧ c.ancestors = [] := by
  have below (c : Hole α) (up : c.ancestors = []) :
      ∃ (c' : Hole α) (s n : Forest α),
        c.fill f = c'.fill (.node a s n) ∧ c'.ancestors = [] := by
    induction f generalizing c with
    | nil => exact nomatch top
    | node b s n _ ih =>
      rcases List.mem_cons.mp top with rfl | top
      · exact ⟨c, s, n, rfl, up⟩
      · exact ih top (.behind b s c) up
  exact below .top rfl

theorem after_eq_nil {c : Hole α} (up : c.ancestors = []) : c.after = [] := by
  induction c with
  | top => rfl
  | under a n outer _ => exact nomatch up
  | behind a s outer ih => exact ih up

theorem mem_tops_fill {c : Hole α} {f : Forest α} {a : α} (up : c.ancestors = [])
    (top : a ∈ f.tops) : a ∈ (c.fill f).tops := by
  induction c generalizing f with
  | top => exact top
  | under b n outer _ => exact nomatch up
  | behind b s outer ih => exact ih up (f := .node b s f) (List.mem_cons_of_mem b top)

/-- A node of the first list stays in it when it is not taken out. -/
theorem mem_tops_of_fill {c : Hole α} {f g : Forest α} {a : α}
    (kept : a ∈ f.tops → a ∈ g.tops) (top : a ∈ (c.fill f).tops) : a ∈ (c.fill g).tops := by
  induction c generalizing f g with
  | top => exact kept top
  | under b n outer ih => exact ih (f := .node b f n) (g := .node b g n) id top
  | behind b s outer ih =>
    refine ih (f := .node b s f) (g := .node b s g) ?_ top
    intro mem
    exact List.mem_cons.mpr ((List.mem_cons.mp mem).imp_right kept)

/-- The hole of the owner of a list, with the lines of what is in the list. -/
theorem exists_owner {c : Hole α} {b : α} {up : List α} (above : c.ancestors = b :: up)
    (f : Forest α) :
    ∃ (c' : Hole α) (s n : Forest α), c.fill f = c'.fill (.node b s n) ∧ c'.ancestors = up ∧
      c'.before.length < c.before.length ∧
      c.before.length + f.size ≤ c'.before.length + 1 + s.size := by
  induction c generalizing f with
  | top => exact nomatch above
  | under d n outer _ =>
    obtain ⟨rfl, rfl⟩ := List.cons.inj above
    refine ⟨outer, f, n, rfl, rfl, ?_, ?_⟩
    · simp [before]
    · simp [before]
  | behind d s outer ih =>
    obtain ⟨c', s', n', eq, up', lt, le⟩ := ih above (.node d s f)
    refine ⟨c', s', n', eq, up', ?_, ?_⟩
    · rw [before, List.length_append, List.length_cons]
      omega
    · rw [Forest.size_node] at le
      rw [before, List.length_append, List.length_cons, Forest.length_walk]
      omega

/-- The node of the first list that a node is in or below of, with the lines of what is below. -/
theorem exists_root (c : Hole α) (a : α) (s n : Forest α) :
    ∃ (r : α) (c' : Hole α) (s' n' : Forest α),
      c.fill (.node a s n) = c'.fill (.node r s' n') ∧ c'.ancestors = [] ∧
        (a :: c.ancestors).getLast? = some r ∧ c'.before.length ≤ c.before.length ∧
        c.before.length + s.size ≤ c'.before.length + s'.size := by
  induction up : c.ancestors generalizing c a s n with
  | nil => exact ⟨a, c, s, n, rfl, up, rfl, Nat.le_refl _, Nat.le_refl _⟩
  | cons b up' ih =>
    obtain ⟨c₁, s₁, n₁, eq, up₁, lt, le⟩ := exists_owner up (.node a s n)
    obtain ⟨r, c', s', n', eq', up'', last, lt', le'⟩ := ih c₁ b s₁ n₁ up₁
    refine ⟨r, c', s', n', eq.trans eq', up'', ?_, by omega, ?_⟩
    · rw [List.getLast?_cons_cons]
      exact last
    · rw [Forest.size_node] at le
      omega

end Hole

section SubOf

variable [DecidableEq α]

/-- What is below a node. -/
def Forest.subOf : Forest α → α → Forest α
  | nil, _ => nil
  | node b s n, a => if a = b then s else if a ∈ s.walk then s.subOf a else n.subOf a

theorem Hole.subOf_fill_of_mem {c : Hole α} {f : Forest α} {a : α} (out : a ∉ c.before)
    (mem : a ∈ f.walk) : (c.fill f).subOf a = f.subOf a := by
  induction c generalizing f with
  | top => rfl
  | under b n outer ih =>
    rw [before, List.mem_append, not_or, List.mem_singleton] at out
    rw [fill, ih out.1 (Forest.mem_walk_node.mpr (.inr (.inl mem))), Forest.subOf,
      if_neg out.2, if_pos mem]
  | behind b s outer ih =>
    rw [before, List.mem_append, List.mem_cons, not_or, not_or] at out
    rw [fill, ih out.1 (Forest.mem_walk_node.mpr (.inr (.inr mem))), Forest.subOf,
      if_neg out.2.1, if_neg out.2.2]

theorem Hole.subOf_fill {c : Hole α} {a : α} {s n : Forest α}
    (nodup : (c.fill (.node a s n)).walk.Nodup) : (c.fill (.node a s n)).subOf a = s := by
  have out : a ∉ c.before := fun mem =>
    (nodup_fill.mp nodup).2.2 a (List.mem_append_left _ mem) List.mem_cons_self
  rw [subOf_fill_of_mem out List.mem_cons_self, Forest.subOf, if_pos rfl]

end SubOf

/-! ### Pointers around a hole -/

/-- Two sets of pointers agree on some nodes. -/
def Links.AgreeOn (L L' : Links α) (nodes : List α) : Prop :=
  ∀ a ∈ nodes, L'.par a = L.par a ∧ L'.succ a = L.succ a ∧ L'.next a = L.next a

theorem Links.AgreeOn.mono {L L' : Links α} {nodes nodes' : List α} (h : L.AgreeOn L' nodes)
    (sub : ∀ a ∈ nodes', a ∈ nodes) : L.AgreeOn L' nodes' :=
  fun a mem => h a (sub a mem)

theorem Forest.Linked.congr {L L' : Links α} {f : Forest α} {owner ptr : Option α}
    (same : L.AgreeOn L' f.walk) (h : f.Linked L owner ptr) : f.Linked L' owner ptr := by
  induction f generalizing owner ptr with
  | nil => exact h
  | node a s n s_ih n_ih =>
    obtain ⟨here, par, sub, next⟩ := h
    obtain ⟨par_eq, succ_eq, next_eq⟩ := same a List.mem_cons_self
    refine ⟨here, par_eq.trans par, ?_, ?_⟩
    · rw [succ_eq]
      exact s_ih (same.mono fun b mem => mem_walk_node.mpr (.inr (.inl mem))) sub
    · rw [next_eq]
      exact n_ih (same.mono fun b mem => mem_walk_node.mpr (.inr (.inr mem))) next

/-- What a pointer points to. -/
def Links.get (L : Links α) : Cell α → Option α
  | .head => L.head
  | .succ a => L.succ a
  | .next a => L.next a

/-- The pointer to the list with this owner. -/
def Cell.first : Option α → Cell α
  | none => .head
  | some a => .succ a

namespace Hole

/-- Pointers lead through the nodes around a hole. -/
def Linked (L : Links α) : Hole α → Prop
  | top => True
  | under a n outer =>
    L.get outer.cell = some a ∧ L.par a = outer.owner ∧
      n.Linked L outer.owner (L.next a) ∧ outer.Linked L
  | behind a s outer =>
    L.get outer.cell = some a ∧ L.par a = outer.owner ∧
      s.Linked L (some a) (L.succ a) ∧ outer.Linked L

theorem linked_fill {L : Links α} {c : Hole α} {f : Forest α} :
    (c.fill f).Linked L none L.head ↔ c.Linked L ∧ f.Linked L c.owner (L.get c.cell) := by
  induction c generalizing f with
  | top => exact (iff_of_eq (true_and _)).symm
  | under a n outer ih =>
    rw [fill, ih]
    change _ ∧ _ ∧ _ ∧ _ ∧ _ ↔ (_ ∧ _ ∧ _ ∧ _) ∧ f.Linked L (some a) (L.succ a)
    tauto
  | behind a s outer ih =>
    rw [fill, ih]
    change _ ∧ _ ∧ _ ∧ _ ∧ _ ↔ (_ ∧ _ ∧ _ ∧ _) ∧ f.Linked L outer.owner (L.next a)
    tauto

/-- The pointer of a hole is one of the nodes around it, or it points to the first node. -/
theorem mem_rest_of_cell {c : Hole α} {a : α} (h : c.cell = .succ a ∨ c.cell = .next a) :
    a ∈ c.rest := by
  cases c with
  | top => rcases h with h | h <;> cases h
  | under b n outer =>
    obtain rfl : b = a := by
      rcases h with h | h
      · exact Cell.succ.inj h
      · cases h
    simp [rest, before]
  | behind b s outer =>
    obtain rfl : b = a := by
      rcases h with h | h
      · cases h
      · exact Cell.next.inj h
    simp [rest, before]

theorem get_congr {L L' : Links α} {c : Hole α} (same : L.AgreeOn L' c.rest)
    (head : L'.head = L.head) : L'.get c.cell = L.get c.cell := by
  cases cell : c.cell with
  | head => exact head
  | succ a => exact (same a (mem_rest_of_cell (.inl cell))).2.1
  | next a => exact (same a (mem_rest_of_cell (.inr cell))).2.2

theorem mem_rest_under {a b : α} {n : Forest α} {c : Hole α} :
    b ∈ (under a n c).rest ↔ b = a ∨ b ∈ n.walk ∨ b ∈ c.rest := by
  simp only [rest, before, after, List.mem_append, List.mem_singleton]
  tauto

theorem mem_rest_behind {a b : α} {s : Forest α} {c : Hole α} :
    b ∈ (behind a s c).rest ↔ b = a ∨ b ∈ s.walk ∨ b ∈ c.rest := by
  simp only [rest, before, after, List.mem_append, List.mem_cons]
  tauto

theorem nodup_rest_under {a : α} {n : Forest α} {c : Hole α} (h : (under a n c).rest.Nodup) :
    a ∉ n.walk ∧ a ∉ c.rest ∧ (∀ b ∈ n.walk, b ∉ c.rest) ∧ c.rest.Nodup := by
  simp only [rest, before, after, List.append_assoc, List.nodup_append] at h ⊢
  simp only [List.mem_append]
  grind

theorem nodup_rest_behind {a : α} {s : Forest α} {c : Hole α} (h : (behind a s c).rest.Nodup) :
    a ∉ s.walk ∧ a ∉ c.rest ∧ (∀ b ∈ s.walk, b ∉ c.rest) ∧ c.rest.Nodup := by
  simp only [rest, before, after, List.append_assoc, List.nodup_append] at h ⊢
  simp only [List.mem_append]
  grind

theorem Linked.congr {L L' : Links α} {c : Hole α} (same : L.AgreeOn L' c.rest)
    (head : L'.head = L.head) (h : c.Linked L) : c.Linked L' := by
  induction c with
  | top => trivial
  | under a n outer ih =>
    obtain ⟨here, par, next, out⟩ := h
    have out_same := same.mono fun b mem => mem_rest_under.mpr (.inr (.inr mem))
    obtain ⟨par_eq, -, next_eq⟩ := same a (mem_rest_under.mpr (.inl rfl))
    refine ⟨(get_congr out_same head).trans here, par_eq.trans par, ?_, ih out_same out⟩
    rw [next_eq]
    exact next.congr (same.mono fun b mem => mem_rest_under.mpr (.inr (.inl mem)))
  | behind a s outer ih =>
    obtain ⟨here, par, sub, out⟩ := h
    have out_same := same.mono fun b mem => mem_rest_behind.mpr (.inr (.inr mem))
    obtain ⟨par_eq, succ_eq, -⟩ := same a (mem_rest_behind.mpr (.inl rfl))
    refine ⟨(get_congr out_same head).trans here, par_eq.trans par, ?_, ih out_same out⟩
    rw [succ_eq]
    exact sub.congr (same.mono fun b mem => mem_rest_behind.mpr (.inr (.inl mem)))

end Hole

/-! ### Writing a pointer -/

section Write

variable [DecidableEq α] {L : Links α} {c : Hole α} {f s n : Forest α} {a : α}

/-- The pointers after one of them was written. -/
def Links.set (L : Links α) : Cell α → Option α → Links α
  | .head, ptr => { L with head := ptr }
  | .succ a, ptr => { L with succ := Function.update L.succ a ptr }
  | .next a, ptr => { L with next := Function.update L.next a ptr }

@[simp]
theorem Links.get_set (L : Links α) (cell : Cell α) (ptr : Option α) :
    (L.set cell ptr).get cell = ptr := by
  cases cell with
  | head => rfl
  | succ a => exact Function.update_self a ptr L.succ
  | next a => exact Function.update_self a ptr L.next

theorem Links.agreeOn_set {cell : Cell α} {ptr : Option α} {nodes : List α}
    (out : ∀ a, cell = .succ a ∨ cell = .next a → a ∉ nodes) :
    L.AgreeOn (L.set cell ptr) nodes := by
  intro b mem
  cases cell with
  | head => exact ⟨rfl, rfl, rfl⟩
  | succ a =>
    have ne : b ≠ a := fun eq => out a (.inl rfl) (eq ▸ mem)
    refine ⟨rfl, ?_, rfl⟩
    exact Function.update_of_ne ne ptr L.succ
  | next a =>
    have ne : b ≠ a := fun eq => out a (.inr rfl) (eq ▸ mem)
    refine ⟨rfl, rfl, ?_⟩
    exact Function.update_of_ne ne ptr L.next

theorem Links.AgreeOn.set {L' : Links α} {nodes : List α} (h : L.AgreeOn L' nodes) (cell : Cell α)
    (ptr : Option α) : (L.set cell ptr).AgreeOn (L'.set cell ptr) nodes := by
  intro b mem
  obtain ⟨par, succ, next⟩ := h b mem
  cases cell with
  | head => exact ⟨par, succ, next⟩
  | succ a =>
    refine ⟨par, ?_, next⟩
    change Function.update L'.succ a ptr b = Function.update L.succ a ptr b
    by_cases eq : b = a
    · rw [eq, Function.update_self, Function.update_self]
    · rw [Function.update_of_ne eq, Function.update_of_ne eq, succ]
  | next a =>
    refine ⟨par, succ, ?_⟩
    change Function.update L'.next a ptr b = Function.update L.next a ptr b
    by_cases eq : b = a
    · rw [eq, Function.update_self, Function.update_self]
    · rw [Function.update_of_ne eq, Function.update_of_ne eq, next]

/-- Writing the pointer of a hole does not change what is around the hole. -/
theorem Hole.Linked.set {ptr : Option α} (nodup : c.rest.Nodup) (h : c.Linked L) :
    c.Linked (L.set c.cell ptr) := by
  cases c with
  | top => trivial
  | under b n outer =>
    obtain ⟨here, par, next, out⟩ := h
    obtain ⟨out_n, out_outer, -, -⟩ := nodup_rest_under nodup
    have agree (nodes : List α) (out : b ∉ nodes) :
        L.AgreeOn (L.set (.succ b) ptr) nodes :=
      Links.agreeOn_set fun a cell => by
        rcases cell with cell | cell
        · exact Cell.succ.inj cell ▸ out
        · cases cell
    have out_same := agree outer.rest out_outer
    exact ⟨(get_congr out_same rfl).trans here, par, next.congr (agree n.walk out_n),
      out.congr out_same rfl⟩
  | behind b s outer =>
    obtain ⟨here, par, sub, out⟩ := h
    obtain ⟨out_s, out_outer, -, -⟩ := nodup_rest_behind nodup
    have agree (nodes : List α) (out : b ∉ nodes) :
        L.AgreeOn (L.set (.next b) ptr) nodes :=
      Links.agreeOn_set fun a cell => by
        rcases cell with cell | cell
        · cases cell
        · exact Cell.next.inj cell ▸ out
    have out_same := agree outer.rest out_outer
    exact ⟨(get_congr out_same rfl).trans here, par, sub.congr (agree s.walk out_s),
      out.congr out_same rfl⟩

/-- What is in the hole stays linked as well. -/
theorem Forest.Linked.set {owner ptr ptr' : Option α} (out : ∀ b ∈ c.rest, b ∉ f.walk)
    (h : f.Linked L owner ptr) : f.Linked (L.set c.cell ptr') owner ptr :=
  h.congr (Links.agreeOn_set fun _ cell => out _ (Hole.mem_rest_of_cell cell))

/-- A new node is linked in where a pointer leads to. -/
def Links.insert (L : Links α) (cell : Cell α) (owner : Option α) (a : α) : Links α :=
  Links.set
    { L with
      par := Function.update L.par a owner
      succ := Function.update L.succ a none
      next := Function.update L.next a (L.get cell) }
    cell (some a)

theorem Links.insert_linked (fresh : a ∉ (c.fill f).walk) (nodup : (c.fill f).walk.Nodup)
    (h : (c.fill f).Linked L none L.head) :
    (c.fill (.node a .nil f)).Linked (L.insert c.cell c.owner a) none
      (L.insert c.cell c.owner a).head := by
  rw [Hole.linked_fill] at h ⊢
  obtain ⟨around, inside⟩ := h
  obtain ⟨rest_nodup, -, apart⟩ := Hole.nodup_fill.mp nodup
  rw [Hole.mem_walk_fill, not_or] at fresh
  let M : Links α :=
    { L with
      par := Function.update L.par a c.owner
      succ := Function.update L.succ a none
      next := Function.update L.next a (L.get c.cell) }
  have agree (nodes : List α) (out : a ∉ nodes) : L.AgreeOn M nodes := fun b mem => by
    have ne : b ≠ a := fun eq => out (eq ▸ mem)
    exact ⟨Function.update_of_ne ne _ _, Function.update_of_ne ne _ _,
      Function.update_of_ne ne _ _⟩
  have here : M.AgreeOn (M.set c.cell (some a)) [a] := Links.agreeOn_set fun b cell mem =>
    fresh.1 (List.mem_singleton.mp mem ▸ Hole.mem_rest_of_cell cell)
  obtain ⟨par_eq, succ_eq, next_eq⟩ := here a List.mem_cons_self
  refine ⟨(around.congr (agree c.rest fresh.1) rfl).set rest_nodup, Links.get_set M _ _, ?_, ?_, ?_⟩
  · exact par_eq.trans (Function.update_self a _ L.par)
  · exact succ_eq.trans (Function.update_self a _ L.succ)
  · rw [insert, next_eq.trans (Function.update_self a _ L.next)]
    exact (inside.congr (agree f.walk fresh.2)).set apart

/-- The pointer to a node is set to what comes after the node. -/
theorem Links.remove_linked (nodup : (c.fill (.node a s n)).walk.Nodup)
    (h : (c.fill (.node a s n)).Linked L none L.head) :
    (c.fill n).Linked (L.set c.cell (L.next a)) none (L.set c.cell (L.next a)).head := by
  rw [Hole.linked_fill] at h ⊢
  obtain ⟨around, -, -, -, inside⟩ := h
  obtain ⟨rest_nodup, -, apart⟩ := Hole.nodup_fill.mp nodup
  rw [get_set]
  exact ⟨around.set rest_nodup, inside.set fun b mem mem' =>
    apart b mem (Forest.mem_walk_node.mpr (.inr (.inr mem')))⟩

end Write

/-! ### Lists of nodes -/

/-- Following `next` from a pointer gives a list of nodes and ends. -/
def Chain (next : α → Option α) : Option α → List α → Prop
  | ptr, [] => ptr = none
  | ptr, a :: l => ptr = some a ∧ Chain next (next a) l

section Chain

variable {next : α → Option α} {ptr : Option α} {l : List α} {a b : α}

theorem Chain.congr {next' : α → Option α} (same : ∀ a ∈ l, next' a = next a)
    (h : Chain next ptr l) : Chain next' ptr l := by
  induction l generalizing ptr with
  | nil => exact h
  | cons a l ih =>
    refine ⟨h.1, ?_⟩
    rw [same a List.mem_cons_self]
    exact ih (fun b mem => same b (List.mem_cons_of_mem a mem)) h.2

/-- What a node of a list points to is in the list, but not at its front. -/
theorem Chain.mem_tail {d : α} (h : Chain next ptr (d :: l)) (mem : a ∈ d :: l)
    (eq : next a = some b) : b ∈ l := by
  induction l generalizing d ptr with
  | nil =>
    obtain rfl := List.mem_singleton.mp mem
    have last : next a = none := h.2
    exact nomatch last.symm.trans eq
  | cons e l ih =>
    rcases List.mem_cons.mp mem with rfl | mem
    · obtain rfl : e = b := Option.some.inj (h.2.1.symm.trans eq)
      exact List.mem_cons_self
    · exact List.mem_cons_of_mem e (ih h.2 mem)

/-- The node that points to a node of the list. -/
theorem Chain.find_prev [DecidableEq α] (h : Chain next ptr l) (nodup : l.Nodup) (mem : a ∈ l)
    (eq : next a = some b) : l.find? (fun x => next x = some b) = some a := by
  induction l generalizing ptr with
  | nil => exact nomatch mem
  | cons d l ih =>
    rcases List.mem_cons.mp mem with rfl | later
    · exact List.find?_cons_of_pos (decide_eq_true eq)
    · have other : next d ≠ some b := by
        intro front
        cases l with
        | nil => exact nomatch later
        | cons e l =>
          obtain rfl : e = b := Option.some.inj (h.2.1.symm.trans front)
          have again : e ∈ l := h.2.mem_tail later eq
          exact (List.nodup_cons.mp (List.nodup_cons.mp nodup).2).1 again
      rw [List.find?_cons_of_neg (by simpa using other)]
      exact ih h.2 (List.nodup_cons.mp nodup).2 later

end Chain

theorem Forest.Linked.chain {L : Links α} {f : Forest α} {owner ptr : Option α}
    (h : f.Linked L owner ptr) : Chain L.next ptr f.tops := by
  induction f generalizing ptr with
  | nil => exact h
  | node a s n _ ih => exact ⟨h.1, ih h.2.2.2⟩

theorem Forest.Linked.par_of_tops {L : Links α} {f : Forest α} {owner ptr : Option α} {a : α}
    (h : f.Linked L owner ptr) (top : a ∈ f.tops) : L.par a = owner := by
  induction f generalizing ptr with
  | nil => exact nomatch top
  | node b s n _ ih =>
    rcases List.mem_cons.mp top with rfl | top
    · exact h.2.1
    · exact ih h.2.2.2 top

namespace Hole

variable {L : Links α} {c : Hole α} {f : Forest α}

/-- The nodes before the hole in its sibling list. -/
def lefts : Hole α → List α
  | top => []
  | under _ _ _ => []
  | behind a _ outer => outer.lefts ++ [a]

/-- A whole sibling list. -/
theorem Linked.chain (around : c.Linked L) (inside : f.Linked L c.owner (L.get c.cell)) :
    Chain L.next (L.get (.first c.owner)) (c.lefts ++ f.tops) := by
  induction c generalizing f with
  | top => exact inside.chain
  | under a n outer _ => exact inside.chain
  | behind a s outer ih =>
    obtain ⟨here, par, sub, out⟩ := around
    have whole : (Forest.node a s f).Linked L outer.owner (L.get outer.cell) :=
      ⟨here, par, sub, inside⟩
    rw [lefts, List.append_assoc]
    exact ih out whole

theorem lefts_sublist (c : Hole α) (f : Forest α) :
    (c.lefts ++ f.tops).Sublist (c.fill f).walk := by
  induction c generalizing f with
  | top => exact f.tops_sublist
  | under a n outer _ =>
    exact f.tops_sublist.trans (walk_sublist_fill _ f)
  | behind a s outer ih =>
    rw [lefts, List.append_assoc]
    exact ih (.node a s f)

/-- The nodes above a hole are found by following the pointers to the owners. -/
theorem Linked.ancestors (around : c.Linked L) : Chain L.par c.owner c.ancestors := by
  induction c with
  | top => exact rfl
  | under a n outer ih =>
    refine ⟨rfl, ?_⟩
    rw [around.2.1]
    exact ih around.2.2.2
  | behind a s outer ih => exact ih around.2.2.2

end Hole

/-! ### Above and below -/

section Above

variable {L : Links α} {a b : α} {owner ptr : Option α}

/-- A node is in the list of the owner it points to. -/
def Links.Child (L : Links α) (a b : α) : Prop := L.par a = some b

/-- What is above a node is what following the pointers to the owners gives. -/
theorem transGen_par {l : List α} (h : Chain L.par (L.par a) l) :
    Relation.TransGen L.Child a b ↔ b ∈ l := by
  induction l generalizing a with
  | nil =>
    refine ⟨fun above => ?_, fun mem => nomatch mem⟩
    obtain ⟨d, up, -⟩ := Relation.TransGen.head'_iff.mp above
    have last : L.par a = none := h
    exact nomatch last.symm.trans up
  | cons d l ih =>
    obtain ⟨here, rest⟩ := h
    rw [Relation.TransGen.head'_iff, List.mem_cons]
    constructor
    · rintro ⟨e, up, above⟩
      obtain rfl : d = e := Option.some.inj (here.symm.trans up)
      rcases Relation.reflTransGen_iff_eq_or_transGen.mp above with rfl | above
      · exact .inl rfl
      · exact .inr ((ih rest).mp above)
    · rintro (rfl | mem)
      · exact ⟨b, here, .refl⟩
      · exact ⟨d, here, ((ih rest).mpr mem).to_reflTransGen⟩

theorem Forest.Linked.transGen {f : Forest α} (h : f.Linked L (some b) ptr) (mem : a ∈ f.walk) :
    Relation.TransGen L.Child a b := by
  induction f generalizing b ptr with
  | nil => exact nomatch mem
  | node d s n s_ih n_ih =>
    obtain ⟨-, par, sub, next⟩ := h
    rcases mem_walk_node.mp mem with rfl | mem | mem
    · exact .single par
    · exact (s_ih sub mem).tail par
    · exact n_ih next mem

/-- What is below a node is what it is above of. -/
theorem mem_subOf_iff [DecidableEq α] {f : Forest α} (nodup : f.walk.Nodup)
    (linked : f.Linked L none L.head) (ha : a ∈ f.walk) (hb : b ∈ f.walk) :
    a ∈ (f.subOf b).walk ↔ Relation.TransGen L.Child a b := by
  constructor
  · intro mem
    obtain ⟨c, s, n, rfl⟩ := Hole.exists_hole hb
    rw [Hole.subOf_fill nodup] at mem
    obtain ⟨-, -, -, sub, -⟩ := Hole.linked_fill.mp linked
    exact sub.transGen mem
  · intro above
    obtain ⟨c, s, n, rfl⟩ := Hole.exists_hole ha
    obtain ⟨around, -, par, -, -⟩ := Hole.linked_fill.mp linked
    have up : b ∈ c.ancestors := by
      refine (transGen_par ?_).mp above
      rw [par]
      exact around.ancestors
    obtain ⟨c', s', n', eq, mem⟩ := c.fill_of_ancestors up
      (Forest.mem_walk_node.mpr (.inl rfl) : a ∈ (Forest.node a s n).walk)
    rw [eq] at nodup ⊢
    rwa [Hole.subOf_fill nodup]

end Above

/-! ### A list in another order -/

section Arrange

/-- The forest of a sibling list, with what is below each node. -/
def Forest.arrange (sub : α → Forest α) : List α → Forest α
  | [] => nil
  | a :: l => node a (sub a) (arrange sub l)

variable {sub : α → Forest α} {l l' : List α} {L : Links α} {owner ptr : Option α}

theorem linked_arrange :
    (Forest.arrange sub l).Linked L owner ptr ↔
      Chain L.next ptr l ∧ ∀ a ∈ l, L.par a = owner ∧ (sub a).Linked L (some a) (L.succ a) := by
  induction l generalizing ptr with
  | nil => exact ⟨fun h => ⟨h, fun a mem => nomatch mem⟩, fun h => h.1⟩
  | cons a l ih =>
    rw [List.forall_mem_cons]
    change _ ∧ _ ∧ _ ∧ (Forest.arrange sub l).Linked L owner (L.next a) ↔ (_ ∧ _) ∧ (_ ∧ _) ∧ _
    rw [ih]
    tauto

theorem walk_arrange : (Forest.arrange sub l).walk = l.flatMap fun a => a :: (sub a).walk := by
  induction l with
  | nil => rfl
  | cons a l ih => rw [Forest.arrange, Forest.walk, ih, List.flatMap_cons, List.cons_append]

theorem walk_arrange_perm (perm : l.Perm l') :
    ((Forest.arrange sub l).walk).Perm (Forest.arrange sub l').walk := by
  rw [walk_arrange, walk_arrange]
  exact perm.flatMap_right _

theorem Forest.arrange_congr {sub' : α → Forest α} (same : ∀ a ∈ l, sub a = sub' a) :
    arrange sub l = arrange sub' l := by
  induction l with
  | nil => rfl
  | cons a l ih =>
    rw [arrange, arrange, same a List.mem_cons_self,
      ih fun b mem => same b (List.mem_cons_of_mem a mem)]

/-- Every forest is arranged from its first list. -/
theorem Forest.arrange_tops [DecidableEq α] {f : Forest α} (nodup : f.walk.Nodup) :
    arrange f.subOf f.tops = f := by
  induction f with
  | nil => rfl
  | node a s n _ ih =>
    obtain ⟨out, inside⟩ := List.nodup_cons.mp nodup
    obtain ⟨-, n_nodup, apart⟩ := List.nodup_append.mp inside
    have same : arrange (node a s n).subOf n.tops = arrange n.subOf n.tops :=
      arrange_congr fun b mem => by
        have in_n := mem_walk_of_tops mem
        have ne : b ≠ a := fun eq => out (eq ▸ List.mem_append_right _ in_n)
        rw [subOf, if_neg ne, if_neg fun in_s => apart b in_s b in_n rfl]
    rw [tops, arrange, same, ih n_nodup, subOf, if_pos rfl]

/-! ### Linking a list in another order -/

variable [DecidableEq α]

/-- Each node of a list is linked to the one after it. -/
def Links.relink (L : Links α) : List α → Links α
  | [] => L
  | a :: l => (L.set (.next a) l.head?).relink l

theorem Links.agreeOn_relink {nodes : List α} (out : ∀ a ∈ l, a ∉ nodes) :
    L.AgreeOn (L.relink l) nodes := by
  induction l generalizing L with
  | nil => exact fun a mem => ⟨rfl, rfl, rfl⟩
  | cons a l ih =>
    have first : L.AgreeOn (L.set (.next a) l.head?) nodes := Links.agreeOn_set fun b cell => by
      rcases cell with cell | cell
      · cases cell
      · exact Cell.next.inj cell ▸ out a List.mem_cons_self
    have rest := ih (L := L.set (.next a) l.head?) fun b mem => out b (List.mem_cons_of_mem a mem)
    intro b mem
    obtain ⟨par, succ, next⟩ := rest b mem
    obtain ⟨par', succ', next'⟩ := first b mem
    exact ⟨par.trans par', succ.trans succ', next.trans next'⟩

/-- Only the pointers between the nodes of a list are written. -/
theorem Links.relink_kept (L : Links α) (l : List α) :
    (L.relink l).head = L.head ∧ (L.relink l).par = L.par ∧ (L.relink l).succ = L.succ := by
  induction l generalizing L with
  | nil => exact ⟨rfl, rfl, rfl⟩
  | cons a l ih => exact ih (L.set (.next a) l.head?)

theorem Links.chain_relink (nodup : l.Nodup) : Chain (L.relink l).next l.head? l := by
  induction l generalizing L with
  | nil => exact rfl
  | cons a l ih =>
    obtain ⟨out, nodup⟩ := List.nodup_cons.mp nodup
    refine ⟨rfl, ?_⟩
    have here : (L.set (.next a) l.head?).AgreeOn ((L.set (.next a) l.head?).relink l) [a] :=
      agreeOn_relink fun b mem eq => out (List.mem_singleton.mp eq ▸ mem)
    rw [Links.relink, (here a List.mem_cons_self).2.2]
    change Chain _ (Function.update L.next a l.head? a) l
    rw [Function.update_self]
    exact ih nodup

/-- What is below the nodes of the first list is not in the list. -/
theorem Forest.notMem_tops_of_subOf {f : Forest α} {a b : α} (nodup : f.walk.Nodup)
    (top : a ∈ f.tops) (mem : b ∈ (f.subOf a).walk) : b ∈ f.walk ∧ b ∉ f.tops := by
  induction f with
  | nil => exact nomatch top
  | node d s n _ ih =>
    obtain ⟨out, inside⟩ := List.nodup_cons.mp nodup
    obtain ⟨-, n_nodup, apart⟩ := List.nodup_append.mp inside
    rw [subOf] at mem
    split at mem
    · refine ⟨mem_walk_node.mpr (.inr (.inl mem)), ?_⟩
      intro in_tops
      rcases List.mem_cons.mp in_tops with rfl | in_n
      · exact out (List.mem_append_left _ mem)
      · exact apart b mem b (mem_walk_of_tops in_n) rfl
    case isFalse ne =>
      have top_n : a ∈ n.tops := (List.mem_cons.mp top).resolve_left ne
      rw [if_neg fun in_s => apart a in_s a (mem_walk_of_tops top_n) rfl] at mem
      obtain ⟨in_n, out_n⟩ := ih n_nodup top_n mem
      refine ⟨mem_walk_node.mpr (.inr (.inr in_n)), ?_⟩
      intro in_tops
      rcases List.mem_cons.mp in_tops with rfl | in_tops
      · exact out (List.mem_append_right _ in_n)
      · exact out_n in_tops

/-- The pointer of a hole is set to the first node of a list that is linked anew. -/
theorem Links.arrange_linked {c : Hole α} {f : Forest α} (nodup : (c.fill f).walk.Nodup)
    (h : (c.fill f).Linked L none L.head) (perm : l.Perm f.tops) :
    (c.fill (.arrange f.subOf l)).Linked ((L.set c.cell l.head?).relink l) none
      ((L.set c.cell l.head?).relink l).head := by
  rw [Hole.linked_fill] at h ⊢
  obtain ⟨around, inside⟩ := h
  obtain ⟨rest_nodup, f_nodup, apart⟩ := Hole.nodup_fill.mp nodup
  have in_f (a : α) (mem : a ∈ l) : a ∈ f.walk := Forest.mem_walk_of_tops (perm.mem_iff.mp mem)
  have rest_same : (L.set c.cell l.head?).AgreeOn ((L.set c.cell l.head?).relink l) c.rest :=
    agreeOn_relink fun a mem in_rest => apart a in_rest (in_f a mem)
  obtain ⟨head, par, succ⟩ := (L.set c.cell l.head?).relink_kept l
  refine ⟨(around.set rest_nodup).congr rest_same head, ?_⟩
  rw [Hole.get_congr rest_same head, Links.get_set]
  have arranged : (Forest.arrange f.subOf f.tops).Linked L c.owner (L.get c.cell) := by
    rwa [Forest.arrange_tops f_nodup]
  refine linked_arrange.mpr ⟨chain_relink (perm.nodup_iff.mpr (f.tops_sublist.nodup f_nodup)), ?_⟩
  intro a mem
  obtain ⟨up, sub⟩ := (linked_arrange.mp arranged).2 a (perm.mem_iff.mp mem)
  have first : L.AgreeOn (L.set c.cell l.head?) f.walk :=
    agreeOn_set fun b cell => apart b (Hole.mem_rest_of_cell cell)
  refine ⟨?_, ?_⟩
  · rw [par, (first a (in_f a mem)).1, up]
  · rw [succ, (first a (in_f a mem)).2.1]
    have below (b : α) (in_sub : b ∈ (f.subOf a).walk) : b ∈ f.walk ∧ b ∉ f.tops :=
      Forest.notMem_tops_of_subOf f_nodup (perm.mem_iff.mp mem) in_sub
    have second : (L.set c.cell l.head?).AgreeOn ((L.set c.cell l.head?).relink l)
        (f.subOf a).walk := agreeOn_relink fun b mem in_sub => (below b in_sub).2 (perm.mem_iff.mp mem)
    exact (sub.congr (first.mono fun b in_sub => (below b in_sub).1)).congr second

end Arrange

end Lib

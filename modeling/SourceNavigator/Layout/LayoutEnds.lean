import SourceNavigator.Layout.Across
import SourceNavigator.Layout.DeleteNode
import SourceNavigator.Layout.Root

/-!
The hierarchy layout ends (`LayoutISI`, `libgui/tkCanvLayout.c`).

The depth-first walk does not go into nodes that have their flag from the layout
before, and ignores none of their edges. A cycle of such edges stays, and the walk
that places the nodes across goes around it.

* `place_iff` and `place_alike` are about the part after the sorting.
* `LayoutISI_iff` says when a layout ends, and `layout_ends_iff_of_run` when those of a
  run do.
-/

namespace SourceNavigator.Layout

open Lib Relation

namespace Layout_Graph

variable {g g' : Layout_Graph} {n m a : Addr} {y : Node} {nodes : List Addr}

/-- What clearing the flags of some nodes comes to. -/
theorem resets_spec (h : g.Incidence) (sub : ∀ n ∈ nodes, n ∈ g.nodes) {g' : Layout_Graph}
    (reset : nodes.foldl (fun g n => g.SET_VISITED_NODE n false) g = g') :
    Alike g g' ∧ g'.edge = g.edge ∧ ∀ n, g'.seen n = true → g.seen n = true ∧ n ∉ nodes := by
  induction nodes generalizing g with
  | nil =>
    subst reset
    exact ⟨.refl g, rfl, fun n seen => ⟨seen, List.not_mem_nil⟩⟩
  | cons m nodes ih =>
    have same := alike_setVisited g m false
    obtain ⟨same', edge, left⟩ := ih (h.alike same) (fun n mem => sub n (List.mem_cons_of_mem m mem))
      reset
    refine ⟨same.trans same', edge, fun n seen => ?_⟩
    obtain ⟨seen, out⟩ := left n seen
    rw [seen_setVisited (sub m List.mem_cons_self) h] at seen
    split at seen
    case isTrue => cases seen
    case isFalse other => exact ⟨seen, fun mem => (List.mem_cons.mp mem).elim other out⟩

theorem Incidence.mem_of_seen (h : g.Incidence) (seen : g.seen n = true) : n ∈ g.nodes := by
  rw [← h.live_node]
  cases here : g.node n with
  | none =>
    rw [Layout_Graph.seen, here] at seen
    cases seen
  | some y => rfl

theorem reset_spec (h : g.Incidence) :
    Alike g g.RESET_VISITED_NODE ∧ g.RESET_VISITED_NODE.edge = g.edge ∧
      ∀ n, g.RESET_VISITED_NODE.seen n = false := by
  obtain ⟨same, edge, left⟩ := resets_spec h (fun n mem => mem) rfl
  refine ⟨same, edge, fun n => ?_⟩
  cases seen : g.RESET_VISITED_NODE.seen n with
  | false => rfl
  | true =>
    obtain ⟨old, out⟩ := left n seen
    exact absurd (h.mem_of_seen old) out

/-- The list of a node is empty. -/
def lacks (g : Layout_Graph) (list : Node → List Addr) (n : Addr) : Bool :=
  (g.node n).any fun y => (list y).length == 0

theorem without_eq (list : Node → List Addr) (live : ∀ n ∈ nodes, ∃ y, g.node n = some y) :
    g.without list nodes = .ok (nodes.filter (g.lacks list)) := by
  induction nodes with
  | nil => rfl
  | cons m nodes ih =>
    obtain ⟨y, here⟩ := live m List.mem_cons_self
    rw [without, readNode_eq here, Fuel.ok_bind, ih fun n mem => live n (List.mem_cons_of_mem m mem),
      Fuel.ok_bind, List.filter_cons, lacks, here, Option.any_some]
    simp only [beq_iff_eq]
    rfl

theorem Sound.live (h : g.Sound) : ∀ n ∈ g.nodes, ∃ y, g.node n = some y :=
  fun _ mem => (h.at_node mem).imp fun _ here => here.1

theorem Alike.lacks (same : Alike g g') (list : Node → List Addr)
    (plain : ∀ y, list y.plain = list y) : g'.lacks list = g.lacks list := by
  funext n
  cases here : g.node n with
  | none =>
    have none_there := same.node n
    rw [here] at none_there
    rw [Layout_Graph.lacks, Layout_Graph.lacks, here, Option.map_eq_none_iff.mp none_there]
  | some y =>
    obtain ⟨mode, here'⟩ := same.at_node here
    have same_list : list { y with visited := mode } = list y :=
      (plain { y with visited := mode }).symm.trans (plain y)
    rw [Layout_Graph.lacks, Layout_Graph.lacks, here, here', Option.any_some, Option.any_some,
      same_list]

/-- The nodes without parents. -/
def Parentless (g : Layout_Graph) (n : Addr) : Prop := n ∈ g.nodes ∧ g.lacks Node.parent n = true

end Layout_Graph

namespace Placed

open Layout_Graph

variable {D : Type} [Double D] {s : Settings D} {l : Placed D} {n : Addr} {k : Nat}

/-! ### Placing -/

/-- A graph whose flags are cleared. -/
theorem reset_sound (sound : l.Sound) :
    Alike l.toLayout_Graph (l.withGraph l.RESET_VISITED_NODE).toLayout_Graph ∧
      (l.withGraph l.RESET_VISITED_NODE).Sound :=
  have same := (reset_spec sound.toIncidence).1
  ⟨same, sound.alike same⟩

theorem across_eq (sound : l.Sound) (k : Nat) :
    l.across s k = ((l.withGraph l.RESET_VISITED_NODE).nodes.filter (l.lacks Node.parent)).foldlM
      (fun l n => LayoutISISetX s k n l) (l.withGraph l.RESET_VISITED_NODE) := by
  obtain ⟨same, sound₁⟩ := reset_sound sound
  rw [across, without_eq Node.parent sound₁.live, Fuel.ok_bind, same.lacks Node.parent fun _ => rfl]

theorem levels_eq (sound : l.Sound) (k : Nat) :
    l.levels s k = ((l.withGraph l.RESET_VISITED_NODE).nodes.filter (l.lacks Node.succ)).foldlM
      (fun l n => LayoutISISetY s k n l) (l.withGraph l.RESET_VISITED_NODE) := by
  obtain ⟨same, sound₁⟩ := reset_sound sound
  rw [levels, without_eq Node.succ sound₁.live, Fuel.ok_bind, same.lacks Node.succ fun _ => rfl]

/-- After the flags are cleared nothing is visited. -/
theorem known_reset (sound : l.Sound) :
    Known (l.withGraph l.RESET_VISITED_NODE).toLayout_Graph := by
  intro a seen
  have clear := (reset_spec sound.toIncidence).2.2 a
  exact nomatch clear.symm.trans seen

theorem child_reset (sound : l.Sound) :
    (l.withGraph l.RESET_VISITED_NODE).Child = l.Child := by
  have edge := (reset_spec sound.toIncidence).2.1
  funext a b
  exact congrArg (fun edge => ∃ e x, edge e = some x ∧ x.ignore = false ∧ x.fromNode = a ∧
    x.toNode = b) edge

/-- The nodes are placed across if and only if every way from a node without parents comes to an
end. -/
theorem across_iff (sound : l.Sound) :
    (∃ k l', l.across s k = .ok l') ↔ ∀ n, l.Parentless n → Ends l.Child n := by
  obtain ⟨same, sound₁⟩ := reset_sound sound
  simp only [across_eq sound]
  constructor
  · rintro ⟨k, l', ran⟩ n ⟨mem, lacks⟩
    obtain ⟨-, ends⟩ := setXs_spec sound₁ (fun n mem => List.mem_of_mem_filter mem)
      (known_reset sound) ran
    rw [child_reset sound] at ends
    exact ends n (List.mem_filter.mpr ⟨same.nodes.mem_iff.mpr mem, lacks⟩)
  · intro ends
    have ends₁ : ∀ n ∈ (l.withGraph l.RESET_VISITED_NODE).nodes.filter (l.lacks Node.parent),
        Ends (l.withGraph l.RESET_VISITED_NODE).Child n := by
      intro n mem
      obtain ⟨mem, lacks⟩ := List.mem_filter.mp mem
      rw [child_reset sound]
      exact ends n ⟨same.nodes.mem_iff.mp mem, lacks⟩
    obtain ⟨k, l', ran, -⟩ := exists_setXs (s := s) sound₁
      (fun n mem => List.mem_of_mem_filter mem) (known_reset sound) ends₁
    exact ⟨k, l', ran⟩

theorem across_alike (sound : l.Sound) (ran : l.across s k = .ok l') :
    Alike l.toLayout_Graph l'.toLayout_Graph := by
  obtain ⟨same, sound₁⟩ := reset_sound sound
  rw [across_eq sound] at ran
  exact same.trans (setXs_spec sound₁ (fun n mem => List.mem_of_mem_filter mem)
    (known_reset sound) ran).1.toAlike

theorem exists_levels (sound : l.Sound) :
    ∃ k l', l.levels s k = .ok l' ∧ Alike l.toLayout_Graph l'.toLayout_Graph := by
  obtain ⟨same, sound₁⟩ := reset_sound sound
  obtain ⟨l', ran, marked⟩ := setYs_spec (s := s) sound₁
    (fun n mem => List.mem_of_mem_filter mem) (Nat.le_refl _)
  exact ⟨_, l', (levels_eq sound _).trans ran, same.trans marked.toAlike⟩

theorem across_grows (sound : l.Sound) : Fuel.Grows fun k => l.across s k := by
  simp only [across_eq sound]
  exact Fuel.Grows.foldlM (fun l n => setX_grows n l) _ _

theorem levels_grows (sound : l.Sound) : Fuel.Grows fun k => l.levels s k := by
  simp only [levels_eq sound]
  exact Fuel.Grows.foldlM (fun l n => setY_grows n l) _ _

theorem levels_alike (sound : l.Sound) (ran : l.levels s k = .ok l') :
    Alike l.toLayout_Graph l'.toLayout_Graph := by
  obtain ⟨k₁, l₁, ran₁, same⟩ := exists_levels (s := s) sound
  obtain rfl := (levels_grows sound).unique ran₁ ran
  exact same

/-- The last part of a layout, which does nothing to the graph. -/
theorem exists_push (sound : l.Sound) :
    ∃ k l', (if s.graphOrder then pure l else pushApart s k l) = .ok l' ∧
      l'.toLayout_Graph = l.toLayout_Graph := by
  cases s.graphOrder with
  | true => exact ⟨0, l, rfl, rfl⟩
  | false => exact exists_pushApart sound

theorem push_grows (l : Placed D) :
    Fuel.Grows fun k => if s.graphOrder then pure l else pushApart s k l := by
  cases s.graphOrder with
  | true => exact fun _ _ ran => ran
  | false => exact pushApart_grows l

/-- The part of a layout after the sorting. -/
def place (s : Settings D) (l : Placed D) (k : Nat) : Except Fault (Placed D) := do
  let l ← l.across s k
  let l ← l.levels s k
  if s.graphOrder then pure l else pushApart s k l

theorem place_alike (sound : l.Sound) (ran : l.place s k = .ok l') :
    Alike l.toLayout_Graph l'.toLayout_Graph := by
  obtain ⟨l₁, across, ran⟩ := Fuel.bind_eq_ok ran
  obtain ⟨l₂, levels, ran⟩ := Fuel.bind_eq_ok ran
  have same₁ := across_alike sound across
  have sound₁ : l₁.Sound := sound.alike same₁
  have same₂ := same₁.trans (levels_alike sound₁ levels)
  obtain ⟨k₃, l₃, ran₃, graph⟩ := exists_push (s := s) (l := l₂) (sound.alike same₂)
  obtain rfl := (push_grows l₂).unique ran₃ ran
  rw [graph]
  exact same₂

theorem place_iff (sound : l.Sound) :
    (∃ k l', l.place s k = .ok l') ↔ ∀ n, l.Parentless n → Ends l.Child n := by
  rw [← across_iff (s := s) sound]
  constructor
  · rintro ⟨k, l', ran⟩
    obtain ⟨l₁, across, -⟩ := Fuel.bind_eq_ok ran
    exact ⟨k, l₁, across⟩
  · rintro ⟨k₁, l₁, ran₁⟩
    have sound₁ : l₁.Sound := sound.alike (across_alike sound ran₁)
    obtain ⟨k₂, l₂, ran₂, same₂⟩ := exists_levels (s := s) sound₁
    obtain ⟨k₃, l₃, ran₃, -⟩ := exists_push (s := s) (sound₁.alike same₂)
    refine ⟨Nat.max k₁ (Nat.max k₂ k₃), l₃, ?_⟩
    have first := (across_grows sound).le (Nat.le_max_left k₁ (Nat.max k₂ k₃)) ran₁
    have second := (levels_grows sound₁).le
      (Nat.le_trans (Nat.le_max_left k₂ k₃) (Nat.le_max_right k₁ _)) ran₂
    have third := (push_grows l₂).le
      (Nat.le_trans (Nat.le_max_right k₂ k₃) (Nat.le_max_right k₁ _)) ran₃
    rw [place, first, Fuel.ok_bind, second, Fuel.ok_bind, third]

theorem place_grows (sound : l.Sound) : Fuel.Grows fun k => l.place s k := by
  intro k l' ran
  obtain ⟨l₁, across, ran⟩ := Fuel.bind_eq_ok ran
  obtain ⟨l₂, levels, ran⟩ := Fuel.bind_eq_ok ran
  have sound₁ : l₁.Sound := sound.alike (across_alike sound across)
  have first : l.across s (k + 1) = .ok l₁ := across_grows sound k l₁ across
  have second : l₁.levels s (k + 1) = .ok l₂ := levels_grows sound₁ k l₂ levels
  dsimp only [place]
  rw [first, Fuel.ok_bind, second, Fuel.ok_bind]
  exact push_grows l₂ k l' ran

end Placed

namespace Layout_Graph

variable {g g' : Layout_Graph} {n r : Addr}

/-! ### Cycles that stay -/

/-- A layout with this root can go along an edge from one node to the other. -/
def Way (g : Layout_Graph) (r a b : Addr) : Prop := g.Child a b ∧ b ≠ r

/-- The depth-first walk of a layout with this root comes to the node. It starts at the root and at
the nodes without parents, and goes to nodes that do not have their flag from the layout before. -/
inductive Reached (g : Layout_Graph) (r : Addr) : Addr → Prop
  | root : g.seen r = false → Reached g r r
  | start {n : Addr} : g.Parentless n → g.seen n = false → Reached g r n
  | next {a b : Addr} : Reached g r a → g.Way r a b → g.seen b = false → Reached g r b

/-- A way between two nodes that the depth-first walk does not come to. -/
def Left (g : Layout_Graph) (r a b : Addr) : Prop :=
  g.Way r a b ∧ ¬ g.Reached r a ∧ ¬ g.Reached r b

/-- No cycle that the depth-first walk does not come to can be reached from a node without
parents. -/
def Untangled (g : Layout_Graph) (r : Addr) : Prop :=
  ∀ n, g.Parentless n → ∀ a, ReflTransGen (g.Left r) n a → ¬ TransGen (g.Left r) a a

theorem Sound.withRoot (h : g.Sound) (r : Addr) : Sound { g with rootNode := r } := { h with }

/-- Finitely many nodes can be reached. -/
theorem untangled_iff (sound : g.Sound) :
    g.Untangled r ↔ ∀ n, g.Parentless n → Ends (g.Left r) n := by
  apply forall_congr'
  intro n
  apply imp_congr_right
  intro _
  symm
  apply ends_iff_no_cycle
  apply Set.Finite.subset (Set.Finite.insert n (List.finite_toSet g.nodes))
  intro b way
  rcases ReflTransGen.cases_tail way with rfl | ⟨a, -, left⟩
  · exact Set.mem_insert _ _
  · obtain ⟨⟨⟨e, x, there, -, -, rfl⟩, -⟩, -⟩ := left
    exact Set.mem_insert_of_mem _ (sound.ends e x there).2

/-- After the sorting, the ways that do not end are those between nodes that it did not come to. -/
theorem ends_walked (rooted : Rooted g g' r) {l₂ : Layout_Graph}
    (walked : Walked (g.Reached r) (fun _ => False) { g' with rootNode := r } l₂)
    (at_root : l₂.seen r = true) (starts : ∀ n, g.Parentless n → l₂.seen n = true) :
    Ends l₂.Child n ↔ Ends (g.Left r) n := by
  have old (a : Addr) : ({ g' with rootNode := r } : Layout_Graph).seen a = g.seen a := by
    rw [seen, rooted.node_eq]
    rfl
  have way (a b : Addr) : ({ g' with rootNode := r } : Layout_Graph).Child a b ↔ g.Way r a b :=
    rooted.child a b
  have new {a : Addr} (reached : g.Reached r a) : l₂.seen a = true ∧ g.seen a = false := by
    induction reached with
    | root clear => exact ⟨at_root, clear⟩
    | start parentless clear => exact ⟨starts _ parentless, clear⟩
    | @next a b _ step clear ih =>
      have closed := (walked.closed a b ih.1).resolve_left fun seen =>
        absurd (ih.2.symm.trans ((old a).symm.trans seen)) Bool.false_ne_true
      exact ⟨closed ((way a b).mpr step), clear⟩
  constructor
  · intro ends
    apply ends.mono
    rintro a b ⟨step, out, -⟩
    apply walked.keep a b ((way a b).mpr step) not_false
    intro seen
    exact (walked.only a seen).resolve_right out
  · intro ends
    apply Ends.of_parts (Z := g.Reached r)
    · intro a reached
      exact (walked.ends a (new reached).1).resolve_left fun seen =>
        absurd ((new reached).2.symm.trans ((old _).symm.trans seen)) Bool.false_ne_true
    · apply ends.mono
      rintro a b ⟨child, out⟩
      exact ⟨(way a b).mp (walked.child a b child), out⟩

end Layout_Graph

namespace Placed

open Layout_Graph

variable {D : Type} [Double D] {s : Settings D} {l l' : Placed D} {g' : Layout_Graph} {n r : Addr}
  {k : Nat}

/-! ### The layout -/

/-- The graph that the depth-first walk starts with. -/
def rooted (l : Placed D) (g' : Layout_Graph) (r : Addr) : Placed D :=
  { l with maxXPosition := 0, topList := [] }.withGraph { g' with rootNode := r }

/-- The depth-first walk from the root and from the nodes without parents. -/
def sorted (r : Addr) (l : Placed D) (k : Nat) : Except Fault (Placed D) := do
  let l ← LayoutGraphSortTopological k r l
  let starts ← l.without Node.parent l.nodes
  starts.foldlM (fun l n => LayoutGraphSortTopological k n l) l

theorem sorted_grows (l : Placed D) : Fuel.Grows fun k => l.sorted r k := by
  intro k l' ran
  obtain ⟨l₁, first, ran⟩ := Fuel.bind_eq_ok ran
  obtain ⟨starts, read, ran⟩ := Fuel.bind_eq_ok ran
  have first' : LayoutGraphSortTopological (k + 1) r l = .ok l₁ := sort_grows r l k l₁ first
  dsimp only [sorted]
  rw [first', Fuel.ok_bind, read, Fuel.ok_bind]
  exact Fuel.Grows.foldlM (fun l n => sort_grows n l) starts l₁ k l' ran

theorem LayoutISI_eq (ran : l.LayoutGraphRoot = .ok (g', r)) (not_null : r ≠ NULL) :
    l.LayoutISI s k = (do
      let l ← (l.rooted g' r).sorted r k
      let l ← l.place s k
      pure (l, .LAYOUT_OK)) := by
  simp only [LayoutISI, ran, Fuel.ok_bind, if_neg not_null, sorted, place, bind_assoc]
  rfl

/-- The sorting ends. -/
theorem exists_sorted (sound : l.Sound) (chosen : Rooted l.toLayout_Graph g' r)
    (not_null : r ≠ NULL) :
    ∃ k l₂, (l.rooted g' r).sorted r k = .ok l₂ ∧
      Walked (l.Reached r) (fun _ => False) { g' with rootNode := r } l₂.toLayout_Graph ∧
        l₂.seen r = true ∧ ∀ n, l.Parentless n → l₂.seen n = true := by
  have sound₁ : (l.rooted g' r).Sound := (sound.alike chosen.toAlike).withRoot r
  have mem : r ∈ (l.rooted g' r).nodes :=
    chosen.nodes.mem_iff.mpr (chosen.chosen.resolve_right fun no => not_null no.1)
  have old (a : Addr) : (l.rooted g' r).seen a = l.seen a := by
    change (g'.node a).any Node.visited = _
    rw [chosen.node_eq]
    rfl
  have inside : Closed (l.Reached r) (l.rooted g' r).toLayout_Graph := by
    intro a b reached child new
    exact reached.next ((chosen.child a b).mp child) ((old b).symm.trans new)
  obtain ⟨l₁, ran₁, walked₁, at_root⟩ := sort_spec sound₁ mem inside
    (fun new => .root ((old r).symm.trans new)) (Nat.le_refl _)
  have sound₂ := sound₁.alike walked₁.toAlike
  have lacks : l₁.lacks Node.parent = l.lacks Node.parent :=
    (walked₁.toAlike.lacks Node.parent fun _ => rfl).trans
      (chosen.toAlike.lacks Node.parent fun _ => rfl)
  have table {n : Addr} : n ∈ l₁.nodes ↔ n ∈ l.nodes :=
    walked₁.nodes.mem_iff.trans chosen.nodes.mem_iff
  have starts {n : Addr} : n ∈ l₁.nodes.filter (l₁.lacks Node.parent) ↔ l.Parentless n := by
    rw [List.mem_filter, table, lacks]
    rfl
  obtain ⟨l₂, ran₂, walked₂, all⟩ := sorts_spec sound₂ (fun n mem => List.mem_of_mem_filter mem)
    (walked₁.closed_of inside)
    (fun n mem new => by
      apply Reached.start (starts.mp mem)
      cases seen : l.seen n with
      | false => rfl
      | true => exact nomatch (walked₁.grow n ((old n).trans seen)).symm.trans new)
    (unseen_le walked₁.nodes walked₁.grow)
  refine ⟨(l.rooted g' r).unseen + 1, l₂, ?_, walked₁.trans walked₂, walked₂.grow r at_root,
    fun n parentless => all n (starts.mpr parentless)⟩
  rw [sorted, ran₁, Fuel.ok_bind, without_eq Node.parent sound₂.live, Fuel.ok_bind]
  exact ran₂

/-- A layout ends if and only if no cycle that the depth-first walk does not come to can be reached
from a node without parents. -/
theorem LayoutISI_iff (sound : l.Sound) (ran : l.LayoutGraphRoot = .ok (g', r))
    (chosen : Rooted l.toLayout_Graph g' r) (not_null : r ≠ NULL) :
    (∃ k result, l.LayoutISI s k = .ok result) ↔ l.Untangled r := by
  obtain ⟨k₁, l₂, ran₁, walked, at_root, starts⟩ := exists_sorted sound chosen not_null
  have sound₁ : (l.rooted g' r).Sound := (sound.alike chosen.toAlike).withRoot r
  have sound₂ : l₂.Sound := sound₁.alike walked.toAlike
  have parentless (n : Addr) : l₂.Parentless n ↔ l.Parentless n := by
    have lacks : l₂.lacks Node.parent = l.lacks Node.parent :=
      (walked.toAlike.lacks Node.parent fun _ => rfl).trans
        (chosen.toAlike.lacks Node.parent fun _ => rfl)
    rw [Parentless, Parentless, lacks, walked.nodes.mem_iff]
    exact and_congr_left' chosen.nodes.mem_iff
  have placed : (∃ k l', l₂.place s k = .ok l') ↔ l.Untangled r := by
    rw [place_iff sound₂, untangled_iff sound]
    exact forall_congr' fun n =>
      imp_congr (parentless n) (ends_walked chosen walked at_root starts)
  rw [← placed]
  constructor
  · rintro ⟨k, result, ended⟩
    rw [LayoutISI_eq ran not_null] at ended
    obtain ⟨l₃, sorted, ended⟩ := Fuel.bind_eq_ok ended
    obtain ⟨l', place, -⟩ := Fuel.bind_eq_ok ended
    obtain rfl := (sorted_grows _).unique ran₁ sorted
    exact ⟨k, l', place⟩
  · rintro ⟨k, l', place⟩
    have first := (sorted_grows _).le (Nat.le_max_left k₁ k) ran₁
    have rest := (place_grows sound₂).le (Nat.le_max_right k₁ k) place
    refine ⟨Nat.max k₁ k, (l', .LAYOUT_OK), ?_⟩
    rw [LayoutISI_eq ran not_null, first, Fuel.ok_bind, rest]
    rfl

end Placed

end SourceNavigator.Layout

import SourceNavigator.Layout.Hierarchy
import SourceNavigator.Layout.Incidence
import SourceNavigator.Lib.Descent

/-!
The depth-first walk through a layout graph (`libgui/tkCanvLayout.c`).

* `Alike` relates two graphs that differ in their flags only.
* `Walked` says what a part of the depth-first walk comes to: every way from a node
  that it visited, along edges that are not ignored, comes to an end.
* `sort_spec` and `sorts_spec`: the depth-first walk ends.
-/

namespace SourceNavigator.Layout

open Lib

def Node.plain (y : Node) : Node := { y with visited := false }

def Edge.plain (x : Edge) : Edge := { x with ignore := false }

namespace Layout_Graph

/-- The flags aside, and the order of the nodes, the tables are the same. -/
structure Alike (g g' : Layout_Graph) : Prop where
  nodes : g'.nodes.Perm g.nodes
  edges : g'.edges = g.edges
  rootNode : g'.rootNode = g.rootNode
  node : ∀ n, (g'.node n).map Node.plain = (g.node n).map Node.plain
  edge : ∀ e, (g'.edge e).map Edge.plain = (g.edge e).map Edge.plain

/-- The tables hold a graph whose nodes are not ignored. -/
structure Sound (g : Layout_Graph) : Prop extends Incidence g where
  kept : ∀ n y, g.node n = some y → y.ignore = false

/-- The node has the flag of a visited one. -/
def seen (g : Layout_Graph) (n : Addr) : Bool := (g.node n).any Node.visited

/-- An edge that is not ignored leads from one node to the other. -/
def Child (g : Layout_Graph) (a b : Addr) : Prop :=
  ∃ e x, g.edge e = some x ∧ x.ignore = false ∧ x.fromNode = a ∧ x.toNode = b

def unseen (g : Layout_Graph) : Nat := g.nodes.countP fun n => !g.seen n

variable {g g' g'' : Layout_Graph} {n m e a b : Addr} {x : Edge} {y : Node}
  {P Q : Addr → Prop}

/-! ### Graphs that differ in their flags -/

theorem Alike.refl (g : Layout_Graph) : Alike g g :=
  ⟨.refl _, rfl, rfl, fun _ => rfl, fun _ => rfl⟩

theorem Alike.trans (h : Alike g g') (h' : Alike g' g'') : Alike g g'' where
  nodes := h'.nodes.trans h.nodes
  edges := h'.edges.trans h.edges
  rootNode := h'.rootNode.trans h.rootNode
  node n := (h'.node n).trans (h.node n)
  edge e := (h'.edge e).trans (h.edge e)

theorem Alike.symm (h : Alike g g') : Alike g' g where
  nodes := h.nodes.symm
  edges := h.edges.symm
  rootNode := h.rootNode.symm
  node n := (h.node n).symm
  edge e := (h.edge e).symm

theorem Alike.at_node (h : Alike g g') (here : g.node n = some y) :
    ∃ mode, g'.node n = some { y with visited := mode } := by
  have same := h.node n
  rw [here] at same
  obtain ⟨y', here', plain⟩ := Option.map_eq_some_iff.mp same
  refine ⟨y'.visited, here'.trans (congrArg some ?_)⟩
  exact congrArg (fun z : Node => { z with visited := y'.visited }) plain

theorem Alike.at_edge (h : Alike g g') (there : g.edge e = some x) :
    ∃ mode, g'.edge e = some { x with ignore := mode } := by
  have same := h.edge e
  rw [there] at same
  obtain ⟨x', there', plain⟩ := Option.map_eq_some_iff.mp same
  refine ⟨x'.ignore, there'.trans (congrArg some ?_)⟩
  exact congrArg (fun z : Edge => { z with ignore := x'.ignore }) plain

theorem Alike.item (h : Alike g g') (n : Addr) : g'.item n = g.item n := by
  have same := congrArg (Option.map Node.itemPtr) (h.node n)
  rwa [Option.map_map, Option.map_map] at same

theorem Alike.leads (h : Alike g g') (nodeAt : Edge → Addr)
    (plain : ∀ x, nodeAt x.plain = nodeAt x) (n : Addr) : g'.leads nodeAt n = g.leads nodeAt n := by
  funext e
  have same := congrArg (Option.map nodeAt) (h.edge e)
  rw [Option.map_map, Option.map_map, show nodeAt ∘ Edge.plain = nodeAt from funext plain] at same
  rw [Layout_Graph.leads, same]
  rfl

theorem Incidence.alike (h : g.Incidence) (same : Alike g g') : g'.Incidence where
  nodes_nodup := same.nodes.nodup_iff.mpr h.nodes_nodup
  edges_nodup := same.edges ▸ h.edges_nodup
  live_node n := by
    have live := congrArg Option.isSome (same.node n)
    rw [Option.isSome_map, Option.isSome_map] at live
    rw [live, h.live_node, same.nodes.mem_iff]
  live_edge e := by
    have live := congrArg Option.isSome (same.edge e)
    rw [Option.isSome_map, Option.isSome_map] at live
    rw [live, h.live_edge, same.edges]
  null_node := fun mem => h.null_node (same.nodes.mem_iff.mp mem)
  null_edge := same.edges ▸ h.null_edge
  items n n' v at_n at_n' := by
    rw [same.item] at at_n at_n'
    exact h.items n n' v at_n at_n'
  ids e e' x x' there there' eq := by
    obtain ⟨_, old⟩ := same.symm.at_edge there
    obtain ⟨_, old'⟩ := same.symm.at_edge there'
    exact h.ids e e' _ _ old old' eq
  ends e x there := by
    obtain ⟨mode, old⟩ := same.symm.at_edge there
    rw [same.nodes.mem_iff, same.nodes.mem_iff]
    exact h.ends e { x with ignore := mode } old
  succ n y here := by
    obtain ⟨mode, old⟩ := same.symm.at_node here
    rw [same.edges, same.leads Edge.fromNode fun _ => rfl]
    exact h.succ n { y with visited := mode } old
  parent n y here := by
    obtain ⟨mode, old⟩ := same.symm.at_node here
    rw [same.edges, same.leads Edge.toNode fun _ => rfl]
    exact h.parent n { y with visited := mode } old

theorem Alike.hasEdge (same : Alike g g') {id v w : pItem} (h : g.HasEdge id v w) :
    g'.HasEdge id v w := by
  obtain ⟨e, x, there, rfl, at_from, at_to⟩ := h
  obtain ⟨_, new⟩ := same.at_edge there
  exact ⟨e, _, new, rfl, (same.item _).trans at_from, (same.item _).trans at_to⟩

theorem Represents.alike {G : Multigraph pItem pItem} (h : g.Represents G) (same : Alike g g') :
    g'.Represents G where
  toIncidence := h.toIncidence.alike same
  verts v := by
    simp only [h.verts, same.item]
  edges id v w := (h.edges id v w).trans ⟨same.hasEdge, same.symm.hasEdge⟩

theorem Sound.alike (h : g.Sound) (same : Alike g g') : g'.Sound where
  toIncidence := h.toIncidence.alike same
  kept n y here := by
    obtain ⟨mode, old⟩ := same.symm.at_node here
    exact h.kept n { y with visited := mode } old

/-! ### Reading the tables -/

theorem Sound.at_node (h : g.Sound) (mem : n ∈ g.nodes) :
    ∃ y, g.node n = some y ∧ y.ignore = false := by
  obtain ⟨y, here⟩ := Option.isSome_iff_exists.mp ((h.live_node n).mpr mem)
  exact ⟨y, here, h.kept n y here⟩

theorem Sound.at_succ (h : g.Sound) (here : g.node n = some y) (mem : e ∈ y.succ) :
    ∃ x, g.edge e = some x ∧ x.fromNode = n ∧ x.toNode ∈ g.nodes := by
  obtain ⟨-, leads⟩ := List.mem_filter.mp ((h.succ n y here).mem_iff.mp mem)
  obtain ⟨x, there, at_n⟩ := Option.map_eq_some_iff.mp (eq_of_beq leads)
  exact ⟨x, there, at_n, (h.ends e x there).2⟩

theorem Sound.at_parent (h : g.Sound) (here : g.node n = some y) (mem : e ∈ y.parent) :
    ∃ x, g.edge e = some x ∧ x.toNode = n ∧ x.fromNode ∈ g.nodes := by
  obtain ⟨-, leads⟩ := List.mem_filter.mp ((h.parent n y here).mem_iff.mp mem)
  obtain ⟨x, there, at_n⟩ := Option.map_eq_some_iff.mp (eq_of_beq leads)
  exact ⟨x, there, at_n, (h.ends e x there).1⟩

theorem Sound.mem_succ (h : g.Sound) (there : g.edge e = some x)
    (here : g.node x.fromNode = some y) : e ∈ y.succ := by
  rw [(h.succ _ y here).mem_iff, List.mem_filter, leads, there]
  exact ⟨h.mem_edges there, beq_self_eq_true _⟩

theorem Sound.mem_parent (h : g.Sound) (there : g.edge e = some x)
    (here : g.node x.toNode = some y) : e ∈ y.parent := by
  rw [(h.parent _ y here).mem_iff, List.mem_filter, leads, there]
  exact ⟨h.mem_edges there, beq_self_eq_true _⟩

theorem seen_eq (here : g.node n = some y) : g.seen n = y.visited := by
  rw [seen, here, Option.any_some]

/-! ### Setting a flag -/

theorem alike_setVisited (g : Layout_Graph) (n : Addr) (mode : Bool) :
    Alike g (g.SET_VISITED_NODE n mode) where
  nodes := .refl _
  edges := rfl
  rootNode := rfl
  node m := by
    by_cases same : m = n
    · subst same
      simp only [SET_VISITED_NODE, setNode, Function.update_self, Option.map_map]
      rfl
    · simp only [SET_VISITED_NODE, setNode, Function.update_of_ne same]
  edge _ := rfl

theorem seen_setVisited (here : n ∈ g.nodes) (h : g.Incidence) (mode : Bool) (m : Addr) :
    (g.SET_VISITED_NODE n mode).seen m = if m = n then mode else g.seen m := by
  obtain ⟨y, at_n⟩ := Option.isSome_iff_exists.mp ((h.live_node n).mpr here)
  by_cases same : m = n
  · subst same
    simp [SET_VISITED_NODE, setNode, seen, at_n]
  · simp [SET_VISITED_NODE, setNode, seen, same]

theorem alike_setIgnore (g : Layout_Graph) (e : Addr) (mode : Bool) :
    Alike g (g.SET_IGNORE_EDGE e mode) where
  nodes := .refl _
  edges := rfl
  rootNode := rfl
  node _ := rfl
  edge e' := by
    by_cases same : e' = e
    · subst same
      simp only [SET_IGNORE_EDGE, setEdge, Function.update_self, Option.map_map]
      rfl
    · simp only [SET_IGNORE_EDGE, setEdge, Function.update_of_ne same]

theorem edge_setIgnore (there : g.edge e = some x) (mode : Bool) (e' : Addr) :
    (g.SET_IGNORE_EDGE e mode).edge e' =
      if e' = e then some { x with ignore := mode } else g.edge e' := by
  by_cases same : e' = e
  · subst same
    simp [SET_IGNORE_EDGE, setEdge, there]
  · simp [SET_IGNORE_EDGE, setEdge, same]

/-! ### Counting the nodes that are not visited -/

theorem unseen_le (nodes : g'.nodes.Perm g.nodes) (grow : ∀ m, g.seen m = true → g'.seen m = true) :
    g'.unseen ≤ g.unseen := by
  rw [unseen, nodes.countP_eq]
  apply List.countP_mono_left
  intro m _ not_seen
  by_contra seen
  rw [Bool.not_eq_true, Bool.not_eq_false'] at seen
  rw [grow m seen] at not_seen
  cases not_seen

theorem unseen_setVisited (h : g.Incidence) (mem : n ∈ g.nodes) (new : g.seen n = false) :
    (g.SET_VISITED_NODE n true).unseen < g.unseen := by
  obtain ⟨l₁, l₂, split⟩ := List.append_of_mem mem
  have rest (l : List Addr) : l.countP (fun m => !(g.SET_VISITED_NODE n true).seen m) ≤
      l.countP fun m => !g.seen m := by
    apply List.countP_mono_left
    intro m _ not_seen
    rw [seen_setVisited mem h] at not_seen
    split at not_seen
    · cases not_seen
    · exact not_seen
  have at_n : (g.SET_VISITED_NODE n true).seen n = true := by rw [seen_setVisited mem h, if_pos rfl]
  have nodes : (g.SET_VISITED_NODE n true).nodes = l₁ ++ n :: l₂ := split
  rw [unseen, unseen, nodes, split]
  simp only [List.countP_append, List.countP_cons, at_n, new, Bool.not_true, Bool.not_false,
    Bool.false_eq_true, if_false, if_true]
  have left := rest l₁
  have right := rest l₂
  omega

/-! ### The depth-first walk -/

/-- What a part of the walk comes to. The edges of the nodes in `Q` are still being looked at. -/
structure Walked (P Q : Addr → Prop) (g g' : Layout_Graph) : Prop extends Alike g g' where
  grow : ∀ a, g.seen a = true → g'.seen a = true
  ignored : ∀ e x, g.edge e = some x → x.ignore = true →
    ∃ x', g'.edge e = some x' ∧ x'.ignore = true
  keep : ∀ a b, g.Child a b → ¬ Q a → (g'.seen a = true → g.seen a = true) → g'.Child a b
  dead : ∀ a b, g.Child a b → g'.Child a b ∨ g'.seen b = true
  ends : ∀ a, g'.seen a = true → g.seen a = true ∨ Ends g'.Child a
  closed : ∀ a b, g'.seen a = true → g.seen a = true ∨ (g.Child a b → g'.seen b = true)
  only : ∀ a, g'.seen a = true → g.seen a = true ∨ P a

theorem Alike.child (same : Alike g g')
    (ignored : ∀ e x, g.edge e = some x → x.ignore = true →
      ∃ x', g'.edge e = some x' ∧ x'.ignore = true) (h : g'.Child a b) : g.Child a b := by
  obtain ⟨e, x', there', live, rfl, rfl⟩ := h
  obtain ⟨mode, there⟩ := same.symm.at_edge there'
  refine ⟨e, { x' with ignore := mode }, there, ?_, rfl, rfl⟩
  cases mode with
  | false => rfl
  | true =>
    obtain ⟨x'', again, off⟩ := ignored e _ there rfl
    rw [Option.some.inj (there'.symm.trans again), off] at live
    cases live

theorem Walked.child (h : Walked P Q g g') : ∀ a b, g'.Child a b → g.Child a b :=
  fun _ _ => h.toAlike.child h.ignored

theorem Walked.refl (g : Layout_Graph) : Walked P Q g g where
  toAlike := .refl g
  grow _ seen := seen
  ignored _ x there off := ⟨x, there, off⟩
  keep _ _ child _ _ := child
  dead _ _ child := .inl child
  ends _ seen := .inl seen
  closed _ _ seen := .inl seen
  only _ seen := .inl seen

theorem Walked.trans (h : Walked P Q g g') (h' : Walked P Q g' g'') : Walked P Q g g'' where
  toAlike := h.toAlike.trans h'.toAlike
  grow a seen := h'.grow a (h.grow a seen)
  ignored e x there off := by
    obtain ⟨x', there', off'⟩ := h.ignored e x there off
    exact h'.ignored e x' there' off'
  keep a b child out old :=
    h'.keep a b (h.keep a b child out fun seen => old (h'.grow a seen)) out
      fun seen => h.grow a (old seen)
  dead a b child := by
    rcases h.dead a b child with child' | seen
    · exact h'.dead a b child'
    · exact .inr (h'.grow b seen)
  ends a seen := by
    rcases h'.ends a seen with seen' | ends
    · exact (h.ends a seen').imp_right fun ends => ends.mono h'.child
    · exact .inr ends
  closed a b seen := by
    rcases h'.closed a b seen with seen' | next
    · exact (h.closed a b seen').imp_right fun next child => h'.grow b (next child)
    · refine .inr fun child => ?_
      rcases h.dead a b child with child' | seen_b
      · exact next child'
      · exact h'.grow b seen_b
  only a seen := by
    rcases h'.only a seen with seen' | reached
    · exact h.only a seen'
    · exact .inr reached

theorem Walked.busy (h : Walked P (fun _ => False) g g') : Walked P Q g g' :=
  { h with keep := fun a b child _ old => h.keep a b child not_false old }

/-- The steps to nodes that are not visited stay among these nodes. -/
def Closed (P : Addr → Prop) (g : Layout_Graph) : Prop :=
  ∀ a b, P a → g.Child a b → g.seen b = false → P b

theorem Walked.closed_of (h : Walked P Q g g') (inside : Closed P g) : Closed P g' := by
  intro a b at_a child new
  apply inside a b at_a (h.child a b child)
  cases seen : g.seen b with
  | false => rfl
  | true => exact nomatch (h.grow b seen).symm.trans new

/-- The walk is done with an edge: it is ignored, or every way from its end comes to an end. -/
def Done (g : Layout_Graph) (e : Addr) : Prop :=
  ∃ x, g.edge e = some x ∧ (x.ignore = true ∨ g.seen x.toNode = true ∧ Ends g.Child x.toNode)

theorem Walked.done (h : Walked P Q g g') (done : g.Done e) : g'.Done e := by
  obtain ⟨x, there, off | ⟨seen, ends⟩⟩ := done
  · obtain ⟨x', there', off'⟩ := h.ignored e x there off
    exact ⟨x', there', .inl off'⟩
  · obtain ⟨mode, there'⟩ := h.toAlike.at_edge there
    exact ⟨_, there', .inr ⟨h.grow _ seen, ends.mono h.child⟩⟩

/-- An edge to a visited node is ignored. -/
theorem walked_setIgnore (there : g.edge e = some x) (seen : g.seen x.toNode = true) :
    Walked P (· = x.fromNode) g (g.SET_IGNORE_EDGE e true) where
  toAlike := alike_setIgnore g e true
  grow _ seen := seen
  ignored e' x' there' off := by
    rw [edge_setIgnore there]
    split
    · exact ⟨_, rfl, rfl⟩
    · exact ⟨x', there', off⟩
  keep a b child out _ := by
    obtain ⟨e', x', there', live, rfl, rfl⟩ := child
    refine ⟨e', x', ?_, live, rfl, rfl⟩
    rw [edge_setIgnore there, if_neg]
    · exact there'
    · rintro rfl
      exact out (congrArg Edge.fromNode (Option.some.inj (there'.symm.trans there)))
  dead a b child := by
    obtain ⟨e', x', there', live, rfl, rfl⟩ := child
    by_cases same : e' = e
    · subst same
      obtain rfl := Option.some.inj (there'.symm.trans there)
      exact .inr seen
    · refine .inl ⟨e', x', ?_, live, rfl, rfl⟩
      rw [edge_setIgnore there, if_neg same, there']
  ends _ seen := .inl seen
  closed _ _ seen := .inl seen
  only _ seen := .inl seen

theorem Done.of_child (done : ∀ x, g.edge e = some x → g.Done e) (there : g.edge e = some x)
    (live : x.ignore = false) : g.seen x.toNode = true ∧ Ends g.Child x.toNode := by
  obtain ⟨x', there', off | done⟩ := done x there
  · rw [Option.some.inj (there.symm.trans there'), off] at live
    cases live
  · rw [Option.some.inj (there.symm.trans there')]
    exact done

/-- A node is visited, and the walk is done with its edges. -/
theorem walked_of_succs (sound : g.Sound) (mem : n ∈ g.nodes) (new : g.seen n = false) (start : P n)
    (here : g.node n = some y) (walked : Walked P (· = n) (g.SET_VISITED_NODE n true) g')
    (done : ∀ e ∈ y.succ, g'.Done e) : Walked P (fun _ => False) g g' := by
  have marked (a : Addr) := seen_setVisited mem sound.toIncidence true a
  have old {a : Addr} (other : a ≠ n) (seen : (g.SET_VISITED_NODE n true).seen a = true) :
      g.seen a = true := by rwa [marked, if_neg other] at seen
  have at_n : g'.seen n = true := walked.grow n (by rw [marked, if_pos rfl])
  have grow (a : Addr) (seen : g.seen a = true) : (g.SET_VISITED_NODE n true).seen a = true := by
    rw [marked]
    split
    · rfl
    · exact seen
  have ended {b : Addr} (child : g'.Child n b) : g'.seen b = true ∧ Ends g'.Child b := by
    obtain ⟨e, x, there, live, from_, rfl⟩ := child
    obtain ⟨mode, there₀⟩ := ((alike_setVisited g n true).trans walked.toAlike).symm.at_edge there
    have listed : e ∈ y.succ := sound.mem_succ there₀ (by rw [← from_] at here; exact here)
    exact Done.of_child (fun _ _ => done e listed) there live
  refine ⟨(alike_setVisited g n true).trans walked.toAlike, ?_, walked.ignored, ?_, walked.dead,
    ?_, ?_, ?_⟩
  · exact fun a seen => walked.grow a (grow a seen)
  · intro a b child _ before
    apply walked.keep a b child
    · rintro rfl
      exact nomatch (before at_n).symm.trans new
    · exact fun seen => grow a (before seen)
  · intro a seen
    by_cases same : a = n
    · subst same
      exact .inr (.intro fun b child => (ended child).2)
    · exact (walked.ends a seen).imp_left (old same)
  · intro a b seen
    by_cases same : a = n
    · subst same
      refine .inr fun child => ?_
      rcases walked.dead a b child with child' | seen_b
      · exact (ended child').1
      · exact seen_b
    · exact (walked.closed a b seen).imp_left (old same)
  · intro a seen
    by_cases same : a = n
    · subst same
      exact .inr start
    · exact (walked.only a seen).imp_left (old same)

end Layout_Graph

namespace Placed

open Layout_Graph

variable {D : Type} [Double D] {l l' l₁ : Placed D} {n m e a b : Addr} {x : Edge}
  {y : Node} {k : Nat} {P : Addr → Prop}

/-- A step of the walk: the function it calls for a node is known to walk on from there. -/
theorem sortSucc_spec {sort : Addr → Placed D → Except Fault (Placed D)} (sound : l.Sound)
    (there : l.edge e = some x) (to_ : x.toNode ∈ l.nodes)
    (next : x.ignore = false → l.seen x.toNode = false → ∃ l', sort x.toNode l = .ok l' ∧
      Walked P (fun _ => False) l.toLayout_Graph l'.toLayout_Graph ∧ l'.seen x.toNode = true) :
    ∃ l', sortSucc sort l e = .ok l' ∧
      Walked P (· = x.fromNode) l.toLayout_Graph l'.toLayout_Graph ∧ l'.Done e := by
  obtain ⟨z, at_z, kept⟩ := sound.at_node to_
  rw [sortSucc, readEdge_eq there, Fuel.ok_bind]
  cases off : x.ignore with
  | true =>
    exact ⟨l, rfl, .refl _, x, there, .inl off⟩
  | false =>
    rw [if_neg Bool.false_ne_true, readNode_eq at_z, Fuel.ok_bind, kept, if_neg Bool.false_ne_true]
    have visited := seen_eq at_z
    cases seen : z.visited with
    | true =>
      rw [seen] at visited
      refine ⟨_, rfl, walked_setIgnore there visited, { x with ignore := true }, ?_, .inl rfl⟩
      exact (edge_setIgnore there true e).trans (if_pos rfl)
    | false =>
      rw [seen] at visited
      obtain ⟨l', ran, walked, seen'⟩ := next off visited
      refine ⟨l', ran, walked.busy, ?_⟩
      obtain ⟨mode, there'⟩ := walked.toAlike.at_edge there
      refine ⟨_, there', .inr ⟨seen', ?_⟩⟩
      exact (walked.ends _ seen').resolve_left fun old => nomatch old.symm.trans visited

/-- The loop over the edges of a node. -/
theorem sortSuccs_spec {sort : Addr → Placed D → Except Fault (Placed D)} {g : Layout_Graph}
    {es : List Addr} (sound : g.Sound) (here : g.node n = some y) (sub : ∀ e ∈ es, e ∈ y.succ)
    (next : ∀ l : Placed D, Walked P (· = n) g l.toLayout_Graph → ∀ m ∈ l.nodes, l.Child n m →
      l.seen m = false → ∃ l', sort m l = .ok l' ∧
        Walked P (fun _ => False) l.toLayout_Graph l'.toLayout_Graph ∧ l'.seen m = true)
    (walked : Walked P (· = n) g l.toLayout_Graph) :
    ∃ l', es.foldlM (sortSucc sort) l = .ok l' ∧
      Walked P (· = n) l.toLayout_Graph l'.toLayout_Graph ∧ ∀ e ∈ es, l'.Done e := by
  induction es generalizing l with
  | nil => exact ⟨l, rfl, .refl _, fun _ mem => nomatch mem⟩
  | cons e es ih =>
    obtain ⟨x, there, from_, to_⟩ := sound.at_succ here (sub e List.mem_cons_self)
    obtain ⟨mode, there'⟩ := walked.toAlike.at_edge there
    have to_' : x.toNode ∈ l.nodes := walked.nodes.mem_iff.mpr to_
    let x' : Edge := { x with ignore := mode }
    have from' : x'.fromNode = n := from_
    have step : ∃ l', sortSucc sort l e = .ok l' ∧
        Walked P (· = x'.fromNode) l.toLayout_Graph l'.toLayout_Graph ∧ l'.Done e :=
      sortSucc_spec (sound.alike walked.toAlike) there' to_'
        fun live new => next l walked x.toNode to_' ⟨e, x', there', live, from', rfl⟩ new
    obtain ⟨l₁, ran, walked₁, done⟩ := step
    rw [from'] at walked₁
    obtain ⟨l₂, rest, walked₂, dones⟩ := ih (fun e' mem => sub e' (List.mem_cons_of_mem e mem))
      (walked.trans walked₁)
    refine ⟨l₂, ?_, walked₁.trans walked₂, ?_⟩
    · rw [List.foldlM_cons, ran]
      exact rest
    · intro e' mem
      rcases List.mem_cons.mp mem with rfl | mem
      · exact walked₂.done done
      · exact dones e' mem

theorem sort_of_seen (here : l.node n = some y) (seen : y.visited = true) :
    LayoutGraphSortTopological (k + 1) n l = .ok l := by
  rw [LayoutGraphSortTopological, readNode_eq here, Fuel.ok_bind, if_pos (.inl seen)]
  rfl

/-- The walk from a node ends. The recursion is as deep as there are nodes that are not visited. -/
theorem sort_spec (sound : l.Sound) (mem : n ∈ l.nodes) (inside : Closed P l.toLayout_Graph)
    (start : l.seen n = false → P n) (bound : l.unseen ≤ k) :
    ∃ l', LayoutGraphSortTopological (k + 1) n l = .ok l' ∧
      Walked P (fun _ => False) l.toLayout_Graph l'.toLayout_Graph ∧ l'.seen n = true := by
  induction k using Nat.strongRecOn generalizing n l with
  | _ k ih =>
    obtain ⟨c, here, kept⟩ := sound.at_node mem
    cases seen : l.seen n with
    | true => exact ⟨l, sort_of_seen here ((seen_eq here).symm.trans seen), .refl _, seen⟩
    | false =>
      have fewer := unseen_setVisited sound.toIncidence mem seen
      obtain ⟨k, rfl⟩ := Nat.exists_eq_succ_of_ne_zero
        (Nat.ne_zero_of_lt (Nat.lt_of_lt_of_le fewer bound))
      have marked (a : Addr) := seen_setVisited mem sound.toIncidence true a
      let l₁ : Placed D := { l with topList := l.topList ++ [n] }.withGraph
        (l.SET_VISITED_NODE n true)
      have sound₁ : l₁.Sound := sound.alike (alike_setVisited _ n true)
      have here₁ : l₁.node n = some { c with visited := true } := by
        change Function.update l.node n _ n = _
        rw [Function.update_self, here]
        rfl
      have inside₁ : Closed P l₁.toLayout_Graph := by
        intro a b at_a child new
        apply inside a b at_a child
        have new := (marked b).symm.trans new
        split at new
        · cases new
        · exact new
      have next : ∀ l : Placed D, Walked P (· = n) l₁.toLayout_Graph l.toLayout_Graph →
          ∀ m ∈ l.nodes, l.Child n m → l.seen m = false →
            ∃ l', LayoutGraphSortTopological (k + 1) m l = .ok l' ∧
              Walked P (fun _ => False) l.toLayout_Graph l'.toLayout_Graph ∧
                l'.seen m = true := by
        intro l' walked m mem_m child new
        have inside' := walked.closed_of inside₁
        have less := unseen_le walked.nodes walked.grow
        exact ih k (Nat.lt_succ_self k) (sound₁.alike walked.toAlike) mem_m inside'
          (fun _ => inside' n m (start seen) child new)
          (Nat.le_of_lt_succ (Nat.lt_of_le_of_lt less (Nat.lt_of_lt_of_le fewer bound)))
      obtain ⟨l', ran, walked, done⟩ := sortSuccs_spec sound₁ here₁ (fun e mem => mem) next
        (Walked.refl _)
      refine ⟨l', ?_, walked_of_succs sound mem seen (start seen) here walked done, ?_⟩
      · rw [LayoutGraphSortTopological, readNode_eq here, Fuel.ok_bind, kept,
          ← seen_eq here, seen]
        exact ran
      · exact walked.grow n ((marked n).trans (if_pos rfl))

theorem sort_grows (n : Addr) (l : Placed D) :
    Fuel.Grows fun k => LayoutGraphSortTopological k n l := by
  intro k l' ran
  dsimp only at ran ⊢
  induction k generalizing n l l' with
  | zero => cases ran
  | succ k ih =>
    rw [LayoutGraphSortTopological] at ran ⊢
    obtain ⟨c, read, ran⟩ := Fuel.bind_eq_ok ran
    rw [read, Fuel.ok_bind]
    split at ran
    case isTrue skip => rw [if_pos skip, ran]
    case isFalse go =>
      rw [if_neg go]
      apply Fuel.foldlM_ok_mono ?_ ran
      intro t e t' step
      rw [sortSucc] at step ⊢
      obtain ⟨x, there, step⟩ := Fuel.bind_eq_ok step
      rw [there, Fuel.ok_bind]
      split at step
      case isTrue off => rw [if_pos off, step]
      case isFalse live =>
        rw [if_neg live]
        obtain ⟨y, here, step⟩ := Fuel.bind_eq_ok step
        rw [here, Fuel.ok_bind]
        split at step
        case isTrue off => rw [if_pos off, step]
        case isFalse kept =>
          rw [if_neg kept]
          split at step
          case isTrue seen => rw [if_pos seen, step]
          case isFalse new => rw [if_neg new, ih x.toNode t t' step]

/-- The walks from several nodes. -/
theorem sorts_spec {starts : List Addr} (sound : l.Sound) (sub : ∀ n ∈ starts, n ∈ l.nodes)
    (inside : Closed P l.toLayout_Graph) (start : ∀ n ∈ starts, l.seen n = false → P n)
    (bound : l.unseen ≤ k) :
    ∃ l', starts.foldlM (fun l n => LayoutGraphSortTopological (k + 1) n l) l = .ok l' ∧
      Walked P (fun _ => False) l.toLayout_Graph l'.toLayout_Graph ∧
        ∀ n ∈ starts, l'.seen n = true := by
  induction starts generalizing l with
  | nil => exact ⟨l, rfl, .refl _, fun _ mem => nomatch mem⟩
  | cons n starts ih =>
    obtain ⟨l₁, ran, walked₁, seen⟩ := sort_spec sound (sub n List.mem_cons_self) inside
      (start n List.mem_cons_self) bound
    have old {m : Addr} (new : l₁.seen m = false) : l.seen m = false := by
      cases seen : l.seen m with
      | false => rfl
      | true => exact nomatch (walked₁.grow m seen).symm.trans new
    obtain ⟨l₂, rest, walked₂, seens⟩ := ih (sound.alike walked₁.toAlike)
      (fun m mem => walked₁.nodes.mem_iff.mpr (sub m (List.mem_cons_of_mem n mem)))
      (walked₁.closed_of inside)
      (fun m mem new => start m (List.mem_cons_of_mem n mem) (old new))
      (Nat.le_trans (unseen_le walked₁.nodes walked₁.grow) bound)
    refine ⟨l₂, ?_, walked₁.trans walked₂, ?_⟩
    · rw [List.foldlM_cons, ran]
      exact rest
    · intro m mem
      rcases List.mem_cons.mp mem with rfl | mem
      · exact walked₂.grow m seen
      · exact seens m mem

end Placed

end SourceNavigator.Layout

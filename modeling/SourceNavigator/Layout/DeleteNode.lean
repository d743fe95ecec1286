import Mathlib.Data.List.Nodup
import SourceNavigator.Layout.Incidence

/-!
Deleting the nodes of a layout graph (`libgui/tkCanvLayout.c`).

`deletenode` deletes the edges of the node in a loop over the table. An edge that
takes the place of a deleted one is not looked at.

* `deleteAttached_eq_sweep` says which edges the loop leaves.
* `deletenode_spec` says when the tables hold a graph again, and `incident_of_run` says
  so of runs.
-/

namespace SourceNavigator.Layout

open Lib

namespace Layout_Graph

variable {g g' : Layout_Graph} {G : Multigraph pItem pItem} {n e : Addr} {i : Nat} {x : Edge}

/-! ### Deleting a node -/

/-- The edge leads to the node or from it. -/
def attached (g : Layout_Graph) (n e : Addr) : Bool :=
  g.leads Edge.toNode n e || g.leads Edge.fromNode n e

theorem attached_eq (here : g.edge e = some x) :
    g.attached n e = true ↔ x.toNode = n ∨ x.fromNode = n := by
  simp [attached, leads, here]

/-- What the loop that deletes the edges of a node comes to. -/
structure Detached (g g' : Layout_Graph) (G G' : Multigraph pItem pItem) (n : Addr) (v : pItem) :
    Prop where
  nodes : g'.nodes = g.nodes
  item : ∀ m, g'.item m = g.item m
  edge : ∀ e ∈ g'.edges, g'.edge e = g.edge e
  verts : G'.verts = G.verts
  less : G'.edges ⊆ G.edges
  kept : ∀ id a b, (id, a, b) ∈ G.edges → a ≠ v → b ≠ v → (id, a, b) ∈ G'.edges

theorem Detached.refl (g : Layout_Graph) (G : Multigraph pItem pItem) (n : Addr) (v : pItem) :
    Detached g g G G n v :=
  ⟨rfl, fun _ => rfl, fun _ _ => rfl, rfl, fun _ mem => mem, fun _ _ _ mem _ _ => mem⟩

/-- An edge of the node is deleted first. -/
theorem Detached.of_deleteedge {g₁ : Layout_Graph} {G' : Multigraph pItem pItem} {v : pItem}
    (h : g.Represents G) (at_n : g.item n = some v) (here : g.edge e = some x)
    (hit : g.attached n e = true) (without : Without g g₁ e i) (h' : g'.Represents G')
    (rest : Detached g₁ g' (G.removeEdge x.edgeid) G' n v) : Detached g g' G G' n v := by
  refine ⟨rest.nodes.trans without.nodes, ?_, ?_, rest.verts, ?_, ?_⟩
  · intro m
    rw [rest.item, without.item]
  · intro e' mem
    have other : e' ≠ e := by
      rintro rfl
      have gone := rest.edge e' mem
      rw [without.gone] at gone
      have live := (h'.live_edge e').mpr mem
      rw [gone] at live
      cases live
    rw [rest.edge e' mem, without.edge e' other]
  · exact fun y mem => (rest.less mem).1
  · intro id a b mem a_v b_v
    refine rest.kept id a b ⟨mem, ?_⟩ a_v b_v
    rintro rfl
    obtain ⟨e', y, there, same, a_at, b_at⟩ := (h.edges _ a b).mp mem
    obtain rfl := h.ids e' e y x there here same
    obtain rfl := Option.some.inj (there.symm.trans here)
    rcases (attached_eq here).mp hit with to_ | from_
    · rw [to_, at_n] at b_at
      exact b_v (Option.some.inj b_at).symm
    · rw [from_, at_n] at a_at
      exact a_v (Option.some.inj a_at).symm

theorem deleteAttached_past {k : Nat} (past : g.edges.length ≤ i) : deleteAttached n k i g = .ok g := by
  cases k with
  | zero => rfl
  | succ k => rw [deleteAttached, List.getElem?_eq_none past]

/-- The loop deletes the edges of a node that it comes to, and does not look at the edges that take
their places. -/
theorem deleteAttached_eq_sweep (h : g.Represents G) {v : pItem} (at_n : g.item n = some v) {k : Nat}
    {done seg : List Addr} (split : g.edges = done ++ seg) (place : done.length = i)
    (enough : seg.length ≤ k) :
    ∃ g' G', deleteAttached n k i g = .ok g' ∧ g'.Represents G' ∧ Detached g g' G G' n v ∧
      g'.edges = done ++ sweep (g.attached n) seg := by
  induction k generalizing g G done seg i with
  | zero =>
    obtain rfl := List.eq_nil_of_length_eq_zero (Nat.le_zero.mp enough)
    refine ⟨g, G, rfl, h, .refl g G n v, ?_⟩
    rw [sweep]
    exact split
  | succ k ih =>
    cases seg with
    | nil =>
      refine ⟨g, G, deleteAttached_past ?_, h, .refl g G n v, ?_⟩
      · rw [split, List.append_nil, place]
      · rw [sweep]
        exact split
    | cons e seg =>
      rw [List.length_cons] at enough
      have here : g.edges[i]? = some e := by
        rw [split, List.getElem?_append_right (Nat.le_of_eq place), place, Nat.sub_self]
        rfl
      obtain ⟨x, at_e⟩ := Option.isSome_iff_exists.mp
        ((h.live_edge e).mpr (List.mem_of_getElem? here))
      rw [deleteAttached, here]
      dsimp only
      rw [readEdge_eq at_e, Fuel.ok_bind]
      by_cases hit : g.attached n e = true
      · obtain ⟨g₁, ran, h₁, without⟩ := h.deleteedge here at_e
        have edges₁ := without.edges
        rw [if_pos ((attached_eq at_e).mp hit), ran, Fuel.ok_bind]
        rw [split, ← place] at edges₁
        rcases List.eq_nil_or_concat seg with rfl | ⟨seg, last, rfl⟩
        · rw [swapRemove_concat] at edges₁
          refine ⟨g₁, _, deleteAttached_past ?_, h₁, ?_, ?_⟩
          · rw [edges₁]
            omega
          · exact .of_deleteedge h at_n at_e hit without h₁ (.refl _ _ n v)
          · rw [edges₁, sweep_singleton hit, List.append_nil]
        · rw [List.concat_eq_append] at split edges₁ enough ⊢
          rw [List.length_append] at enough
          rw [swapRemove_append, ← List.singleton_append, ← List.append_assoc] at edges₁
          obtain ⟨g', G', ran', h', rest, edges'⟩ := ih (i := i + 1) h₁
            ((without.item n).trans at_n) edges₁ (by rw [List.length_append, place]; rfl) (by omega)
          refine ⟨g', G', ran', h', .of_deleteedge h at_n at_e hit without h' rest, ?_⟩
          have same : ∀ s ∈ seg, g₁.attached n s = g.attached n s := by
            intro s mem
            have other : s ≠ e := by
              rintro rfl
              have nodup := h.edges_nodup
              rw [split, List.nodup_append] at nodup
              exact (List.nodup_cons.mp nodup.2.1).1 (List.mem_append_left _ mem)
            simp only [attached, leads, without.edge s other]
          rw [edges', sweep_congr same, sweep_cons_concat hit, List.append_assoc]
          rfl
      · rw [if_neg fun ends => hit ((attached_eq at_e).mpr ends)]
        have split' : g.edges = (done ++ [e]) ++ seg := by
          rw [split, List.append_assoc]
          rfl
        obtain ⟨g', G', ran', h', rest, edges'⟩ := ih (i := i + 1) h at_n split'
          (by rw [List.length_append, place]; rfl) (by omega)
        refine ⟨g', G', ran', h', rest, ?_⟩
        rw [edges', sweep_cons_of_neg hit, List.append_assoc]
        rfl

/-- The tables without a node. -/
def withoutNode (g : Layout_Graph) (n : Addr) (i : Nat) : Layout_Graph :=
  { g with nodes := swapRemove g.nodes i }.setNode n none

theorem Incidence.mem_withoutNode (h : g.Incidence) (here : g.nodes[i]? = some n) :
    (g.withoutNode n i).nodes.Nodup ∧
      ∀ m, m ∈ (g.withoutNode n i).nodes ↔ m ∈ g.nodes ∧ m ≠ n := by
  obtain ⟨l₁, l₂, split, rfl⟩ := split_at here
  have nodup := h.nodes_nodup
  have perm : (g.withoutNode n l₁.length).nodes.Perm (l₁ ++ l₂) := by
    change (swapRemove g.nodes l₁.length).Perm _
    rw [split]
    exact swapRemove_perm l₁ n l₂
  rw [split, List.perm_middle.nodup_iff, List.nodup_cons] at nodup
  refine ⟨perm.nodup_iff.mpr nodup.2, fun m => ?_⟩
  rw [perm.mem_iff, split, List.mem_append, List.mem_append, List.mem_cons]
  constructor
  · intro mem
    refine ⟨mem.imp_right .inr, ?_⟩
    rintro rfl
    exact nodup.1 (List.mem_append.mpr mem)
  · rintro ⟨mem | rfl | mem, other⟩
    · exact .inl mem
    · exact absurd rfl other
    · exact .inr mem

theorem Represents.withoutNode (h : g.Represents G) {v : pItem} (here : g.nodes[i]? = some n)
    (at_n : g.item n = some v) (clean : ∀ e ∈ g.edges, g.attached n e = false) :
    (g.withoutNode n i).Represents (G.removeVert v) := by
  obtain ⟨nodup, mem_iff⟩ := h.mem_withoutNode here
  have gone : (g.withoutNode n i).node n = none := Function.update_self _ _ _
  have others {m : Addr} (other : m ≠ n) : (g.withoutNode n i).node m = g.node m :=
    Function.update_of_ne other _ _
  have item_others {m : Addr} (other : m ≠ n) : (g.withoutNode n i).item m = g.item m := by
    rw [item, others other]
    rfl
  have old {m : Addr} {y : Node} (there : (g.withoutNode n i).node m = some y) :
      m ≠ n ∧ g.node m = some y := by
    have other : m ≠ n := by
      rintro rfl
      cases gone.symm.trans there
    exact ⟨other, (others other).symm.trans there⟩
  have old_item {m : Addr} {u : pItem} (at_m : (g.withoutNode n i).item m = some u) :
      m ≠ n ∧ g.item m = some u := by
    obtain ⟨y, there, same⟩ := Option.map_eq_some_iff.mp at_m
    exact ⟨(old there).1, Option.map_eq_some_iff.mpr ⟨y, (old there).2, same⟩⟩
  have at_ends {e : Addr} {x : Edge} (there : g.edge e = some x) : x.fromNode ≠ n ∧ x.toNode ≠ n := by
    have not_attached : ¬ g.attached n e = true := by
      rw [clean e (h.mem_edges there)]
      exact Bool.false_ne_true
    rw [attached_eq there, not_or] at not_attached
    exact ⟨not_attached.2, not_attached.1⟩
  have away {m : Addr} {u : pItem} (at_m : g.item m = some u) (other : m ≠ n) : u ≠ v := by
    rintro rfl
    exact other (h.items m n u at_m at_n)
  refine ⟨⟨nodup, h.edges_nodup, ?_, h.live_edge, ?_, h.null_edge, ?_, h.ids, ?_, ?_, ?_⟩, ?_, ?_⟩
  · intro m
    rw [mem_iff]
    by_cases other : m = n
    · rw [other, gone]
      exact iff_of_false (fun h => by cases h) fun both => both.2 rfl
    · rw [others other, h.live_node]
      exact ⟨fun mem => ⟨mem, other⟩, And.left⟩
  · rw [mem_iff]
    exact fun both => h.null_node both.1
  · intro m m' u at_m at_m'
    exact h.items m m' u (old_item at_m).2 (old_item at_m').2
  · intro e x there
    rw [mem_iff, mem_iff]
    obtain ⟨from_, to_⟩ := h.ends e x there
    obtain ⟨from_n, to_n⟩ := at_ends there
    exact ⟨⟨from_, from_n⟩, to_, to_n⟩
  · intro m y there
    exact h.succ m y (old there).2
  · intro m y there
    exact h.parent m y (old there).2
  · intro u
    change u ∈ G.verts ∧ u ≠ v ↔ _
    rw [h.verts]
    constructor
    · rintro ⟨⟨m, at_m⟩, other⟩
      have m_n : m ≠ n := by
        rintro rfl
        exact other (Option.some.inj (at_m.symm.trans at_n))
      exact ⟨m, by rw [item_others m_n, at_m]⟩
    · rintro ⟨m, at_m⟩
      obtain ⟨other, at_m⟩ := old_item at_m
      exact ⟨⟨m, at_m⟩, away at_m other⟩
  · intro id a b
    change (id, a, b) ∈ G.edges ∧ a ≠ v ∧ b ≠ v ↔ _
    rw [h.edges]
    constructor
    · rintro ⟨⟨e, x, there, rfl, a_at, b_at⟩, -⟩
      obtain ⟨from_n, to_n⟩ := at_ends there
      exact ⟨e, x, there, rfl, by rw [item_others from_n, a_at], by rw [item_others to_n, b_at]⟩
    · rintro ⟨e, x, there, rfl, a_at, b_at⟩
      obtain ⟨from_n, a_at⟩ := old_item a_at
      obtain ⟨to_n, b_at⟩ := old_item b_at
      exact ⟨⟨e, x, there, rfl, a_at, b_at⟩, away a_at from_n, away b_at to_n⟩

theorem deletenode_spec (h : g.Represents G) {v : pItem} (here : g.nodes[i]? = some n)
    (at_n : g.item n = some v) :
    ∃ g', g.deletenode n i = .ok (g', .LAYOUT_OK) ∧
      (AwayFromEnd (g.attached n) g.edges → g'.Represents (G.removeVert v)) ∧
      (g'.Incidence → AwayFromEnd (g.attached n) g.edges) := by
  have whole : g.edges = [] ++ g.edges := rfl
  obtain ⟨g₁, G₁, ran, h₁, detached, edges₁⟩ :=
    deleteAttached_eq_sweep (i := 0) h at_n whole rfl (Nat.le_refl _)
  rw [List.nil_append] at edges₁
  have here₁ : g₁.nodes[i]? = some n := by rw [detached.nodes, here]
  have at_n₁ : g₁.item n = some v := by rw [detached.item, at_n]
  have attached₁ : ∀ e ∈ g₁.edges, g₁.attached n e = g.attached n e := by
    intro e mem
    simp only [attached, leads, detached.edge e mem]
  refine ⟨g₁.withoutNode n i, ?_, ?_, ?_⟩
  · rw [deletenode, ran]
    rfl
  · intro away
    have clean : ∀ e ∈ g₁.edges, g₁.attached n e = false := by
      intro e mem
      rw [attached₁ e mem]
      exact (sweep_clean_iff _ _).mpr away e (edges₁ ▸ mem)
    have same : G₁.removeVert v = G.removeVert v := by
      ext x
      · change x ∈ G₁.verts ∧ _ ↔ x ∈ G.verts ∧ _
        rw [detached.verts]
      · obtain ⟨id, a, b⟩ := x
        exact ⟨fun mem => ⟨detached.less mem.1, mem.2⟩,
          fun mem => ⟨detached.kept id a b mem.1 mem.2.1 mem.2.2, mem.2⟩⟩
    rw [← same]
    exact h₁.withoutNode here₁ at_n₁ clean
  · intro incidence
    rw [← sweep_clean_iff, ← edges₁]
    intro e mem
    by_contra hit
    rw [Bool.not_eq_false, ← attached₁ e mem] at hit
    obtain ⟨x, there⟩ := Option.isSome_iff_exists.mp ((h₁.live_edge e).mpr mem)
    have ends := incidence.ends e x there
    have out := (h₁.mem_withoutNode here₁).2 n
    rcases (attached_eq there).mp hit with rfl | rfl
    · exact (out.mp ends.2).2 rfl
    · exact (out.mp ends.1).2 rfl

/-! ### Runs of calls -/

/-- No dummy node is asked for, and the edges of a node that is deleted are away from the end of
the table. -/
def Careful (g : Layout_Graph) : Call → Bool
  | .createNode _ fromNode toNode _ _ => g.noDummy fromNode toNode
  | .deleteNode nodeid => g.nodes.all fun n =>
    !(g.item n == some nodeid) || decide (AwayFromEnd (g.attached n) g.edges)
  | _ => true

/-- What a call does to the graph. -/
noncomputable def applied (G : Multigraph pItem pItem) : Call → Multigraph pItem pItem
  | .createNode itemPtr _ _ _ _ => G.addVert itemPtr
  | .createEdge edgeid fromid toid _ => G.addEdge edgeid fromid toid
  | .deleteEdge eid => G.removeEdge eid
  | .deleteNode nodeid => G.removeVert nodeid

theorem Represents.deleteEdge (h : g.Represents G) {id : pItem} {c : LayoutCode}
    (ran : g.LayoutDeleteEdge id = .ok (g', c)) : g'.Represents (G.removeEdge id) := by
  unfold LayoutDeleteEdge at ran
  rcases findEdge_spec id (fun e mem => (h.live_edge e).mpr mem) 0 with
    ⟨e, k, x, found, at_k, there, rfl⟩ | ⟨found, unused⟩
  · obtain ⟨g₁, deleted, h₁, -⟩ := h.deleteedge at_k there
    rw [found, Fuel.ok_bind] at ran
    dsimp only at ran
    rw [Nat.zero_add, deleted] at ran
    obtain ⟨rfl, -⟩ := Prod.mk.inj (Except.ok.inj ran)
    exact h₁
  · rw [found, Fuel.ok_bind] at ran
    obtain ⟨rfl, -⟩ := Prod.mk.inj (Except.ok.inj ran)
    rwa [Multigraph.removeEdge_of_not]
    intro a b mem
    obtain ⟨e, x, there, same, -⟩ := (h.edges id a b).mp mem
    exact unused e (h.mem_edges there) x there same

theorem Represents.deleteNode (h : g.Represents G) {v : pItem} {c : LayoutCode}
    (away : ∀ n ∈ g.nodes, g.item n = some v → AwayFromEnd (g.attached n) g.edges)
    (ran : g.LayoutDeleteNode v = .ok (g', c)) : g'.Represents (G.removeVert v) := by
  unfold LayoutDeleteNode at ran
  rcases findNode_spec v (fun n mem => (h.live_node n).mpr mem) 0 with
    ⟨n, k, found, at_k, at_n⟩ | ⟨found, unused⟩
  · obtain ⟨g₁, deleted, right, -⟩ := deletenode_spec h at_k at_n
    rw [found, Fuel.ok_bind] at ran
    dsimp only at ran
    rw [Nat.zero_add, deleted] at ran
    obtain ⟨rfl, -⟩ := Prod.mk.inj (Except.ok.inj ran)
    exact right (away n (List.mem_of_getElem? at_k) at_n)
  · rw [found, Fuel.ok_bind] at ran
    obtain ⟨rfl, -⟩ := Prod.mk.inj (Except.ok.inj ran)
    rwa [Multigraph.removeVert_of_not]
    intro mem
    obtain ⟨n, at_n⟩ := (h.verts v).mp mem
    exact unused n (h.mem_of_item at_n) at_n

/-- A call does to the tables what it should do to the graph. -/
theorem Represents.call (h : g.Represents G) {call : Call} {c : LayoutCode}
    (careful : g.Careful call = true) (ran : g.call call = .ok (g', c)) :
    g'.Represents (applied G call) := by
  cases call with
  | createNode itemPtr fromNode toNode tmpNode tmpEdge => exact h.createNode careful ran
  | createEdge edgeid fromid toid tmpEdge => exact h.createEdge ran
  | deleteEdge eid => exact h.deleteEdge ran
  | deleteNode nodeid =>
    refine h.deleteNode ?_ ran
    intro n mem at_n
    have away := List.all_eq_true.mp careful n mem
    rw [at_n, beq_self_eq_true, Bool.not_true, Bool.false_or, decide_eq_true_iff] at away
    exact away

theorem represents_of_run {calls : List Call}
    (run : Run (Guarded (fun g call => g.Careful call = true) fun g call g' =>
      ∃ c, g.call call = .ok (g', c)) g calls g') (h : g.Represents G) :
    g'.Represents (calls.foldl applied G) := by
  induction run generalizing G with
  | nil g => exact h
  | cons first _ ih =>
    obtain ⟨careful, c, ran⟩ := first
    exact ih (h.call careful ran)

/-- The table of edges and the lists of the nodes are those of a graph. -/
structure Incident (g : Layout_Graph) (G : Multigraph pItem pItem) : Prop where
  /-- The table has the edges of the graph, which have different identifiers. -/
  table : ∀ id v w, (id, v, w) ∈ G.edges ↔
    ∃ e ∈ g.edges, ∃ x, g.edge e = some x ∧ x.edgeid = id ∧ g.item x.fromNode = some v ∧
      g.item x.toNode = some w
  once : g.edges.Nodup ∧ ∀ e ∈ g.edges, ∀ e' ∈ g.edges,
    (g.edge e).map Edge.edgeid = (g.edge e').map Edge.edgeid → e = e'
  /-- Both ends of an edge are nodes of the table, which have it once in their lists. -/
  listed : ∀ e ∈ g.edges, ∃ x y z, g.edge e = some x ∧ x.fromNode ∈ g.nodes ∧ x.toNode ∈ g.nodes ∧
    g.node x.fromNode = some y ∧ y.succ.count e = 1 ∧
      g.node x.toNode = some z ∧ z.parent.count e = 1
  /-- The lists have nothing else. -/
  succ : ∀ n ∈ g.nodes, ∃ y, g.node n = some y ∧ ∀ e ∈ y.succ, e ∈ g.edges ∧
    (g.edge e).map Edge.fromNode = some n
  parent : ∀ n ∈ g.nodes, ∃ y, g.node n = some y ∧ ∀ e ∈ y.parent, e ∈ g.edges ∧
    (g.edge e).map Edge.toNode = some n

theorem Represents.incident (h : g.Represents G) : g.Incident G := by
  have count (nodeAt : Edge → Addr) {e : Addr} {x : Edge} {l : List Addr}
      (there : g.edge e = some x)
      (perm : l.Perm (g.edges.filter (g.leads nodeAt (nodeAt x)))) : l.count e = 1 := by
    have listed : e ∈ l := by
      rw [perm.mem_iff, List.mem_filter, leads, there]
      exact ⟨h.mem_edges there, beq_self_eq_true _⟩
    exact List.count_eq_one_of_mem (perm.nodup_iff.mpr (h.edges_nodup.filter _)) listed
  have only (nodeAt : Edge → Addr) {n : Addr} {l : List Addr}
      (perm : l.Perm (g.edges.filter (g.leads nodeAt n))) :
      ∀ e ∈ l, e ∈ g.edges ∧ (g.edge e).map nodeAt = some n := by
    intro e mem
    obtain ⟨mem, leads⟩ := List.mem_filter.mp (perm.mem_iff.mp mem)
    exact ⟨mem, eq_of_beq leads⟩
  have node {n : Addr} (mem : n ∈ g.nodes) : ∃ y, g.node n = some y :=
    Option.isSome_iff_exists.mp ((h.live_node n).mpr mem)
  have edge {e : Addr} (mem : e ∈ g.edges) : ∃ x, g.edge e = some x :=
    Option.isSome_iff_exists.mp ((h.live_edge e).mpr mem)
  refine ⟨?_, ⟨h.edges_nodup, ?_⟩, ?_, ?_, ?_⟩
  · intro id v w
    rw [h.edges]
    constructor
    · rintro ⟨e, x, there, rest⟩
      exact ⟨e, h.mem_edges there, x, there, rest⟩
    · rintro ⟨e, -, x, there, rest⟩
      exact ⟨e, x, there, rest⟩
  · intro e mem e' mem' same
    obtain ⟨x, there⟩ := edge mem
    obtain ⟨x', there'⟩ := edge mem'
    rw [there, there'] at same
    exact h.ids e e' x x' there there' (Option.some.inj same)
  · intro e mem
    obtain ⟨x, there⟩ := edge mem
    obtain ⟨from_, to_⟩ := h.ends e x there
    obtain ⟨y, here_y⟩ := node from_
    obtain ⟨z, here_z⟩ := node to_
    exact ⟨x, y, z, there, from_, to_, here_y, count Edge.fromNode there (h.succ _ y here_y), here_z,
      count Edge.toNode there (h.parent _ z here_z)⟩
  · intro n mem
    obtain ⟨y, here⟩ := node mem
    exact ⟨y, here, only Edge.fromNode (h.succ n y here)⟩
  · intro n mem
    obtain ⟨y, here⟩ := node mem
    exact ⟨y, here, only Edge.toNode (h.parent n y here)⟩

/-- In a run of calls that ask for no dummy node, and delete no node with edges at the end of the
table, the tables and lists are always those of the graph. -/
theorem incident_of_run {calls : List Call}
    (run : Run (Guarded (fun g call => g.Careful call = true) fun g call g' =>
      ∃ c, g.call call = .ok (g', c)) LayoutCreateGraph calls g) :
    g.Incident (calls.foldl applied .empty) :=
  (represents_of_run run represents_create).incident

/-! ### Two runs -/

/-- Two nodes with an edge each way, the second node is deleted, and an edge is tried again. -/
def carefulCalls : List Call :=
  [.createNode 1 NULL NULL 10 0, .createNode 2 NULL NULL 20 0, .createNode 3 NULL NULL 30 0,
    .createEdge 5 1 2 50, .createEdge 6 2 1 60, .createEdge 7 1 3 70, .deleteNode 2,
    .createEdge 5 1 3 50, .deleteEdge 7]

/-- Two edges lead from the first node to the second, and the first node is deleted. -/
def lastEdgeCalls : List Call :=
  [.createNode 1 NULL NULL 10 0, .createNode 2 NULL NULL 20 0, .createEdge 5 1 2 50,
    .createEdge 6 1 2 60, .deleteNode 1]

theorem play_careful :
    ((Run.play Careful (fun g call => (g.call call).map Prod.fst) LayoutCreateGraph
      carefulCalls).map fun g => (g.nodes, g.edges, g.node 30)) =
        some ([10, 30], [50], some ⟨3, false, false, [50], []⟩) := by
  decide +kernel

theorem play_lastEdge :
    ((Run.play (fun _ _ => true) (fun g call => (g.call call).map Prod.fst) LayoutCreateGraph
      lastEdgeCalls).map fun g => (g.nodes, g.edges, g.edge 60)) =
        some ([20], [60], some ⟨6, 10, 20, false, false⟩) := by
  decide +kernel

theorem call_of_map {call : Call} (h : (g.call call).map Prod.fst = .ok g') :
    ∃ c, g.call call = .ok (g', c) := by
  cases ran : g.call call with
  | error fault =>
    rw [ran] at h
    cases h
  | ok r =>
    rw [ran] at h
    exact ⟨r.2, congrArg Except.ok (Prod.ext (Except.ok.inj h) rfl)⟩

theorem incident_careful :
    ∃ g, Run.play Careful (fun g call => (g.call call).map Prod.fst) LayoutCreateGraph carefulCalls =
      some g ∧ g.nodes = [10, 30] ∧ g.edges = [50] ∧
        g.Incident (carefulCalls.foldl applied .empty) := by
  obtain ⟨g, played, eq⟩ := Option.map_eq_some_iff.mp play_careful
  simp only [Prod.mk.injEq] at eq
  refine ⟨g, played, eq.1, eq.2.1, incident_of_run ?_⟩
  exact (Run.of_play played).mono fun g call g' step => ⟨step.1, call_of_map step.2⟩

/-- The edge that takes the place of the first one is not deleted with its node. -/
theorem last_edge_stays :
    ∃ g, Run (fun g call g' => ∃ c, g.call call = .ok (g', c)) LayoutCreateGraph lastEdgeCalls g ∧
      g.nodes = [20] ∧ g.edges = [60] ∧ (g.edge 60).map Edge.fromNode = some 10 ∧
        ∀ G, ¬ g.Incident G := by
  obtain ⟨g, played, eq⟩ := Option.map_eq_some_iff.mp play_lastEdge
  simp only [Prod.mk.injEq] at eq
  obtain ⟨nodes, edges, edge⟩ := eq
  refine ⟨g, (Run.of_play played).mono fun g call g' step => call_of_map step.2, nodes, edges, ?_, ?_⟩
  · rw [edge]
    rfl
  · intro G incident
    have mem : 60 ∈ g.edges := by
      rw [edges]
      exact List.mem_cons_self
    obtain ⟨x, y, z, there, from_, -⟩ := incident.listed 60 mem
    rw [← Option.some.inj (edge.symm.trans there), nodes] at from_
    exact absurd from_ (by decide)

end Layout_Graph

end SourceNavigator.Layout

import SourceNavigator.Layout.Graph
import SourceNavigator.Lib.Fuel
import SourceNavigator.Lib.Multigraph
import SourceNavigator.Lib.Run

/-!
The edges of a layout graph and the lists of its nodes (`libgui/tkCanvLayout.c`).

`Represents` says that the tables hold a graph, and that every edge is once in
the list of the node it leads from and once in the list of the node it leads to.

* `Represents.deleteedge`, `Represents.createNode` and `Represents.createEdge`
  say what the calls do to the graph.
-/

namespace SourceNavigator.Layout

open Lib

namespace Layout_Graph

variable (g : Layout_Graph)

/-- The item of a node. -/
def item (n : Addr) : Option pItem := (g.node n).map Node.itemPtr

/-- An edge has its end at a node. -/
def leads (nodeAt : Edge → Addr) (n e : Addr) : Bool := (g.edge e).map nodeAt == some n

/-- The table has an edge with this identifier from one item to another. -/
def HasEdge (id : pItem) (v w : pItem) : Prop :=
  ∃ e x, g.edge e = some x ∧ x.edgeid = id ∧ g.item x.fromNode = some v ∧ g.item x.toNode = some w

/-- The tables hold all nodes and edges, the ends of the edges are nodes, and the lists of a node
have the edges that lead from it and to it. -/
structure Incidence : Prop where
  nodes_nodup : g.nodes.Nodup
  edges_nodup : g.edges.Nodup
  live_node : ∀ n, (g.node n).isSome ↔ n ∈ g.nodes
  live_edge : ∀ e, (g.edge e).isSome ↔ e ∈ g.edges
  null_node : NULL ∉ g.nodes
  null_edge : NULL ∉ g.edges
  items : ∀ n n' v, g.item n = some v → g.item n' = some v → n = n'
  ids : ∀ e e' x x', g.edge e = some x → g.edge e' = some x' → x.edgeid = x'.edgeid → e = e'
  ends : ∀ e x, g.edge e = some x → x.fromNode ∈ g.nodes ∧ x.toNode ∈ g.nodes
  succ : ∀ n x, g.node n = some x → x.succ.Perm (g.edges.filter (g.leads Edge.fromNode n))
  parent : ∀ n x, g.node n = some x → x.parent.Perm (g.edges.filter (g.leads Edge.toNode n))

/-- The tables hold a graph. -/
structure Represents (G : Multigraph pItem pItem) : Prop extends Incidence g where
  verts : ∀ v, v ∈ G.verts ↔ ∃ n, g.item n = some v
  edges : ∀ id v w, (id, v, w) ∈ G.edges ↔ g.HasEdge id v w

variable {g} {g' : Layout_Graph} {G : Multigraph pItem pItem} {n e : Addr} {i : Nat} {x : Edge}

theorem Incidence.mem_of_item (h : g.Incidence) {v : pItem} (at_n : g.item n = some v) :
    n ∈ g.nodes := by
  obtain ⟨y, here, -⟩ := Option.map_eq_some_iff.mp at_n
  rw [← h.live_node, here]
  rfl

theorem Incidence.mem_edges (h : g.Incidence) (here : g.edge e = some x) : e ∈ g.edges := by
  rw [← h.live_edge, here]
  rfl

theorem represents_create : LayoutCreateGraph.Represents .empty := by
  refine ⟨⟨List.nodup_nil, List.nodup_nil, ?_, ?_, List.not_mem_nil, List.not_mem_nil, ?_, ?_, ?_,
    ?_, ?_⟩, ?_, ?_⟩
  · exact fun n => iff_of_false nofun List.not_mem_nil
  · exact fun e => iff_of_false nofun List.not_mem_nil
  · exact fun n n' v some_v => nomatch some_v
  · exact fun e e' x x' some_x => nomatch some_x
  · exact fun e x some_x => nomatch some_x
  · exact fun n x some_x => nomatch some_x
  · exact fun n x some_x => nomatch some_x
  · exact fun v => iff_of_false (fun mem => mem.elim) fun ⟨n, some_v⟩ => nomatch some_v
  · exact fun id v w => iff_of_false (fun mem => mem.elim) fun ⟨e, x, some_x, _⟩ => nomatch some_x

/-! ### Deleting an edge -/

theorem cleared_perm (e : Addr) {l : List Addr} (no_null : NULL ∉ l) :
    (cleared e l).Perm (l.filter fun s => s ≠ e) := by
  by_cases mem : e ∈ l
  · rw [cleared, if_pos (List.contains_iff_mem.mpr mem)]
    refine (closeGaps_perm _ (Nat.le_refl _)).trans ?_
    have same : (l.map fun s => if s = e then NULL else s).filter (fun x => !(x == NULL)) =
        l.filter fun s => s ≠ e := by
      clear mem
      induction l with
      | nil => rfl
      | cons s l ih =>
        have ih := ih fun mem => no_null (List.mem_cons_of_mem s mem)
        have s_null : s ≠ NULL := fun same => no_null (same ▸ List.mem_cons_self)
        rw [List.map_cons]
        by_cases here : s = e
        · rw [if_pos here, List.filter_cons_of_neg (by simp), ih,
            List.filter_cons_of_neg (by simp [here])]
        · rw [if_neg here, List.filter_cons_of_pos (by simpa using s_null), ih,
            List.filter_cons_of_pos (by simpa using here)]
    rw [same]
  · rw [cleared, if_neg (fun has => mem (List.contains_iff_mem.mp has))]
    have all : l.filter (fun s => s ≠ e) = l := by
      rw [List.filter_eq_self]
      intro s mem_s
      rw [decide_eq_true_iff]
      rintro rfl
      exact mem mem_s
    rw [all]


theorem readNode_eq {y : Node} (here : g.node n = some y) : g.readNode n = .ok y := by
  rw [readNode, here]

theorem readEdge_eq (here : g.edge e = some x) : g.readEdge e = .ok x := by
  rw [readEdge, here]

/-- What clearing an edge from the lists of some nodes leaves. -/
theorem clearEdges_spec (e : Addr) {nodes : List Addr} (nodup : nodes.Nodup)
    (live : ∀ n ∈ nodes, (g.node n).isSome) :
    ∃ node, clearEdges e nodes g = .ok { g with node } ∧
      (∀ n ∉ nodes, node n = g.node n) ∧
      ∀ n ∈ nodes, node n = (g.node n).map fun y =>
        { y with succ := cleared e y.succ, parent := cleared e y.parent } := by
  induction nodes generalizing g with
  | nil => exact ⟨g.node, rfl, fun n _ => rfl, fun n mem => absurd mem List.not_mem_nil⟩
  | cons n nodes ih =>
    obtain ⟨new, nodup⟩ := List.nodup_cons.mp nodup
    obtain ⟨y, here⟩ := Option.isSome_iff_exists.mp (live n List.mem_cons_self)
    let y' : Node := { y with succ := cleared e y.succ, parent := cleared e y.parent }
    have others : ∀ m ∈ nodes, (g.setNode n (some y')).node m = g.node m := fun m mem =>
      Function.update_of_ne (fun same => new (by rwa [← same])) _ _
    obtain ⟨node, ran, out, inside⟩ := ih (g := g.setNode n (some y')) nodup fun m mem => by
      rw [others m mem]
      exact live m (List.mem_cons_of_mem n mem)
    refine ⟨node, ?_, ?_, ?_⟩
    · rw [clearEdges, clearEdge, readNode_eq here]
      exact ran
    · intro m out_m
      rw [List.mem_cons, not_or] at out_m
      rw [out m out_m.2]
      exact Function.update_of_ne out_m.1 _ _
    · intro m mem
      rcases List.mem_cons.mp mem with rfl | mem
      · rw [out m new, here]
        exact Function.update_self _ _ _
      · rw [inside m mem, others m mem]

theorem split_at {l : List Addr} (here : l[i]? = some e) :
    ∃ l₁ l₂, l = l₁ ++ e :: l₂ ∧ l₁.length = i := by
  obtain ⟨short, rfl⟩ := List.getElem?_eq_some_iff.mp here
  refine ⟨l.take i, l.drop (i + 1), ?_, List.length_take_of_le (Nat.le_of_lt short)⟩
  rw [List.getElem_cons_drop, List.take_append_drop]

/-- A list of a node is right again when an edge is cleared from it and removed from the table. -/
theorem cleared_swapRemove {l l₁ l₂ : List Addr} {p p' : Addr → Bool}
    (perm : l.Perm ((l₁ ++ e :: l₂).filter p)) (no_null : NULL ∉ l₁ ++ e :: l₂)
    (nodup : (l₁ ++ e :: l₂).Nodup) (same : ∀ s, s ≠ e → p' s = p s) :
    (cleared e l).Perm ((swapRemove (l₁ ++ e :: l₂) l₁.length).filter p') := by
  have other : ∀ s ∈ l₁ ++ l₂, s ≠ e := by
    rintro s mem rfl
    exact (List.nodup_cons.mp (List.perm_middle.nodup_iff.mp nodup)).1 mem
  have no_null' : NULL ∉ l := fun mem => no_null (List.mem_of_mem_filter (perm.subset mem))
  have rest : ((l₁ ++ e :: l₂).filter p).filter (fun s => s ≠ e) = (l₁ ++ l₂).filter p' := by
    rw [List.filter_filter, List.filter_append, List.filter_cons_of_neg (by simp),
      ← List.filter_append]
    apply List.filter_congr
    intro s mem
    rw [same s (other s mem), decide_eq_true (other s mem), Bool.true_and]
  have closed := (cleared_perm e no_null').trans (perm.filter _)
  rw [rest] at closed
  exact closed.trans ((swapRemove_perm l₁ e l₂).filter p').symm

/-- What the table has when the edge `e` is taken from it and its memory is given back. -/
structure Without (g g' : Layout_Graph) (e : Addr) (i : Nat) : Prop where
  nodes : g'.nodes = g.nodes
  edges : g'.edges = swapRemove g.edges i
  item : ∀ n, g'.item n = g.item n
  edge : ∀ e', e' ≠ e → g'.edge e' = g.edge e'
  gone : g'.edge e = none

theorem Represents.deleteedge (h : g.Represents G) (here : g.edges[i]? = some e)
    (at_e : g.edge e = some x) :
    ∃ g', g.deleteedge e i = .ok g' ∧ g'.Represents (G.removeEdge x.edgeid) ∧ Without g g' e i := by
  obtain ⟨node, ran, out, inside⟩ := clearEdges_spec e h.nodes_nodup fun n mem =>
    (h.live_node n).mpr mem
  have all (n : Addr) : node n = (g.node n).map fun y =>
      { y with succ := cleared e y.succ, parent := cleared e y.parent } := by
    by_cases mem : n ∈ g.nodes
    · exact inside n mem
    · have none_there : g.node n = none := by
        rw [← h.live_node] at mem
        simpa using mem
      rw [out n mem, none_there]
      rfl
  obtain ⟨l₁, l₂, split, rfl⟩ := split_at here
  let g' : Layout_Graph :=
    { g with node, edge := Function.update g.edge e none, edges := swapRemove g.edges l₁.length }
  have same : ∀ e', e' ≠ e → g'.edge e' = g.edge e' := fun e' other =>
    Function.update_of_ne other _ _
  have gone : g'.edge e = none := Function.update_self _ _ _
  have item : ∀ n, g'.item n = g.item n := by
    intro n
    change (node n).map Node.itemPtr = (g.node n).map Node.itemPtr
    rw [all, Option.map_map]
    rfl
  have without : Without g g' e l₁.length := ⟨rfl, rfl, item, same, gone⟩
  have perm : g'.edges.Perm (l₁ ++ l₂) := by
    change (swapRemove g.edges l₁.length).Perm _
    rw [split]
    exact swapRemove_perm l₁ e l₂
  have nodup : e ∉ l₁ ++ l₂ ∧ (l₁ ++ l₂).Nodup := by
    have nodup := h.edges_nodup
    rw [split] at nodup
    exact List.nodup_cons.mp (List.perm_middle.nodup_iff.mp nodup)
  have mem_iff (e' : Addr) : e' ∈ g'.edges ↔ e' ∈ g.edges ∧ e' ≠ e := by
    rw [perm.mem_iff, split, List.mem_append, List.mem_append, List.mem_cons]
    constructor
    · intro mem
      refine ⟨mem.imp_right .inr, ?_⟩
      rintro rfl
      exact nodup.1 (List.mem_append.mpr mem)
    · rintro ⟨mem | rfl | mem, other⟩
      · exact .inl mem
      · exact absurd rfl other
      · exact .inr mem
  have old {e' : Addr} {x' : Edge} (there : g'.edge e' = some x') : g.edge e' = some x' ∧ e' ≠ e := by
    by_cases other : e' = e
    · rw [other, gone] at there
      cases there
    · exact ⟨by rw [← same e' other, there], other⟩
  have leads (nodeAt : Edge → Addr) (n s : Addr) (other : s ≠ e) :
      g'.leads nodeAt n s = g.leads nodeAt n s := by
    rw [Layout_Graph.leads, same s other]
    rfl
  have null_edge := h.null_edge
  have edges_nodup := h.edges_nodup
  rw [split] at null_edge edges_nodup
  refine ⟨g', ?_, ⟨⟨h.nodes_nodup, perm.nodup_iff.mpr nodup.2, ?_, ?_, h.null_node, ?_, ?_, ?_, ?_,
    ?_, ?_⟩, ?_, ?_⟩, without⟩
  · rw [Layout_Graph.deleteedge, ran]
    rfl
  · intro n
    change (node n).isSome ↔ n ∈ g.nodes
    rw [all, Option.isSome_map]
    exact h.live_node n
  · intro e'
    rw [mem_iff]
    by_cases other : e' = e
    · rw [other, gone]
      exact iff_of_false nofun fun both => both.2 rfl
    · rw [same e' other, h.live_edge]
      exact ⟨fun mem => ⟨mem, other⟩, And.left⟩
  · rw [mem_iff]
    exact fun both => h.null_edge both.1
  · intro n n' v some_v some_v'
    rw [item] at some_v some_v'
    exact h.items n n' v some_v some_v'
  · intro e₁ e₂ x₁ x₂ there there'
    exact h.ids e₁ e₂ x₁ x₂ (old there).1 (old there').1
  · intro e' x' there
    exact h.ends e' x' (old there).1
  · intro n y there
    obtain ⟨y, before, rfl⟩ := Option.map_eq_some_iff.mp ((all n).symm.trans there)
    have perm := h.succ n y before
    rw [split] at perm
    change (cleared e y.succ).Perm ((swapRemove g.edges l₁.length).filter _)
    rw [split]
    exact cleared_swapRemove perm null_edge edges_nodup (leads Edge.fromNode n)
  · intro n y there
    obtain ⟨y, before, rfl⟩ := Option.map_eq_some_iff.mp ((all n).symm.trans there)
    have perm := h.parent n y before
    rw [split] at perm
    change (cleared e y.parent).Perm ((swapRemove g.edges l₁.length).filter _)
    rw [split]
    exact cleared_swapRemove perm null_edge edges_nodup (leads Edge.toNode n)
  · intro v
    simp only [item]
    exact h.verts v
  · intro id v w
    change (id, v, w) ∈ G.edges ∧ id ≠ x.edgeid ↔ _
    rw [h.edges]
    constructor
    · rintro ⟨⟨e', x', there, rfl, v_at, w_at⟩, other⟩
      have ne : e' ≠ e := by
        rintro rfl
        exact other (by rw [Option.some.inj (there.symm.trans at_e)])
      refine ⟨e', x', (same e' ne).trans there, rfl, ?_, ?_⟩
      · rw [item, v_at]
      · rw [item, w_at]
    · rintro ⟨e', x', there, rfl, v_at, w_at⟩
      rw [item] at v_at w_at
      obtain ⟨before, ne⟩ := old there
      exact ⟨⟨e', x', before, rfl, v_at, w_at⟩, fun same_id => ne (h.ids e' e x' x before at_e same_id)⟩

/-! ### Looking for nodes and edges -/

theorem item_eq {y : Node} (here : g.node n = some y) : g.item n = some y.itemPtr := by
  rw [item, here]
  rfl

theorem findNode_spec (v : pItem) {nodes : List Addr} (live : ∀ n ∈ nodes, (g.node n).isSome)
    (i : Nat) :
    (∃ n k, g.findNode v nodes i = .ok (some (n, i + k)) ∧ nodes[k]? = some n ∧ g.item n = some v) ∨
      g.findNode v nodes i = .ok none ∧ ∀ n ∈ nodes, g.item n ≠ some v := by
  induction nodes generalizing i with
  | nil => exact .inr ⟨rfl, fun n mem => absurd mem List.not_mem_nil⟩
  | cons m nodes ih =>
    obtain ⟨y, here⟩ := Option.isSome_iff_exists.mp (live m List.mem_cons_self)
    have at_m : g.item m = some y.itemPtr := by rw [item, here]; rfl
    rw [findNode, readNode_eq here]
    by_cases found : y.itemPtr = v
    · refine .inl ⟨m, 0, ?_, rfl, by rw [at_m, found]⟩
      exact if_pos found
    · have next : (do
          let x ← Except.ok y
          if x.itemPtr = v then pure (some (m, i)) else g.findNode v nodes (i + 1) :
            Except Fault (Option (Addr × Nat))) = g.findNode v nodes (i + 1) := if_neg found
      rw [next]
      rcases ih (fun n mem => live n (List.mem_cons_of_mem m mem)) (i + 1) with
        ⟨n, k, ran, at_k, some_v⟩ | ⟨ran, others⟩
      · exact .inl ⟨n, k + 1, by rw [ran, Nat.add_assoc, Nat.add_comm 1], at_k, some_v⟩
      · refine .inr ⟨ran, ?_⟩
        intro n mem
        rcases List.mem_cons.mp mem with rfl | mem
        · rw [at_m]
          exact fun same => found (Option.some.inj same)
        · exact others n mem

theorem findEdge_spec (id : pItem) {edges : List Addr} (live : ∀ e ∈ edges, (g.edge e).isSome)
    (i : Nat) :
    (∃ e k x, g.findEdge id edges i = .ok (some (e, i + k)) ∧ edges[k]? = some e ∧
      g.edge e = some x ∧ x.edgeid = id) ∨
      g.findEdge id edges i = .ok none ∧ ∀ e ∈ edges, ∀ x, g.edge e = some x → x.edgeid ≠ id := by
  induction edges generalizing i with
  | nil => exact .inr ⟨rfl, fun n mem => absurd mem List.not_mem_nil⟩
  | cons e edges ih =>
    obtain ⟨y, here⟩ := Option.isSome_iff_exists.mp (live e List.mem_cons_self)
    rw [findEdge, readEdge_eq here]
    by_cases found : y.edgeid = id
    · exact .inl ⟨e, 0, y, if_pos found, rfl, here, found⟩
    · have next : (do
          let x ← Except.ok y
          if x.edgeid = id then pure (some (e, i)) else g.findEdge id edges (i + 1) :
            Except Fault (Option (Addr × Nat))) = g.findEdge id edges (i + 1) := if_neg found
      rw [next]
      rcases ih (fun n mem => live n (List.mem_cons_of_mem e mem)) (i + 1) with
        ⟨e', k, x, ran, at_k, there, same⟩ | ⟨ran, others⟩
      · exact .inl ⟨e', k + 1, x, by rw [ran, Nat.add_assoc, Nat.add_comm 1], at_k, there, same⟩
      · refine .inr ⟨ran, ?_⟩
        intro e' mem x there
        rcases List.mem_cons.mp mem with rfl | mem
        · rw [← Option.some.inj (here.symm.trans there)]
          exact found
        · exact others e' mem x there

/-- The pair of nodes for two items: the second one is not found if the items are the same. -/
theorem findEnds_spec (v w : pItem) {nodes : List Addr} (live : ∀ n ∈ nodes, (g.node n).isSome)
    (f t : Addr) :
    ∃ f' t', g.findEnds v w nodes f t = .ok (f', t') ∧
      (f' ∈ nodes ∧ g.item f' = some v ∨ f' = f ∧ ∀ n ∈ nodes, g.item n ≠ some v) ∧
      (t' ∈ nodes ∧ g.item t' = some w ∧ v ≠ w ∨
        t' = t ∧ (v = w ∨ ∀ n ∈ nodes, g.item n ≠ some w)) := by
  induction nodes generalizing f t with
  | nil =>
    exact ⟨f, t, rfl, .inr ⟨rfl, fun n mem => absurd mem List.not_mem_nil⟩,
      .inr ⟨rfl, .inr fun n mem => absurd mem List.not_mem_nil⟩⟩
  | cons m nodes ih =>
    obtain ⟨y, here⟩ := Option.isSome_iff_exists.mp (live m List.mem_cons_self)
    have at_m : g.item m = some y.itemPtr := by rw [item, here]; rfl
    have ih := ih fun n mem => live n (List.mem_cons_of_mem m mem)
    have also (u : pItem) (other : y.itemPtr ≠ u) (rest : ∀ n ∈ nodes, g.item n ≠ some u) :
        ∀ n ∈ m :: nodes, g.item n ≠ some u := by
      intro n mem
      rcases List.mem_cons.mp mem with rfl | mem
      · rw [at_m]
        exact fun same => other (Option.some.inj same)
      · exact rest n mem
    have step : g.findEnds v w (m :: nodes) f t =
        if y.itemPtr = v then g.findEnds v w nodes m t
        else if y.itemPtr = w then g.findEnds v w nodes f m
        else g.findEnds v w nodes f t := by
      rw [findEnds, readNode_eq here]
      rfl
    by_cases is_v : y.itemPtr = v
    · obtain ⟨f', t', ran, from_, to_⟩ := ih m t
      refine ⟨f', t', by rw [step, if_pos is_v, ran], .inl ?_, ?_⟩
      · rcases from_ with ⟨mem, at_f⟩ | ⟨rfl, -⟩
        · exact ⟨List.mem_cons_of_mem m mem, at_f⟩
        · exact ⟨List.mem_cons_self, by rw [at_m, is_v]⟩
      · rcases to_ with ⟨mem, at_t⟩ | ⟨same, none⟩
        · exact .inl ⟨List.mem_cons_of_mem m mem, at_t⟩
        · refine .inr ⟨same, ?_⟩
          by_cases v_w : v = w
          · exact .inl v_w
          · exact .inr (also w (by rwa [is_v]) (none.resolve_left v_w))
    · by_cases is_w : y.itemPtr = w
      · obtain ⟨f', t', ran, from_, to_⟩ := ih f m
        refine ⟨f', t', by rw [step, if_neg is_v, if_pos is_w, ran], ?_, .inl ?_⟩
        · rcases from_ with ⟨mem, at_f⟩ | ⟨same, none⟩
          · exact .inl ⟨List.mem_cons_of_mem m mem, at_f⟩
          · exact .inr ⟨same, also v is_v none⟩
        · rcases to_ with ⟨mem, at_t⟩ | ⟨rfl, -⟩
          · exact ⟨List.mem_cons_of_mem m mem, at_t⟩
          · exact ⟨List.mem_cons_self, by rw [at_m, is_w], fun v_w => is_v (is_w.trans v_w.symm)⟩
      · obtain ⟨f', t', ran, from_, to_⟩ := ih f t
        refine ⟨f', t', by rw [step, if_neg is_v, if_neg is_w, ran], ?_, ?_⟩
        · rcases from_ with ⟨mem, at_f⟩ | ⟨same, none⟩
          · exact .inl ⟨List.mem_cons_of_mem m mem, at_f⟩
          · exact .inr ⟨same, also v is_v none⟩
        · rcases to_ with ⟨mem, at_t⟩ | ⟨same, none⟩
          · exact .inl ⟨List.mem_cons_of_mem m mem, at_t⟩
          · exact .inr ⟨same, none.imp_right (also w is_w)⟩

/-! ### Creating an edge -/

theorem isFree_iff {a : Addr} :
    g.isFree a = true ↔ a ≠ NULL ∧ g.node a = none ∧ g.edge a = none := by
  simp [isFree, and_assoc]

/-- A node that a new edge leads from or to. -/
def extended (f t e : Addr) (n : Addr) (y : Node) : Node :=
  { y with
    succ := if n = f then y.succ ++ [e] else y.succ
    parent := if n = t then y.parent ++ [e] else y.parent }

/-- A table with a new edge. -/
structure With (g g' : Layout_Graph) (e : Addr) (x : Edge) : Prop where
  nodes : g'.nodes = g.nodes
  edges : g'.edges = g.edges ++ [e]
  node : ∀ n, g'.node n = (g.node n).map (extended x.fromNode x.toNode e n)
  edge : ∀ e', e' ≠ e → g'.edge e' = g.edge e'
  new : g'.edge e = some x

theorem Represents.addEdge (h : g.Represents G) (added : With g g' e x) (free : g.isFree e = true)
    {v w : pItem} (from_ : g.item x.fromNode = some v) (to_ : g.item x.toNode = some w)
    (apart : v ≠ w) (unused : ∀ e ∈ g.edges, ∀ y, g.edge e = some y → y.edgeid ≠ x.edgeid) :
    g'.Represents (G.addEdge x.edgeid v w) := by
  obtain ⟨not_null, no_node, no_edge⟩ := isFree_iff.mp free
  have new : e ∉ g.edges := by
    rw [← h.live_edge, no_edge]
    exact Bool.false_ne_true
  have item (n : Addr) : g'.item n = g.item n := by
    rw [Layout_Graph.item, added.node, Option.map_map]
    rfl
  have can : G.CanAdd x.edgeid v w := by
    refine ⟨?_, (h.verts v).mpr ⟨_, from_⟩, (h.verts w).mpr ⟨_, to_⟩, apart⟩
    intro a b mem
    obtain ⟨e', y, there, same, -⟩ := (h.edges _ _ _).mp mem
    exact unused e' (h.mem_edges there) y there same
  have old {e' : Addr} {y : Edge} (there : g'.edge e' = some y) (other : e' ≠ e) :
      g.edge e' = some y := by rwa [added.edge e' other] at there
  have leads (nodeAt : Edge → Addr) (n : Addr) :
      (g.edges ++ [e]).filter (g'.leads nodeAt n) =
        g.edges.filter (g.leads nodeAt n) ++ if n = nodeAt x then [e] else [] := by
    rw [List.filter_append]
    congr 1
    · apply List.filter_congr
      intro e' mem
      rw [Layout_Graph.leads, added.edge e' fun same => new (same ▸ mem)]
      rfl
    · by_cases here : n = nodeAt x
      · rw [if_pos here, List.filter_cons_of_pos, List.filter_nil]
        rw [Layout_Graph.leads, added.new, here]
        exact beq_self_eq_true _
      · rw [if_neg here, List.filter_cons_of_neg, List.filter_nil]
        rw [Layout_Graph.leads, added.new]
        intro same
        exact here (Option.some.inj (eq_of_beq same)).symm
  obtain ⟨verts, edges⟩ := Multigraph.addEdge_of_can can
  refine ⟨⟨?_, ?_, ?_, ?_, ?_, ?_, ?_, ?_, ?_, ?_, ?_⟩, ?_, ?_⟩
  · rw [added.nodes]
    exact h.nodes_nodup
  · rw [added.edges]
    exact List.nodup_append.mpr ⟨h.edges_nodup, List.nodup_cons.mpr ⟨List.not_mem_nil, .nil⟩, fun a mem b mem' same =>
      new (by rwa [← List.mem_singleton.mp mem', ← same])⟩
  · intro n
    rw [added.node, Option.isSome_map, added.nodes]
    exact h.live_node n
  · intro e'
    rw [added.edges, List.mem_append, List.mem_singleton]
    by_cases other : e' = e
    · rw [other, added.new]
      exact iff_of_true rfl (.inr rfl)
    · rw [added.edge e' other, h.live_edge]
      exact ⟨.inl, fun mem => mem.resolve_right other⟩
  · rw [added.nodes]
    exact h.null_node
  · rw [added.edges, List.mem_append, List.mem_singleton]
    exact fun mem => mem.elim h.null_edge fun same => not_null same.symm
  · intro n n' u at_n at_n'
    rw [item] at at_n at_n'
    exact h.items n n' u at_n at_n'
  · intro e₁ e₂ x₁ x₂ there₁ there₂ same
    by_cases other₁ : e₁ = e
    · by_cases other₂ : e₂ = e
      · rw [other₁, other₂]
      · rw [other₁, added.new] at there₁
        have there₂ := old there₂ other₂
        rw [← Option.some.inj there₁] at same
        exact absurd same.symm (unused e₂ (h.mem_edges there₂) x₂ there₂)
    · have there₁ := old there₁ other₁
      by_cases other₂ : e₂ = e
      · rw [other₂, added.new] at there₂
        rw [← Option.some.inj there₂] at same
        exact absurd same (unused e₁ (h.mem_edges there₁) x₁ there₁)
      · exact h.ids e₁ e₂ x₁ x₂ there₁ (old there₂ other₂) same
  · intro e' y there
    rw [added.nodes]
    by_cases other : e' = e
    · rw [other, added.new] at there
      rw [← Option.some.inj there]
      exact ⟨h.mem_of_item from_, h.mem_of_item to_⟩
    · exact h.ends e' y (old there other)
  · intro n y there
    obtain ⟨y, before, rfl⟩ := Option.map_eq_some_iff.mp ((added.node n).symm.trans there)
    rw [added.edges, leads Edge.fromNode n]
    change (if n = x.fromNode then y.succ ++ [e] else y.succ).Perm _
    split
    · exact (h.succ n y before).append_right [e]
    · rw [List.append_nil]
      exact h.succ n y before
  · intro n y there
    obtain ⟨y, before, rfl⟩ := Option.map_eq_some_iff.mp ((added.node n).symm.trans there)
    rw [added.edges, leads Edge.toNode n]
    change (if n = x.toNode then y.parent ++ [e] else y.parent).Perm _
    split
    · exact (h.parent n y before).append_right [e]
    · rw [List.append_nil]
      exact h.parent n y before
  · intro u
    simp only [item]
    rw [verts]
    exact h.verts u
  · intro id a b
    rw [edges, Set.mem_insert_iff, h.edges]
    constructor
    · rintro (same | ⟨e', y, there, rfl, a_at, b_at⟩)
      · cases same
        exact ⟨e, x, added.new, rfl, by rw [item, from_], by rw [item, to_]⟩
      · have other : e' ≠ e := by
          rintro rfl
          exact nomatch no_edge.symm.trans there
        exact ⟨e', y, by rw [added.edge e' other, there], rfl, by rw [item, a_at], by rw [item, b_at]⟩
    · rintro ⟨e', y, there, rfl, a_at, b_at⟩
      rw [item] at a_at b_at
      by_cases other : e' = e
      · rw [other, added.new] at there
        obtain rfl := Option.some.inj there
        left
        rw [Option.some.inj (from_.symm.trans a_at), Option.some.inj (to_.symm.trans b_at)]
      · exact .inr ⟨e', y, old there other, rfl, a_at, b_at⟩

theorem Represents.createEdge (h : g.Represents G) {id v w : pItem} {tmpEdge : Addr} {c : LayoutCode}
    (ran : g.LayoutCreateEdge id v w tmpEdge = .ok (g', c)) :
    g'.Represents (G.addEdge id v w) := by
  have live : ∀ n ∈ g.nodes, (g.node n).isSome := fun n mem => (h.live_node n).mpr mem
  have live_edge : ∀ e ∈ g.edges, (g.edge e).isSome := fun e mem => (h.live_edge e).mpr mem
  unfold LayoutCreateEdge at ran
  rcases findEdge_spec id live_edge 0 with ⟨e, k, x, found, at_k, there, rfl⟩ | ⟨found, unused⟩
  · rw [found, Fuel.ok_bind] at ran
    obtain ⟨rfl, -⟩ := Prod.mk.inj (Except.ok.inj ran)
    rwa [Multigraph.addEdge_of_not]
    rintro ⟨new, -⟩
    obtain ⟨from_mem, to_mem⟩ := h.ends e x there
    obtain ⟨a, a_at⟩ := Option.isSome_iff_exists.mp (live _ from_mem)
    obtain ⟨b, b_at⟩ := Option.isSome_iff_exists.mp (live _ to_mem)
    exact new a.itemPtr b.itemPtr ((h.edges _ _ _).mpr ⟨e, x, there, rfl, item_eq a_at, item_eq b_at⟩)
  · obtain ⟨f, t, ends, from_, to_⟩ := findEnds_spec v w live NULL NULL
    rw [found, Fuel.ok_bind] at ran
    dsimp only at ran
    rw [ends, Fuel.ok_bind] at ran
    dsimp only at ran
    have vert {n : Addr} (mem : n ∈ g.nodes) : n ≠ NULL := fun same => h.null_node (same ▸ mem)
    by_cases missing : f = NULL ∨ t = NULL
    · rw [if_pos missing] at ran
      obtain ⟨rfl, -⟩ := Prod.mk.inj (Except.ok.inj ran)
      rwa [Multigraph.addEdge_of_not]
      rintro ⟨-, v_mem, w_mem, apart⟩
      obtain ⟨n, at_n⟩ := (h.verts v).mp v_mem
      obtain ⟨m, at_m⟩ := (h.verts w).mp w_mem
      rcases missing with rfl | rfl
      · rcases from_ with ⟨mem, -⟩ | ⟨-, none⟩
        · exact h.null_node mem
        · exact none n (h.mem_of_item at_n) at_n
      · rcases to_ with ⟨mem, -⟩ | ⟨-, same | none⟩
        · exact h.null_node mem
        · exact apart same
        · exact none m (h.mem_of_item at_m) at_m
    · rw [if_neg missing] at ran
      obtain ⟨f_not, t_not⟩ := not_or.mp missing
      obtain ⟨f_mem, f_at⟩ := from_.resolve_right fun none => f_not none.1
      obtain ⟨t_mem, t_at, apart⟩ := to_.resolve_right fun none => t_not none.1
      have f_t : f ≠ t := by
        rintro rfl
        exact apart (Option.some.inj (f_at.symm.trans t_at))
      obtain ⟨x, x_here⟩ := Option.isSome_iff_exists.mp (live f f_mem)
      obtain ⟨y, y_here⟩ := Option.isSome_iff_exists.mp (live t t_mem)
      cases free : g.isFree tmpEdge with
      | false =>
        rw [free] at ran
        cases ran
      | true =>
        rw [free, Bool.not_true, if_neg Bool.false_ne_true] at ran
        obtain ⟨y', read_t, ran⟩ := Fuel.bind_eq_ok ran
        obtain rfl : y = y' := Except.ok.inj ((readNode_eq y_here).symm.trans read_t)
        obtain ⟨x', read_f, ran⟩ := Fuel.bind_eq_ok ran
        have x_here' (z : Option Node) : Function.update g.node t z f = some x :=
          (Function.update_of_ne f_t _ _).trans x_here
        obtain rfl : x = x' := Except.ok.inj ((readNode_eq (x_here' _)).symm.trans read_f)
        obtain ⟨rfl, -⟩ := Prod.mk.inj (Except.ok.inj ran)
        have represents {u : Layout_Graph} (added : With g u tmpEdge ⟨id, f, t, false, false⟩) :
            u.Represents (G.addEdge id v w) := h.addEdge added free f_at t_at apart unused
        refine represents ⟨rfl, rfl, ?_, ?_, ?_⟩
        · intro n
          change Function.update (Function.update g.node t _) f _ n = _
          by_cases n_f : n = f
          · rw [n_f, Function.update_self, x_here]
            simp [extended, f_t]
          · rw [Function.update_of_ne n_f]
            by_cases n_t : n = t
            · rw [n_t, Function.update_self, y_here]
              simp [extended, f_t.symm]
            · rw [Function.update_of_ne n_t]
              cases g.node n with
              | none => rfl
              | some z => simp [extended, n_f, n_t]
        · exact fun e' other => Function.update_of_ne other _ _
        · exact Function.update_self _ _ _

/-! ### Creating a node -/

/-- No dummy node is asked for, or no edge leads from one of the addresses to the other. -/
def noDummy (g : Layout_Graph) (fromNode toNode : pItem) : Bool :=
  fromNode == NULL || toNode == NULL || g.edges.all fun e =>
    !(g.leads Edge.fromNode fromNode e && g.leads Edge.toNode toNode e)

theorem findEnd_eq_none {nodeAt : Edge → Addr} {edges : List Addr}
    (live : ∀ e ∈ edges, (g.edge e).isSome) (none_there : ∀ e ∈ edges, g.leads nodeAt n e = false) :
    g.findEnd nodeAt n edges = .ok none := by
  induction edges with
  | nil => rfl
  | cons e edges ih =>
    obtain ⟨x, here⟩ := Option.isSome_iff_exists.mp (live e List.mem_cons_self)
    have other : nodeAt x ≠ n := by
      intro same
      have := none_there e List.mem_cons_self
      rw [leads, here, Option.map_some, same, beq_self_eq_true] at this
      cases this
    rw [findEnd, readEdge_eq here]
    exact (if_neg other).trans (ih (fun e' mem => live e' (List.mem_cons_of_mem e mem))
      fun e' mem => none_there e' (List.mem_cons_of_mem e mem))

/-- A search in the list of a node comes to an end. -/
theorem findEnd_ok {nodeAt : Edge → Addr} {edges : List Addr}
    (live : ∀ e ∈ edges, (g.edge e).isSome) : ∃ r, g.findEnd nodeAt n edges = .ok r := by
  induction edges with
  | nil => exact ⟨none, rfl⟩
  | cons e edges ih =>
    obtain ⟨x, here⟩ := Option.isSome_iff_exists.mp (live e List.mem_cons_self)
    rw [findEnd, readEdge_eq here]
    by_cases same : nodeAt x = n
    · exact ⟨some e, if_pos same⟩
    · obtain ⟨r, ran⟩ := ih fun e' mem => live e' (List.mem_cons_of_mem e mem)
      exact ⟨r, (if_neg same).trans ran⟩

theorem Incidence.insertDummy (h : g.Incidence) {fromNode toNode : pItem} {tmpNode tmpEdge : Addr}
    (plain : ∀ e, g.leads Edge.fromNode fromNode e = true → g.leads Edge.toNode toNode e = false) :
    g.insertDummy fromNode toNode tmpNode tmpEdge = .ok g := by
  have read {n : Addr} (mem : g.nodes.contains n = true) : ∃ x, g.node n = some x :=
    Option.isSome_iff_exists.mp ((h.live_node n).mpr (List.contains_iff_mem.mp mem))
  have live : ∀ e ∈ g.edges, (g.edge e).isSome := fun e mem => (h.live_edge e).mpr mem
  have succ : (if g.nodes.contains fromNode then do
      let x ← g.readNode fromNode
      g.findEnd Edge.toNode toNode x.succ
    else pure none) = .ok none := by
    split
    · rename_i mem
      obtain ⟨x, here⟩ := read mem
      have listed (e : Addr) := (h.succ fromNode x here).mem_iff (a := e)
      rw [readNode_eq here, Fuel.ok_bind]
      apply findEnd_eq_none
      · intro e mem
        exact live e (List.mem_of_mem_filter ((listed e).mp mem))
      · intro e mem
        exact plain e (List.mem_filter.mp ((listed e).mp mem)).2
    · rfl
  obtain ⟨r, parent⟩ : ∃ r, (if g.nodes.contains toNode then do
      let x ← g.readNode toNode
      g.findEnd Edge.fromNode fromNode x.parent
    else pure none) = .ok r := by
    split
    · rename_i mem
      obtain ⟨x, here⟩ := read mem
      rw [readNode_eq here, Fuel.ok_bind]
      apply findEnd_ok
      intro e mem
      exact live e (List.mem_of_mem_filter ((h.parent toNode x here).mem_iff.mp mem))
    · exact ⟨none, rfl⟩
  rw [Layout_Graph.insertDummy, succ, Fuel.ok_bind, parent, Fuel.ok_bind]

/-- A table with a new node. -/
def withNode (g : Layout_Graph) (n : Addr) (v : pItem) : Layout_Graph :=
  { g.setNode n (some { itemPtr := v, ignore := false, visited := false, parent := [], succ := [] })
      with nodes := g.nodes ++ [n] }

theorem Represents.withNode (h : g.Represents G) (free : g.isFree n = true) {v : pItem}
    (unused : ∀ m ∈ g.nodes, g.item m ≠ some v) : (g.withNode n v).Represents (G.addVert v) := by
  obtain ⟨not_null, no_node, no_edge⟩ := isFree_iff.mp free
  have new : n ∉ g.nodes := by
    rw [← h.live_node, no_node]
    exact Bool.false_ne_true
  have here : (g.withNode n v).node n = some ⟨v, false, false, [], []⟩ := Function.update_self _ _ _
  have others {m : Addr} (other : m ≠ n) : (g.withNode n v).node m = g.node m :=
    Function.update_of_ne other _ _
  have item_others {m : Addr} (other : m ≠ n) : (g.withNode n v).item m = g.item m := by
    rw [item, others other]
    rfl
  have item_here : (g.withNode n v).item n = some v := by rw [item, here]; rfl
  have at_ends {e : Addr} {x : Edge} (there : g.edge e = some x) : x.fromNode ≠ n ∧ x.toNode ≠ n := by
    obtain ⟨from_, to_⟩ := h.ends e x there
    exact ⟨fun same => new (same ▸ from_), fun same => new (same ▸ to_)⟩
  have none_lead (nodeAt : Edge → Addr) (end_ : ∀ e x, g.edge e = some x → nodeAt x ≠ n) :
      g.edges.filter ((g.withNode n v).leads nodeAt n) = [] := by
    rw [List.filter_eq_nil_iff]
    intro e mem leads
    obtain ⟨x, there⟩ := Option.isSome_iff_exists.mp ((h.live_edge e).mpr mem)
    rw [Layout_Graph.leads] at leads
    change ((g.edge e).map nodeAt == some n) = true at leads
    rw [there] at leads
    exact end_ e x there (Option.some.inj (eq_of_beq leads))
  have mem_iff (m : Addr) : m ∈ (g.withNode n v).nodes ↔ m ∈ g.nodes ∨ m = n := by
    change m ∈ g.nodes ++ [n] ↔ _
    rw [List.mem_append, List.mem_singleton]
  refine ⟨⟨?_, h.edges_nodup, ?_, h.live_edge, ?_, h.null_edge, ?_, h.ids, ?_, ?_, ?_⟩, ?_, ?_⟩
  · exact List.nodup_append.mpr ⟨h.nodes_nodup, List.nodup_cons.mpr ⟨List.not_mem_nil, .nil⟩,
      fun a mem b mem' same => new (by rwa [← List.mem_singleton.mp mem', ← same])⟩
  · intro m
    rw [mem_iff]
    by_cases other : m = n
    · rw [other, here]
      exact iff_of_true rfl (.inr rfl)
    · rw [others other, h.live_node]
      exact ⟨.inl, fun mem => mem.resolve_right other⟩
  · rw [mem_iff]
    exact fun mem => mem.elim h.null_node fun same => not_null same.symm
  · intro m m' u at_m at_m'
    by_cases other : m = n
    · by_cases other' : m' = n
      · rw [other, other']
      · rw [item_others other'] at at_m'
        rw [other, item_here] at at_m
        rw [← at_m] at at_m'
        exact absurd at_m' (unused m' (h.mem_of_item at_m'))
    · rw [item_others other] at at_m
      by_cases other' : m' = n
      · rw [other', item_here] at at_m'
        rw [← at_m'] at at_m
        exact absurd at_m (unused m (h.mem_of_item at_m))
      · rw [item_others other'] at at_m'
        exact h.items m m' u at_m at_m'
  · intro e x there
    rw [mem_iff, mem_iff]
    exact (h.ends e x there).imp .inl .inl
  · intro m y there
    by_cases other : m = n
    · rw [other, here] at there
      rw [← Option.some.inj there, other]
      change ([] : List Addr).Perm (g.edges.filter _)
      rw [none_lead Edge.fromNode fun e x there => (at_ends there).1]
    · rw [others other] at there
      exact h.succ m y there
  · intro m y there
    by_cases other : m = n
    · rw [other, here] at there
      rw [← Option.some.inj there, other]
      change ([] : List Addr).Perm (g.edges.filter _)
      rw [none_lead Edge.toNode fun e x there => (at_ends there).2]
    · rw [others other] at there
      exact h.parent m y there
  · intro u
    change u ∈ insert v G.verts ↔ _
    rw [Set.mem_insert_iff, h.verts]
    constructor
    · rintro (rfl | ⟨m, at_m⟩)
      · exact ⟨n, item_here⟩
      · have other : m ≠ n := fun same => new (same ▸ h.mem_of_item at_m)
        exact ⟨m, by rw [item_others other, at_m]⟩
    · rintro ⟨m, at_m⟩
      by_cases other : m = n
      · rw [other, item_here] at at_m
        exact .inl (Option.some.inj at_m).symm
      · rw [item_others other] at at_m
        exact .inr ⟨m, at_m⟩
  · intro id a b
    refine (h.edges id a b).trans ?_
    constructor
    · rintro ⟨e, x, there, rfl, a_at, b_at⟩
      obtain ⟨from_, to_⟩ := at_ends there
      exact ⟨e, x, there, rfl, by rw [item_others from_, a_at], by rw [item_others to_, b_at]⟩
    · rintro ⟨e, x, there, rfl, a_at, b_at⟩
      obtain ⟨from_, to_⟩ := at_ends there
      rw [item_others from_] at a_at
      rw [item_others to_] at b_at
      exact ⟨e, x, there, rfl, a_at, b_at⟩

theorem Represents.createNode (h : g.Represents G) {v fromNode toNode : pItem}
    {tmpNode tmpEdge : Addr} {c : LayoutCode} (plain : g.noDummy fromNode toNode = true)
    (ran : g.LayoutCreateNode v fromNode toNode tmpNode tmpEdge = .ok (g', c)) :
    g'.Represents (G.addVert v) := by
  unfold LayoutCreateNode at ran
  rcases findNode_spec v (fun n mem => (h.live_node n).mpr mem) 0 with
    ⟨n, k, found, -, at_n⟩ | ⟨found, unused⟩
  · rw [found, Fuel.ok_bind] at ran
    obtain ⟨rfl, -⟩ := Prod.mk.inj (Except.ok.inj ran)
    rwa [Multigraph.addVert_of_mem ((h.verts v).mpr ⟨n, at_n⟩)]
  · rw [found, Fuel.ok_bind] at ran
    dsimp only at ran
    cases free : g.isFree tmpNode with
    | false =>
      rw [free] at ran
      cases ran
    | true =>
      have added := h.withNode free unused
      rw [free, Bool.not_true, if_neg Bool.false_ne_true] at ran
      obtain ⟨u, inserted, ran⟩ := Fuel.bind_eq_ok ran
      obtain ⟨rfl, -⟩ := Prod.mk.inj (Except.ok.inj ran)
      suffices same : .ok (g.withNode tmpNode v) = Except.ok (ε := Fault) u by
        rwa [← Except.ok.inj same]
      rw [← inserted]
      split
      · rename_i asked
        refine (added.insertDummy fun e from_ => ?_).symm
        simp only [noDummy, Bool.or_eq_true, beq_iff_eq, asked.1, asked.2, false_or,
          List.all_eq_true] at plain
        by_cases mem : e ∈ g.edges
        · have not_both := plain e mem
          rw [Bool.not_eq_true', Bool.and_eq_false_iff] at not_both
          exact not_both.resolve_left fun no => nomatch no.symm.trans from_
        · have none_there : g.edge e = none := by
            rw [← h.live_edge] at mem
            simpa using mem
          change ((g.edge e).map Edge.toNode == some toNode) = false
          rw [none_there]
          rfl
      · rfl

end Layout_Graph

end SourceNavigator.Layout

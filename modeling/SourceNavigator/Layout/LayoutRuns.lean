import Mathlib.Data.Fintype.EquivFin
import SourceNavigator.Layout.LayoutEnds

/-!
Layouts in runs of calls (`libgui/tkCanvLayout.c`).

* `Flags` says that a call leaves the flags of the nodes alone.
* `standing_of_run`: along a run the tables hold a graph, and no node has its flag
  before a root is chosen.
* `layout_ends_iff_of_run` is the result.
-/

namespace SourceNavigator.Layout

open Lib Relation

namespace Layout_Graph

variable {g g' g'' : Layout_Graph} {n e : Addr} {y : Node} {c : LayoutCode}

/-! ### The flags and the calls -/

/-- The nodes have the flags they had, or none. -/
structure Flags (g g' : Layout_Graph) : Prop where
  rootNode : g'.rootNode = g.rootNode
  node : ∀ n y', g'.node n = some y' → y'.ignore = false ∧ y'.visited = false ∨
    ∃ y, g.node n = some y ∧ y'.ignore = y.ignore ∧ y'.visited = y.visited

theorem Flags.refl (g : Layout_Graph) : Flags g g :=
  ⟨rfl, fun _ y here => .inr ⟨y, here, rfl, rfl⟩⟩

theorem Flags.trans (h : Flags g g') (h' : Flags g' g'') : Flags g g'' := by
  refine ⟨h'.rootNode.trans h.rootNode, fun n y'' here => ?_⟩
  rcases h'.node n y'' here with clear | ⟨y', here', ignore', visited'⟩
  · exact .inl clear
  · rw [ignore', visited']
    exact h.node n y' here'

/-- A change of what is not a flag of a node. -/
theorem Flags.of_node (node : g'.node = g.node) (rootNode : g'.rootNode = g.rootNode) : Flags g g' :=
  ⟨rootNode, fun n y here => .inr ⟨y, node ▸ here, rfl, rfl⟩⟩

theorem Flags.setNode {y' : Node} (flags : y'.ignore = false ∧ y'.visited = false ∨
    ∃ y, g.readNode n = .ok y ∧ y'.ignore = y.ignore ∧ y'.visited = y.visited) :
    Flags g (g.setNode n (some y')) := by
  refine ⟨rfl, fun m z here => ?_⟩
  by_cases same : m = n
  · subst same
    change Function.update g.node m _ m = _ at here
    rw [Function.update_self] at here
    obtain rfl := Option.some.inj here
    rcases flags with clear | ⟨y, read, ignore, visited⟩
    · exact .inl clear
    · refine .inr ⟨y, ?_, ignore, visited⟩
      rw [readNode] at read
      split at read
      · rename_i x at_m
        rw [at_m, Except.ok.inj read]
      · cases read
  · refine .inr ⟨z, ?_, rfl, rfl⟩
    change Function.update g.node n _ m = _ at here
    rwa [Function.update_of_ne same] at here

/-- Other lists for a node. -/
theorem Flags.relist (read : g.readNode n = .ok y) (parent succ : List Addr) :
    Flags g (g.setNode n (some { y with parent, succ })) :=
  .setNode (.inr ⟨y, read, rfl, rfl⟩)

theorem Flags.removeNode : Flags g (g.setNode n none) := by
  refine ⟨rfl, fun m z here => ?_⟩
  change Function.update g.node n none m = _ at here
  by_cases same : m = n
  · subst same
    rw [Function.update_self] at here
    cases here
  · rw [Function.update_of_ne same] at here
    exact .inr ⟨z, here, rfl, rfl⟩

theorem flags_clearEdges {nodes : List Addr} (ran : clearEdges e nodes g = .ok g') :
    Flags g g' := by
  induction nodes generalizing g with
  | nil =>
    obtain rfl := Except.ok.inj ran
    exact .refl g
  | cons n nodes ih =>
    obtain ⟨g₁, clear, ran⟩ := Fuel.bind_eq_ok ran
    obtain ⟨y, read, clear⟩ := Fuel.bind_eq_ok clear
    obtain rfl := Except.ok.inj clear
    exact (Flags.relist read _ _).trans (ih ran)

theorem flags_deleteedge {i : Nat} (ran : g.deleteedge e i = .ok g') : Flags g g' := by
  obtain ⟨g₁, cleared, ran⟩ := Fuel.bind_eq_ok ran
  obtain rfl := Except.ok.inj ran
  exact (flags_clearEdges cleared).trans (.of_node rfl rfl)

theorem flags_deleteAttached {k i : Nat} (ran : deleteAttached n k i g = .ok g') : Flags g g' := by
  induction k generalizing g i with
  | zero =>
    obtain rfl := Except.ok.inj ran
    exact .refl g
  | succ k ih =>
    rw [deleteAttached] at ran
    split at ran
    · obtain rfl := Except.ok.inj ran
      exact .refl g
    · obtain ⟨x, -, ran⟩ := Fuel.bind_eq_ok ran
      obtain ⟨g₁, deleted, ran⟩ := Fuel.bind_eq_ok ran
      split at deleted
      · exact (flags_deleteedge deleted).trans (ih ran)
      · obtain rfl := Except.ok.inj deleted
        exact ih ran

theorem flags_insertDummy {fromNode toNode : pItem} {tmpNode tmpEdge : Addr}
    (ran : g.insertDummy fromNode toNode tmpNode tmpEdge = .ok g') : Flags g g' := by
  obtain ⟨succ, -, ran⟩ := Fuel.bind_eq_ok ran
  obtain ⟨parent, -, ran⟩ := Fuel.bind_eq_ok ran
  split at ran
  · split at ran
    · cases ran
    · obtain ⟨x, read, ran⟩ := Fuel.bind_eq_ok ran
      obtain ⟨y, -, ran⟩ := Fuel.bind_eq_ok ran
      obtain ⟨z, -, ran⟩ := Fuel.bind_eq_ok ran
      obtain rfl := Except.ok.inj ran
      exact (Flags.relist read [tmpEdge] [tmpEdge]).trans (.of_node rfl rfl)
  · obtain rfl := Except.ok.inj ran
    exact .refl g

theorem flags_call {call : Call} (ran : g.call call = .ok (g', c)) : Flags g g' := by
  cases call with
  | createNode itemPtr fromNode toNode tmpNode tmpEdge =>
    obtain ⟨found, -, ran⟩ := Fuel.bind_eq_ok ran
    cases found with
    | some r =>
      obtain ⟨rfl, -⟩ := Prod.mk.inj (Except.ok.inj ran)
      exact .refl g
    | none =>
      dsimp only at ran
      split at ran
      · cases ran
      · obtain ⟨g₁, inserted, ran⟩ := Fuel.bind_eq_ok ran
        obtain ⟨rfl, -⟩ := Prod.mk.inj (Except.ok.inj ran)
        have new : Flags g (g.withNode tmpNode itemPtr) :=
          (Flags.setNode (.inl ⟨rfl, rfl⟩)).trans (.of_node rfl rfl)
        split at inserted
        · exact new.trans (flags_insertDummy inserted)
        · obtain rfl := Except.ok.inj inserted
          exact new
  | createEdge edgeid fromid toid tmpEdge =>
    obtain ⟨found, -, ran⟩ := Fuel.bind_eq_ok ran
    cases found with
    | some r =>
      obtain ⟨rfl, -⟩ := Prod.mk.inj (Except.ok.inj ran)
      exact .refl g
    | none =>
      obtain ⟨⟨fromnode, tonode⟩, -, ran⟩ := Fuel.bind_eq_ok ran
      dsimp only at ran
      split at ran
      · obtain ⟨rfl, -⟩ := Prod.mk.inj (Except.ok.inj ran)
        exact .refl g
      · split at ran
        · cases ran
        · obtain ⟨y, read_y, ran⟩ := Fuel.bind_eq_ok ran
          obtain ⟨x, read_x, ran⟩ := Fuel.bind_eq_ok ran
          obtain ⟨rfl, -⟩ := Prod.mk.inj (Except.ok.inj ran)
          have ends := (Flags.relist read_y (y.parent ++ [tmpEdge]) y.succ).trans
            (.relist read_x x.parent (x.succ ++ [tmpEdge]))
          apply Flags.trans ?_ ends
          exact .of_node rfl rfl
  | deleteEdge eid =>
    obtain ⟨found, -, ran⟩ := Fuel.bind_eq_ok ran
    cases found with
    | some r =>
      obtain ⟨g₁, deleted, ran⟩ := Fuel.bind_eq_ok ran
      obtain ⟨rfl, -⟩ := Prod.mk.inj (Except.ok.inj ran)
      exact flags_deleteedge deleted
    | none =>
      obtain ⟨rfl, -⟩ := Prod.mk.inj (Except.ok.inj ran)
      exact .refl g
  | deleteNode nodeid =>
    obtain ⟨found, -, ran⟩ := Fuel.bind_eq_ok ran
    cases found with
    | some r =>
      obtain ⟨g₁, detached, ran⟩ := Fuel.bind_eq_ok ran
      obtain ⟨rfl, -⟩ := Prod.mk.inj (Except.ok.inj ran)
      have node : Flags g₁ { g₁ with nodes := swapRemove g₁.nodes r.2 } := .of_node rfl rfl
      exact (flags_deleteAttached detached).trans (node.trans .removeNode)
    | none =>
      obtain ⟨rfl, -⟩ := Prod.mk.inj (Except.ok.inj ran)
      exact .refl g

end Layout_Graph

namespace Placed

open Layout_Graph

variable {D : Type} [Double D] {s : Settings D} {l l' : Placed D} {n r : Addr} {k : Nat}
  {c : LayoutCode}

/-! ### Runs -/

/-- What holds along a run. -/
structure Standing (l : Placed D) : Prop extends Sound l.toLayout_Graph where
  graph : ∃ G, l.Represents G
  first : l.rootNode = NULL → ∀ n, l.seen n = false

theorem standing_create : (create : Placed D).Standing where
  toIncidence := represents_create.toIncidence
  kept _ _ here := nomatch here
  graph := ⟨.empty, represents_create⟩
  first _ _ := rfl

/-- A call does to the graph what it does without the places. -/
theorem call_of_act {call : Call} (ran : l.act k (.call call) = .ok (l', c)) :
    l.call call = .ok (l'.toLayout_Graph, c) := by
  obtain ⟨⟨g, code⟩, called, ran⟩ := Fuel.bind_eq_ok ran
  rw [called]
  dsimp only at ran
  split at ran
  all_goals
    obtain ⟨rfl, rfl⟩ := Prod.mk.inj (Except.ok.inj ran)
    rfl

theorem Standing.call (h : l.Standing) {call : Call} (careful : l.Careful call = true)
    (ran : l.act k (.call call) = .ok (l', c)) : l'.Standing := by
  have called := call_of_act ran
  have flags := flags_call called
  obtain ⟨G, represents⟩ := h.graph
  have represents' := represents.call careful called
  refine ⟨⟨represents'.toIncidence, fun n y' here => ?_⟩, ⟨_, represents'⟩, fun null n => ?_⟩
  · rcases flags.node n y' here with clear | ⟨y, old, ignore, -⟩
    · exact clear.1
    · exact ignore.trans (h.kept n y old)
  · have unseen := h.first (flags.rootNode.symm.trans null) n
    cases here : l'.node n with
    | none =>
      rw [seen, here]
      rfl
    | some y' =>
      rw [seen_eq here]
      rcases flags.node n y' here with clear | ⟨y, old, -, visited⟩
      · exact clear.2
      · rw [visited, ← seen_eq old, unseen]

/-- A layout either reads a root that is not a node, or chooses one. -/
theorem Standing.root (h : l.Standing) :
    l.rootNode ≠ NULL ∧ l.rootNode ∉ l.nodes ∧ l.LayoutGraphRoot = .error .freed ∨
      (l.rootNode = NULL ∨ l.rootNode ∈ l.nodes) ∧
        ∃ g' r, l.LayoutGraphRoot = .ok (g', r) ∧ Rooted l.toLayout_Graph g' r := by
  by_cases root : l.rootNode = NULL ∨ l.rootNode ∈ l.nodes
  · exact .inr ⟨root, LayoutGraphRoot_spec h.toSound root⟩
  · obtain ⟨not_null, gone⟩ := not_or.mp root
    exact .inl ⟨not_null, gone, LayoutGraphRoot_dangling h.toSound not_null gone⟩

theorem LayoutISI_of_null {g' : Layout_Graph} (ran : l.LayoutGraphRoot = .ok (g', NULL)) :
    l.LayoutISI s k = .ok (l.rooted g' NULL, .LAYOUT_ERROR "no root node") := by
  rw [LayoutISI, ran, Fuel.ok_bind]
  rfl

theorem Standing.layout (h : l.Standing) (ran : l.LayoutISI s k = .ok (l', c)) : l'.Standing := by
  obtain ⟨G, represents⟩ := h.graph
  rcases h.root with ⟨-, -, freed⟩ | ⟨-, g', r, root, chosen⟩
  · rw [LayoutISI, freed] at ran
    cases ran
  · have sound₁ : (l.rooted g' r).Sound := (h.toSound.alike chosen.toAlike).withRoot r
    have represents₁ : (l.rooted g' r).Represents G := { represents.alike chosen.toAlike with }
    by_cases null : r = NULL
    · subst null
      rw [LayoutISI_of_null root] at ran
      obtain ⟨rfl, -⟩ := Prod.mk.inj (Except.ok.inj ran)
      refine ⟨sound₁, ⟨G, represents₁⟩, fun _ n => ?_⟩
      cases seen : (l.rooted g' NULL).seen n with
      | false => rfl
      | true =>
        have mem : n ∈ l.nodes := chosen.nodes.mem_iff.mp (sound₁.mem_of_seen seen)
        rcases chosen.chosen with there | ⟨-, empty⟩
        · exact absurd there h.null_node
        · rw [empty] at mem
          cases mem
    · obtain ⟨k₁, l₂, ran₁, walked, -⟩ := exists_sorted h.toSound chosen null
      rw [LayoutISI_eq root null] at ran
      obtain ⟨l₃, sorted, ran⟩ := Fuel.bind_eq_ok ran
      obtain rfl := (sorted_grows _).unique ran₁ sorted
      obtain ⟨l₄, placed, ran⟩ := Fuel.bind_eq_ok ran
      obtain ⟨rfl, -⟩ := Prod.mk.inj (Except.ok.inj ran)
      have same := walked.toAlike.trans (place_alike (sound₁.alike walked.toAlike) placed)
      refine ⟨sound₁.alike same, ⟨G, represents₁.alike same⟩, fun root_null => ?_⟩
      exact absurd (same.rootNode.symm.trans root_null) null

/-- The calls that change the graph are careful. -/
def Heedful (l : Placed D) : Action D → Bool
  | .call call => l.Careful call
  | .layout _ => true

/-- The root is a node, if one was chosen, and no cycle that the depth-first walk does not come to can
be reached from a node without parents. -/
def Tame (l : Placed D) : Prop :=
  l.rootNode = NULL ∨ l.rootNode ∈ l.nodes ∧ l.Untangled l.rootNode

/-- If no node is visited, the depth-first walk comes to all nodes without parents. -/
theorem untangled_of_unseen (unseen : ∀ n, l.seen n = false) : l.Untangled r := by
  intro n parentless a way around
  have reached : l.Reached r n := .start parentless (unseen n)
  rcases ReflTransGen.cases_head way with rfl | ⟨b, first, -⟩
  · obtain ⟨b, first, -⟩ := TransGen.head'_iff.mp around
    exact first.2.1 reached
  · exact first.2.1 reached

theorem Standing.layout_ends_iff (h : l.Standing) (s : Settings D) :
    (∃ k result, l.LayoutISI s k = .ok result) ↔ l.Tame := by
  rcases h.root with ⟨not_null, gone, freed⟩ | ⟨root, g', r, ran, chosen⟩
  · constructor
    · rintro ⟨k, result, ended⟩
      rw [LayoutISI, freed] at ended
      cases ended
    · rintro (null | ⟨mem, -⟩)
      · exact absurd null not_null
      · exact absurd mem gone
  · by_cases null : r = NULL
    · subst null
      refine iff_of_true ⟨0, _, LayoutISI_of_null ran⟩ (.inl ?_)
      by_contra not_null
      exact not_null (chosen.old not_null).symm
    · rw [LayoutISI_iff h.toSound ran chosen null]
      by_cases fresh : l.rootNode = NULL
      · exact iff_of_true (untangled_of_unseen (h.first fresh)) (.inl fresh)
      · rw [chosen.old fresh, Tame]
        simp [fresh, root.resolve_left fresh]

theorem standing_of_run {actions : List (Action D)}
    (run : Run (Guarded (fun l a => l.Heedful a = true) fun l a l' =>
      ∃ k c, l.act k a = .ok (l', c)) create actions l) : l.Standing := by
  refine run.invariant ?_ standing_create
  rintro l (call | s) l' standing ⟨heedful, k, c, ran⟩
  · exact standing.call heedful ran
  · exact standing.layout ran

/-- In a run of layouts and careful calls, the next layout ends exactly where the root is a node and no
cycle that its depth-first walk does not come to can be reached from a node without parents. -/
theorem layout_ends_iff_of_run {actions : List (Action D)}
    (run : Run (Guarded (fun l a => l.Heedful a = true) fun l a l' =>
      ∃ k c, l.act k a = .ok (l', c)) create actions l) (s : Settings D) :
    (∃ k result, l.LayoutISI s k = .ok result) ↔ l.Tame :=
  (standing_of_run run).layout_ends_iff s

/-! ### Two runs -/

/-- Whole numbers up to 999, which stands for what is greater. -/
def Pixel : Type := Fin 1000

def pixel (n : Nat) : Pixel := Fin.ofNat 1000 (Nat.min n 999)

instance : Double Pixel where
  zero := pixel 0
  add a b := pixel (a.val + b.val)
  sub a b := pixel (a.val - b.val)
  half a := pixel (a.val / 2)
  less a b := decide (a.val < b.val)
  finite := inferInstanceAs (Finite (Fin 1000))
  less_irrefl a := decide_eq_false (Nat.lt_irrefl a.val)
  less_trans a b c first second :=
    decide_eq_true (Nat.lt_trans (of_decide_eq_true first) (of_decide_eq_true second))

def leftToRight : Settings Pixel :=
  { graphOrder := false
    iconSpaceH := pixel 5
    iconSpaceV := pixel 5
    width := fun _ => pixel 10
    height := fun _ => pixel 6 }

/-- A chain of three nodes, and a layout. -/
def chainActions : List (Action Pixel) :=
  [.call (.createNode 1 NULL NULL 10 0), .call (.createNode 2 NULL NULL 20 0),
    .call (.createNode 3 NULL NULL 30 0), .call (.createEdge 5 1 2 50),
    .call (.createEdge 6 2 3 60), .layout leftToRight]

/-- An edge back from the last node is put in after the layout. -/
def loopActions : List (Action Pixel) := chainActions ++ [.call (.createEdge 7 3 2 70)]

/-- The steps of a run, with a bound for the layouts. -/
def stepped (l : Placed Pixel) (a : Action Pixel) : Except Fault (Placed Pixel) :=
  (l.act 40 a).map Prod.fst

theorem play_chain :
    ((Run.play Heedful stepped create chainActions).map fun l =>
      (l.rootNode, (l.LayoutISI leftToRight 40).isOk)) = some (10, true) := by
  decide +kernel

set_option synthInstance.maxSize 400 in
theorem play_loop :
    ((Run.play Heedful stepped create loopActions).map fun l =>
      (l.rootNode, l.nodes, l.node 10, [l.seen 20, l.seen 30],
        [l.edge 50, l.edge 60, l.edge 70])) =
          some (10, [10, 20, 30], some ⟨1, false, true, [], [50]⟩, [true, true],
            [some ⟨5, 10, 20, false, false⟩, some ⟨6, 20, 30, false, false⟩,
              some ⟨7, 30, 20, false, false⟩]) := by
  decide +kernel

/-- A run that was played is one of layouts and careful calls. -/
theorem run_of_play {actions : List (Action Pixel)} {l : Placed Pixel}
    (played : Run.play Heedful stepped create actions = some l) :
    Run (Guarded (fun l a => l.Heedful a = true) fun l a l' =>
      ∃ k c, l.act k a = .ok (l', c)) create actions l := by
  apply (Run.of_play played).mono
  intro l a l' step
  refine ⟨step.1, 40, ?_⟩
  obtain ⟨⟨l'', c⟩, ran, rfl⟩ : ∃ r, l.act 40 a = .ok r ∧ r.1 = l' := by
    cases ran : l.act 40 a with
    | error fault =>
      have failed : stepped l a = .ok l' := step.2
      rw [stepped, ran] at failed
      cases failed
    | ok r =>
      have done : stepped l a = .ok l' := step.2
      rw [stepped, ran] at done
      exact ⟨r, rfl, Except.ok.inj done⟩
  exact ⟨c, ran⟩

/-- A chain can be laid out twice. -/
theorem tame_chain :
    ∃ l, Run.play Heedful stepped create chainActions = some l ∧ l.rootNode = 10 ∧ l.Tame := by
  obtain ⟨l, played, eq⟩ := Option.map_eq_some_iff.mp play_chain
  obtain ⟨root, again⟩ := Prod.mk.inj eq
  refine ⟨l, played, root, ?_⟩
  apply (layout_ends_iff_of_run (run_of_play played) leftToRight).mp
  cases ran : l.LayoutISI leftToRight 40 with
  | error fault =>
    rw [ran] at again
    cases again
  | ok result => exact ⟨40, result, ran⟩

end Placed

namespace Layout_Graph

/-- The depth-first walk comes to nodes only that are not visited. -/
theorem Reached.unseen {g : Layout_Graph} {r n : Addr} (h : g.Reached r n) : g.seen n = false := by
  cases h with
  | root clear => exact clear
  | start _ clear => exact clear
  | next _ _ clear => exact clear

end Layout_Graph

namespace Placed

/-- After the layout of a chain an edge back from its end is put in, and the next layout does not
end. -/
theorem loop_after_layout :
    ∃ l, Run (fun l a l' => ∃ k c, l.act k a = .ok (l', c)) create loopActions l ∧
      ¬ ∃ k result, l.LayoutISI leftToRight k = .ok result := by
  obtain ⟨l, played, eq⟩ := Option.map_eq_some_iff.mp play_loop
  simp only [Prod.mk.injEq, List.cons.injEq] at eq
  obtain ⟨root, nodes, at_10, ⟨seen_20, seen_30, -⟩, first, second, third, -⟩ := eq
  have run := run_of_play played
  refine ⟨l, run.mono fun _ _ _ step => step.2, fun ends => ?_⟩
  rcases ((standing_of_run run).layout_ends_iff leftToRight).mp ends with null | ⟨-, untangled⟩
  · exact absurd (root.symm.trans null) (by decide)
  · rw [root] at untangled
    have seen_10 : l.seen 10 = true := Layout_Graph.seen_eq at_10
    have left {e a b : Addr} {x : Edge} (there : l.edge e = some x) (live : x.ignore = false)
        (from_ : x.fromNode = a) (to_ : x.toNode = b) (apart : b ≠ 10) (seen_a : l.seen a = true)
        (seen_b : l.seen b = true) : l.Left 10 a b :=
      ⟨⟨⟨e, x, there, live, from_, to_⟩, apart⟩, (fun h => nomatch h.unseen.symm.trans seen_a),
        (fun h => nomatch h.unseen.symm.trans seen_b)⟩
    have down := left first rfl rfl rfl (by decide) seen_10 seen_20
    have on := left second rfl rfl rfl (by decide) seen_20 seen_30
    have back := left third rfl rfl rfl (by decide) seen_30 seen_20
    apply untangled 10 ⟨?_, ?_⟩ 20 (.single down) (.tail (.single on) back)
    · rw [nodes]
      exact List.mem_cons_self
    · rw [Layout_Graph.lacks, at_10]
      rfl

end Placed

end SourceNavigator.Layout

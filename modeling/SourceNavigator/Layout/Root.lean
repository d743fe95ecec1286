import Mathlib.Data.List.GetD
import SourceNavigator.Layout.Walks

/-!
The root of a layout (`LayoutGraphRoot`, `libgui/tkCanvLayout.c`).

* `reorder_spec`: the table of the nodes is put in another order.
* `chooseRoot_spec`: a node is found if there is one.
* `LayoutGraphRoot_spec`: the edges that lead to the root are ignored, and no others.
-/

namespace SourceNavigator.Layout

open Lib

namespace Layout_Graph

variable {g g' g'' : Layout_Graph} {n r e a b : Addr} {x : Edge} {y : Node} {k : Nat}
  {nodes all : List Addr}

/-! ### The order of the table -/

theorem getD_mem {i : Nat} (short : i < nodes.length) : nodes.getD i NULL ∈ nodes := by
  rw [List.getD_eq_getElem nodes NULL short]
  exact List.getElem_mem short

theorem nextLeaf_spec (live : ∀ n ∈ nodes, ∃ y, g.node n = some y) (k : Nat) {counter : Nat}
    (lidx : Nat) (short : counter < nodes.length) (bound : lidx + k ≤ counter) :
    ∃ i, g.nextLeaf nodes counter k lidx = .ok i ∧ i ≤ counter := by
  induction k generalizing lidx with
  | zero => exact ⟨lidx, rfl, bound⟩
  | succ k ih =>
    have inside : lidx < nodes.length := by omega
    obtain ⟨y, here⟩ := live _ (getD_mem inside)
    have num : g.SUCC_NUM (nodes.getD lidx NULL) = .ok y.succ.length := by
      rw [SUCC_NUM, readNode_eq here]
      rfl
    rw [nextLeaf, num, Fuel.ok_bind]
    split
    · exact ih (lidx + 1) (by omega)
    · exact ⟨lidx, rfl, by omega⟩

theorem reorder_spec (live : ∀ n ∈ nodes, ∃ y, g.node n = some y) (k counter lidx : Nat)
    (bound : counter + k ≤ nodes.length) (front : lidx ≤ counter) :
    ∃ nodes', g.reorder k counter lidx nodes = .ok nodes' ∧ nodes'.Perm nodes := by
  induction k generalizing counter lidx nodes with
  | zero => exact ⟨nodes, rfl, .refl _⟩
  | succ k ih =>
    have short : counter < nodes.length := by omega
    have short' : lidx < nodes.length := by omega
    obtain ⟨c, here⟩ := live _ (getD_mem short)
    obtain ⟨y, at_front⟩ := live _ (getD_mem short')
    have num : g.SUCC_NUM (nodes.getD lidx NULL) = .ok y.succ.length := by
      rw [SUCC_NUM, readNode_eq at_front]
      rfl
    have next := ih live (counter + 1) lidx (by omega) (by omega)
    rw [reorder]
    dsimp only
    rw [readNode_eq here, Fuel.ok_bind]
    split
    · exact next
    · rw [num, Fuel.ok_bind]
      split
      · have swapped : ((nodes.set counter (nodes.getD lidx NULL)).set lidx
            (nodes.getD counter NULL)).Perm nodes := by
          rw [List.getD_eq_getElem nodes NULL short, List.getD_eq_getElem nodes NULL short']
          exact List.set_set_perm short short'
        have live' : ∀ n ∈ (nodes.set counter (nodes.getD lidx NULL)).set lidx
            (nodes.getD counter NULL), ∃ y, g.node n = some y :=
          fun n mem => live n (swapped.mem_iff.mp mem)
        have length := swapped.length_eq
        obtain ⟨i, ran, le⟩ := nextLeaf_spec live' (counter - lidx) lidx
          (length ▸ short) (by omega)
        obtain ⟨nodes', rest, perm⟩ := ih live' (counter + 1) i (by omega) (by omega)
        rw [ran, Fuel.ok_bind]
        exact ⟨nodes', rest, perm.trans swapped⟩
      · exact next

/-! ### The choice -/

/-- A node is chosen, if there is one or one was chosen before. -/
theorem chooseRoot_spec (live : ∀ n ∈ all, ∃ y, g.node n = some y ∧ y.ignore = false)
    (sub : ∀ n ∈ nodes, n ∈ all) (best : Candidate)
    (found : best.tmprootNode ∈ all ∨
      best.optimalRootNum = -10000 ∧ best.tmprootNode = NULL) :
    ∃ r, g.chooseRoot nodes best = .ok r ∧
      (r ∈ all ∨ r = NULL ∧ nodes = [] ∧ best.tmprootNode = NULL) := by
  induction nodes generalizing best with
  | nil =>
    refine ⟨best.tmprootNode, rfl, ?_⟩
    rcases found with mem | ⟨-, null⟩
    · exact .inl mem
    · exact .inr ⟨null, rfl, null⟩
  | cons n nodes ih =>
    have mem := sub n List.mem_cons_self
    have sub' : ∀ m ∈ nodes, m ∈ all := fun m mem => sub m (List.mem_cons_of_mem n mem)
    obtain ⟨c, here, kept⟩ := live n mem
    rw [chooseRoot, readNode_eq here, Fuel.ok_bind, kept, if_neg Bool.false_ne_true]
    dsimp only
    have chosen (next : Candidate) (found : next.tmprootNode ∈ all) :
        ∃ r, g.chooseRoot nodes next = .ok r ∧
          (r ∈ all ∨ r = NULL ∧ n :: nodes = [] ∧ best.tmprootNode = NULL) := by
      obtain ⟨r, ran, mem | ⟨null, -, null'⟩⟩ := ih sub' next (.inl found)
      · exact ⟨r, ran, .inl mem⟩
      · exact ⟨r, ran, .inl (null ▸ null' ▸ found)⟩
    split
    · rw [pure_bind, if_pos rfl]
      exact chosen _ mem
    · rename_i no
      rcases found with old | ⟨first, -⟩
      · obtain ⟨y, at_old, -⟩ := live _ old
        have num : g.PARENT_NUM best.tmprootNode = .ok y.parent.length := by
          rw [PARENT_NUM, readNode_eq at_old]
          rfl
        rw [num, Fuel.ok_bind, pure_bind]
        split
        · exact chosen _ mem
        · exact chosen _ old
      · exact absurd (.inr first) no

/-! ### The edges to the root -/

/-- Edges that lead to the root are ignored. -/
structure Cut (r : Addr) (g g' : Layout_Graph) : Prop extends Alike g g' where
  nodes_eq : g'.nodes = g.nodes
  node_eq : g'.node = g.node
  others : ∀ e x, g.edge e = some x → x.toNode ≠ r → g'.edge e = some x
  ignored : ∀ e x, g.edge e = some x → x.ignore = true →
    ∃ x', g'.edge e = some x' ∧ x'.ignore = true

theorem Cut.refl (g : Layout_Graph) : Cut r g g :=
  ⟨.refl g, rfl, rfl, fun _ _ there _ => there, fun _ x there off => ⟨x, there, off⟩⟩

theorem Cut.trans (h : Cut r g g') (h' : Cut r g' g'') : Cut r g g'' where
  toAlike := h.toAlike.trans h'.toAlike
  nodes_eq := h'.nodes_eq.trans h.nodes_eq
  node_eq := h'.node_eq.trans h.node_eq
  others e x there apart := h'.others e x (h.others e x there apart) apart
  ignored e x there off := by
    obtain ⟨x', there', off'⟩ := h.ignored e x there off
    exact h'.ignored e x' there' off'

theorem cut_setIgnore (there : g.edge e = some x) (to_ : x.toNode = r) :
    Cut r g (g.SET_IGNORE_EDGE e true) := by
  refine ⟨alike_setIgnore g e true, rfl, rfl, fun e' x' there' apart => ?_, fun e' x' there' off => ?_⟩
  · rw [edge_setIgnore there, if_neg]
    · exact there'
    · rintro rfl
      exact apart (Option.some.inj (there'.symm.trans there) ▸ to_)
  · rw [edge_setIgnore there]
    split
    · exact ⟨_, rfl, rfl⟩
    · exact ⟨x', there', off⟩

variable {v : pItem}

theorem ignoreSuccs_spec (sound : g.Sound) (at_r : g.item r = some v) {es : List Addr}
    (here : g.node n = some y) (sub : ∀ e ∈ es, e ∈ y.succ) :
    ∃ g', ignoreSuccs v es g = .ok g' ∧ Cut r g g' := by
  induction es generalizing g y with
  | nil => exact ⟨g, rfl, .refl g⟩
  | cons e es ih =>
    obtain ⟨x, there, -, to_⟩ := sound.at_succ here (sub e List.mem_cons_self)
    obtain ⟨z, at_z, -⟩ := sound.at_node to_
    have step : Cut r g (if z.itemPtr = v then g.SET_IGNORE_EDGE e true else g) := by
      split
      · rename_i same
        apply cut_setIgnore there
        exact sound.items _ _ v ((item_eq at_z).trans (congrArg some same)) at_r
      · exact .refl g
    have at_r' := (step.toAlike.item r).trans at_r
    have here' := (congrFun step.node_eq n).trans here
    obtain ⟨g', ran, cut⟩ := ih (sound.alike step.toAlike) at_r' here'
      fun e' mem => sub e' (List.mem_cons_of_mem e mem)
    refine ⟨g', ?_, step.trans cut⟩
    rw [ignoreSuccs, readEdge_eq there, Fuel.ok_bind, readNode_eq at_z, Fuel.ok_bind]
    exact ran

theorem ignoreFrom_spec (sound : g.Sound) (at_r : g.item r = some v) (parent : pItem)
    (sub : ∀ n ∈ nodes, n ∈ g.nodes) :
    ∃ g', ignoreFrom parent v nodes g = .ok g' ∧ Cut r g g' := by
  induction nodes generalizing g with
  | nil => exact ⟨g, rfl, .refl g⟩
  | cons n nodes ih =>
    obtain ⟨y, here, -⟩ := sound.at_node (sub n List.mem_cons_self)
    have step : ∃ g', (if y.itemPtr ≠ NULL ∧ y.itemPtr = parent then ignoreSuccs v y.succ g
        else pure g) = .ok g' ∧ Cut r g g' := by
      split
      · exact ignoreSuccs_spec sound at_r here fun e mem => mem
      · exact ⟨g, rfl, .refl g⟩
    obtain ⟨g₁, ran, cut⟩ := step
    obtain ⟨g', rest, cut'⟩ := ih (sound.alike cut.toAlike) ((cut.toAlike.item r).trans at_r)
      fun m mem => cut.nodes_eq ▸ sub m (List.mem_cons_of_mem n mem)
    refine ⟨g', ?_, cut.trans cut'⟩
    rw [ignoreFrom, readNode_eq here, Fuel.ok_bind, ran]
    exact rest

theorem ignoreParents_spec (sound : g.Sound) (here : g.node r = some y) {es : List Addr}
    (sub : ∀ e ∈ es, e ∈ y.parent) :
    ∃ g', ignoreParents y.itemPtr es g = .ok g' ∧ Cut r g g' ∧
      ∀ e ∈ es, ∃ x', g'.edge e = some x' ∧ x'.ignore = true := by
  induction es generalizing g with
  | nil => exact ⟨g, rfl, .refl g, fun _ mem => nomatch mem⟩
  | cons e es ih =>
    obtain ⟨x, there, to_, from_⟩ := sound.at_parent here (sub e List.mem_cons_self)
    obtain ⟨z, at_z, -⟩ := sound.at_node from_
    have step := cut_setIgnore there to_
    obtain ⟨g₁, ran, cut⟩ := ignoreFrom_spec (sound.alike step.toAlike)
      ((step.toAlike.item r).trans (item_eq here)) z.itemPtr fun m mem => mem
    have cut₁ := step.trans cut
    obtain ⟨g', rest, cut', all⟩ := ih (sound.alike cut₁.toAlike)
      ((congrFun cut₁.node_eq r).trans here) fun e' mem => sub e' (List.mem_cons_of_mem e mem)
    refine ⟨g', ?_, cut₁.trans cut', ?_⟩
    · rw [ignoreParents, readEdge_eq there, Fuel.ok_bind, readNode_eq at_z, Fuel.ok_bind]
      exact (congrArg (· >>= ignoreParents y.itemPtr es) ran).trans rest
    · intro e' mem
      rcases List.mem_cons.mp mem with rfl | mem
      · have off : (g.SET_IGNORE_EDGE e' true).edge e' = some { x with ignore := true } := by
          rw [edge_setIgnore there, if_pos rfl]
        obtain ⟨x', there', off'⟩ := cut.ignored e' _ off rfl
        exact cut'.ignored e' x' there' off'
      · exact all e' mem

/-! ### The root -/

/-- The root, and the graph in which no edge leads to it. -/
structure Rooted (g g' : Layout_Graph) (r : Addr) : Prop extends Alike g g' where
  node_eq : g'.node = g.node
  chosen : r ∈ g.nodes ∨ r = NULL ∧ g.nodes = []
  old : g.rootNode ≠ NULL → r = g.rootNode
  child : ∀ a b, g'.Child a b ↔ g.Child a b ∧ b ≠ r

/-- The end of an edge is a node. -/
theorem Sound.child_ne_null (h : g.Sound) (child : g.Child a b) : b ≠ NULL := by
  rintro rfl
  obtain ⟨e, x, there, -, -, to_⟩ := child
  exact h.null_node (to_ ▸ (h.ends e x there).2)

theorem Cut.child (h : Cut r g g') (off : ∀ e x, g.edge e = some x → x.toNode = r →
    ∃ x', g'.edge e = some x' ∧ x'.ignore = true) : g'.Child a b ↔ g.Child a b ∧ b ≠ r := by
  constructor
  · intro child
    refine ⟨h.toAlike.child h.ignored child, ?_⟩
    rintro rfl
    obtain ⟨e, x', there', live, -, to_⟩ := child
    obtain ⟨mode, there⟩ := h.toAlike.symm.at_edge there'
    obtain ⟨x'', again, off⟩ := off e _ there to_
    rw [Option.some.inj (there'.symm.trans again), off] at live
    cases live
  · rintro ⟨⟨e, x, there, live, from_, rfl⟩, apart⟩
    exact ⟨e, x, h.others e x there apart, live, from_, rfl⟩

theorem LayoutGraphRoot_spec (sound : g.Sound) (root : g.rootNode = NULL ∨ g.rootNode ∈ g.nodes) :
    ∃ g' r, g.LayoutGraphRoot = .ok (g', r) ∧ Rooted g g' r := by
  have live (n : Addr) (mem : n ∈ g.nodes) : ∃ y, g.node n = some y :=
    (sound.at_node mem).imp fun y here => here.1
  obtain ⟨nodes, ordered, perm⟩ := reorder_spec live g.nodes.length 0 0 (by omega) (by omega)
  let g₁ : Layout_Graph := { g with nodes }
  have same : Alike g g₁ := ⟨perm, rfl, rfl, fun _ => rfl, fun _ => rfl⟩
  have sound₁ := sound.alike same
  have choice : ∃ r, (if g₁.rootNode = NULL then
        g₁.chooseRoot g₁.nodes
          { optimalRootNum := -10000, minParentNum := -1, maxSuccNum := -1, tmprootNode := NULL }
      else pure g₁.rootNode) = .ok r ∧ (r ∈ g.nodes ∨ r = NULL ∧ g.nodes = []) ∧
        (g.rootNode ≠ NULL → r = g.rootNode) := by
    split
    · rename_i null
      obtain ⟨r, ran, chosen⟩ := chooseRoot_spec (fun n mem => sound₁.at_node mem)
        (fun n mem => mem) ⟨-10000, -1, -1, NULL⟩ (.inr ⟨rfl, rfl⟩)
      refine ⟨r, ran, ?_, fun not_null => absurd null not_null⟩
      rcases chosen with mem | ⟨r_null, none_there, -⟩
      · exact .inl (perm.mem_iff.mp mem)
      · have none_there : nodes = [] := none_there
        exact .inr ⟨r_null, (none_there ▸ perm).symm.eq_nil⟩
    · rename_i not_null
      exact ⟨g.rootNode, rfl, .inl (root.resolve_left not_null), fun _ => rfl⟩
  obtain ⟨r, ran, chosen, old⟩ := choice
  have start : g.LayoutGraphRoot = (if r = NULL then pure (g₁, NULL) else do
      let root ← g₁.readNode r
      let g ← ignoreParents root.itemPtr root.parent g₁
      pure (g, r)) := by
    rw [LayoutGraphRoot, ordered, Fuel.ok_bind]
    exact congrArg (· >>= _) ran
  by_cases null : r = NULL
  · refine ⟨g₁, r, start.trans ?_, same, rfl, chosen, old, fun a b => ?_⟩
    · rw [if_pos null, null]
      rfl
    · rw [null]
      exact ⟨fun child => ⟨child, sound.child_ne_null child⟩, And.left⟩
  · have mem : r ∈ g.nodes := chosen.resolve_right fun no => null no.1
    obtain ⟨y, here, -⟩ := sound₁.at_node (perm.mem_iff.mpr mem)
    obtain ⟨g', cut_ran, cut, all⟩ := ignoreParents_spec sound₁ here fun e mem => mem
    refine ⟨g', r, start.trans ?_, same.trans cut.toAlike, cut.node_eq, chosen, old, fun a b => ?_⟩
    · rw [if_neg null, readNode_eq here, Fuel.ok_bind, cut_ran]
      rfl
    · apply cut.child
      rintro e x there rfl
      exact all e (sound₁.mem_parent there here)

/-- A root that is not a node is read. -/
theorem LayoutGraphRoot_dangling (sound : g.Sound) (not_null : g.rootNode ≠ NULL)
    (gone : g.rootNode ∉ g.nodes) : g.LayoutGraphRoot = .error .freed := by
  have live (n : Addr) (mem : n ∈ g.nodes) : ∃ y, g.node n = some y :=
    (sound.at_node mem).imp fun y here => here.1
  obtain ⟨nodes, ordered, perm⟩ := reorder_spec live g.nodes.length 0 0 (by omega) (by omega)
  have nothing : g.node g.rootNode = none := by
    rw [← sound.live_node] at gone
    simpa using gone
  rw [LayoutGraphRoot, ordered, Fuel.ok_bind]
  simp only [if_neg not_null, pure_bind, readNode, nothing]
  rfl

end Layout_Graph

end SourceNavigator.Layout

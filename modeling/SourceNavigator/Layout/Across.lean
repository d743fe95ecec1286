import Mathlib.Data.Set.Card
import SourceNavigator.Layout.Walks

/-!
Placing the nodes of a layout graph (`libgui/tkCanvLayout.c`).

* `setX_spec` and `exists_setX`: the walk that places the nodes across ends if and
  only if every way from its start, along edges that are not ignored, comes to an
  end. It marks a node after its successors, so it goes around a cycle forever.
* `setY_spec`: the walk to the parents ends, as it marks a node first.
* `exists_pushApart`: the loop that pushes the nodes apart ends, as the places of
  the nodes only grow and there are finitely many numbers.
-/

namespace SourceNavigator.Layout

open Lib

namespace Layout_Graph

/-- Only flags of nodes are set. -/
structure Marked (g g' : Layout_Graph) : Prop extends Alike g g' where
  same : g'.edge = g.edge
  grow : ∀ a, g.seen a = true → g'.seen a = true

variable {g g' g'' : Layout_Graph} {n m e a b : Addr} {x : Edge} {y : Node}

theorem Marked.refl (g : Layout_Graph) : Marked g g := ⟨.refl g, rfl, fun _ seen => seen⟩

theorem Marked.trans (h : Marked g g') (h' : Marked g' g'') : Marked g g'' :=
  ⟨h.toAlike.trans h'.toAlike, h'.same.trans h.same, fun a seen => h'.grow a (h.grow a seen)⟩

theorem Marked.child (h : Marked g g') : g'.Child = g.Child := by
  funext a b
  simp only [Child, h.same]

theorem marked_setVisited (h : g.Incidence) (mem : n ∈ g.nodes) :
    Marked g (g.SET_VISITED_NODE n true) := by
  refine ⟨alike_setVisited g n true, rfl, fun a seen => ?_⟩
  rw [seen_setVisited mem h]
  split
  · rfl
  · exact seen

/-! ### Reading the lists of a node -/

theorem Sound.firstParent (h : g.Sound) (here : g.node n = some y) (some_parent : y.parent ≠ []) :
    ∃ m, g.firstParent n = .ok m := by
  cases parent : y.parent with
  | nil => exact absurd parent some_parent
  | cons e rest =>
    obtain ⟨x, there, -⟩ := h.at_parent here (parent ▸ List.mem_cons_self)
    refine ⟨x.fromNode, ?_⟩
    rw [Layout_Graph.firstParent, readNode_eq here, Fuel.ok_bind, parent]
    dsimp only
    rw [readEdge_eq there]
    rfl

/-- The end of an edge has a parent. -/
theorem Sound.parent_of_edge (h : g.Sound) (there : g.edge e = some x) :
    ∃ m, g.firstParent x.toNode = .ok m := by
  obtain ⟨y, here, -⟩ := h.at_node (h.ends e x there).2
  exact h.firstParent here (List.ne_nil_of_mem (h.mem_parent there here))

theorem Sound.firstSucc (h : g.Sound) (here : g.node n = some y) (some_succ : y.succ ≠ []) :
    ∃ m p, g.firstSucc n = .ok m ∧ g.firstParent m = .ok p := by
  cases succ : y.succ with
  | nil => exact absurd succ some_succ
  | cons e rest =>
    obtain ⟨x, there, -⟩ := h.at_succ here (succ ▸ List.mem_cons_self)
    obtain ⟨p, parent⟩ := h.parent_of_edge there
    refine ⟨x.toNode, p, ?_, parent⟩
    rw [Layout_Graph.firstSucc, readNode_eq here, Fuel.ok_bind, succ]
    dsimp only
    rw [readEdge_eq there]
    rfl

end Layout_Graph

namespace Placed

open Layout_Graph

variable {D : Type} [Double D] {s : Settings D} {l l' l₁ : Placed D} {n m e a b : Addr} {x : Edge}
  {c : Node} {k : Nat}

/-! ### Across -/

theorem pending_eq (sound : l.Sound) (there : l.edge e = some x) :
    l.pending e = .ok (if x.ignore || l.seen x.toNode then none else some x.toNode) := by
  obtain ⟨y, here, kept⟩ := sound.at_node (sound.ends e x there).2
  rw [pending, readEdge_eq there, Fuel.ok_bind]
  cases off : x.ignore with
  | true => rfl
  | false =>
    rw [if_neg Bool.false_ne_true, readNode_eq here, Fuel.ok_bind, kept, seen_eq here]
    rfl

/-- All the ends of the edges are visited. -/
theorem visitedAllChilds_spec (sound : l.Sound) (here : l.node n = some c) {es : List Addr}
    (sub : ∀ e ∈ es, e ∈ c.succ) :
    ∃ all, l.visitedAllChilds es = .ok all ∧ (all = true →
      ∀ e ∈ es, ∀ x, l.edge e = some x → x.ignore = false → l.seen x.toNode = true) := by
  induction es with
  | nil => exact ⟨true, rfl, fun _ _ mem => nomatch mem⟩
  | cons e es ih =>
    obtain ⟨x, there, -⟩ := sound.at_succ here (sub e List.mem_cons_self)
    obtain ⟨rest, ran, all⟩ := ih fun e' mem => sub e' (List.mem_cons_of_mem e mem)
    rw [visitedAllChilds, pending_eq sound there, Fuel.ok_bind, ran]
    refine ⟨_, rfl, fun both => ?_⟩
    obtain ⟨first, others⟩ := Bool.and_eq_true_iff.mp both
    intro e' mem x' there' live
    rcases List.mem_cons.mp mem with rfl | mem
    · obtain rfl := Option.some.inj (there.symm.trans there')
      rw [live, Bool.false_or] at first
      cases seen : l.seen x.toNode with
      | true => rfl
      | false =>
        rw [seen] at first
        cases first
    · exact all others e' mem x' there' live

theorem span_ok (sound : l.Sound) (here : l.node n = some c) {es : List Addr}
    (sub : ∀ e ∈ es, e ∈ c.succ) (r : Option (D × D)) : ∃ r', l.span m es r = .ok r' := by
  induction es generalizing r with
  | nil => exact ⟨r, rfl⟩
  | cons e es ih =>
    have ih' := ih fun e' mem => sub e' (List.mem_cons_of_mem e mem)
    obtain ⟨x, there, -, to_⟩ := sound.at_succ here (sub e List.mem_cons_self)
    obtain ⟨y, at_y, kept⟩ := sound.at_node to_
    obtain ⟨p, parent⟩ := sound.parent_of_edge there
    rw [span, readEdge_eq there, Fuel.ok_bind, readNode_eq at_y, Fuel.ok_bind, kept,
      if_neg Bool.false_ne_true, parent, Fuel.ok_bind]
    split
    · exact ih' r
    · exact ih' _

theorem above_ok (sound : l.Sound) (here : l.node n = some c) (some_succ : c.succ ≠ []) :
    ∃ pos, l.above n c = .ok pos := by
  obtain ⟨m, -, first, -⟩ := sound.firstSucc here some_succ
  obtain ⟨r, ran⟩ := span_ok (m := n) sound here (fun e mem => mem) none
  rw [above]
  split
  · rw [first]
    exact ⟨_, rfl⟩
  · rw [ran, Fuel.ok_bind]
    split
    · exact ⟨_, rfl⟩
    · rw [first]
      exact ⟨_, rfl⟩

/-- What a call does at a node that is not visited: either all its successors are visited, or the
walk goes on to them, and then the node is marked. -/
theorem setX_cases (here : l.node n = some c) (kept : c.ignore = false) (new : c.visited = false)
    (ran : LayoutISISetX s (k + 1) n l = .ok l') :
    ∃ l₁, l'.toLayout_Graph = l₁.SET_VISITED_NODE n true ∧
      (l.visitedAllChilds c.succ = .ok true ∧ l₁ = l ∨
        c.succ.foldlM (setXSucc (LayoutISISetX s k)) l = .ok l₁) := by
  rw [LayoutISISetX, readNode_eq here, Fuel.ok_bind, kept, new, if_neg (by simp)] at ran
  obtain ⟨all, visited, ran⟩ := Fuel.bind_eq_ok ran
  obtain ⟨l₂, placed, ran⟩ := Fuel.bind_eq_ok ran
  obtain rfl := Except.ok.inj ran
  cases all with
  | true =>
    obtain rfl := Except.ok.inj placed
    exact ⟨l, rfl, .inl ⟨visited, rfl⟩⟩
  | false =>
    obtain ⟨l₁, walked, placed⟩ := Fuel.bind_eq_ok placed
    obtain ⟨pos, -, placed⟩ := Fuel.bind_eq_ok placed
    obtain rfl := Except.ok.inj placed
    exact ⟨l₁, rfl, .inr walked⟩

theorem setX_of_seen (here : l.node n = some c) (seen : c.visited = true) :
    LayoutISISetX s (k + 1) n l = .ok l := by
  rw [LayoutISISetX, readNode_eq here, Fuel.ok_bind, if_pos (.inr seen)]
  rfl

/-- From the nodes that are visited every way ends. -/
def Known (g : Layout_Graph) : Prop := ∀ a, g.seen a = true → Ends g.Child a

/-- What the walk comes to at a node. -/
structure Laid (g g' : Layout_Graph) : Prop extends Marked g g' where
  known : Known g'

/-- The loop over the edges of a node, whose ends are visited after it. -/
theorem setXSuccs_spec {setX : Addr → Placed D → Except Fault (Placed D)} {es : List Addr}
    (next : ∀ m l l', l.Sound → m ∈ l.nodes → Known l.toLayout_Graph → setX m l = .ok l' →
      Laid l.toLayout_Graph l'.toLayout_Graph ∧ l'.seen m = true)
    (sound : l.Sound) (here : l.node n = some c) (sub : ∀ e ∈ es, e ∈ c.succ)
    (known : Known l.toLayout_Graph) (ran : es.foldlM (setXSucc setX) l = .ok l') :
    Laid l.toLayout_Graph l'.toLayout_Graph ∧
      ∀ e ∈ es, ∀ x, l.edge e = some x → x.ignore = false → l'.seen x.toNode = true := by
  induction es generalizing l c with
  | nil =>
    obtain rfl := Except.ok.inj ran
    exact ⟨⟨.refl _, known⟩, fun _ mem => nomatch mem⟩
  | cons e es ih =>
    rw [List.foldlM_cons] at ran
    obtain ⟨l₁, first, ran⟩ := Fuel.bind_eq_ok ran
    obtain ⟨x, there, -, to_⟩ := sound.at_succ here (sub e List.mem_cons_self)
    rw [setXSucc, pending_eq sound there, Fuel.ok_bind] at first
    have step : Laid l.toLayout_Graph l₁.toLayout_Graph ∧
        (x.ignore = false → l₁.seen x.toNode = true) := by
      cases done : x.ignore || l.seen x.toNode with
      | true =>
        rw [done] at first
        obtain rfl := Except.ok.inj first
        refine ⟨⟨.refl _, known⟩, fun live => ?_⟩
        rwa [live, Bool.false_or] at done
      | false =>
        rw [done] at first
        obtain ⟨laid, seen⟩ := next x.toNode l l₁ sound to_ known first
        exact ⟨laid, fun _ => seen⟩
    obtain ⟨laid₁, seen₁⟩ := step
    obtain ⟨mode, here₁⟩ := laid₁.toAlike.at_node here
    obtain ⟨laid₂, seen₂⟩ := ih (sound.alike laid₁.toAlike) here₁
      (fun e' mem => sub e' (List.mem_cons_of_mem e mem)) laid₁.known ran
    refine ⟨⟨laid₁.toMarked.trans laid₂.toMarked, laid₂.known⟩, ?_⟩
    intro e' mem x' there' live
    rcases List.mem_cons.mp mem with rfl | mem
    · obtain rfl := Option.some.inj (there.symm.trans there')
      exact laid₂.grow _ (seen₁ live)
    · exact seen₂ e' mem x' (laid₁.same ▸ there') live

/-- Where the walk ends, it has visited the node, and every way from there ends. -/
theorem setX_spec (sound : l.Sound) (mem : n ∈ l.nodes) (known : Known l.toLayout_Graph)
    (ran : LayoutISISetX s k n l = .ok l') :
    Laid l.toLayout_Graph l'.toLayout_Graph ∧ l'.seen n = true := by
  induction k generalizing n l l' with
  | zero => cases ran
  | succ k ih =>
    obtain ⟨c, here, kept⟩ := sound.at_node mem
    cases visited : c.visited with
    | true =>
      rw [setX_of_seen here visited] at ran
      obtain rfl := Except.ok.inj ran
      exact ⟨⟨.refl _, known⟩, (seen_eq here).trans visited⟩
    | false =>
      obtain ⟨l₁, marked, walked⟩ := setX_cases here kept visited ran
      have laid : Laid l.toLayout_Graph l₁.toLayout_Graph ∧
          ∀ e ∈ c.succ, ∀ x, l.edge e = some x → x.ignore = false →
            l₁.seen x.toNode = true := by
        rcases walked with ⟨all, rfl⟩ | walked
        · obtain ⟨all', ran', childs⟩ := visitedAllChilds_spec sound here fun e mem => mem
          exact ⟨⟨.refl _, known⟩, childs (Except.ok.inj (ran'.symm.trans all))⟩
        · exact setXSuccs_spec (fun m l l' sound mem known ran => ih sound mem known ran)
            sound here (fun e mem => mem) known walked
      obtain ⟨laid, childs⟩ := laid
      have sound₁ := sound.alike laid.toAlike
      have mem₁ : n ∈ l₁.nodes := laid.nodes.mem_iff.mpr mem
      have mark := marked_setVisited sound₁.toIncidence mem₁
      have ends : Ends l₁.Child n := by
        apply Ends.intro
        rintro b ⟨e, x, there, live, from_, rfl⟩
        have there₀ : l.edge e = some x := laid.same ▸ there
        have listed : e ∈ c.succ := sound.mem_succ there₀ (by rw [from_, here])
        exact laid.known _ (childs e listed x there₀ live)
      rw [marked]
      refine ⟨⟨laid.toMarked.trans mark, fun a seen => ?_⟩, ?_⟩
      · rw [mark.child]
        rw [seen_setVisited mem₁ sound₁.toIncidence] at seen
        split at seen
        case isTrue same => exact same ▸ ends
        case isFalse => exact laid.known a seen
      · rw [seen_setVisited mem₁ sound₁.toIncidence, if_pos rfl]

theorem setXSucc_mono {setX setX' : Addr → Placed D → Except Fault (Placed D)}
    (keep : ∀ m l l', setX m l = .ok l' → setX' m l = .ok l')
    (ran : setXSucc setX l e = .ok l') : setXSucc setX' l e = .ok l' := by
  rw [setXSucc] at ran ⊢
  obtain ⟨child, pending, step⟩ := Fuel.bind_eq_ok ran
  rw [pending, Fuel.ok_bind]
  cases child with
  | none => exact step
  | some m => exact keep m l l' step

theorem setX_grows (n : Addr) (l : Placed D) : Fuel.Grows fun k => LayoutISISetX s k n l := by
  intro k l' ran
  dsimp only at ran ⊢
  induction k generalizing n l l' with
  | zero => cases ran
  | succ k ih =>
    rw [LayoutISISetX] at ran ⊢
    obtain ⟨c, read, ran⟩ := Fuel.bind_eq_ok ran
    rw [read, Fuel.ok_bind]
    split at ran
    case isTrue skip => rw [if_pos skip, ran]
    case isFalse go =>
      rw [if_neg go]
      obtain ⟨all, visited, ran⟩ := Fuel.bind_eq_ok ran
      obtain ⟨l₂, placed, rest⟩ := Fuel.bind_eq_ok ran
      clear ran
      rw [visited, Fuel.ok_bind]
      cases all with
      | true =>
        obtain rfl := Except.ok.inj placed
        exact rest
      | false =>
        obtain ⟨l₁, walked, placed⟩ := Fuel.bind_eq_ok placed
        have walked' : c.succ.foldlM (setXSucc (LayoutISISetX s (k + 1))) l = .ok l₁ := by
          apply Fuel.foldlM_ok_mono ?_ walked
          intro t e t' step
          exact setXSucc_mono ih step
        rw [Bool.not_false, if_pos rfl, walked', Fuel.ok_bind, placed]
        exact rest

/-- The walk ends where every way ends. -/
theorem exists_setX {g : Layout_Graph} (sound : g.Sound) (ends : Ends g.Child n) :
    n ∈ g.nodes → ∀ l : Placed D, Laid g l.toLayout_Graph →
      ∃ k l', LayoutISISetX s k n l = .ok l' := by
  apply ends.induction
  intro n _ ih mem l laid
  have sound_l := sound.alike laid.toAlike
  have mem_l : n ∈ l.nodes := laid.nodes.mem_iff.mpr mem
  obtain ⟨c, here, kept⟩ := sound_l.at_node mem_l
  cases visited : c.visited with
  | true => exact ⟨1, l, setX_of_seen here visited⟩
  | false =>
    obtain ⟨all, childs, -⟩ := visitedAllChilds_spec sound_l here fun e mem => mem
    cases all with
    | true =>
      refine ⟨1, (l.beside s n).withGraph (l.SET_VISITED_NODE n true), ?_⟩
      rw [LayoutISISetX, readNode_eq here, Fuel.ok_bind, kept, visited, if_neg (by simp), childs]
      rfl
    | false =>
      have some_succ : c.succ ≠ [] := by
        intro none_there
        rw [none_there] at childs
        cases childs
      have grows (l : Placed D) (e : Addr) :
          Fuel.Grows fun k => setXSucc (LayoutISISetX s k) l e := by
        intro k t step
        exact setXSucc_mono (fun m l l' => setX_grows m l k l') step
      have each : ∀ e ∈ c.succ, ∀ t : Placed D, Laid g t.toLayout_Graph →
          ∃ k t', setXSucc (LayoutISISetX s k) t e = .ok t' ∧ Laid g t'.toLayout_Graph := by
        intro e listed t laid_t
        have sound_t := sound.alike laid_t.toAlike
        obtain ⟨x, there, from_, to_⟩ := sound_l.at_succ here listed
        have there_g : g.edge e = some x := laid.same ▸ there
        have there_t : t.edge e = some x := laid_t.same ▸ there_g
        have to_g : x.toNode ∈ g.nodes := laid.nodes.mem_iff.mp to_
        have to_t : x.toNode ∈ t.nodes := laid_t.nodes.mem_iff.mpr to_g
        simp only [setXSucc, pending_eq sound_t there_t, Fuel.ok_bind]
        cases done : x.ignore || t.seen x.toNode with
        | true => exact ⟨0, t, rfl, laid_t⟩
        | false =>
          have live := (Bool.or_eq_false_iff.mp done).1
          obtain ⟨k, t', ran⟩ := ih x.toNode ⟨e, x, there_g, live, from_, rfl⟩ to_g t laid_t
          have laid' := (setX_spec sound_t to_t laid_t.known ran).1
          exact ⟨k, t', ran, laid_t.toMarked.trans laid'.toMarked, laid'.known⟩
      obtain ⟨k, l₁, walked, laid₁⟩ := Fuel.exists_foldlM_ok grows each laid
      have sound₁ := sound.alike laid₁.toAlike
      obtain ⟨mode, here₁⟩ := (laid.toAlike.symm.trans laid₁.toAlike).at_node here
      obtain ⟨pos, above⟩ := above_ok sound₁ here₁ some_succ
      have above' : l₁.above n c = .ok pos := above
      refine ⟨k + 1, (l₁.SET_NODE_X_POS n pos).withGraph (l₁.SET_VISITED_NODE n true), ?_⟩
      rw [LayoutISISetX, readNode_eq here, Fuel.ok_bind, kept, visited, if_neg (by simp), childs,
        Fuel.ok_bind, Bool.not_false, if_pos rfl, walked, Fuel.ok_bind, above', Fuel.ok_bind]
      rfl

theorem setXs_spec {starts : List Addr} (sound : l.Sound) (sub : ∀ n ∈ starts, n ∈ l.nodes)
    (known : Known l.toLayout_Graph)
    (ran : starts.foldlM (fun l n => LayoutISISetX s k n l) l = .ok l') :
    Laid l.toLayout_Graph l'.toLayout_Graph ∧ ∀ n ∈ starts, Ends l.Child n := by
  induction starts generalizing l with
  | nil =>
    obtain rfl := Except.ok.inj ran
    exact ⟨⟨.refl _, known⟩, fun _ mem => nomatch mem⟩
  | cons n starts ih =>
    rw [List.foldlM_cons] at ran
    obtain ⟨l₁, first, ran⟩ := Fuel.bind_eq_ok ran
    obtain ⟨laid₁, seen₁⟩ := setX_spec sound (sub n List.mem_cons_self) known first
    obtain ⟨laid₂, ends₂⟩ := ih (sound.alike laid₁.toAlike)
      (fun m mem => laid₁.nodes.mem_iff.mpr (sub m (List.mem_cons_of_mem n mem))) laid₁.known ran
    rw [laid₁.child] at ends₂
    refine ⟨⟨laid₁.toMarked.trans laid₂.toMarked, laid₂.known⟩, ?_⟩
    intro m mem
    rcases List.mem_cons.mp mem with rfl | mem
    · have ends := laid₁.known m seen₁
      rwa [laid₁.child] at ends
    · exact ends₂ m mem

theorem exists_setXs {starts : List Addr} (sound : l.Sound) (sub : ∀ n ∈ starts, n ∈ l.nodes)
    (known : Known l.toLayout_Graph) (ends : ∀ n ∈ starts, Ends l.Child n) :
    ∃ k l', starts.foldlM (fun l n => LayoutISISetX s k n l) l = .ok l' ∧
      Laid l.toLayout_Graph l'.toLayout_Graph := by
  apply Fuel.exists_foldlM_ok (fun l n => setX_grows n l) ?_ ⟨.refl _, known⟩
  intro n mem t laid
  obtain ⟨k, t', ran⟩ := exists_setX sound (ends n mem) (sub n mem) t laid
  have laid' := (setX_spec (sound.alike laid.toAlike) (laid.nodes.mem_iff.mpr (sub n mem))
    laid.known ran).1
  exact ⟨k, t', ran, laid.toMarked.trans laid'.toMarked, laid'.known⟩

/-! ### Levels -/

theorem setY_of_seen (here : l.node n = some c) (seen : c.visited = true) :
    LayoutISISetY s (k + 1) n l = .ok l := by
  rw [LayoutISISetY, readNode_eq here, Fuel.ok_bind, if_pos (.inr seen)]
  rfl

/-- The walk to the parents ends. The recursion is as deep as there are nodes that are not
visited. -/
theorem setY_spec (sound : l.Sound) (mem : n ∈ l.nodes) (bound : l.unseen ≤ k) :
    ∃ l', LayoutISISetY s (k + 1) n l = .ok l' ∧ Marked l.toLayout_Graph l'.toLayout_Graph := by
  induction k using Nat.strongRecOn generalizing n l with
  | _ k ih =>
    obtain ⟨c, here, kept⟩ := sound.at_node mem
    cases seen : l.seen n with
    | true => exact ⟨l, setY_of_seen here ((seen_eq here).symm.trans seen), .refl _⟩
    | false =>
      have fewer := unseen_setVisited sound.toIncidence mem seen
      obtain ⟨k, rfl⟩ := Nat.exists_eq_succ_of_ne_zero
        (Nat.ne_zero_of_lt (Nat.lt_of_lt_of_le fewer bound))
      have mark := marked_setVisited sound.toIncidence mem
      let l₁ : Placed D := l.withGraph (l.SET_VISITED_NODE n true)
      have sound₁ : l₁.Sound := sound.alike mark.toAlike
      rw [LayoutISISetY, readNode_eq here, Fuel.ok_bind, kept, ← seen_eq here, seen,
        if_neg (by simp)]
      cases parent : c.parent with
      | nil => exact ⟨_, rfl, mark⟩
      | cons e rest =>
        obtain ⟨x, there, -, from_⟩ := sound.at_parent here (parent ▸ List.mem_cons_self)
        have there₁ : l₁.edge e = some x := there
        obtain ⟨p, at_p, -⟩ := sound₁.at_node (n := x.fromNode) from_
        have walked : ∃ l₂, (if x.ignore = true ∨ p.ignore = true ∨ p.visited = true
            then pure l₁ else LayoutISISetY s (k + 1) x.fromNode l₁) = .ok l₂ ∧
              Marked l₁.toLayout_Graph l₂.toLayout_Graph := by
          split
          · exact ⟨l₁, rfl, .refl _⟩
          · exact ih k (Nat.lt_succ_self k) sound₁ from_ (Nat.le_of_lt_succ (Nat.lt_of_lt_of_le fewer bound))
        obtain ⟨l₂, ran, marked⟩ := walked
        have read : l₁.readEdge e = .ok x := readEdge_eq there₁
        have read_p : l₁.readNode x.fromNode = .ok p := readNode_eq at_p
        dsimp only
        rw [read, Fuel.ok_bind, read_p, Fuel.ok_bind, ran, Fuel.ok_bind]
        exact ⟨_, rfl, mark.trans marked⟩

theorem setY_grows (n : Addr) (l : Placed D) : Fuel.Grows fun k => LayoutISISetY s k n l := by
  intro k l' ran
  dsimp only at ran ⊢
  induction k generalizing n l l' with
  | zero => cases ran
  | succ k ih =>
    rw [LayoutISISetY] at ran ⊢
    obtain ⟨c, read, ran⟩ := Fuel.bind_eq_ok ran
    rw [read, Fuel.ok_bind]
    split at ran
    case isTrue skip => rw [if_pos skip, ran]
    case isFalse go =>
      rw [if_neg go]
      cases parent : c.parent with
      | nil =>
        rw [parent] at ran
        exact ran
      | cons e rest =>
        rw [parent] at ran
        dsimp only at ran ⊢
        obtain ⟨x, there, ran⟩ := Fuel.bind_eq_ok ran
        rw [there, Fuel.ok_bind]
        obtain ⟨p, at_p, ran⟩ := Fuel.bind_eq_ok ran
        rw [at_p, Fuel.ok_bind]
        obtain ⟨l₁, walked, ran⟩ := Fuel.bind_eq_ok ran
        split at walked
        case isTrue stop => rw [if_pos stop, walked, Fuel.ok_bind, ran]
        case isFalse on => rw [if_neg on, ih _ _ _ walked, Fuel.ok_bind, ran]

theorem setYs_spec {starts : List Addr} (sound : l.Sound) (sub : ∀ n ∈ starts, n ∈ l.nodes)
    (bound : l.unseen ≤ k) :
    ∃ l', starts.foldlM (fun l n => LayoutISISetY s (k + 1) n l) l = .ok l' ∧
      Marked l.toLayout_Graph l'.toLayout_Graph := by
  induction starts generalizing l with
  | nil => exact ⟨l, rfl, .refl _⟩
  | cons n starts ih =>
    obtain ⟨l₁, ran, marked₁⟩ := setY_spec (s := s) sound (sub n List.mem_cons_self) bound
    obtain ⟨l₂, rest, marked₂⟩ := ih (sound.alike marked₁.toAlike)
      (fun m mem => marked₁.nodes.mem_iff.mpr (sub m (List.mem_cons_of_mem n mem)))
      (Nat.le_trans (unseen_le marked₁.nodes marked₁.grow) bound)
    refine ⟨l₂, ?_, marked₁.trans marked₂⟩
    rw [List.foldlM_cons, ran]
    exact rest

/-! ### Pushing apart -/

/-- How many numbers are greater. -/
noncomputable def headroom (a : D) : Nat := {c : D | Double.less a c = true}.ncard

theorem headroom_lt {a b : D} (h : Double.less a b = true) : headroom b < headroom a := by
  apply Set.ncard_lt_ncard
  · rw [Set.ssubset_iff_of_subset]
    · refine ⟨b, h, fun self => ?_⟩
      rw [Set.mem_ofPred_eq, Double.less_irrefl] at self
      cases self
    · intro c less
      exact Double.less_trans a b c h less
  · exact Set.toFinite _

/-- The numbers that are left for the nodes of a list. -/
noncomputable def room (y : Addr → D) : List Addr → Nat
  | [] => 0
  | n :: nodes => headroom (y n) + room y nodes

/-- Places that have not become less. -/
def Pushed (y y' : Addr → D) : Prop := ∀ m, y' m = y m ∨ Double.less (y m) (y' m) = true

theorem Pushed.trans {y y' y'' : Addr → D} (h : Pushed y y') (h' : Pushed y' y'') :
    Pushed y y'' := by
  intro m
  rcases h' m with same' | less'
  · rw [same']
    exact h m
  · rcases h m with same | less
    · exact .inr (same ▸ less')
    · exact .inr (Double.less_trans _ _ _ less less')

theorem Pushed.headroom_le {y y' : Addr → D} (h : Pushed y y') (m : Addr) :
    headroom (y' m) ≤ headroom (y m) := by
  rcases h m with same | less
  · rw [same]
  · exact Nat.le_of_lt (headroom_lt less)

theorem Pushed.room_le {y y' : Addr → D} (h : Pushed y y') (nodes : List Addr) :
    room y' nodes ≤ room y nodes := by
  induction nodes with
  | nil => exact Nat.le_refl 0
  | cons n nodes ih => exact Nat.add_le_add (h.headroom_le n) ih

theorem Pushed.room_lt {y y' : Addr → D} (h : Pushed y y') {nodes : List Addr} (mem : m ∈ nodes)
    (less : Double.less (y m) (y' m) = true) : room y' nodes < room y nodes := by
  induction nodes with
  | nil => cases mem
  | cons n nodes ih =>
    rcases List.mem_cons.mp mem with rfl | mem
    · exact Nat.add_lt_add_of_lt_of_le (headroom_lt less) (h.room_le nodes)
    · exact Nat.add_lt_add_of_le_of_lt (h.headroom_le n) (ih mem)

/-- What a part of a round comes to. -/
structure Round (nodes : List Addr) (r r' : Placed D × Bool) : Prop where
  graph : r'.1.toLayout_Graph = r.1.toLayout_Graph
  pushed : Pushed r.1.y r'.1.y
  found : r'.2 = true → r.2 = true ∨ ∃ m ∈ nodes, Double.less (r.1.y m) (r'.1.y m) = true

theorem Round.trans {nodes : List Addr} {r r' r'' : Placed D × Bool} (h : Round nodes r r')
    (h' : Round nodes r' r'') : Round nodes r r'' := by
  refine ⟨h'.graph.trans h.graph, h.pushed.trans h'.pushed, fun found => ?_⟩
  rcases h'.found found with found' | ⟨m, mem, less⟩
  · rcases h.found found' with before | ⟨m, mem, less⟩
    · exact .inl before
    · rcases h'.pushed m with same | more
      · exact .inr ⟨m, mem, same ▸ less⟩
      · exact .inr ⟨m, mem, Double.less_trans _ _ _ less more⟩
  · rcases h.pushed m with same | more
    · exact .inr ⟨m, mem, same ▸ less⟩
    · exact .inr ⟨m, mem, Double.less_trans _ _ _ more less⟩

theorem pushNode_spec (sound : l.Sound) {nodes : List Addr} (mem : n ∈ nodes) (there : n ∈ l.nodes)
    (found : Bool) :
    ∃ r, pushNode s (l, found) n = .ok r ∧ Round nodes (l, found) r := by
  obtain ⟨c, here, -⟩ := sound.at_node there
  have first : ∃ r, (if 0 < c.parent.length then do
        let p ← l.firstParent n
        let pos := l.y p + s.width p + edgeWidth + s.iconSpaceH
        pure (if Double.less (l.y n) pos then (l.SET_NODE_Y_POS n pos, true) else (l, found))
      else pure (l, found)) = Except.ok (ε := Fault) r ∧ Round nodes (l, found) r := by
    have stay : Round nodes (l, found) (l, found) := ⟨rfl, fun _ => .inl rfl, .inl⟩
    split
    case isTrue some_parent =>
      obtain ⟨p, ran⟩ := sound.firstParent here (List.ne_nil_of_length_pos some_parent)
      rw [ran, Fuel.ok_bind]
      refine ⟨_, rfl, ?_⟩
      split
      case isTrue less =>
        refine ⟨rfl, fun m => ?_, fun _ => .inr ⟨n, mem, ?_⟩⟩
        · by_cases same : m = n
          · subst same
            refine .inr ?_
            change Double.less _ (Function.update l.y m _ m) = true
            rw [Function.update_self]
            exact less
          · exact .inl (Function.update_of_ne same _ _)
        · change Double.less _ (Function.update l.y n _ n) = true
          rw [Function.update_self]
          exact less
      case isFalse => exact stay
    case isFalse => exact ⟨_, rfl, stay⟩
  obtain ⟨⟨l₁, found₁⟩, ran, round⟩ := first
  have sound₁ : l₁.Sound := by rw [round.graph]; exact sound
  have here₁ : l₁.node n = some c := by rw [round.graph]; exact here
  have num : l.PARENT_NUM n = .ok c.parent.length := by rw [PARENT_NUM, readNode_eq here]; rfl
  rw [pushNode]
  dsimp only
  rw [num, Fuel.ok_bind, ran, Fuel.ok_bind]
  dsimp only
  rw [readNode_eq here₁, Fuel.ok_bind]
  split
  case isTrue one =>
    have some_succ : c.succ ≠ [] := List.ne_nil_of_length_pos (one ▸ Nat.one_pos)
    obtain ⟨m, p, succ, parent⟩ := sound₁.firstSucc here₁ some_succ
    rw [succ, Fuel.ok_bind, parent]
    refine ⟨_, rfl, ?_⟩
    split
    · exact ⟨round.graph, round.pushed, round.found⟩
    · exact round
  case isFalse => exact ⟨_, rfl, round⟩

theorem pushNodes_spec {nodes rest : List Addr} (sound : l.Sound) (sub : ∀ n ∈ rest, n ∈ nodes)
    (live : ∀ n ∈ nodes, n ∈ l.nodes) (found : Bool) :
    ∃ r, rest.foldlM (pushNode s) (l, found) = .ok r ∧ Round nodes (l, found) r := by
  induction rest generalizing l found with
  | nil => exact ⟨_, rfl, rfl, fun _ => .inl rfl, .inl⟩
  | cons n rest ih =>
    have mem := sub n List.mem_cons_self
    obtain ⟨⟨l₁, found₁⟩, ran, round₁⟩ := pushNode_spec (s := s) sound mem (live n mem) found
    have graph : l₁.toLayout_Graph = l.toLayout_Graph := round₁.graph
    obtain ⟨r, ran', round₂⟩ := ih (graph ▸ sound)
      (fun m mem => sub m (List.mem_cons_of_mem n mem)) (graph ▸ live) found₁
    refine ⟨r, ?_, round₁.trans round₂⟩
    rw [List.foldlM_cons, ran]
    exact ran'

/-- The loop ends. Every round but the last one leaves the nodes less room. -/
theorem exists_pushApart (sound : l.Sound) :
    ∃ k l', pushApart s k l = .ok l' ∧ l'.toLayout_Graph = l.toLayout_Graph := by
  induction bound : room l.y l.nodes using Nat.strongRecOn generalizing l with
  | ind size ih =>
    obtain ⟨⟨l₁, found⟩, ran, round⟩ := pushNodes_spec (s := s) sound (fun n mem => mem)
      (fun n mem => mem) false
    have graph : l₁.toLayout_Graph = l.toLayout_Graph := round.graph
    cases found with
    | false =>
      refine ⟨1, l₁, ?_, graph⟩
      rw [pushApart, ran]
      rfl
    | true =>
      obtain ⟨m, mem, less⟩ := (round.found rfl).resolve_left Bool.false_ne_true
      have fewer : room l₁.y l₁.nodes < size := by
        rw [graph, ← bound]
        exact round.pushed.room_lt mem less
      obtain ⟨k, l', rest, graph'⟩ := ih _ fewer (graph ▸ sound) rfl
      refine ⟨k + 1, l', ?_, graph'.trans graph⟩
      rw [pushApart, ran]
      exact rest

theorem pushApart_grows (l : Placed D) : Fuel.Grows fun k => pushApart s k l := by
  intro k l' ran
  dsimp only at ran ⊢
  induction k generalizing l with
  | zero => cases ran
  | succ k ih =>
    rw [pushApart] at ran ⊢
    obtain ⟨⟨l₁, found⟩, first, rest⟩ := Fuel.bind_eq_ok ran
    rw [first, Fuel.ok_bind]
    cases found with
    | true => exact ih l₁ rest
    | false => exact rest

end Placed

end SourceNavigator.Layout

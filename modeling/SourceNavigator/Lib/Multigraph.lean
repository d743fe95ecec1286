import Mathlib.Data.Set.Insert

/-!
Directed graphs whose edges have names.

Two vertices may have several edges between them, an edge has its ends by its
name, and both ends are vertices. A vertex is removed with its edges. An edge is
added if its name is new and its ends are two vertices of the graph.
-/

namespace Lib

universe u v

/-- A set of vertices, and a set of edges with the vertices they lead from and to. -/
@[ext]
structure Multigraph (V : Type u) (E : Type v) where
  verts : Set V
  edges : Set (E × V × V)
  ends : ∀ e v w, (e, v, w) ∈ edges → v ∈ verts ∧ w ∈ verts
  unique : ∀ e v w v' w', (e, v, w) ∈ edges → (e, v', w') ∈ edges → v = v' ∧ w = w'

namespace Multigraph

variable {V : Type u} {E : Type v}

/-- The graph without vertices. -/
def empty : Multigraph V E :=
  { verts := ∅
    edges := ∅
    ends := fun _ _ _ mem => mem.elim
    unique := fun _ _ _ _ _ mem => mem.elim }

def addVert (G : Multigraph V E) (v : V) : Multigraph V E :=
  { G with
    verts := insert v G.verts
    ends := fun e a b mem =>
      ⟨Set.mem_insert_of_mem v (G.ends e a b mem).1, Set.mem_insert_of_mem v (G.ends e a b mem).2⟩ }

/-- An edge can be added: its name is new, and its ends are two vertices. -/
def CanAdd (G : Multigraph V E) (e : E) (v w : V) : Prop :=
  (∀ a b, (e, a, b) ∉ G.edges) ∧ v ∈ G.verts ∧ w ∈ G.verts ∧ v ≠ w

open Classical in
noncomputable def addEdge (G : Multigraph V E) (e : E) (v w : V) : Multigraph V E :=
  if can : G.CanAdd e v w then
    { verts := G.verts
      edges := insert (e, v, w) G.edges
      ends := by
        rintro e' a b (same | mem)
        · cases same
          exact ⟨can.2.1, can.2.2.1⟩
        · exact G.ends e' a b mem
      unique := by
        rintro e' a b a' b' (same | mem) (same' | mem')
        · cases same
          cases same'
          exact ⟨rfl, rfl⟩
        · cases same
          exact absurd mem' (can.1 a' b')
        · cases same'
          exact absurd mem (can.1 a b)
        · exact G.unique e' a b a' b' mem mem' }
  else G

def removeEdge (G : Multigraph V E) (e : E) : Multigraph V E :=
  { verts := G.verts
    edges := {x | x ∈ G.edges ∧ x.1 ≠ e}
    ends := fun e' a b mem => G.ends e' a b mem.1
    unique := fun e' a b a' b' mem mem' => G.unique e' a b a' b' mem.1 mem'.1 }

/-- A vertex is removed with its edges. -/
def removeVert (G : Multigraph V E) (v : V) : Multigraph V E :=
  { verts := {w | w ∈ G.verts ∧ w ≠ v}
    edges := {x | x ∈ G.edges ∧ x.2.1 ≠ v ∧ x.2.2 ≠ v}
    ends := fun e a b mem =>
      ⟨⟨(G.ends e a b mem.1).1, mem.2.1⟩, (G.ends e a b mem.1).2, mem.2.2⟩
    unique := fun e a b a' b' mem mem' => G.unique e a b a' b' mem.1 mem'.1 }

variable {G : Multigraph V E} {e e' : E} {v w a b : V}

theorem addEdge_of_can (can : G.CanAdd e v w) :
    (G.addEdge e v w).verts = G.verts ∧ (G.addEdge e v w).edges = insert (e, v, w) G.edges := by
  rw [addEdge, dif_pos can]
  exact ⟨rfl, rfl⟩

theorem addEdge_of_not (cannot : ¬ G.CanAdd e v w) : G.addEdge e v w = G := dif_neg cannot

/-- Removing what is not there changes nothing. -/
theorem removeEdge_of_not (new : ∀ a b, (e, a, b) ∉ G.edges) : G.removeEdge e = G := by
  ext x
  · exact Iff.rfl
  · obtain ⟨e', a, b⟩ := x
    refine ⟨And.left, fun mem => ⟨mem, ?_⟩⟩
    rintro rfl
    exact new a b mem

theorem removeVert_of_not (new : v ∉ G.verts) : G.removeVert v = G := by
  ext x
  · refine ⟨And.left, fun mem => ⟨mem, ?_⟩⟩
    rintro rfl
    exact new mem
  · obtain ⟨e', a, b⟩ := x
    refine ⟨And.left, fun mem => ⟨mem, ?_, ?_⟩⟩
    · rintro rfl
      exact new (G.ends _ _ _ mem).1
    · rintro rfl
      exact new (G.ends _ _ _ mem).2

theorem addVert_of_mem (old : v ∈ G.verts) : G.addVert v = G := by
  ext x
  · exact ⟨fun mem => mem.elim (fun same => same ▸ old) id, Set.mem_insert_of_mem v⟩
  · exact Iff.rfl

end Multigraph

end Lib

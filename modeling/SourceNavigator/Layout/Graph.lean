import Mathlib.Logic.Function.Basic
import SourceNavigator.Lib.SwapRemove

/-!
The graph of the layout library (`libgui/tkCanvLayout.c`).

A graph has a table of its nodes and a table of its edges, and a node has the
edges that lead from it and to it. An entry is removed from a table by moving the
last entry into its place. The tables and lists hold addresses: reading what was
given back is a `Fault`.
-/

namespace SourceNavigator.Layout

open Lib

/-- What the user knows a node or an edge by. -/
abbrev pItem := Nat

/-- The address of a node or an edge. -/
abbrev Addr := Nat

def NULL : Nat := 0

structure Edge where
  edgeid : pItem
  fromNode : Addr
  toNode : Addr
  ignore : Bool
  visited : Bool
  deriving DecidableEq

/-- A node, without its geometry. -/
structure Node where
  itemPtr : pItem
  ignore : Bool
  visited : Bool
  parent : List Addr
  succ : List Addr
  deriving DecidableEq

/-- A graph, with the memory its nodes and edges are in. -/
structure Layout_Graph where
  node : Addr → Option Node
  edge : Addr → Option Edge
  nodes : List Addr
  edges : List Addr
  rootNode : Addr

inductive LayoutCode
  | LAYOUT_OK
  | LAYOUT_ERROR (errmsg : String)
  deriving DecidableEq

/-- Why a function has no result: it reads what was freed, it was given memory that is in use, or
it does not come to an end. -/
inductive Fault
  | freed
  | inUse
  | fuel
  deriving DecidableEq

/-- `compress_succ` and `compress_parent`: one pointer looks for a gap from the front, the other one
for an edge from the end. -/
def compress (l : List Addr) : List Addr := closeGaps (fun e => e == NULL) l.length l

/-- The loop of `deleteedge` over a list of a node. -/
def cleared (e : Addr) (l : List Addr) : List Addr :=
  if l.contains e then compress (l.map fun s => if s = e then NULL else s) else l

def LayoutCreateGraph : Layout_Graph :=
  { node := fun _ => none
    edge := fun _ => none
    nodes := []
    edges := []
    rootNode := NULL }

namespace Layout_Graph

variable (g : Layout_Graph)

/-! ### Memory -/

def readNode (n : Addr) : Except Fault Node :=
  match g.node n with
  | some x => .ok x
  | none => .error .freed

def readEdge (e : Addr) : Except Fault Edge :=
  match g.edge e with
  | some x => .ok x
  | none => .error .freed

def setNode (n : Addr) (x : Option Node) : Layout_Graph :=
  { g with node := Function.update g.node n x }

def setEdge (e : Addr) (x : Option Edge) : Layout_Graph :=
  { g with edge := Function.update g.edge e x }

/-- The address is not in use. -/
def isFree (a : Addr) : Bool := a ≠ NULL && (g.node a).isNone && (g.edge a).isNone

/-! ### Nodes -/

/-- The first node of an item, with its place in the table. -/
def findNode (itemPtr : pItem) : List Addr → Nat → Except Fault (Option (Addr × Nat))
  | [], _ => .ok none
  | n :: nodes, i => do
      let x ← g.readNode n
      if x.itemPtr = itemPtr then pure (some (n, i)) else findNode itemPtr nodes (i + 1)

/-- The first edge in a list with an end at a node. -/
def findEnd (nodeAt : Edge → Addr) (n : Addr) : List Addr → Except Fault (Option Addr)
  | [] => .ok none
  | e :: edges => do
      let x ← g.readEdge e
      if nodeAt x = n then pure (some e) else findEnd nodeAt n edges

/-- A dummy node is put between two nodes, if an edge leads from one to the other. These are
compared with the addresses of the nodes, and the new edge is not in the table. -/
def insertDummy (fromNode toNode : pItem) (tmpNode tmpEdge : Addr) :
    Except Fault Layout_Graph := do
  let succ ←
    (if g.nodes.contains fromNode then do
      let x ← g.readNode fromNode
      g.findEnd Edge.toNode toNode x.succ
    else pure none)
  let parent ←
    (if g.nodes.contains toNode then do
      let x ← g.readNode toNode
      g.findEnd Edge.fromNode fromNode x.parent
    else pure none)
  match succ, parent with
  | some succ, some parent =>
    if !g.isFree tmpEdge then .error .inUse
    else do
      let x ← g.readNode tmpNode
      let g := g.setNode tmpNode (some { x with parent := [tmpEdge], succ := [tmpEdge] })
      let g := g.setEdge tmpEdge
        (some { edgeid := NULL, fromNode, toNode, ignore := false, visited := false })
      let y ← g.readEdge parent
      let g := g.setEdge parent (some { y with toNode := tmpNode })
      let z ← g.readEdge succ
      pure (g.setEdge succ (some { z with fromNode := tmpNode }))
  | _, _ => .ok g

/-- The addresses are the memory for the new node, and for the edge of a dummy node. -/
def LayoutCreateNode (itemPtr fromNode toNode : pItem) (tmpNode tmpEdge : Addr) :
    Except Fault (Layout_Graph × LayoutCode) := do
  match ← g.findNode itemPtr g.nodes 0 with
  | some _ => .ok (g, .LAYOUT_ERROR "attempt to insert duplicate graph node")
  | none =>
    if !g.isFree tmpNode then .error .inUse
    else do
      let g := g.setNode tmpNode
        (some { itemPtr, ignore := false, visited := false, parent := [], succ := [] })
      let g := { g with nodes := g.nodes ++ [tmpNode] }
      let g ←
        (if fromNode ≠ NULL ∧ toNode ≠ NULL then g.insertDummy fromNode toNode tmpNode tmpEdge
        else pure g)
      pure (g, .LAYOUT_OK)

/-! ### Edges -/

/-- The edge is cleared from the lists of a node. -/
def clearEdge (e : Addr) (n : Addr) : Except Fault Layout_Graph := do
  let x ← g.readNode n
  pure (g.setNode n (some { x with succ := cleared e x.succ, parent := cleared e x.parent }))

def clearEdges (e : Addr) : List Addr → Layout_Graph → Except Fault Layout_Graph
  | [], g => .ok g
  | n :: nodes, g => do
      let g ← g.clearEdge e n
      clearEdges e nodes g

def deleteedge (e : Addr) (index : Nat) : Except Fault Layout_Graph := do
  let g ← clearEdges e g.nodes g
  let g := { g with edges := swapRemove g.edges index }
  pure (g.setEdge e none)

/-- The first edge of an identifier, with its place in the table. -/
def findEdge (edgeid : pItem) : List Addr → Nat → Except Fault (Option (Addr × Nat))
  | [], _ => .ok none
  | e :: edges, i => do
      let x ← g.readEdge e
      if x.edgeid = edgeid then pure (some (e, i)) else findEdge edgeid edges (i + 1)

def LayoutDeleteEdge (eid : pItem) : Except Fault (Layout_Graph × LayoutCode) := do
  match ← g.findEdge eid g.edges 0 with
  | some (e, i) => do
      let g ← g.deleteedge e i
      pure (g, .LAYOUT_OK)
  | none => .ok (g, .LAYOUT_ERROR "edge delete: no such edge")

/-- The nodes of two items: `else if` leaves out the second one if they are the same. -/
def findEnds (fromid toid : pItem) :
    List Addr → Addr → Addr → Except Fault (Addr × Addr)
  | [], fromnode, tonode => .ok (fromnode, tonode)
  | n :: nodes, fromnode, tonode => do
      let x ← g.readNode n
      if x.itemPtr = fromid then findEnds fromid toid nodes n tonode
      else if x.itemPtr = toid then findEnds fromid toid nodes fromnode n
      else findEnds fromid toid nodes fromnode tonode

/-- The address is the memory for the new edge. -/
def LayoutCreateEdge (edgeid fromid toid : pItem) (tmpEdge : Addr) :
    Except Fault (Layout_Graph × LayoutCode) := do
  match ← g.findEdge edgeid g.edges 0 with
  | some _ => .ok (g, .LAYOUT_ERROR "attempt to insert duplicate graph edge")
  | none => do
      let (fromnode, tonode) ← g.findEnds fromid toid g.nodes NULL NULL
      if fromnode = NULL ∨ tonode = NULL then
        .ok (g, .LAYOUT_ERROR "edge was missing from or to node")
      else if !g.isFree tmpEdge then .error .inUse
      else do
        let g := g.setEdge tmpEdge
          (some { edgeid, fromNode := fromnode, toNode := tonode, ignore := false, visited := false })
        let g := { g with edges := g.edges ++ [tmpEdge] }
        let y ← g.readNode tonode
        let g := g.setNode tonode (some { y with parent := y.parent ++ [tmpEdge] })
        let x ← g.readNode fromnode
        let g := g.setNode fromnode (some { x with succ := x.succ ++ [tmpEdge] })
        pure (g, .LAYOUT_OK)

/-! ### Deleting a node -/

/-- The edges of a node are deleted, from the place `i` of the table on. The number bounds the
length of the table. -/
def deleteAttached (thisnode : Addr) : Nat → Nat → Layout_Graph → Except Fault Layout_Graph
  | 0, _, g => .ok g
  | k + 1, i, g =>
    match g.edges[i]? with
    | none => .ok g
    | some e => do
        let x ← g.readEdge e
        let g ← (if x.toNode = thisnode ∨ x.fromNode = thisnode then g.deleteedge e i else pure g)
        deleteAttached thisnode k (i + 1) g

def deletenode (thisnode : Addr) (index : Nat) : Except Fault (Layout_Graph × LayoutCode) := do
  let g ← deleteAttached thisnode g.edges.length 0 g
  let g := { g with nodes := swapRemove g.nodes index }
  pure (g.setNode thisnode none, .LAYOUT_OK)

def LayoutDeleteNode (nodeid : pItem) : Except Fault (Layout_Graph × LayoutCode) := do
  match ← g.findNode nodeid g.nodes 0 with
  | some (n, i) => g.deletenode n i
  | none => .ok (g, .LAYOUT_ERROR "node delete: no such node")

/-! ### Calls -/

/-- A call of the library, with the memory that it is given. -/
inductive Call
  | createNode (itemPtr fromNode toNode : pItem) (tmpNode tmpEdge : Addr)
  | createEdge (edgeid fromid toid : pItem) (tmpEdge : Addr)
  | deleteEdge (eid : pItem)
  | deleteNode (nodeid : pItem)
  deriving DecidableEq

def call : Call → Except Fault (Layout_Graph × LayoutCode)
  | .createNode itemPtr fromNode toNode tmpNode tmpEdge =>
    g.LayoutCreateNode itemPtr fromNode toNode tmpNode tmpEdge
  | .createEdge edgeid fromid toid tmpEdge => g.LayoutCreateEdge edgeid fromid toid tmpEdge
  | .deleteEdge eid => g.LayoutDeleteEdge eid
  | .deleteNode nodeid => g.LayoutDeleteNode nodeid

end Layout_Graph

end SourceNavigator.Layout

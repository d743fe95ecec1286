import Mathlib.Data.Finite.Defs
import SourceNavigator.Layout.Graph

/-!
The hierarchy layout (`LayoutISI`, `libgui/tkCanvLayout.c`).

The layout chooses a root and ignores the edges that lead to it, walks through the
graph and ignores the edges that lead to a node it has visited, places the nodes
across (`LayoutISISetX`) and in levels (`LayoutISISetY`), and pushes them apart. The
flags of the nodes and edges stay from one layout to the next.

What comes after it, moving the boxes of the items to these places, is not
modelled: it is a loop over the nodes and one over the edges.
-/

namespace SourceNavigator.Layout

open Lib

/-- The numbers of the machine that places are computed with. There are finitely many, and what is
not a number is not less than any. -/
class Double (D : Type) extends Zero D, Add D, Sub D where
  half : D → D
  less : D → D → Bool
  finite : Finite D
  less_irrefl : ∀ a : D, less a a = false
  less_trans : ∀ a b c : D, less a b = true → less b c = true → less a c = true

attribute [instance] Double.finite

variable {D : Type} [Double D]

/-- The macro `max`. -/
def Double.max (a b : D) : D := if less b a then a else b

/-- The macro `min`. -/
def Double.min (a b : D) : D := if less b a then b else a

/-- `LayoutEdgeWidth` -/
def edgeWidth : D := 0

def edgeHeight : D := 0

/-- What the user sets, and the boxes of the items. -/
structure Settings (D : Type) where
  graphOrder : Bool
  iconSpaceH : D
  iconSpaceV : D
  width : Addr → D
  height : Addr → D

/-- A graph with the places of its nodes. -/
structure Placed (D : Type) extends Layout_Graph where
  x : Addr → D
  y : Addr → D
  maxXPosition : D
  topList : List Addr

namespace Layout_Graph

variable (g : Layout_Graph)

/-! ### Flags -/

def SET_VISITED_NODE (n : Addr) (mode : Bool) : Layout_Graph :=
  g.setNode n ((g.node n).map fun y => { y with visited := mode })

def RESET_VISITED_NODE : Layout_Graph := g.nodes.foldl (fun g n => g.SET_VISITED_NODE n false) g

/-- `SET_IGNORE_NODE` is used on edges too. -/
def SET_IGNORE_EDGE (e : Addr) (mode : Bool) : Layout_Graph :=
  g.setEdge e ((g.edge e).map fun x => { x with ignore := mode })

/-! ### Reading -/

def SUCC_NUM (n : Addr) : Except Fault Nat := do
  let y ← g.readNode n
  pure y.succ.length

def PARENT_NUM (n : Addr) : Except Fault Nat := do
  let y ← g.readNode n
  pure y.parent.length

/-- `PARENT_NODE (n, 0)` -/
def firstParent (n : Addr) : Except Fault Addr := do
  let y ← g.readNode n
  match y.parent with
  | [] => .error .freed
  | e :: _ => do
      let x ← g.readEdge e
      pure x.fromNode

/-- `SUCC_NODE (n, 0)` -/
def firstSucc (n : Addr) : Except Fault Addr := do
  let y ← g.readNode n
  match y.succ with
  | [] => .error .freed
  | e :: _ => do
      let x ← g.readEdge e
      pure x.toNode

/-- The nodes with an empty list of edges, in the order of the table. -/
def without (list : Node → List Addr) : List Addr → Except Fault (List Addr)
  | [] => .ok []
  | n :: nodes => do
      let y ← g.readNode n
      let rest ← without list nodes
      pure (if (list y).length = 0 then n :: rest else rest)

/-! ### The root -/

/-- The search for the next node without a subtree. The number bounds `counter - lidx`. -/
def nextLeaf (nodes : List Addr) (counter : Nat) : Nat → Nat → Except Fault Nat
  | 0, lidx => .ok lidx
  | k + 1, lidx => do
      let s ← g.SUCC_NUM (nodes.getD lidx NULL)
      if 0 < s ∧ lidx < counter then nextLeaf nodes counter k (lidx + 1) else .ok lidx

/-- Nodes with a subtree are moved to the front of the table. The number bounds the nodes from
`counter` on. -/
def reorder : Nat → Nat → Nat → List Addr → Except Fault (List Addr)
  | 0, _, _, nodes => .ok nodes
  | k + 1, counter, lidx, nodes => do
      let node := nodes.getD counter NULL
      let c ← g.readNode node
      if counter = 0 ∨ c.ignore then reorder k (counter + 1) lidx nodes
      else
        let front := nodes.getD lidx NULL
        let s ← g.SUCC_NUM front
        if s < c.succ.length then
          let nodes := (nodes.set counter front).set lidx node
          let lidx ← g.nextLeaf nodes counter (counter - lidx) lidx
          reorder k (counter + 1) lidx nodes
        else reorder k (counter + 1) lidx nodes

/-- What the search for a root remembers. -/
structure Candidate where
  optimalRootNum : Int
  minParentNum : Int
  maxSuccNum : Int
  tmprootNode : Addr
  deriving DecidableEq

def chooseRoot : List Addr → Candidate → Except Fault Addr
  | [], best => .ok best.tmprootNode
  | n :: nodes, best => do
      let c ← g.readNode n
      if c.ignore then chooseRoot nodes best
      else
        let succNum : Int := c.succ.length
        let parentNum : Int := c.parent.length
        let better ←
          (if (0 < succNum ∧ best.optimalRootNum ≤ succNum - parentNum ∧
                (parentNum < best.minParentNum ∨
                  best.minParentNum = parentNum ∧ best.maxSuccNum < succNum)) ∨
              best.optimalRootNum = -10000 then pure true
          else do
            let k ← g.PARENT_NUM best.tmprootNode
            pure (decide (parentNum < k)))
        if better then
          chooseRoot nodes
            { optimalRootNum :=
                if 0 < succNum then succNum - parentNum else best.optimalRootNum
              minParentNum := parentNum
              maxSuccNum := succNum
              tmprootNode := n }
        else chooseRoot nodes best

/-- The edges to the item of the root are ignored, among the successors of a node. -/
def ignoreSuccs (root : pItem) : List Addr → Layout_Graph → Except Fault Layout_Graph
  | [], g => .ok g
  | e :: succ, g => do
      let x ← g.readEdge e
      let y ← g.readNode x.toNode
      ignoreSuccs root succ (if y.itemPtr = root then g.SET_IGNORE_EDGE e true else g)

/-- The nodes with the item of a parent are looked for in the table. -/
def ignoreFrom (parent root : pItem) : List Addr → Layout_Graph → Except Fault Layout_Graph
  | [], g => .ok g
  | n :: nodes, g => do
      let y ← g.readNode n
      let g ←
        (if y.itemPtr ≠ NULL ∧ y.itemPtr = parent then ignoreSuccs root y.succ g else pure g)
      ignoreFrom parent root nodes g

/-- The edges that lead to the root are ignored. -/
def ignoreParents (root : pItem) : List Addr → Layout_Graph → Except Fault Layout_Graph
  | [], g => .ok g
  | e :: parent, g => do
      let x ← g.readEdge e
      let y ← g.readNode x.fromNode
      let g ← ignoreFrom y.itemPtr root g.nodes (g.SET_IGNORE_EDGE e true)
      ignoreParents root parent g

/-- The root, with the graph in which the edges to it are ignored. -/
def LayoutGraphRoot : Except Fault (Layout_Graph × Addr) := do
  let nodes ← g.reorder g.nodes.length 0 0 g.nodes
  let g := { g with nodes }
  let tmprootNode ←
    (if g.rootNode = NULL then
      g.chooseRoot g.nodes
        { optimalRootNum := -10000, minParentNum := -1, maxSuccNum := -1, tmprootNode := NULL }
    else pure g.rootNode)
  if tmprootNode = NULL then pure (g, NULL)
  else do
    let root ← g.readNode tmprootNode
    let g ← ignoreParents root.itemPtr root.parent g
    pure (g, tmprootNode)

end Layout_Graph

namespace Placed

variable (s : Settings D) (l : Placed D)

/-- The places stay. -/
def withGraph (g : Layout_Graph) : Placed D := { l with toLayout_Graph := g }

def SET_NODE_X_POS (n : Addr) (pos : D) : Placed D := { l with x := Function.update l.x n pos }

def SET_NODE_Y_POS (n : Addr) (pos : D) : Placed D := { l with y := Function.update l.y n pos }

/-! ### Sorting -/

/-- The edge leads to a node that is visited, or the walk goes on there. -/
def sortSucc (sort : Addr → Placed D → Except Fault (Placed D)) (l : Placed D) (e : Addr) :
    Except Fault (Placed D) := do
  let x ← l.readEdge e
  if x.ignore then pure l
  else do
    let y ← l.readNode x.toNode
    if y.ignore then pure l
    else if y.visited then pure (l.withGraph (l.SET_IGNORE_EDGE e true))
    else sort x.toNode l

/-- The depth of the recursion is bounded by the number. -/
def LayoutGraphSortTopological : Nat → Addr → Placed D → Except Fault (Placed D)
  | 0, _, _ => .error .fuel
  | k + 1, currentNode, l => do
      let c ← l.readNode currentNode
      if c.visited ∨ c.ignore then pure l
      else
        let l := { l with topList := l.topList ++ [currentNode] }
        let l := l.withGraph (l.SET_VISITED_NODE currentNode true)
        c.succ.foldlM (sortSucc (LayoutGraphSortTopological k)) l

/-! ### Across -/

/-- The successor that an edge leads to, if it is not laid out yet. -/
def pending (e : Addr) : Except Fault (Option Addr) := do
  let x ← l.readEdge e
  if x.ignore then pure none
  else do
    let y ← l.readNode x.toNode
    pure (if y.ignore || y.visited then none else some x.toNode)

def visitedAllChilds : List Addr → Except Fault Bool
  | [] => .ok true
  | e :: succ => do
      let child ← l.pending e
      let rest ← visitedAllChilds succ
      pure (child.isNone && rest)

/-- The first and the last place of the successors that have the node as their first parent. -/
def span (currentNode : Addr) : List Addr → Option (D × D) → Except Fault (Option (D × D))
  | [], r => .ok r
  | e :: succ, r => do
      let x ← l.readEdge e
      let y ← l.readNode x.toNode
      if y.ignore then span currentNode succ r
      else do
        let p ← l.firstParent x.toNode
        if p ≠ currentNode then span currentNode succ r
        else
          let (x1, x2) := r.getD (l.x x.toNode, 0)
          span currentNode succ (some (Double.min x1 (l.x x.toNode), Double.max x2 (l.x x.toNode)))

/-- The place of a node over its successors. -/
def above (currentNode : Addr) (c : Node) : Except Fault D := do
  if c.succ.length = 1 then do
    let n ← l.firstSucc currentNode
    pure (l.x n)
  else
    match ← l.span currentNode c.succ none with
    | some (x1, x2) => pure (x1 + Double.half (x2 - x1))
    | none => do
        let n ← l.firstSucc currentNode
        pure (l.x n + Double.half (l.x n - l.x n))

/-- The place of a node next to those that are laid out. -/
def beside (currentNode : Addr) : Placed D :=
  let pos := l.maxXPosition
  let l := l.SET_NODE_X_POS currentNode pos
  { l with
    maxXPosition :=
      if s.graphOrder then pos + s.iconSpaceH + edgeWidth + s.width currentNode
      else pos + s.iconSpaceV + edgeHeight + s.height currentNode }

def setXSucc (setX : Addr → Placed D → Except Fault (Placed D)) (l : Placed D) (e : Addr) :
    Except Fault (Placed D) := do
  match ← l.pending e with
  | some child => setX child l
  | none => pure l

/-- The depth of the recursion is bounded by the number. A node is visited after its successors. -/
def LayoutISISetX : Nat → Addr → Placed D → Except Fault (Placed D)
  | 0, _, _ => .error .fuel
  | k + 1, currentNode, l => do
      let c ← l.readNode currentNode
      if c.ignore ∨ c.visited then pure l
      else do
        let all ← l.visitedAllChilds c.succ
        let l ←
          (if !all then do
            let l ← c.succ.foldlM (setXSucc (LayoutISISetX k)) l
            let pos ← l.above currentNode c
            pure (l.SET_NODE_X_POS currentNode pos)
          else pure (l.beside s currentNode))
        pure (l.withGraph (l.SET_VISITED_NODE currentNode true))

/-! ### Levels -/

/-- The depth of the recursion is bounded by the number. Only the first parent counts. -/
def LayoutISISetY : Nat → Addr → Placed D → Except Fault (Placed D)
  | 0, _, _ => .error .fuel
  | k + 1, currentNode, l => do
      let c ← l.readNode currentNode
      if c.ignore ∨ c.visited then pure l
      else
        let l := l.withGraph (l.SET_VISITED_NODE currentNode true)
        match c.parent with
        | [] => pure (l.SET_NODE_Y_POS currentNode 0)
        | e :: _ => do
            let x ← l.readEdge e
            let p ← l.readNode x.fromNode
            let l ←
              (if x.ignore ∨ p.ignore ∨ p.visited then pure l
              else LayoutISISetY k x.fromNode l)
            let bottom :=
              l.y x.fromNode + (if s.graphOrder then s.height x.fromNode else s.width x.fromNode)
            let tmpMaxY := if Double.less 0 bottom then bottom else 0
            pure (l.SET_NODE_Y_POS currentNode
              (if s.graphOrder then tmpMaxY + edgeHeight + s.iconSpaceV
              else tmpMaxY + edgeWidth + s.iconSpaceH))

/-! ### Pushing apart -/

/-- A node is pushed away from its first parent, and a successor is put in line with it. -/
def pushNode (r : Placed D × Bool) (n : Addr) : Except Fault (Placed D × Bool) := do
  let (l, found) := r
  let k ← l.PARENT_NUM n
  let (l, found) ←
    (if 0 < k then do
      let p ← l.firstParent n
      let pos := l.y p + s.width p + edgeWidth + s.iconSpaceH
      pure (if Double.less (l.y n) pos then (l.SET_NODE_Y_POS n pos, true) else (l, found))
    else pure (l, found))
  let c ← l.readNode n
  if c.succ.length = 1 then do
    let m ← l.firstSucc n
    let p ← l.firstParent m
    pure (if p = n then l.SET_NODE_X_POS m (l.x n) else l, found)
  else pure (l, found)

/-- `while (1)`. The number bounds the rounds. -/
def pushApart : Nat → Placed D → Except Fault (Placed D)
  | 0, _ => .error .fuel
  | k + 1, l => do
      let (l, found) ← l.nodes.foldlM (pushNode s) (l, false)
      if found then pushApart k l else pure l

/-! ### The layout -/

/-- "Calculate the x position values." -/
def across (fuel : Nat) : Except Fault (Placed D) := do
  let l := l.withGraph l.RESET_VISITED_NODE
  let starts ← l.without Node.parent l.nodes
  starts.foldlM (fun l n => LayoutISISetX s fuel n l) l

def levels (fuel : Nat) : Except Fault (Placed D) := do
  let l := l.withGraph l.RESET_VISITED_NODE
  let starts ← l.without Node.succ l.nodes
  starts.foldlM (fun l n => LayoutISISetY s fuel n l) l

/-- The nodes are placed. The number bounds the depth of the recursions and the rounds of the loop. -/
def LayoutISI (fuel : Nat) : Except Fault (Placed D × LayoutCode) := do
  let (g, root) ← l.LayoutGraphRoot
  let l := { l with maxXPosition := 0, topList := [] }
  let l := l.withGraph { g with rootNode := root }
  if root = NULL then pure (l, .LAYOUT_ERROR "no root node")
  else do
    let l ← LayoutGraphSortTopological fuel root l
    let starts ← l.without Node.parent l.nodes
    let l ← starts.foldlM (fun l n => LayoutGraphSortTopological fuel n l) l
    let l ← l.across s fuel
    let l ← l.levels s fuel
    let l ← (if s.graphOrder then pure l else pushApart s fuel l)
    pure (l, .LAYOUT_OK)

/-! ### Calls -/

/-- A graph without nodes. -/
def create : Placed D :=
  { LayoutCreateGraph with x := fun _ => 0, y := fun _ => 0, maxXPosition := 0, topList := [] }

/-- A call of the library, or a layout. -/
inductive Action (D : Type)
  | call (call : Layout_Graph.Call)
  | layout (s : Settings D)

/-- A new node has the place 0. The number is for a layout. -/
def act (fuel : Nat) : Action D → Except Fault (Placed D × LayoutCode)
  | .call call => do
      let (g, code) ← l.call call
      let l := l.withGraph g
      match call, code with
      | .createNode _ _ _ tmpNode _, .LAYOUT_OK =>
        pure ((l.SET_NODE_X_POS tmpNode 0).SET_NODE_Y_POS tmpNode 0, code)
      | _, _ => pure (l, code)
  | .layout s => l.LayoutISI s fuel

end Placed

end SourceNavigator.Layout

import SourceNavigator.Hyper.TreeTableEdit

/-!
The widget command of the tree table (`hyper/tkTreeTable.c`).

`step` is one command: the insertion of an item or of a list of items, the
deletion of lines, the removal of an item or of its sub tree, hiding and showing
a sub tree, sorting, a look up, a redraw, and a change of the options that
matter here.
-/

namespace SourceNavigator.Hyper

namespace TreeTable

variable (t : TreeTable)

/-! ### Hiding and showing -/

/-- `n` is added to what is seen from these items, up to a hidden one. The result says whether
there is one. -/
def climbSeen (n : Int) (t : TreeTable) : List Ptr → TreeTable × Bool
  | [] => (t, false)
  | p :: above =>
    if t.hidden p then (t, true)
    else climbSeen n (t.modify p fun x => { x with seenNum := x.seenNum + n }) above

def TreeTableToggleIt (p : Ptr) : Except Fault TreeTable := do
  let x ← t.read p
  let above ← t.ancestors x.parentPtr
  if x.hidden_subtree then
    let seen ← t.TreeTableCountNotHidden_x x.succPtr
    let t := t.modify p fun x => { x with hidden_subtree := false, seenNum := seen }
    let (t, hidden) := climbSeen seen t above
    pure (if hidden then t else { t with numViewed := t.numViewed + seen })
  else
    let t := t.modify p fun x => { x with hidden_subtree := true }
    let (t, hidden) := climbSeen (-x.seenNum) t above
    let t := t.modify p fun x => { x with seenNum := 0 }
    pure (if hidden then t else { t with numViewed := t.numViewed - x.seenNum })

def TreeTableToggleItem (p : Ptr) (hide : Bool) : Except Fault TreeTable := do
  let x ← t.read p
  if x.succNum = 0 ∨ x.hidden_subtree = hide then pure t else t.TreeTableToggleIt p

/-! ### Sorting -/

/-- Each item of a list is linked to the one after it. -/
def relink (t : TreeTable) : List Ptr → TreeTable
  | [] => t
  | p :: list => relink (t.setCell (.next p) list.head?) list

section Sorting

variable (qqsort : (Ptr → Ptr → Int) → List Ptr → List Ptr) (col : Int) (noCase : Bool)

/-- The comparison of two items. -/
def compar (p q : Ptr) : Int :=
  TreeTableSortCmp col noCase (((t.item p).map TableItem.text).getD [])
    (((t.item q).map TableItem.text).getD [])

def TreeTableSort_x : Nat → TreeTable → Option Ptr → Except Fault TreeTable
  | 0, _, _ => .error .fuel
  | n + 1, t, parentPtr => do
      let ptr ← t.first parentPtr
      let items ← t.siblings ptr
      let t ← items.foldlM
        (fun t p => do
          let x ← t.read p
          if x.succPtr.isSome then TreeTableSort_x n t (some p) else pure t)
        t
      let cutPtr ← t.first parentPtr
      let list ← t.siblings cutPtr
      if list.length ≤ 1 then pure t
      else
        let list := qqsort (t.compar col noCase) list
        pure ((t.setCell (.first parentPtr) list.head?).relink list)

end Sorting

/-- The options of `sort`: the column and `-nocase`. -/
def TreeTableSort (qqsort : (Ptr → Ptr → Int) → List Ptr → List Ptr) (col : Option Int)
    (noCase : Bool) : Except Fault TreeTable :=
  let t :=
    match col with
    | some col => if t.sortedInsertion then { t with sortColumn := col } else t
    | none => t
  let t := t.FREE_CACHE.FREE_PARENT_CACHE
  TreeTableSort_x qqsort (col.getD (-1)) noCase t.fuel t none

/-! ### Drawing -/

/-- A station is added when this item is at one of the steps. -/
def addStation (Pf : Option (List PathFinder_t)) (itemPtr : Ptr) (realpos seenpos : Int) :
    Option (List PathFinder_t) :=
  Pf.map fun stations =>
    let itemPos := (stations.getLast?.map PathFinder_t.itemPos).getD 0
    if itemPos < realpos ∧ realpos % PATHFINDER_STEP = 0 then
      stations ++ [{ itemPtr, itemPos := realpos, seenPos := seenpos }]
    else stations

/-- The two loops over a list: before the first line that is drawn, and over the lines that are
drawn. The result has the stations, `*seenpos` and `*realpos`. -/
def DisplayRecursive (topIndex limit : Int) : Nat → Bool → Option (List PathFinder_t) → Int → Int →
    Option Ptr → Except Fault (Option (List PathFinder_t) × Int × Int)
  | _, _, Pf, seenpos, realpos, none => .ok (Pf, seenpos, realpos)
  | 0, _, _, _, _, some _ => .error .fuel
  | n + 1, skip, Pf, seenpos, realpos, some itemPtr =>
    let skip := skip && seenpos < topIndex
    if !skip && limit < seenpos then .ok (Pf, seenpos, realpos)
    else do
      let Pf := addStation Pf itemPtr realpos seenpos
      let x ← t.read itemPtr
      let (seenpos, realpos) ←
        if x.succPtr.isSome && !x.hidden_subtree then
          if skip && seenpos + 1 + x.seenNum < topIndex then
            pure (seenpos + 1 + x.seenNum, realpos + 1 + x.succNum)
          else do
            -- the stations are in the root list only
            let (_, seenpos, realpos) ←
              DisplayRecursive topIndex limit n true none (seenpos + 1) (realpos + 1) x.succPtr
            pure (seenpos, realpos)
        else
          pure (if skip then seenpos + 1 + x.seenNum else seenpos + 1, realpos + 1 + x.succNum)
      DisplayRecursive topIndex limit n skip Pf seenpos realpos x.nextPtr

def DisplayTreeTable (topIndex numLines : Int) : Except Fault TreeTable :=
  let limit := topIndex + numLines + 1
  let limit := if limit ≥ t.numItems then t.numItems - 1 else limit
  match t.pathFinder, t.itemPtr with
  | none, itemPtr => do
      let _ ← t.DisplayRecursive topIndex limit t.fuel true none 0 0 itemPtr
      pure t
  | some _, none => .error .null
  | some stations, some itemPtr => do
      let x ← t.read itemPtr
      if x.parentPtr.isSome then do
        let _ ← t.DisplayRecursive topIndex limit t.fuel true none 0 0 (some itemPtr)
        pure t
      else do
        let (itemPtr, seenpos, realpos) :=
          match t.FIND_IN_PATHFINDER topIndex with
          | some pf => (pf.itemPtr, pf.seenPos, pf.itemPos)
          | none => (itemPtr, 0, 0)
        let (Pf, _, _) ←
          t.DisplayRecursive topIndex limit t.fuel true (some stations) seenpos realpos itemPtr
        pure { t with pathFinder := Pf }

end TreeTable

/-! ### Commands -/

/-- The commands of the widget. `insert` and `insertList` come with the addresses of the items;
the scrollbar and the window decide `topIndex` and `numLines`. -/
inductive Command
  | insert (index : Int) (new : NewItem)
  | insertList (index : Int) (items : List NewItem)
  | delete (start : Int) (stop : Option Int)
  | remove (index : Int)
  | removeChildren (index : Int)
  | toggle (index : Int) (hide : Option Bool) (real : Bool)
  | sort (col : Option Int) (noCase : Bool)
  | get (index : Int)
  | display (topIndex numLines : Int)
  | configure (accelerator sortedInsertion sortNoCase : Bool) (sortColumn : Option Bool)

namespace TreeTable

variable (t : TreeTable)

/-- `remove index` -/
def remove (index : Int) : Except Fault TreeTable := do
  let i := t.GetTreeTableIndex false index
  let (t, itemPtr) ← t.TreeTableFindItem i
  match itemPtr with
  | none => pure t
  | some p => do
      let (t, _) ← TreeTableRemoveItem true false t.fuel t p i
      pure t

/-- `remove children index` -/
def removeChildren (index : Int) : Except Fault TreeTable := do
  let i := t.GetTreeTableIndex false index
  let (t, itemPtr) ← t.TreeTableFindItem i
  match itemPtr with
  | none => pure t
  | some p => do
      let x ← t.read p
      let list ← t.siblings x.succPtr
      let stop ← list.foldlM (fun stop q => do
        let y ← t.read q
        pure (stop + 1 + y.succNum)) i
      if stop ≥ i + 1 then t.TreeTableDeleteRange (i + 1) stop else pure t

/-- `delete start ?end?` -/
def delete (start : Int) (stop : Option Int) : Except Fault TreeTable :=
  let start := t.GetTreeTableIndex false start
  let stop := (stop.map (t.GetTreeTableIndex false)).getD start
  t.TreeTableDeleteRange start (if stop < start then start else stop)

/-- `toggle index ?hide|view? ?virtual|real?` -/
def toggle (index : Int) (hide : Option Bool) (real : Bool) : Except Fault TreeTable := do
  let i := t.GetTreeTableIndex false index
  let (t, itemPtr) ←
    if real then t.TreeTableFindItem i
    else do
      let itemPtr ← t.TreeTableFindNotHiddenItem i 0
      pure (t, itemPtr)
  match itemPtr with
  | none => pure t
  | some p => do
      let x ← t.read p
      (t.DELETE_FROM_PATHFINDER i).TreeTableToggleItem p (hide.getD !x.hidden_subtree)

/-- `configure` with the options `-accelerator`, `-sortedinsertion`, `-sortnocase` and
`-sortcolumn`, which is a Boolean option. -/
def configure (accelerator sortedInsertion sortNoCase : Bool) (sortColumn : Option Bool) :
    TreeTable :=
  { t with
    pathFinder := if accelerator then some (t.pathFinder.getD []) else none
    sortedInsertion
    sortNoCase
    sortColumn := (sortColumn.map fun col => if col then 1 else 0).getD t.sortColumn }

/-- One command. -/
def step (qqsort : (Ptr → Ptr → Int) → List Ptr → List Ptr) :
    Command → Except Fault TreeTable
  | .insert index new => do
      let index := t.GetTreeTableIndex true index
      let (t, _) ← { t with InsertedNewPosition := index }.TreeTableInsertItem index none new
      pure t
  | .insertList index items =>
    TreeTableInsertItems (t.GetTreeTableIndex true index) none t items
  | .delete start stop => t.delete start stop
  | .remove index => t.remove index
  | .removeChildren index => t.removeChildren index
  | .toggle index hide real => t.toggle index hide real
  | .sort col noCase => t.TreeTableSort qqsort col noCase
  | .get index => do
      let (t, _) ← t.TreeTableFindItem index
      pure t
  | .display topIndex numLines => t.DisplayTreeTable topIndex numLines
  | .configure accelerator sortedInsertion sortNoCase sortColumn =>
    .ok (t.configure accelerator sortedInsertion sortNoCase sortColumn)

end TreeTable

end SourceNavigator.Hyper

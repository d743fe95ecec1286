import SourceNavigator.Db.Compare
import SourceNavigator.Hyper.TreeTable

/-!
The commands of the tree table (`hyper/tkTreeTable.c`).

An insertion finds the place of the new item, links it in, adds one to the
counters of the items above, and throws away the entries from the line it
reports on; a removal does the same the other way for an item and all items of
its sub tree. `step` is one command of the widget. The function that sorts an
array is a parameter.
-/

namespace SourceNavigator.Hyper

open Lib (Cell)
open Db (tolower)

abbrev TAB : UInt8 := 9
abbrev TILDE : UInt8 := 126

/-! ### Comparing texts -/

/-- What comes after `n` tabs. -/
def PosTabStr : Text → Nat → Text
  | s, 0 => s
  | [], _ + 1 => []
  | c :: s, n + 1 => if c = TAB then PosTabStr s n else PosTabStr s (n + 1)

def strcmp : Text → Text → Int
  | [], [] => 0
  | [], d :: _ => -d.toNat
  | c :: _, [] => c.toNat
  | c :: s, d :: t => if c = d then strcmp s t else (c.toNat : Int) - d.toNat

def strcasecmp (s t : Text) : Int := strcmp (s.map tolower) (t.map tolower)

/-- The value of `*p`. -/
def firstChar (s : Text) : Int := (s.headD 0).toInt8.toInt

/-- The text that is compared first: the whole text or one column. -/
def column (col : Int) (text : Text) : Text := if col ≤ 0 then text else PosTabStr text col.toNat

/-- The comparison of `TreeTableSortFindPrev`. With upper and lower case it compares the first
characters and then `q` with `q`. -/
def insertCmp (col : Int) (noCase : Bool) (text text' : Text) : Int :=
  let p := column col text
  let q := column col text'
  let ret :=
    if noCase then strcasecmp p q
    else if firstChar p ≠ firstChar q then firstChar p - firstChar q else strcmp q q
  if ret = 0 ∧ 0 < col then if noCase then strcasecmp text text' else strcmp text text' else ret

/-- `if (*p == '~') p ++;` -/
def skipTilde : Text → Text
  | c :: s => if c = TILDE then s else c :: s
  | [] => []

/-- `TreeTableSortCmp` for the texts of two items. -/
def TreeTableSortCmp (col : Int) (noCase : Bool) (text text' : Text) : Int :=
  let p := skipTilde (column col text)
  let q := skipTilde (column col text')
  if noCase then
    let ret := firstChar (p.map tolower) - firstChar (q.map tolower)
    if ret ≠ 0 ∨ p = [] then ret
    else
      let ret := strcasecmp p.tail q.tail
      if ret = 0 ∧ 0 < col then strcasecmp text text' else ret
  else if firstChar p ≠ firstChar q ∨ p = [] then firstChar p - firstChar q
  else
    let ret := strcmp q.tail q.tail
    if ret = 0 ∧ 0 < col then strcmp text text' else ret

/-- The options of a new item and its address. The widget may reject the options. -/
structure NewItem where
  ptr : Ptr
  parent : Int
  text : Text
  accepted : Bool

/-- A new item, before it is linked. -/
def NewItem.item (new : NewItem) : TableItem :=
  { parent := new.parent
    text := new.text
    hidden_subtree := false
    succNum := 0
    seenNum := 0
    succPtr := none
    parentPtr := none
    nextPtr := none }

namespace TreeTable

variable (t : TreeTable)

/-! ### Insertion -/

/-- The last item of a list that comes before an item, and the line after its sub tree. -/
def TreeTableSortFindPrev (text : Text) : List Ptr → Option Ptr → Int →
    Except Fault (Option Ptr × Int)
  | [], posPtr, index => .ok (posPtr, index)
  | p :: l, posPtr, index => do
      let x ← t.read p
      if insertCmp t.sortColumn t.sortNoCase text x.text ≤ 0 then pure (posPtr, index)
      else TreeTableSortFindPrev text l (some p) (index + 1 + x.succNum)

/-- The loop that goes over `i` items of a list. -/
def skipItems : List Ptr → Int → Option Ptr → Int → Except Fault (Option Ptr × Int)
  | [], _, posPtr, newIndex => .ok (posPtr, newIndex)
  | p :: l, i, posPtr, newIndex =>
    if 0 < i then do
      let x ← t.read p
      skipItems l (i - 1) (some p) (newIndex + 1 + x.succNum)
    else .ok (posPtr, newIndex)

/-- The parent of a new item is looked up. -/
def findParent (parent : Int) : Except Fault (TreeTable × Option Ptr) :=
  if 0 ≤ parent then do
    let (t, parentPtr) ← t.GET_CACHED_PARENT parent
    match parentPtr with
    | some p => do
        let _ ← t.read p
        pure (t.SET_PARENT_CACHE p parent, some p)
    | none => pure (t, none)
  else .ok (t, none)

/-- The item to insert after in the list of a parent that has children, and the line that is
reported. -/
def findPrev (parentPtr : Ptr) (list : List Ptr) (new : TableItem) (index : Int) :
    Except Fault (Option Ptr × Int) :=
  if t.sortedInsertion then t.TreeTableSortFindPrev new.text list none (new.parent + 1)
  else
    match t.GET_CACHED_ITEM (index - 1) with
    | none => t.skipItems list (index - new.parent - 1) none (new.parent + 1)
    | some posPtr => do
        let x ← t.read posPtr
        if x.parentPtr = some parentPtr then pure (some posPtr, index)
        else t.skipItems list (index - new.parent - 1) (some posPtr) (new.parent + 1)

/-- The pointer that will point to the new child of a parent, and the line that is reported. -/
def findChildPlace (parentPtr : Ptr) (new : TableItem) (index : Int) :
    Except Fault (Cell Ptr × Int) := do
  let x ← t.read parentPtr
  if x.succPtr.isNone then pure (.succ parentPtr, new.parent + 1)
  else do
    let list ← t.siblings x.succPtr
    let (posPtr, newIndex) ← t.findPrev parentPtr list new index
    match posPtr with
    | none => pure (.succ parentPtr, newIndex)
    | some p => pure (.next p, newIndex)

/-- The item to insert after in the root list, and the line that is reported. -/
def findRootPrev (new : TableItem) (index : Int) :
    Except Fault (TreeTable × Option Ptr × Int) :=
  if t.sortedInsertion then do
    let list ← t.siblings t.itemPtr
    let (posPtr, newIndex) ← t.TreeTableSortFindPrev new.text list none 0
    pure (t, posPtr, newIndex)
  else do
    let (t, posPtr) ← t.TreeTableFindItem (index - 1)
    pure (t, posPtr, if posPtr.isSome then index else 0)

/-- The pointer that will point to a new item of the root list, and the line that is reported. The
new item comes after the item in the root list that the found item is below. -/
def findRootPlace (new : TableItem) (index : Int) : Except Fault (TreeTable × Cell Ptr × Int) :=
  if index ≤ 0 ∨ t.itemPtr = none then .ok (t, .head, 0)
  else do
    let (t, posPtr, newIndex) ← t.findRootPrev new index
    let above ← t.ancestors posPtr
    match above.getLast? with
    | none => pure (t, .head, newIndex)
    | some top => pure (t, .next top, newIndex)

/-- The place of a new item: the pointer that will point to it, its parent, and the line that is
reported. -/
def findPlace (new : TableItem) (prevPtr : Option Ptr) (index : Int) :
    Except Fault (TreeTable × Cell Ptr × TableItem × Int) :=
  match prevPtr with
  | some prevPtr => do
      let prev ← t.read prevPtr
      pure (t, .next prevPtr, { new with parentPtr := prev.parentPtr, parent := prev.parent }, -1)
  | none => do
      let (t, parentPtr) ← t.findParent new.parent
      match parentPtr with
      | some p => do
          let (cell, newIndex) ← t.findChildPlace p new index
          pure (t, cell, { new with parentPtr := some p }, newIndex)
      | none => do
          let (t, cell, newIndex) ← t.findRootPlace new index
          pure (t, cell, new, newIndex)

/-- A new item is put where a pointer points to, and before what it pointed to. -/
def link (newPtr : Ptr) (new : TableItem) (cell : Cell Ptr) : TreeTable :=
  { t with
    item := Function.update t.item newPtr (some { new with nextPtr := t.getCell cell }) }.setCell
    cell (some newPtr)

/-- `n` is added to the numbers of these items, which are above a place from the inside out. The
result says whether one of them is hidden. -/
def climb (n : Int) (t : TreeTable) (hidden : Bool) : List Ptr → TreeTable × Bool
  | [] => (t, hidden)
  | p :: above =>
    let hidden := hidden || t.hidden p
    let t := t.modify p fun x =>
      { x with
        succNum := x.succNum + n
        seenNum := if hidden then x.seenNum else x.seenNum + n }
    climb n t hidden above

/-- What is cached from a line on is thrown away, and the new item is cached with this line. -/
def recache (newPtr : Ptr) (newIndex : Int) : TreeTable :=
  (((t.FREE_RONG_CACHE newIndex).FREE_RONG_PARENT_CACHE newIndex).SET_CACHED newPtr
    newIndex).DELETE_FROM_PATHFINDER newIndex

def TreeTableInsertListItem (newPtr : Ptr) (new : TableItem) (prevPtr : Option Ptr) (index : Int) :
    Except Fault (TreeTable × Bool × Int) := do
  let (t, cell, new, newIndex) ← t.findPlace new prevPtr index
  let above ← t.ancestors new.parentPtr
  let (t, hidden) := climb 1 (t.link newPtr new cell) false above
  pure (t.recache newPtr newIndex, hidden, newIndex)

/-! ### Removal -/

/-- An item is taken out of its list. -/
def unlink (itemPtr : Ptr) (item : TableItem) : Except Fault TreeTable := do
  let topPtr ← t.first item.parentPtr
  match topPtr with
  | none => pure t
  | some top =>
    if top = itemPtr then pure (t.setCell (.first item.parentPtr) item.nextPtr)
    else do
      let list ← t.siblings topPtr
      match list.find? fun p => t.nextPtr p = some itemPtr with
      | some prevPtr => pure (t.setCell (.next prevPtr) item.nextPtr)
      | none => .error .exit

/-- An item is freed after its sub tree: the items above are told, and the item is taken out of its
list unless it is in the sub tree of an item that is removed. `deleted` is the number of items. -/
def removeThis (original_item children : Bool) (itemPtr : Ptr) (item : TableItem)
    (index deleted : Int) : Except Fault (TreeTable × Int) := do
  let above ← t.ancestors item.parentPtr
  let (t, hidden) := climb (-1) t false above
  let t ←
    if children then pure t
    else ((t.FREE_RONG_CACHE index).FREE_RONG_PARENT_CACHE index).unlink itemPtr item
  let t := { t with numItems := t.numItems - 1 }
  let t := (t.DELETE_FROM_PATHFINDER index).TreeTableFreeItem itemPtr
  if original_item && !hidden then
    pure ({ t with numViewed := t.numViewed - deleted }, deleted)
  else pure (t, deleted)

/-- An item and its sub tree are freed. The result has the number of items. -/
def TreeTableRemoveItem (original_item children : Bool) :
    Nat → TreeTable → Ptr → Int → Except Fault (TreeTable × Int)
  | 0, _, _, _ => .error .fuel
  | n + 1, t, itemPtr, lineNum => do
      let item ← t.read itemPtr
      let index ← if lineNum = -1 then t.TreeTableFindIndex itemPtr else pure lineNum
      if index = -1 then pure (t.TreeTableFreeItem itemPtr, 0)
      else do
        -- the pointers between the items of the sub tree are not changed in the loop
        let subs ← t.siblings item.succPtr
        let (t, deleted) ← subs.foldlM
          (fun (t, deleted) sub => do
            let (t, r) ← TreeTableRemoveItem false true n t sub (index + deleted)
            pure (t, deleted + r))
          (t, 1)
        t.removeThis original_item children itemPtr item index deleted

/-- `TreeTableCountNotHidden_x`: the items of a list and what is seen of their sub trees. -/
def TreeTableCountNotHidden_x (ptr : Option Ptr) : Except Fault Int := do
  let list ← t.siblings ptr
  list.foldlM (fun i p => do
    let x ← t.read p
    pure (i + 1 + x.seenNum)) 0

def TreeTableCountNotHidden : Except Fault TreeTable := do
  let i ← t.TreeTableCountNotHidden_x t.itemPtr
  pure { t with numViewed := i }

/-- The loop over the items of the root list, when all items are deleted. -/
def deleteAll : Except Fault TreeTable := do
  let list ← t.siblings t.itemPtr
  let (t, _) ← list.foldlM
    (fun (t, i) p => do
      let x ← t.read p
      let (t, _) ← TreeTableRemoveItem false true t.fuel t p i
      pure (t, i + 1 + x.succNum))
    (t, (0 : Int))
  pure { (t.FREE_RONG_CACHE 0).FREE_RONG_PARENT_CACHE 0 with itemPtr := none }

/-- The loop over `n` lines, from the last one down to `start`. -/
def deleteLines (start : Int) : Nat → TreeTable → Except Fault TreeTable
  | 0, t => .ok t
  | n + 1, t => do
      let (t, posPtr) ← t.TreeTableFindItem (start + n)
      match posPtr with
      | none => deleteLines start n t
      | some p => do
          let (t, _) ← TreeTableRemoveItem false false t.fuel t p (start + n)
          deleteLines start n t

def TreeTableDeleteRange (start stop : Int) : Except Fault TreeTable :=
  if t.numItems = 0 ∨ stop < start then .ok t
  else do
    let t ←
      if start ≤ 0 ∧ t.numItems - 1 ≤ stop then t.deleteAll
      else deleteLines start (stop - start + 1).toNat t
    t.TreeTableCountNotHidden

/-! ### New items -/

/-- Inserts an item. The result has its address, unless its options were rejected. -/
def TreeTableInsertItem (index : Int) (prevPtr : Option Ptr) (new : NewItem) :
    Except Fault (TreeTable × Option Ptr) :=
  let index := if index ≤ 0 then 0 else index
  let index := if index > t.numItems then t.numItems else index
  if (t.item new.ptr).isSome then .error .inUse
  else if !new.accepted then do
    let t := { t with item := Function.update t.item new.ptr (some new.item) }
    let (t, _) ← TreeTableRemoveItem false false t.fuel t new.ptr (-1)
    pure (t, none)
  else do
    let (t, hidden, newIndex) ← t.TreeTableInsertListItem new.ptr new.item prevPtr index
    pure
      ({ t with
          InsertedNewPosition := newIndex
          numItems := t.numItems + 1
          numViewed := if hidden then t.numViewed else t.numViewed + 1 },
        some new.ptr)

/-- Inserts the items of a list one after the other. Empty texts are left out. -/
def TreeTableInsertItems (index : Int) : Option Ptr → TreeTable → List NewItem →
    Except Fault TreeTable
  | _, t, [] => .ok t
  | newPtr, t, new :: items =>
    if new.text = [] then TreeTableInsertItems index newPtr t items
    else do
      let (t, inserted) ← t.TreeTableInsertItem index newPtr new
      match inserted with
      | none => pure t
      | some p => TreeTableInsertItems index (some p) t items

end TreeTable

end SourceNavigator.Hyper

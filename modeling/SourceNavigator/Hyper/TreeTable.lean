import Mathlib.Data.List.ReduceOption
import Mathlib.Logic.Function.Basic
import SourceNavigator.Lib.Forest
import SourceNavigator.Text

/-!
The tree table widget (`hyper/tkTreeTable.c`).

The items of a table are linked by three pointers: to the first item of the sub
tree, to the next item of the list, and to the owner of the list. Lines are
numbered in the order of the walk through the sub trees. An item keeps the
number of items in its sub tree and the number of those that are not hidden.

Five items with their lines are cached, and the last parent that was looked up,
and with the accelerator on the display leaves stop stations in the root list.
A pointer in these that is not thrown away in time leads to memory that was
given back: reading it is a `Fault`.
-/

namespace SourceNavigator.Hyper

open Lib (Cell)

/-- The address of an item. -/
abbrev Ptr := Nat

/-- An item of the table (`TableItem`), without what is drawn with it. -/
structure TableItem where
  parent : Int
  text : Text
  hidden_subtree : Bool
  succNum : Int
  seenNum : Int
  succPtr : Option Ptr
  parentPtr : Option Ptr
  nextPtr : Option Ptr
  deriving DecidableEq

/-- A stop station in the root list. -/
structure PathFinder_t where
  itemPtr : Ptr
  itemPos : Int
  seenPos : Int
  deriving DecidableEq

def MAX_CACHED : Nat := 5
def PATHFINDER_STEP : Int := 1024

/-- The items of a table, with the memory they are in. -/
structure Items where
  item : Ptr → Option TableItem
  numItems : Int
  numViewed : Int
  itemPtr : Option Ptr

/-- What is kept to find items fast. `pathFinder` has the stations when the accelerator is on. -/
structure Caches where
  pathFinder : Option (List PathFinder_t)
  cachedItem : Vector (Option (Ptr × Int)) MAX_CACHED
  cacheIndex : Fin MAX_CACHED
  cachedParent : Option (Ptr × Int)

/-- A table, with the line that the last insertion reported. -/
structure TreeTable extends Items, Caches where
  sortedInsertion : Bool
  sortColumn : Int
  sortNoCase : Bool
  InsertedNewPosition : Int

/-- A table without items. -/
def TreeTable.create (accelerator sortedInsertion : Bool) (sortColumn : Int) (sortNoCase : Bool) :
    TreeTable :=
  { item := fun _ => none
    numItems := 0
    numViewed := 0
    itemPtr := none
    pathFinder := if accelerator then some [] else none
    cachedItem := Vector.replicate MAX_CACHED none
    cacheIndex := ⟨0, by decide⟩
    cachedParent := none
    sortedInsertion
    sortColumn
    sortNoCase
    InsertedNewPosition := 0 }

/-- Why a function has no result: it reads an item that was freed, or through a null pointer, it
leaves the program, it was given memory that is in use, or it does not come to an end. -/
inductive Fault
  | freed
  | null
  | exit
  | inUse
  | fuel
  deriving DecidableEq

namespace TreeTable

variable (t : TreeTable)

/-! ### Memory -/

def read (p : Ptr) : Except Fault TableItem :=
  match t.item p with
  | some x => .ok x
  | none => .error .freed

def modify (p : Ptr) (change : TableItem → TableItem) : TreeTable :=
  { t with item := Function.update t.item p ((t.item p).map change) }

def TreeTableFreeItem (p : Ptr) : TreeTable := { t with item := Function.update t.item p none }

/-- The flag `ITEM_HIDDEN_SUBTREE` of an item. -/
def hidden (p : Ptr) : Bool := ((t.item p).map TableItem.hidden_subtree).getD false

def nextPtr (p : Ptr) : Option Ptr := (t.item p).bind TableItem.nextPtr

/-- One more than the number of items: no list is as long. -/
def fuel : Nat := t.numItems.toNat + 1

/-- The items that are reached by following a pointer. -/
def follow (pointer : TableItem → Option Ptr) : Nat → Option Ptr → Except Fault (List Ptr)
  | _, none => .ok []
  | 0, some _ => .error .fuel
  | n + 1, some p => do
      let x ← t.read p
      let l ← follow pointer n (pointer x)
      pure (p :: l)

/-- The loop `for (; Ptr; Ptr = Ptr->nextPtr)`. -/
def siblings (ptr : Option Ptr) : Except Fault (List Ptr) := t.follow TableItem.nextPtr t.fuel ptr

/-- The loop `for (; Ptr; Ptr = Ptr->parentPtr)`. -/
def ancestors (ptr : Option Ptr) : Except Fault (List Ptr) :=
  t.follow TableItem.parentPtr t.fuel ptr

/-- The first item of the root list, or of the list of an owner. -/
def first : Option Ptr → Except Fault (Option Ptr)
  | none => .ok t.itemPtr
  | some p => do
      let x ← t.read p
      pure x.succPtr

/-- A pointer of the table or of an item. -/
def getCell : Cell Ptr → Option Ptr
  | .head => t.itemPtr
  | .succ p => (t.item p).bind TableItem.succPtr
  | .next p => (t.item p).bind TableItem.nextPtr

def setCell (cell : Cell Ptr) (ptr : Option Ptr) : TreeTable :=
  match cell with
  | .head => { t with itemPtr := ptr }
  | .succ p => t.modify p fun x => { x with succPtr := ptr }
  | .next p => t.modify p fun x => { x with nextPtr := ptr }

/-! ### The caches and the path finder -/

/-- The entries of the item cache. -/
def cached : List (Ptr × Int) := t.cachedItem.toList.reduceOption

def RET_CACHED_ITEM (index : Int) : Option Ptr :=
  (t.cached.find? fun e => e.2 = index).map Prod.fst

def RET_CACHED_INDEX (p : Ptr) : Option Int := (t.cached.find? fun e => e.1 = p).map Prod.snd

/-- The last entry for a line. -/
def GET_CACHED_ITEM (index : Int) : Option Ptr :=
  ((t.cached.filter fun e => e.2 = index).getLast?).map Prod.fst

def SET_CACHED (p : Ptr) (pos : Int) : TreeTable :=
  if 0 ≤ pos ∧ ∀ e ∈ t.cached, e.1 ≠ p then
    { t with
      cachedItem := t.cachedItem.set t.cacheIndex (some (p, pos)) t.cacheIndex.isLt
      cacheIndex := ⟨(t.cacheIndex + 1) % MAX_CACHED, Nat.mod_lt _ (by decide)⟩ }
  else t

def FREE_CACHE : TreeTable :=
  { t with
    cachedItem := Vector.replicate MAX_CACHED none
    cacheIndex := ⟨0, by decide⟩ }

/-- The entries from a line on are thrown away. -/
def FREE_RONG_CACHE (index : Int) : TreeTable :=
  { t with cachedItem := t.cachedItem.map fun e => e.filter fun entry => entry.2 < index }

def FREE_PARENT_CACHE : TreeTable := { t with cachedParent := none }

def FREE_RONG_PARENT_CACHE (index : Int) : TreeTable :=
  { t with cachedParent := t.cachedParent.filter fun entry => entry.2 < index }

def SET_PARENT_CACHE (p : Ptr) (index : Int) : TreeTable :=
  { t with cachedParent := some (p, index) }

/-- The last station before a line. -/
def FIND_IN_PATHFINDER (pos : Int) : Option PathFinder_t :=
  ((t.pathFinder.getD []).filter fun pf => pf.itemPos < pos).getLast?

def DELETE_FROM_PATHFINDER (pos : Int) : TreeTable :=
  { t with pathFinder := t.pathFinder.map (List.takeWhile fun pf => pf.itemPos < pos) }

/-! ### Lines -/

/-- The line from the text of an index, which is a number by now. -/
def GetTreeTableIndex (endAfter : Bool) (index : Int) : Int :=
  let index :=
    if endAfter then if index > t.numItems then t.numItems else index
    else if index ≥ t.numItems then t.numItems - 1 else index
  if t.numItems ≤ 0 then 0 else if index < 0 then 0 else index

/-- The item of a line and `-1`, or the line that the search stopped at. -/
def TreeTableIndex (index : Int) : Nat → Option Ptr → Int → Except Fault (Option Ptr × Int)
  | _, none, i => .ok (none, i)
  | 0, some _, _ => .error .fuel
  | n + 1, some item, i =>
    if index < i then .ok (none, i)
    else if i = index then .ok (some item, -1)
    else do
      let x ← t.read item
      if x.succPtr.isNone then TreeTableIndex index n x.nextPtr (i + 1)
      else if i + 1 + x.succNum < index then
        TreeTableIndex index n x.nextPtr (i + 1 + x.succNum)
      else do
        let (itemRet, i) ← TreeTableIndex index n x.succPtr (i + 1)
        if i < 0 then pure (itemRet, i) else TreeTableIndex index n x.nextPtr i

def TreeTableFindItem (index : Int) : Except Fault (TreeTable × Option Ptr) :=
  if index < 0 then .ok (t, none)
  else
    match t.RET_CACHED_ITEM index with
    | some p => .ok (t, some p)
    | none => do
        let (itemPtr, pos) :=
          match t.FIND_IN_PATHFINDER index with
          | some pf => (some pf.itemPtr, pf.itemPos)
          | none => (t.itemPtr, 0)
        let (itemRet, _) ← t.TreeTableIndex index t.fuel itemPtr pos
        match itemRet with
        | some p => pure (t.SET_CACHED p index, some p)
        | none => pure (t, none)

/-- The line of an item, if it is found, and `-1` or the line that the search stopped at. -/
def TreeTableFindIndex_x (srcPtr : Ptr) :
    Nat → Option Ptr → Int → Except Fault (Option Int × Int)
  | _, none, i => .ok (none, i)
  | 0, some _, _ => .error .fuel
  | n + 1, some p, i =>
    if p = srcPtr then .ok (some i, -1)
    else do
      let x ← t.read p
      if x.succPtr.isNone then TreeTableFindIndex_x srcPtr n x.nextPtr (i + 1)
      else do
        let (pos, i) ← TreeTableFindIndex_x srcPtr n x.succPtr (i + 1)
        if i < 0 then pure (pos, i) else TreeTableFindIndex_x srcPtr n x.nextPtr i

def TreeTableFindIndex (p : Ptr) : Except Fault Int :=
  match t.RET_CACHED_INDEX p with
  | some pos => .ok pos
  | none => do
      let (pos, _) ← t.TreeTableFindIndex_x p t.fuel t.itemPtr 0
      pure (pos.getD (-1))

/-- The item of a line, or the item whose hidden sub tree the line is in. -/
def TreeTableFindNotHiddenItem_x (index : Int) (next : Int) :
    Nat → Option Ptr → Int → Except Fault (Option Ptr × Int)
  | _, none, i => .ok (none, i)
  | 0, some _, _ => .error .fuel
  | n + 1, some item, i =>
    if index ≤ i then .ok (some item, -1)
    else do
      let x ← t.read item
      let (itemRet, i) ←
        if x.succPtr.isNone then pure (none, i + 1)
        else if x.hidden_subtree || i + 1 + x.succNum < index then
          pure (none, i + 1 + x.succNum)
        else TreeTableFindNotHiddenItem_x index next n x.succPtr (i + 1)
      if i < 0 then pure (itemRet, i)
      else if index < i ∧ next ≤ 0 then pure (some item, -1)
      else TreeTableFindNotHiddenItem_x index next n x.nextPtr i

def TreeTableFindNotHiddenItem (index next : Int) : Except Fault (Option Ptr) :=
  if index < 0 then .ok none
  else do
    let (itemRet, _) ← t.TreeTableFindNotHiddenItem_x index next t.fuel t.itemPtr 0
    pure itemRet

def GET_CACHED_PARENT (index : Int) : Except Fault (TreeTable × Option Ptr) :=
  match t.cachedParent with
  | some (p, cachedParent) =>
    if cachedParent = index then .ok (t, some p) else t.TreeTableFindItem index
  | none => t.TreeTableFindItem index

end TreeTable

end SourceNavigator.Hyper

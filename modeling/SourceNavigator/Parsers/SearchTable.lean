import Mathlib.Data.List.Basic
import Mathlib.Data.Int.Notation

/-!
The hash variant of the parsers' search table (`parsers/common/srchtbl.c`).

A table has `hsize + 1` slots, of which slot `0` is never filled, and looks
entries up by double hashing. Keys are byte strings. Every loop of the source
takes a bound on its steps here and returns `none` when the bound runs out.

The memory that `ckalloc` grants is a parameter. `realloc` and `free` of the
copies of keys and data have no counterpart: an entry holds the bytes that its
pointers lead to.
-/

namespace SourceNavigator.Parsers

/-! ### Entries and tables -/

/-- The value an `unsigned int` holds. -/
def unsigned (n : Nat) : Nat := n % 4294967296

theorem unsigned_of_lt {n : Nat} (h : n < 4294967296) : unsigned n = n :=
  Nat.mod_eq_of_lt h

theorem unsigned_lt (n : Nat) : unsigned n < 4294967296 :=
  Nat.mod_lt _ (by decide)

abbrev SEARCH_DUP_KEY : UInt8 := 1
abbrev SEARCH_DUP_DATA : UInt8 := 2
abbrev SEARCH_FIRST : UInt8 := 4

/-- The bytes before the first NUL of an object, which a NUL follows. -/
def cstring (bytes : List UInt8) : List UInt8 := bytes.takeWhile (· ≠ 0)

/-- An entry of a table: `key` and `data` are the bytes of the objects the
pointers lead to. An object is no longer than an `int` can count, and a given
length does not go past its end. -/
structure SearchEntry where
  key : List UInt8
  key_len : Int
  data : List UInt8
  data_len : Int
  flag : UInt8
  key_fits : key.length < 2147483648 := by decide
  key_len_le : key_len ≤ key.length := by decide
  data_fits : data.length < 2147483648 := by decide
  data_len_le : data_len ≤ data.length := by decide
  deriving DecidableEq

/-- The entry `memset` leaves in a slot. -/
def SearchEntry.zero : SearchEntry where
  key := []
  key_len := 0
  data := []
  data_len := 0
  flag := 0

/-- A slot; `used` is the first hash index of the key it holds, `0` when it holds none. -/
structure DATA where
  entry : SearchEntry
  used : Nat
  deriving DecidableEq

def DATA.zero : DATA := ⟨.zero, 0⟩

/-- A table. The function pointers are those of the hash variant throughout. -/
structure SearchTable where
  data : Array DATA
  hsize : Nat
  filled : Nat
  cursor : Int
  deriving DecidableEq

/-- The slot at an index. -/
def SearchTable.slot (htable : SearchTable) (idx : Nat) : DATA :=
  htable.data.getD idx .zero

/-- Overwrite the slot at an index. -/
def SearchTable.setSlot (htable : SearchTable) (idx : Nat) (d : DATA) : SearchTable :=
  { htable with data := htable.data.setIfInBounds idx d }

inductive Search_Action
  | Find
  | Add
  | Delete
  deriving DecidableEq

/-- Which requests for memory `ckalloc` meets. It counts bytes in an `unsigned int`. -/
structure Ckalloc where
  grants : Nat → Bool
  counts : ∀ n, grants n = true → n < 4294967296

def sizeof_SearchTable : Nat := 72
def sizeof_DATA : Nat := 40

/-! ### Creation -/

/-- The divisor at which the loop of `isprime` ends. -/
def isprimeLoop (number : Nat) : Nat → Nat → Option Nat
  | 0, _ => none
  | fuel + 1, div =>
    if unsigned (div * div) < number ∧ number % div ≠ 0 then
      isprimeLoop number fuel (unsigned (div + 2))
    else
      some div

def isprime (fuel number : Nat) : Option Bool :=
  (isprimeLoop number fuel 3).map fun div => number % div != 0

/-- The loop of `HashTableCreate` that goes to the next number `isprime` accepts. -/
def nextPrime : Nat → Nat → Option Nat
  | 0, _ => none
  | fuel + 1, nel =>
    match isprime fuel nel with
    | none => none
    | some true => some nel
    | some false => nextPrime fuel (unsigned (nel + 2))

/-- The first number `HashTableCreate` tries as a table size. -/
def firstSize (nel : Nat) : Nat :=
  (unsigned (nel * 10) / 9 + 1) ||| 1

/-- `none` is a NULL table: the memory for it was not granted. -/
def HashTableCreate (fuel : Nat) (ckalloc : Ckalloc) (nel : Nat) : Option (Option SearchTable) :=
  (nextPrime fuel (firstSize nel)).map fun nel =>
    if ckalloc.grants sizeof_SearchTable && ckalloc.grants ((nel + 1) * sizeof_DATA) then
      some { data := Array.replicate (nel + 1) .zero, hsize := nel, filled := 0, cursor := 0 }
    else
      none

/-! ### Hashing -/

/-- The entry with its key measured, when it came with no length. -/
def SearchEntry.measure (item : SearchEntry) : SearchEntry :=
  if item.key_len ≤ 0 then
    { item with
      key_len := (cstring item.key).length
      key_len_le := by exact_mod_cast (List.takeWhile_prefix _).length_le }
  else
    item

/-- The bytes of the key. -/
def SearchEntry.bytes (item : SearchEntry) : List UInt8 :=
  if item.key_len ≤ 0 then cstring item.key else item.key.take item.key_len.toNat

/-- The value of the key, from its last character to its first; a `char` is signed. -/
def hashValue (key : List UInt8) : UInt32 :=
  key.foldr (fun c hval => (hval <<< 4) + c.toInt8.toInt32.toUInt32) (UInt32.ofNat key.length)

/-- First hash function: the modulus, but not zero. -/
def firstIndex (hsize : Nat) (key : List UInt8) : Nat :=
  if (hashValue key).toNat % hsize = 0 then 1 else (hashValue key).toNat % hsize

/-- Second hash function: the distance between two indices tried. -/
def secondStep (hsize hval : Nat) : Nat :=
  1 + hval % unsigned (hsize + 4294967296 - 2)

/-- The slot holds the key of a measured entry. -/
def SearchTable.matches (htable : SearchTable) (item : SearchEntry) (hval idx : Nat) : Bool :=
  (htable.slot idx).used == hval && item.key_len == (htable.slot idx).entry.key_len &&
    item.key.take item.key_len.toNat == (htable.slot idx).entry.key.take item.key_len.toNat

/-- The `do` loop of `HashTableSearchFunc`, left at the slot of the key or at an unused one. -/
def probeLoop (htable : SearchTable) (item : SearchEntry) (hval hval2 : Nat) :
    Nat → Nat → Option Nat
  | 0, _ => none
  | fuel + 1, idx =>
    let idx := if idx ≤ hval2 then htable.hsize + idx - hval2 else idx - hval2
    if htable.matches item hval idx then
      some idx
    else if (htable.slot idx).used ≠ 0 then
      probeLoop htable item hval hval2 fuel idx
    else
      some idx

/-- The index at which the search for a measured entry ends. -/
def locate (fuel : Nat) (htable : SearchTable) (item : SearchEntry) : Option Nat :=
  let hval := firstIndex htable.hsize item.bytes
  if (htable.slot hval).used ≠ 0 then
    if htable.matches item hval hval then
      some hval
    else
      probeLoop htable item hval (secondStep htable.hsize hval) fuel hval
  else
    some hval

/-! ### The search function -/

/-- What a call leaves behind: the table, the entry the returned pointer leads
to, and the entry the delete hook was called with. -/
structure SearchResult where
  htable : SearchTable
  entry : Option SearchEntry
  removed : Option SearchEntry
  deriving DecidableEq

/-- The flag has a bit that is not one of the three. -/
def SearchEntry.badFlag (item : SearchEntry) : Bool :=
  item.flag &&& ~~~(SEARCH_DUP_KEY ||| SEARCH_DUP_DATA ||| SEARCH_FIRST) ≠ 0

/-- The copies a flag asks for: of the key, of the data. -/
def SearchEntry.dupKey (item : SearchEntry) : SearchEntry :=
  if item.flag &&& SEARCH_DUP_KEY ≠ 0 then
    { item with
      key := item.key.take item.key_len.toNat
      key_fits := Nat.lt_of_le_of_lt (List.length_take_le' _ _) item.key_fits
      key_len_le := by
        have := item.key_len_le
        rw [List.length_take]
        omega }
  else
    item

@[inherit_doc SearchEntry.dupKey]
def SearchEntry.dupData (item : SearchEntry) : SearchEntry :=
  if item.flag &&& SEARCH_DUP_DATA ≠ 0 then
    if item.data_len = -1 then
      { item with
        data := cstring item.data
        data_len := (cstring item.data).length
        data_fits := Nat.lt_of_le_of_lt (List.takeWhile_prefix _).length_le item.data_fits
        data_len_le := Int.le_refl _ }
    else
      { item with
        data := item.data.take item.data_len.toNat
        data_fits := Nat.lt_of_le_of_lt (List.length_take_le' _ _) item.data_fits
        data_len_le := by
          have := item.data_len_le
          rw [List.length_take]
          omega }
  else
    item

/-- Put an entry into an unused slot. -/
def SearchTable.fill (htable : SearchTable) (idx hval : Nat) (item : SearchEntry) : SearchTable :=
  { htable.setSlot idx ⟨item, hval⟩ with filled := htable.filled + 1 }

/-- Take the entry of a slot away. -/
def SearchTable.clear (htable : SearchTable) (idx : Nat) : SearchTable :=
  { htable.setSlot idx .zero with filled := htable.filled - 1 }

/-- What is done with the slot at which the search for a measured entry ended. -/
def useSlot (htable : SearchTable) (item : SearchEntry) (action : Search_Action)
    (dup_enabled : Bool) (idx : Nat) : SearchResult :=
  let hval := firstIndex htable.hsize item.bytes
  if htable.matches item hval idx then
    match action with
    | .Delete =>
      { htable := htable.clear idx
        entry := some .zero
        removed := some (htable.slot idx).entry }
    | _ => { htable, entry := some (htable.slot idx).entry, removed := none }
  else
    match action with
    | .Add =>
      if dup_enabled && item.badFlag then
        { htable, entry := none, removed := none }
      else
        let item := if dup_enabled then item.dupKey.dupData else item
        { htable := htable.fill idx hval item, entry := some item, removed := none }
    | _ => { htable, entry := none, removed := none }

/-- `HashTableSearchFunc` after the growth of the table. -/
def searchSlots (fuel : Nat) (htable : SearchTable) (item : SearchEntry)
    (action : Search_Action) (dup_enabled : Bool) : Option SearchResult :=
  (locate fuel htable item.measure).map (useSlot htable item.measure action dup_enabled)

/-- The test that enlarges the table before an entry is added. -/
def SearchTable.nearFull (htable : SearchTable) : Prop :=
  unsigned (htable.hsize * 9) < unsigned (htable.filled * 10)

instance (htable : SearchTable) : Decidable htable.nearFull :=
  inferInstanceAs (Decidable (_ < _))

/-- Adding a used slot of the old table to the new one. -/
def moveEntry (add : SearchTable → SearchEntry → Option SearchResult) (oldtable htable : SearchTable)
    (i : Nat) : Option SearchTable :=
  if (oldtable.slot i).used ≠ 0 then
    (add htable (oldtable.slot i).entry).map SearchResult.htable
  else
    some htable

/-- `dup_enabled` is off when a growing table takes its old entries over. -/
def HashTableSearchFunc (ckalloc : Ckalloc) : Nat → SearchTable → SearchEntry → Search_Action →
    Bool → Option SearchResult
  | 0, _, _, _, _ => none
  | fuel + 1, htable, item, action, dup_enabled =>
    if action = .Add ∧ htable.nearFull then
      match HashTableCreate fuel ckalloc (unsigned (htable.hsize * 2)) with
      | none => none
      | some none => some { htable, entry := none, removed := none }
      | some (some newtable) =>
        ((List.range' 1 htable.hsize).foldlM
          (moveEntry
            (fun t e => HashTableSearchFunc ckalloc fuel t e .Add false) htable)
          newtable).bind
          fun htable => searchSlots fuel htable item action dup_enabled
    else
      searchSlots fuel htable item action dup_enabled

def HashTableAdd (ckalloc : Ckalloc) (fuel : Nat) (htable : SearchTable) (item : SearchEntry) :
    Option SearchResult :=
  HashTableSearchFunc ckalloc fuel htable item .Add true

def HashTableSearch (ckalloc : Ckalloc) (fuel : Nat) (htable : SearchTable) (item : SearchEntry) :
    Option SearchResult :=
  HashTableSearchFunc ckalloc fuel htable item .Find false

def HashTableDelete (ckalloc : Ckalloc) (fuel : Nat) (htable : SearchTable) (item : SearchEntry) :
    Option SearchResult :=
  HashTableSearchFunc ckalloc fuel htable item .Delete false

end SourceNavigator.Parsers

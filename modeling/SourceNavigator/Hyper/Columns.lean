import Mathlib.Algebra.Ring.Int.Defs
import Mathlib.Algebra.Ring.Nat
import Mathlib.Data.List.Induction
import Mathlib.Data.List.Nodup
import SourceNavigator.Scanf
import SourceNavigator.Db.IncludeDirs

/-!
The columns of a record (`-columns` of `dbtclfetch` in `hyper/dbsym.c`).

A list of columns is gone through twice. The first loop puts the numbers of the columns into an
array and each format into an array that is indexed by the number of its column. The second goes
over the first array, as far as the record has fields, and takes the format of a column from the
other array: it tests the field, which may skip the record, and writes it to the record.

A record is the list of its fields. What writes an element of a list and what prints with a format
of the caller are parameters.

* `formats_eq` says which format a column has in the end, and `columnLoop_eq` what the second loop
  writes and when it skips the record.
-/

namespace SourceNavigator.Hyper.Columns

open Db.IncludeDirs

/-! ### Numbers in formats and fields -/

/-- What `strtoul` makes of a sign and a magnitude. -/
def unsignedLong (negative : Bool) (magnitude : Nat) : Nat :=
  if magnitude < 2 ^ 64 then if negative then (2 ^ 64 - magnitude) % 2 ^ 64 else magnitude
  else 2 ^ 64 - 1

/-- `strtoul(s, NULL, 0)` -/
def strtoul (s : Text) : Nat :=
  let magnitude := fun s => readDigits (announcedBase s).1 0 (announcedBase s).2
  match skipSpace s with
  | 45 :: s => unsignedLong true (magnitude s)
  | 43 :: s => unsignedLong false (magnitude s)
  | s => unsignedLong false (magnitude s)

/-- `%lu` -/
def scanULong (s : Text) : Option (Nat × Text) :=
  match skipSpace s with
  | 45 :: s => (scanNat s).map fun number => (unsignedLong true number.1, number.2)
  | 43 :: s => (scanNat s).map fun number => (unsignedLong false number.1, number.2)
  | s => (scanNat s).map fun number => (unsignedLong false number.1, number.2)

/-- `%d` into an `int` -/
def scanD (s : Text) : Option (Int × Text) :=
  (scanInt s).map fun number =>
    (int32 (max (-9223372036854775808) (min 9223372036854775807 number.1)), number.2)

/-- A conversion, ` %*c ` and the conversion once more; what is not read stays zero. -/
def scanTwo {α : Type} [Zero α] (scan : Text → Option (α × Text)) (s : Text) : α × α :=
  match scan s with
  | none => (0, 0)
  | some (first, s) =>
    match skipSpace s with
    | [] => (first, 0)
    | _ :: s => (first, ((scan s).map Prod.fst).getD 0)

/-- `strtol(s, NULL, 0)` in an `int` -/
def strtolInt (s : Text) : Int := int32 (strtol s)

/-! ### The list of columns -/

abbrev MAX_FORMAT_COLS : Nat := 256

/-- An element of the list: the number of a column, and a format if there is one. -/
structure ColumnSpec where
  column : Int
  format : Option Text

/-- The number as it is stored. -/
def clampColumn (column : Int) : Nat :=
  if (MAX_FORMAT_COLS : Int) ≤ column then MAX_FORMAT_COLS - 1
  else if column < 0 then 0
  else column.toNat

/-- What the loop over the list leaves. -/
structure Stored where
  columns : List Nat
  formats : Nat → Option Text

/-- The body of the loop over the list. -/
def storeColumn (st : Stored) (spec : ColumnSpec) : Stored where
  columns := st.columns ++ [clampColumn spec.column]
  formats :=
    match spec.format with
    | some f => fun c => if c = clampColumn spec.column then some f else st.formats c
    | none => st.formats

/-! ### A column of a record -/

/-- The cases of `switch (*f)`. -/
inductive Format
  | element
  | text (f : Text)
  | bar (f : Text)
  | directory (f : Text)
  | base (f : Text)
  | printed (f : Text)
  | justified (f : Text)
  | bits (f : Text)
  | range (f : Text)
  | equal (f : Text)
  | compare (f : Text)
  | less (f : Text)
  | greater (f : Text)

/-- `switch (*f)` with the format behind the first character, or all of it where it is used. -/
def switch : Text → Format
  | [] => .element
  | c :: f =>
    if c = 32 ∧ f = [] then .element
    else if c = 124 then .bar f
    else if c = 35 then .directory f
    else if c = 47 then .base f
    else if c = 37 then .printed (c :: f)
    else if c = 38 then .justified (37 :: f)
    else if c = 58 then .bits f
    else if c = 45 then .range f
    else if c = 61 then .equal f
    else if c = 43 then .compare f
    else if c = 60 then .less f
    else if c = 62 then .greater f
    else .text (c :: f)

/-- What writes an element of a list to a string, and what prints with a format. -/
structure Printing where
  Tcl_DStringAppendElement : Text → Text → Text
  sprintf : Text → Text → Text

section Code

variable (lib : Printing)

/-- The body of the loop for a field with its format, where `single` is `max_num == 1` and `more`
is `cou < max_num-1`: the record behind it, or `none` if it is skipped. -/
def columnItem (f : Option Text) (single more : Bool) (field record : Text) : Option Text :=
  let element := lib.Tcl_DStringAppendElement record field
  match f.map switch with
  | none => some (if single then record ++ field else element)
  | some .element => some element
  | some (.text f) => some (record ++ field ++ f)
  | some (.bar f) => some (element ++ f)
  | some (.directory f) =>
    let rest := if f = [] then [DB_FLDSEP_CHR] else f
    let record :=
      match file_lastroot field with
      | some (dir, name) => record ++ name ++ rest ++ dir
      | none => record ++ field ++ rest
    some (if more then record ++ rest.take 1 else record)
  | some (.base f) => some (record ++ bfn field ++ f)
  | some (.printed f) => some (record ++ lib.sprintf f field)
  | some (.justified f) => some (lib.sprintf f record ++ field)
  | some (.bits f) =>
    let (bits, low) := scanTwo scanULong f
    let bitv := strtoul field
    if bitv &&& low ≠ 0 ∧ bitv &&& bits = bits then some element else none
  | some (.range f) =>
    let (qry_val, max_val) := scanTwo scanD f
    let field_val := ((scanD field).map Prod.fst).getD 0
    if qry_val ≤ field_val ∧ field_val ≤ max_val then some element else none
  | some (.equal f) => if f = field then some element else none
  | some (.compare f) => if f = field then some record else none
  | some (.less f) => if strtolInt (60 :: f) > strtolInt field then some element else none
  | some (.greater f) => if strtolInt f < strtolInt field then some element else none

/-- The format only compares. -/
def compares (f : Option Text) : Bool :=
  match f.map switch with
  | some (.compare _) => true
  | _ => false

/-- A field that was written: the place in the list of columns, the column and the format. -/
structure Item where
  cou : Nat
  column : Nat
  format : Option Text

/-- The record that is written, and the items it is made of. -/
structure Selected where
  record : Text
  items : List Item

/-- The loop over `columns[cou]`; `none` if the record is skipped. -/
def columnLoop (formats : Nat → Option Text) (fields : List Text) (max_num : Nat) :
    List Nat → Nat → Selected → Option Selected
  | [], _, st => some st
  | target_field :: columns, cou, st =>
    if cou < max_num then
      match fields[target_field]? with
      | none => columnLoop formats fields max_num columns (cou + 1) st
      | some field =>
        let f := formats target_field
        match columnItem lib f (max_num == 1) (decide (cou < max_num - 1)) field st.record with
        | none => none
        | some record =>
          let item := if compares f then [] else [⟨cou, target_field, f⟩]
          columnLoop formats fields max_num columns (cou + 1) ⟨record, st.items ++ item⟩
    else some st

/-- What becomes of a record. -/
inductive Fetched
  | undefined
  | whole
  | skipped
  | selected (st : Selected)

/-- `dbtclfetch` with a list of columns, for a record with these fields. It is undefined if
`columns[]` is too short; without a column the record is returned as a whole. -/
def dbtclfetch (specs : List ColumnSpec) (fields : List Text) : Fetched :=
  if MAX_FORMAT_COLS < specs.length then .undefined
  else
    let stored := specs.foldl storeColumn ⟨[], fun _ => none⟩
    let col_num := specs.length
    let fld_num := fields.length
    if col_num = 0 then .whole
    else if fld_num = 0 then .skipped
    else
      let max_num := if col_num ≠ 0 ∧ col_num < fld_num then col_num else fld_num
      match columnLoop lib stored.formats fields max_num stored.columns 0 ⟨[], []⟩ with
      | none => .skipped
      | some st => .selected st

end Code

/-! ### What a list of columns asks for -/

/-- The field of a column, if the record has the column. -/
def ColumnSpec.field (spec : ColumnSpec) (fields : List Text) : Option Text :=
  if 0 ≤ spec.column then fields[spec.column.toNat]? else none

/-- A field passes the filter of a format, where `bound` is what `<` compares with. -/
def passes (bound : Text → Int) (f : Option Text) (field : Text) : Bool :=
  match f.map switch with
  | some (.bits f) =>
    let (bits, low) := scanTwo scanULong f
    decide (strtoul field &&& low ≠ 0 ∧ strtoul field &&& bits = bits)
  | some (.range f) =>
    let (qry_val, max_val) := scanTwo scanD f
    let field_val := ((scanD field).map Prod.fst).getD 0
    decide (qry_val ≤ field_val ∧ field_val ≤ max_val)
  | some (.equal f) => decide (f = field)
  | some (.compare f) => decide (f = field)
  | some (.less f) => decide (strtolInt field < bound f)
  | some (.greater f) => decide (strtolInt f < strtolInt field)
  | _ => true

/-- The record behind a field that is written with a format. -/
def render (lib : Printing) (f : Option Text) (single more : Bool) (field record : Text) : Text :=
  match f.map switch with
  | none => if single then record ++ field else lib.Tcl_DStringAppendElement record field
  | some (.text f) => record ++ field ++ f
  | some (.bar f) => lib.Tcl_DStringAppendElement record field ++ f
  | some (.directory f) =>
    let rest := if f = [] then [DB_FLDSEP_CHR] else f
    let name := bfn field
    let behind := ((file_lastroot field).map fun parts => rest ++ parts.1).getD rest
    record ++ name ++ behind ++ if more then rest.take 1 else []
  | some (.base f) => record ++ bfn field ++ f
  | some (.printed f) => record ++ lib.sprintf f field
  | some (.justified f) => lib.sprintf f record ++ field
  | some (.compare _) => record
  | _ => lib.Tcl_DStringAppendElement record field

/-- Every filter whose column exists holds. -/
def AllHold (specs : List ColumnSpec) (fields : List Text) : Prop :=
  ∀ spec ∈ specs, ∀ field, spec.field fields = some field →
    passes strtolInt spec.format field = true

/-- The item of an element of the list: its column exists, and it does not only compare. -/
def itemOf (fields : List Text) (e : ColumnSpec × Nat) : Option Item :=
  if (e.1.field fields).isSome = true ∧ compares e.1.format = false then
    some ⟨e.2, e.1.column.toNat, e.1.format⟩
  else none

/-- The items of a list, in its order. -/
def itemsOf (specs : List ColumnSpec) (fields : List Text) : List Item :=
  specs.zipIdx.filterMap (itemOf fields)

/-- The items written one behind the other. Whether a single field is written as an element, and
whether a separator follows a directory, depends on the number of columns that are gone through. -/
def rendered (lib : Printing) (max_num : Nat) (fields : List Text) (items : List Item)
    (record : Text) : Text :=
  items.foldl (fun record item =>
    render lib item.format (max_num == 1) (decide (item.cou < max_num - 1))
      (fields.getD item.column []) record) record

/-- A record is returned exactly if the filters hold, and then with the items of the list. -/
def ColumnsHold (lib : Printing) (specs : List ColumnSpec) (fields : List Text) : Prop :=
  match dbtclfetch lib specs fields with
  | .undefined => False
  | .whole => AllHold specs fields ∧ itemsOf specs fields = []
  | .skipped => ¬ AllHold specs fields
  | .selected st =>
    AllHold specs fields ∧ st.items = itemsOf specs fields ∧
      st.record =
        rendered lib (min specs.length fields.length) fields (itemsOf specs fields) []

/-! ### Both arrays -/

/-- The last format that the list has for a column. -/
def lastFormat (specs : List ColumnSpec) (c : Nat) : Option Text :=
  specs.reverse.findSome? fun spec =>
    if clampColumn spec.column = c then spec.format else none

section Arrays

variable {specs : List ColumnSpec} {c : Nat}

theorem columns_eq (specs : List ColumnSpec) (st : Stored) :
    (specs.foldl storeColumn st).columns =
      st.columns ++ specs.map fun spec => clampColumn spec.column := by
  induction specs generalizing st with
  | nil => simp
  | cons spec specs ih =>
    rw [List.foldl_cons, ih, storeColumn, List.map_cons, List.append_assoc]
    rfl

theorem formats_storeColumn (st : Stored) (spec : ColumnSpec) :
    (storeColumn st spec).formats c =
      (if clampColumn spec.column = c then spec.format else none).or (st.formats c) := by
  unfold storeColumn
  by_cases same : clampColumn spec.column = c
  · cases spec.format <;> simp [same]
  · cases spec.format <;> simp [same, Ne.symm same]

/-- A column has the last format of the list. -/
theorem formats_eq (specs : List ColumnSpec) (columns : List Nat) :
    (specs.foldl storeColumn ⟨columns, fun _ => none⟩).formats = lastFormat specs := by
  induction specs using List.reverseRecOn with
  | nil => rfl
  | append_singleton specs spec ih =>
    funext c
    rw [List.foldl_append, List.foldl_cons, List.foldl_nil, formats_storeColumn, ih]
    unfold lastFormat
    rw [List.reverse_append, List.reverse_singleton, List.singleton_append, List.findSome?_cons]
    cases (if clampColumn spec.column = c then spec.format else none) <;> rfl

end Arrays

/-! ### The loop over the record -/

section Loop

variable {lib : Printing} {f : Option Text} {single more : Bool} {field record : Text}
  {formats : Nat → Option Text} {fields : List Text} {max_num : Nat}

/-- The number of `<` is read from the `<` on, so it is always zero. -/
theorem strtolInt_less (f : Text) : strtolInt (60 :: f) = 0 := by
  have no_space : skipSpace (60 :: f) = 60 :: f := List.dropWhile_cons_of_neg (by decide)
  have no_base : announcedBase (60 :: f) = (10, 60 :: f) := rfl
  have no_digit : readDigits 10 0 (60 :: f) = 0 := rfl
  rw [strtolInt, strtol, no_space]
  change int32 (min 9223372036854775807 (readDigits (announcedBase (60 :: f)).1 0 _)) = 0
  rw [no_base, no_digit]
  decide

/-- A field with its format: it is tested, and then it is written. -/
theorem columnItem_eq : columnItem lib f single more field record =
    if passes (fun _ => 0) f field = true then some (render lib f single more field record)
    else none := by
  unfold columnItem passes render
  cases f.map switch with
  | none => rfl
  | some case =>
    cases case with
    | directory f =>
      simp only [if_true, bfn]
      cases file_lastroot field <;> cases more <;> simp
    | less f => simp [strtolInt_less]
    | _ => simp

theorem render_compares (only : compares f = true) :
    render lib f single more field record = record := by
  unfold compares at only
  unfold render
  split at only
  next eq => rw [eq]
  next => cases only

/-- The filters that the loop tests. -/
def loopTests (formats : Nat → Option Text) (fields : List Text) (max_num : Nat)
    (e : Nat × Nat) : Bool :=
  decide (max_num ≤ e.2) ||
    fields[e.1]?.all fun field => passes (fun _ => 0) (formats e.1) field

/-- The item that the loop writes. -/
def loopItem (formats : Nat → Option Text) (fields : List Text) (max_num : Nat)
    (e : Nat × Nat) : Option Item :=
  if e.2 < max_num ∧ e.1 < fields.length ∧ compares (formats e.1) = false then
    some ⟨e.2, e.1, formats e.1⟩
  else none

/-- What is behind `max_num` is neither tested nor written. -/
theorem behind_max_num {columns : List Nat} {cou : Nat} (behind : max_num ≤ cou) :
    (columns.zipIdx cou).all (loopTests formats fields max_num) = true ∧
      (columns.zipIdx cou).filterMap (loopItem formats fields max_num) = [] := by
  have later : ∀ e ∈ columns.zipIdx cou, max_num ≤ e.2 := fun e mem =>
    behind.trans (List.le_snd_of_mem_zipIdx mem)
  constructor
  · rw [List.all_eq_true]
    intro e mem
    simp [loopTests, later e mem]
  · rw [List.filterMap_eq_nil_iff]
    intro e mem
    rw [loopItem, if_neg fun inside => absurd inside.1 (Nat.not_lt.mpr (later e mem))]

/-- The loop skips the record if a filter it tests does not hold, and else writes its items. -/
theorem columnLoop_eq (columns : List Nat) (cou : Nat) (st : Selected) :
    columnLoop lib formats fields max_num columns cou st =
      if (columns.zipIdx cou).all (loopTests formats fields max_num) = true then
        some {
          record := rendered lib max_num fields
            ((columns.zipIdx cou).filterMap (loopItem formats fields max_num)) st.record
          items := st.items ++ (columns.zipIdx cou).filterMap (loopItem formats fields max_num) }
      else none := by
  induction columns generalizing cou st with
  | nil => simp [columnLoop, rendered]
  | cons target_field columns ih =>
    by_cases inside : cou < max_num
    · rw [columnLoop, if_pos inside, List.zipIdx_cons, List.all_cons, List.filterMap_cons]
      cases has : fields[target_field]? with
      | none =>
        have no_field : ¬ target_field < fields.length :=
          Nat.not_lt.mpr (List.getElem?_eq_none_iff.mp has)
        have no_item : loopItem formats fields max_num (target_field, cou) = none := by
          simp [loopItem, no_field]
        have no_test : loopTests formats fields max_num (target_field, cou) = true := by
          simp [loopTests, has]
        rw [no_item, no_test, Bool.true_and]
        exact ih (cou + 1) st
      | some field =>
        have in_record : target_field < fields.length := (List.getElem?_eq_some_iff.mp has).1
        have test : loopTests formats fields max_num (target_field, cou) =
            passes (fun _ => 0) (formats target_field) field := by
          simp [loopTests, has, inside]
        rw [test]
        dsimp only
        rw [columnItem_eq]
        by_cases holds : passes (fun _ => 0) (formats target_field) field = true
        · rw [if_pos holds, holds, Bool.true_and]
          dsimp only
          rw [ih]
          by_cases only : compares (formats target_field) = true
          · have no_item : loopItem formats fields max_num (target_field, cou) = none := by
              simp [loopItem, only]
            rw [if_pos only, no_item, render_compares only, List.append_nil]
          · have item : loopItem formats fields max_num (target_field, cou) =
                some ⟨cou, target_field, formats target_field⟩ := by
              simp [loopItem, inside, in_record, only]
            have value : fields.getD target_field [] = field := by
              rw [List.getD_eq_getElem?_getD, has]
              rfl
            rw [if_neg only, item]
            simp only [rendered, List.foldl_cons, value, List.append_assoc,
              List.singleton_append]
        · rw [if_neg holds, Bool.eq_false_iff.mpr holds, Bool.false_and]
          rfl
    · obtain ⟨none_tested, none_written⟩ := @behind_max_num formats fields max_num
        (target_field :: columns) cou (Nat.not_lt.mp inside)
      rw [columnLoop, if_neg inside, none_tested, if_pos rfl, none_written, List.append_nil]
      rfl

end Loop

/-! ### The loop and the list -/

section Items

variable {α β γ : Type} {idx : α → γ} {pos : β → γ} {f g : α → Option β} {l : List α}

/-- Two selections that keep the places of their elements are the same only if they are the same
for each element. -/
theorem filterMap_eq_iff (keeps : ∀ a b, f a = some b → pos b = idx a)
    (keeps' : ∀ a b, g a = some b → pos b = idx a) (distinct : (l.map idx).Nodup) :
    l.filterMap f = l.filterMap g ↔ ∀ a ∈ l, f a = g a := by
  refine ⟨fun same => ?_, fun each => List.filterMap_congr each⟩
  induction l with
  | nil => exact fun a mem => absurd mem List.not_mem_nil
  | cons a l ih =>
    rw [List.map_cons, List.nodup_cons] at distinct
    -- the place of the first element does not come back
    have later : ∀ h : α → Option β, (∀ a b, h a = some b → pos b = idx a) →
        ∀ b ∈ l.filterMap h, pos b ≠ idx a := by
      intro h keeps b mem place
      obtain ⟨a', inside, value⟩ := List.mem_filterMap.mp mem
      exact distinct.1 (List.mem_map.mpr ⟨a', inside, (keeps a' b value).symm.trans place⟩)
    have first : f a = g a := by
      rw [List.filterMap_cons, List.filterMap_cons] at same
      cases value : f a with
      | none =>
        cases value' : g a with
        | none => rfl
        | some b =>
          rw [value, value'] at same
          dsimp only at same
          exact absurd (keeps' a b value')
            (later f keeps b (by rw [same]; exact List.mem_cons_self))
      | some b =>
        cases value' : g a with
        | none =>
          rw [value, value'] at same
          dsimp only at same
          exact absurd (keeps a b value)
            (later g keeps' b (by rw [← same]; exact List.mem_cons_self))
        | some b' =>
          rw [value, value'] at same
          rw [(List.cons.inj same).1]
    have rest : l.filterMap f = l.filterMap g := by
      rw [List.filterMap_cons, List.filterMap_cons, first] at same
      cases value : g a with
      | none =>
        rw [value] at same
        exact same
      | some b =>
        rw [value] at same
        exact (List.cons.inj same).2
    intro a' mem
    rcases List.mem_cons.mp mem with rfl | mem
    · exact first
    · exact ih distinct.2 rest a' mem

end Items

/-- The filters that are tested: those of the elements that are gone through, whose columns are
in the record as they are stored, each with the last format of its column and zero for the number
of `<`. -/
def Tested (specs : List ColumnSpec) (fields : List Text) : Prop :=
  ∀ e ∈ specs.zipIdx, e.2 < fields.length → ∀ field,
    fields[clampColumn e.1.column]? = some field →
      passes (fun _ => 0) (lastFormat specs (clampColumn e.1.column)) field = true

/-- Every element of the list that has an item is gone through, with its own column and its own
format, and the others are not written with those of another one. -/
def AsAsked (specs : List ColumnSpec) (fields : List Text) : Prop :=
  ∀ e ∈ specs.zipIdx,
    if (e.1.field fields).isSome = true ∧ compares e.1.format = false then
      e.2 < fields.length ∧ e.1.column < MAX_FORMAT_COLS ∧
        lastFormat specs e.1.column.toNat = e.1.format
    else
      e.2 < fields.length → clampColumn e.1.column < fields.length →
        compares (lastFormat specs (clampColumn e.1.column)) = true

section List

variable {lib : Printing} {specs : List ColumnSpec} {fields : List Text}

theorem lt_min_iff {e : ColumnSpec × Nat} (mem : e ∈ specs.zipIdx) :
    e.2 < min specs.length fields.length ↔ e.2 < fields.length := by
  have inside : e.2 < specs.length := by
    have place := List.snd_lt_add_of_mem_zipIdx mem
    omega
  omega

theorem tested_iff :
    (specs.zipIdx.all fun e =>
        loopTests (lastFormat specs) fields (min specs.length fields.length)
          (clampColumn e.1.column, e.2)) = true ↔ Tested specs fields := by
  rw [List.all_eq_true]
  refine forall₂_congr fun e mem => ?_
  unfold loopTests
  rw [Bool.or_eq_true, decide_eq_true_iff, ← Nat.not_lt, lt_min_iff mem, ← imp_iff_not_or]
  refine imp_congr_right fun _ => ?_
  cases fields[clampColumn e.1.column]? <;> simp

theorem field_isSome {spec : ColumnSpec} :
    (spec.field fields).isSome = true ↔ 0 ≤ spec.column ∧ spec.column.toNat < fields.length := by
  unfold ColumnSpec.field
  by_cases natural : 0 ≤ spec.column
  · simp [natural]
  · simp [natural]

theorem clampColumn_eq_iff {column : Int} (natural : 0 ≤ column) :
    clampColumn column = column.toNat ↔ column < MAX_FORMAT_COLS := by
  unfold clampColumn MAX_FORMAT_COLS
  split
  · omega
  · split <;> omega

theorem asAsked_iff :
    (∀ e ∈ specs.zipIdx,
        loopItem (lastFormat specs) fields (min specs.length fields.length)
          (clampColumn e.1.column, e.2) = itemOf fields e) ↔ AsAsked specs fields := by
  refine forall₂_congr fun e mem => ?_
  have written : loopItem (lastFormat specs) fields (min specs.length fields.length)
      (clampColumn e.1.column, e.2) =
      if e.2 < fields.length ∧ clampColumn e.1.column < fields.length ∧
          compares (lastFormat specs (clampColumn e.1.column)) = false then
        some ⟨e.2, clampColumn e.1.column, lastFormat specs (clampColumn e.1.column)⟩
      else none := if_congr (and_congr_left' (lt_min_iff mem)) rfl rfl
  rw [written, itemOf]
  by_cases item : (e.1.field fields).isSome = true ∧ compares e.1.format = false
  · obtain ⟨natural, in_record⟩ := field_isSome.mp item.1
    rw [if_pos item, if_pos item]
    constructor
    · intro same
      split at same
      next gone =>
        obtain ⟨-, column, format⟩ := Item.mk.inj (Option.some.inj same)
        rw [column] at format
        exact ⟨gone.1, (clampColumn_eq_iff natural).mp column, format⟩
      next => cases same
    · rintro ⟨gone, low, format⟩
      have column := (clampColumn_eq_iff natural).mpr low
      rw [column, format, if_pos ⟨gone, in_record, item.2⟩]
  · rw [if_neg item, if_neg item]
    constructor
    · intro nothing gone in_record
      by_contra writes
      rw [if_pos ⟨gone, in_record, Bool.eq_false_iff.mpr writes⟩] at nothing
      cases nothing
    · intro only
      rw [if_neg]
      rintro ⟨gone, in_record, writes⟩
      rw [only gone in_record] at writes
      cases writes

/-- What becomes of a record that has a field, with a list that has an element. -/
theorem dbtclfetch_eq (short : specs.length ≤ MAX_FORMAT_COLS) (some_spec : specs ≠ [])
    (some_field : fields ≠ []) :
    let items := specs.zipIdx.filterMap fun e =>
      loopItem (lastFormat specs) fields (min specs.length fields.length)
        (clampColumn e.1.column, e.2)
    (Tested specs fields → dbtclfetch lib specs fields =
        .selected ⟨rendered lib (min specs.length fields.length) fields items [], items⟩) ∧
      (¬ Tested specs fields → dbtclfetch lib specs fields = .skipped) := by
  have no_spec : specs.length ≠ 0 := fun none => some_spec (List.length_eq_zero_iff.mp none)
  have no_field : fields.length ≠ 0 := fun none => some_field (List.length_eq_zero_iff.mp none)
  have least : (if specs.length ≠ 0 ∧ specs.length < fields.length then specs.length
      else fields.length) = min specs.length fields.length := by
    split <;> omega
  intro items
  have loop : columnLoop lib (lastFormat specs) fields (min specs.length fields.length)
      (specs.map fun spec => clampColumn spec.column) 0 ⟨[], []⟩ =
      if (specs.zipIdx.all fun e =>
          loopTests (lastFormat specs) fields (min specs.length fields.length)
            (clampColumn e.1.column, e.2)) = true then
        some ⟨rendered lib (min specs.length fields.length) fields items [], items⟩
      else none := by
    rw [columnLoop_eq, List.zipIdx_map, List.all_map, List.filterMap_map]
    rfl
  unfold dbtclfetch
  rw [if_neg (Nat.not_lt.mpr short)]
  dsimp only
  rw [if_neg no_spec, if_neg no_field, least, formats_eq, columns_eq, List.nil_append, loop]
  constructor
  · intro tested
    rw [if_pos (tested_iff.mpr tested)]
  · intro untested
    rw [if_neg fun tests => untested (tested_iff.mp tests)]

end List

/-- The items of the loop are those of the list if it is read as it asks. -/
theorem items_eq_iff {specs : List ColumnSpec} {fields : List Text} :
    (specs.zipIdx.filterMap fun e =>
        loopItem (lastFormat specs) fields (min specs.length fields.length)
          (clampColumn e.1.column, e.2)) = itemsOf specs fields ↔ AsAsked specs fields := by
  have keeps : ∀ (e : ColumnSpec × Nat) (item : Item),
      loopItem (lastFormat specs) fields (min specs.length fields.length)
        (clampColumn e.1.column, e.2) = some item → item.cou = e.2 := by
    intro e item written
    unfold loopItem at written
    split at written
    next => rw [← Option.some.inj written]
    next => cases written
  have keeps' : ∀ (e : ColumnSpec × Nat) (item : Item),
      itemOf fields e = some item → item.cou = e.2 := by
    intro e item asked
    unfold itemOf at asked
    split at asked
    next => rw [← Option.some.inj asked]
    next => cases asked
  have distinct : (specs.zipIdx.map Prod.snd).Nodup := by
    rw [List.zipIdx_map_snd]
    exact List.nodup_range'
  rw [itemsOf, filterMap_eq_iff keeps keeps' distinct, asAsked_iff]

/-- Words that need no quotes, and the format `%s`. -/
def plainPrinting : Printing where
  Tcl_DStringAppendElement record field := if record = [] then field else record ++ 32 :: field
  sprintf _ field := field

end SourceNavigator.Hyper.Columns

import Mathlib.Data.List.Infix
import SourceNavigator.Tcl.GetInt
import SourceNavigator.Tcl.ListText

/-!
The filter of cross-reference lists (`cross_services` in `hyper/services.c`).

The records of a list are read one after the other into a line buffer. Those that pass are put out
one record late, because duplicates of a record add their access letters to its element. The
letters are collected in a buffer of 16 bytes.

* `lines_eq` separates the line buffer from what is done with the records.
* `records_filter` leaves out the records that the filters for scopes and access hold back.
-/

namespace SourceNavigator.Hyper.Cross

open Tcl (Tcl_SplitList TclFindElement Tcl_GetInt length_next)

/-! ### Records -/

abbrev DB_SYM2 : Nat := 0
abbrev DB_CLS2 : Nat := 1
abbrev DB_SCP2 : Nat := 2
abbrev DB_PRM2 : Nat := 3
abbrev DB_REFA : Nat := 4
abbrev DB_FILE : Nat := 5
abbrev DB_LINE : Nat := 6
abbrev DB_COUNT : Nat := 8

abbrev PAF_STATIC : UInt32 := 0x000008

/-- The fields of a record. -/
structure Record where
  fields : List Text
  complete : fields.length = DB_COUNT
  deriving DecidableEq

def Record.field (r : Record) (pos : Nat) : Text := r.fields.getD pos []

def Record.refa (r : Record) : Text := r.field DB_REFA

/-- The record in an element of the list; `none` is one that is skipped. -/
def Record.read (element : Text) : Option Record :=
  match Tcl_SplitList element with
  | none => none
  | some lfields => if complete : lfields.length = DB_COUNT then some ⟨lfields, complete⟩ else none

/-- The fields of the line up to `flags_pos`. -/
def Record.line (r : Record) : List Text :=
  [r.field DB_SYM2, r.field DB_CLS2, r.field DB_SCP2, r.field DB_PRM2, [], r.field DB_FILE,
    r.field DB_LINE, [], [], [], []]

theorem src_ne_nil {list : Text} {f : Tcl.Found} (found : TclFindElement list = some f)
    (some_element : f.element ≠ []) : f.src ≠ [] := by
  unfold TclFindElement at found
  split at found
  · cases found
    exact absurd rfl some_element
  · obtain ⟨⟨raw, rest⟩, scanned, rfl⟩ := Option.map_eq_some_iff.mp found
    have inside := Tcl.length_scanElement scanned
    dsimp only at some_element inside ⊢
    have some_raw := List.length_pos_iff.mpr some_element
    exact List.length_pos_iff.mp (by omega)

/-- The elements of the list as they stand there, up to an empty one or an error. -/
def elements (contents : Text) : List Text :=
  match _found : TclFindElement contents with
  | none => []
  | some f => if _size : f.element = [] then [] else f.element :: elements f.next
termination_by contents.length
decreasing_by exact length_next _found (src_ne_nil _found _size)

/-! ### The filter -/

inductive RefTypes
  | REF_TO
  | REF_BY
  deriving DecidableEq

/-- The arguments; the file is that of the line, which is read if static symbols are tested. -/
structure Options where
  refart : RefTypes
  file : Text
  uniq : Bool
  have_refs : Bool
  accept_param : Bool
  accept_static : Bool
  shown_scopes : Text
  ref_access : Text

def cross_is_type_with_classes (scope : Text) : Bool :=
  [ascii "md", ascii "mi", ascii "iv", ascii "fr"].contains scope

/-- The record passes the filters for scopes and access. -/
def Options.shows (o : Options) (r : Record) : Bool :=
  (o.shown_scopes == [] || decide (r.field DB_SCP2 <:+: o.shown_scopes)) &&
    (o.ref_access == [] || decide (r.refa <:+: o.ref_access))

/-- The symbols are the same. -/
def Options.same (o : Options) (r r' : Record) : Bool :=
  r.field DB_CLS2 == r'.field DB_CLS2 && r.field DB_SYM2 == r'.field DB_SYM2 &&
    r.field DB_SCP2 == r'.field DB_SCP2 &&
    (!o.accept_param || r.field DB_PRM2 == r'.field DB_PRM2)

/-- The static filter holds the record back. -/
def Options.drops (o : Options) (r : Record) : Bool :=
  o.accept_static && o.refart == .REF_TO && r.refa != [] &&
    !cross_is_type_with_classes (r.field DB_SCP2) &&
    match Tcl_GetInt r.refa with
    | some attr => UInt32.ofInt attr &&& PAF_STATIC == 0 || r.field DB_FILE != o.file
    | none => false

/-- The state between two records: whether there is an element in `res`, its access letters, the
record it is from, and the list so far. -/
structure State where
  AddRefArt : Bool
  AddRefartStr : Text
  res : List Text
  oldfields : Option Record
  erg : List (List Text)

/-- How the loop goes on; an overflow is a write behind `AddRefartStr`. -/
inductive Turn
  | next (st : State)
  | last (st : State)
  | overflow

/-- The loop body behind the line buffer. -/
def Options.turn (o : Options) (st : State) (lfields : Record) : Turn :=
  if !o.shows lfields then .next st
  else if o.uniq && st.oldfields.any (o.same · lfields) then
    if st.AddRefartStr == [] || lfields.refa.head?.any (!st.AddRefartStr.contains ·) then
      if 16 ≤ st.AddRefartStr.length + lfields.refa.length then .overflow
      else .next { st with AddRefartStr := st.AddRefartStr ++ lfields.refa }
    else .next st
  else if o.drops lfields then .next st
  else if o.have_refs then .last { st with erg := st.erg ++ [[ascii "yes"]] }
  else if 16 ≤ lfields.refa.length then .overflow
  else
    .next {
      AddRefArt := true
      AddRefartStr := lfields.refa
      res := lfields.line
      oldfields := some lfields
      erg := if st.AddRefArt then st.erg ++ [st.res ++ [st.AddRefartStr]] else st.erg }

/-- The loop, with the size of `tmpline`; `none` is a write behind a buffer. -/
def Options.lines (o : Options) : Nat → State → List Text → Option State
  | _, st, [] => some st
  | tmpline_size, st, element :: q =>
    let size := element.length
    let tmpline_size := if tmpline_size < size then tmpline_size + size else tmpline_size
    if tmpline_size ≤ size then none
    else
      match Record.read element with
      | none => o.lines tmpline_size st q
      | some lfields =>
        match o.turn st lfields with
        | .next st => o.lines tmpline_size st q
        | .last st => some st
        | .overflow => none

/-- The list with the element that waits. -/
def State.result (st : State) : List (List Text) :=
  if st.AddRefArt then st.erg ++ [st.res ++ [st.AddRefartStr]] else st.erg

/-- `cross_services` with the command `filter`. -/
def cross_services_filter (o : Options) (contents : Text) : Option (List (List Text)) :=
  (o.lines 512 ⟨false, [], [], none, []⟩ (elements contents)).map State.result

/-! ### The line buffer -/

/-- No element is as long as the buffer is when it is copied. -/
def LineFits : Nat → List Nat → Prop
  | _, [] => True
  | tmpline_size, size :: sizes =>
    size ≠ tmpline_size ∧
      LineFits (if tmpline_size < size then tmpline_size + size else tmpline_size) sizes

instance LineFits.decidable : ∀ tmpline_size sizes, Decidable (LineFits tmpline_size sizes)
  | _, [] => .isTrue trivial
  | tmpline_size, size :: sizes =>
    let _ := LineFits.decidable (if tmpline_size < size then tmpline_size + size else tmpline_size) sizes
    inferInstanceAs (Decidable (_ ∧ _))

/-- The loop without the line buffer. -/
def Options.records (o : Options) : State → List Record → Option State
  | st, [] => some st
  | st, r :: rs =>
    match o.turn st r with
    | .next st => o.records st rs
    | .last st => some st
    | .overflow => none

section Lines

variable {o : Options} {st : State} {r : Record} {rs : List Record} {tmpline_size : Nat}

theorem turn_ne_last (have_off : o.have_refs = false) (st' : State) : o.turn st r ≠ .last st' := by
  rw [Options.turn, have_off]
  simp only [Bool.false_eq_true, if_false]
  repeat' split
  all_goals exact Turn.noConfusion

/-- A line that is not as long as the buffer has room, where the buffer grows for a longer one. -/
theorem room_iff {size : Nat} (room : 0 < tmpline_size) :
    (if tmpline_size < size then tmpline_size + size else tmpline_size) ≤ size ↔
      size = tmpline_size := by
  split
  case isTrue longer => omega
  case isFalse fits => omega

theorem lines_eq (have_off : o.have_refs = false) (room : 0 < tmpline_size) (q : List Text) :
    o.lines tmpline_size st q =
      if LineFits tmpline_size (q.map List.length) then o.records st (q.filterMap Record.read)
      else none := by
  induction q generalizing tmpline_size st with
  | nil => exact (if_pos trivial).symm
  | cons element q ih =>
    have room' : 0 < if tmpline_size < element.length then tmpline_size + element.length
        else tmpline_size := by
      split
      case isTrue longer => exact Nat.add_pos_left room _
      case isFalse fits => exact room
    simp only [Options.lines, room_iff room, List.map_cons, LineFits]
    by_cases full : element.length = tmpline_size
    · rw [if_pos full, if_neg fun both => both.1 full]
    · rw [if_neg full]
      simp only [ne_eq, full, not_false_eq_true, true_and]
      cases read : Record.read element with
      | none => rw [List.filterMap_cons_none read, ih room']
      | some lfields =>
        rw [List.filterMap_cons_some read, Options.records]
        dsimp only
        cases turn : o.turn st lfields with
        | next st' => exact ih room'
        | last st' => exact absurd turn (turn_ne_last have_off st')
        | overflow => exact (ite_self none).symm

/-- Records that are not shown leave the state. -/
theorem records_filter : o.records st rs = o.records st (rs.filter o.shows) := by
  induction rs generalizing st with
  | nil => rfl
  | cons r rs ih =>
    cases shown : o.shows r with
    | true =>
      rw [List.filter_cons_of_pos shown, Options.records, Options.records]
      cases o.turn st r with
      | next st' => exact ih
      | last st' => rfl
      | overflow => rfl
    | false =>
      have stays : o.turn st r = .next st := by
        rw [Options.turn, shown]
        rfl
      rw [List.filter_cons_of_neg (by simp [shown]), Options.records, stays]
      exact ih

end Lines

end SourceNavigator.Hyper.Cross

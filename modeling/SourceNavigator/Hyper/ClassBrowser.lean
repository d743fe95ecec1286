import SourceNavigator.Db.ClassTree
import SourceNavigator.Tcl.ListText
import SourceNavigator.Tcl.GetInt

/-!
The member list of the class browser (`class_browser_insert` in `hyper/services.c`).

An element of the list is looked at together with the elements before and behind it, so the loop
keeps three of them and is one element ahead. An extra turn at the end looks at the last one. What
an element without all fields leaves is the window as it was.

* `loop_eq_foldl` separates what is looked at from what is done with it.
-/

namespace SourceNavigator.Hyper.ClassBrowser

open Tcl (Tcl_SplitList Tcl_GetInt)

/-! ### Members -/

abbrev MEMBER_POS : Nat := 0
abbrev PARAM_POS : Nat := 1
abbrev TYPE_POS : Nat := 3
abbrev CLASS_POS : Nat := 4
abbrev FILENAME_POS : Nat := 5
abbrev FILEPOS_POS : Nat := 6
abbrev ATTR_POS : Nat := 7
abbrev LIST_CNT : Nat := 8

abbrev PAF_PRIVATE : UInt32 := 0x000001
abbrev PAF_PROTECTED : UInt32 := 0x000002
abbrev PAF_PUBLIC : UInt32 := 0x000004
abbrev PAF_STATIC : UInt32 := 0x000008
abbrev PAF_VIRTUAL : UInt32 := 0x001000
abbrev PAF_INLINE : UInt32 := 0x002000
abbrev PAF_PUREVIRTUAL : UInt32 := 0x008000 ||| PAF_VIRTUAL
abbrev PAF_STRUCT_DEF : UInt32 := 0x010000
abbrev PAF_OVERRIDE : UInt32 := 0x20000
abbrev PAF_OVERLOADED : UInt32 := 0x40000

abbrev OVERRIDE : UInt8 := 43
abbrev OVERRIDDEN : UInt8 := 45
abbrev PARENTHESIS : UInt8 := 40
abbrev TAB : UInt8 := 9

/-- The fields of an element that has all of them. -/
structure Member where
  fields : List Text
  enough : LIST_CNT ≤ fields.length
  deriving DecidableEq

def Member.field (m : Member) (pos : Nat) : Text := m.fields.getD pos []

/-- An element of the list; `none` is one that is ignored. -/
def Member.read (element : Text) : Option Member :=
  match Tcl_SplitList element with
  | none => none
  | some flds => if enough : LIST_CNT ≤ flds.length then some ⟨flds, enough⟩ else none

/-- A member that is looked at, `actu_flds`, with its neighbours. -/
structure View where
  prev : Option Member
  actu : Member
  next : Option Member
  deriving DecidableEq

/-! ### The loop -/

/-- `prev_flds`, `actu_flds` and `next_flds`. -/
structure Window where
  prev : Option Member
  actu : Option Member
  next : Option Member

def Window.shift (w : Window) (next : Option Member) : Window := ⟨w.actu, w.next, next⟩

def Window.view (w : Window) : Option View := w.actu.map fun actu => ⟨w.prev, actu, w.next⟩

/-- The window with an element, and what is looked at then. -/
def step (w : Window) (element : Text) : Window × Option View :=
  match Member.read element with
  | none => (w, none)
  | some flds =>
    if w.actu.isNone then ({ w with actu := some flds }, none)
    else
      let w := if w.next.isNone then { w with next := some flds } else w.shift (some flds)
      (w, w.view)

section Loop

variable {S : Type} (body : View → S → S)

/-- The loop, where `j` counts the turns and the last turn is an extra one. -/
def loop : Window → Nat → List Text → S → S
  | w, j, [], s =>
    let w := if 1 < j then w.shift none else w
    w.view.elim s fun v => body v s
  | w, j, element :: objlist, s =>
    loop (step w element).1 (j + 1) objlist ((step w element).2.elim s fun v => body v s)

end Loop

/-- What the rest of the loop looks at, in order. -/
def seenBy (w : Window) (j : Nat) (objlist : List Text) : List View :=
  loop (fun v seen => seen ++ [v]) w j objlist []

/-- What the loop looks at. -/
def considered (objlist : List Text) : List View := seenBy ⟨none, none, none⟩ 0 objlist

/-! ### Filters and lines -/

/-- The arguments with the settings. -/
structure Options where
  viewed_classes : Text → Option Text
  overridden : Int
  filter : UInt32
  public_font : Text
  protected_font : Text
  private_font : Text
  browsed_class : Text
  flags_and : Int

/-- `CLASS` -/
def Options.classOf (o : Options) (m : Member) : Text :=
  if m.field CLASS_POS = [] then o.browsed_class else m.field CLASS_POS

/-- The class is selected. -/
def Options.selected (o : Options) (m : Member) : Bool :=
  match o.viewed_classes (o.classOf m) with
  | some p => Db.atoi p != 0
  | none => true

def Options.filter1 (o : Options) : UInt32 := o.filter &&& ~~~(PAF_OVERRIDE ||| PAF_OVERLOADED)

/-- The test of the member types. -/
def Options.typeSelected (o : Options) (attr : UInt32) : Bool :=
  if o.filter1 = 0 then true
  else if o.flags_and ≠ 0 then o.filter1 &&& attr = o.filter1
  else
    (o.filter1 &&& PAF_STATIC ≠ 0 ∧ attr &&& PAF_STATIC ≠ 0) ∨
    (o.filter1 &&& PAF_STRUCT_DEF ≠ 0 ∧ attr &&& PAF_STRUCT_DEF ≠ 0) ∨
    (o.filter1 &&& PAF_INLINE ≠ 0 ∧ attr &&& PAF_INLINE ≠ 0) ∨
    (o.filter1 &&& PAF_VIRTUAL ≠ 0 ∧ attr &&& PAF_VIRTUAL ≠ 0) ∨
    (o.filter1 &&& PAF_PUREVIRTUAL = PAF_PUREVIRTUAL ∧ attr &&& PAF_PUREVIRTUAL = PAF_PUREVIRTUAL)

def sameName (m other : Member) : Bool := other.field MEMBER_POS == m.field MEMBER_POS

/-- A neighbour has the name. -/
def View.overloaded (v : View) : Bool := v.prev.any (sameName v.actu) || v.next.any (sameName v.actu)

/-- The same name and parameters in different classes. -/
def Options.sameInOtherClass (o : Options) (m other : Member) : Bool :=
  sameName m other && o.classOf other != o.classOf m && other.field PARAM_POS == m.field PARAM_POS

/-- The test for the override flag, and the one for the overridden flag. -/
def Options.overrides (o : Options) (v : View) : Bool := v.next.any (o.sameInOtherClass v.actu)

def Options.isOverridden (o : Options) (v : View) : Bool := v.prev.any (o.sameInOtherClass v.actu)

/-- What is done up to the text of the line: the attribute and the letters of the image, or `none`
where the loop continues. -/
def Options.shown (o : Options) (v : View) : Option (UInt32 × Text) :=
  match Tcl_GetInt (v.actu.field ATTR_POS) with
  | none => none
  | some i =>
    let attr := UInt32.ofInt i
    if !o.selected v.actu then none
    else if !o.typeSelected attr then none
    else if o.filter &&& PAF_OVERLOADED ≠ 0 ∧ !v.overloaded then none
    else
      let image :=
        (if attr &&& PAF_PROTECTED ≠ 0 then ascii "p" else []) ++
        (if attr &&& PAF_STATIC ≠ 0 then ascii "s" else []) ++
        (if attr &&& PAF_VIRTUAL ≠ 0 then ascii "v" else []) ++
        (if o.overrides v then [OVERRIDE] else []) ++
        (if o.isOverridden v then [OVERRIDDEN] else [])
      -- both branches leave the first flag at zero
      let fnd1 : Nat := if o.overrides v then 0 else 0
      let fnd2 : Nat := if o.isOverridden v then 1 else 0
      if (fnd2 ≠ 0 ∧ o.overridden = 0) ∨ (o.filter &&& PAF_OVERRIDE ≠ 0 ∧ fnd1 = 0 ∧ fnd2 = 0) then
        none
      else some (attr, image)

/-- The arguments of the command `insert end`. -/
structure Line where
  image : Text
  font : Option Text
  data : Text
  text : Text
  deriving DecidableEq

/-- The buffer of the font, which is not set at first, and the lines of the widget. -/
structure Browser where
  font : Option Text
  lines : List Line

/-- What follows `(` in the name; a function has `md` or `fr` there. -/
def Member.tag (m : Member) : Text := ((m.field MEMBER_POS).dropWhile (· != PARENTHESIS)).drop 1

def Member.isFunction (m : Member) : Bool :=
  (ascii "md").isPrefixOf m.tag || (ascii "fr").isPrefixOf m.tag

def Member.data (m : Member) : Text := m.field FILENAME_POS ++ [TAB] ++ m.field FILEPOS_POS

def Member.text (m : Member) : Text :=
  let line := m.field MEMBER_POS ++ [TAB] ++ m.field CLASS_POS ++ [TAB] ++ m.field TYPE_POS
  if m.isFunction then line ++ [TAB] ++ ascii "(" ++ m.field PARAM_POS ++ ascii ")" else line

/-- The body of the loop behind the window. -/
def Options.insert (o : Options) (v : View) (st : Browser) : Browser :=
  match o.shown v with
  | none => st
  | some (attr, letters) =>
    let image :=
      if attr &&& PAF_PRIVATE ≠ 0 then ascii "cls_br_private_image"
      else ascii "cls_br_" ++ letters ++ ascii "_image"
    let attr :=
      if v.actu.isFunction ∧ v.actu.tag.head? = some 102 then attr &&& ~~~(PAF_PUBLIC ||| PAF_PROTECTED)
      else attr
    let font :=
      if attr &&& PAF_PUBLIC ≠ 0 then some o.public_font
      else if attr &&& PAF_PROTECTED ≠ 0 then some o.protected_font
      else if attr &&& PAF_PRIVATE ≠ 0 then some o.private_font
      else st.font
    { font, lines := st.lines ++ [⟨image, font, v.actu.data, v.actu.text⟩] }

/-- `class_browser_insert`: the lines of the widget. -/
def class_browser_insert (o : Options) (del : Bool) (objlist : List Text) (lines : List Line) :
    List Line :=
  let lines := if del then [] else lines
  if objlist.length = 0 then lines
  else (loop o.insert ⟨none, none, none⟩ 0 objlist ⟨none, lines⟩).lines

/-! ### What is looked at -/

/-- The members of a list, each with its neighbours. -/
def neighbours : Option Member → List Member → List View
  | _, [] => []
  | prev, m :: ms => ⟨prev, m, ms.head?⟩ :: neighbours (some m) ms

/-- The elements that are not ignored. -/
def members (objlist : List Text) : List Member := objlist.filterMap Member.read

section Loop

variable {S : Type} {body : View → S → S} {w : Window} {j : Nat} {objlist : List Text} {s : S}
  {seen : List View} {prev : Option Member} {a b : Member} {element : Text}

theorem seenBy_append :
    loop (fun v seen => seen ++ [v]) w j objlist seen = seen ++ seenBy w j objlist := by
  induction objlist generalizing w j seen with
  | nil =>
    rw [seenBy, loop, loop]
    cases (if 1 < j then w.shift none else w).view with
    | none => exact (List.append_nil seen).symm
    | some v => rfl
  | cons element objlist ih =>
    rw [seenBy, loop, loop, ih, ih, ← List.append_assoc]
    cases (step w element).2 with
    | none => exact congrArg (· ++ _) (List.append_nil seen).symm
    | some v => rfl

theorem seenBy_cons :
    seenBy w j (element :: objlist) =
      (step w element).2.toList ++ seenBy (step w element).1 (j + 1) objlist := by
  rw [seenBy, loop, seenBy_append]
  cases (step w element).2 with
  | none => rfl
  | some v => rfl

/-- What is done with what is looked at. -/
theorem loop_eq_foldl : loop body w j objlist s = (seenBy w j objlist).foldl (fun s v => body v s) s := by
  induction objlist generalizing w j s with
  | nil =>
    rw [seenBy, loop, loop]
    cases (if 1 < j then w.shift none else w).view with
    | none => rfl
    | some v => rfl
  | cons element objlist ih =>
    rw [loop, ih, seenBy_cons, List.foldl_append]
    cases (step w element).2 with
    | none => rfl
    | some v => rfl

theorem members_cons_none (ignored : Member.read element = none) :
    members (element :: objlist) = members objlist := List.filterMap_cons_none ignored

theorem members_cons_some (read : Member.read element = some a) :
    members (element :: objlist) = a :: members objlist := List.filterMap_cons_some read

theorem step_none (ignored : Member.read element = none) : step w element = (w, none) := by
  simp only [step, ignored]

/-- From two members on, the last one waits. -/
theorem seenBy_two (turns : 1 < j + objlist.length) :
    seenBy ⟨prev, some a, some b⟩ j objlist = neighbours (some a) (b :: members objlist) := by
  induction objlist generalizing prev a b j with
  | nil =>
    have extra : 1 < j := turns
    rw [seenBy, loop]
    simp only [extra, if_true]
    rfl
  | cons element objlist ih =>
    rw [List.length_cons] at turns
    rw [seenBy_cons]
    cases read : Member.read element with
    | none =>
      rw [step_none read, members_cons_none read]
      exact ih (by omega)
    | some c =>
      have next : step ⟨prev, some a, some b⟩ element =
          (⟨some a, some b, some c⟩, some ⟨some a, b, some c⟩) := by
        simp only [step, read]
        rfl
      rw [next, members_cons_some read, neighbours, ih (by omega)]
      rfl

/-- A first member is looked at if another one comes, or nothing else. -/
theorem seenBy_one (turn : 0 < j) :
    seenBy ⟨none, some a, none⟩ j objlist =
      if members objlist = [] ∧ 1 < j + objlist.length then []
      else neighbours none (a :: members objlist) := by
  induction objlist generalizing j with
  | nil =>
    have whole : (members [] = [] ∧ 1 < j + ([] : List Text).length) ↔ 1 < j := by simp [members]
    simp only [whole]
    rw [seenBy, loop]
    by_cases extra : 1 < j
    · simp only [extra, if_true]
      rfl
    · simp only [extra, if_false]
      rfl
  | cons element objlist ih =>
    rw [seenBy_cons]
    cases read : Member.read element with
    | none =>
      rw [step_none read, members_cons_none read, List.length_cons, ← Nat.add_assoc,
        Nat.add_right_comm]
      exact ih (by omega)
    | some b =>
      have next : step ⟨none, some a, none⟩ element =
          (⟨none, some a, some b⟩, some ⟨none, a, some b⟩) := by
        simp only [step, read]
        rfl
      rw [next, members_cons_some read, if_neg fun both => List.cons_ne_nil b _ both.1,
        neighbours, seenBy_two (by omega)]
      rfl

theorem seenBy_zero :
    seenBy ⟨none, none, none⟩ j objlist =
      if (members objlist).length = 1 ∧ 1 < j + objlist.length then []
      else neighbours none (members objlist) := by
  induction objlist generalizing j with
  | nil =>
    rw [if_neg fun both => Nat.zero_ne_one both.1, seenBy, loop]
    cases Decidable.em (1 < j) with
    | inl extra => simp only [extra, if_true]; rfl
    | inr one => simp only [one, if_false]; rfl
  | cons element objlist ih =>
    rw [seenBy_cons]
    cases read : Member.read element with
    | none =>
      rw [step_none read, members_cons_none read, List.length_cons, ← Nat.add_assoc,
        Nat.add_right_comm]
      exact ih
    | some a =>
      have next : step ⟨none, none, none⟩ element = (⟨none, some a, none⟩, none) := by
        simp only [step, read]
        rfl
      have single : (a :: members objlist).length = 1 ↔ members objlist = [] := by
        rw [List.length_cons, Nat.add_eq_right, List.length_eq_zero_iff]
      have turns : 1 < j + 1 + objlist.length ↔ 1 < j + (element :: objlist).length := by
        rw [List.length_cons, Nat.add_right_comm, Nat.add_assoc]
      rw [next, members_cons_some read, Option.toList_none, List.nil_append,
        seenBy_one (Nat.zero_lt_succ j)]
      simp only [single, turns]

/-- What the loop looks at: a member alone is left out where other elements are ignored. -/
theorem considered_eq (objlist : List Text) :
    considered objlist =
      if (members objlist).length = 1 ∧ 2 ≤ objlist.length then []
      else neighbours none (members objlist) := by
  rw [considered, seenBy_zero, Nat.zero_add]
  rfl

end Loop

end SourceNavigator.Hyper.ClassBrowser

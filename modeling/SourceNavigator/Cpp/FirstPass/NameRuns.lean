import SourceNavigator.Cpp.FirstPass.SkipRuns

/-!
Names, enumerations and pointer operators of the first pass end, or come to a
loop without an end.

`Room` bounds the steps that a function needs by the tokens that are left; the
rank of a function is what it needs beyond eight steps for each of them, so that
a call behind a token always has room. `Calls.Good` is what the functions of the
cycle are known to do when they have room.
-/

namespace SourceNavigator.Cpp.FirstPass

open Lib Lib.Program

/-! ### Room -/

/-- The steps suffice for a function of this rank. -/
def Room (c : Calls) (rank : Nat) (s : State) : Prop := 8 * s.rest + rank ≤ c.fuel

section Room

variable {c : Calls} {rank rank' : Nat} {s s' : State} {d : Int}

theorem Room.mono (room : Room c rank s) (le : rank' ≤ rank) : Room c rank' s :=
  (Nat.add_le_add_left le _).trans room

theorem Room.path (room : Room c rank s) (path : Path d s s') : Room c rank s' := by
  have le := path.rest_le
  unfold Room at room ⊢
  omega

/-- Behind a token there is room for everything. -/
theorem Room.further (room : Room c rank s) (lt : s'.rest < s.rest) : Room c 8 s' := by
  unfold Room at room ⊢
  omega

/-- A loop that reads a token in every round is left in time. -/
theorem Room.rounds (room : Room c rank s) (pos : 0 < rank) : s.rest < c.fuel := by
  unfold Room at room
  omega

end Room

/-- What the functions of the cycle do when they have room. -/
structure Calls.Good (c : Calls) : Prop where
  qualified_class_name {s : State} (sound : Sound s) (room : Room c 2 s) (plstr : LongString) :
    Ends (c.qualified_class_name plstr) s fun _ s' => Path 0 s s' ∧ s.iva < s'.iva
  qualified_name {s : State} (sound : Sound s) (room : Room c 4 s) (r : Declarator) :
    Ends (c.qualified_name r) s fun a s' => Reads s a.1 s'
  declarator {s : State} (sound : Sound s) (room : Room c 5 s) (r : Declarator) :
    Ends (c.declarator r) s fun a s' => Reads s a.1 s'
  kr_argument_declarator {s : State} (sound : Sound s) (room : Room c 5 s) (r : Declarator) :
    Ends (c.kr_argument_declarator r) s fun a s' => Reads s a.1 s'
  function_argument_declarator {s : State} (sound : Sound s) (room : Room c 5 s) (r : Declarator) :
    Ends (c.function_argument_declarator r) s fun a s' => Verdict s a.1 s'
  function_argument_declaration_list {s : State} (sound : Sound s) (room : Room c 6 s)
    (types names : LongString) :
    Ends (c.function_argument_declaration_list types names) s fun _ s' => Path 0 s s'
  f_class {s : State} (sound : Sound s) (room : Room c 2 s) (inside : s.iva < s.v.length)
    (x : Option Declaration) (k : Class) :
    Ends (c.f_class x k) s fun a s' => Reads s a.1 s'
  declaration {s : State} (sound : Sound s) (room : Room c 7 s) (outer : Option LongString) :
    Ends (c.declaration outer) s fun _ s' => Path 0 s s' ∧
      (s'.rest < s.rest ∨ tokenAt s'.v s'.keyw_cpp s'.iva = 0)

variable {c : Calls} {s s' : State} {d : Int}

/-! ### Enumerations -/

theorem enumerator_ends (sound : Sound s) (e : Enum) : Ends (enumerator e) s (Reads s) := by
  refine ends_reads rfl ?_
  simp only [ends_bind, ends_save, ends_enter, ends_token]
  have path := (Path.refl sound).enter
  split
  case isTrue name =>
    have lt := path.read (k := 0) name (by decide)
    simp only [ends_bind, ends_f_lineno, ends_f_charno, ends_ident, ends_identleng]
    refine path.reporting fun x path => ?_
    simp only [ends_step, ends_token]
    have path := path.step 1
    split
    · simp only [ends_bind, ends_step]
      have path := path.step 1
      refine (constant_expression_ends path.sound).imp fun _ s' h => ?_
      simp only [ends_leave, ends_pure]
      exact ⟨(path.call h).succeeds, fun _ => h.past (State.past_step lt 1)⟩
    · simp only [ends_bind, ends_leave, ends_pure]
      exact ⟨path.succeeds, fun _ => lt⟩
  case isFalse =>
    simp only [ends_bind, ends_restore, ends_leave, ends_pure]
    exact path.fails.reads

theorem enum_list_ends (sound : Sound s) (room : Room c 1 s) (e : Enum) :
    Ends (enum_list c e) s fun _ s' => Path 0 s s' := by
  refine (ends_verdict rfl ?_).imp fun _ _ h => h.path
  simp only [ends_bind, ends_enter, ends_step]
  have path := (Path.refl sound).enter.step 1
  refine path.rounds ((room.path path).rounds Nat.one_pos) fun _ s' path _ => ?_
  simp only [ends_bind]
  refine (enumerator_ends path.sound e).imp fun found s' h => ?_
  have path := path.call h.path
  cases found with
  | true =>
    simp only [ends_bind, ends_token, if_true]
    split
    · simp only [ends_bind, ends_step, ends_pure]
      exact ⟨path.step 1, State.past_step (h.further rfl) 1⟩
    · exact ⟨path, h.further rfl⟩
  | false =>
    simp only [ends_leave, ends_pure]
    exact path.succeeds

theorem enumReport_ends {Q : Unit → State → Prop} (path : Path d s s') (e : Enum)
    (lineno charno : Int)
    (found : ∀ y, Path d s (s'.report (.symbol y)) → Q () (s'.report (.symbol y))) :
    Ends (e.report lineno charno) s' Q := by
  simp only [Enum.report, ends_bind, ends_lineno_before, ends_charno_before]
  exact path.reporting found

/-- The name of a class or enumeration without a name is found ahead; nothing is read. -/
theorem typedefName_ends {Q : Named → State → Prop} (found : ∀ x, Q x s) (x : Option Declaration)
    (name : LongString) (lineno_beg charno_beg lineno_end charno_end : Int) :
    Ends (typedefName x name lineno_beg charno_beg lineno_end charno_end) s Q := by
  unfold typedefName
  cases x with
  | none => exact found _
  | some declaration =>
    simp only
    split
    · simp only [get_struct_name, ends_bind, ends_read]
      split
      · exact found _
      · exact found _
    · exact found _

/-- The list of an enumeration, what comes up to its closing brace, and the report. -/
theorem enumBody_ends {Q : Unit → State → Prop} (path : Path d s s') (room : Room c 1 s') (e : Enum)
    (lineno charno : Int) (found : ∀ s'', Path d s s'' → s''.rest ≤ s'.rest → Q () s'') :
    Ends (enum_list c e) s' fun _ s' => Ends (scanning (untilToken [chr '}']) ()) s' fun _ s' =>
      Ends (step 1) s' fun _ s' => Ends (e.report lineno charno) s' Q := by
  refine (enum_list_ends path.sound room e).imp fun _ s'' h => ?_
  refine (path.call h).scanning (exits_untilToken _) fun k _ path _ _ => ?_
  simp only [ends_step]
  refine enumReport_ends (path.step 1) e lineno charno fun y path => found _ path ?_
  exact State.rest_step_le.trans (State.rest_step_le.trans h.rest_le)

theorem f_enum_ends (sound : Sound s) (room : Room c 1 s) (inside : s.iva < s.v.length)
    (x : Option Declaration) (e : Enum) : Ends (f_enum c x e) s fun a s' => Reads s a.1 s' := by
  refine ends_reads rfl ?_
  simp only [ends_bind, ends_enter, ends_f_lineno, ends_f_charno, ends_identleng, ends_step,
    ends_token]
  obtain ⟨path, lt⟩ := entered_step sound inside
  split
  · simp only [ends_bind]
    refine typedefName_ends (fun x => ?_) _ _ _ _ _ _
    simp only [ends_f_lineno, ends_f_charno]
    refine enumBody_ends path (room.path path) _ _ _ fun s'' path le => ?_
    simp only [ends_leave, ends_pure]
    exact ⟨path.succeeds, fun _ => le.trans_lt lt⟩
  · simp only [ends_bind, ends_ident, ends_f_lineno, ends_f_charno, ends_step, ends_token]
    have path := path.step 1
    split
    · simp only [ends_bind]
      refine enumBody_ends path (room.path path) _ _ _ fun s'' path le => ?_
      simp only [ends_leave, ends_pure]
      exact ⟨path.succeeds, fun _ => le.trans_lt (State.past_step lt 1)⟩
    · simp only [ends_bind, ends_leave, ends_pure]
      exact ⟨path.succeeds, fun _ => State.past_step lt 1⟩

/-! ### Class names -/

theorem qualified_class_name_ends (good : c.Good) (sound : Sound s) (room : Room c 1 s)
    (plstr : LongString) :
    Ends (qualified_class_name c plstr) s fun _ s' => Path 0 s s' ∧ s.iva < s'.iva := by
  refine ends_callVoid ?_ fun _ _ _ h => h
  simp only [ends_bind, ends_enter, ends_ident, ends_step, ends_token]
  have path := (Path.refl sound).enter.step 1
  have tail : ∀ s' (plstr : LongString), Path 1 s s' → s.iva < s'.iva → Ends (do
      if (← token 0) = SN_CLCL ∧ (← token 1) = SN_IDENTIFIER then
        step 1
        let plstr ← c.qualified_class_name (plstr.append (ascii "::"))
        leave
        pure plstr
      else
        leave
        pure plstr) s' fun _ s'' => Path 0 s s'' ∧ s.iva < s''.iva := by
    intro s' plstr path further
    simp only [ends_bind, ends_token]
    split
    case isTrue more =>
      have inside : s'.iva < s'.v.length := inside_of_token more.1 (by decide)
      have lt : (s'.step 1).rest < s.rest := path.read more.1 (by decide)
      simp only [ends_bind, ends_step]
      have path := path.step 1
      refine (good.qualified_class_name path.sound ((room.further lt).mono (by decide)) _).imp
        fun _ s'' h => ?_
      simp only [ends_leave, ends_pure]
      refine ⟨(path.call h.1).leave, ?_⟩
      have := h.2
      simp only [State.step_iva, State.setNiveau_iva] at this ⊢
      omega
    case isFalse =>
      simp only [ends_bind, ends_leave, ends_pure]
      exact ⟨path.leave, further⟩
  split
  · refine ends_bind.mpr ((template_argument_skip_ends path.sound _).imp fun plstr s' h => ?_)
    exact tail s' plstr (path.call h.1) (Nat.lt_trans (Nat.lt_succ_self s.iva) h.2)
  · exact tail _ _ path (Nat.lt_succ_self _)

theorem complete_class_name_ends (good : c.Good) (sound : Sound s) (room : Room c 2 s)
    (plstr : LongString) : Ends (complete_class_name c plstr) s fun a s' => Reads s a.1 s' := by
  refine ends_reads rfl ?_
  simp only [ends_bind, ends_save, ends_enter, ends_token]
  have path := (Path.refl sound).enter
  split
  case isTrue colons =>
    have inside : s.iva < s.v.length := inside_of_token colons (by decide)
    simp only [ends_bind, ends_step, ends_token]
    have path := path.step 1
    split
    · simp only [ends_bind]
      refine (good.qualified_class_name path.sound (room.path path) _).imp fun _ s' h => ?_
      simp only [ends_leave, ends_pure]
      have path := path.call h.1
      exact ⟨path.succeeds, fun _ => path.leave.rest_lt inside ((Nat.lt_succ_self _).trans h.2)⟩
    · simp only [ends_bind, ends_restore, ends_leave, ends_pure]
      exact path.fails.reads
  case isFalse =>
    simp only [ends_bind, ends_token]
    split
    case isTrue name =>
      have inside : s.iva < s.v.length := inside_of_token name (by decide)
      simp only [ends_bind]
      refine (good.qualified_class_name path.sound (room.path path) _).imp fun _ s' h => ?_
      simp only [ends_leave, ends_pure]
      have path := path.call h.1
      exact ⟨path.succeeds, fun _ => path.leave.rest_lt inside h.2⟩
    case isFalse =>
      simp only [ends_bind, ends_restore, ends_leave, ends_pure]
      exact path.fails.reads

/-! ### Pointer operators -/

theorem cv_qualifier_list_opt_ends (sound : Sound s) (plstr : LongString) :
    Ends (cv_qualifier_list_opt plstr) s fun _ s' => Path 0 s s' := by
  refine ends_path ?_
  simp only [ends_bind, ends_enter]
  refine (Path.refl sound).enter.scanning exits_qualifier fun k _ path _ _ => ?_
  simp only [ends_leave, ends_pure]
  exact path.leave

/-- The qualifiers behind a pointer operator. -/
theorem qualifiers_end (path : Path 1 s s') (lt : s'.rest < s.rest) (plstr : LongString) :
    Ends (cv_qualifier_list_opt plstr) s' fun plstr s'' => Ends leave s'' fun _ s'' =>
      Ends (pure (true, plstr)) s'' fun a s'' => Reads s a.1 s'' := by
  refine (cv_qualifier_list_opt_ends path.sound plstr).imp fun _ s'' h => ?_
  simp only [ends_leave, ends_pure]
  exact ⟨(path.call h).succeeds, fun _ => h.past lt⟩

theorem ptr_operator_ends (good : c.Good) (sound : Sound s) (room : Room c 2 s)
    (plstr : LongString) : Ends (ptr_operator c plstr) s fun a s' => Reads s a.1 s' := by
  refine ends_reads rfl ?_
  simp only [ends_bind, ends_save, ends_enter, ends_token]
  have path := (Path.refl sound).enter
  split
  case isTrue star =>
    simp only [ends_bind, ends_ident, ends_step]
    have lt : ((s.setNiveau (s.niveau + 1)).step 1).rest < s.rest := by
      rcases star with star | ampersand
      · exact path.read star (by decide)
      · exact path.read ampersand (by decide)
    exact qualifiers_end (path.step 1) lt _
  case isFalse =>
    split
    · simp only [ends_bind]
      refine (complete_class_name_ends good path.sound (room.path path) plstr).imp
        fun result s' h => ?_
      obtain ⟨found, plstr⟩ := result
      have path := path.call h.path
      cases found with
      | true =>
        have lt : s'.rest < s.rest := h.further rfl
        simp only [if_true, ends_bind, ends_token]
        split
        · simp only [ends_bind, ends_step]
          exact qualifiers_end ((path.step 1).step 1)
            (State.past_step (State.past_step lt 1) 1) _
        · simp only [ends_bind, ends_token]
          split
          · simp only [ends_bind, ends_step]
            exact qualifiers_end (path.step 1) (State.past_step lt 1) _
          · simp only [ends_bind, ends_restore, ends_leave, ends_pure]
            exact path.fails.reads
      | false =>
        simp only [Bool.false_eq_true, if_false, ends_bind, ends_restore, ends_leave, ends_pure]
        exact path.fails.reads
    · simp only [ends_bind, ends_restore, ends_leave, ends_pure]
      exact path.fails.reads

/-! ### Operator names -/

theorem conversion_type_specifier_ends (good : c.Good) (sound : Sound s) (room : Room c 2 s)
    (plstr : LongString) :
    Ends (conversion_type_specifier c plstr) s fun a s' => Reads s a.1 s' := by
  refine ends_reads rfl ?_
  simp only [ends_bind, ends_save, ends_enter, ends_token]
  have path := (Path.refl sound).enter
  have more {t : Nat} (eq : tokenAt s.v s.keyw_cpp (s.iva + 0) = t) (ne : t ≠ 0) :
      s.iva < s.v.length := inside_of_token eq ne
  split
  case h_1 key =>
    have inside := more rfl (ne_zero_of_lookup key rfl)
    simp only [ends_bind]
    refine (good.f_class path.sound (room.path path) inside _ _).imp fun result s' h => ?_
    obtain ⟨found, _⟩ := result
    exact ends_either (path.call h.path) h.further _ _
  case h_2 =>
    split
    case isTrue key =>
      simp only [ends_bind]
      refine (f_enum_ends path.sound ((room.path path).mono (by decide)) (more key (by decide)) _ _).imp
        fun result s' h => ?_
      obtain ⟨found, _⟩ := result
      exact ends_either (path.call h.path) h.further _ _
    case isFalse =>
      split
      case isTrue simple =>
        simp only [ends_bind, ends_ident, ends_step]
        exact ends_succeed (path.step 1) (path.read rfl (ne_zero_of_mem simple (by decide)))
      case isFalse =>
        split
        · simp only [ends_bind]
          refine (complete_class_name_ends good path.sound (room.path path) plstr).imp
            fun result s' h => ?_
          obtain ⟨found, plstr⟩ := result
          exact ends_either (path.call h.path) h.further _ _
        · exact ends_giveUp path

theorem conversion_type_name_ends (good : c.Good) (sound : Sound s) (room : Room c 2 s)
    (plstr : LongString) : Ends (conversion_type_name c plstr) s fun a s' => Reads s a.1 s' := by
  refine ends_reads rfl ?_
  simp only [ends_bind, ends_save, ends_enter]
  have path := (Path.refl sound).enter
  refine (conversion_type_specifier_ends good path.sound (room.path path) plstr).imp
    fun result s' h => ?_
  obtain ⟨found, plstr⟩ := result
  have path := path.call h.path
  cases found with
  | true =>
    have lt : s'.rest < s.rest := h.further rfl
    simp only [if_true, ends_bind]
    refine path.rounds ((room.path path).rounds (by decide)) fun plstr s'' path le => ?_
    simp only [ends_bind]
    refine (conversion_type_specifier_ends good path.sound (room.path path) plstr).imp
      fun result t h => ?_
    obtain ⟨found, plstr⟩ := result
    have path := path.call h.path
    cases found with
    | true => exact ⟨path, h.further rfl⟩
    | false =>
      simp only [ends_pure]
      refine (ptr_operator_ends good path.sound (room.path path) {}).imp fun result t' h' => ?_
      obtain ⟨_, _⟩ := result
      exact ends_succeed (path.call h'.path) (h'.path.past (h.path.past (le.trans_lt lt)))
  | false => exact ends_giveUp path

theorem operator_function_name_ends (good : c.Good) (sound : Sound s) (room : Room c 2 s)
    (plstr : LongString) : Ends (operator_function_name c plstr) s fun a s' => Reads s a.1 s' := by
  refine ends_reads rfl ?_
  simp only [ends_bind, ends_save, ends_enter, ends_token]
  have path := (Path.refl sound).enter
  split
  · exact ends_giveUp path
  case isFalse operator =>
    simp only [ends_bind, ends_step, ends_token]
    have lt : ((s.setNiveau (s.niveau + 1)).step 1).rest < s.rest :=
      path.read (not_not.mp operator) (by decide)
    have path := path.step 1
    split
    · simp only [ends_bind, ends_step]
      exact ends_succeed (path.step 1) (State.past_step lt 1)
    · split
      · simp only [ends_bind, ends_token]
        split
        · simp only [ends_bind, ends_step]
          exact ends_succeed ((path.step 1).step 1)
            (State.past_step (State.past_step lt 1) 1)
        · exact ends_giveUp path
      · split
        · simp only [ends_bind, ends_token]
          split
          · simp only [ends_bind, ends_step]
            exact ends_succeed ((path.step 1).step 1)
              (State.past_step (State.past_step lt 1) 1)
          · exact ends_giveUp path
        · simp only [ends_bind]
          refine (conversion_type_name_ends good path.sound (room.path path) _).imp
            fun result s' h => ?_
          obtain ⟨found, plstr⟩ := result
          exact ends_either (path.call h.path) (fun _ => h.path.past lt) _ _

theorem qualified_name_ends (good : c.Good) (sound : Sound s) (room : Room c 3 s) (r : Declarator) :
    Ends (qualified_name c r) s fun a s' => Reads s a.1 s' := by
  refine ends_reads rfl ?_
  simp only [ends_bind, ends_save, ends_enter, ends_token]
  have path := (Path.refl sound).enter
  split
  case isTrue name =>
    have lt : ((s.setNiveau (s.niveau + 1)).step 1).rest < s.rest := path.read name.1 (by decide)
    simp only [ends_bind, ends_ident, ends_step]
    have lt := State.past_step lt 1
    have path := (path.step 1).step 1
    refine (good.qualified_name path.sound ((room.further lt).mono (by decide)) _).imp
      fun result s' h => ?_
    obtain ⟨_, r⟩ := result
    exact ends_succeed (path.call h.path) (h.path.past lt)
  case isFalse =>
    simp only [ends_bind, ends_token]
    split
    case isTrue name =>
      have lt : ((s.setNiveau (s.niveau + 1)).step 1).rest < s.rest := path.read name.1 (by decide)
      simp only [ends_bind, ends_ident, ends_step]
      have path := path.step 1
      refine (template_argument_skip_ends path.sound _).imp fun plstr s' h => ?_
      have lt := h.1.past lt
      have path := path.call h.1
      simp only [ends_token]
      split
      · simp only [ends_bind, ends_step]
        have lt := State.past_step lt 1
        have path := path.step 1
        refine (good.qualified_name path.sound ((room.further lt).mono (by decide)) _).imp
          fun result s' h => ?_
        obtain ⟨_, r⟩ := result
        exact ends_succeed (path.call h.path) (h.path.past lt)
      · exact ends_giveUp path
    case isFalse =>
      simp only [ends_bind, ends_f_lineno, ends_f_charno, ends_token]
      split
      case isTrue name =>
        simp only [ends_bind, ends_ident, ends_step]
        exact ends_succeed (path.step 1) (path.read name (by decide))
      case isFalse =>
        split
        · simp only [ends_bind]
          refine (operator_function_name_ends good path.sound ((room.path path).mono (by decide)) _).imp
            fun result s' h => ?_
          obtain ⟨found, name⟩ := result
          exact ends_either (path.call h.path) h.further _ _
        · split
          case isTrue tilde =>
            have lt : ((s.setNiveau (s.niveau + 1)).step 1).rest < s.rest :=
              path.read tilde (by decide)
            simp only [ends_bind, ends_token]
            split
            · simp only [ends_bind, ends_step, ends_ident]
              exact ends_succeed ((path.step 1).step 1) (State.past_step lt 1)
            · exact ends_giveUp path
          case isFalse => exact ends_giveUp path

end SourceNavigator.Cpp.FirstPass

import SourceNavigator.Cpp.FirstPass.DeclaratorRuns

/-!
Declarator lists, K&R parameters, members, classes and declarations of the first
pass end, or come to a loop without an end.
-/

namespace SourceNavigator.Cpp.FirstPass

open Lib Lib.Program

variable {c : Calls} {s s' : State}

/-! ### Declarators -/

theorem function_operator_eats (good : c.Good) : Eats c 1 (function_operator c) := by
  intro s r sound room inside
  refine ends_reads rfl ?_
  simp only [ends_bind, ends_save, ends_enter, ends_step]
  obtain ⟨path, lt⟩ := entered_step sound inside
  split
  · simp only [ends_bind]
    refine (good.function_argument_declaration_list path.sound ((room.further lt).mono (by decide))
      _ _).imp fun result s' h => ?_
    obtain ⟨types, names⟩ := result
    refine (path.call h).scanning exits_qualifier fun k _ path _ _ => ?_
    exact ends_succeed path (State.past_step (h.past lt) k)
  · simp only [ends_bind]
    refine path.scanning (exits_brackets _ _) fun k _ path _ _ => ?_
    split
    · exact ends_giveUp path
    · simp only [ends_bind]
      refine path.scanning exits_qualifier fun k' _ path _ _ => ?_
      exact ends_succeed path (State.past_step (State.past_step lt k) k')

theorem array_operator_eats : Eats c 1 array_operator := by
  intro s r sound _ inside
  refine ends_reads rfl ?_
  simp only [ends_bind, ends_save, ends_enter, ends_step]
  obtain ⟨path, lt⟩ := entered_step sound inside
  refine path.scanning (exits_brackets _ _) fun k _ path _ _ => ?_
  split
  · exact ends_giveUp path
  · exact ends_succeed path (State.past_step lt k)

theorem function_or_array_list_works (good : c.Good) : Works c 1 (function_or_array_list c) :=
  functionOrArrayList_ends rfl (function_operator_eats good) array_operator_eats

/-- A failure behind the name is not taken back. -/
theorem declarator_operator_ends (good : c.Good) (sound : Sound s) (room : Room c 2 s)
    (r : Declarator) : Ends (declarator_operator c r) s fun a s' => Reads s a.1 s' := by
  refine ends_reads rfl ?_
  simp only [ends_bind, ends_f_lineno, ends_f_charno, ends_enter]
  have path := (Path.refl sound).enter
  refine (operator_function_name_ends good path.sound (room.path path) _).imp
    fun result s' h => ?_
  obtain ⟨found, name⟩ := result
  have path := path.call h.path
  cases found with
  | true =>
    simp only [if_true, ends_bind]
    refine placed_ends (fun r => ?_) _ _ _
    refine (function_or_array_list_works good _ _ path.sound ((room.path path).mono (by decide))).imp
      fun result t h' => ?_
    obtain ⟨found, r⟩ := result
    have path := path.call h'.path
    cases found with
    | true => exact ends_succeed path (h'.path.past (h.further rfl))
    | false =>
      simp only [Bool.false_eq_true, if_false, ends_bind, ends_log, ends_leave, ends_pure]
      exact path.unrestored _
  | false =>
    simp only [Bool.false_eq_true, if_false, ends_bind, ends_leave, ends_pure]
    exact h.enclosed sound

/-- The switch of the two kinds of declarators; without a token of a declarator nothing is read. -/
theorem declaratorSwitch_ends (good : c.Good) (sound : Sound s) (room : Room c 4 s) (other : Bool)
    (r : Declarator) :
    Ends (declaratorSwitch c other r) s fun a s' => Reads s a.1 s' ∨ a.1 = other ∧ s' = s := by
  simp only [declaratorSwitch, ends_bind, ends_token]
  have inner : Works c 5 c.declarator := fun s r sound room =>
    (good.declarator sound room r).imp fun _ _ h => h.toVerdict
  have outer := function_or_array_list_works good
  split
  case isTrue opening =>
    have eats := parenDeclarator_ends (f := .declarator_paren) rfl inner outer
    exact (eats _ r sound (room.mono (by decide)) (inside_of_token opening (by decide))).imp
      fun _ _ h => .inl h
  case isFalse =>
    split
    · exact (starDeclarator_ends good rfl inner sound (room.mono (by decide)) r).imp
        fun _ _ h => .inl h
    · split
      · have operator : Works c 2 (declarator_operator c) := fun s r sound room =>
          (declarator_operator_ends good sound room r).imp fun _ _ h => h.toVerdict
        exact (identifierDeclarator_ends good rfl inner operator outer sound
          (room.mono (by decide)) r).imp fun _ _ h => .inl h
      · split
        · exact (declarator_operator_ends good sound (room.mono (by decide)) r).imp
            fun _ _ h => .inl h
        · split
          · exact (tildeDeclarator_ends rfl outer sound (room.mono (by decide)) r).imp
              fun _ _ h => .inl h
          · exact .inr ⟨rfl, rfl⟩

theorem declarator_ends (good : c.Good) (sound : Sound s) (room : Room c 4 s) (r : Declarator) :
    Ends (declarator c r) s fun a s' => Reads s a.1 s' := by
  refine ends_reads rfl ?_
  simp only [ends_bind, ends_enter]
  have path := (Path.refl sound).enter
  refine (declaratorSwitch_ends good path.sound (room.path path) false r).imp fun result s' h => ?_
  obtain ⟨ret, r⟩ := result
  simp only [ends_leave, ends_pure]
  rcases h with h | ⟨rfl, rfl⟩
  · exact h.enclosed sound
  · exact Verdict.reads ⟨path.leave, fun _ _ => rfl⟩

theorem member_declarator_works (good : c.Good) : Works c 4 (member_declarator c) := by
  intro s r sound room
  refine ends_verdict rfl ?_
  simp only [ends_bind, ends_enter]
  have path := (Path.refl sound).enter
  refine (declaratorSwitch_ends good path.sound (room.path path) true r).imp fun result s' h => ?_
  obtain ⟨ret, r⟩ := result
  simp only [ends_leave, ends_pure]
  rcases h with h | ⟨rfl, rfl⟩
  · exact h.toVerdict.enclosed sound
  · exact path.succeeds

/-! ### K&R parameters -/

theorem kr_argument_declarator_identifier_ends (good : c.Good) (sound : Sound s) (room : Room c 1 s)
    (inside : s.iva < s.v.length) (r : Declarator) :
    Ends (kr_argument_declarator_identifier c r) s fun a s' => Reads s a.1 s' := by
  refine ends_reads rfl ?_
  simp only [ends_bind, ends_save, ends_enter, ends_token]
  -- The name is behind a macro name that may come first.
  have named : ∀ s', Path 1 s s' → Ends (do
      let name := r.name.idCopy (← ident 0)
      let lineno ← f_lineno 0
      let charno ← f_charno 0
      step 1
      let r ← placed { r with name := name, name_lineno_beg := lineno, name_charno_beg := charno }
        lineno charno
      let result ← function_or_array_list c r
      if result.1 then succeed result.2 else giveUp s.iva result.2) s' fun a s' => Reads s a.1 s' := by
    intro s' path
    simp only [ends_bind, ends_ident, ends_f_lineno, ends_f_charno, ends_step]
    have lt : (s'.step 1).rest < s.rest :=
      (path.step 1).rest_lt inside (Nat.lt_succ_of_le path.forward)
    have path := path.step 1
    refine placed_ends (fun r => ?_) _ _ _
    refine (function_or_array_list_works good _ r path.sound (room.path path)).imp
      fun result t h => ?_
    obtain ⟨found, r⟩ := result
    exact ends_either (path.call h.path) (fun _ => h.path.past lt) _ _
  have path := (Path.refl sound).enter
  split
  · exact ends_bind.mpr (ends_step.mpr (named _ (path.step 1)))
  · exact named _ path

theorem kr_argument_declarator_ends (good : c.Good) (sound : Sound s) (room : Room c 4 s)
    (r : Declarator) : Ends (kr_argument_declarator c r) s fun a s' => Reads s a.1 s' := by
  refine ends_reads rfl ?_
  simp only [ends_bind, ends_enter, ends_token]
  have path := (Path.refl sound).enter
  have room : Room c 4 (s.setNiveau (s.niveau + 1)) := room.path path
  have inner : Works c 5 c.kr_argument_declarator := fun s r sound room =>
    (good.kr_argument_declarator sound room r).imp fun _ _ h => h.toVerdict
  have outer := function_or_array_list_works good
  have last : ∀ {m : M (Bool × Declarator)}, Ends m (s.setNiveau (s.niveau + 1))
      (fun a t => Reads (s.setNiveau (s.niveau + 1)) a.1 t) →
      Ends (do
        let result ← m
        leave
        pure (result.1, result.2)) (s.setNiveau (s.niveau + 1)) fun a t => Reads s a.1 t := by
    intro m run
    refine ends_bind.mpr (run.imp fun result t h => ?_)
    obtain ⟨ret, r'⟩ := result
    simp only [ends_bind, ends_leave, ends_pure]
    exact h.enclosed sound
  split
  case isTrue opening =>
    have eats := parenDeclarator_ends (f := .kr_argument_declarator_paren) rfl inner outer
    exact last (eats _ r path.sound (room.mono (by decide)) (inside_of_token opening (by decide)))
  case isFalse =>
    split
    · exact last (starDeclarator_ends good rfl inner path.sound (room.mono (by decide)) r)
    · split
      case isTrue name =>
        exact last (kr_argument_declarator_identifier_ends good path.sound (room.mono (by decide))
          (inside_of_token name (by decide)) r)
      case isFalse =>
        simp only [ends_bind, ends_leave, ends_pure]
        exact Verdict.reads ⟨path.leave, fun _ _ => rfl⟩

theorem kr_argument_declarator_list_ends (good : c.Good) (sound : Sound s) (room : Room c 5 s)
    (x : Declaration) (arrays : Arrays) :
    Ends (kr_argument_declarator_list c x arrays) s fun a s' => Reads s a.1 s' := by
  refine ends_reads rfl ?_
  simp only [ends_bind, ends_save, ends_enter]
  have path := (Path.refl sound).enter
  refine path.rounds ((room.path path).rounds (by decide)) fun arrays s' path le => ?_
  simp only [ends_bind]
  refine (good.kr_argument_declarator path.sound (room.path path) {}).imp fun result t h => ?_
  obtain ⟨found, r⟩ := result
  have path := path.call h.path
  cases found with
  | true =>
    have lt : t.rest < s'.rest := h.further rfl
    simp only [if_true]
    split
    · exact ends_giveUp path
    · simp only [ends_bind, ends_token]
      split
      · simp only [ends_bind, ends_step]
        exact ⟨path.step 1, State.past_step lt 1⟩
      · split
        · simp only [ends_bind, ends_step]
          exact ends_succeed (path.step 1) (State.past_step (lt.trans_le le) 1)
        · exact ends_giveUp path
  | false => exact ends_giveUp path

theorem classNameSpecifier_ends (good : c.Good) (sound : Sound s) (room : Room c 2 s)
    (x : Declaration) : Ends (classNameSpecifier c x) s fun a s' => Reads s a.1 s' := by
  simp only [classNameSpecifier, ends_bind, ends_f_lineno, ends_f_charno]
  refine (complete_class_name_ends good sound room _).imp fun result t h => ?_
  obtain ⟨found, _⟩ := result
  cases found with
  | true =>
    simp only [if_true, ends_bind, ends_lineno_before, ends_charno_before, ends_pure]
    exact h
  | false => exact h

/-- What a round of the loop over the specifiers of a K&R parameter comes to. -/
abbrev RoundEnd {β α : Type} (s s' : State) (next : β ⊕ Bool × α) (t : State) : Prop :=
  next.elim (fun _ => Path 1 s t ∧ t.rest < s'.rest) fun a => Reads s a.1 t

theorem krRound_ends (good : c.Good) (path : Path 1 s s') (room : Room c 5 s') (x : Declaration)
    (arrays : Arrays) : Ends (krRound c s.iva x arrays) s' (RoundEnd s s') := by
  simp only [krRound, ends_bind, ends_token]
  have le := path.rest_le
  have specifier : ∀ t (arrays : Arrays), Path 1 s t → t.rest ≤ s'.rest → Ends (do
      let result ← classNameSpecifier c x
      if result.1 then return .inl (result.2, arrays) else return .inr (← giveUp s.iva arrays)) t
      (RoundEnd s s') := by
    intro t arrays path le
    have room : Room c 2 t := by
      unfold Room at room ⊢
      omega
    refine ends_bind.mpr ((classNameSpecifier_ends good path.sound room x).imp
      fun result t' h => ?_)
    obtain ⟨found, _⟩ := result
    have path := path.call h.path
    cases found with
    | true => exact ⟨path, (h.further rfl).trans_le le⟩
    | false => exact ends_giveUp path
  split
  · simp only [ends_bind, ends_step, ends_log, ends_leave, ends_pure]
    exact (path.step 1).unrestored _
  · split
    case isTrue key =>
      have inside : s'.iva < s'.v.length := tokenAt_inside (ne_zero_of_mem key (by decide))
      simp only [ends_bind]
      refine (function_argument_class_ends path.sound _ _).imp fun _ t h => ?_
      exact ⟨path.call h.1, h.1.rest_lt inside h.2⟩
    case isFalse =>
      split
      case isTrue key =>
        have inside : s'.iva < s'.v.length := inside_of_token key (by decide)
        simp only [ends_bind]
        refine (function_argument_enum_ends path.sound _ _).imp fun _ t h => ?_
        exact ⟨path.call h.1, h.1.rest_lt inside h.2⟩
      case isFalse =>
        split
        case isTrue key =>
          simp only [ends_bind, ends_step]
          exact ⟨path.step 1, (Path.refl path.sound).read rfl (ne_zero_of_mem key (by decide))⟩
        case isFalse =>
          split
          · simp only [ends_bind]
            refine notDeclarator_ends fun taken => ?_
            cases taken with
            | true => exact specifier s' arrays path le_rfl
            | false =>
              simp only [Bool.false_eq_true, if_false, ends_bind]
              refine (kr_argument_declarator_list_ends good path.sound room x arrays).imp
                fun result t h => ?_
              obtain ⟨found, arrays⟩ := result
              have path := path.call h.path
              cases found with
              | true => exact ends_succeed path ((h.further rfl).trans_le le)
              | false => exact specifier t arrays path h.path.rest_le
          · split
            · simp only [ends_bind]
              refine (kr_argument_declarator_list_ends good path.sound room x arrays).imp
                fun result t h => ?_
              obtain ⟨found, arrays⟩ := result
              have path := path.call h.path
              cases found with
              | true => exact ends_succeed path ((h.further rfl).trans_le le)
              | false => exact ends_giveUp path
            · exact ends_giveUp path

theorem kr_argument_declaration_ends (good : c.Good) (sound : Sound s) (room : Room c 5 s)
    (arrays : Arrays) : Ends (kr_argument_declaration c arrays) s fun a s' => Reads s a.1 s' := by
  refine ends_reads rfl ?_
  simp only [ends_bind, ends_save, ends_enter]
  have path := (Path.refl sound).enter
  refine path.rounds ((room.path path).rounds (by decide)) fun result s' path _ => ?_
  obtain ⟨x, arrays⟩ := result
  exact krRound_ends good path (room.path path) x arrays

/-- The declarations are accepted, or the position is where they begin. -/
theorem krDeclarations_ends (good : c.Good) (path : Path 1 s s') (room : Room c 5 s')
    (arrays : Arrays) :
    Ends (krDeclarations c s.iva arrays) s' fun a t => Path 1 s t ∧ (a.1 = false → t.iva = s.iva) := by
  refine path.rounds (room.rounds (by decide)) fun arrays s'' path _ => ?_
  have room : Room c 5 s'' := by
    unfold Room at room ⊢
    omega
  simp only [ends_bind]
  refine (kr_argument_declaration_ends good path.sound room arrays).imp fun result t h => ?_
  obtain ⟨found, arrays⟩ := result
  have path := path.call h.path
  cases found with
  | true =>
    simp only [if_true, ends_bind, ends_token]
    split
    · exact ⟨path, by rintro ⟨⟩⟩
    · exact ⟨path, h.further rfl⟩
  | false =>
    simp only [Bool.false_eq_true, if_false, ends_bind, ends_token]
    split
    case isTrue name =>
      simp only [ends_bind, ends_ident]
      split
      · simp only [ends_bind, ends_step, ends_token]
        have lt : (t.step 1).rest < s''.rest :=
          ((Path.refl path.sound).read name (by decide)).trans_le h.path.rest_le
        split
        · exact ⟨path.step 1, by rintro ⟨⟩⟩
        · exact ⟨path.step 1, lt⟩
      · simp only [ends_bind, ends_restore, ends_pure]
        exact ⟨path.back le_rfl, fun _ => rfl⟩
    case isFalse =>
      simp only [ends_bind, ends_restore, ends_pure]
      exact ⟨path.back le_rfl, fun _ => rfl⟩

theorem kr_argument_declaration_list_ends (good : c.Good) (sound : Sound s) (room : Room c 5 s)
    (types names : LongString) :
    Ends (kr_argument_declaration_list c types names) s fun a s' => Verdict s a.1 s' := by
  refine ends_verdict rfl ?_
  simp only [ends_bind, ends_save, ends_enter]
  have path := (Path.refl sound).enter
  split
  · simp only [ends_bind, ends_leave, ends_restore, ends_pure]
    exact ⟨path.leave.back le_rfl, fun _ _ => rfl⟩
  · simp only [ends_bind]
    refine (krDeclarations_ends good path (room.path path) _).imp fun result t h => ?_
    obtain ⟨retval, arrays⟩ := result
    simp only [ends_leave]
    cases retval with
    | true => exact h.1.succeeds
    | false => exact ⟨h.1.leave, fun _ _ => h.2 rfl⟩

/-! ### Declarator lists -/

theorem declaratorTail_ends (sound : Sound s) : Ends declaratorTail s fun _ s' => Path 0 s s' := by
  simp only [declaratorTail, ends_bind, ends_token]
  split
  · exact initializer_ends sound
  · split
    · exact ctor_initializer_ends sound
    · exact Path.refl sound

/-- A body, from its opening brace, and its report. -/
theorem body_ends {report : Int → Int → Int → Int → M Unit}
    (reports : ∀ {s₀ t : State} {lineno charno : Int}, Sound t → Behind s₀ t lineno charno →
      ∀ lineno_end charno_end,
        Ends (report lineno_end charno_end lineno charno) t fun _ t' => Path 0 t t')
    (sound : Sound s) (brace : tokenAt s.v s.keyw_cpp s.iva = chr '{') :
    Ends (do
      let lineno ← f_lineno 0
      let charno ← f_charno 0
      compound_statement
      report (← lineno_before) (← charno_before) lineno charno) s fun _ t =>
        Path 0 s t ∧ t.rest < s.rest := by
  have more : tokenAt s.v s.keyw_cpp s.iva ≠ 0 := by
    rw [brace]
    decide
  have inside : s.iva < s.v.length := tokenAt_inside more
  simp only [ends_bind, ends_f_lineno, ends_f_charno]
  refine (compound_statement_ends sound).imp fun _ t result => ?_
  obtain ⟨path, kept, _, further⟩ := result
  simp only [ends_lineno_before, ends_charno_before]
  have behind : Behind s t (s.v[s.iva + 0]?.getD s.eof).yylineno
      (s.v[s.iva + 0]?.getD s.eof).yycharno := by
    refine ⟨sound, path.v, path.trace, ?_, further more, ?_, ?_⟩
    · simp [State.bodies, kept]
    · cases mode : s.keyw_cpp with
      | false => exact .inl (mode ▸ brace)
      | true => exact .inr (mode ▸ brace)
    · simp [position, List.getElem?_eq_getElem inside]
  refine (reports path.sound behind _ _).imp fun _ _ h => ⟨path.call h, ?_⟩
  exact h.past (path.rest_lt inside (further more))

theorem functionBody_ends (sound : Sound s) (brace : tokenAt s.v s.keyw_cpp s.iva = chr '{')
    (x : Declaration) (r : Declarator) : Ends (functionBody x r) s fun _ t => Path 0 s t ∧ t.rest < s.rest :=
  body_ends (fun sound behind _ _ => function_ends sound behind x r _ _) sound brace

theorem methodBody_ends (sound : Sound s) (brace : tokenAt s.v s.keyw_cpp s.iva = chr '{')
    (k : Class) (x : Declaration) (r : Declarator) :
    Ends (methodBody k x r) s fun _ t => Path 0 s t ∧ t.rest < s.rest :=
  body_ends (fun sound behind _ _ => class_method_ends sound behind k x r _ _) sound brace

/-- K&R parameters are accepted, or the verdict is there. -/
theorem krTail_ends (good : c.Good) (path : Path 1 s s') (lt : s'.rest < s.rest) (room : Room c 5 s')
    (r : Declarator) :
    Ends (krTail c r) s' fun next t => next.elim
      (fun ok => Reads s ok (t.setNiveau (t.niveau - 1))) fun _ => Path 1 s t ∧ t.rest ≤ s'.rest := by
  simp only [krTail, ends_bind, ends_token]
  split
  · simp only [ends_bind]
    refine (skip_macro_ends path.sound _).imp fun skipped t h => ?_
    have le := h.path.rest_le
    have room : Room c 5 t := room.path h.path
    have path := path.call h.path
    cases skipped with
    | true => exact ⟨path, le⟩
    | false =>
      simp only [Bool.false_eq_true, if_false, ends_bind]
      refine (kr_argument_declaration_list_ends good path.sound room _ _).imp
        fun result t h => ?_
      obtain ⟨found, types, names⟩ := result
      have path := path.call h.path
      cases found with
      | true => exact ⟨path, h.path.rest_le.trans le⟩
      | false =>
        simp only [Bool.false_eq_true, if_false, ends_bind, ends_read]
        split
        · simp only [ends_bind, ends_log, ends_pure]
          exact path.unrestored _
        · exact ⟨path.succeeds, fun _ => h.path.past (le.trans_lt lt)⟩
  · exact ⟨path, le_rfl⟩

/-- What a round of a loop over declarators or specifiers comes to. -/
abbrev ListEnd {β : Type} (s s' : State) (next : β ⊕ Bool) (t : State) : Prop :=
  next.elim (fun _ => Path 1 s t ∧ t.rest < s'.rest) fun ok => Reads s ok t

theorem ListEnd.mono {β : Type} {next : β ⊕ Bool} {t u : State} (le : t.rest ≤ s'.rest)
    (h : ListEnd s t next u) : ListEnd s s' next u := by
  cases next with
  | inl x => exact ⟨h.1, h.2.trans_le le⟩
  | inr ok => exact h

/-- A list that is not accepted. -/
theorem listFails_ends {β : Type} {t : State} (path : Path 1 s t) :
    Ends (do
      restore s.iva
      leave
      return .inr false : M (β ⊕ Bool)) t (ListEnd s s') := by
  simp only [ends_bind, ends_restore, ends_leave, ends_pure]
  exact path.fails.reads

theorem declaratorRound_ends (good : c.Good) (path : Path 1 s s') (room : Room c 5 s')
    (x : Declaration) : Ends (declaratorRound c s.iva x) s' (ListEnd s s') := by
  have le := path.rest_le
  simp only [declaratorRound, ends_bind]
  refine (good.declarator path.sound room {}).imp fun result t h => ?_
  obtain ⟨found, r⟩ := result
  have room : Room c 5 t := room.path h.path
  have path := path.call h.path
  cases found with
  | true =>
    have lt : t.rest < s'.rest := h.further rfl
    simp only [if_true, ends_bind]
    refine (declaratorTail_ends path.sound).imp fun _ t h => ?_
    have lt := h.past lt
    have room : Room c 5 t := room.path h
    have path := path.call h
    simp only [ends_token]
    split
    · simp only [ends_bind]
      refine (variable_ends path.sound x r).imp fun _ t h => ?_
      simp only [ends_step, ends_pure]
      exact ⟨(path.call h).step 1, State.past_step (h.past lt) 1⟩
    · split
      · simp only [ends_bind]
        refine (variable_ends path.sound x r).imp fun _ t h => ?_
        simp only [ends_step, ends_leave, ends_pure]
        exact ⟨((path.call h).step 1).succeeds,
          fun _ => State.past_step (h.past (lt.trans_le le)) 1⟩
      · simp only [ends_bind]
        refine (krTail_ends good path (lt.trans_le le) room r).imp fun next t h => ?_
        cases next with
        | inl ok =>
          simp only [ends_bind, ends_leave, ends_pure]
          exact h
        | inr r =>
          obtain ⟨path, le'⟩ := h
          simp only [ends_bind, ends_token]
          split
          case isTrue body =>
            simp only [ends_bind]
            refine (functionBody_ends path.sound body.2 x r).imp fun _ t h => ?_
            simp only [ends_leave, ends_pure]
            exact ⟨(path.call h.1).succeeds, fun _ => h.1.past (le'.trans_lt (lt.trans_le le))⟩
          case isFalse => exact listFails_ends path
  | false => exact listFails_ends path

theorem declarator_list_ends (good : c.Good) (sound : Sound s) (room : Room c 5 s) (x : Declaration) :
    Ends (declarator_list c x) s (Reads s) := by
  refine ends_reads rfl ?_
  simp only [ends_bind, ends_save, ends_enter]
  have path := (Path.refl sound).enter
  refine path.rounds ((room.path path).rounds (by decide)) fun _ s' path _ => ?_
  exact declaratorRound_ends good path (room.path path) x

/-! ### Members -/

theorem memberTail_ends (sound : Sound s) (r : Declarator) :
    Ends (memberTail r) s fun _ s' => Path 0 s s' := by
  simp only [memberTail, ends_bind, ends_token]
  split
  · simp only [ends_bind]
    exact (initializer_ends sound).imp fun _ _ h => h
  · split
    · split
      · simp only [ends_bind]
        exact (ctor_initializer_ends sound).imp fun _ _ h => h
      · simp only [ends_bind]
        exact (constant_expression_ends sound).imp fun _ _ h => h
    · split
      · simp only [ends_bind]
        exact (ctor_initializer_ends sound).imp fun _ _ h => h
      · exact Path.refl sound

theorem memberDeclaratorRound_ends (good : c.Good) (path : Path 1 s s') (room : Room c 4 s')
    (k : Class) (x : Declaration) :
    Ends (memberDeclaratorRound c s.iva k x) s' (ListEnd s s') := by
  have le₀ := path.rest_le
  simp only [memberDeclaratorRound, ends_bind]
  refine (member_declarator_works good _ {} path.sound room).imp fun result t h => ?_
  obtain ⟨found, r⟩ := result
  have le := h.path.rest_le
  have path := path.call h.path
  cases found with
  | true =>
    simp only [if_true, ends_bind]
    refine (memberTail_ends path.sound r).imp fun r t h => ?_
    have le := h.rest_le.trans le
    have path := path.call h
    simp only [ends_token]
    -- What is left behind with a separator, after the report.
    have separator {p : Nat} {t' : State} (eq : tokenAt t.v t.keyw_cpp (t.iva + 0) = p) (ne : p ≠ 0)
        (report : Path 0 t t') : (t'.step 1).rest < s'.rest :=
      ((report.step 1).rest_lt (inside_of_token eq ne) (Nat.lt_succ_of_le report.forward)).trans_le le
    split
    case isTrue comma =>
      simp only [ends_bind]
      refine (class_member_ends path.sound k x r).imp fun _ t h => ?_
      simp only [ends_step, ends_pure]
      exact ⟨(path.call h).step 1, separator comma (by decide) h⟩
    case isFalse =>
      split
      case isTrue semicolon =>
        simp only [ends_bind]
        refine (class_member_ends path.sound k x r).imp fun _ t h => ?_
        simp only [ends_step, ends_leave, ends_pure]
        exact ⟨((path.call h).step 1).succeeds,
          fun _ => (separator semicolon (by decide) h).trans_le le₀⟩
      case isFalse =>
        split
        case isTrue brace =>
          simp only [ends_bind]
          refine (methodBody_ends path.sound brace k x r).imp fun _ t h => ?_
          simp only [ends_leave, ends_pure]
          exact ⟨(path.call h.1).succeeds, fun _ => h.2.trans_le (le.trans le₀)⟩
        case isFalse => exact listFails_ends path
  | false => exact listFails_ends path

theorem member_declarator_list_ends (good : c.Good) (sound : Sound s) (room : Room c 4 s) (k : Class)
    (x : Declaration) : Ends (member_declarator_list c k x) s (Reads s) := by
  refine ends_reads rfl ?_
  simp only [ends_bind, ends_save, ends_enter]
  have path := (Path.refl sound).enter
  refine path.rounds ((room.path path).rounds (by decide)) fun _ s' path _ => ?_
  exact memberDeclaratorRound_ends good path (room.path path) k x

/-! ### Specifiers -/

theorem typeNameRound_ends (good : c.Good) (path : Path 1 s s') (room : Room c 2 s')
    (x : Declaration) : Ends (typeNameRound c s.iva x) s' (ListEnd s s') := by
  simp only [typeNameRound, ends_bind]
  refine (classNameSpecifier_ends good path.sound room _).imp fun result t h => ?_
  obtain ⟨found, _⟩ := result
  have path := path.call h.path
  cases found with
  | true => exact ⟨path, h.further rfl⟩
  | false => exact listFails_ends path

/-- A round over the specifiers of a declaration, for any list of declarators. -/
theorem specifierRound_ends (good : c.Good) {semicolon : Declaration → M Unit}
    {declarators : Declaration → M Bool}
    (last : ∀ {t : State} (x : Declaration), Sound t → Ends (semicolon x) t fun _ t' => Path 0 t t')
    (list : ∀ {t : State} (x : Declaration), Sound t → Room c 5 t → Ends (declarators x) t (Reads t))
    (path : Path 1 s s') (room : Room c 5 s') (x : Declaration) :
    Ends (specifierRound c s.iva semicolon declarators x) s' (ListEnd s s') := by
  have le := path.rest_le
  have room₂ : Room c 2 s' := room.mono (by decide)
  have declared : Ends (do
      if ← declarators x then
        leave
        return .inr true
      else typeNameRound c s.iva x) s' (ListEnd s s') := by
    refine ends_bind.mpr ((list x path.sound room).imp fun found t h => ?_)
    have path := path.call h.path
    cases found with
    | true =>
      simp only [if_true, ends_bind, ends_leave, ends_pure]
      exact ⟨path.succeeds, fun _ => (h.further rfl).trans_le le⟩
    | false =>
      exact (typeNameRound_ends good path (room₂.path h.path) x).imp
        fun _ _ h' => ListEnd.mono h.path.rest_le h'
  simp only [specifierRound, ends_bind, ends_token]
  split
  case isTrue semi =>
    simp only [ends_bind, ends_step]
    have lt : (s'.step 1).rest < s.rest := path.read semi (by decide)
    have path := path.step 1
    refine (last x path.sound).imp fun _ t h => ?_
    simp only [ends_leave, ends_pure]
    exact ⟨(path.call h).succeeds, fun _ => h.past lt⟩
  case isFalse =>
    split
    case isTrue key =>
      have inside : s'.iva < s'.v.length := tokenAt_inside (ne_zero_of_mem key (by decide))
      simp only [ends_bind]
      refine (good.f_class path.sound room₂ inside _ _).imp fun result t h => ?_
      obtain ⟨found, x', k⟩ := result
      have path := path.call h.path
      cases found with
      | true => exact ⟨path, h.further rfl⟩
      | false => exact listFails_ends path
    case isFalse =>
      split
      case isTrue key =>
        have inside : s'.iva < s'.v.length := inside_of_token key (by decide)
        simp only [ends_bind]
        refine (f_enum_ends path.sound (room.mono (by decide)) inside _ _).imp
          fun result t h => ?_
        obtain ⟨found, x', e⟩ := result
        have path := path.call h.path
        cases found with
        | true => exact ⟨path, h.further rfl⟩
        | false => exact listFails_ends path
      case isFalse =>
        split
        · simp only [ends_bind]
          refine notDeclarator_ends fun taken => ?_
          cases taken with
          | true => exact typeNameRound_ends good path room₂ x
          | false => exact declared
        · split
          · exact declared
          · split
            · simp only [ends_bind]
              refine (list x path.sound room).imp fun found t h => ?_
              have path := path.call h.path
              cases found with
              | true =>
                simp only [if_true, ends_bind, ends_leave, ends_pure]
                exact ⟨path.succeeds, fun _ => (h.further rfl).trans_le le⟩
              | false => exact listFails_ends path
            · split
              case h_1 y specified =>
                simp only [ends_bind, ends_step]
                exact ⟨path.step 1, (Path.refl path.sound).read rfl (specify_ne_zero specified)⟩
              case h_2 => exact listFails_ends path

theorem _member_declaration_ends (good : c.Good) (sound : Sound s) (room : Room c 5 s) (k : Class) :
    Ends (_member_declaration c k) s (Reads s) := by
  refine ends_reads rfl ?_
  simp only [ends_bind, ends_save, ends_enter]
  have path := (Path.refl sound).enter
  refine path.rounds ((room.path path).rounds (by decide)) fun x s' path _ => ?_
  refine specifierRound_ends good ?_ ?_ path (room.path path) x
  · intro t x sound
    exact (class_empty_declarator_list_ends (Path.refl sound) k x).imp fun _ _ h => h.1
  · intro t x sound room
    exact member_declarator_list_ends good sound (room.mono (by decide)) k x

theorem obj_declaration_ends (good : c.Good) (sound : Sound s) (room : Room c 5 s)
    (x : Declaration) : Ends (obj_declaration c x) s (Reads s) := by
  refine ends_reads rfl ?_
  simp only [ends_bind, ends_save, ends_enter]
  have path := (Path.refl sound).enter
  refine path.rounds ((room.path path).rounds (by decide)) fun x s' path _ => ?_
  refine specifierRound_ends good ?_ ?_ path (room.path path) x
  · intro t x sound
    exact Path.refl sound
  · intro t x sound room
    exact declarator_list_ends good sound room x

/-! ### Readings -/

/-- Readings on a path: on failure the mode is what it was, unless something was out of order. -/
structure Tried (s : State) (ok : Bool) (s' : State) : Prop where
  path : Path 0 s s'
  restored : ok = false → s'.Orderly → s'.iva = s.iva
  mode : ok = false → s'.Orderly → s'.keyw_cpp = s.keyw_cpp
  further : ok = true → s'.rest < s.rest

theorem reading_ends {m : M Bool} (run : Ends m s (Reads s)) : Ends (reading m) s (Tried s) := by
  simp only [reading, ends_bind, ends_read]
  refine run.imp fun found t h => ?_
  cases found with
  | true => exact ⟨h.path, (by rintro ⟨⟩), (by rintro ⟨⟩), h.further⟩
  | false =>
    simp only [Bool.false_eq_true, if_false, ends_bind, ends_read, ends_log, ends_pure]
    have path : Path 0 s (t.log (.failed s.keyw_cpp t.keyw_cpp)) :=
      h.path.log trivial (fun _ => trivial) (fun _ => trivial) trivial
    refine ⟨path, fun _ orderly => ?_, fun _ orderly => ?_, by rintro ⟨⟩⟩
    · exact h.restored rfl fun e mem => orderly e (List.mem_append_left _ mem)
    · exact orderly (.failed s.keyw_cpp t.keyw_cpp)
        (List.mem_append_right _ (List.mem_singleton_self _))

theorem choosing_ends {m : M Bool} (run : Ends m s (Tried s)) : Ends (choosing m) s (Tried s) := by
  simp only [choosing, ends_bind, ends_read]
  refine run.imp fun found t h => ?_
  simp only [ends_log, ends_pure]
  have before (orderly : (t.log (.chosen found s.keyw_cpp t.keyw_cpp)).Orderly) : t.Orderly :=
    fun e mem => orderly e (List.mem_append_left _ mem)
  refine ⟨h.path.log trivial (fun _ => trivial) ?_ trivial, ?_, ?_, h.further⟩
  · exact fun orderly failed => h.mode failed (before orderly)
  · exact fun failed orderly => h.restored failed (before orderly)
  · exact fun failed orderly => h.mode failed (before orderly)

/-- Between two readings: unless something was out of order, the position is where the readings
began, and the mode is the first one or the other one. -/
structure Between (s : State) (other : Bool) (t : State) : Prop where
  path : Path 0 s t
  place : t.Orderly → t.iva = s.iva
  mode : t.Orderly → t.keyw_cpp = (s.keyw_cpp ^^ other)

namespace Between

variable {t u : State} {other : Bool}

theorem start (sound : Sound s) : Between s false s :=
  ⟨Path.refl sound, fun _ => rfl, fun _ => (Bool.xor_false _).symm⟩

theorem setTry (h : Between s other t) (n : Nat) : Between s other (t.setTry n) :=
  ⟨h.path.setTry n, h.place, h.mode⟩

theorem switch (h : Between s other t) : Between s (!other) t.switch := by
  refine ⟨h.path.switch, h.place, fun orderly => ?_⟩
  change (!t.keyw_cpp) = _
  rw [h.mode orderly, Bool.xor_not]

theorem failed (h : Between s other t) (h' : Tried t false u) : Between s other u :=
  ⟨h.path.call h'.path,
    fun orderly => (h'.restored rfl orderly).trans (h.place (h'.path.orderly orderly)),
    fun orderly => (h'.mode rfl orderly).trans (h.mode (h'.path.orderly orderly))⟩

theorem found (h : Between s other t) (h' : Tried t true u) : Tried s true u :=
  ⟨h.path.call h'.path, (by rintro ⟨⟩), (by rintro ⟨⟩),
    fun _ => (h'.further rfl).trans_le h.path.rest_le⟩

/-- All readings failed, and the mode is the first one. -/
theorem tried (h : Between s false t) : Tried s false t :=
  ⟨h.path, fun _ => h.place, fun _ orderly => (h.mode orderly).trans (Bool.xor_false _),
    by rintro ⟨⟩⟩

end Between

theorem memberReadings_ends (good : c.Good) (sound : Sound s) (room : Room c 5 s) (k : Class) :
    Ends (memberReadings c k) s (Tried s) := by
  simp only [memberReadings, ends_bind]
  refine (reading_ends (_member_declaration_ends good sound room k)).imp fun found t h => ?_
  cases found with
  | true => exact h
  | false =>
    simp only [Bool.false_eq_true, if_false, ends_bind, switchMode]
    have h := ((Between.start sound).failed h).switch
    refine (reading_ends (_member_declaration_ends good h.path.sound (room.path h.path) k)).imp
      fun found t h' => ?_
    cases found with
    | true => exact h.found h'
    | false =>
      simp only [Bool.false_eq_true, if_false]
      exact (h.failed h').switch.tried

/-- A closing brace or an access label. -/
def endsMember (s : State) : Bool :=
  tokenAt s.v s.keyw_cpp s.iva = chr '}' || accessLabel s.left

theorem endsMember_iff :
    endsMember s = true ↔ tokenAt s.v s.keyw_cpp s.iva = chr '}' ∨ accessLabel s.left = true := by
  simp [endsMember]

theorem endsMember_congr (v : s'.v = s.v) (iva : s'.iva = s.iva) (mode : s'.keyw_cpp = s.keyw_cpp) :
    endsMember s' = endsMember s := by
  simp [endsMember, State.left, v, iva, mode]

/-- The measure of the loop over members, which goes on without a step only where a member ends. -/
def memberMeasure (s : State) : Nat := 2 * s.rest + if endsMember s then 0 else 1

theorem memberMeasure_le : memberMeasure s ≤ 2 * s.rest + 1 := by
  unfold memberMeasure
  split <;> omega

theorem member_declaration_ends (good : c.Good) (sound : Sound s) (room : Room c 5 s) (k : Class) :
    Ends (member_declaration c k) s fun ok s' => Path 0 s s' ∧
      (ok = true → s'.rest < s.rest ∨ endsMember s' = true) := by
  refine (ends_verdict_and (P := fun (ok : Bool) s' => ok = true → s'.rest < s.rest ∨
    endsMember s' = true) rfl ?_ fun _ _ _ h => h).imp fun _ _ h => ⟨h.1.path, h.2⟩
  simp only [ends_bind]
  refine (choosing_ends (memberReadings_ends good sound room k)).imp fun found t h => ?_
  cases found with
  | true => exact ⟨⟨h.path, by rintro ⟨⟩⟩, fun _ => .inl (h.further rfl)⟩
  | false =>
    simp only [Bool.false_eq_true, if_false, ends_bind, ends_save]
    refine (skip_member_declaration_ends h.path.sound).imp fun ok u result => ?_
    obtain ⟨path, mode, further⟩ := result
    cases ok with
    | true =>
      refine ⟨⟨h.path.call path, by rintro ⟨⟩⟩, fun _ => ?_⟩
      rcases further rfl with lt | ⟨place, stops⟩
      · exact .inl (lt.trans_le h.path.rest_le)
      · refine .inr ?_
        rw [endsMember_congr path.v place mode, endsMember_iff]
        exact stops
    | false =>
      simp only [Bool.false_eq_true, if_false, ends_bind, ends_save]
      have path' := h.path.call path
      split
      case isTrue moved =>
        simp only [ends_bind, ends_log, ends_pure]
        have logged : Path 0 s (u.log (.unrestored .member_declaration)) :=
          path'.log trivial (fun _ => trivial) (fun _ => trivial) trivial
        refine ⟨⟨logged, fun _ orderly => ?_⟩, by rintro ⟨⟩⟩
        exact (orderly (.unrestored .member_declaration)
          (List.mem_append_right _ (List.mem_singleton_self _))).elim
      case isFalse same =>
        refine ⟨⟨path', fun _ orderly => ?_⟩, by rintro ⟨⟩⟩
        rw [not_not.mp same]
        exact h.restored rfl (path.orderly orderly)

/-- The macro calls before a member are left behind. -/
theorem skippedMacros_end (sound : Sound s) (room : Room c 1 s) :
    Ends (loop c.fuel (fun () => do
      if ← skip_member_macro then pure (.inl ()) else pure (.inr ())) ()) s fun _ s' =>
        Path 0 s s' ∧ (s'.rest < s.rest ∨ s'.iva = s.iva ∧ s'.keyw_cpp = s.keyw_cpp) := by
  refine runs_loop (I := fun _ t => Path 0 s t ∧
    (t.rest < s.rest ∨ t.iva = s.iva ∧ t.keyw_cpp = s.keyw_cpp)) (μ := fun _ t => t.rest) ?_
    ⟨Path.refl sound, .inr ⟨rfl, rfl⟩⟩ (room.rounds Nat.one_pos)
  intro _ t ⟨path, place⟩
  change Ends _ t _
  simp only [ends_bind]
  refine (skip_member_macro_ends path.sound).imp fun skipped u result => ?_
  obtain ⟨path', mode, further, same⟩ := result
  cases skipped with
  | true =>
    have lt := further rfl
    exact ⟨⟨path.call path', .inl (lt.trans_le path.rest_le)⟩, lt⟩
  | false =>
    refine ⟨path.call path', ?_⟩
    rcases place with lt | ⟨iva, keyw_cpp⟩
    · exact .inl (path'.past lt)
    · exact .inr ⟨(same rfl).trans iva, mode.trans keyw_cpp⟩

/-- A member that is not the last one brings the list on. -/
theorem member_ends (good : c.Good) (sound : Sound s) (room : Room c 5 s) (k : Class) :
    Ends (member c k) s fun a s' => Path 0 s s' ∧
      (a.1 = true → memberMeasure s' < memberMeasure s) := by
  refine ends_callVoid ?_ fun _ _ _ h => h
  simp only [ends_bind]
  refine (skippedMacros_end sound (room.mono (by decide))).imp fun _ t result => ?_
  obtain ⟨path, place⟩ := result
  have room := room.path path
  have start : memberMeasure t ≤ memberMeasure s := by
    rcases place with lt | ⟨iva, mode⟩
    · have bound := memberMeasure_le (s := t)
      have low : 2 * s.rest ≤ memberMeasure s := Nat.le_add_right _ _
      omega
    · unfold memberMeasure
      rw [endsMember_congr path.v iva mode, State.rest, State.rest, path.v, iva]
  -- A token left behind brings the measure down.
  have lower {u : State} (lt : u.rest < t.rest) : memberMeasure u < memberMeasure s := by
    have bound := memberMeasure_le (s := u)
    have low : 2 * t.rest ≤ memberMeasure t := Nat.le_add_right _ _
    omega
  simp only [ends_enter, ends_token]
  have room : Room c 5 (t.setNiveau (t.niveau + 1)) := room
  have path := path.enter
  split
  · simp only [ends_bind, ends_leave, ends_pure]
    exact ⟨path.leave, by rintro ⟨⟩⟩
  case isFalse brace =>
    split
    case isTrue key =>
      have lt : ((t.setNiveau (t.niveau + 1)).step 1).rest < t.rest := by
        rcases key with key | key | key
        · exact (Path.refl path.sound).read key (by decide)
        · exact (Path.refl path.sound).read key (by decide)
        · exact (Path.refl path.sound).read key (by decide)
      simp only [ends_bind, ends_token]
      split
      · simp only [ends_bind, ends_step, ends_leave, ends_pure]
        exact ⟨((path.step 1).step 1).leave, fun _ => lower (State.past_step lt 1)⟩
      · simp only [ends_bind, ends_step, ends_leave, ends_pure]
        exact ⟨(path.step 1).leave, fun _ => lower lt⟩
    case isFalse key =>
      simp only [ends_bind]
      refine (member_declaration_ends good path.sound room k).imp
        fun more u result => ?_
      obtain ⟨path', further⟩ := result
      simp only [ends_leave, ends_pure]
      refine ⟨(path.call path').leave, fun ok => ?_⟩
      rcases further ok with lt | stops
      · exact lower lt
      · refine Nat.lt_of_lt_of_le ?_ start
        have le : u.rest ≤ t.rest := path'.rest_le
        have other : ¬ endsMember t = true := by
          rw [endsMember_iff]
          rintro (closing | label)
          · exact brace closing
          · refine key ?_
            rcases (of_decide_eq_true label).1 with eq | eq | eq
            · exact .inl (token_left.symm.trans eq)
            · exact .inr (.inl (token_left.symm.trans eq))
            · exact .inr (.inr (token_left.symm.trans eq))
        change memberMeasure u < memberMeasure t
        rw [memberMeasure, memberMeasure, if_pos stops, if_neg other]
        omega

end SourceNavigator.Cpp.FirstPass

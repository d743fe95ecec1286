import SourceNavigator.Cpp.FirstPass.Rules

/-!
The functions of the first pass that step over tokens, and its reports, end or
come to a loop without an end, and keep what `Path` says.
-/

namespace SourceNavigator.Cpp.FirstPass

open Lib Lib.Program

variable {s s' s₀ : State} {d : Int}

/-! ### The loops are left at the end of the file -/

section Exit

variable {β : Type}

/-- A loop that is left at the token `0`. -/
def ExitsAtEnd (next : β → List StackEntry → Option β) : Prop := ∀ b, next b [] = none

theorem exits_brackets (opening closing : Char) : ExitsAtEnd (brackets opening closing) := by
  intro b
  simp [brackets, Cpp.token]

theorem exits_untilToken (stop : List Nat) : ExitsAtEnd (untilToken stop) := by
  intro b
  simp [untilToken, Cpp.token]

theorem exits_initializer : ExitsAtEnd initializerNext := by
  intro b
  simp [initializerNext, Cpp.token, chr]

theorem exits_constant : ExitsAtEnd constantNext := by
  intro b
  simp [constantNext, Cpp.token, chr]

theorem exits_compound : ExitsAtEnd compoundNext := by
  intro b
  simp [compoundNext, Cpp.token]

theorem exits_template : ExitsAtEnd templateNext := by
  intro b
  simp [templateNext, Cpp.token]

theorem exits_declarationEnd : ExitsAtEnd declarationEnd := by
  intro b
  simp [declarationEnd, Cpp.token, chr]

theorem exits_memberEnd : ExitsAtEnd memberEnd := by
  intro b
  simp [memberEnd, Cpp.token]

theorem exits_namespace : ExitsAtEnd namespaceNext := by
  intro b
  simp [namespaceNext, Cpp.token]

theorem exits_qualifier : ExitsAtEnd qualifierNext := by
  intro b
  simp [qualifierNext, Cpp.token]

theorem exits_strings : ExitsAtEnd fun (_ : Unit) ts =>
    if Cpp.token ts 0 = SN_STRINGliteral then some () else none := by
  intro b
  simp [Cpp.token]

theorem exits_ansi : ExitsAtEnd ansiEnd := by
  intro b
  simp [ansiEnd, Cpp.token, chr]

theorem exits_argument : ExitsAtEnd argumentEnd := by
  intro b
  simp [argumentEnd, Cpp.token, chr]

end Exit

/-- A loop over tokens on a path. -/
theorem Path.scanning {β : Type} {next : β → List StackEntry → Option β} {b : β}
    {Q : β → State → Prop} (path : Path d s s') (exits : ExitsAtEnd next)
    (found : ∀ k b', Path d s (s'.step k) → next b' (s'.step k).left = none → (k = 0 → b' = b) →
      Q b' (s'.step k)) : Ends (scanning next b) s' Q :=
  ends_scanning (I := fun _ => True) exits trivial (fun _ _ _ _ _ => trivial)
    fun k b' stops none _ => found k b' (path.step k) stops none

/-- A loop without a test for the end of the file, on a path. -/
theorem Path.skipping {β : Type} {next : β → List StackEntry → Option β} {b : β} {loop : SkipLoop}
    {Q : β → State → Prop} (path : Path d s s')
    (closes : loop.Closes s'.left ↔ (scan next b s'.left).isSome)
    (found : ∀ b' s'', Path d s s'' → s'.iva ≤ s''.iva → s''.keyw_cpp = s'.keyw_cpp → Q b' s'') :
    Ends (skipping loop next b) s' Q := by
  refine ends_skipping path.sound closes fun k b' sound => found b' _ ⟨?_, ?_, ?_, ?_, sound⟩ ?_ rfl
  · exact path.v
  · exact path.niveau
  · exact path.forward.trans (Nat.le_add_right _ _)
  · exact path.trace.trans (List.prefix_append _ _)
  · exact Nat.le_add_right _ _

/-! ### Skipping -/

theorem asm_declaration_ends (sound : Sound s) (inside : s.iva < s.v.length) :
    Ends asm_declaration s (Reads s) := by
  refine ends_reads rfl ?_
  simp only [ends_bind, ends_enter]
  refine (Path.refl sound).enter.scanning (exits_untilToken _) fun k _ path _ _ => ?_
  simp only [ends_step, ends_leave, ends_pure]
  exact ⟨(path.step 1).succeeds, fun _ => (path.step 1).rest_lt inside (by simp only [State.step_iva, State.setNiveau_iva]; omega)⟩

theorem initializer_ends (sound : Sound s) : Ends initializer s fun _ s' => Path 0 s s' := by
  refine ends_path ?_
  simp only [ends_bind, ends_enter]
  refine (Path.refl sound).enter.scanning exits_initializer fun k _ path _ _ => ?_
  exact path.leave

theorem ctor_initializer_ends (sound : Sound s) :
    Ends ctor_initializer s fun _ s' => Path 0 s s' := by
  refine ends_path ?_
  simp only [ends_bind, ends_enter]
  refine (Path.refl sound).enter.scanning (exits_untilToken _) fun k _ path _ _ => ?_
  simp only [ends_token]
  split
  · simp only [ends_bind, ends_token]
    split
    · exact (path.step 1).leave
    · exact path.leave
  · exact path.leave

theorem constant_expression_ends (sound : Sound s) :
    Ends constant_expression s fun _ s' => Path 0 s s' := by
  refine ends_path ?_
  simp only [ends_bind, ends_enter]
  refine (Path.refl sound).enter.scanning exits_constant fun k _ path _ _ => ?_
  exact path.leave

/-- The body of a function: `niveau` follows the braces. -/
theorem compound_statement_ends (sound : Sound s) :
    Ends compound_statement s fun _ s' => Path 0 s s' ∧
      s'.reports = s.reports ∧ s'.keyw_cpp = s.keyw_cpp ∧
      (tokenAt s.v s.keyw_cpp s.iva ≠ 0 → s.iva < s'.iva) := by
  refine ends_callVoid ?_ fun _ _ _ h => h
  simp only [ends_bind, ends_read, ends_enter]
  refine ends_scanning (I := fun b => b.niveau = s.niveau + 1 + b.paren1) exits_compound (by simp) ?_ ?_
  · intro b ts b' next kept
    unfold compoundNext at next
    dsimp only at next
    split at next
    · cases next
    · split at next
      · obtain rfl := Option.some.inj next
        simp only
        omega
      · split at next
        · obtain rfl := Option.some.inj next
          simp only
          omega
        · obtain rfl := Option.some.inj next
          exact kept
  · intro k b' stops none kept
    have path := (Path.refl sound).enter.step k
    have further : tokenAt s.v s.keyw_cpp s.iva ≠ 0 → s.iva < s.iva + k := by
      intro more
      rcases Nat.eq_zero_or_pos k with rfl | pos
      · rw [none rfl] at stops
        simp only [compoundNext, token_left, State.step_v, State.step_keyw_cpp, State.step_iva,
          State.setNiveau_v, State.setNiveau_keyw_cpp, State.setNiveau_iva, Nat.add_zero, more,
          Bool.false_eq_true, false_and, or_self, if_false] at stops
        split at stops
        · cases stops
        · split at stops <;> cases stops
      · omega
    have niveau : ∀ n, n = s.niveau → Path 0 s (((s.setNiveau (s.niveau + 1)).step k).setNiveau n) :=
      fun n eq => ⟨path.v, eq.trans (Int.add_zero _).symm, path.forward, path.trace, path.sound.setNiveau n⟩
    split
    · simp only [ends_setNiveau]
      refine ⟨niveau _ ?_, rfl, rfl, further⟩
      simp only [kept]
      omega
    · simp only [ends_setNiveau]
      exact ⟨niveau _ rfl, rfl, rfl, further⟩

theorem template_argument_skip_ends (sound : Sound s) (plstr : LongString) :
    Ends (template_argument_skip plstr) s fun _ s' => Path 0 s s' ∧ s.iva < s'.iva := by
  refine ends_callVoid ?_ fun _ _ _ h => h
  simp only [ends_bind, ends_enter, ends_step]
  refine ((Path.refl sound).enter.step 1).scanning exits_template fun k _ path _ _ => ?_
  simp only [ends_token]
  split
  · simp only [ends_bind, ends_leave, ends_pure]
    exact ⟨path.leave, by simp only [State.step_iva, State.setNiveau_iva]; omega⟩
  · simp only [ends_bind, ends_step, ends_leave, ends_pure]
    exact ⟨(path.step 1).leave, by simp only [State.step_iva, State.setNiveau_iva]; omega⟩

theorem skip_declaration_ends (sound : Sound s) :
    Ends skip_declaration s fun _ s' => Path 0 s s' ∧
      (s'.rest < s.rest ∨ tokenAt s'.v s'.keyw_cpp s'.iva = 0) := by
  refine ends_callVoid ?_ fun _ _ _ h => h
  simp only [ends_bind, ends_enter]
  refine (Path.refl sound).enter.scanning exits_declarationEnd fun k _ path _ _ => ?_
  simp only [ends_token]
  split
  case isTrue atEnd =>
    simp only [ends_leave]
    exact ⟨path.leave, .inr atEnd⟩
  case isFalse more =>
    simp only [ends_bind, ends_step, ends_leave]
    refine ⟨(path.step 1).leave, .inl ((path.step 1).rest_lt ?_ (by simp only [State.step_iva, State.setNiveau_iva]; omega))⟩
    have inside := tokenAt_inside more
    simp only [State.step_v, State.step_iva, State.setNiveau_v, State.setNiveau_iva] at inside
    omega

/-- A member that is skipped is left behind, unless the skipping stops at its first token: at a
closing brace, or at an access label. -/
theorem skip_member_declaration_ends (sound : Sound s) :
    Ends skip_member_declaration s fun ok s' => Path 0 s s' ∧ s'.keyw_cpp = s.keyw_cpp ∧
      (ok = true → s'.rest < s.rest ∨ s'.iva = s.iva ∧
        (tokenAt s.v s.keyw_cpp s.iva = chr '}' ∨ accessLabel s.left = true)) := by
  refine ends_free rfl ?_ fun _ _ _ h => h
  simp only [ends_bind, ends_enter]
  refine (Path.refl sound).enter.scanning exits_memberEnd fun k b path stops none => ?_
  simp only [ends_token]
  split
  · simp only [ends_bind, ends_leave, ends_pure]
    exact ⟨path.leave, rfl, by rintro ⟨⟩⟩
  case isFalse more =>
    have inside : s.iva + k < s.v.length := tokenAt_inside more
    simp only [ends_bind, ends_token]
    split
    · simp only [ends_bind, ends_step, ends_leave, ends_pure]
      refine ⟨(path.step 1).leave, rfl, fun _ => .inl ((path.step 1).rest_lt ?_ (by simp only [State.step_iva, State.setNiveau_iva]; omega))⟩
      omega
    case isFalse semicolon =>
      simp only [ends_bind, ends_leave, ends_pure]
      refine ⟨path.leave, rfl, fun _ => ?_⟩
      rcases Nat.eq_zero_or_pos k with rfl | pos
      · refine .inr ⟨rfl, ?_⟩
        obtain rfl := none rfl
        by_contra other
        obtain ⟨brace, label⟩ := not_or.mp other
        simp only [State.step_v, State.step_keyw_cpp, State.step_iva, State.setNiveau_v,
          State.setNiveau_keyw_cpp, State.setNiveau_iva, Nat.add_zero] at more semicolon
        have left : ((s.setNiveau (s.niveau + 1)).step 0).left = s.left := rfl
        rw [memberEnd, left, token_left, Nat.add_zero] at stops
        simp [more, semicolon, brace, label] at stops
        split at stops <;> simp_all
      · exact .inl (path.rest_lt (by omega) (by simp only [State.step_iva, State.setNiveau_iva]; omega))

theorem skip_expression_ends (sound : Sound s) :
    Ends skip_expression s fun _ s' => Path 0 s s' := by
  refine ends_path ?_
  simp only [ends_bind, ends_enter]
  refine (Path.refl sound).enter.skipping Iff.rfl fun _ s' path _ _ => ?_
  exact path.leave

/-- A macro call on a path. -/
theorem Path.macroCall {Q : Unit → State → Prop} (path : Path d s s')
    (found : ∀ s'', Path d s s'' → s'.iva ≤ s''.iva → s''.keyw_cpp = s'.keyw_cpp → Q () s'') :
    Ends macroCall s' Q := by
  simp only [FirstPass.macroCall, ends_bind]
  refine path.skipping Iff.rfl fun _ s'' path le mode => ?_
  exact found s'' path le mode

theorem skip_macro_ends (sound : Sound s) (t : Nat) :
    Ends ( skip_macro t) s fun ok s' => Verdict s ok s' := by
  refine ends_verdict rfl ?_
  simp only [ends_bind, ends_save, ends_enter, ends_token]
  have path := (Path.refl sound).enter
  -- Whether the macro call is followed by the token.
  have tail : ∀ s', Path 1 s s' → Ends (do
      if (← token 0) = t then
        leave
        pure true
      else
        leave
        restore s.iva
        pure false) s' fun ok s'' => Verdict s ok s'' := by
    intro s' path
    simp only [ends_bind, ends_token]
    split
    · simp only [ends_bind, ends_leave, ends_pure]
      exact path.succeeds
    · simp only [ends_bind, ends_leave, ends_restore, ends_pure]
      exact ⟨path.leave.back (Nat.le_refl _), fun _ _ => rfl⟩
  split
  · simp only [ends_bind, ends_step, ends_token]
    split
    · simp only [ends_bind, ends_step]
      exact ((path.step 1).step 1).macroCall fun s' path _ _ => tail s' path
    · exact tail _ (path.step 1)
  · exact tail _ path

theorem skip_macro_2_ends (sound : Sound s) : Ends skip_macro_2 s fun _ s' => Path 0 s s' := by
  refine ends_path ?_
  simp only [ends_bind, ends_enter, ends_token]
  have path := (Path.refl sound).enter
  split
  · simp only [ends_bind, ends_step]
    exact (path.step 2).macroCall fun s' path _ _ => path.leave
  · exact path.leave

/-- A macro call among the members is left behind, or everything is as it was. -/
theorem skip_member_macro_ends (sound : Sound s) :
    Ends skip_member_macro s fun ok s' => Path 0 s s' ∧ s'.keyw_cpp = s.keyw_cpp ∧
      (ok = true → s'.rest < s.rest) ∧ (ok = false → s'.iva = s.iva) := by
  refine (ends_verdict_and (P := fun ok s' => s'.keyw_cpp = s.keyw_cpp ∧ (ok = true → s'.rest < s.rest) ∧
    (ok = false → s'.iva = s.iva)) rfl ?_ fun _ _ _ h => h).imp fun _ _ h => ⟨h.1.path, h.2⟩
  simp only [ends_bind, ends_save, ends_enter, ends_token]
  have path := (Path.refl sound).enter
  have fails : ∀ s', Path 1 s s' → s'.keyw_cpp = s.keyw_cpp → Ends (do
      leave
      restore s.iva
      pure false) s' fun ok s'' => Verdict s ok s'' ∧ s''.keyw_cpp = s.keyw_cpp ∧
        (ok = true → s''.rest < s.rest) ∧ (ok = false → s''.iva = s.iva) := by
    intro s' path mode
    simp only [ends_bind, ends_leave, ends_restore, ends_pure]
    exact ⟨⟨path.leave.back (Nat.le_refl _), fun _ _ => rfl⟩, mode, (by rintro ⟨⟩), fun _ => rfl⟩
  split
  case isTrue name =>
    have inside : s.iva < s.v.length := inside_of_token name (by decide)
    simp only [ends_bind, ends_step, ends_token]
    split
    · simp only [ends_bind, ends_step]
      refine ((path.step 1).step 1).macroCall fun s' path le mode => ?_
      simp only [ends_token, ends_pure]
      split
      · simp only [ends_bind, ends_leave, ends_pure]
        simp only [State.step_iva, State.setNiveau_iva] at le
        exact ⟨path.succeeds, mode, fun _ => path.leave.rest_lt inside (by simp only [State.setNiveau_iva]; omega),
          by rintro ⟨⟩⟩
      · exact fails s' path mode
    · exact fails _ (path.step 1) rfl
  case isFalse => exact fails _ path rfl

theorem function_argument_base_spec_ends (sound : Sound s) :
    Ends function_argument_base_spec s fun ok s' => Verdict s ok s' := by
  refine ends_verdict rfl ?_
  simp only [ends_bind, ends_save, ends_enter]
  refine (Path.refl sound).enter.scanning (exits_untilToken _) fun k _ path _ _ => ?_
  simp only [ends_token]
  split
  · simp only [ends_bind, ends_restore, ends_leave, ends_pure]
    exact path.fails
  · simp only [ends_bind, ends_leave, ends_pure]
    exact path.succeeds

theorem namespace_name_ends (sound : Sound s) (plstr : LongString) :
    Ends (namespace_name plstr) s fun a s' => Path 0 s s' ∧ a.1 = true := by
  have stable (a : Bool × LongString) (s' : State) (e : Event) : a.1 = true → a.1 = true := id
  refine (ends_verdict_and (P := fun a _ => a.1 = true) rfl ?_ stable).imp fun _ _ h => ⟨h.1.path, h.2⟩
  simp only [ends_bind, ends_enter]
  refine (Path.refl sound).enter.scanning exits_namespace fun k _ path _ _ => ?_
  simp only [ends_leave, ends_pure]
  exact ⟨path.succeeds, trivial⟩

/-! ### Reports -/

theorem variable_ends (sound : Sound s) (x : Declaration) (r : Declarator) :
    Ends (variable_ x r) s fun _ s' => Path 0 s s' := by
  unfold variable_
  dsimp only
  split
  · exact Path.refl sound
  · refine ends_path ?_
    simp only [ends_bind, ends_enter]
    have path := (Path.refl sound).enter
    split
    · exact path.leave
    · split
      · simp only [ends_bind, ends_f_lineno, ends_f_charno, ends_symbol]
        exact (path.symbol _).leave
      · split
        · simp only [ends_bind, ends_f_lineno, ends_f_charno, ends_symbol]
          exact (path.symbol _).leave
        · simp only [ends_bind, ends_f_lineno, ends_f_charno, ends_symbol]
          exact (path.symbol _).leave

theorem class_member_ends (sound : Sound s) (k : Class) (x : Declaration) (r : Declarator) :
    Ends (class_member k x r) s fun _ s' => Path 0 s s' := by
  refine ends_path ?_
  simp only [ends_bind, ends_enter]
  have path := (Path.refl sound).enter
  split
  · simp only [ends_bind, ends_f_lineno, ends_f_charno, ends_symbol]
    exact (path.symbol _).leave
  · split
    · split
      · simp only [ends_bind, ends_f_lineno, ends_f_charno, ends_symbol]
        exact (path.symbol _).leave
      · simp only [ends_bind, ends_f_lineno, ends_f_charno, ends_symbol]
        exact (path.symbol _).leave
    · split
      · split
        · simp only [ends_bind, ends_f_lineno, ends_f_charno, ends_symbol]
          exact ((path.symbol _).symbol _).leave
        · simp only [ends_bind, ends_f_lineno, ends_f_charno, ends_symbol]
          exact (path.symbol _).leave
      · exact path.leave

theorem class_empty_declarator_list_ends (path : Path d s s') (k : Class) (x : Declaration) :
    Ends (class_empty_declarator_list k x) s' fun _ s'' => Path d s s'' ∧ s''.iva = s'.iva := by
  unfold class_empty_declarator_list
  split
  · split
    · exact ⟨path, rfl⟩
    · exact ⟨path.symbol _, rfl⟩
  · exact ⟨path, rfl⟩

/-- Behind the body that begins at the first token of `s₀`, with nothing but symbols reported since
then. -/
structure Behind (s₀ s : State) (lineno charno : Int) : Prop where
  sound : Sound s₀
  v : s.v = s₀.v
  trace : s₀.trace <+: s.trace
  bodies : s.bodies = s₀.bodies
  lt : s₀.iva < s.iva
  opens : Opens s₀.v s₀.iva
  brace : (lineno, charno) = position s₀.v s₀.iva

theorem Behind.symbol {lineno charno : Int} (behind : Behind s₀ s lineno charno) (x : Symbol) :
    Behind s₀ (s.report (.symbol x)) lineno charno where
  sound := behind.sound
  v := behind.v
  trace := behind.trace
  bodies := by
    rw [← behind.bodies]
    simp [State.bodies, State.report, Report.brace]
  lt := behind.lt
  opens := behind.opens
  brace := behind.brace

theorem Behind.setNiveau {lineno charno : Int} (behind : Behind s₀ s lineno charno) (n : Int) :
    Behind s₀ (s.setNiveau n) lineno charno :=
  ⟨behind.sound, behind.v, behind.trace, behind.bodies, behind.lt, behind.opens, behind.brace⟩

/-- The body comes behind those that were reported before. -/
theorem Behind.report {b : Body} (behind : Behind s₀ s b.start_lineno b.start_colpos)
    (sound : Sound s) : Sound (s.report (.body b)) := by
  obtain ⟨⟨balanced, restores, keepsMode, ordered⟩, closed⟩ := sound
  refine ⟨⟨balanced, restores, keepsMode, fun increasing clear => ?_⟩, closed⟩
  have increasing₀ : Increasing s₀.v := behind.v ▸ increasing
  have clear₀ : ∀ e ∈ s₀.trace, e.Clear s₀.v := fun e mem =>
    behind.v ▸ clear e (behind.trace.subset mem)
  obtain ⟨braces, rising, below, eq⟩ := behind.sound.kept.ordered increasing₀ clear₀
  refine ⟨braces ++ [s₀.iva], ?_, ?_, ?_⟩
  · refine List.pairwise_append.mpr ⟨rising, List.pairwise_singleton _ _, ?_⟩
    intro i mem j last
    rw [List.mem_singleton.mp last]
    exact (below i mem).1
  · intro i mem
    have lt := behind.lt
    change i < s.iva ∧ Opens s.v i
    rw [behind.v]
    rcases List.mem_append.mp mem with mem | mem
    · exact ⟨(below i mem).1.trans lt, (below i mem).2⟩
    · rw [List.mem_singleton.mp mem]
      exact ⟨lt, behind.opens⟩
  · have bodies : (s.report (.body b)).bodies = s.bodies ++ [(b.start_lineno, b.start_colpos)] := by
      simp [State.bodies, State.report, Report.brace]
    change (s.report (.body b)).bodies = (braces ++ [s₀.iva]).map (position s.v)
    rw [bodies, behind.bodies, eq, behind.brace, behind.v, List.map_append, List.map_singleton]

theorem Path.body {b : Body} (path : Path d s s')
    (behind : Behind s₀ s' b.start_lineno b.start_colpos) : Path d s (s'.report (.body b)) :=
  ⟨path.v, path.niveau, path.forward, path.trace, behind.report path.sound⟩

theorem function_ends {lineno charno : Int} (sound : Sound s) (behind : Behind s₀ s lineno charno)
    (x : Declaration) (r : Declarator) (lineno_end charno_end : Int) :
    Ends (function x r lineno_end charno_end lineno charno) s fun _ s' => Path 0 s s' := by
  refine ends_path ?_
  simp only [ends_bind, ends_enter]
  have path := (Path.refl sound).enter
  split
  · exact (path.symbol _).leave
  · simp only [ends_bind, ends_symbol, ends_read, put_cross1, put]
    exact ((path.symbol _).body ((behind.setNiveau _).symbol _)).leave

theorem class_method_ends {lineno charno : Int} (sound : Sound s)
    (behind : Behind s₀ s lineno charno) (k : Class) (x : Declaration) (r : Declarator)
    (lineno_end charno_end : Int) :
    Ends (class_method k x r lineno_end charno_end lineno charno) s fun _ s' => Path 0 s s' := by
  refine ends_path ?_
  simp only [ends_bind, ends_enter]
  have path := (Path.refl sound).enter
  have behind := behind.setNiveau (s.niveau + 1)
  split
  · exact (path.symbol _).leave
  · split
    · simp only [ends_bind, ends_symbol, ends_read, put_cross1, put]
      exact ((((path.symbol _).symbol _).body ((behind.symbol _).symbol _)).symbol _).leave
    · simp only [ends_bind, ends_symbol, ends_read, put_cross1, put]
      exact (((path.symbol _).body (behind.symbol _)).symbol _).leave

end SourceNavigator.Cpp.FirstPass

import SourceNavigator.Cpp.FirstPass.DeclarationRuns

/-!
Classes, declarations and the main loop of the first pass end, or come to a loop
without an end. With this the functions of the cycle are known to do what
`Calls.Good` says, for any number of steps.
-/

namespace SourceNavigator.Cpp.FirstPass

open Lib Lib.Program

variable {c : Calls} {s s' : State} {d : Int}

/-! ### Classes -/

theorem member_list_ends (good : c.Good) (sound : Sound s) (room : Room c 5 s) (k : Class) :
    Ends (member_list c k) s fun _ s' => Path 0 s s' := by
  refine ends_path ?_
  simp only [ends_bind, ends_enter, ends_step]
  have path := (Path.refl sound).enter.step 1
  have room : Room c 5 ((s.setNiveau (s.niveau + 1)).step 1) := room.path path
  have enough : memberMeasure ((s.setNiveau (s.niveau + 1)).step 1) < c.fuel := by
    have bound := memberMeasure_le (s := (s.setNiveau (s.niveau + 1)).step 1)
    unfold Room at room
    omega
  refine path.roundsBy memberMeasure enough fun k s' path le => ?_
  have room : Room c 5 s' := by
    unfold Room at room ⊢
    omega
  simp only [ends_bind]
  refine (member_ends good path.sound room k).imp fun result t h => ?_
  obtain ⟨more, k⟩ := result
  have path := path.call h.1
  cases more with
  | true => exact ⟨path, h.1.rest_le, h.2 rfl⟩
  | false =>
    simp only [Bool.false_eq_true, if_false, ends_leave, ends_pure]
    exact path.leave

/-- What a round of the loop over the keywords of a base class comes to. -/
abbrev BaseEnd (s s' : State) (next : Nat ⊕ Bool) (t : State) : Prop :=
  next.elim (fun _ => Path 1 s t ∧ t.rest < s'.rest) fun ok => Path 0 s t ∧ (ok = true → t.rest < s.rest)

theorem baseName_ends (good : c.Good) (path : Path 1 s s') (room : Room c 2 s') (k : Class)
    (attr : Nat) {s₀ : State} : Ends (baseName c k attr) s' (BaseEnd s s₀) := by
  have le := path.rest_le
  simp only [baseName, ends_bind, ends_f_lineno, ends_f_charno]
  refine (complete_class_name_ends good path.sound room _).imp fun result t h => ?_
  obtain ⟨found, aname⟩ := result
  have path := path.call h.path
  cases found with
  | true =>
    simp only [if_true, ends_bind, ends_f_lineno, ends_f_charno]
    refine path.reporting fun x path => ?_
    simp only [ends_leave, ends_pure]
    exact ⟨path.leave, fun _ => (h.further rfl).trans_le le⟩
  | false =>
    simp only [Bool.false_eq_true, if_false, ends_bind, ends_leave, ends_pure]
    exact ⟨path.leave, by rintro ⟨⟩⟩

theorem baseRound_ends (good : c.Good) (path : Path 1 s s') (room : Room c 2 s') (k : Class)
    (attr : Nat) : Ends (baseRound c k attr) s' (BaseEnd s s') := by
  simp only [baseRound, ends_bind, ends_token]
  split
  case h_1 key =>
    simp only [ends_bind, ends_step, ends_pure]
    exact ⟨path.step 1, (Path.refl path.sound).read rfl (ne_zero_of_lookup key rfl)⟩
  case h_2 =>
    split
    · simp only [ends_bind, ends_token]
      split
      · simp only [ends_bind, ends_step]
        exact baseName_ends good (path.step 1) (room.path ((Path.refl path.sound).step 1)) k attr
      · exact baseName_ends good path room k attr
    · simp only [ends_bind, ends_leave, ends_pure]
      exact ⟨path.leave, by rintro ⟨⟩⟩

theorem base_specifier_ends (good : c.Good) (sound : Sound s) (room : Room c 2 s) (k : Class) :
    Ends (base_specifier c k) s fun ok s' => Path 0 s s' ∧ (ok = true → s'.rest < s.rest) := by
  refine ends_free rfl ?_ fun _ _ _ h => h
  simp only [ends_bind, ends_enter]
  have path := (Path.refl sound).enter
  refine path.rounds ((room.path path).rounds (by decide)) fun attr s' path _ => ?_
  exact baseRound_ends good path (room.path path) k attr

theorem base_spec_ends (good : c.Good) (sound : Sound s) (room : Room c 2 s) (k : Class) :
    Ends (base_spec c k) s fun ok s' => Verdict s ok s' := by
  refine ends_verdict rfl ?_
  simp only [ends_bind, ends_save, ends_enter, ends_step]
  have path := (Path.refl sound).enter.step 1
  refine path.rounds ((room.path path).rounds (by decide)) fun _ s' path _ => ?_
  have body : ∀ t (body : Bool), Path 1 s t → Ends (do
      if body then
        leave
        pure true
      else
        scanning (untilToken [chr '{', chr ';']) ()
        if (← token 0) = chr '{' then
          leave
          pure true
        else
          restore s.iva
          leave
          pure false) t fun ok s' => Verdict s ok s' := by
    intro t body path
    cases body with
    | true =>
      simp only [if_true, ends_bind, ends_leave, ends_pure]
      exact path.succeeds
    | false =>
      simp only [Bool.false_eq_true, if_false, ends_bind]
      refine path.scanning (exits_untilToken _) fun k _ path _ _ => ?_
      simp only [ends_token]
      split
      · simp only [ends_bind, ends_leave, ends_pure]
        exact path.succeeds
      · simp only [ends_bind, ends_restore, ends_leave, ends_pure]
        exact path.fails
  simp only [ends_bind]
  refine (base_specifier_ends good path.sound (room.path path) k).imp fun ok t h => ?_
  have path := path.call h.1
  cases ok with
  | true =>
    simp only [if_true, ends_bind, ends_token]
    split
    · exact body t true path
    · split
      · simp only [ends_bind, ends_step, ends_pure]
        exact ⟨path.step 1, State.past_step (h.2 rfl) 1⟩
      · exact body t false path
  | false => exact body t false path

/-- The members of a class, and its report. -/
theorem classBody_ends (good : c.Good) (sound : Sound s) (room : Room c 5 s) (k : Class)
    (paf : SymbolType) (attr : Nat) (lineno charno : Int) (template_args : Option Text) :
    Ends (classBody c k paf attr lineno charno template_args) s fun _ s' => Path 0 s s' := by
  simp only [classBody, ends_bind]
  refine (member_list_ends good sound room k).imp fun k s' path => ?_
  refine path.scanning (exits_untilToken _) fun k _ path _ _ => ?_
  simp only [ends_step, ends_lineno_before, ends_charno_before]
  exact (path.step 1).reporting fun x path => path

theorem anonymousClass_ends {Q : Option Declaration × Class → State → Prop} (found : ∀ a, Q a s)
    (x : Option Declaration) (k : Class) : Ends (anonymousClass x k) s Q := by
  simp only [anonymousClass, ends_bind]
  exact typedefName_ends (fun _ => found _) _ _ _ _ _ _

theorem anonymousBody_ends (good : c.Good) (path : Path 1 s s') (lt : s'.rest < s.rest)
    (room : Room c 0 s) (x : Option Declaration) (k : Class) (paf : SymbolType) (attr : Nat) :
    Ends (anonymousBody c x k paf attr) s' fun a t => Reads s a.1 t := by
  simp only [anonymousBody, ends_bind, ends_f_lineno, ends_f_charno]
  have room : Room c 5 s' := (room.further lt).mono (by decide)
  refine (classBody_ends good path.sound room _ _ _ _ _ _).imp fun k t h => ?_
  simp only [ends_leave, ends_pure]
  exact ⟨(path.call h).succeeds, fun _ => h.past lt⟩

theorem classBehindName_ends (good : c.Good) (path : Path 1 s s') (lt : s'.rest < s.rest)
    (room : Room c 0 s) (x : Option Declaration) (k : Class) (paf : SymbolType) (attr : Nat)
    (lineno charno : Int) :
    Ends (classBehindName c x k paf attr lineno charno) s' fun a t => Reads s a.1 t := by
  have room : Room c 5 s' := (room.further lt).mono (by decide)
  have body : ∀ t, Path 1 s t → t.rest < s.rest → Room c 5 t → Ends (do
      let k ←
        if (← token 0) = chr '{' then
          let template_args := (x.bind Declaration.outer).bind LongString.buf
          classBody c k paf attr lineno charno template_args
        else pure k
      let d := x.map fun d => { d with type_name := d.type_name.idAppend k.name.text }
      leave
      pure (true, d, k)) t fun a t => Reads s a.1 t := by
    intro t path lt room
    refine ends_bind.mpr (ends_token.mpr ?_)
    split
    · refine ends_bind.mpr ((classBody_ends good path.sound room _ _ _ _ _ _).imp fun k t h => ?_)
      simp only [ends_bind, ends_leave, ends_pure]
      exact ⟨(path.call h).succeeds, fun _ => h.past lt⟩
    · simp only [ends_bind, ends_leave, ends_pure]
      exact ⟨path.succeeds, fun _ => lt⟩
  refine ends_bind.mpr (ends_token.mpr ?_)
  split
  · refine ends_bind.mpr ((base_spec_ends good path.sound (room.mono (by decide)) k).imp
      fun _ t h => ends_bind.mpr ?_)
    refine (path.call h.path).scanning (exits_untilToken _) fun n _ path _ _ => ?_
    exact body _ path (State.past_step (h.path.past lt) n)
      ((room.path h.path).path ((Path.refl h.path.sound).step n))
  · exact body s' path lt room

theorem classFromName_ends (good : c.Good) (path : Path 1 s s') (lt : s'.rest < s.rest)
    (room : Room c 0 s) (x : Option Declaration) (k : Class) (paf : SymbolType) (attr : Nat) :
    Ends (classFromName c x k paf attr) s' fun a t => Reads s a.1 t := by
  simp only [classFromName, ends_bind, ends_f_lineno, ends_f_charno, ends_ident, ends_step, ends_token]
  have lt := State.past_step lt 1
  have path := path.step 1
  split
  · simp only [ends_bind]
    refine (template_argument_skip_ends path.sound _).imp fun name t h => ?_
    simp only [ends_lineno_before, ends_charno_before, ends_identleng_before]
    exact classBehindName_ends good (path.call h.1) (h.1.past lt) room _ _ _ _ _ _
  · simp only [ends_bind, ends_pure, ends_lineno_before, ends_charno_before, ends_identleng_before]
    exact classBehindName_ends good path lt room _ _ _ _ _ _

theorem f_class_ends (good : c.Good) (sound : Sound s) (room : Room c 1 s)
    (inside : s.iva < s.v.length) (x : Option Declaration) (k : Class) :
    Ends (f_class c x k) s fun a s' => Reads s a.1 s' := by
  refine ends_reads rfl ?_
  simp only [ends_bind, ends_save, ends_enter, ends_f_lineno, ends_f_charno, ends_identleng,
    ends_token, ends_step]
  obtain ⟨path, lt⟩ := entered_step sound inside
  have room₀ : Room c 0 s := room.mono (by decide)
  refine (skip_macro_2_ends path.sound).imp fun _ s' h => ?_
  have path := path.call h
  have lt := h.past lt
  have room : Room c 2 s' := (room.further lt).mono (by decide)
  split
  · simp only [namedClass, ends_bind, ends_token]
    split
    · simp only [ends_bind, ends_step]
      exact classFromName_ends good (path.step 1) (State.past_step lt 1) room₀ _ _ _ _
    · exact classFromName_ends good path lt room₀ _ _ _ _
  · split
    · simp only [ends_bind]
      refine anonymousClass_ends (fun result => ?_) _ _
      obtain ⟨x, k⟩ := result
      refine (base_spec_ends good path.sound room _).imp fun _ t h => ?_
      refine (path.call h.path).scanning (exits_untilToken _) fun n _ path _ _ => ?_
      simp only [ends_token]
      split
      · exact anonymousBody_ends good path (State.past_step (h.path.past lt) n) room₀ _ _ _ _
      · simp only [ends_bind, ends_restore, ends_leave, ends_pure]
        exact path.fails.reads
    · split
      · simp only [ends_bind]
        refine anonymousClass_ends (fun result => ?_) _ _
        obtain ⟨x, k⟩ := result
        exact anonymousBody_ends good path lt room₀ _ _ _ _
      · simp only [ends_bind, ends_leave, ends_pure]
        exact ⟨path.succeeds, fun _ => lt⟩

end SourceNavigator.Cpp.FirstPass

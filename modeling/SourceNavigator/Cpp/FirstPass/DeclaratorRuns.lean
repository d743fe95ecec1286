import SourceNavigator.Cpp.FirstPass.NameRuns

/-!
Declarators and parameter lists of the first pass end, or come to a loop without
an end.

`Works c rank f` says this of a function that reads a part of a declarator. What
the families of declarators share is shown once, for any functions that work.
-/

namespace SourceNavigator.Cpp.FirstPass

open Lib Lib.Program

/-- A function that reads a part of a declarator works when it has room. -/
def Works (c : Calls) (rank : Nat) (f : Reader) : Prop :=
  ∀ s r, Sound s → Room c rank s → Ends (f r) s fun a s' => Verdict s a.1 s'

/-- It leaves the token behind at which it is called. -/
def Eats (c : Calls) (rank : Nat) (f : Reader) : Prop :=
  ∀ s r, Sound s → Room c rank s → s.iva < s.v.length → Ends (f r) s fun a s' => Reads s a.1 s'

variable {c : Calls} {s s' : State} {d : Int} {f : ParseFunction}
  {declarator operator functionOrArray function array : Reader}

/-! ### What the families share -/

theorem placed_ends {Q : Declarator → State → Prop} (found : ∀ r, Q r s) (r : Declarator)
    (lineno charno : Int) : Ends (placed r lineno charno) s Q := by
  simp only [placed, ends_bind, ends_lineno_before, ends_charno_before, ends_identleng_before,
    ends_pure]
  exact found _

theorem parenDeclarator_ends (backtracks : f.backtracks = true) (inner : Works c 5 declarator)
    (outer : Works c 1 functionOrArray) : Eats c 0 (parenDeclarator f declarator functionOrArray) := by
  intro s r sound room inside
  refine ends_reads backtracks ?_
  simp only [ends_bind, ends_save, ends_enter, ends_step]
  obtain ⟨path, lt⟩ := entered_step sound inside
  refine (inner _ _ path.sound ((room.further lt).mono (by decide))).imp fun result s' h => ?_
  obtain ⟨found, r⟩ := result
  have lt := h.path.past lt
  have path := path.call h.path
  cases found with
  | true =>
    simp only [if_true, ends_bind, ends_token]
    split
    · simp only [ends_bind, ends_step]
      have lt := State.past_step lt 1
      have path := path.step 1
      refine (outer _ _ path.sound ((room.further lt).mono (by decide))).imp
        fun result s' h => ?_
      obtain ⟨found, r⟩ := result
      exact ends_either (path.call h.path) (fun _ => h.path.past lt) _ _
    · exact ends_giveUp path
  | false => exact ends_giveUp path

/-- Behind a pointer operator. -/
theorem pointerDeclarator_ends (inner : Works c 5 declarator) (room : Room c 0 s) (path : Path 1 s s')
    (lt : s'.rest < s.rest) (aname : LongString) (r : Declarator) :
    Ends (pointerDeclarator s.iva declarator aname r) s' fun a s' => Reads s a.1 s' := by
  simp only [pointerDeclarator, ends_bind]
  refine (inner _ _ path.sound ((room.further lt).mono (by decide))).imp fun result s' h => ?_
  obtain ⟨found, r⟩ := result
  exact ends_either (path.call h.path) (fun _ => h.path.past lt) _ _

theorem starDeclarator_ends (good : c.Good) (backtracks : f.backtracks = true)
    (inner : Works c 5 declarator) (sound : Sound s) (room : Room c 2 s) (r : Declarator) :
    Ends (starDeclarator f c declarator r) s fun a s' => Reads s a.1 s' := by
  refine ends_reads backtracks ?_
  simp only [ends_bind, ends_save, ends_enter]
  have path := (Path.refl sound).enter
  refine (ptr_operator_ends good path.sound (room.path path) {}).imp fun result s' h => ?_
  obtain ⟨found, aname⟩ := result
  have path := path.call h.path
  cases found with
  | true => exact pointerDeclarator_ends inner (room.mono (by decide)) path (h.further rfl) _ _
  | false => exact ends_giveUp path

/-- Behind the name. -/
theorem namedDeclarator_ends (outer : Works c 1 functionOrArray) (room : Room c 1 s)
    (path : Path 1 s s') (lt : s'.rest < s.rest) (r : Declarator) :
    Ends (namedDeclarator s.iva functionOrArray r) s' fun a s' => Reads s a.1 s' := by
  simp only [namedDeclarator, ends_bind]
  refine (outer _ _ path.sound (room.path path)).imp fun result s' h => ?_
  obtain ⟨found, r⟩ := result
  exact ends_either (path.call h.path) (fun _ => h.path.past lt) _ _

theorem nameDeclarator_ends (good : c.Good) (inner : Works c 5 declarator)
    (outer : Works c 1 functionOrArray) (room : Room c 3 s) (path : Path 1 s s')
    (lineno charno : Int) (r : Declarator) :
    Ends (nameDeclarator s.iva c declarator functionOrArray lineno charno r) s' fun a s' =>
      Reads s a.1 s' := by
  simp only [nameDeclarator, ends_bind]
  have le := path.rest_le
  refine (ptr_operator_ends good path.sound ((room.path path).mono (by decide)) {}).imp
    fun result t h => ?_
  obtain ⟨found, aname⟩ := result
  have path := path.call h.path
  cases found with
  | true =>
    exact pointerDeclarator_ends inner (room.mono (by decide)) path ((h.further rfl).trans_le le) _ _
  | false =>
    simp only [Bool.false_eq_true, if_false, ends_bind]
    have le := path.rest_le
    refine (qualified_name_ends good path.sound (room.path path) r).imp fun result t h => ?_
    obtain ⟨found, r⟩ := result
    have path := path.call h.path
    cases found with
    | true =>
      simp only [if_true, ends_bind]
      refine placed_ends (fun r => ?_) _ _ _
      exact namedDeclarator_ends outer (room.mono (by decide)) path ((h.further rfl).trans_le le) r
    | false => exact ends_giveUp path

theorem identifierDeclarator_ends (good : c.Good) (backtracks : f.backtracks = true)
    (inner : Works c 5 declarator) (name : Works c 2 operator) (outer : Works c 1 functionOrArray)
    (sound : Sound s) (room : Room c 3 s) (r : Declarator) :
    Ends (identifierDeclarator f c declarator operator functionOrArray r) s fun a s' =>
      Reads s a.1 s' := by
  refine ends_reads backtracks ?_
  simp only [ends_bind, ends_save, ends_f_lineno, ends_f_charno, ends_enter, ends_token]
  have path := (Path.refl sound).enter
  split
  · simp only [ends_bind, ends_token]
    split
    · exact nameDeclarator_ends good inner outer room path _ _ r
    · simp only [ends_bind, ends_step, ends_f_lineno, ends_f_charno]
      exact nameDeclarator_ends good inner outer room (path.step 1) _ _ r
  · simp only [ends_bind, ends_token]
    split
    case isTrue macroName =>
      simp only [ends_bind, ends_step]
      have lt : ((s.setNiveau (s.niveau + 1)).step 1).rest < s.rest :=
        path.read macroName.1 (by decide)
      have path := path.step 1
      refine (name _ _ path.sound ((room.path path).mono (by decide))).imp fun result s' h => ?_
      obtain ⟨found, r⟩ := result
      exact ends_either (path.call h.path) (fun _ => h.path.past lt) _ _
    case isFalse => exact nameDeclarator_ends good inner outer room path _ _ r

theorem tildeDeclarator_ends (backtracks : f.backtracks = true) (outer : Works c 1 functionOrArray)
    (sound : Sound s) (room : Room c 1 s) (r : Declarator) :
    Ends (tildeDeclarator f functionOrArray r) s fun a s' => Reads s a.1 s' := by
  refine ends_reads backtracks ?_
  simp only [ends_bind, ends_save, ends_f_lineno, ends_f_charno, ends_enter, ends_step, ends_token]
  have path := (Path.refl sound).enter.step 1
  split
  case isTrue name =>
    simp only [ends_bind, ends_ident, ends_f_lineno, ends_f_charno, ends_identleng, ends_step]
    exact namedDeclarator_ends outer room (path.step 1) (path.read name (by decide)) _
  case isFalse => exact ends_giveUp path

theorem functionOrArrayList_ends (backtracks : f.backtracks = true) (function_eats : Eats c 1 function)
    (array_eats : Eats c 1 array) : Works c 1 (functionOrArrayList f c function array) := by
  intro s r sound room
  refine ends_verdict backtracks ?_
  simp only [ends_bind, ends_save, ends_enter, ends_token]
  have path := (Path.refl sound).enter
  have lists : ∀ s' (r : Declarator), Path 1 s s' → Ends (loop c.fuel (fun x => do
      let t ← token 0
      if t = chr '(' then
        let result ← function x.2
        if result.1 then
          if x.1 + 1 = 2 then return .inr (← giveUp s.iva result.2) else return .inl (x.1 + 1, result.2)
        else return .inr (← giveUp s.iva result.2)
      else if t = chr '[' then
        let result ← array x.2
        if result.1 then return .inl (x.1, result.2) else return .inr (← giveUp s.iva result.2)
      else return .inr (← succeed x.2)) ((0 : Nat), r)) s' fun a s' => Verdict s a.1 s' := by
    intro s' r path
    refine path.rounds ((room.path path).rounds (by decide)) fun result s'' path _ => ?_
    obtain ⟨i, r⟩ := result
    have fails : ∀ t (r : Declarator), Path 1 s t → Ends (giveUp s.iva r) t fun a t =>
        Ends (pure (.inr a : (Nat × Declarator) ⊕ (Bool × Declarator))) t fun next t =>
          next.elim (fun _ => Path 1 s t ∧ t.rest < s''.rest) fun a => Verdict s a.1 t :=
      fun t r path => ends_giveUp_verdict path
    simp only [ends_bind, ends_token]
    split
    case isTrue parameters =>
      simp only [ends_bind]
      refine (function_eats _ r path.sound (room.path path) (inside_of_token parameters (by decide))).imp
        fun result t h => ?_
      obtain ⟨found, r⟩ := result
      have path := path.call h.path
      cases found with
      | true =>
        simp only [if_true]
        split
        · exact fails t r path
        · exact ⟨path, h.further rfl⟩
      | false => exact fails t r path
    case isFalse =>
      split
      case isTrue brackets =>
        simp only [ends_bind]
        refine (array_eats _ r path.sound (room.path path) (inside_of_token brackets (by decide))).imp
          fun result t h => ?_
        obtain ⟨found, r⟩ := result
        have path := path.call h.path
        cases found with
        | true => exact ⟨path, h.further rfl⟩
        | false => exact fails t r path
      case isFalse =>
        simp only [ends_bind]
        exact ends_succeed_verdict path
  split
  · simp only [ends_bind, ends_step]
    exact lists _ r (path.step 1)
  · exact lists _ r path

/-! ### Classes and enumerations in parameters -/

theorem skipBody_ends (sound : Sound s) : Ends skipBody s fun _ s' => Path 0 s s' := by
  simp only [skipBody, ends_bind, ends_token]
  have path := Path.refl sound
  split
  · simp only [ends_bind, ends_step]
    exact (path.step 1).scanning (exits_brackets _ _) fun k _ path _ _ => path
  · exact path

theorem anonymousName_ends {Q : LongString → State → Prop} (found : ∀ name, Q name s)
    (storage_class : Nat) (plstr : LongString) : Ends (anonymousName storage_class plstr) s Q := by
  unfold anonymousName
  split
  · simp only [get_struct_name, ends_bind, ends_read]
    split
    · exact found _
    · exact found _
  · exact found _

theorem skipBases_ends (sound : Sound s) : Ends skipBases s fun _ s' => Path 0 s s' := by
  simp only [skipBases, ends_bind]
  refine (function_argument_base_spec_ends sound).imp fun _ s' h => ?_
  exact h.path.scanning (exits_untilToken _) fun k _ path _ _ => path

theorem function_argument_class_ends (sound : Sound s) (storage_class : Nat) (plstr : LongString) :
    Ends (function_argument_class storage_class plstr) s fun _ s' => Path 0 s s' ∧ s.iva < s'.iva := by
  refine ends_callVoid ?_ fun _ _ _ h => h
  simp only [ends_bind, ends_enter, ends_step, ends_token]
  have path := (Path.refl sound).enter.step 1
  -- The body, behind what was read of the head.
  have body : ∀ s' (plstr : LongString), Path 1 s s' → s.iva < s'.iva → Ends (do
      skipBody
      leave
      pure plstr) s' fun _ s' => Path 0 s s' ∧ s.iva < s'.iva := by
    intro s' plstr path further
    simp only [ends_bind]
    refine (skipBody_ends path.sound).imp fun _ t h => ?_
    simp only [ends_leave, ends_pure]
    exact ⟨(path.call h).leave, further.trans_le h.forward⟩
  have bases : ∀ s' (plstr : LongString), Path 1 s s' → s.iva < s'.iva → Ends (do
      skipBases
      skipBody
      leave
      pure plstr) s' fun _ s' => Path 0 s s' ∧ s.iva < s'.iva := by
    intro s' plstr path further
    refine ends_bind.mpr ((skipBases_ends path.sound).imp fun _ t h => ?_)
    exact body t plstr (path.call h) (further.trans_le h.forward)
  have head : ∀ s' (plstr : LongString), Path 1 s s' → s.iva < s'.iva → Ends (do
      if (← token 0) = chr ':' then skipBases
      skipBody
      leave
      pure plstr) s' fun _ s' => Path 0 s s' ∧ s.iva < s'.iva := by
    intro s' plstr path further
    refine ends_bind.mpr ?_
    simp only [ends_token]
    split
    · exact bases s' plstr path further
    · exact body s' plstr path further
  have name : ∀ s', Path 1 s s' → Ends (do
      let plstr := plstr.idAppend (← ident 0)
      step 1
      let plstr ← if (← token 0) = chr '<' then template_argument_skip plstr else pure plstr
      if (← token 0) = chr ':' then skipBases
      skipBody
      leave
      pure plstr) s' fun _ s' => Path 0 s s' ∧ s.iva < s'.iva := by
    intro s' path
    have further : s.iva < (s'.step 1).iva := Nat.lt_succ_of_le path.forward
    have path := path.step 1
    refine ends_bind.mpr (ends_ident.mpr (ends_bind.mpr (ends_step.mpr (ends_bind.mpr ?_))))
    simp only [ends_token]
    split
    · refine ends_bind.mpr ((template_argument_skip_ends path.sound _).imp fun plstr t h => ?_)
      exact head t plstr (path.call h.1) (further.trans_le h.1.forward)
    · exact head _ _ path further
  have further : s.iva < ((s.setNiveau (s.niveau + 1)).step 1).iva := Nat.lt_succ_self _
  split
  · simp only [ends_bind, ends_token]
    split
    · exact ends_bind.mpr (ends_step.mpr (name _ (path.step 1)))
    · exact name _ path
  · split
    · refine ends_bind.mpr (anonymousName_ends (fun plstr => ?_) _ _)
      exact bases _ plstr path further
    · split
      · refine ends_bind.mpr (anonymousName_ends (fun plstr => ?_) _ _)
        exact body _ plstr path further
      · simp only [ends_bind, ends_leave, ends_pure]
        exact ⟨path.leave, further⟩

theorem function_argument_enum_ends (sound : Sound s) (storage_class : Nat) (plstr : LongString) :
    Ends (function_argument_enum storage_class plstr) s fun _ s' => Path 0 s s' ∧ s.iva < s'.iva := by
  refine ends_callVoid ?_ fun _ _ _ h => h
  simp only [ends_bind, ends_enter, ends_step, ends_token]
  have path := (Path.refl sound).enter.step 1
  have further : s.iva < ((s.setNiveau (s.niveau + 1)).step 1).iva := Nat.lt_succ_self _
  split
  · simp only [ends_bind, ends_leave, ends_pure]
    exact ⟨path.leave, further⟩
  · split
    · simp only [ends_bind]
      refine anonymousName_ends (fun plstr => ?_) _ _
      refine (skipBody_ends path.sound).imp fun _ t h => ?_
      simp only [ends_leave, ends_pure]
      exact ⟨(path.call h).leave, further.trans_le h.forward⟩
    · simp only [ends_bind, ends_ident, ends_step]
      have path := path.step 1
      refine (skipBody_ends path.sound).imp fun _ t h => ?_
      simp only [ends_leave, ends_pure]
      exact ⟨(path.call h).leave, (further.trans (Nat.lt_succ_self _)).trans_le h.forward⟩

/-! ### The declarators of parameter lists -/

theorem function_argument_function_operator_eats :
    Eats c 1 function_argument_function_operator := by
  intro s r sound _ inside
  refine ends_reads rfl ?_
  simp only [ends_bind, ends_save, ends_enter, ends_step]
  obtain ⟨path, lt⟩ := entered_step sound inside
  refine path.scanning (exits_brackets _ _) fun k _ path _ _ => ?_
  split
  · exact ends_giveUp path
  · simp only [ends_bind]
    refine (cv_qualifier_list_opt_ends path.sound _).imp fun _ t h => ?_
    exact ends_succeed (path.call h) (h.past (State.past_step lt k))

theorem function_argument_array_operator_eats : Eats c 1 function_argument_array_operator := by
  intro s r sound _ inside
  refine ends_reads rfl ?_
  simp only [ends_bind, ends_save, ends_enter, ends_step]
  obtain ⟨path, lt⟩ := entered_step sound inside
  refine path.scanning (exits_brackets _ _) fun k _ path _ _ => ?_
  split
  · exact ends_giveUp path
  · exact ends_succeed path (State.past_step lt k)

theorem function_argument_function_or_array_list_works :
    Works c 1 (function_argument_function_or_array_list c) :=
  functionOrArrayList_ends rfl function_argument_function_operator_eats
    function_argument_array_operator_eats

theorem function_argument_declarator_operator_ends (good : c.Good) (sound : Sound s)
    (room : Room c 2 s) (r : Declarator) :
    Ends (function_argument_declarator_operator c r) s fun a s' => Reads s a.1 s' := by
  refine ends_reads rfl ?_
  simp only [ends_bind, ends_save, ends_f_lineno, ends_f_charno, ends_enter]
  have path := (Path.refl sound).enter
  refine (operator_function_name_ends good path.sound (room.path path) _).imp
    fun result s' h => ?_
  obtain ⟨found, name⟩ := result
  have path := path.call h.path
  cases found with
  | true =>
    simp only [if_true, ends_bind]
    refine placed_ends (fun r => ?_) _ _ _
    exact namedDeclarator_ends function_argument_function_or_array_list_works
      (room.mono (by decide)) path (h.further rfl) _
  | false => exact ends_giveUp path

theorem function_argument_declarator_ends (good : c.Good) :
    Works c 4 (function_argument_declarator c) := by
  intro s r sound room
  refine ends_verdict rfl ?_
  simp only [ends_bind, ends_save, ends_enter, ends_token]
  have path := (Path.refl sound).enter
  have room : Room c 4 (s.setNiveau (s.niveau + 1)) := room.path path
  have inner : Works c 5 c.function_argument_declarator := fun s r sound room =>
    good.function_argument_declarator sound room r
  have outer := function_argument_function_or_array_list_works (c := c)
  have last : ∀ {m : M (Bool × Declarator)},
      Ends m (s.setNiveau (s.niveau + 1)) (fun a t => Verdict (s.setNiveau (s.niveau + 1)) a.1 t) →
      Ends (do
        let result ← m
        if result.1 then succeed result.2
        else giveUp s.iva { result.2 with type := result.2.type.setLen r.type.len })
        (s.setNiveau (s.niveau + 1)) fun a t => Verdict s a.1 t := by
    intro m run
    refine ends_bind.mpr (run.imp fun result t h => ?_)
    obtain ⟨ret, r'⟩ := result
    have path := path.call h.path
    cases ret with
    | true => exact ends_succeed_verdict path
    | false => exact ends_giveUp_verdict path
  split
  case isTrue opening =>
    have eats := parenDeclarator_ends (f := .function_argument_declarator_paren) rfl inner outer
    exact last ((eats _ r path.sound (room.mono (by decide))
      (inside_of_token opening (by decide))).imp fun _ _ h => h.toVerdict)
  case isFalse =>
    split
    · exact last ((starDeclarator_ends good rfl inner path.sound (room.mono (by decide)) r).imp
        fun _ _ h => h.toVerdict)
    · split
      · have operator : Works c 2 (function_argument_declarator_operator c) :=
          fun s r sound room =>
            (function_argument_declarator_operator_ends good sound room r).imp fun _ _ h => h.toVerdict
        exact last ((identifierDeclarator_ends good rfl inner operator outer path.sound
          (room.mono (by decide)) r).imp fun _ _ h => h.toVerdict)
      · split
        · exact last ((function_argument_declarator_operator_ends good path.sound
            (room.mono (by decide)) r).imp fun _ _ h => h.toVerdict)
        · split
          · exact last ((tildeDeclarator_ends rfl outer path.sound (room.mono (by decide)) r).imp
              fun _ _ h => h.toVerdict)
          · exact last (outer _ r path.sound (room.mono (by decide)))

theorem function_argument_declarator_one_ends (good : c.Good) :
    Works c 5 (function_argument_declarator_one c) := by
  intro s r sound room
  refine ends_verdict rfl ?_
  simp only [ends_bind, ends_save, ends_enter]
  have path := (Path.refl sound).enter
  refine (good.function_argument_declarator path.sound (room.path path) r).imp
    fun result s' h => ?_
  obtain ⟨found, r⟩ := result
  have path := path.call h.path
  simp only [ends_token]
  split
  · exact ends_succeed_verdict path
  · split
    · simp only [ends_bind]
      refine (skip_expression_ends path.sound).imp fun _ t h => ?_
      exact ends_succeed_verdict (path.call h)
    · exact ends_giveUp_verdict path

/-! ### Parameter lists -/

theorem specify_ne_zero {x y : Declaration} {t : Nat} (found : x.specify t = some y) : t ≠ 0 := by
  obtain ⟨set, entry, _⟩ := Option.map_eq_some_iff.mp found
  exact ne_zero_of_lookup entry rfl

theorem notDeclarator_ends {Q : Bool → State → Prop} (found : ∀ b, Q b s) : Ends notDeclarator s Q := by
  simp only [notDeclarator, ends_bind, ends_token]
  split
  · exact found _
  · split
    · simp only [ends_bind, ends_token]
      split
      · exact found _
      · exact found _
    · exact found _

theorem takenForType_ends {Q : Bool → State → Prop} (found : ∀ b, Q b s) (count t : Nat) :
    Ends (takenForType count t) s Q := by
  unfold takenForType
  split
  · exact found _
  · split
    · exact notDeclarator_ends found
    · exact found _

theorem classNameParameter_ends (good : c.Good) (path : Path d s s') (room : Room c 2 s')
    (count : Nat) (x : Declaration) :
    Ends (classNameParameter c count x) s' fun next t =>
      next.elim (fun _ => Path d s t ∧ t.rest < s'.rest) fun _ => Path d s t := by
  simp only [classNameParameter, ends_bind]
  refine (complete_class_name_ends good path.sound room _).imp fun result t h => ?_
  obtain ⟨found, _⟩ := result
  have path := path.call h.path
  cases found with
  | true => exact ⟨path, h.further rfl⟩
  | false => exact path

/-- A further specifier leaves a token behind. -/
theorem argumentRound_ends (good : c.Good) (path : Path d s s') (room : Room c 5 s') (count : Nat)
    (x : Declaration) :
    Ends (argumentRound c count x) s' fun next t =>
      next.elim (fun _ => Path d s t ∧ t.rest < s'.rest) fun _ => Path d s t := by
  simp only [argumentRound, ends_bind, ends_token]
  split
  case isTrue key =>
    have inside : s'.iva < s'.v.length := tokenAt_inside (ne_zero_of_mem key (by decide))
    simp only [ends_bind]
    refine (function_argument_class_ends path.sound _ _).imp fun _ t h => ?_
    exact ⟨path.call h.1, h.1.rest_lt inside h.2⟩
  case isFalse =>
    split
    case isTrue key =>
      have inside : s'.iva < s'.v.length := inside_of_token key (by decide)
      simp only [ends_bind]
      refine (function_argument_enum_ends path.sound _ _).imp fun _ t h => ?_
      exact ⟨path.call h.1, h.1.rest_lt inside h.2⟩
    case isFalse =>
      split
      · simp only [ends_bind]
        refine takenForType_ends (fun taken => ?_) _ _
        have room₂ : Room c 2 s' := room.mono (by decide)
        split
        · exact classNameParameter_ends good path room₂ count x
        · simp only [ends_bind]
          refine (function_argument_declarator_one_ends good _ {} path.sound room).imp
            fun result t h => ?_
          obtain ⟨found, r⟩ := result
          cases found with
          | true => exact path.call h.path
          | false =>
            refine (classNameParameter_ends good (path.call h.path) (room₂.path h.path) count x).imp
              fun next t h' => ?_
            cases next with
            | inl y => exact ⟨h'.1, h'.2.trans_le h.path.rest_le⟩
            | inr a => exact h'
      · split
        · simp only [ends_bind]
          refine (skip_expression_ends path.sound).imp fun _ t h => path.call h
        · split
          · simp only [ends_bind]
            refine (function_argument_declarator_one_ends good _ {} path.sound room).imp
              fun _ t h => path.call h.path
          · split
            case h_1 y specified =>
              simp only [ends_bind, ends_step]
              refine ⟨path.step 1, ?_⟩
              exact (Path.refl path.sound).read rfl (specify_ne_zero specified)
            case h_2 => exact path

/-- A parameter; an ellipsis is left behind. -/
theorem function_argument_declaration_ends (good : c.Good) (sound : Sound s) (room : Room c 5 s)
    (types names : LongString) :
    Ends (function_argument_declaration c types names) s fun _ s' => Path 0 s s' ∧
      (tokenAt s.v s.keyw_cpp s.iva = SN_ELLIPSIS → s'.rest < s.rest) := by
  refine ends_callVoid ?_ fun _ _ _ h => h
  simp only [ends_bind, ends_enter, ends_token]
  have path := (Path.refl sound).enter
  split
  case isTrue literal =>
    simp only [ends_bind, ends_step]
    refine (path.step 1).scanning exits_strings fun k _ path _ _ => ?_
    simp only [ends_leave, ends_pure]
    refine ⟨path.leave, fun ellipsis => ?_⟩
    exact absurd (ellipsis.symm.trans literal) (by decide)
  case isFalse =>
    split
    case h_1 constant =>
      simp only [ends_bind, ends_ident, ends_step, ends_leave, ends_pure]
      exact ⟨(path.step 1).leave, fun _ => path.read rfl (ne_zero_of_lookup constant rfl)⟩
    case h_2 other =>
      simp only [ends_bind]
      refine path.rounds ((room.path path).rounds (by decide)) fun result s' path _ => ?_
      obtain ⟨count, x⟩ := result
      refine (argumentRound_ends good path (room.path path) count x).imp fun next t h => ?_
      cases next with
      | inl y => exact h
      | inr a =>
        simp only [ends_leave, ends_pure]
        refine ⟨Path.leave h, fun ellipsis => ?_⟩
        exact absurd ((congrArg (List.lookup · constantParameters) ellipsis).symm.trans other) (by decide)

/-- The measure of the loop over parameters, which goes on without a step only at an ellipsis. -/
def ellipsisMeasure (s : State) : Nat :=
  2 * s.rest + if tokenAt s.v s.keyw_cpp s.iva = SN_ELLIPSIS then 0 else 1

theorem ellipsisMeasure_le : ellipsisMeasure s ≤ 2 * s.rest + 1 := by
  unfold ellipsisMeasure
  split <;> omega

/-- Behind a parameter the measure has gone down, or will do so with the next step. -/
theorem argumentSeparator_ends {s₀ : State} (path : Path 1 s s') (le : s'.rest ≤ s₀.rest)
    (low : 2 * s'.rest < ellipsisMeasure s₀)
    (stop : tokenAt s'.v s'.keyw_cpp s'.iva = chr ',' ∨ tokenAt s'.v s'.keyw_cpp s'.iva = chr ')' ∨
      tokenAt s'.v s'.keyw_cpp s'.iva = SN_ELLIPSIS) (types names : LongString) :
    Ends (argumentSeparator types names) s' fun next t =>
      next.elim (fun _ => Path 1 s t ∧ t.rest ≤ s₀.rest ∧ ellipsisMeasure t < ellipsisMeasure s₀)
        fun _ => Path 0 s t := by
  simp only [argumentSeparator, ends_bind, ends_token]
  split
  case isTrue comma =>
    simp only [ends_bind, ends_step]
    have lt : (s'.step 1).rest < s'.rest := (Path.refl path.sound).read comma (by decide)
    have bound := ellipsisMeasure_le (s := s'.step 1)
    exact ⟨path.step 1, by omega, by omega⟩
  case isFalse comma =>
    split
    · simp only [ends_bind, ends_step, ends_leave, ends_pure]
      exact (path.step 1).leave
    case isFalse closing =>
      have ellipsis := (stop.resolve_left comma).resolve_left closing
      refine ⟨path, le, ?_⟩
      rw [ellipsisMeasure, if_pos ellipsis]
      exact low

/-- Where the tokens of something unexpected end. -/
theorem argumentEnd_none {i : Nat} {ts : List StackEntry} (stops : argumentEnd i ts = none) :
    Cpp.token ts 0 = chr ')' ∨ Cpp.token ts 0 = SN_ELLIPSIS ∨ Cpp.token ts 0 = chr ',' ∨
      Cpp.token ts 0 = 0 := by
  unfold argumentEnd at stops
  dsimp only at stops
  split at stops
  · exact nomatch stops
  · split at stops
    case isTrue closing => exact .inl closing
    case isFalse =>
      split at stops
      case isTrue separator => exact .inr (separator.imp_right .inl)
      case isFalse =>
        split at stops
        case isTrue atEnd => exact .inr (.inr (.inr atEnd))
        case isFalse => exact nomatch stops

theorem function_argument_declaration_list_ends (good : c.Good) (sound : Sound s) (room : Room c 5 s)
    (types names : LongString) :
    Ends (function_argument_declaration_list c types names) s fun _ s' => Path 0 s s' := by
  refine ends_path ?_
  simp only [ends_bind, ends_enter, ends_token]
  have path := (Path.refl sound).enter
  split
  case isTrue opening =>
    simp only [ends_bind, ends_step]
    have lt : ((s.setNiveau (s.niveau + 1)).step 1).rest < s.rest := path.read opening (by decide)
    have path := path.step 1
    refine (good.function_argument_declaration_list path.sound ((room.further lt).mono (by decide))
      _ _).imp fun result s' h => ?_
    obtain ⟨types, names⟩ := result
    refine (path.call h).scanning exits_ansi fun k _ path _ _ => ?_
    simp only [ends_leave, ends_pure]
    exact (path.step 1).leave
  case isFalse =>
    simp only [ends_bind, ends_token]
    split
    · simp only [ends_bind, ends_step, ends_leave, ends_pure]
      exact (path.step 1).leave
    case isFalse =>
      have room₁ : Room c 5 (s.setNiveau (s.niveau + 1)) := room.path path
      have enough : ellipsisMeasure (s.setNiveau (s.niveau + 1)) < c.fuel := by
        have bound := ellipsisMeasure_le (s := s.setNiveau (s.niveau + 1))
        unfold Room at room₁
        omega
      refine path.roundsBy ellipsisMeasure enough fun result s' path le => ?_
      obtain ⟨types, names⟩ := result
      simp only [ends_bind]
      refine (function_argument_declaration_ends good path.sound (room.path path) types names).imp
        fun result t h => ?_
      obtain ⟨types, names⟩ := result
      have path := path.call h.1
      have low : 2 * t.rest < ellipsisMeasure s' := by
        have le := h.1.rest_le
        unfold ellipsisMeasure
        split
        case isTrue ellipsis =>
          have lt := h.2 ellipsis
          omega
        case isFalse => omega
      simp only [ends_token]
      split
      case isTrue stop => exact argumentSeparator_ends path h.1.rest_le low stop types names
      case isFalse =>
        simp only [ends_bind]
        refine path.scanning exits_argument fun k _ path stops _ => ?_
        simp only [ends_token]
        split
        · simp only [ends_bind, ends_step, ends_leave, ends_pure]
          exact (path.step 1).leave
        case isFalse closing =>
          split
          · simp only [ends_bind, ends_leave, ends_pure]
            exact path.leave
          case isFalse more =>
            have le : (t.step k).rest ≤ t.rest := State.rest_step_le
            refine argumentSeparator_ends path (le.trans h.1.rest_le) (by omega) ?_ types names
            rcases argumentEnd_none stops with eq | eq | eq | eq
            · exact absurd (token_left.symm.trans eq) closing
            · exact .inr (.inr (token_left.symm.trans eq))
            · exact .inl (token_left.symm.trans eq)
            · exact absurd (token_left.symm.trans eq) more

end SourceNavigator.Cpp.FirstPass

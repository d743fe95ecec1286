import SourceNavigator.Cpp.FirstPass.ClassRuns

/-!
Declarations and the main loop of the first pass end, or come to a loop without
an end. With this the functions of the cycle are known to do what `Calls.Good`
says, for any number of steps.
-/

namespace SourceNavigator.Cpp.FirstPass

open Lib Lib.Program

variable {c : Calls} {s s' : State}

/-! ### Blocks of declarations -/

/-- The token of the moment is not the one at the end of the file. -/
def more (s : State) : Bool := tokenAt s.v s.keyw_cpp s.iva ≠ 0

/-- The measure of a loop over declarations, which goes on without a step only where the last reading
left a mode in which there is no token. -/
def declarationMeasure (s : State) : Nat := 2 * s.rest + if more s then 1 else 0

theorem declarationMeasure_le : declarationMeasure s ≤ 2 * s.rest + 1 := by
  unfold declarationMeasure
  split <;> omega

/-- A declaration brings the loop around it on. -/
theorem declarationMeasure_lt (le : s'.rest ≤ s.rest) (h : s'.rest < s.rest ∨
    tokenAt s'.v s'.keyw_cpp s'.iva = 0) (token : more s = true) :
    declarationMeasure s' < declarationMeasure s := by
  unfold declarationMeasure
  rw [if_pos token]
  rcases h with lt | none
  · split <;> omega
  · have done : ¬ more s' = true := by simp [more, none]
    rw [if_neg done]
    omega

theorem declarationBlock_ends (good : c.Good) (path : Path 1 s s') (lt : s'.rest < s.rest)
    (room : Room c 0 s) (name : LongString) :
    Ends (declarationBlock c name) s' fun _ t => Path 1 s t ∧ t.rest < s.rest := by
  simp only [declarationBlock, ends_bind, ends_step]
  have lt := State.past_step lt 1
  have path := path.step 1
  have room : Room c 8 (s'.step 1) := room.further lt
  have enough : declarationMeasure (s'.step 1) < c.fuel := by
    have bound := declarationMeasure_le (s := s'.step 1)
    unfold Room at room
    omega
  refine path.roundsBy declarationMeasure enough fun _ t path le => ?_
  have room : Room c 7 t := by
    unfold Room at room ⊢
    omega
  simp only [ends_bind, ends_token]
  split
  case isTrue goesOn =>
    simp only [ends_bind]
    refine (good.declaration path.sound room _).imp fun _ u h => ?_
    simp only [ends_pure]
    refine ⟨path.call h.1, h.1.rest_le, declarationMeasure_lt h.1.rest_le h.2 ?_⟩
    simpa [more] using goesOn.2
  case isFalse =>
    simp only [ends_pure]
    exact ⟨path.step 1, State.past_step (le.trans_lt lt) 1⟩

/-! ### Declarations -/

theorem template_declaration_ends (good : c.Good) (sound : Sound s) (room : Room c 0 s)
    (inside : s.iva < s.v.length) (x : Declaration) :
    Ends (template_declaration c x) s (Reads s) := by
  refine ends_reads rfl ?_
  simp only [ends_bind, ends_save, ends_enter, ends_step, ends_token]
  obtain ⟨path, lt⟩ := entered_step sound inside
  -- The declaration behind the template parameters.
  have parameters : ∀ s', Path 1 s s' → s'.rest < s.rest → Ends (do
      if (← token 0) = chr '<' then
        let name ← template_argument_skip x.name
        c.declaration (some name)
        leave
        pure true
      else
        restore s.iva
        leave
        pure false) s' (Reads s) := by
    intro s' path lt
    simp only [ends_bind, ends_token]
    split
    · simp only [ends_bind]
      refine (template_argument_skip_ends path.sound _).imp fun name t h => ?_
      have lt := h.1.past lt
      have path := path.call h.1
      refine (good.declaration path.sound ((room.further lt).mono (by decide)) _).imp fun _ t h => ?_
      simp only [ends_leave, ends_pure]
      exact ⟨(path.call h.1).succeeds, fun _ => h.1.past lt⟩
    · simp only [ends_bind, ends_restore, ends_leave, ends_pure]
      exact path.fails.reads
  split
  · simp only [ends_bind, ends_step, ends_token]
    have lt := State.past_step lt 1
    have path := path.step 1
    split
    · exact ends_bind.mpr (ends_step.mpr (parameters _ (path.step 1) (State.past_step lt 1)))
    · exact parameters _ path lt
  · exact parameters _ path lt

theorem linkage_specification_ends (good : c.Good) (sound : Sound s) (room : Room c 0 s)
    (inside : s.iva < s.v.length) (x : Declaration) :
    Ends (linkage_specification c x) s (Reads s) := by
  refine ends_reads rfl ?_
  simp only [ends_bind, ends_enter, ends_step]
  obtain ⟨path, lt⟩ := entered_step sound inside
  refine (path.step 1).scanning exits_strings fun k _ path _ _ => ?_
  have lt := State.past_step (State.past_step lt 1) k
  simp only [ends_token]
  split
  · simp only [ends_bind]
    refine (declarationBlock_ends good path lt room _).imp fun _ t h => ?_
    simp only [ends_leave, ends_pure]
    exact ⟨h.1.succeeds, fun _ => h.2⟩
  · simp only [ends_bind]
    refine (good.declaration path.sound ((room.further lt).mono (by decide)) _).imp fun _ t h => ?_
    simp only [ends_leave, ends_pure]
    exact ⟨(path.call h.1).succeeds, fun _ => h.1.past lt⟩

theorem extern_declaration_ends (good : c.Good) (sound : Sound s) (room : Room c 5 s)
    (inside : s.iva < s.v.length) (x : Declaration) :
    Ends (extern_declaration c x) s (Reads s) := by
  refine ends_reads rfl ?_
  simp only [ends_bind, ends_enter, ends_token]
  have path := (Path.refl sound).enter
  have room : Room c 5 (s.setNiveau (s.niveau + 1)) := room.path path
  split
  · simp only [ends_bind]
    refine (linkage_specification_ends good path.sound (room.mono (by decide)) inside x).imp
      fun ok t h => ?_
    simp only [ends_leave, ends_pure]
    exact h.enclosed sound
  · simp only [ends_bind]
    refine (obj_declaration_ends good path.sound room x).imp fun ok t h => ?_
    simp only [ends_leave, ends_pure]
    exact h.enclosed sound

theorem using_ends (sound : Sound s) (inside : s.iva < s.v.length) (x : Declaration) :
    Ends (using_ x) s (Reads s) := by
  refine ends_reads rfl ?_
  simp only [ends_bind, ends_save, ends_enter, ends_token]
  obtain ⟨path, lt⟩ := entered_step sound inside
  have name : ∀ s', Path 1 s s' → s'.rest < s.rest → Ends (do
      let result ← namespace_name x.name
      if result.1 then
        leave
        pure true
      else
        restore s.iva
        leave
        pure false) s' (Reads s) := by
    intro s' path lt
    refine ends_bind.mpr ((namespace_name_ends path.sound _).imp fun result t h => ?_)
    obtain ⟨found, _⟩ := result
    obtain rfl : found = true := h.2
    simp only [if_true, ends_bind, ends_leave, ends_pure]
    exact ⟨(path.call h.1).succeeds, fun _ => h.1.past lt⟩
  split
  · exact name _ (path.step 1) (State.past_step lt 1)
  · exact name _ path lt

theorem namespaceHead_ends (path : Path 1 s s') (inside : s'.iva < s'.v.length) (x : Declaration) :
    Ends (namespaceHead x) s' fun _ t => Path 1 s t ∧ t.rest < s.rest := by
  simp only [namespaceHead, ends_bind, ends_token]
  have lt : (s'.step 1).rest < s.rest :=
    (((Path.refl path.sound).step 1).rest_lt inside (Nat.lt_succ_self _)).trans_le path.rest_le
  have path := path.step 1
  split
  · simp only [ends_bind, ends_step, ends_token]
    have lt := State.past_step lt 1
    have path := path.step 1
    split
    · simp only [ends_bind, ends_step]
      have path := path.step 1
      refine (namespace_name_ends path.sound _).imp fun _ t h => ?_
      exact ⟨path.call h.1, h.1.past (State.past_step lt 1)⟩
    · exact ⟨path, lt⟩
  · exact ⟨path, lt⟩

theorem namespace_definition_ends (good : c.Good) (sound : Sound s) (room : Room c 0 s)
    (inside : s.iva < s.v.length) (x : Declaration) :
    Ends (namespace_definition c x) s (Reads s) := by
  refine ends_reads rfl ?_
  simp only [ends_bind, ends_save, ends_enter]
  have path := (Path.refl sound).enter
  refine (namespaceHead_ends path inside x).imp fun result t head => ?_
  obtain ⟨found, name⟩ := result
  obtain ⟨path, lt⟩ := head
  simp only [ends_token]
  split
  · simp only [ends_bind]
    refine (declarationBlock_ends good path lt room _).imp fun _ t h => ?_
    simp only [ends_leave, ends_pure]
    exact ⟨h.1.succeeds, fun _ => h.2⟩
  · simp only [ends_bind, ends_restore, ends_leave, ends_pure]
    exact path.fails.reads

theorem _declaration_ends (good : c.Good) (sound : Sound s) (room : Room c 5 s)
    (outer : Option LongString) : Ends (_declaration c outer) s (Reads s) := by
  refine ends_reads rfl ?_
  simp only [ends_bind, ends_enter, ends_token]
  have path := (Path.refl sound).enter
  have room : Room c 5 (s.setNiveau (s.niveau + 1)) := room.path path
  have room₀ : Room c 0 (s.setNiveau (s.niveau + 1)) := room.mono (by decide)
  have last : ∀ {m : M Bool}, Ends m (s.setNiveau (s.niveau + 1))
      (Reads (s.setNiveau (s.niveau + 1))) → Ends (do
        let iRetval ← m
        leave
        pure iRetval) (s.setNiveau (s.niveau + 1)) (Reads s) := by
    intro m run
    refine ends_bind.mpr (run.imp fun ok t h => ?_)
    simp only [ends_bind, ends_leave, ends_pure]
    exact h.enclosed sound
  split
  case isTrue key => exact last (asm_declaration_ends path.sound (inside_of_token key (by decide)))
  case isFalse =>
    split
    case isTrue key =>
      exact last (template_declaration_ends good path.sound room₀ (inside_of_token key (by decide)) _)
    case isFalse =>
      split
      case isTrue key =>
        exact last (namespace_definition_ends good path.sound room₀ (inside_of_token key (by decide)) _)
      case isFalse =>
        split
        case isTrue key => exact last (using_ends path.sound (inside_of_token key (by decide)) _)
        case isFalse =>
          split
          case isTrue key =>
            exact last (extern_declaration_ends good path.sound room
              (inside_of_token key (by decide)) _)
          case isFalse => exact last (obj_declaration_ends good path.sound room _)

theorem declarationReadings_ends (good : c.Good) (sound : Sound s) (room : Room c 5 s)
    (outer : Option LongString) : Ends (declarationReadings c outer) s (Tried s) := by
  simp only [declarationReadings, ends_bind, setTry]
  have h := (Between.start sound).setTry 1
  refine (reading_ends (_declaration_ends good h.path.sound (room.path h.path) outer)).imp
    fun found t h' => ?_
  cases found with
  | true => exact h.found h'
  | false =>
    simp only [Bool.false_eq_true, if_false, ends_bind, switchMode]
    have h := (h.failed h').switch.setTry 2
    refine (reading_ends (_declaration_ends good h.path.sound (room.path h.path) outer)).imp
      fun found t h' => ?_
    cases found with
    | true => exact h.found h'
    | false =>
      simp only [Bool.false_eq_true, if_false, ends_bind]
      have h := (h.failed h').switch.setTry 3
      refine (reading_ends (_declaration_ends good h.path.sound (room.path h.path) outer)).imp
        fun found t h' => ?_
      cases found with
      | true => exact h.found h'
      | false => exact (h.failed h').tried

theorem declaration_ends (good : c.Good) (sound : Sound s) (room : Room c 6 s)
    (outer : Option LongString) :
    Ends (declaration c outer) s fun _ s' => Path 0 s s' ∧
      (s'.rest < s.rest ∨ tokenAt s'.v s'.keyw_cpp s'.iva = 0) := by
  refine ends_callVoid ?_ fun _ _ _ h => h
  simp only [ends_bind]
  refine (choosing_ends (declarationReadings_ends good sound (room.mono (by decide)) outer)).imp
    fun found t h => ?_
  cases found with
  | true => exact ⟨h.path, .inl (h.further rfl)⟩
  | false =>
    refine (skip_declaration_ends h.path.sound).imp fun _ u result => ?_
    obtain ⟨path, further⟩ := result
    exact ⟨h.path.call path, further.imp_left fun lt => lt.trans_le h.path.rest_le⟩

/-! ### The cycle of calls -/

theorem calls_fuel (n : Nat) : (calls n).fuel = n := by
  cases n with
  | zero => rfl
  | succ n => rfl

theorem calls_good (n : Nat) : (calls n).Good := by
  induction n with
  | zero =>
    have none {rank : Nat} {s : State} (room : Room (calls 0) (rank + 1) s) : False :=
      absurd room (by simp [Room, calls, Calls.none])
    constructor
    all_goals intro s sound room
    all_goals exact (none room).elim
  | succ n good =>
    have room {rank : Nat} {s : State} (h : Room (calls (n + 1)) (rank + 1) s) :
        Room (calls n) rank s := by
      unfold Room at h ⊢
      rw [calls_fuel] at h ⊢
      omega
    constructor
    · intro s sound h plstr
      exact qualified_class_name_ends good sound (room h) plstr
    · intro s sound h r
      exact qualified_name_ends good sound (room h) r
    · intro s sound h r
      exact declarator_ends good sound (room h) r
    · intro s sound h r
      exact kr_argument_declarator_ends good sound (room h) r
    · intro s sound h r
      exact function_argument_declarator_ends good s r sound (room h)
    · intro s sound h types names
      exact function_argument_declaration_list_ends good sound (room h) types names
    · intro s sound h inside x k
      exact f_class_ends good sound (room h) inside x k
    · intro s sound h outer
      exact declaration_ends good sound (room h) outer

/-! ### The main loop -/

theorem startParser_ends (good : c.Good) (sound : Sound s) (room : Room c 7 s)
    (outermost : s.niveau = 0) : Ends (startParser c) s fun _ s' => Path 0 s s' := by
  have enough : declarationMeasure s < c.fuel := by
    have bound := declarationMeasure_le (s := s)
    unfold Room at room
    omega
  refine (Path.refl sound).roundsBy declarationMeasure enough fun _ s' path le => ?_
  simp only [ends_bind, ends_token]
  split
  case isTrue goesOn =>
    simp only [ends_bind]
    refine (good.declaration path.sound (room.path path) _).imp fun _ t h => ?_
    have path := path.call h.1
    simp only [ends_read, ends_log, ends_pure]
    have balanced : t.niveau = 0 := by
      rw [path.niveau, outermost]
      rfl
    refine ⟨path.log balanced (fun _ => trivial) (fun _ => trivial) trivial, h.1.rest_le, ?_⟩
    refine declarationMeasure_lt h.1.rest_le h.2 ?_
    simpa [more] using goesOn
  case isFalse => exact path

namespace Source

variable (x : Source)

theorem start_sound : Sound x.start := by
  refine ⟨⟨?_, ?_, ?_, ?_⟩, ?_⟩
  · intro e mem
    exact nomatch mem
  · intro _ e mem
    exact nomatch mem
  · intro _ e mem
    exact nomatch mem
  · intro _ _
    exact ⟨[], List.Pairwise.nil, (fun i mem => nomatch mem), rfl⟩
  · intro e mem
    exact nomatch mem

/-- The run ends in a sound state, or comes to a loop without an end. -/
theorem run_ends : Ends (startParser (calls x.fuel)) x.start fun _ s => Path 0 x.start s := by
  refine startParser_ends (calls_good _) x.start_sound ?_ rfl
  rw [Room, calls_fuel]
  change 8 * (x.tokens.length - 0) + 7 ≤ 8 * x.tokens.length + 8
  omega

/-- The state at the end of the run, or at the loop that it never leaves. -/
def final : State :=
  match x.run with
  | .done _ s => s
  | .endless s => s
  | .unfinished => x.start

/-- What the run recorded. -/
def trace : List Event := x.final.trace

/-- The opening braces of the bodies that the run reported. -/
def bodies : List (Int × Int) := x.final.bodies

/-- The steps suffice: the run ends, or comes to a loop without an end. -/
theorem run_cases : (x.run = .done () x.final ∧ Sound x.final) ∨
    (x.run = .endless x.final ∧ Stuck x.final) := by
  have h := x.run_ends
  unfold Ends Runs at h
  rw [← run] at h
  unfold final
  cases eq : x.run with
  | done a s =>
    rw [eq] at h
    exact .inl ⟨rfl, h.sound⟩
  | endless s =>
    rw [eq] at h
    exact .inr ⟨rfl, h⟩
  | unfinished =>
    rw [eq] at h
    exact h.elim

theorem final_v : x.final.v = x.tokens := by
  have keeps := (startParser (calls x.fuel)).keeps x.start
  rw [← run] at keeps
  unfold final
  cases eq : x.run with
  | done a s =>
    rw [eq] at keeps
    exact keeps
  | endless s =>
    rw [eq] at keeps
    exact keeps
  | unfinished => rfl

/-- What is kept along the run, however it goes on. -/
theorem kept : Kept x.tokens x.final.iva x.bodies x.trace := by
  have h : x.final.Kept := by
    rcases x.run_cases with ⟨_, sound⟩ | ⟨_, stuck⟩
    · exact sound.kept
    · exact stuck.kept
  unfold State.Kept at h
  rwa [x.final_v] at h

/-! ### Termination -/

/-- The tokens of a line, one column after the other, with their codes in the two modes. -/
def line (tokens : List (Nat × Nat × String)) : Source where
  tokens := tokens.zipIdx.map fun (t, i) => ⟨t.1, t.2.1, ascii t.2.2, 1, i⟩

/-- A token that is the same in both modes. -/
abbrev both (t : Nat) (text : String) : Nat × Nat × String := (t, t, text)

/-- A character. -/
abbrev char (ch : Char) : Nat × Nat × String := both (chr ch) (String.singleton ch)

theorem line_increasing (tokens : List (Nat × Nat × String)) : Increasing (line tokens).tokens := by
  intro i j lt first second
  have place (k : Nat) (opens : Opens (line tokens).tokens k) :
      position (line tokens).tokens k = (1, (k : Int)) := by
    have inside : k < (line tokens).tokens.length := by
      rcases opens with brace | brace
      · exact inside_of_token brace (by decide)
      · exact inside_of_token brace (by decide)
    simp only [line, List.length_map, List.length_zipIdx] at inside
    simp [position, line, inside]
  rw [place i first, place j second, Prod.Lex.toLex_lt_toLex]
  exact .inr ⟨rfl, by simpa using lt⟩

end Source

end SourceNavigator.Cpp.FirstPass

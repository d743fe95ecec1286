import SourceNavigator.Cpp.FirstPass.Sound

/-!
Rules for the runs of the first pass.

`Ends m s Q` says that the run of `m` from `s` ends with `Q`, or comes to a loop
that has no end. The equations for the steps are used by `simp`; the rules for
calls, loops over tokens and the ends of functions carry a path along.
-/

namespace SourceNavigator.Cpp.FirstPass

open Lib Lib.Program

/-- The run ends with `Q`, unless it is stuck in a loop without an end. -/
abbrev Ends {α : Type} (m : M α) (s : State) (Q : α → State → Prop) : Prop := Runs m s Q Stuck

/-! ### Tokens -/

section Tokens

variable {s : State} {v : List Entry} {keyw_cpp : Bool} {p i k : Nat}

theorem tokenAt_inside (h : tokenAt v keyw_cpp p ≠ 0) : p < v.length := by
  by_contra outside
  exact h (by simp [tokenAt, List.getElem?_eq_none (Nat.le_of_not_lt outside)])

/-- A token other than the one at the end of the file is one of the tokens. -/
theorem inside_of_token {t : Nat} (eq : tokenAt v keyw_cpp p = t) (more : t ≠ 0) : p < v.length :=
  tokenAt_inside (eq ▸ more)

/-- A token of a list is not the one at the end of the file. -/
theorem ne_zero_of_mem {t : Nat} {codes : List Nat} (mem : t ∈ codes) (missing : 0 ∉ codes) : t ≠ 0 := by
  rintro rfl
  exact missing mem

theorem ne_zero_of_lookup {β : Type} {t : Nat} {table : List (Nat × β)} {b : β}
    (found : table.lookup t = some b) (missing : (table.lookup 0).isNone) : t ≠ 0 := by
  rintro rfl
  simp [found] at missing

theorem token_left : Cpp.token s.left i = tokenAt s.v s.keyw_cpp (s.iva + i) := by
  simp [Cpp.token, State.left, leftFrom, tokenAt, Entry.view, Function.comp_def]

theorem left_step : (s.step k).left = s.left.drop k := by
  simp [State.left, leftFrom, ← List.map_drop]

/-- Where a loop over tokens is left, with an invariant of what it counts. -/
theorem scan_exit {β : Type} {next : β → List StackEntry → Option β} {b b' : β}
    {ts : List StackEntry} {I : β → Prop} (start : I b)
    (keep : ∀ b ts b', next b ts = some b' → I b → I b') (found : scan next b ts = some (k, b')) :
    next b' (ts.drop k) = none ∧ (k = 0 → b' = b) ∧ I b' := by
  induction ts generalizing b k with
  | nil =>
    rw [scan] at found
    split at found
    next stops =>
      obtain ⟨rfl, rfl⟩ := Prod.mk.inj (Option.some.inj found)
      exact ⟨Option.isNone_iff_eq_none.mp stops, fun _ => rfl, start⟩
    next => exact nomatch found
  | cons t ts ih =>
    rw [scan] at found
    split at found
    next stops =>
      obtain ⟨rfl, rfl⟩ := Prod.mk.inj (Option.some.inj found)
      exact ⟨stops, fun _ => rfl, start⟩
    next b'' goesOn =>
      obtain ⟨⟨k', b'''⟩, rest, eq⟩ := Option.map_eq_some_iff.mp found
      obtain ⟨rfl, rfl⟩ := Prod.mk.inj eq
      obtain ⟨stops, _, kept⟩ := ih (keep b _ b'' goesOn start) rest
      exact ⟨stops, fun none => absurd none (Nat.succ_ne_zero k'), kept⟩

/-- `scan` decides whether the loop is ever left, where a round at the end of the file changes
nothing. -/
theorem scan_isSome_iff {β : Type} {next : β → List StackEntry → Option β}
    (stays : ∀ b b', next b [] = some b' → b' = b) (b : β) (ts : List StackEntry) :
    (scan next b ts).isSome ↔ ∃ n, roundsOf next n b ts = none := by
  induction ts generalizing b with
  | nil =>
    rw [scan]
    cases round : next b [] with
    | none => exact ⟨fun _ => ⟨1, by simp [roundsOf, round]⟩, fun _ => rfl⟩
    | some b' =>
      obtain rfl := stays b b' round
      refine ⟨fun exit => by simp at exit, fun ⟨n, left⟩ => ?_⟩
      have goesOn : ∀ n, roundsOf next n b' [] = some b' := by
        intro n
        induction n with
        | zero => rfl
        | succ n ih => simpa [roundsOf, round] using ih
      exact absurd left (by simp [goesOn n])
  | cons t ts ih =>
    rw [scan]
    cases round : next b (t :: ts) with
    | none => exact ⟨fun _ => ⟨1, by simp [roundsOf, round]⟩, fun _ => rfl⟩
    | some b' =>
      rw [Option.isSome_map, ih b']
      constructor
      · rintro ⟨n, left⟩
        exact ⟨n + 1, by simpa [roundsOf, round] using left⟩
      · rintro ⟨n, left⟩
        cases n with
        | zero => exact nomatch left
        | succ n => exact ⟨n, by simpa [roundsOf, round] using left⟩

/-- The loops without a test for the end of the file are left if and only if their token is there. -/
theorem SkipLoop.closes_iff (ts : List StackEntry) :
    (SkipLoop.expression.Closes ts ↔ ∃ n, roundsOf expressionEnd n 0 ts = none) ∧
      (SkipLoop.macroCall.Closes ts ↔ ∃ n, roundsOf macroCallEnd n 1 ts = none) := by
  constructor
  · exact scan_isSome_iff (by simp [expressionEnd, Cpp.token, chr]) 0 ts
  · exact scan_isSome_iff (by simp [macroCallEnd, Cpp.token, chr]) 1 ts

/-- A loop that is left at the end of the file is left. -/
theorem scan_isSome {β : Type} {next : β → List StackEntry → Option β}
    (exit : ∀ b, next b [] = none) (b : β) (ts : List StackEntry) : (scan next b ts).isSome := by
  induction ts generalizing b with
  | nil => simp [scan, exit]
  | cons t ts ih =>
    rw [scan]
    split
    next => rfl
    next b' _ => rw [Option.isSome_map]; exact ih b'

end Tokens

/-! ### Steps -/

section Steps

variable {s : State} {i p : Nat} {e : Event} {α β : Type} {a : α} {m : M α} {f : α → M β}
  {E : State → Prop}

theorem ends_pure {Q : α → State → Prop} : Runs (pure a : M α) s Q E ↔ Q a s := Iff.rfl

theorem ends_bind {Q : β → State → Prop} :
    Runs (m >>= f) s Q E ↔ Runs m s (fun a s' => Runs (f a) s' Q E) E := runs_bind

theorem ends_read {g : State → α} {Q : α → State → Prop} :
    Runs (read g : M α) s Q E ↔ Q (g s) s := Iff.rfl

theorem ends_change {g : State → State} {keeps : ∀ s, (g s).v = s.v} {Q : Unit → State → Prop} :
    Runs (change g keeps) s Q E ↔ Q () (g s) := Iff.rfl

theorem ends_token {Q : Nat → State → Prop} :
    Runs (token i) s Q E ↔ Q (tokenAt s.v s.keyw_cpp (s.iva + i)) s := Iff.rfl

theorem ends_step {Q : Unit → State → Prop} : Runs (step i) s Q E ↔ Q () (s.step i) := Iff.rfl

theorem ends_save {Q : Nat → State → Prop} : Runs save s Q E ↔ Q s.iva s := Iff.rfl

theorem ends_log {Q : Unit → State → Prop} : Runs (log e) s Q E ↔ Q () (s.log e) := Iff.rfl

theorem ends_restore {Q : Unit → State → Prop} : Runs (restore p) s Q E ↔ Q () (s.back p) := Iff.rfl

theorem ends_enter {Q : Unit → State → Prop} :
    Runs enter s Q E ↔ Q () (s.setNiveau (s.niveau + 1)) := Iff.rfl

theorem ends_leave {Q : Unit → State → Prop} :
    Runs leave s Q E ↔ Q () (s.setNiveau (s.niveau - 1)) := Iff.rfl

theorem ends_setNiveau {n : Int} {Q : Unit → State → Prop} :
    Runs (setNiveau n) s Q E ↔ Q () (s.setNiveau n) := Iff.rfl

theorem ends_symbol {x : Symbol} {Q : Unit → State → Prop} :
    Runs (Put_symbol x) s Q E ↔ Q () (s.report (.symbol x)) := Iff.rfl

theorem ends_ident {Q : Text → State → Prop} :
    Runs (ident i) s Q E ↔ Q (s.v[s.iva + i]?.getD s.eof).yytext s := Iff.rfl

theorem ends_identleng {Q : Int → State → Prop} :
    Runs (identleng i) s Q E ↔ Q (s.v[s.iva + i]?.getD s.eof).yytext.length s := Iff.rfl

theorem ends_f_lineno {Q : Int → State → Prop} :
    Runs (f_lineno i) s Q E ↔ Q (s.v[s.iva + i]?.getD s.eof).yylineno s := Iff.rfl

theorem ends_f_charno {Q : Int → State → Prop} :
    Runs (f_charno i) s Q E ↔ Q (s.v[s.iva + i]?.getD s.eof).yycharno s := Iff.rfl

theorem ends_lineno_before {Q : Int → State → Prop} :
    Runs lineno_before s Q E ↔ Q (before s).yylineno s := Iff.rfl

theorem ends_charno_before {Q : Int → State → Prop} :
    Runs charno_before s Q E ↔ Q (before s).yycharno s := Iff.rfl

theorem ends_identleng_before {Q : Int → State → Prop} :
    Runs identleng_before s Q E ↔ Q (before s).yytext.length s := Iff.rfl

end Steps

attribute [simp] ends_pure ends_bind ends_read ends_change ends_token ends_step ends_save ends_log
  ends_restore ends_enter ends_leave ends_setNiveau ends_symbol ends_ident ends_identleng ends_f_lineno
  ends_f_charno ends_lineno_before ends_charno_before ends_identleng_before

/-! ### Loops over tokens -/

section Scanning

variable {s : State} {β : Type} {next : β → List StackEntry → Option β} {b : β}
  {Q : β → State → Prop}

/-- A loop over tokens that is left at the end of the file. -/
theorem ends_scanning {I : β → Prop} (exit : ∀ b, next b [] = none) (start : I b)
    (keep : ∀ b ts b', next b ts = some b' → I b → I b')
    (found : ∀ k b', next b' (s.step k).left = none → (k = 0 → b' = b) → I b' → Q b' (s.step k)) :
    Ends (scanning next b) s Q := by
  obtain ⟨⟨k, b'⟩, run⟩ := Option.isSome_iff_exists.mp (scan_isSome exit b s.left)
  obtain ⟨stops, none, kept⟩ := scan_exit start keep run
  rw [← left_step] at stops
  have done : (scanning next b).run s = .done b' (s.step k) := by simp [scanning, run]
  exact runs_of_done done (found k b' stops none kept)

/-- A loop over tokens that is not left at the end of the file. -/
theorem ends_skipping {loop : SkipLoop} (sound : Sound s)
    (closes : loop.Closes s.left ↔ (scan next b s.left).isSome)
    (found : ∀ k b', Sound ((s.log (.skips loop s.left)).step k) →
      Q b' ((s.log (.skips loop s.left)).step k)) :
    Ends (skipping loop next b) s Q := by
  simp only [skipping, ends_bind, ends_read, ends_log]
  have left : (s.log (.skips loop s.left)).left = s.left := rfl
  cases run : scan next b s.left with
  | some result =>
    obtain ⟨k, b'⟩ := result
    have logged : Sound (s.log (.skips loop s.left)) :=
      sound.log trivial (fun _ => trivial) (fun _ => trivial) (closes.mpr (by simp [run]))
    have done : (scanning next b).run (s.log (.skips loop s.left)) =
        .done b' ((s.log (.skips loop s.left)).step k) := by
      simp [scanning, left, run]
    exact runs_of_done done (found k b' (logged.step k))
  | none =>
    have open_loop : ¬ loop.Closes s.left := by simp [closes, run]
    have stuck : Stuck (s.log (.skips loop s.left)) := by
      refine ⟨sound.kept.log trivial (fun _ => trivial) fun _ => trivial, fun closed => ?_⟩
      exact open_loop (closed _ (List.mem_append_right _ (List.mem_singleton_self _)))
    change Runs _ _ _ _
    unfold Runs
    simp [scanning, left, run, stuck]

end Scanning

/-! ### Calls -/

/-- The result of a function with a verdict: on failure it is back where it began. -/
structure Verdict (s : State) (ok : Bool) (s' : State) : Prop where
  path : Path 0 s s'
  restored : ok = false → s'.Orderly → s'.iva = s.iva

/-- The result of a function that reads something when it succeeds. -/
structure Reads (s : State) (ok : Bool) (s' : State) : Prop extends Verdict s ok s' where
  further : ok = true → s'.rest < s.rest

section Calls

variable {s s' s'' : State} {α : Type} {f : ParseFunction} {success : α → Bool} {m : M α} {a : α}
  {P : α → State → Prop}

/-- What is recorded about a call that leaves things in order. -/
theorem Path.returned (path : Path 0 s s') {ok : Bool}
    (restored : ok = false → f.backtracks = true → s'.Orderly → s'.iva = s.iva) :
    Path 0 s (s'.log (.returned f ok s.standing s'.standing)) := by
  refine path.log ?_ ?_ (fun _ => trivial) trivial
  · exact path.niveau.trans (Int.add_zero _)
  · intro orderly failed backtracks
    exact restored failed backtracks fun e mem => orderly e (List.mem_append_left _ mem)

theorem ends_call
    (run : Ends m s fun a s' => Path 0 s s' ∧
      (success a = false → f.backtracks = true → s'.Orderly → s'.iva = s.iva) ∧ P a s')
    (stable : ∀ a s' e, P a s' → P a (s'.log e)) :
    Ends (call f success m) s fun a s' => Path 0 s s' ∧
      (success a = false → f.backtracks = true → s'.Orderly → s'.iva = s.iva) ∧ P a s' := by
  simp only [call, ends_bind, ends_read, ends_log, ends_pure]
  refine run.imp fun a s' h => ⟨h.1.returned h.2.1, ?_, stable a s' _ h.2.2⟩
  intro failed backtracks orderly
  exact h.2.1 failed backtracks fun e mem => orderly e (List.mem_append_left _ mem)

/-- The call of a function with a verdict, and something else that is known. -/
theorem ends_verdict_and (backtracks : f.backtracks = true)
    (run : Ends m s fun a s' => Verdict s (success a) s' ∧ P a s')
    (stable : ∀ a s' e, P a s' → P a (s'.log e)) :
    Ends (call f success m) s fun a s' => Verdict s (success a) s' ∧ P a s' :=
  (ends_call (run.imp fun _ _ h => ⟨h.1.path, fun failed _ => h.1.restored failed, h.2⟩) stable).imp
    fun _ _ h => ⟨⟨h.1, fun failed => h.2.1 failed backtracks⟩, h.2.2⟩

/-- The call of a function with a verdict. -/
theorem ends_verdict (backtracks : f.backtracks = true)
    (run : Ends m s fun a s' => Verdict s (success a) s') :
    Ends (call f success m) s fun a s' => Verdict s (success a) s' :=
  (ends_verdict_and (P := fun _ _ => True) backtracks (run.imp fun _ _ h => ⟨h, trivial⟩)
    fun _ _ _ _ => trivial).imp fun _ _ h => h.1

/-- The call of a function that reads something. -/
theorem ends_reads (backtracks : f.backtracks = true)
    (run : Ends m s fun a s' => Reads s (success a) s') :
    Ends (call f success m) s fun a s' => Reads s (success a) s' :=
  (ends_verdict_and (P := fun a s' => success a = true → s'.rest < s.rest) backtracks
    (run.imp fun _ _ h => ⟨h.toVerdict, h.further⟩) fun _ _ _ h => h).imp
    fun _ _ h => ⟨h.1, h.2⟩

/-- The call of a function that need not go back. -/
theorem ends_free (free : f.backtracks = false) (run : Ends m s fun a s' => Path 0 s s' ∧ P a s')
    (stable : ∀ a s' e, P a s' → P a (s'.log e)) :
    Ends (call f success m) s fun a s' => Path 0 s s' ∧ P a s' :=
  (ends_call (run.imp fun _ _ h => ⟨h.1, fun _ backtracks => by simp [free] at backtracks, h.2⟩)
    stable).imp fun _ _ h => ⟨h.1, h.2.2⟩

/-- The call of a function without a verdict. -/
theorem ends_callVoid (run : Ends m s fun a s' => Path 0 s s' ∧ P a s')
    (stable : ∀ a s' e, P a s' → P a (s'.log e)) :
    Ends (callVoid f m) s fun a s' => Path 0 s s' ∧ P a s' := by
  unfold callVoid
  refine (ends_call ?_ stable).imp fun _ _ h => ⟨h.1, h.2.2⟩
  exact run.imp fun _ _ h => ⟨h.1, (by rintro ⟨⟩), h.2⟩

theorem ends_path (run : Ends m s fun _ s' => Path 0 s s') :
    Ends (callVoid f m) s fun _ s' => Path 0 s s' :=
  (ends_callVoid (P := fun _ _ => True) (run.imp fun _ _ h => ⟨h, trivial⟩)
    fun _ _ _ _ => trivial).imp fun _ _ h => h.1

/-! ### Steps on a path -/

variable {d : Int} {k t : Nat} {x : Symbol}

/-- A token is left behind. -/
theorem Path.read (path : Path d s s') (eq : tokenAt s'.v s'.keyw_cpp (s'.iva + 0) = t) (more : t ≠ 0) :
    (s'.step (k + 1)).rest < s.rest := by
  have inside : s'.iva < s'.v.length := inside_of_token eq more
  have le := path.rest_le
  simp only [State.rest, State.step_v, State.step_iva] at le ⊢
  omega

/-- What was left behind stays behind. -/
theorem Path.past (path : Path d s' s'') (lt : s'.rest < s.rest) : s''.rest < s.rest :=
  Nat.lt_of_le_of_lt path.rest_le lt

theorem State.rest_step_le : (s.step k).rest ≤ s.rest := by
  simp only [State.rest, State.step_v, State.step_iva]
  omega

theorem State.past_step (lt : s'.rest < s.rest) (k : Nat) : (s'.step k).rest < s.rest :=
  Nat.lt_of_le_of_lt rest_step_le lt

/-- A report of a symbol on a path. -/
theorem Path.reporting {Q : Unit → State → Prop} (path : Path d s s')
    (found : ∀ y, Path d s (s'.report (.symbol y)) → Q () (s'.report (.symbol y))) :
    Ends (Put_symbol x) s' Q :=
  found x (path.symbol x)

/-! ### Loops on a path -/

section Rounds

variable {β : Type} {body : β → M (β ⊕ α)} {b : β} {n : Nat} {Q : α → State → Prop}

/-- A loop whose measure goes down in every round. -/
theorem Path.roundsBy (μ : State → Nat) (path : Path d s s') (enough : μ s' < n)
    (round : ∀ b s'', Path d s s'' → s''.rest ≤ s'.rest → Ends (body b) s'' fun next t =>
      next.elim (fun _ => Path d s t ∧ t.rest ≤ s''.rest ∧ μ t < μ s'') fun a => Q a t) :
    Ends (loop n body b) s' Q := by
  refine runs_loop (I := fun _ s'' => Path d s s'' ∧ s''.rest ≤ s'.rest) (μ := fun _ s'' => μ s'')
    ?_ ⟨path, Nat.le_refl _⟩ enough
  intro b s'' kept
  refine (round b s'' kept.1 kept.2).imp fun next t h => ?_
  cases next with
  | inl y => exact ⟨⟨h.1, h.2.1.trans kept.2⟩, h.2.2⟩
  | inr a => exact h

/-- A loop that leaves a token behind in every round. -/
theorem Path.rounds (path : Path d s s') (enough : s'.rest < n)
    (round : ∀ b s'', Path d s s'' → s''.rest ≤ s'.rest → Ends (body b) s'' fun next t =>
      next.elim (fun _ => Path d s t ∧ t.rest < s''.rest) fun a => Q a t) :
    Ends (loop n body b) s' Q := by
  refine path.roundsBy State.rest enough fun b s'' path le => ?_
  refine (round b s'' path le).imp fun next t h => ?_
  cases next with
  | inl y => exact ⟨h.1, h.2.le, h.2⟩
  | inr a => exact h

end Rounds

/-! ### The ends of functions -/

theorem Path.fails (path : Path 1 s s') :
    Verdict s false ((s'.back s.iva).setNiveau ((s'.back s.iva).niveau - 1)) :=
  ⟨(path.back (Nat.le_refl _)).leave, fun _ _ => rfl⟩

theorem Verdict.reads (h : Verdict s false s') : Reads s false s' := ⟨h, by rintro ⟨⟩⟩

theorem Path.succeeds (path : Path 1 s s') : Verdict s true (s'.setNiveau (s'.niveau - 1)) :=
  ⟨path.leave, by rintro ⟨⟩⟩

/-- A function whose verdict is that of the function it calls first. -/
theorem Verdict.enclosed {ok : Bool} (sound : Sound s)
    (h : Verdict (s.setNiveau (s.niveau + 1)) ok s') :
    Verdict s ok (s'.setNiveau (s'.niveau - 1)) :=
  ⟨((Path.refl sound).enter.call h.path).leave, h.restored⟩

theorem Reads.enclosed {ok : Bool} (sound : Sound s) (h : Reads (s.setNiveau (s.niveau + 1)) ok s') :
    Reads s ok (s'.setNiveau (s'.niveau - 1)) :=
  ⟨h.toVerdict.enclosed sound, h.further⟩

/-- The end of a function that reports failure without going back. -/
theorem Path.unrestored (path : Path 1 s s') (g : ParseFunction) :
    Reads s false ((s'.log (.unrestored g)).setNiveau ((s'.log (.unrestored g)).niveau - 1)) := by
  have logged : Path 1 s (s'.log (.unrestored g)) :=
    path.log trivial (fun _ => trivial) (fun _ => trivial) trivial
  refine Verdict.reads ⟨logged.leave, fun _ orderly => ?_⟩
  exact (orderly (.unrestored g) (List.mem_append_right _ (List.mem_singleton_self _))).elim

theorem ends_giveUp (path : Path 1 s s') :
    Ends (giveUp s.iva a) s' fun a s' => Reads s a.1 s' := by
  simp only [giveUp, ends_bind, ends_restore, ends_leave, ends_pure]
  exact path.fails.reads

theorem ends_succeed (path : Path 1 s s') (further : s'.rest < s.rest) :
    Ends (succeed a) s' fun a s' => Reads s a.1 s' := by
  simp only [succeed, ends_bind, ends_leave, ends_pure]
  exact ⟨path.succeeds, fun _ => further⟩

theorem ends_giveUp_verdict (path : Path 1 s s') :
    Ends (giveUp s.iva a) s' fun a s' => Verdict s a.1 s' :=
  (ends_giveUp path).imp fun _ _ h => h.toVerdict

theorem ends_succeed_verdict (path : Path 1 s s') :
    Ends (succeed a) s' fun a s' => Verdict s a.1 s' := by
  simp only [succeed, ends_bind, ends_leave, ends_pure]
  exact path.succeeds

/-- The end of a function whose verdict is that of the last function it called. -/
theorem ends_either {found : Bool} (path : Path 1 s s') (further : found = true → s'.rest < s.rest)
    (a b : α) : Ends (if found then succeed a else giveUp s.iva b) s' fun a s' => Reads s a.1 s' := by
  cases found with
  | true => exact ends_succeed path (further rfl)
  | false => exact ends_giveUp path

end Calls

end SourceNavigator.Cpp.FirstPass

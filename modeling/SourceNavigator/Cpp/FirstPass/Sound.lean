import Mathlib.Data.Prod.Lex
import SourceNavigator.Cpp.FirstPass.Declaration

/-!
What holds along a run of the first pass.

`Sound` says of the reports and the trace of a state what does not depend on how
the state was reached: every function left `niveau` as it found it; unless a
function was left without going back or a failed reading changed the keyword
mode, every failure left the position and every declaration without a reading
left the mode alone; every loop without a test for the end of the file found its
end; and unless the position was taken back over a reported body, the bodies lie
one behind the other. `Path s s'` says that a run from `s` has come to the sound
state `s'`, and `Stuck` what is left of this when it has come to a loop without
an end. The rules at the end say what each step keeps.
-/

namespace SourceNavigator.Cpp.FirstPass

open Lib Lib.Program

/-! ### Events -/

/-- The functions that report failure where they began: all but the one that has read the keywords
before a base class, and the one that skips a member. -/
def ParseFunction.backtracks (f : ParseFunction) : Bool :=
  f ≠ .base_specifier && f ≠ .skip_member_declaration

/-- The tokens hold the one that a loop looks for. -/
def SkipLoop.Closes : SkipLoop → List StackEntry → Prop
  | expression, left => (scan expressionEnd 0 left).isSome
  | macroCall, left => (scan macroCallEnd 1 left).isSome

instance (loop : SkipLoop) (left : List StackEntry) : Decidable (loop.Closes left) := by
  cases loop <;> exact inferInstanceAs (Decidable (Option.isSome _ = true))

/-- Where a token begins. -/
def position (v : List Entry) (p : Nat) : Int × Int :=
  (v[p]?.map fun e => (e.yylineno, e.yycharno)).getD (0, 0)

/-- The token is an opening brace in one of the modes. -/
def Opens (v : List Entry) (p : Nat) : Prop :=
  tokenAt v false p = chr '{' ∨ tokenAt v true p = chr '{'

/-- An opening brace before `p` has this position. -/
def StartsBefore (v : List Entry) (p : Nat) (brace : Int × Int) : Prop :=
  ∃ i < p, Opens v i ∧ position v i = brace

namespace Event

/-- `niveau` is what it was at the call, and zero between the declarations of the main loop. -/
def Balanced : Event → Prop
  | returned _ _ entry leaving => leaving.niveau = entry.niveau
  | check niveau => niveau = 0
  | _ => True

/-- A failure leaves the position as it was at the call. -/
def Restores : Event → Prop
  | returned f success entry leaving =>
    success = false → f.backtracks = true → leaving.iva = entry.iva
  | _ => True

/-- A declaration that could not be read leaves the keyword mode as it was. -/
def KeepsMode : Event → Prop
  | chosen found before after => found = false → after = before
  | _ => True

/-- No function reports failure without going back, and no failed reading changes the mode. -/
def Orderly : Event → Prop
  | unrestored _ => False
  | failed before after => after = before
  | _ => True

/-- A loop without a test for the end of the file finds its end. -/
def Closes : Event → Prop
  | skips loop left => loop.Closes left
  | _ => True

/-- The position is taken back over no reported body. -/
def Clear (v : List Entry) : Event → Prop
  | back bodies p => ∀ brace ∈ bodies, StartsBefore v p brace
  | _ => True

instance : DecidablePred Orderly
  | unrestored _ => inferInstanceAs (Decidable False)
  | failed before after => inferInstanceAs (Decidable (after = before))
  | skips _ _ | back _ _ | returned _ _ _ _ | chosen _ _ _ | check _ =>
    inferInstanceAs (Decidable True)

instance (v : List Entry) (p : Nat) : Decidable (Opens v p) :=
  inferInstanceAs (Decidable (_ ∨ _))

instance (v : List Entry) (p : Nat) (brace : Int × Int) : Decidable (StartsBefore v p brace) :=
  inferInstanceAs (Decidable (∃ i, i < p ∧ Opens v i ∧ position v i = brace))

instance (v : List Entry) : DecidablePred (Clear v)
  | back bodies p => inferInstanceAs (Decidable (∀ brace ∈ bodies, StartsBefore v p brace))
  | skips _ _ | returned _ _ _ _ | unrestored _ | failed _ _ | chosen _ _ _ | check _ =>
    inferInstanceAs (Decidable True)

end Event

/-! ### Sound states -/

/-- Each opening brace is behind the one before. -/
def Increasing (v : List Entry) : Prop :=
  ∀ i j, i < j → Opens v i → Opens v j → toLex (position v i) < toLex (position v j)

/-- The bodies are those of a rising sequence of opening braces before `p`. -/
def Ordered (v : List Entry) (p : Nat) (bodies : List (Int × Int)) : Prop :=
  ∃ braces : List Nat, braces.Pairwise (· < ·) ∧ (∀ i ∈ braces, i < p ∧ Opens v i) ∧
    bodies = braces.map (position v)

/-- What holds of the reports and the trace, apart from the loops that have no end. -/
structure Kept (v : List Entry) (iva : Nat) (bodies : List (Int × Int)) (trace : List Event) :
    Prop where
  balanced : ∀ e ∈ trace, e.Balanced
  restores : (∀ e ∈ trace, e.Orderly) → ∀ e ∈ trace, e.Restores
  keepsMode : (∀ e ∈ trace, e.Orderly) → ∀ e ∈ trace, e.KeepsMode
  ordered : Increasing v → (∀ e ∈ trace, e.Clear v) → Ordered v iva bodies

def State.Kept (s : State) : Prop := FirstPass.Kept s.v s.iva s.bodies s.trace

def State.Closed (s : State) : Prop := ∀ e ∈ s.trace, e.Closes

def State.Orderly (s : State) : Prop := ∀ e ∈ s.trace, e.Orderly

structure Sound (s : State) : Prop where
  kept : s.Kept
  closed : s.Closed

/-- A state at a loop that never ends. -/
structure Stuck (s : State) : Prop where
  kept : s.Kept
  endless : ¬ s.Closed

/-- A run from `s` has come to `s'`, with `d` calls more that are open. -/
structure Path (d : Int) (s s' : State) : Prop where
  v : s'.v = s.v
  niveau : s'.niveau = s.niveau + d
  forward : s.iva ≤ s'.iva
  trace : s.trace <+: s'.trace
  sound : Sound s'

/-- The number of tokens that are left. -/
def State.rest (s : State) : Nat := s.v.length - s.iva

section Steps

variable {s s' s'' : State} {d d' : Int} {e : Event} {k p : Nat}

@[simp] theorem State.step_v : (s.step k).v = s.v := rfl
@[simp] theorem State.step_iva : (s.step k).iva = s.iva + k := rfl
@[simp] theorem State.step_niveau : (s.step k).niveau = s.niveau := rfl
@[simp] theorem State.step_keyw_cpp : (s.step k).keyw_cpp = s.keyw_cpp := rfl
@[simp] theorem State.step_trace : (s.step k).trace = s.trace := rfl
@[simp] theorem State.step_reports : (s.step k).reports = s.reports := rfl
@[simp] theorem State.log_v : (s.log e).v = s.v := rfl
@[simp] theorem State.log_iva : (s.log e).iva = s.iva := rfl
@[simp] theorem State.log_niveau : (s.log e).niveau = s.niveau := rfl
@[simp] theorem State.log_keyw_cpp : (s.log e).keyw_cpp = s.keyw_cpp := rfl
@[simp] theorem State.log_trace : (s.log e).trace = s.trace ++ [e] := rfl
@[simp] theorem State.log_reports : (s.log e).reports = s.reports := rfl
@[simp] theorem State.back_v : (s.back p).v = s.v := rfl
@[simp] theorem State.back_iva : (s.back p).iva = p := rfl
@[simp] theorem State.back_niveau : (s.back p).niveau = s.niveau := rfl
@[simp] theorem State.back_keyw_cpp : (s.back p).keyw_cpp = s.keyw_cpp := rfl
@[simp] theorem State.setNiveau_v {n : Int} : (s.setNiveau n).v = s.v := rfl
@[simp] theorem State.setNiveau_iva {n : Int} : (s.setNiveau n).iva = s.iva := rfl
@[simp] theorem State.setNiveau_niveau {n : Int} : (s.setNiveau n).niveau = n := rfl
@[simp] theorem State.setNiveau_keyw_cpp {n : Int} : (s.setNiveau n).keyw_cpp = s.keyw_cpp := rfl
@[simp] theorem State.setNiveau_trace {n : Int} : (s.setNiveau n).trace = s.trace := rfl
@[simp] theorem State.setNiveau_reports {n : Int} : (s.setNiveau n).reports = s.reports := rfl

/-! ### What each step keeps -/

theorem Ordered.mono {v : List Entry} {bodies : List (Int × Int)} {q : Nat} (h : Ordered v p bodies)
    (le : p ≤ q) : Ordered v q bodies := by
  obtain ⟨braces, rising, below, eq⟩ := h
  exact ⟨braces, rising, fun i mem => ⟨(below i mem).1.trans_le le, (below i mem).2⟩, eq⟩

theorem Increasing.inj {v : List Entry} (increasing : Increasing v) {i j : Nat} (hi : Opens v i)
    (hj : Opens v j) (eq : position v i = position v j) : i = j := by
  rcases Nat.lt_trichotomy i j with lt | same | gt
  · exact absurd (increasing i j lt hi hj) (by rw [eq]; exact lt_irrefl _)
  · exact same
  · exact absurd (increasing j i gt hj hi) (by rw [eq]; exact lt_irrefl _)

theorem Ordered.back {v : List Entry} {bodies : List (Int × Int)} {q : Nat} (h : Ordered v p bodies)
    (increasing : Increasing v) (clear : ∀ brace ∈ bodies, StartsBefore v q brace) :
    Ordered v q bodies := by
  obtain ⟨braces, rising, below, rfl⟩ := h
  refine ⟨braces, rising, fun i mem => ⟨?_, (below i mem).2⟩, rfl⟩
  obtain ⟨j, lt, opens, eq⟩ := clear _ (List.mem_map_of_mem mem)
  rw [← increasing.inj opens (below i mem).2 eq]
  exact lt

/-- An event that is not a step back. -/
theorem State.Kept.log (kept : s.Kept) (balanced : e.Balanced)
    (restores : (s.log e).Orderly → e.Restores) (keepsMode : (s.log e).Orderly → e.KeepsMode) :
    (s.log e).Kept := by
  have orderly (h : (s.log e).Orderly) : s.Orderly := fun e' mem =>
    h e' (List.mem_append_left _ mem)
  constructor
  · intro e' mem
    rcases List.mem_append.mp mem with mem | mem
    · exact kept.balanced e' mem
    · rwa [List.mem_singleton.mp mem]
  · intro h e' mem
    rcases List.mem_append.mp mem with mem | mem
    · exact kept.restores (orderly h) e' mem
    · rw [List.mem_singleton.mp mem]
      exact restores h
  · intro h e' mem
    rcases List.mem_append.mp mem with mem | mem
    · exact kept.keepsMode (orderly h) e' mem
    · rw [List.mem_singleton.mp mem]
      exact keepsMode h
  · intro increasing clear
    exact kept.ordered increasing fun e' mem => clear e' (List.mem_append_left _ mem)

theorem Sound.log (sound : Sound s) (balanced : e.Balanced)
    (restores : (s.log e).Orderly → e.Restores) (keepsMode : (s.log e).Orderly → e.KeepsMode)
    (closes : e.Closes) : Sound (s.log e) := by
  refine ⟨sound.kept.log balanced restores keepsMode, fun e' mem => ?_⟩
  rcases List.mem_append.mp mem with mem | mem
  · exact sound.closed e' mem
  · rwa [List.mem_singleton.mp mem]

theorem Sound.step (sound : Sound s) (k : Nat) : Sound (s.step k) := by
  obtain ⟨⟨balanced, restores, keepsMode, ordered⟩, closed⟩ := sound
  exact ⟨⟨balanced, restores, keepsMode, fun increasing clear =>
    (ordered increasing clear).mono (Nat.le_add_right _ _)⟩, closed⟩

theorem Sound.setNiveau (sound : Sound s) (n : Int) : Sound (s.setNiveau n) :=
  ⟨sound.kept, sound.closed⟩

theorem Sound.switch (sound : Sound s) : Sound s.switch := ⟨sound.kept, sound.closed⟩

theorem Sound.setTry (sound : Sound s) (n : Nat) : Sound (s.setTry n) := ⟨sound.kept, sound.closed⟩

theorem Sound.back (sound : Sound s) (p : Nat) : Sound (s.back p) := by
  have logged : Sound (s.log (.back s.bodies p)) :=
    sound.log trivial (fun _ => trivial) (fun _ => trivial) trivial
  obtain ⟨⟨balanced, restores, keepsMode, ordered⟩, closed⟩ := logged
  refine ⟨⟨balanced, restores, keepsMode, fun increasing clear => ?_⟩, closed⟩
  have ahead := clear (.back s.bodies p) (List.mem_append_right _ (List.mem_singleton_self _))
  exact (ordered increasing clear).back increasing ahead

/-- A report of a symbol is not a report of a body. -/
theorem Sound.symbol (sound : Sound s) (x : Symbol) : Sound (s.report (.symbol x)) := by
  have bodies : (s.report (.symbol x)).bodies = s.bodies := by
    simp [State.bodies, State.report, Report.brace]
  refine ⟨?_, sound.closed⟩
  change FirstPass.Kept s.v s.iva (s.report (.symbol x)).bodies s.trace
  rw [bodies]
  exact sound.kept

namespace Path

theorem refl (sound : Sound s) : Path 0 s s :=
  ⟨rfl, (Int.add_zero _).symm, Nat.le_refl _, List.prefix_refl _, sound⟩

theorem trans (path : Path d s s') (more : Path d' s' s'') : Path (d + d') s s'' where
  v := more.v.trans path.v
  niveau := by rw [more.niveau, path.niveau, Int.add_assoc]
  forward := path.forward.trans more.forward
  trace := path.trace.trans more.trace
  sound := more.sound

/-- A call comes back to the number of open calls. -/
theorem call (path : Path d s s') (more : Path 0 s' s'') : Path d s s'' :=
  Int.add_zero d ▸ path.trans more

theorem step (path : Path d s s') (k : Nat) : Path d s (s'.step k) :=
  ⟨path.v, path.niveau, path.forward.trans (Nat.le_add_right _ _), path.trace, path.sound.step k⟩

theorem enter (path : Path d s s') : Path (d + 1) s (s'.setNiveau (s'.niveau + 1)) where
  v := path.v
  niveau := by rw [State.setNiveau_niveau, path.niveau, Int.add_assoc]
  forward := path.forward
  trace := path.trace
  sound := path.sound.setNiveau _

theorem leave (path : Path (d + 1) s s') : Path d s (s'.setNiveau (s'.niveau - 1)) where
  v := path.v
  niveau := by rw [State.setNiveau_niveau, path.niveau]; omega
  forward := path.forward
  trace := path.trace
  sound := path.sound.setNiveau _

theorem back (path : Path d s s') (le : s.iva ≤ p) : Path d s (s'.back p) where
  v := path.v
  niveau := path.niveau
  forward := le
  trace := path.trace.trans (List.prefix_append _ _)
  sound := path.sound.back p

theorem symbol (path : Path d s s') (x : Symbol) : Path d s (s'.report (.symbol x)) :=
  ⟨path.v, path.niveau, path.forward, path.trace, path.sound.symbol x⟩

theorem switch (path : Path d s s') : Path d s s'.switch :=
  ⟨path.v, path.niveau, path.forward, path.trace, path.sound.switch⟩

theorem setTry (path : Path d s s') (n : Nat) : Path d s (s'.setTry n) :=
  ⟨path.v, path.niveau, path.forward, path.trace, path.sound.setTry n⟩

theorem log (path : Path d s s') (balanced : e.Balanced)
    (restores : (s'.log e).Orderly → e.Restores) (keepsMode : (s'.log e).Orderly → e.KeepsMode)
    (closes : e.Closes) : Path d s (s'.log e) where
  v := path.v
  niveau := path.niveau
  forward := path.forward
  trace := path.trace.trans (List.prefix_append _ _)
  sound := path.sound.log balanced restores keepsMode closes

/-- No tokens are added. -/
theorem rest_le (path : Path d s s') : s'.rest ≤ s.rest := by
  have forward := path.forward
  simp only [State.rest, path.v]
  omega

/-- A step forward from a token. -/
theorem rest_lt (path : Path d s s') (inside : s.iva < s.v.length) (further : s.iva < s'.iva) :
    s'.rest < s.rest := by
  simp only [State.rest, path.v]
  omega

/-- What is orderly at the end was so before. -/
theorem orderly (path : Path d s s') (h : s'.Orderly) : s.Orderly :=
  fun e mem => h e (path.trace.subset mem)

end Path

/-- A function enters its level and reads a token. -/
theorem entered_step (sound : Sound s) (inside : s.iva < s.v.length) :
    Path 1 s ((s.setNiveau (s.niveau + 1)).step 1) ∧
      ((s.setNiveau (s.niveau + 1)).step 1).rest < s.rest := by
  have path := (Path.refl sound).enter.step 1
  exact ⟨path, path.rest_lt inside (Nat.lt_succ_self _)⟩

end Steps

end SourceNavigator.Cpp.FirstPass

import Mathlib.Logic.Basic

/-!
Programs over a state that may never end.

The run of a program from a state ends with a result and a state, or it reaches
a loop that it never leaves, or the steps it was given run out. A part of the
state is fixed: a program carries the proof that it never changes it. `Runs m s
Q E` says of the run of `m` from `s` that its steps suffice, that the result and
the last state satisfy `Q` if it ends, and that the state at an endless loop
satisfies `E` if it does not. The rules follow the way programs are put
together; the rule for loops takes an invariant and a measure.
-/

namespace Lib

/-- How a run goes on. -/
inductive Outcome (σ α : Type)
  | done (result : α) (s : σ)
  | endless (s : σ)
  | unfinished

namespace Outcome

variable {σ α β : Type}

/-- What holds of the last state that is reached. -/
def All (P : σ → Prop) : Outcome σ α → Prop
  | done _ s => P s
  | endless s => P s
  | unfinished => True

def bind : Outcome σ α → (α → σ → Outcome σ β) → Outcome σ β
  | done a s, f => f a s
  | endless s, _ => endless s
  | unfinished, _ => unfinished

theorem All.bind {P : σ → Prop} {o : Outcome σ α} {f : α → σ → Outcome σ β} (h : o.All P)
    (more : ∀ a s, P s → (f a s).All P) : (o.bind f).All P := by
  cases o with
  | done a s => exact more a s h
  | endless s => exact h
  | unfinished => trivial

end Outcome

/-- A program over states of which a part is fixed. -/
structure Program {σ ι : Type} (fixed : σ → ι) (α : Type) where
  run : σ → Outcome σ α
  keeps : ∀ s, (run s).All fun s' => fixed s' = fixed s

namespace Program

variable {σ ι α β : Type} {fixed : σ → ι}

instance : Monad (Program fixed) where
  pure a := ⟨fun s => .done a s, fun _ => rfl⟩
  bind m f := ⟨fun s => (m.run s).bind fun a s' => (f a).run s', fun s =>
    (m.keeps s).bind fun a s' same => same ▸ (f a).keeps s'⟩

/-- A value of the state. -/
def read (f : σ → α) : Program fixed α := ⟨fun s => .done (f s) s, fun _ => rfl⟩

/-- A change of the part of the state that is not fixed. -/
def change (f : σ → σ) (keeps : ∀ s, fixed (f s) = fixed s := by intro s; rfl) : Program fixed Unit :=
  ⟨fun s => .done () (f s), keeps⟩

/-- A program without any steps to take. -/
def unfinished : Program fixed α := ⟨fun _ => .unfinished, fun _ => trivial⟩

/-- A loop that is never left. -/
def endless : Program fixed α := ⟨fun s => .endless s, fun _ => rfl⟩

/-- The loop around `body`, which says with what to go on or what the result is. -/
def loop : Nat → (β → Program fixed (β ⊕ α)) → β → Program fixed α
  | 0, _, _ => unfinished
  | n + 1, body, x => do
      match ← body x with
      | .inl y => loop n body y
      | .inr a => pure a

/-- What holds of the run of `m` from `s`. -/
def Runs (m : Program fixed α) (s : σ) (Q : α → σ → Prop) (E : σ → Prop) : Prop :=
  match m.run s with
  | .done a s' => Q a s'
  | .endless s' => E s'
  | .unfinished => False

variable {m : Program fixed α} {f : α → Program fixed β} {s : σ} {a : α} {Q Q' : α → σ → Prop}
  {R : β → σ → Prop} {E E' : σ → Prop}

/-- One program after the other. -/
theorem runs_bind : Runs (m >>= f) s R E ↔ Runs m s (fun a s' => Runs (f a) s' R E) E := by
  change (match (m.run s).bind fun a s' => (f a).run s' with
    | .done a s' => R a s'
    | .endless s' => E s'
    | .unfinished => False) ↔ _
  unfold Runs
  cases m.run s with
  | done a s' => rfl
  | endless s' => rfl
  | unfinished => rfl

theorem Runs.mono (h : Runs m s Q E) (result : ∀ a s', Q a s' → Q' a s')
    (endless : ∀ s', E s' → E' s') : Runs m s Q' E' := by
  unfold Runs at h ⊢
  cases run : m.run s with
  | done a s' =>
    rw [run] at h
    exact result a s' h
  | endless s' =>
    rw [run] at h
    exact endless s' h
  | unfinished =>
    rw [run] at h
    exact h

/-- A weaker statement about the result. -/
theorem Runs.imp (h : Runs m s Q E) (result : ∀ a s', Q a s' → Q' a s') : Runs m s Q' E :=
  h.mono result fun _ stuck => stuck

/-- A result follows from an equation for the run. -/
theorem runs_of_done {s' : σ} (run : m.run s = .done a s') (h : Q a s') : Runs m s Q E := by
  unfold Runs
  rw [run]
  exact h

/-- A loop whose measure goes down keeps its invariant until it is left. -/
theorem runs_loop {body : β → Program fixed (β ⊕ α)} {I : β → σ → Prop} {μ : β → σ → Nat}
    (round : ∀ x s, I x s → Runs (body x) s
      (fun next s' => next.elim (fun y => I y s' ∧ μ y s' < μ x s) (fun a => Q a s')) E)
    {n : Nat} {x : β} {s : σ} (start : I x s) (enough : μ x s < n) : Runs (loop n body x) s Q E := by
  induction n generalizing x s with
  | zero => exact absurd enough (Nat.not_lt_zero _)
  | succ n ih =>
    rw [loop, runs_bind]
    refine (round x s start).imp fun next s' h => ?_
    cases next with
    | inl y => exact ih h.1 (Nat.lt_of_lt_of_le h.2 (Nat.le_of_lt_succ enough))
    | inr a => exact h

/-! ### Results alone -/

/-- What holds of the result and the last state of `m` from `s`, if it ends. -/
def Allows (m : Program fixed α) (s : σ) (Q : α → σ → Prop) : Prop := ∀ a s', m.run s = .done a s' → Q a s'

theorem allows_pure (h : Q a s) : Allows (pure a : Program fixed α) s Q := by
  intro b s' run
  cases run
  exact h

theorem allows_read {g : σ → α} (h : Q (g s) s) : Allows (read g : Program fixed α) s Q := by
  intro b s' run
  cases run
  exact h

theorem allows_change {g : σ → σ} {keeps : ∀ s, fixed (g s) = fixed s} {Q : Unit → σ → Prop} (h : Q () (g s)) :
    Allows (change g keeps) s Q := by
  intro b s' run
  cases run
  exact h

theorem allows_unfinished : Allows (unfinished : Program fixed α) s Q := by
  intro b s' run
  cases run

theorem allows_bind (h : Allows m s fun a s' => Allows (f a) s' R) : Allows (m >>= f) s R := by
  intro b s' run
  change (m.run s).bind (fun a s' => (f a).run s') = .done b s' at run
  cases first : m.run s with
  | done a s₁ =>
    rw [first] at run
    exact h a s₁ first b s' run
  | endless s₁ =>
    rw [first] at run
    cases run
  | unfinished =>
    rw [first] at run
    cases run

theorem Allows.imp (h : Allows m s Q) (result : ∀ a s', Q a s' → Q' a s') : Allows m s Q' :=
  fun a s' run => result a s' (h a s' run)

/-- A loop keeps its invariant until it is left. -/
theorem allows_loop {body : β → Program fixed (β ⊕ α)} {I : β → σ → Prop}
    (round : ∀ x s, I x s → Allows (body x) s fun next s' => next.elim (fun y => I y s') fun a => Q a s')
    {n : Nat} {x : β} {s : σ} (start : I x s) : Allows (loop n body x) s Q := by
  induction n generalizing x s with
  | zero => exact allows_unfinished
  | succ n ih =>
    rw [loop]
    apply allows_bind
    intro next s' run
    have kept := round x s start next s' run
    cases next with
    | inl y => exact ih kept
    | inr a => exact allows_pure kept

end Program

end Lib

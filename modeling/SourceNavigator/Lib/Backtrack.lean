import Mathlib.Logic.Basic

/-!
Recursive descent that goes back.

An attempt to read finds a result at a later place, or it fails, and then the
next alternative starts where it started. The rounds an attempt is given may run
out; that is no failure. `Finds p s Q` says of the result and the place behind it
what `Q` says, if `p` finds one from `s`; the rules follow the way attempts are
put together.
-/

namespace Lib

/-- How an attempt ends. -/
inductive Attempt (σ α : Type)
  | found (result : α) (s : σ)
  | failed
  | unfinished

namespace Attempt

variable {σ α β : Type}

def bind : Attempt σ α → (α → σ → Attempt σ β) → Attempt σ β
  | found a s, f => f a s
  | failed, _ => failed
  | unfinished, _ => unfinished

end Attempt

/-- A reader that can fail. -/
structure Backtrack (σ α : Type) where
  run : σ → Attempt σ α

namespace Backtrack

variable {σ α β : Type}

instance : Monad (Backtrack σ) where
  pure a := ⟨fun s => .found a s⟩
  bind p f := ⟨fun s => (p.run s).bind fun a s' => (f a).run s'⟩

/-- A value of the place. -/
def look (f : σ → α) : Backtrack σ α := ⟨fun s => .found (f s) s⟩

/-- Another place. -/
def move (f : σ → σ) : Backtrack σ Unit := ⟨fun s => .found () (f s)⟩

def failed : Backtrack σ α := ⟨fun _ => .failed⟩

def unfinished : Backtrack σ α := ⟨fun _ => .unfinished⟩

/-- The second alternative, where the first one failed. -/
def or (p q : Backtrack σ α) : Backtrack σ α :=
  ⟨fun s =>
    match p.run s with
    | .failed => q.run s
    | other => other⟩

/-- The loop around `body`, which says with what to go on or what the result is. -/
def loop : Nat → (β → Backtrack σ (β ⊕ α)) → β → Backtrack σ α
  | 0, _, _ => unfinished
  | n + 1, body, x => do
      match ← body x with
      | .inl y => loop n body y
      | .inr a => pure a

/-- What holds of the result and of the place behind it. -/
def Finds (p : Backtrack σ α) (s : σ) (Q : α → σ → Prop) : Prop := ∀ a s', p.run s = .found a s' → Q a s'

variable {p q : Backtrack σ α} {f : α → Backtrack σ β} {s : σ} {a : α} {Q Q' : α → σ → Prop} {R : β → σ → Prop}

theorem finds_pure (h : Q a s) : Finds (pure a) s Q := by
  intro b s' run
  cases run
  exact h

theorem finds_look {g : σ → α} (h : Q (g s) s) : Finds (look g) s Q := by
  intro b s' run
  cases run
  exact h

theorem finds_move {g : σ → σ} {Q : Unit → σ → Prop} (h : Q () (g s)) : Finds (move g) s Q := by
  intro b s' run
  cases run
  exact h

theorem finds_failed : Finds (failed : Backtrack σ α) s Q := by
  intro b s' run
  cases run

theorem finds_unfinished : Finds (unfinished : Backtrack σ α) s Q := by
  intro b s' run
  cases run

/-- One reader after the other. -/
theorem finds_bind (h : Finds p s fun a s' => Finds (f a) s' R) : Finds (p >>= f) s R := by
  intro b s' run
  change (p.run s).bind (fun a s' => (f a).run s') = .found b s' at run
  cases first : p.run s with
  | found a s₁ =>
    rw [first] at run
    exact h a s₁ first b s' run
  | failed =>
    rw [first] at run
    cases run
  | unfinished =>
    rw [first] at run
    cases run

theorem finds_or (first : Finds p s Q) (second : Finds q s Q) : Finds (or p q) s Q := by
  intro b s' run
  unfold Backtrack.or at run
  cases attempt : p.run s with
  | found a s₁ =>
    simp only [attempt] at run
    exact first b s' (attempt.trans run)
  | failed =>
    simp only [attempt] at run
    exact second b s' run
  | unfinished =>
    simp only [attempt] at run
    cases run

theorem finds_ite {c : Prop} [Decidable c] (yes : c → Finds p s Q) (no : ¬ c → Finds q s Q) :
    Finds (if c then p else q) s Q := by
  by_cases h : c
  · rw [if_pos h]
    exact yes h
  · rw [if_neg h]
    exact no h

theorem Finds.imp (h : Finds p s Q) (result : ∀ a s', Q a s' → Q' a s') : Finds p s Q' :=
  fun a s' run => result a s' (h a s' run)

/-- A loop keeps its invariant until it is left. -/
theorem finds_loop {body : β → Backtrack σ (β ⊕ α)} {I : β → σ → Prop}
    (round : ∀ x s, I x s → Finds (body x) s fun next s' => next.elim (fun y => I y s') fun a => Q a s')
    {n : Nat} {x : β} {s : σ} (start : I x s) : Finds (loop n body x) s Q := by
  induction n generalizing x s with
  | zero => exact finds_unfinished
  | succ n ih =>
    rw [loop]
    apply finds_bind
    intro next s' run
    have kept := round x s start next s' run
    cases next with
    | inl y => exact ih kept
    | inr a => exact finds_pure kept

end Backtrack

end Lib

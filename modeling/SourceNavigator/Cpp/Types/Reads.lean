import SourceNavigator.Cpp.Types.FromString

/-!
Runs of the functions that read a type.

`Reads ok stuck m ts Q` says of the run of `m` at the tokens `ts` that its steps
suffice: the result and the tokens that are left satisfy `Q` when it ends, and
the rounds that are recorded satisfy `stuck` when it does not. The rules follow
the way the functions are put together.
-/

namespace SourceNavigator.Cpp.Types

open Lib Lib.Program

variable {α β : Type} {ok stuck : List (List Tok) → Prop} {m : M α} {f : α → M β} {ts left : List Tok}
  {Q Q' : α → List Tok → Prop} {R : β → List Tok → Prop} {i n : Nat}

/-- The run of `m` at `ts`; what is recorded satisfies `ok` before it and at its end. -/
def Reads (ok stuck : List (List Tok) → Prop) (m : M α) (ts : List Tok) (Q : α → List Tok → Prop) :
    Prop :=
  ∀ rounds, ok rounds →
    Runs m { left := ts, rounds := rounds } (fun a s => Q a s.left ∧ ok s.rounds) fun s => stuck s.rounds

/-- The code of the `i`-th token. -/
def code (ts : List Tok) (i : Nat) : Nat := ((ts[i]?).map Tok.iToken).getD 0

/-- The text of the `i`-th token. -/
def ident (ts : List Tok) (i : Nat) : Text := ((ts[i]?).map Tok.text).getD []

@[simp] theorem code_nil : code [] i = 0 := by simp [code]

@[simp] theorem code_zero (t : Tok) : code (t :: ts) 0 = t.iToken := rfl

@[simp] theorem ident_zero (t : Tok) : ident (t :: ts) 0 = t.text := rfl

theorem reads_pure {a : α} (h : Q a ts) : Reads ok stuck (pure a : M α) ts Q :=
  fun _ recorded => ⟨h, recorded⟩

theorem Reads.imp (h : Reads ok stuck m ts Q) (result : ∀ a left, Q a left → Q' a left) :
    Reads ok stuck m ts Q' :=
  fun rounds recorded => (h rounds recorded).imp fun a s q => ⟨result a s.left q.1, q.2⟩

theorem reads_bind (h : Reads ok stuck m ts fun a left => Reads ok stuck (f a) left R) :
    Reads ok stuck (m >>= f) ts R := by
  intro rounds recorded
  rw [runs_bind]
  refine (h rounds recorded).imp ?_
  intro a s q
  exact q.1 s.rounds q.2

theorem reads_token {f : Nat → M β} (h : Reads ok stuck (f (code ts i)) ts R) :
    Reads ok stuck (token i >>= f) ts R :=
  reads_bind fun _ recorded => ⟨h, recorded⟩

theorem reads_ident {f : Text → M β} (h : Reads ok stuck (f (ident ts i)) ts R) :
    Reads ok stuck (TokenIdent i >>= f) ts R :=
  reads_bind fun _ recorded => ⟨h, recorded⟩

theorem reads_step {p : M β} (h : Reads ok stuck p (ts.drop i) R) :
    Reads ok stuck (TokenStep i >>= fun _ => p) ts R :=
  reads_bind fun _ recorded => ⟨h, recorded⟩

theorem reads_save {f : List Tok → M β} (h : Reads ok stuck (f ts) ts R) :
    Reads ok stuck (TokenSave >>= f) ts R :=
  reads_bind fun _ recorded => ⟨h, recorded⟩

theorem reads_restore {p : M β} (h : Reads ok stuck p left R) :
    Reads ok stuck (TokenRestore left >>= fun _ => p) ts R :=
  reads_bind fun _ recorded => ⟨h, recorded⟩

theorem reads_beginRound {p : M β} (round : ∀ rounds, ok rounds → ok (rounds ++ [ts]))
    (h : Reads ok stuck p ts R) : Reads ok stuck (beginRound >>= fun _ => p) ts R :=
  reads_bind fun rounds recorded => ⟨h, round rounds recorded⟩

theorem reads_endless (h : ∀ rounds, ok rounds → stuck rounds) :
    Reads ok stuck (endless : M α) ts Q := fun rounds recorded => h rounds recorded

/-- A loop whose measure goes down keeps its invariant until it is left. -/
theorem reads_loop {body : β → M (β ⊕ α)} {I : β → List Tok → Prop} {μ : β → List Tok → Nat}
    (round : ∀ x ts, I x ts → Reads ok stuck (body x) ts fun next left =>
      next.elim (fun y => I y left ∧ μ y left < μ x ts) fun a => Q a left)
    {x : β} (start : I x ts) (enough : μ x ts < n) : Reads ok stuck (loop n body x) ts Q := by
  intro rounds recorded
  refine runs_loop (I := fun x s => I x s.left ∧ ok s.rounds) (μ := fun x s => μ x s.left) ?_
    ⟨start, recorded⟩ enough
  intro x s h
  refine (round x s.left h.1 s.rounds h.2).imp ?_
  intro next s' q
  cases next with
  | inl y => exact ⟨⟨q.1.1, q.2⟩, q.1.2⟩
  | inr a => exact q

end SourceNavigator.Cpp.Types

import Mathlib.Data.List.Forall2

/-!
Recursive descent that computes while it reads.

A reader goes over a list of tokens, can come back to a position it has saved,
and puts values together. Each step of the computation is recorded as a node.
The rounds that a reader is given may run out. `Agree N p q R ts` compares two
readers that compute different things from the same tokens: both end, at the
same token, with nodes that `N` relates one by one and results that `R` relates.
-/

namespace Lib

/-- How a reading ends: with a result, the tokens behind it and the nodes. -/
inductive Reading (τ ν α : Type)
  | done (result : α) (left : List τ) (nodes : List ν)
  | unfinished

namespace Reading

variable {τ ν α β : Type}

/-- More nodes in front. -/
def after (nodes : List ν) : Reading τ ν α → Reading τ ν α
  | done a left nodes' => done a left (nodes ++ nodes')
  | unfinished => unfinished

def bind : Reading τ ν α → (α → List τ → Reading τ ν β) → Reading τ ν β
  | done a left nodes, f => (f a left).after nodes
  | unfinished, _ => unfinished

end Reading

/-- A reader of tokens. -/
structure Reader (τ ν α : Type) where
  run : List τ → Reading τ ν α

namespace Reader

variable {τ ν μ α α' β β' γ γ' : Type}

instance : Monad (Reader τ ν) where
  pure a := ⟨fun ts => .done a ts []⟩
  bind p f := ⟨fun ts => (p.run ts).bind fun a left => (f a).run left⟩

/-- A value of the tokens that are left. -/
def look (f : List τ → α) : Reader τ ν α := ⟨fun ts => .done (f ts) ts []⟩

/-- Another position. -/
def move (f : List τ → List τ) : Reader τ ν Unit := ⟨fun ts => .done () (f ts) []⟩

/-- A step of the computation. -/
def record (node : ν) : Reader τ ν Unit := ⟨fun ts => .done () ts [node]⟩

def unfinished : Reader τ ν α := ⟨fun _ => .unfinished⟩

/-- The loop around `body`, which says with what to go on or what the result is. -/
def loop : Nat → (β → Reader τ ν (β ⊕ α)) → β → Reader τ ν α
  | 0, _, _ => unfinished
  | n + 1, body, x => do
      match ← body x with
      | .inl y => loop n body y
      | .inr a => pure a

/-- Two readers over the same tokens. -/
def Agree (N : ν → μ → Prop) (p : Reader τ ν α) (q : Reader τ μ β) (R : α → β → List τ → Prop)
    (ts : List τ) : Prop :=
  ∃ a b left nodes nodes', p.run ts = .done a left nodes ∧ q.run ts = .done b left nodes' ∧
    List.Forall₂ N nodes nodes' ∧ R a b left

section Agree

variable {N : ν → μ → Prop} {p : Reader τ ν α} {q : Reader τ μ β} {f : α → Reader τ ν α'}
  {g : β → Reader τ μ β'} {R : α → β → List τ → Prop} {S : α' → β' → List τ → Prop}
  {ts : List τ}

theorem agree_pure {a : α} {b : β} (related : R a b ts) : Agree N (pure a) (pure b) R ts :=
  ⟨a, b, ts, [], [], rfl, rfl, .nil, related⟩

theorem agree_look {h : List τ → α} {h' : List τ → β} (related : R (h ts) (h' ts) ts) :
    Agree N (look h) (look h') R ts :=
  ⟨h ts, h' ts, ts, [], [], rfl, rfl, .nil, related⟩

theorem agree_move {R : Unit → Unit → List τ → Prop} {h : List τ → List τ}
    (related : R () () (h ts)) : Agree N (move h) (move h) R ts :=
  ⟨(), (), h ts, [], [], rfl, rfl, .nil, related⟩

theorem agree_record {R : Unit → Unit → List τ → Prop} {node : ν} {node' : μ}
    (nodes : N node node') (related : R () () ts) : Agree N (record node) (record node') R ts :=
  ⟨(), (), ts, [node], [node'], rfl, rfl, .cons nodes .nil, related⟩

/-- One reader after the other. -/
theorem Agree.bind (first : Agree N p q R ts)
    (next : ∀ a b left, R a b left → Agree N (f a) (g b) S left) :
    Agree N (p >>= f) (q >>= g) S ts := by
  obtain ⟨a, b, left, nodes, nodes', runs, runs', same, related⟩ := first
  obtain ⟨a', b', left', more, more', then_, then_', same', related'⟩ := next a b left related
  refine ⟨a', b', left', nodes ++ more, nodes' ++ more', ?_, ?_, List.rel_append same same',
    related'⟩
  · change (p.run ts).bind (fun a left => (f a).run left) = _
    rw [runs]
    change ((f a).run left).after nodes = _
    rw [then_]
    rfl
  · change (q.run ts).bind (fun b left => (g b).run left) = _
    rw [runs']
    change ((g b).run left).after nodes' = _
    rw [then_']
    rfl

theorem agree_look_bind {h : List τ → γ} {f : γ → Reader τ ν α'} {g : γ → Reader τ μ β'}
    (next : Agree N (f (h ts)) (g (h ts)) S ts) : Agree N (look h >>= f) (look h >>= g) S ts := by
  refine (agree_look (R := fun a b left => a = h ts ∧ b = h ts ∧ left = ts)
    ⟨rfl, rfl, rfl⟩).bind ?_
  rintro a b left ⟨rfl, rfl, rfl⟩
  exact next

theorem agree_move_bind {h : List τ → List τ} {f : Unit → Reader τ ν α'} {g : Unit → Reader τ μ β'}
    (next : Agree N (f ()) (g ()) S (h ts)) : Agree N (move h >>= f) (move h >>= g) S ts := by
  refine (agree_move (R := fun _ _ left => left = h ts) rfl).bind ?_
  rintro a b left rfl
  exact next

theorem agree_ite {c : Prop} [Decidable c] {p' : Reader τ ν α} {q' : Reader τ μ β}
    (yes : c → Agree N p q R ts) (no : ¬c → Agree N p' q' R ts) :
    Agree N (if c then p else p') (if c then q else q') R ts := by
  by_cases h : c
  · rw [if_pos h, if_pos h]
    exact yes h
  · rw [if_neg h, if_neg h]
    exact no h

/-- Loops in which each round uses up tokens. -/
theorem agree_loop {body : γ → Reader τ ν (γ ⊕ α)} {body' : γ' → Reader τ μ (γ' ⊕ β)}
    {I : γ → γ' → List τ → Prop}
    (round : ∀ x y ts, I x y ts → Agree N (body x) (body' y) (fun next next' left =>
      match next, next' with
      | .inl x', .inl y' => I x' y' left ∧ left.length < ts.length
      | .inr a, .inr b => R a b left
      | _, _ => False) ts)
    {n : Nat} {x : γ} {y : γ'} (start : I x y ts) (enough : ts.length < n) :
    Agree N (loop n body x) (loop n body' y) R ts := by
  induction n generalizing x y ts with
  | zero => exact absurd enough (Nat.not_lt_zero _)
  | succ n ih =>
    refine (round x y ts start).bind fun next next' left related => ?_
    cases next with
    | inl x' =>
      cases next' with
      | inl y' => exact ih related.1 (Nat.lt_of_lt_of_le related.2 (Nat.le_of_lt_succ enough))
      | inr b => exact related.elim
    | inr a =>
      cases next' with
      | inl y' => exact related.elim
      | inr b => exact agree_pure related

end Agree

end Reader

end Lib

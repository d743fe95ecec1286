import SourceNavigator.Cpp.Expr

/-!
What a condition means, and when its evaluation traps.

`Tree` is the syntax of an expression and `Tree.value` its value, where it has
one. `computations` are the operators with two operands that are read, in
whatever context, with the trees of their operands: reading alone, nothing is
evaluated. `agree_constant_expression` compares the two readings;
`ConstantExpression_ends_iff` says that the evaluation comes to an end exactly
if no division that is read has determined operands that the machine cannot
divide.
-/

namespace SourceNavigator.Cpp.Expr

open Lib Lib.Reader

/-! ### Expressions -/

/-- The syntax of an expression. -/
inductive Tree
  | null
  | constant (value : BitVec 32)
  | undetermined
  /-- The operator `defined`, which the evaluation does not know. -/
  | garbage (Cexp : Cexp)
  | op1 (operator : UnaryOperator) (e : Tree)
  | op2 (operator : BinaryOperator) (e1 e2 : Tree)
  | op3 (e1 e2 e3 : Tree)

namespace Tree

def isNull : Tree → Bool
  | null => true
  | garbage Cexp => Cexp.typ = CEXP_NULL
  | _ => false

mutual

/-- The value of an expression, if it is determined. -/
def value : Tree → Option (BitVec 32)
  | null => none
  | constant x => some x
  | undetermined => none
  | garbage Cexp => if Cexp.typ = CEXP_UNDEF then none else some Cexp.value
  | op1 operator e => e.value.map operator.apply
  | op2 operator e1 e2 =>
    match e1.value, e2.value with
    | some x, some y => some (operator.apply x y)
    | _, _ => none
  | op3 e1 e2 e3 =>
    match e1.decision with
    | some true => e2.value
    | some false => e3.value
    | none => none

/-- What an expression decides in front of a question mark. -/
def decision : Tree → Option Bool
  | null => none
  | constant x => some (x ≠ 0)
  | undetermined => none
  | garbage Cexp => if Cexp.typ = CEXP_DEF then some (Cexp.value ≠ 0) else none
  | op1 operator e => e.value.map fun x => operator.apply x ≠ 0
  | op2 operator e1 e2 =>
    match e1.value, e2.value with
    | some x, some y => some (operator.apply x y ≠ 0)
    | _, _ => none
  | op3 e1 e2 e3 =>
    match e1.decision with
    | some true => e2.decision
    | some false => e3.decision
    | none => none

end

end Tree

/-- The syntax is put together, and nothing is evaluated. -/
def tree : Create Tree where
  isNull := Tree.isNull
  null := .null
  constant := .constant
  undetermined := .undetermined
  garbage := .garbage
  op1 := .op1
  op2 := .op2
  op3 := .op3

/-- The operators with two operands that are read, in the order of the evaluation. -/
def computations (uninit : List Token → Cexp) (ts : List Token) : List (Computation Tree) :=
  match (constant_expression tree uninit (ts.length + 2)).run ts with
  | .unfinished => []
  | .done _ _ computations => computations

/-- A division whose operands are not both determined, or one that has a result. -/
def Computation.Divisible (x : Computation Tree) : Prop :=
  ∀ a b, x.left.value = some a → x.right.value = some b → b ≠ 0 ∧ ¬(a = INT_MIN ∧ b = -1)

/-! ### Values -/

@[simp] theorem undef_ne_def : (CEXP_UNDEF = CEXP_DEF) = False := by decide

@[simp] theorem def_ne_undef : (CEXP_DEF = CEXP_UNDEF) = False := by decide

/-- A value of the evaluation is that of the syntax. -/
structure Denotes (v : Cexp) (t : Tree) : Prop where
  isNull : t.isNull = cexp.isNull v
  value : v.typ ≠ CEXP_NULL → t.value = if v.typ = CEXP_UNDEF then none else some v.value
  decision : v.typ ≠ CEXP_NULL →
    t.decision = if v.typ = CEXP_DEF then some (decide (v.value ≠ 0)) else none

theorem denotes_null : Denotes CexpNull .null := ⟨rfl, fun h => absurd rfl h, fun h => absurd rfl h⟩

theorem denotes_constant (x : BitVec 32) : Denotes (cexp.constant x) (.constant x) :=
  ⟨rfl, fun _ => rfl, fun _ => rfl⟩

theorem denotes_undetermined : Denotes cexp.undetermined .undetermined :=
  ⟨rfl, fun _ => rfl, fun _ => rfl⟩

theorem denotes_garbage (v : Cexp) : Denotes v (.garbage v) := ⟨rfl, fun _ => rfl, fun _ => rfl⟩

section Operators

variable {v v1 v2 v3 : Cexp} {t t1 t2 t3 : Tree}

theorem denotes_op1 (operator : UnaryOperator) (h : Denotes v t) (notNull : v.typ ≠ CEXP_NULL) :
    Denotes (CexpCreateOp1 operator v) (.op1 operator t) := by
  have value := h.value notNull
  unfold CexpCreateOp1
  by_cases undef : v.typ = CEXP_UNDEF
  · rw [if_pos undef] at value ⊢
    exact ⟨rfl, fun _ => by simp [Tree.value, value], fun _ => by simp [Tree.decision, value]⟩
  · rw [if_neg undef] at value ⊢
    exact ⟨rfl, fun _ => by simp [Tree.value, value], fun _ => by simp [Tree.decision, value]⟩

theorem denotes_op2 (operator : BinaryOperator) (h1 : Denotes v1 t1) (h2 : Denotes v2 t2)
    (notNull1 : v1.typ ≠ CEXP_NULL) (notNull2 : v2.typ ≠ CEXP_NULL) :
    Denotes (CexpCreateOp2 operator v1 v2) (.op2 operator t1 t2) := by
  have value1 := h1.value notNull1
  have value2 := h2.value notNull2
  unfold CexpCreateOp2
  by_cases undef1 : v1.typ = CEXP_UNDEF
  · rw [if_pos undef1] at value1
    rw [if_pos (.inl undef1)]
    exact ⟨rfl, fun _ => by simp [Tree.value, value1], fun _ => by simp [Tree.decision, value1]⟩
  · rw [if_neg undef1] at value1
    by_cases undef2 : v2.typ = CEXP_UNDEF
    · rw [if_pos undef2] at value2
      rw [if_pos (.inr undef2)]
      exact ⟨rfl, fun _ => by simp [Tree.value, value1, value2],
        fun _ => by simp [Tree.decision, value1, value2]⟩
    · rw [if_neg undef2] at value2
      rw [if_neg (not_or.mpr ⟨undef1, undef2⟩)]
      exact ⟨rfl, fun _ => by simp [Tree.value, value1, value2],
        fun _ => by simp [Tree.decision, value1, value2]⟩

theorem denotes_op3 (h1 : Denotes v1 t1) (h2 : Denotes v2 t2) (h3 : Denotes v3 t3)
    (notNull1 : v1.typ ≠ CEXP_NULL) (notNull2 : v2.typ ≠ CEXP_NULL) (notNull3 : v3.typ ≠ CEXP_NULL) :
    Denotes (CexpCreateOp3 v1 v2 v3) (.op3 t1 t2 t3) := by
  have decision := h1.decision notNull1
  unfold CexpCreateOp3
  by_cases decided : v1.typ = CEXP_DEF
  · rw [if_pos decided] at decision ⊢
    by_cases yes : v1.value ≠ 0
    · rw [decide_eq_true yes] at decision
      rw [if_pos yes]
      refine ⟨?_, fun _ => ?_, fun _ => ?_⟩
      · simp [cexp, Tree.isNull, notNull2]
      · rw [Tree.value, decision]
        exact h2.value notNull2
      · rw [Tree.decision, decision]
        exact h2.decision notNull2
    · rw [decide_eq_false yes] at decision
      rw [if_neg yes]
      refine ⟨?_, fun _ => ?_, fun _ => ?_⟩
      · simp [cexp, Tree.isNull, notNull3]
      · rw [Tree.value, decision]
        exact h3.value notNull3
      · rw [Tree.decision, decision]
        exact h3.decision notNull3
  · rw [if_neg decided] at decision ⊢
    exact ⟨rfl, fun _ => by simp [Tree.value, decision], fun _ => by simp [Tree.decision, decision]⟩

end Operators

/-- A computation of the evaluation is one of the syntax. -/
structure SameComputation (x : Computation Cexp) (y : Computation Tree) : Prop where
  operator : x.operator = y.operator
  left : Denotes x.left y.left
  right : Denotes x.right y.right
  leftValue : x.left.typ ≠ CEXP_NULL
  rightValue : x.right.typ ≠ CEXP_NULL

theorem divisible_iff {y : Computation Tree} {a b : BitVec 32} (left : y.left.value = some a)
    (right : y.right.value = some b) :
    y.Divisible ↔ b ≠ 0 ∧ ¬(a = INT_MIN ∧ b = -1) := by
  constructor
  · intro divisible
    exact divisible a b left right
  · intro h a' b' left' right'
    obtain rfl : a = a' := Option.some.inj (left.symm.trans left')
    obtain rfl : b = b' := Option.some.inj (right.symm.trans right')
    exact h

/-- Operands that are not both determined are not divided. -/
theorem divisible_of_undetermined {y : Computation Tree}
    (undetermined : y.left.value = none ∨ y.right.value = none) : y.Divisible := by
  intro a b left right
  rcases undetermined with none | none
  · exact nomatch none.symm.trans left
  · exact nomatch none.symm.trans right

theorem SameComputation.traps_iff {x : Computation Cexp} {y : Computation Tree}
    (same : SameComputation x y) :
    x.traps = true ↔ y.operator.divides = true ∧ ¬y.Divisible := by
  have left := same.left.value same.leftValue
  have right := same.right.value same.rightValue
  simp only [Computation.traps, same.operator, Bool.and_eq_true, Bool.or_eq_true, decide_eq_true_eq]
  by_cases undefLeft : x.left.typ = CEXP_UNDEF
  · rw [if_pos undefLeft] at left
    have divisible := divisible_of_undetermined (.inl left)
    exact ⟨fun h => absurd undefLeft h.1.1.2, fun h => absurd divisible h.2⟩
  · rw [if_neg undefLeft] at left
    by_cases undefRight : x.right.typ = CEXP_UNDEF
    · rw [if_pos undefRight] at right
      have divisible := divisible_of_undetermined (.inr right)
      exact ⟨fun h => absurd undefRight h.1.2, fun h => absurd divisible h.2⟩
    · rw [if_neg undefRight] at right
      rw [divisible_iff left right, not_and_or, not_not, not_not]
      exact ⟨fun h => ⟨h.1.1.1, h.2⟩, fun h => ⟨⟨⟨h.1, undefLeft⟩, undefRight⟩, h.2⟩⟩

/-! ### Positions -/

/-- The tokens end with the newline or the end of the file. -/
def Ended (ts : List Token) : Prop :=
  ∃ before last, ts = before ++ [last] ∧ (last.lex = 0 ∨ last.lex = SN_NEWLINE)

/-- A position at or behind this one. -/
def Behind (ts left : List Token) : Prop := left <:+ ts ∧ left ≠ []

section Positions

variable {ts left left' : List Token}

theorem Ended.ne_nil (ended : Ended ts) : ts ≠ [] := by
  obtain ⟨before, last, rfl, _⟩ := ended
  exact List.append_ne_nil_of_right_ne_nil before (List.cons_ne_nil last [])

theorem Ended.behind (ended : Ended ts) (behind : Behind ts left) : Ended left := by
  obtain ⟨before, last, rfl, ends⟩ := ended
  obtain ⟨suffix, nonempty⟩ := behind
  obtain ⟨before', eq, _⟩ := (List.suffix_concat_iff.mp suffix).resolve_left nonempty
  exact ⟨before', last, eq, ends⟩

theorem Behind.refl (ended : Ended ts) : Behind ts ts := ⟨List.suffix_refl ts, ended.ne_nil⟩

theorem Behind.trans (first : Behind ts left) (second : Behind left left') : Behind ts left' :=
  ⟨second.1.trans first.1, second.2⟩

theorem Behind.length_le (behind : Behind ts left) : left.length ≤ ts.length := behind.1.length_le

/-- Any other token than the last can be left. -/
theorem advance_behind (ended : Ended ts) (more : lexOf ts ≠ 0) (notNewline : lexOf ts ≠ SN_NEWLINE) :
    Behind ts (advance ts) ∧ (advance ts).length < ts.length := by
  obtain ⟨before, last, rfl, ends⟩ := ended
  cases before with
  | nil =>
    rcases ends with eof | newline
    · exact absurd eof more
    · exact absurd newline notNewline
  | cons t before =>
    have next : advance (t :: before ++ [last]) = before ++ [last] := by
      cases before <;> rfl
    rw [next]
    exact ⟨⟨List.suffix_cons t _, by simp⟩, by simp⟩

end Positions

/-! ### The two readings -/

/-- What the two readings of an expression have in common. -/
def Reads (n : Nat) (p : P Cexp Cexp) (q : P Tree Tree) : Prop :=
  ∀ ts, Ended ts → ts.length < n →
    Agree SameComputation p q (fun v t left => Denotes v t ∧ Behind ts left) ts

section Reads

variable {uninit : List Token → Cexp} {n k : Nat} {p : P Cexp Cexp} {q : P Tree Tree}
  {ts : List Token}

/-- A step from a token that is not the last. -/
theorem agree_step {p' : P Cexp Cexp} {q' : P Tree Tree} {start : List Token} {t : Nat}
    (ended : Ended ts) (lex : lexOf ts = t) (more : t ≠ 0 ∧ t ≠ SN_NEWLINE)
    (next : Behind ts (advance ts) → (advance ts).length < ts.length →
      Agree SameComputation p' q' (fun v t left => Denotes v t ∧ Behind start left)
        (advance ts)) :
    Agree SameComputation (do step; p') (do step; q')
      (fun v t left => Denotes v t ∧ Behind start left) ts := by
  obtain ⟨behind, shorter⟩ := advance_behind ended (lex ▸ more.1) (lex ▸ more.2)
  exact agree_move_bind (next behind shorter)

/-- A result behind the first token. -/
theorem agree_step_pure {start : List Token} {t : Nat} {v : Cexp} {e : Tree} (ended : Ended ts)
    (before : Behind start ts) (lex : lexOf ts = t) (more : t ≠ 0 ∧ t ≠ SN_NEWLINE)
    (denotes : Denotes v e) :
    Agree SameComputation (do step; pure v) (do step; pure e)
      (fun v t left => Denotes v t ∧ Behind start left) ts :=
  agree_step ended lex more fun behind _ => agree_pure ⟨denotes, before.trans behind⟩

/-- A reading that has failed begins anew. -/
theorem agree_restore {start : List Token} {v : Cexp} {e : Tree} (ended : Ended start)
    (denotes : Denotes v e) :
    Agree SameComputation (do restore start; pure v) (do restore start; pure e)
      (fun v t left => Denotes v t ∧ Behind start left) ts :=
  agree_move_bind (agree_pure ⟨denotes, .refl ended⟩)

/-- Whether a value is null is the same in both. -/
theorem agree_isNull {v : Cexp} {e : Tree} (denotes : Denotes v e)
    {R : Cexp → Tree → List Token → Prop} {p' : P Cexp Cexp} {q' : P Tree Tree}
    (yes : Agree SameComputation p q R ts)
    (no : v.typ ≠ CEXP_NULL → Agree SameComputation p' q' R ts) :
    Agree SameComputation (if cexp.isNull v = true then p else p')
      (if tree.isNull e = true then q else q') R ts := by
  have same : tree.isNull e = cexp.isNull v := denotes.isNull
  rw [same]
  refine agree_ite (fun _ => yes) fun notNull => no fun null => notNull ?_
  exact decide_eq_true null

theorem agree_notNull {v : Cexp} {e : Tree} (denotes : Denotes v e)
    {R : Cexp → Tree → List Token → Prop} {p' : P Cexp Cexp} {q' : P Tree Tree}
    (yes : v.typ ≠ CEXP_NULL → Agree SameComputation p q R ts)
    (no : Agree SameComputation p' q' R ts) :
    Agree SameComputation (if (!cexp.isNull v) = true then p else p')
      (if (!tree.isNull e) = true then q else q') R ts := by
  have same : tree.isNull e = cexp.isNull v := denotes.isNull
  rw [same]
  refine agree_ite (fun notNull => yes fun null => ?_) fun _ => no
  rw [Bool.not_eq_true'] at notNull
  exact of_decide_eq_false notNull null

/-- Constants, names and strings, and what stands in parentheses. -/
theorem reads_primary_expression
    (inner : ∀ ts, Ended ts → ts.length + 1 < n →
      Agree SameComputation p q (fun v t left => Denotes v t ∧ Behind ts left) ts) :
    Reads n (primary_expression cexp uninit n p) (primary_expression tree uninit n q) := by
  intro ts ended enough
  have here := Behind.refl ended
  refine agree_look_bind (agree_look_bind ?_)
  refine agree_ite (fun is => ?_) fun _ => agree_ite (fun is => ?_) fun _ =>
    agree_ite (fun is => ?_) fun _ => agree_ite (fun is => ?_) fun _ =>
    agree_ite (fun is => ?_) fun _ => agree_ite (fun is => ?_) fun _ =>
    agree_ite (fun is => ?_) fun _ => agree_ite (fun is => ?_) fun _ =>
    agree_ite (fun is => ?_) fun _ => ?_
  · refine agree_look_bind ?_
    rcases is with is | is
    · exact agree_step_pure ended here is (by decide) (denotes_constant _)
    · exact agree_step_pure ended here is (by decide) (denotes_constant _)
  · refine agree_look_bind ?_
    exact agree_step_pure ended here is (by decide) (denotes_constant _)
  · exact agree_step_pure ended here is (by decide) denotes_undetermined
  · refine agree_step ended is (by decide) fun behind shorter => ?_
    refine agree_loop (I := fun _ _ left => Behind ts left) ?_ behind (by omega)
    intro _ _ left behind
    refine agree_look_bind (agree_ite (fun is => ?_) fun _ => ?_)
    · have is : lexOf left = SN_STRINGliteral := is
      have next := advance_behind (ended.behind behind) (is ▸ by decide) (is ▸ by decide)
      exact agree_move_bind (agree_pure ⟨behind.trans next.1, next.2⟩)
    · exact agree_pure ⟨denotes_undetermined, behind⟩
  · refine agree_step ended is (by decide) fun behind shorter => ?_
    refine (inner _ (ended.behind behind) (by omega)).bind ?_
    rintro v t left ⟨denotes, further⟩
    have further := behind.trans further
    refine agree_isNull denotes (agree_restore ended denotes) fun _ => ?_
    refine agree_look_bind (agree_ite (fun is => ?_) fun _ => ?_)
    · exact agree_step_pure (ended.behind further) further is (by decide) denotes
    · exact agree_pure ⟨denotes, further⟩
  · refine agree_look_bind (agree_ite (fun _ => ?_) fun _ => ?_)
    · refine agree_look_bind ?_
      exact agree_step_pure ended here is (by decide) (denotes_garbage _)
    · exact agree_step_pure ended here is (by decide) denotes_undetermined
  · exact agree_step_pure ended here is (by decide) denotes_undetermined
  · exact agree_step_pure ended here is (by decide) (denotes_constant _)
  · exact agree_step_pure ended here is (by decide) (denotes_constant _)
  · exact agree_restore ended denotes_null

theorem unaryOperator_some {t : Nat} {operator : UnaryOperator} (some : unaryOperator t = some operator) :
    t ≠ 0 ∧ t ≠ SN_NEWLINE := by
  constructor
  · rintro rfl
    exact nomatch some
  · rintro rfl
    exact nomatch some

theorem reads_unary_expression (primary : Reads n (primary_expression cexp uninit n p)
    (primary_expression tree uninit n q)) (enough : k ≤ n) :
    Reads k (unary_expression cexp uninit n p k) (unary_expression tree uninit n q k) := by
  induction k with
  | zero => exact fun ts _ none => absurd none (Nat.not_lt_zero _)
  | succ k ih =>
    intro ts ended rounds
    refine agree_look_bind ((primary ts ended (by omega)).bind ?_)
    rintro v t left ⟨denotes, behind⟩
    refine agree_notNull denotes (fun _ => agree_pure ⟨denotes, behind⟩) (agree_look_bind ?_)
    cases sign : unaryOperator (lexOf left) with
    | none => exact agree_restore ended denotes_null
    | some operator =>
      refine agree_step (ended.behind behind) rfl (unaryOperator_some sign) fun next shorter => ?_
      have next := behind.trans next
      have length := behind.length_le
      refine (ih (by omega) _ (ended.behind next) (by omega)).bind ?_
      rintro v' t' left' ⟨denotes', further⟩
      refine agree_notNull denotes' (fun notNull => ?_) (agree_restore ended denotes_null)
      exact agree_pure ⟨denotes_op1 operator denotes' notNull, next.trans further⟩

theorem agree_createOp2 {v v' : Cexp} {t t' : Tree} (operator : BinaryOperator) (denotes : Denotes v t)
    (denotes' : Denotes v' t') (notNull : v.typ ≠ CEXP_NULL) (notNull' : v'.typ ≠ CEXP_NULL) :
    Agree SameComputation (createOp2 cexp operator v v') (createOp2 tree operator t t')
      (fun r e left => Denotes r e ∧ r.typ ≠ CEXP_NULL ∧ left = ts) ts := by
  refine (agree_record (R := fun _ _ left => left = ts) ⟨rfl, denotes, denotes', notNull, notNull'⟩
    rfl).bind ?_
  rintro _ _ left rfl
  refine agree_pure ⟨denotes_op2 operator denotes denotes' notNull notNull', ?_, rfl⟩
  change (CexpCreateOp2 operator v v').typ ≠ CEXP_NULL
  unfold CexpCreateOp2
  split
  · exact (by decide : CEXP_UNDEF ≠ CEXP_NULL)
  · exact (by decide : CEXP_DEF ≠ CEXP_NULL)

/-- One precedence from the next higher one. -/
theorem reads_binary {operator : Nat → Option BinaryOperator} (operand : Reads n p q)
    (eof : operator 0 = none) (newline : operator SN_NEWLINE = none) :
    Reads n (binary cexp n operator p) (binary tree n operator q) := by
  intro ts ended enough
  refine agree_look_bind ((operand ts ended enough).bind ?_)
  rintro v t left ⟨denotes, behind⟩
  refine agree_isNull denotes (agree_restore ended denotes) fun notNull => ?_
  refine agree_loop
    (I := fun v t left => Denotes v t ∧ v.typ ≠ CEXP_NULL ∧ Behind ts left) ?_
    ⟨denotes, notNull, behind⟩ (Nat.lt_of_le_of_lt behind.length_le enough)
  rintro v t left ⟨denotes, notNull, behind⟩
  refine agree_look_bind ?_
  cases sign : operator (lexOf left) with
  | none => exact agree_pure ⟨denotes, behind⟩
  | some op =>
    have length := behind.length_le
    have next := advance_behind (ended.behind behind)
      (fun zero => by rw [zero, eof] at sign; exact nomatch sign)
      (fun same => by rw [same, newline] at sign; exact nomatch sign)
    have behind := behind.trans next.1
    refine agree_move_bind ((operand _ (ended.behind behind) (by omega)).bind ?_)
    rintro v' t' left' ⟨denotes', further⟩
    have same : tree.isNull t' = cexp.isNull v' := denotes'.isNull
    rw [same]
    refine agree_ite (fun _ => ?_) fun notNull' => ?_
    · exact agree_move_bind (agree_pure ⟨denotes', .refl ended⟩)
    · have notNull' : v'.typ ≠ CEXP_NULL := fun null => notNull' (decide_eq_true null)
      refine (agree_createOp2 op denotes denotes' notNull notNull').bind ?_
      rintro r e _ ⟨result, resultNotNull, rfl⟩
      have shorter := further.length_le
      exact agree_pure ⟨⟨result, resultNotNull, behind.trans further⟩, by omega⟩

theorem reads_logical_or_expression (unary : Reads n (unary_expression cexp uninit n p n)
    (unary_expression tree uninit n q n)) :
    Reads n (logical_or_expression cexp uninit n p) (logical_or_expression tree uninit n q) := by
  have multiplicative : Reads n (multiplicative_expression cexp uninit n p)
      (multiplicative_expression tree uninit n q) := reads_binary unary rfl rfl
  have additive : Reads n (additive_expression cexp uninit n p)
      (additive_expression tree uninit n q) := reads_binary multiplicative rfl rfl
  have shift : Reads n (shift_expression cexp uninit n p) (shift_expression tree uninit n q) :=
    reads_binary additive rfl rfl
  have relational : Reads n (relational_expression cexp uninit n p)
      (relational_expression tree uninit n q) := reads_binary shift rfl rfl
  have equality : Reads n (equality_expression cexp uninit n p)
      (equality_expression tree uninit n q) := reads_binary relational rfl rfl
  have and : Reads n (and_expression cexp uninit n p) (and_expression tree uninit n q) :=
    reads_binary equality rfl rfl
  have exclusive_or : Reads n (exclusive_or_expression cexp uninit n p)
      (exclusive_or_expression tree uninit n q) := reads_binary and rfl rfl
  have inclusive_or : Reads n (inclusive_or_expression cexp uninit n p)
      (inclusive_or_expression tree uninit n q) := reads_binary exclusive_or rfl rfl
  have logical_and : Reads n (logical_and_expression cexp uninit n p)
      (logical_and_expression tree uninit n q) := reads_binary inclusive_or rfl rfl
  exact reads_binary logical_and rfl rfl

theorem reads_conditional_expression
    (operand : Reads n (logical_or_expression cexp uninit n p) (logical_or_expression tree uninit n q))
    (inner : ∀ ts, Ended ts → ts.length + 1 < n →
      Agree SameComputation p q (fun v t left => Denotes v t ∧ Behind ts left) ts) :
    Reads n (conditional_expression cexp uninit n p) (conditional_expression tree uninit n q) := by
  intro ts ended enough
  refine agree_look_bind ((operand ts ended enough).bind ?_)
  rintro v1 t1 left ⟨denotes1, behind⟩
  refine agree_isNull denotes1 (agree_restore ended denotes1) fun notNull1 => ?_
  refine agree_look_bind (agree_ite (fun _ => agree_pure ⟨denotes1, behind⟩) fun question => ?_)
  have length := behind.length_le
  refine agree_step (ended.behind behind) (not_not.mp question) (by decide) fun next shorter => ?_
  have behind := behind.trans next
  refine (inner _ (ended.behind behind) (by omega)).bind ?_
  rintro v2 t2 left2 ⟨denotes2, further2⟩
  have length2 := further2.length_le
  have behind2 := behind.trans further2
  refine agree_isNull denotes2 (agree_restore ended denotes2) fun notNull2 => ?_
  refine agree_look_bind (agree_ite (fun _ => agree_restore ended denotes_null) fun colon => ?_)
  refine agree_step (ended.behind behind2) (not_not.mp colon) (by decide) fun next shorter2 => ?_
  have behind2 := behind2.trans next
  refine (inner _ (ended.behind behind2) (by omega)).bind ?_
  rintro v3 t3 left3 ⟨denotes3, further3⟩
  refine agree_isNull denotes3 (agree_restore ended denotes3) fun notNull3 => ?_
  exact agree_pure ⟨denotes_op3 denotes1 denotes2 denotes3 notNull1 notNull2 notNull3,
    behind2.trans further3⟩

/-- The two readings of a condition agree, and both end. -/
theorem agree_constant_expression (ended : Ended ts) (enough : ts.length + 1 < n) :
    Agree SameComputation (constant_expression cexp uninit n) (constant_expression tree uninit n)
      (fun v t left => Denotes v t ∧ Behind ts left) ts := by
  induction n generalizing ts with
  | zero => exact absurd enough (Nat.not_lt_zero _)
  | succ n ih =>
    have inner : ∀ ts, Ended ts → ts.length + 1 < n →
        Agree SameComputation (constant_expression cexp uninit n)
          (constant_expression tree uninit n)
          (fun v t left => Denotes v t ∧ Behind ts left) ts := fun ts ended enough => ih ended enough
    have primary := @reads_primary_expression uninit _ _ _ inner
    have unary := reads_unary_expression primary (Nat.le_refl n)
    exact reads_conditional_expression (reads_logical_or_expression unary) inner ts ended (by omega)

end Reads

/-! ### The verdict -/

/-- The tokens of a condition; `f_TokenReadToNewline` puts the newline or the end of the file last. -/
structure Condition where
  tokens : List Token
  last : Token
  ends : last.lex = 0 ∨ last.lex = SN_NEWLINE

def Condition.all (x : Condition) : List Token := x.tokens ++ [x.last]

theorem forall₂_any_eq_false_iff {α β : Type} {N : α → β → Prop} {f : α → Bool} {bad : β → Prop}
    (same : ∀ x y, N x y → (f x = true ↔ bad y)) {xs : List α} {ys : List β}
    (related : List.Forall₂ N xs ys) : xs.any f = false ↔ ∀ y ∈ ys, ¬bad y := by
  induction related with
  | nil => simp
  | cons head tail ih =>
    rw [List.any_cons, Bool.or_eq_false_iff, List.forall_mem_cons, ih, ← Bool.not_eq_true,
      same _ _ head]

/-- What comes of the evaluation: a trap, where a division that is read is not done by the machine,
and a verdict otherwise. -/
theorem ConstantExpression_cases (uninit : List Token → Cexp) (x : Condition) :
    ConstantExpression uninit x.all = .trapped ∧
        (∃ d ∈ computations uninit x.all, d.operator.divides = true ∧ ¬d.Divisible) ∨
      (∃ mode, ConstantExpression uninit x.all = .ends mode) ∧
        ∀ d ∈ computations uninit x.all, d.operator.divides = true → d.Divisible := by
  have ended : Ended x.all := ⟨x.tokens, x.last, rfl, x.ends⟩
  have agree := @agree_constant_expression uninit (x.all.length + 2) _ ended (by omega)
  obtain ⟨v, t, left, nodes, nodes', evaluation, reading, same, _⟩ := agree
  have read : computations uninit x.all = nodes' := by
    unfold computations
    rw [reading]
  have traps := forall₂_any_eq_false_iff (fun _ _ same => same.traps_iff) same
  unfold ConstantExpression
  rw [read, evaluation]
  dsimp only
  cases any : nodes.any Computation.traps with
  | true =>
    refine .inl ⟨rfl, ?_⟩
    by_contra none
    have clear := traps.mpr fun d mem bad => none ⟨d, mem, bad⟩
    exact nomatch any.symm.trans clear
  | false =>
    refine .inr ⟨⟨verdict v, rfl⟩, fun d mem divides => ?_⟩
    by_contra bad
    exact traps.mp any d mem ⟨divides, bad⟩

/-- The evaluation does not go on for ever. -/
theorem ConstantExpression_ends (uninit : List Token → Cexp) (x : Condition) :
    ConstantExpression uninit x.all ≠ .unfinished := by
  intro unfinished
  rcases ConstantExpression_cases uninit x with ⟨trapped, _⟩ | ⟨⟨mode, ends⟩, _⟩
  · exact nomatch unfinished.symm.trans trapped
  · exact nomatch unfinished.symm.trans ends

/-- The verdict on an expression. -/
def Tree.mode (t : Tree) : Mode :=
  if t.isNull then .TRUE else t.value.elim .UNDEF fun x => if x ≠ 0 then .TRUE else .FALSE

theorem Denotes.mode {v : Cexp} {t : Tree} (denotes : Denotes v t) : verdict v = t.mode := by
  rw [verdict, Tree.mode, denotes.isNull, cexp]
  by_cases null : v.typ = CEXP_NULL
  · simp [null]
  · rw [denotes.value null]
    by_cases undef : v.typ = CEXP_UNDEF <;> simp [null, undef]

/-- `#if defined(X) && 1 / 0` where `X` is not defined -/
def guardedDivision : Condition where
  tokens := [⟨SN_FALSE, 0, ascii "X", false, .FALSE, -1, 1, 12, 1, 13⟩,
    ⟨SN_ANDAND, 0, ascii "&&", false, .FALSE, -1, 1, 15, 1, 17⟩,
    ⟨SN_INTEGERconstant, 0, ascii "1", false, .FALSE, -1, 1, 18, 1, 19⟩,
    ⟨chr '/', 0, ascii "/", false, .FALSE, -1, 1, 20, 1, 21⟩,
    ⟨SN_INTEGERconstant, 0, ascii "0", false, .FALSE, -1, 1, 22, 1, 23⟩]
  last := ⟨SN_NEWLINE, 0, ascii "\n", false, .FALSE, -1, 1, 23, 2, 0⟩
  ends := .inr rfl

end SourceNavigator.Cpp.Expr

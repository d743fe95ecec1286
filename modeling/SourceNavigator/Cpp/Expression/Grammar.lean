import SourceNavigator.Cpp.Expression.Parse

/-!
What the expression parser reads.

`Reads` says which tokens an expression of a level stands for, and which of them
are its operators with two operands, in the order in which their operands are
complete. In names, types and initializers any tokens can stand. Whatever the
other files read, an expression that the parser delivers is read as this says
(`reads_expression`).
-/

namespace SourceNavigator.Cpp.Expression

open Lib Lib.Backtrack

/-- What is read: an expression at a level, or the expressions of a list. -/
inductive Piece (Type_t Init_t : Type)
  | one (l : Level) (e : Expr_t Type_t Init_t)
  | list (es : List (Expr_t Type_t Init_t))

/-- The tokens of an expression, and its operators with two operands. -/
inductive Reads {Type_t Init_t : Type} (template_arg : Bool) :
    Piece Type_t Init_t → List StackEntry → List StackEntry → Prop
  | name {us Name range} : Reads template_arg (.one .primary_expression (.OPERATOR_NAME Name range)) us []
  | type {us type range} : Reads template_arg (.one .primary_expression (.OPERATOR_TYPE type range)) us []
  | parentheses {lparen rparen us ts e} (opens : lparen.token = chr '(') (closes : rparen.token = chr ')')
      (inner : Reads template_arg (.one .expression e) us ts) :
      Reads template_arg (.one .primary_expression e) (lparen :: (us ++ [rparen])) ts
  | up {l us ts e} (operand : Reads template_arg (.one l.next e) us ts) : Reads template_arg (.one l e) us ts
  | binary {l us us' ts ts' e e' t operator} (found : (l.operators template_arg).lookup t.token = some operator)
      (left : Reads template_arg (.one l e) us ts) (right : Reads template_arg (.one l.next e') us' ts') :
      Reads template_arg (.one l (.binary operator e e')) (us ++ t :: us') (ts ++ ts' ++ [t])
  | conditional {us us' us'' ts ts' ts'' e e' e'' question colon} (isQuestion : question.token = chr '?')
      (isColon : colon.token = chr ':') (condition : Reads template_arg (.one .logical_or_expression e) us ts)
      (yes : Reads template_arg (.one .expression e') us' ts')
      (no : Reads template_arg (.one .conditional_expression e'') us'' ts'') :
      Reads template_arg (.one .conditional_expression (.OPERATOR_CONDITIONAL e e' e''))
        (us ++ question :: (us' ++ colon :: us'')) (ts ++ ts' ++ ts'')
  | cast {front us ts e type range} (operand : Reads template_arg (.one .cast_expression e) us ts) :
      Reads template_arg (.one .cast_expression (.OPERATOR_CAST (.OPERATOR_TYPE type range) e)) (front ++ us) ts
  | before {us ts e t operator l} (found : prefixes.lookup t.token = some (operator, l))
      (operand : Reads template_arg (.one l e) us ts) :
      Reads template_arg (.one .unary_expression (.unary operator e)) (t :: us) ts
  | sizeof {us ts e t} (operand : Reads template_arg (.one .unary_expression e) us ts) :
      Reads template_arg (.one .unary_expression (.unary .SIZEOF_EXPRESSION e)) (t :: us) ts
  | sizeofType {us type range} :
      Reads template_arg (.one .unary_expression (.unary .SIZEOF_TYPENAME (.OPERATOR_TYPE type range))) us []
  | delete {front us ts e} (operand : Reads template_arg (.one .cast_expression e) us ts) :
      Reads template_arg (.one .unary_expression (.unary .DELETE e)) (front ++ us) ts
  | new {front us behind ts es type range Init} (placement : Reads template_arg (.list es) us ts) :
      Reads template_arg (.one .unary_expression (.OPERATOR_NEW (.OPERATOR_TYPE type range) Init es))
        (front ++ (us ++ behind)) ts
  | after {us ts e t operator} (found : postfixes.lookup t.token = some operator)
      (operand : Reads template_arg (.one .postfix_expression e) us ts) :
      Reads template_arg (.one .postfix_expression (.unary operator e)) (us ++ [t]) ts
  | array {us us' behind ts ts' e e' t} (left : Reads template_arg (.one .postfix_expression e) us ts)
      (right : Reads template_arg (.one .expression e') us' ts') :
      Reads template_arg (.one .postfix_expression (.OPERATOR_ARRAY e e')) (us ++ t :: (us' ++ behind)) (ts ++ ts')
  | call {us us' behind ts ts' e es t} (left : Reads template_arg (.one .postfix_expression e) us ts)
      (arguments : Reads template_arg (.list es) us' ts') :
      Reads template_arg (.one .postfix_expression (.call .FUNCTION_CALL e es)) (us ++ t :: (us' ++ behind)) (ts ++ ts')
  | constructor_call {front us behind ts es type range} (arguments : Reads template_arg (.list es) us ts) :
      Reads template_arg (.one .postfix_expression (.call .CONSTRUCTOR_CALL (.OPERATOR_TYPE type range) es))
        (front ++ (us ++ behind)) ts
  | member {us us' ts e operator Name range} (left : Reads template_arg (.one .postfix_expression e) us ts) :
      Reads template_arg (.one .postfix_expression (.member operator e (.OPERATOR_NAME Name range))) (us ++ us') ts
  | nil : Reads template_arg (.list []) [] []
  | first {us ts e} (one : Reads template_arg (.one .assignment_expression e) us ts) :
      Reads template_arg (.list [e]) us ts
  | more {us us' ts ts' es e comma} (front : Reads template_arg (.list es) us ts) (isComma : comma.token = chr ',')
      (one : Reads template_arg (.one .assignment_expression e) us' ts') :
      Reads template_arg (.list (es ++ [e])) (us ++ comma :: us') (ts ++ ts')

/-! ### Steps -/

section Steps

variable {s s' s'' : Place} {α : Type} {Q : α → Place → Prop} {c n : Nat}

/-- The second place is behind the first one. -/
def Ahead (s s' : Place) : Prop := ∃ us, s.rest = us ++ s'.rest

theorem Ahead.refl (s : Place) : Ahead s s := ⟨[], rfl⟩

theorem Ahead.trans (first : Ahead s s') (second : Ahead s' s'') : Ahead s s'' := by
  obtain ⟨us, eq⟩ := first
  obtain ⟨us', eq'⟩ := second
  exact ⟨us ++ us', by rw [eq, eq', List.append_assoc]⟩

theorem ahead_step (s : Place) (n : Nat) : Ahead s (s.step n) := by
  induction n generalizing s with
  | zero => exact .refl s
  | succ n ih =>
    obtain ⟨before, rest⟩ := s
    cases rest with
    | nil => exact .refl _
    | cons t ts =>
      obtain ⟨us, eq⟩ := ih ⟨t :: before, ts⟩
      exact ⟨t :: us, congrArg (List.cons t) eq⟩

/-- A step over a token. -/
theorem step_token (token : Cpp.token s.rest 0 = c) (some_ : c ≠ 0) :
    ∃ t : StackEntry, t.token = c ∧ s.rest = t :: (s.step 1).rest := by
  obtain ⟨before, rest⟩ := s
  cases rest with
  | nil => exact absurd token.symm some_
  | cons t ts => exact ⟨t, token, rfl⟩

theorem finds_token {Q : Nat → Place → Prop} (h : Q (Cpp.token s.rest n) s) : Finds (token n) s Q := finds_look h

theorem finds_step {Q : Unit → Place → Prop} (h : Q () (s.step n)) : Finds (step n) s Q := finds_move h

theorem finds_expect (some_ : c ≠ 0) :
    Finds (expect c) s fun _ s' => ∃ t : StackEntry, t.token = c ∧ s.rest = t :: s'.rest := by
  refine finds_bind (finds_token (finds_ite (fun same => ?_) fun _ => finds_failed))
  exact finds_step (step_token same some_)

theorem finds_stepOver : Finds (stepOver c) s fun _ s' => Ahead s s' := by
  refine finds_bind (finds_token (finds_ite (fun _ => ?_) fun _ => finds_pure (.refl s)))
  exact finds_step (ahead_step s 1)

theorem finds_part {f : Place → Option (α × Nat)} : Finds (part f) s fun _ s' => Ahead s s' := by
  intro a s' run
  unfold part at run
  cases found : f s with
  | none =>
    simp only [found] at run
    cases run
  | some result =>
    simp only [found] at run
    cases run
    exact ahead_step s result.2

theorem ahead_f_StepTo (n : Nat) (aiToken : List Nat) (s : Place) : Ahead s (f_StepTo n aiToken s) := by
  induction n generalizing aiToken s with
  | zero => exact .refl s
  | succ n ih =>
    rw [f_StepTo]
    split
    · exact .refl s
    · have first := ahead_step s 1
      split
      · exact ((first.trans (ih _ _)).trans (ahead_step _ 1)).trans (ih _ _)
      · exact first.trans (ih _ _)

/-- A loop keeps its invariant until it is left. -/
theorem finds_rounds {β : Type} {body : β → Read (β ⊕ α)} {I : β → Place → Prop}
    (round : ∀ x s, I x s → Finds (body x) s fun next s' => next.elim (fun y => I y s') fun a => Q a s')
    {x : β} (start : I x s) : Finds (rounds body x) s Q :=
  finds_bind (finds_look (finds_loop round start))

end Steps

/-! ### Functions -/

section Functions

variable {Type_t Init_t : Type} {parts : Parts Type_t Init_t} {template_arg : Bool}

/-- What stands between two places is read as this piece. -/
def Between (template_arg : Bool) (piece : Piece Type_t Init_t) (s s' : Place) : Prop :=
  ∃ us ts, s.rest = us ++ s'.rest ∧ Reads template_arg piece us ts

/-- What `p` finds is an expression of the level. -/
def Sound (template_arg : Bool) (l : Level) (p : Read (Expr_t Type_t Init_t)) : Prop :=
  ∀ s, Finds p s fun e s' => Between template_arg (.one l e) s s'

/-- What `p` finds is a list of expressions, behind which a token can be passed over. -/
def SoundList (template_arg : Bool) (p : Read (List (Expr_t Type_t Init_t))) : Prop :=
  ∀ s, Finds p s fun es s' => ∃ s₁, Between template_arg (.list es) s s₁ ∧ Ahead s₁ s'

theorem Between.up {l : Level} {e : Expr_t Type_t Init_t} {s s' : Place}
    (between : Between template_arg (.one l.next e) s s') : Between template_arg (.one l e) s s' := by
  obtain ⟨us, ts, eq, reads⟩ := between
  exact ⟨us, ts, eq, reads.up⟩

theorem Sound.up {l : Level} {p : Read (Expr_t Type_t Init_t)} (sound : Sound template_arg l.next p) :
    Sound template_arg l p := fun s => (sound s).imp fun _ _ => Between.up

theorem operators_zero (template_arg : Bool) (l : Level) : (l.operators template_arg).lookup 0 = none := by
  cases l <;> cases template_arg <;> rfl

/-- A level reads operands with its operators between them. -/
theorem Sound.level {l : Level} {operand : Read (Expr_t Type_t Init_t)} (sound : Sound template_arg l.next operand) :
    Sound template_arg l (level (l.operators template_arg) operand) := by
  intro s
  refine finds_bind ((sound s).imp fun e s₁ first => ?_)
  refine finds_rounds (I := fun e s' => Between template_arg (.one l e) s s') (fun e s₁ between => ?_) first.up
  refine finds_bind (finds_token ?_)
  cases found : (l.operators template_arg).lookup (Cpp.token s₁.rest 0) with
  | none => exact finds_pure between
  | some operator =>
    have some_ : Cpp.token s₁.rest 0 ≠ 0 := by
      intro zero
      rw [zero, operators_zero] at found
      cases found
    obtain ⟨t, same, step⟩ := step_token rfl some_
    refine finds_bind (finds_step (finds_bind ((sound _).imp fun e' s₂ right => ?_)))
    obtain ⟨us, ts, eq, reads⟩ := between
    obtain ⟨us', ts', eq', reads'⟩ := right
    refine finds_pure ⟨us ++ t :: us', _, ?_, reads.binary (by rw [same]; exact found) reads'⟩
    rw [eq, step, eq', List.append_assoc, List.cons_append]

theorem sound_logical_or_expression {cast_expression : Read (Expr_t Type_t Init_t)}
    (sound : Sound template_arg .cast_expression cast_expression) :
    Sound template_arg .logical_or_expression (logical_or_expression template_arg cast_expression) := by
  unfold logical_or_expression
  exact sound |>.level (l := .pm_expression) |>.level (l := .multiplicative_expression) |>.level (l := .additive_expression)
    |>.level (l := .shift_expression) |>.level (l := .relational_expression) |>.level (l := .equality_expression)
    |>.level (l := .and_expression) |>.level (l := .exclusive_or_expression) |>.level (l := .inclusive_or_expression)
    |>.level (l := .logical_and_expression) |>.level (l := .logical_or_expression)

/-- The functions with `n` rounds. -/
structure Correct (parts : Parts Type_t Init_t) (template_arg : Bool) (n : Nat) : Prop where
  expression : Sound template_arg .expression (expression parts template_arg n)
  assignment : Sound template_arg .assignment_expression (assignment_expression parts template_arg n)
  conditional : Sound template_arg .conditional_expression (conditional_expression parts template_arg n)
  cast : Sound template_arg .cast_expression (cast_expression parts template_arg n)
  unary : Sound template_arg .unary_expression (unary_expression parts template_arg n)
  constructor_call (type : Type_t) (s₀ s : Place) (ahead : Ahead s₀ s) :
    Finds (constructor_call parts template_arg n type) s fun e s' =>
      Between template_arg (.one .postfix_expression e) s₀ s'
  postfix_ : Sound template_arg .postfix_expression (postfix_expression parts template_arg n)
  round (e : Expr_t Type_t Init_t) (s₀ s : Place) (between : Between template_arg (.one .postfix_expression e) s₀ s) :
    Finds (postfix_round parts template_arg n e) s fun next s' =>
      next.elim (fun e => Between template_arg (.one .postfix_expression e) s₀ s')
        fun e => Between template_arg (.one .postfix_expression e) s₀ s'
  primary : Sound template_arg .primary_expression (primary_expression parts template_arg n)
  allocation : Sound template_arg .unary_expression (allocation_expression parts template_arg n)
  placement (s : Place) : Finds (placement_opt parts template_arg n) s fun es s' =>
    ∃ s₀ s₁, Ahead s s₀ ∧ Between template_arg (.list es) s₀ s₁ ∧ Ahead s₁ s'
  deallocation : Sound template_arg .unary_expression (deallocation_expression parts template_arg n)
  list : SoundList template_arg (expression_list parts template_arg n)
  list_opt : SoundList template_arg (expression_list_opt parts template_arg n)

variable {n : Nat} {s s' s₀ : Place} {e e' : Expr_t Type_t Init_t} {es : List (Expr_t Type_t Init_t)}

theorem correct_zero : Correct parts template_arg 0 := by
  constructor
  all_goals
    intros
    first
      | exact finds_unfinished
      | exact fun _ => finds_unfinished

theorem Correct.conditional_succ (correct : Correct parts template_arg n) :
    Sound template_arg .conditional_expression (conditional_expression parts template_arg (n + 1)) := by
  intro s
  rw [conditional_expression]
  refine finds_bind ((sound_logical_or_expression correct.cast s).imp fun e s₁ condition => ?_)
  refine finds_bind (finds_token (finds_ite (fun _ => finds_pure condition.up) fun isQuestion => ?_))
  obtain ⟨question, same, step⟩ := step_token (not_not.mp isQuestion) (by decide)
  refine finds_bind (finds_step (finds_bind ((correct.expression _).imp fun e' s₂ yes => ?_)))
  refine finds_bind ((finds_expect (by decide)).imp fun _ s₃ isColon => ?_)
  refine finds_bind ((correct.conditional s₃).imp fun e'' s₄ no => ?_)
  obtain ⟨us, ts, eq, reads⟩ := condition
  obtain ⟨us', ts', eq', reads'⟩ := yes
  obtain ⟨colon, same', step'⟩ := isColon
  obtain ⟨us'', ts'', eq'', reads''⟩ := no
  refine finds_pure ⟨_, _, ?_, reads.conditional same same' reads' reads''⟩
  rw [eq, step, eq', step', eq'']
  simp

theorem Correct.cast_succ (correct : Correct parts template_arg n) :
    Sound template_arg .cast_expression (cast_expression parts template_arg (n + 1)) := by
  intro s
  rw [cast_expression]
  refine finds_or ?_ (Sound.up (l := .cast_expression) correct.unary s)
  refine finds_bind (finds_look (finds_bind ((finds_expect (by decide)).imp fun _ s₁ opens => ?_)))
  refine finds_bind (finds_part.imp fun type s₂ ahead => ?_)
  refine finds_bind (finds_look (finds_bind ((finds_expect (by decide)).imp fun _ s₃ closes => ?_)))
  refine finds_bind ((correct.cast s₃).imp fun e s₄ operand => ?_)
  obtain ⟨lparen, -, step⟩ := opens
  obtain ⟨between, eq⟩ := ahead
  obtain ⟨rparen, -, step'⟩ := closes
  obtain ⟨us, ts, eq', reads⟩ := operand
  refine finds_pure ⟨lparen :: (between ++ [rparen]) ++ us, ts, ?_, reads.cast⟩
  rw [step, eq, step', eq']
  simp

/-- The operand of a prefix is read by one of two functions. -/
theorem operand_of_prefix {t : Nat} {operator : Unary × Level} (found : prefixes.lookup t = some operator) :
    operator.2 = .unary_expression ∨ operator.2 = .cast_expression := by
  have levels : ∀ entry ∈ prefixes, entry.2.2 = .unary_expression ∨ entry.2.2 = .cast_expression := by decide
  obtain ⟨front, behind, eq, -⟩ := List.lookup_eq_some_iff.mp found
  exact levels (t, operator) (by simp [eq])

theorem Correct.unary_succ (correct : Correct parts template_arg n) :
    Sound template_arg .unary_expression (unary_expression parts template_arg (n + 1)) := by
  intro s
  rw [unary_expression]
  refine finds_or (correct.allocation s) (finds_or (correct.deallocation s) (finds_or ?_ ?_))
  · refine finds_bind (finds_token (finds_ite (fun _ => ?_) fun _ => finds_failed))
    exact Sound.up (l := .unary_expression) correct.postfix_ s
  · refine finds_bind (finds_token (finds_ite (fun isSizeof => ?_) fun _ => ?_))
    · obtain ⟨t, -, step⟩ := step_token isSizeof (by decide)
      refine finds_bind (finds_step (finds_or ?_ ?_))
      · refine finds_bind (finds_look (finds_bind ((finds_expect (by decide)).imp fun _ s₁ opens => ?_)))
        refine finds_bind (finds_part.imp fun type s₂ ahead => ?_)
        refine finds_bind (finds_look (finds_bind ((finds_expect (by decide)).imp fun _ s₃ closes => ?_)))
        obtain ⟨lparen, -, step'⟩ := opens
        obtain ⟨between, eq⟩ := ahead
        obtain ⟨rparen, -, step''⟩ := closes
        refine finds_pure ⟨t :: lparen :: (between ++ [rparen]), [], ?_, .sizeofType⟩
        rw [step, step', eq, step'']
        simp
      · refine finds_bind ((correct.unary _).imp fun e s₁ operand => ?_)
        obtain ⟨us, ts, eq, reads⟩ := operand
        refine finds_pure ⟨t :: us, ts, ?_, reads.sizeof⟩
        rw [step, eq, List.cons_append]
    · cases found : prefixes.lookup (Cpp.token s.rest 0) with
      | none => exact finds_failed
      | some operator =>
        have some_ : Cpp.token s.rest 0 ≠ 0 := by
          intro zero
          rw [zero] at found
          cases found
        obtain ⟨t, same, step⟩ := step_token rfl some_
        have operand : Finds (if operator.2 = .unary_expression then unary_expression parts template_arg n
            else cast_expression parts template_arg n) (s.step 1)
            fun e s' => Between template_arg (.one operator.2 e) (s.step 1) s' := by
          rcases operand_of_prefix found with unary | cast
          · rw [if_pos unary, unary]
            exact correct.unary _
          · rw [cast, if_neg (by decide)]
            exact correct.cast _
        refine finds_bind (finds_step (finds_bind (operand.imp fun e s₁ operand => ?_)))
        obtain ⟨us, ts, eq, reads⟩ := operand
        refine finds_pure ⟨t :: us, ts, ?_, reads.before (by rw [same]; exact found)⟩
        rw [step, eq, List.cons_append]

theorem Correct.constructor_succ (correct : Correct parts template_arg n) (type : Type_t) (ahead : Ahead s₀ s) :
    Finds (Expression.constructor_call parts template_arg (n + 1) type) s fun e s' =>
      Between template_arg (.one .postfix_expression e) s₀ s' := by
  rw [Expression.constructor_call]
  refine finds_bind (finds_look (finds_bind ((finds_expect (by decide)).imp fun _ s₁ opens => ?_)))
  refine finds_bind ((correct.list_opt _).imp fun es s₂ arguments => ?_)
  refine finds_bind (finds_look (finds_bind ((finds_expect (by decide)).imp fun _ s₃ closes => ?_)))
  obtain ⟨front, eq⟩ := ahead
  obtain ⟨lparen, -, step⟩ := opens
  obtain ⟨s₄, ⟨us, ts, eq', reads⟩, ⟨behind, eq''⟩⟩ := arguments
  obtain ⟨rparen, -, step'⟩ := closes
  refine finds_pure ⟨(front ++ [lparen]) ++ (us ++ (behind ++ [rparen])), ts, ?_, reads.constructor_call⟩
  rw [eq, step, eq', eq'', step']
  simp

theorem Correct.postfix_succ (correct : Correct parts template_arg n) :
    Sound template_arg .postfix_expression (postfix_expression parts template_arg (n + 1)) := by
  intro s
  rw [postfix_expression]
  refine finds_bind (Finds.imp (Q := fun e s' => Between template_arg (.one .postfix_expression e) s s')
    (finds_or ?_ (Sound.up (l := .postfix_expression) correct.primary s)) fun e s₁ between => ?_)
  · refine finds_bind (finds_token ?_)
    cases simpleTypes.lookup (Cpp.token s.rest 0) with
    | some simple => exact finds_bind (finds_step (correct.constructor_call _ s _ (ahead_step s 1)))
    | none =>
      refine finds_ite (fun _ => ?_) fun _ => finds_failed
      refine finds_bind (finds_part.imp fun Name s₁ ahead => finds_ite (fun _ => ?_) fun _ => finds_failed)
      exact correct.constructor_call _ s _ ahead
  · exact finds_rounds (fun e s₁ between => correct.round e s s₁ between) between

theorem sound_keywordName :
    Sound template_arg .primary_expression (keywordName : Read (Expr_t Type_t Init_t)) := by
  intro s
  refine finds_bind (finds_look (finds_bind (finds_look (finds_bind (finds_look (finds_bind (finds_step ?_)))))))
  obtain ⟨us, eq⟩ := ahead_step s 1
  exact finds_pure ⟨us, [], eq, .name⟩

/-- A name, behind the place at which the expression begins. -/
theorem finds_name {front : Text} (ahead : Ahead s₀ s) :
    Finds (name parts front) s fun e s' => ∃ Name range, e = .OPERATOR_NAME Name range ∧ Ahead s₀ s' := by
  refine finds_bind (finds_look (finds_bind (finds_part.imp fun Name s₁ read => finds_bind (finds_look ?_))))
  exact finds_pure ⟨_, _, rfl, ahead.trans read⟩

theorem finds_member_name :
    Finds (expression_member_name parts) s fun e s' => ∃ Name range, e = .OPERATOR_NAME Name range ∧ Ahead s s' := by
  refine finds_bind (finds_token (finds_ite (fun _ => ?_) fun _ => finds_name (.refl s)))
  refine finds_bind (finds_look (finds_bind (finds_look (finds_bind (finds_look (finds_bind (finds_step ?_)))))))
  exact finds_pure ⟨_, _, rfl, ahead_step s 1⟩

theorem Between.name {Name : Text} {range : Range} (ahead : Ahead s s') :
    Between template_arg (.one .primary_expression (.OPERATOR_NAME Name range : Expr_t Type_t Init_t)) s s' := by
  obtain ⟨us, eq⟩ := ahead
  exact ⟨us, [], eq, .name⟩

theorem Between.type {type : Type_t} {range : Range} (ahead : Ahead s s') :
    Between template_arg (.one .primary_expression (.OPERATOR_TYPE type range : Expr_t Type_t Init_t)) s s' := by
  obtain ⟨us, eq⟩ := ahead
  exact ⟨us, [], eq, .type⟩

theorem Correct.round_succ (correct : Correct parts template_arg n)
    (between : Between template_arg (.one .postfix_expression e) s₀ s) :
    Finds (postfix_round parts template_arg (n + 1) e) s fun next s' =>
      next.elim (fun e => Between template_arg (.one .postfix_expression e) s₀ s')
        fun e => Between template_arg (.one .postfix_expression e) s₀ s' := by
  rw [postfix_round]
  obtain ⟨us, ts, eq, reads⟩ := id between
  refine finds_bind (finds_token (finds_ite (fun isBracket => ?_) fun _ => finds_ite (fun isParenthesis => ?_) fun _ => ?_))
  · obtain ⟨t, -, step⟩ := step_token isBracket (by decide)
    refine finds_bind (finds_step (finds_bind ((correct.expression _).imp fun e' s₁ right => ?_)))
    refine finds_bind (finds_stepOver.imp fun _ s₂ ahead => ?_)
    obtain ⟨us', ts', eq', reads'⟩ := right
    obtain ⟨behind, eq''⟩ := ahead
    refine finds_pure ⟨us ++ t :: (us' ++ behind), ts ++ ts', ?_, reads.array reads'⟩
    rw [eq, step, eq', eq'']
    simp
  · obtain ⟨t, -, step⟩ := step_token isParenthesis (by decide)
    refine finds_bind (finds_step (finds_bind ((correct.list_opt _).imp fun es s₁ arguments => ?_)))
    refine finds_bind (finds_move (finds_bind ((finds_expect (by decide)).imp fun _ s₂ closes => ?_)))
    obtain ⟨s₃, ⟨us', ts', eq', reads'⟩, skipped⟩ := arguments
    obtain ⟨behind, eq''⟩ :=
      skipped.trans (ahead_f_StepTo (s₁.rest.length + 1) [chr ')', chr ';', chr '{', chr '}'] s₁)
    obtain ⟨rparen, -, step'⟩ := closes
    refine finds_pure ⟨us ++ t :: (us' ++ (behind ++ [rparen])), ts ++ ts', ?_, reads.call reads'⟩
    rw [eq, step, eq', eq'', step']
    simp
  · cases members.lookup (Cpp.token s.rest 0) with
    | some operator =>
      refine finds_bind (finds_step (finds_bind (finds_member_name.imp fun e' s₁ named => ?_)))
      obtain ⟨Name, range, rfl, ahead⟩ := named
      obtain ⟨us', eq'⟩ := (ahead_step s 1).trans ahead
      refine finds_pure ⟨us ++ us', ts, ?_, reads.member⟩
      rw [eq, eq', List.append_assoc]
    | none =>
      cases found : postfixes.lookup (Cpp.token s.rest 0) with
      | none => exact finds_pure between
      | some operator =>
        have some_ : Cpp.token s.rest 0 ≠ 0 := by
          intro zero
          rw [zero] at found
          cases found
        obtain ⟨t, same, step⟩ := step_token rfl some_
        refine finds_bind (finds_step (finds_pure ⟨us ++ [t], ts, ?_, reads.after (by rw [same]; exact found)⟩))
        rw [eq, step, List.append_assoc, List.cons_append, List.nil_append]

theorem Correct.primary_succ (correct : Correct parts template_arg n) :
    Sound template_arg .primary_expression (primary_expression parts template_arg (n + 1)) := by
  intro s
  rw [primary_expression]
  refine finds_bind (finds_token (finds_ite (fun _ => sound_keywordName s) fun _ => ?_))
  cases constants.lookup (Cpp.token s.rest 0) with
  | some simple =>
    refine finds_bind (finds_look (finds_bind (finds_look (finds_bind (finds_step ?_)))))
    exact finds_pure (.type (ahead_step s 1))
  | none =>
    refine finds_ite (fun _ => ?_) fun _ => finds_ite (fun _ => ?_) fun _ => finds_ite (fun isParenthesis => ?_) fun _ => ?_
    · refine finds_bind (finds_look (finds_bind (finds_move (finds_bind (finds_look ?_)))))
      exact finds_pure (.type (ahead_step s _))
    · refine finds_bind (finds_step ((finds_name (ahead_step s 1)).imp fun e s' named => ?_))
      obtain ⟨Name, range, rfl, ahead⟩ := named
      exact .name ahead
    · obtain ⟨lparen, opens, step⟩ := step_token isParenthesis (by decide)
      refine finds_bind (finds_step (finds_bind ((correct.expression _).imp fun e s₁ inner => ?_)))
      refine finds_bind ((finds_expect (by decide)).imp fun _ s₂ closes => ?_)
      obtain ⟨us, ts, eq, reads⟩ := inner
      obtain ⟨rparen, closes, step'⟩ := closes
      refine finds_pure ⟨lparen :: (us ++ [rparen]), ts, ?_, reads.parentheses opens closes⟩
      rw [step, eq, step']
      simp
    · refine (finds_name (.refl s)).imp fun e s' named => ?_
      obtain ⟨Name, range, rfl, ahead⟩ := named
      exact .name ahead

theorem finds_initializer : Finds (Backtrack.or (some <$> part parts.f_NewInitializer) (pure none)) s
    fun _ s' => Ahead s s' :=
  finds_or (finds_bind (finds_part.imp fun _ _ ahead => finds_pure ahead)) (finds_pure (.refl s))

theorem Correct.allocation_succ (correct : Correct parts template_arg n) :
    Sound template_arg .unary_expression (allocation_expression parts template_arg (n + 1)) := by
  intro s
  rw [allocation_expression]
  refine finds_bind (finds_stepOver.imp fun _ s₁ ahead => ?_)
  refine finds_bind ((finds_expect (by decide)).imp fun _ s₂ isNew => ?_)
  refine finds_bind ((correct.placement s₂).imp fun es s₃ placement => ?_)
  obtain ⟨t, -, step⟩ := isNew
  obtain ⟨s₄, s₅, ahead', ⟨us, ts, eq, reads⟩, ahead''⟩ := placement
  obtain ⟨front, eq'⟩ := (ahead.trans ⟨[t], step⟩).trans ahead'
  have done : ∀ {type : Type_t} {range : Range} {Init : Option Init_t} {s'}, Ahead s₃ s' →
      Between template_arg (.one .unary_expression (.OPERATOR_NEW (.OPERATOR_TYPE type range) Init es)) s s' := by
    intro type range Init s' more
    obtain ⟨behind, eq''⟩ := ahead''.trans more
    refine ⟨front ++ (us ++ behind), ts, ?_, reads.new⟩
    rw [eq', eq, eq'']
    simp
  refine finds_bind (finds_look (finds_bind (finds_token (finds_ite (fun _ => ?_) fun _ => ?_))))
  · refine finds_bind (finds_step (finds_bind (finds_part.imp fun type s₆ read => ?_)))
    refine finds_bind (finds_look (finds_bind (finds_stepOver.imp fun _ s₇ over_ => ?_)))
    refine finds_bind (finds_initializer.imp fun Init s₈ initialized => ?_)
    exact finds_pure (done ((((ahead_step s₃ 1).trans read).trans over_).trans initialized))
  · refine finds_bind (finds_part.imp fun type s₆ read => finds_bind (finds_look ?_))
    refine finds_bind (finds_initializer.imp fun Init s₇ initialized => ?_)
    exact finds_pure (done (read.trans initialized))

theorem Correct.placement_succ (correct : Correct parts template_arg n) :
    Finds (placement_opt parts template_arg (n + 1)) s fun es s' =>
      ∃ s₀ s₁, Ahead s s₀ ∧ Between template_arg (.list es) s₀ s₁ ∧ Ahead s₁ s' := by
  rw [placement_opt]
  refine finds_or ?_ (finds_pure ⟨s, s, .refl s, ⟨[], [], rfl, .nil⟩, .refl s⟩)
  refine finds_bind ((finds_expect (by decide)).imp fun _ s₁ opens => ?_)
  refine finds_bind ((correct.list s₁).imp fun es s₂ list => ?_)
  refine finds_bind (finds_stepOver.imp fun _ s₃ ahead => ?_)
  obtain ⟨lparen, -, step⟩ := opens
  obtain ⟨s₄, between, behind⟩ := list
  exact finds_pure ⟨s₁, s₄, ⟨[lparen], step⟩, between, behind.trans ahead⟩

theorem Correct.deallocation_succ (correct : Correct parts template_arg n) :
    Sound template_arg .unary_expression (deallocation_expression parts template_arg (n + 1)) := by
  intro s
  rw [deallocation_expression]
  refine finds_bind (finds_stepOver.imp fun _ s₁ ahead => ?_)
  refine finds_bind ((finds_expect (by decide)).imp fun _ s₂ isDelete => ?_)
  obtain ⟨t, -, step⟩ := isDelete
  have operand : ∀ s₃, Ahead s₂ s₃ → Finds (do
      let Expr1 ← cast_expression parts template_arg n
      return .unary .DELETE Expr1) s₃ fun e s' => Between template_arg (.one .unary_expression e) s s' := by
    intro s₃ more
    refine finds_bind ((correct.cast s₃).imp fun e s₄ operand => ?_)
    obtain ⟨front, eq⟩ := (ahead.trans ⟨[t], step⟩).trans more
    obtain ⟨us, ts, eq', reads⟩ := operand
    refine finds_pure ⟨front ++ us, ts, ?_, reads.delete⟩
    rw [eq, eq', List.append_assoc]
  refine finds_bind (finds_token (finds_bind (finds_token (finds_ite (fun _ => ?_) fun _ => ?_))))
  · exact finds_bind (finds_step (operand _ (ahead_step s₂ 2)))
  · exact operand _ (.refl s₂)

/-- Behind a comma another expression is read. -/
theorem Between.more {s₁ s₂ : Place} (list : Between template_arg (.list es) s s₁)
    (isComma : Cpp.token s₁.rest 0 = chr ',')
    (one : Between template_arg (.one .assignment_expression e) (s₁.step 1) s₂) :
    Between template_arg (.list (es ++ [e])) s s₂ := by
  obtain ⟨comma, same, step⟩ := step_token isComma (by decide)
  obtain ⟨us, ts, eq, reads⟩ := list
  obtain ⟨us', ts', eq', reads'⟩ := one
  refine ⟨us ++ comma :: us', ts ++ ts', ?_, reads.more same reads'⟩
  rw [eq, step, eq', List.append_assoc, List.cons_append]

theorem Between.first (one : Between template_arg (.one .assignment_expression e) s s') :
    Between template_arg (.list [e]) s s' := by
  obtain ⟨us, ts, eq, reads⟩ := one
  exact ⟨us, ts, eq, reads.first⟩

theorem Correct.list_succ (correct : Correct parts template_arg n) :
    SoundList template_arg (expression_list parts template_arg (n + 1)) := by
  intro s
  rw [expression_list]
  refine finds_bind ((correct.assignment s).imp fun e s₁ first => ?_)
  refine finds_rounds (I := fun es s' => Between template_arg (.list es) s s') (fun es s₁ list => ?_) first.first
  refine finds_bind (finds_token (finds_ite (fun isComma => ?_) fun _ => finds_pure ⟨s₁, list, .refl s₁⟩))
  refine finds_bind (finds_step (finds_bind ((correct.assignment _).imp fun e' s₂ one => ?_)))
  exact finds_pure (list.more isComma one)

theorem Correct.list_opt_succ (correct : Correct parts template_arg n) :
    SoundList template_arg (expression_list_opt parts template_arg (n + 1)) := by
  intro s
  rw [expression_list_opt]
  refine finds_or ?_ (finds_pure ⟨s, ⟨[], [], rfl, .nil⟩, .refl s⟩)
  refine finds_bind ((correct.assignment s).imp fun e s₁ first => ?_)
  refine finds_rounds (I := fun es s' => Between template_arg (.list es) s s') (fun es s₁ list => ?_) first.first
  refine finds_bind (finds_token (finds_ite (fun isComma => ?_) fun _ => finds_pure ⟨s₁, list, .refl s₁⟩))
  refine finds_bind (finds_step (finds_or ?_ (finds_pure ⟨s₁, list, ahead_step s₁ 1⟩)))
  refine finds_bind ((correct.assignment _).imp fun e' s₂ one => ?_)
  exact finds_pure (list.more isComma one)

theorem Correct.succ (correct : Correct parts template_arg n) : Correct parts template_arg (n + 1) where
  expression := by
    have level := Sound.level (l := .expression) correct.assignment
    intro s
    rw [Expression.expression]
    exact level s
  assignment := by
    have level := Sound.level (l := .assignment_expression) correct.conditional
    intro s
    rw [assignment_expression]
    exact level s
  conditional := correct.conditional_succ
  cast := correct.cast_succ
  unary := correct.unary_succ
  constructor_call type _ _ ahead := correct.constructor_succ type ahead
  postfix_ := correct.postfix_succ
  round _ _ _ between := correct.round_succ between
  primary := correct.primary_succ
  allocation := correct.allocation_succ
  placement _ := correct.placement_succ
  deallocation := correct.deallocation_succ
  list := correct.list_succ
  list_opt := correct.list_opt_succ

theorem correct_functions (parts : Parts Type_t Init_t) (template_arg : Bool) (n : Nat) :
    Correct parts template_arg n := by
  induction n with
  | zero => exact correct_zero
  | succ n ih => exact ih.succ

/-- What `expression` delivers is read from the tokens in front of the place that it reaches. -/
theorem reads_expression (run : (expression parts template_arg n).run s = .found e s') :
    ∃ us ts, s.rest = us ++ s'.rest ∧ Reads template_arg (.one .expression e) us ts :=
  (correct_functions parts template_arg n).expression s e s' run

end Functions

end SourceNavigator.Cpp.Expression

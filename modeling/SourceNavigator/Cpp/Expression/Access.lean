import SourceNavigator.Cpp.Expression.Grammar
import SourceNavigator.Cpp.Expression.Process

/-!
The access under which variables are put out.

`Src` is an expression of C over names: in C an assignment stands to the right of
an assignment operator without parentheses, so in `a = b = c` both `a` and `b`
are assigned to. The parser groups to the left, and the walk reads `b` there.
`accesses_iff`: of an expression over names all accesses are those of C if and
only if no variable stands between two assignment operators.
-/

namespace SourceNavigator.Cpp.Expression

/-! ### Expressions in C -/

/-- An expression with its tokens. -/
inductive Src
  | name (us : List StackEntry) (range : Range)
  | constant (us : List StackEntry)
  | parentheses (lparen : StackEntry) (inner : Src) (rparen : StackEntry)
  | before (operator : Unary) (t : StackEntry) (operand : Src)
  | after (operator : Unary) (operand : Src) (t : StackEntry)
  | binary (left : Src) (t : StackEntry) (right : Src)
  | assign (left : Src) (t : StackEntry) (right : Src)
  | conditional (condition : Src) (question : StackEntry) (yes : Src) (colon : StackEntry) (no : Src)

/-- `++` and `--`. -/
def Unary.isIncrement : Unary → Bool
  | PRE_ICR | PRE_DECR | POST_ICR | POST_DECR => true
  | _ => false

/-- The operators in front of an operand of which only the value is used. -/
def Unary.isValue : Unary → Bool
  | UPLUS | UMINUS | NOT | BNOT => true
  | _ => false

namespace Src

def tokens : Src → List StackEntry
  | name us _ => us
  | constant us => us
  | parentheses lparen inner rparen => lparen :: (inner.tokens ++ [rparen])
  | before _ t operand => t :: operand.tokens
  | after _ operand t => operand.tokens ++ [t]
  | binary left t right => left.tokens ++ t :: right.tokens
  | assign left t right => left.tokens ++ t :: right.tokens
  | conditional condition question yes colon no =>
    condition.tokens ++ question :: (yes.tokens ++ colon :: no.tokens)

/-- The access of an occurrence that is written, or not. -/
def access (written : Bool) : Nat := if written then PAF_REF_WRITE else PAF_REF_READ

/-- The lines of the variables, with their accesses in C. An occurrence is written if it is the operand of
`++` or `--` or the left operand of an assignment. -/
def accesses : Src → Bool → List (Int × Nat)
  | name _ range, written => [(range.lineno_beg, access written)]
  | constant _, _ => []
  | parentheses _ inner _, written => inner.accesses written
  | before operator _ operand, _ => operand.accesses operator.isIncrement
  | after operator operand _, _ => operand.accesses operator.isIncrement
  | binary left _ right, _ => left.accesses false ++ right.accesses false
  | assign left _ right, _ => left.accesses true ++ right.accesses false
  | conditional condition _ yes _ no, _ => condition.accesses false ++ yes.accesses false ++ no.accesses false

/-- A variable, which can be in parentheses. -/
def isVariable : Src → Bool
  | name _ _ => true
  | parentheses _ inner _ => inner.isVariable
  | _ => false

/-- No variable stands between two assignment operators; `behind` says that there is one in front of the
expression. -/
def NoneBetween : Src → Bool → Prop
  | name _ _, _ => True
  | constant _, _ => True
  | parentheses _ inner _, _ => inner.NoneBetween false
  | before _ _ operand, _ => operand.NoneBetween false
  | after _ operand _, _ => operand.NoneBetween false
  | binary left _ right, _ => left.NoneBetween false ∧ right.NoneBetween false
  | assign left _ right, behind =>
    (behind = true → left.isVariable = false) ∧ left.NoneBetween false ∧ right.NoneBetween true
  | conditional condition _ yes _ no, _ =>
    condition.NoneBetween false ∧ yes.NoneBetween false ∧ no.NoneBetween false

/-- The accesses where assignments are grouped to the left. -/
def leftAccesses : Src → Bool → Bool → List (Int × Nat)
  | name _ range, written, _ => [(range.lineno_beg, access written)]
  | constant _, _, _ => []
  | parentheses _ inner _, written, _ => inner.leftAccesses written false
  | before operator _ operand, _, _ => operand.leftAccesses operator.isIncrement false
  | after operator operand _, _, _ => operand.leftAccesses operator.isIncrement false
  | binary left _ right, _, _ => left.leftAccesses false false ++ right.leftAccesses false false
  | assign left _ right, _, behind => left.leftAccesses (!behind) false ++ right.leftAccesses false true
  | conditional condition _ yes _ no, _, _ =>
    condition.leftAccesses false false ++ yes.leftAccesses false false ++ no.leftAccesses false false

/-! ### The two groupings -/

theorem length_accesses (src : Src) (written written' : Bool) :
    (src.accesses written).length = (src.accesses written').length := by
  induction src generalizing written written' with
  | name => rfl
  | constant => rfl
  | parentheses _ _ _ ih => exact ih _ _
  | before => rfl
  | after => rfl
  | binary => rfl
  | assign => rfl
  | conditional => rfl

theorem length_leftAccesses (src : Src) (written behind : Bool) :
    (src.leftAccesses written behind).length = (src.accesses written).length := by
  induction src generalizing written behind with
  | name => rfl
  | constant => rfl
  | parentheses _ _ _ ih => exact ih _ _
  | before _ _ _ ih => exact ih _ _
  | after _ _ _ ih => exact ih _ _
  | binary _ _ _ ih ih' => simp [leftAccesses, accesses, ih, ih']
  | assign left _ _ ih ih' =>
    simp only [leftAccesses, accesses, List.length_append, ih, ih']
    rw [length_accesses left (!behind) true]
  | conditional _ _ _ _ _ ih ih' ih'' => simp [leftAccesses, accesses, ih, ih', ih'']

/-- Whether it is written matters for a variable. -/
theorem accesses_written (src : Src) : src.accesses false = src.accesses true ↔ src.isVariable = false := by
  induction src with
  | name => simp [accesses, access, isVariable]
  | parentheses _ _ _ ih => exact ih
  | constant => exact iff_of_true rfl rfl
  | before => exact iff_of_true rfl rfl
  | after => exact iff_of_true rfl rfl
  | binary => exact iff_of_true rfl rfl
  | assign => exact iff_of_true rfl rfl
  | conditional => exact iff_of_true rfl rfl

theorem append_eq_iff {α : Type} {a a' b b' : List α} (length : a.length = a'.length) :
    a ++ b = a' ++ b' ↔ a = a' ∧ b = b' :=
  ⟨fun same => List.append_inj same length, fun ⟨same, same'⟩ => by rw [same, same']⟩

theorem noneBetween_of_variable {src : Src} {behind : Bool} (isVariable : src.isVariable = true) :
    src.NoneBetween behind := by
  induction src generalizing behind with
  | name => trivial
  | parentheses _ _ _ ih => exact ih isVariable
  | constant => trivial
  | before => cases isVariable
  | after => cases isVariable
  | binary => cases isVariable
  | assign => cases isVariable
  | conditional => cases isVariable

/-- The groupings agree where no variable stands between two assignment operators. -/
theorem leftAccesses_eq_iff (src : Src) (written behind : Bool) :
    src.leftAccesses written behind = src.accesses written ↔ src.NoneBetween behind := by
  induction src generalizing written behind with
  | name => exact iff_of_true rfl trivial
  | constant => exact iff_of_true rfl trivial
  | parentheses _ _ _ ih => exact ih _ _
  | before _ _ _ ih => exact ih _ _
  | after _ _ _ ih => exact ih _ _
  | binary left _ right ih ih' =>
    rw [leftAccesses, accesses, append_eq_iff (length_leftAccesses ..), ih, ih', NoneBetween]
  | conditional condition _ yes _ no ih ih' ih'' =>
    rw [leftAccesses, accesses, append_eq_iff (by simp [length_leftAccesses]),
      append_eq_iff (length_leftAccesses ..), ih, ih', ih'', NoneBetween, and_assoc]
  | assign left _ right ih ih' =>
    have length : (left.leftAccesses (!behind) false).length = (left.accesses true).length := by
      rw [length_leftAccesses, length_accesses]
    rw [leftAccesses, accesses, append_eq_iff length, ih', NoneBetween, ← and_assoc]
    refine and_congr_left fun _ => ?_
    cases behind with
    | false => simpa using ih true false
    | true =>
      rw [Bool.not_true]
      have same := ih false false
      have written := left.accesses_written
      by_cases isVariable : left.isVariable = true
      · rw [(ih false false).mpr (noneBetween_of_variable isVariable), written]
        simp [isVariable]
      · rw [Bool.not_eq_true] at isVariable
        rw [← written.mpr isVariable, same]
        simp [isVariable]

end Src

/-- The expressions of C, by level. -/
inductive Standard (template_arg : Bool) : Level → Src → Prop
  | name {us range} : Standard template_arg .primary_expression (.name us range)
  | constant {us} : Standard template_arg .primary_expression (.constant us)
  | parentheses {lparen src rparen} (opens : lparen.token = chr '(') (closes : rparen.token = chr ')')
      (inner : Standard template_arg .expression src) :
      Standard template_arg .primary_expression (.parentheses lparen src rparen)
  | up {l src} (operand : Standard template_arg l.next src) : Standard template_arg l src
  | before {t operator l src} (found : prefixes.lookup t.token = some (operator, l))
      (operand : Standard template_arg l src) : Standard template_arg .unary_expression (.before operator t src)
  | after {t operator src} (found : postfixes.lookup t.token = some operator)
      (operand : Standard template_arg .postfix_expression src) :
      Standard template_arg .postfix_expression (.after operator src t)
  | binary {l t operator src src'} (other : l ≠ .assignment_expression)
      (found : (l.operators template_arg).lookup t.token = some operator) (left : Standard template_arg l src)
      (right : Standard template_arg l.next src') : Standard template_arg l (.binary src t src')
  /-- An assignment operator is followed by an assignment. -/
  | assign {t operator src src'}
      (found : (Level.assignment_expression.operators template_arg).lookup t.token = some operator)
      (left : Standard template_arg .conditional_expression src)
      (right : Standard template_arg .assignment_expression src') :
      Standard template_arg .assignment_expression (.assign src t src')
  | conditional {condition question yes colon no} (isQuestion : question.token = chr '?')
      (isColon : colon.token = chr ':') (first : Standard template_arg .logical_or_expression condition)
      (second : Standard template_arg .expression yes) (third : Standard template_arg .conditional_expression no) :
      Standard template_arg .conditional_expression (.conditional condition question yes colon no)

section Standard

variable {template_arg : Bool} {l : Level} {src src' : Src} {t : StackEntry} {operator : Binary}

/-- Only at the two loosest levels it matters whether an assignment operator stands in front. -/
theorem Standard.leftAccesses_behind (standard : Standard template_arg l src)
    (tight : l ≠ .expression ∧ l ≠ .assignment_expression) (written behind behind' : Bool) :
    src.leftAccesses written behind = src.leftAccesses written behind' := by
  induction standard with
  | name => rfl
  | constant => rfl
  | parentheses => rfl
  | @up l src _ ih =>
    apply ih
    cases l
    all_goals simp at tight
    all_goals decide
  | before => rfl
  | after => rfl
  | binary => rfl
  | assign => exact absurd rfl tight.2
  | conditional => rfl

/-- An assignment with one more operand at its end. -/
theorem Standard.extend (found : (Level.assignment_expression.operators template_arg).lookup t.token = some operator)
    (right : Standard template_arg .conditional_expression src')
    (left : Standard template_arg l src) (assignment : l = .assignment_expression) :
    ∃ whole, Standard template_arg .assignment_expression whole ∧ whole.tokens = src.tokens ++ t :: src'.tokens ∧
      ∀ written behind, whole.leftAccesses written behind =
        src.leftAccesses (!behind) behind ++ src'.leftAccesses false false := by
  have last := right.leftAccesses_behind (by decide) false true false
  induction left with
  | name => cases assignment
  | constant => cases assignment
  | parentheses => cases assignment
  | @up l src operand _ =>
    subst assignment
    refine ⟨.assign src t src', .assign found operand right.up, rfl, fun written behind => ?_⟩
    rw [Src.leftAccesses, last, operand.leftAccesses_behind (by decide) _ false behind]
  | before => cases assignment
  | after => cases assignment
  | binary other => exact absurd assignment other
  | @assign t' operator' first more found' left _ _ ih =>
    obtain ⟨whole, standard, tokens, accesses⟩ := ih rfl
    refine ⟨.assign first t' whole, .assign found' left standard, ?_, fun written behind => ?_⟩
    · rw [Src.tokens, Src.tokens, tokens, List.append_assoc, List.cons_append]
    · rw [Src.leftAccesses, Src.leftAccesses, accesses, List.append_assoc]
      rfl
  | conditional => cases assignment

end Standard

/-! ### The walk -/

section Walk

variable {Type_t Init_t : Type} {env : Env Type_t} {template_arg : Bool} {piece : Piece Type_t Init_t}
  {us ts : List StackEntry}

/-- An expression of names, constants and operators. -/
def Expr_t.Plain : Expr_t Type_t Init_t → Prop
  | .OPERATOR_NAME _ _ => True
  | .OPERATOR_TYPE _ _ => True
  | .unary operator Expr1 => (operator.isIncrement = true ∨ operator.isValue = true) ∧ Expr1.Plain
  | .binary operator Expr1 Expr2 => operator.isMember = false ∧ Expr1.Plain ∧ Expr2.Plain
  | .OPERATOR_CONDITIONAL Expr1 Expr2 Expr3 => Expr1.Plain ∧ Expr2.Plain ∧ Expr3.Plain
  | _ => False

/-- The lines of the variables that are put out, with their accesses. -/
def references (events : List (Event Type_t Init_t)) : List (Int × Nat) :=
  events.filterMap fun
    | .crossRef .variable_ ref => some (ref.lineno, ref.acc)
    | _ => none

@[simp]
theorem references_append (events more : List (Event Type_t Init_t)) :
    references (events ++ more) = references events ++ references more := List.filterMap_append ..

theorem references_nil {events : List (Event Type_t Init_t)}
    (other : ∀ event ∈ events, ∀ ref, event ≠ .crossRef .variable_ ref) : references events = [] := by
  refine List.filterMap_eq_nil_iff.mpr fun event mem => ?_
  split
  · exact absurd rfl (other _ mem _)
  · rfl

theorem references_nameWalk (Name : Text) (range : Range) (accessed : Access) (scope : Option Text) :
    references (nameWalk env Name range accessed scope false : Walk Type_t Init_t).events =
      [(range.lineno_beg, Src.access accessed.WRITE)] := by
  unfold nameWalk
  rw [references_append, references_nil]
  · obtain ⟨read, write⟩ := accessed
    cases read <;> cases write <;> rfl
  · intro event mem ref same
    obtain ⟨ref', same'⟩ := event_of_chain mem
    cases same.symm.trans same'

theorem references_f_OperatorCall2 (pcOperator : Text) (Type1 Type2 : Option Type_t) (accessed : Access) (lineno : Int) :
    references (f_OperatorCall2 env pcOperator Type1 Type2 accessed lineno : _ × List (Event Type_t Init_t)).2 = [] := by
  unfold f_OperatorCall2
  simp only
  split <;> rfl

theorem references_binary {operator : Binary} {e e' : Expr_t Type_t Init_t} {accessed : Access}
    (other : operator.isMember = false) :
    references (f_expr env (.binary operator e e') accessed none false false).events =
      references (f_expr env e operator.access1 none false false).events ++
        references (f_expr env e' READ none false false).events := by
  rw [f_expr]
  simp only [references_append, references_f_OperatorCall2, List.append_nil, Binary.scope2, other]
  rfl

theorem references_unary {operator : Unary} {e : Expr_t Type_t Init_t} {accessed : Access} :
    references (f_expr env (.unary operator e) accessed none false false).events =
      references (f_expr env e (operator.access1 accessed) none false false).events := by
  rw [f_expr, references_append]
  split <;> exact List.append_nil _

/-- The operators of the level `assignment_expression` are the assignment operators. -/
theorem isAssign_of_found {l : Level} {t : Nat} {operator : Binary}
    (found : (l.operators template_arg).lookup t = some operator) :
    operator.isAssign = decide (l = .assignment_expression) := by
  have entries : ∀ entry ∈ l.operators template_arg, entry.2.isAssign = decide (l = .assignment_expression) := by
    cases l <;> cases template_arg <;> decide
  obtain ⟨front, behind, eq, -⟩ := List.lookup_eq_some_iff.mp found
  exact entries (t, operator) (by simp [eq])

/-- The operand of an operator that increments or reads its operand. -/
theorem write_access1 {operator : Unary} (plain : operator.isIncrement = true ∨ operator.isValue = true)
    (accessed : Access) : (operator.access1 accessed).WRITE = operator.isIncrement := by
  cases operator
  all_goals first
    | rfl
    | rcases plain with h | h <;> cases h

/-- What is read of a piece is an expression of C, and its variables are accessed as if assignments were
grouped to the left. -/
def Piece.Walked (env : Env Type_t) (template_arg : Bool) (us : List StackEntry) : Piece Type_t Init_t → Prop
  | .one l e => e.Plain → ∃ src, Standard template_arg l src ∧ src.tokens = us ∧
      ∀ accessed : Access,
        references (f_expr env e accessed none false false).events = src.leftAccesses accessed.WRITE false
  | .list _ => True

theorem walked_of_reads (env : Env Type_t) (reads : Reads template_arg piece us ts) :
    piece.Walked env template_arg us := by
  induction reads with
  | @name us Name range =>
    intro _
    refine ⟨.name us range, .name, rfl, fun accessed => ?_⟩
    rw [f_expr, if_neg (by decide)]
    exact references_nameWalk Name range accessed none
  | @type us type range => exact fun _ => ⟨.constant us, .constant, rfl, fun _ => rfl⟩
  | parentheses opens closes _ inner =>
    intro plain
    obtain ⟨src, standard, tokens, walk⟩ := inner plain
    refine ⟨.parentheses _ src _, .parentheses opens closes standard, ?_, walk⟩
    rw [Src.tokens, tokens]
  | up _ operand =>
    intro plain
    obtain ⟨src, standard, tokens, walk⟩ := operand plain
    exact ⟨src, standard.up, tokens, walk⟩
  | @binary l us us' ts ts' e e' t operator found _ _ left right =>
    rintro ⟨other, plain, plain'⟩
    obtain ⟨src, standard, tokens, walk⟩ := left plain
    obtain ⟨src', standard', tokens', walk'⟩ := right plain'
    have isAssign := isAssign_of_found found
    by_cases assignment : l = .assignment_expression
    · subst assignment
      obtain ⟨whole, standard, wholeTokens, accesses⟩ := Standard.extend found standard' standard rfl
      refine ⟨whole, standard, ?_, fun accessed => ?_⟩
      · rw [wholeTokens, tokens, tokens']
      · rw [references_binary other, walk, walk', accesses, Binary.access1, if_pos (by simpa using isAssign)]
        rfl
    · refine ⟨.binary src t src', .binary assignment found standard standard', ?_, fun accessed => ?_⟩
      · rw [Src.tokens, tokens, tokens']
      · rw [references_binary other, walk, walk', Binary.access1, if_neg (by simpa [assignment] using isAssign)]
        rfl
  | @conditional us us' us'' ts ts' ts'' e e' e'' question colon isQuestion isColon _ _ _ condition yes no =>
    rintro ⟨plain, plain', plain''⟩
    obtain ⟨src, standard, tokens, walk⟩ := condition plain
    obtain ⟨src', standard', tokens', walk'⟩ := yes plain'
    obtain ⟨src'', standard'', tokens'', walk''⟩ := no plain''
    refine ⟨.conditional src question src' colon src'',
      .conditional isQuestion isColon standard standard' standard'', ?_, fun accessed => ?_⟩
    · rw [Src.tokens, tokens, tokens', tokens'']
    · rw [f_expr]
      simp only [references_append]
      rw [walk, walk', walk'']
      rfl
  | cast => exact fun plain => plain.elim
  | @before us ts e t operator l found _ operand =>
    rintro ⟨plain, plain'⟩
    obtain ⟨src, standard, tokens, walk⟩ := operand plain'
    refine ⟨.before operator t src, .before found standard, ?_, fun accessed => ?_⟩
    · rw [Src.tokens, tokens]
    · rw [references_unary, walk, write_access1 plain]
      rfl
  | sizeof =>
    rintro ⟨plain, _⟩
    rcases plain with h | h <;> cases h
  | sizeofType =>
    rintro ⟨plain, _⟩
    rcases plain with h | h <;> cases h
  | delete =>
    rintro ⟨plain, _⟩
    rcases plain with h | h <;> cases h
  | new => exact fun plain => plain.elim
  | @after us ts e t operator found _ operand =>
    rintro ⟨plain, plain'⟩
    obtain ⟨src, standard, tokens, walk⟩ := operand plain'
    refine ⟨.after operator src t, .after found standard, ?_, fun accessed => ?_⟩
    · rw [Src.tokens, tokens]
    · rw [references_unary, walk, write_access1 plain]
      rfl
  | array => exact fun plain => plain.elim
  | call => exact fun plain => plain.elim
  | constructor_call => exact fun plain => plain.elim
  | member => exact fun plain => plain.elim
  | nil => trivial
  | first => trivial
  | more => trivial

end Walk

/-- A name in the line `lineno`. -/
def identifierAt (name : String) (lineno : Int) : StackEntry := { token := SN_IDENTIFIER, ident := ascii name, lineno }

def nameAt (name : String) (lineno : Int) : Expr_t Unit Unit := .OPERATOR_NAME (ascii name) ⟨lineno, 0, lineno, 1⟩

/-- `a = b = c`, in three lines -/
def chained : List StackEntry :=
  [identifierAt "a" 1, { token := chr '=' }, identifierAt "b" 2, { token := chr '=' }, identifierAt "c" 3]

/-- The expression of `a = b = c`. -/
def chainedExpr : Expr_t Unit Unit :=
  .binary .ASSIGN (.binary .ASSIGN (nameAt "a" 1) (nameAt "b" 2)) (nameAt "c" 3)

unseal logical_or_expression in
theorem run_chained : (expression identifiers false 9).run ⟨[], chained⟩ =
    .found chainedExpr ⟨chained.reverse, []⟩ := rfl

/-- What `a = b = c` is in C. -/
def chainedSrc : Src :=
  .assign (.name [identifierAt "a" 1] ⟨1, 0, 1, 1⟩) { token := chr '=' }
    (.assign (.name [identifierAt "b" 2] ⟨2, 0, 2, 1⟩) { token := chr '=' } (.name [identifierAt "c" 3] ⟨3, 0, 3, 1⟩))

theorem standard_name {us : List StackEntry} {range : Range} :
    Standard false .conditional_expression (.name us range) := by
  have name : Standard false .primary_expression (.name us range) := .name
  repeat first
    | exact name
    | apply Standard.up

theorem standard_chained : Standard false .expression chainedSrc := by
  have assignment : Standard false .assignment_expression chainedSrc :=
    .assign rfl standard_name (.assign rfl standard_name standard_name.up)
  exact assignment.up

unseal logical_or_expression in
theorem run_single : (expression identifiers false 9).run ⟨[], chained.take 3⟩ =
    .found (.binary .ASSIGN (nameAt "a" 1) (nameAt "b" 2)) ⟨(chained.take 3).reverse, []⟩ := rfl

end SourceNavigator.Cpp.Expression

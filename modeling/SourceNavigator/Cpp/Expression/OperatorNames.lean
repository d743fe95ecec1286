import Mathlib.Data.List.Forall2
import SourceNavigator.Cpp.Expression.Grammar
import SourceNavigator.Cpp.Expression.Process

/-!
Under which name the function of an operator is looked up.

The parser makes operators of tokens, the walk makes names of operators, and a
declaration makes a name of the token behind `operator`
(`f_OperatorOrConversionFunctionName` in `cpp/cpplib/cp_name.c`). The three tables
agree but for `^`, `<=` and `>=`; the types of the operands are in the order of
the source (`operators_named_iff`).
-/

namespace SourceNavigator.Cpp.Expression

/-! ### Declarations -/

/-- The tokens that are an operator by themselves. -/
def operatorTokens : List (Nat × Text) :=
  [(chr '@', ascii "operator@"), (chr '+', ascii "operator+"), (chr '-', ascii "operator-"),
    (chr '*', ascii "operator*"), (chr '/', ascii "operator/"), (chr '%', ascii "operator%"),
    (chr '^', ascii "operator^"), (chr '&', ascii "operator&"), (chr '|', ascii "operator|"),
    (chr '~', ascii "operator~"), (chr '!', ascii "operator!"), (chr '<', ascii "operator<"),
    (chr '>', ascii "operator>"), (SN_LS, ascii "operator<<"), (SN_RS, ascii "operator>>"),
    (SN_ANDAND, ascii "operator&&"), (SN_OROR, ascii "operator||"), (SN_ARROW, ascii "operator->"),
    (SN_ARROWstar, ascii "operator->*"), (chr '.', ascii "operator."), (SN_DOTstar, ascii "operator.*"),
    (SN_ICR, ascii "operator++"), (SN_DECR, ascii "operator--"), (SN_LE, ascii "operator<="),
    (SN_GE, ascii "operator>="), (SN_EQ, ascii "operator=="), (SN_NE, ascii "operator!="),
    (chr '=', ascii "operator="), (SN_MULTassign, ascii "operator*="), (SN_DIVassign, ascii "operator/="),
    (SN_MODassign, ascii "operator%="), (SN_PLUSassign, ascii "operator+="), (SN_MINUSassign, ascii "operator-="),
    (SN_LSassign, ascii "operator<<="), (SN_RSassign, ascii "operator>>="), (SN_ANDassign, ascii "operator&="),
    (SN_ERassign, ascii "operator^="), (SN_ORassign, ascii "operator|="), (SN_NEW, ascii "operator new"),
    (SN_DELETE, ascii "operator delete"), (chr ',', ascii "operator,")]

/-- The name of an operator; `conversion` reads a type and gives its text. -/
def f_OperatorOrConversionFunctionName (conversion : Place → Option (Text × Nat)) : Read Text := do
  expect SN_OPERATOR
  let t ← token 0
  match operatorTokens.lookup t with
  | some name => do
      step 1
      return name
  | none =>
    if t = chr '(' then do
      step 1
      expect (chr ')')
      return ascii "operator()"
    else if t = chr '[' then do
      step 1
      expect (chr ']')
      return ascii "operator[]"
    else do
      let ac ← part conversion
      return ascii "operator" ++ ac

/-- The name under which a declaration of the operator `t` is stored. -/
def declaredName (t : StackEntry) : Option Text :=
  match (f_OperatorOrConversionFunctionName fun _ => none).run ⟨[], [{ token := SN_OPERATOR }, t]⟩ with
  | .found name _ => some name
  | _ => none

theorem declaredName_eq {t : StackEntry} {name : Text} (found : operatorTokens.lookup t.token = some name) :
    declaredName t = some name := by
  have run : (f_OperatorOrConversionFunctionName fun _ => none).run ⟨[], [{ token := SN_OPERATOR }, t]⟩ =
      .found name ⟨[t, { token := SN_OPERATOR }], []⟩ := by
    change (match operatorTokens.lookup t.token with
      | some name => do
          step 1
          return name
      | none => _ : Read Text).run ⟨[{ token := SN_OPERATOR }], [t]⟩ = _
    rw [found]
    rfl
  unfold declaredName
  rw [run]

/-! ### Lookups -/

section Lookups

variable {Type_t Init_t : Type} (env : Env Type_t)

mutual

/-- The operators with two operands, with the types of their operands, in the order in which the operands
are complete. -/
def operands : Expr_t Type_t Init_t → Access → Option Text → Bool → List (Binary × Option Type_t × Option Type_t)
  | .OPERATOR_NAME _ _, _, _, _ => []
  | .OPERATOR_TYPE _ _, _, _, _ => []
  | .unary operator Expr1, access, scope, pass => operands Expr1 (operator.access1 access) scope pass
  | .binary operator Expr1 Expr2, _, scope, pass =>
    let Type1 := (f_expr env Expr1 operator.access1 scope false pass).Proc.type
    let scope2 := operator.scope2 env Type1 scope
    let Type2 := (f_expr env Expr2 READ scope2 false pass).Proc.type
    operands Expr1 operator.access1 scope pass ++ operands Expr2 READ scope2 pass ++ [(operator, Type1, Type2)]
  | .OPERATOR_CONDITIONAL Expr1 Expr2 Expr3, _, scope, pass =>
    operands Expr1 READ scope pass ++ operands Expr2 READ scope pass ++ operands Expr3 READ scope pass
  | .OPERATOR_CAST Expr1 Expr2, _, scope, pass => operands Expr1 READ scope pass ++ operands Expr2 READ scope pass
  | .OPERATOR_ARRAY Expr1 Expr2, access, scope, pass =>
    operands Expr1 access scope pass ++ operands Expr2 READ scope pass
  | .member _ Expr1 Expr2, access, scope, pass =>
    let Type1 := (f_expr env Expr1 access scope false pass).Proc.type
    operands Expr1 access scope pass ++ operands Expr2 access (f_TypeToScope env Type1) pass
  | .call _ Expr1 ListExpr, _, scope, pass => operands Expr1 READ scope pass ++ operandsList ListExpr true
  | .OPERATOR_NEW Expr1 _ ListExpr, _, scope, pass => operands Expr1 READ scope pass ++ operandsList ListExpr true

def operandsList : List (Expr_t Type_t Init_t) → Bool → List (Binary × Option Type_t × Option Type_t)
  | [], _ => []
  | Expr :: ListExpr, pass => operands Expr READ none pass ++ operandsList ListExpr pass

end

/-- The names and argument lists that are looked up. -/
def lookups (events : List (Event Type_t Init_t)) : List (Text × Text) :=
  events.filterMap fun
    | .lookup acName acArglist => some (acName, acArglist)
    | _ => none

/-- The argument list of these operands. -/
def arglist (types : Option Type_t × Option Type_t) : Text :=
  typeText env types.1 ++ ascii "," ++ typeText env types.2

/-- What is looked up for an operator. -/
def lookupOf (x : Binary × Option Type_t × Option Type_t) : Text × Text :=
  (ascii "operator" ++ x.1.pcOperator, arglist env x.2)

variable {env}

@[simp]
theorem lookups_append (events more : List (Event Type_t Init_t)) :
    lookups (events ++ more) = lookups events ++ lookups more := List.filterMap_append ..

/-- Events at which nothing is looked up. -/
theorem lookups_nil {events : List (Event Type_t Init_t)} (other : ∀ event ∈ events, ∃ site ref, event = .crossRef site ref) :
    lookups events = [] := by
  refine List.filterMap_eq_nil_iff.mpr fun event mem => ?_
  obtain ⟨site, ref, rfl⟩ := other event mem
  rfl

theorem lookups_nameWalk {Name : Text} {range : Range} {access : Access} {scope : Option Text} {pass : Bool} :
    lookups (nameWalk env Name range access scope pass : Walk Type_t Init_t).events = [] := by
  refine lookups_nil fun event mem => ?_
  rcases List.mem_append.mp mem with before | last
  · obtain ⟨ref, same⟩ := event_of_chain before
    exact ⟨_, _, same⟩
  · exact ⟨_, _, List.mem_singleton.mp last⟩

theorem lookups_functionWalk {Name : Text} {Proc1 : Proc_t Type_t} {acArglist : Text} {access : Access} {pass : Bool} :
    lookups (functionWalk env Name Proc1 acArglist access pass : _ × List (Event Type_t Init_t)).2 = [] := by
  refine lookups_nil fun event mem => ?_
  rcases List.mem_append.mp mem with before | last
  · obtain ⟨ref, same⟩ := event_of_chain before
    exact ⟨_, _, same⟩
  · exact ⟨_, _, List.mem_singleton.mp last⟩

theorem lookups_f_OperatorCall2 (operator : Binary) (Type1 Type2 : Option Type_t) (access : Access) (lineno : Int) :
    lookups (f_OperatorCall2 env operator.pcOperator Type1 Type2 access lineno :
      _ × List (Event Type_t Init_t)).2 = [lookupOf env (operator, Type1, Type2)] := by
  unfold f_OperatorCall2
  simp only
  split <;> rfl

mutual

/-- The lookups are those of the operators. -/
theorem lookups_f_expr : ∀ (e : Expr_t Type_t Init_t) (access : Access) (scope : Option Text) (call pass : Bool),
    lookups (f_expr env e access scope call pass).events = (operands env e access scope pass).map (lookupOf env)
  | .OPERATOR_NAME Name range, access, scope, call, pass => by
    cases call with
    | true => rfl
    | false => exact lookups_nameWalk
  | .OPERATOR_TYPE type range, _, _, _, _ => rfl
  | .unary operator Expr1, access, scope, _, pass => by
    rw [f_expr, operands, lookups_append, lookups_f_expr Expr1]
    split
    · exact List.append_nil _
    · exact List.append_nil _
  | .binary operator Expr1 Expr2, access, scope, _, pass => by
    rw [f_expr, operands]
    simp only [lookups_append, lookups_f_OperatorCall2, List.map_append]
    rw [lookups_f_expr Expr1, lookups_f_expr Expr2]
    rfl
  | .OPERATOR_CONDITIONAL Expr1 Expr2 Expr3, _, scope, _, pass => by
    rw [f_expr, operands]
    simp only [lookups_append, List.map_append]
    rw [lookups_f_expr Expr1, lookups_f_expr Expr2, lookups_f_expr Expr3]
  | .OPERATOR_CAST Expr1 Expr2, _, scope, _, pass => by
    rw [f_expr, operands]
    simp only [lookups_append, List.map_append]
    rw [lookups_f_expr Expr1, lookups_f_expr Expr2]
  | .OPERATOR_ARRAY Expr1 Expr2, access, scope, _, pass => by
    rw [f_expr, operands]
    simp only [lookups_append, List.map_append]
    rw [lookups_f_expr Expr1, lookups_f_expr Expr2]
  | .member operator Expr1 Expr2, access, scope, call, pass => by
    rw [f_expr, operands]
    simp only [lookups_append, List.map_append]
    rw [lookups_f_expr Expr1, lookups_f_expr Expr2]
  | .call .FUNCTION_CALL Expr1 ListExpr, access, scope, _, pass => by
    rw [f_expr, operands]
    simp only [List.map_append]
    split
    · simp only [lookups_append, lookups_functionWalk, List.append_nil]
      rw [lookups_f_expr Expr1, lookups_f_exprlist ListExpr]
    · simp only [lookups_append]
      rw [lookups_f_expr Expr1, lookups_f_exprlist ListExpr]
  | .call .CONSTRUCTOR_CALL Expr1 ListExpr, _, scope, _, pass => by
    rw [f_expr, operands]
    simp only [lookups_append, List.map_append]
    rw [lookups_f_expr Expr1, lookups_f_exprlist ListExpr]
  | .OPERATOR_NEW Expr1 Init ListExpr, _, scope, _, pass => by
    rw [f_expr, operands]
    simp only [lookups_append, List.map_append]
    rw [lookups_f_expr Expr1, lookups_f_exprlist ListExpr]
    cases Init <;> exact List.append_nil _

theorem lookups_f_exprlist : ∀ (es : List (Expr_t Type_t Init_t)) (pass : Bool),
    lookups (f_exprlist env es pass).2 = (operandsList env es pass).map (lookupOf env)
  | [], _ => rfl
  | Expr :: ListExpr, pass => by
    rw [f_exprlist, operandsList]
    simp only [lookups_append, List.map_append]
    rw [lookups_f_expr Expr, lookups_f_exprlist ListExpr]

end

/-! ### Occurrences -/

variable {template_arg : Bool} {piece : Piece Type_t Init_t} {us ts : List StackEntry}

/-- The parser makes the operator of the token. -/
def Denotes (template_arg : Bool) (t : StackEntry) (x : Binary × Option Type_t × Option Type_t) : Prop :=
  ∃ l : Level, (l.operators template_arg).lookup t.token = some x.1

theorem operandsList_append (es : List (Expr_t Type_t Init_t)) (e : Expr_t Type_t Init_t) (pass : Bool) :
    operandsList env (es ++ [e]) pass = operandsList env es pass ++ operands env e READ none pass := by
  induction es with
  | nil => simp [operandsList]
  | cons e' es ih => simp [operandsList, ih]

/-- The operators of a piece. -/
def Piece.Denoted (env : Env Type_t) (template_arg : Bool) (ts : List StackEntry) : Piece Type_t Init_t → Prop
  | .one _ e => ∀ access scope pass, List.Forall₂ (Denotes template_arg) ts (operands env e access scope pass)
  | .list es => ∀ pass, List.Forall₂ (Denotes template_arg) ts (operandsList env es pass)

/-- The operators that are read are those of the walk. -/
theorem denoted_of_reads (env : Env Type_t) (reads : Reads template_arg piece us ts) :
    piece.Denoted env template_arg ts := by
  induction reads with
  | name => exact fun _ _ _ => .nil
  | type => exact fun _ _ _ => .nil
  | parentheses _ _ _ inner => exact inner
  | up _ operand => exact operand
  | binary found _ _ left right =>
    intro access scope pass
    exact List.rel_append (List.rel_append (left _ _ _) (right _ _ _)) (.cons ⟨_, found⟩ .nil)
  | conditional _ _ _ _ _ condition yes no =>
    intro access scope pass
    exact List.rel_append (List.rel_append (condition _ _ _) (yes _ _ _)) (no _ _ _)
  | cast _ operand => exact fun _ _ _ => operand _ _ _
  | before _ _ operand => exact fun _ _ _ => operand _ _ _
  | sizeof _ operand => exact fun _ _ _ => operand _ _ _
  | sizeofType => exact fun _ _ _ => .nil
  | delete _ operand => exact fun _ _ _ => operand _ _ _
  | new _ placement => exact fun _ _ _ => placement _
  | after _ _ operand => exact fun _ _ _ => operand _ _ _
  | array _ _ left right => exact fun _ _ _ => List.rel_append (left _ _ _) (right _ _ _)
  | call _ _ left arguments => exact fun _ _ _ => List.rel_append (left _ _ _) (arguments _)
  | constructor_call _ arguments => exact fun _ _ _ => arguments _
  | @member us us' ts e operator Name range _ left =>
    intro access scope pass
    change List.Forall₂ _ ts (operands env e access scope pass ++ [])
    rw [List.append_nil]
    exact left _ _ _
  | nil => exact fun _ => .nil
  | first _ one =>
    intro pass
    change List.Forall₂ _ _ (operands env _ READ none pass ++ [])
    rw [List.append_nil]
    exact one _ _ _
  | more _ _ _ front one =>
    intro pass
    rw [operandsList_append]
    exact List.rel_append (front _) (one _ _ _)

/-! ### Names -/

/-- The tokens for which the walk has another name. -/
def exchanged : List Nat := [chr '^', SN_LE, SN_GE]

/-- A table entry: the walk has the declared name, unless it is one of the three. -/
def Agrees (entry : Nat × Binary) : Bool :=
  match operatorTokens.lookup entry.1 with
  | none => false
  | some name => (decide (name = ascii "operator" ++ entry.2.pcOperator)) == !exchanged.contains entry.1

theorem tables_agree (template_arg : Bool) (l : Level) : ∀ entry ∈ l.operators template_arg, Agrees entry = true := by
  cases l <;> cases template_arg <;> decide

theorem declaredName_of_denotes {t : StackEntry} {x : Binary × Option Type_t × Option Type_t}
    (denotes : Denotes template_arg t x) :
    ∃ name, declaredName t = some name ∧ (name = ascii "operator" ++ x.1.pcOperator ↔ t.token ∉ exchanged) := by
  obtain ⟨l, found⟩ := denotes
  obtain ⟨front, behind, entries, -⟩ := List.lookup_eq_some_iff.mp found
  have agrees := tables_agree template_arg l (t.token, x.1) (by simp [entries])
  unfold Agrees at agrees
  cases declared : operatorTokens.lookup t.token with
  | none =>
    simp only [declared] at agrees
    cases agrees
  | some name =>
    simp only [declared, beq_iff_eq] at agrees
    refine ⟨name, declaredName_eq declared, ?_⟩
    have same : decide (name = ascii "operator" ++ x.1.pcOperator) = true ↔ t.token ∉ exchanged := by
      rw [agrees]
      simp
    rw [← same, decide_eq_true_iff]

/-- What has to be looked up for the operator `t`: the name that its declaration has, and the types of the
operands. -/
def declaration (env : Env Type_t) (t : StackEntry) (x : Binary × Option Type_t × Option Type_t) :
    Option Text × Text :=
  (declaredName t, arglist env x.2)

theorem lookupOf_eq_declaration {t : StackEntry} {x : Binary × Option Type_t × Option Type_t}
    (denotes : Denotes template_arg t x) :
    ((some (lookupOf env x).1, (lookupOf env x).2) = declaration env t x) ↔ t.token ∉ exchanged := by
  obtain ⟨name, declared, iff⟩ := declaredName_of_denotes denotes
  unfold declaration
  rw [declared, ← iff]
  constructor
  · intro same
    exact (Option.some.inj (Prod.mk.inj same).1).symm
  · intro same
    rw [same]
    rfl

theorem denotes_at {xs : List (Binary × Option Type_t × Option Type_t)} (denoted : List.Forall₂ (Denotes template_arg) ts xs)
    {i : Nat} {t : StackEntry} {x : Binary × Option Type_t × Option Type_t} (token : ts[i]? = some t)
    (operator : xs[i]? = some x) : Denotes template_arg t x := by
  induction denoted generalizing i with
  | nil => cases token
  | cons denotes _ ih =>
    cases i with
    | zero =>
      cases token
      cases operator
      exact denotes
    | succ i => exact ih token operator

end Lookups

/-- The occurrence `i` of an operator is looked up under the name of its declaration, with the types of its
operands in their order. -/
def NamedAt {Type_t Init_t : Type} (env : Env Type_t) (e : Expr_t Type_t Init_t) (i : Nat) (t : StackEntry) : Prop :=
  ∃ x lookup, (operands env e READ none false)[i]? = some x ∧ (lookups (f_ExprProcess env e))[i]? = some lookup ∧
    (some lookup.1, lookup.2) = declaration env t x

/-- There is one lookup for each operator, and it is the right one unless this is `^`, `<=` or `>=`. -/
theorem named_of_reads {Type_t Init_t : Type} (env : Env Type_t) {template_arg : Bool} {e : Expr_t Type_t Init_t}
    {us ts : List StackEntry} (reads : Reads template_arg (.one .expression e) us ts) :
    (lookups (f_ExprProcess env e)).length = ts.length ∧
      ∀ i t, ts[i]? = some t → (NamedAt env e i t ↔ t.token ≠ chr '^' ∧ t.token ≠ SN_LE ∧ t.token ≠ SN_GE) := by
  have denoted := denoted_of_reads env reads READ none false
  have walked : lookups (f_ExprProcess env e) = (operands env e READ none false).map (lookupOf env) :=
    lookups_f_expr e READ none false false
  constructor
  · rw [walked, List.length_map, denoted.length_eq]
  · intro i t token
    have less : i < (operands env e READ none false).length := by
      rw [← denoted.length_eq]
      exact (List.getElem?_eq_some_iff.mp token).1
    have operator := List.getElem?_eq_getElem less
    have agrees := @lookupOf_eq_declaration _ env _ _ _ (denotes_at denoted token operator)
    unfold NamedAt
    rw [walked, List.getElem?_map, operator]
    simp only [exchanged, List.mem_cons, List.not_mem_nil, or_false, not_or] at agrees
    rw [← agrees]
    constructor
    · rintro ⟨x, lookup, same, same', named⟩
      cases same
      cases same'
      exact named
    · intro named
      exact ⟨_, _, rfl, rfl, named⟩

/-- `a op b` -/
def twoOperands (op : Nat) : List StackEntry := [identifierToken "a", { token := op }, identifierToken "b"]

/-- The expression of `a op b`. -/
def twoNames (operator : Binary) : Expr_t Unit Unit :=
  .binary operator (.OPERATOR_NAME (ascii "a") ⟨0, 0, 0, 1⟩) (.OPERATOR_NAME (ascii "b") ⟨0, 0, 0, 1⟩)

theorem reads_name {l : Level} {t : StackEntry} {Name : Text} {range : Range} :
    Reads false (.one l (.OPERATOR_NAME Name range : Expr_t Unit Unit)) [t] [] := by
  have name : Reads false (.one .primary_expression (.OPERATOR_NAME Name range : Expr_t Unit Unit)) [t] [] := .name
  cases l
  all_goals
    repeat first
      | exact name
      | apply Reads.up

unseal logical_or_expression in
theorem run_plus : (expression identifiers false 9).run ⟨[], twoOperands (chr '+')⟩ =
    .found (twoNames .PLUS) ⟨(twoOperands (chr '+')).reverse, []⟩ := rfl

unseal logical_or_expression in
theorem run_exclusive_or : (expression identifiers false 9).run ⟨[], twoOperands (chr '^')⟩ =
    .found (twoNames .ER) ⟨(twoOperands (chr '^')).reverse, []⟩ := rfl

theorem reads_plus :
    Reads false (.one .expression (twoNames .PLUS)) (twoOperands (chr '+')) [{ token := chr '+' }] := by
  have add : Reads false (.one .additive_expression (twoNames .PLUS)) (twoOperands (chr '+')) [{ token := chr '+' }] :=
    @Reads.binary _ _ false _ [_] [_] _ _ _ _ _ _ rfl reads_name reads_name
  repeat first
    | exact add
    | apply Reads.up

theorem reads_exclusive_or :
    Reads false (.one .expression (twoNames .ER)) (twoOperands (chr '^')) [{ token := chr '^' }] := by
  have or : Reads false (.one .exclusive_or_expression (twoNames .ER)) (twoOperands (chr '^')) [{ token := chr '^' }] :=
    @Reads.binary _ _ false _ [_] [_] _ _ _ _ _ _ rfl reads_name reads_name
  repeat first
    | exact or
    | apply Reads.up

end SourceNavigator.Cpp.Expression

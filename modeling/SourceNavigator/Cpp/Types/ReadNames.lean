import SourceNavigator.Cpp.Types.Canonical
import SourceNavigator.Cpp.Types.Reads

/-!
Names and operators in front that are read from their own text.

The functions are run on the tokens of a name or an operator with any tokens
behind them that can stand there. Each takes up exactly its own tokens.
-/

namespace SourceNavigator.Cpp.Types

open Lib Lib.Program

variable {α : Type} {n : Nat} {ts rest : List Tok} {Name pname text : Text}

/-- A run that comes to its end. -/
abbrev Yields (m : M α) (ts : List Tok) (Q : α → List Tok → Prop) : Prop :=
  Reads (fun _ => True) (fun _ => False) m ts Q

/-- A run that takes up all tokens in front of `rest`. -/
abbrev Takes (m : M α) (ts rest : List Tok) (a : α) : Prop := Yields m ts fun a' left => a' = a ∧ left = rest

/-! ### Names -/

theorem strcat_scope (before : Text) {b : Text} (more : pname ≠ []) :
    f_Strcat (before ++ pname) b = before ++ f_Strcat pname b := by
  unfold f_Strcat
  split
  · rfl
  · rw [List.getLast?_append_of_ne_nil _ more]
    split
    · split
      · rw [List.append_assoc]
      · rw [List.append_assoc]
    · rw [List.append_assoc]

theorem strcat_ne_nil {a b : Text} (more : a ≠ []) : f_Strcat a b ≠ [] := by
  obtain ⟨s, eq⟩ := prefix_strcat a b
  rw [eq]
  simp [more]

theorem argumentsText_prefix (before : Text) {i : Nat} (more : pname ≠ [])
    (spelled : argumentsText pname i ts = some text) :
    argumentsText (before ++ pname) i ts = some (before ++ text) := by
  induction ts generalizing pname i with
  | nil =>
    cases i with
    | zero =>
      obtain rfl := Option.some.inj spelled
      rfl
    | succ i => cases spelled
  | cons t ts ih =>
    cases i with
    | zero => cases spelled
    | succ i =>
      rw [argumentsText] at spelled ⊢
      rw [strcat_scope before more]
      exact ih (strcat_ne_nil more) spelled

/-- The loop over template arguments stops behind the closing bracket. -/
theorem takes_TemplateArgList (coded : ∀ t ∈ ts, t.iToken ≠ 0) {lt : Tok}
    (spelled : argumentsText (pname ++ ascii "<") 1 ts = some text) (enough : (ts ++ rest).length < n) :
    Takes (TemplateArgList n pname) (lt :: (ts ++ rest)) rest text := by
  unfold TemplateArgList
  apply reads_step
  refine reads_loop (I := fun x left => ∃ ts', left = ts' ++ rest ∧ (∀ t ∈ ts', t.iToken ≠ 0) ∧
    argumentsText x.2 x.1 ts' = some text) (μ := fun _ left => left.length) ?_ ⟨ts, rfl, coded, spelled⟩ enough
  rintro ⟨i, pname⟩ left ⟨ts, rfl, coded, spelled⟩
  dsimp only at spelled ⊢
  cases i with
  | zero =>
    rw [if_pos rfl]
    apply reads_pure
    cases ts with
    | nil => exact ⟨Option.some.inj spelled, rfl⟩
    | cons t ts => cases spelled
  | succ i =>
    rw [if_neg (Nat.succ_ne_zero i)]
    cases ts with
    | nil => cases spelled
    | cons t ts =>
      rw [argumentsText] at spelled
      have more := coded t List.mem_cons_self
      apply reads_token
      apply reads_ident
      apply reads_step
      apply reads_pure
      refine ⟨⟨ts, rfl, fun t' among => coded t' (List.mem_cons_of_mem _ among), ?_⟩, ?_⟩
      · dsimp only
        rw [List.cons_append, code_zero, ident_zero, if_neg more, ← spelled]
        rfl
      · simp

/-- What may stand behind a name. -/
def EndsName (rest : List Tok) : Prop :=
  code rest 0 ≠ chr '<' ∧ ¬ (code rest 0 = SN_CLCL ∧ code rest 1 = SN_IDENTIFIER)

/-- The components of a name, behind `before`. -/
theorem takes_components {before : Text} (spelled : Spelled Name) (colons : before = [] ∨ before = ascii "::")
    (ends : EndsName rest) (enough : (lex Name ++ rest).length < n) :
    Takes (do
      let ac ← firstComponent n before
      let ac ← moreComponents n ac
      pure (some ac)) (lex Name ++ rest) rest (some (before ++ Name)) := by
  have coded : ∀ t ∈ lex Name, t.iToken ≠ 0 := fun t among => (lex_tokens Name t among).code_ne_zero
  have begin (word : Text) : f_Strcat before word = before ++ word := by
    rcases colons with rfl | rfl
    · cases word <;> rfl
    · cases word with
      | nil => rfl
      | cons c s => rfl
  have first : Takes (firstComponent n before) (lex Name ++ rest) rest (before ++ Name) := by
    unfold firstComponent
    rcases spelled.cases with single | ⟨word, lt, ts, template, opened, text⟩
    · rw [single]
      apply reads_ident
      apply reads_step
      apply reads_token
      rw [List.singleton_append, List.drop_one, List.tail_cons, if_neg ends.1]
      apply reads_pure
      exact ⟨begin Name, rfl⟩
    · rw [template] at coded enough ⊢
      apply reads_ident
      apply reads_step
      apply reads_token
      rw [List.cons_append, List.cons_append, List.drop_one, List.tail_cons, code_zero, if_pos opened]
      refine takes_TemplateArgList ?_ ?_ ?_
      · exact fun t among => coded t (List.mem_cons_of_mem _ (List.mem_cons_of_mem _ among))
      · rw [ident_zero, begin, List.append_assoc]
        exact argumentsText_prefix before (by simp [ascii]) text
      · simp only [List.cons_append, List.length_cons] at enough
        omega
  apply reads_bind
  refine first.imp ?_
  rintro ac left ⟨rfl, rfl⟩
  apply reads_bind
  have := @List.length_append _ (lex Name) left
  refine Reads.imp (Q := fun ac left' => ac = before ++ Name ∧ left' = left) ?_ ?_
  · unfold moreComponents
    refine reads_loop (I := fun ac left' => ac = before ++ Name ∧ left' = left) (μ := fun _ _ => 0) ?_
      ⟨rfl, rfl⟩ (by omega)
    rintro ac left' ⟨rfl, rfl⟩
    apply reads_token
    apply reads_token
    rw [if_neg ends.2]
    apply reads_pure
    exact ⟨rfl, rfl⟩
  · rintro ac left' ⟨rfl, rfl⟩
    apply reads_pure
    exact ⟨rfl, rfl⟩

theorem Spelled.code (spelled : Spelled Name) : code (lex Name ++ rest) 0 = SN_IDENTIFIER := by
  rcases spelled.cases with single | ⟨word, lt, ts, template, -, -⟩
  · rw [single]
    rfl
  · rw [template]
    rfl

theorem Spelled.length_pos (spelled : Spelled Name) : 0 < (lex Name).length := by
  rcases spelled.cases with single | ⟨word, lt, ts, template, -, -⟩
  · rw [single]
    exact Nat.one_pos
  · rw [template]
    exact Nat.succ_pos _

theorem takes_Spelled (spelled : Spelled Name) (ends : EndsName rest) (enough : (lex Name ++ rest).length < n) :
    Takes (CompleteClassName n) (lex Name ++ rest) rest (some Name) := by
  unfold CompleteClassName leadingColons
  apply reads_save
  apply reads_bind
  apply reads_token
  rw [spelled.code, if_neg (by decide)]
  apply reads_pure
  apply reads_token
  rw [spelled.code, if_pos rfl]
  exact takes_components spelled (.inl rfl) ends enough

/-- The tokens of the name of a member pointer. -/
theorem PointerName.cases (name : PointerName Name) :
    Spelled Name ∨ ∃ m, Name = ascii "::" ++ m ∧ Spelled m ∧ lex Name = colons :: lex m := by
  rcases name with spelled | ⟨m, rfl, spelled⟩
  · exact .inl spelled
  · refine .inr ⟨m, rfl, spelled, ?_⟩
    change lex (58 :: 58 :: m) = _
    rw [lex_cons, if_neg (by decide), if_neg (by decide), if_neg (by decide), if_pos rfl]
    exact if_pos rfl

theorem PointerName.code (name : PointerName Name) :
    code (lex Name ++ rest) 0 = SN_IDENTIFIER ∨ code (lex Name ++ rest) 0 = SN_CLCL := by
  rcases name.cases with spelled | ⟨m, -, -, tokens⟩
  · exact .inl spelled.code
  · rw [tokens]
    exact .inr rfl

theorem takes_PointerName (name : PointerName Name) (ends : EndsName rest)
    (enough : (lex Name ++ rest).length < n) :
    Takes (CompleteClassName n) (lex Name ++ rest) rest (some Name) := by
  rcases name.cases with spelled | ⟨m, rfl, spelled, tokens⟩
  · exact takes_Spelled spelled ends enough
  · rw [tokens] at enough ⊢
    unfold CompleteClassName leadingColons
    apply reads_save
    apply reads_bind
    apply reads_token
    rw [List.cons_append, code_zero, if_pos (show colons.iToken = SN_CLCL from rfl)]
    apply reads_step
    apply reads_pure
    apply reads_token
    rw [List.drop_one, List.tail_cons, spelled.code, if_pos rfl]
    refine takes_components spelled (.inr rfl) ends ?_
    simp only [List.cons_append, List.length_cons] at enough
    omega

/-! ### Operators -/

/-- No qualifier follows. -/
def EndsQualifiers (rest : List Tok) : Prop := code rest 0 ≠ SN_CONST ∧ code rest 0 ≠ SN_VOLATILE

theorem cvTokens (s_const s_volatile : Bool) : (cvWords s_const s_volatile).flatMap lex =
    (if s_const then [⟨SN_CONST, ascii "const"⟩] else []) ++
      if s_volatile then [⟨SN_VOLATILE, ascii "volatile"⟩] else [] := by
  cases s_const <;> cases s_volatile <;> decide

theorem takes_CvQualifierList (s_const s_volatile : Bool) (ends : EndsQualifiers rest)
    (enough : ((cvWords s_const s_volatile).flatMap lex ++ rest).length < n) :
    Takes (CvQualifierList n) ((cvWords s_const s_volatile).flatMap lex ++ rest) rest (s_const, s_volatile) := by
  unfold CvQualifierList
  refine reads_loop (I := fun x left => ∃ c v, left = (cvWords c v).flatMap lex ++ rest ∧
    (x.1 || c) = s_const ∧ (x.2 || v) = s_volatile) (μ := fun _ left => left.length) ?_
    ⟨s_const, s_volatile, rfl, rfl, rfl⟩ enough
  rintro ⟨a, b⟩ left ⟨c, v, rfl, const, volatile⟩
  dsimp only at const volatile ⊢
  apply reads_token
  rw [cvTokens]
  cases c with
  | true =>
    rw [if_pos rfl, List.singleton_append, List.cons_append, code_zero, if_pos rfl]
    apply reads_step
    apply reads_pure
    refine ⟨⟨false, v, ?_, ?_, volatile⟩, ?_⟩
    · rw [cvTokens]
      rfl
    · rw [← const, Bool.or_true, Bool.true_or]
    · simp
  | false =>
    cases v with
    | true =>
      rw [if_neg Bool.false_ne_true, if_pos rfl, List.nil_append, List.singleton_append, code_zero,
        if_neg (by decide), if_pos rfl]
      apply reads_step
      apply reads_pure
      refine ⟨⟨false, false, rfl, const, ?_⟩, ?_⟩
      · rw [← volatile, Bool.or_true, Bool.true_or]
      · simp
    | false =>
      rw [if_neg Bool.false_ne_true, List.nil_append, if_neg Bool.false_ne_true, List.nil_append,
        if_neg ends.1, if_neg ends.2]
      apply reads_pure
      rw [Bool.or_false] at const volatile
      exact ⟨by rw [const, volatile], rfl⟩

/-- The operator that is written for one of a plain type. -/
theorem takes_star {name : Option Text} (named : ∀ n, name = some n → PointerName n) (s_const s_volatile : Bool)
    (ends : EndsQualifiers rest)
    (enough : (starTokens name ++ ((cvWords s_const s_volatile).flatMap lex ++ rest)).length < n) :
    Takes (PtrOperator n) (starTokens name ++ ((cvWords s_const s_volatile).flatMap lex ++ rest)) rest
      (some (.POINTER_STAR s_const s_volatile name)) := by
  unfold PtrOperator
  apply reads_save
  apply reads_token
  cases name with
  | none =>
    unfold starTokens at enough ⊢
    rw [List.singleton_append, code_zero, if_pos (show (mark '*').iToken = chr '*' from rfl)]
    apply reads_step
    apply reads_bind
    refine (takes_CvQualifierList s_const s_volatile ends ?_).imp ?_
    · simp only [List.singleton_append, List.length_cons] at enough
      omega
    · rintro cv left ⟨rfl, rfl⟩
      apply reads_pure
      exact ⟨rfl, rfl⟩
  | some Name =>
    have pointerName := named Name rfl
    unfold starTokens at enough ⊢
    dsimp only at enough ⊢
    rw [List.append_assoc] at enough ⊢
    simp only [List.length_append, List.length_cons, List.length_nil] at enough
    have first := @PointerName.code (([colons, mark '*'] : List Tok) ++
      ((cvWords s_const s_volatile).flatMap lex ++ rest)) Name pointerName
    rw [if_neg (by rcases first with code | code <;> rw [code] <;> decide),
      if_neg (by rcases first with code | code <;> rw [code] <;> decide), if_pos first]
    apply reads_bind
    refine (takes_PointerName pointerName ?_ ?_).imp ?_
    · refine ⟨(by decide : SN_CLCL ≠ chr '<'), ?_⟩
      rintro ⟨-, identifier⟩
      have code : chr '*' = SN_IDENTIFIER := identifier
      exact absurd code (by decide)
    · simp only [List.length_append, List.length_cons, List.length_nil]
      omega
    · rintro name left ⟨rfl, rfl⟩
      apply reads_token
      rw [List.cons_append, code_zero, if_neg (not_not.mpr (show colons.iToken = SN_CLCL from rfl))]
      apply reads_step
      apply reads_token
      rw [List.drop_one, List.tail_cons, List.singleton_append, code_zero, if_pos (show (mark '*').iToken = chr '*' from rfl)]
      apply reads_step
      apply reads_bind
      refine (takes_CvQualifierList s_const s_volatile ends ?_).imp ?_
      · rw [List.length_append]
        omega
      · rintro cv left ⟨rfl, rfl⟩
        apply reads_pure
        exact ⟨rfl, rfl⟩

theorem takes_ampersand (s_const s_volatile : Bool) (ends : EndsQualifiers rest)
    (enough : (mark '&' :: ((cvWords s_const s_volatile).flatMap lex ++ rest)).length < n) :
    Takes (PtrOperator n) (mark '&' :: ((cvWords s_const s_volatile).flatMap lex ++ rest)) rest
      (some (.POINTER_AMPERSAND s_const s_volatile)) := by
  unfold PtrOperator
  apply reads_save
  apply reads_token
  rw [code_zero, if_neg (by decide), if_pos (show (mark '&').iToken = chr '&' from rfl)]
  apply reads_step
  apply reads_bind
  refine (takes_CvQualifierList s_const s_volatile ends ?_).imp ?_
  · simp only [List.length_cons] at enough
    omega
  · rintro cv left ⟨rfl, rfl⟩
    apply reads_pure
    exact ⟨rfl, rfl⟩

/-- An operator in front is read as one with the same plain operator. -/
theorem takes_pointer {operator : Operator} (pointer : operator.isPointer = true) (canonical : operator.Canonical)
    (b : Bool) (ends : EndsQualifiers rest) (enough : (operator.tokens rest b).length < n) :
    Yields (PtrOperator n) (operator.tokens rest b) fun result left =>
      ∃ oper, result = some oper ∧ oper.plain = operator ∧ oper.Single ∧ left = rest := by
  match operator, pointer with
  | .pointer s_const s_volatile Name, _ =>
    refine (takes_star canonical s_const s_volatile ends enough).imp ?_
    rintro result left ⟨rfl, rfl⟩
    exact ⟨.POINTER_STAR s_const s_volatile Name, rfl, rfl, trivial, rfl⟩
  | .reference s_const s_volatile, _ =>
    refine (takes_ampersand s_const s_volatile ends enough).imp ?_
    rintro result left ⟨rfl, rfl⟩
    exact ⟨.POINTER_AMPERSAND s_const s_volatile, rfl, rfl, trivial, rfl⟩

end SourceNavigator.Cpp.Types

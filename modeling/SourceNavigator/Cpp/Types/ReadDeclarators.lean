import SourceNavigator.Cpp.Types.ReadNames

/-!
Declarators that are read from their own text.

The outermost operators decide how a declarator is read: one in front is taken up
before the rest, and operators behind have the rest in parentheses or nothing in
front of them. The arguments are types again, whose reading is an assumption here.
-/

namespace SourceNavigator.Cpp.Types

open Lib Lib.Program

variable {n k : Nat} {b : Bool} {ts rest : List Tok} {operator : Operator} {l l' : List Operator}
  {words : List Text} {TypeName : M (Option Type_t)}

/-! ### The tokens of operators -/

/-- The tokens of an operator behind the name. -/
def Operator.behind : Operator → List Tok
  | .array => [mark '[', mark ']']
  | .function arguments => mark '(' :: (argumentTokens true arguments ++ [mark ')'])
  | _ => []

def AllBehind (l : List Operator) : Prop := ∀ operator ∈ l, operator.isPointer = false

theorem tokens_pointer (pointer : operator.isPointer = true) :
    operator.tokens ts b ++ rest = operator.tokens (ts ++ rest) false := by
  cases operator with
  | pointer s_const s_volatile Name => simp only [Operator.tokens, List.append_assoc]
  | reference s_const s_volatile => simp only [Operator.tokens, List.append_assoc, List.cons_append]
  | array => cases pointer
  | function arguments => cases pointer

theorem length_pointer (pointer : operator.isPointer = true) : ts.length < (operator.tokens ts b).length := by
  match operator, pointer with
  | .pointer s_const s_volatile none, _ =>
    simp only [Operator.tokens, starTokens, List.length_append, List.length_cons]
    omega
  | .pointer s_const s_volatile (some Name), _ =>
    simp only [Operator.tokens, starTokens, List.length_append, List.length_cons]
    omega
  | .reference s_const s_volatile, _ =>
    simp only [Operator.tokens, List.length_append, List.length_cons]
    omega

theorem tokens_behind (behind : operator.isPointer = false) :
    operator.tokens ts b = encloseTokens ts b ++ operator.behind := by
  cases operator with
  | pointer s_const s_volatile Name => cases behind
  | reference s_const s_volatile => cases behind
  | array => rfl
  | function arguments => rfl

/-- An operator in front comes before the tokens of all operators inside. -/
theorem operatorTokens_snoc (pointer : operator.isPointer = true) :
    operatorTokens ts b (l ++ [operator]) = operator.tokens (operatorTokens ts b l) false := by
  induction l generalizing ts b with
  | nil =>
    have same := @tokens_pointer b ts [] operator pointer
    rw [List.append_nil, List.append_nil] at same
    exact same
  | cons first l ih => exact ih

theorem operatorTokens_append (pointer : operator.isPointer = true) :
    operatorTokens ts b (l ++ operator :: l') = operatorTokens (operatorTokens ts b (l ++ [operator])) true l' := by
  induction l generalizing ts b with
  | nil =>
    rw [List.nil_append, List.nil_append, operatorTokens, operatorTokens, operatorTokens, pointer]
  | cons first l ih => exact ih

/-- Operators behind follow one another. -/
theorem operatorTokens_behind (behind : AllBehind l) :
    operatorTokens ts false l = ts ++ l.flatMap Operator.behind := by
  induction l generalizing ts with
  | nil => simp [operatorTokens]
  | cons operator l ih =>
    have first := behind operator List.mem_cons_self
    rw [operatorTokens, first, ih fun other among => behind other (List.mem_cons_of_mem _ among),
      tokens_behind first, List.flatMap_cons, List.append_assoc]
    rfl

theorem operatorTokens_enclose (behind : AllBehind l) (more : l ≠ []) :
    operatorTokens ts true l = mark '(' :: (ts ++ mark ')' :: l.flatMap Operator.behind) := by
  cases l with
  | nil => exact absurd rfl more
  | cons operator l =>
    have first := behind operator List.mem_cons_self
    rw [operatorTokens, first,
      operatorTokens_behind fun other among => behind other (List.mem_cons_of_mem _ among),
      tokens_behind first, List.flatMap_cons, encloseTokens, if_pos rfl]
    simp

/-- The outermost operators. -/
inductive Shape : List Operator → Prop
  | none : Shape []
  | pointer (l : List Operator) {operator : Operator} (pointer : operator.isPointer = true) :
      Shape (l ++ [operator])
  | behind {l : List Operator} (behind : AllBehind l) (more : l ≠ []) : Shape l
  | parenthesized (l : List Operator) {operator : Operator} {l' : List Operator}
      (pointer : operator.isPointer = true) (behind : AllBehind l') (more : l' ≠ []) :
      Shape (l ++ operator :: l')

theorem AllBehind.snoc (behind : AllBehind l) (last : operator.isPointer = false) :
    AllBehind (l ++ [operator]) := by
  intro other among
  cases List.mem_append.mp among with
  | inl among => exact behind other among
  | inr among => exact List.mem_singleton.mp among ▸ last

theorem shape (l : List Operator) : Shape l := by
  induction l using List.reverseRecOn with
  | nil => exact .none
  | append_singleton l operator ih =>
    cases last : operator.isPointer with
    | true => exact .pointer l last
    | false =>
      cases ih with
      | none => exact .behind (AllBehind.snoc (fun _ none => absurd none List.not_mem_nil) last) (by simp)
      | pointer l pointer =>
        rw [List.append_assoc]
        exact .parenthesized l pointer (AllBehind.snoc (fun _ none => absurd none List.not_mem_nil) last)
          (by simp)
      | behind behind more => exact .behind (behind.snoc last) (by simp)
      | parenthesized l pointer behind more =>
        rw [List.append_assoc, List.cons_append]
        exact .parenthesized l pointer (behind.snoc last) (by simp)

/-! ### The first token -/

/-- What may stand behind a type. -/
def Stops (rest : List Tok) : Prop := code rest 0 = 0 ∨ code rest 0 = chr ',' ∨ code rest 0 = chr ')'

/-- The codes with which an operator in front begins. -/
abbrev PointerCode (c : Nat) : Prop := c = chr '*' ∨ c = chr '&' ∨ c = SN_IDENTIFIER ∨ c = SN_CLCL

theorem code_pointer (pointer : operator.isPointer = true) (canonical : operator.Canonical) :
    PointerCode (code (operator.tokens ts b) 0) := by
  match operator, pointer with
  | .pointer s_const s_volatile none, _ => exact .inl rfl
  | .pointer s_const s_volatile (some Name), _ =>
    unfold Operator.tokens starTokens
    rw [List.append_assoc]
    rcases @PointerName.code ([colons, mark '*'] ++ ((cvWords s_const s_volatile).flatMap lex ++ ts)) Name
      (canonical Name rfl) with code | code
    · exact .inr (.inr (.inl code))
    · exact .inr (.inr (.inr code))
  | .reference s_const s_volatile, _ => exact .inr (.inl rfl)

/-- Two colons stand in front only of the name of a member pointer. -/
theorem code_pointer_colons (pointer : operator.isPointer = true) (canonical : operator.Canonical)
    (colons : code (operator.tokens ts b) 0 = SN_CLCL) :
    ∃ s_const s_volatile Name, operator = .pointer s_const s_volatile (some Name) ∧ Name.head? = some 58 := by
  match operator, pointer with
  | .pointer s_const s_volatile none, _ => exact absurd (show chr '*' = SN_CLCL from colons) (by decide)
  | .pointer s_const s_volatile (some Name), _ =>
    refine ⟨s_const, s_volatile, Name, rfl, ?_⟩
    rcases canonical Name rfl with spelled | ⟨m, rfl, -⟩
    · unfold Operator.tokens starTokens at colons
      rw [List.append_assoc, spelled.code] at colons
      exact absurd colons (by decide)
    · rfl
  | .reference s_const s_volatile, _ => exact absurd (show chr '&' = SN_CLCL from colons) (by decide)

theorem canonicalOperators_append :
    canonicalOperators (l ++ l') ↔ canonicalOperators l ∧ canonicalOperators l' := by
  induction l with
  | nil => exact ⟨fun canonical => ⟨trivial, canonical⟩, fun canonical => canonical.2⟩
  | cons first l ih =>
    constructor
    · intro canonical
      have both := ih.mp canonical.2
      exact ⟨⟨canonical.1, both.1⟩, both.2⟩
    · rintro ⟨canonical, canonical'⟩
      exact ⟨canonical.1, ih.mpr ⟨canonical.2, canonical'⟩⟩

theorem code_behind (behind : AllBehind l) (more : l ≠ []) :
    code (l.flatMap Operator.behind ++ rest) 0 = chr '[' ∨ code (l.flatMap Operator.behind ++ rest) 0 = chr '(' := by
  cases l with
  | nil => exact absurd rfl more
  | cons operator l =>
    match operator, behind operator List.mem_cons_self with
    | .array, _ => exact .inl rfl
    | .function arguments, _ => exact .inr rfl

/-- The first token of a declarator. -/
theorem code_operators (canonical : canonicalOperators l) (more : l ≠ []) :
    PointerCode (code (operatorTokens [] false l ++ rest) 0) ∨
      code (operatorTokens [] false l ++ rest) 0 = chr '[' ∨ code (operatorTokens [] false l ++ rest) 0 = chr '(' := by
  cases shape l with
  | none => exact absurd rfl more
  | pointer l pointer =>
    rw [operatorTokens_snoc pointer, tokens_pointer pointer]
    exact .inl (code_pointer pointer (canonicalOperators_append.mp canonical).2.1)
  | behind behind more =>
    rw [operatorTokens_behind behind, List.nil_append]
    exact .inr (code_behind behind more)
  | parenthesized l pointer behind some =>
    rw [operatorTokens_append pointer, operatorTokens_enclose behind some]
    exact .inr (.inr rfl)

/-- Where two colons stand in front of a declarator, its outermost operator is a member pointer
that begins with them. -/
theorem code_operators_colons (canonical : canonicalOperators l) (stops : Stops rest)
    (colons : code (operatorTokens [] false l ++ rest) 0 = SN_CLCL) :
    ∃ s_const s_volatile Name, l.getLast? = some (.pointer s_const s_volatile (some Name)) ∧
      Name.head? = some 58 := by
  cases shape l with
  | none =>
    rcases stops with code | code | code <;>
      · rw [show operatorTokens [] false [] ++ rest = rest from rfl, code] at colons
        exact absurd colons (by decide)
  | pointer l pointer =>
    rw [operatorTokens_snoc pointer, tokens_pointer pointer] at colons
    obtain ⟨c, v, Name, rfl, head⟩ :=
      code_pointer_colons pointer (canonicalOperators_append.mp canonical).2.1 colons
    exact ⟨c, v, Name, List.getLast?_concat, head⟩
  | behind behind more =>
    rw [operatorTokens_behind behind, List.nil_append] at colons
    rcases @code_behind rest l behind more with code | code <;>
      · rw [code] at colons
        exact absurd colons (by decide)
  | parenthesized l pointer behind more =>
    rw [operatorTokens_append pointer, operatorTokens_enclose behind more] at colons
    exact absurd (show chr '(' = SN_CLCL from colons) (by decide)

/-- Where a bracket stands in front of a declarator, it belongs to an array, and no operator is in
front. -/
theorem code_operators_array (canonical : canonicalOperators l) (stops : Stops rest)
    (array : code (operatorTokens [] false l ++ rest) 0 = chr '[') : l.head? = some .array ∧ AllBehind l := by
  cases shape l with
  | none =>
    rcases stops with code | code | code <;>
      · rw [show operatorTokens [] false [] ++ rest = rest from rfl, code] at array
        exact absurd array (by decide)
  | pointer l pointer =>
    rw [operatorTokens_snoc pointer, tokens_pointer pointer] at array
    rcases @code_pointer false _ _ pointer (canonicalOperators_append.mp canonical).2.1 with
      code | code | code | code <;>
      · rw [code] at array
        exact absurd array (by decide)
  | behind behind more =>
    refine ⟨?_, behind⟩
    cases l with
    | nil => exact absurd rfl more
    | cons operator l =>
      rw [operatorTokens_behind behind, List.nil_append] at array
      match operator, behind operator List.mem_cons_self with
      | .array, _ => rfl
      | .function arguments, _ => exact absurd (show chr '(' = chr '[' from array) (by decide)
  | parenthesized l pointer behind more =>
    rw [operatorTokens_append pointer, operatorTokens_enclose behind more] at array
    exact absurd (show chr '(' = chr '[' from array) (by decide)

/-- A name can stand in front of a declarator that does not begin with two colons. -/
theorem endsName_operators (canonical : canonicalOperators l) (stops : Stops rest)
    (apart : code (operatorTokens [] false l ++ rest) 0 ≠ SN_CLCL) : EndsName (operatorTokens [] false l ++ rest) := by
  refine ⟨?_, fun colons => apart colons.1⟩
  cases l with
  | nil =>
    rcases stops with code | code | code <;>
      · rw [show operatorTokens [] false [] ++ rest = rest from rfl, code]
        decide
  | cons operator l =>
    rcases @code_operators rest _ canonical (List.cons_ne_nil operator l) with
      (code | code | code | code) | code | code <;>
      · rw [code]
        decide

theorem endsQualifiers_operators (canonical : canonicalOperators l) (stops : Stops rest) :
    EndsQualifiers (operatorTokens [] false l ++ rest) := by
  cases l with
  | nil =>
    rcases stops with code | code | code <;>
      · rw [EndsQualifiers, show operatorTokens [] false [] ++ rest = rest from rfl, code]
        decide
  | cons operator l =>
    rcases @code_operators rest _ canonical (List.cons_ne_nil operator l) with
      (code | code | code | code) | code | code <;>
      · rw [EndsQualifiers, code]
        decide

theorem lex_keyword {word : Text} (among : word ∈ keywordTexts) : lex word = [⟨wordCode word, word⟩] := by
  have all : ∀ word ∈ keywordTexts, lex word = [⟨wordCode word, word⟩] := by decide
  exact all word among

/-- The words of a type begin with a keyword, or they are a single name. -/
theorem code_words (base : Keyworded words ∨ Named words) :
    (∃ word ∈ keywordTexts, code (words.flatMap lex ++ rest) 0 = wordCode word) ∨
      ∃ Name, words = [Name] ∧ Spelled Name := by
  have keyword {word : Text} {more : List Text} (among : word ∈ keywordTexts) :
      code ((word :: more).flatMap lex ++ rest) 0 = wordCode word := by
    rw [List.flatMap_cons, lex_keyword among]
    rfl
  rcases base with ⟨modifiers, s, rfl, modifies, basic⟩ | ⟨modifiers, Name, rfl, modifies, spelled⟩
  · have among : ∀ word ∈ modifiers ++ keywordWords s, word ∈ keywordTexts := by
      intro word among
      cases List.mem_append.mp among with
      | inl among => exact mem_modifiers modifies among
      | inr among => exact mem_keywordWords among
    cases words : modifiers ++ keywordWords s with
    | nil =>
      have none := (List.append_eq_nil_iff.mp words).2
      simp only [keywordWords, wordIf, List.append_eq_nil_iff, ite_eq_right_iff, List.cons_ne_nil, imp_false,
        Bool.not_eq_true] at none
      simp [Basic, none] at basic
    | cons word more =>
      have first := among word (words ▸ List.mem_cons_self)
      exact .inl ⟨word, first, keyword first⟩
  · cases modifiers with
    | nil => exact .inr ⟨Name, rfl, spelled⟩
    | cons word more =>
      have first := mem_modifiers modifies List.mem_cons_self
      exact .inl ⟨word, first, keyword first⟩

theorem code_type (p : Plain) (canonical : p.Canonical) :
    (∃ word ∈ keywordTexts, code (p.tokens ++ rest) 0 = wordCode word) ∨ code (p.tokens ++ rest) 0 = SN_IDENTIFIER := by
  obtain ⟨words, operators⟩ := p
  unfold Plain.tokens
  rw [List.append_assoc]
  rcases @code_words (operatorTokens [] false operators ++ rest) words canonical.1 with keyword | ⟨Name, rfl, spelled⟩
  · exact .inl keyword
  · right
    rw [List.flatMap_singleton, spelled.code]

theorem tokens_ne_nil (p : Plain) (canonical : p.Canonical) : p.tokens ≠ [] := by
  intro none
  have first := @code_type [] p canonical
  rw [none] at first
  rcases first with ⟨word, among, code⟩ | code
  · have := wordCode_gt word
    rw [← code] at this
    exact absurd this (by decide)
  · exact absurd code (by decide)

/-! ### Arguments -/

/-- A type that is read for a plain type. -/
structure ReadAs (type : Type_t) (p : Plain) : Prop where
  plain : type.plain = p
  declaration : (f_TypeCastToDeclaration type).plain = p
  single : singleDeclarators type.Declarator.toList

/-- The types are read that have fewer tokens than there are steps. -/
def TakesTypes (n : Nat) (TypeName : M (Option Type_t)) : Prop :=
  ∀ (p : Plain) (rest : List Tok), p.Canonical → Stops rest → (p.tokens ++ rest).length + 1 < n →
    Yields TypeName (p.tokens ++ rest) fun result left => ∃ type, result = some type ∧ ReadAs type p ∧ left = rest

theorem stops_arguments (arguments : List Plain) (rest : List Tok) :
    Stops (argumentTokens false arguments ++ mark ')' :: rest) := by
  cases arguments with
  | nil => exact .inr (.inr rfl)
  | cons argument l =>
    unfold argumentTokens
    exact .inr (.inl rfl)

theorem plainArguments_append (l : List Declaration) (declaration : Declaration) :
    plainArguments (l ++ [declaration]) = plainArguments l ++ [declaration.plain] := by
  induction l with
  | nil => rfl
  | cons first l ih => exact congrArg (first.plain :: ·) ih

theorem singleArguments_append {l : List Declaration} {declaration : Declaration} (single : singleArguments l)
    (last : declaration.Single) : singleArguments (l ++ [declaration]) := by
  induction l with
  | nil => exact ⟨last, trivial⟩
  | cons first l ih => exact ⟨single.1, ih single.2⟩

/-- A cast type has at most one declarator. -/
theorem single_cast {type : Type_t} (single : singleDeclarators type.Declarator.toList) :
    (f_TypeCastToDeclaration type).Single := by
  refine ⟨?_, single⟩
  cases type.Declarator <;> simp

theorem takes_ArgumentDeclarationList (types : TakesTypes n TypeName) {arguments : List Plain}
    (canonical : canonicalArguments arguments)
    (enough : (argumentTokens true arguments ++ mark ')' :: rest).length + 1 < n) :
    Yields (ArgumentDeclarationList n TypeName) (argumentTokens true arguments ++ mark ')' :: rest)
      fun ListDeclaration left => plainArguments ListDeclaration = arguments ∧ singleArguments ListDeclaration ∧
        left = mark ')' :: rest := by
  unfold ArgumentDeclarationList
  refine reads_loop (I := fun ListDeclaration left => ∃ bFirst todo,
    left = argumentTokens bFirst todo ++ mark ')' :: rest ∧ plainArguments ListDeclaration ++ todo = arguments ∧
      singleArguments ListDeclaration ∧ canonicalArguments todo ∧ left.length + 1 < n)
    (μ := fun _ left => left.length) ?_ ⟨true, arguments, rfl, rfl, trivial, canonical, enough⟩ (by omega)
  rintro ListDeclaration left ⟨bFirst, todo, rfl, done, single, canonical, enough⟩
  apply reads_beginRound fun _ _ => trivial
  apply reads_save
  apply reads_token
  cases todo with
  | nil =>
    rw [show argumentTokens bFirst [] ++ mark ')' :: rest = mark ')' :: rest from rfl, code_zero,
      if_neg (by decide), if_neg (by decide), if_pos (show (mark ')').iToken = chr ')' from rfl)]
    apply reads_pure
    rw [List.append_nil] at done
    exact ⟨done, single, rfl⟩
  | cons p l =>
    rw [argumentTokens] at enough ⊢
    cases bFirst with
    | false =>
      -- the comma in front of the argument
      rw [if_neg Bool.false_ne_true] at enough ⊢
      rw [List.append_assoc, List.singleton_append, code_zero, if_neg (by decide),
        if_pos (show (mark ',').iToken = chr ',' from rfl)]
      apply reads_step
      apply reads_pure
      simp only [List.length_append, List.length_cons, List.length_nil] at enough
      refine ⟨⟨true, p :: l, ?_, done, single, canonical, ?_⟩, ?_⟩
      · rw [argumentTokens]
        simp
      · simp only [List.drop_one, List.tail_cons, List.length_append, List.length_cons]
        omega
      · simp
    | true =>
      rw [if_pos rfl, List.nil_append, List.append_assoc] at enough ⊢
      have first := @code_type (argumentTokens false l ++ mark ')' :: rest) p canonical.1
      have other : ∀ c, (∀ word ∈ keywordTexts, wordCode word ≠ c) → SN_IDENTIFIER ≠ c →
          code (p.tokens ++ (argumentTokens false l ++ mark ')' :: rest)) 0 ≠ c := by
        intro c keywords identifier same
        rcases first with ⟨word, among, code⟩ | code
        · exact keywords word among (code.symm.trans same)
        · exact identifier (code.symm.trans same)
      rw [if_neg (other SN_ELLIPSIS (by decide) (by decide)), if_neg (other (chr ',') (by decide) (by decide)),
        if_neg (other (chr ')') (by decide) (by decide))]
      apply reads_bind
      unfold argument
      apply reads_bind
      refine (types p _ canonical.1 (stops_arguments l rest) enough).imp ?_
      rintro result left ⟨type, rfl, read, rfl⟩
      have used := List.length_pos_of_ne_nil (tokens_ne_nil p canonical.1)
      have lengths := @List.length_append _ p.tokens (argumentTokens false l ++ mark ')' :: rest)
      apply reads_pure
      apply reads_save
      rw [if_neg fun same => by rw [← same] at lengths; omega]
      apply reads_pure
      refine ⟨⟨false, l, rfl, ?_, singleArguments_append single (single_cast read.single), canonical.2, by omega⟩,
        by omega⟩
      rw [plainArguments_append, read.declaration, List.append_assoc]
      exact done

/-! ### Declarators -/

theorem plainOpers_append (opers opers' : List Oper) :
    plainOpers (opers ++ opers') = plainOpers opers ++ plainOpers opers' := by
  induction opers with
  | nil => rfl
  | cons oper opers ih => exact congrArg (oper.plain :: ·) ih

theorem singleOpers_append {opers opers' : List Oper} (single : singleOpers opers) (single' : singleOpers opers') :
    singleOpers (opers ++ opers') := by
  induction opers with
  | nil => exact single'
  | cons oper opers ih => exact ⟨single.1, ih single.2⟩

theorem takes_FunctionOrArrayList (types : TakesTypes n TypeName) (behind : AllBehind l)
    (canonical : canonicalOperators l) (stops : Stops rest)
    (enough : (l.flatMap Operator.behind ++ rest).length < n) :
    Yields (FunctionOrArrayList n TypeName) (l.flatMap Operator.behind ++ rest) fun ListOper left =>
      plainOpers ListOper = l ∧ singleOpers ListOper ∧ left = rest := by
  unfold FunctionOrArrayList
  refine reads_loop (I := fun ListOper left => ∃ todo, left = todo.flatMap Operator.behind ++ rest ∧
    plainOpers ListOper ++ todo = l ∧ singleOpers ListOper ∧ AllBehind todo ∧ canonicalOperators todo ∧
      left.length < n) (μ := fun _ left => left.length) ?_ ⟨l, rfl, rfl, trivial, behind, canonical, enough⟩ enough
  rintro ListOper left ⟨todo, rfl, done, single, behind, canonical, enough⟩
  apply reads_token
  cases todo with
  | nil =>
    have ends : code rest 0 ≠ chr '[' ∧ code rest 0 ≠ chr '(' := by
      rcases stops with code | code | code <;>
        · rw [code]
          decide
    rw [List.flatMap_nil, List.nil_append, if_neg ends.1, if_neg ends.2]
    apply reads_pure
    rw [List.append_nil] at done
    exact ⟨done, single, rfl⟩
  | cons operator todo =>
    have more : AllBehind todo := fun other among => behind other (List.mem_cons_of_mem _ among)
    rw [List.flatMap_cons, List.append_assoc] at enough ⊢
    match operator, behind operator List.mem_cons_self with
    | .array, _ =>
      rw [Operator.behind] at enough ⊢
      rw [List.cons_append, code_zero, if_pos (show (mark '[').iToken = chr '[' from rfl)]
      apply reads_step
      apply reads_pure
      simp only [List.cons_append, List.nil_append, List.length_cons] at enough
      refine ⟨⟨todo, rfl, ?_, singleOpers_append single ⟨trivial, trivial⟩, more, canonical.2, ?_⟩, ?_⟩
      · rw [plainOpers_append, List.append_assoc]
        exact done
      · simp only [List.cons_append, List.nil_append, List.drop_succ_cons, List.drop_zero]
        omega
      · simp only [List.cons_append, List.nil_append, List.drop_succ_cons, List.drop_zero, List.length_cons]
        omega
    | .function arguments, _ =>
      rw [Operator.behind] at enough ⊢
      simp only [List.cons_append, List.append_assoc, List.nil_append, List.length_cons] at enough
      rw [List.cons_append, code_zero, if_neg (show (mark '(').iToken ≠ chr '[' by decide),
        if_pos (show (mark '(').iToken = chr '(' from rfl)]
      apply reads_step
      rw [List.drop_one, List.tail_cons, List.append_assoc, List.singleton_append]
      apply reads_bind
      refine (takes_ArgumentDeclarationList types canonical.1 enough).imp ?_
      rintro ListDeclaration left ⟨plain, arguments, rfl⟩
      apply reads_step
      apply reads_pure
      simp only [List.length_append, List.length_cons] at enough
      refine ⟨⟨todo, rfl, ?_, singleOpers_append single ⟨arguments, trivial⟩, more, canonical.2, ?_⟩, ?_⟩
      · rw [plainOpers_append, List.append_assoc, ← done, ← plain]
        rfl
      · rw [List.drop_one, List.tail_cons, List.length_append]
        omega
      · simp only [List.drop_one, List.tail_cons, List.length_append, List.length_cons]
        omega

/-- The arguments of an innermost function are not taken for a declarator in parentheses. -/
theorem takes_lookahead {arguments : List Plain} (canonical : canonicalArguments arguments)
    (clear : ¬ ∃ p l, arguments = p :: l ∧ ClassArray p)
    (enough : (argumentTokens true arguments ++ mark ')' :: rest).length < n) :
    Yields (PtrOperator n) (argumentTokens true arguments ++ mark ')' :: rest) fun result left =>
      result = none ∧ code left 0 ≠ chr '[' := by
  -- a token with which no operator begins
  have other {ts : List Tok} (no : ¬ PointerCode (code ts 0)) (array : code ts 0 ≠ chr '[') :
      Yields (PtrOperator n) ts fun result left => result = none ∧ code left 0 ≠ chr '[' := by
    unfold PointerCode at no
    push Not at no
    unfold PtrOperator
    apply reads_save
    apply reads_token
    rw [if_neg no.1, if_neg no.2.1, if_neg fun name => name.elim no.2.2.1 no.2.2.2]
    apply reads_restore
    apply reads_pure
    exact ⟨rfl, array⟩
  cases arguments with
  | nil => exact other (show ¬ PointerCode (chr ')') by unfold PointerCode; decide) (show chr ')' ≠ chr '[' by decide)
  | cons p l =>
    rw [argumentTokens, if_pos rfl, List.nil_append, List.append_assoc] at enough ⊢
    have stops := stops_arguments l rest
    generalize argumentTokens false l ++ mark ')' :: rest = rest at enough stops ⊢
    obtain ⟨words, operators⟩ := p
    obtain ⟨base, operatorsCanonical, -, apart⟩ := canonical.1
    unfold Plain.tokens at enough ⊢
    rw [List.append_assoc] at enough ⊢
    rcases @code_words (operatorTokens [] false operators ++ rest) words base with ⟨word, among, code⟩ | ⟨Name, rfl, spelled⟩
    · have keywords : ∀ word ∈ keywordTexts, ¬ PointerCode (wordCode word) ∧ wordCode word ≠ chr '[' := by
        unfold PointerCode
        decide
      exact other (code ▸ (keywords word among).1) (code ▸ (keywords word among).2)
    · have single : code (operatorTokens [] false operators ++ rest) 0 ≠ SN_CLCL := fun colons =>
        apart ⟨⟨[], Name, rfl, ⟨0, false, false, rfl⟩, spelled⟩, code_operators_colons operatorsCanonical stops colons⟩
      rw [List.flatMap_singleton] at enough ⊢
      unfold PtrOperator
      apply reads_save
      apply reads_token
      rw [spelled.code, if_neg (by decide), if_neg (by decide), if_pos (.inl rfl)]
      apply reads_bind
      refine (takes_Spelled spelled (endsName_operators operatorsCanonical stops single) enough).imp ?_
      rintro result left ⟨rfl, rfl⟩
      apply reads_token
      rw [if_pos single]
      apply reads_pure
      exact ⟨rfl, fun array =>
        clear ⟨_, l, rfl, ⟨Name, rfl, spelled⟩, code_operators_array operatorsCanonical stops array⟩⟩

/-- Operators that are read for those of a plain type; there is no list only where there is none. -/
def ReadsOperators (l : List Operator) (result : Option (List Oper)) : Prop :=
  plainOpers (result.getD []) = l ∧ singleOpers (result.getD []) ∧ (l ≠ [] → result.isSome = true)

theorem Obscured.append (obscured : Obscured l) : Obscured (l ++ l') := by
  obtain ⟨p, arguments, head, array⟩ := obscured
  exact ⟨p, arguments, by rw [List.head?_append, head]; rfl, array⟩

theorem takes_parenthesized (types : TakesTypes n TypeName) {iTokenA_Save : List Tok}
    {declarator : M (Option (List Oper))} (some : l ≠ []) (behind : AllBehind l')
    (canonical : canonicalOperators l') (stops : Stops rest)
    (enough : (l'.flatMap Operator.behind ++ rest).length < n)
    (reads : Yields declarator ts fun result left =>
      ReadsOperators l result ∧ left = mark ')' :: (l'.flatMap Operator.behind ++ rest)) :
    Yields (parenthesized n TypeName iTokenA_Save declarator) ts fun result left =>
      ReadsOperators (l ++ l') result ∧ left = rest := by
  unfold parenthesized
  apply reads_bind
  refine reads.imp ?_
  rintro result left ⟨⟨plain, single, isSome⟩, rfl⟩
  obtain ⟨ListOper, rfl⟩ := Option.isSome_iff_exists.mp (isSome some)
  apply reads_token
  rw [code_zero, if_pos (show (mark ')').iToken = chr ')' from rfl)]
  apply reads_step
  apply reads_bind
  refine (takes_FunctionOrArrayList types behind canonical stops enough).imp ?_
  rintro ListOper2 left ⟨plain', single', rfl⟩
  apply reads_pure
  refine ⟨⟨?_, singleOpers_append single single', fun _ => rfl⟩, rfl⟩
  rw [Option.getD_some, plainOpers_append, plain']
  exact congrArg (· ++ l') plain

/-- A declarator with nothing in front of its operators. -/
theorem takes_onlyBehind (types : TakesTypes n TypeName) (behind : AllBehind l) (more : l ≠ [])
    (canonical : canonicalOperators l) (clear : ¬ Obscured l) (stops : Stops rest)
    (enough : (l.flatMap Operator.behind ++ rest).length < n) :
    Yields (AbstractDeclarator n TypeName (k + 1)) (l.flatMap Operator.behind ++ rest) fun result left =>
      ReadsOperators l result ∧ left = rest := by
  have done : Yields (FunctionOrArrayList n TypeName >>= fun ListOper => pure (some ListOper))
      (l.flatMap Operator.behind ++ rest) fun result left => ReadsOperators l result ∧ left = rest := by
    apply reads_bind
    refine (takes_FunctionOrArrayList types behind canonical stops enough).imp ?_
    rintro ListOper left ⟨plain, single, rfl⟩
    apply reads_pure
    exact ⟨⟨plain, single, fun _ => rfl⟩, rfl⟩
  unfold AbstractDeclarator
  apply reads_save
  apply reads_token
  cases l with
  | nil => exact absurd rfl more
  | cons operator l =>
    match operator, behind operator List.mem_cons_self with
    | .array, _ =>
      have first : code ((Operator.array :: l).flatMap Operator.behind ++ rest) 0 = chr '[' := rfl
      rw [if_neg (by rw [first]; decide), if_pos first]
      exact done
    | .function arguments, _ =>
      have first : code ((Operator.function arguments :: l).flatMap Operator.behind ++ rest) 0 = chr '(' := rfl
      rw [if_neg (by rw [first]; decide), if_neg (by rw [first]; decide), if_pos first]
      -- what is behind the parenthesis is looked at as an operator first
      apply reads_step
      have tokens : ((Operator.function arguments :: l).flatMap Operator.behind ++ rest).drop 1 =
          argumentTokens true arguments ++ mark ')' :: (l.flatMap Operator.behind ++ rest) := by
        simp [Operator.behind]
      have fewer := congrArg List.length tokens
      rw [List.length_drop] at fewer
      rw [tokens]
      apply reads_bind
      refine (takes_lookahead canonical.1 ?_ (by omega)).imp ?_
      · rintro ⟨p, others, rfl, array⟩
        exact clear ⟨p, others, rfl, array⟩
      · rintro result left ⟨rfl, noArray⟩
        apply reads_token
        rw [if_neg noArray]
        apply reads_restore
        exact done

theorem takes_AbstractDeclarator (types : TakesTypes n TypeName) (canonical : canonicalOperators l)
    (clear : ¬ Obscured l) (stops : Stops rest) (enough : (operatorTokens [] false l ++ rest).length < n)
    (more : (operatorTokens [] false l).length < k) :
    Yields (AbstractDeclarator n TypeName k) (operatorTokens [] false l ++ rest) fun result left =>
      ReadsOperators l result ∧ left = rest := by
  induction k generalizing l rest with
  | zero => exact absurd more (Nat.not_lt_zero _)
  | succ k ih =>
    cases shape l with
    | none =>
      unfold AbstractDeclarator
      apply reads_save
      apply reads_token
      have ends : ¬ PointerCode (code rest 0) ∧ code rest 0 ≠ chr '[' ∧ code rest 0 ≠ chr '(' := by
        unfold PointerCode
        rcases stops with code | code | code <;>
          · rw [code]
            decide
      rw [show operatorTokens [] false [] ++ rest = rest from rfl, if_neg ends.1, if_neg ends.2.1,
        if_neg ends.2.2]
      apply reads_pure
      exact ⟨⟨rfl, trivial, fun no => absurd rfl no⟩, rfl⟩
    | pointer l pointer =>
      have parts := canonicalOperators_append.mp canonical
      have first := @code_pointer false (operatorTokens [] false l ++ rest) _ pointer parts.2.1
      rw [operatorTokens_snoc pointer, tokens_pointer pointer] at enough ⊢
      rw [operatorTokens_snoc pointer] at more
      have shorter := @length_pointer false (operatorTokens [] false l ++ rest) _ pointer
      have fewer := @length_pointer false (operatorTokens [] false l) _ pointer
      unfold AbstractDeclarator
      apply reads_save
      apply reads_token
      rw [if_pos first]
      apply reads_bind
      refine (takes_pointer pointer parts.2.1 false (endsQualifiers_operators parts.1 stops) enough).imp ?_
      rintro result left ⟨oper, rfl, plain, single, rfl⟩
      apply reads_bind
      refine (ih parts.1 (fun obscured => clear obscured.append) stops (by omega) (by omega)).imp ?_
      rintro result left ⟨⟨inner, singles, -⟩, rfl⟩
      apply reads_pure
      refine ⟨⟨?_, singleOpers_append singles ⟨single, trivial⟩, fun _ => rfl⟩, rfl⟩
      rw [Option.getD_some, plainOpers_append, inner, ← plain]
      rfl
    | behind behind some =>
      rw [operatorTokens_behind behind, List.nil_append] at enough ⊢
      exact takes_onlyBehind types behind some canonical clear stops enough
    | parenthesized l pointer behind some =>
      rename_i operator l'
      rw [operatorTokens_append pointer, operatorTokens_enclose behind some, List.cons_append,
        List.append_assoc, List.cons_append] at enough ⊢
      rw [operatorTokens_append pointer, operatorTokens_enclose behind some] at more
      rw [show l ++ operator :: l' = (l ++ [operator]) ++ l' from List.append_cons l operator l'] at canonical clear ⊢
      have parts := canonicalOperators_append.mp canonical
      unfold AbstractDeclarator
      apply reads_save
      apply reads_token
      rw [code_zero, if_neg (by decide), if_neg (by decide), if_pos (show (mark '(').iToken = chr '(' from rfl)]
      have parts' := canonicalOperators_append.mp parts.1
      have close : Stops (mark ')' :: (l'.flatMap Operator.behind ++ rest)) := .inr (.inr rfl)
      simp only [List.length_cons, List.length_append] at enough more
      apply reads_step
      rw [List.drop_one, List.tail_cons, operatorTokens_snoc pointer, tokens_pointer pointer]
      apply reads_bind
      refine (takes_pointer pointer parts'.2.1 false (endsQualifiers_operators parts'.1 close) ?_).imp ?_
      · rw [← tokens_pointer pointer, ← operatorTokens_snoc pointer, List.length_append]
        simp only [List.length_cons, List.length_append]
        omega
      rintro result left ⟨oper, rfl, -, -, -⟩
      apply reads_restore
      apply reads_step
      rw [List.drop_one, List.tail_cons, ← tokens_pointer pointer, ← operatorTokens_snoc pointer]
      refine takes_parenthesized types (by simp) behind parts.2 stops ?_
        (ih parts.1 (fun obscured => clear obscured.append) close ?_ ?_)
      · rw [List.length_append]
        omega
      · simp only [List.length_append, List.length_cons]
        omega
      · omega

end SourceNavigator.Cpp.Types

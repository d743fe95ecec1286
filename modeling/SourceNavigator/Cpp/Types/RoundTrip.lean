import SourceNavigator.Cpp.Types.ReadDeclarators

/-!
Types that are read from their own text.

The words of a canonical type set the specifiers from which the same words are
written; its operators are read by the functions for declarators. The text of a
type with a canonical plain type is therefore read as a type with the same plain
type, which has the same text.
-/

namespace SourceNavigator.Cpp.Types

open Lib Lib.Program

variable {n : Nat} {rest : List Tok} {words todo : List Text} {name : Option Text} {s : Specifiers}
  {x : Specifiers × Bool}

/-! ### Words -/

/-- The specifiers behind a keyword. -/
def readWord (x : Specifiers × Bool) (word : Text) : Specifiers × Bool :=
  match specifier (wordCode word) x.1 with
  | some (type, explicit) => (type, x.2 && !explicit)
  | none => x

/-- What is read of the words is the same again when it is written. -/
structure Fits (s : Specifiers) (words : List Text) : Prop where
  type : typeWords s = words
  declaration : declarationWords { s with storage_class := 0, s_unknown := false } = words

/-- With the name that still comes the specifiers are `s`. -/
def Comes (s : Specifiers) (x : Specifiers × Bool) : Option Text → Prop
  | none => x = (s, false)
  | some Name => x.2 = true ∧ { x.1 with Name := some Name } = s

theorem specifier_keyword (type : Specifiers) {word : Text} (among : word ∈ keywordTexts) :
    ∃ type' explicit, specifier (wordCode word) type = some (type', explicit) := by
  have found : (specifier (wordCode word) type).isSome = true := by
    simp only [keywordTexts, List.mem_cons, List.not_mem_nil, or_false] at among
    rcases among with rfl | rfl | rfl | rfl | rfl | rfl | rfl | rfl | rfl | rfl | rfl | rfl | rfl <;> rfl
  obtain ⟨⟨type', explicit⟩, found⟩ := Option.isSome_iff_exists.mp found
  exact ⟨type', explicit, found⟩

/-- The modifiers, with one of the specifiers of a function at most. -/
theorem Modifiers.cases {modifiers : List Text} (modifies : Modifiers modifiers) :
    ∃ fct_specifier ∈ [0, SN_INLINE, SN_VIRTUAL], ∃ s_const s_volatile,
      modifiers = wordIf (fct_specifier == SN_INLINE) (ascii "inline") ++
        wordIf (fct_specifier == SN_VIRTUAL) (ascii "virtual") ++ cvWords s_const s_volatile := by
  obtain ⟨fct, c, v, rfl⟩ := modifies
  by_cases isInline : fct = SN_INLINE
  · subst isInline
    exact ⟨SN_INLINE, by simp, c, v, rfl⟩
  · by_cases isVirtual : fct = SN_VIRTUAL
    · subst isVirtual
      exact ⟨SN_VIRTUAL, by simp, c, v, rfl⟩
    · refine ⟨0, by simp, c, v, ?_⟩
      rw [beq_eq_false_iff_ne.mpr isInline, beq_eq_false_iff_ne.mpr isVirtual]
      rfl

/-- What the modifiers set. -/
theorem Modifiers.read {modifiers : List Text} (modifies : Modifiers modifiers) :
    ∃ fct_specifier s_const s_volatile,
      modifiers = wordIf (fct_specifier == SN_INLINE) (ascii "inline") ++
        wordIf (fct_specifier == SN_VIRTUAL) (ascii "virtual") ++ cvWords s_const s_volatile ∧
      modifiers.foldl readWord ({}, true) =
        ({ fct_specifier := fct_specifier, s_const := s_const, s_volatile := s_volatile }, true) := by
  obtain ⟨fct, among, c, v, rfl⟩ := modifies.cases
  refine ⟨fct, c, v, rfl, ?_⟩
  simp only [List.mem_cons, List.not_mem_nil, or_false] at among
  rcases among with rfl | rfl | rfl <;> cases c <;> cases v <;> rfl

/-- A keyword that sets one of the flags of the type itself. -/
theorem foldl_flag (word : Text) (set : Bool → Specifiers → Specifiers) {type : Specifiers} {b : Bool}
    (sets : specifier (wordCode word) type = some (set true type, true)) (same : set false type = type) (f : Bool) :
    (wordIf f word).foldl readWord (type, b) = (set f type, b && !f) := by
  cases f with
  | false => rw [show (wordIf false word).foldl readWord (type, b) = (type, b) from rfl, same, Bool.not_false, Bool.and_true]
  | true =>
    change readWord (type, b) word = _
    unfold readWord
    rw [sets]

/-- The specifiers that modifiers and the keywords of `s` set. -/
def basicSpecifiers (fct_specifier : Nat) (s_const s_volatile : Bool) (s : Specifiers) : Specifiers where
  fct_specifier := fct_specifier
  s_const := s_const
  s_volatile := s_volatile
  s_unsigned := s.s_unsigned
  s_short := s.s_short
  s_long := s.s_long
  s_char := s.s_char
  s_int := s.s_int
  s_float := s.s_float
  s_double := s.s_double
  s_bool := s.s_bool
  s_void := s.s_void

/-- What the keywords of a basic type set behind the modifiers. -/
theorem foldl_keywordWords (basic : Basic s = true) (fct_specifier : Nat) (s_const s_volatile : Bool) :
    (keywordWords s).foldl readWord
        ({ fct_specifier := fct_specifier, s_const := s_const, s_volatile := s_volatile }, true) =
      (basicSpecifiers fct_specifier s_const s_volatile s, false) := by
  simp only [keywordWords, List.foldl_append]
  rw [foldl_flag (ascii "unsigned") (fun v t => { t with s_unsigned := v })]
  dsimp only
  rw [foldl_flag (ascii "short") (fun v t => { t with s_short := v })]
  dsimp only
  rw [foldl_flag (ascii "long") (fun v t => { t with s_long := v })]
  dsimp only
  rw [foldl_flag (ascii "char") (fun v t => { t with s_char := v })]
  dsimp only
  rw [foldl_flag (ascii "int") (fun v t => { t with s_int := v })]
  dsimp only
  rw [foldl_flag (ascii "float") (fun v t => { t with s_float := v })]
  dsimp only
  rw [foldl_flag (ascii "double") (fun v t => { t with s_double := v })]
  dsimp only
  rw [foldl_flag (ascii "bool") (fun v t => { t with s_bool := v })]
  dsimp only
  rw [foldl_flag (ascii "void") (fun v t => { t with s_void := v })]
  dsimp only
  · simp only [Basic, Bool.and_eq_true, Bool.or_eq_true] at basic
    rcases basic.1 with ((((((h | h) | h) | h) | h) | h) | h) | h <;> simp [h, basicSpecifiers]
  all_goals rfl

/-- The keywords of a basic type are written one by one. -/
theorem typeKeywords_basic (basic : Basic s = true) :
    wordIf s.s_unsigned (ascii "unsigned") ++ typeKeywords s = keywordWords s ∧ (typeKeywords s).isEmpty = false := by
  simp only [Basic, Bool.and_eq_true, Bool.not_eq_true', Bool.and_eq_false_iff, Bool.or_eq_false_iff] at basic
  obtain ⟨some, ⟨short, long⟩ | ⟨⟨int, float⟩, double⟩⟩ := basic
  · refine ⟨by simp [typeKeywords, keywordWords, wordIf, short, long], ?_⟩
    simp only [short, long, Bool.or_eq_true, Bool.false_eq_true, false_or] at some
    rcases some with ((((h | h) | h) | h) | h) | h <;> simp [typeKeywords, wordIf, h]
  · refine ⟨by simp [typeKeywords, keywordWords, wordIf, int, float, double], ?_⟩
    simp only [int, float, double, Bool.or_eq_true, Bool.false_eq_true, or_false] at some
    rcases some with (((h | h) | h) | h) | h <;> simp [typeKeywords, wordIf, h, int, float, double]

/-- What is written of specifiers that were read. -/
theorem fits_of_read (s : Specifiers) (unknown : s.s_unknown = false) (ellipsis : s.s_ellipsis = false)
    (Class : s.Class = none) (Enum : s.Enum = none)
    (some : ((typeKeywords s).isEmpty && s.Name.isNone) = false) :
    Fits s (wordIf (s.fct_specifier == SN_INLINE) (ascii "inline") ++
      wordIf (s.fct_specifier == SN_VIRTUAL) (ascii "virtual") ++ cvWords s.s_const s.s_volatile ++
        (wordIf s.s_unsigned (ascii "unsigned") ++ typeKeywords s) ++ s.Name.toList) := by
  have last : (!(!(typeKeywords s).isEmpty || s.Name.isSome)) = false := by
    rw [Bool.and_eq_false_iff] at some
    rcases some with h | h
    · simp [h]
    · simp [Option.isNone_eq_false_iff.mp h]
  constructor
  · simp only [typeWords, unknown, ellipsis, Class, Enum, tagWords, Bool.false_or, Option.isSome_none, Bool.or_false, last]
    simp [wordIf]
  · unfold declarationWords
    rw [show typeKeywords { s with storage_class := 0, s_unknown := false } = typeKeywords s from rfl]
    simp only [ellipsis, Class, Enum, tagWords, Option.isSome_none, Bool.or_false, last]
    simp [wordIf, storageWords, SN_EXTERN, SN_STATIC, SN_AUTO, SN_REGISTER, SN_FRIEND, SN_TYPEDEF]

/-- The words of a canonical type are keywords and perhaps a name; what they set fits them. -/
theorem read_words (base : Keyworded words ∨ Named words) :
    ∃ s todo name, words = todo ++ Option.toList name ∧ (∀ word ∈ todo, word ∈ keywordTexts) ∧
      (∀ Name, name = some Name → Spelled Name ∧ Named words) ∧ Comes s (todo.foldl readWord ({}, true)) name ∧
        Fits s words := by
  rcases base with ⟨modifiers, s, rfl, modifies, basic⟩ | ⟨modifiers, Name, rfl, modifies, spelled⟩
  · obtain ⟨fct, c, v, same, read⟩ := modifies.read
    obtain ⟨keywords, some⟩ := typeKeywords_basic basic
    refine ⟨basicSpecifiers fct c v s, modifiers ++ keywordWords s, none, (List.append_nil _).symm, ?_, nofun, ?_, ?_⟩
    · intro word among
      cases List.mem_append.mp among with
      | inl among => exact mem_modifiers modifies among
      | inr among => exact mem_keywordWords among
    · rw [List.foldl_append, read]
      exact foldl_keywordWords basic fct c v
    · have more : ((typeKeywords s).isEmpty && true) = false := by rw [some, Bool.false_and]
      have fits := fits_of_read (basicSpecifiers fct c v s) rfl rfl rfl rfl more
      rw [show (basicSpecifiers fct c v s).Name.toList = [] from rfl, List.append_nil] at fits
      rw [same, ← keywords]
      exact fits
  · obtain ⟨fct, c, v, same, read⟩ := modifies.read
    refine ⟨{ fct_specifier := fct, s_const := c, s_volatile := v, Name := some Name }, modifiers, some Name, rfl,
      fun word among => mem_modifiers modifies among, ?_, ?_, ?_⟩
    · intro n same
      obtain rfl := Option.some.inj same
      exact ⟨spelled, modifiers, Name, rfl, modifies, spelled⟩
    · rw [read]
      exact ⟨rfl, rfl⟩
    · have fits := fits_of_read { fct_specifier := fct, s_const := c, s_volatile := v, Name := some Name }
        rfl rfl rfl rfl rfl
      rw [same]
      change Fits _ (_ ++ [] ++ [Name]) at fits
      rw [List.append_nil] at fits
      exact fits

/-! ### Types -/

/-- A token behind the words sets no specifier. -/
theorem specifier_behind (type : Specifiers) {c : Nat}
    (behind : PointerCode c ∨ c = chr '[' ∨ c = chr '(' ∨ c = 0 ∨ c = chr ',' ∨ c = chr ')') :
    specifier c type = none := by
  rcases behind with (rfl | rfl | rfl | rfl) | rfl | rfl | rfl | rfl | rfl <;> rfl

theorem readAs_declarator {s : Specifiers} {operators : List Operator} {ListOper : List Oper} (fits : Fits s words)
    (plain : plainOpers ListOper = operators) (single : singleOpers ListOper) :
    ReadAs ⟨s, some (.mk none ListOper)⟩ (.mk words operators) := by
  have same : plainOpers ListOper ++ [] = operators := (List.append_nil _).trans plain
  refine ⟨?_, ?_, single, trivial⟩
  · exact congrArg₂ Plain.mk fits.type same
  · exact congrArg₂ Plain.mk fits.declaration same

theorem readAs_words {s : Specifiers} (fits : Fits s words) : ReadAs ⟨s, none⟩ (.mk words []) :=
  ⟨congrArg (Plain.mk · []) fits.type, congrArg (Plain.mk · []) fits.declaration, trivial⟩

theorem takes_specifierList {TypeName : M (Option Type_t)} (types : TakesTypes n TypeName) {p : Plain} (canonical : p.Canonical)
    (stops : Stops rest) (enough : (p.tokens ++ rest).length < n) :
    Yields (specifierList n TypeName) (p.tokens ++ rest) fun result left =>
      ∃ type, result = some type ∧ ReadAs type p ∧ left = rest := by
  obtain ⟨words, operators⟩ := p
  obtain ⟨base, operatorsCanonical, clear, apart⟩ := canonical
  obtain ⟨s, todo, name, same, keywords, named, comes, fits⟩ := read_words base
  have tokens : (Plain.mk words operators).tokens ++ rest =
      todo.flatMap lex ++ (name.toList.flatMap lex ++ (operatorTokens [] false operators ++ rest)) := by
    rw [Plain.tokens, same, List.flatMap_append, List.append_assoc, List.append_assoc]
  rw [tokens] at enough ⊢
  unfold specifierList
  refine reads_loop (I := fun x left => ∃ todo name,
    left = todo.flatMap lex ++ ((Option.toList name).flatMap lex ++ (operatorTokens [] false operators ++ rest)) ∧
      (∀ word ∈ todo, word ∈ keywordTexts) ∧ (∀ Name, name = some Name → Spelled Name ∧ Named words) ∧
        Comes s (todo.foldl readWord x) name ∧ left.length < n) (μ := fun _ left => left.length) ?_
    ⟨todo, name, rfl, keywords, named, comes, enough⟩ enough
  rintro ⟨type, bFirst⟩ left ⟨todo, name, rfl, keywords, named, comes, enough⟩
  apply reads_token
  cases todo with
  | cons word todo =>
    have among := keywords word List.mem_cons_self
    obtain ⟨type', explicit, sets⟩ := specifier_keyword type among
    rw [List.flatMap_cons, lex_keyword among] at enough ⊢
    simp only [List.cons_append, List.length_cons] at enough ⊢
    simp only [code_zero, sets]
    apply reads_step
    apply reads_pure
    rw [List.foldl_cons, readWord, sets] at comes
    refine ⟨⟨todo, name, rfl, fun other among => keywords other (List.mem_cons_of_mem _ among), named, comes, ?_⟩, ?_⟩
    · rw [List.drop_one, List.tail_cons]
      omega
    · simp
  | nil =>
    rw [List.flatMap_nil, List.nil_append] at enough ⊢
    rw [List.foldl_nil] at comes
    cases name with
    | some Name =>
      obtain ⟨rfl, rfl⟩ : bFirst = true ∧ { type with Name := some Name } = s := comes
      obtain ⟨spelled, isNamed⟩ := named Name rfl
      have single : code (operatorTokens [] false operators ++ rest) 0 ≠ SN_CLCL := fun colons =>
        apart ⟨isNamed, code_operators_colons operatorsCanonical stops colons⟩
      rw [Option.toList_some, List.flatMap_singleton] at enough ⊢
      rw [spelled.code, show specifier SN_IDENTIFIER type = none from rfl, if_pos rfl, if_pos rfl]
      apply reads_bind
      refine (takes_Spelled spelled (endsName_operators operatorsCanonical stops single) enough).imp ?_
      rintro result left ⟨rfl, rfl⟩
      apply reads_pure
      have used := spelled.length_pos
      have lengths := @List.length_append _ (lex Name) (operatorTokens [] false operators ++ rest)
      exact ⟨⟨[], none, rfl, nofun, nofun, rfl, by omega⟩, by omega⟩
    | none =>
      obtain ⟨rfl, rfl⟩ : type = s ∧ bFirst = false := Prod.mk.inj comes
      rw [Option.toList_none, List.flatMap_nil, List.nil_append] at enough ⊢
      have fewer := @List.length_append _ (operatorTokens [] false operators) rest
      have declarator := @takes_AbstractDeclarator n n rest operators TypeName types operatorsCanonical clear stops
        enough (by omega)
      cases operators with
      | nil =>
        rw [show operatorTokens [] false [] ++ rest = rest from rfl]
        have ends : code rest 0 ≠ SN_IDENTIFIER ∧ ¬ (code rest 0 = chr '*' ∨ code rest 0 = chr '&' ∨
            code rest 0 = SN_CLCL ∨ code rest 0 = chr '[' ∨ code rest 0 = chr '(') := by
          rcases stops with code | code | code <;>
            · rw [code]
              decide
        rw [specifier_behind type (.inr (.inr (.inr stops)))]
        dsimp only
        rw [if_neg ends.1, if_neg ends.2, if_neg Bool.false_ne_true]
        apply reads_pure
        exact ⟨_, rfl, readAs_words fits, rfl⟩
      | cons operator l =>
        have first := @code_operators rest _ operatorsCanonical (List.cons_ne_nil operator l)
        -- the declarator is read wherever it begins
        have done : Yields (AbstractDeclarator n TypeName n)
            (operatorTokens [] false (operator :: l) ++ rest) fun result left => ∃ ListOper,
              result = some ListOper ∧ ReadAs ⟨type, some (.mk none ListOper)⟩ (.mk words (operator :: l)) ∧
                left = rest := by
          refine declarator.imp ?_
          rintro result left ⟨⟨plain, single, isSome⟩, rfl⟩
          obtain ⟨ListOper, rfl⟩ := Option.isSome_iff_exists.mp (isSome (List.cons_ne_nil operator l))
          exact ⟨ListOper, rfl, readAs_declarator fits plain single, rfl⟩
        have sets := specifier_behind type (first.imp_right fun other => other.imp_right .inl)
        rw [sets]
        dsimp only
        by_cases identifier : code (operatorTokens [] false (operator :: l) ++ rest) 0 = SN_IDENTIFIER
        · rw [if_pos identifier, if_neg Bool.false_ne_true]
          apply reads_bind
          refine done.imp ?_
          rintro result left ⟨ListOper, rfl, read, rfl⟩
          apply reads_pure
          exact ⟨_, rfl, read, rfl⟩
        · rw [if_neg identifier, if_pos (by
            simp only [PointerCode] at first
            tauto), if_neg Bool.false_ne_true]
          apply reads_bind
          refine done.imp ?_
          rintro result left ⟨ListOper, rfl, read, rfl⟩
          apply reads_pure
          exact ⟨_, rfl, read, rfl⟩

theorem takesTypes : TakesTypes n (TypeName n) := by
  induction n with
  | zero => exact fun p rest _ _ enough => absurd enough (by omega)
  | succ n ih =>
    intro p rest canonical stops enough
    have first := @code_type rest p canonical
    have other : code (p.tokens ++ rest) 0 ≠ chr '(' := by
      have keywords : ∀ word ∈ keywordTexts, wordCode word ≠ chr '(' := by decide
      rcases first with ⟨word, among, code⟩ | code
      · exact code ▸ keywords word among
      · rw [code]
        decide
    unfold TypeName
    apply reads_token
    rw [if_neg other]
    exact takes_specifierList ih canonical stops (by omega)

/-! ### The whole text -/

/-- The text of a type with a canonical plain type is read as a type with the same plain type. -/
theorem f_TypeFromString_text {p : Plain} (canonical : p.Canonical) :
    ∃ type s, f_TypeFromString p.text = .done (some type) s ∧ ReadAs type p := by
  have run := @takesTypes ((lex p.text).length + 3) p [] canonical (.inl code_nil) (by
    rw [List.append_nil, lex_text canonical]
    omega) [] trivial
  rw [List.append_nil, ← lex_text canonical] at run
  unfold Runs at run
  rw [show (TypeName ((lex p.text).length + 3)).run { left := lex p.text } = f_TypeFromString p.text from rfl] at run
  cases ends : f_TypeFromString p.text with
  | done result s =>
    rw [ends] at run
    obtain ⟨⟨type, rfl, read, -⟩, -⟩ := run
    exact ⟨type, s, rfl, read⟩
  | endless s =>
    rw [ends] at run
    exact run.elim
  | unfinished =>
    rw [ends] at run
    exact run.elim

/-- The text of the type is read as a type with the same operators, which has the same text. -/
def RoundTrips (type : Type_t) : Prop :=
  ∃ type' s, f_TypeFromString (f_TypeToString (some type) false) = .done (some type') s ∧
    f_TypeToString (some type') false = f_TypeToString (some type) false ∧
      type'.plain.operators = type.plain.operators

end SourceNavigator.Cpp.Types

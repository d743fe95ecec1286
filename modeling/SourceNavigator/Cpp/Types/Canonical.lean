import SourceNavigator.Cpp.Types.Tokens

/-!
Canonical types.

A plain type is canonical when its text can be read again: the words are
modifiers and then the keywords of a basic type or one name that is spelled the
way names are put together from their tokens; the names of member pointers are
spelled so too; the arguments are canonical; and no two parts run together. That
happens in two places, where a member pointer that begins with two colons stands
behind a name, and where the first argument of an innermost function is an array
of a class type, so that the parenthesis seems to belong to the declarator.

The tokens of the text of a canonical type are its words and names with the
punctuation of the operators.
-/

namespace SourceNavigator.Cpp.Types

/-! ### Words -/

/-- The text of template arguments up to the closing bracket, which has to be the last token. -/
def argumentsText (pname : Text) : Nat → List Tok → Option Text
  | 0, [] => some pname
  | 0, _ :: _ => none
  | _ + 1, [] => none
  | i + 1, t :: ts =>
    argumentsText (f_Strcat pname t.text)
      (if t.iToken = chr '>' then i else if t.iToken = chr '<' then i + 2 else i + 1) ts

/-- The text that the tokens of a name are put together to. -/
def spelling : List Tok → Option Text
  | [] => none
  | [t] => if t.iToken = SN_IDENTIFIER then some t.text else none
  | t :: lt :: ts =>
    if t.iToken = SN_IDENTIFIER ∧ lt.iToken = chr '<' then argumentsText (t.text ++ ascii "<") 1 ts
    else none

/-- A name, perhaps with template arguments, that is spelled like this. -/
def Spelled (Name : Text) : Prop := spelling (lex Name) = some Name

/-- The name in front of a member pointer. -/
def PointerName (Name : Text) : Prop := Spelled Name ∨ ∃ n, Name = ascii "::" ++ n ∧ Spelled n

def Modifiers (words : List Text) : Prop :=
  ∃ fct_specifier s_const s_volatile, words =
    wordIf (fct_specifier == SN_INLINE) (ascii "inline") ++
    wordIf (fct_specifier == SN_VIRTUAL) (ascii "virtual") ++ cvWords s_const s_volatile

/-- A word for each of the keywords. -/
def keywordWords (s : Specifiers) : List Text :=
  wordIf s.s_unsigned (ascii "unsigned") ++ wordIf s.s_short (ascii "short") ++
  wordIf s.s_long (ascii "long") ++ wordIf s.s_char (ascii "char") ++ wordIf s.s_int (ascii "int") ++
  wordIf s.s_float (ascii "float") ++ wordIf s.s_double (ascii "double") ++
  wordIf s.s_bool (ascii "bool") ++ wordIf s.s_void (ascii "void")

/-- A basic type: not a sign alone, and no size together with `int`, `float` or `double`. -/
def Basic (s : Specifiers) : Bool :=
  (s.s_short || s.s_long || s.s_char || s.s_int || s.s_float || s.s_double || s.s_bool || s.s_void) &&
    !((s.s_short || s.s_long) && (s.s_int || s.s_float || s.s_double))

/-- Modifiers and one name. -/
def Named (words : List Text) : Prop :=
  ∃ modifiers Name, words = modifiers ++ [Name] ∧ Modifiers modifiers ∧ Spelled Name

/-- Modifiers and the keywords of a basic type. -/
def Keyworded (words : List Text) : Prop :=
  ∃ modifiers s, words = modifiers ++ keywordWords s ∧ Modifiers modifiers ∧ Basic s = true

/-! ### Types -/

/-- A member pointer that begins with two colons stands behind the name. -/
def Merges : Plain → Prop
  | .mk words operators =>
    Named words ∧ ∃ s_const s_volatile Name, operators.getLast? = some (.pointer s_const s_volatile (some Name)) ∧
      Name.head? = some 58

/-- An array of a class type. -/
def ClassArray : Plain → Prop
  | .mk words operators =>
    (∃ Name, words = [Name] ∧ Spelled Name) ∧ operators.head? = some .array ∧
      ∀ operator ∈ operators, operator.isPointer = false

/-- The innermost operator is a function whose first argument is an array of a class type. -/
def Obscured (operators : List Operator) : Prop :=
  ∃ argument arguments, operators.head? = some (.function (argument :: arguments)) ∧ ClassArray argument

mutual

def Operator.Canonical : Operator → Prop
  | .pointer _ _ Name => ∀ n, Name = some n → PointerName n
  | .reference _ _ => True
  | .array => True
  | .function arguments => canonicalArguments arguments

def canonicalArguments : List Plain → Prop
  | [] => True
  | argument :: l => argument.Canonical ∧ canonicalArguments l

def Plain.Canonical : Plain → Prop
  | .mk words operators =>
    (Keyworded words ∨ Named words) ∧ canonicalOperators operators ∧ ¬ Obscured operators ∧
      ¬ Merges (.mk words operators)

def canonicalOperators : List Operator → Prop
  | [] => True
  | operator :: l => operator.Canonical ∧ canonicalOperators l

end

/-! ### Words and names among other texts -/

variable {Name n pname : Text} {words : List Text}

theorem prefix_strcat (a b : Text) : ∃ s, f_Strcat a b = a ++ s := by
  obtain ⟨blank, -, -, eq⟩ := f_Strcat_eq a b
  exact ⟨blank ++ b, eq⟩

theorem nul_strcat {a b : Text} (first : (0 : UInt8) ∉ a) (second : (0 : UInt8) ∉ b) :
    (0 : UInt8) ∉ f_Strcat a b := by
  obtain ⟨blank, cases, -, eq⟩ := f_Strcat_eq a b
  rw [eq]
  rcases cases with rfl | ⟨rfl, -⟩ <;> simp [first, second]

/-- Template arguments end with the closing bracket. -/
theorem argumentsText_ends {i : Nat} {ts : List Tok} (tokens : ∀ t ∈ ts, IsToken t) (nul : (0 : UInt8) ∉ pname)
    (text : argumentsText pname (i + 1) ts = some n) :
    (∃ s, n = pname ++ s) ∧ (0 : UInt8) ∉ n ∧ n.getLast? = some 62 := by
  induction ts generalizing pname i with
  | nil => cases text
  | cons t ts ih =>
    obtain ⟨isToken, more⟩ := List.forall_mem_cons.mp tokens
    obtain ⟨s, longer⟩ := prefix_strcat pname t.text
    have nul := nul_strcat nul isToken.nul
    -- with brackets still open the rest goes on
    have next {j : Nat} (text : argumentsText (f_Strcat pname t.text) (j + 1) ts = some n) :
        (∃ s, n = pname ++ s) ∧ (0 : UInt8) ∉ n ∧ n.getLast? = some 62 := by
      obtain ⟨⟨s', rfl⟩, rest⟩ := ih more nul text
      exact ⟨⟨s ++ s', by rw [longer, List.append_assoc]⟩, rest⟩
    unfold argumentsText at text
    by_cases close : t.iToken = chr '>'
    · rw [if_pos close] at text
      cases i with
      | succ i => exact next text
      | zero =>
        cases ts with
        | cons t' ts => cases text
        | nil =>
          obtain rfl := Option.some.inj text
          refine ⟨⟨s, longer⟩, nul, ?_⟩
          have bracket : t.text = [62] := by
            cases isToken with
            | word begins continues =>
              rename_i c s
              have code := wordCode_gt (c :: s)
              rw [show wordCode (c :: s) = chr '>' from close] at code
              exact absurd code (by decide)
            | colons => exact absurd close (by decide)
            | character more notWord =>
              rename_i c
              rw [show c = 62 from UInt8.toNat_inj.mp close]
          obtain ⟨blank, -, -, eq⟩ := f_Strcat_eq pname t.text
          rw [eq, bracket, ← List.append_assoc, List.getLast?_append_of_ne_nil _ (by simp)]
          rfl
    · rw [if_neg close] at text
      by_cases opened : t.iToken = chr '<'
      · rw [if_pos opened] at text
        exact next text
      · rw [if_neg opened] at text
        exact next text

theorem Spelled.cases (spelled : Spelled Name) :
    lex Name = [⟨SN_IDENTIFIER, Name⟩] ∨ ∃ word lt ts, lex Name = ⟨SN_IDENTIFIER, word⟩ :: lt :: ts ∧
      lt.iToken = chr '<' ∧ argumentsText (word ++ ascii "<") 1 ts = some Name := by
  unfold Spelled at spelled
  generalize lex Name = ts at spelled ⊢
  rcases ts with - | ⟨⟨code, word⟩, - | ⟨lt, ts⟩⟩
  · cases spelled
  · rw [spelling] at spelled
    split at spelled
    · rename_i identifier
      obtain rfl : code = SN_IDENTIFIER := identifier
      obtain rfl : word = Name := Option.some.inj spelled
      exact .inl rfl
    · cases spelled
  · rw [spelling] at spelled
    split at spelled
    · rename_i template
      obtain rfl : code = SN_IDENTIFIER := template.1
      exact .inr ⟨word, lt, ts, rfl, template.2, spelled⟩
    · cases spelled

/-- A word is a text for itself. -/
theorem chunk_word {c : UInt8} {s : Text} (begins : beginsWord c = true)
    (continues : ∀ d ∈ s, continuesWord d = true) (nul : (0 : UInt8) ∉ c :: s) : Chunk (c :: s) := by
  refine ⟨nul, ?_, ?_⟩
  · intro angle
    obtain rfl : c = 62 := Option.some.inj angle
    exact absurd begins (by decide)
  · intro colon
    cases List.mem_cons.mp (List.mem_of_getLast? colon) with
    | inl same => exact absurd (same ▸ begins) (by decide)
    | inr among => exact absurd (continues 58 among) (by decide)

/-- A name begins with a letter and ends with a word or with a closing bracket. -/
theorem Spelled.shape (spelled : Spelled Name) :
    ∃ c s, Name = c :: s ∧ beginsWord c = true ∧ Chunk Name := by
  have tokens := lex_tokens Name
  rcases spelled.cases with single | ⟨word, lt, ts, template, -, text⟩
  · rw [single] at tokens
    have isToken := tokens _ List.mem_cons_self
    obtain ⟨c, s, same, begins, continues⟩ := isToken.identifier rfl
    obtain rfl : Name = c :: s := same
    exact ⟨c, s, rfl, begins, chunk_word begins continues isToken.nul⟩
  · rw [template] at tokens
    have isToken := tokens _ List.mem_cons_self
    obtain ⟨c, s, same, begins, -⟩ := isToken.identifier rfl
    obtain rfl : word = c :: s := same
    have nul : (0 : UInt8) ∉ c :: s ++ ascii "<" := by
      intro among
      cases List.mem_append.mp among with
      | inl among => exact isToken.nul among
      | inr among => exact absurd among (by decide)
    obtain ⟨⟨s', rfl⟩, nul, last⟩ := argumentsText_ends
      (fun t among => tokens t (List.mem_cons_of_mem _ (List.mem_cons_of_mem _ among))) nul text
    refine ⟨c, s ++ ascii "<" ++ s', by simp, begins, nul, ?_, ?_⟩
    · intro angle
      obtain rfl : c = 62 := Option.some.inj angle
      exact absurd begins (by decide)
    · rw [last]
      decide

theorem Spelled.chunk (spelled : Spelled Name) : Chunk Name := by
  obtain ⟨-, -, -, -, chunk⟩ := spelled.shape
  exact chunk

theorem PointerName.chunk (name : PointerName Name) : Chunk Name := by
  rcases name with spelled | ⟨n, rfl, spelled⟩
  · exact spelled.chunk
  · obtain ⟨c, s, rfl, -, chunk⟩ := spelled.shape
    refine ⟨?_, fun angle => absurd (Option.some.inj angle) (by decide), ?_⟩
    · intro among
      cases List.mem_append.mp among with
      | inl among => exact absurd among (by decide)
      | inr among => exact chunk.nul among
    · rw [List.getLast?_append_of_ne_nil _ (List.cons_ne_nil c s)]
      exact chunk.last

theorem mem_wordIf {b : Bool} {word w : Text} (among : w ∈ wordIf b word) : w = word := by
  unfold wordIf at among
  split at among
  · exact List.mem_singleton.mp among
  · exact absurd among List.not_mem_nil

/-- The keywords that are written. -/
def keywordTexts : List Text :=
  [ascii "inline", ascii "virtual", ascii "const", ascii "volatile", ascii "unsigned", ascii "short",
    ascii "long", ascii "char", ascii "int", ascii "float", ascii "double", ascii "bool", ascii "void"]

theorem chunk_keyword : ∀ word ∈ keywordTexts, Chunk word := by
  have all : ∀ word ∈ keywordTexts, (0 : UInt8) ∉ word ∧ word.head? ≠ some 62 ∧ word.getLast? ≠ some 58 := by
    decide
  exact fun word among => ⟨(all word among).1, (all word among).2.1, (all word among).2.2⟩

theorem mem_cvWords {s_const s_volatile : Bool} {word : Text} (among : word ∈ cvWords s_const s_volatile) :
    word = ascii "const" ∨ word = ascii "volatile" := by
  cases List.mem_append.mp among with
  | inl among => exact .inl (mem_wordIf among)
  | inr among => exact .inr (mem_wordIf among)

theorem mem_modifiers {modifiers : List Text} (words : Modifiers modifiers) {word : Text}
    (among : word ∈ modifiers) : word ∈ keywordTexts := by
  obtain ⟨fct, c, v, rfl⟩ := words
  simp only [List.mem_append] at among
  rcases among with (among | among) | among
  · rw [mem_wordIf among]
    decide
  · rw [mem_wordIf among]
    decide
  · rcases mem_cvWords among with rfl | rfl
    · decide
    · decide

theorem mem_keywordWords {s : Specifiers} {word : Text} (among : word ∈ keywordWords s) :
    word ∈ keywordTexts := by
  simp only [keywordWords, List.mem_append] at among
  rcases among with (((((((among | among) | among) | among) | among) | among) | among) | among) | among <;>
    · rw [mem_wordIf among]
      decide

/-- The words of a canonical type. -/
theorem chunk_words (base : Keyworded words ∨ Named words) : ∀ word ∈ words, Chunk word := by
  intro word among
  rcases base with ⟨modifiers, s, rfl, modifies, -⟩ | ⟨modifiers, Name, rfl, modifies, spelled⟩
  · cases List.mem_append.mp among with
    | inl among => exact chunk_keyword word (mem_modifiers modifies among)
    | inr among => exact chunk_keyword word (mem_keywordWords among)
  · cases List.mem_append.mp among with
    | inl among => exact chunk_keyword word (mem_modifiers modifies among)
    | inr among => exact List.mem_singleton.mp among ▸ spelled.chunk

/-! ### The tokens of a plain type -/

/-- A token of one character. -/
def mark (c : Char) : Tok := ⟨chr c, [c.toUInt8]⟩

def colons : Tok := ⟨SN_CLCL, ascii "::"⟩

def starTokens : Option Text → List Tok
  | some Name => lex Name ++ [colons, mark '*']
  | none => [mark '*']

def encloseTokens (ts : List Tok) (pointer : Bool) : List Tok :=
  if pointer then mark '(' :: (ts ++ [mark ')']) else ts

mutual

def Operator.tokens (ts : List Tok) (pointer : Bool) : Operator → List Tok
  | .pointer s_const s_volatile Name => starTokens Name ++ ((cvWords s_const s_volatile).flatMap lex ++ ts)
  | .reference s_const s_volatile => mark '&' :: ((cvWords s_const s_volatile).flatMap lex ++ ts)
  | .array => encloseTokens ts pointer ++ [mark '[', mark ']']
  | .function arguments =>
    encloseTokens ts pointer ++ mark '(' :: (argumentTokens true arguments ++ [mark ')'])

def argumentTokens (bFirst : Bool) : List Plain → List Tok
  | [] => []
  | argument :: l => (if bFirst then [] else [mark ',']) ++ (argument.tokens ++ argumentTokens false l)

def Plain.tokens : Plain → List Tok
  | .mk words operators => words.flatMap lex ++ operatorTokens [] false operators

def operatorTokens (ts : List Tok) (pointer : Bool) : List Operator → List Tok
  | [] => ts
  | operator :: l => operatorTokens (operator.tokens ts pointer) operator.isPointer l

end

section Texts

variable {pc : Text} {ts : List Tok}

/-- A text with its tokens. -/
def Lexes (pc : Text) (ts : List Tok) : Prop := Chunk pc ∧ lex pc = ts

theorem lexes_nil : Lexes [] [] := ⟨chunk_nil, rfl⟩

theorem Lexes.strcat {pc' : Text} {ts' : List Tok} (first : Lexes pc ts) (second : Lexes pc' ts') :
    Lexes (f_Strcat pc pc') (ts ++ ts') :=
  ⟨first.1.strcat second.1, by rw [lex_strcat first.1 second.1, first.2, second.2]⟩

theorem lexes_mark {c : Char} (among : c ∈ ['*', '&', '(', ')', ',']) : Lexes (ascii c.toString) [mark c] := by
  have all : ∀ c ∈ ['*', '&', '(', ')', ','], (0 : UInt8) ∉ ascii c.toString ∧
      (ascii c.toString).head? ≠ some 62 ∧ (ascii c.toString).getLast? ≠ some 58 ∧
      lex (ascii c.toString) = [mark c] := by
    simp only [List.forall_mem_cons]
    exact ⟨by decide, by decide, by decide, by decide, by decide, List.forall_mem_nil _⟩
  obtain ⟨nul, head, last, tokens⟩ := all c among
  exact ⟨⟨nul, head, last⟩, tokens⟩

theorem lexes_brackets : Lexes (ascii "[]") [mark '[', mark ']'] :=
  ⟨⟨by decide, by decide, by decide⟩, by decide⟩

theorem Lexes.cv (first : Lexes pc ts) (s_const s_volatile : Bool) :
    Lexes (f_Strcats pc (cvWords s_const s_volatile)) (ts ++ (cvWords s_const s_volatile).flatMap lex) := by
  obtain ⟨chunk, tokens⟩ := @chunk_strcats pc (cvWords s_const s_volatile) first.1 (by
    intro word among
    rcases mem_cvWords among with rfl | rfl
    · exact chunk_keyword _ (by decide)
    · exact chunk_keyword _ (by decide))
  exact ⟨chunk, by rw [tokens, first.2]⟩

theorem lexes_star {Name : Option Text} (named : ∀ n, Name = some n → PointerName n) :
    Lexes (starText Name) (starTokens Name) := by
  cases Name with
  | none => exact @lexes_mark '*' (by decide)
  | some n =>
    have chunk := (named n rfl).chunk
    unfold starText starTokens
    dsimp only
    have begin : f_Strcat [] n = n := by
      cases n with
      | nil => rfl
      | cons c s => rfl
    rw [begin]
    have double : lex (f_Strcat n (ascii "::")) = lex n ++ [colons] :=
      (lex_strcat_of_colon chunk.nul (by decide) fun colons => chunk.last colons.1).trans rfl
    have nul := @nul_strcat n (ascii "::") chunk.nul (by decide)
    have head : (f_Strcat n (ascii "::")).head? ≠ some 62 := by
      cases n with
      | nil => decide
      | cons c s =>
        obtain ⟨s', eq⟩ := prefix_strcat (c :: s) (ascii "::")
        rw [eq]
        exact chunk.head
    have star : Chunk (ascii "*") := ⟨by decide, by decide, by decide⟩
    refine ⟨Chunk.strcat_of_last nul head star (fun none => absurd none (by decide)), ?_⟩
    rw [lex_strcat_of_colon nul (by decide) (fun colons => absurd colons.2 (by decide)), double,
      List.append_assoc]
    rfl

theorem Lexes.enclose (inner : Lexes pc ts) (pointer : Bool) :
    Lexes (enclose pc pointer) (encloseTokens ts pointer) := by
  cases pointer with
  | false => exact inner
  | true => exact (((@lexes_mark '(' (by decide)).strcat inner).strcat (@lexes_mark ')' (by decide)))

end Texts

mutual

theorem lexes_operator {pc : Text} {ts : List Tok} (inner : Lexes pc ts) (pointer : Bool) :
    (operator : Operator) → operator.Canonical →
      Lexes (operator.strcat pc pointer) (operator.tokens ts pointer)
  | .pointer s_const s_volatile Name, canonical => by
    have text := ((lexes_star canonical).cv s_const s_volatile).strcat inner
    rw [List.append_assoc] at text
    exact text
  | .reference s_const s_volatile, _ =>
    ((@lexes_mark '&' (by decide)).cv s_const s_volatile).strcat inner
  | .array, _ => (inner.enclose pointer).strcat lexes_brackets
  | .function arguments, canonical => by
    have text := (lexes_arguments ((inner.enclose pointer).strcat (@lexes_mark '(' (by decide))) true
      arguments canonical).strcat (@lexes_mark ')' (by decide))
    rw [List.append_assoc, List.append_assoc] at text
    exact text

theorem lexes_arguments {pc : Text} {ts : List Tok} (before : Lexes pc ts) (bFirst : Bool) :
    (l : List Plain) → canonicalArguments l →
      Lexes (Plain.strcats pc bFirst l) (ts ++ argumentTokens bFirst l)
  | [], _ => by
    unfold Plain.strcats argumentTokens
    rw [List.append_nil]
    exact before
  | argument :: l, canonical => by
    unfold Plain.strcats argumentTokens
    have comma : Lexes (if bFirst then pc else f_Strcat pc (ascii ",")) (ts ++ if bFirst then [] else [mark ',']) := by
      cases bFirst with
      | true => simpa using before
      | false => exact before.strcat (@lexes_mark ',' (by decide))
    have text := lexes_arguments (lexes_plain comma argument canonical.1) false l canonical.2
    rw [List.append_assoc, List.append_assoc] at text
    exact text

theorem lexes_plain {pc : Text} {ts : List Tok} (before : Lexes pc ts) :
    (p : Plain) → p.Canonical → Lexes (p.strcat pc) (ts ++ p.tokens)
  | .mk words operators, canonical => by
    obtain ⟨chunk, tokens⟩ := chunk_strcats before.1 (chunk_words canonical.1)
    have base : Lexes (f_Strcats pc words) (ts ++ words.flatMap lex) := ⟨chunk, by rw [tokens, before.2]⟩
    have text := base.strcat (lexes_operators lexes_nil false operators canonical.2.1)
    rw [List.append_assoc] at text
    exact text

theorem lexes_operators {pc : Text} {ts : List Tok} (inner : Lexes pc ts) (pointer : Bool) :
    (l : List Operator) → canonicalOperators l →
      Lexes (Operator.strcats pc pointer l) (operatorTokens ts pointer l)
  | [], _ => inner
  | operator :: l, canonical =>
    lexes_operators (lexes_operator inner pointer operator canonical.1) operator.isPointer l canonical.2

end

/-- The tokens of the text of a canonical type. -/
theorem lex_text {p : Plain} (canonical : p.Canonical) : lex p.text = p.tokens :=
  (lexes_plain lexes_nil p canonical).2

end SourceNavigator.Cpp.Types

import SourceNavigator.Parsers.Python.Blocks

/-!
The scanner on the text of a Python source.

A source is given by its logical lines, each with the text it is written as. A
logical line may go on over several physical ones, inside brackets, behind a
backslash and in strings with three quotes.

* `scan_line` says what the scanner does with a line that is `Readable`.
* `functions_right_iff`: they are attributed as Python's rule has it exactly if
  each of them is noticed.
-/

namespace SourceNavigator.Parsers.Python

/-! ### Sources -/

/-- The text of a statement: plain text with strings in three quotes in it. -/
inductive Content
  | plain (t : Text)
  | string (t : Text) (term : UInt8) (body : Text) (more : Content)

def Content.text : Content → Text
  | .plain t => t
  | .string t term body more => t ++ ([term, term, term] ++ (body ++ ([term, term, term] ++ more.text)))

/-- What a logical line starts with. A definition has what stands between the keyword and the name
and between the name and the bracket or colon. -/
inductive Kind
  | empty
  | statement
  | block
  | def_ (gap name gap' : Text) (below : Bool)
  | class_ (gap name bases : Text) (below : Bool)

/-- A logical line. -/
structure Line where
  indent : Text
  kind : Kind
  content : Content

/-- The start of a definition, up to the bracket or colon. -/
def Kind.text : Kind → Text
  | .def_ gap name gap' _ => ascii "def" ++ (gap ++ (name ++ (gap' ++ [40])))
  | .class_ gap name bases _ => ascii "class" ++ (gap ++ (name ++ (bases ++ [58])))
  | _ => []

def Kind.head : Kind → Head
  | .empty => .empty
  | .statement => .statement
  | .block => .block
  | .def_ _ name _ below => .def_ name below
  | .class_ _ name _ below => .class_ name below

def Line.text (l : Line) : Text := l.indent ++ (l.kind.text ++ l.content.text)

def Line.logical (l : Line) : Logical := ⟨calc_indent l.indent, l.kind.head⟩

/-- The text of a source. The last line has no newline behind it unless an empty one follows. -/
def sourceText : List Line → Text
  | [] => []
  | [l] => l.text
  | l :: next :: ls => l.text ++ NEWLINE :: sourceText (next :: ls)

/-! ### What can be read -/

/-- In a plain text no three quotes begin, and no part of it that starts a line looks like a
definition. -/
def Quiet (bol : Bool) : Text → Text → Prop
  | [], _ => True
  | c :: t, after =>
    tripleQuote (c :: (t ++ after)) = none ∧
      (bol = true → matchDef (c :: (t ++ after)) = none ∧ matchClass (c :: (t ++ after)) = none) ∧
      Quiet (c == NEWLINE) t after

/-- The plain texts are quiet, and each string ends for the scanner where it ends. -/
def Silent (count : Int) (bol : Bool) : Content → Text → Prop
  | .plain t, after => Quiet bol t after
  | .string t term body more, after =>
    (term = 34 ∨ term = 39) ∧
      Quiet bol t ([term, term, term] ++ (body ++ ([term, term, term] ++ (more.text ++ after)))) ∧
      parse_triple term count false (body ++ ([term, term, term] ++ (more.text ++ after))) =
        body.length + 3 ∧
      Silent count false more after

instance decidableQuiet : (bol : Bool) → (t after : Text) → Decidable (Quiet bol t after)
  | _, [], _ => isTrue trivial
  | bol, c :: t, after =>
    have := decidableQuiet (c == NEWLINE) t after
    inferInstanceAs (Decidable (tripleQuote (c :: (t ++ after)) = none ∧
      (bol = true → matchDef (c :: (t ++ after)) = none ∧ matchClass (c :: (t ++ after)) = none) ∧
      Quiet (c == NEWLINE) t after))

instance decidableSilent (count : Int) :
    (bol : Bool) → (content : Content) → (after : Text) → Decidable (Silent count bol content after)
  | bol, .plain t, after => inferInstanceAs (Decidable (Quiet bol t after))
  | bol, .string t term body more, after =>
    have := decidableSilent count false more after
    inferInstanceAs (Decidable ((term = 34 ∨ term = 39) ∧
      Quiet bol t ([term, term, term] ++ (body ++ ([term, term, term] ++ (more.text ++ after)))) ∧
      parse_triple term count false (body ++ ([term, term, term] ++ (more.text ++ after))) =
        body.length + 3 ∧
      Silent count false more after))

/-- A name. -/
structure Named (name : Text) : Prop where
  start : name.head?.any nameStart = true
  chars : ∀ c ∈ name, nameChar c = true

/-- The bases of a class: none, or a list in brackets without a closing one in it. -/
def Bases (bases : Text) : Prop :=
  (∀ c ∈ bases, blankTab c = true) ∨
    ∃ a inner b, bases = a ++ 40 :: (inner ++ 41 :: b) ∧ (∀ c ∈ a, blankTab c = true) ∧
      (∀ c ∈ b, blankTab c = true) ∧ 41 ∉ inner

/-- The scanner takes the start of the line for what it is: a definition has at most one blank in
front of its bracket, and no other line looks like one. -/
def Kind.Readable (indent behind : Text) : Kind → Prop
  | .def_ gap name gap' _ =>
    (gap ≠ [] ∧ ∀ c ∈ gap, blankTab c = true) ∧ Named name ∧
      (gap'.length ≤ 1 ∧ ∀ c ∈ gap', blankTab c = true)
  | .class_ gap name bases _ =>
    (gap ≠ [] ∧ ∀ c ∈ gap, blankTab c = true) ∧ Named name ∧ Bases bases
  | _ => Quiet true indent behind

/-- The rest of the line stands at the start of a physical line. -/
def Line.atStart (l : Line) : Bool := l.indent.isEmpty && l.kind.text.isEmpty

/-- What the scanner makes of a line is what it is. -/
structure Line.Readable (count : Int) (after : Text) (l : Line) : Prop where
  indent : ∀ c ∈ l.indent, blankTab c = true
  kind : l.kind.Readable l.indent (l.content.text ++ after)
  content : Silent count l.atStart l.content after

/-- What follows a line in a source. -/
def following : List Line → Text
  | [] => []
  | l :: ls => NEWLINE :: sourceText (l :: ls)

def ReadableSource (count : Int) : List Line → Prop
  | [] => True
  | l :: ls => l.Readable count (following ls) ∧ ReadableSource count ls

/-! ### The rules on a text -/

section Rules

variable {a b name : Text} {c : UInt8}

theorem takeWhile_stop {p : UInt8 → Bool} (inside : ∀ x ∈ a, p x = true)
    (stop : b.head?.any p = false) : (a ++ b).takeWhile p = a ∧ (a ++ b).dropWhile p = b := by
  have none_more : b.takeWhile p = [] ∧ b.dropWhile p = b := by
    cases b with
    | nil => exact ⟨rfl, rfl⟩
    | cons x b =>
      have out : ¬ p x = true := by
        have stop : p x = false := stop
        simp [stop]
      exact ⟨List.takeWhile_cons_of_neg out, List.dropWhile_cons_of_neg out⟩
  rw [List.takeWhile_append_of_pos inside, List.dropWhile_append_of_pos inside, none_more.1,
    none_more.2, List.append_nil]
  exact ⟨rfl, rfl⟩

theorem nameChar_blankTab (blank : blankTab c = true) : nameChar c = false := by
  rw [blankTab, Bool.or_eq_true, beq_iff_eq, beq_iff_eq] at blank
  rcases blank with rfl | rfl <;> rfl

theorem blankTab_nameChar (char : nameChar c = true) : blankTab c = false := by
  rw [Bool.eq_false_iff]
  intro blank
  rw [nameChar_blankTab blank] at char
  cases char

theorem nameChar_nameStart (first : nameStart c = true) : nameChar c = true := by
  rw [nameChar, first, Bool.true_or]

/-- What is not empty and whose characters meet a test starts with a character that does. -/
theorem head_any {p : UInt8 → Bool} (some_char : a ≠ []) (all : ∀ x ∈ a, p x = true) :
    (a ++ b).head?.any p = true := by
  cases a with
  | nil => exact absurd rfl some_char
  | cons x a => exact all x List.mem_cons_self

theorem head_blank (named : Named name) : (name ++ b).head?.any blankTab = false := by
  have first := named.start
  cases name with
  | nil => cases first
  | cons x name => exact blankTab_nameChar (nameChar_nameStart first)

theorem word_append (w text : Text) : word w (w ++ text) = some text := by
  rw [word, if_pos (by simp), List.drop_left]

/-- A name between blanks. -/
theorem blanksAndName_append (some_blank : a ≠ []) (blank : ∀ x ∈ a, blankTab x = true)
    (named : Named name) (stop : b.head?.any nameChar = false) :
    blanksAndName (a ++ (name ++ b)) = some (name, b.dropWhile blankTab) := by
  have outside : (name ++ b).head?.any blankTab = false := head_blank named
  have first : (name ++ b).head?.any nameStart = true := by
    have first := named.start
    cases name with
    | nil => cases first
    | cons x name => exact first
  obtain ⟨front, back⟩ := takeWhile_stop named.chars stop
  have blanks : (a ++ (name ++ b)).dropWhile blankTab = name ++ b := (takeWhile_stop blank outside).2
  rw [blanksAndName, blanks, head_any some_blank blank, first]
  simp only [Bool.and_self, if_true, front, back]

/-- Blanks, the start of a definition and what is behind it. -/
theorem dropWhile_indent {word : Text} (blank : ∀ x ∈ a, blankTab x = true)
    (stop : (word ++ b).head?.any blankTab = false) :
    (a ++ (word ++ b)).dropWhile blankTab = word ++ b :=
  (takeWhile_stop blank stop).2

theorem length_behind {x y : Text} (c : UInt8) : (x ++ c :: y).length - (c :: y).length + 1 =
    (x ++ [c]).length := by
  simp only [List.length_append, List.length_cons, List.length_nil]
  omega

theorem matchDef_header {gap gap' : Text} (rest : Text) (indented : ∀ x ∈ a, blankTab x = true)
    (some_gap : gap ≠ []) (blank : ∀ x ∈ gap, blankTab x = true) (named : Named name)
    (blank' : ∀ x ∈ gap', blankTab x = true) :
    matchDef (a ++ (ascii "def" ++ (gap ++ (name ++ (gap' ++ 40 :: rest))))) =
      some (a ++ (ascii "def" ++ (gap ++ (name ++ (gap' ++ [40]))))).length := by
  have bracket : (40 :: rest).head?.any blankTab = false := rfl
  have stop : (gap' ++ 40 :: rest).head?.any nameChar = false := by
    cases gap' with
    | nil => rfl
    | cons x gap' => exact nameChar_blankTab (blank' x List.mem_cons_self)
  have count := length_behind (x := a ++ (ascii "def" ++ (gap ++ (name ++ gap')))) (y := rest) 40
  simp only [List.append_assoc] at count
  rw [matchDef, dropWhile_indent indented rfl, word_append]
  simp only [Option.bind_eq_bind, Option.bind_some,
    blanksAndName_append some_gap blank named stop, (takeWhile_stop blank' bracket).2,
    List.head?_cons, if_true]
  rw [count]

theorem head_bases {bases : Text} (rest : Text) (shape : Bases bases) :
    (bases ++ 58 :: rest).head?.any nameChar = false := by
  rcases shape with blank | ⟨a, inner, b, rfl, blank, -, -⟩
  · cases bases with
    | nil => rfl
    | cons x bases => exact nameChar_blankTab (blank x List.mem_cons_self)
  · cases a with
    | nil => rfl
    | cons x a => exact nameChar_blankTab (blank x List.mem_cons_self)

theorem matchClass_header {gap bases : Text} (rest : Text) (indented : ∀ x ∈ a, blankTab x = true)
    (some_gap : gap ≠ []) (blank : ∀ x ∈ gap, blankTab x = true) (named : Named name)
    (shape : Bases bases) :
    matchClass (a ++ (ascii "class" ++ (gap ++ (name ++ (bases ++ 58 :: rest))))) =
      some (a ++ (ascii "class" ++ (gap ++ (name ++ (bases ++ [58]))))).length := by
  have colon : (58 :: rest).head?.any blankTab = false := rfl
  have count := length_behind (x := a ++ (ascii "class" ++ (gap ++ (name ++ bases)))) (y := rest) 58
  simp only [List.append_assoc] at count
  rw [matchClass, dropWhile_indent indented rfl, word_append]
  simp only [Option.bind_eq_bind, Option.bind_some,
    blanksAndName_append some_gap blank named (head_bases rest shape)]
  rcases shape with flat | ⟨front, inner, back, rfl, blank_front, blank_back, open_⟩
  · rw [(takeWhile_stop flat colon).2, if_neg (by simp : ¬ (58 :: rest).head? = some 40)]
    simp only [List.dropWhile_cons_of_neg (by decide : ¬ blankTab 58 = true),
      List.head?_cons, if_true]
    rw [count]
  · have whole : front ++ 40 :: (inner ++ 41 :: back) ++ 58 :: rest =
        front ++ 40 :: (inner ++ 41 :: (back ++ 58 :: rest)) := by
      simp only [List.append_assoc, List.cons_append]
    have inside : ∀ x ∈ 40 :: inner, (x != 41) = true := by
      intro x mem
      rcases List.mem_cons.mp mem with rfl | mem
      · rfl
      · rw [bne_iff_ne]
        rintro rfl
        exact open_ mem
    have bracket : (40 :: (inner ++ 41 :: (back ++ 58 :: rest))).dropWhile (· != 41) =
        [41] ++ (back ++ 58 :: rest) := (takeWhile_stop inside rfl).2
    have opening : (40 :: (inner ++ 41 :: (back ++ 58 :: rest))).head?.any blankTab = false := rfl
    rw [whole, (takeWhile_stop blank_front opening).2, List.head?_cons, if_pos rfl, bracket,
      word_append]
    simp only [Option.bind_some, (takeWhile_stop blank_back colon).2, List.head?_cons, if_true]
    rw [← whole, count]

theorem matchDef_class (rest : Text) (indented : ∀ x ∈ a, blankTab x = true) :
    matchDef (a ++ (ascii "class" ++ rest)) = none := by
  rw [matchDef, dropWhile_indent indented rfl]
  rfl

theorem tripleQuote_cons {x : Text} (first : c ≠ 34) (second : c ≠ 39) : tripleQuote (c :: x) = none := by
  have quotes : (ascii "\"\"\"").isPrefixOf (c :: x) = false := by
    have ne : (34 == c) = false := by simpa using Ne.symm first
    change (34 == c && _) = false
    rw [ne, Bool.false_and]
  have apostrophes : (ascii "'''").isPrefixOf (c :: x) = false := by
    have ne : (39 == c) = false := by simpa using Ne.symm second
    change (39 == c && _) = false
    rw [ne, Bool.false_and]
  rw [tripleQuote, quotes, apostrophes]
  rfl

/-- No quote comes first in front of the start of a definition. -/
theorem tripleQuote_indent {d : UInt8} {rest : Text} (indented : ∀ x ∈ a, blankTab x = true)
    (first : d ≠ 34) (second : d ≠ 39) : tripleQuote (a ++ d :: rest) = none := by
  cases a with
  | nil => exact tripleQuote_cons first second
  | cons x a =>
    have blank := indented x List.mem_cons_self
    exact tripleQuote_cons (by rintro rfl; cases blank) (by rintro rfl; cases blank)

/-! ### The actions on the start of a definition -/

theorem calc_indent_append {rest : Text} (indented : ∀ x ∈ a, blankTab x = true)
    (stop : rest.head?.any blankTab = false) : calc_indent (a ++ rest) = calc_indent a := by
  have whole := takeWhile_stop (b := []) indented rfl
  rw [List.append_nil] at whole
  rw [calc_indent, calc_indent]
  exact congrArg (List.foldl advance 0) ((takeWhile_stop indented stop).1.trans whole.1.symm)

/-- Blanks in front of a bracket, going back from it. -/
theorem blanks_back {x gap' : Text} (blank : ∀ c ∈ gap', blankTab c = true)
    (stop : x.getLast?.any blankTab = false) :
    ((x ++ gap').reverse.takeWhile blankTab).length = gap'.length := by
  have blank : ∀ c ∈ gap'.reverse, blankTab c = true :=
    fun c mem => blank c (List.mem_reverse.mp mem)
  rw [List.reverse_append, (takeWhile_stop blank (by rw [List.head?_reverse, stop])).1,
    List.length_reverse]

/-- The text behind the last blank. -/
theorem word_back {before x : Text} (blank : before.getLast?.any blankTab = true)
    (dark : ∀ c ∈ x, blankTab c = false) :
    ((before ++ x).reverse.takeWhile fun c => !blankTab c).reverse = x := by
  have dark : ∀ c ∈ x.reverse, (!blankTab c) = true := by
    intro c mem
    rw [dark c (List.mem_reverse.mp mem)]
    rfl
  have stop : before.reverse.head?.any (fun c => !blankTab c) = false := by
    rw [List.head?_reverse]
    cases last : before.getLast? with
    | none => rfl
    | some c =>
      rw [last] at blank
      have blank : blankTab c = true := blank
      simp [blank]
  rw [List.reverse_append, (takeWhile_stop dark stop).1, List.reverse_reverse]

theorem Named.dark (named : Named name) (c : UInt8) (mem : c ∈ name) : blankTab c = false :=
  blankTab_nameChar (named.chars c mem)

theorem Named.last (named : Named name) (before : Text) :
    (before ++ name).getLast?.any blankTab = false := by
  have some_char : name ≠ [] := by
    rintro rfl
    cases named.start
  rw [List.getLast?_append_of_ne_nil before some_char, List.getLast?_eq_some_getLast some_char]
  exact named.dark _ (List.getLast_mem some_char)

theorem Named.nul (named : Named name) (rest : Text) :
    (name ++ 0 :: rest).takeWhile (· != 0) = name := by
  have inside : ∀ c ∈ name, (c != 0) = true := by
    intro c mem
    rw [bne_iff_ne]
    rintro rfl
    cases named.chars 0 mem
  exact (takeWhile_stop inside rfl).1

/-- The name is found if there is at most one blank in front of the bracket. -/
theorem defName_header {before gap' : Text} (blank_before : before.getLast?.any blankTab = true)
    (named : Named name) (short : gap'.length ≤ 1) (blank : ∀ x ∈ gap', blankTab x = true) :
    defName (before ++ (name ++ (gap' ++ [40]))) = name := by
  have whole : before ++ (name ++ (gap' ++ [40])) = (before ++ name ++ gap') ++ [40] := by
    simp only [List.append_assoc]
  have bracket : ((before ++ name ++ gap') ++ [40]).length - 1 = (before ++ name ++ gap').length := by
    rw [List.length_append, List.length_singleton, Nat.add_sub_cancel]
  have blanks := blanks_back blank (named.last before)
  have place : (before ++ name ++ gap').length - gap'.length = (before ++ name).length := by
    rw [List.length_append, Nat.add_sub_cancel]
  rw [whole, defName, bracket, List.take_left, blanks, place]
  cases gap' with
  | nil =>
    -- the bracket itself is overwritten
    have marked : (before ++ name ++ [] ++ [40]).set (before ++ name).length 0 =
        before ++ name ++ [0] := by
      rw [List.append_nil, List.set_append_right _ _ (Nat.le_refl _), Nat.sub_self]
      rfl
    rw [marked, List.append_nil, List.take_left, List.drop_left, word_back blank_before named.dark]
    exact named.nul []
  | cons x gap' =>
    cases gap' with
    | cons y gap' => exact absurd short (by simp)
    | nil =>
      have marked : (before ++ name ++ [x] ++ [40]).set (before ++ name).length 0 =
          (before ++ (name ++ [0])) ++ [40] := by
        rw [List.append_assoc (before ++ name), List.set_append_right _ _ (Nat.le_refl _),
          Nat.sub_self]
        simp
      have dark : ∀ c ∈ name ++ [0], blankTab c = false := by
        intro c mem
        rcases List.mem_append.mp mem with mem | mem
        · exact named.dark c mem
        · rw [List.mem_singleton.mp mem]
          rfl
      have length : (before ++ name ++ [x]).length = (before ++ (name ++ [0])).length := by simp
      rw [marked, length, List.take_left, List.drop_left, word_back blank_before dark,
        List.append_assoc]
      exact named.nul [40]

theorem nameStart_isspace (first : nameStart c = true) : isspace c = false := by
  simp only [nameStart, isspace, Bool.or_eq_true, Bool.and_eq_true, decide_eq_true_eq, beq_iff_eq,
    UInt8.le_iff_toNat_le, Bool.or_eq_false_iff, Bool.and_eq_false_iff, beq_eq_false_iff_ne, ne_eq,
    decide_eq_false_iff_not, ← UInt8.toNat_inj] at first ⊢
  simp at first ⊢
  omega

theorem className_header {gap rest : Text} (indented : ∀ x ∈ a, blankTab x = true)
    (blank : ∀ x ∈ gap, blankTab x = true) (named : Named name)
    (stop : rest.head?.any nameChar = false) :
    (className (a ++ (ascii "class" ++ (gap ++ (name ++ rest))))).1 = name := by
  have space {x : UInt8} (blank : blankTab x = true) : isspace x = true := by
    rw [blankTab, Bool.or_eq_true, beq_iff_eq, beq_iff_eq] at blank
    rcases blank with rfl | rfl <;> rfl
  have dark : (name ++ rest).head?.any isspace = false := by
    have first := named.start
    cases name with
    | nil => cases first
    | cons x name => exact nameStart_isspace first
  have keyword : (ascii "class" ++ (gap ++ (name ++ rest))).head?.any isspace = false := rfl
  have front := (takeWhile_stop (fun x mem => space (indented x mem)) keyword).2
  have back := (takeWhile_stop (fun x mem => space (blank x mem)) dark).2
  have five : (ascii "class" ++ (gap ++ (name ++ rest))).drop 5 = gap ++ (name ++ rest) := rfl
  rw [className, front, five, back]
  exact (takeWhile_stop named.chars stop).1

end Rules

/-! ### The scanner on a text -/

section Scanning

variable {count : Int} {s : Scan} {bol : Bool} {t x rest after : Text} {c : UInt8} {n : Nat}

/-- Whether what is behind a text starts a line. -/
def startsLine (bol : Bool) (t : Text) : Bool := t.foldl (fun _ c => c == NEWLINE) bol

/-- The symbols of functions. -/
def functionsOf (symbols : List Symbol) : List (Option Text × Text) :=
  (symbols.filter fun symbol =>
    symbol.code = .SN_MBR_FUNC_DEF ∨ symbol.code = .SN_FUNC_DEF).map fun symbol =>
      (symbol.classname, symbol.name)

theorem functionsOf_append (front back : List Symbol) :
    functionsOf (front ++ back) = functionsOf front ++ functionsOf back := by
  rw [functionsOf, List.filter_append, List.map_append]
  rfl

/-- Nothing has changed that matters for functions. -/
structure Same (s s' : Scan) : Prop where
  stack : s'.scope_stack = s.scope_stack
  functions : functionsOf s'.symbols = functionsOf s.symbols

theorem Same.refl (s : Scan) : Same s s := ⟨rfl, rfl⟩

theorem Same.trans {s s' s'' : Scan} (first : Same s s') (second : Same s' s'') : Same s s'' :=
  ⟨second.stack.trans first.stack, second.functions.trans first.functions⟩

theorem same_varAction (s : Scan) (yytext : Text) : Same s (varAction s yytext) := by
  refine ⟨rfl, ?_⟩
  rw [varAction, functionsOf_append]
  split
  case isTrue => exact List.append_nil _
  case isFalse => exact List.append_nil _

theorem scan_taken (x : Text) : scan count x.length bol s (x ++ rest) =
    scan count 0 (startsLine bol x) s rest := by
  induction x generalizing bol with
  | nil => rfl
  | cons c x ih => exact ih

/-- A rule that takes a text. -/
theorem scan_rule {s' : Scan} (applied : rule count bol s (c :: x ++ rest) = ((c :: x).length, s')) :
    scan count 0 bol s (c :: x ++ rest) = scan count 0 (startsLine bol (c :: x)) s' rest := by
  rw [List.cons_append] at applied ⊢
  rw [scan, applied]
  exact scan_taken x

/-- Where a match for a variable cannot go on. -/
def Ended (after : Text) : Prop :=
  after.head?.any (fun c => nameChar c || blankTab c || c == 61) = false

theorem dropWhile_stop {p : UInt8 → Bool} (t : Text) (stop : after.head?.any p = false) :
    (t ++ after).dropWhile p = t.dropWhile p ++ after := by
  have whole : after.dropWhile p = after := (takeWhile_stop (a := []) (fun _ mem => by cases mem) stop).2
  rw [List.dropWhile_append, whole]
  split
  case isTrue none_left => rw [List.isEmpty_iff.mp none_left, List.nil_append]
  case isFalse => rfl

/-- A match for a variable ends in the text. -/
theorem matchVar_le (ended : Ended after) (found : matchVar (x ++ after) = some n) :
    n ≤ x.length := by
  have stops : after.head?.any nameChar = false ∧ after.head?.any blankTab = false ∧
      after.head? ≠ some 61 := by
    cases after with
    | nil => exact ⟨rfl, rfl, fun absurd => by cases absurd⟩
    | cons c after =>
      have ended : (nameChar c || blankTab c || c == 61) = false := ended
      rw [Bool.or_eq_false_iff, Bool.or_eq_false_iff, beq_eq_false_iff_ne] at ended
      exact ⟨ended.1.1, ended.1.2, fun same => ended.2 (Option.some.inj same)⟩
  obtain ⟨name_stop, blank_stop, no_equals⟩ := stops
  rw [matchVar] at found
  split at found
  case isFalse => cases found
  case isTrue =>
    dsimp only at found
    rw [dropWhile_stop x name_stop, dropWhile_stop _ blank_stop] at found
    split at found
    case isFalse => cases found
    case isTrue equals =>
      have some_left : ((x.dropWhile nameChar).dropWhile blankTab).length ≠ 0 := by
        intro empty
        rw [List.length_eq_zero_iff.mp empty] at equals
        exact no_equals equals
      have count := Option.some.inj found
      rw [List.length_append, List.length_append, Nat.add_sub_add_right] at count
      have shorter : ((x.dropWhile nameChar).dropWhile blankTab).length ≤ x.length :=
        Nat.le_trans (List.dropWhile_sublist _).length_le (List.dropWhile_sublist _).length_le
      omega

/-- A quiet text, in which no match for a variable goes beyond the end. -/
theorem scan_quiet (count : Int) (s : Scan) {taken : Nat} (quiet : Quiet bol t after) (le : taken ≤ t.length)
    (inside : ∀ c x, c :: x <:+ t → ∀ n, matchVar (c :: x ++ after) = some n →
      n ≤ (c :: x).length) :
    ∃ s', Same s s' ∧ scan count taken bol s (t ++ after) = scan count 0 (startsLine bol t) s' after := by
  induction t generalizing taken bol s with
  | nil =>
    obtain rfl := Nat.le_zero.mp le
    exact ⟨s, .refl s, rfl⟩
  | cons c t ih =>
    obtain ⟨quote, definition, quiet⟩ := quiet
    have inside' : ∀ d x, d :: x <:+ t → ∀ n, matchVar (d :: x ++ after) = some n →
        n ≤ (d :: x).length :=
      fun d x suffix => inside d x (suffix.trans (List.suffix_cons c t))
    cases taken with
    | succ taken => exact ih s quiet (Nat.le_of_succ_le_succ le) inside'
    | zero =>
      rw [List.cons_append, scan, rule, quote]
      dsimp only
      cases bol with
      | false => exact ih s quiet (Nat.zero_le _) inside'
      | true =>
        obtain ⟨no_def, no_class⟩ := definition rfl
        rw [if_pos rfl, no_def, no_class]
        cases found : matchVar (c :: (t ++ after)) with
        | none => exact ih s quiet (Nat.zero_le _) inside'
        | some n =>
          have le : n ≤ (c :: t).length := inside c t List.suffix_rfl n found
          obtain ⟨s', same, scanned⟩ := ih (varAction s ((c :: (t ++ after)).take n))
            quiet (Nat.sub_le_of_le_add le) inside'
          exact ⟨s', (same_varAction s _).trans same, scanned⟩

theorem scan_newline : scan count 0 bol s (NEWLINE :: rest) = scan count 0 true s rest := by
  cases bol with
  | false => rfl
  | true => rfl

theorem startsLine_last (bol : Bool) (x : Text) (c : UInt8) :
    startsLine bol (x ++ [c]) = (c == NEWLINE) := by
  rw [startsLine, List.foldl_append]
  rfl

/-- A string from its first quote to its last. -/
theorem scan_string {term : UInt8} {body : Text} (quote : term = 34 ∨ term = 39)
    (ends : parse_triple term count false (body ++ ([term, term, term] ++ rest)) = body.length + 3) :
    scan count 0 bol s ([term, term, term] ++ (body ++ ([term, term, term] ++ rest))) =
      scan count 0 false s rest := by
  have opens (text : Text) : tripleQuote (term :: term :: term :: text) = some term := by
    rcases quote with rfl | rfl <;> rfl
  have applied : rule count bol s
      (term :: (term :: term :: (body ++ [term, term, term])) ++ rest) =
        ((term :: (term :: term :: (body ++ [term, term, term]))).length, s) := by
    have whole : term :: (term :: term :: (body ++ [term, term, term])) ++ rest =
        term :: term :: term :: (body ++ ([term, term, term] ++ rest)) := by
      simp only [List.cons_append, List.append_assoc]
    rw [whole, rule, opens]
    dsimp only
    rw [List.drop_succ_cons, List.drop_succ_cons, List.drop_succ_cons, List.drop_zero, ends]
    simp only [List.length_cons, List.length_append, List.length_nil]
    congr 1
    omega
  have last : startsLine bol (term :: (term :: term :: (body ++ [term, term, term]))) = false := by
    have whole : term :: (term :: term :: (body ++ [term, term, term])) =
        (term :: term :: term :: (body ++ [term, term])) ++ [term] := by simp
    rw [whole, startsLine_last]
    rcases quote with rfl | rfl <;> rfl
  have scanned := scan_rule applied
  rw [last] at scanned
  simpa only [List.cons_append, List.append_assoc, List.nil_append] using scanned

theorem ended_quote {term : UInt8} (quote : term = 34 ∨ term = 39) :
    Ended ([term, term, term] ++ rest) := by
  rcases quote with rfl | rfl <;> rfl

theorem scan_content {content : Content} (silent : Silent count bol content after)
    (ended : Ended after) :
    ∃ s' bol', Same s s' ∧
      scan count 0 bol s (content.text ++ after) = scan count 0 bol' s' after := by
  induction content generalizing s bol with
  | plain t =>
    obtain ⟨s', same, scanned⟩ := scan_quiet count s silent (Nat.zero_le _)
      fun _ _ _ _ => matchVar_le ended
    exact ⟨s', startsLine bol t, same, scanned⟩
  | string t term body more ih =>
    obtain ⟨quote, quiet, ends, silent⟩ := silent
    obtain ⟨s', same, front⟩ := scan_quiet count s quiet (Nat.zero_le _)
      fun _ _ _ _ => matchVar_le (ended_quote quote)
    obtain ⟨s'', bol', same', back⟩ := ih (s := s') silent
    refine ⟨s'', bol', same.trans same', ?_⟩
    rw [Content.text]
    simp only [List.append_assoc] at front ⊢
    rw [front, scan_string quote ends, back]

/-- The blanks in front of a line that is no definition. -/
theorem scan_indent (count : Int) (s : Scan) (blank : ∀ c ∈ t, blankTab c = true) (quiet : Quiet true t after) :
    ∃ s', Same s s' ∧
      scan count 0 true s (t ++ after) = scan count 0 t.isEmpty s' after := by
  obtain ⟨s', same, scanned⟩ := scan_quiet count s quiet (Nat.zero_le _) (by
    intro c x suffix n found
    have dark : ¬ (c :: x ++ after).head?.any nameStart = true := by
      intro first
      rw [List.cons_append, List.head?_cons] at first
      have char := nameChar_nameStart first
      rw [nameChar_blankTab (blank c (suffix.subset List.mem_cons_self))] at char
      cases char
    rw [matchVar, if_neg dark] at found
    cases found)
  refine ⟨s', same, scanned.trans ?_⟩
  rcases List.eq_nil_or_concat t with rfl | ⟨front, c, rfl⟩
  · rfl
  · have dark : (c == NEWLINE) = false := by
      rw [beq_eq_false_iff_ne]
      rintro rfl
      cases blank NEWLINE (by simp)
    rw [List.concat_eq_append, startsLine_last, dark]
    cases front with
    | nil => rfl
    | cons x front => rfl

/-! ### Lines -/

/-- The function that is recorded for a line. -/
def recordedAt (scope_stack : List Entry) (l : Logical) : List (Option Text × Text) :=
  (l.head.function.map fun name => (ownerClass (pop l.column scope_stack), name)).toList

theorem recorded_cons (scope_stack : List Entry) (l : Logical) (ls : List Logical) :
    recorded scope_stack (l :: ls) =
      recordedAt scope_stack l ++ recorded (stackStep scope_stack l) ls := by
  rw [recorded, recordedAt]
  cases l.head.function with
  | none => rfl
  | some name => rfl

/-- What a line does to the stack and the functions. -/
structure Records (scope_stack : List Entry) (l : Logical) (s s' : Scan) : Prop where
  stack : s'.scope_stack = stackStep scope_stack l
  functions : functionsOf s'.symbols = functionsOf s.symbols ++ recordedAt scope_stack l

theorem Records.then {scope_stack : List Entry} {l : Logical} {s s' s'' : Scan}
    (records : Records scope_stack l s s') (same : Same s' s'') :
    Records scope_stack l s s'' :=
  ⟨same.stack.trans records.stack, same.functions.trans records.functions⟩

/-- A line that is no definition. -/
theorem scan_other {l : Line} (indented : ∀ c ∈ l.indent, blankTab c = true)
    (quiet : Quiet true l.indent (l.content.text ++ after)) (no_text : l.kind.text = [])
    (silent : Silent count l.atStart l.content after) (ended : Ended after) :
    ∃ s' bol', Same s s' ∧
      scan count 0 true s (l.text ++ after) = scan count 0 bol' s' after := by
  obtain ⟨s', same, front⟩ := scan_indent count s indented quiet
  have at_start : l.indent.isEmpty = l.atStart := by
    rw [Line.atStart, no_text, List.isEmpty_nil, Bool.and_true]
  rw [at_start] at front
  obtain ⟨s'', bol', same', back⟩ := scan_content (s := s') silent ended
  refine ⟨s'', bol', same.trans same', ?_⟩
  rw [Line.text, no_text, List.nil_append, List.append_assoc, front, back]

/-- The start of a definition. -/
theorem scan_header {header : Text} {s' : Scan} {last : UInt8} (no_newline : (last == NEWLINE) = false)
    (applied : rule count true s (header ++ [last] ++ rest) = ((header ++ [last]).length, s')) :
    scan count 0 true s (header ++ [last] ++ rest) = scan count 0 false s' rest := by
  cases header with
  | nil =>
    rw [← no_newline, ← startsLine_last true [] last]
    exact scan_rule applied
  | cons c header =>
    rw [← no_newline, ← startsLine_last true (c :: header) last]
    exact scan_rule applied

/-- The action for `def` records the function. -/
theorem records_defAction (s : Scan) {indent gap name gap' : Text} (below : Bool)
    (indented : ∀ x ∈ indent, blankTab x = true) (some_gap : gap ≠ [])
    (blank : ∀ x ∈ gap, blankTab x = true) (named : Named name) (short : gap'.length ≤ 1)
    (blank' : ∀ x ∈ gap', blankTab x = true) :
    Records s.scope_stack ⟨calc_indent indent, .def_ name below⟩ s
      (defAction s (indent ++ (ascii "def" ++ (gap ++ (name ++ (gap' ++ [40])))))) := by
  have column : calc_indent (indent ++ (ascii "def" ++ (gap ++ (name ++ (gap' ++ [40]))))) =
      calc_indent indent := calc_indent_append indented rfl
  have found : defName (indent ++ (ascii "def" ++ (gap ++ (name ++ (gap' ++ [40]))))) = name := by
    have last : (indent ++ (ascii "def" ++ gap)).getLast?.any blankTab = true := by
      rw [← List.append_assoc, List.getLast?_append_of_ne_nil _ some_gap,
        List.getLast?_eq_some_getLast some_gap]
      exact blank _ (List.getLast_mem some_gap)
    have read := defName_header last named short blank'
    simpa only [List.append_assoc] using read
  rw [defAction, column, found]
  refine ⟨rfl, ?_⟩
  rw [functionsOf_append]
  refine congrArg _ ?_
  cases owned : ownerClass (pop (calc_indent indent) s.scope_stack) with
  | none => simp [functionsOf, recordedAt, Head.function, owned]
  | some classname => simp [functionsOf, recordedAt, Head.function, owned]

/-- The action for `class` records no function. -/
theorem records_classAction (s : Scan) {indent gap name bases : Text} (below : Bool)
    (indented : ∀ x ∈ indent, blankTab x = true) (blank : ∀ x ∈ gap, blankTab x = true)
    (named : Named name) (shape : Bases bases) :
    Records s.scope_stack ⟨calc_indent indent, .class_ name below⟩ s
      (classAction s (indent ++ (ascii "class" ++ (gap ++ (name ++ (bases ++ [58])))))) := by
  have column : calc_indent (indent ++ (ascii "class" ++ (gap ++ (name ++ (bases ++ [58]))))) =
      calc_indent indent := calc_indent_append indented rfl
  have found := className_header indented blank named (head_bases [] shape)
  have no_function (bases : List Text) : functionsOf (bases.map fun base =>
      (⟨.SN_CLASS_INHERIT, some name, base⟩ : Symbol)) = [] := by
    induction bases with
    | nil => rfl
    | cons base bases ih => exact ih
  rw [classAction, column, found]
  refine ⟨rfl, ?_⟩
  rw [functionsOf_append, functionsOf_append, no_function, List.append_nil]
  rfl

theorem scan_def (count : Int) (s : Scan) {indent gap name gap' : Text} (rest : Text)
    (indented : ∀ x ∈ indent, blankTab x = true)
    (some_gap : gap ≠ []) (blank : ∀ x ∈ gap, blankTab x = true) (named : Named name)
    (blank' : ∀ x ∈ gap', blankTab x = true) :
    scan count 0 true s (indent ++ (ascii "def" ++ (gap ++ (name ++ (gap' ++ 40 :: rest))))) =
      scan count 0 false
        (defAction s (indent ++ (ascii "def" ++ (gap ++ (name ++ (gap' ++ [40])))))) rest := by
  have quote : tripleQuote (indent ++ (ascii "def" ++ (gap ++ (name ++ (gap' ++ 40 :: rest))))) =
      none := tripleQuote_indent indented (by decide) (by decide)
  have found := matchDef_header rest indented some_gap blank named blank'
  have whole : indent ++ (ascii "def" ++ (gap ++ (name ++ (gap' ++ 40 :: rest)))) =
      indent ++ (ascii "def" ++ (gap ++ (name ++ gap'))) ++ [40] ++ rest := by
    simp only [List.append_assoc, List.cons_append, List.nil_append]
  have front : indent ++ (ascii "def" ++ (gap ++ (name ++ (gap' ++ [40])))) =
      indent ++ (ascii "def" ++ (gap ++ (name ++ gap'))) ++ [40] := by
    simp only [List.append_assoc]
  rw [whole, front] at found
  rw [whole] at quote
  rw [whole, front]
  apply scan_header rfl
  rw [rule, quote]
  dsimp only
  rw [if_pos rfl, found]
  dsimp only
  rw [List.take_left]

theorem scan_class (count : Int) (s : Scan) {indent gap name bases : Text} (rest : Text)
    (indented : ∀ x ∈ indent, blankTab x = true)
    (some_gap : gap ≠ []) (blank : ∀ x ∈ gap, blankTab x = true) (named : Named name)
    (shape : Bases bases) :
    scan count 0 true s (indent ++ (ascii "class" ++ (gap ++ (name ++ (bases ++ 58 :: rest))))) =
      scan count 0 false
        (classAction s (indent ++ (ascii "class" ++ (gap ++ (name ++ (bases ++ [58])))))) rest := by
  have quote : tripleQuote (indent ++ (ascii "class" ++ (gap ++ (name ++ (bases ++ 58 :: rest))))) =
      none := tripleQuote_indent indented (by decide) (by decide)
  have found := matchClass_header rest indented some_gap blank named shape
  have no_def := matchDef_class (gap ++ (name ++ (bases ++ 58 :: rest))) indented
  have whole : indent ++ (ascii "class" ++ (gap ++ (name ++ (bases ++ 58 :: rest)))) =
      indent ++ (ascii "class" ++ (gap ++ (name ++ bases))) ++ [58] ++ rest := by
    simp only [List.append_assoc, List.cons_append, List.nil_append]
  have front : indent ++ (ascii "class" ++ (gap ++ (name ++ (bases ++ [58])))) =
      indent ++ (ascii "class" ++ (gap ++ (name ++ bases))) ++ [58] := by
    simp only [List.append_assoc]
  rw [whole, front] at found
  rw [whole] at quote no_def
  rw [whole, front]
  apply scan_header rfl
  rw [rule, quote]
  dsimp only
  rw [if_pos rfl, no_def, found]
  dsimp only
  rw [List.take_left]

/-- A line changes the stack as its start has it, and no function is recorded but its own. -/
theorem scan_line {l : Line} (readable : l.Readable count after) (ended : Ended after) :
    ∃ s' bol', Records s.scope_stack l.logical s s' ∧
      scan count 0 true s (l.text ++ after) = scan count 0 bol' s' after := by
  obtain ⟨indent, kind, content⟩ := l
  obtain ⟨indented, kind_readable, silent⟩ := readable
  dsimp only at indented kind_readable silent
  have unnamed (no_text : kind.text = []) (quiet : Quiet true indent (content.text ++ after))
      (unchanged : stackStep s.scope_stack ⟨calc_indent indent, kind.head⟩ = s.scope_stack)
      (none_at : recordedAt s.scope_stack ⟨calc_indent indent, kind.head⟩ = []) :
      ∃ s' bol', Records s.scope_stack ⟨calc_indent indent, kind.head⟩ s s' ∧
        scan count 0 true s ((⟨indent, kind, content⟩ : Line).text ++ after) =
          scan count 0 bol' s' after := by
    obtain ⟨s', bol', same, scanned⟩ :=
      scan_other (s := s) (l := ⟨indent, kind, content⟩) indented quiet no_text silent ended
    refine ⟨s', bol', ⟨same.stack.trans unchanged.symm, ?_⟩, scanned⟩
    rw [none_at, List.append_nil, same.functions]
  cases kind with
  | empty => exact unnamed rfl kind_readable rfl rfl
  | statement => exact unnamed rfl kind_readable rfl rfl
  | block => exact unnamed rfl kind_readable rfl rfl
  | def_ gap name gap' below =>
    obtain ⟨⟨some_gap, blank⟩, named, short, blank'⟩ := kind_readable
    have records := records_defAction s below indented some_gap blank named short
      blank'
    have front := scan_def count s (content.text ++ after) indented
      some_gap blank named blank'
    have inside : (⟨indent, .def_ gap name gap' below, content⟩ : Line).atStart = false :=
      Bool.and_false _
    rw [inside] at silent
    obtain ⟨s', bol', same, scanned⟩ := scan_content silent ended
    refine ⟨s', bol', records.then same, ?_⟩
    rw [← scanned, ← front, Line.text, Kind.text]
    simp only [List.append_assoc, List.cons_append, List.nil_append]
  | class_ gap name bases below =>
    obtain ⟨⟨some_gap, blank⟩, named, shape⟩ := kind_readable
    have records := records_classAction s below indented blank named shape
    have front := scan_class count s (content.text ++ after) indented
      some_gap blank named shape
    have inside : (⟨indent, .class_ gap name bases below, content⟩ : Line).atStart = false :=
      Bool.and_false _
    rw [inside] at silent
    obtain ⟨s', bol', same, scanned⟩ := scan_content silent ended
    refine ⟨s', bol', records.then same, ?_⟩
    rw [← scanned, ← front, Line.text, Kind.text]
    simp only [List.append_assoc, List.cons_append, List.nil_append]

theorem ended_following (ls : List Line) : Ended (following ls) := by
  cases ls with
  | nil => rfl
  | cons l ls => rfl

theorem sourceText_cons (l : Line) (ls : List Line) :
    sourceText (l :: ls) = l.text ++ following ls := by
  cases ls with
  | nil => exact (List.append_nil _).symm
  | cons next ls => rfl

theorem scan_source {ls : List Line} (readable : ReadableSource count ls) :
    functionsOf (scan count 0 true s (sourceText ls)).symbols =
      functionsOf s.symbols ++ recorded s.scope_stack (ls.map Line.logical) := by
  induction ls generalizing s with
  | nil => exact (List.append_nil _).symm
  | cons l ls ih =>
    obtain ⟨s', bol', records, scanned⟩ :=
      scan_line (s := s) readable.1 (ended_following ls)
    rw [sourceText_cons, scanned, List.map_cons, recorded_cons, ← List.append_assoc,
      ← records.functions, ← records.stack]
    cases ls with
    | nil => exact (List.append_nil _).symm
    | cons next ls =>
      rw [following, scan_newline]
      exact ih readable.2

end Scanning

/-- In a readable source the functions are recorded by the logical lines. -/
theorem functions_eq_recorded {count : Int} {scope_stack : List Entry} {lines : List Line}
    (readable : ReadableSource count lines) :
    functions count scope_stack (sourceText lines) =
      recorded scope_stack (lines.map Line.logical) :=
  scan_source (s := ⟨scope_stack, []⟩) readable

/-- The functions of a readable source are attributed as Python's rule has it exactly if each of them
is noticed. -/
theorem functions_right_iff (count : Int) (scope_stack : List Entry) (lines : List Line)
    (wf : WellFormed (lines.map Line.logical)) (readable : ReadableSource count lines) :
    functions count scope_stack (sourceText lines) = expected start (lines.map Line.logical) ↔
      AllNoticed scope_stack [] (lines.map Line.logical) := by
  rw [functions_eq_recorded readable]
  exact recorded_eq_iff wf

/-- A class with a method, and a function behind it. -/
def methodSource : List Line :=
  [⟨[], .class_ [32] (ascii "C") [] true, .plain []⟩,
    ⟨[32], .def_ [32] (ascii "f") [] true, .plain (ascii "self):")⟩,
    ⟨[32, 32], .statement, .plain (ascii "pass")⟩,
    ⟨[], .def_ [32] (ascii "g") [] false, .plain (ascii "): pass")⟩]

theorem functions_right_methodSource :
    functions 0 [] (sourceText methodSource) =
      expected start (methodSource.map Line.logical) ↔
        AllNoticed [] [] (methodSource.map Line.logical) := by
  have named (c : UInt8) (letter : nameStart c = true) : Named [c] := by
    refine ⟨letter, ?_⟩
    intro d mem
    rw [List.mem_singleton.mp mem]
    exact nameChar_nameStart letter
  have gap : ([32] : Text) ≠ [] ∧ ∀ c ∈ ([32] : Text), blankTab c = true := by decide +kernel
  refine functions_right_iff 0 [] methodSource ⟨_, rfl⟩ ?_
  exact ⟨⟨by decide +kernel, ⟨gap, named 67 rfl, .inl (by decide +kernel)⟩, by decide +kernel⟩,
    ⟨by decide +kernel, ⟨gap, named 102 rfl, by decide +kernel⟩, by decide +kernel⟩,
    ⟨by decide +kernel, (by decide +kernel : Quiet true _ _), by decide +kernel⟩,
    ⟨by decide +kernel, ⟨gap, named 103 rfl, by decide +kernel⟩, by decide +kernel⟩, trivial⟩

/-- A class whose body ends with a statement, and a function in a block behind it. -/
def blockSource : List Line :=
  [⟨[], .class_ [32] (ascii "C") [] true, .plain []⟩,
    ⟨[32, 32], .statement, .plain (ascii "x = 1")⟩,
    ⟨[], .block, .plain (ascii "if a:")⟩,
    ⟨[32, 32], .def_ [32] (ascii "g") [] true, .plain (ascii "x):")⟩,
    ⟨[32, 32, 32, 32], .statement, .plain (ascii "pass")⟩]

/-- The function is filed under the class. -/
theorem block_behind_class :
    WellFormed (blockSource.map Line.logical) ∧
      functions 0 [] (sourceText blockSource) = [(some (ascii "C"), ascii "g")] ∧
      expected start (blockSource.map Line.logical) = [(none, ascii "g")] :=
  ⟨⟨_, rfl⟩, by decide +kernel⟩

end SourceNavigator.Parsers.Python

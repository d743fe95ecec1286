import SourceNavigator.Parsers.Php.Scanner

/-!
What the rules of the PHP scanner take.

The rules of a mode say what their matches look like (`Shaped`): text inside a line,
or text with one newline at its end (`good_of_mem`, `selected`). Every byte has a
rule in every mode (`rule_of_cons`).
-/

namespace SourceNavigator.Parsers.Php

open SourceNavigator.Parsers.CountChars

variable {text u v w : Text} {n m : Nat} {c d : UInt8} {p q : Pattern} {f : UInt8 → Bool}
  {mode : Mode} {action : Action} {r : Rule} {s : Scanner}

/-! ### What the patterns take -/

/-- Text inside a line. -/
def Plain (p : Pattern) : Prop := ∀ text n, p text = some n → NEWLINE ∉ text.take n

/-- A text with one newline at its end. -/
def EndsLine (u : Text) : Prop := ∃ v, NEWLINE ∉ v ∧ u = v ++ [NEWLINE]

def Line (p : Pattern) : Prop := ∀ text n, p text = some n → EndsLine (text.take n)

theorem literal_spec (taken : literal w text = some n) : n = w.length ∧ ∃ t, text = w ++ t := by
  unfold literal at taken
  split at taken
  next front =>
    obtain ⟨t, parts⟩ := List.isPrefixOf_iff_prefix.mp front
    exact ⟨(Option.some.inj taken).symm, t, parts.symm⟩
  next => cases taken

theorem take_of_literal (taken : literal w text = some n) : text.take n = w := by
  obtain ⟨rfl, t, rfl⟩ := literal_spec taken
  exact List.take_left

theorem take_takeWhile : text.take (text.takeWhile f).length = text.takeWhile f :=
  (List.prefix_iff_eq_take.mp (List.takeWhile_prefix f)).symm

theorem newline_notMem_takeWhile (off : f NEWLINE = false) : NEWLINE ∉ text.takeWhile f := by
  intro mem
  rw [List.mem_takeWhile_imp mem] at off
  cases off

theorem plain_literal (none_in : NEWLINE ∉ w) : Plain (literal w) := by
  intro text n taken
  rwa [take_of_literal taken]

theorem plain_many (off : f NEWLINE = false) : Plain (many f) := by
  intro text n taken
  obtain rfl := Option.some.inj taken
  rw [take_takeWhile]
  exact newline_notMem_takeWhile off

theorem many_of_many1 (taken : many1 f text = some n) : many f text = some n := by
  unfold many1 at taken
  split at taken
  · exact taken
  · cases taken

theorem many1_spec (taken : many1 f text = some n) :
    n = (text.takeWhile f).length ∧ text.takeWhile f ≠ [] := by
  refine ⟨(Option.some.inj (many_of_many1 taken)).symm, ?_⟩
  cases text with
  | nil => cases taken
  | cons c t =>
    by_cases accepted : f c = true
    · rw [List.takeWhile_cons_of_pos accepted]
      exact List.cons_ne_nil _ _
    · rw [many1, List.head?_cons, Option.any_some, if_neg accepted] at taken
      cases taken

theorem plain_many1 (off : f NEWLINE = false) : Plain (many1 f) := by
  intro text n taken
  exact plain_many off text n (many_of_many1 taken)

theorem followedBy_spec (taken : p.followedBy q text = some n) :
    ∃ k m, p text = some k ∧ q (text.drop k) = some m ∧ n = k + m := by
  simp only [Pattern.followedBy, Option.bind_eq_bind, Option.bind_eq_some_iff, Option.some.injEq]
    at taken
  obtain ⟨k, first, m, second, rfl⟩ := taken
  exact ⟨k, m, first, second, rfl⟩

theorem Plain.followedBy (first : Plain p) (second : Plain q) : Plain (p.followedBy q) := by
  intro text n taken
  obtain ⟨k, m, hp, hq, rfl⟩ := followedBy_spec taken
  rw [List.take_add, List.mem_append]
  rintro (mem | mem)
  · exact first _ _ hp mem
  · exact second _ _ hq mem

theorem Plain.followedBy_line (first : Plain p) (second : Line q) : Line (p.followedBy q) := by
  intro text n taken
  obtain ⟨k, m, hp, hq, rfl⟩ := followedBy_spec taken
  obtain ⟨v, none_in, last⟩ := second _ _ hq
  refine ⟨text.take k ++ v, ?_, ?_⟩
  · rw [List.mem_append]
    rintro (mem | mem)
    · exact first _ _ hp mem
    · exact none_in mem
  · rw [List.take_add, last, List.append_assoc]

theorem line_newline : Line newline := by
  intro text n taken
  exact ⟨[], by simp, take_of_literal taken⟩

theorem plain_escapes (other : c ≠ NEWLINE) : Plain (escapes c) := by
  intro text
  fun_induction escapes c text with
  | case1 text ih =>
    intro n taken
    obtain rfl := Option.some.inj taken
    have slash : NEWLINE ≠ 92 := by decide
    cases more : escapes c text with
    | none => simp [other.symm, slash]
    | some k =>
      have rest := ih k more
      simp [Nat.add_comm 2, other.symm, slash, rest]
  | case2 => intro n taken; cases taken
  | case3 => intro n taken; cases taken

theorem plain_oneOf {words : List String} (none_in : ∀ w ∈ words, NEWLINE ∉ ascii w) :
    Plain (oneOf words) := by
  intro text n taken
  obtain ⟨w, mem, rfl⟩ := List.mem_map.mp (List.max?_mem taken)
  obtain ⟨known, front⟩ := List.mem_filter.mp mem
  rw [← List.prefix_iff_eq_take.mp (List.isPrefixOf_iff_prefix.mp front)]
  exact none_in w known

theorem findPair_bound (found : findPair c d text = some n) : n + 2 ≤ text.length := by
  fun_induction findPair c d text generalizing n with
  | case1 x y text =>
    obtain rfl := Option.some.inj found
    simp
  | case2 x y text _ ih =>
    obtain ⟨m, inner, rfl⟩ := Option.map_eq_some_iff.mp found
    have := ih inner
    simp only [List.length_cons] at this ⊢
    omega
  | case3 => cases found

/-- What a comment begins with. -/
def Mark (a : Text) : Prop := a = [35] ∨ a = [47, 47]

theorem Mark.commentMark_append (mark : Mark u) : commentMark (u ++ v) = u.length := by
  rcases mark with rfl | rfl <;> rfl

theorem Mark.newline_notMem (mark : Mark u) : NEWLINE ∉ u := by
  rcases mark with rfl | rfl <;> decide

/-- A comment is the mark and text inside a line, with or without its end. -/
def Comment (u : Text) : Prop := ∃ a b, Mark a ∧ u = a ++ b ∧ (NEWLINE ∉ b ∨ EndsLine b)

theorem take_of_commentRest (taken : commentRest text = some n) :
    NEWLINE ∉ text.take n ∨ EndsLine (text.take n) := by
  have front := List.takeWhile_prefix (fun c => c != NEWLINE) (l := text)
  have line_in : NEWLINE ∉ text.takeWhile fun c => c != NEWLINE := newline_notMem_takeWhile rfl
  unfold commentRest at taken
  dsimp only at taken
  obtain ⟨rest, parts⟩ := front
  generalize text.takeWhile (fun c => c != NEWLINE) = line at *
  subst parts
  rw [List.drop_left] at taken
  split at taken
  next ends =>
    obtain rfl := Option.some.inj taken
    obtain ⟨behind, rfl⟩ := List.head?_eq_some_iff.mp ends
    exact Or.inr ⟨line, line_in, List.take_length_add_append 1⟩
  next =>
    obtain ⟨behind, found, rfl⟩ := Option.map_eq_some_iff.mp taken
    rw [List.take_append_of_le_length (Nat.sub_le _ _)]
    exact Or.inl fun mem => line_in (List.mem_of_mem_take mem)

theorem comment_of_lineComment (taken : lineComment text = some n) : Comment (text.take n) := by
  unfold lineComment at taken
  split at taken
  next begins =>
    have marked : ∃ a t, Mark a ∧ text = a ++ t := by
      rcases Bool.or_eq_true _ _ |>.mp begins with hash | slashes
      · obtain ⟨t, parts⟩ := List.isPrefixOf_iff_prefix.mp hash
        exact ⟨_, t, Or.inl rfl, parts.symm⟩
      · obtain ⟨t, parts⟩ := List.isPrefixOf_iff_prefix.mp slashes
        exact ⟨_, t, Or.inr rfl, parts.symm⟩
    obtain ⟨a, t, mark, rfl⟩ := marked
    rw [mark.commentMark_append, List.drop_left] at taken
    obtain ⟨k, more, rfl⟩ := Option.map_eq_some_iff.mp taken
    exact ⟨a, t.take k, mark, List.take_length_add_append k, take_of_commentRest more⟩
  next => cases taken

/-- What is kept of a comment is a comment. -/
theorem Comment.kept (comment : Comment u) :
    Comment (u.take (kept .lineComment u)) := by
  obtain ⟨a, b, mark, rfl, line⟩ := comment
  simp only [Php.kept, mark.commentMark_append, List.drop_left]
  split
  next i found =>
    have bound := findPair_bound found
    have fits := (List.takeWhile_prefix (fun c => c != 0) (l := b)).length_le
    refine ⟨a, b.take i, mark, List.take_length_add_append i, Or.inl fun mem => ?_⟩
    rcases line with none_in | ⟨v, none_in, rfl⟩
    · exact none_in (List.mem_of_mem_take mem)
    · rw [List.length_append, List.length_singleton] at fits
      rw [List.take_append_of_le_length (by omega)] at mem
      exact none_in (List.mem_of_mem_take mem)
  next => exact ⟨a, b, mark, by rw [List.take_length], line⟩

/-! ### What the rules take -/

/-- What an action relies on: the form of the text it gets. -/
def Shaped (u : Text) : Action → Prop
  | .textLine | .openHeredoc | .heredocLine => EndsLine u
  | .lineComment => Comment u
  | .space => True
  | .enterHtml | .openComment => NEWLINE ∉ u ∧ u.length = 2
  | _ => NEWLINE ∉ u

/-- The modes whose ends an action is. -/
def Suits (mode : Mode) : Action → Prop
  | .openTag => mode = .HTML_MODE
  | .closeComment => mode = .COMMENT_MODE
  | .closeDqString => mode = .DQSTRING
  | .closeSqString => mode = .SQSTRING
  | .heredocLine => mode = .HDSTRING
  | _ => True

/-- The action of a rule gets what it relies on. -/
def Good (mode : Mode) (r : Rule) : Prop :=
  Suits mode r.action ∧ ∀ text n, r.pattern text = some n →
    Shaped ((text.take n).take (kept r.action (text.take n))) r.action

theorem good_plain (plain : Plain p) (suits : Suits mode action)
    (whole : ∀ u, kept action u = u.length) (shape : ∀ u, NEWLINE ∉ u → Shaped u action) :
    Good mode (rule p action) := by
  refine ⟨suits, fun text n taken => ?_⟩
  rw [rule, whole, List.take_length]
  exact shape _ (plain text n taken)

theorem good_line (line : Line p) (suits : Suits mode action)
    (whole : ∀ u, kept action u = u.length) (shape : ∀ u, EndsLine u → Shaped u action) :
    Good mode ⟨r.bol, p, action⟩ := by
  refine ⟨suits, fun text n taken => ?_⟩
  dsimp only
  rw [whole, List.take_length]
  exact shape _ (line text n taken)

theorem good_literal (size : w.length = 2) (none_in : NEWLINE ∉ w) (suits : Suits mode action)
    (whole : ∀ u, kept action u = u.length)
    (shape : ∀ u, NEWLINE ∉ u → u.length = 2 → Shaped u action) :
    Good mode (rule (literal w) action) := by
  refine ⟨suits, fun text n taken => ?_⟩
  rw [rule, whole, List.take_length, take_of_literal taken]
  exact shape w none_in size

theorem words_plain : ∀ e ∈ words, ∀ w ∈ e.1, NEWLINE ∉ ascii w := by decide +kernel

theorem symbol_plain : Plain (many1 symbolChar) := plain_many1 (by decide)

theorem noneOf_plain {cs : List UInt8} (mem : cs.contains NEWLINE = true) :
    Plain (many (noneOf cs)) := plain_many (by rw [noneOf, mem]; rfl)

theorem variableName_plain : Plain variableName :=
  (plain_literal (by decide)).followedBy symbol_plain

theorem anyByte_plain : Plain anyByte := by
  intro text n taken
  unfold anyByte at taken
  split at taken
  next c rest =>
    split at taken
    next => cases taken
    next other =>
      obtain rfl := Option.some.inj taken
      simpa [eq_comm] using other
  next => cases taken

theorem good_text (plain : Plain p) : Good mode (rule p .text) :=
  good_plain plain trivial (fun _ => rfl) fun _ h => h

theorem good_textLine (line : Line p) : Good mode (rule p .textLine) :=
  good_line (r := rule p .textLine) line trivial (fun _ => rfl) fun _ h => h

theorem good_token {type : TokenType} (plain : Plain p) : Good mode (rule p (.token type)) :=
  good_plain plain trivial (fun _ => rfl) fun _ h => h

theorem good_embeddedVar : Good mode (rule variableName .embeddedVar) :=
  good_plain variableName_plain trivial (fun _ => rfl) fun _ h => h

theorem good_of_mem (mem : r ∈ rules mode) : Good mode r := by
  have part {cs : List UInt8} (off : cs.contains NEWLINE = true) :
      Line ((many (noneOf cs)).followedBy newline) :=
    (noneOf_plain off).followedBy_line line_newline
  revert r
  cases mode with
  | HTML_MODE =>
    simp only [rules, List.forall_mem_cons]
    exact ⟨good_text (noneOf_plain rfl), good_textLine (part rfl),
      good_text (plain_literal (by decide)),
      good_plain (plain_oneOf (by decide)) rfl (fun _ => rfl) fun _ h => h, List.forall_mem_nil _⟩
  | COMMENT_MODE =>
    have stars : Plain (many1 (· == 42)) := plain_many1 rfl
    simp only [rules, List.forall_mem_cons]
    exact ⟨good_text (noneOf_plain rfl), good_textLine (part rfl),
      good_text (stars.followedBy (noneOf_plain rfl)),
      good_textLine (stars.followedBy_line (part rfl)),
      good_plain (stars.followedBy (plain_literal (by decide))) rfl (fun _ => rfl) fun _ h => h,
      List.forall_mem_nil _⟩
  | DQSTRING =>
    simp only [rules, List.forall_mem_cons]
    exact ⟨good_text (noneOf_plain rfl), good_textLine (part rfl),
      good_text (plain_escapes (by decide)), good_text (plain_literal (by decide)),
      good_text (plain_literal (by decide)), good_embeddedVar,
      good_text (plain_literal (by decide)),
      good_plain (plain_literal (by decide)) rfl (fun _ => rfl) fun _ h => h, List.forall_mem_nil _⟩
  | SQSTRING =>
    have quotes : Plain (escapes 39) := plain_escapes (by decide)
    simp only [rules, List.forall_mem_cons]
    exact ⟨good_text (noneOf_plain rfl), good_textLine (part rfl),
      good_text (quotes.followedBy (noneOf_plain rfl)),
      good_textLine (quotes.followedBy_line (part rfl)),
      good_text (plain_literal (by decide)), good_text (plain_literal (by decide)),
      good_plain (plain_literal (by decide)) rfl (fun _ => rfl) fun _ h => h, List.forall_mem_nil _⟩
  | HDSTRING =>
    have ident : Line heredocLine :=
      symbol_plain.followedBy_line ((plain_literal (by decide)).followedBy_line line_newline)
    simp only [rules, List.forall_mem_cons]
    exact ⟨good_line (r := ⟨true, heredocLine, .heredocLine⟩) ident rfl (fun _ => rfl) fun _ h => h,
      good_text (plain_many1 rfl), good_textLine (part rfl), good_embeddedVar,
      good_text (plain_literal (by decide)), List.forall_mem_nil _⟩
  | PHP =>
    have start : Line heredocStart := (plain_literal (by decide)).followedBy_line <|
      (plain_many rfl).followedBy_line <| symbol_plain.followedBy_line line_newline
    simp only [rules, List.forall_mem_append, List.forall_mem_cons, List.forall_mem_map]
    refine ⟨⟨⟨?_, ?_, ?_, ?_, ?_, ?_, ?_, ?_, List.forall_mem_nil _⟩, ?_⟩, ?_, ?_, ?_, ?_, ?_, ?_,
      ?_, ?_, ?_, List.forall_mem_nil _⟩
    · exact good_literal rfl (by decide) trivial (fun _ => rfl) fun _ h size => ⟨h, size⟩
    · exact ⟨trivial, fun text n taken => (comment_of_lineComment taken).kept⟩
    · exact good_literal rfl (by decide) trivial (fun _ => rfl) fun _ h size => ⟨h, size⟩
    · exact good_plain (plain_literal (by decide)) trivial (fun _ => rfl) fun _ h => h
    · exact good_plain (plain_literal (by decide)) trivial (fun _ => rfl) fun _ h => h
    · exact good_token (plain_literal (by decide))
    · exact good_plain (plain_literal (by decide)) trivial (fun _ => rfl) fun _ h => h
    · exact good_line (r := rule heredocStart .openHeredoc) start trivial (fun _ => rfl)
        fun _ h => h
    · exact fun e mem => good_token (plain_oneOf (words_plain e mem))
    · exact good_token symbol_plain
    · exact good_token (plain_literal (by decide))
    · exact good_token (plain_literal (by decide))
    · exact good_token variableName_plain
    · exact ⟨trivial, fun _ _ _ => trivial⟩
    · exact good_token (plain_literal (by decide))
    · exact good_token (plain_literal (by decide))
    · exact good_token (plain_literal (by decide))
    · exact good_token anyByte_plain

theorem longest_spec {rules : List Rule} {at_bol : Bool}
    (found : longest at_bol text rules = some (n, action)) :
    0 < n ∧ ∃ r ∈ rules, r.action = action ∧ r.length at_bol text = n := by
  induction rules generalizing n action with
  | nil => cases found
  | cons r later ih =>
    unfold longest at found
    split at found
    next m other more =>
      split at found
      next =>
        obtain ⟨rfl, rfl⟩ := Prod.mk.inj (Option.some.inj found)
        obtain ⟨positive, r', mem, same⟩ := ih more
        exact ⟨positive, r', List.mem_cons_of_mem r mem, same⟩
      next longer =>
        obtain ⟨rfl, rfl⟩ := Prod.mk.inj (Option.some.inj found)
        have := (ih more).1
        exact ⟨by omega, r, List.mem_cons_self, rfl, rfl⟩
    next =>
      split at found
      next => cases found
      next some_length =>
        obtain ⟨rfl, rfl⟩ := Prod.mk.inj (Option.some.inj found)
        exact ⟨Nat.pos_of_ne_zero some_length, r, List.mem_cons_self, rfl, rfl⟩

theorem length_le {at_bol : Bool} (most : ∀ m, r.pattern text = some m → m ≤ n) :
    r.length at_bol text ≤ n := by
  unfold Rule.length
  split
  next => exact Nat.zero_le n
  next =>
    cases match_eq : r.pattern text with
    | none => exact Nat.zero_le n
    | some m => exact most m match_eq

/-- The first of the rules with the longest match. -/
theorem longest_head (r : Rule) (later : List Rule) (at_bol : Bool) (text : Text)
    (positive : 0 < r.length at_bol text)
    (most : ∀ r' ∈ later, r'.length at_bol text ≤ r.length at_bol text) :
    longest at_bol text (r :: later) = some (r.length at_bol text, r.action) := by
  unfold longest
  split
  next m action more =>
    obtain ⟨_, r', mem, _, same⟩ := longest_spec more
    rw [if_neg (by rw [← same]; exact Nat.not_lt.mpr (most r' mem))]
  next => rw [if_neg (Nat.pos_iff_ne_zero.mp positive)]

theorem longest_isSome {rules : List Rule} {at_bol : Bool} (mem : r ∈ rules)
    (positive : 0 < r.length at_bol text) : (longest at_bol text rules).isSome := by
  induction rules with
  | nil => cases mem
  | cons r' later ih =>
    unfold longest
    split
    next => split <;> rfl
    next none_later =>
      rcases List.mem_cons.mp mem with rfl | mem
      · rw [if_neg (Nat.pos_iff_ne_zero.mp positive)]
        rfl
      · rw [none_later] at ih
        cases ih mem

/-- The match of the rule that is taken. -/
theorem selected (found : longest s.at_bol s.rest (rules s.mode) = some (n, action)) :
    0 < n ∧ Suits s.mode action ∧
      Shaped ((s.rest.take n).take (kept action (s.rest.take n))) action ∧
      ∃ r ∈ rules s.mode, r.action = action ∧ r.pattern s.rest = some n ∧
        (r.bol = true → s.at_bol = true) := by
  obtain ⟨positive, r, mem, rfl, length⟩ := longest_spec found
  have taken : r.pattern s.rest = some n ∧ (r.bol = true → s.at_bol = true) := by
    unfold Rule.length at length
    split at length
    next => omega
    next begins =>
      cases match_eq : r.pattern s.rest with
      | none => rw [match_eq, Option.getD_none] at length; omega
      | some k =>
        rw [match_eq, Option.getD_some] at length
        exact ⟨congrArg some length, by simpa using begins⟩
  obtain ⟨suits, shaped⟩ := good_of_mem mem
  exact ⟨positive, suits, shaped _ n taken.1, r, mem, rfl, taken⟩

theorem eats_literal {a : Action} {at_bol : Bool} :
    0 < (rule (literal [c]) a).length at_bol (c :: text) := by
  simp [Rule.length, rule, literal]

theorem eats_newline {at_bol : Bool} (off : f NEWLINE = false) :
    0 < (rule ((many f).followedBy newline) .textLine).length at_bol (NEWLINE :: text) := by
  simp [Rule.length, rule, Pattern.followedBy, many, newline, literal, off]

theorem eats_other {a : Action} {at_bol : Bool} (accepted : f c = true) :
    0 < (rule (many f) a).length at_bol (c :: text) := by
  simp [Rule.length, rule, many, accepted]

theorem eats_some {a : Action} {at_bol : Bool} (accepted : f c = true) :
    0 < (rule (many1 f) a).length at_bol (c :: text) := by
  simp [Rule.length, rule, many1, accepted]

theorem eats_stars {g : UInt8 → Bool} {a : Action} {at_bol : Bool} (accepted : f c = true) :
    0 < (rule ((many1 f).followedBy (many g)) a).length at_bol (c :: text) := by
  refine Nat.pos_of_ne_zero fun none => ?_
  simp [Rule.length, rule, Pattern.followedBy, many1, many, accepted] at none

theorem eq_of_noneOf {cs : List UInt8} (refused : ¬ noneOf cs c = true) : c ∈ cs := by
  simpa [noneOf] using refused

/-- Every byte has a rule in every mode. -/
theorem rule_of_cons (at_bol : Bool) (mode : Mode) (c : UInt8) (text : Text) :
    ∃ r ∈ rules mode, 0 < r.length at_bol (c :: text) := by
  cases mode with
  | HTML_MODE =>
    simp only [rules, List.exists_mem_cons_iff]
    by_cases other : noneOf [60, 10] c = true
    · exact Or.inl (eats_other other)
    rcases List.mem_pair.mp (eq_of_noneOf other) with rfl | rfl
    · exact Or.inr (Or.inr (Or.inl eats_literal))
    · exact Or.inr (Or.inl (eats_newline rfl))
  | PHP =>
    by_cases line : c = NEWLINE
    · refine ⟨rule (many1 fun c => c == 32 || c == 9 || c == 10) .space,
        List.mem_append_right _ ?_, eats_some (by rw [line]; rfl)⟩
      simp only [List.mem_cons, true_or, or_true]
    · refine ⟨rule anyByte (.token .UNKNOWN_TOKEN), List.mem_append_right _ ?_, ?_⟩
      · simp only [List.mem_cons, true_or, or_true]
      · simp [Rule.length, rule, anyByte, line]
  | COMMENT_MODE =>
    simp only [rules, List.exists_mem_cons_iff]
    by_cases other : noneOf [42, 10] c = true
    · exact Or.inl (eats_other other)
    rcases List.mem_pair.mp (eq_of_noneOf other) with rfl | rfl
    · exact Or.inr (Or.inr (Or.inl (eats_stars rfl)))
    · exact Or.inr (Or.inl (eats_newline rfl))
  | DQSTRING =>
    simp only [rules, List.exists_mem_cons_iff]
    by_cases other : noneOf [34, 10, 92, 36] c = true
    · exact Or.inl (eats_other other)
    have special := eq_of_noneOf other
    simp only [List.mem_cons, List.not_mem_nil, or_false] at special
    rcases special with rfl | rfl | rfl | rfl
    · exact Or.inr (Or.inr (Or.inr (Or.inr (Or.inr (Or.inr (Or.inr (Or.inl eats_literal)))))))
    · exact Or.inr (Or.inl (eats_newline rfl))
    · exact Or.inr (Or.inr (Or.inr (Or.inr (Or.inl eats_literal))))
    · exact Or.inr (Or.inr (Or.inr (Or.inr (Or.inr (Or.inr (Or.inl eats_literal))))))
  | SQSTRING =>
    simp only [rules, List.exists_mem_cons_iff]
    by_cases other : noneOf [39, 10, 92] c = true
    · exact Or.inl (eats_other other)
    have special := eq_of_noneOf other
    simp only [List.mem_cons, List.not_mem_nil, or_false] at special
    rcases special with rfl | rfl | rfl
    · exact Or.inr (Or.inr (Or.inr (Or.inr (Or.inr (Or.inr (Or.inl eats_literal))))))
    · exact Or.inr (Or.inl (eats_newline rfl))
    · exact Or.inr (Or.inr (Or.inr (Or.inr (Or.inr (Or.inl eats_literal)))))
  | HDSTRING =>
    simp only [rules, List.exists_mem_cons_iff]
    by_cases other : noneOf [36, 10] c = true
    · exact Or.inr (Or.inl (eats_some other))
    rcases List.mem_pair.mp (eq_of_noneOf other) with rfl | rfl
    · exact Or.inr (Or.inr (Or.inr (Or.inr (Or.inl eats_literal))))
    · exact Or.inr (Or.inr (Or.inl (eats_newline rfl)))

theorem kept_pos (some_byte : u ≠ []) : 0 < kept action u := by
  cases action with
  | lineComment =>
    simp only [kept, commentMark]
    split
    · split <;> omega
    · exact List.length_pos_iff.mpr some_byte
  | _ => exact List.length_pos_iff.mpr some_byte

end SourceNavigator.Parsers.Php

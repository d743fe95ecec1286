import SourceNavigator.Parsers.Php.Matches

/-!
Where the tokens of the PHP scanner stand.

From what the matches look like every action moves the position over the text that
it took (`act_pos`), with one exception: a line of a heredoc string that is an
identifier with a semicolon, but not the one that ends the string, is taken without
counting it.

`tokens_exact_iff`: the tokens have their places exactly if the scanner never is at
such a line.
-/

namespace SourceNavigator.Parsers.Php

open SourceNavigator.Parsers.CountChars

variable {dump : Bool} {text u v : Text} {n m : Nat} {c : UInt8} {action : Action} {s : Scanner} {pos : Position}

/-! ### Places -/

/-- The line and the column of a byte of the file. -/
def place (text : Text) (offset : Nat) : Position := endOf ⟨1, 0⟩ (text.take offset)

/-- The token and the variables in it carry the places of their first bytes. -/
def Token.Exact (text : Text) (tok : Token) : Prop :=
  tok.start = place text tok.offset ∧ ∀ v ∈ tok.vars, v.start = place text v.offset

theorem endOf_plain (none_in : NEWLINE ∉ v) : endOf pos v = sn_advance_column v.length pos := by
  unfold endOf sn_advance_column
  rw [if_neg none_in, List.count_eq_zero_of_not_mem none_in, Int.natCast_zero, Int.add_zero]

theorem endOf_line (none_in : NEWLINE ∉ v) :
    endOf pos (v ++ [NEWLINE]) = sn_reset_column (sn_advance_line pos) := by
  rw [← endOf_append, endOf_singleton, endOf_plain none_in, countChar, if_pos rfl]
  rfl

theorem place_moved (at_rest : s.rest = text.drop s.offset) (front : u <+: s.rest) :
    place text (s.offset + u.length) = endOf (place text s.offset) u := by
  rw [place, place, List.take_add, endOf_append, ← at_rest, ← List.prefix_iff_eq_take.mp front]

/-- A later byte is in no earlier line. -/
theorem line_le (le : n ≤ m) : (place text n).line ≤ (place text m).line := by
  have sub : (text.take n).Sublist (text.take m) := by
    rw [← Nat.min_eq_left le, ← List.take_take]
    exact List.take_sublist n _
  have counts := sub.count_le NEWLINE
  simp only [place, endOf]
  omega

/-! ### What the actions do -/

@[simp] theorem advance_column_pos {k : Int} :
    (s.advance_column k).pos = sn_advance_column k s.pos := rfl

@[simp] theorem next_line_pos : s.next_line.pos = sn_reset_column (sn_advance_line s.pos) := rfl

@[simp] theorem append_token_pos {type : TokenType} {a b : Position} :
    (append_token type a b n s).pos = s.pos := rfl

@[simp] theorem append_dqstring_token_pos {a b : Position} :
    (append_dqstring_token a b n s).pos = s.pos := by
  unfold append_dqstring_token
  split <;> rfl

@[simp] theorem append_dqstring_var_token_pos {a b : Position} :
    (append_dqstring_var_token a b n s).pos = s.pos := rfl

@[simp] theorem enter_html_mode_pos : (enter_html_mode dump s).pos = s.pos := by
  unfold enter_html_mode
  split <;> rfl

@[simp] theorem emit_html_pos : (emit_html dump s).pos = s.pos := by
  unfold emit_html
  split <;> rfl

@[simp] theorem emit_comment_pos : (emit_comment dump s).pos = s.pos := by
  unfold emit_comment
  split <;> rfl

theorem foldl_lines : u.foldl (fun pos c => if c = NEWLINE then sn_advance_line pos else pos) pos =
    { pos with line := pos.line + u.count NEWLINE } := by
  induction u generalizing pos with
  | nil => simp
  | cons c u ih =>
    rw [List.foldl_cons, ih]
    by_cases newline : c = NEWLINE
    · rw [if_pos newline, newline, List.count_cons_self, sn_advance_line]
      congr 1
      push_cast
      omega
    · rw [if_neg newline, List.count_cons_of_ne newline]

/-- Every action moves the position over its text, but for a line of a heredoc string that does not
end it. -/
theorem act_pos (dump : Bool) (shaped : Shaped u action)
    (ends : action = .heredocLine → u = s.heredoc_id) :
    (act dump action u s).pos = endOf s.pos u := by
  cases action with
  | enterHtml =>
    rw [endOf_plain shaped.1, shaped.2]
    simp [act]
  | openComment =>
    rw [endOf_plain shaped.1, shaped.2]
    rfl
  | textLine | openHeredoc =>
    obtain ⟨v, none_in, rfl⟩ := shaped
    rw [endOf_line none_in]
    rfl
  | heredocLine =>
    obtain ⟨v, none_in, rfl⟩ := shaped
    rw [endOf_line none_in, act, if_pos (ends rfl)]
    simp [emit_hdstring, sn_reset_column, sn_set_column, sn_advance_line, sn_advance_column]
  | lineComment =>
    obtain ⟨a, b, mark, rfl, line⟩ := shaped
    have moved : endOf s.pos (a ++ b) = endOf (sn_advance_column a.length s.pos) b := by
      rw [← endOf_append, endOf_plain mark.newline_notMem]
    have kept_pos {s' : Scanner} {k : Int} : (if dump = true then
        append_token .COMMENT_TOKEN (sn_advance_column (-a.length) s'.pos)
          (sn_advance_column k s'.pos) s'.offset s' else s').pos = s'.pos := by
      split <;> rfl
    simp only [act, mark.commentMark_append]
    rcases line with none_in | ⟨v, none_in, rfl⟩
    · have not_last : (a ++ b).getLast? ≠ some NEWLINE := by
        intro last
        exact (List.mem_append.mp (List.mem_of_getLast? last)).elim mark.newline_notMem none_in
      rw [if_neg not_last, moved, endOf_plain none_in, advance_column_pos, kept_pos]
      simp
    · rw [if_pos (by simp), moved, endOf_line none_in, next_line_pos, kept_pos]
      rfl
  | space =>
    simp only [act, foldl_lines, endOf]
    split <;> simp [sn_advance_column, sn_reset_column, sn_set_column]
  | text => exact (endOf_plain shaped).symm
  | openTag | closeComment | emptyDqString | openDqString | openSqString | embeddedVar
  | closeDqString | closeSqString | token =>
    rw [endOf_plain shaped]
    simp [act, emit_dqstring, emit_sqstring]

/-! ### What is recorded -/

/-- The tokens and the variables of the string that is read are exact. -/
structure Recorded (text : Text) (s : Scanner) : Prop where
  tokens : ∀ tok ∈ s.tokens, tok.Exact text
  vars : ∀ v ∈ s.embedded_dq_string_vars, v.start = place text v.offset

/-- What `mode_start` is in a mode: behind the two bytes that open a comment, and the place of an
HTML part only when it is dumped. -/
def Started (dump : Bool) (text : Text) (s : Scanner) : Prop :=
  match s.mode with
  | .PHP => True
  | .COMMENT_MODE => s.mode_start = sn_advance_column 2 (place text s.mode_offset)
  | .HTML_MODE => dump = true → s.mode_start = place text s.mode_offset
  | .DQSTRING | .SQSTRING | .HDSTRING => s.mode_start = place text s.mode_offset

section Recorded

variable {a b : Position} {type : TokenType}

theorem Recorded.append_token (recorded : Recorded text s) (at_place : a = place text n) :
    Recorded text (append_token type a b n s) where
  tokens := by
    intro tok mem
    rcases List.mem_append.mp mem with mem | mem
    · exact recorded.tokens tok mem
    · obtain rfl := List.mem_singleton.mp mem
      exact ⟨at_place, fun v mem => by cases mem⟩
  vars := recorded.vars

theorem Recorded.append_dqstring_token (recorded : Recorded text s) (at_place : a = place text n) :
    Recorded text (append_dqstring_token a b n s) := by
  unfold Php.append_dqstring_token
  split
  next =>
    refine ⟨fun tok mem => ?_, fun v mem => by cases mem⟩
    rcases List.mem_append.mp mem with mem | mem
    · exact recorded.tokens tok mem
    · obtain rfl := List.mem_singleton.mp mem
      exact ⟨at_place, recorded.vars⟩
  next => exact recorded.append_token at_place

theorem Recorded.append_dqstring_var_token (recorded : Recorded text s)
    (at_place : a = place text n) : Recorded text (append_dqstring_var_token a b n s) where
  tokens := recorded.tokens
  vars := by
    intro v mem
    rcases List.mem_append.mp mem with mem | mem
    · exact recorded.vars v mem
    · obtain rfl := List.mem_singleton.mp mem
      exact at_place

/-- Whatever else an action changes. -/
theorem Recorded.congr {s' : Scanner} (recorded : Recorded text s) (tokens : s'.tokens = s.tokens)
    (vars : s'.embedded_dq_string_vars = s.embedded_dq_string_vars) : Recorded text s' :=
  ⟨tokens ▸ recorded.tokens, vars ▸ recorded.vars⟩

/-- What is known of `mode_start` in the mode that the scanner is in. -/
theorem Started.at_mode (started : Started dump text s) (eq : s.mode = mode) :
    Started dump text { s with mode := mode } := by
  subst eq
  exact started

theorem Recorded.emit_html (recorded : Recorded text s) (started : Started dump text s)
    (html : s.mode = .HTML_MODE) : Recorded text (emit_html dump s) := by
  unfold Php.emit_html
  split
  next dumped => exact recorded.append_token (started.at_mode html dumped)
  next => exact recorded

theorem Recorded.emit_comment (recorded : Recorded text s) (started : Started dump text s)
    (comment : s.mode = .COMMENT_MODE) : Recorded text (emit_comment dump s) := by
  unfold Php.emit_comment
  split
  next =>
    have behind : s.mode_start = sn_advance_column 2 (place text s.mode_offset) :=
      started.at_mode comment
    refine recorded.append_token ?_
    rw [behind]
    simp [sn_advance_column]
  next => exact recorded

end Recorded

/-- The semicolon behind a heredoc string stands where it is recorded. -/
theorem semicolon_place (at_rest : s.rest = text.drop s.offset)
    (at_pos : s.pos = place text s.offset) (front : u <+: s.rest) (line : EndsLine u) :
    sn_advance_column ((u.length - 2 : Nat) : Int) s.pos =
      place text (s.offset + (u.length - 2)) := by
  obtain ⟨v, none_in, rfl⟩ := line
  have inside : v.take (v.length - 1) <+: s.rest :=
    (List.take_prefix _ v).trans ((List.prefix_append v _).trans front)
  have plain : NEWLINE ∉ v.take (v.length - 1) := fun mem => none_in (List.mem_of_mem_take mem)
  have length : (v.take (v.length - 1)).length = (v ++ [NEWLINE]).length - 2 := by simp
  rw [← length, place_moved at_rest inside, endOf_plain plain, at_pos]

theorem act_recorded (recorded : Recorded text s) (started : Started dump text s)
    (at_rest : s.rest = text.drop s.offset) (at_pos : s.pos = place text s.offset)
    (front : u <+: s.rest) (suits : Suits s.mode action) (shaped : Shaped u action)
    (ends : action = .heredocLine → u = s.heredoc_id) : Recorded text (act dump action u s) := by
  cases action with
  | enterHtml =>
    simp only [act, enter_html_mode]
    split <;> exact recorded.congr rfl rfl
  | text | textLine => exact recorded.congr rfl rfl
  | openComment | openSqString => exact recorded.congr rfl rfl
  | openDqString | openHeredoc => exact ⟨recorded.tokens, fun v mem => by cases mem⟩
  | openTag =>
    exact (Recorded.emit_html (s := s.advance_column u.length) (recorded.congr rfl rfl) started
      suits).congr rfl rfl
  | lineComment =>
    have marked (k : Int) (b : Position) : Recorded text (if dump = true then
        append_token .COMMENT_TOKEN (sn_advance_column (-k) (s.advance_column k).pos) b
          (s.advance_column k).offset (s.advance_column k) else s.advance_column k) := by
      have inner : Recorded text (s.advance_column k) := recorded.congr rfl rfl
      have back : sn_advance_column (-k) (s.advance_column k).pos = s.pos := by
        simp [sn_advance_column]
      split
      · exact inner.append_token (back.trans at_pos)
      · exact inner
    simp only [act]
    split <;> exact (marked _ _).congr rfl rfl
  | closeComment =>
    exact (recorded.emit_comment started suits).congr rfl rfl
  | emptyDqString => exact (recorded.append_dqstring_token at_pos).congr rfl rfl
  | embeddedVar => exact (recorded.append_dqstring_var_token at_pos).congr rfl rfl
  | token type => exact (recorded.append_token at_pos).congr rfl rfl
  | closeDqString =>
    exact (Recorded.append_dqstring_token (s := s.advance_column u.length) (recorded.congr rfl rfl)
      (started.at_mode suits)).congr rfl rfl
  | closeSqString =>
    exact (Recorded.append_token (s := s.advance_column u.length) (recorded.congr rfl rfl)
      (started.at_mode suits)).congr rfl rfl
  | heredocLine =>
    have semicolon := semicolon_place at_rest at_pos front shaped
    have emitted : Recorded text
        (emit_hdstring (s.offset + (u.length - 2))
          (s.advance_column ((u.length - 2 : Nat) : Int))) :=
      Recorded.append_token (Recorded.append_dqstring_token (recorded.congr rfl rfl)
        (started.at_mode suits))
        semicolon
    rw [act, if_pos (ends rfl)]
    exact emitted.congr rfl rfl
  | space =>
    simp only [act]
    split <;> exact recorded.congr rfl rfl

theorem act_started (started : Started dump text s) (at_pos : s.pos = place text s.offset)
    (ends : action = .heredocLine → u = s.heredoc_id) :
    Started dump text (act dump action u s) := by
  cases action with
  | enterHtml =>
    simp only [act, enter_html_mode]
    split
    · exact fun _ => at_pos
    next off => exact fun dumped => absurd dumped off
  | text | textLine | embeddedVar | token => exact started
  | emptyDqString =>
    simp only [act, append_dqstring_token]
    split <;> exact started
  | openComment => exact congrArg (sn_advance_column 2) at_pos
  | openSqString | openDqString | openHeredoc => exact at_pos
  | openTag | closeComment | closeDqString | closeSqString => trivial
  | lineComment =>
    simp only [act]
    split <;> split <;> exact started
  | heredocLine =>
    rw [act, if_pos (ends rfl)]
    trivial
  | space =>
    simp only [act]
    split <;> exact started

/-! ### Steps -/

/-- The scanner is at a line of a heredoc string that is an identifier and a semicolon, but not the
line that ends the string. -/
def Scanner.strays (s : Scanner) : Prop :=
  s.mode = .HDSTRING ∧ s.at_bol = true ∧
    ∃ n, heredocLine s.rest = some n ∧ s.rest.take n ≠ s.heredoc_id

/-- The scanner knows where it is, and so do the tokens. -/
structure Sound (dump : Bool) (text : Text) (s : Scanner) : Prop where
  at_rest : s.rest = text.drop s.offset
  at_pos : s.pos = place text s.offset
  started : Started dump text s
  recorded : Recorded text s

theorem sound_startOf : Sound dump text (startOf dump text) := by
  unfold startOf enter_html_mode
  split
  next => exact ⟨rfl, rfl, fun _ => rfl, ⟨List.forall_mem_nil _, List.forall_mem_nil _⟩⟩
  next off =>
    exact ⟨rfl, rfl, fun dumped => absurd dumped off,
      ⟨List.forall_mem_nil _, List.forall_mem_nil _⟩⟩

theorem at_heredocLine (found : longest s.at_bol s.rest (rules s.mode) = some (n, .heredocLine)) :
    s.mode = .HDSTRING ∧ s.at_bol = true ∧ heredocLine s.rest = some n := by
  obtain ⟨_, heredoc, _, r, mem, same, taken, begins⟩ := selected found
  rw [show s.mode = .HDSTRING from heredoc] at mem
  simp only [rules, List.mem_cons, List.not_mem_nil, or_false] at mem
  rcases mem with rfl | rfl | rfl | rfl | rfl
  · exact ⟨heredoc, begins rfl, taken⟩
  all_goals cases same

/-- The scanner when the action for so long a match is run. -/
def Scanner.matched (n : Nat) (s : Scanner) : Scanner :=
  { s with at_bol := (s.rest.take n).getLast? == some NEWLINE }

/-- What is taken from the rest of the file. -/
def taken (action : Action) (n : Nat) (s : Scanner) : Text :=
  (s.rest.take n).take (kept action (s.rest.take n))

theorem taken_front (action : Action) (n : Nat) (s : Scanner) : taken action n s <+: s.rest :=
  (List.take_prefix _ _).trans (List.take_prefix n _)

theorem step_eq (found : longest s.at_bol s.rest (rules s.mode) = some (n, action)) :
    step dump s =
      { act dump action (taken action n s) (s.matched n) with
        rest := s.rest.drop (taken action n s).length
        offset := s.offset + (taken action n s).length } := by
  rw [step, found]
  rfl

theorem step_rest_eq (dump : Bool) (at_rest : s.rest = text.drop s.offset) :
    (step dump s).rest = text.drop (step dump s).offset := by
  unfold step
  split
  next => exact at_rest
  next =>
    dsimp only
    rw [at_rest, List.drop_drop]

theorem step_sound (sound : Sound dump text s) (no_stray : ¬ s.strays) :
    Sound dump text (step dump s) := by
  cases found : longest s.at_bol s.rest (rules s.mode) with
  | none =>
    rw [step, found]
    exact sound
  | some selection =>
    obtain ⟨n, action⟩ := selection
    obtain ⟨_, suits, shaped, _⟩ := selected found
    have ends : action = .heredocLine → taken action n s = s.heredoc_id := by
      rintro rfl
      obtain ⟨heredoc, begins, ident⟩ := at_heredocLine found
      have whole : taken .heredocLine n s = s.rest.take n := List.take_length
      rw [whole]
      by_contra other
      exact no_stray ⟨heredoc, begins, n, ident, other⟩
    have recorded : Recorded text (act dump action (taken action n s) (s.matched n)) :=
      act_recorded (sound.recorded.congr rfl rfl) sound.started sound.at_rest sound.at_pos
        (taken_front action n s) suits shaped ends
    have started : Started dump text (act dump action (taken action n s) (s.matched n)) :=
      act_started sound.started sound.at_pos ends
    have moved := act_pos dump (s := s.matched n) shaped ends
    rw [step_eq found]
    refine ⟨step_eq found ▸ step_rest_eq dump sound.at_rest, moved.trans ?_, started,
      recorded.congr rfl rfl⟩
    rw [place_moved sound.at_rest (taken_front action n s), ← sound.at_pos]
    rfl

/-! ### Lines that are not counted -/

theorem symbol_inside (symbol : symbolChar c = true) : noneOf [36, 10] c = true := by
  have dollar : c ≠ 36 := by
    rintro rfl
    cases symbol
  have line : c ≠ 10 := by
    rintro rfl
    cases symbol
  simp [noneOf, dollar, line]

theorem heredocLine_spec (ident : heredocLine text = some n) :
    ∃ w t, w ≠ [] ∧ (∀ c ∈ w, symbolChar c = true) ∧ text = w ++ 59 :: NEWLINE :: t ∧
      n = w.length + 2 := by
  obtain ⟨k, _, first, more, rfl⟩ := followedBy_spec ident
  obtain ⟨i, j, semicolon, line, rfl⟩ := followedBy_spec more
  obtain ⟨rfl, some_symbol⟩ := many1_spec first
  obtain ⟨rfl, t, behind⟩ := literal_spec semicolon
  rw [behind] at line
  obtain ⟨rfl, t', newline⟩ := literal_spec line
  obtain rfl : t = NEWLINE :: t' := newline
  refine ⟨_, t', some_symbol, fun c mem => List.mem_takeWhile_imp mem, ?_, rfl⟩
  have parts := List.prefix_iff_eq_append.mp (List.takeWhile_prefix symbolChar (l := text))
  rw [behind] at parts
  exact parts.symm

/-- The rule for such a line is taken, for it is longer than the line in it. -/
theorem strays_spec (stray : s.strays) :
    ∃ n, longest s.at_bol s.rest (rules s.mode) = some (n, .heredocLine) ∧
      s.rest.take n ≠ s.heredoc_id := by
  obtain ⟨heredoc, begins, n, ident, other⟩ := stray
  refine ⟨n, ?_, other⟩
  have length : Rule.length s.at_bol s.rest ⟨true, heredocLine, .heredocLine⟩ = n := by
    rw [begins]
    exact congrArg (fun taken => taken.getD 0) ident
  obtain ⟨w, t, some_symbol, symbols, parts, size⟩ := heredocLine_spec ident
  have line : s.rest.takeWhile (noneOf [36, 10]) = w ++ [59] := by
    have accepted : ∀ c ∈ w ++ [59], noneOf [36, 10] c = true := by
      intro c mem
      rcases List.mem_append.mp mem with mem | mem
      · exact symbol_inside (symbols c mem)
      · rw [List.mem_singleton.mp mem]
        rfl
    rw [parts, List.append_cons w 59, List.takeWhile_append_of_pos accepted]
    simp [noneOf]
  have no_dollar (rest : Text) : s.rest ≠ [36] ++ rest := by
    obtain ⟨c, w, rfl⟩ := List.exists_cons_of_ne_nil some_symbol
    intro dollar
    have head := symbol_inside (symbols c List.mem_cons_self)
    obtain rfl : c = 36 := (List.cons.inj (parts.symm.trans dollar)).1
    cases head
  have head := longest_head ⟨true, heredocLine, .heredocLine⟩ (rules .HDSTRING).tail s.at_bol s.rest
    (by rw [length]; omega) ?_
  · rw [length] at head
    rw [heredoc]
    exact head
  · rw [length]
    simp only [rules, List.tail_cons, List.forall_mem_cons]
    refine ⟨length_le fun m taken => ?_, length_le fun m taken => ?_, length_le fun m taken => ?_,
      length_le fun m taken => ?_, List.forall_mem_nil _⟩
    · rw [(many1_spec taken).1, line, size, List.length_append]
      exact Nat.le_succ _
    · obtain ⟨k, j, first, second, rfl⟩ := followedBy_spec taken
      obtain rfl := Option.some.inj first
      obtain ⟨rfl, _⟩ := literal_spec second
      rw [line, size, List.length_append]
      rfl
    · obtain ⟨k, j, first, _, rfl⟩ := followedBy_spec taken
      exact absurd (literal_spec first).2.choose_spec (no_dollar _)
    · exact absurd (literal_spec taken).2.choose_spec (no_dollar _)

/-- In a heredoc string with a line that was not counted. -/
structure Late (text : Text) (s : Scanner) : Prop where
  heredoc : s.mode = .HDSTRING
  at_rest : s.rest = text.drop s.offset
  line : s.pos.line < (place text s.offset).line

/-- Some token has not its place, or the next one will not have it. -/
def Behind (text : Text) (s : Scanner) : Prop := Late text s ∨ ∃ tok ∈ s.tokens, ¬ tok.Exact text

theorem endOf_line_eq : (endOf pos u).line = pos.line + u.count NEWLINE := rfl

theorem late_emit (line : s.pos.line < (place text n).line) :
    ∃ tok ∈ (emit_hdstring n s).tokens, ¬ tok.Exact text := by
  refine ⟨_, List.mem_append.mpr (Or.inr (List.mem_singleton.mpr rfl)), fun exact => ?_⟩
  have same : s.pos = place text n := exact.1
  rw [same] at line
  exact absurd line (lt_irrefl _)

/-- A line of a heredoc string that does not end it. -/
theorem step_line (found : longest s.at_bol s.rest (rules s.mode) = some (n, .heredocLine))
    (other : s.rest.take n ≠ s.heredoc_id) :
    step dump s = { s.matched n with
      rest := s.rest.drop (taken .heredocLine n s).length
      offset := s.offset + (taken .heredocLine n s).length } := by
  have whole : taken .heredocLine n s = s.rest.take n := List.take_length
  rw [step_eq found, act, if_neg (by rwa [whole])]

theorem late_of_strays (sound : Sound dump text s) (stray : s.strays) :
    Late text (step dump s) := by
  obtain ⟨n, found, other⟩ := strays_spec stray
  have at_rest := step_rest_eq dump sound.at_rest
  rw [step_line found other] at at_rest ⊢
  refine ⟨stray.1, at_rest, ?_⟩
  obtain ⟨_, _, ⟨v, _, line⟩, _⟩ := selected found
  have moved := place_moved sound.at_rest (taken_front .heredocLine n s)
  rw [taken, line] at moved
  change s.pos.line < (place text (s.offset + (taken .heredocLine n s).length)).line
  rw [taken, line, moved, endOf_line_eq, ← sound.at_pos, List.count_append,
    List.count_singleton_self]
  omega

theorem late_step (late : Late text s) : Behind text (step dump s) := by
  cases found : longest s.at_bol s.rest (rules s.mode) with
  | none =>
    rw [step, found]
    exact Or.inl late
  | some selection =>
    obtain ⟨n, action⟩ := selection
    obtain ⟨_, _, shaped, r, mem, rfl, _⟩ := selected found
    have at_rest := step_rest_eq dump late.at_rest
    have moved := place_moved late.at_rest (taken_front r.action n s)
    -- the position and the place are moved over the same text
    have counted (ends : r.action = .heredocLine → taken r.action n s = s.heredoc_id)
        (same : (step dump s).mode = s.mode) : Late text (step dump s) := by
      refine ⟨same.trans late.heredoc, at_rest, ?_⟩
      have at_pos := act_pos dump (s := s.matched n) shaped ends
      rw [step_eq found]
      change (act dump r.action (taken r.action n s) (s.matched n)).pos.line <
        (place text (s.offset + (taken r.action n s).length)).line
      have line := late.line
      rw [moved, taken, at_pos, endOf_line_eq, endOf_line_eq]
      exact Int.add_lt_add_right line _
    rw [late.heredoc] at mem
    simp only [rules, List.mem_cons, List.not_mem_nil, or_false] at mem
    rcases mem with rfl | rfl | rfl | rfl | rfl
    · replace found : longest s.at_bol s.rest (rules s.mode) = some (n, .heredocLine) := found
      by_cases ended : s.rest.take n = s.heredoc_id
      · have closes : taken .heredocLine n s = (s.matched n).heredoc_id :=
          List.take_length.trans ended
        have emitted := late_emit (s := (s.matched n).advance_column
            (((taken .heredocLine n s).length - 2 : Nat) : Int))
          (late.line.trans_le (line_le (Nat.le_add_right _ ((taken .heredocLine n s).length - 2))))
        refine Or.inr ?_
        rw [step_eq found, act, if_pos closes]
        exact emitted
      · refine Or.inl ?_
        rw [step_line found ended] at at_rest ⊢
        exact ⟨late.heredoc, at_rest, late.line.trans_le (line_le (Nat.le_add_right _ _))⟩
    all_goals exact Or.inl (counted (fun h => by cases h) (by rw [step_eq found]; rfl))

theorem append_dqstring_token_tokens {a b : Position} :
    s.tokens <+: (append_dqstring_token a b n s).tokens := by
  unfold append_dqstring_token
  split <;> exact List.prefix_append _ _

theorem emit_html_tokens : s.tokens <+: (emit_html dump s).tokens := by
  unfold emit_html
  split
  · exact List.prefix_append _ _
  · exact List.prefix_rfl

theorem emit_comment_tokens : s.tokens <+: (emit_comment dump s).tokens := by
  unfold emit_comment
  split
  · exact List.prefix_append _ _
  · exact List.prefix_rfl

theorem act_tokens : s.tokens <+: (act dump action u s).tokens := by
  cases action with
  | text | textLine | openComment | openDqString | openSqString | openHeredoc | embeddedVar =>
    exact List.prefix_rfl
  | token | closeSqString => exact List.prefix_append _ _
  | emptyDqString => exact append_dqstring_token_tokens (s := s)
  | closeDqString => exact append_dqstring_token_tokens (s := s.advance_column _)
  | enterHtml =>
    simp only [act, enter_html_mode]
    split <;> exact List.prefix_rfl
  | openTag => exact emit_html_tokens (s := s.advance_column _)
  | closeComment => exact emit_comment_tokens (s := s)
  | lineComment =>
    simp only [act]
    split <;> split
    all_goals first | exact List.prefix_append _ _ | exact List.prefix_rfl
  | space =>
    simp only [act]
    split <;> exact List.prefix_rfl
  | heredocLine =>
    simp only [act]
    split
    · exact (append_dqstring_token_tokens (s := s.advance_column _)).trans (List.prefix_append _ _)
    · exact List.prefix_rfl

theorem step_tokens : s.tokens <+: (step dump s).tokens := by
  cases found : longest s.at_bol s.rest (rules s.mode) with
  | none =>
    have stays : step dump s = s := by rw [step, found]
    exact stays.symm ▸ List.prefix_rfl
  | some selection =>
    rw [step_eq found]
    exact act_tokens (s := s.matched _)

theorem endOfFile_tokens : s.tokens <+: (endOfFile dump s).tokens := by
  unfold endOfFile
  split
  next => exact emit_comment_tokens
  next => exact append_dqstring_token_tokens
  next => exact List.prefix_append _ _
  next => exact append_dqstring_token_tokens.trans (List.prefix_append _ _)
  next => exact emit_html_tokens
  next => exact List.prefix_rfl

theorem behind_step (behind : Behind text s) : Behind text (step dump s) := by
  rcases behind with late | ⟨tok, mem, inexact⟩
  · exact late_step late
  · exact Or.inr ⟨tok, step_tokens.subset mem, inexact⟩

theorem behind_endOfFile (dump : Bool) (behind : Behind text s) :
    ∃ tok ∈ (endOfFile dump s).tokens, ¬ tok.Exact text := by
  rcases behind with late | ⟨tok, mem, inexact⟩
  · rw [endOfFile, late.heredoc]
    exact late_emit late.line
  · exact ⟨tok, endOfFile_tokens.subset mem, inexact⟩

theorem sound_endOfFile (sound : Sound dump text s) : Recorded text (endOfFile dump s) := by
  unfold endOfFile
  split
  next mode => exact sound.recorded.emit_comment sound.started mode
  next mode => exact sound.recorded.append_dqstring_token (sound.started.at_mode mode)
  next mode => exact sound.recorded.append_token (sound.started.at_mode mode)
  next mode =>
    exact (sound.recorded.append_dqstring_token (sound.started.at_mode mode)).append_token
      sound.at_pos
  next mode => exact sound.recorded.emit_html sound.started mode
  next => exact sound.recorded

/-! ### Runs -/

/-- A step takes something, while there is something. -/
theorem step_rest_length (dump : Bool) (more : s.rest ≠ []) :
    (step dump s).rest.length < s.rest.length := by
  obtain ⟨c, text, rest⟩ := List.exists_cons_of_ne_nil more
  obtain ⟨r, mem, positive⟩ := rule_of_cons s.at_bol s.mode c text
  obtain ⟨⟨n, action⟩, found⟩ := Option.isSome_iff_exists.mp (longest_isSome mem positive)
  rw [← rest] at found
  have size := (longest_spec found).1
  have some_byte : s.rest.take n ≠ [] := by simp [more, Nat.ne_of_gt size]
  have taken_some : 0 < (taken action n s).length := by
    rw [taken, List.length_take]
    exact Nat.lt_min.mpr ⟨kept_pos some_byte, List.length_pos_iff.mpr some_byte⟩
  rw [step_eq found]
  change (s.rest.drop (taken action n s).length).length < _
  rw [List.length_drop]
  have := List.length_pos_iff.mpr more
  omega

/-- At the end of the file the scanner stays where it is. -/
theorem step_of_rest_nil (nil : s.rest = []) : (step dump s).rest = [] := by
  unfold step
  split
  next => exact nil
  next =>
    dsimp only
    rw [nil, List.drop_nil]

theorem after_succ : after dump text (n + 1) = step dump (after dump text n) :=
  Function.iterate_succ_apply' _ _ _

theorem rest_length (dump : Bool) (text : Text) (n : Nat) :
    (after dump text n).rest.length ≤ text.length - n := by
  induction n with
  | zero =>
    have start : (startOf dump text).rest = text := by
      unfold startOf enter_html_mode
      split <;> rfl
    exact (congrArg List.length start).le
  | succ n ih =>
    rw [after_succ]
    by_cases nil : (after dump text n).rest = []
    · rw [step_of_rest_nil nil]
      exact Nat.zero_le _
    · have shorter := step_rest_length dump nil
      omega

theorem sound_after (clear : ∀ m < n, ¬ (after dump text m).strays) :
    Sound dump text (after dump text n) := by
  induction n with
  | zero => exact sound_startOf
  | succ n ih =>
    rw [after_succ]
    exact step_sound (ih fun m lt => clear m (by omega)) (clear n (Nat.lt_succ_self n))

theorem sound_or_behind :
    Sound dump text (after dump text n) ∨ Behind text (after dump text n) := by
  induction n with
  | zero => exact Or.inl sound_startOf
  | succ n ih =>
    rw [after_succ]
    rcases ih with sound | behind
    · by_cases stray : (after dump text n).strays
      · exact Or.inr (Or.inl (late_of_strays sound stray))
      · exact Or.inl (step_sound sound stray)
    · exact Or.inr (behind_step behind)

theorem behind_later (behind : Behind text (after dump text n)) (le : n ≤ m) :
    Behind text (after dump text m) := by
  induction m, le using Nat.le_induction with
  | base => exact behind
  | succ m _ ih =>
    rw [after_succ]
    exact behind_step ih

end SourceNavigator.Parsers.Php

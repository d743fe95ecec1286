import SourceNavigator.Cpp.Scanner.TokenInput

/-!
The positions of the tokens (`lineno_beg` and `charno_beg` in `cpp/cpplib/cplex.c`).

`Good` says that the counters are the line and the column of the place that has
been reached. Between the reading of a line end and its counting they are not:
`Read` says that the last character was read from a good state, to which `unput`
goes back. Every function of the scanner keeps `Good`, and a token that is
scanned from the text has the position of its first byte (`positions_exact`).
-/

namespace SourceNavigator.Cpp.Scanner

open Lib.Program (read change Allows allows_pure allows_read allows_change allows_bind allows_loop allows_unfinished unfinished)

/-- The line of the place behind these bytes, from 1. -/
def line (front : Text) : Int := 1 + front.count NEWLINE

/-- The column of the place behind these bytes, from 0. -/
def column (front : Text) : Int := (front.reverse.takeWhile fun c => c != NEWLINE).length

/-- Every carriage return stands in front of a newline. -/
def Paired (text : Text) : Prop := ∀ a b, text = a ++ CARRIAGE_RETURN :: b → b.head? = some NEWLINE

/-- The position is that of the first byte of the token's text. -/
structure Exact (text : Text) (t : Tok) : Prop where
  lineno : t.lineno_beg = line (text.take t.yytext)
  charno : t.charno_beg = column (text.take t.yytext)
  bytes : t.text <+: text.drop t.yytext

/-- The end of the file and the tokens of `#if`, `#elif`, `#else` and `#endif`. -/
def unscanned : List Nat := [0, SN_PP_IF, SN_PP_ELIF, SN_PP_ELSE, SN_PP_ENDIF]

/-- What is known of each token that is delivered. -/
def Scanned (text : Text) (t : Tok) : Prop := t.lex ∈ unscanned ∨ Exact text t

/-- The counters are right. -/
structure Good (text : Text) (s : Lex) : Prop where
  file : s.text = text
  lineno : s.yylineno = line s.before.reverse
  charno : s.yycharno = column s.before.reverse + s.yyeof
  eof : s.yyeof ≠ 0 → s.current = 0
  unput : ∀ t ∈ s.TokenUnput, Scanned text t

/-- `c` has been read from a good state. -/
def Read (text : Text) (c : UInt8) (s : Lex) : Prop := ∃ s₀, Good text s₀ ∧ s = s₀.input ∧ c = s₀.current

section Moves

variable {text : Text} {s : Lex} {c : UInt8} {α : Type} {R : α → Lex → Prop}

theorem Good.unput_input (good : Good text s) : s.input.unput = s := by
  obtain ⟨before, rest, yyeof, yylineno, yycharno, count, mode, TokenUnput⟩ := s
  have eof := good.eof
  unfold Lex.input Lex.unput Lex.current at *
  cases rest with
  | nil => simp
  | cons c cs =>
    by_cases zero : c = 0
    · subst zero
      simp
    · have none : yyeof = 0 := by
        by_contra some_
        exact zero (eof some_)
      subst none
      simp [zero]

theorem Good.input (good : Good text s) (other : s.current ≠ NEWLINE) : Good text s.input := by
  refine ⟨(s.text_input).trans good.file, ?_, ?_, ?_, ?_⟩
  all_goals unfold Lex.input
  all_goals split
  · rw [good.lineno]
    simp [line, other]
  · exact good.lineno
  · rw [good.charno]
    simp [column, other]
    omega
  · rw [good.charno]
    simp
    omega
  · rename_i some_
    intro eof
    exact absurd (good.eof eof) some_
  · rename_i zero
    intro _
    exact not_not.mp zero
  · exact good.unput
  · exact good.unput

theorem Good.newline (good : Good text s) (newline : s.current = NEWLINE) : Good text s.input.newline := by
  have some_ : s.current ≠ 0 := by
    rw [newline]
    decide
  have eof : s.yyeof = 0 := by
    by_contra past
    exact some_ (good.eof past)
  refine ⟨(s.text_input).trans good.file, ?_, ?_, ?_, ?_⟩
  all_goals unfold Lex.newline Lex.input
  all_goals rw [if_pos some_]
  · rw [newline]
    simp [line, good.lineno]
    omega
  · rw [newline]
    simp [column, eof]
  · exact fun past => absurd eof past
  · exact good.unput

theorem Read.good (read : Read text c s) (other : c ≠ NEWLINE) : Good text s := by
  obtain ⟨s₀, good, rfl, rfl⟩ := read
  exact good.input other

theorem Read.unput (read : Read text c s) : Good text s.unput := by
  obtain ⟨s₀, good, rfl, rfl⟩ := read
  rw [good.unput_input]
  exact good

theorem Read.newline (read : Read text NEWLINE s) : Good text s.newline := by
  obtain ⟨s₀, good, rfl, same⟩ := read
  exact good.newline same.symm

/-- Behind a carriage return a newline is read. -/
theorem Read.paired (read : Read text CARRIAGE_RETURN s) (paired : Paired text) : s.current = NEWLINE := by
  obtain ⟨s₀, good, rfl, same⟩ := read
  have whole := good.file
  unfold Lex.text at whole
  unfold Lex.current at same
  cases rest : s₀.rest with
  | nil =>
    rw [rest] at same
    exact absurd same (by decide)
  | cons c cs =>
    rw [rest] at whole same
    obtain rfl : CARRIAGE_RETURN = c := same
    have next := paired _ cs whole.symm
    unfold Lex.input Lex.current
    rw [rest, List.headD_cons, if_pos (show CARRIAGE_RETURN ≠ (0 : UInt8) by decide)]
    simp [List.headD_eq_head?_getD, next]

theorem Good.change (good : Good text s) {s' : Lex} (text' : s'.text = s.text) (lineno : s'.yylineno = s.yylineno)
    (charno : s'.yycharno = s.yycharno) (before : s'.before = s.before) (yyeof : s'.yyeof = s.yyeof)
    (rest : s'.rest = s.rest) (unput : s'.TokenUnput = s.TokenUnput) : Good text s' := by
  obtain ⟨_, _, _, eof, unput'⟩ := good
  refine ⟨text'.trans ‹_›, ?_, ?_, ?_, ?_⟩
  · rw [lineno, before]
    assumption
  · rw [charno, before, yyeof]
    assumption
  · unfold Lex.current at eof ⊢
    rw [yyeof, rest]
    exact eof
  · rw [unput]
    exact unput'

/-! ### The primitives -/

theorem Good.allows_input (good : Good text s) : Allows Scanner.input s (Read text) :=
  allows_bind (allows_read (allows_bind (allows_change (allows_pure ⟨s, good, rfl, rfl⟩))))

theorem Read.allows_unput (read : Read text c s) : Allows Scanner.unput s fun _ s' => Good text s' :=
  allows_change read.unput

/-- The last character is put back where it is not wanted. -/
theorem Read.allows_unputUnless (read : Read text c s) {p : Bool} (other : p = true → c ≠ NEWLINE) :
    Allows (unputUnless p) s fun _ s' => Good text s' := by
  unfold unputUnless
  cases p with
  | true => exact allows_pure (read.good (other rfl))
  | false => exact read.allows_unput

theorem allows_rounds {β : Type} {body : β → Scan (β ⊕ α)} {I : β → Lex → Prop}
    (round : ∀ x s, I x s → Allows (body x) s fun next s' => next.elim (fun y => I y s') fun a => R a s')
    {x : β} (start : I x s) : Allows (rounds body x) s R :=
  allows_bind (allows_read (allows_loop round start))

/-- The loop ends behind the first character that is not one of these. -/
theorem Good.allows_inputWhile (good : Good text s) {p : UInt8 → Bool} (newline : p NEWLINE = false) :
    Allows (inputWhile p) s fun c s' => Read text c s' ∧ p c = false := by
  refine allows_rounds (I := fun _ s => Good text s) (fun _ s good => ?_) good
  refine allows_bind (good.allows_input.imp fun c s read => ?_)
  by_cases more : p c = true
  · rw [if_pos more]
    refine allows_pure (read.good ?_)
    rintro rfl
    rw [newline] at more
    cases more
  · rw [if_neg more]
    exact allows_pure ⟨read, by simpa using more⟩

theorem Read.allows_lineEnd (read : Read text c s) (paired : Paired text) :
    Allows (lineEnd c) s fun _ s' => Good text s' := by
  unfold lineEnd
  by_cases isReturn : c = CARRIAGE_RETURN
  · subst isReturn
    have next := read.paired paired
    have good := read.good (by decide)
    rw [if_pos rfl]
    refine allows_bind (allows_bind (allows_read (allows_bind (allows_change (allows_pure ?_)))))
    rw [next]
    exact allows_bind (allows_pure (allows_bind (allows_change (allows_pure (good.newline next)))))
  · rw [if_neg isReturn]
    by_cases isNewline : c = NEWLINE
    · subst isNewline
      rw [if_pos rfl]
      exact allows_bind (allows_change (allows_pure read.newline))
    · rw [if_neg isNewline]
      exact allows_pure (read.good isNewline)

end Moves

/-! ### Tokens -/

/-- The scanning of a token began at this place. -/
structure Begun (text : Text) (beg : Beg) : Prop where
  lineno : beg.yylineno_beg = line (text.take beg.yytext)
  charno : beg.yycharno_beg = column (text.take beg.yytext)

section Tokens

variable {text : Text} {s : Lex} {c : UInt8} {beg : Beg} {x : Nat} {bFloat : Bool}

/-- `m` delivers a token with its position and keeps the counters right. -/
def Delivers (text : Text) (m : Scan Tok) (s : Lex) : Prop := Allows m s fun t s' => Scanned text t ∧ Good text s'

theorem Good.begun (good : Good text s) (some_ : s.current ≠ 0) : Begun text ⟨s.before.length, s.yylineno, s.yycharno⟩ := by
  have front : text.take s.before.length = s.before.reverse := by
    rw [← good.file, Lex.text, List.take_left' (by simp)]
  have eof : s.yyeof = 0 := by
    by_contra past
    exact some_ (good.eof past)
  constructor
  · rw [front, good.lineno]
  · rw [front, good.charno, eof]
    simp

theorem Begun.exact (begun : Begun text beg) (good : Good text s) : Exact text (makeToken beg x s) := by
  refine ⟨begun.lineno, begun.charno, ?_⟩
  rw [← good.file]
  unfold makeToken Lex.text
  rw [List.drop_append]
  exact List.prefix_append ..

theorem Begun.delivers (begun : Begun text beg) (good : Good text s) : Delivers text (d_TokenReturn beg x) s := by
  refine allows_bind (allows_read (allows_bind (allows_change (allows_pure ⟨.inr (begun.exact good), ?_⟩))))
  exact good.change rfl rfl rfl rfl rfl rfl rfl

theorem Good.allows_exponent (good : Good text s) :
    Allows exponent s fun c s' => Read text c s' := by
  refine allows_bind (good.allows_input.imp fun c s read => ?_)
  have sign : ((c == byte '+') || (c == byte '-')) = true → c ≠ NEWLINE := by
    rintro sign rfl
    revert sign
    decide
  refine allows_bind ((read.allows_unputUnless sign).imp fun _ s good => ?_)
  refine allows_bind ((good.allows_inputWhile rfl).imp fun c s read => ?_)
  by_cases point : c = byte '.'
  · subst point
    rw [if_pos rfl]
    exact ((read.1.good (by decide)).allows_inputWhile rfl).imp fun _ _ read => read.1
  · rw [if_neg point]
    exact allows_pure read.1

theorem Begun.suffix (begun : Begun text beg) (read : Read text c s) : Delivers text (suffix beg bFloat c) s := by
  unfold Scanner.suffix
  by_cases long : c = byte 'l' ∨ c = byte 'L'
  · rw [if_pos long]
    refine begun.delivers (read.good ?_)
    rintro rfl
    revert long
    decide
  · rw [if_neg long]
    by_cases unsigned : c = byte 'u' ∨ c = byte 'U'
    · rw [if_pos unsigned]
      refine begun.delivers (read.good ?_)
      rintro rfl
      revert unsigned
      decide
    · rw [if_neg unsigned]
      exact allows_bind (read.allows_unput.imp fun _ _ good => begun.delivers good)

theorem Begun.scale (begun : Begun text beg) (read : Read text c s) : Delivers text (scale beg bFloat c) s := by
  unfold Scanner.scale
  by_cases power : c = byte 'E' ∨ c = byte 'e'
  · rw [if_pos power]
    have good : Good text s := by
      refine read.good ?_
      rintro rfl
      revert power
      decide
    exact allows_bind (good.allows_exponent.imp fun _ _ read => begun.suffix read)
  · rw [if_neg power]
    exact begun.suffix read

theorem Begun.decimal (begun : Begun text beg) (read : Read text c s) : Delivers text (decimal beg) s := by
  refine allows_bind (read.allows_unput.imp fun _ s good => ?_)
  refine allows_bind ((good.allows_inputWhile rfl).imp fun c s read => ?_)
  by_cases point : c = byte '.'
  · subst point
    rw [if_pos rfl]
    refine allows_bind (((read.1.good (by decide)).allows_inputWhile rfl).imp fun _ _ read => ?_)
    exact begun.scale read.1
  · rw [if_neg point]
    exact begun.scale read.1

theorem Begun.number (begun : Begun text beg) (read : Read text c s) : Delivers text (number beg c) s := by
  unfold Scanner.number
  by_cases zero : c = byte '0'
  · subst zero
    rw [if_pos rfl]
    refine allows_bind ((read.good (by decide)).allows_input.imp fun c s read => ?_)
    by_cases hexa : c = byte 'X' ∨ c = byte 'x'
    · rw [if_pos hexa]
      have good : Good text s := by
        refine read.good ?_
        rintro rfl
        revert hexa
        decide
      exact allows_bind ((good.allows_inputWhile rfl).imp fun _ _ read => begun.suffix read.1)
    · rw [if_neg hexa]
      exact begun.decimal read
  · rw [if_neg zero]
    exact begun.decimal read

theorem Begun.identifier (begun : Begun text beg) (good : Good text s) (LexKeyWordTab : Text → Option (Nat × Bool)) :
    Delivers text (identifier LexKeyWordTab beg) s := by
  have counted : Good text { s with token_in_line_count := s.token_in_line_count + 1 } :=
    good.change rfl rfl rfl rfl rfl rfl rfl
  refine allows_bind (allows_change ?_)
  refine allows_bind ((counted.allows_inputWhile rfl).imp fun c s read => ?_)
  refine allows_bind (read.1.allows_unput.imp fun _ s good => ?_)
  refine allows_bind (allows_read ?_)
  have isExact := begun.exact (x := SN_IDENTIFIER) good
  cases LexKeyWordTab (makeToken beg SN_IDENTIFIER s).text with
  | none => exact allows_pure ⟨.inr isExact, good⟩
  | some found => exact allows_pure ⟨.inr ⟨isExact.lineno, isExact.charno, isExact.bytes⟩, good⟩

/-- A character that is passed over may begin a line end. -/
theorem Good.escape (good : Good text s) (paired : Paired text) {α : Type} {f : UInt8 → Scan α} {R : α → Lex → Prop}
    (more : ∀ c s', Good text s' → Allows (f c) s' R) :
    Allows (do
      let c ← Scanner.input
      let _ ← lineEnd c
      f c) s R :=
  allows_bind (good.allows_input.imp fun c _ read =>
    allows_bind ((read.allows_lineEnd paired).imp fun _ s' good => more c s' good))

theorem Begun.string (begun : Begun text beg) (good : Good text s) (paired : Paired text) :
    Delivers text (string beg) s := by
  refine allows_bind ((?_ : Allows _ s fun _ s' => Good text s').imp fun _ s good => begun.delivers good)
  refine allows_rounds (I := fun _ s => Good text s) (fun _ s good => ?_) good
  refine allows_bind (good.allows_input.imp fun c s read => ?_)
  by_cases zero : c = 0
  · subst zero
    exact allows_pure (read.good (by decide))
  rw [if_neg zero]
  by_cases backslash : c = BACKSLASH
  · subst backslash
    rw [if_pos rfl]
    exact (read.good (by decide)).escape paired fun _ _ good => allows_pure good
  rw [if_neg backslash]
  by_cases quote : c = QUOTE
  · subst quote
    exact allows_pure (read.good (by decide))
  rw [if_neg quote]
  exact allows_bind ((read.allows_lineEnd paired).imp fun _ _ good => allows_pure good)

theorem Begun.constant (begun : Begun text beg) (good : Good text s) (paired : Paired text) {close : UInt8}
    (other : close ≠ NEWLINE) : Delivers text (constant beg close x) s := by
  refine allows_bind ((?_ : Allows _ s fun _ s' => Good text s').imp fun _ s good => begun.delivers good)
  refine allows_rounds (I := fun _ s => Good text s) (fun _ s good => ?_) good
  refine allows_bind (good.allows_input.imp fun c s read => ?_)
  by_cases zero : c = 0
  · subst zero
    exact allows_pure (read.good (by decide))
  rw [if_neg zero]
  by_cases backslash : c = BACKSLASH
  · subst backslash
    rw [if_pos rfl]
    exact (read.good (by decide)).escape paired fun _ _ good => allows_pure good
  rw [if_neg backslash]
  by_cases closes : c = close
  · subst closes
    rw [if_pos rfl]
    exact allows_pure (read.good other)
  rw [if_neg closes]
  by_cases newline : c = NEWLINE
  · rw [if_pos newline]
    exact allows_bind (read.allows_unput.imp fun _ _ good => allows_pure good)
  · rw [if_neg newline]
    exact allows_pure (read.good newline)

theorem Good.comment (good : Good text s) (paired : Paired text) : Allows comment s fun _ s' => Good text s' := by
  refine allows_rounds (I := fun _ s => Good text s) (fun prev s good => ?_) good
  refine allows_bind (good.allows_input.imp fun c s read => ?_)
  by_cases zero : c = 0
  · subst zero
    exact allows_pure (read.good (by decide))
  rw [if_neg zero]
  by_cases closes : c = byte '/' ∧ prev = byte '*'
  · rw [if_pos closes]
    obtain ⟨rfl, _⟩ := closes
    exact allows_pure (read.good (by decide))
  rw [if_neg closes]
  exact allows_bind ((read.allows_lineEnd paired).imp fun _ _ good => allows_pure good)

/-- What a longer token is made of behind its second character. -/
def Continues (text : Text) (longer : List (UInt8 × Scan Tok)) : Prop :=
  ∀ entry ∈ longer, entry.1 ≠ NEWLINE ∧ ∀ s, Good text s → Delivers text entry.2 s

theorem lookup_mem {β : Type} {c : UInt8} {l : List (UInt8 × β)} {b : β} (found : l.lookup c = some b) : (c, b) ∈ l := by
  induction l with
  | nil => cases found
  | cons entry l ih =>
    obtain ⟨d, b'⟩ := entry
    rw [List.lookup_cons] at found
    by_cases same : c = d
    · subst same
      simp at found
      simp [found]
    · have : (c == d) = false := by simpa using same
      rw [this] at found
      exact List.mem_cons_of_mem _ (ih found)

theorem Begun.operator (begun : Begun text beg) (good : Good text s) {longer : List (UInt8 × Scan Tok)}
    (continues : Continues text longer) : Delivers text (operator beg x longer) s := by
  refine allows_bind (good.allows_input.imp fun c s read => ?_)
  cases found : longer.lookup c with
  | some more =>
    obtain ⟨other, delivers⟩ := continues _ (lookup_mem found)
    exact delivers s (read.good other)
  | none => exact allows_bind (read.allows_unput.imp fun _ _ good => begun.delivers good)

theorem Continues.nil : Continues text [] := fun _ among => by cases among

theorem Continues.cons {longer : List (UInt8 × Scan Tok)} {m : Scan Tok} (other : c ≠ NEWLINE)
    (delivers : ∀ s, Good text s → Delivers text m s) (continues : Continues text longer) :
    Continues text ((c, m) :: longer) := by
  intro entry among
  rcases List.mem_cons.mp among with rfl | among
  · exact ⟨other, delivers⟩
  · exact continues entry among

theorem Begun.done (begun : Begun text beg) {longer : List (UInt8 × Scan Tok)} (other : c ≠ NEWLINE)
    (continues : Continues text longer) : Continues text ((c, d_TokenReturn beg x) :: longer) :=
  continues.cons other fun _ good => begun.delivers good

theorem Begun.longer (begun : Begun text beg) {longer more : List (UInt8 × Scan Tok)} (other : c ≠ NEWLINE)
    (inner : Continues text more) (continues : Continues text longer) :
    Continues text ((c, Scanner.operator beg x more) :: longer) :=
  continues.cons other fun _ good => begun.operator good inner

theorem Begun.operators (begun : Begun text beg) : Continues text (operators beg) := by
  have none := @Continues.nil text
  unfold Scanner.operators
  refine begun.longer (by decide) (begun.longer (by decide) (begun.done (by decide) none) (begun.done (by decide) none)) ?_
  refine begun.longer (by decide) (begun.done (by decide) none) ?_
  refine begun.longer (by decide) (begun.done (by decide) none) ?_
  refine begun.longer (by decide) (begun.done (by decide) (begun.done (by decide) none)) ?_
  refine begun.longer (by decide) (begun.longer (by decide) (begun.done (by decide) none)
    (begun.done (by decide) (begun.done (by decide) none))) ?_
  refine begun.longer (by decide) (begun.done (by decide) none) ?_
  refine begun.longer (by decide) (begun.done (by decide) (begun.done (by decide) none)) ?_
  refine begun.longer (by decide) (begun.done (by decide) none) ?_
  refine begun.longer (by decide) (begun.done (by decide) none) ?_
  refine begun.longer (by decide) (begun.done (by decide) (begun.done (by decide) none)) ?_
  exact begun.longer (by decide) (begun.done (by decide) none) none

theorem Begun.less (begun : Begun text beg) (good : Good text s) (paired : Paired text) :
    Delivers text (less beg) s := by
  refine allows_bind (allows_read ?_)
  by_cases include_ : s.lex_mode = .INCLUDE
  · rw [if_pos include_]
    exact begun.constant good paired (by decide)
  · rw [if_neg include_]
    exact begun.operator good (begun.longer (by decide) (begun.done (by decide) .nil) (begun.done (by decide) .nil))

theorem Begun.dot (begun : Begun text beg) (good : Good text s) : Delivers text (dot beg) s := by
  refine allows_bind (good.allows_input.imp fun c s read => ?_)
  by_cases star : c = byte '*'
  · subst star
    exact begun.delivers (read.good (by decide))
  rw [if_neg star]
  by_cases second : c = byte '.'
  · subst second
    rw [if_pos rfl]
    have good₁ := read.good (by decide)
    obtain ⟨s₀, good₀, rfl, _⟩ := read
    refine allows_bind (allows_bind (allows_read (allows_bind (allows_change (allows_pure ?_)))))
    by_cases third : s₀.input.current = byte '.'
    · rw [if_pos third]
      refine begun.delivers (good₁.input ?_)
      rw [third]
      decide
    · rw [if_neg third]
      refine allows_bind (allows_change ?_)
      rw [good₁.unput_input]
      refine allows_bind (allows_change ?_)
      rw [good₀.unput_input]
      exact begun.delivers good₀
  rw [if_neg second]
  by_cases digit : isdigit c = true
  · rw [if_pos digit]
    have good : Good text s := by
      refine read.good ?_
      rintro rfl
      cases digit
    have suffix : ∀ c, ((c == byte 'l') || (c == byte 'L')) = true → c ≠ NEWLINE := by
      rintro c suffix rfl
      cases suffix
    refine allows_bind ((good.allows_inputWhile rfl).imp fun c s read => ?_)
    by_cases power : c = byte 'E' ∨ c = byte 'e'
    · rw [if_pos power]
      have good : Good text s := by
        refine read.1.good ?_
        rintro rfl
        revert power
        decide
      refine allows_bind (good.allows_exponent.imp fun c s read => ?_)
      exact allows_bind ((read.allows_unputUnless (suffix c)).imp fun _ _ good => begun.delivers good)
    · rw [if_neg power]
      exact allows_bind ((read.1.allows_unputUnless (suffix c)).imp fun _ _ good => begun.delivers good)
  · rw [if_neg digit]
    exact allows_bind (read.allows_unput.imp fun _ _ good => begun.delivers good)

theorem Begun.endOfLine (begun : Begun text beg) (good : Good text s) {more : Scan Tok}
    (next : ∀ s, Good text s → Delivers text more s) : Delivers text (endOfLine beg more) s := by
  refine allows_bind (allows_read ?_)
  by_cases directive : s.lex_mode = .PP
  · rw [if_pos directive]
    exact allows_bind (allows_change (begun.delivers (good.change rfl rfl rfl rfl rfl rfl rfl)))
  · rw [if_neg directive]
    exact allows_bind (allows_change (next _ (good.change rfl rfl rfl rfl rfl rfl rfl)))

end Tokens

/-! ### The functions of the scanner -/

section Functions

variable {text : Text} (T : Tables)

/-- A function that keeps the counters right. -/
def Keeps (text : Text) {α : Type} (m : Scan α) : Prop := ∀ s, Good text s → Allows m s fun _ s' => Good text s'

/-- What the functions do with `n` rounds. -/
structure Correct (text : Text) (T : Tables) (n : Nat) : Prop where
  TokenInput : ∀ s, Good text s → Delivers text (f_TokenInput T n) s
  scan : ∀ s, Good text s → Delivers text (scan T n) s
  Preprocessor : ∀ s, Good text s → Allows (f_Preprocessor T n) s fun t s' => (∀ u ∈ t, Scanned text u) ∧ Good text s'
  directive : ∀ s, Good text s → Allows (__Preprocessor T n) s fun t s' => (∀ u ∈ t, Scanned text u) ∧ Good text s'
  ReadToNewline : ∀ tokens, Keeps text (f_TokenReadToNewline T n tokens)
  SkipToNewline : Keeps text (f_TokenSkipToNewline T n)
  SkipByDefine : Keeps text (f_TokenSkipToNewlineByDefine T n)
  SkipName : ∀ lstr lex_last, Keeps text (f_TokenSkipName T n lstr lex_last)
  SpecMacroInput : Keeps text (f_TokenSpecMacroInput T n)
  MacroInput : ∀ t, Keeps text (f_TokenMacroInput T n t)
  ParamCreate : ∀ Param, Keeps text (f_ParamCreate T n Param)
  ParamToken : ∀ tokens p, Keeps text (f_ParamToken T n tokens p)

variable {T} {n : Nat} {s : Lex}

theorem keeps_unfinished {α : Type} : Keeps text (unfinished : Scan α) := fun _ _ => allows_unfinished

theorem correct_zero : Correct text T 0 where
  TokenInput _ _ := allows_unfinished
  scan _ _ := allows_unfinished
  Preprocessor _ _ := allows_unfinished
  directive _ _ := allows_unfinished
  ReadToNewline _ := keeps_unfinished
  SkipToNewline := keeps_unfinished
  SkipByDefine := keeps_unfinished
  SkipName _ _ := keeps_unfinished
  SpecMacroInput := keeps_unfinished
  MacroInput _ := keeps_unfinished
  ParamCreate _ := keeps_unfinished
  ParamToken _ _ := keeps_unfinished

theorem Correct.keeps (correct : Correct text T n) : Keeps text (f_TokenInput T n) :=
  fun s good => (correct.TokenInput s good).imp fun _ _ delivered => delivered.2

/-- A token is read, and then something else that keeps the counters right. -/
theorem Correct.token_bind (correct : Correct text T n) {α : Type} {f : Tok → Scan α} {R : α → Lex → Prop}
    (good : Good text s) (next : ∀ t s, Scanned text t → Good text s → Allows (f t) s R) :
    Allows (f_TokenInput T n >>= f) s R :=
  allows_bind ((correct.TokenInput s good).imp fun t s delivered => next t s delivered.1 delivered.2)

theorem Keeps.bind {α β : Type} {m : Scan α} {f : α → Scan β} (keeps : Keeps text m) (next : ∀ a, Keeps text (f a)) :
    Keeps text (m >>= f) :=
  fun s good => allows_bind ((keeps s good).imp fun a s good => next a s good)

theorem keeps_pure {α : Type} {a : α} : Keeps text (pure a : Scan α) := fun _ good => allows_pure good

theorem keeps_ite {α : Type} {p : Prop} [Decidable p] {m m' : Scan α} (first : p → Keeps text m)
    (second : ¬ p → Keeps text m') : Keeps text (if p then m else m') := by
  by_cases h : p
  · rw [if_pos h]
    exact first h
  · rw [if_neg h]
    exact second h

theorem Correct.scan_succ (correct : Correct text T n) (paired : Paired text) (good : Good text s) :
    Delivers text (Scanner.scan T (n + 1)) s := by
  rw [Scanner.scan]
  refine allows_bind (allows_read ?_)
  refine allows_bind (allows_bind (allows_read (allows_bind (allows_change (allows_pure ?_)))))
  generalize char : s.current = c
  have read : Read text c s.input := ⟨s, good, rfl, char.symm⟩
  have next := correct.scan
  by_cases zero : c = 0
  · subst zero
    have none : (operators ⟨s.before.length, s.yylineno, s.yycharno⟩).lookup 0 = none := rfl
    repeat rw [if_neg (by decide)]
    rw [none]
    have good : Good text { s.input with token_in_line_count := s.input.token_in_line_count + 1 } :=
      (read.good (by decide)).change rfl rfl rfl rfl rfl rfl rfl
    exact allows_bind (allows_read (allows_bind (allows_change (allows_pure ⟨.inl List.mem_cons_self, good⟩))))
  have begun := good.begun (by rw [char]; exact zero)
  by_cases digit : isdigit c = true
  · rw [if_pos digit]
    exact begun.number read
  rw [if_neg digit]
  by_cases start : identifierStart c = true
  · rw [if_pos start]
    refine begun.identifier (read.good ?_) _
    rintro rfl
    cases start
  rw [if_neg start]
  by_cases space : c = byte ' ' ∨ c = byte '\t'
  · rw [if_pos space]
    refine next _ (read.good ?_)
    rintro rfl
    revert space
    decide
  rw [if_neg space]
  by_cases ends : c = CARRIAGE_RETURN ∨ c = NEWLINE
  · rw [if_pos ends]
    exact allows_bind ((read.allows_lineEnd paired).imp fun _ _ good => begun.endOfLine good next)
  rw [if_neg ends]
  have good := read.good fun newline => ends (.inr newline)
  by_cases backslash : c = BACKSLASH
  · rw [if_pos backslash]
    exact good.escape paired fun _ s good => next s good
  rw [if_neg backslash]
  by_cases quote : c = QUOTE
  · rw [if_pos quote]
    exact begun.string good paired
  rw [if_neg quote]
  by_cases apostrophe : c = APOSTROPHE
  · rw [if_pos apostrophe]
    exact begun.constant good paired (by decide)
  rw [if_neg apostrophe]
  by_cases hash : c = byte '#'
  · rw [if_pos hash]
    refine allows_bind (allows_read ?_)
    by_cases first : s.input.token_in_line_count = 0
    · rw [if_pos first]
      refine allows_bind ((correct.Preprocessor _ good).imp fun t s delivered => ?_)
      cases t with
      | some t => exact allows_pure ⟨delivered.1 t rfl, delivered.2⟩
      | none => exact next s delivered.2
    · rw [if_neg first]
      exact next _ good
  rw [if_neg hash]
  by_cases less : c = byte '<'
  · rw [if_pos less]
    exact begun.less good paired
  rw [if_neg less]
  by_cases slash : c = byte '/'
  · rw [if_pos slash]
    refine allows_bind (good.allows_input.imp fun c s read => ?_)
    by_cases assign : c = byte '='
    · subst assign
      exact begun.delivers (read.good (by decide))
    rw [if_neg assign]
    by_cases star : c = byte '*'
    · subst star
      exact allows_bind (((read.good (by decide)).comment paired).imp fun _ s good => next s good)
    rw [if_neg star]
    by_cases second : c = byte '/'
    · subst second
      refine allows_bind (((read.good (by decide)).allows_inputWhile rfl).imp fun c s read => ?_)
      by_cases newline : c = NEWLINE
      · subst newline
        exact allows_bind (allows_change (begun.endOfLine read.1.newline next))
      · rw [if_neg newline]
        exact next s (read.1.good newline)
    · rw [if_neg second]
      exact allows_bind (read.allows_unput.imp fun _ _ good => begun.delivers good)
  rw [if_neg slash]
  by_cases point : c = byte '.'
  · rw [if_pos point]
    exact begun.dot good
  rw [if_neg point]
  cases found : (operators ⟨s.before.length, s.yylineno, s.yycharno⟩).lookup c with
  | some more => exact (begun.operators _ (lookup_mem found)).2 _ good
  | none =>
    by_cases among : c ∈ single
    · simp only [if_pos among]
      exact begun.delivers good
    · simp only [if_neg among, if_neg zero]
      exact next _ good

theorem Scanned.relex {t : Tok} (scanned : Scanned text t) (other : t.lex ∉ unscanned) (lex : Nat) (pcValue : Option Text) :
    Scanned text { t with lex, pcValue } := by
  have isExact := scanned.resolve_left other
  exact .inr ⟨isExact.lineno, isExact.charno, isExact.bytes⟩

theorem Correct.directive_succ (correct : Correct text T n) (good : Good text s) :
    Allows (__Preprocessor T (n + 1)) s fun t s' => (∀ u ∈ t, Scanned text u) ∧ Good text s' := by
  have marker : ∀ (lex : Nat) (mode : Mode), lex ∈ unscanned → ∀ u ∈ some ({ lex, mode } : Tok), Scanned text u := by
    rintro lex mode among u ⟨⟩
    exact .inl among
  have none : ∀ u ∈ (none : Option Tok), Scanned text u := fun u among => by cases among
  have skip : ∀ {s : Lex} (t : Option Tok), Good text s → (∀ u ∈ t, Scanned text u) →
      Allows (do f_TokenSkipToNewline T n; pure t) s fun t s' => (∀ u ∈ t, Scanned text u) ∧ Good text s' :=
    fun t good scanned => allows_bind ((correct.SkipToNewline _ good).imp fun _ _ good => allows_pure ⟨scanned, good⟩)
  rw [__Preprocessor]
  refine correct.token_bind good fun t s _ good => ?_
  by_cases define_ : t.text = ascii "define"
  · rw [if_pos define_]
    refine correct.token_bind good fun t s scanned good => ?_
    by_cases identifier : t.lex = SN_IDENTIFIER
    · rw [if_pos identifier]
      refine allows_bind ((correct.SkipByDefine s good).imp fun pcValue s good => allows_pure ⟨?_, good⟩)
      rintro u ⟨⟩
      exact scanned.relex (by rw [identifier]; decide) _ _
    · rw [if_neg identifier]
      exact skip _ good none
  rw [if_neg define_]
  by_cases include_ : t.text = ascii "include"
  · rw [if_pos include_]
    refine allows_bind (allows_read (allows_bind (allows_change ?_)))
    refine correct.token_bind (good.change rfl rfl rfl rfl rfl rfl rfl) fun t s scanned good => ?_
    refine allows_bind (allows_change ?_)
    refine skip _ (good.change rfl rfl rfl rfl rfl rfl rfl) ?_
    by_cases literal : t.lex = SN_STRINGliteral ∨ t.lex = SN_INCLUDEliteral
    · rw [if_pos literal]
      rintro u ⟨⟩
      refine scanned.relex ?_ _ _
      rcases literal with lex | lex <;> rw [lex] <;> decide
    · rw [if_neg literal]
      exact none
  rw [if_neg include_]
  by_cases if_ : t.text = ascii "if"
  · rw [if_pos if_]
    exact allows_bind ((correct.ReadToNewline [] s good).imp fun _ _ good => allows_pure ⟨marker _ _ (by decide), good⟩)
  rw [if_neg if_]
  by_cases ifdef : t.text = ascii "ifdef"
  · rw [if_pos ifdef]
    exact correct.token_bind good fun t s _ good => skip _ good (marker _ _ (by decide))
  rw [if_neg ifdef]
  by_cases ifndef : t.text = ascii "ifndef"
  · rw [if_pos ifndef]
    exact correct.token_bind good fun t s _ good => skip _ good (marker _ _ (by decide))
  rw [if_neg ifndef]
  by_cases else_ : t.text = ascii "else"
  · rw [if_pos else_]
    exact skip _ good (marker _ _ (by decide))
  rw [if_neg else_]
  by_cases elif : t.text = ascii "elif"
  · rw [if_pos elif]
    exact allows_bind ((correct.ReadToNewline [] s good).imp fun _ _ good => allows_pure ⟨marker _ _ (by decide), good⟩)
  rw [if_neg elif]
  by_cases endif : t.text = ascii "endif"
  · rw [if_pos endif]
    exact skip _ good (marker _ _ (by decide))
  rw [if_neg endif]
  by_cases newline : t.lex = SN_NEWLINE
  · rw [if_pos newline]
    exact allows_pure ⟨none, good⟩
  · rw [if_neg newline]
    exact skip _ good none

theorem Correct.macro_succ (correct : Correct text T n) (t : Tok) : Keeps text (f_TokenMacroInput T (n + 1) t) := by
  rw [f_TokenMacroInput]
  cases T.f_MacroFind t.text with
  | none => exact keeps_pure
  | some M =>
    simp only
    cases M.typ with
    | CPP_DEFINE => exact keeps_pure
    | CPP_UNDEF => exact keeps_pure
    | CPP_MACRO =>
      intro s good
      refine correct.token_bind good fun next s scanned good => ?_
      by_cases opens : next.lex = chr '('
      · rw [if_pos opens]
        exact (correct.ParamCreate []).bind (fun _ => keeps_pure) s good
      · rw [if_neg opens]
        refine allows_bind (allows_change (allows_pure ⟨good.file, good.lineno, good.charno, good.eof, ?_⟩))
        rintro u ⟨⟩
        exact scanned

theorem Correct.succ (correct : Correct text T n) (paired : Paired text) : Correct text T (n + 1) where
  TokenInput s good := by
    rw [f_TokenInput]
    refine allows_bind (allows_read ?_)
    cases unput : s.TokenUnput with
    | none => exact correct.scan s good
    | some t =>
      refine allows_bind (allows_change (allows_pure ⟨good.unput t unput, ?_⟩))
      exact ⟨good.file, good.lineno, good.charno, good.eof, fun u among => by cases among⟩
  scan s good := correct.scan_succ paired good
  Preprocessor s good := by
    rw [f_Preprocessor]
    refine allows_bind (allows_read (allows_bind (allows_change ?_)))
    have good : Good text { s with lex_mode := .PP } := good.change rfl rfl rfl rfl rfl rfl rfl
    refine allows_bind ((correct.directive _ good).imp fun t s delivered => ?_)
    exact allows_bind (allows_change (allows_pure ⟨delivered.1, delivered.2.change rfl rfl rfl rfl rfl rfl rfl⟩))
  directive s good := correct.directive_succ good
  ReadToNewline tokens := by
    rw [f_TokenReadToNewline]
    refine correct.SpecMacroInput.bind fun next => ?_
    obtain ⟨_ | ⟨t, more⟩, found⟩ := next
    · exact correct.ReadToNewline tokens
    · exact keeps_ite (fun _ => keeps_pure) fun _ => correct.ReadToNewline _
  SkipToNewline := by
    rw [f_TokenSkipToNewline]
    exact correct.keeps.bind fun t => keeps_ite (fun _ => keeps_pure) fun _ => correct.SkipToNewline
  SkipByDefine := by
    rw [f_TokenSkipToNewlineByDefine]
    refine correct.keeps.bind fun t => keeps_ite (fun _ => ?_) fun _ => ?_
    · exact (correct.SkipName _ _).bind fun _ => keeps_pure
    · exact keeps_ite (fun _ => keeps_pure) fun _ => correct.SkipToNewline.bind fun _ => keeps_pure
  SkipName lstr lex_last := by
    rw [f_TokenSkipName]
    refine correct.keeps.bind fun t => keeps_ite (fun _ => correct.SkipName _ _) fun _ => ?_
    exact keeps_ite (fun _ => keeps_pure) fun _ => correct.SkipToNewline.bind fun _ => keeps_pure
  SpecMacroInput := by
    rw [f_TokenSpecMacroInput]
    refine correct.keeps.bind fun t => keeps_ite (fun _ => ?_) fun _ => keeps_pure
    refine keeps_ite (fun _ => ?_) fun _ => correct.MacroInput t
    refine correct.keeps.bind fun t => keeps_ite (fun _ => ?_) fun _ => keeps_pure
    exact correct.keeps.bind fun _ => correct.keeps.bind fun _ => keeps_pure
  MacroInput := correct.macro_succ
  ParamCreate Param := by
    rw [f_ParamCreate]
    refine (correct.ParamToken [] 0).bind fun found => keeps_ite (fun _ => keeps_unfinished) fun _ => ?_
    exact keeps_ite (fun _ => correct.ParamCreate _) fun _ => keeps_pure
  ParamToken tokens p := by
    rw [f_ParamToken]
    refine correct.keeps.bind fun t => keeps_ite (fun _ => ?_) fun _ => ?_
    · exact (correct.MacroInput t).bind fun _ => correct.ParamToken _ _
    · refine keeps_ite (fun _ => keeps_pure) fun _ => ?_
      exact keeps_ite (fun _ => keeps_pure) fun _ => correct.ParamToken _ _

theorem correct (paired : Paired text) (n : Nat) : Correct text T n := by
  induction n with
  | zero => exact correct_zero
  | succ n ih => exact ih.succ paired

end Functions

/-! ### Runs -/

/-- The states in which `f_TokenInput` is called in the reading of a file: `f_ReadFile` starts it, a token
can be put back, `lex_mode` and the count of the tokens in the line can be set, and characters are
passed over, among them the `#` of a directive. -/
inductive Reached (T : Tables) (text : Text) : Lex → Prop
  | start : Reached T text { rest := text }
  | read {s s' t n} (reached : Reached T text s) (run : (f_TokenInput T n).run s = .done t s') : Reached T text s'
  | unput {s s' t n} (reached : Reached T text s) (run : (f_TokenInput T n).run s = .done t s') :
      Reached T text { s' with TokenUnput := some t }
  | mode {s} (reached : Reached T text s) (lex_mode : LexMode) (token_in_line_count : Int) :
      Reached T text { s with lex_mode, token_in_line_count }

  | pass {s s' c} (reached : Reached T text s)
      (run : (do let c ← input; lineEnd c : Scan UInt8).run s = .done c s') : Reached T text s'

theorem Reached.good {T : Tables} {text : Text} {s : Lex} (reached : Reached T text s) (paired : Paired text) :
    Good text s := by
  induction reached with
  | start => exact ⟨rfl, rfl, rfl, fun past => absurd rfl past, fun t among => by cases among⟩
  | read _ run good => exact ((correct paired _).TokenInput _ good _ _ run).2
  | unput _ run good =>
    obtain ⟨scanned, good⟩ := (correct paired _).TokenInput _ good _ _ run
    refine ⟨good.file, good.lineno, good.charno, good.eof, ?_⟩
    rintro u ⟨⟩
    exact scanned
  | mode _ _ _ good => exact good.change rfl rfl rfl rfl rfl rfl rfl
  | pass _ run good =>
    exact allows_bind (good.allows_input.imp fun _ _ read => read.allows_lineEnd paired) _ _ run

theorem paired_nil : Paired [] := fun a b split => by cases a <;> cases split

theorem Paired.cons {c : UInt8} {text : Text} (paired : Paired text)
    (next : c = CARRIAGE_RETURN → text.head? = some NEWLINE) : Paired (c :: text) := by
  intro a b split
  cases a with
  | nil =>
    injection split with same rest
    rw [← rest]
    exact next same
  | cons d a =>
    injection split with _ rest
    exact paired a b rest

/-- No keywords and no macros. -/
def noTables : Tables := ⟨fun _ => none, fun _ => none, fun _ => .UNDEF, fun _ => .UNDEF⟩

end SourceNavigator.Cpp.Scanner

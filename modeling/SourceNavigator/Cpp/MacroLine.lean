import SourceNavigator.LongStr.Operations

/-!
The lines of a macro definition file (`parsers/cpp/cpplib/macread.c`).

`remove_unneded_chars` squeezes the white space of a line in place. It takes a
blank in front of a bracket or a comma back only where its output is behind its
input, that is where something was dropped before.

* `normal` says what is to be left of a line: its characters, with a blank for
  white space except next to brackets and the commas between them.
* `squeeze_eq_normal` says that the code leaves just that of a line that is
  `Tidy`: it has a surplus in front of the first blank that is to be closed up.
-/

namespace SourceNavigator.Cpp.Macread

open LongStr

abbrev BLANK : UInt8 := 32
abbrev OPENING : UInt8 := 40
abbrev CLOSING : UInt8 := 41
abbrev COMMA : UInt8 := 44
abbrev BACKSLASH : UInt8 := 92

/-! ### The code -/

/-- The characters skipped at the start of a line. -/
def skipped (c : UInt8) : Bool := isspace c || c == 35

/-- The loop of `remove_unneded_chars`. `out` is what was written in front of `p`, `pc` the
position of the character read, and `inner` says that the loop that skips the white space behind a
bracket or a comma is not over. -/
def squeeze (out : Text) (pc : Nat) (brac_lev : Int) (prev_ch : UInt8) (inner : Bool) :
    Text → Text
  | [] => out
  | c :: rest =>
    if isspace c && (inner || isspace prev_ch) then
      squeeze out (pc + 1) brac_lev prev_ch inner rest
    else
      let c := if isspace c then BLANK else c
      let back := if isspace prev_ch && decide (out.length < pc) then out.dropLast else out
      if c = CLOSING then
        squeeze (back ++ [c]) (pc + 1) (brac_lev - 1) c false rest
      else if c = OPENING ∨ c = COMMA then
        let brac_lev := if c = OPENING then brac_lev + 1 else brac_lev
        if brac_lev ≠ 0 then squeeze (back ++ [c]) (pc + 1) brac_lev c true rest
        else squeeze (out ++ [c]) (pc + 1) brac_lev c false rest
      else squeeze (out ++ [c]) (pc + 1) brac_lev c false rest

/-- `remove_unneded_chars` -/
def remove_unneded_chars (buf : Text) : Text :=
  let buf := cString buf
  squeeze [] (buf.takeWhile skipped).length 0 0 false (buf.dropWhile skipped)

/-! ### The white space that counts -/

/-- The characters of a text that are no white space, each with whether there is white space in
front of it. `gap` says whether there is some in front of the text. -/
def gaps (gap : Bool) : Text → List (Bool × UInt8)
  | [] => []
  | c :: rest => if isspace c then gaps true rest else (gap, c) :: gaps false rest

/-- The level of brackets behind a character. -/
def level (lev : Int) (c : UInt8) : Int :=
  if c = CLOSING then lev - 1 else if c = OPENING then lev + 1 else lev

/-- White space behind the character is dropped. -/
def closesAfter (lev : Int) (c : UInt8) : Bool :=
  (c == OPENING || c == COMMA) && level lev c != 0

/-- White space in front of the character is dropped. -/
def closesBefore (lev : Int) (c : UInt8) : Bool := c == CLOSING || closesAfter lev c

/-- The text with these gaps, where `closed` says that a gap at its start is dropped. -/
def normal (lev : Int) (closed : Bool) : List (Bool × UInt8) → Text
  | [] => []
  | (gap, c) :: rest =>
    (if gap && !closed && !closesBefore lev c then [BLANK, c] else [c]) ++
      normal (level lev c) (closesAfter lev c) rest

/-- What is to be left of a line. -/
def normalLine (line : Text) : Text := normal 0 true (gaps false (line.dropWhile skipped))

/-- Nothing was dropped so far. Then the first white space that is to be closed up is one that the
code skips: it does not take a single blank in front of a bracket or a comma back. -/
def Surplus (lev : Int) (blank : Bool) : Text → Prop
  | [] => True
  | c :: rest =>
    if isspace c then blank = true ∨ Surplus lev true rest
    else
      ¬ (blank = true ∧ closesBefore lev c = true) ∧
        (closesAfter lev c = true ∧ rest.head?.any isspace = true ∨
          Surplus (level lev c) false rest)

instance : (lev : Int) → (blank : Bool) → (text : Text) → Decidable (Surplus lev blank text)
  | _, _, [] => isTrue trivial
  | lev, blank, c :: rest =>
    haveI := instDecidableSurplus lev true rest
    haveI := instDecidableSurplus (level lev c) false rest
    inferInstanceAs (Decidable (if isspace c then blank = true ∨ Surplus lev true rest
      else ¬ (blank = true ∧ closesBefore lev c = true) ∧
        (closesAfter lev c = true ∧ rest.head?.any isspace = true ∨
          Surplus (level lev c) false rest)))

/-- The line has no NUL, does not end in white space, and has a surplus: it starts with white space
or a hash, or has one in front of the first blank that is to be closed up. -/
structure Tidy (line : Text) : Prop where
  nul : 0 ∉ line
  ends : ∀ c, line.getLast? = some c → isspace c = false
  surplus : line.takeWhile skipped ≠ [] ∨ Surplus 0 false line

/-! ### Squeezing -/

section Squeeze

variable {g : Bool} {lev : Int} {c prev_ch : UInt8} {out rest : Text} {pc : Nat} {inner : Bool}

theorem gaps_space (space : isspace c = true) : gaps g (c :: rest) = gaps true rest :=
  if_pos space

theorem gaps_char (char : isspace c = false) : gaps g (c :: rest) = (g, c) :: gaps false rest :=
  if_neg (by simp [char])

/-- A gap at the start of a text is dropped there. -/
theorem normal_closed (lev : Int) (g : Bool) (text : Text) :
    normal lev true (gaps g text) = normal lev true (gaps false text) := by
  cases text with
  | nil => rfl
  | cons c rest =>
    cases space : isspace c with
    | true => rw [gaps_space space, gaps_space space]
    | false =>
      rw [gaps_char space, gaps_char space]
      simp [normal]

/-- The text does not end in white space. -/
def Ends (text : Text) : Prop := ∀ c, text.getLast? = some c → isspace c = false

theorem Ends.tail (ends : Ends (c :: rest)) : Ends rest := by
  intro d last
  refine ends d ?_
  rw [List.getLast?_cons, last]
  rfl

theorem Ends.ne_nil (ends : Ends (c :: rest)) (space : isspace c = true) : rest ≠ [] := by
  rintro rfl
  have char := ends c rfl
  rw [space] at char
  cases char

/-- The blank that was written last can still be taken back. -/
def unblanked (prev_ch : UInt8) (out : Text) : Text :=
  if isspace prev_ch then out.dropLast else out

theorem unblanked_char (char : isspace prev_ch = false) : unblanked prev_ch out = out :=
  if_neg (by simp [char])

/-- A character that is no white space is written, without the blank in front of it or with it. -/
theorem squeeze_char (char : isspace c = false)
    (slack : isspace prev_ch = true → closesBefore lev c = true → out.length < pc) :
    squeeze out pc lev prev_ch inner (c :: rest) =
      squeeze ((if closesBefore lev c then unblanked prev_ch out else out) ++ [c]) (pc + 1)
        (level lev c) c (closesAfter lev c) rest := by
  have back (closes : closesBefore lev c = true) :
      (if isspace prev_ch && decide (out.length < pc) then out.dropLast else out) =
        unblanked prev_ch out := by
    rw [unblanked]
    cases blank : isspace prev_ch with
    | false => rfl
    | true => simp [slack blank closes]
  rw [squeeze]
  simp only [char, Bool.false_and, Bool.false_eq_true, if_false]
  by_cases closing : c = CLOSING
  · subst closing
    rw [if_pos rfl, back rfl]
    rfl
  · rw [if_neg closing]
    by_cases bracket : c = OPENING ∨ c = COMMA
    · rw [if_pos bracket]
      have levels : (if c = OPENING then lev + 1 else lev) = level lev c := by
        rw [level, if_neg closing]
      rw [levels]
      by_cases flat : level lev c = 0
      · have stays : closesAfter lev c = false := by simp [closesAfter, flat]
        have before : closesBefore lev c = false := by simp [closesBefore, stays, closing]
        rw [if_neg (by simp [flat]), before, stays]
        rfl
      · have drops : closesAfter lev c = true := by
          rcases bracket with rfl | rfl <;> simp [closesAfter, flat]
        have before : closesBefore lev c = true := by simp [closesBefore, drops]
        rw [if_pos flat, back before, before, drops]
        rfl
    · rw [if_neg bracket]
      rw [not_or] at bracket
      have stays : closesAfter lev c = false := by simp [closesAfter, bracket.1, bracket.2]
      have before : closesBefore lev c = false := by simp [closesBefore, stays, closing]
      have same : level lev c = lev := by rw [level, if_neg closing, if_neg bracket.1]
      rw [before, stays, same]
      rfl

/-- The loop leaves what is to be left of the rest of the line, if its output is behind its input or
the rest has a surplus. -/
theorem squeeze_eq (rest : Text) (ends : Ends rest)
    (blank : isspace prev_ch = true → rest ≠ [] ∧ inner = false ∧ ∃ o, out = o ++ [BLANK])
    (slack : out.length < pc ∨ out.length = pc ∧
      (Surplus lev (isspace prev_ch) rest ∨
        inner = true ∧ rest.head?.any isspace = true)) :
    squeeze out pc lev prev_ch inner rest =
      unblanked prev_ch out ++ normal lev inner (gaps (isspace prev_ch) rest) := by
  induction rest generalizing out pc lev prev_ch inner with
  | nil =>
    have char : isspace prev_ch = false := by
      rw [Bool.eq_false_iff]
      exact fun space => (blank space).1 rfl
    simp [squeeze, unblanked, char, gaps, normal]
  | cons c rest ih =>
    cases space : isspace c with
    | true =>
      rw [gaps_space space]
      have more := ends.ne_nil space
      by_cases dropped : inner = true ∨ isspace prev_ch = true
      · -- white space that is not written
        have skips : (isspace c && (inner || isspace prev_ch)) = true := by
          rcases dropped with h | h <;> simp [space, h]
        rw [squeeze, if_pos skips, ih ends.tail _ (.inl (by omega))]
        · rcases dropped with rfl | prev
          · rw [normal_closed, normal_closed lev true]
          · rw [prev]
        · intro prev
          exact ⟨more, (blank prev).2⟩
      · -- the first of some white space becomes a blank
        rw [not_or, Bool.not_eq_true, Bool.not_eq_true] at dropped
        obtain ⟨outside, prev⟩ := dropped
        have writes : squeeze out pc lev prev_ch inner (c :: rest) =
            squeeze (out ++ [BLANK]) (pc + 1) lev BLANK false rest := by
          rw [squeeze]
          simp only [space, outside, prev, Bool.or_self, Bool.and_false, Bool.false_eq_true,
            if_false, if_true]
          rfl
        rw [writes, ih ends.tail]
        · have white : isspace BLANK = true := rfl
          rw [unblanked_char prev, unblanked, if_pos white, List.dropLast_concat, white,
            outside]
        · exact fun _ => ⟨more, rfl, out, rfl⟩
        · rw [List.length_append, List.length_singleton]
          rcases slack with less | ⟨same, surplus | ⟨within, -⟩⟩
          · exact .inl (by omega)
          · rw [Surplus, if_pos space, prev] at surplus
            rcases surplus with absent | surplus
            · cases absent
            · exact .inr ⟨by omega, .inl surplus⟩
          · rw [outside] at within
            cases within
    | false =>
      rw [gaps_char space]
      have written (surplus : Surplus lev (isspace prev_ch) (c :: rest)) :
          ¬ (isspace prev_ch = true ∧ closesBefore lev c = true) ∧
            (closesAfter lev c = true ∧ rest.head?.any isspace = true ∨
              Surplus (level lev c) false rest) := by
        rwa [Surplus, if_neg (by simp [space])] at surplus
      have back : isspace prev_ch = true → closesBefore lev c = true → out.length < pc := by
        intro prev closes
        rcases slack with less | ⟨-, surplus | ⟨-, white⟩⟩
        · exact less
        · exact absurd ⟨prev, closes⟩ (written surplus).1
        · simp [space] at white
      rw [squeeze_char space back, ih ends.tail]
      · -- what was written, with the blank or without it
        rw [normal, unblanked_char space, space, ← List.append_assoc]
        congr 1
        cases prev : isspace prev_ch with
        | false => cases inner <;> cases closesBefore lev c <;> simp [unblanked, prev]
        | true =>
          obtain ⟨-, outside, o, rfl⟩ := blank prev
          cases closesBefore lev c <;> simp [unblanked, prev, outside]
      · intro white
        rw [space] at white
        cases white
      · -- the output keeps its distance
        rw [List.length_append, List.length_singleton, space]
        rcases slack with less | ⟨same, surplus | ⟨-, white⟩⟩
        · refine .inl ?_
          split
          case isTrue =>
            rw [unblanked]
            split
            case isTrue => simp only [List.length_dropLast]; omega
            case isFalse => omega
          case isFalse => omega
        · obtain ⟨stays, further⟩ := written surplus
          have length : (if closesBefore lev c then unblanked prev_ch out else out).length =
              out.length := by
            split
            case isTrue closes =>
              rw [unblanked, if_neg fun prev => stays ⟨prev, closes⟩]
            case isFalse => rfl
          exact .inr ⟨by omega, further.symm⟩
        · simp [space] at white

end Squeeze

/-- The code leaves what is to be left of a line that is `Tidy`. -/
theorem squeeze_eq_normal {line : Text} (tidy : Tidy line) :
    remove_unneded_chars line = normalLine line := by
  have whole : cString line = line := by
    refine List.takeWhile_eq_self_iff.mpr fun c mem => ?_
    rw [bne_iff_ne]
    rintro rfl
    exact tidy.nul mem
  have parts := List.takeWhile_append_dropWhile (p := skipped) (l := line)
  have ends : Ends (line.dropWhile skipped) := by
    intro c last
    refine tidy.ends c ?_
    rw [← parts, List.getLast?_append, last]
    rfl
  have slack : ([] : Text).length < (line.takeWhile skipped).length ∨
      ([] : Text).length = (line.takeWhile skipped).length ∧
        (Surplus 0 (isspace 0) (line.dropWhile skipped) ∨
          false = true ∧ (line.dropWhile skipped).head?.any isspace = true) := by
    rcases Nat.eq_zero_or_pos (line.takeWhile skipped).length with none_skipped | some_skipped
    · have nothing := List.length_eq_zero_iff.mp none_skipped
      rw [nothing, List.nil_append] at parts
      rw [nothing, parts]
      exact .inr ⟨rfl, .inl (tidy.surplus.resolve_left fun h => h nothing)⟩
    · exact .inl some_skipped
  have squeezed : squeeze [] (line.takeWhile skipped).length 0 0 false (line.dropWhile skipped) =
      unblanked 0 [] ++ normal 0 false (gaps (isspace 0) (line.dropWhile skipped)) :=
    squeeze_eq (line.dropWhile skipped) ends (fun blank => by cases blank) slack
  rw [remove_unneded_chars, whole, squeezed, normalLine]
  cases left : line.dropWhile skipped with
  | nil => rfl
  | cons c rest =>
    have char : isspace c = false := by
      have head := List.head?_dropWhile_not skipped line
      rw [left] at head
      simp only [List.head?_cons] at head
      rw [skipped] at head
      exact (Bool.or_eq_false_iff.mp head).1
    have zero : isspace 0 = false := rfl
    rw [zero, gaps_char char]
    rfl

/-- The amount of white space in a line makes no difference for what is to be left of it. -/
theorem normalLine_gaps {line line' : Text} (same : gaps true line = gaps true line') :
    normalLine line = normalLine line' := by
  have hashes (line : Text) (g : Bool) : normalLine line =
      normal 0 true ((gaps g line).dropWhile fun c => c.2 == 35) := by
    rw [normalLine]
    induction line generalizing g with
    | nil => rfl
    | cons c rest ih =>
      rw [List.dropWhile_cons, skipped]
      cases space : isspace c with
      | true =>
        rw [gaps_space space, Bool.true_or, if_pos rfl]
        exact ih true
      | false =>
        rw [gaps_char space, List.dropWhile_cons, Bool.false_or]
        cases hash : c == 35 with
        | true =>
          rw [if_pos rfl, if_pos rfl]
          exact ih false
        | false =>
          rw [if_neg Bool.false_ne_true, if_neg Bool.false_ne_true, gaps_char space]
          simp [normal]
  rw [hashes line true, hashes line' true, same]

end SourceNavigator.Cpp.Macread

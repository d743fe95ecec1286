import SourceNavigator.Cpp.MacroLine

/-!
The continuation lines of a macro definition file (`MacroReadFile` in
`parsers/cpp/cpplib/macread.c`).

`texts` are the texts that the code hands to `remove_unneded_chars`, and
`statements` what they ought to be: a line that ends in a backslash goes on with
the whole next line. The code trims the next line first, skips it if it is blank,
and leaves the backslash if nothing follows.

`joined_eq` says that in a file that is `Settled` the two differ in white space
that is closed up, so that the same is to be left of both.
-/

namespace SourceNavigator.Cpp.Macread

open LongStr

/-! ### The code -/

/-- What `trim` removes. -/
def trim_pat : Text := [32, 9, NEWLINE, CARRIAGE_RETURN]

def trim (line : Text) : Text := trimText trim_pat line

/-- An empty line or a comment. -/
def idle (line : Text) : Bool := (trim line).headD 0 == 0 || (trim line).head? == some 39

/-- The last character is a backslash. -/
def continues (line : Text) : Bool := (trim line).getLast? == some BACKSLASH

/-- The texts that are handed on. In the loop that reads continuation lines there are a text whose
length is counted in `bf` and the one that stands in its buffer, which differ as long as nothing
has been appended where the backslash was. -/
def texts : Option (Text × Text) → List Text → List Text
  | none, [] => []
  | some (_, buf), [] => [buf]
  | none, line :: rest =>
    if idle line then texts none rest
    else if continues line then texts (some ((trim line).dropLast, trim line)) rest
    else trim line :: texts none rest
  | some (bf, buf), line :: rest =>
    if line = [] then buf :: texts none rest
    else if trim line = [] then texts (some (bf, buf)) rest
    else if continues line then
      let more := (trim line).dropLast
      if more = [] then texts (some (bf, buf)) rest
      else texts (some (bf ++ more, bf ++ more)) rest
    else (bf ++ trim line) :: texts none rest

/-! ### What is to be read -/

/-- The white space at the start of a line. -/
def indentation (line : Text) : Text := line.takeWhile trim_pat.contains

/-- What a line adds to a statement, behind its indentation. -/
def part (line : Text) : Text := if continues line then (trim line).dropLast else trim line

/-- The statements of a file, where a line that ends in a backslash goes on with the next one. -/
def statements : Option Text → List Text → List Text
  | none, [] => []
  | some text, [] => [text]
  | none, line :: rest =>
    if idle line then statements none rest
    else if continues line then statements (some (part line)) rest
    else part line :: statements none rest
  | some text, line :: rest =>
    if continues line then statements (some (text ++ indentation line ++ part line)) rest
    else (text ++ indentation line ++ part line) :: statements none rest

/-- White space between a text and what follows it makes no difference: it stands at the start,
there is some already, or it is closed up. -/
def absorbs (lev : Int) (closed gap : Bool) : Text → Text → Bool
  | [], next => closed || gap || next.head?.any (closesBefore lev)
  | c :: text, next =>
    if isspace c then absorbs lev closed true text next
    else absorbs (level lev c) (closesAfter lev c) false text next

def Closed (text next : Text) : Prop := absorbs 0 true false (text.dropWhile skipped) next = true

instance (text next : Text) : Decidable (Closed text next) :=
  inferInstanceAs (Decidable (_ = true))

/-- The lines are joined as they are to be. Each text that comes out is `Tidy`; behind a backslash
stands no blank line, and an empty line or the end of the file only where a part has been appended
already; and a continuation line is indented only where white space makes no difference. The state
says whether a part has been appended to a text. -/
def Settled : Option (Bool × Text) → List Text → Prop
  | none, [] => True
  | some (appended, text), [] => appended = true ∧ Tidy text
  | none, line :: rest =>
    if idle line then Settled none rest
    else if continues line then Settled (some (false, part line)) rest
    else Tidy (part line) ∧ Settled none rest
  | some (appended, text), line :: rest =>
    if line = [] then appended = true ∧ Tidy text ∧ Settled none rest
    else
      trim line ≠ [] ∧ (indentation line = [] ∨ Closed text (part line)) ∧
        if continues line then Settled (some (appended || part line != [], text ++ part line)) rest
        else Tidy (text ++ part line) ∧ Settled none rest

/-! ### White space between the parts -/

section Join

variable {lev : Int} {closed g : Bool} {text text' next white : Text}

theorem gaps_white (spaces : ∀ c ∈ white, isspace c = true) (some_white : white ≠ []) :
    gaps g (white ++ next) = gaps true next := by
  induction white generalizing g with
  | nil => exact absurd rfl some_white
  | cons c white ih =>
    rw [List.cons_append, gaps_space (spaces c List.mem_cons_self)]
    by_cases last : white = []
    · rw [last, List.nil_append]
    · exact ih (fun d mem => spaces d (List.mem_cons_of_mem c mem)) last

/-- A gap in front of a text that closes it up makes no difference. -/
theorem normal_gap (closes : next.head?.any (closesBefore lev) = true) :
    normal lev closed (gaps true next) = normal lev closed (gaps false next) := by
  cases next with
  | nil => rfl
  | cons c rest =>
    have before : closesBefore lev c = true := closes
    cases space : isspace c with
    | true => rw [gaps_space space, gaps_space space]
    | false =>
      rw [gaps_char space, gaps_char space, normal, normal]
      simp [before]

theorem normal_white (spaces : ∀ c ∈ white, isspace c = true)
    (absorbed : absorbs lev closed g text next = true) :
    normal lev closed (gaps g (text ++ (white ++ next))) =
      normal lev closed (gaps g (text ++ next)) := by
  by_cases some_white : white = []
  · rw [some_white, List.nil_append]
  induction text generalizing lev closed g with
  | nil =>
    rw [List.nil_append, List.nil_append, gaps_white spaces some_white]
    rw [absorbs, Bool.or_eq_true, Bool.or_eq_true] at absorbed
    rcases absorbed with (rfl | rfl) | closes
    · rw [normal_closed, normal_closed lev g]
    · rfl
    · cases g with
      | true => rfl
      | false => exact normal_gap closes
  | cons c text ih =>
    rw [absorbs] at absorbed
    rw [List.cons_append, List.cons_append]
    cases space : isspace c with
    | true =>
      rw [if_pos space] at absorbed
      rw [gaps_space space, gaps_space space, ih absorbed]
    | false =>
      rw [if_neg (by simp [space])] at absorbed
      rw [gaps_char space, gaps_char space, normal, normal, ih absorbed]

theorem absorbs_append (absorbed : absorbs lev closed g text next = true) (more : Text) :
    absorbs lev closed g text (next ++ more) = true := by
  induction text generalizing lev closed g with
  | nil =>
    rw [absorbs] at absorbed ⊢
    cases next with
    | nil =>
      simp only [List.head?_nil, Option.any_none, Bool.or_false] at absorbed
      rw [absorbed, Bool.true_or]
    | cons c rest => exact absorbed
  | cons c text ih =>
    rw [absorbs] at absorbed ⊢
    split at absorbed
    case isTrue space => rw [if_pos space, ih absorbed]
    case isFalse char => rw [if_neg char, ih absorbed]

/-- White space that is closed up between two parts of a line makes no difference. -/
theorem normalLine_white (spaces : ∀ c ∈ white, isspace c = true) (closed : Closed text next)
    (more : Text) :
    normalLine (text ++ white ++ next ++ more) = normalLine (text ++ next ++ more) := by
  have absorbed := absorbs_append closed more
  have skips (c : UInt8) (mem : c ∈ white) : skipped c = true := by
    rw [skipped, spaces c mem, Bool.true_or]
  rw [List.append_assoc, List.append_assoc, List.append_assoc text, normalLine, normalLine]
  cases start : (text.dropWhile skipped).isEmpty with
  | true =>
    have front (rest : Text) : (text ++ rest).dropWhile skipped = rest.dropWhile skipped := by
      rw [List.dropWhile_append, if_pos start]
    rw [front, front, List.dropWhile_append, List.dropWhile_eq_nil_iff.mpr skips]
    rfl
  | false =>
    have front (rest : Text) :
        (text ++ rest).dropWhile skipped = text.dropWhile skipped ++ rest := by
      rw [List.dropWhile_append, if_neg (by rw [start]; exact Bool.false_ne_true)]
    rw [front, front]
    exact normal_white spaces absorbed

/-- The same is to be left of two texts, whatever is appended to both. -/
def Alike (text text' : Text) : Prop :=
  ∀ more, normalLine (text ++ more) = normalLine (text' ++ more)

theorem Alike.append (alike : Alike text text') (next : Text) :
    Alike (text ++ next) (text' ++ next) := by
  intro more
  rw [List.append_assoc, List.append_assoc]
  exact alike (next ++ more)

theorem isspace_indentation (line : Text) : ∀ c ∈ indentation line, isspace c = true := by
  intro c mem
  have blank := List.mem_takeWhile_imp mem
  simp only [trim_pat, List.contains_eq_mem, List.mem_cons, List.not_mem_nil, or_false,
    decide_eq_true_eq] at blank
  rcases blank with rfl | rfl | rfl | rfl <;> rfl

/-- A continuation line is appended to both texts. -/
theorem Alike.continued (alike : Alike text text') {line : Text}
    (joint : indentation line = [] ∨ Closed text' next) :
    Alike (text ++ indentation line ++ next) (text' ++ next) := by
  rcases joint with flat | closed
  · rw [flat, List.append_nil]
    exact alike.append next
  · intro more
    rw [← normalLine_white (isspace_indentation line) closed more]
    exact ((alike.append _).append next) more

end Join

theorem part_continued {line : Text} (more : continues line = true) :
    part line = (trim line).dropLast := if_pos more

theorem part_last {line : Text} (last : ¬ continues line = true) : part line = trim line :=
  if_neg last

/-- In the loop of the continuation lines the buffer has the text once a part has been appended,
and the text is like the statement. -/
inductive Joined : Option (Text × Text) → Option Text → Option (Bool × Text) → Prop
  | outside : Joined none none none
  | inside {bf buf text : Text} {appended : Bool} :
      (appended = true → buf = bf) → Alike text bf →
        Joined (some (bf, buf)) (some text) (some (appended, bf))

theorem squeeze_alike {text bf : Text} (alike : Alike text bf) (tidy : Tidy bf) :
    remove_unneded_chars bf = normalLine text := by
  have like := alike []
  rw [List.append_nil, List.append_nil] at like
  rw [squeeze_eq_normal tidy, like]

/-- In a settled file just what is to be left of each statement is left of its text. -/
theorem joined_eq (file : List Text) {st : Option (Text × Text)} {text : Option Text}
    {part_st : Option (Bool × Text)} (joined : Joined st text part_st) (settled : Settled part_st file) :
    (texts st file).map remove_unneded_chars = (statements text file).map normalLine := by
  induction file generalizing st text part_st with
  | nil =>
    cases joined with
    | outside => rfl
    | inside same alike =>
      rw [texts, statements, List.map_singleton, List.map_singleton, same settled.1,
        squeeze_alike alike settled.2]
  | cons line rest ih =>
    cases joined with
    | outside =>
      rw [Settled] at settled
      rw [texts, statements]
      split at settled
      case isTrue empty =>
        rw [if_pos empty, if_pos empty]
        exact ih .outside settled
      case isFalse busy =>
        rw [if_neg busy, if_neg busy]
        split at settled
        case isTrue more =>
          rw [if_pos more, if_pos more]
          rw [part_continued more] at settled ⊢
          exact ih (.inside (fun absent => by cases absent) fun _ => rfl) settled
        case isFalse last =>
          rw [if_neg last, if_neg last, List.map_cons, List.map_cons, ih .outside settled.2,
            ← part_last last, squeeze_eq_normal settled.1]
    | @inside bf buf text appended same alike =>
      rw [Settled] at settled
      rw [texts, statements]
      split at settled
      case isTrue empty =>
        subst empty
        obtain ⟨some_part, tidy, further⟩ := settled
        have adds : text ++ indentation [] ++ part [] = text := by
          rw [List.append_assoc]
          exact List.append_nil text
        rw [if_pos rfl, if_neg (by decide), adds, List.map_cons, List.map_cons, same some_part,
          squeeze_alike alike tidy, ih .outside further]
      case isFalse line_there =>
        obtain ⟨some_text, joint, settled⟩ := settled
        have next := alike.continued joint
        rw [if_neg line_there, if_neg some_text]
        split at settled
        case isTrue more =>
          rw [if_pos more, if_pos more, ← part_continued more]
          by_cases nothing : part line = []
          · rw [if_pos nothing]
            rw [nothing, List.append_nil, List.append_nil] at next
            rw [nothing, List.append_nil, bne_self_eq_false, Bool.or_false] at settled
            rw [nothing, List.append_nil]
            exact ih (.inside same next) settled
          · rw [if_neg nothing]
            exact ih (.inside (fun _ => rfl) next) settled
        case isFalse last =>
          rw [if_neg last, if_neg last, List.map_cons, List.map_cons, ih .outside settled.2,
            ← part_last last, squeeze_alike next settled.1]

end SourceNavigator.Cpp.Macread

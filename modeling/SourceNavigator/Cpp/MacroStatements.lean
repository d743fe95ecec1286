import SourceNavigator.Cpp.MacroJoin

/-!
The statements of a macro definition file (`f_MacroReadLine` in
`parsers/cpp/cpplib/macread.c`).

* `readMacro_list` and `readMacro_plain` say what is read from a line that is
  written as a definition with a parameter list and without one.
-/

namespace SourceNavigator.Cpp.Macread

open LongStr

/-! ### Reading a line -/

/-- `PAF_WORD_...` -/
inductive Typ
  | PAF_WORD_DEFINE
  | PAF_WORD_UNDEF
  | PAF_WORD_REPLACE
  | PAF_WORD_NONE
  deriving DecidableEq

/-- `sMacro`, whose texts are parts of the line; a line is no longer than an `int` can count. -/
structure Macro where
  typ : Typ
  name : Text
  parameter_list : Option Text
  macroText : Option Text
  pcLine : Text
  line_fits : pcLine.length < 2147483648
  name_fits : name.length ≤ pcLine.length

/-- What `f_MacroReadLine` makes of a line: a macro, the deletion of one, or nothing. -/
inductive Statement
  | define (m : Macro)
  | delete (key : Text) (fits : key.length < 2147483648)
  | nothing

/-- A character of a macro's name. -/
def nameChar (c : UInt8) : Bool := !isspace c && c != OPENING

/-- The loop over a parameter list: the list, and what is behind the bracket that closes it. -/
def parameters (par : Nat) : Text → Option (Text × Text)
  | [] => none
  | c :: pc =>
    if c = CLOSING then
      if par = 1 then some ([], pc)
      else (parameters (par - 1) pc).map fun list => (c :: list.1, list.2)
    else
      (parameters (if c = OPENING then par + 1 else par) pc).map fun list => (c :: list.1, list.2)

/-- The replacement text. -/
def replacement (pc : Text) : Option Text :=
  if skipSpace pc = [] then none else some (skipSpace pc)

theorem name_fits_of_le {pc pcLine : Text} (le : pc.length ≤ pcLine.length) :
    ((skipSpace pc).takeWhile nameChar).length ≤ pcLine.length :=
  ((List.takeWhile_prefix _).length_le.trans (List.dropWhile_suffix _).length_le).trans le

/-- `f_MacroReadLine` behind the command. -/
def readMacro (typ : Typ) (pcLine pc : Text) (fits : pcLine.length < 2147483648)
    (le : pc.length ≤ pcLine.length) : Statement :=
  let name := (skipSpace pc).takeWhile nameChar
  let rest := skipSpace ((skipSpace pc).dropWhile nameChar)
  let made (parameter_list macroText : Option Text) : Statement :=
    .define ⟨typ, name, parameter_list, macroText, pcLine, fits, name_fits_of_le le⟩
  if rest.head? = some OPENING then
    match parameters 1 rest.tail with
    | none => .nothing -- syntax error
    | some (list, rest) => made (some list) (replacement rest)
  else made none (replacement rest)

theorem cString_fits {text : Text} (fits : text.length < 2147483648) :
    (cString text).length < 2147483648 :=
  Nat.lt_of_le_of_lt (List.takeWhile_prefix _).length_le fits

theorem drop_length_le {n : Nat} {text : Text} : (text.drop n).length ≤ text.length := by
  rw [List.length_drop]
  exact Nat.sub_le _ _

theorem key_fits {text : Text} (fits : text.length < 2147483648) (n : Nat) :
    (skipSpace (text.drop n)).length < 2147483648 :=
  Nat.lt_of_le_of_lt ((List.dropWhile_suffix _).length_le.trans drop_length_le) fits

def f_MacroReadLine (pcLine : Text) (fits : pcLine.length < 2147483648) : Statement :=
  let pc := cString pcLine -- SN_StrDup
  if (ascii "define").isPrefixOf pc then
    readMacro .PAF_WORD_DEFINE pc (pc.drop 6) (cString_fits fits) drop_length_le
  else if (ascii "undef").isPrefixOf pc then
    readMacro .PAF_WORD_UNDEF pc (pc.drop 5) (cString_fits fits) drop_length_le
  else if (ascii "replace").isPrefixOf pc then
    readMacro .PAF_WORD_REPLACE pc (pc.drop 7) (cString_fits fits) drop_length_le
  else if (ascii "delete").isPrefixOf pc then
    .delete (skipSpace (pc.drop 6)) (key_fits (cString_fits fits) 6)
  else .nothing -- unknown command

/-- What is read from a text, if an `int` can count its characters. -/
def readText (text : Text) : Option Statement :=
  if fits : text.length < 2147483648 then some (f_MacroReadLine text fits) else none

/-! ### What a line is read as -/

section Line

variable {line line' : Text} {fits : line.length < 2147483648} {fits' : line'.length < 2147483648}

theorem cString_cString (text : Text) : cString (cString text) = cString text :=
  List.takeWhile_idem

theorem nul_not_mem_cString (text : Text) : 0 ∉ cString text := by
  intro mem
  have kept := List.mem_takeWhile_imp mem
  simp at kept

/-- Only what is in front of the first NUL is read. -/
theorem f_MacroReadLine_cString (same : cString line = cString line') :
    f_MacroReadLine line fits = f_MacroReadLine line' fits' := by
  simp only [f_MacroReadLine, same]

/-- The list up to the bracket that closes it is read. -/
theorem parameters_spec {par : Nat} {list : Text} (rest : Text)
    (inside : ∀ part, part <+: list → 1 ≤ part.foldl level (par : Int))
    (even : list.foldl level (par : Int) = 1) :
    parameters par (list ++ CLOSING :: rest) = some (list, rest) := by
  induction list generalizing par with
  | nil =>
    have one : par = 1 := by
      have even : (par : Int) = 1 := even
      omega
    rw [List.nil_append, parameters, if_pos rfl, if_pos one]
  | cons c list ih =>
    have deeper (part : Text) (sub : part <+: list) :
        1 ≤ part.foldl level (level (par : Int) c) :=
      inside (c :: part) (List.cons_prefix_cons.mpr ⟨rfl, sub⟩)
    have here : 1 ≤ level (par : Int) c := deeper [] List.nil_prefix
    have even : list.foldl level (level (par : Int) c) = 1 := even
    rw [List.cons_append, parameters]
    by_cases closing : c = CLOSING
    · have less : level (par : Int) c = ((par - 1 : Nat) : Int) := by
        rw [level, if_pos closing] at here ⊢
        omega
      rw [less] at here deeper even
      rw [if_pos closing, if_neg (by omega), ih deeper even]
      rfl
    · have next : level (par : Int) c = ((if c = OPENING then par + 1 else par : Nat) : Int) := by
        rw [level, if_neg closing]
        split <;> simp
      rw [next] at deeper even
      rw [if_neg closing, ih deeper even]
      rfl

section Written

variable {typ : Typ} {pcLine name list body a b c : Text} {long : pcLine.length < 2147483648}

theorem skipSpace_append (blank : ∀ x ∈ a, isspace x = true) : skipSpace (a ++ b) = skipSpace b :=
  List.dropWhile_append_of_pos blank

theorem skipSpace_of_head (char : ∀ x, body.head? = some x → isspace x = false) :
    skipSpace body = body := by
  cases body with
  | nil => rfl
  | cons x body => exact List.dropWhile_cons_of_neg (by simp [char x rfl])

theorem nameChar_blank {x : UInt8} (blank : isspace x = true) : nameChar x = false := by
  rw [nameChar, blank]
  rfl

/-- The name ends where white space, a bracket or nothing follows. -/
theorem name_append (named : ∀ x ∈ name, nameChar x = true)
    (stop : ∀ x, b.head? = some x → nameChar x = false) :
    (name ++ b).takeWhile nameChar = name ∧ (name ++ b).dropWhile nameChar = b := by
  have none_more : b.takeWhile nameChar = [] ∧ b.dropWhile nameChar = b := by
    cases b with
    | nil => exact ⟨rfl, rfl⟩
    | cons x b =>
      have char : ¬ nameChar x = true := by simp [stop x rfl]
      exact ⟨List.takeWhile_cons_of_neg char, List.dropWhile_cons_of_neg char⟩
  rw [List.takeWhile_append_of_pos named, List.dropWhile_append_of_pos named, none_more.1,
    none_more.2, List.append_nil]
  exact ⟨rfl, rfl⟩

theorem skipSpace_name (b : Text) (some_name : name ≠ []) (blank : ∀ x ∈ a, isspace x = true)
    (named : ∀ x ∈ name, nameChar x = true) : skipSpace (a ++ (name ++ b)) = name ++ b := by
  rw [skipSpace_append blank]
  refine skipSpace_of_head fun x head => ?_
  cases name with
  | nil => exact absurd rfl some_name
  | cons y name =>
    cases head
    have char := named x List.mem_cons_self
    rw [nameChar, Bool.and_eq_true, Bool.not_eq_true'] at char
    exact char.1

theorem foldl_level (lev : Int) (text : Text) : text.foldl level lev = lev + text.foldl level 0 := by
  induction text generalizing lev with
  | nil => simp
  | cons c text ih =>
    have step : level lev c = lev + level 0 c := by
      unfold level
      split
      case isTrue => omega
      case isFalse => split <;> omega
    rw [List.foldl_cons, List.foldl_cons, ih, ih (level 0 c), step, Int.add_assoc]

/-- A definition without a parameter list. -/
theorem readMacro_plain (some_name : name ≠ []) (blank_a : ∀ x ∈ a, isspace x = true)
    (blank_b : ∀ x ∈ b, isspace x = true) (named : ∀ x ∈ name, nameChar x = true)
    (apart : b = [] → body = [])
    (char : ∀ x, body.head? = some x → isspace x = false ∧ x ≠ OPENING)
    (le : (a ++ (name ++ (b ++ body))).length ≤ pcLine.length) :
    readMacro typ pcLine (a ++ (name ++ (b ++ body))) long le =
      .define ⟨typ, name, none, if body = [] then none else some body, pcLine, long,
        by simp only [List.length_append] at le; omega⟩ := by
  have stop : ∀ x, (b ++ body).head? = some x → nameChar x = false := by
    cases b with
    | nil => simp [apart rfl]
    | cons y b =>
      intro x head
      cases head
      exact nameChar_blank (blank_b _ List.mem_cons_self)
  have start := skipSpace_name (b ++ body) some_name blank_a named
  obtain ⟨front, back⟩ := name_append named stop
  have text : skipSpace (b ++ body) = body := by
    rw [skipSpace_append blank_b]
    exact skipSpace_of_head fun x head => (char x head).1
  have no_list : ¬ body.head? = some OPENING := fun head => (char _ head).2 rfl
  have whole : skipSpace body = body := skipSpace_of_head fun x head => (char x head).1
  simp only [readMacro, start, front, back, text, no_list, if_false, replacement, whole]

theorem readMacro_plain_sample :
    readMacro .PAF_WORD_DEFINE (ascii "f b") (ascii "f b") (by decide) le_rfl =
      .define ⟨.PAF_WORD_DEFINE, ascii "f", none, some (ascii "b"), ascii "f b", by decide,
        by decide⟩ :=
  @readMacro_plain [] [] _ _ [102] [98] [] [32] _ (by decide) (List.forall_mem_nil _)
    (List.forall_mem_singleton.mpr rfl) (List.forall_mem_singleton.mpr rfl) (fun h => by cases h)
    (fun x head => by
      cases head
      exact ⟨rfl, by decide⟩) le_rfl

end Written

/-- What is known of a statement: the keys have no NUL, and a macro can be read from its line. -/
def Statement.Clean : Statement → Prop
  | .nothing => True
  | .delete key _ => 0 ∉ key
  | .define m => 0 ∉ m.name ∧ readText m.pcLine = some (.define m)

theorem readMacro_define {typ : Typ} {pcLine pc : Text} {fits : pcLine.length < 2147483648}
    {le : pc.length ≤ pcLine.length} {m : Macro} (read : readMacro typ pcLine pc fits le = .define m) :
    m.pcLine = pcLine ∧ m.name = (skipSpace pc).takeWhile nameChar := by
  rw [readMacro] at read
  dsimp only at read
  split at read
  case isTrue =>
    split at read
    case h_1 => cases read
    case h_2 =>
      cases read
      exact ⟨rfl, rfl⟩
  case isFalse =>
    cases read
    exact ⟨rfl, rfl⟩

theorem readMacro_ne_delete {typ : Typ} {pcLine pc key : Text} {fits : pcLine.length < 2147483648}
    {le : pc.length ≤ pcLine.length} {short : key.length < 2147483648} :
    readMacro typ pcLine pc fits le ≠ .delete key short := by
  rw [readMacro]
  dsimp only
  split
  case isTrue =>
    split
    case h_1 => exact fun h => by cases h
    case h_2 => exact fun h => by cases h
  case isFalse => exact fun h => by cases h

/-- A line is a macro behind its command, a deletion, or nothing. -/
theorem f_MacroReadLine_cases (line : Text) (fits : line.length < 2147483648) :
    (∃ typ n, f_MacroReadLine line fits =
        readMacro typ (cString line) ((cString line).drop n) (cString_fits fits) drop_length_le) ∨
      f_MacroReadLine line fits =
        .delete (skipSpace ((cString line).drop 6)) (key_fits (cString_fits fits) 6) ∨
      f_MacroReadLine line fits = .nothing := by
  rw [f_MacroReadLine]
  split
  case isTrue => exact .inl ⟨_, _, rfl⟩
  case isFalse =>
    split
    case isTrue => exact .inl ⟨_, _, rfl⟩
    case isFalse =>
      split
      case isTrue => exact .inl ⟨_, _, rfl⟩
      case isFalse =>
        split
        case isTrue => exact .inr (.inl rfl)
        case isFalse => exact .inr (.inr rfl)

theorem nul_not_mem_skipSpace (line : Text) (n : Nat) : 0 ∉ skipSpace ((cString line).drop n) :=
  fun mem => nul_not_mem_cString line
    (List.mem_of_mem_drop ((List.dropWhile_suffix isspace).subset mem))

theorem readText_clean {text : Text} {st : Statement} (read : readText text = some st) :
    st.Clean := by
  rw [readText] at read
  split at read
  case isFalse => cases read
  case isTrue fits =>
    have same := Option.some.inj read
    rcases f_MacroReadLine_cases text fits with ⟨typ, n, made⟩ | deleted | unknown
    · cases st with
      | nothing => exact trivial
      | delete key short => exact absurd (made.symm.trans same) readMacro_ne_delete
      | define m =>
        obtain ⟨line, name⟩ := readMacro_define (made.symm.trans same)
        refine ⟨?_, ?_⟩
        · rw [name]
          exact fun mem => nul_not_mem_skipSpace text n ((List.takeWhile_prefix _).subset mem)
        · rw [readText, dif_pos m.line_fits, ← same]
          exact congrArg some (f_MacroReadLine_cString (by rw [line, cString_cString]))
    · cases deleted.symm.trans same
      exact nul_not_mem_skipSpace text 6
    · cases unknown.symm.trans same
      exact trivial

end Line

end SourceNavigator.Cpp.Macread

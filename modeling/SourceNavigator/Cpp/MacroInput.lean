import SourceNavigator.Cpp.MacroArguments

/-!
Macro calls in the source text (`yylex`, `f_TokenMacroInput`, `f_ParamCreate` and
`f_ParamToken` in `cpp/cpplib/cplex.c`).

Behind the last token `f_TokenInput` delivers the end of the file for ever. The
reading of an argument ends there only if no parenthesis is open in it, and the
arguments are stored in an array of 100 entries without a check.

* `Arguments` is the rest of an argument list up to its closing parenthesis or to
  the end of the file, with the calls that stand in it.
* `collects`, `collected` — a list with room for its arguments is collected, and
  nothing else is.
-/

namespace SourceNavigator.Cpp.MacroInput

open Process (Input Collected MacroType Param PARAMETERS depthBehind)

/-- `struct sMacro`, as far as a call in the source text reads it. -/
structure Macro where
  typ : MacroType
  TokenProcessed : List Token := []
  deriving DecidableEq, Repr

/-- `f_MacroMerge` with the body that is processed. -/
def f_MacroMerge (Macro : Macro) (TokenBasic : Token) (Param : Option Param) : List Token :=
  Macro.TokenProcessed.flatMap (Process.mergeToken TokenBasic Param)

/-- The token that is delivered at the end of the file. -/
def endOfFile : Token := { lex := 0 }

/-- The tokens of the text are those that `rest` lists. -/
def f_TokenInput (s : Input) : Token × Input :=
  match s.unput with
  | some Token => (Token, { s with unput := none })
  | none =>
    match s.rest with
    | [] => (endOfFile, s)
    | Token :: rest => (Token, { s with rest })

/-- There is no state behind the exit with an error. -/
def f_TokenUnput (Token : Token) (s : Input) : Option Input :=
  match s.unput with
  | some _ => none
  | none => some { s with unput := some Token }

section Functions

variable (f_MacroFind : List Token → Text → Option Macro)

mutual

/-- What an identifier is replaced with, and whether a macro was found. `f_MacroFind` is asked with the
tokens that are left, since a `#define` among those that were read may have changed its answer. -/
def f_TokenMacroInput : Nat → Token → Input → Collected (List Token × Bool)
  | 0, _, _ => .unfinished
  | n + 1, Token, s =>
    match f_MacroFind s.tokens Token.text with
    | none => .done ([Token], false) s
    | some Macro =>
      match Macro.typ with
      | .CPP_DEFINE => .done (f_MacroMerge Macro Token none, true) s
      | .CPP_MACRO =>
        match f_TokenInput s with
        | (TokenNext, s) =>
          if TokenNext.lex = chr '(' then
            (f_ParamCreate n [] s).bind fun Param s => .done (f_MacroMerge Macro Token (some Param), true) s
          else
            match f_TokenUnput TokenNext s with
            | none => .fatal
            | some s => .done ([Token], true) s
      | .CPP_UNDEF => .done ([Token], false) s

/-- The rounds of the loop behind the first arguments. -/
def f_ParamCreate : Nat → Param → Input → Collected Param
  | 0, _, _ => .unfinished
  | n + 1, Param, s =>
    (f_ParamToken n [] 0 s).bind fun found s =>
      if PARAMETERS ≤ Param.length then .overflow
      else if found.2 then f_ParamCreate n (Param ++ [found.1]) s
      else .done (Param ++ [found.1]) s

/-- The rounds of the loop behind the first tokens, with `p` parentheses open. Besides the tokens
the result is what was stored in `*pbContinue`. -/
def f_ParamToken : Nat → List Token → Nat → Input → Collected (List Token × Bool)
  | 0, _, _, _ => .unfinished
  | n + 1, TokenReturn, p, s =>
    (match f_TokenInput s with
      | (Token, s) =>
        if Token.lex = SN_IDENTIFIER then f_TokenMacroInput n Token s
        else Collected.done ([Token], false) s).bind fun next s =>
      match next with
      | ([], _) => f_ParamToken n TokenReturn p s
      | (tokens, true) => f_ParamToken n (TokenReturn ++ tokens) p s
      | (Token :: tokens, false) =>
        if p = 0 ∧ Token.lex = chr ',' then .done (TokenReturn, true) s
        else if p = 0 ∧ (Token.lex = chr ')' ∨ Token.lex = 0) then .done (TokenReturn, false) s
        else f_ParamToken n (TokenReturn ++ Token :: tokens) (depthBehind Token p) s

end

/-- The next token, or what it is replaced with. -/
def nextTokens (n : Nat) (s : Input) : Collected (List Token × Bool) :=
  match f_TokenInput s with
  | (Token, s) =>
    if Token.lex = SN_IDENTIFIER then f_TokenMacroInput f_MacroFind n Token s else .done ([Token], false) s

/-- A macro that is replaced with nothing is passed over. -/
def yylex : Nat → Input → Collected (List Token)
  | 0, _ => .unfinished
  | n + 1, s =>
    (nextTokens f_MacroFind n s).bind fun next s =>
      match next.1 with
      | [] => yylex n s
      | tokens => .done tokens s

end Functions

/-- The rest of an argument list. -/
inductive Arguments
  | close (rparen : Token)
  /-- The file ends. -/
  | eof
  | comma (t : Token) (more : Arguments)
  /-- A token that belongs to an argument, also a parenthesis in it. -/
  | token (t : Token) (more : Arguments)
  /-- A macro without parameters. -/
  | object (t : Token) (Macro : Macro) (more : Arguments)
  /-- A macro with arguments of its own. -/
  | call (t : Token) (Macro : Macro) (lparen : Token) (inner more : Arguments)

namespace Arguments

/-- The tokens, with the closing parenthesis. -/
def raw : Arguments → List Token
  | close rparen => [rparen]
  | eof => []
  | comma t more => t :: more.raw
  | token t more => t :: more.raw
  | object t _ more => t :: more.raw
  | call t _ lparen inner more => t :: lparen :: (inner.raw ++ more.raw)

/-- The rest of the first argument and the arguments behind it. -/
def split : Arguments → List Token × Param
  | close _ => ([], [])
  | eof => ([], [])
  | comma _ more => ([], more.split.1 :: more.split.2)
  | token t more => (t :: more.split.1, more.split.2)
  | object t Macro more => (f_MacroMerge Macro t none ++ more.split.1, more.split.2)
  | call t Macro _ inner more =>
    (f_MacroMerge Macro t (some (inner.split.1 :: inner.split.2)) ++ more.split.1, more.split.2)

/-- The arguments. -/
def params (x : Arguments) : Param := x.split.1 :: x.split.2

/-- The calls inside of a list have arguments for which there is room. -/
def InnerFits : Arguments → Prop
  | close _ => True
  | eof => True
  | comma _ more => more.InnerFits
  | token _ more => more.InnerFits
  | object _ _ more => more.InnerFits
  | call _ _ _ inner more => inner.params.length ≤ PARAMETERS ∧ inner.InnerFits ∧ more.InnerFits

/-- The number of places at which reading can end or go on. -/
def size : Arguments → Nat
  | close _ => 1
  | eof => 1
  | comma _ more => more.size + 1
  | token _ more => more.size + 1
  | object _ _ more => more.size + 1
  | call _ _ _ inner more => inner.size + more.size + 1

end Arguments

section Reads

variable (f_MacroFind : List Token → Text → Option Macro)

/-- The macro that an identifier calls in front of these tokens. -/
def macroOf (t : Token) (left : List Token) : Option Macro :=
  if t.lex = SN_IDENTIFIER then f_MacroFind left t.text else none

/-- Nothing is replaced at a token in front of these. -/
def Plain (t : Token) (left : List Token) : Prop :=
  ∀ Macro, macroOf f_MacroFind t left = some Macro →
    Macro.typ = .CPP_UNDEF ∨
      Macro.typ = .CPP_MACRO ∧ (left.head?.map fun t => t.lex) ≠ some (chr '(')

/-- The tokens of a list are read as it says, with `p` parentheses open and these tokens behind. -/
def Arguments.Reads : Nat → List Token → Arguments → Prop
  | p, _, .close rparen => p = 0 ∧ rparen.lex = chr ')'
  | p, left, .eof => p = 0 ∧ left = []
  | p, left, .comma t more => p = 0 ∧ t.lex = chr ',' ∧ more.Reads 0 left
  | p, left, .token t more =>
    ¬(p = 0 ∧ (t.lex = chr ',' ∨ t.lex = chr ')')) ∧ Plain f_MacroFind t (more.raw ++ left) ∧
      more.Reads (depthBehind t p) left
  | p, left, .object t Macro more =>
    macroOf f_MacroFind t (more.raw ++ left) = some Macro ∧ Macro.typ = .CPP_DEFINE ∧ more.Reads p left
  | p, left, .call t Macro lparen inner more =>
    macroOf f_MacroFind t (lparen :: (inner.raw ++ (more.raw ++ left))) = some Macro ∧
      Macro.typ = .CPP_MACRO ∧ lparen.lex = chr '(' ∧ inner.Reads 0 (more.raw ++ left) ∧ more.Reads p left

end Reads

/-! ### One token -/

section Input

variable {f_MacroFind : List Token → Text → Option Macro} {s : Input} {t : Token} {ts : List Token} {n : Nat}

/-- The tokens up to the end of the file, which can have been put back. -/
def Stands (s : Input) (ts : List Token) : Prop :=
  s.tokens = ts ∨ ts = [] ∧ s = { unput := some endOfFile, rest := [] }

theorem stands_read : Stands { unput := none, rest := ts } ts := .inl rfl

theorem input_cons (stands : Stands s (t :: ts)) : f_TokenInput s = (t, { unput := none, rest := ts }) := by
  rcases stands with tokens | ⟨none, _⟩
  · obtain ⟨unput, rest⟩ := s
    cases unput with
    | some u =>
      obtain ⟨rfl, rfl⟩ := List.cons_eq_cons.mp tokens
      rfl
    | none =>
      obtain rfl : rest = t :: ts := tokens
      rfl
  · cases none

theorem input_nil (stands : Stands s []) : f_TokenInput s = (endOfFile, { unput := none, rest := [] }) := by
  rcases stands with tokens | ⟨_, rfl⟩
  · obtain ⟨unput, rest⟩ := s
    cases unput with
    | some u => cases tokens
    | none =>
      obtain rfl : rest = [] := tokens
      rfl
  · rfl

theorem next_eof (stands : Stands s []) :
    nextTokens f_MacroFind n s = .done ([endOfFile], false) { unput := none, rest := [] } := by
  rw [nextTokens, input_nil stands]
  rfl

theorem next_other (stands : Stands s (t :: ts)) (other : t.lex ≠ SN_IDENTIFIER) :
    nextTokens f_MacroFind n s = .done ([t], false) { unput := none, rest := ts } := by
  rw [nextTokens, input_cons stands]
  exact if_neg other

/-- Of an identifier it can be said that a macro was found. -/
theorem next_plain (stands : Stands s (t :: ts)) (plain : Plain f_MacroFind t ts) :
    ∃ s' found, nextTokens f_MacroFind (n + 1) s = .done ([t], found) s' ∧ Stands s' ts ∧
      (found = true → t.lex = SN_IDENTIFIER) := by
  by_cases identifier : t.lex = SN_IDENTIFIER
  · rw [nextTokens, input_cons stands]
    simp only
    rw [if_pos identifier, f_TokenMacroInput]
    unfold Plain macroOf at plain
    rw [if_pos identifier] at plain
    simp only [Process.tokens_read]
    cases found : f_MacroFind ts t.text with
    | none => exact ⟨_, _, rfl, stands_read, fun _ => identifier⟩
    | some M =>
      simp only
      rcases plain M found with undef | ⟨function, noParenthesis⟩
      · rw [undef]
        exact ⟨_, _, rfl, stands_read, fun _ => identifier⟩
      · rw [function]
        simp only
        cases ts with
        | nil =>
          rw [input_nil stands_read]
          exact ⟨_, _, rfl, .inr ⟨rfl, rfl⟩, fun _ => identifier⟩
        | cons t' ts =>
          rw [input_cons stands_read]
          have noParenthesis : t'.lex ≠ chr '(' := fun lex => noParenthesis (by simp [lex])
          simp only
          rw [if_neg noParenthesis]
          exact ⟨_, _, rfl, .inl rfl, fun _ => identifier⟩
  · exact ⟨_, _, next_other stands identifier, stands_read, fun found => by cases found⟩

theorem lex_of_macroOf {M : Macro} (found : macroOf f_MacroFind t ts = some M) :
    t.lex = SN_IDENTIFIER ∧ f_MacroFind ts t.text = some M := by
  unfold macroOf at found
  split at found
  · rename_i identifier
    exact ⟨identifier, found⟩
  · cases found

theorem next_object {M : Macro} (stands : Stands s (t :: ts)) (found : macroOf f_MacroFind t ts = some M)
    (object : M.typ = .CPP_DEFINE) :
    nextTokens f_MacroFind (n + 1) s = .done (f_MacroMerge M t none, true) { unput := none, rest := ts } := by
  obtain ⟨identifier, found⟩ := lex_of_macroOf found
  rw [nextTokens, input_cons stands]
  simp only
  rw [if_pos identifier, f_TokenMacroInput]
  simp only [Process.tokens_read, found, object]

theorem next_call {M : Macro} {lparen : Token} (stands : Stands s (t :: lparen :: ts))
    (found : macroOf f_MacroFind t (lparen :: ts) = some M) (function : M.typ = .CPP_MACRO)
    (opens : lparen.lex = chr '(') :
    nextTokens f_MacroFind (n + 1) s =
      (f_ParamCreate f_MacroFind n [] { unput := none, rest := ts }).bind fun Param s =>
        .done (f_MacroMerge M t (some Param), true) s := by
  obtain ⟨identifier, found⟩ := lex_of_macroOf found
  rw [nextTokens, input_cons stands]
  simp only
  rw [if_pos identifier, f_TokenMacroInput]
  simp only [Process.tokens_read, found, function]
  rw [input_cons stands_read]
  simp only [opens, if_true]

/-- The three ways in which a token is read. -/
theorem token_cases (f_MacroFind : List Token → Text → Option Macro) (t : Token) (ts : List Token) :
    Plain f_MacroFind t ts ∨
      (∃ M, macroOf f_MacroFind t ts = some M ∧ M.typ = .CPP_DEFINE) ∨
      ∃ M lparen ts', ts = lparen :: ts' ∧ macroOf f_MacroFind t ts = some M ∧ M.typ = .CPP_MACRO ∧
        lparen.lex = chr '(' := by
  by_cases plain : Plain f_MacroFind t ts
  · exact .inl plain
  · simp only [Plain, not_forall, not_or, not_and, not_not] at plain
    obtain ⟨M, found, notUndef, parenthesis⟩ := plain
    cases typ : M.typ with
    | CPP_UNDEF => exact absurd typ notUndef
    | CPP_DEFINE => exact .inr (.inl ⟨M, found, typ⟩)
    | CPP_MACRO =>
      have opens := parenthesis typ
      cases ts with
      | nil => cases opens
      | cons lparen ts' => exact .inr (.inr ⟨M, lparen, ts', rfl, found, typ, Option.some.inj opens⟩)

/-- The ways in which the next token is read with these rounds. -/
theorem next_cases (f_MacroFind : List Token → Text → Option Macro) (n : Nat) (stands : Stands s (t :: ts)) :
    nextTokens f_MacroFind n s = .unfinished ∨
      (Plain f_MacroFind t ts ∧ ∃ s' found, nextTokens f_MacroFind n s = .done ([t], found) s' ∧ Stands s' ts ∧
        (found = true → t.lex = SN_IDENTIFIER)) ∨
      ∃ n', n = n' + 1 ∧ ((∃ M, macroOf f_MacroFind t ts = some M ∧ M.typ = .CPP_DEFINE) ∨
        ∃ M lparen ts', ts = lparen :: ts' ∧ macroOf f_MacroFind t ts = some M ∧ M.typ = .CPP_MACRO ∧
          lparen.lex = chr '(') := by
  cases n with
  | zero =>
    by_cases identifier : t.lex = SN_IDENTIFIER
    · left
      rw [nextTokens, input_cons stands]
      simp only
      rw [if_pos identifier, f_TokenMacroInput]
    · refine .inr (.inl ⟨?_, _, _, next_other stands identifier, stands_read, fun found => by cases found⟩)
      intro M found
      exact absurd (lex_of_macroOf found).1 identifier
  | succ n =>
    rcases token_cases f_MacroFind t ts with plain | called
    · exact .inr (.inl ⟨plain, next_plain stands plain⟩)
    · exact .inr (.inr ⟨n, rfl, called⟩)

end Input

/-! ### Argument lists -/

section Lists

variable {f_MacroFind : List Token → Text → Option Macro} {s s' : Input} {t : Token} {ts left : List Token}
  {n m p : Nat} {TokenReturn : List Token} {c : Param}

/-- What `f_ParamCreate` does with an argument. -/
def store (f_MacroFind : List Token → Text → Option Macro) (n : Nat) (Param : Process.Param)
    (found : List Token × Bool) (s : Input) : Collected Process.Param :=
  if PARAMETERS ≤ Param.length then .overflow
  else if found.2 then f_ParamCreate f_MacroFind n (Param ++ [found.1]) s
  else .done (Param ++ [found.1]) s

theorem f_ParamCreate_succ :
    f_ParamCreate f_MacroFind (n + 1) c s = (f_ParamToken f_MacroFind n [] 0 s).bind (store f_MacroFind n c) := by
  rw [f_ParamCreate]
  rfl

/-- A macro in an argument. -/
theorem f_ParamToken_macro (next : nextTokens f_MacroFind n s = .done (ts, true) s') :
    f_ParamToken f_MacroFind (n + 1) TokenReturn p s = f_ParamToken f_MacroFind n (TokenReturn ++ ts) p s' := by
  rw [f_ParamToken]
  change (nextTokens f_MacroFind n s).bind _ = _
  rw [next]
  cases ts with
  | nil => rw [List.append_nil]; rfl
  | cons t ts => rfl

/-- Any other token. -/
theorem f_ParamToken_token {found : Bool} (next : nextTokens f_MacroFind n s = .done ([t], found) s')
    (identifier : found = true → t.lex = SN_IDENTIFIER) :
    f_ParamToken f_MacroFind (n + 1) TokenReturn p s =
      if p = 0 ∧ t.lex = chr ',' then .done (TokenReturn, true) s'
      else if p = 0 ∧ (t.lex = chr ')' ∨ t.lex = 0) then .done (TokenReturn, false) s'
      else f_ParamToken f_MacroFind n (TokenReturn ++ [t]) (depthBehind t p) s' := by
  cases found with
  | false =>
    rw [f_ParamToken]
    change (nextTokens f_MacroFind n s).bind _ = _
    rw [next]
    rfl
  | true =>
    have lex := identifier rfl
    have depth : depthBehind t p = p := by
      rw [depthBehind, lex, if_neg (by decide), if_neg (by decide)]
    rw [ f_ParamToken_macro next, depth, lex, if_neg fun comma => absurd comma.2 (by decide),
      if_neg fun closes => absurd closes.2 (by decide)]

theorem length_params {x : Arguments} : x.params.length = x.split.2.length + 1 := rfl

/-- An argument list with room for its arguments is collected. -/
theorem collects {r : List Token} (x : Arguments) (stands : Stands s (x.raw ++ left))
    (proper : Process.Proper (x.raw ++ left)) (reads : x.Reads f_MacroFind p left) (inner : x.InnerFits)
    (room : c.length + x.params.length ≤ PARAMETERS) (rounds : 3 * x.size ≤ m) (rounds' : 3 * x.size ≤ n) :
    (f_ParamToken f_MacroFind m r p s).bind (store f_MacroFind n c) =
      .done (c ++ (r ++ x.split.1) :: x.split.2) { unput := none, rest := left } := by
  induction x generalizing p left s m n r c with
  | close rparen =>
    obtain ⟨rfl, closes⟩ := reads
    obtain ⟨m, rfl⟩ : ∃ m', m = m' + 1 := ⟨m - 1, by simp [Arguments.size] at rounds; omega⟩
    have next := @next_other f_MacroFind _ _ _ m stands (by rw [closes]; decide)
    have free : ¬PARAMETERS ≤ c.length := by
      rw [length_params] at room
      omega
    rw [f_ParamToken_token next (fun found => by cases found), if_neg, if_pos ⟨rfl, .inl closes⟩]
    · simp only [Collected.bind, store]
      rw [if_neg free]
      simp [Arguments.split]
    · rintro ⟨_, isComma⟩
      exact absurd (closes.symm.trans isComma) (by decide)
  | eof =>
    obtain ⟨rfl, rfl⟩ := reads
    obtain ⟨m, rfl⟩ : ∃ m', m = m' + 1 := ⟨m - 1, by simp [Arguments.size] at rounds; omega⟩
    have next := @next_eof f_MacroFind _ m stands
    have free : ¬PARAMETERS ≤ c.length := by
      rw [length_params] at room
      omega
    rw [f_ParamToken_token next (fun found => by cases found), if_neg (by decide), if_pos (by decide)]
    simp only [Collected.bind, store]
    rw [if_neg free]
    simp [Arguments.split]
  | comma t more ih =>
    obtain ⟨rfl, isComma, reads⟩ := reads
    simp only [Arguments.size] at rounds rounds'
    obtain ⟨m, rfl⟩ : ∃ m', m = m' + 1 := ⟨m - 1, by omega⟩
    obtain ⟨n, rfl⟩ : ∃ n', n = n' + 1 := ⟨n - 1, by omega⟩
    have next := @next_other f_MacroFind _ _ _ m stands (by rw [isComma]; decide)
    have free : ¬PARAMETERS ≤ c.length := by
      rw [length_params] at room
      omega
    have room : (c ++ [r]).length + more.params.length ≤ PARAMETERS := by
      simp only [length_params, Arguments.split, List.length_append, List.length_cons,
        List.length_nil] at room ⊢
      omega
    have rest := ih (r := []) (m := n) (n := n) stands_read (fun t' mem => proper t' (List.mem_cons_of_mem t mem))
      reads inner room (by omega) (by omega)
    rw [f_ParamToken_token next (fun found => by cases found), if_pos ⟨rfl, isComma⟩]
    simp only [Collected.bind, store]
    rw [if_neg free, if_pos trivial, f_ParamCreate_succ]
    refine rest.trans ?_
    simp [Arguments.split]
  | token t more ih =>
    obtain ⟨stays, plain, reads⟩ := reads
    simp only [Arguments.size] at rounds rounds'
    obtain ⟨m, rfl⟩ : ∃ m', m = m' + 2 := ⟨m - 2, by omega⟩
    obtain ⟨s', found, next, behind, identifier⟩ := next_plain (n := m) stands plain
    have rest := ih (r := r ++ [t]) (m := m + 1) behind (fun t' mem => proper t' (List.mem_cons_of_mem t mem)) reads
      inner room (by omega) (by omega : 3 * more.size ≤ n)
    rw [f_ParamToken_token next identifier, if_neg, if_neg, rest]
    · simp [Arguments.split]
    · rintro ⟨none, closes | zero⟩
      · exact stays ⟨none, .inr closes⟩
      · exact proper t (List.mem_cons_self ..) zero
    · rintro ⟨none, isComma⟩
      exact stays ⟨none, .inl isComma⟩
  | object t M more ih =>
    obtain ⟨found, object, reads⟩ := reads
    simp only [Arguments.size] at rounds rounds'
    obtain ⟨m, rfl⟩ : ∃ m', m = m' + 2 := ⟨m - 2, by omega⟩
    have next := next_object (n := m) stands found object
    have rest := ih (r := r ++ f_MacroMerge M t none) (m := m + 1) stands_read
      (fun t' mem => proper t' (List.mem_cons_of_mem t mem)) reads inner room (by omega)
      (by omega : 3 * more.size ≤ n)
    rw [ f_ParamToken_macro next]
    refine rest.trans ?_
    simp [Arguments.split]
  | call t M lparen arguments more ihInner ih =>
    obtain ⟨found, function, opens, readsInner, reads⟩ := reads
    obtain ⟨roomInner, innerInner, inner⟩ := inner
    simp only [Arguments.size] at rounds rounds'
    obtain ⟨m, rfl⟩ : ∃ m', m = m' + 3 := ⟨m - 3, by omega⟩
    have tokens : (Arguments.call t M lparen arguments more).raw ++ left =
        t :: lparen :: (arguments.raw ++ (more.raw ++ left)) := by simp [Arguments.raw]
    rw [tokens] at stands proper
    have properInner : Process.Proper (arguments.raw ++ (more.raw ++ left)) := fun t' mem =>
      proper t' (List.mem_cons_of_mem _ (List.mem_cons_of_mem _ mem))
    have collected := ihInner (r := []) (c := []) (m := m) (n := m)
      stands_read properInner readsInner innerInner (by simpa using roomInner) (by omega) (by omega)
    have next : nextTokens f_MacroFind (m + 2) s =
        .done (f_MacroMerge M t (some arguments.params), true) { unput := none, rest := more.raw ++ left } := by
      rw [next_call stands found function opens, f_ParamCreate_succ, collected]
      rfl
    have rest := ih (r := r ++ f_MacroMerge M t (some arguments.params)) (m := m + 2) stands_read
      (fun t' mem => properInner t' (List.mem_append_right _ mem)) reads inner room (by omega)
      (by omega : 3 * more.size ≤ n)
    rw [ f_ParamToken_macro next, rest]
    simp [Arguments.split, Arguments.params]

/-- The tokens begin with an argument list, and this is what comes of it. -/
def Decided (f_MacroFind : List Token → Text → Option Macro) (p : Nat) (ts : List Token)
    (TokenReturn : List Token) (Param result : Process.Param) (s' : Input) : Prop :=
  ∃ (x : Arguments) (left : List Token), ts = x.raw ++ left ∧ s' = { unput := none, rest := left } ∧
    x.Reads f_MacroFind p left ∧ x.InnerFits ∧ Param.length + x.params.length ≤ PARAMETERS ∧
    result = Param ++ (TokenReturn ++ x.split.1) :: x.split.2

section Store

variable {result : Param}

theorem store_last (run : store f_MacroFind n c (TokenReturn, false) s = .done result s') :
    c.length < PARAMETERS ∧ result = c ++ [TokenReturn] ∧ s' = s := by
  unfold store at run
  split at run
  · cases run
  · rename_i free
    injection run with same state
    exact ⟨Nat.lt_of_not_le free, same.symm, state.symm⟩

theorem store_more (run : store f_MacroFind n c (TokenReturn, true) s = .done result s') :
    c.length < PARAMETERS ∧ f_ParamCreate f_MacroFind n (c ++ [TokenReturn]) s = .done result s' := by
  unfold store at run
  split at run
  · cases run
  · rename_i free
    exact ⟨Nat.lt_of_not_le free, run⟩

theorem done_of_bind {α β : Type} {first : Collected α} {next : α → Input → Collected β} {result : β}
    (run : first.bind next = .done result s') : ∃ a s, first = .done a s ∧ next a s = .done result s' := by
  cases first with
  | done a s => exact ⟨a, s, rfl, run⟩
  | undecided => cases run
  | overflow => cases run
  | fatal => cases run
  | unfinished => cases run

/-- What is collected begins with the next token. -/
theorem next_of_run (run : (f_ParamToken f_MacroFind (m + 1) TokenReturn p s).bind (store f_MacroFind n c) =
    .done result s') : ∃ next s1, nextTokens f_MacroFind m s = .done next s1 := by
  obtain ⟨found, s1, token, _⟩ := done_of_bind run
  rw [f_ParamToken] at token
  change (nextTokens f_MacroFind m s).bind _ = _ at token
  obtain ⟨next, s2, read, _⟩ := done_of_bind token
  exact ⟨next, s2, read⟩

/-- Once the file has ended inside a parenthesis nothing is decided any more. -/
theorem endless (open_ : p ≠ 0) (stands : Stands s []) :
    (f_ParamToken f_MacroFind m TokenReturn p s).bind (store f_MacroFind n c) ≠ .done result s' := by
  induction m generalizing s TokenReturn with
  | zero => exact fun run => by cases run
  | succ m ih =>
    rw [f_ParamToken_token (next_eof stands) (fun found => by cases found), if_neg fun comma => open_ comma.1,
      if_neg fun closes => open_ closes.1]
    have depth : depthBehind endOfFile p = p := rfl
    rw [depth]
    exact ih stands_read

end Store

/-- The rounds of `f_ParamToken`, where the calls with fewer rounds are known. -/
theorem collected_token {result : Param}
    (ih : ∀ k ≤ n, ∀ (c : Param) (ts : List Token) (s : Input) (result : Param) (s' : Input),
      Stands s ts → Process.Proper ts → f_ParamCreate f_MacroFind k c s = .done result s' →
      Decided f_MacroFind 0 ts [] c result s')
    (fewer : m ≤ n) (stands : Stands s ts) (proper : Process.Proper ts)
    (run : (f_ParamToken f_MacroFind m TokenReturn p s).bind (store f_MacroFind n c) = .done result s') :
    Decided f_MacroFind p ts TokenReturn c result s' := by
  induction m generalizing s ts p TokenReturn with
  | zero => cases run
  | succ m ihToken =>
    cases ts with
    | nil =>
      by_cases open_ : p = 0
      · subst open_
        rw [f_ParamToken_token (next_eof stands) (fun found => by cases found), if_neg (by decide),
          if_pos (by decide)] at run
        obtain ⟨free, same, rfl⟩ := store_last run
        exact ⟨.eof, [], rfl, rfl, ⟨rfl, rfl⟩, trivial, free, by simp [same, Arguments.split]⟩
      · exact absurd run (endless open_ stands)
    | cons t ts =>
      have more : t.lex ≠ 0 := proper t (List.mem_cons_self ..)
      have properRest : Process.Proper ts := fun t' mem => proper t' (List.mem_cons_of_mem t mem)
      rcases next_cases f_MacroFind m stands with
        unfinished | ⟨plain, s1, found, next, behind, identifier⟩ |
        ⟨m, rfl, ⟨M, found, object⟩ | ⟨M, lparen, ts', rfl, found, function, opens⟩⟩
      · obtain ⟨next, s1, read⟩ := next_of_run run
        cases unfinished.symm.trans read
      · rw [f_ParamToken_token next identifier] at run
        by_cases comma : p = 0 ∧ t.lex = chr ','
        · rw [if_pos comma] at run
          obtain ⟨free, run⟩ := store_more run
          obtain ⟨x, left, rfl, same', reads, inner, room, same⟩ :=
            ih n (Nat.le_refl n) _ _ s1 result s' behind properRest run
          refine ⟨.comma t x, left, rfl, same', ⟨comma.1, comma.2, reads⟩, inner, ?_, ?_⟩
          · simp only [length_params, Arguments.split, List.length_append, List.length_cons,
              List.length_nil] at room ⊢
            omega
          · simp [same, Arguments.split]
        · rw [if_neg comma] at run
          by_cases closes : p = 0 ∧ (t.lex = chr ')' ∨ t.lex = 0)
          · rw [if_pos closes] at run
            obtain ⟨free, same, rfl⟩ := store_last run
            have rparen := closes.2.resolve_right more
            have next' := @next_other f_MacroFind _ _ _ m stands (by rw [rparen]; decide)
            cases next.symm.trans next'
            exact ⟨.close t, ts, rfl, rfl, ⟨closes.1, rparen⟩, trivial, free, by simp [same, Arguments.split]⟩
          · rw [if_neg closes] at run
            obtain ⟨x, left, rfl, same', reads, inner, room, same⟩ := ihToken (by omega) behind properRest run
            refine ⟨.token t x, left, rfl, same', ⟨?_, plain, reads⟩, inner, room, ?_⟩
            · rintro ⟨none, isComma | isParenthesis⟩
              · exact comma ⟨none, isComma⟩
              · exact closes ⟨none, .inl isParenthesis⟩
            · simp [same, Arguments.split]
      · have next := next_object (n := m) stands found object
        rw [ f_ParamToken_macro next] at run
        obtain ⟨x, left, rfl, same', reads, inner, room, same⟩ := ihToken (by omega) stands_read properRest run
        exact ⟨.object t M x, left, rfl, same', ⟨found, object, reads⟩, inner, room, by simp [same, Arguments.split]⟩
      · have next := next_call (n := m) stands found function opens
        have properInner : Process.Proper ts' := fun t' mem => properRest t' (List.mem_cons_of_mem lparen mem)
        obtain ⟨_, _, read⟩ := next_of_run run
        obtain ⟨Param1, s1, arguments, _⟩ := done_of_bind (next.symm.trans read)
        obtain ⟨x1, left1, rfl, rfl, reads1, inner1, room1, same1⟩ :=
          ih m (by omega) _ _ _ _ _ stands_read properInner arguments
        rw [arguments] at next
        rw [ f_ParamToken_macro next] at run
        obtain ⟨x, left, rfl, same', reads, inner, room, same⟩ := ihToken (by omega) stands_read
          (fun t' mem => properInner t' (List.mem_append_right _ mem)) run
        have params : Param1 = x1.params := same1
        exact ⟨.call t M lparen x1 x, left, by simp [Arguments.raw], same',
          ⟨found, function, opens, reads1, reads⟩, ⟨by simpa using room1, inner1, inner⟩, room,
          by simp [same, params, Arguments.split, Arguments.params]⟩

/-- Where the collection ends there is an argument list with room for its arguments. -/
theorem collected {result : Param} (stands : Stands s ts) (proper : Process.Proper ts)
    (run : f_ParamCreate f_MacroFind n c s = .done result s') : Decided f_MacroFind 0 ts [] c result s' := by
  induction n using Nat.strongRecOn generalizing c s ts result s' with
  | _ n ih =>
    cases n with
    | zero => cases run
    | succ n =>
      rw [f_ParamCreate_succ] at run
      exact collected_token (fun k fewer c ts s result s' stands proper run =>
        ih k (Nat.lt_succ_of_le fewer) stands proper run) (Nat.le_refl n) stands proper run

end Lists

/-! ### What is consumed -/

section Closing

open Process (closing behindList)

variable {f_MacroFind : List Token → Text → Option Macro} {ts left : List Token} {p d : Nat}

theorem closing_plain {t : Token} (other : ¬(p + d = 0 ∧ t.lex = chr ')')) :
    closing (p + d) (t :: ts) = closing (depthBehind t (p + d)) ts := by
  rw [closing, if_neg other]

/-- A list is read up to the parenthesis that closes it, or to the end of the file. -/
theorem behind_of_reads {x : Arguments} (reads : x.Reads f_MacroFind p left) :
    (closing (p + d) (x.raw ++ left)).getD [] = (behindList d left).getD [] := by
  induction x generalizing p left d with
  | close rparen =>
    obtain ⟨rfl, closes⟩ := reads
    cases d with
    | zero => simp [Arguments.raw, closing, closes, behindList]
    | succ d =>
      have depth : depthBehind rparen (0 + (d + 1)) = d := by
        rw [depthBehind, if_neg (by rw [closes]; decide), if_pos closes]
        omega
      simp only [Arguments.raw, List.cons_append, List.nil_append]
      rw [closing_plain fun h => by omega, depth]
      rfl
  | eof =>
    obtain ⟨rfl, rfl⟩ := reads
    cases d <;> rfl
  | comma t more ih =>
    obtain ⟨rfl, isComma, reads⟩ := reads
    have depth : depthBehind t (0 + d) = 0 + d := by
      rw [depthBehind, isComma, if_neg (by decide), if_neg (by decide)]
    simp only [Arguments.raw, List.cons_append]
    rw [closing_plain, depth]
    · exact ih reads
    · rintro ⟨_, closes⟩
      exact absurd (isComma.symm.trans closes) (by decide)
  | token t more ih =>
    obtain ⟨stays, _, reads⟩ := reads
    have depth : depthBehind t (p + d) = depthBehind t p + d := by
      unfold depthBehind
      split
      · omega
      · split
        · rename_i closes
          have inside : p ≠ 0 := fun none => stays ⟨none, .inr closes⟩
          omega
        · rfl
    simp only [Arguments.raw, List.cons_append]
    rw [closing_plain, depth]
    · exact ih reads
    · rintro ⟨none, closes⟩
      exact stays ⟨by omega, .inr closes⟩
  | object t M more ih =>
    obtain ⟨found, _, reads⟩ := reads
    simp only [Arguments.raw, List.cons_append]
    rw [Process.closing_identifier (lex_of_macroOf found).1]
    exact ih reads
  | call t M lparen inner more ihInner ih =>
    obtain ⟨found, _, opens, readsInner, reads⟩ := reads
    simp only [Arguments.raw, List.cons_append, List.append_assoc]
    rw [Process.closing_identifier (lex_of_macroOf found).1, Process.closing_open opens]
    have behind := ihInner (d := p + d + 1) readsInner
    rw [Nat.zero_add] at behind
    rw [behind]
    exact ih reads

end Closing

/-! ### When the functions return -/

section Returns

variable (f_MacroFind : List Token → Text → Option Macro)

/-- A list of arguments with room for them and for those of the calls inside of it; at the end of the
file no parenthesis is open but those of calls. -/
def ArgumentList (ts left : List Token) (x : Arguments) : Prop :=
  ts = x.raw ++ left ∧ x.Reads f_MacroFind 0 left ∧ x.params.length ≤ PARAMETERS ∧ x.InnerFits

/-- The calls up to the first token that is delivered have such a list. -/
inductive Readable : List Token → Prop
  | eof : Readable []
  | plain {t ts} (plain : Plain f_MacroFind t ts) : Readable (t :: ts)
  | object {t ts M} (found : macroOf f_MacroFind t ts = some M) (object : M.typ = .CPP_DEFINE)
      (more : f_MacroMerge M t none = [] → Readable ts) : Readable (t :: ts)
  | call {t lparen ts left M x} (found : macroOf f_MacroFind t (lparen :: ts) = some M)
      (function : M.typ = .CPP_MACRO) (opens : lparen.lex = chr '(') (list : ArgumentList f_MacroFind ts left x)
      (more : f_MacroMerge M t (some x.params) = [] → Readable left) : Readable (t :: lparen :: ts)

end Returns

section Returned

variable {f_MacroFind : List Token → Text → Option Macro} {s : Input} {ts left : List Token} {n : Nat}

theorem ArgumentList.collects {x : Arguments} (list : ArgumentList f_MacroFind ts left x) (stands : Stands s ts)
    (proper : Process.Proper ts) (rounds : 3 * x.size ≤ n) :
    f_ParamCreate f_MacroFind (n + 1) [] s = .done x.params { unput := none, rest := left } := by
  obtain ⟨rfl, reads, room, inner⟩ := list
  rw [f_ParamCreate_succ, MacroInput.collects (r := []) (c := []) x stands proper reads inner (by simpa using room) rounds rounds]
  rfl

theorem yylex_succ : yylex f_MacroFind (n + 1) s =
    (nextTokens f_MacroFind n s).bind fun next s =>
      match next.1 with
      | [] => yylex f_MacroFind n s
      | tokens => .done tokens s := by
  rw [yylex]

/-- More rounds do not change what `yylex` delivers at a readable text. -/
theorem yylex_of_readable (readable : Readable f_MacroFind ts) (proper : Process.Proper ts) (stands : Stands s ts) :
    ∃ rounds, ∀ n, rounds ≤ n → ∃ tokens s', yylex f_MacroFind n s = .done tokens s' := by
  induction readable generalizing s with
  | eof =>
    refine ⟨1, fun n enough => ?_⟩
    obtain ⟨n, rfl⟩ : ∃ m, n = m + 1 := ⟨n - 1, by omega⟩
    rw [yylex_succ, next_eof stands]
    exact ⟨_, _, rfl⟩
  | plain plain =>
    refine ⟨2, fun n enough => ?_⟩
    obtain ⟨n, rfl⟩ : ∃ m, n = m + 2 := ⟨n - 2, by omega⟩
    obtain ⟨s', found, next, _⟩ := next_plain (n := n) stands plain
    rw [yylex_succ, next]
    exact ⟨_, _, rfl⟩
  | @object t ts M found object more ih =>
    have properRest : Process.Proper ts := fun t' mem => proper t' (List.mem_cons_of_mem t mem)
    cases merged : f_MacroMerge M t none with
    | nil =>
      obtain ⟨rounds, more⟩ := ih merged properRest stands_read
      refine ⟨rounds + 2, fun n enough => ?_⟩
      obtain ⟨n, rfl⟩ : ∃ m, n = m + 2 := ⟨n - 2, by omega⟩
      rw [yylex_succ, next_object stands found object, merged]
      exact more _ (by omega)
    | cons t' ts' =>
      refine ⟨2, fun n enough => ?_⟩
      obtain ⟨n, rfl⟩ : ∃ m, n = m + 2 := ⟨n - 2, by omega⟩
      rw [yylex_succ, next_object stands found object, merged]
      exact ⟨_, _, rfl⟩
  | @call t lparen ts left M x found function opens list more ih =>
    have properInner : Process.Proper ts := fun t' mem =>
      proper t' (List.mem_cons_of_mem _ (List.mem_cons_of_mem _ mem))
    have next : ∀ n, 3 * x.size ≤ n → nextTokens f_MacroFind (n + 2) s =
        .done (f_MacroMerge M t (some x.params), true) { unput := none, rest := left } := by
      intro n rounds
      rw [next_call stands found function opens, list.collects stands_read properInner rounds]
      rfl
    have properLeft : Process.Proper left := by
      intro t' mem
      refine properInner t' ?_
      rw [list.1]
      exact List.mem_append_right _ mem
    cases merged : f_MacroMerge M t (some x.params) with
    | nil =>
      obtain ⟨rounds, more⟩ := ih merged properLeft stands_read
      refine ⟨rounds + 3 * x.size + 3, fun n enough => ?_⟩
      obtain ⟨n, rfl⟩ : ∃ m, n = m + 3 := ⟨n - 3, by omega⟩
      rw [yylex_succ, next n (by omega), merged]
      exact more _ (by omega)
    | cons t' ts' =>
      refine ⟨3 * x.size + 3, fun n enough => ?_⟩
      obtain ⟨n, rfl⟩ : ∃ m, n = m + 3 := ⟨n - 3, by omega⟩
      rw [yylex_succ, next n (by omega), merged]
      exact ⟨_, _, rfl⟩

theorem readable_of_yylex {tokens : List Token} {s' : Input} (proper : Process.Proper ts) (stands : Stands s ts)
    (run : yylex f_MacroFind n s = .done tokens s') : Readable f_MacroFind ts := by
  induction n generalizing s ts with
  | zero => cases run
  | succ n ih =>
    cases ts with
    | nil => exact .eof
    | cons t ts =>
      have properRest : Process.Proper ts := fun t' mem => proper t' (List.mem_cons_of_mem t mem)
      rw [yylex_succ] at run
      obtain ⟨next, s1, read, more⟩ := done_of_bind run
      rcases next_cases f_MacroFind n stands with
        unfinished | ⟨plain, _⟩ | ⟨n, rfl, ⟨M, found, object⟩ | ⟨M, lparen, ts', rfl, found, function, opens⟩⟩
      · cases unfinished.symm.trans read
      · exact .plain plain
      · cases (next_object (n := n) stands found object).symm.trans read
        refine .object found object fun merged => ?_
        simp only [merged] at more
        exact ih properRest stands_read more
      · have properInner : Process.Proper ts' := fun t' mem => properRest t' (List.mem_cons_of_mem lparen mem)
        obtain ⟨Param1, s2, arguments, same⟩ := done_of_bind ((next_call stands found function opens).symm.trans read)
        obtain ⟨x, left, rfl, rfl, reads, inner, room, rfl⟩ := collected stands_read properInner arguments
        cases same
        refine .call found function opens ⟨rfl, reads, by simpa using room, inner⟩ fun merged => ?_
        have merged : f_MacroMerge M t (some ([] ++ ([] ++ x.split.1) :: x.split.2)) = [] := merged
        simp only [merged] at more
        exact ih (fun t' mem => properInner t' (List.mem_append_right _ mem)) stands_read more

end Returned

/-- A place of the source text: its tokens from there on are those in front of the end of the file. -/
structure Source where
  s : Input
  ts : List Token
  stands : Stands s ts
  proper : Process.Proper ts

/-- `yylex` returns. -/
def Source.Delivers (f_MacroFind : List Token → Text → Option Macro) (source : Source) : Prop :=
  ∃ n tokens s', yylex f_MacroFind n source.s = .done tokens s'

/-- Behind the parenthesis of a call `f_ParamCreate` returns arguments that fit, and it has read up to the
parenthesis that closes the call or to the end of the file. -/
def Source.CallRead (f_MacroFind : List Token → Text → Option Macro) (source : Source) : Prop :=
  ∃ n Param left, f_ParamCreate f_MacroFind n [] source.s = .done Param { unput := none, rest := left } ∧
    Param.length ≤ PARAMETERS ∧ left = (Process.closing 0 source.ts).getD []

/-- `F((` at the end of a file -/
def openParenthesis : Source where
  s := { rest := [{ lex := SN_IDENTIFIER, text := ascii "F" }, { lex := chr '(' }, { lex := chr '(' }] }
  ts := [{ lex := SN_IDENTIFIER, text := ascii "F" }, { lex := chr '(' }, { lex := chr '(' }]
  stands := .inl rfl
  proper := by
    intro t mem
    simp only [List.mem_cons, List.not_mem_nil, or_false] at mem
    rcases mem with rfl | rfl | rfl <;> decide

end SourceNavigator.Cpp.MacroInput

import SourceNavigator.Cpp.MacroProcess

/-!
The arguments of a macro call.

`Arguments` is an argument list up to its closing parenthesis, with the macro
calls that stand in it; `raw` are its tokens and `params` the sequences between
its commas, in which every call is replaced by its expansion. `Reads` says that
the tokens are read this way: parentheses match, and a call is marked exactly
where `f_MacroFind` knows a macro.

* `collects` — a list of at most 100 arguments is collected, however calls are
  nested in it.
* `collected` — where the collection comes to a decision the tokens begin with
  such a list.
* `closing_of_reads` — such a list ends with the parenthesis that closes it.
-/

namespace SourceNavigator.Cpp.Process

/-- The rest of an argument list. -/
inductive Arguments
  | close (rparen : Token)
  | comma (t : Token) (more : Arguments)
  /-- A token that belongs to an argument, also a parenthesis in it. -/
  | token (t : Token) (more : Arguments)
  /-- A macro without parameters. -/
  | object (t : Token) (Macro : Macro) (more : Arguments)
  /-- A macro with arguments of its own. -/
  | call (t : Token) (Macro : Macro) (lparen : Token) (inner more : Arguments)

namespace Arguments

/-- The tokens, with the closing parenthesis. -/
def raw : Arguments → List Token
  | close rparen => [rparen]
  | comma t more => t :: more.raw
  | token t more => t :: more.raw
  | object t _ more => t :: more.raw
  | call t _ lparen inner more => t :: lparen :: (inner.raw ++ more.raw)

/-- The rest of the first argument and the arguments behind it. -/
def split : Arguments → List Token × Param
  | close _ => ([], [])
  | comma _ more => ([], more.split.1 :: more.split.2)
  | token t more => (t :: more.split.1, more.split.2)
  | object t Macro more => (f_MacroMerge Macro t none ++ more.split.1, more.split.2)
  | call t Macro _ inner more =>
    (f_MacroMerge Macro t (some (inner.split.1 :: inner.split.2)) ++ more.split.1, more.split.2)

/-- The arguments. -/
def params (x : Arguments) : Param := x.split.1 :: x.split.2

/-- The calls inside of a list have arguments for which there is room. -/
def InnerFits : Arguments → Prop
  | close _ => True
  | comma _ more => more.InnerFits
  | token _ more => more.InnerFits
  | object _ _ more => more.InnerFits
  | call _ _ _ inner more =>
    inner.params.length ≤ PARAMETERS ∧ inner.InnerFits ∧ more.InnerFits

end Arguments

section Reads

variable (f_MacroFind : List Token → Text → Option Macro)

/-- No macro is called at a token in front of these. -/
def Plain (t : Token) (left : List Token) : Prop :=
  ∀ Macro, macroOf f_MacroFind t left = some Macro →
    Macro.typ = .CPP_UNDEF ∨
      Macro.typ = .CPP_MACRO ∧ (left.head?.map fun t => t.lex) ≠ some (chr '(')

/-- The parentheses that are open behind a token. -/
def depthBehind (t : Token) (p : Nat) : Nat :=
  if t.lex = chr '(' then p + 1 else if t.lex = chr ')' then p - 1 else p

/-- The tokens of a list are read as it says, with `p` parentheses open and these tokens behind. -/
def Arguments.Reads : Nat → List Token → Arguments → Prop
  | p, _, .close rparen => p = 0 ∧ rparen.lex = chr ')'
  | p, left, .comma t more => p = 0 ∧ t.lex = chr ',' ∧ more.Reads 0 left
  | p, left, .token t more =>
    ¬(p = 0 ∧ (t.lex = chr ',' ∨ t.lex = chr ')')) ∧ t.lex ≠ 0 ∧
      Plain f_MacroFind t (more.raw ++ left) ∧ more.Reads (depthBehind t p) left
  | p, left, .object t Macro more =>
    macroOf f_MacroFind t (more.raw ++ left) = some Macro ∧ Macro.typ = .CPP_DEFINE ∧
      more.Reads p left
  | p, left, .call t Macro lparen inner more =>
    macroOf f_MacroFind t (lparen :: (inner.raw ++ (more.raw ++ left))) = some Macro ∧
      Macro.typ = .CPP_MACRO ∧ lparen.lex = chr '(' ∧
      inner.Reads 0 (more.raw ++ left) ∧ more.Reads p left

end Reads

/-! ### One token -/

section Input

variable {f_MacroFind : List Token → Text → Option Macro} {s : Input} {t : Token}
  {ts : List Token} {n : Nat}

theorem input_cons (tokens : s.tokens = t :: ts) :
    f_ProcessTokenInput s = (some t, { unput := none, rest := ts }) := by
  obtain ⟨unput, rest⟩ := s
  cases unput with
  | some u =>
    obtain ⟨rfl, rfl⟩ := List.cons_eq_cons.mp tokens
    rfl
  | none =>
    obtain rfl : rest = t :: ts := tokens
    rfl

theorem input_nil (tokens : s.tokens = []) :
    f_ProcessTokenInput s = (none, { unput := none, rest := [] }) := by
  obtain ⟨unput, rest⟩ := s
  cases unput with
  | some u => exact nomatch tokens
  | none =>
    obtain rfl : rest = [] := tokens
    rfl

theorem tokens_read : Input.tokens { unput := none, rest := ts } = ts := rfl

/-- At the end of the body nothing is delivered. -/
theorem next_end (tokens : s.tokens = []) :
    f_ProcessTokenMacroInput f_MacroFind (n + 1) s =
      .done ([], false) { unput := none, rest := [] } := by
  rw [f_ProcessTokenMacroInput, input_nil tokens]

theorem next_plain (tokens : s.tokens = t :: ts) (plain : Plain f_MacroFind t ts) :
    ∃ s', f_ProcessTokenMacroInput f_MacroFind (n + 1) s = .done ([t], false) s' ∧
      s'.tokens = ts := by
  rw [f_ProcessTokenMacroInput, input_cons tokens]
  simp only [tokens_read]
  cases found : macroOf f_MacroFind t ts with
  | none => exact ⟨_, rfl, rfl⟩
  | some M =>
    simp only
    rcases plain M found with undef | ⟨function, noParenthesis⟩
    · rw [undef]
      exact ⟨_, rfl, rfl⟩
    · rw [function]
      simp only
      cases ts with
      | nil =>
        rw [input_nil tokens_read]
        exact ⟨_, rfl, rfl⟩
      | cons t' ts =>
        rw [input_cons tokens_read]
        have noParenthesis : some t'.lex ≠ some (chr '(') := noParenthesis
        simp only [Option.map_some]
        rw [if_neg noParenthesis]
        exact ⟨_, rfl, rfl⟩

theorem next_object {M : Macro} (tokens : s.tokens = t :: ts)
    (found : macroOf f_MacroFind t ts = some M) (object : M.typ = .CPP_DEFINE) :
    f_ProcessTokenMacroInput f_MacroFind (n + 1) s =
      .done (f_MacroMerge M t none, true) { unput := none, rest := ts } := by
  rw [f_ProcessTokenMacroInput, input_cons tokens]
  simp only [tokens_read, found, object]

theorem next_call {M : Macro} {lparen : Token} (tokens : s.tokens = t :: lparen :: ts)
    (found : macroOf f_MacroFind t (lparen :: ts) = some M) (function : M.typ = .CPP_MACRO)
    (opens : lparen.lex = chr '(') :
    f_ProcessTokenMacroInput f_MacroFind (n + 1) s =
      (f_ProcessParamCreate f_MacroFind n [] { unput := none, rest := ts }).bind fun Param s =>
        .done (f_MacroMerge M t (some Param), true) s := by
  rw [f_ProcessTokenMacroInput, input_cons tokens]
  simp only [tokens_read, found, function]
  rw [input_cons tokens_read]
  simp only [Option.map_some, opens, if_true]

end Input

/-! ### Argument lists -/

section Lists

variable {f_MacroFind : List Token → Text → Option Macro} {s s' : Input} {t : Token}
  {ts left : List Token} {n m p : Nat} {TokenReturn : List Token} {Param : Param}

/-- What `f_ProcessParamCreate` does with an argument. -/
def store (f_MacroFind : List Token → Text → Option Macro) (n : Nat) (Param : Process.Param)
    (found : List Token × Option Bool) (s : Input) : Collected Process.Param :=
  if PARAMETERS ≤ Param.length then .overflow
  else
    match found.2 with
    | none => .undecided
    | some true => f_ProcessParamCreate f_MacroFind n (Param ++ [found.1]) s
    | some false => .done (Param ++ [found.1]) s

theorem f_ProcessParamCreate_succ :
    f_ProcessParamCreate f_MacroFind (n + 1) Param s =
      (f_ProcessParamToken f_MacroFind n [] 0 s).bind (store f_MacroFind n Param) := by
  rw [f_ProcessParamCreate]
  rfl

/-- A macro in an argument. -/
theorem f_ProcessParamToken_macro
    (next : f_ProcessTokenMacroInput f_MacroFind n s = .done (ts, true) s') :
    f_ProcessParamToken f_MacroFind (n + 1) TokenReturn p s =
      f_ProcessParamToken f_MacroFind n (TokenReturn ++ ts) p s' := by
  rw [f_ProcessParamToken, next]
  rfl

/-- The end of the body: nothing is stored in `*pbContinue`. -/
theorem f_ProcessParamToken_end (tokens : s.tokens = []) :
    f_ProcessParamToken f_MacroFind (n + 2) TokenReturn p s =
      .done (TokenReturn, none) { unput := none, rest := [] } := by
  rw [f_ProcessParamToken, next_end tokens]
  rfl

/-- Any other token. -/
theorem f_ProcessParamToken_token
    (next : f_ProcessTokenMacroInput f_MacroFind n s = .done ([t], false) s') :
    f_ProcessParamToken f_MacroFind (n + 1) TokenReturn p s =
      if p = 0 ∧ t.lex = chr ',' then .done (TokenReturn, some true) s'
      else if p = 0 ∧ (t.lex = chr ')' ∨ t.lex = 0) then .done (TokenReturn, some false) s'
      else f_ProcessParamToken f_MacroFind n (TokenReturn ++ [t]) (depthBehind t p) s' := by
  rw [f_ProcessParamToken, next]
  rfl

theorem plain_of_lex (lex : t.lex ≠ SN_IDENTIFIER) : Plain f_MacroFind t left := by
  intro M found
  rw [macroOf, if_neg fun h => lex h.1] at found
  exact nomatch found

theorem length_params {x : Arguments} : x.params.length = x.split.2.length + 1 := rfl

/-- An argument list with room for its arguments is collected. -/
theorem collects {r : List Token} {c : Process.Param} (x : Arguments) (tokens : s.tokens = x.raw ++ left)
    (reads : x.Reads f_MacroFind p left) (inner : x.InnerFits)
    (room : c.length + x.params.length ≤ PARAMETERS) (rounds : 3 * x.raw.length ≤ m)
    (rounds' : 3 * x.raw.length ≤ n) :
    ∃ s', (f_ProcessParamToken f_MacroFind m r p s).bind (store f_MacroFind n c) =
        .done (c ++ (r ++ x.split.1) :: x.split.2) s' ∧ s'.tokens = left := by
  induction x generalizing p left s m n r c with
  | close rparen =>
    obtain ⟨rfl, closes⟩ := reads
    obtain ⟨m, rfl⟩ : ∃ m', m = m' + 2 := ⟨m - 2, by simp [Arguments.raw] at rounds; omega⟩
    obtain ⟨s', next, behind⟩ := next_plain (n := m) tokens
      (plain_of_lex (by rw [closes]; decide))
    refine ⟨s', ?_, behind⟩
    have free : ¬PARAMETERS ≤ c.length := by
      rw [length_params] at room
      omega
    rw [f_ProcessParamToken_token next, if_neg, if_pos ⟨rfl, .inl closes⟩]
    · simp only [Collected.bind, store]
      rw [if_neg free]
      simp [Arguments.split]
    · rintro ⟨_, isComma⟩
      exact absurd (closes.symm.trans isComma) (by decide)
  | comma t more ih =>
    obtain ⟨rfl, isComma, reads⟩ := reads
    simp only [Arguments.raw, List.length_cons] at rounds rounds'
    obtain ⟨m, rfl⟩ : ∃ m', m = m' + 2 := ⟨m - 2, by omega⟩
    obtain ⟨n, rfl⟩ : ∃ n', n = n' + 1 := ⟨n - 1, by omega⟩
    obtain ⟨s', next, behind⟩ := next_plain (n := m) tokens
      (plain_of_lex (by rw [isComma]; decide))
    have free : ¬PARAMETERS ≤ c.length := by
      rw [length_params] at room
      omega
    have room : (c ++ [r]).length + more.params.length ≤ PARAMETERS := by
      simp only [length_params, Arguments.split, List.length_append, List.length_cons,
        List.length_nil] at room ⊢
      omega
    obtain ⟨s'', rest, behind'⟩ := ih (r := []) (m := n) (n := n) behind reads inner room
      (by omega) (by omega)
    refine ⟨s'', ?_, behind'⟩
    rw [f_ProcessParamToken_token next, if_pos ⟨rfl, isComma⟩]
    simp only [Collected.bind, store]
    rw [if_neg free, f_ProcessParamCreate_succ, rest]
    simp [Arguments.split]
  | token t more ih =>
    obtain ⟨stays, more', plain, reads⟩ := reads
    simp only [Arguments.raw, List.length_cons] at rounds rounds'
    obtain ⟨m, rfl⟩ : ∃ m', m = m' + 2 := ⟨m - 2, by omega⟩
    obtain ⟨s', next, behind⟩ := next_plain (n := m) tokens plain
    obtain ⟨s'', rest, behind'⟩ := ih (r := r ++ [t]) (m := m + 1) behind reads
      inner room (by omega) (by omega : 3 * more.raw.length ≤ n)
    refine ⟨s'', ?_, behind'⟩
    rw [f_ProcessParamToken_token next, if_neg, if_neg, rest]
    · simp [Arguments.split]
    · rintro ⟨none, closes | zero⟩
      · exact stays ⟨none, .inr closes⟩
      · exact more' zero
    · rintro ⟨none, isComma⟩
      exact stays ⟨none, .inl isComma⟩
  | object t M more ih =>
    obtain ⟨found, object, reads⟩ := reads
    simp only [Arguments.raw, List.length_cons] at rounds rounds'
    obtain ⟨m, rfl⟩ : ∃ m', m = m' + 2 := ⟨m - 2, by omega⟩
    have tokens : s.tokens = t :: (more.raw ++ left) := tokens
    have next := next_object (n := m) tokens found object
    obtain ⟨s'', rest, behind'⟩ := ih (r := r ++ f_MacroMerge M t none)
      (m := m + 1) tokens_read reads inner room (by omega) (by omega : 3 * more.raw.length ≤ n)
    refine ⟨s'', ?_, behind'⟩
    rw [ f_ProcessParamToken_macro next, rest]
    simp [Arguments.split]
  | call t M lparen arguments more ihInner ih =>
    obtain ⟨found, function, opens, readsInner, reads⟩ := reads
    obtain ⟨roomInner, innerInner, inner⟩ := inner
    simp only [Arguments.raw, List.length_cons, List.length_append] at rounds rounds'
    obtain ⟨m, rfl⟩ : ∃ m', m = m' + 3 := ⟨m - 3, by omega⟩
    have tokens : s.tokens = t :: lparen :: (arguments.raw ++ (more.raw ++ left)) := by
      rw [tokens]
      simp [Arguments.raw]
    obtain ⟨s', collected, behind⟩ := ihInner (r := []) (c := []) (m := m) (n := m)
      tokens_read readsInner innerInner (by simpa using roomInner) (by omega) (by omega)
    have next : f_ProcessTokenMacroInput f_MacroFind (m + 2) s =
        .done (f_MacroMerge M t (some arguments.params), true) s' := by
      rw [next_call tokens found function opens, f_ProcessParamCreate_succ, collected]
      rfl
    obtain ⟨s'', rest, behind'⟩ := ih
      (r := r ++ f_MacroMerge M t (some arguments.params)) (m := m + 2) behind
      reads inner room (by omega) (by omega : 3 * more.raw.length ≤ n)
    refine ⟨s'', ?_, behind'⟩
    rw [ f_ProcessParamToken_macro next, rest]
    simp [Arguments.split, Arguments.params]

/-- The three ways in which a token is read. -/
theorem token_cases (f_MacroFind : List Token → Text → Option Macro) (t : Token) (ts : List Token) :
    Plain f_MacroFind t ts ∨
      (∃ M, macroOf f_MacroFind t ts = some M ∧ M.typ = .CPP_DEFINE) ∨
      ∃ M lparen ts', ts = lparen :: ts' ∧ macroOf f_MacroFind t ts = some M ∧ M.typ = .CPP_MACRO ∧
        lparen.lex = chr '(' := by
  by_cases plain : Plain f_MacroFind t ts
  · exact .inl plain
  · simp only [Plain, not_forall, not_or, not_and, not_not] at plain
    obtain ⟨M, found, notUndef, parenthesis⟩ := plain
    cases typ : M.typ with
    | CPP_UNDEF => exact absurd typ notUndef
    | CPP_DEFINE => exact .inr (.inl ⟨M, found, typ⟩)
    | CPP_MACRO =>
      have opens := parenthesis typ
      cases ts with
      | nil => exact nomatch opens
      | cons lparen ts' => exact .inr (.inr ⟨M, lparen, ts', rfl, found, typ, Option.some.inj opens⟩)

/-- No token of a body has the code of the end. -/
def Proper (ts : List Token) : Prop := ∀ t ∈ ts, t.lex ≠ 0

/-- The tokens begin with an argument list, and this is what comes of it. -/
def Decided (f_MacroFind : List Token → Text → Option Macro) (p : Nat) (s : Input)
    (TokenReturn : List Token) (Param result : Process.Param) (s' : Input) : Prop :=
  ∃ x : Arguments, s.tokens = x.raw ++ s'.tokens ∧ x.Reads f_MacroFind p s'.tokens ∧ x.InnerFits ∧
    Param.length + x.params.length ≤ PARAMETERS ∧
    result = Param ++ (TokenReturn ++ x.split.1) :: x.split.2

section Store

variable {result : Process.Param}

theorem store_none (run : store f_MacroFind n Param (TokenReturn, none) s = .done result s') :
    False := by
  unfold store at run
  split at run
  · exact nomatch run
  · exact nomatch run

theorem store_last (run : store f_MacroFind n Param (TokenReturn, some false) s = .done result s') :
    Param.length < PARAMETERS ∧ result = Param ++ [TokenReturn] ∧ s' = s := by
  unfold store at run
  split at run
  · exact nomatch run
  · rename_i free
    injection run with same state
    exact ⟨Nat.lt_of_not_le free, same.symm, state.symm⟩

theorem store_more (run : store f_MacroFind n Param (TokenReturn, some true) s = .done result s') :
    Param.length < PARAMETERS ∧
      f_ProcessParamCreate f_MacroFind n (Param ++ [TokenReturn]) s = .done result s' := by
  unfold store at run
  split at run
  · exact nomatch run
  · rename_i free
    exact ⟨Nat.lt_of_not_le free, run⟩

end Store

/-- The rounds of `f_ProcessParamToken`, where the calls with fewer rounds are known. -/
theorem collected_token {result : Process.Param}
    (ih : ∀ k ≤ n, ∀ (Param : Process.Param) (s : Input) (result : Process.Param) (s' : Input),
      Proper s.tokens → f_ProcessParamCreate f_MacroFind k Param s = .done result s' →
      Decided f_MacroFind 0 s [] Param result s')
    (fewer : m ≤ n) (proper : Proper s.tokens)
    (run : (f_ProcessParamToken f_MacroFind m TokenReturn p s).bind (store f_MacroFind n Param) =
      .done result s') :
    Decided f_MacroFind p s TokenReturn Param result s' := by
  induction m generalizing s p TokenReturn with
  | zero => exact nomatch run
  | succ m ihToken =>
    obtain _ | m := m
    · exact nomatch run
    cases tokens : s.tokens with
    | nil =>
      rw [f_ProcessParamToken_end tokens] at run
      simp only [Collected.bind] at run
      exact (store_none run).elim
    | cons t ts =>
      rw [tokens] at proper
      have more : t.lex ≠ 0 := proper t (List.mem_cons_self ..)
      have properRest : Proper ts := fun t' mem => proper t' (List.mem_cons_of_mem t mem)
      rcases token_cases f_MacroFind t ts with
        plain | ⟨M, found, object⟩ | ⟨M, lparen, ts', rfl, found, function, opens⟩
      · obtain ⟨s1, next, behind⟩ := next_plain (n := m) tokens plain
        rw [f_ProcessParamToken_token next] at run
        by_cases comma : p = 0 ∧ t.lex = chr ','
        · rw [if_pos comma] at run
          simp only [Collected.bind] at run
          obtain ⟨free, run⟩ := store_more run
          obtain ⟨x, read, reads, inner, room, same⟩ :=
            ih n (Nat.le_refl n) _ s1 result s' (by rw [behind]; exact properRest) run
          refine ⟨.comma t x, ?_, ⟨comma.1, comma.2, reads⟩, inner, ?_, ?_⟩
          · rw [tokens, ← behind, read]
            rfl
          · simp only [length_params, Arguments.split, List.length_append, List.length_cons,
              List.length_nil] at room ⊢
            omega
          · simp [same, Arguments.split]
        · rw [if_neg comma] at run
          by_cases closes : p = 0 ∧ (t.lex = chr ')' ∨ t.lex = 0)
          · rw [if_pos closes] at run
            simp only [Collected.bind] at run
            obtain ⟨free, same, rfl⟩ := store_last run
            refine ⟨.close t, ?_, ⟨closes.1, closes.2.resolve_right more⟩, trivial, free, ?_⟩
            · rw [tokens, behind]
              rfl
            · simp [same, Arguments.split]
          · rw [if_neg closes] at run
            obtain ⟨x, read, reads, inner, room, same⟩ :=
              ihToken (by omega) (by rw [behind]; exact properRest) run
            refine ⟨.token t x, ?_, ⟨?_, more, ?_, reads⟩, inner, room, ?_⟩
            · rw [tokens, ← behind, read]
              rfl
            · rintro ⟨none, isComma | isParenthesis⟩
              · exact comma ⟨none, isComma⟩
              · exact closes ⟨none, .inl isParenthesis⟩
            · rw [← read, behind]
              exact plain
            · simp [same, Arguments.split]
      · have next := next_object (n := m) tokens found object
        rw [ f_ProcessParamToken_macro next] at run
        obtain ⟨x, read, reads, inner, room, same⟩ :=
          ihToken (s := { unput := none, rest := ts }) (by omega) properRest run
        have read : ts = x.raw ++ s'.tokens := read
        refine ⟨.object t M x, ?_, ⟨?_, object, reads⟩, inner, room, ?_⟩
        · rw [tokens, read]
          rfl
        · rw [← read]
          exact found
        · simp [same, Arguments.split]
      · have next := next_call (n := m) tokens found function opens
        cases arguments : f_ProcessParamCreate f_MacroFind m [] { unput := none, rest := ts' } with
        | done Param1 s1 =>
          rw [arguments] at next
          rw [ f_ProcessParamToken_macro next] at run
          have properInner : Proper ts' := fun t' mem =>
            properRest t' (List.mem_cons_of_mem lparen mem)
          obtain ⟨x1, read1, reads1, inner1, room1, same1⟩ :=
            ih m (by omega) _ { unput := none, rest := ts' } _ _ properInner arguments
          have read1 : ts' = x1.raw ++ s1.tokens := read1
          have properBehind : Proper s1.tokens := by
            intro t' mem
            refine properInner t' ?_
            rw [read1]
            exact List.mem_append_right _ mem
          obtain ⟨x, read, reads, inner, room, same⟩ := ihToken (by omega) properBehind run
          have params : Param1 = x1.params := same1
          refine ⟨.call t M lparen x1 x, ?_, ⟨?_, function, opens, ?_, reads⟩,
            ⟨?_, inner1, inner⟩, room, ?_⟩
          · rw [tokens, read1, read]
            simp [Arguments.raw]
          · rw [← read, ← read1]
            exact found
          · rw [← read]
            exact reads1
          · simpa using room1
          · simp [same, params, Arguments.split, Arguments.params]
        | undecided =>
          rw [f_ProcessParamToken, next, arguments] at run
          exact nomatch run
        | overflow =>
          rw [f_ProcessParamToken, next, arguments] at run
          exact nomatch run
        | fatal =>
          rw [f_ProcessParamToken, next, arguments] at run
          exact nomatch run
        | unfinished =>
          rw [f_ProcessParamToken, next, arguments] at run
          exact nomatch run

/-- Where the collection comes to a decision there is an argument list with room for its
arguments. -/
theorem collected {result : Process.Param} (proper : Proper s.tokens)
    (run : f_ProcessParamCreate f_MacroFind n Param s = .done result s') :
    Decided f_MacroFind 0 s [] Param result s' := by
  induction n using Nat.strongRecOn generalizing Param s result s' with
  | _ n ih =>
    cases n with
    | zero => exact nomatch run
    | succ n =>
      rw [f_ProcessParamCreate_succ] at run
      exact collected_token (fun k fewer Param s result s' proper run =>
        ih k (Nat.lt_succ_of_le fewer) proper run) (Nat.le_refl n) proper run

end Lists

/-! ### The closing parenthesis -/

/-- What stands behind the parenthesis that closes the list, with `p` more to close before. -/
def closing : Nat → List Token → Option (List Token)
  | _, [] => none
  | p, t :: ts =>
    if p = 0 ∧ t.lex = chr ')' then some ts else closing (depthBehind t p) ts

section Closing

variable {f_MacroFind : List Token → Text → Option Macro} {t : Token} {ts left : List Token}
  {p d : Nat}

/-- What is behind a list inside of `d` parentheses. -/
def behindList : Nat → List Token → Option (List Token)
  | 0, left => some left
  | d + 1, left => closing d left

theorem closing_identifier (identifier : t.lex = SN_IDENTIFIER) :
    closing p (t :: ts) = closing p ts := by
  have depth : depthBehind t p = p := by
    rw [depthBehind, identifier, if_neg (by decide), if_neg (by decide)]
  rw [closing, depth, if_neg]
  rintro ⟨_, closes⟩
  exact absurd (identifier.symm.trans closes) (by decide)

theorem closing_open (opens : t.lex = chr '(') : closing p (t :: ts) = closing (p + 1) ts := by
  have depth : depthBehind t p = p + 1 := by
    rw [depthBehind, if_pos opens]
  rw [closing, depth, if_neg]
  rintro ⟨_, closes⟩
  exact absurd (opens.symm.trans closes) (by decide)

theorem lex_of_macroOf {M : Macro} (found : macroOf f_MacroFind t ts = some M) :
    t.lex = SN_IDENTIFIER := by
  unfold macroOf at found
  split at found
  · rename_i identifier
    exact identifier.1
  · exact nomatch found

/-- The parentheses of an argument list match. -/
theorem closing_of_reads {x : Arguments} (reads : x.Reads f_MacroFind p left) :
    closing (p + d) (x.raw ++ left) = behindList d left := by
  induction x generalizing p left d with
  | close rparen =>
    obtain ⟨rfl, closes⟩ := reads
    cases d with
    | zero => simp [Arguments.raw, closing, closes, behindList]
    | succ d =>
      have depth : depthBehind rparen (0 + (d + 1)) = d := by
        rw [depthBehind, if_neg (by rw [closes]; decide), if_pos closes]
        omega
      simp only [Arguments.raw, List.cons_append, List.nil_append]
      rw [closing, depth, if_neg fun h => by omega]
      rfl
  | comma t more ih =>
    obtain ⟨rfl, isComma, reads⟩ := reads
    have depth : depthBehind t (0 + d) = 0 + d := by
      rw [depthBehind, isComma, if_neg (by decide), if_neg (by decide)]
    simp only [Arguments.raw, List.cons_append]
    rw [closing, depth, if_neg]
    · exact ih reads
    · rintro ⟨_, closes⟩
      exact absurd (isComma.symm.trans closes) (by decide)
  | token t more ih =>
    obtain ⟨stays, _, _, reads⟩ := reads
    have depth : depthBehind t (p + d) = depthBehind t p + d := by
      unfold depthBehind
      split
      · omega
      · split
        · rename_i closes
          have inside : p ≠ 0 := fun none => stays ⟨none, .inr closes⟩
          omega
        · rfl
    simp only [Arguments.raw, List.cons_append]
    rw [closing, depth, if_neg]
    · exact ih reads
    · rintro ⟨none, closes⟩
      exact stays ⟨by omega, .inr closes⟩
  | object t M more ih =>
    obtain ⟨found, _, reads⟩ := reads
    simp only [Arguments.raw, List.cons_append]
    rw [closing_identifier (lex_of_macroOf found)]
    exact ih reads
  | call t M lparen inner more ihInner ih =>
    obtain ⟨found, _, opens, readsInner, reads⟩ := reads
    simp only [Arguments.raw, List.cons_append, List.append_assoc]
    rw [closing_identifier (lex_of_macroOf found), closing_open opens]
    have behind := ihInner (d := p + d + 1) readsInner
    rw [Nat.zero_add] at behind
    rw [behind]
    exact ih reads

end Closing

/-! ### Bodies -/

/-- What is left of a macro body; its tokens are those before the end of the macro. -/
structure Body where
  tokens : List Token
  proper : Proper tokens

/-- The tokens begin with an argument list up to its closing parenthesis, and there is room for its
arguments and for those of the calls inside of it. -/
def Body.Closed (f_MacroFind : List Token → Text → Option Macro) (body : Body) : Prop :=
  ∃ x left, body.tokens = Arguments.raw x ++ left ∧ x.Reads f_MacroFind 0 left ∧
    x.params.length ≤ PARAMETERS ∧ x.InnerFits

/-- `F( a` at the end of a body, from behind the parenthesis on -/
def openCall : Body where
  tokens := [⟨SN_IDENTIFIER, 0, ascii "a", false, .FALSE, -1, 1, 3, 1, 4⟩]
  proper := by
    intro t mem
    obtain rfl := List.mem_singleton.mp mem
    exact (by decide : SN_IDENTIFIER ≠ 0)

end SourceNavigator.Cpp.Process

import Mathlib.Data.List.Nodup
import SourceNavigator.Cpp.FirstPass.Rules

/-!
The name of a class or enumeration without a name in a `typedef`
(`get_struct_name` in `cpp/cparser.c`).

`AnonymousTypedef` is such a typedef from behind the keyword of the class on: its
base classes, its body and its declarators. The scan of `get_struct_name` counts
the brackets of all kinds together and begins to count behind the first token of
a declarator.

* `searchFrom_lost`: behind an opening bracket that was not counted the scan
  takes a name out of the brackets, or it goes on behind the typedef.
-/

namespace SourceNavigator.Cpp.FirstPass

open Lib Lib.Program

/-! ### Typedefs -/

def opensBracket (t : Nat) : Bool := t = chr '{' || t = chr '[' || t = chr '('

def closesBracket (t : Nat) : Bool := t = chr '}' || t = chr ']' || t = chr ')'

/-- Tokens behind `depth` open brackets, which match. Outside of brackets stands no semicolon, and a
comma only between declarators; directly inside the brackets of a declarator, where parameters are
separated, no semicolon stands and no bracket follows a comma. -/
def Nested (between : Bool) : Nat → List StackEntry → Prop
  | depth, [] => depth = 0
  | depth, e :: ts =>
    e.token ≠ 0 ∧
      if opensBracket e.token then Nested between (depth + 1) ts
      else if closesBracket e.token then depth ≠ 0 ∧ Nested between (depth - 1) ts
      else
        (e.token = chr ';' → 2 ≤ depth) ∧
          (e.token = chr ',' → (between = true ∨ depth ≠ 0) ∧
            (depth = 1 → opensBracket (Cpp.token ts 0) = false ∧
              closesBracket (Cpp.token ts 0) = false)) ∧
          Nested between depth ts

/-- A declarator of a typedef: a name, a pointer, an array, a function pointer. -/
structure TypedefDeclarator where
  tokens : List StackEntry
  nonempty : tokens ≠ []
  nested : Nested false 0 tokens
  /-- A typedef has no initialiser. -/
  declares : Cpp.token tokens 0 = SN_IDENTIFIER → Cpp.token tokens 1 ≠ chr '='

/-- The name of a declarator that is a plain identifier. -/
def TypedefDeclarator.plainName (d : TypedefDeclarator) : Option StackEntry :=
  match d.tokens with
  | [e] => if e.token = SN_IDENTIFIER then some e else none
  | _ => none

/-- Declarators with the commas between them. -/
inductive TypedefDeclarators
  | last (d : TypedefDeclarator)
  | more (d : TypedefDeclarator) (comma : StackEntry) (separates : comma.token = chr ',')
      (ds : TypedefDeclarators)

namespace TypedefDeclarators

def tokens : TypedefDeclarators → List StackEntry
  | last d => d.tokens
  | more d comma _ ds => d.tokens ++ comma :: ds.tokens

/-- The name of the first declarator that is a plain identifier. -/
def name : TypedefDeclarators → Option StackEntry
  | last d => d.plainName
  | more d _ _ ds => d.plainName <|> ds.name

/-- No declarator before the first plain one begins with an opening bracket. -/
def Straight : TypedefDeclarators → Prop
  | last d => d.plainName.isSome ∨ opensBracket (Cpp.token d.tokens 0) = false
  | more d _ _ ds =>
    d.plainName.isSome ∨ opensBracket (Cpp.token d.tokens 0) = false ∧ ds.Straight

end TypedefDeclarators

/-- The braces among some tokens match, with this many open before them. -/
def Braced : Nat → List StackEntry → Prop
  | depth, [] => depth = 0
  | depth, e :: ts =>
    e.token ≠ 0 ∧
      if e.token = chr '{' then Braced (depth + 1) ts
      else if e.token = chr '}' then depth ≠ 0 ∧ Braced (depth - 1) ts
      else Braced depth ts

/-- A typedef of a class or enumeration without a name, from behind its keyword on. -/
structure AnonymousTypedef where
  bases : List StackEntry
  lbrace : StackEntry
  body : List StackEntry
  rbrace : StackEntry
  declarators : Option TypedefDeclarators
  semicolon : StackEntry
  bases_end : ∀ e ∈ bases, e.token ≠ 0 ∧ e.token ≠ chr '{'
  opens : lbrace.token = chr '{'
  braced : Braced 0 body
  closes : rbrace.token = chr '}'
  ends : semicolon.token = chr ';'
  /-- Every token has a position of its own. -/
  distinct : ∀ ds, declarators = some ds → ds.tokens.Nodup

namespace AnonymousTypedef

def declaratorTokens (x : AnonymousTypedef) : List StackEntry :=
  (x.declarators.map TypedefDeclarators.tokens).getD []

def tokens (x : AnonymousTypedef) : List StackEntry :=
  x.bases ++ x.lbrace :: (x.body ++ x.rbrace :: (x.declaratorTokens ++ [x.semicolon]))

def name (x : AnonymousTypedef) : Option StackEntry := x.declarators.bind TypedefDeclarators.name

end AnonymousTypedef

/-- The tokens with the number of brackets around them; a bracket is inside of itself. -/
def depths : Nat → List StackEntry → List (StackEntry × Nat)
  | _, [] => []
  | depth, e :: ts =>
    if opensBracket e.token then (e, depth + 1) :: depths (depth + 1) ts
    else (e, depth) :: depths (if closesBracket e.token then depth - 1 else depth) ts

section Nested

variable {between : Bool} {depth : Nat} {e : StackEntry} {a b ts : List StackEntry}

/-- The three kinds of tokens. -/
theorem nested_cons (nested : Nested between depth (e :: ts)) :
    opensBracket e.token = true ∧ Nested between (depth + 1) ts ∨
      opensBracket e.token = false ∧ closesBracket e.token = true ∧ depth ≠ 0 ∧
        Nested between (depth - 1) ts ∨
      opensBracket e.token = false ∧ closesBracket e.token = false ∧
        (e.token = chr ';' → 2 ≤ depth) ∧
        (e.token = chr ',' → (between = true ∨ depth ≠ 0) ∧
          (depth = 1 → opensBracket (Cpp.token ts 0) = false ∧
            closesBracket (Cpp.token ts 0) = false)) ∧
        Nested between depth ts := by
  obtain ⟨_, nested⟩ := nested
  by_cases opens : opensBracket e.token = true
  · rw [if_pos opens] at nested
    exact .inl ⟨opens, nested⟩
  · rw [if_neg opens] at nested
    rw [Bool.not_eq_true] at opens
    by_cases closes : closesBracket e.token = true
    · rw [if_pos closes] at nested
      exact .inr (.inl ⟨opens, closes, nested⟩)
    · rw [if_neg closes] at nested
      rw [Bool.not_eq_true] at closes
      exact .inr (.inr ⟨opens, closes, nested⟩)

theorem nested_more (nested : Nested between depth (e :: ts)) : e.token ≠ 0 := nested.1

/-- Something follows inside of brackets. -/
theorem nested_ne_nil (nested : Nested between depth ts) (inside : depth ≠ 0) : ts ≠ [] := by
  rintro rfl
  exact inside nested

theorem nested_append (first : Nested between depth a) (then_ : Nested between 0 b) :
    Nested between depth (a ++ b) := by
  induction a generalizing depth with
  | nil =>
    obtain rfl : depth = 0 := first
    exact then_
  | cons e a ih =>
    have more : e.token ≠ 0 := nested_more first
    rcases nested_cons first with
      ⟨opens, inner⟩ | ⟨opens, closes, inside, outer⟩ | ⟨opens, closes, semicolon, comma, inner⟩
    · simp only [List.cons_append, Nested, opens, if_pos]
      exact ⟨more, ih inner⟩
    · simp only [List.cons_append, Nested, opens, closes, if_pos, Bool.false_eq_true, if_false]
      exact ⟨more, inside, ih outer⟩
    · simp only [List.cons_append, Nested, opens, closes, Bool.false_eq_true, if_false]
      refine ⟨more, semicolon, fun isComma => ⟨(comma isComma).1, fun one => ?_⟩, ih inner⟩
      have next := (comma isComma).2 one
      cases a with
      | nil => exact absurd rfl (nested_ne_nil inner (by omega))
      | cons e' a => exact next

theorem nested_mono (nested : Nested false depth ts) : Nested true depth ts := by
  induction ts generalizing depth with
  | nil => exact nested
  | cons e ts ih =>
    have more : e.token ≠ 0 := nested_more nested
    rcases nested_cons nested with
      ⟨opens, inner⟩ | ⟨opens, closes, inside, outer⟩ | ⟨opens, closes, semicolon, comma, inner⟩
    · simp only [Nested, opens, if_pos]
      exact ⟨more, ih inner⟩
    · simp only [Nested, opens, closes, if_pos, Bool.false_eq_true, if_false]
      exact ⟨more, inside, ih outer⟩
    · simp only [Nested, opens, closes, Bool.false_eq_true, if_false]
      exact ⟨more, semicolon, fun isComma => ⟨.inl trivial, (comma isComma).2⟩, ih inner⟩

theorem depths_append (nested : Nested between depth a) :
    depths depth (a ++ b) = depths depth a ++ depths 0 b := by
  induction a generalizing depth with
  | nil =>
    obtain rfl : depth = 0 := nested
    rfl
  | cons e a ih =>
    rcases nested_cons nested with
      ⟨opens, inner⟩ | ⟨opens, closes, _, outer⟩ | ⟨opens, closes, _, _, inner⟩
    · simp [depths, opens, ih inner]
    · simp [depths, opens, closes, ih outer]
    · simp [depths, opens, closes, ih inner]

theorem map_depths : (depths depth ts).map Prod.fst = ts := by
  induction ts generalizing depth with
  | nil => rfl
  | cons e ts ih =>
    rw [depths]
    split
    · rw [List.map_cons, ih]
    · rw [List.map_cons, ih]

/-- A token stands at one place only. -/
theorem depths_unique {k k' : Nat} (distinct : ts.Nodup) (here : (e, k) ∈ depths depth ts)
    (there : (e, k') ∈ depths depth ts) : k = k' := by
  have nodup : ((depths depth ts).map Prod.fst).Nodup := by
    rw [map_depths]
    exact distinct
  exact congrArg Prod.snd (List.inj_on_of_nodup_map nodup here there rfl)

theorem opensBracket_comma (isComma : e.token = chr ',') : opensBracket e.token = false := by
  rw [isComma]
  decide

theorem closesBracket_comma (isComma : e.token = chr ',') : closesBracket e.token = false := by
  rw [isComma]
  decide

theorem nested_comma (isComma : e.token = chr ',') (nested : Nested true 0 ts) :
    Nested true 0 (e :: ts) := by
  simp only [Nested, opensBracket_comma isComma, closesBracket_comma isComma, Bool.false_eq_true,
    if_false]
  exact ⟨by rw [isComma]; decide, fun isSemicolon => absurd (isComma.symm.trans isSemicolon) (by decide),
    fun _ => ⟨.inl trivial, fun one => absurd one (by decide)⟩, nested⟩

theorem depths_comma (isComma : e.token = chr ',') :
    depths 0 (e :: ts) = (e, 0) :: depths 0 ts := by
  simp [depths, opensBracket_comma isComma, closesBracket_comma isComma]

end Nested

namespace TypedefDeclarators

theorem nested (ds : TypedefDeclarators) : Nested true 0 ds.tokens := by
  induction ds with
  | last d => exact nested_mono d.nested
  | more d comma separates ds ih =>
    exact nested_append (nested_mono d.nested) (nested_comma separates ih)

theorem depths_more {d : TypedefDeclarator} {comma : StackEntry} {separates : comma.token = chr ','}
    {ds : TypedefDeclarators} :
    depths 0 (more d comma separates ds).tokens =
      depths 0 d.tokens ++ (comma, 0) :: depths 0 ds.tokens := by
  rw [tokens, depths_append d.nested, depths_comma separates]

end TypedefDeclarators

/-! ### The scan -/

/-- The scan of a declarator behind its first token, and what follows. -/
def searchFrom (n : Nat) (i : Int) (ts : List StackEntry) : Option StackEntry :=
  match scan declaratorEnd i ts with
  | none => none
  | some (k, i) =>
    if Cpp.token (ts.drop k) 0 = chr ';' ∨ Cpp.token (ts.drop k) 0 = 0 then none
    else plainDeclarator n i ((ts.drop k).drop 1)

section Scan

variable {n k depth : Nat} {i i' : Int} {e : StackEntry} {ts rest : List StackEntry} {between : Bool}

theorem token_cons : Cpp.token (e :: ts) 0 = e.token := rfl

theorem plainDeclarator_succ :
    plainDeclarator (n + 1) i ts =
      if Cpp.token ts 0 = SN_IDENTIFIER ∧
          (Cpp.token ts 1 = chr ',' ∨ Cpp.token ts 1 = chr ';' ∨ Cpp.token ts 1 = chr '=') then ts.head?
      else searchFrom n i (ts.drop 1) := by
  rw [plainDeclarator]
  congr 1
  unfold searchFrom
  cases scan declaratorEnd i (ts.drop 1) with
  | none => rfl
  | some found =>
    obtain ⟨k, i'⟩ := found
    have same : ts.drop (k + 1) = (ts.drop 1).drop k := by
      rw [List.drop_drop, Nat.add_comm]
    dsimp only
    rw [same]

/-- A token that the scan passes over. -/
theorem searchFrom_pass (pass : declaratorEnd i (e :: ts) = some i') :
    searchFrom n i (e :: ts) = searchFrom n i' ts := by
  unfold searchFrom
  rw [scan, pass]
  dsimp only
  cases scan declaratorEnd i' ts with
  | none => rfl
  | some found => rfl

/-- A token at which the scan stops. -/
theorem searchFrom_stop (stop : declaratorEnd i (e :: ts) = none) :
    searchFrom n i (e :: ts) =
      if e.token = chr ';' ∨ e.token = 0 then none else plainDeclarator n i ts := by
  unfold searchFrom
  rw [scan, stop]
  rfl

theorem declaratorEnd_opens (opens : opensBracket e.token = true) :
    declaratorEnd i (e :: ts) = some (i + 1) := by
  simp only [opensBracket, Bool.or_eq_true, decide_eq_true_eq] at opens
  rcases opens with (eq | eq) | eq <;> simp [declaratorEnd, token_cons, eq, chr]

theorem declaratorEnd_closes (closes : closesBracket e.token = true) :
    declaratorEnd i (e :: ts) = some (i - 1) := by
  simp only [closesBracket, Bool.or_eq_true, decide_eq_true_eq] at closes
  rcases closes with (eq | eq) | eq <;> simp [declaratorEnd, token_cons, eq, chr]

/-- Any other token is passed over, unless it is a comma or semicolon outside of brackets. -/
theorem declaratorEnd_other (opens : opensBracket e.token = false)
    (closes : closesBracket e.token = false) (more : e.token ≠ 0) :
    declaratorEnd i (e :: ts) =
      if i = 0 ∧ (e.token = chr ',' ∨ e.token = chr ';') then none else some i := by
  simp only [opensBracket, closesBracket, Bool.or_eq_false_iff, decide_eq_false_iff_not] at opens closes
  simp [declaratorEnd, token_cons, opens, closes, more]

/-- Tokens whose brackets have all been counted. -/
theorem searchFrom_nested (nested : Nested false depth ts) :
    searchFrom n depth (ts ++ rest) = searchFrom n 0 rest := by
  induction ts generalizing depth with
  | nil =>
    obtain rfl : depth = 0 := nested
    rfl
  | cons e ts ih =>
    rcases nested_cons nested with
      ⟨opens, inner⟩ | ⟨opens, closes, inside, outer⟩ | ⟨opens, closes, semicolon, comma, inner⟩
    · rw [List.cons_append, searchFrom_pass (declaratorEnd_opens opens)]
      exact ih inner
    · rw [List.cons_append, searchFrom_pass (declaratorEnd_closes closes)]
      have counted : (depth : Int) - 1 = ((depth - 1 : Nat) : Int) := by omega
      rw [counted]
      exact ih outer
    · rw [List.cons_append, @searchFrom_pass _ _ depth]
      · exact ih inner
      · rw [declaratorEnd_other opens closes (nested_more nested), if_neg]
        rintro ⟨outside, isComma | isSemicolon⟩
        · rcases (comma isComma).1 with true | inside
          · exact absurd true (by decide)
          · omega
        · have deep := semicolon isSemicolon
          omega

/-- The scan takes a name out of the brackets, or it goes on behind with one bracket too few. -/
def Lost (n : Nat) (inside : StackEntry → Prop) (length : Nat) (rest : List StackEntry)
    (found : Option StackEntry) : Prop :=
  (∃ e, inside e ∧ found = some e) ∨
    ∃ m, n ≤ m + length ∧ found = searchFrom m (-1) rest

theorem Lost.mono {inside inside' : StackEntry → Prop} {length length' n' : Nat}
    {found : Option StackEntry} (lost : Lost n inside length rest found)
    (more : ∀ e, inside e → inside' e) (longer : n' + length ≤ n + length') :
    Lost n' inside' length' rest found := by
  rcases lost with ⟨e, isInside, eq⟩ | ⟨m, fuel, eq⟩
  · exact .inl ⟨e, more e isInside, eq⟩
  · exact .inr ⟨m, by omega, eq⟩

/-- A token of these that stands in brackets. -/
def InBrackets (depth : Nat) (ts : List StackEntry) (e : StackEntry) : Prop :=
  ∃ k, (e, k + 1) ∈ depths depth ts

/-- Behind an opening bracket that was not counted. The second part is a search that begins between
the parameters of a function pointer. -/
theorem searchFrom_lost :
    (∀ n depth, Nested true depth ts → ts.length ≤ n →
      Lost n (InBrackets depth ts) ts.length rest (searchFrom n (depth - 1) (ts ++ rest))) ∧
    ∀ n, Nested true 1 ts → opensBracket (Cpp.token ts 0) = false →
      closesBracket (Cpp.token ts 0) = false → ts.length ≤ n →
      Lost n (InBrackets 1 ts) ts.length rest (plainDeclarator n 0 (ts ++ rest)) := by
  induction ts with
  | nil =>
    refine ⟨fun n depth nested _ => ?_, fun n nested _ _ _ => absurd nested Nat.one_ne_zero⟩
    obtain rfl : depth = 0 := nested
    exact .inr ⟨n, Nat.le_refl n, rfl⟩
  | cons e ts ih =>
    obtain ⟨search, plain⟩ := ih
    constructor
    · intro n depth nested fuel
      rw [List.length_cons] at fuel
      rcases nested_cons nested with
        ⟨opens, inner⟩ | ⟨opens, closes, inside, outer⟩ | ⟨opens, closes, semicolon, comma, inner⟩
      · rw [List.cons_append, searchFrom_pass (declaratorEnd_opens opens)]
        have lost := search n (depth + 1) inner (by omega)
        have counted : (depth : Int) - 1 + 1 = ((depth + 1 : Nat) : Int) - 1 := by omega
        rw [counted]
        refine lost.mono ?_ (by simp only [List.length_cons]; omega)
        rintro e' ⟨k, found⟩
        exact ⟨k, by simp [depths, opens, found]⟩
      · rw [List.cons_append, searchFrom_pass (declaratorEnd_closes closes)]
        have lost := search n (depth - 1) outer (by omega)
        have counted : (depth : Int) - 1 - 1 = ((depth - 1 : Nat) : Int) - 1 := by omega
        rw [counted]
        refine lost.mono ?_ (by simp only [List.length_cons]; omega)
        rintro e' ⟨k, found⟩
        exact ⟨k, by simp [depths, opens, closes, found]⟩
      · have more : ∀ e', InBrackets depth ts e' → InBrackets depth (e :: ts) e' := by
          rintro e' ⟨k, found⟩
          exact ⟨k, by simp [depths, opens, closes, found]⟩
        by_cases stop : ((depth : Int) - 1 = 0 ∧ (e.token = chr ',' ∨ e.token = chr ';'))
        · obtain ⟨one, separator⟩ := stop
          obtain rfl : depth = 1 := by omega
          have notSemicolon : e.token ≠ chr ';' := by
            intro isSemicolon
            have deep := semicolon isSemicolon
            omega
          have next := (comma (separator.resolve_right notSemicolon)).2 rfl
          rw [List.cons_append, searchFrom_stop, if_neg]
          · refine (plain n inner next.1 next.2 (by omega)).mono more ?_
            simp only [List.length_cons]
            omega
          · rintro (isSemicolon | none)
            · exact notSemicolon isSemicolon
            · exact nested_more nested none
          · rw [declaratorEnd_other opens closes (nested_more nested), if_pos ⟨one, separator⟩]
        · rw [List.cons_append, @searchFrom_pass _ _ (depth - 1)]
          · refine (search n depth inner (by omega)).mono more ?_
            simp only [List.length_cons]
            omega
          · rw [declaratorEnd_other opens closes (nested_more nested), if_neg stop]
    · intro n nested opens closes fuel
      rw [token_cons] at opens closes
      rw [List.length_cons] at fuel
      obtain ⟨n, rfl⟩ : ∃ n', n = n' + 1 := ⟨n - 1, by omega⟩
      rw [List.cons_append, plainDeclarator_succ]
      split
      · refine .inl ⟨e, ⟨0, ?_⟩, rfl⟩
        simp [depths, opens]
      · rcases nested_cons nested with
          ⟨yes, _⟩ | ⟨_, yes, _⟩ | ⟨_, _, _, _, inner⟩
        · exact absurd (opens.symm.trans yes) (by decide)
        · exact absurd (closes.symm.trans yes) (by decide)
        · refine (search n 1 inner (by omega)).mono ?_ (by simp only [List.length_cons]; omega)
          rintro e' ⟨k, found⟩
          exact ⟨k, by simp [depths, opens, closes, found]⟩

end Scan

/-! ### Declarators -/

section Declarators

variable {n : Nat} {d : TypedefDeclarator} {x sep semicolon : StackEntry} {rest : List StackEntry}
  {ds : TypedefDeclarators}

theorem plainName_some (plain : d.plainName = some x) :
    d.tokens = [x] ∧ x.token = SN_IDENTIFIER := by
  unfold TypedefDeclarator.plainName at plain
  split at plain
  · rename_i e single
    split at plain
    · rename_i identifier
      obtain rfl : e = x := Option.some.inj plain
      exact ⟨single, identifier⟩
    · exact nomatch plain
  · exact nomatch plain

theorem plainDeclarator_plain (plain : d.plainName = some x)
    (separates : sep.token = chr ',' ∨ sep.token = chr ';') :
    plainDeclarator (n + 1) 0 (d.tokens ++ sep :: rest) = some x := by
  obtain ⟨single, identifier⟩ := plainName_some plain
  rw [single, plainDeclarator_succ, if_pos]
  · rfl
  · refine ⟨identifier, ?_⟩
    rcases separates with eq | eq
    · exact .inl eq
    · exact .inr (.inl eq)

/-- A declarator that is no plain name is passed over, if its first token is no bracket. -/
theorem plainDeclarator_straight (plain : d.plainName = none)
    (straight : opensBracket (Cpp.token d.tokens 0) = false) :
    plainDeclarator (n + 1) 0 (d.tokens ++ sep :: rest) = searchFrom n 0 (sep :: rest) := by
  obtain ⟨tokens, nonempty, nested, declares⟩ := d
  cases tokens with
  | nil => exact absurd rfl nonempty
  | cons e ts =>
    rw [token_cons] at straight
    rcases nested_cons nested with
      ⟨yes, _⟩ | ⟨_, _, inside, _⟩ | ⟨_, _, _, _, inner⟩
    · exact absurd (straight.symm.trans yes) (by decide)
    · exact absurd rfl inside
    · rw [List.cons_append, plainDeclarator_succ, if_neg]
      · exact @searchFrom_nested _ 0 _ _ inner
      · rintro ⟨identifier, follows⟩
        cases ts with
        | nil => simp [TypedefDeclarator.plainName, token_cons.symm.trans identifier] at plain
        | cons e' ts =>
          have follows : e'.token = chr ',' ∨ e'.token = chr ';' ∨ e'.token = chr '=' := follows
          rcases nested_cons inner with
            ⟨yes, _⟩ | ⟨_, yes, _⟩ | ⟨_, _, semicolon, comma, _⟩
          · rcases follows with eq | eq | eq <;> rw [eq] at yes <;> exact absurd yes (by decide)
          · rcases follows with eq | eq | eq <;> rw [eq] at yes <;> exact absurd yes (by decide)
          · rcases follows with eq | eq | eq
            · rcases (comma eq).1 with true | inside
              · exact absurd true (by decide)
              · exact inside rfl
            · exact absurd (semicolon eq) (by decide)
            · exact declares identifier eq

/-- A declarator with an opening bracket in front is counted from behind it. -/
theorem plainDeclarator_bracket (opens : opensBracket (Cpp.token d.tokens 0) = true) :
    ∃ e ts, d.tokens = e :: ts ∧ opensBracket e.token = true ∧ Nested false 1 ts ∧
      plainDeclarator (n + 1) 0 (d.tokens ++ rest) = searchFrom n 0 (ts ++ rest) := by
  obtain ⟨tokens, nonempty, nested, declares⟩ := d
  cases tokens with
  | nil => exact absurd rfl nonempty
  | cons e ts =>
    rw [token_cons] at opens
    refine ⟨e, ts, rfl, opens, ?_, ?_⟩
    · rcases nested_cons nested with ⟨_, inner⟩ | ⟨no, _⟩ | ⟨no, _⟩
      · exact inner
      · exact absurd (opens.symm.trans no) (by decide)
      · exact absurd (opens.symm.trans no) (by decide)
    · rw [List.cons_append, plainDeclarator_succ, if_neg]
      · rfl
      · rintro ⟨identifier, _⟩
        rw [token_cons.symm.trans identifier] at opens
        exact absurd opens (by decide)

theorem searchFrom_comma (isComma : sep.token = chr ',') :
    searchFrom n 0 (sep :: rest) = plainDeclarator n 0 rest := by
  rw [searchFrom_stop, if_neg]
  · rw [isComma]
    decide
  · rw [declaratorEnd_other (opensBracket_comma isComma) (closesBracket_comma isComma)
      (by rw [isComma]; decide), if_pos ⟨rfl, .inl isComma⟩]

theorem declaratorEnd_semicolon {i : Int} (isSemicolon : semicolon.token = chr ';') :
    declaratorEnd i (semicolon :: rest) = if i = 0 then none else some i := by
  rw [declaratorEnd_other (by rw [isSemicolon]; decide) (by rw [isSemicolon]; decide)
    (by rw [isSemicolon]; decide)]
  simp only [isSemicolon, or_true, and_true]

theorem searchFrom_semicolon (isSemicolon : semicolon.token = chr ';') :
    searchFrom n 0 (semicolon :: rest) = none := by
  rw [searchFrom_stop, if_pos (.inl isSemicolon)]
  rw [declaratorEnd_semicolon isSemicolon, if_pos rfl]

/-- The typedef has no end when a bracket is missing. -/
theorem searchFrom_semicolon_lost (isSemicolon : semicolon.token = chr ';') :
    searchFrom n (-1) (semicolon :: rest) = searchFrom n (-1) rest := by
  refine searchFrom_pass ?_
  rw [declaratorEnd_semicolon isSemicolon, if_neg (by decide)]

/-- The declarators up to the first plain one begin with no opening bracket: their brackets are all
counted. -/
theorem plainDeclarator_name (straight : ds.Straight) (isSemicolon : semicolon.token = chr ';')
    (fuel : ds.tokens.length < n) :
    plainDeclarator n 0 (ds.tokens ++ semicolon :: rest) = ds.name := by
  induction ds generalizing n with
  | last d =>
    obtain ⟨n, rfl⟩ : ∃ n', n = n' + 1 := ⟨n - 1, by omega⟩
    cases plain : d.plainName with
    | some x => exact (plainDeclarator_plain plain (.inr isSemicolon)).trans plain.symm
    | none =>
      have noBracket := straight.resolve_left (by simp [plain])
      calc plainDeclarator (n + 1) 0 (d.tokens ++ semicolon :: rest)
          = searchFrom n 0 (semicolon :: rest) := plainDeclarator_straight plain noBracket
        _ = none := searchFrom_semicolon isSemicolon
        _ = d.plainName := plain.symm
  | more d comma separates ds ih =>
    obtain ⟨n, rfl⟩ : ∃ n', n = n' + 1 := ⟨n - 1, by omega⟩
    simp only [TypedefDeclarators.tokens, TypedefDeclarators.name, List.length_append,
      List.length_cons, List.append_assoc, List.cons_append] at fuel ⊢
    cases plain : d.plainName with
    | some x => exact plainDeclarator_plain plain (.inl separates)
    | none =>
      obtain ⟨noBracket, straight⟩ := straight.resolve_left (by simp [plain])
      rw [plainDeclarator_straight plain noBracket, searchFrom_comma separates]
      exact ih straight (by omega)

/-- The scan gets lost in a declarator with an opening bracket in front. -/
theorem plainDeclarator_bracket_lost {b : List StackEntry}
    (opens : opensBracket (Cpp.token d.tokens 0) = true) (follows : Nested true 0 b)
    (fuel : (d.tokens ++ b).length ≤ n) :
    Lost n (InBrackets 0 (d.tokens ++ b)) (d.tokens ++ b).length rest
      (plainDeclarator n 0 (d.tokens ++ b ++ rest)) := by
  obtain ⟨n, rfl⟩ : ∃ n', n = n' + 1 := by
    have some : d.tokens.length ≠ 0 := by simpa using d.nonempty
    rw [List.length_append] at fuel
    exact ⟨n - 1, by omega⟩
  obtain ⟨e, ts, eq, opens, inner, run⟩ := @plainDeclarator_bracket n _ (b ++ rest) opens
  rw [eq, List.cons_append, List.length_cons] at fuel
  rw [List.append_assoc, run, ← List.append_assoc, eq]
  have lost : Lost n (InBrackets 1 (ts ++ b)) (ts ++ b).length rest
      (searchFrom n 0 (ts ++ b ++ rest)) :=
    searchFrom_lost.1 n 1 (nested_append (nested_mono inner) follows) (by omega)
  refine lost.mono ?_ (by simp only [List.cons_append, List.length_cons]; omega)
  rintro x ⟨k, found⟩
  exact ⟨k, by simp [depths, opens, found]⟩

/-- Otherwise the scan gets lost before it has found a plain declarator. -/
theorem plainDeclarator_lost (bent : ¬ds.Straight) (fuel : ds.tokens.length ≤ n) :
    Lost n (InBrackets 0 ds.tokens) ds.tokens.length rest
      (plainDeclarator n 0 (ds.tokens ++ rest)) := by
  induction ds generalizing n with
  | last d =>
    simp only [TypedefDeclarators.Straight, not_or, Bool.not_eq_false] at bent
    have lost := @plainDeclarator_bracket_lost n _ rest [] bent.2 rfl
      (by
        rw [List.append_nil]
        exact fuel)
    rw [List.append_nil] at lost
    exact lost
  | more d comma separates ds ih =>
    simp only [TypedefDeclarators.Straight, not_or] at bent
    obtain ⟨notPlain, bent⟩ := bent
    have plain : d.plainName = none := by simpa using notPlain
    by_cases straight : opensBracket (Cpp.token d.tokens 0) = false
    · obtain ⟨n, rfl⟩ : ∃ n', n = n' + 1 := by
        simp only [TypedefDeclarators.tokens, List.length_append, List.length_cons] at fuel
        exact ⟨n - 1, by omega⟩
      have bent := fun more => bent ⟨straight, more⟩
      simp only [TypedefDeclarators.tokens, List.length_append, List.length_cons,
        List.append_assoc, List.cons_append] at fuel ⊢
      rw [plainDeclarator_straight plain straight, searchFrom_comma separates]
      refine (ih bent (by omega)).mono ?_ (by omega)
      rintro x ⟨k, found⟩
      refine ⟨k, ?_⟩
      rw [depths_append d.nested, depths_comma separates]
      exact List.mem_append_right _ (List.mem_cons_of_mem _ found)
    · rw [Bool.not_eq_false] at straight
      exact plainDeclarator_bracket_lost straight (nested_comma separates ds.nested) fuel

/-- A plain name stands outside of brackets. -/
theorem name_outside (name : ds.name = some x) : (x, 0) ∈ depths 0 ds.tokens := by
  have single : ∀ d : TypedefDeclarator, d.plainName = some x → (x, 0) ∈ depths 0 d.tokens := by
    intro d plain
    obtain ⟨eq, identifier⟩ := plainName_some plain
    have noBracket : opensBracket x.token = false := by
      rw [identifier]
      decide
    rw [eq]
    simp [depths, noBracket]
  induction ds with
  | last d => exact single d name
  | more d comma separates ds ih =>
    rw [TypedefDeclarators.depths_more, List.mem_append, List.mem_cons]
    rcases plain : d.plainName with _ | y
    · rw [TypedefDeclarators.name, plain] at name
      exact .inr (.inr (ih name))
    · rw [TypedefDeclarators.name, plain] at name
      obtain rfl : y = x := Option.some.inj name
      exact .inl (single d plain)

end Declarators

/-! ### The name -/

section StructName

variable {e : StackEntry} {ts rest : List StackEntry}

theorem scan_bases (bases : ∀ e ∈ ts, e.token ≠ 0 ∧ e.token ≠ chr '{') (opens : e.token = chr '{') :
    scan (untilToken [chr '{']) () (ts ++ e :: rest) = some (ts.length, ()) := by
  induction ts with
  | nil => simp [scan, untilToken, token_cons, opens]
  | cons e' ts ih =>
    have here := bases e' (List.mem_cons_self ..)
    have next : untilToken [chr '{'] () (e' :: (ts ++ e :: rest)) = some () := by
      simp [untilToken, token_cons, here]
    rw [List.cons_append, scan, next]
    simp only
    rw [ih fun x mem => bases x (List.mem_cons_of_mem _ mem)]
    rfl

/-- The scan of the body from behind its opening brace on. -/
theorem scan_body {depth : Nat} (braced : Braced depth ts) (closes : e.token = chr '}')
    (end_ : rest ≠ []) :
    scan bodyEnd ((depth : Int) + 1, true) (ts ++ e :: rest) = some (ts.length + 1, 0, true) := by
  induction ts generalizing depth with
  | nil =>
    obtain rfl : depth = 0 := braced
    have last : bodyEnd (((0 : Nat) : Int) + 1, true) (e :: rest) = some (0, true) := by
      simp [bodyEnd, token_cons, closes, chr]
    obtain ⟨t, ts, rfl⟩ := List.exists_cons_of_ne_nil end_
    rw [List.nil_append, scan, last]
    simp [scan, bodyEnd]
  | cons t ts ih =>
    obtain ⟨more, inner⟩ := braced
    have counted : ¬((depth : Int) + 1 = 0) := by omega
    by_cases opens : t.token = chr '{'
    · rw [if_pos opens] at inner
      have next : bodyEnd ((depth : Int) + 1, true) (t :: (ts ++ e :: rest)) =
          some (((depth + 1 : Nat) : Int) + 1, true) := by
        simp [bodyEnd, token_cons, opens, counted, chr]
      rw [List.cons_append, scan, next]
      simp only
      rw [ih inner]
      rfl
    · rw [if_neg opens] at inner
      by_cases closesOne : t.token = chr '}'
      · rw [if_pos closesOne] at inner
        have next : bodyEnd ((depth : Int) + 1, true) (t :: (ts ++ e :: rest)) =
            some (((depth - 1 : Nat) : Int) + 1, true) := by
          have one : (depth : Int) + 1 - 1 = ((depth - 1 : Nat) : Int) + 1 := by omega
          simp [bodyEnd, token_cons, closesOne, counted, chr]
          omega
        rw [List.cons_append, scan, next]
        simp only
        rw [ih inner.2]
        rfl
      · rw [if_neg closesOne] at inner
        have next : bodyEnd ((depth : Int) + 1, true) (t :: (ts ++ e :: rest)) =
            some ((depth : Int) + 1, true) := by
          simp [bodyEnd, token_cons, opens, closesOne, counted, more]
        rw [List.cons_append, scan, next]
        simp only
        rw [ih inner]
        rfl

theorem structName_eq (x : AnonymousTypedef) (rest : List StackEntry) :
    structName (x.tokens ++ rest) =
      plainDeclarator ((x.tokens ++ rest).length + 1) 0
        (x.declaratorTokens ++ x.semicolon :: rest) := by
  have bases := @scan_bases _ _ (x.body ++ x.rbrace :: (x.declaratorTokens ++ x.semicolon :: rest))
    x.bases_end x.opens
  have body := @scan_body _ _ (x.declaratorTokens ++ x.semicolon :: rest) _ x.braced x.closes (by simp)
  have opens : bodyEnd (0, false)
      (x.lbrace :: (x.body ++ x.rbrace :: (x.declaratorTokens ++ x.semicolon :: rest))) =
      some (1, true) := by
    simp [bodyEnd, token_cons, x.opens, chr]
  have tokens : x.tokens ++ rest =
      x.bases ++ x.lbrace :: (x.body ++ x.rbrace :: (x.declaratorTokens ++ x.semicolon :: rest)) := by
    simp [AnonymousTypedef.tokens]
  generalize length : (x.tokens ++ rest).length + 1 = n
  unfold structName
  rw [length, tokens, bases]
  simp only [List.drop_left]
  rw [scan, opens]
  simp only
  have one : ((0 : Nat) : Int) + 1 = 1 := rfl
  rw [one] at body
  rw [body]
  simp only [Option.map_some]
  rw [List.drop_succ_cons, ← List.drop_drop, List.drop_left]
  rfl

/-- Both keyword modes read the token alike. -/
def entryOf (e : StackEntry) : Entry := ⟨e.token, e.token, e.ident, e.lineno, e.charno⟩

/-- A state in front of these tokens. -/
def stateBefore (ts : List StackEntry) : State where
  v := ts.map entryOf
  eof := ⟨0, 0, [], 0, 0⟩
  keyw_cpp := true

theorem left_stateBefore : (stateBefore ts).left = ts := by
  have view : Entry.view true ∘ entryOf = id := rfl
  simp [stateBefore, State.left, leftFrom, view]

/-- An identifier that is not this one. -/
def otherName : Option StackEntry → StackEntry
  | none => ⟨SN_IDENTIFIER, [], 0, 0⟩
  | some e => ⟨SN_IDENTIFIER, [], 0, e.charno + 1⟩

theorem otherName_ne {name : Option StackEntry} : some (otherName name) ≠ name := by
  cases name with
  | none => exact nofun
  | some e =>
    intro same
    have charno := congrArg StackEntry.charno (Option.some.inj same)
    simp only [otherName] at charno
    omega

theorem otherName_token {name : Option StackEntry} : (otherName name).token = SN_IDENTIFIER := by
  cases name <;> rfl

/-- A declarator list behind the typedef whose second name is not this one. -/
def strayNames (name : Option StackEntry) : List StackEntry :=
  [⟨chr ',', [], 0, 0⟩, otherName name, ⟨chr ';', [], 0, 0⟩]

theorem plainDeclarator_stray {name : Option StackEntry} {n : Nat} :
    searchFrom (n + 1) 0 (strayNames name) = some (otherName name) := by
  rw [strayNames, searchFrom_comma rfl, plainDeclarator_succ, if_pos]
  · rfl
  · exact ⟨otherName_token, .inr (.inl rfl)⟩

theorem get_struct_name_run_iff (x : AnonymousTypedef) :
    (∀ (s : State) (rest : List StackEntry), s.left = x.tokens ++ rest →
      get_struct_name.run s = .done x.name s) ↔
    ∀ rest, structName (x.tokens ++ rest) = x.name := by
  have run : ∀ s : State, get_struct_name.run s = .done (structName s.left) s := fun _ => rfl
  constructor
  · intro finds rest
    have found := finds (stateBefore (x.tokens ++ rest)) rest left_stateBefore
    rw [run, left_stateBefore] at found
    injection found
  · intro finds s rest left
    rw [run, left, finds rest]

/-- Without a declarator the semicolon is taken for the first token of one. -/
theorem structName_none {x : AnonymousTypedef} (none : x.declarators = none) :
    structName (x.tokens ++ strayNames x.name) ≠ x.name := by
  have notIdentifier : x.semicolon.token ≠ SN_IDENTIFIER := by
    rw [x.ends]
    decide
  obtain ⟨n, fuel⟩ : ∃ n, (x.tokens ++ strayNames x.name).length = n + 1 :=
    ⟨x.tokens.length + 2, by simp [strayNames]⟩
  have no : x.declaratorTokens = [] := by
    rw [AnonymousTypedef.declaratorTokens, none]
    rfl
  rw [structName_eq, fuel, no, List.nil_append, plainDeclarator_succ,
    if_neg fun is => notIdentifier is.1, List.drop_one, List.tail_cons, plainDeclarator_stray]
  exact otherName_ne

/-- A scan that is lost takes a name out of brackets or one behind the typedef. -/
theorem structName_bent {x : AnonymousTypedef} {ds : TypedefDeclarators}
    (some : x.declarators = some ds) (bent : ¬ds.Straight) :
    structName (x.tokens ++ ⟨chr '(', [], 0, 0⟩ :: strayNames x.name) ≠ x.name := by
  have tokens : x.declaratorTokens = ds.tokens := by
    rw [AnonymousTypedef.declaratorTokens, some]
    rfl
  have name : x.name = ds.name := by
    rw [AnonymousTypedef.name, some]
    rfl
  have short : ds.tokens.length + 1 ≤ x.tokens.length := by
    simp only [AnonymousTypedef.tokens, tokens, List.length_append, List.length_cons]
    omega
  rw [structName_eq, tokens]
  have lost := @plainDeclarator_lost ((x.tokens ++ ⟨chr '(', [], 0, 0⟩ :: strayNames x.name).length + 1)
    (x.semicolon :: ⟨chr '(', [], 0, 0⟩ :: strayNames x.name) _ bent
    (by
      rw [List.length_append]
      omega)
  rcases lost with ⟨e, ⟨k, inside⟩, found⟩ | ⟨m, fuel, found⟩
  · rw [found, name]
    intro same
    have outside := name_outside same.symm
    exact absurd (depths_unique (x.distinct ds some) inside outside) (by omega)
  · rw [found, searchFrom_semicolon_lost x.ends, @searchFrom_pass _ _ 0]
    · obtain ⟨m, rfl⟩ : ∃ m', m = m' + 1 := by
        rw [List.length_append] at fuel
        exact ⟨m - 1, by omega⟩
      rw [plainDeclarator_stray]
      exact otherName_ne
    · exact declaratorEnd_opens rfl

/-- The name is found, whatever follows the typedef, if there is a declarator and none before the
first plain one begins with an opening bracket. -/
theorem get_struct_name_iff (x : AnonymousTypedef) :
    (∀ (s : State) (rest : List StackEntry), s.left = x.tokens ++ rest →
      get_struct_name.run s = .done x.name s) ↔
    ∃ ds, x.declarators = some ds ∧ ds.Straight := by
  rw [get_struct_name_run_iff]
  constructor
  · intro finds
    cases none : x.declarators with
    | none => exact absurd (finds _) (structName_none none)
    | some ds =>
      refine ⟨ds, rfl, ?_⟩
      by_contra bent
      exact structName_bent none bent (finds _)
  · rintro ⟨ds, some, straight⟩ rest
    have tokens : x.declaratorTokens = ds.tokens := by
      rw [AnonymousTypedef.declaratorTokens, some]
      rfl
    have name : x.name = ds.name := by
      rw [AnonymousTypedef.name, some]
      rfl
    rw [structName_eq, tokens, name]
    refine plainDeclarator_name straight x.ends ?_
    simp only [AnonymousTypedef.tokens, tokens, List.length_append, List.length_cons]
    omega

/-- `( * fp ) ( int )` -/
def functionPointer : TypedefDeclarator where
  tokens := [⟨chr '(', ascii "(", 1, 3⟩, ⟨chr '*', ascii "*", 1, 4⟩,
    ⟨SN_IDENTIFIER, ascii "fp", 1, 5⟩, ⟨chr ')', ascii ")", 1, 7⟩, ⟨chr '(', ascii "(", 1, 8⟩,
    ⟨SN_INT, ascii "int", 1, 9⟩, ⟨chr ')', ascii ")", 1, 12⟩]
  nonempty := by decide
  nested := by simp [Nested, opensBracket, closesBracket, chr, SN_IDENTIFIER, SN_INT]
  declares := by decide

/-- `S` -/
def plainS : TypedefDeclarator where
  tokens := [⟨SN_IDENTIFIER, ascii "S", 1, 15⟩]
  nonempty := by decide
  nested := by simp [Nested, opensBracket, closesBracket, chr, SN_IDENTIFIER]
  declares := by decide

/-- `typedef struct { } ( * fp ) ( int ), S ;` from behind `struct` on. -/
def functionPointerFirst : AnonymousTypedef where
  bases := []
  lbrace := ⟨chr '{', [123], 1, 0⟩
  body := []
  rbrace := ⟨chr '}', [125], 1, 1⟩
  declarators := some (.more functionPointer ⟨chr ',', ascii ",", 1, 13⟩ rfl (.last plainS))
  semicolon := ⟨chr ';', ascii ";", 1, 16⟩
  bases_end := nofun
  opens := rfl
  braced := rfl
  closes := rfl
  ends := rfl
  distinct := by
    rintro _ ⟨⟩
    decide

/-- The bracket of the function pointer is not counted, so that `S` is passed over. -/
theorem name_behind_function_pointer_missed :
    ¬∀ (x : AnonymousTypedef) (s : State) (rest : List StackEntry), s.left = x.tokens ++ rest →
      get_struct_name.run s = .done x.name s := by
  intro finds
  have found := finds functionPointerFirst (stateBefore (functionPointerFirst.tokens ++ [])) []
    left_stateBefore
  have missed : get_struct_name.run (stateBefore (functionPointerFirst.tokens ++ [])) =
      .done none (stateBefore (functionPointerFirst.tokens ++ [])) := rfl
  rw [missed] at found
  injection found with none
  exact absurd none (by decide)

end StructName

end SourceNavigator.Cpp.FirstPass

import SourceNavigator.Cpp.Expression.Parse

/-!
Class names in the second pass (`cpp/cpplib/cp_name.c`).

A name of a base class has components with `::` between them, and each may have
template arguments. An argument is a type or an expression. How many tokens these
take is a parameter: the number of those behind the first one, because no type
and no expression is without a token.

* `f_QualifiedClassName_found`: a name whose template arguments are all read is read
  with its text; otherwise it ends with the opening bracket of those that are not.
-/

namespace SourceNavigator.Cpp.LocalTypes

/-- What is read in other files. -/
structure Readers where
  /-- `f_TypeName( ",>" )` -/
  f_TypeName : List StackEntry → Option Nat
  f_Expression : List StackEntry → Option Nat
  f_ConstantExpression : List StackEntry → Option Nat

def f_StepTo (aiToken : List Nat) (ts : List StackEntry) : List StackEntry :=
  (Expression.f_StepTo (ts.length + 1) aiToken ⟨[], ts⟩).rest

/-- `isalnum( c ) || c == '_' || c == '$'` -/
def endsWord (c : UInt8) : Bool :=
  (48 ≤ c && c ≤ 57) || (65 ≤ c && c ≤ 90) || (97 ≤ c && c ≤ 122) || c == 95 || c == 36

/-- `concat_token`: behind a word there is a blank. -/
def concat_token (bFirst : Bool) (pname : Text) : List StackEntry → Text
  | [] => pname
  | t :: ts =>
    let blank := if !bFirst && pname.getLast?.any endsWord then [32] else []
    concat_token false (pname ++ blank ++ t.ident) ts

section Reading

variable (r : Readers)

/-- The loop of `f_TemplateArgList`, up to the closing bracket. -/
def templateArgs : Nat → List StackEntry → Option (List StackEntry)
  | 0, _ => none
  | n + 1, ts =>
    match (r.f_TypeName ts).or (r.f_Expression ts) with
    | none => none
    | some k =>
      let ts := ts.drop (k + 1)
      if token ts 0 = chr '>' then some ts
      else if token ts 0 = chr ',' then templateArgs n (ts.drop 1)
      else if token ts 0 = 0 then none
      else templateArgs n ts

/-- From the opening bracket on. Where it fails, the name keeps the bracket. -/
def f_TemplateArgList (pname : Text) (ts : List StackEntry) : Text × List StackEntry :=
  let args := ts.drop 1
  match templateArgs r args.length args with
  | some rest =>
    (concat_token true (pname ++ ascii "<") (args.take (args.length - rest.length)) ++ ascii ">",
      rest.drop 1)
  | none => (pname ++ ascii "<", ts)

def f_ClassName (ts : List StackEntry) : Option (Text × List StackEntry) :=
  if token ts 0 = SN_IDENTIFIER then
    if token ts 1 = chr '<' then some (f_TemplateArgList r (ident ts 0) (ts.drop 1))
    else some (ident ts 0, ts.drop 1)
  else none

def f_QualifiedClassName : Nat → List StackEntry → Option (Text × List StackEntry)
  | 0, _ => none
  | n + 1, ts =>
    match f_ClassName r ts with
    | none => none
    | some (Name, rest) =>
      if token rest 0 = SN_CLCL then
        match f_QualifiedClassName n (rest.drop 1) with
        | some (Name1, rest) => some (Name ++ ascii "::" ++ Name1, rest)
        | none => some (Name, rest)
      else some (Name, rest)

def f_CompleteClassName (ts : List StackEntry) : Option (Text × List StackEntry) :=
  if token ts 0 = SN_CLCL then
    (f_QualifiedClassName r ts.length (ts.drop 1)).map fun x => (ascii "::" ++ x.1, x.2)
  else f_QualifiedClassName r ts.length ts

end Reading

/-! ### Names -/

/-- A token with a code. -/
abbrev Mark (c : Nat) : Type := { t : StackEntry // t.token = c }

structure Args where
  less : Mark (chr '<')
  tokens : List StackEntry
  greater : Mark (chr '>')

structure Component where
  name : Mark SN_IDENTIFIER
  args : Option Args

structure ClassName where
  clcl : Option (Mark SN_CLCL)
  first : Component
  more : List (Mark SN_CLCL × Component)

def Args.entries (a : Args) : List StackEntry := a.less.1 :: (a.tokens ++ [a.greater.1])

def Component.entries (c : Component) : List StackEntry :=
  c.name.1 :: (c.args.map Args.entries).getD []

/-- The name with its arguments. -/
def Component.text (c : Component) : Text :=
  match c.args with
  | none => c.name.1.ident
  | some a => concat_token true (c.name.1.ident ++ ascii "<") a.tokens ++ ascii ">"

/-- Components with `::` between them. -/
def entriesOf (c : Component) : List (Mark SN_CLCL × Component) → List StackEntry
  | [] => c.entries
  | q :: more => c.entries ++ q.1.1 :: entriesOf q.2 more

def textOf (c : Component) : List (Mark SN_CLCL × Component) → Text
  | [] => c.text
  | q :: more => c.text ++ ascii "::" ++ textOf q.2 more

def ClassName.entries (x : ClassName) : List StackEntry :=
  (x.clcl.map Subtype.val).toList ++ entriesOf x.first x.more

def ClassName.text (x : ClassName) : Text :=
  (if x.clcl.isSome then ascii "::" else []) ++ textOf x.first x.more

/-! ### What can be read -/

/-- What `f_StepTo` goes over on its way to one of some tokens. -/
inductive Skipped : List Nat → List StackEntry → Prop
  | nil {stops : List Nat} : Skipped stops []
  | token {stops : List Nat} {t : StackEntry} {ts : List StackEntry} :
      t.token ∉ stops → t.token ∉ [0, chr '(', chr '[', chr '{', chr '<'] → Skipped stops ts →
        Skipped stops (t :: ts)
  | group {stops : List Nat} {opens closes : Char} {t u : StackEntry} {inner ts : List StackEntry} :
      (opens, closes) ∈ [('(', ')'), ('[', ']'), ('{', '}'), ('<', '>')] → t.token = chr opens →
        t.token ∉ stops → Skipped [chr closes] inner → u.token = chr closes → Skipped stops ts →
          Skipped stops (t :: (inner ++ u :: ts))

/-- The arguments are read up to their closing bracket. -/
def Args.Read (r : Readers) (behind : List StackEntry) (a : Args) : Prop :=
  templateArgs r (a.tokens ++ a.greater.1 :: behind).length (a.tokens ++ a.greater.1 :: behind) =
    some (a.greater.1 :: behind)

/-- There are arguments that are neither types nor expressions. -/
def Args.Refused (r : Readers) (behind : List StackEntry) (a : Args) : Prop :=
  templateArgs r (a.tokens ++ a.greater.1 :: behind).length (a.tokens ++ a.greater.1 :: behind) =
    none

/-- A property of the arguments of each component, with what is behind them. -/
def EachArgs (P : List StackEntry → Args → Prop) (behind : List StackEntry) (c : Component) :
    List (Mark SN_CLCL × Component) → Prop
  | [] => ∀ a, c.args = some a → P behind a
  | q :: more =>
    (∀ a, c.args = some a → P (q.1.1 :: (entriesOf q.2 more ++ behind)) a) ∧
      EachArgs P behind q.2 more

/-! ### What `f_StepTo` goes over -/

section Skipping

variable {stops : List Nat} {ts us rest : List StackEntry}

theorem rest_step {p : Expression.Place} {t : StackEntry} (there : p.rest = t :: ts) :
    (p.step 1).rest = ts := by
  rw [Expression.Place.step, there]
  rfl

theorem StepTo_skipped (skipped : Skipped stops ts) {n : Nat} {p : Expression.Place}
    (there : p.rest = ts ++ rest) (stop : token rest 0 ∈ stops ∨ token rest 0 = 0)
    (enough : ts.length < n) : (Expression.f_StepTo n stops p).rest = rest := by
  induction skipped generalizing n p rest with
  | @nil stops =>
    cases n with
    | zero => exact absurd enough (Nat.not_lt_zero _)
    | succ n =>
      have stop : token p.rest 0 ∈ stops ∨ token p.rest 0 = 0 := by rwa [there]
      rw [Expression.f_StepTo, if_pos stop]
      exact there
  | @token stops t ts no_stop plain _ ih =>
    cases n with
    | zero => exact absurd enough (Nat.not_lt_zero _)
    | succ n =>
      have first : token p.rest 0 = t.token := by rw [there]; rfl
      have inside : ¬ (t.token ∈ stops ∨ t.token = 0) :=
        fun out => out.elim no_stop fun zero => plain (by rw [zero]; exact List.mem_cons_self)
      have none_found : [(chr '(', chr ')'), (chr '[', chr ']'), (chr '{', chr '}'),
          (chr '<', chr '>')].lookup t.token = none := by
        simp only [List.mem_cons, not_or, List.not_mem_nil] at plain
        simp [List.lookup_cons, beq_eq_false_iff_ne.mpr plain.2.1, beq_eq_false_iff_ne.mpr plain.2.2.1,
          beq_eq_false_iff_ne.mpr plain.2.2.2.1, beq_eq_false_iff_ne.mpr plain.2.2.2.2.1]
      rw [Expression.f_StepTo, first, if_neg inside, none_found]
      exact ih (rest_step there) stop (Nat.lt_of_succ_lt_succ enough)
  | @group stops opens closes t u inner ts bracket is_open no_stop _ is_close _ ihInner ih =>
    cases n with
    | zero => exact absurd enough (Nat.not_lt_zero _)
    | succ n =>
      have first : token p.rest 0 = t.token := by rw [there]; rfl
      have inside : ¬ (t.token ∈ stops ∨ t.token = 0) := by
        rintro (out | zero)
        · exact no_stop out
        · rw [is_open] at zero
          simp only [List.mem_cons, Prod.mk.injEq, List.not_mem_nil, or_false] at bracket
          rcases bracket with ⟨rfl, -⟩ | ⟨rfl, -⟩ | ⟨rfl, -⟩ | ⟨rfl, -⟩ <;> cases zero
      have found : [(chr '(', chr ')'), (chr '[', chr ']'), (chr '{', chr '}'),
          (chr '<', chr '>')].lookup t.token = some (chr closes) := by
        rw [is_open]
        simp only [List.mem_cons, Prod.mk.injEq, List.not_mem_nil, or_false] at bracket
        rcases bracket with ⟨rfl, rfl⟩ | ⟨rfl, rfl⟩ | ⟨rfl, rfl⟩ | ⟨rfl, rfl⟩ <;> rfl
      have length : (t :: (inner ++ u :: ts)).length = inner.length + ts.length + 2 := by simp; omega
      rw [length] at enough
      have behind : (p.step 1).rest = inner ++ (u :: (ts ++ rest)) :=
        (rest_step there).trans (by simp)
      have closing := ihInner (n := n) behind (.inl (by
        change u.token ∈ _
        rw [is_close]
        exact List.mem_cons_self)) (by omega)
      rw [Expression.f_StepTo, first, if_neg inside, found]
      exact ih (rest_step closing) stop (by omega)

theorem f_StepTo_skipped (skipped : Skipped stops ts) (stop : token rest 0 ∈ stops ∨ token rest 0 = 0) :
    f_StepTo stops (ts ++ rest) = rest :=
  StepTo_skipped skipped rfl stop (Nat.lt_succ_of_le (by rw [List.length_append]; exact Nat.le_add_right _ _))

theorem Skipped.append (front : Skipped stops ts) (back : Skipped stops us) : Skipped stops (ts ++ us) := by
  induction front with
  | nil => exact back
  | token no_stop plain _ ih => exact .token no_stop plain (ih back)
  | group bracket is_open no_stop inner is_close _ _ ih =>
    rw [List.cons_append, List.append_assoc, List.cons_append]
    exact .group bracket is_open no_stop inner is_close (ih back)

end Skipping

/-! ### Names are read -/

section Names

variable {r : Readers} {behind : List StackEntry} {c : Component}
  {more : List (Mark SN_CLCL × Component)} {n : Nat}

/-- What stands behind a base class. -/
def Follows (behind : List StackEntry) : Prop := token behind 0 = chr ',' ∨ token behind 0 = chr '{'

theorem token_head {t : StackEntry} {ts : List StackEntry} : token (t :: ts) 0 = t.token := rfl

theorem f_ClassName_plain (no_args : c.args = none) (end_ : token behind 0 ≠ chr '<') :
    f_ClassName r (c.entries ++ behind) = some (c.text, behind) := by
  have entries : c.entries ++ behind = c.name.1 :: behind := by
    rw [Component.entries, no_args]
    rfl
  have second : token (c.name.1 :: behind) 1 = token behind 0 := by
    cases behind with
    | nil => rfl
    | cons t ts => rfl
  rw [entries, f_ClassName, token_head, if_pos c.name.2, second, if_neg end_, Component.text, no_args]
  rfl

theorem entries_args {a : Args} (args : c.args = some a) : c.entries ++ behind =
    c.name.1 :: a.less.1 :: (a.tokens ++ a.greater.1 :: behind) := by
  rw [Component.entries, args]
  simp [Args.entries]

theorem f_ClassName_read {a : Args} (args : c.args = some a) (read : a.Read r behind) :
    f_ClassName r (c.entries ++ behind) = some (c.text, behind) := by
  have tokens : (a.tokens ++ a.greater.1 :: behind).take
      ((a.tokens ++ a.greater.1 :: behind).length - (a.greater.1 :: behind).length) = a.tokens := by
    rw [List.length_append, Nat.add_sub_cancel, List.take_left]
  have second : token (c.name.1 :: a.less.1 :: (a.tokens ++ a.greater.1 :: behind)) 1 = chr '<' :=
    a.less.2
  rw [entries_args args, f_ClassName, token_head, if_pos c.name.2, if_pos second, List.drop_one, List.tail_cons,
    f_TemplateArgList, List.drop_one, List.tail_cons]
  rw [Args.Read] at read
  rw [read]
  dsimp only
  rw [tokens, Component.text, args]
  rfl

theorem f_ClassName_refused {a : Args} (args : c.args = some a) (refused : a.Refused r behind) :
    f_ClassName r (c.entries ++ behind) =
      some (c.name.1.ident ++ ascii "<", a.entries ++ behind) := by
  have second : token (c.name.1 :: a.less.1 :: (a.tokens ++ a.greater.1 :: behind)) 1 = chr '<' :=
    a.less.2
  rw [entries_args args, f_ClassName, token_head, if_pos c.name.2, if_pos second, List.drop_one, List.tail_cons,
    f_TemplateArgList, List.drop_one, List.tail_cons]
  rw [Args.Refused] at refused
  rw [refused]
  simp [ident, Args.entries]

/-- A component is read alone, or its arguments are not read and it ends with the bracket. -/
theorem f_ClassName_cases (end_ : token behind 0 ≠ chr '<')
    (told : ∀ a, c.args = some a → a.Read r behind ∨ a.Refused r behind) :
    (∀ a, c.args = some a → a.Read r behind) ∧
        f_ClassName r (c.entries ++ behind) = some (c.text, behind) ∨
      ∃ a, c.args = some a ∧ ¬ a.Read r behind ∧
        f_ClassName r (c.entries ++ behind) =
          some (c.name.1.ident ++ ascii "<", a.entries ++ behind) := by
  cases args : c.args with
  | none =>
    exact .inl ⟨fun a absent => (by cases absent), f_ClassName_plain args end_⟩
  | some a =>
    rcases told a args with read | refused
    · refine .inl ⟨?_, f_ClassName_read args read⟩
      rintro b ⟨⟩
      exact read
    · refine .inr ⟨a, rfl, ?_, f_ClassName_refused args refused⟩
      intro read
      rw [Args.Read] at read
      rw [Args.Refused, read] at refused
      cases refused

theorem length_lt_text {a : Args} (args : c.args = some a) :
    (c.name.1.ident ++ ascii "<").length < c.text.length := by
  have grows (ts : List StackEntry) (bFirst : Bool) (pname : Text) :
      pname.length ≤ (concat_token bFirst pname ts).length := by
    induction ts generalizing bFirst pname with
    | nil => exact Nat.le_refl _
    | cons t ts ih =>
      refine Nat.le_trans ?_ (ih false _)
      simp only [List.length_append]
      omega
  have le := grows a.tokens true (c.name.1.ident ++ ascii "<")
  simp only [Component.text, args, List.length_append] at le ⊢
  exact Nat.lt_succ_of_le le

theorem token_entriesOf (c : Component) (more : List (Mark SN_CLCL × Component)) :
    token (entriesOf c more ++ behind) 0 = SN_IDENTIFIER := by
  cases more with
  | nil => exact c.name.2
  | cons q more => exact c.name.2

/-- The brackets of some arguments match. -/
def Args.Nested (_ : List StackEntry) (a : Args) : Prop := Skipped [chr '>'] a.tokens

theorem skipped_args {a : Args} (nested : a.Nested behind) :
    Skipped [chr ',', chr '{'] a.entries := by
  have bracket : ('<', '>') ∈ [('(', ')'), ('[', ']'), ('{', '}'), ('<', '>')] := by simp
  exact .group bracket a.less.2 (by rw [a.less.2]; decide) nested a.greater.2 .nil

theorem skipped_mark {code : Nat} (m : Mark code) (plain : code ∉ [0, chr '(', chr '[', chr '{', chr '<'])
    (no_stop : code ∉ [chr ',', chr '{']) {ts : List StackEntry} (skipped : Skipped [chr ',', chr '{'] ts) :
    Skipped [chr ',', chr '{'] (m.1 :: ts) :=
  .token (by rw [m.2]; exact no_stop) (by rw [m.2]; exact plain) skipped

theorem skipped_component (nested : ∀ a, c.args = some a → a.Nested behind) :
    Skipped [chr ',', chr '{'] c.entries := by
  refine skipped_mark c.name (by decide) (by decide) ?_
  cases args : c.args with
  | none => exact .nil
  | some a => exact skipped_args (nested a args)

theorem skipped_entriesOf (nested : EachArgs Args.Nested behind c more) :
    Skipped [chr ',', chr '{'] (entriesOf c more) := by
  induction more generalizing c with
  | nil => exact skipped_component nested
  | cons q more ih =>
    exact (skipped_component nested.1).append
      (skipped_mark q.1 (by decide) (by decide) (ih nested.2))

/-- What is found of a name: all of it, or a part that ends in front of some arguments. -/
inductive Found (r : Readers) (behind : List StackEntry) (c : Component)
    (more : List (Mark SN_CLCL × Component)) : Option (Text × List StackEntry) → Prop
  | whole : EachArgs (Args.Read r) behind c more → Found r behind c more (some (textOf c more, behind))
  | part {Name : Text} {left : List StackEntry} :
      ¬ EachArgs (Args.Read r) behind c more → Name.length < (textOf c more).length →
        (EachArgs Args.Nested behind c more → Skipped [chr ',', chr '{'] left) →
          Found r behind c more (some (Name, left ++ behind))

theorem f_QualifiedClassName_found (follows : Follows behind)
    (told : EachArgs (fun behind a => a.Read r behind ∨ a.Refused r behind) behind c more)
    (enough : more.length < n) :
    Found r behind c more (f_QualifiedClassName r n (entriesOf c more ++ behind)) := by
  have open_ (a : Args) (ts : List StackEntry) : token (a.entries ++ ts) 0 = chr '<' := a.less.2
  induction more generalizing c n with
  | nil =>
    obtain ⟨n, rfl⟩ := Nat.exists_eq_succ_of_ne_zero (Nat.ne_of_gt enough)
    have end_ : token behind 0 ≠ chr '<' ∧ token behind 0 ≠ SN_CLCL := by
      rcases follows with comma | brace
      · rw [comma]
        decide
      · rw [brace]
        decide
    rw [entriesOf, f_QualifiedClassName]
    rcases f_ClassName_cases end_.1 told with ⟨read, name⟩ | ⟨a, args, unread, name⟩
    · rw [name]
      dsimp only
      rw [if_neg end_.2]
      exact .whole read
    · rw [name]
      dsimp only
      rw [open_, if_neg (by decide)]
      exact .part (fun read => unread (read a args)) (length_lt_text args)
        fun nested => skipped_args (nested a args)
  | cons q more ih =>
    obtain ⟨n, rfl⟩ := Nat.exists_eq_succ_of_ne_zero (Nat.ne_of_gt (Nat.zero_lt_of_lt enough))
    have later := ih (c := q.2) (n := n) told.2 (Nat.lt_of_succ_lt_succ enough)
    have colons : token (q.1.1 :: (entriesOf q.2 more ++ behind)) 0 = SN_CLCL := q.1.2
    have end_ : token (q.1.1 :: (entriesOf q.2 more ++ behind)) 0 ≠ chr '<' := by
      rw [colons]
      decide
    have whole : entriesOf c (q :: more) ++ behind =
        c.entries ++ q.1.1 :: (entriesOf q.2 more ++ behind) := by
      rw [entriesOf, List.append_assoc, List.cons_append]
    rw [whole, f_QualifiedClassName]
    rcases f_ClassName_cases end_ told.1 with ⟨read, name⟩ | ⟨a, args, unread, name⟩
    · rw [name]
      dsimp only
      rw [if_pos colons, List.drop_one, List.tail_cons]
      generalize f_QualifiedClassName r n (entriesOf q.2 more ++ behind) = result at later ⊢
      cases later with
      | whole rest => exact .whole ⟨read, rest⟩
      | part rest short skipped =>
        refine .part (fun all => rest all.2) ?_ fun nested => skipped nested.2
        simp only [textOf, List.length_append]
        exact Nat.add_lt_add_left short _
    · rw [name]
      dsimp only
      rw [open_, if_neg (by decide)]
      have left : a.entries ++ q.1.1 :: (entriesOf q.2 more ++ behind) =
          (a.entries ++ q.1.1 :: entriesOf q.2 more) ++ behind := by
        rw [List.append_assoc, List.cons_append]
      rw [left]
      refine .part (fun all => unread (all.1 a args)) ?_ fun nested => ?_
      · have short := length_lt_text args
        simp only [textOf, List.length_append] at short ⊢
        omega
      · exact (skipped_args (nested.1 a args)).append
          (skipped_mark q.1 (by decide) (by decide) (skipped_entriesOf nested.2))

theorem lt_length_entriesOf (c : Component) (more : List (Mark SN_CLCL × Component)) :
    more.length < (entriesOf c more).length := by
  induction more generalizing c with
  | nil => exact Nat.zero_lt_succ _
  | cons q more ih =>
    have later := ih q.2
    simp only [entriesOf, List.length_append, List.length_cons]
    omega

/-- The template arguments of a name are read. -/
def ClassName.Read (r : Readers) (behind : List StackEntry) (x : ClassName) : Prop :=
  EachArgs (Args.Read r) behind x.first x.more

/-- The template arguments of a name are read up to their brackets or not at all. -/
def ClassName.Told (r : Readers) (behind : List StackEntry) (x : ClassName) : Prop :=
  EachArgs (fun behind a => a.Read r behind ∨ a.Refused r behind) behind x.first x.more

/-- The brackets in the template arguments of a name match. -/
def ClassName.Nested (behind : List StackEntry) (x : ClassName) : Prop :=
  EachArgs Args.Nested behind x.first x.more

theorem f_CompleteClassName_found {x : ClassName} (follows : Follows behind) (told : x.Told r behind) :
    (x.Read r behind ∧ f_CompleteClassName r (x.entries ++ behind) = some (x.text, behind)) ∨
      (¬ x.Read r behind ∧ ∃ Name left,
        f_CompleteClassName r (x.entries ++ behind) = some (Name, left ++ behind) ∧
          Name.length < x.text.length ∧ (x.Nested behind → Skipped [chr ',', chr '{'] left)) := by
  obtain ⟨clcl, first, more⟩ := x
  have enough := lt_length_entriesOf first more
  cases clcl with
  | none =>
    have found := f_QualifiedClassName_found follows told
      (n := (entriesOf first more ++ behind).length) (Nat.lt_of_lt_of_le enough (by simp))
    have start : ¬ token (entriesOf first more ++ behind) 0 = SN_CLCL := by
      rw [token_entriesOf]
      decide
    have run : f_CompleteClassName r ((⟨none, first, more⟩ : ClassName).entries ++ behind) =
        f_QualifiedClassName r (entriesOf first more ++ behind).length
          (entriesOf first more ++ behind) := if_neg start
    rw [run]
    generalize f_QualifiedClassName r _ _ = result at found ⊢
    cases found with
    | whole read => exact .inl ⟨read, rfl⟩
    | part unread short skipped => exact .inr ⟨unread, _, _, rfl, short, skipped⟩
  | some colons =>
    have found := f_QualifiedClassName_found follows told
      (n := (colons.1 :: (entriesOf first more ++ behind)).length)
      (Nat.lt_of_lt_of_le enough (by simp; omega))
    have run : f_CompleteClassName r ((⟨some colons, first, more⟩ : ClassName).entries ++ behind) =
        (f_QualifiedClassName r (colons.1 :: (entriesOf first more ++ behind)).length
          (entriesOf first more ++ behind)).map fun x => (ascii "::" ++ x.1, x.2) := if_pos colons.2
    rw [run]
    generalize f_QualifiedClassName r _ _ = result at found ⊢
    cases found with
    | whole read => exact .inl ⟨read, rfl⟩
    | part unread short skipped =>
      refine .inr ⟨unread, _, _, rfl, ?_, skipped⟩
      rw [ClassName.text, List.length_append, List.length_append]
      exact Nat.add_lt_add_left short _

end Names

end SourceNavigator.Cpp.LocalTypes

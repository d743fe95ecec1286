import SourceNavigator.Cpp.LocalTypes.Bases

/-!
Enumerators in the second pass (`cpp/cpplib/cp_enum.c`).

`f_Enum` steps over the opening brace, and `f_EnumeratorList` steps over one more
token: over the name of the first enumerator, or over the closing brace.

* `f_Enum_iff`: the enumerators are found exactly if there is none, and none is
  found behind the enumeration.
-/

namespace SourceNavigator.Cpp.LocalTypes

/-- `struct sEnumerator`, with the tokens of the expression. -/
structure Enumerator_t where
  Name : Text
  Expr : Option (List StackEntry)

/-- `struct sEnum` -/
structure Enum_t where
  Name : Option Text
  ListEnumerator : List Enumerator_t

section Reading

variable (r : Readers)

def f_Enumerator (ts : List StackEntry) : Option (Enumerator_t × List StackEntry) :=
  if token ts 0 = SN_IDENTIFIER then
    if token ts 1 = chr '=' then
      let rest := ts.drop 2
      match r.f_ConstantExpression rest with
      | some k => some (⟨ident ts 0, some (rest.take (k + 1))⟩, rest.drop (k + 1))
      | none => some (⟨ident ts 0, none⟩, rest)
    else some (⟨ident ts 0, none⟩, ts.drop 1)
  else none

/-- The loop of `f_EnumeratorList`. In front of a comma or brace `f_StepTo` does nothing. -/
def enumerators : Nat → List StackEntry → List Enumerator_t × List StackEntry
  | 0, ts => ([], ts)
  | n + 1, ts =>
    let (Enumerator, ts) :=
      match f_Enumerator r ts with
      | some (e, rest) => ([e], rest)
      | none => ([], ts)
    let ts := f_StepTo [chr ',', chr '}'] ts
    if token ts 0 = chr ',' then
      let (more, rest) := enumerators n (ts.drop 1)
      (Enumerator ++ more, rest)
    else (Enumerator, ts)

def f_EnumeratorList (ts : List StackEntry) : List Enumerator_t × List StackEntry :=
  enumerators r ts.length (ts.drop 1)

def f_Enum (ts : List StackEntry) : Option (Enum_t × List StackEntry) :=
  if token ts 0 = SN_ENUM then
    let ts := ts.drop 1
    let (Name, ts) := if token ts 0 ≠ chr '{' then (some (ident ts 0), ts.drop 1) else (none, ts)
    if token ts 0 = chr '{' then
      let (ListEnumerator, ts) := f_EnumeratorList r (ts.drop 1)
      some (⟨Name, ListEnumerator⟩, (f_StepTo [chr '}'] ts).drop 1)
    else some (⟨Name, []⟩, ts)
  else none

end Reading

/-! ### Enumerations -/

/-- An enumerator, with the initialiser behind `=`. -/
structure Enumerator where
  name : Mark SN_IDENTIFIER
  value : Option (Mark (chr '=') × List StackEntry)

def Enumerator.valueEntries (e : Enumerator) : List StackEntry :=
  match e.value with
  | none => []
  | some (equals, tokens) => equals.1 :: tokens

def Enumerator.entries (e : Enumerator) : List StackEntry := e.name.1 :: e.valueEntries

/-- Enumerators with commas between them; there may be one at the end. -/
structure Enumerators where
  first : Enumerator
  more : List (Mark (chr ',') × Enumerator)
  comma : Option (Mark (chr ','))

def Enumerators.behindFirst (l : Enumerators) : List StackEntry :=
  l.more.flatMap (fun q => q.1.1 :: q.2.entries) ++ (l.comma.map Subtype.val).toList

def Enumerators.entries (l : Enumerators) : List StackEntry := l.first.entries ++ l.behindFirst

def Enumerators.names (l : Enumerators) : List Text :=
  l.first.name.1.ident :: l.more.map fun q => q.2.name.1.ident

structure EnumSpecifier where
  key : Mark SN_ENUM
  name : Option { t : StackEntry // t.token ≠ chr '{' }
  opens : Mark (chr '{')
  list : Option Enumerators
  closes : Mark (chr '}')

namespace EnumSpecifier

def entries (e : EnumSpecifier) : List StackEntry :=
  e.key.1 :: ((e.name.map Subtype.val).toList ++
    e.opens.1 :: ((e.list.map Enumerators.entries).getD [] ++ [e.closes.1]))

/-- The names of the enumerators. -/
def names (e : EnumSpecifier) : List Text := (e.list.map Enumerators.names).getD []

end EnumSpecifier

/-- The brackets in the first initialiser match. -/
def Enumerators.Nested (l : Enumerators) : Prop :=
  ∀ v, l.first.value = some v → Skipped [chr ',', chr '}'] v.2

/-- No identifier stands where an enumerator is looked for: first of all, and behind the commas up
to the next brace that closes. -/
def NoEnumerator : Nat → List StackEntry → Prop
  | 0, _ => True
  | n + 1, ts =>
    token ts 0 ≠ SN_IDENTIFIER ∧
      (token (f_StepTo [chr ',', chr '}'] ts) 0 = chr ',' →
        NoEnumerator n ((f_StepTo [chr ',', chr '}'] ts).drop 1))

section Enumerations

variable {r : Readers} {behind ts : List StackEntry} {e : EnumSpecifier} {l : Enumerators} {n : Nat}

theorem f_Enumerator_none (other : token ts 0 ≠ SN_IDENTIFIER) : f_Enumerator r ts = none := if_neg other

theorem f_Enumerator_some (name : token ts 0 = SN_IDENTIFIER) :
    ∃ Expr rest, f_Enumerator r ts = some (⟨ident ts 0, Expr⟩, rest) := by
  rw [f_Enumerator, if_pos name]
  split
  case isTrue =>
    dsimp only
    cases r.f_ConstantExpression (ts.drop 2) with
    | none => exact ⟨_, _, rfl⟩
    | some k => exact ⟨_, _, rfl⟩
  case isFalse => exact ⟨_, _, rfl⟩

/-- Where an enumerator stands it is found first. -/
theorem enumerators_head (name : token ts 0 = SN_IDENTIFIER) :
    ((enumerators r (n + 1) ts).1.map Enumerator_t.Name).head? = some (ident ts 0) := by
  obtain ⟨Expr, rest, found⟩ := f_Enumerator_some (r := r) name
  rw [enumerators, found]
  dsimp only
  split
  case isTrue => rfl
  case isFalse => rfl

/-- Where none stands the loop goes on behind the next comma. -/
theorem enumerators_other (other : token ts 0 ≠ SN_IDENTIFIER) :
    (enumerators r (n + 1) ts).1 =
      if token (f_StepTo [chr ',', chr '}'] ts) 0 = chr ',' then
        (enumerators r n ((f_StepTo [chr ',', chr '}'] ts).drop 1)).1
      else [] := by
  rw [enumerators, f_Enumerator_none other]
  dsimp only
  split
  case isTrue => rfl
  case isFalse => rfl

/-- None is found where none stands. -/
theorem enumerators_eq_nil_iff :
    (enumerators r n ts).1.map Enumerator_t.Name = [] ↔ NoEnumerator n ts := by
  induction n generalizing ts with
  | zero => exact ⟨fun _ => trivial, fun _ => rfl⟩
  | succ n ih =>
    rw [NoEnumerator]
    by_cases name : token ts 0 = SN_IDENTIFIER
    · have head := enumerators_head (r := r) (n := n) name
      refine ⟨fun empty => ?_, fun none_there => absurd name none_there.1⟩
      rw [empty] at head
      cases head
    · rw [enumerators_other name]
      split
      case isTrue comma =>
        rw [ih]
        exact ⟨fun later => ⟨name, fun _ => later⟩, fun both => both.2 comma⟩
      case isFalse other => exact ⟨fun _ => ⟨name, fun comma => absurd comma other⟩, fun _ => rfl⟩

theorem noEnumerator_brace (brace : token behind 0 = chr '}') : NoEnumerator n behind := by
  cases n with
  | zero => trivial
  | succ n =>
    have stop : f_StepTo [chr ',', chr '}'] behind = behind := by
      refine f_StepTo_skipped .nil (.inl ?_)
      rw [brace]
      decide
    refine ⟨by rw [brace]; decide, fun comma => ?_⟩
    rw [stop, brace] at comma
    exact absurd comma (by decide)

/-- The first enumerator is lost. -/
theorem enumerators_first_lost (nested : l.Nested) (distinct : l.names.Nodup)
    (brace : token behind 0 = chr '}') :
    (f_EnumeratorList r (l.entries ++ behind)).1.map Enumerator_t.Name ≠ l.names := by
  obtain ⟨first, more, comma⟩ := l
  generalize behindEq : (⟨first, more, comma⟩ : Enumerators).behindFirst ++ behind = rest
  have stop : token rest 0 = chr ',' ∨ token rest 0 = chr '}' := by
    rw [← behindEq]
    cases more with
    | cons q more => exact .inl q.1.2
    | nil =>
      cases comma with
      | some comma => exact .inl comma.2
      | none => exact .inr brace
  have stops : token rest 0 ∈ [chr ',', chr '}'] := by
    rcases stop with stop | stop <;> rw [stop] <;> decide
  -- the name of the first enumerator is stepped over
  have list : f_EnumeratorList r ((⟨first, more, comma⟩ : Enumerators).entries ++ behind) =
      enumerators r (first.valueEntries.length + rest.length + 1) (first.valueEntries ++ rest) := by
    have whole : (⟨first, more, comma⟩ : Enumerators).entries ++ behind =
        first.name.1 :: (first.valueEntries ++ rest) := by
      rw [← behindEq, Enumerators.entries, List.append_assoc]
      rfl
    rw [whole, f_EnumeratorList, List.drop_one, List.tail_cons, List.length_cons, List.length_append]
  have skipped : Skipped [chr ',', chr '}'] first.valueEntries := by
    rw [Enumerator.valueEntries]
    cases value : first.value with
    | none => exact .nil
    | some v => exact .token (by rw [v.1.2]; decide) (by rw [v.1.2]; decide) (nested v value)
  have other : token (first.valueEntries ++ rest) 0 ≠ SN_IDENTIFIER := by
    rw [Enumerator.valueEntries]
    cases first.value with
    | some v =>
      have equals : token (v.1.1 :: v.2 ++ rest) 0 = chr '=' := v.1.2
      rw [equals]
      decide
    | none => rcases stop with stop | stop <;> rw [List.nil_append, stop] <;> decide
  rw [list, enumerators_other other, f_StepTo_skipped skipped (.inl stops)]
  cases more with
  | nil =>
    have none_left : (if token rest 0 = chr ',' then
        (enumerators r (first.valueEntries.length + rest.length) (rest.drop 1)).1 else []) = [] := by
      cases comma with
      | none =>
        have here : rest = behind := behindEq.symm
        rw [if_neg (by rw [here, brace]; decide)]
      | some comma =>
        have here : rest.drop 1 = behind := congrArg (List.drop 1) behindEq.symm
        have empty := (enumerators_eq_nil_iff (r := r)
          (n := first.valueEntries.length + rest.length)).mpr (noEnumerator_brace brace)
        rw [here, List.map_eq_nil_iff.mp empty, ite_self]
    rw [none_left]
    exact nofun
  | cons q more =>
    have comma : token rest 0 = chr ',' := by
      rw [← behindEq]
      exact q.1.2
    obtain ⟨m, length⟩ : ∃ m, first.valueEntries.length + rest.length = m + 1 := by
      refine Nat.exists_eq_succ_of_ne_zero ?_
      rw [← behindEq]
      simp [Enumerators.behindFirst]
    have name : token (rest.drop 1) 0 = SN_IDENTIFIER := by
      rw [← behindEq]
      exact q.2.name.2
    have second : ident (rest.drop 1) 0 = q.2.name.1.ident := by
      rw [← behindEq]
      rfl
    rw [if_pos comma, length]
    intro same
    have head := enumerators_head (r := r) (n := m) name
    rw [same, second] at head
    -- the first name would be that of the second enumerator
    exact (List.nodup_cons.mp distinct).1 (by
      rw [Option.some.inj head]
      exact List.mem_cons_self)

/-- The enumerators are found exactly if there is none, and none is found behind the enumeration. -/
theorem f_Enum_iff (nested : ∀ l, e.list = some l → l.Nested) (distinct : e.names.Nodup) :
    (f_Enum r (e.entries ++ behind)).map (fun x => x.1.ListEnumerator.map Enumerator_t.Name) =
        some e.names ↔
      e.list = none ∧ NoEnumerator (behind.length + 1) behind := by
  obtain ⟨key, name, opens, list, closes⟩ := e
  have run : (f_Enum r ((⟨key, name, opens, list, closes⟩ : EnumSpecifier).entries ++ behind)).map
      (fun x => x.1.ListEnumerator.map Enumerator_t.Name) =
        some ((f_EnumeratorList r
          ((list.map Enumerators.entries).getD [] ++ closes.1 :: behind)).1.map Enumerator_t.Name) := by
    generalize tailEq : (list.map Enumerators.entries).getD [] ++ closes.1 :: behind = tail
    have whole : (⟨key, name, opens, list, closes⟩ : EnumSpecifier).entries ++ behind =
        key.1 :: ((name.map Subtype.val).toList ++ opens.1 :: tail) := by
      rw [← tailEq, EnumSpecifier.entries]
      simp only [List.cons_append, List.append_assoc, List.nil_append]
    rw [whole, f_Enum, token_head, if_pos key.2, List.drop_one, List.tail_cons]
    dsimp only
    cases name with
    | none =>
      have brace : token (opens.1 :: tail) 0 = chr '{' := opens.2
      rw [Option.map_none, Option.toList_none, List.nil_append, if_neg (not_not_intro brace),
        if_pos brace, Option.map_some]
      rfl
    | some name =>
      have brace : token (opens.1 :: tail) 0 = chr '{' := opens.2
      have named : token ([name.1] ++ opens.1 :: tail) 0 ≠ chr '{' := name.2
      rw [Option.map_some, Option.toList_some, if_pos named, List.singleton_append, List.drop_one,
        List.tail_cons, if_pos brace, Option.map_some]
      rfl
  rw [run, Option.some.injEq]
  cases list with
  | none => exact enumerators_eq_nil_iff.trans ⟨fun behind => ⟨rfl, behind⟩, fun both => both.2⟩
  | some l =>
    refine ⟨fun same => absurd same ?_, fun both => by cases both.1⟩
    exact enumerators_first_lost (nested l rfl) distinct closes.2

end Enumerations

/-- A token whose code is a character. -/
def mark (c : Char) : Mark (chr c) := ⟨⟨chr c, [c.toUInt8], 0, 0⟩, rfl⟩

def identifier (name : String) : Mark SN_IDENTIFIER := ⟨⟨SN_IDENTIFIER, ascii name, 0, 0⟩, rfl⟩

/-- Types and expressions of one token. -/
def oneToken : Readers where
  f_TypeName ts := if token ts 0 = SN_INT then some 0 else none
  f_Expression _ := none
  f_ConstantExpression ts := if token ts 0 = SN_INTEGERconstant then some 0 else none

def wordOf (code : Nat) (text : String) (is : code ∈ SN_IDENTIFIER :: SN_VIRTUAL :: accesses) : Word :=
  ⟨⟨code, ascii text, 0, 0⟩, is⟩

/-- `struct A : virtual public B<int>` -/
def plainHead : ClassHead where
  key := ⟨⟨SN_STRUCT, ascii "struct", 0, 0⟩, by decide⟩
  name := some (none, identifier "A")
  bases := some (mark ':',
    ⟨[wordOf SN_VIRTUAL "virtual" (by decide), wordOf SN_PUBLIC "public" (by decide)],
      ⟨none, ⟨identifier "B", some ⟨mark '<', [⟨SN_INT, ascii "int", 0, 0⟩], mark '>'⟩⟩, []⟩,
      by decide⟩, [])

/-- `enum E { X = 1, Y }` -/
def twoEnumerators : EnumSpecifier where
  key := ⟨⟨SN_ENUM, ascii "enum", 0, 0⟩, rfl⟩
  name := some ⟨⟨SN_IDENTIFIER, ascii "E", 0, 0⟩, by decide⟩
  opens := mark '{'
  list := some ⟨⟨identifier "X", some (mark '=', [⟨SN_INTEGERconstant, ascii "1", 0, 0⟩])⟩,
    [(mark ',', ⟨identifier "Y", none⟩)], none⟩
  closes := mark '}'

/-- `class A : MOD B` -/
def modifierHead : ClassHead where
  key := ⟨⟨SN_CLASS, ascii "class", 0, 0⟩, by decide⟩
  name := some (none, identifier "A")
  bases := some (mark ':',
    ⟨[wordOf SN_IDENTIFIER "MOD" (by decide)], ⟨none, ⟨identifier "B", none⟩, []⟩, by decide⟩, [])

end SourceNavigator.Cpp.LocalTypes

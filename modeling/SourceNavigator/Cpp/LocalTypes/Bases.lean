import SourceNavigator.Cpp.LocalTypes.Names

/-!
Base classes in the second pass (`cpp/cpplib/cp_class.c`).

The members of a class are left out. `f_Base` has no `break` behind the step over
an identifier that stands in front of the name: it goes on with the `default`,
and the base class is given up.

* `f_Class_iff`: all base classes are found exactly if no identifier stands in front
  of a name and all template arguments are read.
-/

namespace SourceNavigator.Cpp.LocalTypes

/-- `struct sBase` -/
structure Base_t where
  Name : Text
  bVirtual : Bool
  iAccess : Nat
  deriving DecidableEq

/-- `struct sClass`, without the members. -/
structure Class_t where
  iAccess : Nat
  iType : Nat
  Name : Option Text
  ListBase : List Base_t
  deriving DecidableEq

/-- The keywords for the access. -/
def accesses : List Nat := [SN_PRIVATE, SN_PROTECTED, SN_PUBLIC]

section Reading

variable (r : Readers)

/-- `f_Base`, with the flag and the access that have been read. -/
def f_Base (bVirtual : Bool) (iAccess : Nat) : List StackEntry → Option Base_t × List StackEntry
  | [] => (none, [])
  | t :: ts =>
    if t.token = SN_VIRTUAL then f_Base true iAccess ts
    else if t.token ∈ accesses then f_Base bVirtual t.token ts
    else if t.token = SN_IDENTIFIER ∧ token ts 0 ∈ SN_IDENTIFIER :: SN_VIRTUAL :: accesses then
      -- `struct x : SN_PRIVATE y`; there is no `break`
      (none, ts)
    else if t.token = SN_CLCL ∨ t.token = SN_IDENTIFIER then
      match f_CompleteClassName r (t :: ts) with
      | some (Name, rest) => (some ⟨Name, bVirtual, iAccess⟩, rest)
      | none => (none, t :: ts)
    else (none, t :: ts)

/-- `f_BaseList`. In front of a comma or brace `f_StepTo` does nothing. -/
def f_BaseList (iAccess : Nat) : Nat → List StackEntry → List Base_t × List StackEntry
  | 0, ts => ([], ts)
  | n + 1, ts =>
    let (Base, ts) := f_Base r false iAccess ts
    let ts := f_StepTo [chr ',', chr '{'] ts
    if token ts 0 = chr ',' then
      let (more, rest) := f_BaseList iAccess n (ts.drop 1)
      (Base.toList ++ more, rest)
    else (Base.toList, ts)

/-- The name of a class. An identifier in front of it is stepped over. -/
def className (ts : List StackEntry) : Option Text × List StackEntry :=
  if token ts 0 = SN_IDENTIFIER then
    let ts :=
      if token ts 1 = SN_IDENTIFIER ∧ token ts 2 ∈ [chr ':', chr '{', chr '<'] then ts.drop 1 else ts
    match f_ClassName r ts with
    | some (Name, rest) => (some Name, rest)
    | none => (none, ts)
  else (none, ts)

/-- `f_Class`, up to the members. -/
def f_Class (ts : List StackEntry) : Option (Class_t × List StackEntry) :=
  let iType := token ts 0
  if iType ∈ [SN_CLASS, SN_STRUCT, SN_UNION] then
    let iAccess := if iType = SN_CLASS then SN_PRIVATE else SN_PUBLIC
    let (Name, ts) := className r (ts.drop 1)
    if token ts 0 = chr ':' then
      let ts := ts.drop 1
      let (ListBase, ts) := f_BaseList r iAccess ts.length ts
      some (⟨iAccess, iType, Name, ListBase⟩, f_StepTo [chr '{'] ts)
    else some (⟨iAccess, iType, Name, []⟩, ts)
  else none

end Reading

/-! ### Base specifiers -/

/-- `virtual`, an access, or an identifier in front of the name. -/
structure Word where
  entry : StackEntry
  code : entry.token ∈ SN_IDENTIFIER :: SN_VIRTUAL :: accesses

/-- An identifier in front of `::` is a part of the name. -/
structure Specifier where
  words : List Word
  name : ClassName
  apart : name.clcl.isSome = true → ∀ w ∈ words.getLast?, w.entry.token ≠ SN_IDENTIFIER

def Specifier.entries (s : Specifier) : List StackEntry := s.words.map Word.entry ++ s.name.entries

/-- The access that comes last. -/
def accessOf (iAccess : Nat) (words : List Word) : Nat :=
  ((words.map fun w => w.entry.token).reverse.find? (· ∈ accesses)).getD iAccess

/-- The entry for a base class, where `iAccess` is the access if there is none in it. -/
def Specifier.base (iAccess : Nat) (s : Specifier) : Base_t :=
  ⟨s.name.text, s.words.any fun w => w.entry.token = SN_VIRTUAL, accessOf iAccess s.words⟩

/-- There is no identifier in front of the name. -/
def Specifier.Plain (s : Specifier) : Prop := ∀ w ∈ s.words, w.entry.token ≠ SN_IDENTIFIER

/-- A base specifier that is read as it is. -/
def Specifier.Good (r : Readers) (behind : List StackEntry) (s : Specifier) : Prop :=
  s.Plain ∧ s.name.Read r behind

/-- The template arguments of a name are read up to their brackets or not at all, and those of a
name that is not read have matching brackets. -/
structure Specifier.Clear (r : Readers) (behind : List StackEntry) (s : Specifier) : Prop where
  told : s.Plain → s.name.Told r behind
  nested : ¬ s.Good r behind → s.name.Nested behind

/-! ### One base class -/

section Base

variable {r : Readers} {behind ts : List StackEntry} {s : Specifier} {x : ClassName} {w : Word}
  {words : List Word} {bVirtual : Bool} {iAccess : Nat}

theorem accessOf_cons (iAccess : Nat) (w : Word) (words : List Word) :
    accessOf iAccess (w :: words) =
      accessOf (if w.entry.token ∈ accesses then w.entry.token else iAccess) words := by
  rw [accessOf, accessOf, List.map_cons, List.reverse_cons, List.find?_append]
  cases (words.map fun w => w.entry.token).reverse.find? (· ∈ accesses) with
  | some access => rfl
  | none =>
    by_cases access : w.entry.token ∈ accesses
    · simp [access]
    · simp [access]

/-- The words in front of a name. -/
theorem f_Base_words (plain : ∀ w ∈ words, w.entry.token ≠ SN_IDENTIFIER) :
    f_Base r bVirtual iAccess (words.map Word.entry ++ ts) =
      f_Base r (bVirtual || words.any fun w => w.entry.token = SN_VIRTUAL) (accessOf iAccess words) ts := by
  induction words generalizing bVirtual iAccess with
  | nil => rw [List.any_nil, Bool.or_false]; rfl
  | cons w words ih =>
    have later (v : Bool) (a : Nat) : f_Base r v a (words.map Word.entry ++ ts) =
        f_Base r (v || words.any fun w => w.entry.token = SN_VIRTUAL) (accessOf a words) ts :=
      ih fun w mem => plain w (List.mem_cons_of_mem _ mem)
    rw [List.map_cons, List.cons_append, f_Base, accessOf_cons, List.any_cons]
    by_cases virtual_ : w.entry.token = SN_VIRTUAL
    · have other : w.entry.token ∉ accesses := by
        rw [virtual_]
        decide
      rw [if_pos virtual_, if_neg other, later, decide_eq_true virtual_, Bool.true_or, Bool.or_true]
    · have access : w.entry.token ∈ accesses := by
        rcases List.mem_cons.mp w.code with ident | rest
        · exact absurd ident (plain w List.mem_cons_self)
        · exact (List.mem_cons.mp rest).resolve_left virtual_
      rw [if_neg virtual_, if_pos access, if_pos access, later, decide_eq_false virtual_,
        Bool.false_or]

/-- A name starts with an identifier, and what is behind it stands for no word. -/
theorem entriesOf_eq (follows : Follows behind) (c : Component) (more : List (Mark SN_CLCL × Component)) :
    ∃ t ts, entriesOf c more ++ behind = t :: ts ∧ t.token = SN_IDENTIFIER ∧
      token ts 0 ∉ SN_IDENTIFIER :: SN_VIRTUAL :: accesses := by
  have stop : token behind 0 ∉ SN_IDENTIFIER :: SN_VIRTUAL :: accesses := by
    rcases follows with comma | brace
    · rw [comma]
      decide
    · rw [brace]
      decide
  obtain ⟨name, args⟩ := c
  cases args with
  | some a =>
    have less : a.less.1.token ∉ SN_IDENTIFIER :: SN_VIRTUAL :: accesses := by
      rw [a.less.2]
      decide
    cases more with
    | nil => exact ⟨_, _, rfl, name.2, less⟩
    | cons q more => exact ⟨_, _, rfl, name.2, less⟩
  | none =>
    cases more with
    | nil => exact ⟨_, _, rfl, name.2, stop⟩
    | cons q more =>
      have colons : q.1.1.token ∉ SN_IDENTIFIER :: SN_VIRTUAL :: accesses := by
        rw [q.1.2]
        decide
      exact ⟨_, _, rfl, name.2, colons⟩

/-- In front of a name the name is read. -/
theorem f_Base_name (follows : Follows behind) :
    f_Base r bVirtual iAccess (x.entries ++ behind) =
      match f_CompleteClassName r (x.entries ++ behind) with
      | some (Name, rest) => (some ⟨Name, bVirtual, iAccess⟩, rest)
      | none => (none, x.entries ++ behind) := by
  obtain ⟨clcl, first, more⟩ := x
  cases clcl with
  | some colons =>
    have whole : (⟨some colons, first, more⟩ : ClassName).entries ++ behind =
        colons.1 :: (entriesOf first more ++ behind) := rfl
    rw [whole, f_Base, colons.2, if_neg (by decide), if_neg (by decide),
      if_neg (fun both => absurd both.1 (by decide)), if_pos (by decide)]
  | none =>
    obtain ⟨t, ts, whole, code, other⟩ := entriesOf_eq follows first more
    have whole : (⟨none, first, more⟩ : ClassName).entries ++ behind = t :: ts := whole
    rw [whole, f_Base, code, if_neg (by decide), if_neg (by decide), if_neg fun both => other both.2,
      if_pos (by decide)]

theorem skipped_words (skipped : Skipped [chr ',', chr '{'] ts) :
    Skipped [chr ',', chr '{'] (words.map Word.entry ++ ts) := by
  induction words with
  | nil => exact skipped
  | cons w words ih =>
    have code := w.code
    simp only [accesses, List.mem_cons, List.not_mem_nil, or_false] at code
    refine .token ?_ ?_ ih
    · rcases code with code | code | code | code | code <;> rw [code] <;> decide
    · rcases code with code | code | code | code | code <;> rw [code] <;> decide

theorem skipped_name (nested : x.Nested behind) : Skipped [chr ',', chr '{'] x.entries := by
  obtain ⟨clcl, first, more⟩ := x
  cases clcl with
  | none => exact skipped_entriesOf nested
  | some colons => exact skipped_mark colons (by decide) (by decide) (skipped_entriesOf nested)

/-- An identifier in front of a name. -/
theorem f_Base_modifier (unplain : ¬ s.Plain) (bVirtual : Bool) (iAccess : Nat) :
    ∃ left, f_Base r bVirtual iAccess (s.entries ++ behind) = (none, left ++ behind) ∧
      (s.name.Nested behind → Skipped [chr ',', chr '{'] left) := by
  obtain ⟨words, x, apart⟩ := s
  rw [Specifier.entries]
  dsimp only
  induction words generalizing bVirtual iAccess with
  | nil => exact absurd (fun w mem => by cases mem) unplain
  | cons w words ih =>
    have apart' : x.clcl.isSome = true → ∀ v ∈ words.getLast?, v.entry.token ≠ SN_IDENTIFIER := by
      intro colons v mem
      refine apart colons v ?_
      cases words with
      | nil => cases mem
      | cons u words => exact mem
    rw [List.map_cons, List.cons_append, List.cons_append, f_Base]
    by_cases ident : w.entry.token = SN_IDENTIFIER
    · have next : token (words.map Word.entry ++ x.entries ++ behind) 0 ∈
          SN_IDENTIFIER :: SN_VIRTUAL :: accesses := by
        cases words with
        | cons u words => exact u.code
        | nil =>
          obtain ⟨clcl, first, more⟩ := x
          cases clcl with
          | some colons => exact absurd ident (apart rfl w rfl)
          | none =>
            have first_token : token (entriesOf first more ++ behind) 0 = SN_IDENTIFIER :=
              token_entriesOf first more
            exact List.mem_cons.mpr (.inl first_token)
      rw [ident, if_neg (by decide), if_neg (by decide), if_pos ⟨rfl, next⟩]
      exact ⟨_, rfl, fun nested => skipped_words (skipped_name nested)⟩
    · have unplain' : ¬ (⟨words, x, apart'⟩ : Specifier).Plain := by
        intro plain
        refine unplain fun v mem => ?_
        rcases List.mem_cons.mp mem with rfl | mem
        · exact ident
        · exact plain v mem
      have later := fun v a => ih v a apart' unplain'
      by_cases virtual_ : w.entry.token = SN_VIRTUAL
      · rw [if_pos virtual_]
        exact later true iAccess
      · have access : w.entry.token ∈ accesses :=
          (List.mem_cons.mp ((List.mem_cons.mp w.code).resolve_left ident)).resolve_left virtual_
        rw [if_neg virtual_, if_pos access]
        exact later bVirtual w.entry.token

/-- What is found of one base class: it is right exactly if the specifier is read as it is. -/
theorem f_Base_found (iAccess : Nat) (follows : Follows behind) (clear : s.Clear r behind) :
    (s.Good r behind ∧ f_Base r false iAccess (s.entries ++ behind) = (some (s.base iAccess), behind)) ∨
      (¬ s.Good r behind ∧ ∃ Base left, f_Base r false iAccess (s.entries ++ behind) = (Base, left ++ behind) ∧
        Base ≠ some (s.base iAccess) ∧ Skipped [chr ',', chr '{'] left) := by
  by_cases plain : s.Plain
  · rw [Specifier.entries, List.append_assoc, f_Base_words plain, f_Base_name follows]
    rcases f_CompleteClassName_found follows (clear.told plain) with
      ⟨read, name⟩ | ⟨unread, Name, left, name, short, skipped⟩
    · rw [name]
      exact .inl ⟨⟨plain, read⟩, rfl⟩
    · rw [name]
      refine .inr ⟨fun good => unread good.2, _, left, rfl, ?_, skipped (clear.nested fun good => unread good.2)⟩
      intro same
      have name := congrArg Base_t.Name (Option.some.inj same)
      exact absurd (congrArg List.length name) (Nat.ne_of_lt short)
  · obtain ⟨left, run, skipped⟩ := f_Base_modifier (r := r) plain false iAccess
    have bad : ¬ s.Good r behind := fun good => plain good.1
    exact .inr ⟨bad, none, left, run, by simp, skipped (clear.nested bad)⟩

end Base

/-! ### All base classes -/

/-- Base specifiers with commas between them. -/
def baseEntries (s : Specifier) : List (Mark (chr ',') × Specifier) → List StackEntry
  | [] => s.entries
  | q :: more => s.entries ++ q.1.1 :: baseEntries q.2 more

/-- A property of each base specifier, with what is behind it. -/
def EachBase (P : List StackEntry → Specifier → Prop) (behind : List StackEntry) (s : Specifier) :
    List (Mark (chr ',') × Specifier) → Prop
  | [] => P behind s
  | q :: more => P (q.1.1 :: (baseEntries q.2 more ++ behind)) s ∧ EachBase P behind q.2 more

/-- The base classes as they are written. -/
def basesOf (iAccess : Nat) (s : Specifier) (more : List (Mark (chr ',') × Specifier)) : List Base_t :=
  s.base iAccess :: more.map fun q => q.2.base iAccess

section BaseList

variable {r : Readers} {behind : List StackEntry} {s : Specifier}
  {more : List (Mark (chr ',') × Specifier)} {iAccess n : Nat}

/-- A part of a base class that is not read is stepped over. -/
theorem f_Base_StepTo (iAccess : Nat) (follows : Follows behind) (clear : s.Clear r behind) :
    f_StepTo [chr ',', chr '{'] (f_Base r false iAccess (s.entries ++ behind)).2 = behind ∧
      (s.Good r behind ∧ (f_Base r false iAccess (s.entries ++ behind)).1 = some (s.base iAccess) ∨
        ¬ s.Good r behind ∧
          (f_Base r false iAccess (s.entries ++ behind)).1 ≠ some (s.base iAccess)) := by
  have stop : token behind 0 ∈ [chr ',', chr '{'] := by
    rcases follows with comma | brace
    · rw [comma]
      decide
    · rw [brace]
      decide
  rcases f_Base_found iAccess follows clear with
    ⟨good, run⟩ | ⟨bad, Base, left, run, other, skipped⟩
  · rw [run]
    exact ⟨f_StepTo_skipped .nil (.inl stop), .inl ⟨good, rfl⟩⟩
  · rw [run]
    exact ⟨f_StepTo_skipped skipped (.inl stop), .inr ⟨bad, other⟩⟩

/-- All of the base classes are found exactly if each is read as it is. -/
theorem f_BaseList_found (iAccess : Nat) (brace : token behind 0 = chr '{')
    (clear : EachBase (Specifier.Clear r) behind s more) (enough : more.length < n) :
    (f_BaseList r iAccess n (baseEntries s more ++ behind)).2 = behind ∧
      (f_BaseList r iAccess n (baseEntries s more ++ behind)).1.length ≤ more.length + 1 ∧
      ((f_BaseList r iAccess n (baseEntries s more ++ behind)).1 = basesOf iAccess s more ↔
        EachBase (Specifier.Good r) behind s more) := by
  induction more generalizing s n with
  | nil =>
    obtain ⟨n, rfl⟩ := Nat.exists_eq_succ_of_ne_zero (Nat.ne_of_gt enough)
    obtain ⟨there, found⟩ := f_Base_StepTo iAccess (.inr brace) clear
    have no_comma : ¬ token behind 0 = chr ',' := by
      rw [brace]
      decide
    rw [baseEntries, f_BaseList]
    dsimp only
    rw [there, if_neg no_comma]
    refine ⟨rfl, ?_, ?_⟩
    · cases (f_Base r false iAccess (s.entries ++ behind)).1 with
      | none => exact Nat.zero_le _
      | some Base => exact Nat.le_refl _
    · rcases found with ⟨good, found⟩ | ⟨bad, other⟩
      · rw [found]
        exact ⟨fun _ => good, fun _ => rfl⟩
      · refine ⟨fun same => absurd ?_ other, fun good => absurd good bad⟩
        cases first : (f_Base r false iAccess (s.entries ++ behind)).1 with
        | none => rw [first] at same; cases same
        | some Base =>
          rw [first] at same
          exact congrArg some (List.cons.inj same).1
  | cons q more ih =>
    obtain ⟨n, rfl⟩ := Nat.exists_eq_succ_of_ne_zero (Nat.ne_of_gt (Nat.zero_lt_of_lt enough))
    have comma : token (q.1.1 :: (baseEntries q.2 more ++ behind)) 0 = chr ',' := q.1.2
    obtain ⟨there, found⟩ := f_Base_StepTo iAccess (.inl comma) clear.1
    obtain ⟨place, length, later⟩ := ih (s := q.2) (n := n) clear.2 (Nat.lt_of_succ_lt_succ enough)
    have whole : baseEntries s (q :: more) ++ behind =
        s.entries ++ q.1.1 :: (baseEntries q.2 more ++ behind) := by
      rw [baseEntries, List.append_assoc, List.cons_append]
    rw [whole, f_BaseList]
    dsimp only
    rw [there, if_pos comma, List.drop_one, List.tail_cons]
    generalize (f_Base r false iAccess
      (s.entries ++ q.1.1 :: (baseEntries q.2 more ++ behind))).1 = Base at found ⊢
    generalize (f_BaseList r iAccess n (baseEntries q.2 more ++ behind)).1 = bases at length later ⊢
    have one : Base.toList.length ≤ 1 := by
      cases Base with
      | none => exact Nat.zero_le 1
      | some Base => exact Nat.le_refl 1
    refine ⟨place, ?_, ?_⟩
    · rw [List.length_append, List.length_cons]
      omega
    · change Base.toList ++ bases = s.base iAccess :: basesOf iAccess q.2 more ↔ _ ∧ _
      rw [← later]
      cases Base with
      | none =>
        constructor
        · intro same
          -- one base class is missing
          have lengths := congrArg List.length same
          simp only [Option.toList_none, List.nil_append, basesOf, List.length_cons,
            List.length_map] at lengths
          omega
        · rintro ⟨good, -⟩
          rcases found with ⟨-, found⟩ | ⟨bad, -⟩
          · cases found
          · exact absurd good bad
      | some Base =>
        rw [Option.toList_some, List.singleton_append, List.cons.injEq]
        refine and_congr_left fun _ => ?_
        rcases found with ⟨good, found⟩ | ⟨bad, other⟩
        · exact ⟨fun _ => good, fun _ => Option.some.inj found⟩
        · exact ⟨fun same => absurd (congrArg some same) other, fun good => absurd good bad⟩

end BaseList

/-! ### Classes -/

/-- The head of a class: what it is, its name, which may have an identifier in front, and its base
classes. -/
structure ClassHead where
  key : { t : StackEntry // t.token ∈ [SN_CLASS, SN_STRUCT, SN_UNION] }
  name : Option (Option (Mark SN_IDENTIFIER) × Mark SN_IDENTIFIER)
  bases : Option (Mark (chr ':') × Specifier × List (Mark (chr ',') × Specifier))

namespace ClassHead

def nameEntries (h : ClassHead) : List StackEntry :=
  match h.name with
  | none => []
  | some (modifier, name) => (modifier.map Subtype.val).toList ++ [name.1]

def baseEntries (h : ClassHead) : List StackEntry :=
  match h.bases with
  | none => []
  | some (colon, first, more) => colon.1 :: LocalTypes.baseEntries first more

def entries (h : ClassHead) : List StackEntry := h.key.1 :: (h.nameEntries ++ h.baseEntries)

/-- The access of a base class that is given none. -/
def iAccess (h : ClassHead) : Nat := if h.key.1.token = SN_CLASS then SN_PRIVATE else SN_PUBLIC

/-- The base classes as they are written. -/
def ListBase (h : ClassHead) : List Base_t :=
  match h.bases with
  | none => []
  | some (_, first, more) => basesOf h.iAccess first more

/-- A property of each base specifier of the class, with what is behind it. -/
def Each (P : List StackEntry → Specifier → Prop) (behind : List StackEntry) (h : ClassHead) : Prop :=
  match h.bases with
  | none => True
  | some (_, first, more) => EachBase P behind first more

end ClassHead

section Class

variable {r : Readers} {behind : List StackEntry} {h : ClassHead}

theorem length_baseEntries (s : Specifier) (more : List (Mark (chr ',') × Specifier)) :
    more.length ≤ (baseEntries s more).length := by
  induction more generalizing s with
  | nil => exact Nat.zero_le _
  | cons q more ih =>
    have later := ih q.2
    simp only [baseEntries, List.length_append, List.length_cons]
    omega

theorem className_rest {tail : List StackEntry} (stop : token tail 0 = chr ':' ∨ token tail 0 = chr '{') :
    (className r (h.nameEntries ++ tail)).2 = tail := by
  have end_ : token tail 0 ≠ chr '<' ∧ token tail 0 ≠ SN_IDENTIFIER ∧
      token tail 0 ∈ [chr ':', chr '{', chr '<'] := by
    rcases stop with colon | brace
    · rw [colon]
      decide
    · rw [brace]
      decide
  have second (t : StackEntry) : token (t :: tail) 1 = token tail 0 := by
    cases tail <;> rfl
  have third (t u : StackEntry) : token (t :: u :: tail) 2 = token tail 0 := by
    cases tail <;> rfl
  have alone (name : Mark SN_IDENTIFIER) : f_ClassName r (name.1 :: tail) = some (name.1.ident, tail) :=
    f_ClassName_plain (c := ⟨name, none⟩) rfl end_.1
  obtain ⟨key, name, bases⟩ := h
  rcases name with _ | ⟨modifier, name⟩
  · have entries : (⟨key, none, bases⟩ : ClassHead).nameEntries ++ tail = tail := rfl
    rw [entries, className, if_neg end_.2.1]
  · rcases modifier with _ | modifier
    · have entries : (⟨key, some (none, name), bases⟩ : ClassHead).nameEntries ++ tail = name.1 :: tail :=
        rfl
      rw [entries, className, token_head, if_pos name.2, second, if_neg fun both => end_.2.1 both.1]
      dsimp only
      rw [alone]
    · have entries : (⟨key, some (some modifier, name), bases⟩ : ClassHead).nameEntries ++ tail =
          modifier.1 :: name.1 :: tail := rfl
      have next : token (modifier.1 :: name.1 :: tail) 1 = SN_IDENTIFIER := name.2
      rw [entries, className, token_head, if_pos modifier.2, third, if_pos ⟨next, end_.2.2⟩,
        List.drop_one, List.tail_cons]
      dsimp only
      rw [alone]

/-- The base classes of a class are found exactly if each is read as it is. -/
theorem f_Class_iff (brace : token behind 0 = chr '{') (clear : h.Each (Specifier.Clear r) behind) :
    (f_Class r (h.entries ++ behind)).map (fun x => x.1.ListBase) = some h.ListBase ↔
      h.Each (Specifier.Good r) behind := by
  have start : h.entries ++ behind = h.key.1 :: (h.nameEntries ++ (h.baseEntries ++ behind)) := by
    rw [ClassHead.entries, List.cons_append, List.append_assoc]
  rw [start, f_Class, token_head, if_pos h.key.2, List.drop_one, List.tail_cons]
  dsimp only
  cases bases : h.bases with
  | none =>
    have tail : h.baseEntries ++ behind = behind := by rw [ClassHead.baseEntries, bases]; rfl
    have no_colon : ¬ token behind 0 = chr ':' := by
      rw [brace]
      decide
    rw [tail, className_rest (.inr brace), if_neg no_colon, ClassHead.ListBase, bases, ClassHead.Each,
      bases]
    exact ⟨fun _ => trivial, fun _ => rfl⟩
  | some list =>
    obtain ⟨colon, first, more⟩ := list
    have tail : h.baseEntries ++ behind = colon.1 :: (baseEntries first more ++ behind) := by
      rw [ClassHead.baseEntries, bases]
      rfl
    have is_colon : token (colon.1 :: (baseEntries first more ++ behind)) 0 = chr ':' := colon.2
    have some_token : 0 < behind.length := by
      cases behind with
      | nil => cases brace
      | cons t ts => exact Nat.zero_lt_succ _
    have enough : more.length < (baseEntries first more ++ behind).length := by
      have le := length_baseEntries first more
      rw [List.length_append]
      omega
    rw [ClassHead.Each, bases] at clear
    have found := (f_BaseList_found h.iAccess brace clear enough).2.2
    rw [tail, className_rest (.inl is_colon), if_pos is_colon, List.drop_one, List.tail_cons,
      Option.map_some, ClassHead.ListBase, bases, ClassHead.Each, bases, Option.some.injEq]
    exact found

end Class

end SourceNavigator.Cpp.LocalTypes

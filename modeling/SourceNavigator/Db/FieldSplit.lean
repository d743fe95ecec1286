import Mathlib.Data.List.Basic
import Mathlib.Tactic.ByContra
import SourceNavigator.Text

/-!
Records split into an array of fields (`my_SplitList` in `db/dbutils.c`).

The function counts the separators outside of braces, allocates the array, and
goes over the string again: it sets the pointers of the array and overwrites
separators and braces with NULs. Both passes share the flag that tells whether a
brace is open, and the second starts with the value the first leaves.

* `pointers_eq_num_iff` says when as many pointers are set as are counted.
* `split_wrapped` says what is read back from fields joined by a separator, some
  of them in braces.
* `my_SplitList_iff` puts both together, with the separators for which nothing is
  read back.
-/

namespace SourceNavigator.Db.FieldSplit

abbrev OPEN_BRACE : UInt8 := 123
abbrev CLOSE_BRACE : UInt8 := 125

/-! ### The function -/

/-- What the first pass keeps: the flag and the count. -/
structure Count where
  have_bracket : Bool
  cnt : Nat

/-- The body of the first loop. -/
def countField (sep : UInt8) (st : Count) (p : UInt8) : Count :=
  let st := if p = OPEN_BRACE then { st with have_bracket := true } else st
  let st := if p = CLOSE_BRACE then { st with have_bracket := false } else st
  if !st.have_bracket && p == sep then { st with cnt := st.cnt + 1 } else st

/-- What the second pass keeps: the flag, the pointers in front of `argv[i]` and `argv[i]`, as
offsets in the copy of the string, and the copy as far as the pass has gone. -/
structure Pointers where
  have_bracket : Bool
  argv : List Nat
  last : Nat
  lst : Text

/-- The body of the second loop. -/
def setPointer (sep : UInt8) (st : Pointers) (p : UInt8) : Pointers :=
  let st := if p = OPEN_BRACE then { st with have_bracket := true, last := st.last + 1 } else st
  let p := if p = OPEN_BRACE then 0 else p
  let st := if p = CLOSE_BRACE then { st with have_bracket := false } else st
  let p := if p = CLOSE_BRACE then 0 else p
  if !st.have_bracket && p == sep then
    { st with argv := st.argv ++ [st.last], last := st.lst.length + 1, lst := st.lst ++ [0] }
  else { st with lst := st.lst ++ [p] }

/-- What `my_SplitList` leaves: the count it returns, which is the length of the array, the
pointers that are set from its first element on, and the copy they point into. -/
structure SplitList where
  num : Nat
  argv : List Nat
  lst : Text

def my_SplitList (str : Text) (sep : UInt8) : SplitList :=
  let counted := str.foldl (countField sep) ⟨false, 1⟩
  let set := str.foldl (setPointer sep) ⟨counted.have_bracket, [], 0, []⟩
  { num := counted.cnt, argv := set.argv ++ [set.last], lst := set.lst }

/-- The string at an offset of the copy. -/
def stringAt (lst : Text) (p : Nat) : Text := (lst.drop p).takeWhile fun c => decide (c ≠ 0)

/-- The strings of the pointers. -/
def SplitList.fields (r : SplitList) : List Text := r.argv.map (stringAt r.lst)

/-! ### The flag -/

def isBrace (c : UInt8) : Bool := c == OPEN_BRACE || c == CLOSE_BRACE

/-- The flag at the end of a string: the last brace opens. -/
def openAtEnd (str : Text) : Bool := (str.filter isBrace).getLast? == some OPEN_BRACE

/-- Both passes see the same separators: no brace is open when the second starts, or no
separator stands in front of the first brace. A brace as separator is not one of the braces
the second pass looks for, and a NUL stands where it overwrote a brace. -/
def SameSeparators (str : Text) (sep : UInt8) : Prop :=
  if sep = OPEN_BRACE then True
  else if sep = CLOSE_BRACE ∨ sep = 0 then CLOSE_BRACE ∉ str
  else openAtEnd str = false ∨ sep ∉ str.takeWhile fun c => !isBrace c

/-- A separator that is neither a brace nor NUL. -/
def Ordinary (sep : UInt8) : Prop := sep ≠ OPEN_BRACE ∧ sep ≠ CLOSE_BRACE ∧ sep ≠ 0

/-- The separators that a pass sees from a flag on. -/
def separators (sep : UInt8) : Bool → Text → Nat
  | _, [] => 0
  | have_bracket, c :: s =>
    if c = OPEN_BRACE then separators sep true s
    else if c = CLOSE_BRACE then separators sep false s
    else (if !have_bracket && c == sep then 1 else 0) + separators sep have_bracket s

/-- The flag behind a string. -/
def flagAfter : Bool → Text → Bool
  | have_bracket, [] => have_bracket
  | have_bracket, c :: s =>
    if c = OPEN_BRACE then flagAfter true s
    else if c = CLOSE_BRACE then flagAfter false s
    else flagAfter have_bracket s

/-! ### One byte -/

section OneByte

variable {sep c : UInt8} {s : Text}

theorem braces_differ : OPEN_BRACE ≠ CLOSE_BRACE := by decide

theorem isBrace_eq_false : isBrace c = false ↔ c ≠ OPEN_BRACE ∧ c ≠ CLOSE_BRACE := by
  rw [isBrace, Bool.or_eq_false_iff, beq_eq_false_iff_ne, beq_eq_false_iff_ne]

theorem countField_open (st : Count) :
    countField sep st OPEN_BRACE = { st with have_bracket := true } := by
  simp only [countField, if_true, if_neg braces_differ]
  rfl

theorem countField_close (st : Count) :
    countField sep st CLOSE_BRACE =
      { have_bracket := false, cnt := st.cnt + if sep = CLOSE_BRACE then 1 else 0 } := by
  simp only [countField, if_true, if_neg braces_differ.symm]
  by_cases same : sep = CLOSE_BRACE
  · simp [same]
  · simp [same, Ne.symm same]

theorem countField_other (st : Count) (other : isBrace c = false) :
    countField sep st c =
      { st with cnt := st.cnt + if !st.have_bracket && c == sep then 1 else 0 } := by
  obtain ⟨opens, closes⟩ := isBrace_eq_false.mp other
  simp only [countField, if_neg opens, if_neg closes]
  split <;> rfl

theorem setPointer_open (st : Pointers) :
    setPointer sep st OPEN_BRACE =
      { st with have_bracket := true, last := st.last + 1, lst := st.lst ++ [0] } := by
  have nul : (0 : UInt8) ≠ CLOSE_BRACE := by decide
  simp only [setPointer, if_true, if_neg nul]
  rfl

theorem setPointer_close (st : Pointers) (other : sep ≠ 0) :
    setPointer sep st CLOSE_BRACE =
      { st with have_bracket := false, lst := st.lst ++ [0] } := by
  simp [setPointer, braces_differ.symm, Ne.symm other]

/-- The NUL that overwrites a closing brace is a separator if the separator is NUL. -/
theorem setPointer_close_nul (st : Pointers) :
    setPointer 0 st CLOSE_BRACE =
      { have_bracket := false, argv := st.argv ++ [st.last], last := st.lst.length + 1,
        lst := st.lst ++ [0] } := by
  simp [setPointer, braces_differ.symm]

theorem setPointer_other (st : Pointers) (other : isBrace c = false) :
    setPointer sep st c =
      if !st.have_bracket && c == sep then
        { st with argv := st.argv ++ [st.last], last := st.lst.length + 1, lst := st.lst ++ [0] }
      else { st with lst := st.lst ++ [c] } := by
  obtain ⟨opens, closes⟩ := isBrace_eq_false.mp other
  simp only [setPointer, if_neg opens, if_neg closes]

theorem separators_other {b : Bool} (other : isBrace c = false) :
    separators sep b (c :: s) =
      (if !b && c == sep then 1 else 0) + separators sep b s := by
  obtain ⟨opens, closes⟩ := isBrace_eq_false.mp other
  rw [separators, if_neg opens, if_neg closes]

theorem flagAfter_other {b : Bool} (other : isBrace c = false) :
    flagAfter b (c :: s) = flagAfter b s := by
  obtain ⟨opens, closes⟩ := isBrace_eq_false.mp other
  rw [flagAfter, if_neg opens, if_neg closes]

/-- A byte opens a brace, closes one or is no brace. -/
theorem brace_cases (c : UInt8) : c = OPEN_BRACE ∨ c = CLOSE_BRACE ∨ isBrace c = false := by
  by_cases opens : c = OPEN_BRACE
  · exact .inl opens
  · by_cases closes : c = CLOSE_BRACE
    · exact .inr (.inl closes)
    · exact .inr (.inr (isBrace_eq_false.mpr ⟨opens, closes⟩))

end OneByte

/-! ### Both passes -/

section Passes

variable {sep : UInt8} {s : Text}

theorem have_bracket_foldl_countField (st : Count) (s : Text) :
    (s.foldl (countField sep) st).have_bracket = flagAfter st.have_bracket s := by
  induction s generalizing st with
  | nil => rfl
  | cons c s ih =>
    rw [List.foldl_cons, ih]
    rcases brace_cases c with rfl | rfl | other
    · rw [countField_open]
      rfl
    · rw [countField_close]
      rfl
    · rw [countField_other st other, flagAfter_other other]

/-- The first pass counts the separators it sees. -/
theorem foldl_countField (other : sep ≠ CLOSE_BRACE) (st : Count) (s : Text) :
    (s.foldl (countField sep) st).cnt = st.cnt + separators sep st.have_bracket s := by
  induction s generalizing st with
  | nil => rfl
  | cons c s ih =>
    rw [List.foldl_cons, ih]
    rcases brace_cases c with rfl | rfl | no_brace
    · rw [countField_open]
      rfl
    · rw [countField_close, if_neg other]
      rfl
    · rw [countField_other st no_brace, separators_other no_brace]
      simp only [Nat.add_assoc]

/-- The second pass sets a pointer for every separator it sees. -/
theorem length_foldl_setPointer (some_byte : sep ≠ 0) (st : Pointers) (s : Text) :
    (s.foldl (setPointer sep) st).argv.length =
      st.argv.length + separators sep st.have_bracket s := by
  induction s generalizing st with
  | nil => rfl
  | cons c s ih =>
    rw [List.foldl_cons, ih]
    rcases brace_cases c with rfl | rfl | other
    · rw [setPointer_open]
      rfl
    · rw [setPointer_close st some_byte]
      rfl
    · rw [setPointer_other st other, separators_other other]
      split
      next => simp only [List.length_append, List.length_singleton]; omega
      next => rw [Nat.zero_add]

/-- The flag is that of the last brace. -/
theorem flagAfter_eq (b : Bool) (s : Text) :
    flagAfter b s = (s.filter isBrace).getLast?.elim b (· == OPEN_BRACE) := by
  induction s generalizing b with
  | nil => rfl
  | cons c s ih =>
    rcases brace_cases c with rfl | rfl | other
    · rw [flagAfter, if_pos rfl, ih, List.filter_cons_of_pos (by decide), List.getLast?_cons]
      cases (s.filter isBrace).getLast? <;> rfl
    · rw [flagAfter, if_neg braces_differ.symm, if_pos rfl, ih,
        List.filter_cons_of_pos (by decide), List.getLast?_cons]
      cases (s.filter isBrace).getLast? <;> rfl
    · rw [flagAfter_other other, ih, List.filter_cons_of_neg (by simp [other])]

theorem flagAfter_false : flagAfter false s = openAtEnd s := by
  rw [flagAfter_eq, openAtEnd]
  cases (s.filter isBrace).getLast? with
  | none => rfl
  | some c => simp

/-- With the flag set, the separators in front of the first brace are not seen. -/
theorem separators_true (s : Text) :
    separators sep false s =
      (s.takeWhile fun c => !isBrace c).count sep + separators sep true s := by
  induction s with
  | nil => rfl
  | cons c s ih =>
    rcases brace_cases c with rfl | rfl | other
    · rw [separators, separators, List.takeWhile_cons_of_neg (by decide), List.count_nil]
      simp
    · rw [separators, separators, List.takeWhile_cons_of_neg (by decide), List.count_nil]
      simp
    · rw [separators_other other, separators_other other, ih,
        List.takeWhile_cons_of_pos (by simp [other]), List.count_cons]
      simp only [Bool.not_false, Bool.true_and, Bool.not_true, Bool.false_and]
      rw [if_neg Bool.false_ne_true]
      omega

/-- A separator that is not in the text, or is a brace, is not seen. -/
theorem separators_eq_zero (unseen : sep ∉ s ∨ isBrace sep = true) (b : Bool) :
    separators sep b s = 0 := by
  induction s generalizing b with
  | nil => rfl
  | cons c s ih =>
    have rest : sep ∉ s ∨ isBrace sep = true :=
      unseen.imp_left fun absent mem => absent (List.mem_cons_of_mem _ mem)
    rcases brace_cases c with rfl | rfl | other
    · rw [separators, if_pos rfl, ih rest]
    · rw [separators, if_neg braces_differ.symm, if_pos rfl, ih rest]
    · have differ : c ≠ sep := by
        rintro rfl
        rcases unseen with absent | brace
        · exact absent List.mem_cons_self
        · rw [other] at brace
          cases brace
      rw [separators_other other, ih rest]
      simp [differ]

/-- A closing brace as separator is counted wherever it stands. -/
theorem foldl_countField_close (st : Count) (s : Text) :
    (s.foldl (countField CLOSE_BRACE) st).cnt = st.cnt + s.count CLOSE_BRACE := by
  induction s generalizing st with
  | nil => rfl
  | cons c s ih =>
    rw [List.foldl_cons, ih, List.count_cons]
    rcases brace_cases c with rfl | rfl | other
    · rw [countField_open]
      simp [braces_differ]
    · rw [countField_close, if_pos rfl]
      simp only [beq_self_eq_true, if_true]
      omega
    · rw [countField_other st other]
      simp [(isBrace_eq_false.mp other).2]

/-- With a NUL as separator, a pointer is set for every closing brace. -/
theorem length_foldl_setPointer_nul (string : 0 ∉ s) (st : Pointers) :
    (s.foldl (setPointer 0) st).argv.length = st.argv.length + s.count CLOSE_BRACE := by
  induction s generalizing st with
  | nil => rfl
  | cons c s ih =>
    rw [List.mem_cons, not_or] at string
    rw [List.foldl_cons, ih string.2, List.count_cons]
    rcases brace_cases c with rfl | rfl | other
    · rw [setPointer_open]
      simp [braces_differ]
    · rw [setPointer_close_nul]
      simp only [List.length_append, List.length_singleton, beq_self_eq_true, if_true]
      omega
    · rw [setPointer_other st other]
      simp [(isBrace_eq_false.mp other).2, Ne.symm string.1]

/-- As many pointers are set as are counted exactly if both passes see the same separators. -/
theorem pointers_eq_num_iff (string : 0 ∉ s) (sep : UInt8) :
    (my_SplitList s sep).argv.length = (my_SplitList s sep).num ↔ SameSeparators s sep := by
  simp only [my_SplitList, List.length_append, List.length_singleton]
  unfold SameSeparators
  split
  case isTrue opens =>
    subst opens
    have none_seen := @separators_eq_zero OPEN_BRACE s (.inr (by decide))
    rw [length_foldl_setPointer (by decide), foldl_countField braces_differ]
    simp [none_seen]
  split
  case isTrue exceptional =>
    rcases exceptional with rfl | rfl
    · have none_seen := @separators_eq_zero CLOSE_BRACE s (.inr (by decide))
      rw [length_foldl_setPointer (by decide), foldl_countField_close, none_seen,
        ← List.count_eq_zero]
      simp only [List.length_nil]
      omega
    · have none_seen := @separators_eq_zero 0 s (.inl string)
      rw [length_foldl_setPointer_nul string, foldl_countField (by decide), none_seen,
        ← List.count_eq_zero]
      simp only [List.length_nil]
      omega
  case isFalse opens ordinary =>
    rw [not_or] at ordinary
    rw [length_foldl_setPointer ordinary.2, foldl_countField ordinary.1,
      have_bracket_foldl_countField]
    simp only [List.length_nil, flagAfter_false]
    cases openAtEnd s with
    | false => simp only [true_or, iff_true]; omega
    | true =>
      rw [separators_true, ← List.count_eq_zero (a := sep)]
      simp only [Bool.true_eq_false, false_or]
      omega

end Passes

/-! ### Joined fields -/

/-- A field as a record holds it: in braces or without. -/
def wrapped (f : Text × Bool) : Text :=
  if f.2 then OPEN_BRACE :: (f.1 ++ [CLOSE_BRACE]) else f.1

def joinedBy (sep : UInt8) (fields : List (Text × Bool)) : Text :=
  List.intercalate [sep] (fields.map wrapped)

/-- The fields hold no brace, no separator and no NUL. -/
def Plain (sep : UInt8) (fields : List (Text × Bool)) : Prop :=
  ∀ f ∈ fields, ∀ c ∈ f.1, isBrace c = false ∧ c ≠ sep ∧ c ≠ 0

/-- The split of the joined fields gives the fields. -/
def ReadsBack (sep : UInt8) (fields : List (Text × Bool)) : Prop :=
  (my_SplitList (joinedBy sep fields) sep).num = fields.length ∧
    (my_SplitList (joinedBy sep fields) sep).fields = fields.map Prod.fst

section Joined

variable {sep : UInt8} {f : Text × Bool} {fields : List (Text × Bool)} {s t : Text}

/-- A field with its braces overwritten. -/
def overwritten (f : Text × Bool) : Text := if f.2 then 0 :: (f.1 ++ [0]) else f.1

theorem foldl_setPointer_plain (st : Pointers)
    (plain : ∀ c ∈ s, isBrace c = false ∧ c ≠ sep ∧ c ≠ 0) :
    s.foldl (setPointer sep) st = { st with lst := st.lst ++ s } := by
  induction s generalizing st with
  | nil => simp
  | cons c s ih =>
    obtain ⟨no_brace, other, _⟩ := plain c List.mem_cons_self
    rw [List.foldl_cons, setPointer_other st no_brace, ih _ fun c mem =>
      plain c (List.mem_cons_of_mem _ mem)]
    simp [other]

/-- The pointer of a field in braces is moved behind the opening one. -/
theorem foldl_setPointer_wrapped (st : Pointers) (closed : st.have_bracket = false)
    (some_byte : sep ≠ 0) (plain : ∀ c ∈ f.1, isBrace c = false ∧ c ≠ sep ∧ c ≠ 0) :
    (wrapped f).foldl (setPointer sep) st =
      { st with last := st.last + f.2.toNat, lst := st.lst ++ overwritten f } := by
  obtain ⟨s, braces⟩ := f
  cases braces with
  | false => exact foldl_setPointer_plain st plain
  | true =>
    rw [wrapped, if_pos rfl, List.foldl_cons, setPointer_open, List.foldl_append,
      foldl_setPointer_plain _ plain, List.foldl_cons, setPointer_close _ some_byte,
      List.foldl_nil, overwritten, if_pos rfl]
    simp [closed]

theorem flagAfter_append (b : Bool) : flagAfter b (s ++ t) = flagAfter (flagAfter b s) t := by
  induction s generalizing b with
  | nil => rfl
  | cons c s ih =>
    rcases brace_cases c with rfl | rfl | other
    · exact ih true
    · exact ih false
    · rw [List.cons_append, flagAfter_other other, flagAfter_other other, ih]

theorem flagAfter_plain (b : Bool) (plain : ∀ c ∈ s, isBrace c = false) : flagAfter b s = b := by
  rw [flagAfter_eq, List.filter_eq_nil_iff.mpr fun c mem => by simp [plain c mem]]
  rfl

theorem flagAfter_wrapped (plain : ∀ c ∈ f.1, isBrace c = false) :
    flagAfter false (wrapped f) = false := by
  unfold wrapped
  split
  · rw [flagAfter, if_pos rfl, flagAfter_append, flagAfter, if_neg braces_differ.symm, if_pos rfl,
      flagAfter]
  · exact flagAfter_plain false plain

theorem joinedBy_cons (some_field : fields ≠ []) :
    joinedBy sep (f :: fields) = wrapped f ++ sep :: joinedBy sep fields := by
  rw [joinedBy, List.map_cons, List.intercalate_cons_of_ne_nil (by simpa using some_field)]
  simp [joinedBy]

theorem joinedBy_singleton : joinedBy sep [f] = wrapped f := by
  simp [joinedBy]

/-- No brace is open behind joined fields. -/
theorem flagAfter_joinedBy (plain : Plain sep fields) (ordinary : isBrace sep = false) :
    flagAfter false (joinedBy sep fields) = false := by
  induction fields with
  | nil => rfl
  | cons f fields ih =>
    have first := flagAfter_wrapped fun c mem => (plain f List.mem_cons_self c mem).1
    by_cases last : fields = []
    · rw [last, joinedBy_singleton, first]
    · rw [joinedBy_cons last, flagAfter_append, first, flagAfter_other ordinary]
      exact ih fun f mem => plain f (List.mem_cons_of_mem _ mem)

/-- A step of the second pass goes past one byte. -/
theorem lst_setPointer (st : Pointers) (c : UInt8) :
    ∃ d, (setPointer sep st c).lst = st.lst ++ [d] := by
  rcases brace_cases c with rfl | rfl | other
  · rw [setPointer_open]
    exact ⟨0, rfl⟩
  · by_cases nul : sep = 0
    · rw [nul, setPointer_close_nul]
      exact ⟨0, rfl⟩
    · rw [setPointer_close st nul]
      exact ⟨0, rfl⟩
  · rw [setPointer_other st other]
    split
    · exact ⟨0, rfl⟩
    · exact ⟨c, rfl⟩

/-- What the second pass has gone past stays. -/
theorem lst_prefix_foldl (st : Pointers) (s : Text) :
    st.lst <+: (s.foldl (setPointer sep) st).lst := by
  induction s generalizing st with
  | nil => exact List.prefix_refl _
  | cons c s ih =>
    obtain ⟨d, step⟩ := @lst_setPointer sep st c
    exact List.IsPrefix.trans (step ▸ List.prefix_append _ _) (ih _)

/-- The string at a field ends where the field ends. -/
theorem stringAt_field {front back field : Text} (plain : ∀ c ∈ field, c ≠ 0)
    (ends : back = [] ∨ ∃ rest, back = 0 :: rest) :
    stringAt (front ++ (field ++ back)) front.length = field := by
  rw [stringAt, List.drop_left]
  rw [List.takeWhile_append_of_pos fun c mem => decide_eq_true (plain c mem)]
  rcases ends with rfl | ⟨rest, rfl⟩
  · rw [List.takeWhile_nil, List.append_nil]
  · rw [List.takeWhile_cons_of_neg (by decide), List.append_nil]

/-- The string at the pointer of a field that was passed, with a NUL or nothing behind it. -/
theorem stringAt_overwritten {front back : Text} (plain : ∀ c ∈ f.1, c ≠ 0)
    (ends : back = [] ∨ ∃ rest, back = 0 :: rest) :
    stringAt (front ++ (overwritten f ++ back)) (front.length + f.2.toNat) = f.1 := by
  obtain ⟨s, braces⟩ := f
  cases braces with
  | false => exact stringAt_field plain ends
  | true =>
    have inside := @stringAt_field (front ++ [0]) (0 :: back) s plain
      (.inr ⟨back, rfl⟩)
    rw [List.length_append, List.length_singleton] at inside
    rw [overwritten, if_pos rfl]
    simpa using inside

/-- The second pass over joined fields points at each of them. -/
theorem foldl_setPointer_joinedBy (ordinary : Ordinary sep) (plain : Plain sep fields)
    (some_field : fields ≠ []) (st : Pointers) (closed : st.have_bracket = false)
    (at_field : st.last = st.lst.length) :
    ∃ r ps, (joinedBy sep fields).foldl (setPointer sep) st = r ∧
      r.argv ++ [r.last] = st.argv ++ ps ∧ ps.map (stringAt r.lst) = fields.map Prod.fst := by
  induction fields generalizing st with
  | nil => exact absurd rfl some_field
  | cons f fields ih =>
    have word := plain f List.mem_cons_self
    have no_nul : ∀ c ∈ f.1, c ≠ 0 := fun c mem => (word c mem).2.2
    by_cases last : fields = []
    · refine ⟨_, [st.last + f.2.toNat], rfl, ?_, ?_⟩
      · rw [last, joinedBy_singleton, foldl_setPointer_wrapped st closed ordinary.2.2 word]
      · rw [last, joinedBy_singleton, foldl_setPointer_wrapped st closed ordinary.2.2 word]
        have text := @stringAt_overwritten f st.lst _ no_nul (.inl rfl)
        rw [List.append_nil] at text
        rw [List.map_singleton, List.map_singleton, at_field, text]
    · -- the step over the separator points at the next field
      set next : Pointers :=
        { have_bracket := false, argv := st.argv ++ [st.last + f.2.toNat],
          last := (st.lst ++ overwritten f).length + 1, lst := st.lst ++ overwritten f ++ [0] }
      have first : (wrapped f ++ [sep]).foldl (setPointer sep) st = next := by
        rw [List.foldl_append, foldl_setPointer_wrapped st closed ordinary.2.2 word,
          List.foldl_cons, List.foldl_nil,
          setPointer_other _ (isBrace_eq_false.mpr ⟨ordinary.1, ordinary.2.1⟩)]
        simp [closed, next]
      obtain ⟨r, ps, run, pointers, texts⟩ :=
        ih (fun f mem => plain f (List.mem_cons_of_mem _ mem)) last next rfl
          (by simp [next, Nat.add_assoc])
      refine ⟨r, (st.last + f.2.toNat) :: ps, ?_, ?_, ?_⟩
      · rw [joinedBy_cons last, List.append_cons, List.foldl_append, first, run]
      · rw [pointers]
        simp [next]
      · obtain ⟨rest, whole⟩ := @lst_prefix_foldl sep next (joinedBy sep fields)
        rw [run] at whole
        have text := @stringAt_overwritten f st.lst (0 :: rest) no_nul
          (.inr ⟨rest, rfl⟩)
        rw [List.map_cons, List.map_cons, texts, at_field, ← whole]
        simp only [next, List.append_assoc, List.singleton_append]
        rw [text]

/-- Joined fields are read back. -/
theorem split_wrapped (ordinary : Ordinary sep) (plain : Plain sep fields)
    (some_field : fields ≠ []) : ReadsBack sep fields := by
  have no_brace : isBrace sep = false := isBrace_eq_false.mpr ⟨ordinary.1, ordinary.2.1⟩
  have closed := flagAfter_joinedBy plain no_brace
  obtain ⟨r, ps, run, pointers, texts⟩ :=
    foldl_setPointer_joinedBy ordinary plain some_field ⟨false, [], 0, []⟩ rfl rfl
  have split : my_SplitList (joinedBy sep fields) sep =
      ⟨1 + separators sep false (joinedBy sep fields), ps, r.lst⟩ := by
    simp only [my_SplitList, have_bracket_foldl_countField, closed, foldl_countField ordinary.2.1,
      run, pointers, List.nil_append]
  have same : ps.length = 1 + separators sep false (joinedBy sep fields) := by
    have set := length_foldl_setPointer ordinary.2.2 ⟨false, [], 0, []⟩ (joinedBy sep fields)
    have lengths := congrArg List.length pointers
    rw [run] at set
    simp only [List.length_append, List.length_singleton, List.length_nil] at set lengths
    omega
  have fields_length : ps.length = fields.length := by
    simpa using congrArg List.length texts
  rw [ReadsBack, split]
  exact ⟨same.symm.trans fields_length, texts⟩

/-- With a brace as separator at most one field is read back. -/
theorem readsBack_brace_iff (brace : isBrace sep = true) (plain : Plain sep fields) :
    ReadsBack sep fields ↔
      fields.length = 1 ∧ (sep = CLOSE_BRACE → ∀ f ∈ fields, f.2 = false) := by
  have some_byte : sep ≠ 0 := by
    rintro rfl
    exact absurd brace (by decide)
  have one : (my_SplitList (joinedBy sep fields) sep).fields.length = 1 := by
    rw [SplitList.fields, List.length_map, my_SplitList, List.length_append,
      length_foldl_setPointer some_byte, separators_eq_zero (.inr brace)]
    rfl
  constructor
  · rintro ⟨num, texts⟩
    rw [texts, List.length_map] at one
    refine ⟨one, ?_⟩
    rintro rfl f mem
    obtain ⟨f', rfl⟩ := List.length_eq_one_iff.mp one
    rw [List.mem_singleton.mp mem]
    rw [joinedBy_singleton, my_SplitList, foldl_countField_close] at num
    by_contra braces
    rw [Bool.not_eq_false] at braces
    rw [wrapped, if_pos braces, List.count_cons, List.count_append] at num
    simp only [List.count_singleton_self, List.length_singleton] at num
    omega
  · rintro ⟨single, bare⟩
    obtain ⟨f, rfl⟩ := List.length_eq_one_iff.mp single
    have word := plain f List.mem_cons_self
    have closed := flagAfter_wrapped fun c mem => (word c mem).1
    have num : (((wrapped f).foldl (countField sep) ⟨false, 1⟩)).cnt = 1 := by
      rcases brace_cases sep with rfl | rfl | other
      · rw [foldl_countField braces_differ, separators_eq_zero (.inr brace)]
      · rw [foldl_countField_close, wrapped, bare rfl f List.mem_cons_self,
          if_neg Bool.false_ne_true, List.count_eq_zero_of_not_mem]
        intro mem
        exact (word _ mem).2.1 rfl
      · rw [other] at brace
        cases brace
    have text := @stringAt_overwritten f [] _ (fun c mem => (word c mem).2.2) (.inl rfl)
    rw [ReadsBack, SplitList.fields, joinedBy_singleton, my_SplitList,
      have_bracket_foldl_countField, closed,
      foldl_setPointer_wrapped ⟨false, [], 0, []⟩ rfl some_byte word]
    rw [List.append_nil, List.nil_append, List.length_nil] at text
    refine ⟨num, ?_⟩
    rw [List.nil_append, List.nil_append, List.map_singleton, text, List.map_singleton]

/-- As many pointers are set as are counted exactly if both passes see the same separators;
joined fields are read back exactly if there is one, and no second one where the separator is a
brace. -/
theorem my_SplitList_iff (s : Text) (sep : UInt8) (fields : List (Text × Bool)) :
    (0 ∉ s →
      ((my_SplitList s sep).argv.length = (my_SplitList s sep).num ↔ SameSeparators s sep)) ∧
    (sep ≠ 0 → Plain sep fields →
      (ReadsBack sep fields ↔
        fields ≠ [] ∧ (isBrace sep = true →
          fields.length = 1 ∧ (sep = CLOSE_BRACE → ∀ f ∈ fields, f.2 = false)))) := by
  refine ⟨fun string => pointers_eq_num_iff string sep, ?_⟩
  intro some_byte plain
  by_cases brace : isBrace sep = true
  · rw [readsBack_brace_iff brace plain]
    constructor
    · rintro ⟨single, bare⟩
      refine ⟨?_, fun _ => ⟨single, bare⟩⟩
      rintro rfl
      cases single
    · rintro ⟨_, single⟩
      exact single brace
  · have ordinary := isBrace_eq_false.mp (Bool.not_eq_true _ ▸ brace)
    constructor
    · intro reads
      refine ⟨?_, fun brace' => absurd brace' brace⟩
      rintro rfl
      have one : 1 = 0 := by simpa [joinedBy, my_SplitList] using reads.1
      exact absurd one (by decide)
    · rintro ⟨some_field, _⟩
      exact split_wrapped ⟨ordinary.1, ordinary.2, some_byte⟩ plain some_field

theorem two_fields_read_back :
    (my_SplitList (ascii "a;b") 59).argv.length = (my_SplitList (ascii "a;b") 59).num ∧
      ReadsBack 59 [(ascii "int", true), (ascii "x", false)] :=
  have ⟨pointers, reads⟩ :=
    my_SplitList_iff (ascii "a;b") 59 [(ascii "int", true), (ascii "x", false)]
  ⟨(pointers (by decide)).mpr (by unfold SameSeparators; decide),
    (reads (by decide) (by simp [Plain, isBrace, ascii]; decide)).mpr ⟨by decide, by decide⟩⟩

/-- Behind an open brace at the end, the second pass starts with the flag set: two fields are
counted and one pointer is set. -/
theorem open_brace_at_end :
    (my_SplitList (ascii "a;" ++ [OPEN_BRACE]) 59).num = 2 ∧
      (my_SplitList (ascii "a;" ++ [OPEN_BRACE]) 59).argv.length = 1 := by
  decide

end Joined

end SourceNavigator.Db.FieldSplit

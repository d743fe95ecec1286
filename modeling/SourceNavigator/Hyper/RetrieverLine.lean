import Mathlib.Data.List.TakeWhile
import SourceNavigator.Db.ClassTree

/-!
The lines of the retriever (`SplitLine`, `GetScope` and `GetNumber` in `hyper/services.c`).

An element of a list is split at its tabs into ten buffers that stay from line to line. A buffer
grows in front of a tab if it is shorter than the field; the last field is copied as it is. The
scope of a symbol and a line number are copied from a field to a buffer of fixed size.

* `splitLoop_iff` says when the fields and their ends fit.
* `fields_in_bounds_iff` adds the scope and the number.
-/

namespace SourceNavigator.Hyper.RetrieverLine

open Db (atoi)

abbrev TAB : UInt8 := 9

abbrev DOT : UInt8 := 46

abbrev OPEN : UInt8 := 40

abbrev CLOSE : UInt8 := 41

/-! ### The helpers -/

/-- The loop of `GetNumber`, with what is in `tmp`. -/
def numberLoop (tmp : Text) : Text → Text
  | [] => tmp
  | c :: p =>
    if tmp.length < 32 ∧ c ≠ 0 ∧ c ≠ DOT ∧ c ≠ TAB then numberLoop (tmp ++ [c]) p else tmp

/-- `GetNumber`; `none` if the NUL is written behind the 32 bytes of `tmp`. -/
def GetNumber (str : Text) : Option Int :=
  let tmp := numberLoop [] str
  if tmp.length < 32 then some (atoi tmp) else none

/-- The first loop of `GetScope` from `pos + 1`: what it leaves `pos + 1` at. -/
def scopeStart (str : Text) : Nat → Nat
  | 0 => 0
  | pos + 1 => if str[pos]? = some OPEN then pos + 1 else scopeStart str pos

/-- The second loop of `GetScope`, with what is in `tmp`. -/
def scopeLoop (tmp : Text) : Text → Text
  | [] => tmp
  | c :: str =>
    if c ≠ 0 ∧ c ≠ CLOSE ∧ tmp.length < 5 then
      scopeLoop (if c ≠ OPEN then tmp ++ [c] else tmp) str
    else tmp

/-- `GetScope`, with the byte that stands in front of the string; `none` if the NUL is written
behind the five bytes of `tmp`. -/
def GetScope (before : UInt8) (str : Text) : Option Text :=
  if str.length ≤ 1 ∨ str.getLast? ≠ some CLOSE then some (ascii "ud")
  else
    let tmp := scopeLoop [] ((before :: str).drop (scopeStart str (str.length - 1)))
    if tmp.length < 5 then some tmp else none

/-! ### Splitting -/

/-- The size of a buffer after it has grown for `l` bytes. -/
def grown (bufsize : Nat → Nat) (j l i : Nat) : Nat :=
  if i = j ∧ bufsize j < l then l + 256 else bufsize i

theorem le_grown {bufsize : Nat → Nat} (allocated : ∀ i, 256 ≤ bufsize i) (j l i : Nat) :
    256 ≤ grown bufsize j l i := by
  rw [grown]
  split
  · exact Nat.le_add_left _ _
  · exact allocated i

/-- `line_items`, `itembuf_size` and `item_size`, and the size that the buffers have at least. -/
structure Buffers where
  line : Nat → Text
  bufsize : Nat → Nat
  item_size : Nat → Nat
  allocated : ∀ i, 256 ≤ bufsize i

/-- The growth in front of a tab. -/
def Buffers.grow (st : Buffers) (j l : Nat) : Buffers :=
  { st with bufsize := grown st.bufsize j l, allocated := le_grown st.allocated j l }

/-- The copy of a field with its NUL; `none` if that is outside of the buffer. -/
def Buffers.store (st : Buffers) (j : Nat) (field : Text) : Option Buffers :=
  if j < 10 ∧ field.length < st.bufsize j then
    some { st with
      line := fun i => if i = j then field else st.line i
      item_size := fun i => if i = j then field.length else st.item_size i }
  else none

/-- The loop that empties the buffers from `j` on. -/
def Buffers.clear (st : Buffers) (j : Nat) : Buffers :=
  { st with
    line := fun i => if j ≤ i ∧ i < 10 then [] else st.line i
    item_size := fun i => if j ≤ i ∧ i < 10 then 0 else st.item_size i }

/-- The loop over the line: the buffers, `j`, and the field from `qline` on. -/
def splitLoop : Text → Nat → Text → Buffers → Option (Buffers × Nat × Text)
  | [], j, field, st => some (st, j, field)
  | c :: p, j, field, st =>
    if c = 0 then some (st, j, field)
    else if c = TAB then
      match (st.grow j field.length).store j field with
      | none => none
      | some st => if 9 ≤ j + 1 then some (st, j + 1, []) else splitLoop p (j + 1) [] st
    else if 9 ≤ j then some (st, j, field ++ [c])
    else splitLoop p j (field ++ [c]) st

/-- What `SplitLine` does behind the loop: the buffers and the number of the fields. -/
def storeLast (loop : Buffers × Nat × Text) : Option (Buffers × Nat) :=
  (loop.1.store loop.2.1 loop.2.2).map fun st => (st.clear (loop.2.1 + 1), loop.2.1 + 1)

/-- `SplitLine` of the `size` bytes at `pline`; `none` if it writes outside of a buffer. -/
def SplitLine (pline : Text) (st : Buffers) : Option (Buffers × Nat) :=
  (splitLoop pline 0 [] st).bind storeLast

/-- The parts in front of the first `n` tabs, and the rest. -/
def fields : Nat → Text → List Text
  | 0, s => [s]
  | n + 1, s =>
    match cut TAB s with
    | none => [s]
    | some (field, rest) => field :: fields n rest

/-- A field in front of a tab is not as long as its buffer, and the last one is shorter than its
buffer; nothing is left for the tenth buffer. -/
def Fits (bufsize : Nat → Nat) : Nat → List Text → Prop
  | _, [] => True
  | j, [field] => if j < 9 then field.length < bufsize j else field = []
  | j, field :: fs => field.length ≠ bufsize j ∧ Fits bufsize (j + 1) fs

instance (bufsize : Nat → Nat) : (j : Nat) → (fs : List Text) → Decidable (Fits bufsize j fs)
  | _, [] => inferInstanceAs (Decidable True)
  | j, [field] => inferInstanceAs (Decidable (if j < 9 then field.length < bufsize j else field = []))
  | j, field :: f :: fs =>
    haveI : Decidable (Fits bufsize (j + 1) (f :: fs)) := instDecidableFits bufsize (j + 1) (f :: fs)
    inferInstanceAs (Decidable (field.length ≠ bufsize j ∧ Fits bufsize (j + 1) (f :: fs)))

/-- The buffers as they are allocated. -/
def initial : Buffers where
  line := fun _ => []
  bufsize := fun _ => 256
  item_size := fun _ => 0
  allocated := fun _ => Nat.le_refl 256

/-- The buffers from `j` on have the fields, those in front of it are as before. -/
structure Stored (j : Nat) (fs : List Text) (st st' : Buffers) : Prop where
  before : ∀ i < j, st'.line i = st.line i ∧ st'.item_size i = st.item_size i
  behind : ∀ i, j ≤ i → i < 10 →
    st'.line i = fs.getD (i - j) [] ∧ st'.item_size i = (st'.line i).length

section Split

variable {st st' : Buffers} {j : Nat} {field s : Text}

theorem store_eq_some (h : st.store j field = some st') :
    j < 10 ∧ field.length < st.bufsize j ∧ st'.bufsize = st.bufsize ∧
      (∀ i, st'.line i = if i = j then field else st.line i) ∧
      ∀ i, st'.item_size i = if i = j then field.length else st.item_size i := by
  rw [Buffers.store] at h
  split at h
  case isTrue fits =>
    obtain rfl := Option.some.inj h
    exact ⟨fits.1, fits.2, rfl, fun _ => rfl, fun _ => rfl⟩
  case isFalse => cases h

theorem store_of_lt (index : j < 10) (fits : field.length < st.bufsize j) :
    ∃ st', st.store j field = some st' := by
  rw [Buffers.store, if_pos ⟨index, fits⟩]
  exact ⟨_, rfl⟩

/-- The loop over a part without tabs. -/
theorem splitLoop_append (st : Buffers) (index : j < 9) (part s : Text) (tabs : TAB ∉ part) (text : 0 ∉ part)
    (field : Text) :
    splitLoop (part ++ s) j field st = splitLoop s j (field ++ part) st := by
  induction part generalizing field with
  | nil => rw [List.nil_append, List.append_nil]
  | cons c part ih =>
    rw [List.mem_cons, not_or] at tabs text
    rw [List.cons_append, splitLoop, if_neg (Ne.symm text.1), if_neg (Ne.symm tabs.1),
      if_neg (by omega), ih tabs.2 text.2, List.append_assoc, List.singleton_append]

theorem splitLoop_part (index : j < 9) (part : Text) (tabs : TAB ∉ part) (text : 0 ∉ part) :
    splitLoop part j [] st = some (st, j, part) := by
  have whole := splitLoop_append st index part [] tabs text []
  rwa [List.append_nil, List.nil_append, splitLoop] at whole

theorem fields_ne_nil (n : Nat) (s : Text) : fields n s ≠ [] := by
  cases n with
  | zero => exact List.cons_ne_nil _ _
  | succ n =>
    rw [fields]
    split <;> exact List.cons_ne_nil _ _

theorem fits_cons {bufsize : Nat → Nat} {fs : List Text} (more : fs ≠ []) :
    Fits bufsize j (field :: fs) ↔ field.length ≠ bufsize j ∧ Fits bufsize (j + 1) fs := by
  cases fs with
  | nil => exact absurd rfl more
  | cons f fs => exact Iff.rfl

/-- Only the sizes from `j` on count. -/
theorem fits_congr {bufsize bufsize' : Nat → Nat} {fs : List Text}
    (same : ∀ i, j ≤ i → bufsize i = bufsize' i) : Fits bufsize j fs ↔ Fits bufsize' j fs := by
  induction fs generalizing j with
  | nil => exact Iff.rfl
  | cons f fs ih =>
    by_cases more : fs = []
    · rw [more, Fits, Fits, same j (Nat.le_refl j)]
    · rw [fits_cons more, fits_cons more, same j (Nat.le_refl j),
        ih fun i le => same i (Nat.le_of_succ_le le)]

/-- The last field is stored if it is shorter than its buffer. -/
theorem storeLast_iff (st : Buffers) (field : Text) (index : j < 10) :
    (∃ st' fnd, storeLast (st, j, field) = some (st', fnd) ∧ Stored j [field] st st') ↔
      field.length < st.bufsize j := by
  rw [storeLast]
  constructor
  · rintro ⟨st', fnd, stored, _⟩
    obtain ⟨st₁, copy, _⟩ := Option.map_eq_some_iff.mp stored
    exact (store_eq_some copy).2.1
  · intro fits
    obtain ⟨st₁, copy⟩ := store_of_lt index fits
    obtain ⟨_, _, _, line, size⟩ := store_eq_some copy
    refine ⟨_, _, Option.map_eq_some_iff.mpr ⟨st₁, copy, rfl⟩, ?_, ?_⟩
    · intro i lt
      have outside : ¬ (j + 1 ≤ i ∧ i < 10) := by omega
      have other : i ≠ j := by omega
      simp only [Buffers.clear, outside, line, size, other, if_false, and_self]
    · intro i le bound
      by_cases here : i = j
      · subst here
        have outside : ¬ (i + 1 ≤ i ∧ i < 10) := by omega
        simp only [Buffers.clear, outside, line, size, if_false, if_true, Nat.sub_self]
        exact ⟨rfl, trivial⟩
      · have emptied : j + 1 ≤ i ∧ i < 10 := by omega
        have beyond : [field].length ≤ i - j := by
          rw [List.length_singleton]
          omega
        have absent : [field].getD (i - j) [] = [] := by
          rw [List.getD_eq_getElem?_getD, List.getElem?_eq_none beyond]
          rfl
        simp only [Buffers.clear, emptied, and_self, if_true]
        exact ⟨absent.symm, rfl⟩

/-- In front of a tab the copy fits unless the field is as long as the buffer. -/
theorem length_lt_grow : field.length < (st.grow j field.length).bufsize j ↔
    field.length ≠ st.bufsize j := by
  have size : (st.grow j field.length).bufsize j =
      if st.bufsize j < field.length then field.length + 256 else st.bufsize j := by
    simp [Buffers.grow, grown]
  rw [size]
  split <;> omega

/-- The fields behind the first are stored in the buffers that its copy leaves. -/
theorem stored_cons {st₁ : Buffers} {fs : List Text} (index : j < 10)
    (copy : (st.grow j field.length).store j field = some st₁) :
    Stored j (field :: fs) st st' ↔ Stored (j + 1) fs st₁ st' := by
  obtain ⟨_, _, _, line, size⟩ := store_eq_some copy
  have line_eq : ∀ i, st₁.line i = if i = j then field else st.line i := line
  have size_eq : ∀ i, st₁.item_size i = if i = j then field.length else st.item_size i := size
  have later : ∀ i, j + 1 ≤ i → (field :: fs).getD (i - j) [] = fs.getD (i - (j + 1)) [] := by
    intro i le
    have shift : i - j = i - (j + 1) + 1 := by omega
    rw [shift, List.getD_cons_succ]
  constructor
  · intro stored
    refine ⟨fun i lt => ?_, fun i le bound => ?_⟩
    · rw [line_eq, size_eq]
      by_cases here : i = j
      · obtain ⟨first, length⟩ := stored.behind i (by omega) (by omega)
        rw [here, Nat.sub_self, List.getD_cons_zero] at first
        rw [if_pos here, if_pos here, length, here, first]
        exact ⟨rfl, rfl⟩
      · rw [if_neg here, if_neg here]
        exact stored.before i (by omega)
    · rw [← later i le]
      exact stored.behind i (by omega) bound
  · intro stored
    refine ⟨fun i lt => ?_, fun i le bound => ?_⟩
    · have old := stored.before i (by omega)
      rwa [line_eq, size_eq, if_neg (by omega), if_neg (by omega)] at old
    · by_cases here : i = j
      · have old := stored.before i (by omega)
        rw [line_eq, size_eq, if_pos here, if_pos here] at old
        rw [here] at old ⊢
        rw [Nat.sub_self, List.getD_cons_zero, old.2, old.1]
        exact ⟨rfl, rfl⟩
      · rw [later i (by omega)]
        exact stored.behind i (by omega) bound

/-- From the field `j` on: the fields and their ends fit, or a byte is written outside of a buffer
or the rest is lost. -/
theorem splitLoop_iff (st : Buffers) (n : Nat) (count : j + n = 9) (text : 0 ∉ s) :
    (∃ st' fnd, ((if 9 ≤ j then some (st, j, []) else splitLoop s j [] st).bind storeLast) =
        some (st', fnd) ∧ Stored j (fields n s) st st') ↔ Fits st.bufsize j (fields n s) := by
  induction n generalizing j s st with
  | zero =>
    obtain rfl : j = 9 := by omega
    obtain ⟨st₁, fnd₁, last, empty⟩ :=
      (storeLast_iff st [] (by omega : 9 < 10)).mpr
        (Nat.lt_of_lt_of_le (by decide) (st.allocated 9))
    rw [if_pos (Nat.le_refl 9), Option.bind_some, last]
    constructor
    · rintro ⟨st', fnd, same, stored⟩
      obtain ⟨rfl, rfl⟩ := Prod.mk.inj (Option.some.inj same)
      exact (stored.behind 9 (Nat.le_refl 9) (by decide)).1.symm.trans
        (empty.behind 9 (Nat.le_refl 9) (by decide)).1
    · intro nothing
      have rest : s = [] := nothing
      rw [rest]
      exact ⟨st₁, fnd₁, rfl, empty⟩
  | succ n ih =>
    have index : ¬ 9 ≤ j := by omega
    rw [if_neg index, fields]
    cases found : cut TAB s with
    | none =>
      rw [splitLoop_part (Nat.lt_of_not_le index) s (cut_eq_none found) text, Option.bind_some]
      simp only
      rw [Fits, if_pos (Nat.lt_of_not_le index)]
      exact storeLast_iff st s (by omega)
    | some parts =>
      obtain ⟨field, rest⟩ := parts
      obtain ⟨tabs, rfl⟩ := cut_eq_some found
      have nul : 0 ∉ field := fun mem => text (List.mem_append_left _ mem)
      have nul_rest : 0 ∉ rest := fun mem =>
        text (List.mem_append_right _ (List.mem_cons_of_mem _ mem))
      rw [splitLoop_append st (Nat.lt_of_not_le index) field _ tabs nul, List.nil_append, splitLoop,
        if_neg (by decide), if_pos rfl]
      simp only
      rw [fits_cons (fields_ne_nil n rest), ← length_lt_grow]
      cases copy : (st.grow j field.length).store j field with
      | none =>
        have missing : ¬ field.length < (st.grow j field.length).bufsize j := by
          intro fits
          obtain ⟨st₁, stored⟩ := store_of_lt (by omega) fits
          rw [copy] at stored
          cases stored
        simp only [Option.bind_none, missing, false_and]
        constructor
        · rintro ⟨_, _, same, _⟩
          cases same
        · exact False.elim
      | some st₁ =>
        obtain ⟨_, fits, sizes, _⟩ := store_eq_some copy
        have later : Fits st.bufsize (j + 1) (fields n rest) ↔
            Fits st₁.bufsize (j + 1) (fields n rest) := by
          refine fits_congr fun i le => ?_
          have other : i ≠ j := by omega
          simp [sizes, Buffers.grow, grown, other]
        simp only [fits, true_and]
        rw [later, ← ih st₁ (by omega) nul_rest]
        simp only [stored_cons (by omega) copy]

end Split

/-! ### What the helpers copy -/

/-- The text in front of a dot or a tab. -/
def numberText (str : Text) : Text := str.takeWhile fun c => c != 0 && c != DOT && c != TAB

/-- The text between the last opening parenthesis and the closing one. Without an opening one it
starts with the byte in front of the string. -/
def scopeText (before : UInt8) (str : Text) : Text :=
  if str.length ≤ 1 ∨ str.getLast? ≠ some CLOSE then []
  else
    let front := str.dropLast
    let inside := (front.reverse.takeWhile (· != OPEN)).reverse
    ((if front.contains OPEN then inside else before :: front).takeWhile
      fun c => c != 0 && c != CLOSE).filter (· != OPEN)

section Helpers

variable {before : UInt8} {str : Text}

theorem isSome_take {α : Type} {n : Nat} (t : Text) (a : α) :
    (if (t.take n).length < n then some a else none).isSome ↔ t.length < n := by
  rw [List.length_take]
  split
  · rw [Option.isSome_some, iff_true_left rfl]
    omega
  · rw [Option.isSome_none, iff_false_left Bool.false_ne_true]
    omega

theorem numberLoop_eq (tmp str : Text) (room : tmp.length ≤ 32) :
    numberLoop tmp str = tmp ++ (numberText str).take (32 - tmp.length) := by
  induction str generalizing tmp with
  | nil => simp [numberLoop, numberText]
  | cons c p ih =>
    rw [numberLoop, numberText, List.takeWhile_cons]
    by_cases copied : c ≠ 0 ∧ c ≠ DOT ∧ c ≠ TAB
    · obtain ⟨nul, dot, tab⟩ := copied
      by_cases full : tmp.length < 32
      · have space : 32 - tmp.length = 32 - (tmp.length + 1) + 1 := by omega
        have longer : (tmp ++ [c]).length ≤ 32 := by
          rw [List.length_append, List.length_singleton]
          exact full
        have next := ih (tmp ++ [c]) longer
        rw [if_pos ⟨full, nul, dot, tab⟩, next, numberText]
        simp [nul, dot, tab, space]
      · have space : 32 - tmp.length = 0 := by omega
        rw [if_neg fun h => full h.1, space, List.take_zero, List.append_nil]
    · rw [if_neg fun h => copied h.2, if_neg, List.take_nil, List.append_nil]
      simpa [and_assoc] using copied

theorem getNumber_isSome : (GetNumber str).isSome ↔ (numberText str).length < 32 := by
  have copy := numberLoop_eq [] str (Nat.zero_le _)
  rw [List.nil_append, List.length_nil, Nat.sub_zero] at copy
  rw [GetNumber, copy]
  exact isSome_take _ _

theorem scopeLoop_eq (tmp str : Text) (room : tmp.length ≤ 5) :
    scopeLoop tmp str = tmp ++
      ((str.takeWhile fun c => c != 0 && c != CLOSE).filter (· != OPEN)).take (5 - tmp.length) := by
  induction str generalizing tmp with
  | nil => simp [scopeLoop]
  | cons c p ih =>
    rw [scopeLoop, List.takeWhile_cons]
    by_cases copied : c ≠ 0 ∧ c ≠ CLOSE
    · obtain ⟨nul, close⟩ := copied
      by_cases full : tmp.length < 5
      · rw [if_pos ⟨nul, close, full⟩]
        by_cases opening : c = OPEN
        · have kept : (c != 0 && c != CLOSE) = true := by simp [nul, close]
          have dropped : ¬ (c != OPEN) = true := by simp [opening]
          rw [if_neg fun h => h opening, ih tmp room, if_pos kept, List.filter_cons_of_neg (p := (· != OPEN)) dropped]
        · have space : 5 - tmp.length = 5 - (tmp.length + 1) + 1 := by omega
          have longer : (tmp ++ [c]).length ≤ 5 := by
            rw [List.length_append, List.length_singleton]
            exact full
          have next := ih (tmp ++ [c]) longer
          rw [if_pos opening, next]
          simp [nul, close, opening, space]
      · have space : 5 - tmp.length = 0 := by omega
        rw [if_neg fun h => full h.2.2, space, List.take_zero, List.append_nil]
    · rw [if_neg fun h => copied ⟨h.1, h.2.1⟩, if_neg, List.filter_nil, List.take_nil,
        List.append_nil]
      simpa using copied

/-- Where the first loop of `GetScope` stops. -/
theorem drop_scopeStart {k : Nat} (le : k ≤ str.length) :
    (before :: str).drop (scopeStart str k) =
      if (str.take k).contains OPEN then
        OPEN :: ((str.take k).reverse.takeWhile (· != OPEN)).reverse ++ str.drop k
      else before :: str := by
  induction k with
  | zero => simp [scopeStart]
  | succ k ih =>
    have inside : k < str.length := le
    have byte : str[k]? = some str[k] := List.getElem?_eq_getElem inside
    have tail : str.drop k = str[k] :: str.drop (k + 1) := List.drop_eq_getElem_cons inside
    rw [scopeStart, byte, List.take_add_one, byte, Option.toList_some, List.reverse_append,
      List.reverse_singleton, List.singleton_append, List.contains_append]
    by_cases opening : str[k] = OPEN
    · rw [if_pos (congrArg some opening), List.drop_succ_cons, tail, opening]
      simp
    · have other : ¬ some str[k] = some OPEN := fun h => opening (Option.some.inj h)
      have absent : [str[k]].contains OPEN = false := by simpa using Ne.symm opening
      rw [if_neg other, ih (Nat.le_of_lt inside), absent, Bool.or_false, List.takeWhile_cons_of_pos,
        List.reverse_cons, tail]
      · simp
      · simpa using opening

theorem getScope_isSome : (GetScope before str).isSome ↔ (scopeText before str).length < 5 := by
  rw [GetScope, scopeText]
  split
  case isTrue => simp
  case isFalse long =>
    rw [not_or, not_not] at long
    have whole : str.dropLast ++ [CLOSE] = str := List.dropLast_append_getLast? CLOSE long.2
    have front : str.take (str.length - 1) = str.dropLast := List.dropLast_eq_take.symm
    have last : str.drop (str.length - 1) = [CLOSE] := by
      have split := List.take_append_drop (str.length - 1) str
      rw [front] at split
      exact List.append_cancel_left (split.trans whole.symm)
    have stop : ∀ t : Text, (t ++ [CLOSE]).takeWhile (fun c => c != 0 && c != CLOSE) =
        t.takeWhile fun c => c != 0 && c != CLOSE := by
      intro t
      induction t with
      | nil => rfl
      | cons c t ih => rw [List.cons_append, List.takeWhile_cons, List.takeWhile_cons, ih]
    have copy := scopeLoop_eq [] ((before :: str).drop (scopeStart str (str.length - 1)))
      (Nat.zero_le _)
    rw [List.nil_append, List.length_nil, Nat.sub_zero, drop_scopeStart (Nat.sub_le _ _), front,
      last] at copy
    have text : ((if str.dropLast.contains OPEN then
          OPEN :: (str.dropLast.reverse.takeWhile (· != OPEN)).reverse ++ [CLOSE]
        else before :: str).takeWhile fun c => c != 0 && c != CLOSE).filter (· != OPEN) =
          ((if str.dropLast.contains OPEN then
            (str.dropLast.reverse.takeWhile (· != OPEN)).reverse
          else before :: str.dropLast).takeWhile fun c => c != 0 && c != CLOSE).filter
            (· != OPEN) := by
      split
      · rw [List.cons_append, List.takeWhile_cons_of_pos rfl, List.filter_cons_of_neg (by decide),
          stop]
      · have together : before :: str = (before :: str.dropLast) ++ [CLOSE] := by
          rw [List.cons_append, whole]
        rw [together, stop]
    rw [text] at copy
    rw [drop_scopeStart (Nat.sub_le _ _), front, last, copy]
    exact isSome_take _ _

end Helpers

/-- A line is split into its first nine fields and the rest, and the scope of one field and the
number in another fit, exactly if the fields do not end at the end of their buffers, the last one is
shorter than its buffer, nothing stands behind a ninth tab, the scope has less than five bytes and
the number less than 32. -/
theorem fields_in_bounds_iff (pline : Text) (text : 0 ∉ pline) (st : Buffers) (before : UInt8)
    (scope number : Nat) (scope_index : scope < 10) (number_index : number < 10) :
    (∃ st' fnd, SplitLine pline st = some (st', fnd) ∧
      (∀ j < 10, st'.line j = (fields 9 pline).getD j [] ∧
        st'.item_size j = (st'.line j).length) ∧
      (GetScope before (st'.line scope)).isSome ∧ (GetNumber (st'.line number)).isSome) ↔
      Fits st.bufsize 0 (fields 9 pline) ∧
        (scopeText before ((fields 9 pline).getD scope [])).length < 5 ∧
        (numberText ((fields 9 pline).getD number [])).length < 32 := by
  have split := splitLoop_iff st 9 (Nat.zero_add 9) text
  rw [if_neg (by decide)] at split
  constructor
  · rintro ⟨st', fnd, run, exact_fields, scope_fits, number_fits⟩
    have fits := split.mp ⟨st', fnd, run, fun i lt => absurd lt (Nat.not_lt_zero i),
      fun i _ bound => exact_fields i bound⟩
    rw [(exact_fields scope scope_index).1] at scope_fits
    rw [(exact_fields number number_index).1] at number_fits
    exact ⟨fits, getScope_isSome.mp scope_fits, getNumber_isSome.mp number_fits⟩
  · rintro ⟨fits, scope_fits, number_fits⟩
    obtain ⟨st', fnd, run, stored⟩ := split.mpr fits
    have exact_fields : ∀ j < 10, st'.line j = (fields 9 pline).getD j [] ∧
        st'.item_size j = (st'.line j).length :=
      fun j bound => stored.behind j (Nat.zero_le j) bound
    refine ⟨st', fnd, run, exact_fields, ?_, ?_⟩
    · rw [(exact_fields scope scope_index).1]
      exact getScope_isSome.mpr scope_fits
    · rw [(exact_fields number number_index).1]
      exact getNumber_isSome.mpr number_fits

/-- A line of a member function, with the scope of the name and the number of the line. -/
theorem member_in_bounds :
    ∃ st' fnd, SplitLine (ascii "f(md)\tC\tint\t()\tc.C\t1.2\t3.4") initial = some (st', fnd) ∧
      (∀ j < 10, st'.line j = (fields 9 (ascii "f(md)\tC\tint\t()\tc.C\t1.2\t3.4")).getD j [] ∧
        st'.item_size j = (st'.line j).length) ∧
      (GetScope 0 (st'.line 0)).isSome ∧ (GetNumber (st'.line 5)).isSome :=
  (fields_in_bounds_iff (ascii "f(md)\tC\tint\t()\tc.C\t1.2\t3.4") (by decide) initial 0 0 5
    (by decide) (by decide)).mpr (by decide)

/-- The NUL behind a last field of 256 bytes is outside of its buffer. -/
theorem last_field_overruns :
    ¬ ∀ (pline : Text) (st : Buffers) (before : UInt8), 0 ∉ pline →
      ∃ st' fnd, SplitLine pline st = some (st', fnd) ∧
        (∀ j < 10, st'.line j = (fields 9 pline).getD j [] ∧
          st'.item_size j = (st'.line j).length) ∧
        (GetScope before (st'.line 0)).isSome ∧ (GetNumber (st'.line 5)).isSome := by
  intro h
  have letters : ∀ c : UInt8, c ≠ 97 → c ∉ List.replicate 256 (97 : UInt8) :=
    fun c other mem => other (List.eq_of_mem_replicate mem)
  obtain ⟨st', fnd, run, _⟩ := h (List.replicate 256 97) initial 0 (letters 0 (by decide))
  rw [SplitLine, splitLoop_part (by decide) _ (letters TAB (by decide)) (letters 0 (by decide)),
    Option.bind_some, storeLast] at run
  obtain ⟨st₁, copy, _⟩ := Option.map_eq_some_iff.mp run
  have fits := (store_eq_some copy).2.1
  simp only [List.length_replicate] at fits
  exact absurd fits (Nat.lt_irrefl 256)

end SourceNavigator.Hyper.RetrieverLine

import Mathlib.Algebra.Order.Ring.Int
import Mathlib.Data.List.TakeWhile
import SourceNavigator.Text

/-!
The position accounting of the parser toolbox (`parsers/toolbox/snptools.c`).

A scanner hands each token to `sn_count_chars`, which moves the line and the
column over its characters. The function gets an address and a length, so it is
modelled on a memory, with the addresses it reads.

* `position_sn_count_chars` says where the position is after a call: the loop
  walks back from the first character, so it counts the text that ends there.
* `endOf_append` is the law of the position itself, for every cut of a text.
* `count_tokens_iff` says when a sequence of consecutive tokens is counted right.
-/

namespace SourceNavigator.Parsers.CountChars

/-- The counters `line` and `column`. -/
structure Position where
  line : Int
  column : Int
  deriving DecidableEq, Repr

def sn_advance_line (pos : Position) : Position := { pos with line := pos.line + 1 }

def sn_set_column (c : Int) (pos : Position) : Position := { pos with column := c }

def sn_reset_column (pos : Position) : Position := sn_set_column 0 pos

def sn_advance_column (num : Int) (pos : Position) : Position :=
  { pos with column := pos.column + num }

/-- The memory a pointer reads from. -/
abbrev Memory := Int → UInt8

/-- What the loop does with the character `c`. -/
def countChar (pos : Position) (c : UInt8) : Position :=
  if c = NEWLINE then sn_reset_column (sn_advance_line pos) else sn_advance_column 1 pos

/-- The loop for `i` more characters, with the addresses that are read. -/
def countLoop (memory : Memory) : Int → Nat → Position → Position × List Int
  | _, 0, pos => (pos, [])
  | p, i + 1, pos =>
    -- `p--`
    let rest := countLoop memory (p - 1) i (countChar pos (memory p))
    (rest.1, p :: rest.2)

def sn_count_chars (memory : Memory) (buf : Int) (length : Nat) (pos : Position) :
    Position × List Int :=
  countLoop memory buf length pos

/-- The calls for consecutive tokens, with what each of them reads. -/
def countTokens (memory : Memory) : Int → List Nat → Position → Position × List (List Int)
  | _, [], pos => (pos, [])
  | buf, length :: lengths, pos =>
    let call := sn_count_chars memory buf length pos
    let rest := countTokens memory (buf + length) lengths call.1
    (rest.1, call.2 :: rest.2)

/-! ### The position of the end of a text -/

/-- The characters from an address on. -/
def textAt (memory : Memory) : Int → Nat → Text
  | _, 0 => []
  | buf, length + 1 => memory buf :: textAt memory (buf + 1) length

/-- The characters from an address back. -/
def textBack (memory : Memory) : Int → Nat → Text
  | _, 0 => []
  | buf, length + 1 => memory buf :: textBack memory (buf - 1) length

/-- The characters after the last newline. -/
def lastLine (s : Text) : Text := (s.reverse.takeWhile fun c => c ≠ NEWLINE).reverse

/-- The position behind a text: one line on for each newline, and in the column that the
characters after the last newline reach. -/
def endOf (pos : Position) (s : Text) : Position :=
  { line := pos.line + s.count NEWLINE
    column :=
      if NEWLINE ∈ s then (lastLine s).length else pos.column + s.length }

theorem lastLine_append_of_mem {s t : Text} (one_in : NEWLINE ∈ t) :
    lastLine (s ++ t) = lastLine t := by
  have stops : (t.reverse.takeWhile fun c => decide (c ≠ NEWLINE)).length ≠ t.reverse.length := by
    intro whole
    have same := (List.takeWhile_prefix _).eq_of_length whole
    have off := List.takeWhile_eq_self_iff.mp same NEWLINE (List.mem_reverse.mpr one_in)
    exact of_decide_eq_true off rfl
  unfold lastLine
  rw [List.reverse_append, List.takeWhile_append, if_neg stops]

theorem lastLine_append_of_notMem {s t : Text} (none_in : NEWLINE ∉ t) :
    lastLine (s ++ t) = lastLine s ++ t := by
  have all : ∀ c ∈ t.reverse, decide (c ≠ NEWLINE) = true := by
    intro c mem
    apply decide_eq_true
    rintro rfl
    exact none_in (List.mem_reverse.mp mem)
  unfold lastLine
  rw [List.reverse_append, List.takeWhile_append_of_pos all, List.reverse_append,
    List.reverse_reverse]

/-- The end of a text is the end of its second part, seen from the end of the first. -/
theorem endOf_append (pos : Position) (s t : Text) :
    endOf (endOf pos s) t = endOf pos (s ++ t) := by
  unfold endOf
  dsimp only
  rw [List.count_append, Int.natCast_add, Int.add_assoc]
  congr 1
  by_cases behind : NEWLINE ∈ t
  · rw [if_pos behind, if_pos (List.mem_append_right s behind), lastLine_append_of_mem behind]
  · rw [if_neg behind]
    by_cases front : NEWLINE ∈ s
    · rw [if_pos front, if_pos (List.mem_append_left t front), lastLine_append_of_notMem behind,
        List.length_append, Int.natCast_add]
    · have none_in : NEWLINE ∉ s ++ t := by
        intro mem
        exact (List.mem_append.mp mem).elim front behind
      rw [if_neg front, if_neg none_in, List.length_append, Int.natCast_add, Int.add_assoc]

theorem endOf_nil (pos : Position) : endOf pos [] = pos := by
  simp [endOf]

theorem endOf_singleton (pos : Position) (c : UInt8) : endOf pos [c] = countChar pos c := by
  unfold endOf countChar
  by_cases newline : c = NEWLINE
  · rw [if_pos newline, newline]
    rfl
  · have other : NEWLINE ∉ [c] := fun mem => newline (List.mem_singleton.mp mem).symm
    rw [if_neg newline, if_neg other, List.count_eq_zero_of_not_mem other]
    simp [sn_advance_column]

/-! ### The loop -/

/-- The loop counts the text that ends at its start. -/
theorem countLoop_eq (memory : Memory) (p : Int) (i : Nat) (pos : Position) :
    (countLoop memory p i pos).1 = endOf pos (textBack memory p i) := by
  induction i generalizing p pos with
  | zero => exact (endOf_nil pos).symm
  | succ i ih =>
    calc (countLoop memory p (i + 1) pos).1
        = endOf (countChar pos (memory p)) (textBack memory (p - 1) i) :=
          ih (p - 1) (countChar pos (memory p))
      _ = endOf (endOf pos [memory p]) (textBack memory (p - 1) i) := by rw [endOf_singleton]
      _ = endOf pos (textBack memory p (i + 1)) := endOf_append pos [memory p] _

theorem position_sn_count_chars (memory : Memory) (buf : Int) (length : Nat) (pos : Position) :
    (sn_count_chars memory buf length pos).1 = endOf pos (textBack memory buf length) :=
  countLoop_eq memory buf length pos

/-- Every read after the first is in front of the token. -/
theorem reads_inside_iff {memory : Memory} {buf : Int} {length : Nat} {pos : Position} :
    (∀ a ∈ (sn_count_chars memory buf length pos).2, buf ≤ a ∧ a < buf + length) ↔
      length ≤ 1 := by
  constructor
  · intro inside
    by_contra long
    obtain ⟨i, rfl⟩ : ∃ i, length = i + 2 := ⟨length - 2, by omega⟩
    have second : buf - 1 ∈ (sn_count_chars memory buf (i + 2) pos).2 := by
      simp [sn_count_chars, countLoop]
    have := (inside (buf - 1) second).1
    omega
  · intro short a mem
    rcases Nat.le_one_iff_eq_zero_or_eq_one.mp short with rfl | rfl
    · exact absurd mem List.not_mem_nil
    · have only : a = buf := by simpa [sn_count_chars, countLoop] using mem
      omega

/-- A token with one character at most reads the same both ways. -/
theorem textBack_of_short {memory : Memory} {buf : Int} {length : Nat} (short : length ≤ 1) :
    textBack memory buf length = textAt memory buf length := by
  rcases Nat.le_one_iff_eq_zero_or_eq_one.mp short with rfl | rfl
  · rfl
  · rfl

theorem textAt_add (memory : Memory) (buf : Int) (m n : Nat) :
    textAt memory buf (m + n) = textAt memory buf m ++ textAt memory (buf + m) n := by
  induction m generalizing buf with
  | zero => simp [textAt]
  | succ m ih =>
    have next : buf + ((m + 1 : Nat) : Int) = buf + 1 + m := by omega
    rw [Nat.succ_add, textAt, ih, textAt, next, List.cons_append]

/-! ### Consecutive tokens -/

/-- Every call for the tokens reads inside its token. -/
def ReadsInside : Int → List Nat → List (List Int) → Prop
  | _, [], reads => reads = []
  | buf, length :: lengths, reads =>
    (∀ a ∈ reads.headD [], buf ≤ a ∧ a < buf + length) ∧
      ReadsInside (buf + length) lengths reads.tail

/-- Every call leaves the position at the end of its token. -/
def PositionsRight (memory : Memory) : Int → List Nat → Position → Prop
  | _, [], _ => True
  | buf, length :: lengths, pos =>
    (sn_count_chars memory buf length pos).1 = endOf pos (textAt memory buf length) ∧
      PositionsRight memory (buf + length) lengths (endOf pos (textAt memory buf length))

/-- The tokens are counted right: after each of them the position is its end, after all of them it
is the end of their concatenation, and only their own characters are read. -/
def CountedRight (memory : Memory) (buf : Int) (lengths : List Nat) (pos : Position) : Prop :=
  PositionsRight memory buf lengths pos ∧
    (countTokens memory buf lengths pos).1 = endOf pos (textAt memory buf lengths.sum) ∧
      ReadsInside buf lengths (countTokens memory buf lengths pos).2

theorem readsInside_iff (memory : Memory) (buf : Int) (lengths : List Nat) (pos : Position) :
    ReadsInside buf lengths (countTokens memory buf lengths pos).2 ↔ ∀ l ∈ lengths, l ≤ 1 := by
  induction lengths generalizing buf pos with
  | nil => simp [ReadsInside, countTokens]
  | cons length lengths ih =>
    rw [countTokens, ReadsInside, List.headD_cons, List.tail_cons, reads_inside_iff, ih,
      List.forall_mem_cons]

theorem position_of_short {memory : Memory} {buf : Int} {length : Nat} (short : length ≤ 1)
    (pos : Position) :
    (sn_count_chars memory buf length pos).1 = endOf pos (textAt memory buf length) := by
  rw [position_sn_count_chars, textBack_of_short short]

theorem positionsRight_of_short {memory : Memory} {buf : Int} {lengths : List Nat}
    (short : ∀ l ∈ lengths, l ≤ 1) (pos : Position) :
    PositionsRight memory buf lengths pos := by
  induction lengths generalizing buf pos with
  | nil => trivial
  | cons length lengths ih =>
    obtain ⟨first, rest⟩ := List.forall_mem_cons.mp short
    exact ⟨position_of_short first pos, ih rest _⟩

/-- After tokens that are each counted right the position is the end of their concatenation. -/
theorem countTokens_of_positionsRight {memory : Memory} {buf : Int} {lengths : List Nat}
    {pos : Position} (right : PositionsRight memory buf lengths pos) :
    (countTokens memory buf lengths pos).1 = endOf pos (textAt memory buf lengths.sum) := by
  induction lengths generalizing buf pos with
  | nil => exact (endOf_nil pos).symm
  | cons length lengths ih =>
    obtain ⟨first, rest⟩ := right
    rw [countTokens, List.sum_cons, textAt_add, ← endOf_append]
    dsimp only
    rw [first]
    exact ih rest

/-- Consecutive tokens are counted right if and only if none of them has two characters. -/
theorem count_tokens_iff (memory : Memory) (buf : Int) (lengths : List Nat) (pos : Position) :
    CountedRight memory buf lengths pos ↔ ∀ l ∈ lengths, l ≤ 1 := by
  constructor
  · rintro ⟨_, _, inside⟩
    exact (readsInside_iff memory buf lengths pos).mp inside
  · intro short
    have right : PositionsRight memory buf lengths pos := positionsRight_of_short short pos
    exact ⟨right, countTokens_of_positionsRight right,
      (readsInside_iff memory buf lengths pos).mpr short⟩

/-- The token `"a\n"` behind a newline: the loop reads the newline in front of the token, and
leaves the column of the text `"a\n"` read backwards. -/
theorem newline_at_the_end :
    let memory : Memory := fun a => if a = 0 then 97 else if a = 1 then NEWLINE else 98
    ¬ CountedRight memory 0 [2] ⟨1, 0⟩ ∧
      (sn_count_chars memory 0 2 ⟨1, 0⟩).1 = ⟨1, 2⟩ ∧
        endOf ⟨1, 0⟩ (textAt memory 0 2) = ⟨2, 0⟩ ∧
          (sn_count_chars memory 0 2 ⟨1, 0⟩).2 = [0, -1] := by
  intro memory
  have after : (sn_count_chars memory 0 2 ⟨1, 0⟩).1 = ⟨1, 2⟩ := by decide
  have should : endOf ⟨1, 0⟩ (textAt memory 0 2) = ⟨2, 0⟩ := by decide
  refine ⟨?_, after, should, by decide⟩
  rintro ⟨⟨first, _⟩, _⟩
  rw [after, should] at first
  exact absurd first (by decide)

end SourceNavigator.Parsers.CountChars

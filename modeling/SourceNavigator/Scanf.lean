import SourceNavigator.Text

/-!
The conversion `%d` of `sscanf`.

* `scanInt_decimal` reads a number back that `decimal` printed.
* `scanPosition_position` reads a position `%d.%d` back.
-/

namespace SourceNavigator

def isdigit (c : UInt8) : Bool := 48 ≤ c && c ≤ 57

/-- The number that the digits at the start of a string add to a value, and the rest. -/
def scanDigits (value : Nat) : Text → Nat × Text
  | [] => (value, [])
  | c :: s =>
    if isdigit c then scanDigits (10 * value + (c.toNat - 48)) s else (value, c :: s)

/-- The digits of a number, at least one. -/
def scanNat (s : Text) : Option (Nat × Text) :=
  if (s.head?.map isdigit).getD false then some (scanDigits 0 s) else none

/-- `%d`: blanks, a sign and digits. -/
def scanInt (s : Text) : Option (Int × Text) :=
  match skipSpace s with
  | 45 :: s => (scanNat s).map fun number => (-number.1, number.2)
  | 43 :: s => (scanNat s).map fun number => (number.1, number.2)
  | s => (scanNat s).map fun number => (number.1, number.2)

/-- `%d.%d` -/
def scanPosition (s : Text) : Option (Int × Int) :=
  match scanInt s with
  | some (line, 46 :: rest) => (scanInt rest).map fun number => (line, number.1)
  | _ => none

/-- A digit as a byte and as a character. -/
theorem toNat_toUInt8_of_isDigit {d : Char} (digit : d.isDigit = true) :
    d.toUInt8.toNat = d.toNat ∧ isdigit d.toUInt8 = true := by
  obtain ⟨same, low, high⟩ := byte_of_isDigit digit
  rw [isdigit, Bool.and_eq_true, decide_eq_true_iff, decide_eq_true_iff]
  exact ⟨same, low, high⟩

section Decimal

variable {rest : Text}

/-- What follows a number does not go on with a digit. -/
def Ends (rest : Text) : Prop := ∀ c ∈ rest.head?, isdigit c = false

theorem scanDigits_ends (ends : Ends rest) (value : Nat) : scanDigits value rest = (value, rest) := by
  cases rest with
  | nil => rfl
  | cons c rest =>
    rw [scanDigits, ends c rfl]
    rfl

theorem scanDigits_map (ends : Ends rest) {cs : List Char} (digit : ∀ c ∈ cs, c.isDigit = true)
    (value : Nat) :
    scanDigits value (cs.map Char.toUInt8 ++ rest) = (Nat.ofDigitChars 10 cs value, rest) := by
  induction cs generalizing value with
  | nil => rw [List.map_nil, List.nil_append, scanDigits_ends ends, Nat.ofDigitChars_nil]
  | cons c cs ih =>
    obtain ⟨byte, is⟩ := toNat_toUInt8_of_isDigit (digit c List.mem_cons_self)
    have zero : ('0' : Char).toNat = 48 := rfl
    rw [List.map_cons, List.cons_append, scanDigits, if_pos is, byte,
      ih fun d mem => digit d (List.mem_cons_of_mem c mem), Nat.ofDigitChars_cons, zero]

theorem scanNat_digits (ends : Ends rest) (n : Nat) : scanNat (digits 10 n ++ rest) = some (n, rest) := by
  have all : ∀ c ∈ Nat.toDigits 10 n, c.isDigit = true :=
    fun c mem => Nat.isDigit_of_mem_toDigits (by decide) (by decide) mem
  have read := scanDigits_map ends all 0
  rw [Nat.ofDigitChars_ten_toDigits] at read
  obtain ⟨c, cs, chars⟩ := List.exists_cons_of_ne_nil (Nat.toDigits_ne_nil (n := n) (b := 10))
  have first := (toNat_toUInt8_of_isDigit (all c (chars ▸ List.mem_cons_self))).2
  rw [scanNat, digits, read, chars, List.map_cons, List.cons_append, List.head?_cons,
    Option.map_some, first]
  rfl

/-- A number starts with a digit, which is no blank and no sign. -/
theorem digits_head (n : Nat) : ∃ c s, digits 10 n = c :: s ∧ isdigit c = true := by
  obtain ⟨c, cs, chars⟩ := List.exists_cons_of_ne_nil (Nat.toDigits_ne_nil (n := n) (b := 10))
  refine ⟨c.toUInt8, cs.map Char.toUInt8, by rw [digits, chars, List.map_cons], ?_⟩
  apply (toNat_toUInt8_of_isDigit _).2
  exact Nat.isDigit_of_mem_toDigits (by decide) (by decide) (chars ▸ List.mem_cons_self)

theorem isdigit_ne {c : UInt8} (digit : isdigit c = true) :
    isspace c = false ∧ c ≠ 45 ∧ c ≠ 43 := by
  rw [isdigit, Bool.and_eq_true, decide_eq_true_iff, decide_eq_true_iff] at digit
  obtain ⟨low, _⟩ := digit
  rw [UInt8.le_iff_toNat_le] at low
  have first : (48 : UInt8).toNat = 48 := rfl
  have above : ∀ d : UInt8, d.toNat < 48 → c ≠ d := by
    rintro d less rfl
    omega
  refine ⟨?_, above 45 (by decide), above 43 (by decide)⟩
  have blank : (c == 32) = false := beq_eq_false_iff_ne.mpr (above 32 (by decide))
  have last : decide (c ≤ 13) = false := by
    rw [decide_eq_false_iff_not, UInt8.le_iff_toNat_le]
    have thirteen : (13 : UInt8).toNat = 13 := rfl
    omega
  rw [isspace, blank, last, Bool.and_false, Bool.or_false]

theorem scanInt_decimal (ends : Ends rest) (n : Int) :
    scanInt (decimal n ++ rest) = some (n, rest) := by
  have read := scanNat_digits ends n.natAbs
  by_cases negative : n < 0
  · have value : -(n.natAbs : Int) = n := by omega
    have whole : skipSpace (decimal n ++ rest) = 45 :: (digits 10 n.natAbs ++ rest) := by
      rw [decimal, if_pos negative]
      rfl
    unfold scanInt
    rw [whole]
    simp only [read, Option.map_some, value]
  · have value : (n.natAbs : Int) = n := by omega
    obtain ⟨c, s, number, digit⟩ := digits_head n.natAbs
    obtain ⟨blank, minus, plus⟩ := isdigit_ne digit
    have whole : skipSpace (decimal n ++ rest) = c :: (s ++ rest) := by
      rw [decimal, if_neg negative, number, List.cons_append, skipSpace, List.dropWhile_cons, blank]
      rfl
    rw [number, List.cons_append] at read
    unfold scanInt
    rw [whole]
    split
    next same => exact absurd (List.cons.inj same).1 minus
    next same => exact absurd (List.cons.inj same).1 plus
    next => rw [read, Option.map_some, value]

theorem decimal_injective {m n : Int} (same : decimal m = decimal n) : m = n := by
  have ends : Ends [] := fun c mem => by cases mem
  have first := scanInt_decimal ends m
  rw [same, scanInt_decimal ends n] at first
  cases first
  rfl

theorem scanPosition_position (line column : Int) :
    scanPosition (decimal line ++ ascii "." ++ decimal column) = some (line, column) := by
  have dot : Ends (ascii "." ++ decimal column) := by
    intro c mem
    obtain rfl : (46 : UInt8) = c := Option.some.inj mem
    decide
  have second : scanInt (decimal column) = some (column, []) := by
    have ends : Ends [] := fun c mem => absurd mem (by simp)
    have read := scanInt_decimal ends column
    rwa [List.append_nil] at read
  unfold scanPosition
  rw [List.append_assoc, scanInt_decimal dot]
  change (scanInt (decimal column)).map _ = _
  rw [second]
  rfl

end Decimal

end SourceNavigator

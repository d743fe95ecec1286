import Mathlib.Data.List.Basic

/-!
C strings and the formats of `printf` that the sources print records with.

A string is the list of its bytes before the closing NUL. `cut` is `strchr`
with the two parts it leaves, `decimal`, `padded` and `hexadecimal` are `%d`,
`%0nd` and `%x`, and `strtol` is the function with base `0`, as the record
types are read back.
-/

namespace SourceNavigator

/-- The bytes of a C string. -/
abbrev Text := List UInt8

/-- The text of a string literal. -/
def ascii (s : String) : Text := s.toList.map Char.toUInt8

abbrev NEWLINE : UInt8 := 10
abbrev CARRIAGE_RETURN : UInt8 := 13

/-- The byte that stands for a newline inside a record. -/
abbrev ESCAPE : UInt8 := 255

/-- The separator of the fields of a record (`DB_FLDSEP_CHR`). -/
abbrev DB_FLDSEP_CHR : UInt8 := 1

/-- The separator of the type, the key and the data of a record. -/
abbrev KEY_DATA_SEP_CHR : UInt8 := 59

/-- `isspace` in the C locale. -/
def isspace (c : UInt8) : Bool := c == 32 || (9 ≤ c && c ≤ 13)

/-- The loop `for (; isspace(*s); s++)`. -/
def skipSpace (s : Text) : Text := s.dropWhile isspace

/-- The parts of a string before and after the first occurrence of a character. -/
def cut (c : UInt8) : Text → Option (Text × Text)
  | [] => none
  | d :: s => if d = c then some ([], s) else (cut c s).map fun parts => (d :: parts.1, parts.2)

theorem cut_eq_none {c : UInt8} {s : Text} (h : cut c s = none) : c ∉ s := by
  induction s with
  | nil => exact List.not_mem_nil
  | cons d s ih =>
    rw [cut] at h
    split at h
    case isTrue => cases h
    case isFalse other =>
      rw [Option.map_eq_none_iff] at h
      rw [List.mem_cons, not_or]
      exact ⟨Ne.symm other, ih h⟩

/-! ### Numbers -/

/-- The value an `int` holds. -/
def int32 (n : Int) : Int := n.bmod 4294967296

/-- The digits of a number. -/
def digits (base n : Nat) : Text := (Nat.toDigits base n).map Char.toUInt8

/-- `%d` -/
def decimal (n : Int) : Text :=
  if n < 0 then 45 :: digits 10 n.natAbs else digits 10 n.natAbs

/-- `%0nd`: zeros up to the width, after the sign. -/
def padded (width : Nat) (n : Int) : Text :=
  let ds := digits 10 n.natAbs
  if n < 0 then 45 :: (List.replicate (width - 1 - ds.length) 48 ++ ds)
  else List.replicate (width - ds.length) 48 ++ ds

/-- `%x` of an `unsigned int`. -/
def hexadecimal (n : Nat) : Text := digits 16 (n % 4294967296)

/-- The bytes that a number is printed with. -/
def IsNumeral (c : UInt8) : Prop := c = 45 ∨ 48 ≤ c ∧ c ≤ 57

/-- A digit as a byte and as a character. -/
theorem byte_of_isDigit {d : Char} (digit : d.isDigit = true) :
    d.toUInt8.toNat = d.toNat ∧ 48 ≤ d.toUInt8 ∧ d.toUInt8 ≤ 57 := by
  rw [Char.isDigit, Bool.and_eq_true, decide_eq_true_iff, decide_eq_true_iff] at digit
  obtain ⟨low, high⟩ := digit
  rw [ge_iff_le, UInt32.le_iff_toNat_le] at low
  rw [UInt32.le_iff_toNat_le] at high
  have value : d.toUInt8.toNat = d.val.toNat % 256 := UInt32.toNat_toUInt8 d.val
  have lowest : ('0' : Char).val.toNat = 48 := rfl
  have highest : ('9' : Char).val.toNat = 57 := rfl
  have same : d.toUInt8.toNat = d.val.toNat := by omega
  have first : (48 : UInt8).toNat = 48 := rfl
  have last : (57 : UInt8).toNat = 57 := rfl
  refine ⟨same, ?_, ?_⟩
  · rw [UInt8.le_iff_toNat_le]
    omega
  · rw [UInt8.le_iff_toNat_le]
    omega

theorem isNumeral_digits {n : Nat} {c : UInt8} (mem : c ∈ digits 10 n) : IsNumeral c := by
  obtain ⟨d, digit, rfl⟩ := List.mem_map.mp mem
  exact .inr (byte_of_isDigit (Nat.isDigit_of_mem_toDigits (by decide) (by decide) digit)).2

theorem isNumeral_decimal {n : Int} {c : UInt8} (mem : c ∈ decimal n) : IsNumeral c := by
  unfold decimal at mem
  split at mem
  · rcases List.mem_cons.mp mem with rfl | mem
    · exact .inl rfl
    · exact isNumeral_digits mem
  · exact isNumeral_digits mem

theorem isNumeral_padded {width : Nat} {n : Int} {c : UInt8} (mem : c ∈ padded width n) :
    IsNumeral c := by
  have zeros : ∀ {k}, c ∈ List.replicate k (48 : UInt8) ++ digits 10 n.natAbs → IsNumeral c := by
    intro k mem
    rcases List.mem_append.mp mem with zero | digit
    · rw [List.eq_of_mem_replicate zero]
      exact .inr ⟨by decide, by decide⟩
    · exact isNumeral_digits digit
  unfold padded at mem
  split at mem
  · rcases List.mem_cons.mp mem with rfl | mem
    · exact .inl rfl
    · exact zeros mem
  · exact zeros mem

/-- No separator is a byte of a number. -/
theorem IsNumeral.ne {c d : UInt8} (h : IsNumeral c) (low : d < 45) : c ≠ d := by
  rintro rfl
  rcases h with rfl | ⟨ge, _⟩
  · exact absurd low (by decide)
  · rw [UInt8.le_iff_toNat_le] at ge
    rw [UInt8.lt_iff_toNat_lt] at low
    have first : (48 : UInt8).toNat = 48 := rfl
    have minus : (45 : UInt8).toNat = 45 := rfl
    omega

/-- The value of a digit. -/
def digitValue (c : UInt8) : Option Nat :=
  if 48 ≤ c && c ≤ 57 then some (c.toNat - 48)
  else if 97 ≤ c && c ≤ 122 then some (c.toNat - 87)
  else if 65 ≤ c && c ≤ 90 then some (c.toNat - 55)
  else none

/-- The value of the digits a string starts with. -/
def readDigits (base : Nat) (value : Nat) : Text → Nat
  | [] => value
  | c :: s =>
    match digitValue c with
    | some d => if d < base then readDigits base (value * base + d) s else value
    | none => value

/-- The base that a prefix announces, and the string after the prefix. -/
def announcedBase : Text → Nat × Text
  | 48 :: x :: c :: s =>
    if (x == 120 || x == 88) && ((digitValue c).any (· < 16)) then (16, c :: s)
    else (8, x :: c :: s)
  | 48 :: s => (8, s)
  | s => (10, s)

/-- `strtol(s, NULL, 0)`, which stops at the bounds of a `long`. -/
def strtol (s : Text) : Int :=
  match skipSpace s with
  | 45 :: s => max (-9223372036854775808) (-(readDigits (announcedBase s).1 0 (announcedBase s).2))
  | 43 :: s => min 9223372036854775807 (readDigits (announcedBase s).1 0 (announcedBase s).2)
  | s => min 9223372036854775807 (readDigits (announcedBase s).1 0 (announcedBase s).2)

/-! ### Bytes of a string -/

/-- `*p` at an offset: a byte of the text or the NUL behind it; `none` is outside of the text. -/
def byteAt (s : Text) (p : Int) : Option UInt8 :=
  if 0 ≤ p then (s ++ [0])[p.toNat]? else none

theorem byteAt_bounds {s : Text} {p : Int} {c : UInt8} (h : byteAt s p = some c) :
    0 ≤ p ∧ p ≤ s.length := by
  rw [byteAt] at h
  split at h
  case isTrue positive =>
    have bound := (List.getElem?_eq_some_iff.mp h).1
    rw [List.length_append, List.length_singleton] at bound
    omega
  case isFalse => cases h

theorem byteAt_of_lt {s : Text} {p : Nat} (inside : p < s.length) : byteAt s p = s[p]? := by
  rw [byteAt, if_pos (by omega), Int.toNat_natCast, List.getElem?_append_left inside]

theorem byteAt_length {s : Text} : byteAt s s.length = some 0 := by
  rw [byteAt, if_pos (by omega), Int.toNat_natCast, List.getElem?_append_right (Nat.le_refl _),
    Nat.sub_self]
  rfl

theorem byteAt_of_le {s : Text} {p : Nat} (le : p ≤ s.length) : ∃ c, byteAt s p = some c := by
  rcases Nat.lt_or_eq_of_le le with inside | rfl
  · exact ⟨s[p], by rw [byteAt_of_lt inside, List.getElem?_eq_getElem inside]⟩
  · exact ⟨0, byteAt_length⟩

/-! ### Facts about cutting -/

variable {c : UInt8} {s a b : Text}

theorem cut_append (h : c ∉ a) : cut c (a ++ c :: b) = some (a, b) := by
  induction a with
  | nil => simp [cut]
  | cons d a ih =>
    rw [List.mem_cons, not_or] at h
    simp [cut, Ne.symm h.1, ih h.2]

/-- The part before the first occurrence is without it, and the parts make up the string. -/
theorem cut_eq_some (h : cut c s = some (a, b)) : c ∉ a ∧ s = a ++ c :: b := by
  induction s generalizing a with
  | nil => cases h
  | cons d s ih =>
    rw [cut] at h
    split at h
    case isTrue same =>
      cases h
      exact ⟨List.not_mem_nil, by rw [same, List.nil_append]⟩
    case isFalse other =>
      obtain ⟨⟨a', b'⟩, found, rest⟩ := Option.map_eq_some_iff.mp h
      cases rest
      obtain ⟨absent, rfl⟩ := ih found
      refine ⟨?_, rfl⟩
      rw [List.mem_cons, not_or]
      exact ⟨Ne.symm other, absent⟩

end SourceNavigator

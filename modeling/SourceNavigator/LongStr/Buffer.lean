import Mathlib.Algebra.Ring.Int.Defs
import SourceNavigator.Text

/-!
The buffers of long strings (`misc/libutils/longstr.c`).

A long string has a buffer, the number of bytes it believes the buffer to have (`allocated`), and
the length of the text. The buffer itself has a capacity, and a write behind it has no result.

* `Holds` says what text a buffer starts with, and `Represents` when a long string has that text
  with its NUL and counts the buffer right.
-/

namespace SourceNavigator.LongStr

/-- What `ckalloc` returns. -/
structure Buffer where
  capacity : Nat
  bytes : Nat → UInt8

namespace Buffer

/-- `buf[i] = c`, or `none` behind the buffer. -/
def write (b : Buffer) (i : Nat) (c : UInt8) : Option Buffer :=
  if i < b.capacity then some { b with bytes := fun k => if k = i then c else b.bytes k } else none

/-- `ckrealloc` -/
def ckrealloc (b : Buffer) (size : Nat) : Buffer := { b with capacity := size }

/-- The buffer starts with a text. -/
def Holds (b : Buffer) (text : Text) : Prop := ∀ i < text.length, text[i]? = some (b.bytes i)

variable {b b' : Buffer} {text : Text} {i : Nat} {c : UInt8}

theorem write_of_lt (inside : i < b.capacity) :
    b.write i c = some { b with bytes := fun k => if k = i then c else b.bytes k } :=
  if_pos inside

theorem write_of_le (outside : b.capacity ≤ i) : b.write i c = none :=
  if_neg (Nat.not_lt.mpr outside)

theorem write_eq_some (h : b.write i c = some b') :
    i < b.capacity ∧ b' = { b with bytes := fun k => if k = i then c else b.bytes k } := by
  rw [write] at h
  split at h
  case isTrue inside => exact ⟨inside, (Option.some.inj h).symm⟩
  case isFalse => cases h

theorem holds_nil : b.Holds [] := fun _ lt => absurd lt (Nat.not_lt_zero _)

theorem holds_ckrealloc {size : Nat} : (b.ckrealloc size).Holds text ↔ b.Holds text := Iff.rfl

/-- A byte behind the text belongs to the text. -/
theorem Holds.write (holds : b.Holds text) (h : b.write text.length c = some b') :
    b'.Holds (text ++ [c]) := by
  obtain ⟨_, rfl⟩ := write_eq_some h
  intro k lt
  rw [List.length_append, List.length_singleton] at lt
  rcases Nat.lt_or_eq_of_le (Nat.le_of_lt_succ lt) with before | rfl
  · rw [List.getElem?_append_left before, holds k before]
    exact congrArg some (if_neg (Nat.ne_of_lt before)).symm
  · rw [List.getElem?_append_right (Nat.le_refl _), Nat.sub_self]
    exact congrArg some (if_pos rfl).symm

/-- The NUL behind the text does not change it. -/
theorem Holds.terminate (holds : b.Holds text) (h : b.write text.length 0 = some b') :
    b'.Holds text ∧ b'.bytes text.length = 0 ∧ b'.capacity = b.capacity := by
  obtain ⟨_, rfl⟩ := write_eq_some h
  refine ⟨fun k before => ?_, if_pos rfl, rfl⟩
  rw [holds k before]
  exact congrArg some (if_neg (Nat.ne_of_lt before)).symm

end Buffer

/-- A `LongString` without the fields that `split` uses. -/
structure LongString where
  allocated : UInt32
  slot_size : UInt16
  len : Int
  buf : Option Buffer

/-- The buffer has a text with its NUL, and is not smaller than it is believed to be. -/
structure Represents (st : LongString) (b : Buffer) (text : Text) : Prop where
  buf : st.buf = some b
  holds : b.Holds text
  terminated : b.bytes text.length = 0
  len : st.len = text.length
  fits : text.length < st.allocated.toNat
  capacity : st.allocated.toNat ≤ b.capacity

end SourceNavigator.LongStr

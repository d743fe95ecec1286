import SourceNavigator.Lib.Run

/-!
Texts in an encoding that may have states.

An encoding says which codes can come next in a state. A code is a sequence of
bytes, which stands for a character or, like a shift sequence, for none. A text
is a run of codes. Nothing here knows what the bytes or the characters are.

* `Cut n parts` says that a text is cut between its codes into parts of `n`
  bytes, of which the last may be shorter.
-/

namespace Lib

universe u v w

/-- An encoding: the codes that can come in a state and the state behind them. -/
structure Codes (S : Type u) (B : Type v) (C : Type w) where
  initial : S
  step : S → List B × Option C → S → Prop
  nonempty : ∀ {s code t}, step s code t → code.1 ≠ []

namespace Codes

variable {S : Type u} {B : Type v} {C : Type w} {enc : Codes S B C} {s t : S}
  {us vs : List (List B × Option C)} {n : Nat}

/-- The bytes of a text. -/
def bytes (us : List (List B × Option C)) : List B := us.flatMap Prod.fst

/-- The characters of a text. -/
def chars (us : List (List B × Option C)) : List C := us.filterMap Prod.snd

@[simp]
theorem bytes_append : bytes (us ++ vs) = bytes us ++ bytes vs := List.flatMap_append

@[simp]
theorem chars_append : chars (us ++ vs) = chars us ++ chars vs := List.filterMap_append

/-- There are no more characters than bytes. -/
theorem length_chars_le (run : Run enc.step s us t) : (chars us).length ≤ (bytes us).length := by
  induction run with
  | nil => exact Nat.le_refl 0
  | @cons s t u code us first _ ih =>
    have some_bytes := List.length_pos_iff.mpr (enc.nonempty first)
    have whole : bytes (code :: us) = code.1 ++ bytes us := List.flatMap_cons
    rw [whole, List.length_append]
    obtain ⟨letters, c⟩ := code
    cases c with
    | none => exact Nat.le_trans ih (Nat.le_add_left _ _)
    | some c =>
      change (chars us).length + 1 ≤ letters.length + (bytes us).length
      rw [Nat.add_comm letters.length]
      exact Nat.add_le_add ih some_bytes

/-- A text is cut between its codes into parts of `n` bytes, of which the last may be shorter. -/
def Cut (n : Nat) : List (List (List B × Option C)) → Prop
  | [] => True
  | [part] => 0 < (bytes part).length ∧ (bytes part).length ≤ n
  | part :: next :: parts => (bytes part).length = n ∧ Cut n (next :: parts)

variable {part : List (List B × Option C)} {parts : List (List (List B × Option C))}

theorem Cut.tail (cut : Cut n (part :: parts)) : Cut n parts := by
  cases parts with
  | nil => trivial
  | cons next parts => exact cut.2

/-- The first part has `n` bytes or is the last one. -/
theorem Cut.first (cut : Cut n (part :: parts)) :
    (bytes part).length = n ∨ (bytes part).length ≤ n ∧ parts = [] := by
  cases parts with
  | nil => exact .inr ⟨cut.2, rfl⟩
  | cons next parts => exact .inl cut.1

theorem Cut.le (cut : Cut n (part :: parts)) : (bytes part).length ≤ n := by
  rcases cut.first with same | ⟨le, -⟩
  · exact Nat.le_of_eq same
  · exact le

theorem Cut.ne_nil (pos : 0 < n) (cut : Cut n (part :: parts)) : bytes part ≠ [] := by
  cases parts with
  | nil => exact List.length_pos_iff.mp cut.1
  | cons next parts =>
    rw [← cut.1] at pos
    exact List.length_pos_iff.mp pos

/-- Who reads `n` bytes reads the first part. -/
theorem Cut.take (cut : Cut n (part :: parts)) :
    (bytes (part :: parts).flatten).take n = bytes part := by
  rw [List.flatten_cons, bytes_append]
  rcases cut.first with same | ⟨le, rfl⟩
  · rw [← same, List.take_left]
  · have nothing : bytes ([] : List (List (List B × Option C))).flatten = [] := rfl
    rw [nothing, List.append_nil, List.take_of_length_le le]

theorem Cut.drop (cut : Cut n (part :: parts)) :
    (bytes (part :: parts).flatten).drop n = bytes parts.flatten := by
  rw [List.flatten_cons, bytes_append]
  rcases cut.first with same | ⟨le, rfl⟩
  · rw [← same, List.drop_left]
  · have nothing : bytes ([] : List (List (List B × Option C))).flatten = [] := rfl
    rw [nothing, List.append_nil, List.drop_of_length_le le]

/-- There are as many parts as it takes to read the bytes. -/
theorem Cut.length (pos : 0 < n) (cut : Cut n parts) :
    parts.length = ((bytes parts.flatten).length + (n - 1)) / n := by
  induction parts with
  | nil => exact (Nat.div_eq_of_lt (by simp [bytes]; omega)).symm
  | cons part parts ih =>
    have rest := ih cut.tail
    rw [List.flatten_cons, bytes_append, List.length_append, List.length_cons]
    cases parts with
    | nil =>
      have nothing : (bytes ([] : List (List (List B × Option C))).flatten).length = 0 := rfl
      obtain ⟨some_bytes, le⟩ := cut
      rw [nothing, List.length_nil]
      exact (Nat.div_eq_of_lt_le (by omega) (by omega)).symm
    | cons next parts =>
      rw [cut.1, rest, Nat.add_assoc, Nat.add_comm n, Nat.add_div_right _ pos]

end Codes

end Lib

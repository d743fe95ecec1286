import Mathlib.Algebra.Ring.Nat
import SourceNavigator.Db.Put

/-!
Split strings (`misc/libutils/longstr.c`).

A key or data text is split at its separators. The separators stay, so what a
field points to goes on to the end of the text, and the length of the field is
kept in a `short`.

* `splitOn_joinFields` and `sep_notMem_of_mem_splitOn` go from fields to a text
  and back.
-/

namespace SourceNavigator.Db

open SymbolType

/-- The value a `short` holds. -/
def int16 (n : Int) : Int := n.bmod 65536

/-- `field_size` -/
def fieldSize (fields : List Text) (i : Nat) : Int := int16 (fields.getD i []).length

/-- What `field_value` points to: the separators of a split key stay, so a field
goes on to the end of the key. -/
def fieldValue (fields : List Text) (i : Nat) : Text := joinFields (fields.drop i)

/-- The bytes that `LongStringAppend` copies; a negative length is that of the string. -/
def appended (s : Text) (len : Int) : Text := if len < 0 then s else s.take len.toNat

section Split

variable {fields : List Text} {s rest : Text}

theorem splitOn_joinFields (separate : ∀ s ∈ fields, DB_FLDSEP_CHR ∉ s) (some_field : fields ≠ []) :
    (joinFields fields).splitOn DB_FLDSEP_CHR = fields :=
  List.splitOn_intercalate DB_FLDSEP_CHR separate some_field

/-- A piece of a split text holds no separator. -/
theorem sep_notMem_of_mem_splitOn {c : UInt8} (mem : s ∈ rest.splitOn c) : c ∉ s := by
  induction rest generalizing s with
  | nil =>
    rw [List.splitOn_nil, List.mem_singleton] at mem
    rw [mem]
    exact List.not_mem_nil
  | cons d rest ih =>
    rw [List.splitOn_cons_eq_if_modifyHead] at mem
    split at mem
    next =>
      rcases List.mem_cons.mp mem with rfl | mem
      · exact List.not_mem_nil
      · exact ih mem
    next other =>
      cases pieces : rest.splitOn c with
      | nil => exact absurd pieces (List.splitOn_ne_nil c rest)
      | cons p ps =>
        rw [pieces, List.modifyHead_cons, List.mem_cons] at mem
        rcases mem with rfl | mem
        · have tail := ih (pieces ▸ List.mem_cons_self)
          rw [List.mem_cons, not_or]
          exact ⟨fun same => other (by simp [same]), tail⟩
        · exact ih (pieces ▸ List.mem_cons_of_mem _ mem)

theorem joinFields_cons (some_field : fields ≠ []) :
    joinFields (s :: fields) = s ++ DB_FLDSEP_CHR :: joinFields fields := by
  rw [joinFields, List.intercalate_cons_of_ne_nil some_field, List.append_assoc]
  rfl

theorem length_joinFields (some_field : fields ≠ []) :
    (joinFields fields).length + 1 = (fields.map fun s => s.length + 1).sum := by
  induction fields with
  | nil => exact absurd rfl some_field
  | cons s fields ih =>
    cases fields with
    | nil => simp [joinFields]
    | cons s' fields =>
      have rest := ih (by simp)
      rw [joinFields_cons (by simp), List.map_cons, List.sum_cons, ← rest, List.length_append,
        List.length_cons]
      omega

theorem joinFields_singleton : joinFields [s] = s := by
  simp [joinFields]

/-- A byte of a field is one of the text. -/
theorem mem_joinFields {c : UInt8} (mem : s ∈ fields) (inside : c ∈ s) : c ∈ joinFields fields := by
  induction fields with
  | nil => cases mem
  | cons f fields ih =>
    by_cases last : fields = []
    · rw [last, List.mem_singleton] at mem
      rw [last, joinFields_singleton, ← mem]
      exact inside
    · rw [joinFields_cons last, List.mem_append, List.mem_cons]
      rcases List.mem_cons.mp mem with rfl | mem
      · exact .inl inside
      · exact .inr (.inr (ih mem))

/-- A length below the bound is the one that is kept. -/
theorem int16_of_lt {n : Nat} (short : n < 32768) : int16 n = n := by
  rw [int16, Int.bmod_eq_of_le] <;> omega

/-- A length that reaches the end of the string copies all of it. -/
theorem appended_all {n : Int} (reach : n = s.length) : appended s n = s := by
  rw [appended, reach, if_neg (by omega), Int.toNat_natCast, List.take_length]

/-- A length copies a field and leaves what follows it. -/
theorem appended_field {n : Int} (reach : n = s.length) : appended (s ++ rest) n = s := by
  rw [appended, reach, if_neg (by omega), Int.toNat_natCast, List.take_left]

theorem joinFields_concat (some_field : fields ≠ []) :
    joinFields (fields ++ [s]) = joinFields fields ++ DB_FLDSEP_CHR :: s := by
  induction fields with
  | nil => exact absurd rfl some_field
  | cons f fields ih =>
    rw [List.cons_append, joinFields_cons (by simp)]
    cases fields with
    | nil => rw [List.nil_append, joinFields_singleton, joinFields_singleton]
    | cons g fields =>
      have some_more : g :: fields ≠ [] := List.cons_ne_nil g fields
      rw [ih some_more, joinFields_cons some_more, List.append_assoc, List.cons_append]

/-- No name of a symbol type holds a field separator. -/
theorem sep_notMem_name (t : SymbolType) : DB_FLDSEP_CHR ∉ t.SN_GetSymbolType := by
  cases t <;> decide

end Split

end SourceNavigator.Db

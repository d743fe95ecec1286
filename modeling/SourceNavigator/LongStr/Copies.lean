import SourceNavigator.LongStr.Representation

/-!
When a copy into a long string has a result (`LongStringCopy` in `misc/libutils/longstr.c`).

A copy starts at the first byte, so a count that wraps around loses no text: the loop of the
append goes on until the count leaves space for an `int`, if the slots have a size.

* `copyText_keeps` and `copyText_none` settle copies up to the NUL, `copyBlock_keeps` and
  `copyBlock_none` those of a given length.
-/

namespace SourceNavigator.LongStr

section Loop

variable {slot : UInt16} {fuel : Nat} {A : UInt32} {string : Text} {s : Int} {po : Nat}
  {buf : Buffer}

/-- The turns of the loop until the count leaves space for an `int`. -/
def turns (A : Nat) : Nat :=
  if 2 ≤ A ∧ A ≤ 2147483648 then 0 else if A ≤ 1 then 2 - A else 4294967298 - A

theorem int32_nonpos (outside : ¬ (2 ≤ A.toNat ∧ A.toNat ≤ 2147483648)) :
    int32 ((A.toNat : Int) - 1) ≤ 0 := by
  have bound := A.toNat_lt
  rw [int32, Int.bmod_def]
  split <;> omega

theorem turns_add (some_slot : 0 < slot.toNat)
    (outside : ¬ (2 ≤ A.toNat ∧ A.toNat ≤ 2147483648)) :
    turns (A + slot.toUInt32).toNat + 1 ≤ turns A.toNat := by
  have bound := A.toNat_lt
  have slots := slot.toNat_lt
  rw [turns, turns, if_neg outside, UInt32.toNat_add, UInt16.toNat_toUInt32]
  rcases Nat.lt_or_ge 1 A.toNat with many | few
  · rw [if_neg (Nat.not_le.mpr many)]
    split
    case isTrue => omega
    case isFalse => split <;> omega
  · rw [if_pos few]
    split
    case isTrue => omega
    case isFalse => split <;> omega

/-- The loop has enough turns. -/
theorem turns_le_appendFuel (string : Text) :
    string.length + 1 + turns A.toNat ≤ appendFuel (int32 ((A.toNat : Int) - 1)) string := by
  have bound := A.toNat_lt
  rw [turns, appendFuel]
  split
  case isTrue => omega
  case isFalse outside =>
    split
    case isTrue few =>
      split
      case isTrue => omega
      case isFalse space =>
        rw [int32_of_small (by omega) (by omega)] at space
        omega
    case isFalse many =>
      have negative : int32 ((A.toNat : Int) - 1) < 0 := by
        rw [int32, Int.bmod_def]
        split <;> omega
      rw [if_pos negative]
      omega

/-- With slots of some size a copy ends. -/
theorem appendLoop_copy (some_slot : 0 < slot.toNat) (some_text : cString string ≠ [])
    (small : (cString string).length < 2147483648) (capacity : A.toNat ≤ buf.capacity)
    (enough : string.length + 1 + turns A.toNat ≤ fuel) :
    ∃ A' buf', appendLoop slot fuel A string (int32 ((A.toNat : Int) - (0 : Nat) - 1)) 0 buf =
        some (A', (cString string).length, buf') ∧
      buf'.Holds (cString string) ∧ (cString string).length < A'.toNat ∧
      A'.toNat ≤ buf'.capacity := by
  rw [Int.natCast_zero, Int.sub_zero]
  induction measure : turns A.toNat using Nat.strong_induction_on generalizing A buf fuel with
  | _ n ih =>
    by_cases inside : 2 ≤ A.toNat ∧ A.toNat ≤ 2147483648
    · have start : int32 ((A.toNat : Int) - 1) = A.toNat - ([] : Text).length - 1 := by
        rw [int32_of_small (by omega) (by omega), List.length_nil]
        omega
      have loop : Appended slot A ([] ++ cString string) (appendLoop slot fuel A string _ _ buf) :=
        appendLoop_text string [] (by omega) Buffer.holds_nil (by rw [List.length_nil]; omega)
          capacity (by rw [List.nil_append]; omega) (fun _ => some_slot)
      obtain ⟨A', buf', run, holds, fits, room, _⟩ := loop
      rw [List.nil_append] at run holds fits
      rw [start]
      exact ⟨A', buf', run, holds, fits, room⟩
    · obtain ⟨fuel, rfl⟩ : ∃ n, fuel = n + 1 := ⟨fuel - 1, by omega⟩
      have less := turns_add some_slot inside
      cases string with
      | nil => exact absurd rfl some_text
      | cons c string =>
        have nul : c ≠ 0 := by
          rintro rfl
          exact some_text rfl
        rw [appendLoop_full nul (int32_nonpos inside), Int.natCast_zero, Int.sub_zero]
        exact ih _ (by omega) (Nat.le_refl _) (by omega) rfl

/-- Without a size of the slots a copy for which there is no room does not end. -/
theorem appendLoop_stuck (no_slot : slot.toNat = 0) (left : s = int32 ((A.toNat : Int) - po - 1))
    (some_text : cString string ≠ []) (long : s < (cString string).length) :
    appendLoop slot fuel A string s po buf = none := by
  have same : A + slot.toUInt32 = A := by
    rw [← UInt32.toNat_inj, UInt32.toNat_add, UInt16.toNat_toUInt32, no_slot]
    exact Nat.mod_eq_of_lt A.toNat_lt
  induction fuel generalizing string s po buf with
  | zero => rfl
  | succ fuel outer =>
    induction string generalizing s po buf with
    | nil => exact absurd rfl some_text
    | cons c string ih =>
      have nul : c ≠ 0 := by
        rintro rfl
        exact some_text rfl
      by_cases space : 0 < s
      · rw [appendLoop_byte space nul]
        cases buf.write po c with
        | none => rfl
        | some buf =>
          rw [cString_cons nul, List.length_cons] at long
          rw [Option.bind_some]
          refine ih ?_ ?_ (by omega)
          · rw [left] at space ⊢
            rw [int32, Int.bmod_def] at space ⊢
            rw [int32, Int.bmod_def]
            split at space <;> split <;> omega
          · intro empty
            rw [empty, List.length_nil] at long
            omega
      · rw [appendLoop_full nul (by omega), same, ← left]
        exact outer left some_text long

end Loop

/-! ### Copies -/

/-- There is room for a copy, or it can be made. -/
def CopyFits (st : LongString) (text : Text) : Prop :=
  0 < st.slot_size.toNat ∨
    st.buf.isSome ∧ text.length < st.allocated.toNat ∧
      (text = [] ∨ st.allocated.toNat ≤ 2147483648)

instance (st : LongString) (text : Text) : Decidable (CopyFits st text) :=
  inferInstanceAs (Decidable (_ ∨ _ ∧ _ ∧ (_ ∨ _)))

section Copies

variable {garbage : Nat → UInt8} {st : LongString} {text string : Text}

theorem copyText_eq : LongStringCopy garbage st string (-1) =
    appendText garbage { st with len := 0 } string := rfl

/-- What a copy leaves whose loop ends. -/
theorem appendText_of_loop {A : UInt32} {buf : Buffer}
    (small : (cString string).length < 2147483648)
    (run : appendLoop st.slot_size
        (appendFuel (int32 (((st.room garbage).1.toNat : Int) - (0 : Nat) - 1)) string)
        (st.room garbage).1 string (int32 (((st.room garbage).1.toNat : Int) - (0 : Nat) - 1)) 0
        (st.room garbage).2 = some (A, (cString string).length, buf))
    (holds : buf.Holds (cString string)) (fits : (cString string).length < A.toNat)
    (capacity : A.toNat ≤ buf.capacity) :
    Keeps (appendText garbage { st with len := 0 } string) (cString string) := by
  have value : int32 ((cString string).length : Int) = (cString string).length :=
    int32_of_small (by omega) (by omega)
  have whole : appendText garbage { st with len := 0 } string =
      (buf.write (cString string).length 0).map fun buf =>
        ⟨A, st.slot_size, int32 (cString string).length, some buf⟩ := by
    rw [appendText, if_neg (Int.lt_irrefl 0)]
    exact congrArg (fun loop => Option.bind loop _) run
  rw [whole, value]
  exact keeps_of_terminate st.slot_size holds rfl small fits capacity

/-- A copy that is not empty leaves a buffer. -/
theorem isSome_of_copy {st' : LongString} {len : Int} (some_len : len ≠ 0)
    (run : LongStringCopy garbage st string len = some st') : st'.buf.isSome := by
  rw [LongStringCopy, LongStringAppend, if_neg some_len] at run
  split at run
  case isTrue =>
    rw [appendText] at run
    split at run
    case isTrue => cases run
    case isFalse =>
      obtain ⟨loop, _, last⟩ := Option.bind_eq_some_iff.mp run
      obtain ⟨buf, _, rfl⟩ := Option.map_eq_some_iff.mp last
      rfl
  case isFalse =>
    rw [appendBlock] at run
    split at run
    case isTrue => cases run
    case isFalse =>
      obtain ⟨_, _, rest⟩ := Option.bind_eq_some_iff.mp run
      obtain ⟨_, _, last⟩ := Option.bind_eq_some_iff.mp rest
      obtain ⟨buf, _, rfl⟩ := Option.map_eq_some_iff.mp last
      rfl

theorem copyText_keeps (garbage : Nat → UInt8) (counted : Counted st text)
    (small : (cString string).length < 2147483648) (fits : CopyFits st (cString string)) :
    Keeps (LongStringCopy garbage st string (-1)) (cString string) := by
  rw [copyText_eq]
  by_cases room : TextFits { st with len := 0 } (cString string)
  · rw [← List.append_nil (cString string)] at room
    obtain ⟨st', run, inv, _⟩ := appendText_keeps garbage counted.empty room
    exact ⟨st', run, inv⟩
  · rw [TextFits] at room
    dsimp only at room
    rw [CopyFits] at fits
    have some_text : cString string ≠ [] := by
      rintro empty
      rw [empty, List.length_nil] at room fits
      refine room ⟨by decide, .inl rfl, fits.imp_right fun enough => ⟨enough.1, ?_⟩⟩
      omega
    have some_slot : 0 < st.slot_size.toNat := by
      refine fits.resolve_right fun enough => room ⟨by omega, .inr ?_, .inr ⟨enough.1, by omega⟩⟩
      have int := enough.2.2.resolve_left some_text
      omega
    obtain ⟨_, _, capacity, _⟩ := counted.room garbage (.inr some_slot)
    have enough : string.length + 1 + turns (st.room garbage).1.toNat ≤
        appendFuel (int32 (((st.room garbage).1.toNat : Int) - (0 : Nat) - 1)) string := by
      rw [Int.natCast_zero, Int.sub_zero]
      exact turns_le_appendFuel string
    obtain ⟨A', buf', run, holds, inside, room'⟩ :=
      appendLoop_copy some_slot some_text small capacity enough
    exact appendText_of_loop small run holds inside room'

theorem copyText_none (counted : Counted st text) (small : (cString string).length < 2147483648)
    (full : ¬ CopyFits st (cString string)) : LongStringCopy garbage st string (-1) = none := by
  rw [CopyFits, not_or] at full
  have no_slot : st.slot_size.toNat = 0 := by omega
  have loop : (appendLoop st.slot_size
      (appendFuel (int32 (((st.room garbage).1.toNat : Int) - (0 : Nat) - 1)) string)
      (st.room garbage).1 string (int32 (((st.room garbage).1.toNat : Int) - (0 : Nat) - 1)) 0
      (st.room garbage).2).bind (fun loop => loop.2.2.write loop.2.1 0) = none := by
    by_cases empty : cString string = []
    · rw [appendLoop_end_fuel string (headD_eq_zero empty), Option.bind_some]
      cases buf : st.buf with
      | some b =>
        obtain ⟨_, inside, _⟩ := counted.used b buf
        rw [buf, empty] at full
        exact absurd ⟨rfl, Nat.zero_lt_of_lt inside, .inl rfl⟩ full.2
      | none =>
        rw [LongString.room, buf]
        refine Buffer.write_of_le ?_
        dsimp only
        omega
    · rw [appendLoop_stuck no_slot rfl empty ?_]
      · rfl
      · rw [Int.natCast_zero, Int.sub_zero]
        have bound := (st.room garbage).1.toNat_lt
        have long : (st.room garbage).1.toNat ≤ (cString string).length ∨
            2147483648 < (st.room garbage).1.toNat := by
          cases buf : st.buf with
          | some b =>
            rw [LongString.room, buf]
            rw [buf] at full
            by_contra inside
            refine full.2 ⟨rfl, ?_⟩
            dsimp only at inside
            omega
          | none =>
            rw [LongString.room, buf]
            dsimp only
            rw [UInt16.toNat_toUInt32]
            omega
        rw [int32, Int.bmod_def]
        split <;> omega
  rw [copyText_eq, appendText, if_neg (Int.lt_irrefl 0)]
  rw [Option.bind_eq_none_iff] at loop ⊢
  intro result run
  rw [Option.map_eq_none_iff]
  exact loop result run

theorem copyBlock_keeps (garbage : Nat → UInt8) (counted : Counted st text) (some_text : string ≠ [])
    (fits : BlockFits { st with len := 0 } string string.length) :
    Keeps (LongStringCopy garbage st string string.length) string := by
  have positive : 0 < (string.length : Int) := by
    have some_byte := List.length_pos_of_ne_nil some_text
    omega
  have kept : Keeps (appendBlock garbage _ string _) _ :=
    appendBlock_keeps counted.empty fits positive
  rw [Int.toNat_natCast, List.take_length, List.nil_append] at kept
  rw [LongStringCopy, LongStringAppend, if_neg (by omega), if_neg (by omega)]
  exact kept

theorem copyBlock_none (counted : Counted st text) (some_text : string ≠ [])
    (small : string.length < 2147483648)
    (full : ¬ BlockFits { st with len := 0 } string string.length) :
    LongStringCopy garbage st string string.length = none := by
  have positive : 0 < (string.length : Int) := by
    have some_byte := List.length_pos_of_ne_nil some_text
    omega
  rw [LongStringCopy, LongStringAppend, if_neg (by omega), if_neg (by omega), appendBlock,
    Int.toNat_natCast, if_neg (Nat.lt_irrefl _)]
  rw [BlockFits] at full
  dsimp only at full
  have slots := st.slot_size.toNat_lt
  have grows : int32 ((st.allocated.toNat : Int) - 0) ≤ string.length ∧
      ((st.allocated.toNat : Int) + string.length + st.slot_size.toNat) % 4294967296 ≤
        string.length := by
    by_contra enough
    refine full ⟨Int.le_refl _, by omega, fun grow => ?_⟩
    omega
  have room : ∃ b A, blockRoom garbage { st with len := 0 } string.length = (A, some b) ∧
      b.capacity ≤ string.length := by
    rw [blockRoom, if_pos grows.1]
    cases buf : st.buf with
    | some b =>
      refine ⟨_, _, rfl, ?_⟩
      change (UInt32.ofInt _).toNat ≤ _
      rw [toNat_ofInt]
      dsimp only
      omega
    | none =>
      have zero := (counted.fresh buf).1
      rw [zero, UInt32.toNat_zero] at grows
      refine ⟨_, _, rfl, ?_⟩
      change (UInt32.ofInt _).toNat ≤ _
      rw [toNat_ofInt]
      dsimp only
      omega
  obtain ⟨b, A, same, small_room⟩ := room
  rw [same, Option.bind_some, Option.bind_eq_none_iff]
  intro buf copied
  rw [Option.map_eq_none_iff, Buffer.writeInt]
  have kept : buf.capacity = b.capacity := by
    rw [Buffer.copy] at copied
    split at copied
    case isTrue => rw [← Option.some.inj copied]
    case isFalse => cases copied
  have len : int32 (0 + (string.length : Int)) = string.length := by
    rw [Int.zero_add, int32_of_small (by omega) (by omega)]
  rw [len, if_pos (by omega), Int.toNat_natCast]
  exact Buffer.write_of_le (by omega)

end Copies

end SourceNavigator.LongStr

import Mathlib.Algebra.Ring.Nat
import SourceNavigator.LongStr.Buffer

/-!
Lines read into a long string (`LongStringFgets` in `misc/libutils/longstr.c`).

The inner loop copies bytes until the line ends, the stream ends or the buffer is full but for its
last byte; then the buffer grows by a slot and the loop goes on. Carriage returns are left out.

* `reads_lines_iff` says for which strings successive calls return the lines of a stream.
-/

namespace SourceNavigator.LongStr

/-! ### The source -/

/-- The variables of the loops of `LongStringFgets`, with what is left of the stream; `c` is
`none` for `EOF`. -/
structure Reading where
  stream : Text
  c : Option UInt8
  s : Int
  po : Nat
  buf : Buffer

/-- `while (s > 0 && (c = getc(fp)) != EOF && c != '\n')` -/
def readBytes : Text → Option UInt8 → Int → Nat → Buffer → Option Reading
  | [], c, s, po, buf => some ⟨[], if 0 < s then none else c, s, po, buf⟩
  | b :: stream, c, s, po, buf =>
    if 0 < s then
      if b = NEWLINE then some ⟨stream, some b, s, po, buf⟩
      else if b ≠ CARRIAGE_RETURN then
        match buf.write po b with
        | none => none
        | some buf => readBytes stream (some b) (s - 1) (po + 1) buf
      else readBytes stream (some b) s po buf
    else some ⟨b :: stream, c, s, po, buf⟩

/-- The loop around it, which may go on for ever if the slots have no size. -/
def fgetsLoop (slot_size : UInt16) : Nat → UInt32 → Reading → Option (UInt32 × Reading)
  | 0, _, _ => none
  | fuel + 1, allocated, r =>
    match readBytes r.stream r.c r.s r.po r.buf with
    | none => none
    | some r =>
      if r.s ≠ 0 then some (allocated, r)
      else
        let allocated := allocated + slot_size.toUInt32
        fgetsLoop slot_size fuel allocated
          { r with
            s := int32 ((allocated.toNat : Int) - r.po - 1)
            buf := r.buf.ckrealloc allocated.toNat }

/-- What follows the loops: the string, the rest of the stream, and whether the buffer is
returned. -/
def fgetsEnd (slot_size : UInt16) (loop : UInt32 × Reading) : Option (LongString × Text × Bool) :=
  (loop.2.buf.write loop.2.po 0).map fun buf =>
    (⟨loop.1, slot_size, int32 loop.2.po, some buf⟩, loop.2.stream,
      !(loop.2.c.isNone && int32 loop.2.po == 0))

variable (garbage : Nat → UInt8)

/-- The buffer and its count at the start of a call. -/
def LongString.room (st : LongString) : UInt32 × Buffer :=
  match st.buf with
  | some b => (st.allocated, b)
  | none => (st.slot_size.toUInt32, ⟨st.slot_size.toNat, garbage⟩)

/-- `LongStringFgets`, where a new buffer has any bytes. -/
def LongStringFgets (st : LongString) (stream : Text) : Option (LongString × Text × Bool) :=
  let room := st.room garbage
  (fgetsLoop st.slot_size (stream.length + 2) room.1
    ⟨stream, none, int32 ((room.1.toNat : Int) - 1), 0, room.2⟩).bind (fgetsEnd st.slot_size)

/-! ### Lines -/

/-- A line without its carriage returns. -/
def clean (line : Text) : Text := line.filter (· != CARRIAGE_RETURN)

/-- The lines of a stream. What follows the last newline is a line if it is not empty. -/
def lines (stream : Text) : List Text :=
  let parts := (stream.splitOn NEWLINE).map clean
  if parts.getLast? = some [] then parts.dropLast else parts

/-- Successive calls return the lines, each as a text with its NUL and its length, and then
`NULL`. -/
def Reads : List Text → LongString → Text → Prop
  | [], st, stream => ∃ st' rest, LongStringFgets garbage st stream = some (st', rest, false)
  | l :: ls, st, stream =>
    ∃ st' rest b, LongStringFgets garbage st stream = some (st', rest, true) ∧
      st'.buf = some b ∧ b.Holds l ∧ b.bytes l.length = 0 ∧ st'.len = l.length ∧
      Reads ls st' rest

/-- The count of the buffer after a line: enough slots for the line and one byte more than its
NUL. -/
def grown (slot allocated l : Nat) : Nat :=
  if l + 1 < allocated then allocated else allocated + slot * ((l + 1 - allocated) / slot + 1)

/-- There is room for lines of some lengths in a buffer of some capacity that is believed to have
`allocated` bytes. -/
def LinesFit (slot : Nat) : List Nat → Nat → Nat → Prop
  | [], allocated, capacity => allocated = 1 ∨ 0 < capacity
  | l :: ls, allocated, capacity =>
    1 ≤ allocated ∧ allocated ≤ 2 ^ 31 ∧ l < 2 ^ 31 ∧
      (allocated ≤ capacity + 1 ∨ l < capacity) ∧
      LinesFit slot ls (grown slot allocated l)
        (if l + 1 < allocated then capacity else grown slot allocated l)

instance (slot : Nat) : (ls : List Nat) → (allocated capacity : Nat) →
    Decidable (LinesFit slot ls allocated capacity)
  | [], allocated, capacity => inferInstanceAs (Decidable (allocated = 1 ∨ 0 < capacity))
  | l :: ls, allocated, capacity =>
    haveI := instDecidableLinesFit slot ls (grown slot allocated l)
      (if l + 1 < allocated then capacity else grown slot allocated l)
    inferInstanceAs (Decidable (_ ∧ _ ∧ _ ∧ _ ∧ LinesFit slot ls (grown slot allocated l)
      (if l + 1 < allocated then capacity else grown slot allocated l)))

/-! ### The loops -/

section Loop

variable {slot : UInt16} {fuel : Nat} {A : UInt32} {stream : Text} {c : Option UInt8} {s : Int}
  {po : Nat} {buf : Buffer} {b : UInt8}

theorem fgetsLoop_eof (space : 0 < s) :
    fgetsLoop slot (fuel + 1) A ⟨[], c, s, po, buf⟩ = some (A, ⟨[], none, s, po, buf⟩) := by
  have left : s ≠ 0 := by omega
  rw [fgetsLoop, readBytes, if_pos space]
  exact if_pos left

theorem fgetsLoop_newline (space : 0 < s) :
    fgetsLoop slot (fuel + 1) A ⟨NEWLINE :: stream, c, s, po, buf⟩ =
      some (A, ⟨stream, some NEWLINE, s, po, buf⟩) := by
  have left : s ≠ 0 := by omega
  rw [fgetsLoop, readBytes, if_pos space, if_pos rfl]
  exact if_pos left

theorem fgetsLoop_return (space : 0 < s) :
    fgetsLoop slot (fuel + 1) A ⟨CARRIAGE_RETURN :: stream, c, s, po, buf⟩ =
      fgetsLoop slot (fuel + 1) A ⟨stream, some CARRIAGE_RETURN, s, po, buf⟩ := by
  rw [fgetsLoop, readBytes, if_pos space, if_neg (by decide), if_neg (fun other => other rfl),
    fgetsLoop]

theorem fgetsLoop_byte (space : 0 < s) (newline : b ≠ NEWLINE) (ret : b ≠ CARRIAGE_RETURN) :
    fgetsLoop slot (fuel + 1) A ⟨b :: stream, c, s, po, buf⟩ =
      (buf.write po b).bind fun buf =>
        fgetsLoop slot (fuel + 1) A ⟨stream, some b, s - 1, po + 1, buf⟩ := by
  rw [fgetsLoop, readBytes, if_pos space, if_neg newline, if_pos ret]
  cases buf.write po b with
  | none => rfl
  | some buf =>
    rw [Option.bind_some, fgetsLoop]

theorem readBytes_stop (space : ¬ 0 < s) :
    readBytes stream c s po buf = some ⟨stream, c, s, po, buf⟩ := by
  cases stream with
  | nil => rw [readBytes, if_neg space]
  | cons b stream => rw [readBytes, if_neg space]

/-- A full buffer grows, before the next byte is read. -/
theorem fgetsLoop_full :
    fgetsLoop slot (fuel + 1) A ⟨stream, c, 0, po, buf⟩ =
      fgetsLoop slot fuel (A + slot.toUInt32)
        ⟨stream, c, int32 (((A + slot.toUInt32).toNat : Int) - po - 1), po,
          buf.ckrealloc (A + slot.toUInt32).toNat⟩ := by
  rw [fgetsLoop, readBytes_stop (Int.lt_irrefl 0)]
  rfl

/-- A buffer that is too small grows by a slot. -/
theorem grown_step {slot A l : Nat} (some_slot : 0 < slot) (full : A ≤ l + 1) :
    grown slot A l = grown slot (A + slot) l := by
  rw [grown, if_neg (Nat.not_lt.mpr full), grown]
  split
  case isTrue enough =>
    have none_more : (l + 1 - A) / slot = 0 := Nat.div_eq_of_lt (by omega)
    rw [none_more, Nat.zero_add, Nat.mul_one]
  case isFalse more =>
    have rest : l + 1 - A = l + 1 - (A + slot) + slot := by omega
    rw [rest, Nat.add_div_right _ some_slot, Nat.mul_add slot (_ + 1) 1, Nat.mul_one]
    omega

/-- The count does not overflow where the text fits an `int`. -/
theorem toNat_grow (slot : UInt16) (small : A.toNat ≤ 2 ^ 31) :
    (A + slot.toUInt32).toNat = A.toNat + slot.toNat := by
  have bound := slot.toNat_lt
  rw [UInt32.toNat_add, UInt16.toNat_toUInt32]
  omega

theorem int32_of_small {n : Int} (low : -2147483648 ≤ n) (high : n < 2147483648) : int32 n = n := by
  rw [int32]
  exact Int.bmod_eq_of_le (by omega) (by omega)

end Loop

section Line

variable {slot : UInt16} {tail : Text}

/-- What a call leaves behind a line that was read from the start of `tail`. -/
def Line (slot : UInt16) (text tail : Text) (A C : Nat)
    (result : Option (LongString × Text × Bool)) : Prop :=
  ∃ A' b', result = some (⟨A', slot, text.length, some b'⟩, tail.drop 1,
      !(tail.isEmpty && text.isEmpty)) ∧
    A'.toNat = grown slot.toNat A text.length ∧
    b'.capacity = (if text.length + 1 < A then C else grown slot.toNat A text.length) ∧
    b'.Holds text ∧ b'.bytes text.length = 0

/-- The end of a line, where the NUL is written. -/
theorem fgetsEnd_line {A : UInt32} {text : Text} {c : Option UInt8} {s : Int} {buf : Buffer}
    (holds : buf.Holds text) (space : text.length + 1 < A.toNat) (small : text.length < 2 ^ 31)
    (room : text.length < buf.capacity) (tail : Text) (ended : c.isNone = tail.isEmpty) :
    Line slot text tail A.toNat buf.capacity
      (fgetsEnd slot (A, ⟨tail.drop 1, c, s, text.length, buf⟩)) := by
  have write := Buffer.write_of_lt (c := 0) room
  obtain ⟨kept, nul, same⟩ := holds.terminate write
  have len : int32 (text.length : Int) = text.length := int32_of_small (by omega) (by omega)
  have zero : ((text.length : Int) == 0) = text.isEmpty := by
    cases text <;> rfl
  refine ⟨A, _, ?_, ?_, ?_, kept, nul⟩
  · rw [fgetsEnd, write, Option.map_some]
    dsimp only
    rw [len, ended, zero]
  · rw [grown, if_pos space]
  · rw [if_pos space]

theorem fgetsEnd_none {A : UInt32} {r : Reading} (outside : r.buf.capacity ≤ r.po) :
    fgetsEnd slot (A, r) = none := by
  rw [fgetsEnd, Buffer.write_of_le outside]
  rfl

/-- A buffer that was full is one with a slot more. -/
theorem Line.regrow {text : Text} {A C : Nat} {result : Option (LongString × Text × Bool)}
    (some_slot : 0 < slot.toNat) (full : A ≤ text.length + 1)
    (line : Line slot text tail (A + slot.toNat) (A + slot.toNat) result) :
    Line slot text tail A C result := by
  obtain ⟨A', b', same, count, capacity, holds, nul⟩ := line
  have step := grown_step some_slot full
  refine ⟨A', b', same, count.trans step.symm, ?_, holds, nul⟩
  rw [if_neg (Nat.not_lt.mpr full), step, capacity]
  split
  case isTrue enough => rw [grown, if_pos enough]
  case isFalse => rfl

/-- The rest of a line, where the buffer has space for more than the NUL. -/
theorem loop_line (ends : tail = [] ∨ ∃ rest, tail = NEWLINE :: rest) {raw : Text}
    (newline : NEWLINE ∉ raw) {fuel : Nat} (enough : raw.length + 1 ≤ fuel)
    {A : UInt32} (text : Text) {c : Option UInt8} {buf : Buffer} (holds : buf.Holds text)
    (space : text.length + 1 < A.toNat) (small : (text ++ clean raw).length < 2 ^ 31)
    (some_slot : A.toNat ≤ (text ++ clean raw).length + 1 → 0 < slot.toNat)
    (room : A.toNat ≤ buf.capacity + 1 ∨ (text ++ clean raw).length < buf.capacity) :
    Line slot (text ++ clean raw) tail A.toNat buf.capacity
      ((fgetsLoop slot fuel A
        ⟨raw ++ tail, c, (A.toNat : Int) - text.length - 1, text.length, buf⟩).bind
          (fgetsEnd slot)) := by
  obtain ⟨fuel, rfl⟩ : ∃ n, fuel = n + 1 := ⟨fuel - 1, by omega⟩
  have left : 0 < (A.toNat : Int) - text.length - 1 := by omega
  induction raw generalizing fuel A text c buf with
  | nil =>
    rw [clean, List.filter_nil, List.append_nil] at small some_slot room ⊢
    have inside : text.length < buf.capacity := by omega
    rcases ends with rfl | ⟨rest, rfl⟩
    · rw [List.append_nil, fgetsLoop_eof left]
      exact fgetsEnd_line holds space small inside [] rfl
    · rw [List.nil_append, fgetsLoop_newline left]
      exact fgetsEnd_line holds space small inside (NEWLINE :: rest) rfl
  | cons b raw ih =>
    rw [List.mem_cons, not_or] at newline
    rw [List.length_cons] at enough
    by_cases ret : b = CARRIAGE_RETURN
    · have gone : clean (b :: raw) = clean raw := by simp [clean, ret]
      rw [gone] at small some_slot room ⊢
      rw [List.cons_append, ret, fgetsLoop_return left]
      exact ih newline.2 text holds space small some_slot room fuel (by omega) left
    · have more : text ++ clean (b :: raw) = text ++ [b] ++ clean raw := by simp [clean, ret]
      have size : (text ++ [b]).length = text.length + 1 := by simp
      have longer : text.length + 1 ≤ (text ++ [b] ++ clean raw).length := by
        rw [List.length_append, size]
        exact Nat.le_add_right _ _
      rw [more] at small some_slot room ⊢
      have write := Buffer.write_of_lt (c := b) (by omega : text.length < buf.capacity)
      have next := holds.write write
      rw [List.cons_append, fgetsLoop_byte left (Ne.symm newline.1) ret, write, Option.bind_some]
      by_cases full : (text ++ [b]).length + 1 < A.toNat
      · have back : (A.toNat : Int) - text.length - 1 - 1 = A.toNat - (text ++ [b]).length - 1 := by
          omega
        rw [back, ← size]
        exact ih newline.2 _ next full small some_slot room fuel (by omega) (by omega)
      · have last : A.toNat = (text ++ [b]).length + 1 := by omega
        have zero : (A.toNat : Int) - text.length - 1 - 1 = 0 := by omega
        have count := toNat_grow slot (A := A) (by omega)
        obtain ⟨fuel, rfl⟩ : ∃ n, fuel = n + 1 := ⟨fuel - 1, by omega⟩
        have space' : int32 (((A + slot.toUInt32).toNat : Int) - (text ++ [b]).length - 1) =
            (A + slot.toUInt32).toNat - (text ++ [b]).length - 1 := by
          have bound := slot.toNat_lt
          exact int32_of_small (by omega) (by omega)
        rw [zero, fgetsLoop_full, ← size, space']
        have some_slot' := some_slot (by omega)
        refine Line.regrow some_slot' (by omega) ?_
        rw [← count]
        exact ih newline.2 _ (Buffer.holds_ckrealloc.mpr next) (by omega) small
          (fun _ => some_slot') (.inl (Nat.le_succ _)) fuel (by omega) (by omega)

/-- A line that ends behind a buffer that is believed to be larger. -/
theorem loop_overrun (ends : tail = [] ∨ ∃ rest, tail = NEWLINE :: rest) {raw : Text}
    (newline : NEWLINE ∉ raw) {fuel : Nat} {A : UInt32} {po : Nat} {c : Option UInt8} {buf : Buffer}
    (believed : buf.capacity + 1 < A.toNat) (inside : po ≤ buf.capacity)
    (long : buf.capacity ≤ po + (clean raw).length) :
    (fgetsLoop slot (fuel + 1) A ⟨raw ++ tail, c, (A.toNat : Int) - po - 1, po, buf⟩).bind
      (fgetsEnd slot) = none := by
  have left : 0 < (A.toNat : Int) - po - 1 := by omega
  induction raw generalizing po c buf with
  | nil =>
    rcases ends with rfl | ⟨rest, rfl⟩
    · rw [List.append_nil, fgetsLoop_eof left]
      exact fgetsEnd_none long
    · rw [List.nil_append, fgetsLoop_newline left]
      exact fgetsEnd_none long
  | cons b raw ih =>
    rw [List.mem_cons, not_or] at newline
    by_cases ret : b = CARRIAGE_RETURN
    · have gone : clean (b :: raw) = clean raw := by simp [clean, ret]
      rw [gone] at long
      rw [List.cons_append, ret, fgetsLoop_return left]
      exact ih newline.2 believed inside long left
    · have more : (clean (b :: raw)).length = (clean raw).length + 1 := by simp [clean, ret]
      rw [more] at long
      rw [List.cons_append, fgetsLoop_byte left (Ne.symm newline.1) ret]
      rcases Nat.lt_or_eq_of_le inside with before | at_end
      · have back : (A.toNat : Int) - po - 1 - 1 = A.toNat - (po + 1 : Nat) - 1 := by omega
        have long' : buf.capacity ≤ po + 1 + (clean raw).length := by omega
        rw [Buffer.write_of_lt before, Option.bind_some, back]
        exact ih newline.2 believed before long' (by omega)
      · rw [Buffer.write_of_le (Nat.le_of_eq at_end.symm)]
        rfl

end Line

/-! ### A call -/

section Call

variable {garbage : Nat → UInt8} {st : LongString} {raw stream : Text}

/-- A line for which there is room is returned as a whole. -/
theorem fgets_line (tail : Text)
    (ends : tail = [] ∨ ∃ rest, tail = NEWLINE :: rest) (newline : NEWLINE ∉ raw)
    (counted : 1 ≤ (st.room garbage).1.toNat) (int : (st.room garbage).1.toNat ≤ 2 ^ 31)
    (small : (clean raw).length < 2 ^ 31)
    (some_slot : (st.room garbage).1.toNat ≤ (clean raw).length + 1 → 0 < st.slot_size.toNat)
    (room : (st.room garbage).1.toNat ≤ (st.room garbage).2.capacity + 1 ∨
      (clean raw).length < (st.room garbage).2.capacity) :
    Line st.slot_size (clean raw) tail (st.room garbage).1.toNat (st.room garbage).2.capacity
      (LongStringFgets garbage st (raw ++ tail)) := by
  rw [LongStringFgets]
  generalize (st.room garbage).1 = A at *
  generalize (st.room garbage).2 = buf at *
  have start : int32 ((A.toNat : Int) - 1) = A.toNat - (0 : Nat) - 1 := by
    rw [int32_of_small (by omega) (by omega)]
    omega
  have enough : raw.length + 1 ≤ (raw ++ tail).length + 1 := by
    rw [List.length_append]
    omega
  rw [start]
  by_cases full : A.toNat = 1
  · have zero : (A.toNat : Int) - (0 : Nat) - 1 = 0 := by omega
    have count := toNat_grow st.slot_size int
    have space : int32 (((A + st.slot_size.toUInt32).toNat : Int) - (0 : Nat) - 1) =
        (A + st.slot_size.toUInt32).toNat - (0 : Nat) - 1 := by
      have bound := st.slot_size.toNat_lt
      exact int32_of_small (by omega) (by omega)
    rw [zero, fgetsLoop_full, space]
    have some_slot' := some_slot (by omega)
    refine Line.regrow some_slot' (by omega) ?_
    rw [← count]
    exact loop_line ends newline enough [] Buffer.holds_nil
      (by rw [count, full, List.length_nil]; omega) small (fun _ => some_slot')
      (.inl (Nat.le_succ _))
  · exact loop_line ends newline (Nat.le_succ_of_le enough) [] Buffer.holds_nil
      (by rw [List.length_nil]; omega) small some_slot room

/-- A line for which there is no room is written behind the buffer. -/
theorem fgets_overrun (tail : Text) (ends : tail = [] ∨ ∃ rest, tail = NEWLINE :: rest)
    (newline : NEWLINE ∉ raw) (int : (st.room garbage).1.toNat ≤ 2 ^ 31)
    (believed : (st.room garbage).2.capacity + 1 < (st.room garbage).1.toNat)
    (long : (st.room garbage).2.capacity ≤ (clean raw).length) :
    LongStringFgets garbage st (raw ++ tail) = none := by
  rw [LongStringFgets]
  generalize (st.room garbage).1 = A at *
  generalize (st.room garbage).2 = buf at *
  have start : int32 ((A.toNat : Int) - 1) = A.toNat - (0 : Nat) - 1 := by
    rw [int32_of_small (by omega) (by omega)]
    omega
  rw [start]
  exact loop_overrun ends newline believed (Nat.zero_le _) (by omega)

/-- With a count that gives no space nothing is read. -/
theorem fgets_nothing (wrong : (st.room garbage).1.toNat = 0 ∨ 2 ^ 31 < (st.room garbage).1.toNat) :
    LongStringFgets garbage st stream =
      ((st.room garbage).2.write 0 0).map fun buf =>
        (⟨(st.room garbage).1, st.slot_size, 0, some buf⟩, stream, false) := by
  rw [LongStringFgets]
  generalize (st.room garbage).1 = A at *
  generalize (st.room garbage).2 = buf at *
  have negative : int32 ((A.toNat : Int) - 1) < 0 := by
    have bound := A.toNat_lt
    rw [int32, Int.bmod_def]
    split <;> omega
  have stop : ¬ 0 < int32 ((A.toNat : Int) - 1) := by omega
  have left : int32 ((A.toNat : Int) - 1) ≠ 0 := by omega
  rw [fgetsLoop, readBytes_stop stop]
  simp only [if_pos left, Option.bind_some, fgetsEnd]
  rfl

/-- The length is an `int`. -/
theorem fgets_len_lt {st' : LongString} {rest : Text} {b : Bool}
    (h : LongStringFgets garbage st stream = some (st', rest, b)) : st'.len < 2147483648 := by
  obtain ⟨loop, _, last⟩ := Option.bind_eq_some_iff.mp h
  obtain ⟨buf, _, result⟩ := Option.map_eq_some_iff.mp last
  obtain ⟨rfl, _⟩ := Prod.mk.inj result
  have bound := Int.bmod_lt (x := (loop.2.po : Int)) (m := 4294967296) (by decide)
  have small : int32 loop.2.po < 2147483648 := by
    rw [int32]
    omega
  dsimp only
  exact small

end Call

/-! ### Successive calls -/

section Reads

variable {garbage : Nat → UInt8} {st : LongString} {raw rest stream : Text}

theorem newline_cases (stream : Text) :
    NEWLINE ∉ stream ∨ ∃ raw rest, NEWLINE ∉ raw ∧ stream = raw ++ NEWLINE :: rest := by
  by_cases newline : NEWLINE ∈ stream
  · obtain ⟨raw, rest, rfl, first⟩ := List.eq_append_cons_of_mem newline
    exact .inr ⟨raw, rest, first, rfl⟩
  · exact .inl newline

theorem lines_last (newline : NEWLINE ∉ stream) :
    lines stream = if clean stream = [] then [] else [clean stream] := by
  rw [lines, List.splitOn_eq_singleton newline]
  simp

theorem lines_cons (newline : NEWLINE ∉ raw) :
    lines (raw ++ NEWLINE :: rest) = clean raw :: lines rest := by
  have some_part : (rest.splitOn NEWLINE).map clean ≠ [] := by
    simp [List.splitOn_ne_nil]
  obtain ⟨p, ps, parts⟩ := List.exists_cons_of_ne_nil some_part
  rw [lines, lines, List.splitOn_append_cons_self, List.splitOn_eq_singleton newline,
    List.map_append, parts, List.map_singleton, List.singleton_append]
  simp only [List.getLast?_cons_cons]
  split <;> rfl

/-- The string behind a call has the room that the line leaves. -/
theorem room_of_buf {b : Buffer} (buf : st.buf = some b) : st.room garbage = (st.allocated, b) := by
  rw [LongString.room, buf]

/-- A call and the calls behind it, for a line that is returned. -/
theorem reads_cons_iff (some_slot : 0 < st.slot_size.toNat) (tail : Text) (ls : List Nat)
    (texts : List Text) (ends : tail = [] ∨ ∃ rest, tail = NEWLINE :: rest) (newline : NEWLINE ∉ raw)
    (returned : (tail.isEmpty && (clean raw).isEmpty) = false)
    (next : ∀ st' : LongString, st'.slot_size = st.slot_size → st'.buf.isSome →
      (Reads garbage texts st' (tail.drop 1) ↔
        LinesFit st.slot_size.toNat ls (st'.room garbage).1.toNat (st'.room garbage).2.capacity)) :
    Reads garbage (clean raw :: texts) st (raw ++ tail) ↔
      LinesFit st.slot_size.toNat ((clean raw).length :: ls) (st.room garbage).1.toNat
        (st.room garbage).2.capacity := by
  rw [Reads, LinesFit]
  by_cases wrong : (st.room garbage).1.toNat = 0 ∨ 2 ^ 31 < (st.room garbage).1.toNat
  · refine iff_of_false ?_ (by omega)
    rintro ⟨st', rest, b, run, _⟩
    rw [fgets_nothing wrong] at run
    obtain ⟨buf, _, same⟩ := Option.map_eq_some_iff.mp run
    cases same
  · rw [not_or, Nat.not_lt] at wrong
    by_cases small : (clean raw).length < 2 ^ 31
    · by_cases room : (st.room garbage).1.toNat ≤ (st.room garbage).2.capacity + 1 ∨
          (clean raw).length < (st.room garbage).2.capacity
      · obtain ⟨A', b', run, count, capacity, holds, nul⟩ :=
          fgets_line tail ends newline (by omega) wrong.2 small (fun _ => some_slot) room
        have later := next ⟨A', st.slot_size, (clean raw).length, some b'⟩ rfl rfl
        rw [room_of_buf rfl] at later
        dsimp only at later
        rw [count, capacity] at later
        rw [run, returned, ← later]
        constructor
        · rintro ⟨st', rest, b, same, _, _, _, _, reads⟩
          obtain ⟨rfl, rest_eq⟩ := Prod.mk.inj (Option.some.inj same)
          obtain ⟨rfl, _⟩ := Prod.mk.inj rest_eq
          exact ⟨by omega, wrong.2, small, room, reads⟩
        · rintro ⟨_, _, _, _, reads⟩
          exact ⟨_, _, b', rfl, rfl, holds, nul, rfl, reads⟩
      · refine iff_of_false ?_ (by tauto)
        rintro ⟨st', rest, b, run, _⟩
        rw [fgets_overrun tail ends newline wrong.2 (by omega) (by omega)] at run
        cases run
    · refine iff_of_false ?_ (by tauto)
      rintro ⟨st', rest, b, run, _, _, _, len, _⟩
      have bound := fgets_len_lt run
      omega

/-- The call behind the last line. -/
theorem reads_nil_iff (some_slot : 0 < st.slot_size.toNat) (newline : NEWLINE ∉ raw)
    (empty : clean raw = []) :
    Reads garbage [] st raw ↔
      LinesFit st.slot_size.toNat [] (st.room garbage).1.toNat (st.room garbage).2.capacity := by
  rw [Reads, LinesFit]
  by_cases wrong : (st.room garbage).1.toNat = 0 ∨ 2 ^ 31 < (st.room garbage).1.toNat
  · rw [fgets_nothing wrong]
    constructor
    · rintro ⟨st', rest, same⟩
      obtain ⟨buf, write, _⟩ := Option.map_eq_some_iff.mp same
      exact .inr (Buffer.write_eq_some write).1
    · intro enough
      rw [Buffer.write_of_lt (by omega)]
      exact ⟨_, _, rfl⟩
  · rw [not_or, Nat.not_lt] at wrong
    have size : (clean raw).length = 0 := by rw [empty, List.length_nil]
    by_cases room : (st.room garbage).1.toNat ≤ (st.room garbage).2.capacity + 1 ∨
        (clean raw).length < (st.room garbage).2.capacity
    · obtain ⟨A', b', run, _⟩ :=
        fgets_line [] (.inl rfl) newline (by omega) wrong.2 (by omega) (fun _ => some_slot) room
      rw [List.append_nil, empty] at run
      exact iff_of_true ⟨_, _, run⟩ (by omega)
    · refine iff_of_false ?_ (by omega)
      rintro ⟨st', rest, run⟩
      have overrun : LongStringFgets garbage st (raw ++ []) = none :=
        fgets_overrun [] (.inl rfl) newline wrong.2 (by omega) (by omega)
      rw [List.append_nil, run] at overrun
      cases overrun

/-- Successive calls return the lines of the stream exactly if there is room for them. -/
theorem reads_lines_iff (garbage : Nat → UInt8) (stream : Text) (st : LongString) (some_slot : 0 < st.slot_size.toNat) :
    Reads garbage (lines stream) st stream ↔
      LinesFit st.slot_size.toNat ((lines stream).map List.length) (st.room garbage).1.toNat
        (st.room garbage).2.capacity := by
  induction size : stream.length using Nat.strong_induction_on generalizing stream st with
  | _ n ih =>
    rcases newline_cases stream with newline | ⟨raw, rest, newline, rfl⟩
    · rw [lines_last newline]
      by_cases empty : clean stream = []
      · rw [if_pos empty]
        exact reads_nil_iff some_slot newline empty
      · rw [if_neg empty]
        have last : ∀ st' : LongString, st'.slot_size = st.slot_size → st'.buf.isSome →
            (Reads garbage [] st' [] ↔ LinesFit st.slot_size.toNat []
              (st'.room garbage).1.toNat (st'.room garbage).2.capacity) := by
          intro st' slot _
          rw [← slot] at some_slot ⊢
          exact reads_nil_iff some_slot List.not_mem_nil rfl
        have whole := reads_cons_iff some_slot [] [] [] (.inl rfl) newline (by simp [empty]) last
        rwa [List.append_nil] at whole
    · rw [lines_cons newline]
      have shorter : rest.length < n := by
        rw [← size, List.length_append, List.length_cons]
        omega
      refine reads_cons_iff some_slot (NEWLINE :: rest) _ _ (.inr ⟨rest, rfl⟩) newline rfl fun st' slot _ => ?_
      have later := ih _ shorter rest st' (by rwa [slot]) rfl
      rwa [slot] at later

/-- Lines of a fresh string with slots of four bytes. -/
theorem fresh_lines :
    Reads (fun _ => 0) (lines (ascii "ab\r\nabc\n\na longer line")) ⟨0, 4, 0, none⟩
      (ascii "ab\r\nabc\n\na longer line") :=
  (reads_lines_iff (fun _ => 0) (ascii "ab\r\nabc\n\na longer line") ⟨0, 4, 0, none⟩
    (by decide)).mpr (by decide)

/-- A string that was read from an empty file has no count, and no line is read into it. -/
theorem no_line_read :
    ¬ ∀ (garbage : Nat → UInt8) (stream : Text) (st : LongString), 0 < st.slot_size.toNat →
      Reads garbage (lines stream) st stream := by
  intro h
  have reads := h (fun _ => 0) [97, NEWLINE] ⟨0, 4, 0, some ⟨1, fun _ => 0⟩⟩ (by decide)
  have parts : lines [97, NEWLINE] = [[97]] := by decide
  rw [parts] at reads
  obtain ⟨st', rest, b, run, _⟩ := reads
  rw [fgets_nothing (.inl rfl)] at run
  obtain ⟨buf, _, same⟩ := Option.map_eq_some_iff.mp run
  cases same

end Reads

end SourceNavigator.LongStr

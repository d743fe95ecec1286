import SourceNavigator.Lib.Run
import SourceNavigator.LongStr.Operations

/-!
What a long string represents, over runs of its operations (`misc/libutils/longstr.c`).

The operations compute with `allocated`, which is what the buffer is believed to have. `min` and
`readfile` change the buffer and leave the count; an empty copy sets the length and leaves the
bytes; counts and sizes wrap around.

* `exec_keeps` says that an operation that meets its condition has a result, and keeps what a
  string represents; `run_represents` says so for runs.
-/

namespace SourceNavigator.LongStr

open Lib

/-! ### Strings that count their buffer right -/

/-- A string without a buffer, or one that counts it right; there may be no NUL. -/
structure Counted (st : LongString) (text : Text) : Prop where
  len : st.len = text.length
  small : text.length < 2147483648
  fresh : st.buf = none → st.allocated = 0 ∧ text = []
  used : ∀ b, st.buf = some b →
    b.Holds text ∧ text.length < st.allocated.toNat ∧ st.allocated.toNat ≤ b.capacity

/-- The string counts its buffer right, and the text has its NUL. -/
def Inv (st : LongString) (text : Text) : Prop :=
  Counted st text ∧ ∀ b, st.buf = some b → b.bytes text.length = 0

/-- An operation has a result, which represents a text. -/
def Keeps (result : Option LongString) (text : Text) : Prop :=
  ∃ st', result = some st' ∧ Inv st' text

section Strings

variable {st : LongString} {text : Text} {b : Buffer}

theorem Inv.represents (inv : Inv st text) (buf : st.buf = some b) : Represents st b text := by
  obtain ⟨holds, fits, capacity⟩ := inv.1.used b buf
  exact ⟨buf, holds, inv.2 b buf, inv.1.len, fits, capacity⟩

/-- What an operation leaves that has written the NUL. -/
theorem inv_of_buf {A : UInt32} {slot : UInt16} {len : Int} (holds : b.Holds text)
    (nul : b.bytes text.length = 0) (same : len = text.length) (small : text.length < 2147483648)
    (fits : text.length < A.toNat) (capacity : A.toNat ≤ b.capacity) :
    Inv ⟨A, slot, len, some b⟩ text := by
  have count : Counted ⟨A, slot, len, some b⟩ text := by
    constructor
    case len => exact same
    case small => exact small
    case fresh =>
      intro none
      cases none
    case used =>
      intro b' same
      obtain rfl := Option.some.inj same
      exact ⟨holds, fits, capacity⟩
  refine ⟨count, ?_⟩
  intro b' same
  obtain rfl := Option.some.inj same
  exact nul

/-- A NUL that is written behind the text, in a buffer that has room for it. -/
theorem keeps_of_terminate {A : UInt32} (slot : UInt16) {len : Int} (holds : b.Holds text)
    (same : len = text.length) (small : text.length < 2147483648) (fits : text.length < A.toNat)
    (capacity : A.toNat ≤ b.capacity) :
    Keeps ((b.write text.length 0).map fun buf => ⟨A, slot, len, some buf⟩) text := by
  have write := Buffer.write_of_lt (c := 0) (Nat.lt_of_lt_of_le fits capacity)
  obtain ⟨kept, nul, room⟩ := holds.terminate write
  rw [write]
  exact ⟨_, rfl, inv_of_buf kept nul same small fits (by omega)⟩

theorem inv_none (slot : UInt16) : Inv ⟨0, slot, 0, none⟩ [] := by
  refine ⟨⟨rfl, by decide, fun _ => ⟨rfl, rfl⟩, ?_⟩, ?_⟩ <;>
    · intro b some
      cases some

/-- A copy starts with the text empty. -/
theorem Counted.empty (counted : Counted st text) : Counted { st with len := 0 } [] := by
  constructor
  case len => rfl
  case small => decide
  case fresh => exact fun none => ⟨(counted.fresh none).1, rfl⟩
  case used =>
    intro b same
    obtain ⟨_, fits, capacity⟩ := counted.used b same
    exact ⟨Buffer.holds_nil, Nat.zero_lt_of_lt fits, capacity⟩

end Strings

/-! ### Appends -/

/-- What an append or a copy puts behind the text. -/
def piece (string : Text) (len : Int) : Text :=
  if len < 0 then cString string else string.take len.toNat

/-- There is room for a text behind the one that is there, or it can be made. -/
def TextFits (st : LongString) (piece : Text) : Prop :=
  st.len + piece.length < 2147483648 ∧
    (piece = [] ∨ st.allocated.toNat ≤ st.len + 2147483648) ∧
    (0 < st.slot_size.toNat ∨ st.buf.isSome ∧ st.len + piece.length < st.allocated.toNat)

/-- There is room for a block, where a new count may wrap around. -/
def BlockFits (st : LongString) (string : Text) (len : Int) : Prop :=
  len ≤ string.length ∧ st.len + len < 2147483648 ∧
    (int32 (st.allocated.toNat - st.len) ≤ len →
      st.len + len < (st.allocated.toNat + len + st.slot_size.toNat) % 4294967296)

/-- There is room for what an append puts behind the text. -/
def PieceFits (st : LongString) (string : Text) (len : Int) : Prop :=
  if len = 0 then True else if len < 0 then TextFits st (cString string) else BlockFits st string len

section Append

variable {garbage : Nat → UInt8} {st : LongString} {text string rest : Text} {b : Buffer} {len : Int}

theorem headD_eq_zero (empty : cString string = []) : string.headD 0 = 0 := by
  cases string with
  | nil => rfl
  | cons c string =>
    by_contra nul
    change c ≠ 0 at nul
    rw [cString_cons nul] at empty
    cases empty

/-- The room that an append starts with. -/
theorem Counted.room (garbage : Nat → UInt8) (counted : Counted st text)
    (some_buf : st.buf.isSome ∨ 0 < st.slot_size.toNat) :
    (st.room garbage).2.Holds text ∧ text.length < (st.room garbage).1.toNat ∧
      (st.room garbage).1.toNat ≤ (st.room garbage).2.capacity ∧
      ((st.room garbage).1 = st.allocated ∨
        (st.room garbage).1.toNat = st.slot_size.toNat ∧ st.buf = none) := by
  cases buf : st.buf with
  | some b =>
    obtain ⟨holds, fits, capacity⟩ := counted.used b buf
    rw [LongString.room, buf]
    exact ⟨holds, fits, capacity, .inl rfl⟩
  | none =>
    obtain ⟨_, rfl⟩ := counted.fresh buf
    rw [buf, Option.isSome_none] at some_buf
    have slots : 0 < st.slot_size.toNat := some_buf.resolve_left Bool.false_ne_true
    rw [LongString.room, buf]
    exact ⟨Buffer.holds_nil, slots, Nat.le_refl _, .inr ⟨rfl, rfl⟩⟩

/-- The text up to the NUL is appended, and there is room for what was to follow it. -/
theorem appendText_keeps (garbage : Nat → UInt8) (counted : Counted st text) (fits : TextFits st (cString string ++ rest)) :
    ∃ st', appendText garbage st string = some st' ∧ Inv st' (text ++ cString string) ∧
      TextFits st' rest := by
  obtain ⟨small, int, slots⟩ := fits
  have bound := st.slot_size.toNat_lt
  have some_buf : st.buf.isSome ∨ 0 < st.slot_size.toNat := slots.symm.imp_left And.left
  obtain ⟨holds, space, capacity, count⟩ := counted.room garbage some_buf
  have len := counted.len
  have first := counted.small
  have sizes : (text ++ cString string).length = text.length + (cString string).length :=
    List.length_append
  rw [len, List.length_append] at small slots
  rw [len] at int
  have loop : Appended st.slot_size (st.room garbage).1 (text ++ cString string)
      (appendLoop st.slot_size
        (appendFuel (int32 (((st.room garbage).1.toNat : Int) - st.len - 1)) string)
        (st.room garbage).1 string (int32 (((st.room garbage).1.toNat : Int) - st.len - 1))
        st.len.toNat (st.room garbage).2) := by
    have po : st.len.toNat = text.length := by omega
    rw [po, len]
    by_cases empty : cString string = []
    · rw [empty, List.append_nil]
      exact ⟨_, _, appendLoop_end_fuel _ (headD_eq_zero empty), holds, space, capacity, .inl rfl⟩
    · have believed : (st.room garbage).1.toNat ≤ text.length + 2147483648 := by
        have some_text := int.resolve_left (fun none => empty (List.append_eq_nil_iff.mp none).1)
        rcases count with same | ⟨same, _⟩
        · rw [same]
          omega
        · omega
      have left : int32 (((st.room garbage).1.toNat : Int) - text.length - 1) =
          (st.room garbage).1.toNat - text.length - 1 :=
        int32_of_small (by omega) (by omega)
      rw [left]
      refine appendLoop_text string text (lt_appendFuel _ _) holds space capacity (by omega) ?_
      intro full
      rcases slots with slots | ⟨some_buf, enough⟩
      · exact slots
      · rcases count with same | ⟨_, none⟩
        · rw [same] at full
          omega
        · rw [none] at some_buf
          cases some_buf
  obtain ⟨A', buf', run, holds', fits', capacity', grew⟩ := loop
  obtain ⟨st', stored, inv⟩ := keeps_of_terminate st.slot_size holds' rfl (by omega) fits' capacity'
  refine ⟨st', ?_, inv, ?_⟩
  · have value : int32 ((text ++ cString string).length : Int) = (text ++ cString string).length :=
      int32_of_small (by omega) (by omega)
    rw [appendText, if_neg (by omega), run, Option.bind_some, value, stored]
  · obtain ⟨buf, _, same⟩ := Option.map_eq_some_iff.mp stored
    rw [← same, TextFits]
    dsimp only
    rw [sizes]
    refine ⟨by omega, ?_, ?_⟩
    · rcases grew with rfl | ⟨_, le⟩
      · rcases count with same | ⟨same, _⟩
        · rw [same]
          rcases int with none | le
          · exact .inl (List.append_eq_nil_iff.mp none).2
          · exact .inr (by omega)
        · exact .inr (by omega)
      · exact .inr (by omega)
    · rcases grew with rfl | ⟨some_slot, _⟩
      · refine slots.imp_right fun enough => ?_
        rcases count with same | ⟨_, none⟩
        · rw [same]
          exact ⟨rfl, by omega⟩
        · rw [none] at enough
          cases enough.1
      · exact .inl some_slot

theorem appendStrings_cons (strings : List Text) :
    LongStringAppendStrings garbage st (string :: strings) =
      (appendText garbage st string).bind fun st => LongStringAppendStrings garbage st strings :=
  rfl

/-- Strings that are appended one after the other. -/
theorem appendStrings_keeps (garbage : Nat → UInt8) (strings : List Text) (inv : Inv st text)
    (fits : strings = [] ∨ TextFits st (strings.flatMap cString)) :
    Keeps (LongStringAppendStrings garbage st strings) (text ++ strings.flatMap cString) := by
  induction strings generalizing st text with
  | nil =>
    rw [List.flatMap_nil, List.append_nil]
    exact ⟨st, rfl, inv⟩
  | cons string strings ih =>
    rw [List.flatMap_cons] at fits ⊢
    obtain ⟨st', first, inv', rest⟩ :=
      appendText_keeps garbage inv.1 (fits.resolve_left (List.cons_ne_nil _ _))
    rw [appendStrings_cons, first, ← List.append_assoc]
    exact ih inv' (.inr rest)

theorem toNat_ofInt (n : Int) : (UInt32.ofInt n).toNat = (n % 4294967296).toNat := by
  have low : 0 ≤ n % 4294967296 := Int.emod_nonneg n (by decide)
  have high : n % 4294967296 < 4294967296 := Int.emod_lt_of_pos n (by decide)
  have fits : (n % 4294967296).toNat < 4294967296 := by omega
  exact UInt32.toNat_ofNat_of_lt' fits

/-- The buffer that a block is copied to. -/
theorem blockRoom_counted (garbage : Nat → UInt8) (counted : Counted st text)
    (fits : BlockFits st string len) (some_len : 0 < len) :
    ∃ b, (blockRoom garbage st len).2 = some b ∧ b.Holds text ∧
      text.length + len < (blockRoom garbage st len).1.toNat ∧
      (blockRoom garbage st len).1.toNat ≤ b.capacity := by
  obtain ⟨_, _, grown⟩ := fits
  have slots := st.slot_size.toNat_lt
  rw [blockRoom]
  split
  case isTrue full =>
    have enough := grown full
    rw [counted.len] at enough
    cases buf : st.buf with
    | some b =>
      obtain ⟨holds, _, _⟩ := counted.used b buf
      refine ⟨_, rfl, holds, ?_, Nat.le_refl _⟩
      rw [toNat_ofInt]
      omega
    | none =>
      obtain ⟨zero, rfl⟩ := counted.fresh buf
      refine ⟨_, rfl, Buffer.holds_nil, ?_, Nat.le_refl _⟩
      rw [zero, UInt32.toNat_zero, Int.natCast_zero, Int.zero_add] at enough
      rw [toNat_ofInt]
      omega
  case isFalse space =>
    have count := st.allocated.toNat_lt
    have below : int32 (st.allocated.toNat - st.len) ≤ st.allocated.toNat - st.len ∨
        st.allocated.toNat - st.len < 0 := by
      rw [int32, Int.bmod_def]
      split <;> omega
    cases buf : st.buf with
    | some b =>
      obtain ⟨holds, fits, capacity⟩ := counted.used b buf
      rw [counted.len] at below space
      have enough : (text.length : Int) + len < st.allocated.toNat := by omega
      exact ⟨b, rfl, holds, enough, capacity⟩
    | none =>
      obtain ⟨zero, rfl⟩ := counted.fresh buf
      rw [counted.len, zero, UInt32.toNat_zero, List.length_nil, int32_of_small (by decide) (by decide)]
        at space
      omega

/-- A block is appended. -/
theorem appendBlock_keeps (counted : Counted st text) (fits : BlockFits st string len)
    (some_len : 0 < len) :
    Keeps (appendBlock garbage st string len) (text ++ string.take len.toNat) := by
  obtain ⟨b, room, holds, space, capacity⟩ := blockRoom_counted garbage counted fits some_len
  obtain ⟨inside, small, _⟩ := fits
  have size : (string.take len.toNat).length = len.toNat := by
    rw [List.length_take]
    omega
  obtain ⟨b', copied, holds', same⟩ := copy_holds (string.take len.toNat) holds (by omega)
  have total : (text ++ string.take len.toNat).length = text.length + len.toNat := by
    rw [List.length_append, size]
  rw [counted.len] at small
  have value : int32 (st.len + len) = (text ++ string.take len.toNat).length := by
    rw [counted.len, total, int32_of_small (by omega) (by omega)]
    omega
  rw [appendBlock, if_neg (by omega), room, Option.bind_some, counted.len, copied, Option.bind_some,
    ← counted.len, value, Buffer.writeInt, if_pos (by omega), Int.toNat_natCast]
  rw [← same] at capacity
  exact keeps_of_terminate st.slot_size holds' rfl (by omega) (by omega) capacity

theorem append_keeps (garbage : Nat → UInt8) (counted : Counted st text) (fits : PieceFits st string len)
    (nul : len = 0 → ∀ b, st.buf = some b → b.bytes text.length = 0) :
    Keeps (LongStringAppend garbage st string len) (text ++ piece string len) := by
  rw [LongStringAppend, piece]
  rw [PieceFits] at fits
  by_cases zero : len = 0
  · rw [zero] at nul ⊢
    rw [if_pos rfl, if_neg (Int.lt_irrefl 0), Int.toNat_zero, List.take_zero, List.append_nil]
    exact ⟨st, rfl, counted, nul rfl⟩
  · rw [if_neg zero] at fits ⊢
    split at fits
    case isTrue negative =>
      rw [if_pos negative, if_pos negative]
      rw [← List.append_nil (cString string)] at fits
      obtain ⟨st', run, inv, _⟩ := appendText_keeps garbage counted fits
      exact ⟨st', run, inv⟩
    case isFalse positive =>
      rw [if_neg positive, if_neg positive]
      exact appendBlock_keeps counted fits (by omega)

end Append

/-! ### The other operations -/

/-- There is room in the buffer that `makespace` makes. -/
def SpaceFits (st : LongString) (siz : UInt32) : Prop :=
  st.buf = none ∨ st.allocated < siz + 1 → st.len < (siz + 1 + st.slot_size.toUInt32).toNat

/-- The first line of a stream, or nothing if the count leaves no space. -/
def firstLine (garbage : Nat → UInt8) (st : LongString) (stream : Text) : Text :=
  if 2147483648 < (st.room garbage).1.toNat then []
  else clean (stream.takeWhile (· != NEWLINE))

/-- There is room for a line, or it can be made. -/
def LineFits (garbage : Nat → UInt8) (st : LongString) (line : Text) : Prop :=
  line.length < 2147483648 ∧
    (0 < st.slot_size.toNat ∨ st.buf.isSome ∧ line.length + 1 < (st.room garbage).1.toNat)

/-- A buffer that grows by slots has room for the line. -/
theorem lt_grown {slot A l : Nat} (some_slot : A ≤ l + 1 → 0 < slot) : l < grown slot A l := by
  rw [grown]
  split
  case isTrue enough => exact Nat.lt_of_succ_lt enough
  case isFalse full =>
    have more := Nat.lt_mul_div_succ (l + 1 - A) (some_slot (Nat.not_lt.mp full))
    omega

section Others

variable {garbage : Nat → UInt8} {st : LongString} {text : Text}

theorem makespace_keeps {siz : UInt32} (inv : Inv st text) (fits : SpaceFits st siz) :
    Keeps (LongStringMakespace garbage st siz) text := by
  have small := inv.1.small
  have len := inv.1.len
  rw [SpaceFits, len] at fits
  rw [LongStringMakespace]
  cases buf : st.buf with
  | none =>
    obtain ⟨_, rfl⟩ := inv.1.fresh buf
    have enough := fits (.inl buf)
    exact keeps_of_terminate st.slot_size Buffer.holds_nil len small (by omega) (Nat.le_refl _)
  | some b =>
    obtain ⟨holds, _, _⟩ := inv.1.used b buf
    dsimp only
    split
    case isTrue less =>
      have enough := fits (.inr less)
      exact ⟨_, rfl, inv_of_buf holds (inv.2 b buf) len small (by omega) (Nat.le_refl _)⟩
    case isFalse => exact ⟨st, rfl, inv⟩

theorem min_keeps (inv : Inv st text) (fits : st.buf.isSome → st.allocated.toNat ≤ st.len + 1) :
    Inv (LongStringMin st) text := by
  have len := inv.1.len
  rw [LongStringMin]
  cases buf : st.buf with
  | none =>
    rw [Option.map_none, ← buf]
    exact inv
  | some b =>
    obtain ⟨holds, space, _⟩ := inv.1.used b buf
    rw [buf] at fits
    have enough := fits rfl
    have room : st.allocated.toNat ≤ (st.len + 1).toNat := by omega
    exact inv_of_buf holds (inv.2 b buf) len inv.1.small space room

theorem readfile_keeps {contents : Text} (small : contents.length < 2147483648)
    (count : st.allocated.toNat = contents.length + 1) :
    Keeps (LongStringReadFile garbage st (some contents)) contents := by
  have room : ([] : Text).length + contents.length ≤
      ((st.buf.getD ⟨0, garbage⟩).ckrealloc (contents.length + 1)).capacity := by
    rw [List.length_nil, Nat.zero_add]
    exact Nat.le_succ _
  obtain ⟨b, copied, holds, same⟩ := copy_holds contents Buffer.holds_nil room
  have capacity : st.allocated.toNat ≤ b.capacity := by
    rw [same, count]
    exact Nat.le_refl _
  rw [List.length_nil, Int.natCast_zero] at copied
  rw [LongStringReadFile, if_pos small]
  dsimp only
  rw [copied, Option.bind_some]
  exact keeps_of_terminate st.slot_size holds rfl small (by omega) capacity

theorem fgets_keeps {stream : Text} (inv : Inv st text)
    (fits : LineFits garbage st (firstLine garbage st stream)) :
    Keeps ((LongStringFgets garbage st stream).map Prod.fst) (firstLine garbage st stream) := by
  obtain ⟨small, slots⟩ := fits
  have some_buf : st.buf.isSome ∨ 0 < st.slot_size.toNat := slots.symm.imp_left And.left
  obtain ⟨_, space, capacity, _⟩ := inv.1.room garbage some_buf
  rw [firstLine] at small slots ⊢
  by_cases wrong : 2147483648 < (st.room garbage).1.toNat
  · rw [if_pos wrong, fgets_nothing (.inr wrong), Option.map_map]
    exact keeps_of_terminate st.slot_size Buffer.holds_nil rfl (by decide) (Nat.zero_lt_of_lt space)
      capacity
  · rw [if_neg wrong] at small slots ⊢
    have parts := List.takeWhile_append_dropWhile (p := (· != NEWLINE)) (l := stream)
    have newline : NEWLINE ∉ stream.takeWhile (· != NEWLINE) := by
      intro mem
      have other := List.mem_takeWhile_imp mem
      exact absurd other (by decide)
    have ends : stream.dropWhile (· != NEWLINE) = [] ∨
        ∃ rest, stream.dropWhile (· != NEWLINE) = NEWLINE :: rest := by
      cases tail : stream.dropWhile (· != NEWLINE) with
      | nil => exact .inl rfl
      | cons c rest =>
        have first := List.head?_dropWhile_not (· != NEWLINE) stream
        rw [tail] at first
        have stop : c = NEWLINE := by simpa using first
        exact .inr ⟨rest, congrArg (· :: rest) stop⟩
    have line : Line st.slot_size _ _ _ _ (LongStringFgets garbage st _) :=
      fgets_line _ ends newline (by omega) (by omega) small
        (fun full => slots.resolve_right (by omega)) (.inl (by omega))
    rw [parts] at line
    obtain ⟨A', b', run, count, room, holds, nul⟩ := line
    rw [run]
    refine ⟨_, rfl, inv_of_buf holds nul rfl small ?_ ?_⟩
    · rw [count]
      exact lt_grown fun full => slots.resolve_right (by omega)
    · rw [count, room, grown]
      split
      case isTrue => exact capacity
      case isFalse => exact Nat.le_refl _

theorem trim_keeps (trim_pat : Option Text) (inv : Inv st text) :
    Keeps (LongStringTrim st trim_pat)
      (trimText (trim_pat.getD [32, 9, NEWLINE, CARRIAGE_RETURN]) text) := by
  rw [LongStringTrim]
  cases buf : st.buf with
  | none =>
    obtain ⟨_, rfl⟩ := inv.1.fresh buf
    exact ⟨st, rfl, inv⟩
  | some b =>
    obtain ⟨holds, space, capacity⟩ := inv.1.used b buf
    have small := inv.1.small
    dsimp only
    generalize trim_pat.getD [32, 9, NEWLINE, CARRIAGE_RETURN] = pat
    have enough : text.length < b.capacity + 1 := by omega
    have leading := skipLeading_text pat holds (inv.2 b buf) (by omega) [] text rfl enough
    obtain ⟨len, bytes⟩ := trim_text pat holds
    have le := trimmed_length_le pat text
    have shorter := (List.dropWhile_suffix (l := text) fun c => c != 0 && strchr pat c).length_le
    rw [List.length_nil] at leading
    rw [leading, Option.bind_some, inv.1.len, len, if_neg (by omega)]
    refine keeps_of_terminate st.slot_size ?_ rfl (by omega) (by omega) capacity
    intro k lt
    rw [bytes k lt]
    exact congrArg some (if_pos lt).symm

theorem dup_keeps (inv : Inv st text) (fits : st.len + 1 < 2147483648) :
    Keeps (LongStringDup st) text := by
  have len := inv.1.len
  rw [LongStringDup]
  cases buf : st.buf with
  | none => exact ⟨st, rfl, inv⟩
  | some b =>
    obtain ⟨holds, space, capacity⟩ := inv.1.used b buf
    have count : (UInt32.ofInt (st.len + 1)).toNat = text.length + 1 := by
      rw [toNat_ofInt]
      omega
    dsimp only
    rw [if_pos (by omega)]
    have room : (UInt32.ofInt (st.len + 1)).toNat ≤ (b.ckrealloc (st.len + 1).toNat).capacity := by
      change _ ≤ (st.len + 1).toNat
      omega
    exact ⟨_, rfl, inv_of_buf holds (inv.2 b buf) len inv.1.small (by omega) room⟩

theorem free_inv : Inv (LongStringFree st) [] := inv_none st.slot_size

end Others

/-! ### Runs -/

/-- The operations on a string, with their arguments; `dup` names the string that is copied, and
`readfile` has the contents of the file if it can be opened. -/
inductive Op
  | copy (string : Text) (len : Int)
  | append (string : Text) (len : Int)
  | copystrings (strings : List Text)
  | appendstrings (strings : List Text)
  | makespace (siz : UInt32)
  | min
  | readfile (file : Option Text)
  | fgets (stream : Text)
  | trim (trim_pat : Option Text)
  | dup (istr : Nat)
  | free

/-- What an operation makes of a string. -/
def exec (garbage : Nat → UInt8) (strings : Nat → LongString) (i : Nat) : Op → Option LongString
  | .copy string len => LongStringCopy garbage (strings i) string len
  | .append string len => LongStringAppend garbage (strings i) string len
  | .copystrings l => LongStringCopyStrings garbage (strings i) l
  | .appendstrings l => LongStringAppendStrings garbage (strings i) l
  | .makespace siz => LongStringMakespace garbage (strings i) siz
  | .min => some (LongStringMin (strings i))
  | .readfile file => LongStringReadFile garbage (strings i) file
  | .fgets stream => (LongStringFgets garbage (strings i) stream).map Prod.fst
  | .trim trim_pat => LongStringTrim (strings i) trim_pat
  | .dup istr => LongStringDup (strings istr)
  | .free => some (LongStringFree (strings i))

/-- The text that an operation is meant to leave. -/
def meant (garbage : Nat → UInt8) (strings : Nat → LongString) (texts : Nat → Text) (i : Nat) :
    Op → Text
  | .copy string len => piece string len
  | .append string len => texts i ++ piece string len
  | .copystrings l => l.flatMap cString
  | .appendstrings l => texts i ++ l.flatMap cString
  | .makespace _ => texts i
  | .min => texts i
  | .readfile file => file.getD []
  | .fgets stream => firstLine garbage (strings i) stream
  | .trim trim_pat => trimText (trim_pat.getD [32, 9, NEWLINE, CARRIAGE_RETURN]) (texts i)
  | .dup istr => texts istr
  | .free => []

/-- A copy of nothing leaves the first byte. -/
def StartsWithNul (st : LongString) : Prop := ∀ b, st.buf = some b → b.bytes 0 = 0

/-- The condition of an operation. -/
def Fits (garbage : Nat → UInt8) (strings : Nat → LongString) (i : Nat) : Op → Prop
  | .copy string len =>
    PieceFits { strings i with len := 0 } string len ∧ (len = 0 → StartsWithNul (strings i))
  | .append string len => PieceFits (strings i) string len
  | .copystrings l =>
    if l = [] then StartsWithNul (strings i)
    else TextFits { strings i with len := 0 } (l.flatMap cString)
  | .appendstrings l => l = [] ∨ TextFits (strings i) (l.flatMap cString)
  | .makespace siz => SpaceFits (strings i) siz
  | .min => (strings i).buf.isSome → (strings i).allocated.toNat ≤ (strings i).len + 1
  | .readfile none => True
  | .readfile (some contents) =>
    contents.length < 2147483648 ∧ (strings i).allocated.toNat = contents.length + 1
  | .fgets stream => LineFits garbage (strings i) (firstLine garbage (strings i) stream)
  | .trim _ => True
  | .dup istr => (strings istr).len + 1 < 2147483648
  | .free => True

instance (st : LongString) (text : Text) : Decidable (TextFits st text) :=
  inferInstanceAs (Decidable (_ ∧ _ ∧ (_ ∨ _ ∧ _)))

instance (st : LongString) (string : Text) (len : Int) : Decidable (PieceFits st string len) :=
  haveI : Decidable (BlockFits st string len) := inferInstanceAs (Decidable (_ ∧ _ ∧ (_ → _)))
  inferInstanceAs (Decidable (if len = 0 then True else if len < 0 then TextFits _ _ else _))

instance : (st : LongString) → Decidable (StartsWithNul st)
  | ⟨_, _, _, none⟩ => isTrue fun _ same => by cases same
  | ⟨_, _, _, some b⟩ =>
    decidable_of_iff (b.bytes 0 = 0)
      ⟨fun nul _ same => Option.some.inj same ▸ nul, fun all => all b rfl⟩

instance (garbage : Nat → UInt8) (strings : Nat → LongString) (i : Nat) :
    (op : Op) → Decidable (Fits garbage strings i op)
  | .copy string len => inferInstanceAs (Decidable (PieceFits _ string len ∧ (_ → StartsWithNul _)))
  | .append string len => inferInstanceAs (Decidable (PieceFits _ string len))
  | .copystrings l => inferInstanceAs (Decidable (if l = [] then StartsWithNul _ else TextFits _ _))
  | .appendstrings l => inferInstanceAs (Decidable (l = [] ∨ TextFits _ _))
  | .makespace _ => inferInstanceAs (Decidable ((strings i).buf = none ∨ _ → _))
  | .min => inferInstanceAs (Decidable (_ → _ ≤ _))
  | .readfile none => isTrue trivial
  | .readfile (some contents) => inferInstanceAs (Decidable (contents.length < _ ∧ _))
  | .fgets _ => inferInstanceAs (Decidable (_ ∧ (_ ∨ _ ∧ _)))
  | .trim _ => isTrue trivial
  | .dup istr => inferInstanceAs (Decidable ((strings istr).len + 1 < _))
  | .free => isTrue trivial

/-- Long strings, with the texts that they are meant to have. -/
structure State where
  strings : Nat → LongString
  texts : Nat → Text

/-- The strings before the first operation. -/
def initial (default_slot_size : Int) (slot_size : Nat → Int) : State :=
  ⟨fun i => LongStringInit default_slot_size (slot_size i), fun _ => []⟩

/-- An operation on one of the strings. -/
def Step (garbage : Nat → UInt8) (s : State) (a : Nat × Op) (t : State) : Prop :=
  ∃ st, exec garbage s.strings a.1 a.2 = some st ∧
    t = ⟨Function.update s.strings a.1 st,
      Function.update s.texts a.1 (meant garbage s.strings s.texts a.1 a.2)⟩

/-- The operation meets its condition. -/
def Ok (garbage : Nat → UInt8) (s : State) (a : Nat × Op) : Prop := Fits garbage s.strings a.1 a.2

instance (garbage : Nat → UInt8) (s : State) (a : Nat × Op) : Decidable (Ok garbage s a) :=
  inferInstanceAs (Decidable (Fits garbage s.strings a.1 a.2))

/-- Every string that has a buffer has its text. -/
def Sound (s : State) : Prop :=
  ∀ i b, (s.strings i).buf = some b → Represents (s.strings i) b (s.texts i)

/-- Every string counts its buffer right and has its text. -/
def AllInv (s : State) : Prop := ∀ i, Inv (s.strings i) (s.texts i)

section Runs

variable {garbage : Nat → UInt8} {strings : Nat → LongString} {texts : Nat → Text}

/-- An operation that meets its condition has a result, which represents the text that is meant. -/
theorem exec_keeps (inv : AllInv ⟨strings, texts⟩) (i : Nat) (op : Op)
    (fits : Fits garbage strings i op) :
    Keeps (exec garbage strings i op) (meant garbage strings texts i op) := by
  cases op with
  | copy string len =>
    have whole := append_keeps garbage (inv i).1.empty fits.1 fits.2
    rwa [List.nil_append] at whole
  | append string len => exact append_keeps garbage (inv i).1 fits fun _ => (inv i).2
  | copystrings l =>
    rw [Fits] at fits
    have empty := (inv i).1.empty
    cases l with
    | nil => exact ⟨_, rfl, empty, fits⟩
    | cons string l =>
      rw [if_neg (List.cons_ne_nil string l), List.flatMap_cons] at fits
      obtain ⟨st', run, inv', rest⟩ := appendText_keeps garbage empty fits
      have later := appendStrings_keeps garbage l inv' (.inr rest)
      rw [List.nil_append] at later
      rw [exec, LongStringCopyStrings, appendStrings_cons, run, meant, List.flatMap_cons]
      exact later
  | appendstrings l => exact appendStrings_keeps garbage l (inv i) fits
  | makespace siz => exact makespace_keeps (inv i) fits
  | min => exact ⟨_, rfl, min_keeps (inv i) fits⟩
  | readfile file =>
    cases file with
    | none => exact ⟨_, rfl, free_inv⟩
    | some contents =>
      exact readfile_keeps fits.1 fits.2
  | fgets stream => exact fgets_keeps (inv i) fits
  | trim trim_pat => exact trim_keeps trim_pat (inv i)
  | dup istr => exact dup_keeps (inv istr) fits
  | free => exact ⟨_, rfl, free_inv⟩

/-- A step that meets its condition keeps what the strings represent. -/
theorem step_keeps (s : State) (a : Nat × Op) (t : State) (inv : AllInv s)
    (step : Guarded (Ok garbage) (Step garbage) s a t) : AllInv t := by
  obtain ⟨fits, st, run, rfl⟩ := step
  obtain ⟨st', run', kept⟩ := exec_keeps inv a.1 a.2 fits
  obtain rfl : st = st' := Option.some.inj (run.symm.trans run')
  intro i
  by_cases same : i = a.1
  · rw [same]
    dsimp only
    rw [Function.update_self, Function.update_self]
    exact kept
  · dsimp only
    rw [Function.update_of_ne same, Function.update_of_ne same]
    exact inv i

/-- In a run whose operations meet their conditions the strings have their texts in every state,
and no operation that meets its condition then writes behind a buffer. -/
theorem run_represents (garbage : Nat → UInt8) (default_slot_size : Int) (slot_size : Nat → Int)
    {ops : List (Nat × Op)} {s : State}
    (run : Run (Guarded (Ok garbage) (Step garbage)) (initial default_slot_size slot_size) ops s) :
    Sound s ∧ ∀ a, Ok garbage s a → (exec garbage s.strings a.1 a.2).isSome := by
  have init : AllInv (initial default_slot_size slot_size) := fun i => inv_none _
  have inv : AllInv s := run.invariant step_keeps init
  constructor
  · intro i b buf
    exact (inv i).represents buf
  · intro a fits
    obtain ⟨st, result, _⟩ := exec_keeps inv a.1 a.2 fits
    rw [result]
    rfl

/-- A string and its duplicate, with slots of four bytes. -/
theorem duplicate_represents :
    ∃ s, Run (Guarded (Ok fun _ => 7) (Step fun _ => 7)) (initial 500 fun _ => 4)
        [(0, .append (ascii "abcdef") (-1)), (0, .append (ascii "gh") 1), (1, .dup 0)] s ∧
      s.texts 1 = ascii "abcdefg" ∧ Sound s := by
  obtain ⟨s, run, text⟩ : ∃ s, Run (Guarded (Ok fun _ => 7) (Step fun _ => 7)) (initial 500 fun _ => 4)
        [(0, .append (ascii "abcdef") (-1)), (0, .append (ascii "gh") 1), (1, .dup 0)] s ∧
      s.texts 1 = ascii "abcdefg" := by
    refine ⟨_, .cons ⟨?_, _, rfl, rfl⟩ (.cons ⟨?_, _, rfl, rfl⟩
      (.cons ⟨?_, _, rfl, rfl⟩ (.nil _))), ?_⟩
    · decide
    · decide
    · decide
    · rfl
  exact ⟨s, run, text, (run_represents (fun _ => 7) 500 (fun _ => 4) run).1⟩

/-- After `min` the count is larger than the buffer. -/
theorem min_leaves_count :
    ¬ ∀ (garbage : Nat → UInt8) (default_slot_size : Int) (slot_size : Nat → Int)
      (ops : List (Nat × Op)) (s : State),
      Run (Step garbage) (initial default_slot_size slot_size) ops s → Sound s := by
  intro h
  have run : ∃ s, Run (Step fun _ => 0) (initial 500 fun _ => 0)
      [(0, .append (ascii "ab") (-1)), (0, .min)] s ∧ (s.strings 0).allocated = 500 ∧
      ∃ b, (s.strings 0).buf = some b ∧ b.capacity = 3 :=
    ⟨_, .cons ⟨_, rfl, rfl⟩ (.cons ⟨_, rfl, rfl⟩ (.nil _)), rfl, _, rfl, rfl⟩
  obtain ⟨s, run, count, b, buf, capacity⟩ := run
  have smaller := (h _ _ _ _ _ run 0 b buf).capacity
  rw [count, capacity] at smaller
  exact absurd smaller (by decide)

end Runs

end SourceNavigator.LongStr

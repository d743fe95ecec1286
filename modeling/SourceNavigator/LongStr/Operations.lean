import Mathlib.Data.List.DropRight
import SourceNavigator.LongStr.Fgets

/-!
The operations of long strings (`misc/libutils/longstr.c`).

Each operation computes with `allocated`, which is what the buffer is believed to have. `min` and
`readfile` change the buffer and leave the count; an empty copy sets the length and leaves the
bytes.

* `appendLoop_text` says what the loop of an append leaves in the buffer, `copy_holds` what a copied
  block does, and `trim_text` what is left of a trimmed text.
-/

namespace SourceNavigator.LongStr

/-! ### The source -/

section Code

variable (garbage : Nat → UInt8)

/-- `while (s-- > 0 && *pi) *po++ = *pi++;` -/
def copyBytes : Text → Int → Nat → Buffer → Option (Text × Nat × Buffer)
  | [], _, po, buf => some ([], po, buf)
  | c :: pi, s, po, buf =>
    if 0 < s ∧ c ≠ 0 then
      match buf.write po c with
      | none => none
      | some buf => copyBytes pi (s - 1) (po + 1) buf
    else some (c :: pi, po, buf)

/-- The loop around it, which may go on for ever if the slots have no size, and until the count
wraps around if there is no space for an `int`. -/
def appendLoop (slot_size : UInt16) : Nat → UInt32 → Text → Int → Nat → Buffer →
    Option (UInt32 × Nat × Buffer)
  | 0, _, _, _, _, _ => none
  | fuel + 1, allocated, pi, s, po, buf =>
    match copyBytes pi s po buf with
    | none => none
    | some (pi, po, buf) =>
      if pi.headD 0 = 0 then some (allocated, po, buf)
      else
        let allocated := allocated + slot_size.toUInt32
        appendLoop slot_size fuel allocated pi (int32 ((allocated.toNat : Int) - po - 1)) po
          (buf.ckrealloc allocated.toNat)

/-- Enough turns of the loop, where the slots have a size: one for each byte, or with a negative
space those until the count wraps around. -/
def appendFuel (s : Int) (string : Text) : Nat :=
  string.length + 2 + if s < 0 then 4294967296 else 0

/-- `memcpy` into the buffer, or `none` outside of it. -/
def Buffer.copy (b : Buffer) (i : Int) (string : Text) : Option Buffer :=
  if 0 ≤ i ∧ i + string.length ≤ b.capacity then
    some { b with
      bytes := fun k => if i.toNat ≤ k then string.getD (k - i.toNat) (b.bytes k) else b.bytes k }
  else none

/-- `buf[i] = c` with an `int` -/
def Buffer.writeInt (b : Buffer) (i : Int) (c : UInt8) : Option Buffer :=
  if 0 ≤ i then b.write i.toNat c else none

/-- The branch of `LongStringAppend` that copies until a NUL. -/
def appendText (st : LongString) (string : Text) : Option LongString :=
  let room := st.room garbage
  let s := int32 ((room.1.toNat : Int) - st.len - 1)
  if st.len < 0 then none
  else
    (appendLoop st.slot_size (appendFuel s string) room.1 string s st.len.toNat room.2).bind
      fun loop =>
        (loop.2.2.write loop.2.1 0).map fun buf =>
          { st with allocated := loop.1, len := int32 loop.2.1, buf := some buf }

/-- The count and the buffer of the branch that copies a block. -/
def blockRoom (st : LongString) (len : Int) : UInt32 × Option Buffer :=
  if int32 ((st.allocated.toNat : Int) - st.len) ≤ len then
    match st.buf with
    | some b =>
      let allocated := UInt32.ofInt (st.allocated.toNat + len + st.slot_size.toNat)
      (allocated, some (b.ckrealloc allocated.toNat))
    | none =>
      let allocated := UInt32.ofInt (len + st.slot_size.toNat)
      (allocated, some ⟨allocated.toNat, garbage⟩)
  else (st.allocated, st.buf)

/-- The branch of `LongStringAppend` that copies a block; a block that is longer than what
`string` points to is outside of memory. -/
def appendBlock (st : LongString) (string : Text) (len : Int) : Option LongString :=
  if string.length < len.toNat then none
  else
    (blockRoom garbage st len).2.bind fun buf =>
      (buf.copy st.len (string.take len.toNat)).bind fun buf =>
        (buf.writeInt (int32 (st.len + len)) 0).map fun buf =>
          { st with
            allocated := (blockRoom garbage st len).1, len := int32 (st.len + len), buf := some buf }

def LongStringAppend (st : LongString) (string : Text) (len : Int) : Option LongString :=
  if len = 0 then some st
  else if len < 0 then appendText garbage st string
  else appendBlock garbage st string len

def LongStringCopy (st : LongString) (string : Text) (len : Int) : Option LongString :=
  LongStringAppend garbage { st with len := 0 } string len

def LongStringAppendStrings (st : LongString) (strings : List Text) : Option LongString :=
  strings.foldlM (fun st string => LongStringAppend garbage st string (-1)) st

def LongStringCopyStrings (st : LongString) (strings : List Text) : Option LongString :=
  LongStringAppendStrings garbage { st with len := 0 } strings

def LongStringMakespace (st : LongString) (siz : UInt32) : Option LongString :=
  let siz := siz + 1
  let allocated := siz + st.slot_size.toUInt32
  match st.buf with
  | none =>
    ((⟨allocated.toNat, garbage⟩ : Buffer).write 0 0).map fun buf =>
      { st with allocated := allocated, buf := some buf }
  | some b =>
    if st.allocated < siz then
      some { st with allocated := allocated, buf := some (b.ckrealloc allocated.toNat) }
    else some st

/-- `LongStringMin`, which leaves `allocated`. -/
def LongStringMin (st : LongString) : LongString :=
  { st with buf := st.buf.map fun b => b.ckrealloc (st.len + 1).toNat }

def LongStringFree (st : LongString) : LongString :=
  { st with allocated := 0, len := 0, buf := none }

/-- `LongStringReadFile` of a file with these contents, or of one that cannot be opened. It is
undefined if the size is no `int`, and leaves `allocated`. -/
def LongStringReadFile (st : LongString) : Option Text → Option LongString
  | none => some (LongStringFree st)
  | some contents =>
    if contents.length < 2147483648 then
      let buf := (st.buf.getD ⟨0, garbage⟩).ckrealloc (contents.length + 1)
      ((buf.copy 0 contents).bind fun buf => buf.write contents.length 0).map fun buf =>
        { st with len := contents.length, buf := some buf }
    else none

/-- `strchr(trim_pat, c)`, which also finds the closing NUL. -/
def strchr (trim_pat : Text) (c : UInt8) : Bool := trim_pat.contains c || c == 0

/-- The loop that skips leading characters: how many it skips; `none` behind the buffer. -/
def skipLeading (trim_pat : Text) (b : Buffer) : Nat → Nat → Option Nat
  | 0, _ => none
  | fuel + 1, pbeg =>
    if pbeg < b.capacity then
      if b.bytes pbeg ≠ 0 ∧ strchr trim_pat (b.bytes pbeg) = true then
        skipLeading trim_pat b fuel (pbeg + 1)
      else some pbeg
    else none

/-- The loop that skips trailing characters, from `pbeg + n` back to `pbeg`. -/
def skipTrailing (trim_pat : Text) (b : Buffer) (pbeg : Nat) : Nat → Nat
  | 0 => 0
  | n + 1 => if strchr trim_pat (b.bytes (pbeg + (n + 1))) then skipTrailing trim_pat b pbeg n else n + 1

/-- The length that remains of the text behind the skipped characters. -/
def trimmedLen (trim_pat : Text) (b : Buffer) (len : Int) (pbeg : Nat) : Nat :=
  if len - 1 < pbeg then 0 else skipTrailing trim_pat b pbeg (len - 1 - pbeg).toNat + 1

/-- `LongStringTrim` -/
def LongStringTrim (st : LongString) (trim_pat : Option Text) : Option LongString :=
  match st.buf with
  | none => some st
  | some b =>
    let pat := trim_pat.getD [32, 9, NEWLINE, CARRIAGE_RETURN]
    (skipLeading pat b (b.capacity + 1) 0).bind fun pbeg =>
      let len := trimmedLen pat b st.len pbeg
      if b.capacity < pbeg + len then none
      else
        let moved : Buffer :=
          { b with bytes := fun k => if k < len then b.bytes (pbeg + k) else b.bytes k }
        (moved.write len 0).map fun buf => { st with len := len, buf := some buf }

/-- `LongStringDup`: what `ostr` becomes. -/
def LongStringDup (istr : LongString) : Option LongString :=
  match istr.buf with
  | none => some istr
  | some b =>
    let len := istr.len + 1
    if 0 ≤ len ∧ len < 2147483648 ∧ len ≤ b.capacity then
      some { istr with allocated := UInt32.ofInt len, buf := some (b.ckrealloc len.toNat) }
    else none

/-- `LongStringInit`, with the default size of a slot. -/
def LongStringInit (default_slot_size slot_size : Int) : LongString :=
  ⟨0, UInt16.ofInt (if 0 < slot_size then slot_size else default_slot_size), 0, none⟩

end Code

/-! ### Appended text -/

/-- The text in front of the first NUL. -/
def cString (string : Text) : Text := string.takeWhile (· != 0)

section Append

variable {slot : UInt16} {fuel : Nat} {A : UInt32} {c : UInt8} {pi : Text} {s : Int} {po : Nat}
  {buf : Buffer}

theorem cString_nul : cString (0 :: pi) = [] := rfl

theorem cString_cons (nul : c ≠ 0) : cString (c :: pi) = c :: cString pi := by
  simp [cString, nul]

theorem copyBytes_stop (stop : s ≤ 0 ∨ pi.headD 0 = 0) :
    copyBytes pi s po buf = some (pi, po, buf) := by
  cases pi with
  | nil => rfl
  | cons c pi =>
    rw [copyBytes]
    refine if_neg ?_
    rintro ⟨space, nul⟩
    exact stop.elim (by omega) nul

theorem appendLoop_end (nul : pi.headD 0 = 0) :
    appendLoop slot (fuel + 1) A pi s po buf = some (A, po, buf) := by
  rw [appendLoop, copyBytes_stop (.inr nul)]
  exact if_pos nul

theorem lt_appendFuel (s : Int) (string : Text) : string.length < appendFuel s string := by
  rw [appendFuel, Nat.add_assoc]
  exact Nat.lt_add_of_pos_right (Nat.add_pos_left (by decide) _)

theorem appendLoop_end_fuel (string : Text) (nul : pi.headD 0 = 0) :
    appendLoop slot (appendFuel s string) A pi s po buf = some (A, po, buf) := by
  obtain ⟨fuel, same⟩ := Nat.exists_eq_add_of_lt (Nat.zero_lt_of_lt (lt_appendFuel s string))
  rw [same]
  exact appendLoop_end nul

theorem appendLoop_byte (space : 0 < s) (nul : c ≠ 0) :
    appendLoop slot (fuel + 1) A (c :: pi) s po buf =
      (buf.write po c).bind fun buf => appendLoop slot (fuel + 1) A pi (s - 1) (po + 1) buf := by
  rw [appendLoop, copyBytes, if_pos ⟨space, nul⟩]
  cases buf.write po c with
  | none => rfl
  | some buf => rw [Option.bind_some, appendLoop]

/-- A full buffer grows by a slot. -/
theorem appendLoop_full (nul : c ≠ 0) (space : s ≤ 0) :
    appendLoop slot (fuel + 1) A (c :: pi) s po buf =
      appendLoop slot fuel (A + slot.toUInt32) (c :: pi)
        (int32 (((A + slot.toUInt32).toNat : Int) - po - 1)) po
        (buf.ckrealloc (A + slot.toUInt32).toNat) := by
  rw [appendLoop, copyBytes_stop (.inl space)]
  exact if_neg nul

/-- What the loop leaves: the text behind what the buffer had, in a buffer that was large enough
or has grown by slots. -/
def Appended (slot : UInt16) (A : UInt32) (text : Text) (result : Option (UInt32 × Nat × Buffer)) :
    Prop :=
  ∃ A' buf', result = some (A', text.length, buf') ∧ buf'.Holds text ∧ text.length < A'.toNat ∧
    A'.toNat ≤ buf'.capacity ∧
    (A' = A ∨ 0 < slot.toNat ∧ A'.toNat ≤ text.length + 1 + slot.toNat)

/-- The loop appends the string, up to its NUL. -/
theorem appendLoop_text (string text : Text) (enough : string.length + 1 ≤ fuel)
    (holds : buf.Holds text) (space : text.length < A.toNat) (capacity : A.toNat ≤ buf.capacity)
    (small : (text ++ cString string).length < 2 ^ 31)
    (some_slot : A.toNat ≤ (text ++ cString string).length → 0 < slot.toNat) :
    Appended slot A (text ++ cString string)
      (appendLoop slot fuel A string ((A.toNat : Int) - text.length - 1) text.length buf) := by
  induction string generalizing fuel A text buf with
  | nil =>
    obtain ⟨fuel, rfl⟩ := Nat.exists_eq_add_of_le' enough
    rw [cString, List.takeWhile_nil, List.append_nil]
    exact ⟨A, buf, appendLoop_end rfl, holds, space, capacity, .inl rfl⟩
  | cons c string ih =>
    rw [List.length_cons] at enough
    obtain ⟨fuel, rfl⟩ : ∃ n, fuel = n + 1 := ⟨fuel - 1, by omega⟩
    by_cases nul : c = 0
    · rw [nul, cString_nul, List.append_nil]
      exact ⟨A, buf, appendLoop_end rfl, holds, space, capacity, .inl rfl⟩
    · rw [cString_cons nul] at small some_slot ⊢
      have more : text ++ c :: cString string = text ++ [c] ++ cString string := by simp
      have size : (text ++ [c]).length = text.length + 1 := by simp
      have longer : text.length + 1 ≤ (text ++ [c] ++ cString string).length := by
        rw [List.length_append, size]
        exact Nat.le_add_right _ _
      rw [more] at small some_slot ⊢
      by_cases full : A.toNat = text.length + 1
      · -- the byte that is left is for the NUL
        have slots := some_slot (by omega)
        have count := toNat_grow slot (A := A) (by omega)
        have bound := slot.toNat_lt
        have zero : (A.toNat : Int) - text.length - 1 = 0 := by omega
        have space' : int32 (((A + slot.toUInt32).toNat : Int) - text.length - 1) =
            (A + slot.toUInt32).toNat - text.length - 1 :=
          int32_of_small (by omega) (by omega)
        have next : (buf.ckrealloc (A + slot.toUInt32).toNat).Holds text := holds
        have inside : text.length < (buf.ckrealloc (A + slot.toUInt32).toNat).capacity := by
          change text.length < (A + slot.toUInt32).toNat
          omega
        have write := Buffer.write_of_lt (c := c) inside
        obtain ⟨fuel, rfl⟩ : ∃ n, fuel = n + 1 := ⟨fuel - 1, by omega⟩
        have back : ((A + slot.toUInt32).toNat : Int) - text.length - 1 - 1 =
            (A + slot.toUInt32).toNat - (text ++ [c]).length - 1 := by
          omega
        rw [zero, appendLoop_full nul (Int.le_refl 0), space', appendLoop_byte (by omega) nul, write,
          Option.bind_some, back, ← size]
        have fuels : string.length + 1 ≤ fuel + 1 := by omega
        obtain ⟨A', buf', run, holds', room, fits, grew⟩ :=
          ih _ fuels (next.write write) (by omega) (Nat.le_refl _) small (fun _ => slots)
        refine ⟨A', buf', run, holds', room, fits, .inr ⟨slots, ?_⟩⟩
        rcases grew with rfl | ⟨_, le⟩
        · omega
        · exact le
      · have write := Buffer.write_of_lt (c := c) (by omega : text.length < buf.capacity)
        have back : (A.toNat : Int) - text.length - 1 - 1 = A.toNat - (text ++ [c]).length - 1 := by
          omega
        rw [appendLoop_byte (by omega) nul, write, Option.bind_some, back, ← size]
        exact ih _ (by omega) (holds.write write) (by omega) capacity small some_slot

/-- A block that is copied behind the text belongs to the text. -/
theorem copy_holds {text : Text} (string : Text) (holds : buf.Holds text)
    (room : text.length + string.length ≤ buf.capacity) :
    ∃ buf', buf.copy text.length string = some buf' ∧ buf'.Holds (text ++ string) ∧
      buf'.capacity = buf.capacity := by
  refine ⟨_, if_pos ⟨by omega, by omega⟩, ?_, rfl⟩
  intro k lt
  rw [Int.toNat_natCast]
  rcases Nat.lt_or_ge k text.length with before | behind
  · rw [List.getElem?_append_left before, holds k before]
    exact congrArg some (if_neg (Nat.not_le.mpr before)).symm
  · have inside : k - text.length < string.length := by
      rw [List.length_append] at lt
      omega
    rw [List.getElem?_append_right behind, List.getElem?_eq_getElem inside]
    refine congrArg some ((if_pos behind).trans ?_).symm
    rw [List.getD_eq_getElem?_getD, List.getElem?_eq_getElem inside, Option.getD_some]

end Append

/-! ### Trimmed text -/

section Trim

variable {pat : Text} {b : Buffer} {text : Text}

/-- What is left of a text: a NUL is no leading character to be skipped, but a trailing one, and
the first character that stays is not a trailing one. -/
def trimText (pat text : Text) : Text :=
  match text.dropWhile fun c => c != 0 && strchr pat c with
  | [] => []
  | c :: rest => c :: rest.rdropWhile (strchr pat)

theorem skipLeading_text (pat : Text) (holds : b.Holds text) (nul : b.bytes text.length = 0)
    (room : text.length < b.capacity) (pre suf : Text) (parts : text = pre ++ suf) {fuel : Nat}
    (enough : suf.length < fuel) :
    skipLeading pat b fuel pre.length =
      some (text.length - (suf.dropWhile fun c => c != 0 && strchr pat c).length) := by
  induction suf generalizing pre fuel with
  | nil =>
    obtain ⟨fuel, rfl⟩ : ∃ n, fuel = n + 1 := ⟨fuel - 1, by omega⟩
    rw [List.append_nil] at parts
    rw [← parts, skipLeading, if_pos room, nul]
    rfl
  | cons c suf ih =>
    obtain ⟨fuel, rfl⟩ : ∃ n, fuel = n + 1 := ⟨fuel - 1, by omega⟩
    have size : text.length = pre.length + (suf.length + 1) := by
      rw [parts, List.length_append, List.length_cons]
    have here : b.bytes pre.length = c := by
      have read := holds pre.length (by omega)
      rw [parts, List.getElem?_append_right (Nat.le_refl _), Nat.sub_self] at read
      exact (Option.some.inj read).symm
    rw [skipLeading, if_pos (by omega), here, List.dropWhile_cons]
    by_cases skipped : c ≠ 0 ∧ strchr pat c = true
    · have both : (c != 0 && strchr pat c) = true := by simp [skipped]
      have more : text = pre ++ [c] ++ suf := by simp [parts]
      have next : (pre ++ [c]).length = pre.length + 1 := by simp
      rw [if_pos skipped, if_pos both, ← next]
      exact ih _ more (by rw [List.length_cons] at enough; omega)
    · have neither : (c != 0 && strchr pat c) = false := by
        rw [Bool.eq_false_iff]
        intro both
        rw [Bool.and_eq_true, bne_iff_ne] at both
        exact skipped both
      rw [if_neg skipped, neither]
      simp [size]

theorem skipTrailing_text (pat : Text) (pbeg : Nat) (rest : Text)
    (holds : ∀ k < rest.length, rest[k]? = some (b.bytes (pbeg + (k + 1)))) :
    skipTrailing pat b pbeg rest.length = (rest.rdropWhile (strchr pat)).length := by
  induction rest using List.reverseRecOn with
  | nil => rfl
  | append_singleton rest c ih =>
    rw [List.length_append, List.length_singleton] at holds ⊢
    have last : b.bytes (pbeg + (rest.length + 1)) = c := by
      have read := holds rest.length (Nat.lt_succ_self _)
      rw [List.getElem?_append_right (Nat.le_refl _), Nat.sub_self] at read
      exact (Option.some.inj read).symm
    have front : ∀ k < rest.length, rest[k]? = some (b.bytes (pbeg + (k + 1))) := by
      intro k lt
      rw [← holds k (Nat.lt_succ_of_lt lt), List.getElem?_append_left lt]
    rw [skipTrailing, last, List.rdropWhile_concat]
    cases strchr pat c with
    | true => exact ih front
    | false => simp

theorem trimmed_length_le (pat text : Text) : (trimText pat text).length ≤
    (text.dropWhile fun c => c != 0 && strchr pat c).length := by
  rw [trimText]
  split
  case h_1 => exact Nat.zero_le _
  case h_2 c rest skipped =>
    rw [skipped, List.length_cons, List.length_cons]
    exact Nat.succ_le_succ (List.rdropWhile_prefix _ rest).length_le

/-- The trimmed text stands behind the leading characters, and has the length that is computed. -/
theorem trim_text (pat : Text) (holds : b.Holds text) :
    let pbeg := text.length - (text.dropWhile fun c => c != 0 && strchr pat c).length
    trimmedLen pat b text.length pbeg = (trimText pat text).length ∧
      ∀ k < (trimText pat text).length, (trimText pat text)[k]? = some (b.bytes (pbeg + k)) := by
  obtain ⟨skipped, parts⟩ := List.dropWhile_suffix (l := text) fun c => c != 0 && strchr pat c
  have size := congrArg List.length parts
  rw [List.length_append] at size
  rw [trimText]
  split
  case h_1 none_left =>
    refine ⟨if_pos ?_, fun k lt => absurd lt (Nat.not_lt_zero k)⟩
    rw [none_left, List.length_nil, Nat.sub_zero]
    omega
  case h_2 c rest left =>
    rw [left] at parts size ⊢
    rw [List.length_cons] at size ⊢
    have read : ∀ k < rest.length + 1, (c :: rest)[k]? = some (b.bytes (skipped.length + k)) := by
      intro k lt
      rw [← holds (skipped.length + k) (by omega), ← parts,
        List.getElem?_append_right (Nat.le_add_right _ _), Nat.add_sub_cancel_left]
    have pbeg : text.length - (rest.length + 1) = skipped.length := by omega
    have back : ((text.length : Int) - 1 - skipped.length).toNat = rest.length := by omega
    rw [pbeg]
    constructor
    · have trailing := skipTrailing_text (b := b) pat skipped.length rest
        fun k lt => read (k + 1) (Nat.succ_lt_succ lt)
      rw [trimmedLen, if_neg (by omega), back, trailing, List.length_cons]
    · intro k lt
      rw [List.length_cons] at lt
      have kept : (c :: rest.rdropWhile (strchr pat)) <+: (c :: rest) :=
        List.cons_prefix_cons.mpr ⟨rfl, List.rdropWhile_prefix _ rest⟩
      have le := (List.rdropWhile_prefix (strchr pat) rest).length_le
      rw [← read k (by omega), List.prefix_iff_getElem?.mp kept k lt]
      exact List.getElem?_eq_getElem lt

end Trim

end SourceNavigator.LongStr

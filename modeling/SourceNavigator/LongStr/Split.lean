import SourceNavigator.Db.LongString
import SourceNavigator.LongStr.Representation

/-!
Splitting a long string (`LongStringSplit` in `misc/libutils/longstr.c`).

The loop keeps where each field starts, and its size in a `short`; the arrays for them grow by
`FIELD_POINTER_SLOT_SIZE` and count their entries in an `unsigned short`. Where the maximum of
fields is reached the loop ends in the middle, and the end of the text is computed.

* `splitText_eq` says what fields the text is split into, and when the arrays are too small.
-/

namespace SourceNavigator.LongStr

open Db (int16)

/-! ### The source -/

/-- The arrays `field_value` and `field_size`: the entries they are believed to have, and those
they have. Both are counted in an `unsigned short` where the arrays are allocated. -/
structure FieldArrays where
  allocated_field_pointers : UInt16
  capacity : UInt16

/-- The arrays, with the entries that are set. -/
structure Fields extends FieldArrays where
  field_value : List Nat
  field_size : List Int

/-- The next field starts behind the separator at `p`. -/
def Fields.push (f : Fields) (p : Nat) : Option Fields :=
  let arrays : FieldArrays :=
    if f.field_value.length = f.allocated_field_pointers.toNat then
      ⟨f.allocated_field_pointers + 15, f.allocated_field_pointers + 15⟩
    else f.toFieldArrays
  if f.field_value.length < arrays.capacity.toNat then
    some ⟨arrays, f.field_value ++ [p + 1],
      f.field_size ++ [int16 ((p : Int) - f.field_value.getLastD 0)]⟩
  else none

/-- Where the loop ends: at the NUL, or at a separator with what follows; with the bytes of the
text as they are then. -/
structure Stop where
  p : Nat
  rest : Option Text
  memory : Text
  fields : Fields

section Code

variable (sep : UInt8) (maxfields : Int) (dup_flag : Bool)

/-- What stands at a separator that was seen. -/
def mark : UInt8 := if dup_flag then 0 else sep

/-- The loop over the text. -/
def splitLoop : Text → Nat → Fields → Option Stop
  | [], p, f => some ⟨p, none, [], f⟩
  | c :: rest, p, f =>
    if c = sep then
      (f.push p).bind fun f =>
        if 0 < maxfields ∧ (f.field_value.length : Int) - 1 = maxfields - 1 then
          some ⟨p, some (c :: rest), mark sep dup_flag :: rest, f⟩
        else
          (splitLoop rest (p + 1) f).map fun stop =>
            { stop with memory := mark sep dup_flag :: stop.memory }
    else (splitLoop rest (p + 1) f).map fun stop => { stop with memory := c :: stop.memory }

/-- The end of the text, where `len` is the length that the string has. -/
def endPointer (len length : Int) (stop : Stop) : Int :=
  match stop.rest with
  | none => stop.p
  | some rest =>
    if dup_flag then len
    else if 0 < length then length + 1
    else stop.p + (cString rest).length + 1

/-- What a split leaves: the number of fields, the bytes of the text, and the arrays. -/
structure Split where
  total_fields : UInt16
  memory : Text
  field_value : List Nat
  field_size : List Int
  deriving DecidableEq

/-- The size of the last field, and the number of fields. -/
def splitEnd (len length : Int) (stop : Stop) : Split :=
  ⟨UInt16.ofNat stop.fields.field_value.length, stop.memory, stop.fields.field_value,
    stop.fields.field_size ++
      [int16 (endPointer dup_flag len length stop - stop.fields.field_value.getLastD 0)]⟩

/-- The arrays at the start, where `none` is `NULL`. -/
def startFields (arrays : Option FieldArrays) : Option Fields :=
  let arrays := arrays.getD ⟨15, 15⟩
  if 0 < arrays.capacity.toNat then some ⟨arrays, [0], []⟩ else none

/-- The split of the text that `p` points to. -/
def splitText (arrays : Option FieldArrays) (len length : Int) (text : Text) : Option Split :=
  (startFields arrays).bind fun f =>
    (splitLoop sep maxfields dup_flag text 0 f).map (splitEnd dup_flag len length)

/-- The string in a buffer, or `none` if it goes on behind it. -/
def Buffer.string (b : Buffer) : Option Text :=
  let bytes := (List.range b.capacity).map b.bytes
  if bytes.contains 0 then some (cString bytes) else none

/-- `LongStringSplit`, where the string is `none` if it is the buffer itself. -/
def LongStringSplit (garbage : Nat → UInt8) (st : LongString) (arrays : Option FieldArrays)
    (string : Option Text) (length : Int) (dup_flag : Bool) (separator maxfields : Int) :
    Option Split :=
  let sep := UInt8.ofInt separator
  match string, dup_flag with
  | some string, false => splitText sep maxfields false arrays st.len length string
  | some string, true =>
    (LongStringCopy garbage st string length).bind fun st =>
      (st.buf.bind Buffer.string).bind (splitText sep maxfields true arrays st.len length)
  | none, dup_flag =>
    (st.buf.bind Buffer.string).bind (splitText sep maxfields dup_flag arrays st.len length)

end Code

/-- What a field is printed as with `%.*s`. -/
def fieldText (memory : Text) (value : Nat) (size : Int) : Text :=
  let string := cString (memory.drop value)
  if size < 0 then string else string.take size.toNat

/-- The fields with their sizes. -/
def Split.list (s : Split) : List (Text × Int) :=
  ((s.field_value.zip s.field_size).take s.total_fields.toNat).map fun field =>
    (fieldText s.memory field.1 field.2, field.2)

/-! ### The arrays -/

/-- The number of fields that there is room for. -/
def FieldArrays.limit (a : FieldArrays) : Nat :=
  if 1 ≤ a.allocated_field_pointers.toNat ∧ a.allocated_field_pointers.toNat ≤ a.capacity.toNat then
    a.allocated_field_pointers.toNat + 15 * ((65535 - a.allocated_field_pointers.toNat) / 15)
  else a.capacity.toNat

/-- The fields that are set are not more than the arrays are believed to have, where these are
right. -/
def Fields.Within (f : Fields) : Prop :=
  1 ≤ f.allocated_field_pointers.toNat ∧ f.allocated_field_pointers.toNat ≤ f.capacity.toNat →
    f.field_value.length ≤ f.allocated_field_pointers.toNat

section Arrays

variable {f : Fields} {p : Nat}

theorem FieldArrays.limit_le (a : FieldArrays) : a.limit ≤ 65535 := by
  have count := a.allocated_field_pointers.toNat_lt
  have room := a.capacity.toNat_lt
  rw [limit]
  split <;> omega

/-- There is room for one more field as long as the limit is not reached. -/
theorem Fields.push_of_lt (within : f.Within) (some_field : 1 ≤ f.field_value.length)
    (room : f.field_value.length < f.limit) :
    ∃ arrays : FieldArrays,
      f.push p = some ⟨arrays, f.field_value ++ [p + 1],
        f.field_size ++ [int16 ((p : Int) - f.field_value.getLastD 0)]⟩ ∧
      arrays.limit = f.limit ∧
      Within ⟨arrays, f.field_value ++ [p + 1],
        f.field_size ++ [int16 ((p : Int) - f.field_value.getLastD 0)]⟩ := by
  have count := f.allocated_field_pointers.toNat_lt
  rw [FieldArrays.limit] at room
  rw [Within] at within
  rw [push]
  split
  case isTrue full =>
    have right : 1 ≤ f.allocated_field_pointers.toNat ∧
        f.allocated_field_pointers.toNat ≤ f.capacity.toNat := by
      by_contra wrong
      rw [if_neg wrong] at room
      omega
    rw [if_pos right] at room
    have grown : (f.allocated_field_pointers + 15).toNat = f.allocated_field_pointers.toNat + 15 := by
      rw [UInt16.toNat_add]
      change (_ + 15) % 65536 = _
      omega
    refine ⟨⟨f.allocated_field_pointers + 15, f.allocated_field_pointers + 15⟩, ?_, ?_, ?_⟩
    · exact if_pos (by rw [grown]; omega)
    · rw [FieldArrays.limit, FieldArrays.limit, if_pos right, grown, if_pos (by omega)]
      omega
    · intro _
      dsimp only
      rw [grown, List.length_append, List.length_singleton]
      omega
  case isFalse space =>
    have inside : f.field_value.length < f.capacity.toNat := by
      split at room <;> omega
    refine ⟨f.toFieldArrays, if_pos inside, rfl, ?_⟩
    intro right
    have le := within right
    dsimp only
    rw [List.length_append, List.length_singleton]
    omega

theorem Fields.push_of_eq (within : f.Within) (some_field : 1 ≤ f.field_value.length)
    (full : f.field_value.length = f.limit) : f.push p = none := by
  have count := f.allocated_field_pointers.toNat_lt
  rw [FieldArrays.limit] at full
  rw [Within] at within
  rw [push]
  split
  case isTrue same =>
    have wrapped : (f.allocated_field_pointers + 15).toNat =
        (f.allocated_field_pointers.toNat + 15) % 65536 := UInt16.toNat_add _ _
    split at full
    case isTrue right =>
      refine if_neg ?_
      dsimp only
      rw [wrapped]
      omega
    case isFalse wrong => omega
  case isFalse other =>
    refine if_neg ?_
    split at full <;> omega

end Arrays

/-! ### The loop -/

/-- The pieces of a text as fields, where the field in front is the `n`th: the rest is one field
once the maximum is reached. -/
def group (sep : UInt8) (max : Int) : Int → List Text → List Text
  | n, q :: r :: qs =>
    if 0 < max ∧ n + 1 = max then [q, [sep].intercalate (r :: qs)]
    else q :: group sep max (n + 1) (r :: qs)
  | _, qs => qs

/-- The maximum is reached. -/
def reached (max : Int) : Int → List Text → Bool
  | n, _ :: r :: qs => decide (0 < max ∧ n + 1 = max) || reached max (n + 1) (r :: qs)
  | _, _ => false

/-- Where fields start. -/
def starts : Nat → List Text → List Nat
  | _, [] => []
  | p, q :: qs => p :: starts (p + q.length + 1) qs

/-- The sizes of fields, where that of the last one is too large by `more`. -/
def sizes (more : Int) : List Text → List Int
  | [] => []
  | [q] => [int16 (q.length + more)]
  | q :: qs => int16 q.length :: sizes more qs

section Loop

variable {sep : UInt8} {max : Int} {dup_flag : Bool} {q : Text} {qs : List Text} {f : Fields}
  {p : Nat} {len length total : Int}

theorem group_ne_nil {n : Int} (some_piece : qs ≠ []) : group sep max n qs ≠ [] := by
  match qs, some_piece with
  | [q], _ => exact List.cons_ne_nil q []
  | q :: r :: qs, _ =>
    rw [group]
    split <;> exact List.cons_ne_nil _ _

theorem two_le_group (sep : UInt8) (max n : Int) (q r : Text) (qs : List Text) :
    2 ≤ (group sep max n (q :: r :: qs)).length := by
  rw [group]
  split
  case isTrue => exact Nat.le_refl 2
  case isFalse =>
    have some_group : group sep max (n + 1) (r :: qs) ≠ [] := group_ne_nil (List.cons_ne_nil r qs)
    rw [List.length_cons]
    exact Nat.succ_le_succ (List.length_pos_of_ne_nil some_group)

theorem cString_eq_self (nul : 0 ∉ q) : cString q = q := by
  rw [cString, List.takeWhile_eq_self_iff]
  intro c mem
  exact bne_iff_ne.mpr fun zero => nul (zero ▸ mem)

theorem intercalate_cons {x : UInt8} (some_piece : qs ≠ []) :
    [x].intercalate (q :: qs) = q ++ x :: [x].intercalate qs := by
  rw [List.intercalate_cons_of_ne_nil some_piece, List.append_assoc]
  rfl

/-- The bytes of a field are left. -/
theorem splitLoop_skip (separate : sep ∉ q) (tail : Text) :
    splitLoop sep max dup_flag (q ++ tail) p f =
      (splitLoop sep max dup_flag tail (p + q.length) f).map fun stop =>
        { stop with memory := q ++ stop.memory } := by
  induction q generalizing p with
  | nil =>
    rw [List.length_nil, Nat.add_zero, List.nil_append]
    exact Option.map_id'.symm
  | cons c q ih =>
    rw [List.mem_cons, not_or] at separate
    rw [List.cons_append, splitLoop, if_neg (Ne.symm separate.1), ih separate.2, Option.map_map,
      List.length_cons, Nat.add_right_comm]
    rfl

/-- By how much the size of the last field is too large. -/
def excess (dup_flag reached : Bool) (len total : Int) : Int :=
  if reached then if dup_flag then len - total else 1 else 0

/-- What the loop makes of the pieces of the rest of a text whose length is `total`. -/
def Splits (sep : UInt8) (max : Int) (dup_flag : Bool) (len length total : Int) (p : Nat)
    (f : Fields) (qs : List Text) (result : Option Stop) : Prop :=
  let n := f.field_value.length
  let fields := group sep max n qs
  if n + fields.length ≤ f.limit + 1 then
    result.map (splitEnd dup_flag len length) =
      some ⟨UInt16.ofNat (n - 1 + fields.length), [mark sep dup_flag].intercalate fields,
        f.field_value ++ (starts p fields).tail,
        f.field_size ++ sizes (excess dup_flag (reached max n qs) len total) fields⟩
  else result = none

theorem starts_cons (some_piece : qs ≠ []) : starts p qs = p :: (starts p qs).tail := by
  cases qs with
  | nil => exact absurd rfl some_piece
  | cons q qs => rfl

theorem sizes_cons {more : Int} (some_piece : qs ≠ []) :
    sizes more (q :: qs) = int16 q.length :: sizes more qs := by
  cases qs with
  | nil => exact absurd rfl some_piece
  | cons r qs => rfl

/-- A field that stands in front of a split rest. -/
theorem Splits.cons {arrays : FieldArrays} {result : Option Stop} (some_piece : qs ≠ [])
    (some_field : 1 ≤ f.field_value.length) (more : ¬ (0 < max ∧ (f.field_value.length : Int) + 1 = max))
    (same : arrays.limit = f.limit)
    (splits : Splits sep max dup_flag len length total (p + q.length + 1)
      ⟨arrays, f.field_value ++ [p + q.length + 1], f.field_size ++ [int16 q.length]⟩ qs result) :
    Splits sep max dup_flag len length total p f (q :: qs)
      ((result.map fun stop => { stop with memory := mark sep dup_flag :: stop.memory }).map
        fun stop => { stop with memory := q ++ stop.memory }) := by
  obtain ⟨r, rs, rfl⟩ := List.exists_cons_of_ne_nil some_piece
  have some_group : group sep max ((f.field_value.length : Int) + 1) (r :: rs) ≠ [] :=
    group_ne_nil some_piece
  rw [Splits] at splits ⊢
  dsimp only at splits ⊢
  rw [List.length_append, List.length_singleton, Int.natCast_add, Int.natCast_one, same] at splits
  rw [group, if_neg more, reached, decide_eq_false more, Bool.false_or, List.length_cons]
  split at splits
  case isTrue fits =>
    rw [if_pos (by omega), Option.map_map, Option.map_map]
    obtain ⟨stop, rfl, ended⟩ := Option.map_eq_some_iff.mp splits
    rw [splitEnd, Split.mk.injEq] at ended
    obtain ⟨total, memory, values, lengths⟩ := ended
    refine congrArg some ?_
    simp only [Function.comp_apply]
    rw [splitEnd, Split.mk.injEq]
    refine ⟨?_, ?_, ?_, ?_⟩
    · rw [total]
      exact congrArg UInt16.ofNat (by omega)
    · dsimp only
      rw [memory, intercalate_cons some_group]
    · dsimp only
      rw [values, List.append_assoc, List.singleton_append, starts, List.tail_cons,
        ← starts_cons some_group]
    · rw [sizes_cons some_group]
      refine lengths.trans ?_
      rw [List.append_assoc, List.singleton_append]
  case isFalse full =>
    rw [if_neg (by omega), splits]
    rfl

/-- The loop goes through the pieces, where the length of the text is right. -/
theorem splitLoop_pieces (last : f.field_value.getLastD 0 = p) (within : f.Within)
    (some_field : 1 ≤ f.field_value.length) (room : f.field_value.length ≤ f.limit)
    (separate : ∀ r ∈ q :: qs, sep ∉ r) (nul : 0 ∉ [sep].intercalate (q :: qs))
    (whole : total = p + ([sep].intercalate (q :: qs)).length)
    (given : dup_flag = false → 0 < length → length = total) :
    Splits sep max dup_flag len length total p f (q :: qs)
      (splitLoop sep max dup_flag ([sep].intercalate (q :: qs)) p f) := by
  have first : sep ∉ q := separate q List.mem_cons_self
  induction qs generalizing q p f with
  | nil =>
    have alone : [sep].intercalate [q] = q := by simp
    have skip : splitLoop sep max dup_flag (q ++ []) p f = _ := splitLoop_skip first []
    rw [List.append_nil] at skip
    rw [alone, skip, Splits, group]
    · rw [List.length_singleton, if_pos (by omega), splitLoop, Option.map_some, Option.map_some]
      refine congrArg some ?_
      rw [splitEnd, Split.mk.injEq]
      refine ⟨?_, ?_, ?_, ?_⟩
      · exact congrArg UInt16.ofNat (by dsimp only; omega)
      · simp
      · simp [starts]
      · rw [endPointer, last, sizes, reached]
        · simp [excess]
        · simp
    · simp
  | cons r qs ih =>
    have parts : [sep].intercalate (q :: r :: qs) = q ++ sep :: [sep].intercalate (r :: qs) :=
      intercalate_cons (List.cons_ne_nil r qs)
    rw [parts] at nul whole ⊢
    rw [List.mem_append, List.mem_cons, not_or, not_or] at nul
    rw [List.length_append, List.length_cons] at whole
    have size : int16 (((p + q.length : Nat) : Int) - f.field_value.getLastD 0) =
        int16 q.length := by
      rw [last]
      exact congrArg int16 (by omega)
    rw [splitLoop_skip first, splitLoop, if_pos rfl]
    rcases Nat.lt_or_eq_of_le room with some_room | full
    · obtain ⟨arrays, push, same, within'⟩ := f.push_of_lt (p := p + q.length) within some_field
        some_room
      rw [size] at push within'
      rw [push, Option.bind_some]
      have count : ((f.field_value ++ [p + q.length + 1]).length : Int) = f.field_value.length + 1 := by
        rw [List.length_append, List.length_singleton]
        omega
      by_cases more : 0 < max ∧ (f.field_value.length : Int) + 1 = max
      · have stop : 0 < max ∧
            ((f.field_value ++ [p + q.length + 1]).length : Int) - 1 = max - 1 := by omega
        rw [if_pos stop, Splits, group, if_pos more]
        change if f.field_value.length + 2 ≤ f.limit + 1 then _ else _
        rw [if_pos (by omega), Option.map_some, Option.map_some]
        refine congrArg some ?_
        rw [splitEnd, Split.mk.injEq]
        refine ⟨?_, ?_, ?_, ?_⟩
        · refine congrArg UInt16.ofNat ?_
          dsimp only
          rw [List.length_append, List.length_singleton, List.length_cons, List.length_singleton]
          omega
        · rw [intercalate_cons (List.cons_ne_nil _ _)]
          simp
        · rfl
        · rw [reached, decide_eq_true more, Bool.true_or, excess, if_pos rfl,
            sizes_cons (List.cons_ne_nil _ _), sizes, List.append_assoc, List.singleton_append,
            List.getLastD_concat]
          refine congrArg (fun n => f.field_size ++ [int16 q.length, int16 n]) ?_
          rw [endPointer]
          dsimp only
          cases dup_flag with
          | true =>
            rw [if_pos rfl, if_pos rfl]
            omega
          | false =>
            rw [if_neg Bool.false_ne_true, if_neg Bool.false_ne_true]
            split
            case isTrue positive =>
              rw [given rfl positive]
              omega
            case isFalse =>
              have rest : cString (sep :: [sep].intercalate (r :: qs)) =
                  sep :: [sep].intercalate (r :: qs) := by
                refine cString_eq_self ?_
                rw [List.mem_cons, not_or]
                exact nul.2
              rw [rest, List.length_cons]
              omega
      · have stop : ¬ (0 < max ∧
            ((f.field_value ++ [p + q.length + 1]).length : Int) - 1 = max - 1) := by omega
        rw [if_neg stop]
        refine Splits.cons (List.cons_ne_nil r qs) some_field more same ?_
        have separate' : ∀ t ∈ r :: qs, sep ∉ t :=
          fun t mem => separate t (List.mem_cons_of_mem q mem)
        refine ih ?_ within' ?_ ?_ separate' nul.2.2 ?_ (separate' r List.mem_cons_self)
        · exact List.getLastD_concat
        · exact Nat.le_trans some_field (by rw [List.length_append]; exact Nat.le_add_right _ _)
        · rw [same, List.length_append]
          exact some_room
        · rw [whole]
          omega
    · rw [f.push_of_eq within some_field full, Splits]
      have more := two_le_group sep max f.field_value.length q r qs
      rw [if_neg (by omega)]
      rfl

/-- The fields that a text is split into. -/
theorem splitText_eq (sep : UInt8) (max len : Int) (arrays : Option FieldArrays) {text : Text} (nul : 0 ∉ text)
    (given : dup_flag = false → 0 < length → length = text.length) :
    let fields := group sep max 1 (text.splitOn sep)
    splitText sep max dup_flag arrays len length text =
      if fields.length ≤ (arrays.getD ⟨15, 15⟩).limit then
        some ⟨UInt16.ofNat fields.length, [mark sep dup_flag].intercalate fields, starts 0 fields,
          sizes (excess dup_flag (reached max 1 (text.splitOn sep)) len text.length) fields⟩
      else none := by
  have whole : [sep].intercalate (text.splitOn sep) = text := List.intercalate_splitOn sep
  have separate : ∀ r ∈ text.splitOn sep, sep ∉ r := fun r mem => Db.sep_notMem_of_mem_splitOn mem
  have some_piece : text.splitOn sep ≠ [] := List.splitOn_ne_nil sep text
  have some_group : group sep max 1 (text.splitOn sep) ≠ [] := group_ne_nil some_piece
  have some_field := List.length_pos_of_ne_nil some_group
  rw [splitText, startFields]
  dsimp only
  generalize arrays.getD ⟨15, 15⟩ = a
  by_cases room : 0 < a.capacity.toNat
  · rw [if_pos room, Option.bind_some]
    have start : 1 ≤ a.limit := by
      rw [FieldArrays.limit]
      split <;> omega
    have within : Fields.Within ⟨a, [0], []⟩ := And.left
    obtain ⟨q, qs, parts⟩ := List.exists_cons_of_ne_nil some_piece
    rw [parts] at whole separate some_group some_field ⊢
    have loop : Splits sep max dup_flag len length text.length 0 ⟨a, [0], []⟩ (q :: qs)
        (splitLoop sep max dup_flag ([sep].intercalate (q :: qs)) 0 ⟨a, [0], []⟩) := by
      refine splitLoop_pieces rfl within (Nat.le_refl 1) start separate ?_ ?_ given
      · rw [whole]
        exact nul
      · rw [whole]
        omega
    rw [whole, Splits] at loop
    dsimp only at loop
    rw [List.length_singleton, Nat.cast_one, Nat.sub_self, Nat.zero_add, List.nil_append,
      List.singleton_append, ← starts_cons some_group] at loop
    split at loop
    case isTrue fits =>
      rw [if_pos (by omega)]
      exact loop
    case isFalse full =>
      rw [if_neg (by omega), loop]
      rfl
  · have none_left : a.limit = 0 := by
      rw [FieldArrays.limit, if_neg (by omega)]
      omega
    rw [if_neg room, none_left, if_neg (by omega)]
    rfl

end Loop

end SourceNavigator.LongStr

import Mathlib.Algebra.Order.BigOperators.Group.List
import Mathlib.Algebra.Order.Group.Nat
import Mathlib.Algebra.Ring.Nat
import Mathlib.Data.List.GetD
import SourceNavigator.Db.FieldReads
import SourceNavigator.Db.Reference

/-!
Cross references whose scope is resolved late (`db_insert_entry` in `db/dbutils.c`).

The key of such a reference starts with `?`. The class that `get_symbol` returns is moved into
the key in front of the other fields, the key is split into seven fields, and the stored key is
put together from pointers into the line and the sizes of the fields. The size that the key is
split with is read before it is set, so it is a parameter here. The bytes that are copied can lie
behind the key: the line with the data follows it.

* `forwardKey_eq_iff` says for which sizes a key is stored with nothing but its scope changed.
* `late_scope_never` says that no line fixes the stored key.
-/

namespace SourceNavigator.Db.LateScope

open SymbolType FieldReads

/-! ### The key in the line -/

/-- Bytes written into a buffer. -/
def overwrite (buf : Text) (pos : Nat) (src : Text) : Text :=
  buf.take pos ++ src ++ buf.drop (pos + src.length)

/-- `get_symbol` returned a class. -/
def Resolved (scope_buf : Text) : Prop := scope_buf ≠ [] ∧ scope_buf.head? ≠ some 63

instance : DecidablePred Resolved := fun _ => inferInstanceAs (Decidable (_ ∧ _))

/-- The `memmove` and the `memcpy` that put the class in the place of `?`; `none` if the size of
the first is negative. -/
def switchClass (key_buf scope_buf : Text) : Option Text :=
  if Resolved scope_buf then
    let len := scope_buf.length
    if key_buf.length < len then none
    else
      let moved := overwrite key_buf (len - 1) (key_buf.take (key_buf.length - len))
      some (overwrite moved 0 scope_buf)
  else some key_buf

/-- The class and the name that `get_symbol` is called with, unless they overflow their buffers. -/
def symbolArguments (key_buf : Text) : Option (Text × Text) :=
  let calls := FieldReader.unknownScope.reads none key_buf
  match calls with
  | [_, name, _, this_cls] =>
    if InArray name ∧ InArray this_cls then
      some (this_cls.2.written.dropLast, name.2.written.dropLast)
    else none
  | _ => none

/-! ### The key that is stored -/

/-- Where a field starts. -/
def fieldOffset (fields : List Text) (i : Nat) : Nat :=
  ((fields.take i).map fun s => s.length + 1).sum

/-- `field_size` of the seventh field, which takes the rest: with a length it ends one byte behind
it, without one at the closing NUL. -/
def restSize (length : Int) (fields : List Text) : Int :=
  int16 (if 0 < length then length + 1 - fieldOffset fields 6
    else (joinFields (fields.drop 6)).length + 1)

/-- The bytes that `LongStringAppend` copies from memory, up to a NUL if the length is negative. -/
def copied (memory : Text) (off : Nat) (len : Int) : Option Text :=
  if len < 0 then some ((memory.drop off).takeWhile (· ≠ 0))
  else if off + len.toNat ≤ memory.length then some ((memory.drop off).take len.toNat)
  else none

/-- The key with the class in it, split with `key_size` and put together again; the data follows
the key in memory. -/
def reassembled (key_size : Int) (buf data_buf : Text) : Option Text :=
  let fields := buf.splitOn DB_FLDSEP_CHR
  let memory := buf ++ 0 :: (data_buf ++ [0])
  let size := fieldSize fields
  if fields.length < 7 then none
  else do
    let callee ← copied memory (fieldOffset fields 3) (size 3 + size 4 + size 5 + 3)
    let cls ← copied memory (fieldOffset fields 0) (size 0 + 1)
    let method ← copied memory (fieldOffset fields 1) (size 1 + size 2 + 2)
    let place ← copied memory (fieldOffset fields 6) (restSize key_size fields)
    some (callee ++ cls ++ method ++ place)

section Code

variable (get_symbol : Text → Text → Text)

/-- The scope that a key is completed with. -/
def scopeOf (key_buf : Text) : Option Text :=
  (symbolArguments key_buf).map fun arguments => get_symbol arguments.1 arguments.2

/-- The key of the record in the table `cross_ref`. -/
def forwardKey (key_size : Int) (key_buf data_buf : Text) : Option Text := do
  let scope_buf ← scopeOf get_symbol key_buf
  let buf ← switchClass key_buf scope_buf
  reassembled key_size buf data_buf

/-- The keys of both records; a reference to a local variable has only the first. The stored key
is split up to a NUL. -/
def storedKeys (key_size : Int) (key_buf data_buf : Text) : Option (Text × Option Text) := do
  let key ← forwardKey get_symbol key_size key_buf data_buf
  let fields := (key.takeWhile (· ≠ 0)).splitOn DB_FLDSEP_CHR
  if fields.length < 6 then none
  else if toLocalVar fields then some (key, none)
  else (byKey fields).map fun by_key => (key, some by_key)

end Code

/-- The records of a reference stored under their keys. -/
def putRecords (t : CrossRefTables) (keys : Text × Option Text) (data : List Text) :
    CrossRefTables :=
  let cross_ref := (t.cross_ref.getD ∅).insert keys.1 (xrefData data 0 1)
  match keys.2 with
  | none => { t with cross_ref := some cross_ref }
  | some by_key =>
    { cross_ref := some cross_ref
      cross_ref_by := some ((t.cross_ref_by.getD ∅).insert by_key (xrefData data 1 0)) }

/-- `db_insert_entry` of a cross reference whose key starts with `?`. -/
def db_insert_entry (get_symbol : Text → Text → Text) (key_size : Int) (t : CrossRefTables)
    (key_buf data_buf : Text) : Option CrossRefTables :=
  let data := data_buf.splitOn DB_FLDSEP_CHR
  if data.length < 2 then none
  else (storedKeys get_symbol key_size key_buf data_buf).map fun keys => putRecords t keys data

/-! ### The key that is meant -/

/-- The fields of a key with its first field replaced by the scope, if it was resolved. -/
def resolvedFields (scope_buf : Text) (fields : List Text) : List Text :=
  if Resolved scope_buf then scope_buf :: fields.tail else fields

def resolvedKey (scope_buf key_buf : Text) : Text :=
  joinFields (resolvedFields scope_buf (key_buf.splitOn DB_FLDSEP_CHR))

/-- The scope of a line was looked up, the record is stored under the key with the scope in it,
and its mirror under the permutation of that key. -/
def StoresResolved (get_symbol : Text → Text → Text) (key_size : Int) (key_buf data_buf : Text) :
    Prop :=
  ∃ scope_buf, scopeOf get_symbol key_buf = some scope_buf ∧
    storedKeys get_symbol key_size key_buf data_buf =
      some (resolvedKey scope_buf key_buf, mirrorKey (resolvedKey scope_buf key_buf))

/-! ### The buffers -/

section Buffers

variable {key_buf scope_buf buf : Text} {c : UInt8}

/-- The class and the name are read if they are shorter than their buffers. -/
theorem symbolArguments_eq (key_buf : Text) : symbolArguments key_buf =
    if (field key_buf 1).length < 1024 ∧ (field key_buf 3).length < 1024 then
      some (field key_buf 3, field key_buf 1)
    else none := by
  have head : ∀ k, ((key_buf.splitOn DB_FLDSEP_CHR).drop k).headD [] = field key_buf k := by
    intro k
    rw [field, List.headD_eq_head?_getD, List.head?_drop, List.getD_eq_getElem?_getD]
  have calls : FieldReader.unknownScope.reads none key_buf =
      FieldReader.unknownScope.buffers.mapIdx fun k buf =>
        (buf, callAt ((key_buf.splitOn DB_FLDSEP_CHR).drop k) buf) := by
    apply List.ext_getElem?
    intro k
    rw [reads_getElem?, List.getElem?_mapIdx]
  have member : some ⟨1024, 1024⟩ ∈ FieldReader.unknownScope.buffers := by
    simp [FieldReader.buffers]
  rw [symbolArguments, calls]
  simp only [FieldReader.buffers, List.mapIdx_cons, List.mapIdx_nil, Nat.zero_add, Nat.reduceAdd,
    inArray_iff member, forall_const, head]
  by_cases short : (field key_buf 1).length < 1024 ∧ (field key_buf 3).length < 1024
  · rw [if_pos short, if_pos short]
    simp only [callAt, head, Option.isSome_some, if_true, Option.map_some, Option.getD_some,
      List.dropLast_concat, List.take_of_length_le (le_of_lt short.1),
      List.take_of_length_le (le_of_lt short.2)]
  · rw [if_neg short, if_neg short]

theorem switchClass_unresolved (unresolved : ¬ Resolved scope_buf) :
    switchClass key_buf scope_buf = some key_buf := by
  rw [switchClass, if_neg unresolved]

/-- A class of one byte takes the place of `?`. -/
theorem switchClass_single (resolved : Resolved [c]) :
    switchClass (63 :: key_buf) [c] = some (c :: key_buf) := by
  simp only [switchClass, if_pos resolved, List.length_cons, List.length_nil, overwrite]
  rw [if_neg (by omega)]
  simp

/-- The key keeps its length, whatever the class is. -/
theorem length_switchClass (switched : switchClass key_buf scope_buf = some buf) :
    buf.length = key_buf.length := by
  unfold switchClass at switched
  split at switched
  next resolved =>
    have some_byte := List.length_pos_of_ne_nil resolved.1
    dsimp only at switched
    split at switched
    · cases switched
    · cases switched
      simp only [overwrite, List.length_append, List.length_take, List.length_drop]
      omega
  next => cases switched; rfl

end Buffers

/-! ### The fields of a key -/

section Fields

variable {fields front back : List Text} {buf data : Text} {i n : Nat}

theorem joinFields_append (some_front : front ≠ []) (some_back : back ≠ []) :
    joinFields (front ++ back) = joinFields front ++ DB_FLDSEP_CHR :: joinFields back := by
  induction front with
  | nil => exact absurd rfl some_front
  | cons s front ih =>
    cases front with
    | nil => rw [List.singleton_append, joinFields_cons some_back, joinFields_singleton]
    | cons s' front =>
      have more : s' :: front ≠ [] := List.cons_ne_nil _ _
      rw [List.cons_append, joinFields_cons (by simp), ih more, joinFields_cons more,
        List.append_assoc, List.cons_append]

/-- The bytes of some fields, with the separator behind them. -/
theorem take_fields (some_front : front ≠ []) (some_back : back ≠ []) :
    (joinFields (front ++ back)).take (front.map fun s => s.length + 1).sum =
      joinFields front ++ [DB_FLDSEP_CHR] := by
  rw [joinFields_append some_front some_back, ← length_joinFields some_front, List.append_cons]
  exact List.take_left' (List.length_append)

/-- The text in front of a field. -/
theorem exists_front (inside : i < fields.length) :
    ∃ front, joinFields fields = front ++ joinFields (fields.drop i) ∧
      front.length = fieldOffset fields i := by
  cases i with
  | zero => exact ⟨[], rfl, rfl⟩
  | succ i =>
    have some_front : fields.take (i + 1) ≠ [] := by
      apply List.ne_nil_of_length_pos
      rw [List.length_take]
      omega
    have some_back : fields.drop (i + 1) ≠ [] := by
      apply List.ne_nil_of_length_pos
      rw [List.length_drop]
      omega
    refine ⟨joinFields (fields.take (i + 1)) ++ [DB_FLDSEP_CHR], ?_, ?_⟩
    · rw [← List.append_cons, ← joinFields_append some_front some_back, List.take_append_drop]
    · rw [List.length_append, List.length_singleton, length_joinFields some_front, fieldOffset]

/-- The memory from a field on. -/
theorem drop_fieldOffset (inside : i < fields.length) :
    (joinFields fields ++ data).drop (fieldOffset fields i) = joinFields (fields.drop i) ++ data := by
  obtain ⟨front, split, long⟩ := exists_front inside
  rw [split, List.append_assoc, List.drop_left' long]

/-- Bytes that lie inside of the key. -/
theorem copied_inside (inside : i < fields.length)
    (fits : n ≤ (joinFields (fields.drop i)).length) :
    copied (joinFields fields ++ data) (fieldOffset fields i) n =
      some ((joinFields (fields.drop i)).take n) := by
  obtain ⟨front, split, long⟩ := exists_front inside
  have bound : fieldOffset fields i + n ≤ (joinFields fields ++ data).length := by
    rw [split, List.length_append, List.length_append]
    omega
  rw [copied, if_neg (by omega), Int.toNat_natCast, if_pos bound, drop_fieldOffset inside,
    List.take_append_of_le_length fits]

/-- The bytes of fields that lie inside of the key, with the separator behind them. -/
theorem copied_fields (some_front : front ≠ []) (some_back : back ≠ [])
    (split : fields.drop i = front ++ back) :
    copied (joinFields fields ++ data) (fieldOffset fields i)
        ((front.map fun s => s.length + 1).sum : Nat) =
      some (joinFields front ++ [DB_FLDSEP_CHR]) := by
  have inside : i < fields.length := by
    by_contra behind
    rw [List.drop_eq_nil_of_le (Nat.le_of_not_lt behind)] at split
    exact some_front (List.append_eq_nil_iff.mp split.symm).1
  have taken := take_fields some_front some_back
  have fits : (front.map fun s => s.length + 1).sum ≤ (joinFields (front ++ back)).length := by
    rw [joinFields_append some_front some_back, ← length_joinFields some_front, List.length_append,
      List.length_cons]
    omega
  rw [copied_inside inside (by rw [split]; exact fits), split, taken]

/-- A length that is not negative is that of the copied bytes. -/
theorem length_copied {memory text : Text} {len : Int} (nonneg : 0 ≤ len)
    (copies : copied memory i len = some text) : text.length = len.toNat := by
  rw [copied, if_neg (by omega)] at copies
  split at copies
  · cases copies
    rw [List.length_take, List.length_drop]
    omega
  · cases copies

/-- Every field in front of another one has a separator. -/
theorem le_fieldOffset (inside : i ≤ fields.length) : i ≤ fieldOffset fields i := by
  have part := List.length_le_sum_of_one_le ((fields.take i).map fun s => s.length + 1) <| by
    intro n mem
    obtain ⟨s, -, rfl⟩ := List.mem_map.mp mem
    exact Nat.le_add_left 1 s.length
  rw [List.length_map, List.length_take, Nat.min_eq_left inside] at part
  exact part

/-- Every field of a short key has the length that is kept. -/
theorem fieldSize_of_short (short : (joinFields fields).length < 32768) :
    fieldSize fields i = (fields.getD i []).length := by
  apply int16_of_lt
  by_cases inside : i < fields.length
  · have some_field : fields ≠ [] := List.ne_nil_of_length_pos (Nat.zero_lt_of_lt inside)
    have mem : fields.getD i [] ∈ fields := by
      rw [List.getD_eq_getElem _ _ inside]
      exact List.getElem_mem inside
    have part := List.single_le_sum (by simp) _
      (List.mem_map_of_mem (f := fun s : Text => s.length + 1) mem)
    rw [← length_joinFields some_field] at part
    omega
  · rw [List.getD_eq_default _ _ (Nat.le_of_not_lt inside)]
    simp

/-- The rest of the key is copied by its own length and by a negative one. -/
theorem copied_rest {len : Int} (inside : i < fields.length)
    (free : 0 ∉ joinFields (fields.drop i))
    (whole : len < 0 ∨ len = (joinFields (fields.drop i)).length) :
    copied (joinFields fields ++ 0 :: data) (fieldOffset fields i) len =
      some (joinFields (fields.drop i)) := by
  rcases whole with negative | reach
  · rw [copied, if_pos negative, drop_fieldOffset inside, List.takeWhile_append_of_pos]
    · simp
    · intro c mem
      rw [decide_eq_true_iff]
      rintro rfl
      exact free mem
  · rw [reach, copied_inside inside le_rfl, List.take_length]

/-- Only these lengths copy a text without a NUL that is as long as the rest. -/
theorem of_copied_rest {text : Text} {len : Int} (inside : i < fields.length)
    (free : 0 ∉ joinFields (fields.drop i)) (text_free : 0 ∉ text)
    (copies : copied (joinFields fields ++ 0 :: data) (fieldOffset fields i) len = some text)
    (long : (joinFields (fields.drop i)).length ≤ text.length) :
    text = joinFields (fields.drop i) ∧
      (len < 0 ∨ len = (joinFields (fields.drop i)).length) := by
  by_cases negative : len < 0
  · rw [copied_rest inside free (.inl negative)] at copies
    exact ⟨(Option.some.inj copies).symm, .inl negative⟩
  have length := length_copied (by omega) copies
  rw [copied, if_neg negative, drop_fieldOffset inside] at copies
  split at copies
  · rw [Option.some.injEq] at copies
    by_cases behind : (joinFields (fields.drop i)).length < len.toNat
    · -- the NUL behind the key is copied
      refine absurd ?_ text_free
      obtain ⟨more, count⟩ := Nat.exists_eq_add_of_lt behind
      rw [← copies, count, Nat.add_assoc, List.take_length_add_append]
      simp
    · have reach : len = (joinFields (fields.drop i)).length := by omega
      rw [reach, Int.toNat_natCast, List.take_left'] at copies
      · exact ⟨copies.symm, .inr reach⟩
      · rfl
  · cases copies

end Fields

/-! ### The reassembled key -/

/-- The first three fields and the next three exchanged. -/
def exchanged (fields : List Text) : List Text :=
  (fields.drop 3).take 3 ++ fields.take 3 ++ fields.drop 6

section Reassembled

variable {buf data_buf key : Text} {fields : List Text} {key_size : Int}

/-- Only the end of the stored key depends on the size that the key is split with. -/
theorem exists_reassembled (many : 7 ≤ (buf.splitOn DB_FLDSEP_CHR).length) (data_buf : Text) :
    ∃ front : Option Text, ∀ key_size, reassembled key_size buf data_buf = front.bind fun front =>
      (copied (buf ++ 0 :: (data_buf ++ [0])) (fieldOffset (buf.splitOn DB_FLDSEP_CHR) 6)
        (restSize key_size (buf.splitOn DB_FLDSEP_CHR))).map (front ++ ·) := by
  let fields := buf.splitOn DB_FLDSEP_CHR
  let memory := buf ++ 0 :: (data_buf ++ [0])
  let size := fieldSize fields
  refine ⟨(copied memory (fieldOffset fields 3) (size 3 + size 4 + size 5 + 3)).bind fun callee =>
    (copied memory (fieldOffset fields 0) (size 0 + 1)).bind fun cls =>
      (copied memory (fieldOffset fields 1) (size 1 + size 2 + 2)).bind fun method =>
        some (callee ++ cls ++ method), fun key_size => ?_⟩
  have enough : ¬ (buf.splitOn DB_FLDSEP_CHR).length < 7 := Nat.not_lt.mpr many
  simp only [reassembled, if_neg enough, Option.bind_assoc, Option.bind_some, Option.map_eq_bind]
  rfl

/-- Two sizes store two keys, or none. -/
theorem reassembled_differs (buf data_buf key : Text) :
    ¬ ∀ key_size, reassembled key_size buf data_buf = some key := by
  intro all
  by_cases many : 7 ≤ (buf.splitOn DB_FLDSEP_CHR).length
  · obtain ⟨front, whole⟩ := exists_reassembled many data_buf
    have offset := le_fieldOffset (show 6 ≤ (buf.splitOn DB_FLDSEP_CHR).length by omega)
    -- with these sizes the rest has no byte, or one
    have nothing : restSize (fieldOffset (buf.splitOn DB_FLDSEP_CHR) 6 - 1)
        (buf.splitOn DB_FLDSEP_CHR) = 0 := by
      rw [restSize, if_pos (by omega)]
      simp [int16]
    have one : restSize (fieldOffset (buf.splitOn DB_FLDSEP_CHR) 6)
        (buf.splitOn DB_FLDSEP_CHR) = 1 := by
      rw [restSize, if_pos (by omega)]
      simp [int16]
    have first := all (fieldOffset (buf.splitOn DB_FLDSEP_CHR) 6 - 1)
    have second := all (fieldOffset (buf.splitOn DB_FLDSEP_CHR) 6)
    rw [whole, nothing] at first
    rw [whole, one] at second
    cases front with
    | none => cases first
    | some front =>
      rw [Option.bind_some, Option.map_eq_some_iff] at first second
      obtain ⟨rest, none_copied, ends⟩ := first
      obtain ⟨rest', one_copied, ends'⟩ := second
      have same : rest = rest' := List.append_cancel_left (ends.trans ends'.symm)
      have short := length_copied (by decide) none_copied
      have long := length_copied (by decide) one_copied
      rw [same, long] at short
      exact absurd short (by decide)
  · have few : reassembled 0 buf data_buf = none := by
      rw [reassembled]
      exact if_pos (Nat.lt_of_not_le many)
    rw [all] at few
    cases few

/-- A short key that is split is stored with its first three fields behind the next three. -/
theorem reassembled_short {g₀ g₁ g₂ g₃ g₄ g₅ g₆ : Text} {more : List Text}
    (short : buf.length < 32768)
    (split : buf.splitOn DB_FLDSEP_CHR = g₀ :: g₁ :: g₂ :: g₃ :: g₄ :: g₅ :: g₆ :: more) :
    reassembled key_size buf data_buf =
      (copied (buf ++ 0 :: (data_buf ++ [0])) (fieldOffset (buf.splitOn DB_FLDSEP_CHR) 6)
        (restSize key_size (buf.splitOn DB_FLDSEP_CHR))).map
          (joinFields [g₃, g₄, g₅, g₀, g₁, g₂] ++ DB_FLDSEP_CHR :: ·) := by
  have whole : joinFields (buf.splitOn DB_FLDSEP_CHR) = buf := List.intercalate_splitOn DB_FLDSEP_CHR
  have size : ∀ i, fieldSize (buf.splitOn DB_FLDSEP_CHR) i =
      ((buf.splitOn DB_FLDSEP_CHR).getD i []).length :=
    fun i => fieldSize_of_short (by rw [whole]; exact short)
  have some_more : g₆ :: more ≠ [] := List.cons_ne_nil _ _
  have callee := @copied_fields (buf.splitOn DB_FLDSEP_CHR) [g₃, g₄, g₅] (g₆ :: more)
    (0 :: (data_buf ++ [0])) 3 (by simp) some_more (by rw [split]; rfl)
  have cls := @copied_fields (buf.splitOn DB_FLDSEP_CHR) [g₀] (g₁ :: g₂ :: g₃ :: g₄ :: g₅ :: g₆ :: more)
    (0 :: (data_buf ++ [0])) 0 (by simp) (by simp) (by rw [split]; rfl)
  have method := @copied_fields (buf.splitOn DB_FLDSEP_CHR) [g₁, g₂] (g₃ :: g₄ :: g₅ :: g₆ :: more)
    (0 :: (data_buf ++ [0])) 1 (by simp) (by simp) (by rw [split]; rfl)
  rw [whole] at callee cls method
  have callee_size : fieldSize (buf.splitOn DB_FLDSEP_CHR) 3 + fieldSize (buf.splitOn DB_FLDSEP_CHR) 4
      + fieldSize (buf.splitOn DB_FLDSEP_CHR) 5 + 3 =
        (([g₃, g₄, g₅].map fun s => s.length + 1).sum : Nat) := by
    rw [size, size, size, split]
    simp only [List.getD_cons_succ, List.getD_cons_zero, List.map_cons, List.map_nil, List.sum_cons,
      List.sum_nil]
    omega
  have cls_size : fieldSize (buf.splitOn DB_FLDSEP_CHR) 0 + 1 =
      (([g₀].map fun s => s.length + 1).sum : Nat) := by
    rw [size, split]
    simp
  have method_size : fieldSize (buf.splitOn DB_FLDSEP_CHR) 1 + fieldSize (buf.splitOn DB_FLDSEP_CHR) 2
      + 2 = (([g₁, g₂].map fun s => s.length + 1).sum : Nat) := by
    rw [size, size, split]
    simp only [List.getD_cons_succ, List.getD_cons_zero, List.map_cons, List.map_nil, List.sum_cons,
      List.sum_nil]
    omega
  have enough : ¬ (buf.splitOn DB_FLDSEP_CHR).length < 7 := by
    rw [split]
    simp
  have front : ∀ place : Text, joinFields [g₃, g₄, g₅] ++ [DB_FLDSEP_CHR] ++
      (joinFields [g₀] ++ [DB_FLDSEP_CHR]) ++ (joinFields [g₁, g₂] ++ [DB_FLDSEP_CHR]) ++ place =
        joinFields [g₃, g₄, g₅, g₀, g₁, g₂] ++ DB_FLDSEP_CHR :: place := by
    intro place
    rw [show [g₃, g₄, g₅, g₀, g₁, g₂] = [g₃, g₄, g₅] ++ ([g₀] ++ [g₁, g₂]) from rfl,
      joinFields_append (by simp) (by simp), joinFields_append (by simp) (by simp)]
    simp
  unfold reassembled
  simp only [if_neg enough, callee_size, cls_size, method_size]
  rw [callee, cls, method]
  simp only [Option.bind_eq_bind, Option.bind_some, front]
  rw [Option.map_eq_bind]
  rfl

/-- A short key is stored as it is exactly if its first three fields are the next three and the
rest is copied whole. -/
theorem reassembled_eq_iff (short : buf.length < 32768) (free : 0 ∉ buf) (key_free : 0 ∉ key)
    (long : buf.length ≤ key.length)
    (many : 7 ≤ (buf.splitOn DB_FLDSEP_CHR).length) :
    reassembled key_size buf data_buf = some key ↔
      key = joinFields (exchanged (buf.splitOn DB_FLDSEP_CHR)) ∧
        (restSize key_size (buf.splitOn DB_FLDSEP_CHR) < 0 ∨
          restSize key_size (buf.splitOn DB_FLDSEP_CHR) =
            (joinFields ((buf.splitOn DB_FLDSEP_CHR).drop 6)).length) := by
  have whole : joinFields (buf.splitOn DB_FLDSEP_CHR) = buf := List.intercalate_splitOn DB_FLDSEP_CHR
  obtain ⟨g₀, g₁, g₂, g₃, g₄, g₅, g₆, more, split⟩ : ∃ g₀ g₁ g₂ g₃ g₄ g₅ g₆ more,
      buf.splitOn DB_FLDSEP_CHR = g₀ :: g₁ :: g₂ :: g₃ :: g₄ :: g₅ :: g₆ :: more := by
    match buf.splitOn DB_FLDSEP_CHR, many with
    | g₀ :: g₁ :: g₂ :: g₃ :: g₄ :: g₅ :: g₆ :: more, _ => exact ⟨_, _, _, _, _, _, _, _, rfl⟩
  have inside : 6 < (buf.splitOn DB_FLDSEP_CHR).length := many
  have rest : (buf.splitOn DB_FLDSEP_CHR).drop 6 = g₆ :: more := by rw [split]; rfl
  have front : buf = joinFields [g₀, g₁, g₂, g₃, g₄, g₅] ++ DB_FLDSEP_CHR :: joinFields (g₆ :: more) := by
    rw [← joinFields_append (by simp) (by simp), ← whole, split]
    rfl
  have rest_free : 0 ∉ joinFields ((buf.splitOn DB_FLDSEP_CHR).drop 6) := by
    rw [rest]
    intro mem
    refine free ?_
    rw [front]
    simp [mem]
  have stored_fields : joinFields (exchanged (buf.splitOn DB_FLDSEP_CHR)) =
      joinFields [g₃, g₄, g₅, g₀, g₁, g₂] ++
        DB_FLDSEP_CHR :: joinFields ((buf.splitOn DB_FLDSEP_CHR).drop 6) := by
    rw [exchanged, joinFields_append (by simp [split]) (by simp [split]), split]
    rfl
  rw [reassembled_short short split, stored_fields]
  constructor
  · intro stored
    obtain ⟨text, copies, joined⟩ := Option.map_eq_some_iff.mp stored
    have text_free : 0 ∉ text := by
      intro mem
      refine key_free ?_
      rw [← joined]
      simp [mem]
    have lengths : (joinFields ((buf.splitOn DB_FLDSEP_CHR).drop 6)).length ≤ text.length := by
      have both := long
      rw [front, ← joined, ← rest, List.length_append, List.length_append, List.length_cons,
        List.length_cons] at both
      have as_long : (joinFields [g₀, g₁, g₂, g₃, g₄, g₅]).length + 1 =
          (joinFields [g₃, g₄, g₅, g₀, g₁, g₂]).length + 1 := by
        rw [length_joinFields (by simp), length_joinFields (by simp)]
        simp only [List.map_cons, List.map_nil, List.sum_cons, List.sum_nil]
        omega
      omega
    nth_rewrite 1 [← whole] at copies
    obtain ⟨same, reach⟩ := of_copied_rest inside rest_free text_free copies lengths
    exact ⟨by rw [← joined, same], reach⟩
  · rintro ⟨joined, reach⟩
    have copies := @copied_rest _ (data_buf ++ [0]) _ _ inside rest_free reach
    rw [whole] at copies
    rw [copies, joined, Option.map_some]

end Reassembled

/-! ### The stored key -/

/-- When a key is stored with nothing but its scope changed, for the size it is split with: the
class has one byte, the first three fields are the next three, and the copy of the rest ends with
the key. -/
def Kept (key_size : Int) (scope_buf key_buf : Text) : Prop :=
  let fields := (resolvedKey scope_buf key_buf).splitOn DB_FLDSEP_CHR
  (Resolved scope_buf → scope_buf.length = 1) ∧ 7 ≤ fields.length ∧
    fields.take 3 = (fields.drop 3).take 3 ∧
    (restSize key_size fields < 0 ∨
      restSize key_size fields = (joinFields (fields.drop 6)).length)

section Stored

variable {get_symbol : Text → Text → Text} {key_size : Int} {key_buf data_buf scope_buf buf : Text}
  {fields rest : List Text}

/-- The scope is put in front of what follows the `?`. -/
theorem exists_tail (unknown : key_buf.splitOn DB_FLDSEP_CHR = [63] :: rest) (scope_buf : Text) :
    ∃ tail, key_buf = 63 :: tail ∧
      resolvedKey scope_buf key_buf = if Resolved scope_buf then scope_buf ++ tail else key_buf := by
  have whole : joinFields (key_buf.splitOn DB_FLDSEP_CHR) = key_buf :=
    List.intercalate_splitOn DB_FLDSEP_CHR
  rw [resolvedKey, resolvedFields]
  cases rest with
  | nil =>
    refine ⟨[], ?_, ?_⟩
    · rw [← whole, unknown, joinFields_singleton]
    · split
      · rw [unknown, List.tail_cons, joinFields_singleton, List.append_nil]
      · exact whole
  | cons s rest =>
    refine ⟨DB_FLDSEP_CHR :: joinFields (s :: rest), ?_, ?_⟩
    · rw [← whole, unknown, joinFields_cons (by simp), List.singleton_append]
    · split
      · rw [unknown, List.tail_cons, joinFields_cons (by simp)]
      · exact whole

theorem length_exchanged (many : 7 ≤ fields.length) :
    (joinFields (exchanged fields)).length = (joinFields fields).length := by
  have some_field : fields ≠ [] := List.ne_nil_of_length_pos (by omega)
  have some_exchanged : exchanged fields ≠ [] := by
    apply List.ne_nil_of_length_pos
    simp only [exchanged, List.length_append, List.length_drop]
    omega
  apply Nat.succ_injective
  rw [Nat.succ_eq_add_one, Nat.succ_eq_add_one, length_joinFields some_exchanged,
    length_joinFields some_field]
  have parts : fields = fields.take 3 ++ ((fields.drop 3).take 3 ++ fields.drop 6) := by
    rw [show fields.drop 6 = (fields.drop 3).drop 3 by rw [List.drop_drop],
      List.take_append_drop, List.take_append_drop]
  have total := congrArg (fun l : List Text => (l.map fun s => s.length + 1).sum) parts
  simp only [List.map_append, List.sum_append] at total
  rw [total]
  simp only [exchanged, List.map_append, List.sum_append]
  omega

/-- Two exchanged groups are in place exactly if they are the same. -/
theorem exchanged_eq_iff (many : 7 ≤ (buf.splitOn DB_FLDSEP_CHR).length) :
    buf = joinFields (exchanged (buf.splitOn DB_FLDSEP_CHR)) ↔
      (buf.splitOn DB_FLDSEP_CHR).take 3 = ((buf.splitOn DB_FLDSEP_CHR).drop 3).take 3 := by
  have whole : joinFields (buf.splitOn DB_FLDSEP_CHR) = buf := List.intercalate_splitOn DB_FLDSEP_CHR
  have separate : ∀ s ∈ buf.splitOn DB_FLDSEP_CHR, DB_FLDSEP_CHR ∉ s :=
    fun s mem => sep_notMem_of_mem_splitOn mem
  set fields := buf.splitOn DB_FLDSEP_CHR with split
  have three : ((fields.drop 3).take 3).length = 3 := by
    rw [List.length_take, List.length_drop]
    omega
  constructor
  · intro same
    have pieces : ∀ s ∈ exchanged fields, DB_FLDSEP_CHR ∉ s := by
      intro s mem
      apply separate
      simp only [exchanged, List.mem_append] at mem
      rcases mem with (mem | mem) | mem
      · exact List.mem_of_mem_drop (List.mem_of_mem_take mem)
      · exact List.mem_of_mem_take mem
      · exact List.mem_of_mem_drop mem
    have some_exchanged : exchanged fields ≠ [] := by
      apply List.ne_nil_of_length_pos
      simp only [exchanged, List.length_append, three]
      omega
    have lists : fields = exchanged fields := by
      rw [← splitOn_joinFields pieces some_exchanged, ← same]
    calc fields.take 3 = (exchanged fields).take 3 := by rw [← lists]
      _ = (fields.drop 3).take 3 := by
        rw [exchanged, List.append_assoc, List.take_left' three]
  · intro same
    have in_place : exchanged fields = fields := by
      rw [exchanged, same, List.append_assoc]
      nth_rewrite 1 [← same]
      rw [show fields.drop 6 = (fields.drop 3).drop 3 by rw [List.drop_drop],
        List.take_append_drop, List.take_append_drop]
    rw [in_place, whole]

/-- The switched buffer holds bytes of the key and of the class. -/
theorem mem_switchClass {c : UInt8} (switched : switchClass key_buf scope_buf = some buf)
    (mem : c ∈ buf) : c ∈ key_buf ∨ c ∈ scope_buf := by
  unfold switchClass at switched
  split at switched
  next =>
    dsimp only at switched
    split at switched
    · cases switched
    · cases switched
      simp only [overwrite, List.mem_append] at mem
      rcases mem with (mem | mem) | mem
      · exact absurd mem (by simp)
      · exact .inr mem
      · have moved := List.mem_of_mem_drop mem
        simp only [List.mem_append] at moved
        rcases moved with (mem | mem) | mem
        · exact .inl (List.mem_of_mem_take mem)
        · exact .inl (List.mem_of_mem_take mem)
        · exact .inl (List.mem_of_mem_drop mem)
  next =>
    cases switched
    exact .inl mem

/-- With a size for its key, a line is stored under the key that is meant exactly if it is kept. -/
theorem forwardKey_eq_iff (unknown : key_buf.splitOn DB_FLDSEP_CHR = [63] :: rest)
    (short : key_buf.length < 32768) (free : 0 ∉ key_buf) (scope_free : 0 ∉ scope_buf)
    (found : scopeOf get_symbol key_buf = some scope_buf) :
    forwardKey get_symbol key_size key_buf data_buf = some (resolvedKey scope_buf key_buf) ↔
      Kept key_size scope_buf key_buf := by
  obtain ⟨tail, starts, meant⟩ := exists_tail unknown scope_buf
  have stored : forwardKey get_symbol key_size key_buf data_buf =
      (switchClass key_buf scope_buf).bind fun buf => reassembled key_size buf data_buf := by
    rw [forwardKey, found]
    rfl
  have key_free : 0 ∉ resolvedKey scope_buf key_buf := by
    rw [meant]
    split
    · rw [List.mem_append, not_or]
      exact ⟨scope_free, fun mem => free (starts ▸ List.mem_cons_of_mem _ mem)⟩
    · exact free
  -- a key whose class is in place needs only its fields exchanged
  have in_place : ∀ {buf : Text}, switchClass key_buf scope_buf = some buf →
      resolvedKey scope_buf key_buf = buf →
      (forwardKey get_symbol key_size key_buf data_buf = some (resolvedKey scope_buf key_buf) ↔
        7 ≤ (buf.splitOn DB_FLDSEP_CHR).length ∧
          (buf.splitOn DB_FLDSEP_CHR).take 3 = ((buf.splitOn DB_FLDSEP_CHR).drop 3).take 3 ∧
          (restSize key_size (buf.splitOn DB_FLDSEP_CHR) < 0 ∨
            restSize key_size (buf.splitOn DB_FLDSEP_CHR) =
              (joinFields ((buf.splitOn DB_FLDSEP_CHR).drop 6)).length)) := by
    intro buf switched same
    rw [stored, switched, Option.bind_some, same]
    by_cases many : 7 ≤ (buf.splitOn DB_FLDSEP_CHR).length
    · rw [reassembled_eq_iff (by rw [length_switchClass switched]; exact short)
        (same ▸ key_free) (same ▸ key_free) le_rfl many, exchanged_eq_iff many]
      simp only [many, true_and]
    · rw [reassembled]
      simp [many, Nat.lt_of_not_le many]
  by_cases resolved : Resolved scope_buf
  · rw [if_pos resolved] at meant
    by_cases single : scope_buf.length = 1
    · obtain ⟨c, rfl⟩ := List.length_eq_one_iff.mp single
      have switched : switchClass key_buf [c] = some (c :: tail) := by
        rw [starts, switchClass_single resolved]
      rw [in_place switched meant, Kept, meant]
      simp
    · constructor
      · intro kept
        rw [stored, Option.bind_eq_some_iff] at kept
        obtain ⟨buf, switched, whole⟩ := kept
        have length := length_switchClass switched
        have longer : buf.length < (resolvedKey scope_buf key_buf).length := by
          have := List.length_pos_of_ne_nil resolved.1
          rw [length, meant, starts, List.length_cons, List.length_append]
          omega
        have buf_free : 0 ∉ buf := by
          intro mem
          rcases mem_switchClass switched mem with mem | mem
          · exact free mem
          · exact scope_free mem
        by_cases many : 7 ≤ (buf.splitOn DB_FLDSEP_CHR).length
        · rw [reassembled_eq_iff (length ▸ short) buf_free key_free longer.le many] at whole
          have as_long := congrArg List.length whole.1
          rw [length_exchanged many, joinFields, List.intercalate_splitOn] at as_long
          omega
        · rw [reassembled] at whole
          simp [Nat.lt_of_not_le many] at whole
      · intro kept
        exact absurd (kept.1 resolved) single
  · rw [if_neg resolved] at meant
    rw [in_place (switchClass_unresolved resolved) meant, Kept, meant]
    simp [resolved]

/-- No line fixes the key it is stored under: for some size it is not the key that is meant. -/
theorem late_scope_never (get_symbol : Text → Text → Text)
    (unknown : key_buf.splitOn DB_FLDSEP_CHR = [63] :: rest) (data_buf : Text) :
    (¬ ∀ key_size, StoresResolved get_symbol key_size key_buf data_buf) ∧
      ∀ scope_buf, key_buf.length < 32768 → 0 ∉ key_buf → 0 ∉ scope_buf →
        scopeOf get_symbol key_buf = some scope_buf → ∀ key_size,
          forwardKey get_symbol key_size key_buf data_buf = some (resolvedKey scope_buf key_buf) ↔
            Kept key_size scope_buf key_buf := by
  refine ⟨fun all => ?_, fun scope_buf short free scope_free found key_size =>
    forwardKey_eq_iff unknown short free scope_free found⟩
  obtain ⟨scope_buf, found, -⟩ := all 0
  -- the scope and the buffer do not depend on the size
  have forward : ∀ key_size, forwardKey get_symbol key_size key_buf data_buf =
      some (resolvedKey scope_buf key_buf) := by
    intro key_size
    obtain ⟨scope, same, stored⟩ := all key_size
    rw [found] at same
    cases same
    unfold storedKeys at stored
    rw [Option.bind_eq_bind, Option.bind_eq_some_iff] at stored
    obtain ⟨key, whole, keys⟩ := stored
    rw [whole]
    dsimp only at keys
    split at keys
    · cases keys
    split at keys
    · rw [(Prod.mk.inj (Option.some.inj keys)).1]
    · rw [Option.map_eq_some_iff] at keys
      obtain ⟨by_key, -, pair⟩ := keys
      rw [(Prod.mk.inj pair).1]
  cases switched : switchClass key_buf scope_buf with
  | none =>
    have nothing := forward 0
    rw [forwardKey, found, Option.bind_eq_bind, Option.bind_some, switched] at nothing
    cases nothing
  | some buf =>
    refine reassembled_differs buf data_buf (resolvedKey scope_buf key_buf) fun key_size => ?_
    rw [← forward key_size, forwardKey, found, Option.bind_eq_bind, Option.bind_some, switched]
    rfl

end Stored

/-- A call whose class `get_symbol` finds; the line says the same class twice and its name has
one byte. -/
def sampleLine : Text := joinFields [ascii "?", ascii "draw", ascii "mi", ascii "A", ascii "draw",
  ascii "mi", ascii "p", ascii "000003", ascii "a.c"]

theorem splitOn_sampleLine : sampleLine.splitOn DB_FLDSEP_CHR = ascii "?" :: [ascii "draw",
    ascii "mi", ascii "A", ascii "draw", ascii "mi", ascii "p", ascii "000003", ascii "a.c"] := by
  apply splitOn_joinFields
  · decide
  · decide

theorem sampleLine_never :
    (¬ ∀ key_size, StoresResolved (fun _ _ => ascii "A") key_size sampleLine (ascii "\x01")) ∧
      ∀ scope_buf, sampleLine.length < 32768 → 0 ∉ sampleLine → 0 ∉ scope_buf →
        scopeOf (fun _ _ => ascii "A") sampleLine = some scope_buf → ∀ key_size,
          forwardKey (fun _ _ => ascii "A") key_size sampleLine (ascii "\x01") =
              some (resolvedKey scope_buf sampleLine) ↔
            Kept key_size scope_buf sampleLine :=
  late_scope_never _ splitOn_sampleLine _

/-- The class `Shape` is stored over the fields behind the `?`, whatever size the key is split
with. -/
theorem shape_overwrites :
    switchClass sampleLine (ascii "Shape") =
        some (ascii "Shape\x01draw\x01mi\x01A\x01draw\x01mi\x01p\x0100000c") ∧
      ∀ key_size : Int, forwardKey (fun _ _ => ascii "Shape") key_size sampleLine (ascii "\x01") ≠
        some (resolvedKey (ascii "Shape") sampleLine) := by
  refine ⟨by decide, fun key_size => ?_⟩
  rw [Ne, forwardKey_eq_iff splitOn_sampleLine (by decide) (by decide) (by decide)]
  · intro kept
    exact absurd (kept.1 (by decide)) (by decide)
  · rw [scopeOf, symbolArguments_eq, field, field, splitOn_sampleLine]
    rfl

end SourceNavigator.Db.LateScope

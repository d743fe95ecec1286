import SourceNavigator.Db.LongString
import SourceNavigator.Db.Table

/-!
The fields of a record read one after the other (`read_next_field` in `db/dbutils.c`).

A call copies a field into a buffer and leaves a pointer behind its separator in
a static variable, from which the next call goes on. The size that a call is
passed does not count the closing NUL. `FieldReader` lists the functions that
read fields, with the size that each of their calls passes and the size of the
array it passes it for.

* `field_reads_fit_iff` says of every reader when all its calls stay in their
  arrays, and where each of them leaves the pointer.
-/

namespace SourceNavigator.Db.FieldReads

/-! ### One call -/

/-- The loop over the field, with the number of bytes copied so far: the bytes it copies and
the string it stops at. Without a buffer no byte is copied. -/
def copyField (sep : UInt8) (q : Option Nat) (i : Nat) : Text → Text × Text
  | [] => ([], [])
  | c :: p =>
    if c = sep then ([], c :: p)
    else if q.any fun size => decide (i < size) then
      (c :: (copyField sep q (i + 1) p).1, (copyField sep q (i + 1) p).2)
    else copyField sep q i p

/-- The pointer behind the separator. -/
def skipSeparator (sep : UInt8) : Text → Text
  | [] => []
  | c :: p => if c = sep then p else c :: p

/-- What a call leaves: the bytes it wrote into its buffer, the closing NUL with them, and the
string its result and the static pointer point at; `none` is a NULL pointer. -/
structure FieldRead where
  written : Text
  oldPtr : Option Text

/-- `read_next_field` with the size of the buffer, `none` for a NULL buffer; the string `none`
goes on where the last call stopped. -/
def read_next_field (oldPtr str : Option Text) (q : Option Nat) (sep : UInt8) : FieldRead :=
  match str.or oldPtr with
  | none => { written := if q.isSome then [0] else [], oldPtr := none }
  | some p =>
    let copied := copyField sep q 0 p
    { written := if q.isSome then copied.1 ++ [0] else [],
      oldPtr := some (skipSeparator sep copied.2) }

section OneCall

variable {sep : UInt8} {q : Option Nat} {field rest : Text} {i : Nat}

/-- The loop runs over the field and copies what fits. -/
theorem copyField_field (free : sep ∉ field) (stop : rest = [] ∨ ∃ p, rest = sep :: p) :
    copyField sep q i (field ++ rest) = (field.take (q.getD 0 - i), rest) := by
  induction field generalizing i with
  | nil =>
    rw [List.nil_append, List.take_nil]
    rcases stop with rfl | ⟨p, rfl⟩
    · rfl
    · rw [copyField, if_pos rfl]
  | cons c field ih =>
    rw [List.mem_cons, not_or] at free
    rw [List.cons_append, copyField, if_neg (Ne.symm free.1)]
    split
    case isTrue room =>
      obtain ⟨size, rfl, less⟩ : ∃ size, q = some size ∧ i < size := by
        simpa [Option.any_eq_true] using room
      rw [ih free.2, Option.getD_some, show size - i = (size - (i + 1)) + 1 by omega,
        List.take_succ_cons]
    case isFalse full =>
      have none_fits : q.getD 0 - i = 0 := by
        cases q with
        | none => simp
        | some size =>
          rw [Option.any_some, decide_eq_true_iff] at full
          rw [Option.getD_some]
          omega
      rw [ih free.2, none_fits, List.take_zero, List.take_zero]

/-- A call copies the field in front, as far as the size allows, and stops behind its separator. -/
theorem read_next_field_spec {oldPtr str : Option Text} {fields : List Text}
    (free : ∀ s ∈ field :: fields, DB_FLDSEP_CHR ∉ s)
    (at_field : str.or oldPtr = some (joinFields (field :: fields))) :
    read_next_field oldPtr str q DB_FLDSEP_CHR =
      { written := if q.isSome then field.take (q.getD 0) ++ [0] else [],
        oldPtr := some (joinFields fields) } := by
  have word := free field List.mem_cons_self
  unfold read_next_field
  rw [at_field]
  cases fields with
  | nil =>
    have copied := copyField_field (q := q) (i := 0) word (.inl rfl)
    rw [List.append_nil] at copied
    simp only [joinFields_singleton, copied, Nat.sub_zero]
    rfl
  | cons field' fields =>
    have copied := copyField_field (q := q) (i := 0) word
      (.inr ⟨joinFields (field' :: fields), rfl⟩)
    simp only [joinFields_cons (List.cons_ne_nil _ _), copied, Nat.sub_zero]
    rw [skipSeparator, if_pos rfl]

end OneCall

/-! ### The readers -/

/-- A buffer: the size that is passed for it and the size of the array. -/
structure Buffer where
  size : Nat
  array : Nat

/-- The functions that read fields. -/
inductive FieldReader
  /-- `db_insert_entry` of a file: the group and the highlighting file. -/
  | fileEntry
  /-- `put_file_db`: the highlighting file of a stored file. -/
  | storedFile
  /-- `db_insert_entry` of a reference with the scope `?`: the name and the class. -/
  | unknownScope
  /-- `load_class_members`: the two columns, each with `read_next_int_field`. -/
  | memberColumns

/-- The buffers of the calls of a reader; a call without one skips its field. -/
def FieldReader.buffers : FieldReader → List (Option Buffer)
  | .fileEntry => [some ⟨80, 80⟩, some ⟨MAXPATHLEN, MAXPATHLEN⟩]
  | .storedFile => [none, none, some ⟨MAXPATHLEN - 1, MAXPATHLEN⟩]
  | .unknownScope => [none, some ⟨1024, 1024⟩, none, some ⟨1024, 1024⟩]
  | .memberColumns => [none, some ⟨64, 64⟩, none, some ⟨64, 64⟩]

/-- The string that a later call is passed: `put_file_db` passes the result of the call before,
the others a NULL pointer. -/
def FieldReader.str : FieldReader → Option Text → Option Text
  | .storedFile => fun oldPtr => oldPtr
  | _ => fun _ => none

/-- The calls that go on from a pointer, each with its buffer. -/
def goOn (str : Option Text → Option Text) (oldPtr : Option Text) :
    List (Option Buffer) → List (Option Buffer × FieldRead)
  | [] => []
  | buf :: buffers =>
    let call := read_next_field oldPtr (str oldPtr) (buf.map Buffer.size) DB_FLDSEP_CHR
    (buf, call) :: goOn str call.oldPtr buffers

/-- The calls of a reader for a record text; the first one is passed the text. -/
def FieldReader.reads (reader : FieldReader) (oldPtr : Option Text) (s : Text) :
    List (Option Buffer × FieldRead) :=
  match reader.buffers with
  | [] => []
  | buf :: buffers =>
    let call := read_next_field oldPtr (some s) (buf.map Buffer.size) DB_FLDSEP_CHR
    (buf, call) :: goOn reader.str call.oldPtr buffers

/-- No byte is written behind the end of the array. -/
def InArray (call : Option Buffer × FieldRead) : Prop :=
  ∀ buf ∈ call.1, call.2.written.length ≤ buf.array

instance (call : Option Buffer × FieldRead) : Decidable (InArray call) :=
  inferInstanceAs (Decidable (∀ buf ∈ call.1, _))

/-! ### The calls of a reader -/

section Calls

variable {str : Option Text → Option Text} {oldPtr : Option Text} {s : Text}
  {fields : List Text} {reader : FieldReader} {buf : Option Buffer} {k : Nat}

/-- A field of a record text, empty behind the last one. -/
def field (s : Text) (k : Nat) : Text := (s.splitOn DB_FLDSEP_CHR).getD k []

/-- What the call for a buffer does at the first of some fields. -/
def callAt (fields : List Text) (buf : Option Buffer) : FieldRead :=
  { written := if buf.isSome then (fields.headD []).take ((buf.map Buffer.size).getD 0) ++ [0] else [],
    oldPtr := some (joinFields fields.tail) }

theorem read_next_field_eq (free : ∀ s ∈ fields, DB_FLDSEP_CHR ∉ s)
    (at_field : str oldPtr = none ∧ oldPtr = some (joinFields fields) ∨
      str oldPtr = some (joinFields fields)) :
    read_next_field oldPtr (str oldPtr) (buf.map Buffer.size) DB_FLDSEP_CHR =
      callAt fields buf := by
  have pointer : (str oldPtr).or oldPtr = some (joinFields fields) := by
    rcases at_field with ⟨null, stored⟩ | passed
    · rw [null, stored, Option.none_or]
    · rw [passed, Option.some_or]
  rw [callAt]
  cases fields with
  | nil =>
    have spec := @read_next_field_spec (buf.map Buffer.size) [] _ _ [] (by simp) pointer
    rw [spec, Option.isSome_map]
    rfl
  | cons field fields =>
    have spec := read_next_field_spec (q := buf.map Buffer.size) free pointer
    rw [spec, Option.isSome_map]
    rfl

/-- A reader passes a NULL pointer or the pointer that is stored. -/
theorem str_cases (reader : FieldReader) (o : Option Text) :
    reader.str o = none ∨ reader.str o = o := by
  cases reader <;> simp [FieldReader.str]

/-- The calls that go on read the fields one after the other. -/
theorem goOn_getElem? (free : ∀ s ∈ fields, DB_FLDSEP_CHR ∉ s) (k : Nat)
    (buffers : List (Option Buffer)) :
    (goOn reader.str (some (joinFields fields)) buffers)[k]? =
      buffers[k]?.map fun buf => (buf, callAt (fields.drop k) buf) := by
  induction buffers generalizing fields k with
  | nil => simp [goOn]
  | cons buf buffers ih =>
    have call : read_next_field (some (joinFields fields)) (reader.str (some (joinFields fields)))
        (buf.map Buffer.size) DB_FLDSEP_CHR = callAt fields buf := by
      refine read_next_field_eq free ?_
      rcases str_cases reader (some (joinFields fields)) with null | passed
      · exact .inl ⟨null, rfl⟩
      · exact .inr passed
    rw [goOn, call]
    cases k with
    | zero => simp
    | succ k =>
      rw [List.getElem?_cons_succ, List.getElem?_cons_succ]
      have rest := @ih fields.tail (fun s mem => free s (List.mem_of_mem_tail mem)) k
      rw [List.drop_tail] at rest
      exact rest

/-- Every call of a reader reads the field of its place. -/
theorem reads_getElem? (reader : FieldReader) (oldPtr : Option Text) (s : Text) (k : Nat) :
    (reader.reads oldPtr s)[k]? =
      reader.buffers[k]?.map fun buf =>
        (buf, callAt ((s.splitOn DB_FLDSEP_CHR).drop k) buf) := by
  have free : ∀ f ∈ s.splitOn DB_FLDSEP_CHR, DB_FLDSEP_CHR ∉ f :=
    fun f mem => sep_notMem_of_mem_splitOn mem
  have whole : joinFields (s.splitOn DB_FLDSEP_CHR) = s := List.intercalate_splitOn DB_FLDSEP_CHR
  unfold FieldReader.reads
  cases reader.buffers with
  | nil => simp
  | cons buf buffers =>
    have first : read_next_field oldPtr (some s) (buf.map Buffer.size) DB_FLDSEP_CHR =
        callAt (s.splitOn DB_FLDSEP_CHR) buf :=
      @read_next_field_eq (fun _ => some s) oldPtr _ buf free (.inr (by rw [whole]))
    dsimp only
    rw [first]
    cases k with
    | zero => simp
    | succ k =>
      rw [List.getElem?_cons_succ, List.getElem?_cons_succ]
      have rest := @goOn_getElem? (s.splitOn DB_FLDSEP_CHR).tail reader
        (fun f mem => free f (List.mem_of_mem_tail mem)) k buffers
      rw [List.drop_tail] at rest
      exact rest

/-- No reader passes more than the size of its array. -/
theorem size_le_array {buf : Buffer} (mem : some buf ∈ reader.buffers) : buf.size ≤ buf.array := by
  cases reader <;> simp [FieldReader.buffers] at mem
  all_goals rcases mem with rfl | rfl <;> simp

theorem inArray_iff {buf : Buffer} (reader_buf : some buf ∈ reader.buffers) :
    InArray (some buf, callAt fields (some buf)) ↔
      (buf.size = buf.array → (fields.headD []).length < buf.array) := by
  have bound := size_le_array reader_buf
  simp only [InArray, callAt, Option.mem_def, Option.some.injEq, forall_eq', Option.isSome_some,
    if_true, Option.map_some, Option.getD_some, List.length_append, List.length_take,
    List.length_singleton]
  omega

/-- The calls of a reader stay in their arrays exactly if each field that is read into an array
whose whole size is passed is shorter than the array; and every call leaves the pointer at the
field behind its own. -/
theorem field_reads_fit_iff (reader : FieldReader) (oldPtr : Option Text) (s : Text) :
    ((∀ call ∈ reader.reads oldPtr s, InArray call) ↔
        ∀ (k : Nat) (buf : Buffer), reader.buffers[k]? = some (some buf) → buf.size = buf.array →
          (field s k).length < buf.array) ∧
      ∀ (k : Nat) (call : Option Buffer × FieldRead), (reader.reads oldPtr s)[k]? = some call →
        call.2.oldPtr = some (joinFields ((s.splitOn DB_FLDSEP_CHR).drop (k + 1))) := by
  have head : ∀ k, ((s.splitOn DB_FLDSEP_CHR).drop k).headD [] = field s k := by
    intro k
    rw [field, List.headD_eq_head?_getD, List.head?_drop, List.getD_eq_getElem?_getD]
  refine ⟨?_, ?_⟩
  · constructor
    · intro all k buf at_k whole
      have call := reads_getElem? reader oldPtr s k
      rw [at_k, Option.map_some] at call
      have fits := all _ (List.mem_of_getElem? call)
      rw [inArray_iff (List.mem_of_getElem? at_k), head] at fits
      exact fits whole
    · intro short call mem
      obtain ⟨k, at_k⟩ := List.mem_iff_getElem?.mp mem
      rw [reads_getElem?, Option.map_eq_some_iff] at at_k
      obtain ⟨buf, buffer, rfl⟩ := at_k
      cases buf with
      | none => simp [InArray]
      | some buf =>
        rw [inArray_iff (List.mem_of_getElem? buffer), head]
        exact short k buf buffer
  · intro k call at_k
    rw [reads_getElem?, Option.map_eq_some_iff] at at_k
    obtain ⟨buf, _, rfl⟩ := at_k
    rw [callAt, List.tail_drop]

theorem short_group_fits :
    (∀ call ∈ FieldReader.fileEntry.reads none (ascii "c++\x01a.h"), InArray call) ∧
      ((FieldReader.fileEntry.reads none (ascii "c++\x01a.h"))[0]?.bind fun call =>
        call.2.oldPtr) = some (ascii "a.h") := by
  refine ⟨(field_reads_fit_iff _ _ _).1.mpr ?_, ?_⟩
  · intro k buf at_k _
    match k with
    | 0 =>
      cases at_k
      decide
    | 1 =>
      cases at_k
      decide
    | k + 2 => cases at_k
  · obtain ⟨call, first⟩ : ∃ call,
        (FieldReader.fileEntry.reads none (ascii "c++\x01a.h"))[0]? = some call := ⟨_, rfl⟩
    rw [first, Option.bind_some, (field_reads_fit_iff _ _ _).2 0 call first]
    decide

/-- A group of 80 bytes is closed by a NUL behind its array. -/
theorem group_of_eighty :
    ¬ ∀ call ∈ FieldReader.fileEntry.reads none (List.replicate 80 97), InArray call := by
  decide

end Calls

end SourceNavigator.Db.FieldReads

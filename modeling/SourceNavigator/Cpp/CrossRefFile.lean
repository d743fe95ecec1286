import Mathlib.Data.List.Forall2
import SourceNavigator.Scanf
import SourceNavigator.Symbols

/-!
The cross-reference file between the two passes of the C/C++ parser.

The first pass writes a line for every function body (`put_cross1` in
`cpp/cparser.c`), through a buffer of 1000 bytes. The second pass reads the
lines (`main` in `cpp/cbrowser2.c`, `LongStringFgets`) and sets its variables
from the fields (`Paf_insert_cross_ref_qry` in `cpp/cpplib/cp_crossref.c`). A
variable keeps its value when a line does not get to its field.

`readBack_iff` says which reports are read back as they were given: all lines
but the last fit into the buffer. The bytes are not converted between encodings
here.
-/

namespace SourceNavigator.Cpp.CrossRefFile

/-! ### Writing -/

/-- A string without NUL, separator and line break. -/
structure Field where
  text : Text
  plain : ∀ c ∈ text, c ≠ 0 ∧ c ≠ KEY_DATA_SEP_CHR ∧ c ≠ NEWLINE ∧ c ≠ CARRIAGE_RETURN

/-- The arguments of `put_cross1`, with the keyword mode of the parser. -/
structure Report where
  type : Int32
  scope : Option Field
  sym_name : Option Field
  file : Option Field
  start_lineno : Int32
  start_colpos : Int32
  end_lineno : Int32
  end_colpos : Int32
  attr : UInt64
  ret : Option Field
  types : Option Field
  names : Option Field
  keyw_cpp : Int32

def null_safe (x : Option Field) : Text := (x.map Field.text).getD []

namespace Report

/-- The fields before the keyword mode. -/
def head (r : Report) : List Text :=
  [decimal SymbolType.PAF_CROSS_REF_CPP.code, decimal r.type.toInt, null_safe r.file,
    decimal r.start_lineno.toInt, decimal r.start_colpos.toInt, decimal r.end_lineno.toInt,
    decimal r.end_colpos.toInt, decimal r.attr.toInt64.toInt, null_safe r.ret, null_safe r.scope,
    null_safe r.sym_name, null_safe r.types, null_safe r.names]

def fields (r : Report) : List Text := r.head ++ [decimal r.keyw_cpp.toInt]

end Report

/-- Fields with a separator after each. -/
def terminated (fields : List Text) : Text := fields.flatMap fun f => f ++ [KEY_DATA_SEP_CHR]

/-- The line of a report, as it is formatted. -/
def Report.line (r : Report) : Text := terminated r.fields ++ [NEWLINE]

/-- The size of the buffer `tmp`. -/
def bufferSize : Nat := 1000

/-- What is written for a report: `snprintf` cuts the line off. -/
def put_cross1 (r : Report) : Text := r.line.take (bufferSize - 1)

/-! ### Reading -/

/-- The lines that `LongStringFgets` reads one after the other. The first argument is what the
buffer has of the line. -/
def fgets (line : Text) : Text → List Text
  | [] => if line = [] then [] else [line]
  | c :: s =>
    if c = NEWLINE then line :: fgets [] s
    else if c = CARRIAGE_RETURN then fgets line s
    else fgets (line ++ [c]) s

/-- The strings that `strchr(pcLine, ';')` cuts off. -/
def fields : Text → List Text
  | [] => []
  | c :: s =>
    if c = KEY_DATA_SEP_CHR then [] :: fields s
    else
      match fields s with
      | [] => []
      | f :: fs => (c :: f) :: fs

def atoi (s : Text) : Int32 :=
  let value := ((scanInt s).map Prod.fst).getD 0
  Int32.ofInt (max (-9223372036854775808) (min 9223372036854775807 value))

/-- The variables that are set from a line. -/
structure Query where
  type_g : Int32
  file_g : Option Text
  start_lineno_g : Int32
  start_charno_g : Int32
  end_lineno_g : Int32
  end_charno_g : Int32
  attr_g : Int32
  ret_g : Option Text
  scope_g : Option Text
  sym_name_g : Option Text
  arg_types_g : Option Text
  arg_names_g : Option Text
  is_cpp_g : Int32

namespace Query

/-- The `switch` over the number of the field. -/
def assign (q : Query) (i : Nat) (pcLine : Text) : Query :=
  match i with
  | 1 => { q with type_g := atoi pcLine }
  | 2 => { q with file_g := some pcLine }
  | 3 => { q with start_lineno_g := atoi pcLine }
  | 4 => { q with start_charno_g := atoi pcLine }
  | 5 => { q with end_lineno_g := atoi pcLine }
  | 6 => { q with end_charno_g := atoi pcLine }
  | 7 => { q with attr_g := atoi pcLine }
  | 8 => { q with ret_g := some pcLine }
  | 9 => { q with scope_g := some pcLine }
  | 10 => { q with sym_name_g := some pcLine }
  | 11 => { q with arg_types_g := some pcLine }
  | 12 => { q with arg_names_g := some pcLine }
  | 13 => { q with is_cpp_g := atoi pcLine }
  | _ => q

def assignAll (q : Query) (i : Nat) : List Text → Query
  | [] => q
  | pcLine :: rest => (q.assign i pcLine).assignAll (i + 1) rest

/-- The strings are freed. -/
def free (q : Query) : Query :=
  { q with
    file_g := none
    ret_g := none
    scope_g := none
    sym_name_g := none
    arg_types_g := none
    arg_names_g := none }

end Query

/-- The source files as the second pass finds them: whether a file can be opened and read, and
whether the end of a body is where the first pass found it. -/
structure Sources where
  opens : Text → Bool
  f_ReadFile : Text → Bool
  agrees : Query → Bool

/-- The variables of the second pass, with the file that is read. -/
structure Reader where
  vars : Query
  filename_g : Option Text

/-- All variables are zero at first. -/
def Reader.start : Reader :=
  { vars :=
      { type_g := 0
        file_g := none
        start_lineno_g := 0
        start_charno_g := 0
        end_lineno_g := 0
        end_charno_g := 0
        attr_g := 0
        ret_g := none
        scope_g := none
        sym_name_g := none
        arg_types_g := none
        arg_names_g := none
        is_cpp_g := 0 }
    filename_g := none }

/-- The query of a line and the variables after it. There is no result without a file name, which
is compared through a null pointer. -/
def Paf_insert_cross_ref_qry (sources : Sources) (reader : Reader) (pcLine : Text) :
    Option (Query × Reader) :=
  let vars := reader.vars.assignAll 0 (fields pcLine)
  match vars.file_g with
  | none => none
  | some file =>
    let searched : Reader :=
      { vars := vars.free, filename_g := if sources.agrees vars then some file else none }
    if reader.filename_g = some file then some (vars, searched)
    else if !sources.opens file then some (vars, { reader with vars })
    else if !sources.f_ReadFile file then some (vars, { vars, filename_g := some file })
    else some (vars, searched)

/-- How a line of a report starts. -/
def cpp_xref : Text := terminated [decimal SymbolType.PAF_CROSS_REF_CPP.code]

/-- The queries of the loop in `main`. -/
def queries (sources : Sources) : Reader → List Text → List Query
  | _, [] => []
  | reader, bufp :: lines =>
    if cpp_xref.isPrefixOf bufp then
      match Paf_insert_cross_ref_qry sources reader bufp with
      | none => []
      | some (query, reader) => query :: queries sources reader lines
    else queries sources reader lines

/-- A query has the fields of a report. -/
structure ReadAs (q : Query) (r : Report) : Prop where
  type : q.type_g = r.type
  file : q.file_g = some (null_safe r.file)
  start_lineno : q.start_lineno_g = r.start_lineno
  start_colpos : q.start_charno_g = r.start_colpos
  end_lineno : q.end_lineno_g = r.end_lineno
  end_colpos : q.end_charno_g = r.end_colpos
  attr : q.attr_g.toInt = r.attr.toNat
  ret : q.ret_g = some (null_safe r.ret)
  scope : q.scope_g = some (null_safe r.scope)
  sym_name : q.sym_name_g = some (null_safe r.sym_name)
  types : q.arg_types_g = some (null_safe r.types)
  names : q.arg_names_g = some (null_safe r.names)
  keyw_cpp : q.is_cpp_g = r.keyw_cpp

/-! ### Separators and lines -/

section Lines

variable {line s rest : Text} {fs : List Text}

/-- No byte of a string is a separator or a line break. -/
def Plain (s : Text) : Prop := ∀ c ∈ s, c ≠ KEY_DATA_SEP_CHR ∧ c ≠ NEWLINE ∧ c ≠ CARRIAGE_RETURN

/-- No byte of a string is a line break. -/
def Unbroken (s : Text) : Prop := ∀ c ∈ s, c ≠ NEWLINE ∧ c ≠ CARRIAGE_RETURN

theorem plain_decimal (n : Int) : Plain (decimal n) := by
  intro c mem
  rcases isNumeral_decimal mem with rfl | ⟨low, high⟩
  · decide
  · rw [UInt8.le_iff_toNat_le] at low high
    have above (d : UInt8) (out : d.toNat < 48 ∨ 57 < d.toNat) : c ≠ d := by
      have first : (48 : UInt8).toNat = 48 := rfl
      have last : (57 : UInt8).toNat = 57 := rfl
      rintro rfl
      omega
    exact ⟨above _ (by decide), above _ (by decide), above _ (by decide)⟩

theorem plain_null_safe (x : Option Field) : Plain (null_safe x) := by
  intro c mem
  cases x with
  | none => exact nomatch mem
  | some f => exact (f.plain c mem).2

theorem Report.plain_fields (r : Report) {f : Text} (mem : f ∈ r.fields) : Plain f := by
  simp only [fields, head, List.cons_append, List.nil_append, List.mem_cons, List.not_mem_nil,
    or_false] at mem
  rcases mem with rfl | rfl | rfl | rfl | rfl | rfl | rfl | rfl | rfl | rfl | rfl | rfl | rfl | rfl
  all_goals first
    | exact plain_decimal _
    | exact plain_null_safe _

theorem fields_cons_of_plain {f : Text} (plain : Plain f) :
    fields (f ++ KEY_DATA_SEP_CHR :: rest) = f :: fields rest := by
  induction f with
  | nil => simp [fields]
  | cons c f ih =>
    have ne := (plain c List.mem_cons_self).1
    rw [List.cons_append, fields, if_neg ne, ih fun d mem => plain d (List.mem_cons_of_mem c mem)]

theorem fields_terminated (plain : ∀ f ∈ fs, Plain f) (rest : Text) :
    fields (terminated fs ++ rest) = fs ++ fields rest := by
  induction fs with
  | nil => rfl
  | cons f fs ih =>
    have split : terminated (f :: fs) ++ rest =
        f ++ KEY_DATA_SEP_CHR :: (terminated fs ++ rest) := by
      simp [terminated]
    rw [split, fields_cons_of_plain (plain f List.mem_cons_self),
      ih fun g mem => plain g (List.mem_cons_of_mem f mem)]
    rfl

theorem length_fields (s : Text) : (fields s).length = s.count KEY_DATA_SEP_CHR := by
  induction s with
  | nil => rfl
  | cons c s ih =>
    rw [fields, List.count_cons]
    split
    case isTrue sep => simp [sep, ih]
    case isFalse other =>
      rw [← ih]
      cases fields s with
      | nil => simp [other]
      | cons f fs => simp [other]

theorem fields_eq_nil (none : KEY_DATA_SEP_CHR ∉ s) : fields s = [] := by
  rw [← List.length_eq_zero_iff, length_fields, List.count_eq_zero]
  exact none

theorem unbroken_terminated (plain : ∀ f ∈ fs, Plain f) : Unbroken (terminated fs) := by
  intro c mem
  obtain ⟨f, in_fs, mem⟩ := List.mem_flatMap.mp mem
  rcases List.mem_append.mp mem with in_f | sep
  · exact (plain f in_fs c in_f).2
  · rw [List.mem_singleton.mp sep]
    decide

theorem fgets_append (unbroken : Unbroken s) (line rest : Text) :
    fgets line (s ++ rest) = fgets (line ++ s) rest := by
  induction s generalizing line with
  | nil => simp
  | cons c s ih =>
    obtain ⟨newline, cr⟩ := unbroken c List.mem_cons_self
    rw [List.cons_append, fgets, if_neg newline, if_neg cr,
      ih fun d mem => unbroken d (List.mem_cons_of_mem c mem), List.append_assoc]
    rfl

theorem fgets_line (unbroken : Unbroken s) (line rest : Text) :
    fgets line (s ++ NEWLINE :: rest) = (line ++ s) :: fgets [] rest := by
  rw [fgets_append unbroken, fgets, if_pos rfl]

end Lines

/-! ### Fields -/

theorem atoi_decimal (n : Int) (low : -9223372036854775808 ≤ n) (high : n ≤ 9223372036854775807) :
    atoi (decimal n) = Int32.ofInt n := by
  have ends : Ends [] := fun c mem => absurd mem (by simp)
  have read := scanInt_decimal ends n
  rw [List.append_nil] at read
  rw [atoi, read]
  change Int32.ofInt (max _ (min _ n)) = _
  rw [Int.min_eq_right high, Int.max_eq_right low]

theorem atoi_int (n : Int32) : atoi (decimal n.toInt) = n := by
  have low := n.le_toInt
  have high := n.toInt_lt
  rw [atoi_decimal _ (by omega) (by omega), Int32.ofInt_toInt]

/-- The attributes are printed as a `long` and read as an `int`. -/
theorem atoi_attr (attr : UInt64) :
    (atoi (decimal attr.toInt64.toInt)).toInt = attr.toNat ↔ attr.toNat < 2147483648 := by
  have low := attr.toInt64.le_toInt
  have high := attr.toInt64.toInt_lt
  have signed : attr.toInt64.toInt = (attr.toNat : Int).bmod 18446744073709551616 :=
    BitVec.toInt_eq_toNat_bmod attr.toBitVec
  have size : Int32.size = 4294967296 := rfl
  rw [atoi_decimal _ (by omega) (by omega), Int32.toInt_ofInt, signed, size,
    Int.bmod_bmod_of_dvd (by decide)]
  constructor
  · intro same
    have less := Int.bmod_lt (x := (attr.toNat : Int)) (m := 4294967296) (by decide)
    rw [same] at less
    omega
  · intro small
    exact Int.bmod_eq_of_le (by omega) (by omega)

namespace Report

variable (r : Report) (q : Query)

/-- The variables after the line of a report, but for the keyword mode. -/
def read : Query :=
  { type_g := r.type
    file_g := some (null_safe r.file)
    start_lineno_g := r.start_lineno
    start_charno_g := r.start_colpos
    end_lineno_g := r.end_lineno
    end_charno_g := r.end_colpos
    attr_g := atoi (decimal r.attr.toInt64.toInt)
    ret_g := some (null_safe r.ret)
    scope_g := some (null_safe r.scope)
    sym_name_g := some (null_safe r.sym_name)
    arg_types_g := some (null_safe r.types)
    arg_names_g := some (null_safe r.names)
    is_cpp_g := r.keyw_cpp }

theorem assignAll_head : q.assignAll 0 r.head = { r.read with is_cpp_g := q.is_cpp_g } := by
  simp only [head, Query.assignAll, Query.assign, atoi_int, read]

theorem assignAll_fields : q.assignAll 0 r.fields = r.read := by
  simp only [fields, head, List.cons_append, List.nil_append, Query.assignAll, Query.assign,
    atoi_int, read]

theorem readAs_iff {mode : Int32} : ReadAs { r.read with is_cpp_g := mode } r ↔
    r.attr.toNat < 2147483648 ∧ mode = r.keyw_cpp := by
  constructor
  · intro read
    exact ⟨(atoi_attr r.attr).mp read.attr, read.keyw_cpp⟩
  · intro ⟨small, same⟩
    exact ⟨rfl, rfl, rfl, rfl, rfl, rfl, (atoi_attr r.attr).mpr small, rfl, rfl, rfl, rfl, rfl, same⟩

theorem readAs_read : ReadAs r.read r ↔ r.attr.toNat < 2147483648 := by
  have iff : ReadAs r.read r ↔ r.attr.toNat < 2147483648 ∧ r.keyw_cpp = r.keyw_cpp :=
    r.readAs_iff
  rw [and_iff_left rfl] at iff
  exact iff

end Report

/-- The names of the parameters are in the thirteenth field. -/
theorem Query.assignAll_names {q : Query} {fs : List Text} {i : Nat} (few : i + fs.length ≤ 12) :
    (q.assignAll i fs).arg_names_g = q.arg_names_g := by
  induction fs generalizing q i with
  | nil => rfl
  | cons f fs ih =>
    rw [List.length_cons] at few
    have kept : (q.assign i f).arg_names_g = q.arg_names_g := by
      unfold assign
      split
      case h_12 => omega
      all_goals rfl
    rw [assignAll, ih (by omega), kept]

/-! ### Lines of reports -/

namespace Report

variable (r : Report)

/-- The line before the keyword mode, and with it. -/
def front : Text := terminated r.head

def whole : Text := terminated r.fields

theorem line_eq : r.line = r.whole ++ [NEWLINE] := rfl

theorem whole_eq : r.whole = r.front ++ (decimal r.keyw_cpp.toInt ++ [KEY_DATA_SEP_CHR]) := by
  simp [whole, front, fields, terminated]

theorem unbroken_whole : Unbroken r.whole :=
  unbroken_terminated fun _ mem => r.plain_fields mem

theorem plain_head {f : Text} (mem : f ∈ r.head) : Plain f :=
  r.plain_fields (List.mem_append_left _ mem)

theorem fields_whole : CrossRefFile.fields r.whole = r.fields := by
  have split := fields_terminated (fun _ mem => r.plain_fields mem) []
  rw [List.append_nil] at split
  rw [whole, split]
  exact List.append_nil _

theorem fields_front {rest : Text} (none : KEY_DATA_SEP_CHR ∉ rest) :
    CrossRefFile.fields (r.front ++ rest) = r.head := by
  rw [front, fields_terminated (fun _ mem => r.plain_head mem), fields_eq_nil none,
    List.append_nil]

/-- A line that is cut off before the end of the names has fewer fields. -/
theorem length_fields_take {k : Nat} (short : k < r.front.length) :
    (CrossRefFile.fields (r.front.take k)).length ≤ 12 := by
  have all : (CrossRefFile.fields r.front).length = 13 := by
    have front : CrossRefFile.fields (r.front ++ []) = r.head := r.fields_front List.not_mem_nil
    rw [List.append_nil] at front
    rw [front]
    rfl
  obtain ⟨body, last⟩ : ∃ body, r.front = body ++ [KEY_DATA_SEP_CHR] := by
    refine ⟨terminated r.head.dropLast ++ null_safe r.names, ?_⟩
    simp [front, terminated, head]
  rw [length_fields] at all ⊢
  rw [last, List.length_append, List.length_singleton] at short
  rw [last, List.count_append, List.count_singleton_self] at all
  rw [last, List.take_append_of_le_length (by omega)]
  have fewer := (List.take_sublist k body).count_le KEY_DATA_SEP_CHR
  omega

theorem isPrefix_front (rest : Text) : cpp_xref.isPrefixOf (r.front ++ rest) := by
  rw [List.isPrefixOf_iff_prefix]
  refine ⟨terminated r.head.tail ++ rest, ?_⟩
  rw [← List.append_assoc]
  rfl

end Report

/-! ### What is written -/

section Written

variable {r : Report}

theorem put_fits (fits : r.line.length < bufferSize) : put_cross1 r = r.whole ++ [NEWLINE] := by
  rw [put_cross1, List.take_of_length_le (by omega), r.line_eq]

/-- A line that does not fit loses its line break. -/
theorem put_cut (long : bufferSize ≤ r.line.length) :
    put_cross1 r = r.whole.take (bufferSize - 1) := by
  rw [r.line_eq, List.length_append, List.length_singleton] at long
  rw [put_cross1, r.line_eq, List.take_append_of_le_length (by omega)]

theorem unbroken_put_cut (long : bufferSize ≤ r.line.length) : Unbroken (put_cross1 r) := by
  rw [put_cut long]
  intro c mem
  exact r.unbroken_whole c ((List.take_sublist _ _).subset mem)

theorem fgets_unbroken {line s : Text} (unbroken : Unbroken s) (some : line ++ s ≠ []) :
    fgets line s = [line ++ s] := by
  have all := fgets_append unbroken line []
  rw [List.append_nil] at all
  rw [all, fgets, if_neg some]

theorem fgets_put_fits (fits : r.line.length < bufferSize) (rest : Text) :
    fgets [] (put_cross1 r ++ rest) = r.whole :: fgets [] rest := by
  have read := fgets_line r.unbroken_whole [] rest
  rw [List.nil_append] at read
  rw [put_fits fits, List.append_assoc]
  exact read

theorem ne_nil_put (r : Report) : put_cross1 r ≠ [] := by
  intro empty
  have first : r.line.take 1 = (decimal SymbolType.PAF_CROSS_REF_CPP.code).take 1 := rfl
  have none : (put_cross1 r).take 1 = r.line.take 1 := by
    rw [put_cross1, List.take_take]
    rfl
  rw [empty, first] at none
  exact absurd none (by decide)

/-- The last line is read also without its line break. -/
theorem fgets_put_whole (fits : r.whole.length < bufferSize) :
    fgets [] (put_cross1 r) = [r.whole] := by
  by_cases line : r.line.length < bufferSize
  · have read := fgets_put_fits line []
    rwa [List.append_nil] at read
  · have all : put_cross1 r = r.whole := by
      rw [put_cut (Nat.le_of_not_lt line), List.take_of_length_le (by omega)]
    rw [fgets_unbroken (unbroken_put_cut (Nat.le_of_not_lt line)) (ne_nil_put r), List.nil_append,
      all]

/-- The keyword mode is cut off. -/
theorem fgets_put_front (long : bufferSize ≤ r.whole.length) (fits : r.front.length < bufferSize) :
    ∃ rest, fgets [] (put_cross1 r) = [r.front ++ rest] ∧ KEY_DATA_SEP_CHR ∉ rest := by
  have line : bufferSize ≤ r.line.length := by
    rw [r.line_eq, List.length_append]
    omega
  rw [fgets_unbroken (unbroken_put_cut line) (ne_nil_put r), put_cut line, r.whole_eq]
  rw [r.whole_eq] at long
  simp only [List.length_append, List.length_singleton] at long
  refine ⟨(decimal r.keyw_cpp.toInt).take (bufferSize - 1 - r.front.length), ?_, ?_⟩
  · rw [List.nil_append, List.take_append, List.take_of_length_le (by omega),
      List.take_append_of_le_length (by omega)]
  · intro mem
    exact (plain_decimal _ _ ((List.take_sublist _ _).subset mem)).1 rfl

/-- The names are cut off. -/
theorem fgets_put_names (long : bufferSize ≤ r.front.length) :
    ∃ line, fgets [] (put_cross1 r) = [line] ∧ (fields line).length ≤ 12 := by
  have line : bufferSize ≤ r.line.length := by
    rw [r.line_eq, r.whole_eq, List.length_append, List.length_append]
    omega
  refine ⟨put_cross1 r, fgets_unbroken (unbroken_put_cut line) (ne_nil_put r), ?_⟩
  rw [put_cut line, r.whole_eq, List.take_append_of_le_length (by omega)]
  refine r.length_fields_take ?_
  exact Nat.lt_of_lt_of_le (by decide) long

/-- No more lines are read than reports were written. -/
theorem length_fgets_le {rs : List Report} (some : rs ≠ []) (line : Text) :
    (fgets line (rs.flatMap put_cross1)).length ≤ rs.length := by
  induction rs generalizing line with
  | nil => exact absurd rfl some
  | cons r rs ih =>
    rw [List.flatMap_cons]
    by_cases fits : r.line.length < bufferSize
    · rw [put_fits fits, List.append_assoc]
      change (fgets line (r.whole ++ NEWLINE :: _)).length ≤ _
      rw [fgets_line r.unbroken_whole, List.length_cons, List.length_cons]
      cases rs with
      | nil => exact Nat.le_refl 1
      | cons r' rs => exact Nat.succ_le_succ (ih (List.cons_ne_nil r' rs) [])
    · rw [fgets_append (unbroken_put_cut (Nat.le_of_not_lt fits))]
      cases rs with
      | nil =>
        rw [List.flatMap_nil, fgets]
        split <;> simp
      | cons r' rs => exact Nat.le_succ_of_le (ih (List.cons_ne_nil r' rs) _)

end Written

/-! ### Reading back -/

section Read

variable {sources : Sources} {reader : Reader} {line : Text} {lines : List Text} {q : Query}
  {r : Report} {rs : List Report} {mode : Int32}

theorem length_queries_le (sources : Sources) (reader : Reader) (lines : List Text) :
    (queries sources reader lines).length ≤ lines.length := by
  induction lines generalizing reader with
  | nil => exact Nat.le_refl 0
  | cons line lines ih =>
    rw [queries]
    split
    · split
      · exact Nat.zero_le _
      · exact Nat.succ_le_succ (ih _)
    · exact Nat.le_succ_of_le (ih _)

/-- The query of a line with a file name, and what is left after it. -/
theorem queries_line (sources : Sources) (lines : List Text) (start : cpp_xref.isPrefixOf line)
    (set : reader.vars.assignAll 0 (fields line) = q) (named : q.file_g.isSome) :
    ∃ reader', queries sources reader (line :: lines) = q :: queries sources reader' lines ∧
      reader'.vars.is_cpp_g = q.is_cpp_g ∧
      ((∀ file, sources.opens file ∧ sources.f_ReadFile file) → reader'.vars.arg_names_g = none) := by
  obtain ⟨file, named⟩ := Option.isSome_iff_exists.mp named
  obtain ⟨reader', qry, mode, freed⟩ : ∃ reader',
      Paf_insert_cross_ref_qry sources reader line = some (q, reader') ∧
        reader'.vars.is_cpp_g = q.is_cpp_g ∧
        ((∀ file, sources.opens file ∧ sources.f_ReadFile file) →
          reader'.vars.arg_names_g = none) := by
    rw [Paf_insert_cross_ref_qry, set]
    dsimp only
    rw [named]
    dsimp only
    split
    · exact ⟨_, rfl, rfl, fun _ => rfl⟩
    split
    case isTrue closed =>
      refine ⟨_, rfl, rfl, fun all => ?_⟩
      rw [(all file).1] at closed
      exact nomatch closed
    split
    case isTrue closed =>
      refine ⟨_, rfl, rfl, fun all => ?_⟩
      rw [(all file).2] at closed
      exact nomatch closed
    · exact ⟨_, rfl, rfl, fun _ => rfl⟩
  refine ⟨reader', ?_, mode, freed⟩
  rw [queries, if_pos start, qry]

theorem queries_whole (sources : Sources) (reader : Reader) (r : Report) (lines : List Text) :
    ∃ reader', queries sources reader (r.whole :: lines) = r.read :: queries sources reader' lines ∧
      reader'.vars.is_cpp_g = r.keyw_cpp ∧
      ((∀ file, sources.opens file ∧ sources.f_ReadFile file) →
        reader'.vars.arg_names_g = none) := by
  refine queries_line sources lines ?_ ?_ rfl
  · rw [r.whole_eq]
    exact r.isPrefix_front _
  · rw [r.fields_whole, r.assignAll_fields]

/-- A single line that is read as a report sets the names. -/
theorem names_of_readAs (read : List.Forall₂ ReadAs (queries sources reader [line]) [r]) :
    ReadAs (reader.vars.assignAll 0 (fields line)) r := by
  rw [queries] at read
  split at read
  · split at read
    · exact nomatch read
    case h_2 query reader' qry =>
      obtain ⟨first, -⟩ := List.forall₂_cons.mp read
      rw [Paf_insert_cross_ref_qry] at qry
      dsimp only at qry
      split at qry
      · exact nomatch qry
      · have same : reader.vars.assignAll 0 (fields line) = query := by
          split at qry
          · exact (Prod.mk.inj (Option.some.inj qry)).1
          split at qry
          · exact (Prod.mk.inj (Option.some.inj qry)).1
          split at qry
          · exact (Prod.mk.inj (Option.some.inj qry)).1
          · exact (Prod.mk.inj (Option.some.inj qry)).1
        rw [same]
        exact first
  · exact nomatch read

/-- The reports that are read back after a query with some keyword mode: the line of each report
but the last fits into the buffer, and the last one fits but for its line break, or it fits up to
the names and the keyword mode is as before. -/
def Readable : Int32 → List Report → Prop
  | _, [] => True
  | mode, [r] =>
    r.attr.toNat < 2147483648 ∧
      (r.whole.length < bufferSize ∨ r.front.length < bufferSize ∧ mode = r.keyw_cpp)
  | _, r :: rs => r.attr.toNat < 2147483648 ∧ r.line.length < bufferSize ∧ Readable r.keyw_cpp rs

theorem read_of_readable (readable : Readable mode rs) (same : reader.vars.is_cpp_g = mode) :
    List.Forall₂ ReadAs (queries sources reader (fgets [] (rs.flatMap put_cross1))) rs := by
  induction rs generalizing mode reader with
  | nil => exact .nil
  | cons r rs ih =>
    cases rs with
    | nil =>
      obtain ⟨small, fits⟩ := readable
      rw [List.flatMap_cons, List.flatMap_nil, List.append_nil]
      by_cases whole : r.whole.length < bufferSize
      · obtain ⟨reader', read, -⟩ := queries_whole sources reader r []
        rw [fgets_put_whole whole, read]
        exact .cons (r.readAs_read.mpr small) .nil
      · obtain ⟨front, mode_eq⟩ := fits.resolve_left whole
        obtain ⟨rest, line, none⟩ := fgets_put_front (Nat.le_of_not_lt whole) front
        have set : reader.vars.assignAll 0 (fields (r.front ++ rest)) =
            { r.read with is_cpp_g := reader.vars.is_cpp_g } := by
          rw [r.fields_front none, r.assignAll_head]
        obtain ⟨reader', read, -⟩ := queries_line sources [] (r.isPrefix_front rest) set rfl
        rw [line, read]
        exact .cons (r.readAs_iff.mpr ⟨small, same.trans mode_eq⟩) .nil
    | cons r' rs =>
      obtain ⟨small, fits, rest⟩ := readable
      obtain ⟨reader', read, same', -⟩ := queries_whole sources reader r
        (fgets [] ((r' :: rs).flatMap put_cross1))
      rw [List.flatMap_cons, fgets_put_fits fits, read]
      exact .cons (r.readAs_read.mpr small) (ih rest same')

/-- All files can be read. -/
def Sources.all : Sources := ⟨fun _ => true, fun _ => true, fun _ => true⟩

theorem readable_of_read (free : reader.vars.arg_names_g = none)
    (read : List.Forall₂ ReadAs (queries .all reader (fgets [] (rs.flatMap put_cross1))) rs) :
    Readable reader.vars.is_cpp_g rs := by
  induction rs generalizing reader with
  | nil => trivial
  | cons r rs ih =>
    cases rs with
    | nil =>
      rw [List.flatMap_cons, List.flatMap_nil, List.append_nil] at read
      by_cases whole : r.whole.length < bufferSize
      · obtain ⟨reader', query, -⟩ := queries_whole .all reader r []
        rw [fgets_put_whole whole, query] at read
        exact ⟨r.readAs_read.mp (List.forall₂_cons.mp read).1, .inl whole⟩
      by_cases front : r.front.length < bufferSize
      · obtain ⟨rest, line, none⟩ := fgets_put_front (Nat.le_of_not_lt whole) front
        rw [line] at read
        have first := names_of_readAs read
        rw [r.fields_front none, r.assignAll_head] at first
        obtain ⟨small, mode⟩ := r.readAs_iff.mp first
        exact ⟨small, .inr ⟨front, mode⟩⟩
      · obtain ⟨line, lines, few⟩ := fgets_put_names (Nat.le_of_not_lt front)
        rw [lines] at read
        have names := (names_of_readAs read).names
        rw [Query.assignAll_names (by omega), free] at names
        exact nomatch names
    | cons r' rs =>
      have fits : r.line.length < bufferSize := by
        by_contra long
        have unbroken := unbroken_put_cut (Nat.le_of_not_lt long)
        rw [List.flatMap_cons, fgets_append unbroken] at read
        have queries_le := length_queries_le .all reader
          (fgets ([] ++ put_cross1 r) ((r' :: rs).flatMap put_cross1))
        have lines_le := length_fgets_le (List.cons_ne_nil r' rs) ([] ++ put_cross1 r)
        have same := read.length_eq
        rw [List.length_cons] at same
        omega
      obtain ⟨reader', query, mode, freed⟩ := queries_whole .all reader r
        (fgets [] ((r' :: rs).flatMap put_cross1))
      rw [List.flatMap_cons, fgets_put_fits fits, query] at read
      obtain ⟨first, rest⟩ := List.forall₂_cons.mp read
      refine ⟨r.readAs_read.mp first, fits, ?_⟩
      rw [← mode]
      exact ih (freed fun _ => ⟨rfl, rfl⟩) rest

/-- The second pass reads back what the first pass wrote, whatever the source files are. -/
theorem readBack_iff (reports : List Report) :
    (∀ sources, List.Forall₂ ReadAs
      (queries sources .start (fgets [] (reports.flatMap put_cross1))) reports) ↔
      Readable 0 reports := by
  constructor
  · intro read
    have readable : Readable Reader.start.vars.is_cpp_g reports :=
      readable_of_read rfl (read .all)
    exact readable
  · intro readable sources
    exact read_of_readable readable rfl

end Read

/-! ### A long list of parameters -/

/-- A report of a function without parameters in the file `a.c`. -/
def shortReport : Report :=
  { type := 8
    scope := none
    sym_name := some ⟨ascii "f", by decide +kernel⟩
    file := some ⟨ascii "a.c", by decide +kernel⟩
    start_lineno := 1
    start_colpos := 10
    end_lineno := 3
    end_colpos := 1
    attr := 0
    ret := some ⟨ascii "int", by decide +kernel⟩
    types := none
    names := none
    keyw_cpp := 1 }

/-- The types of its parameters take 1000 bytes. -/
def longReport : Report :=
  { shortReport with types := some ⟨List.replicate 1000 97, by decide +kernel⟩ }

/-- The report after a long one is lost. -/
theorem long_report_lost :
    ¬ ∀ sources, List.Forall₂ ReadAs
      (queries sources .start (fgets [] ([longReport, shortReport].flatMap put_cross1)))
        [longReport, shortReport] := by
  intro read
  have readable : Readable Reader.start.vars.is_cpp_g [longReport, shortReport] :=
    readable_of_read rfl (read .all)
  have long : ¬ longReport.line.length < bufferSize := by decide +kernel
  exact long readable.2.1

end SourceNavigator.Cpp.CrossRefFile

import Mathlib.Data.List.TakeWhile
import SourceNavigator.Lib.Table
import SourceNavigator.Text

/-!
The text form of a table (`db/dbdump.c`), with the separator `;` of both
directions.

A record is printed as a line, its separator characters replaced by `fld_sep`.
Nothing is escaped: `get_record` ends a key at the first `;` and the data at the
end of the line.

* `get_record_line` reads a line back that a plain record was printed as.
* `db_import_export` says that a table is rebuilt exactly if its records are
  plain.
-/

namespace SourceNavigator.Db.Dump

/-- A table with its keys and data as stored, the closing NUL included. -/
abbrev Stored := Lib.Table UInt8 Text

/-- The records of a table in the order a cursor meets them. -/
structure Listing (t : Stored) where
  records : List (Text × Text)
  lists : ∀ k d, (k, d) ∈ records ↔ t[k]? = some d

/-! ### Export -/

/-- A key or the data as it is printed: the last byte is overwritten with NUL, and `%s` stops at
the first NUL. -/
def printed (fld_sep : UInt8) (b : Text) : Text :=
  ((b.dropLast ++ [0]).map fun c => if c = DB_FLDSEP_CHR then fld_sep else c).takeWhile (· ≠ 0)

/-- The line of a record. -/
def exportLine (fld_sep : UInt8) (r : Text × Text) : Text :=
  if r.1 = [] then ascii "**** EMPTY KEY ****\n"
  else
    printed fld_sep r.1 ++ ascii ";" ++ (if r.2 = [] then [] else printed fld_sep r.2) ++ ascii "\n"

def db_export (fld_sep : UInt8) (records : List (Text × Text)) : Text :=
  records.flatMap (exportLine fld_sep)

/-! ### Import -/

/-- The loop of `get_record` over one part: what is stored, the last character read (`none` at the
end of the file), and what is left to read. A character that does not fit is dropped. -/
def getField (stop : UInt8 → Bool) : Nat → Text → Text × Option UInt8 × Text
  | _, [] => ([], none, [])
  | size, c :: s =>
    if stop c || size ≤ 1 then ([], some c, s)
    else
      let field := getField stop (size - 1) s
      (c :: field.1, field.2.1, field.2.2)

def keyStop (c : UInt8) : Bool := c == KEY_DATA_SEP_CHR || c == NEWLINE

def dataStop (c : UInt8) : Bool := c == NEWLINE

/-- A record, the last character read and what is left to read. -/
structure Got where
  key : Text
  data : Text
  last : Option UInt8
  rest : Text

def get_record (s : Text) : Got :=
  let key := getField keyStop 5000 s
  match key.2.1 with
  | none => ⟨key.1, [], none, key.2.2⟩
  | some c =>
    if c = NEWLINE then ⟨key.1, [], some c, key.2.2⟩
    else
      let data := getField dataStop 100000 key.2.2
      ⟨key.1, data.1, data.2.1, data.2.2⟩

theorem length_getField (stop : UInt8 → Bool) (size : Nat) (s : Text) :
    (getField stop size s).2.2.length ≤ s.length ∧
      ((getField stop size s).2.1.isSome → (getField stop size s).2.2.length < s.length) := by
  induction s generalizing size with
  | nil => exact ⟨Nat.le_refl _, fun h => by cases h⟩
  | cons c s ih =>
    rw [getField]
    split
    case isTrue => exact ⟨Nat.le_succ _, fun _ => Nat.lt_succ_self _⟩
    case isFalse =>
      obtain ⟨le, lt⟩ := ih (size - 1)
      exact ⟨Nat.le_succ_of_le le, fun h => Nat.lt_succ_of_lt (lt h)⟩

theorem length_get_record {s : Text} {c : UInt8} (h : (get_record s).last = some c) :
    (get_record s).rest.length < s.length := by
  have key := length_getField keyStop 5000 s
  unfold get_record at h ⊢
  dsimp only at h ⊢
  split at h
  case h_1 => cases h
  case h_2 stop found =>
    have shorter := key.2 (by rw [found]; rfl)
    split
    case isTrue => exact shorter
    case isFalse => exact Nat.lt_of_le_of_lt (length_getField dataStop 100000 _).1 shorter

/-- The records that are read before the end of the file. -/
def records (s : Text) : List (Text × Text) :=
  match _h : (get_record s).last with
  | none => []
  | some _ => ((get_record s).key, (get_record s).data) :: records (get_record s).rest
termination_by s.length
decreasing_by exact length_get_record ‹_›

/-- The table that is built from a text. -/
def db_import (s : Text) : Stored :=
  (∅ : Stored).insertAll ((records s).map fun r => (r.1 ++ [0], r.2 ++ [0]))

/-! ### A line is read back -/

/-- A text that is printed and read as it is. -/
structure PlainText (stop : UInt8 → Bool) (size : Nat) (fld_sep : UInt8) (s : Text) : Prop where
  no_nul : 0 ∉ s
  no_stop : ∀ c ∈ s, stop c = false
  fits : s.length < size
  separator : DB_FLDSEP_CHR ∈ s → fld_sep = DB_FLDSEP_CHR

/-- A stored key or data of such a text. -/
def Plain (stop : UInt8 → Bool) (size : Nat) (fld_sep : UInt8) (b : Text) : Prop :=
  ∃ s, b = s ++ [0] ∧ PlainText stop size fld_sep s

/-- The key and the data of a record are plain. -/
def PlainRecord (fld_sep : UInt8) (r : Text × Text) : Prop :=
  Plain keyStop 5000 fld_sep r.1 ∧ Plain dataStop 100000 fld_sep r.2

variable {stop : UInt8 → Bool} {size : Nat} {fld_sep : UInt8} {s k d rest : Text} {e : UInt8}

theorem PlainText.printed (h : PlainText stop size fld_sep s) : printed fld_sep (s ++ [0]) = s := by
  have same : s.map (fun c => if c = DB_FLDSEP_CHR then fld_sep else c) = s := by
    conv_rhs => rw [← List.map_id s]
    apply List.map_congr_left
    intro c mem
    split
    case isTrue is_sep =>
      rw [h.separator (is_sep ▸ mem), is_sep]
      rfl
    case isFalse => rfl
  have no_nul : ∀ c ∈ s, decide (c ≠ 0) = true := by
    intro c mem
    rw [decide_eq_true_iff]
    rintro rfl
    exact h.no_nul mem
  rw [Dump.printed, List.dropLast_concat, List.map_append, same, List.takeWhile_append_of_pos no_nul]
  exact List.append_nil s

theorem getField_append (no_stop : ∀ c ∈ s, stop c = false) (fits : s.length < size)
    (is_stop : stop e = true) : getField stop size (s ++ e :: rest) = (s, some e, rest) := by
  induction s generalizing size with
  | nil =>
    rw [List.nil_append, getField, is_stop]
    rfl
  | cons c s ih =>
    rw [List.length_cons] at fits
    have more : ¬ (stop c || decide (size ≤ 1)) = true := by
      rw [no_stop c List.mem_cons_self, Bool.false_or, decide_eq_true_iff]
      omega
    rw [List.cons_append, getField, if_neg more,
      ih (fun c mem => no_stop c (List.mem_cons_of_mem _ mem)) (by omega)]

theorem get_record_line (key : PlainText keyStop 5000 fld_sep k)
    (data : PlainText dataStop 100000 fld_sep d) :
    get_record (k ++ KEY_DATA_SEP_CHR :: (d ++ NEWLINE :: rest)) = ⟨k, d, some NEWLINE, rest⟩ := by
  have first : getField keyStop 5000 (k ++ KEY_DATA_SEP_CHR :: (d ++ NEWLINE :: rest)) =
      (k, some KEY_DATA_SEP_CHR, d ++ NEWLINE :: rest) :=
    getField_append key.no_stop key.fits (by decide)
  have second : getField dataStop 100000 (d ++ NEWLINE :: rest) = (d, some NEWLINE, rest) :=
    getField_append data.no_stop data.fits (by decide)
  unfold get_record
  rw [first]
  dsimp only
  rw [if_neg (by decide), second]

theorem records_of_last {c : UInt8} (h : (get_record s).last = some c) :
    records s = ((get_record s).key, (get_record s).data) :: records (get_record s).rest := by
  rw [records]
  split
  case h_1 none => rw [none] at h; cases h
  case h_2 => rfl

theorem records_of_end (h : (get_record s).last = none) : records s = [] := by
  rw [records]
  split
  case h_1 => rfl
  case h_2 found => rw [found] at h; cases h

/-- The text of plain records is read back as these records. -/
theorem records_export {rs : List (Text × Text)} (plain : ∀ r ∈ rs, PlainRecord fld_sep r) :
    (records (db_export fld_sep rs)).map (fun r => (r.1 ++ [0], r.2 ++ [0])) = rs := by
  induction rs with
  | nil =>
    have empty : records (db_export fld_sep []) = [] := records_of_end rfl
    rw [empty]
    rfl
  | cons r rs ih =>
    obtain ⟨⟨k, key, plain_key⟩, ⟨d, data, plain_data⟩⟩ := plain r List.mem_cons_self
    obtain ⟨key', data'⟩ := r
    obtain rfl := key
    obtain rfl := data
    have text : db_export fld_sep ((k ++ [0], d ++ [0]) :: rs) =
        k ++ KEY_DATA_SEP_CHR :: (d ++ NEWLINE :: db_export fld_sep rs) := by
      have some_key : k ++ [0] ≠ [] := List.append_ne_nil_of_right_ne_nil k (by decide)
      have some_data : d ++ [0] ≠ [] := List.append_ne_nil_of_right_ne_nil d (by decide)
      have sep : ascii ";" = [KEY_DATA_SEP_CHR] := rfl
      have newline : ascii "\n" = [NEWLINE] := rfl
      rw [db_export, List.flatMap_cons, exportLine, if_neg some_key, if_neg some_data,
        plain_key.printed, plain_data.printed, sep, newline]
      simp only [List.append_assoc, List.cons_append, List.nil_append, db_export]
    have got := @get_record_line fld_sep k d (db_export fld_sep rs) plain_key plain_data
    rw [← text] at got
    rw [records_of_last (c := NEWLINE) (by rw [got]), got, List.map_cons,
      ih fun r mem => plain r (List.mem_cons_of_mem _ mem)]

/-! ### What can be read at all -/

/-- The bytes of a part are bytes of the text and no stops, and they fit. -/
theorem getField_bounds (stop : UInt8 → Bool) (size : Nat) (s : Text) (some_room : 0 < size) :
    (∀ c ∈ (getField stop size s).1, c ∈ s ∧ stop c = false) ∧
      (getField stop size s).1.length < size ∧ ∀ c ∈ (getField stop size s).2.2, c ∈ s := by
  induction s generalizing size with
  | nil => exact ⟨fun c mem => absurd mem List.not_mem_nil, some_room, fun c mem => mem⟩
  | cons c s ih =>
    rw [getField]
    split
    case isTrue =>
      exact ⟨fun c mem => absurd mem List.not_mem_nil, some_room,
        fun d mem => List.mem_cons_of_mem c mem⟩
    case isFalse more =>
      rw [Bool.or_eq_true, not_or, Bool.not_eq_true, decide_eq_true_iff] at more
      obtain ⟨no_stop, large⟩ := more
      obtain ⟨bytes, fits, left⟩ := ih (size - 1) (by omega)
      refine ⟨fun d mem => ?_, ?_, fun d mem => List.mem_cons_of_mem c (left d mem)⟩
      · rcases List.mem_cons.mp mem with rfl | mem
        · exact ⟨List.mem_cons_self, no_stop⟩
        · exact ⟨List.mem_cons_of_mem c (bytes d mem).1, (bytes d mem).2⟩
      · rw [List.length_cons]
        omega

/-- What `get_record` delivers from a text. -/
structure Bounds (s : Text) (r : Text × Text) : Prop where
  key : ∀ c ∈ r.1, c ∈ s ∧ keyStop c = false
  key_fits : r.1.length < 5000
  data : ∀ c ∈ r.2, c ∈ s ∧ dataStop c = false
  data_fits : r.2.length < 100000

theorem get_record_bounds (s : Text) :
    Bounds s ((get_record s).key, (get_record s).data) ∧ ∀ c ∈ (get_record s).rest, c ∈ s := by
  obtain ⟨key, key_fits, left⟩ := getField_bounds keyStop 5000 s (by decide)
  have no_data : ∀ c ∈ ([] : Text), c ∈ s ∧ dataStop c = false :=
    fun c mem => absurd mem List.not_mem_nil
  have none_fits : ([] : Text).length < 100000 := by decide
  unfold get_record
  dsimp only
  split
  case h_1 => exact ⟨⟨key, key_fits, no_data, none_fits⟩, left⟩
  case h_2 =>
    split
    case isTrue => exact ⟨⟨key, key_fits, no_data, none_fits⟩, left⟩
    case isFalse =>
      obtain ⟨data, data_fits, left'⟩ := getField_bounds dataStop 100000
        (getField keyStop 5000 s).2.2 (by decide)
      exact ⟨⟨key, key_fits, fun c mem => ⟨left c (data c mem).1, (data c mem).2⟩, data_fits⟩,
        fun c mem => left c (left' c mem)⟩

theorem records_bounds {r : Text × Text} (mem : r ∈ records s) : Bounds s r := by
  induction s using records.induct with
  | case1 s last =>
    rw [records_of_end last] at mem
    exact absurd mem List.not_mem_nil
  | case2 s c last ih =>
    obtain ⟨bounds, left⟩ := get_record_bounds s
    rw [records_of_last last] at mem
    rcases List.mem_cons.mp mem with rfl | mem
    · exact bounds
    · have rest := ih mem
      exact ⟨fun c mem => ⟨left c (rest.key c mem).1, (rest.key c mem).2⟩, rest.key_fits,
        fun c mem => ⟨left c (rest.data c mem).1, (rest.data c mem).2⟩, rest.data_fits⟩

theorem mem_printed {c : UInt8} (mem : c ∈ printed fld_sep s) :
    c ≠ 0 ∧ (c = DB_FLDSEP_CHR → fld_sep = DB_FLDSEP_CHR) := by
  unfold printed at mem
  have nul := List.mem_takeWhile_imp mem
  rw [decide_eq_true_iff] at nul
  refine ⟨nul, ?_⟩
  obtain ⟨d, _, rfl⟩ := List.mem_map.mp ((List.takeWhile_prefix _).subset mem)
  split
  case isTrue => exact id
  case isFalse other => exact fun same => absurd same other

/-- An exported text has no NUL, and a field separator only if that is what it prints for one. -/
theorem mem_export {rs : List (Text × Text)} {c : UInt8} (mem : c ∈ db_export fld_sep rs) :
    c ≠ 0 ∧ (c = DB_FLDSEP_CHR → fld_sep = DB_FLDSEP_CHR) := by
  have literal : ∀ t : Text, t.all (fun c => c != 0 && c != DB_FLDSEP_CHR) = true → c ∈ t →
      c ≠ 0 ∧ (c = DB_FLDSEP_CHR → fld_sep = DB_FLDSEP_CHR) := by
    intro t fixed mem
    have byte := List.all_eq_true.mp fixed c mem
    rw [Bool.and_eq_true, bne_iff_ne, bne_iff_ne] at byte
    exact ⟨byte.1, fun same => absurd same byte.2⟩
  obtain ⟨r, _, line⟩ := List.mem_flatMap.mp mem
  unfold exportLine at line
  split at line
  case isTrue => exact literal _ (by decide) line
  case isFalse =>
    rcases List.mem_append.mp line with line | newline
    · rcases List.mem_append.mp line with line | data
      · rcases List.mem_append.mp line with key | sep
        · exact mem_printed key
        · exact literal _ (by decide) sep
      · split at data
        · exact absurd data List.not_mem_nil
        · exact mem_printed data
    · exact literal _ (by decide) newline

/-! ### The round trip -/

/-- Import after export gives the table back. -/
def RoundTrips (fld_sep : UInt8) {t : Stored} (listing : Listing t) : Prop :=
  ∀ k : Text, (db_import (db_export fld_sep listing.records))[k]? = t[k]?

theorem roundTrips_of_plain {t : Stored} {listing : Listing t}
    (plain : ∀ r ∈ listing.records, PlainRecord fld_sep r) : RoundTrips fld_sep listing := by
  intro k
  unfold db_import
  rw [records_export plain]
  have none_before : (∅ : Stored)[k]? = none := by simp
  cases found : t[k]? with
  | none =>
    cases imported : ((∅ : Stored).insertAll listing.records)[k]? with
    | none => rfl
    | some d =>
      rcases Lib.Table.mem_of_getElem?_insertAll imported with mem | before
      · rw [(listing.lists k d).mp mem] at found
        cases found
      · rw [none_before] at before
        cases before
  | some d =>
    apply Lib.Table.getElem?_insertAll_of_mem
    · intro w mem
      exact Option.some.inj (((listing.lists k w).mp mem).symm.trans found)
    · exact .inl ((listing.lists k d).mpr found)

theorem plain_of_roundTrips {t : Stored} {listing : Listing t} (back : RoundTrips fld_sep listing)
    {r : Text × Text} (mem : r ∈ listing.records) : PlainRecord fld_sep r := by
  obtain ⟨k, d⟩ := r
  have stored := (back k).trans ((listing.lists k d).mp mem)
  unfold db_import at stored
  rcases Lib.Table.mem_of_getElem?_insertAll stored with imported | before
  · obtain ⟨r, got, entry⟩ := List.mem_map.mp imported
    have bounds := records_bounds got
    have text : ∀ c ∈ db_export fld_sep listing.records,
        c ≠ 0 ∧ (c = DB_FLDSEP_CHR → fld_sep = DB_FLDSEP_CHR) := fun c mem => mem_export mem
    obtain ⟨rfl, rfl⟩ := Prod.mk.inj entry
    exact ⟨⟨r.1, rfl, fun nul => (text 0 (bounds.key 0 nul).1).1 rfl, fun c mem => (bounds.key c mem).2,
        bounds.key_fits, fun sep => (text _ (bounds.key _ sep).1).2 rfl⟩,
      ⟨r.2, rfl, fun nul => (text 0 (bounds.data 0 nul).1).1 rfl, fun c mem => (bounds.data c mem).2,
        bounds.data_fits, fun sep => (text _ (bounds.data _ sep).1).2 rfl⟩⟩
  · simp at before

/-- A table is rebuilt from its text exactly if its records are plain. -/
theorem db_import_export (fld_sep : UInt8) {t : Stored} (listing : Listing t) :
    RoundTrips fld_sep listing ↔ ∀ k d, t[k]? = some d → PlainRecord fld_sep (k, d) := by
  constructor
  · intro back k d stored
    exact plain_of_roundTrips back ((listing.lists k d).mpr stored)
  · intro plain
    apply roundTrips_of_plain
    rintro ⟨k, d⟩ mem
    exact plain k d ((listing.lists k d).mp mem)

/-- The table of one record. -/
def single (k d : Text) : Listing ((∅ : Stored).insert k d) where
  records := [(k, d)]
  lists k' d' := by
    rw [List.mem_singleton, Lib.Table.getElem?_insert]
    split
    case isTrue same =>
      rw [same]
      exact ⟨fun h => congrArg some (Prod.mk.inj h).2.symm, fun h => by rw [Option.some.inj h]⟩
    case isFalse other =>
      have absent : (∅ : Stored)[k']? = none := by simp
      rw [absent]
      exact ⟨fun h => absurd (Prod.mk.inj h).1 other, fun h => by cases h⟩

/-- Data of two lines is cut. -/
theorem db_import_two_lines :
    ¬ ∀ (fld_sep : UInt8) (t : Stored) (listing : Listing t), RoundTrips fld_sep listing := by
  intro back
  obtain ⟨_, d, data, plain⟩ := plain_of_roundTrips
    (back 32 _ (single [97, 0] [98, 10, 99, 0])) (List.mem_singleton.mpr rfl)
  obtain rfl : d = [98, 10, 99] := (List.append_inj_left' data rfl).symm
  exact absurd (plain.no_stop 10 (by decide)) (by decide)

end SourceNavigator.Db.Dump

import SourceNavigator.Db.LongString
import SourceNavigator.Tcl.ListText

/-!
Records as lists (`SN_convert_separator_to_blank` in `hyper/dbsym.c`).

The separators of a record become blanks, and a field with a blank is put in
braces, if the record has a separator and no brace follows the last blank of the
field. A record without a separator is returned as it is.

* `length_convert_lt` says that it fits the buffer.
* `record_read_iff` says for which records the list is read back as the fields.
-/

namespace SourceNavigator.Hyper.ListRecord

open Db Tcl

/-! ### The function -/

/-- What the first loop keeps: what it has written, the field it is in, and the flag. -/
structure Quoting where
  out : Text
  field : Text
  have_blank : Bool

/-- A field as it is written at its end. -/
def quoted (have_blank : Bool) (field : Text) : Text :=
  if have_blank then [OPEN_BRACE] ++ field ++ [CLOSE_BRACE] else field

/-- The body of the first loop for a byte that is not the closing NUL. -/
def quoteByte (st : Quoting) (p : UInt8) : Quoting :=
  if p = 32 then { st with field := st.field ++ [p], have_blank := true }
  else if p = OPEN_BRACE ∨ p = CLOSE_BRACE then
    { st with field := st.field ++ [p], have_blank := false }
  else if p = DB_FLDSEP_CHR then
    { out := st.out ++ quoted st.have_blank st.field ++ [32], field := [], have_blank := false }
  else { st with field := st.field ++ [p] }

/-- The first loop; the closing NUL ends the last field. -/
def quoteFields (str : Text) : Text :=
  let st := str.foldl quoteByte ⟨[], [], false⟩
  st.out ++ quoted st.have_blank st.field

def SN_convert_separator_to_blank (str : Text) : Text :=
  if DB_FLDSEP_CHR ∈ str ∧ 32 ∈ str then quoteFields str
  else if DB_FLDSEP_CHR ∈ str then str.map fun p => if p = DB_FLDSEP_CHR then 32 else p
  else str

/-! ### What it writes -/

/-- The flag at the end of a field: the last blank or brace is a blank. -/
def blankLast (field : Text) : Bool :=
  (field.filter fun c => c == 32 || c == OPEN_BRACE || c == CLOSE_BRACE).getLast? == some 32

/-- The field is put in braces. -/
def isQuoted (str field : Text) : Bool := decide (DB_FLDSEP_CHR ∈ str) && blankLast field

/-- Fields with blanks between them. -/
def blankJoined (fields : List Text) : Text := List.intercalate [32] fields

section Written

variable {str field : Text} {fields : List Text} {b : Bool}

theorem blankJoined_cons (some_field : fields ≠ []) :
    blankJoined (field :: fields) = field ++ 32 :: blankJoined fields := by
  rw [blankJoined, List.intercalate_cons_of_ne_nil some_field, List.append_assoc]
  rfl

theorem blankJoined_singleton : blankJoined [field] = field := by
  simp [blankJoined]

/-- The loop inside of a field. -/
theorem foldl_quoteByte_field (free : DB_FLDSEP_CHR ∉ field) (st : Quoting) :
    field.foldl quoteByte st =
      { st with
        field := st.field ++ field
        have_blank :=
          (field.filter fun c => c == 32 || c == OPEN_BRACE || c == CLOSE_BRACE).getLast?.elim
            st.have_blank (· == 32) } := by
  induction field generalizing st with
  | nil => simp
  | cons c field ih =>
    rw [List.mem_cons, not_or] at free
    rw [List.foldl_cons, ih free.2]
    unfold quoteByte
    by_cases blank : c = 32
    · subst blank
      rw [if_pos rfl, List.filter_cons_of_pos (by decide), List.getLast?_cons]
      cases (field.filter _).getLast? <;> simp
    · rw [if_neg blank]
      by_cases brace : c = OPEN_BRACE ∨ c = CLOSE_BRACE
      · rw [if_pos brace, List.filter_cons_of_pos (by simpa [blank] using brace),
          List.getLast?_cons]
        cases (field.filter _).getLast? <;> simp [blank]
      · rw [if_neg brace, if_neg (Ne.symm free.1), List.filter_cons_of_neg (by
          simpa [blank, not_or] using brace)]
        simp

/-- The flag of a field that the loop starts at. -/
theorem foldl_quoteByte_start (free : DB_FLDSEP_CHR ∉ field) (out : Text) :
    field.foldl quoteByte ⟨out, [], false⟩ = ⟨out, field, blankLast field⟩ := by
  rw [foldl_quoteByte_field free, blankLast]
  cases (field.filter _).getLast? with
  | none => rfl
  | some c => simp

/-- The first loop puts the fields in braces that end with their flag set. -/
theorem quoteFields_eq (fields : List Text) (free : ∀ f ∈ fields, DB_FLDSEP_CHR ∉ f)
    (some_field : fields ≠ []) :
    quoteFields (joinFields fields) =
      blankJoined (fields.map fun f => quoted (blankLast f) f) := by
  suffices all : ∀ out, ((joinFields fields).foldl quoteByte ⟨out, [], false⟩).out ++
      quoted ((joinFields fields).foldl quoteByte ⟨out, [], false⟩).have_blank
        ((joinFields fields).foldl quoteByte ⟨out, [], false⟩).field =
      out ++ blankJoined (fields.map fun f => quoted (blankLast f) f) from all []
  induction fields with
  | nil => exact absurd rfl some_field
  | cons f fields ih =>
    intro out
    have first := free f List.mem_cons_self
    by_cases last : fields = []
    · subst last
      rw [joinFields_singleton, foldl_quoteByte_start first, List.map_singleton,
        blankJoined_singleton]
    · have next : quoteByte ⟨out, f, blankLast f⟩ DB_FLDSEP_CHR =
          ⟨out ++ quoted (blankLast f) f ++ [32], [], false⟩ := by
        have blank : DB_FLDSEP_CHR ≠ 32 := by decide
        have brace : ¬ (DB_FLDSEP_CHR = OPEN_BRACE ∨ DB_FLDSEP_CHR = CLOSE_BRACE) := by decide
        rw [quoteByte, if_neg blank, if_neg brace, if_pos rfl]
      rw [joinFields_cons last, List.foldl_append, foldl_quoteByte_start first,
        List.foldl_cons, next, ih (fun f mem => free f (List.mem_cons_of_mem _ mem)) last,
        List.map_cons, blankJoined_cons (by simpa using last)]
      simp

/-- A field without a blank is not put in braces. -/
theorem blankLast_of_notMem (no_blank : 32 ∉ field) : blankLast field = false := by
  rw [blankLast, beq_eq_false_iff_ne]
  intro eq
  have mem := List.mem_of_getLast? eq
  exact no_blank (List.mem_filter.mp mem).1

theorem quoted_false : quoted false field = field := rfl

/-- The second loop writes a blank for each separator. -/
theorem map_separator (fields : List Text) (free : ∀ f ∈ fields, DB_FLDSEP_CHR ∉ f) :
    (joinFields fields).map (fun p => if p = DB_FLDSEP_CHR then 32 else p) =
      blankJoined fields := by
  have same : ∀ f : Text, DB_FLDSEP_CHR ∉ f →
      f.map (fun p => if p = DB_FLDSEP_CHR then 32 else p) = f := by
    intro f free
    refine (List.map_congr_left fun c mem => if_neg ?_).trans (List.map_id f)
    rintro rfl
    exact free mem
  induction fields with
  | nil => rfl
  | cons f fields ih =>
    have first := same f (free f List.mem_cons_self)
    by_cases last : fields = []
    · rw [last, joinFields_singleton, first, blankJoined_singleton]
    · rw [joinFields_cons last, List.map_append, first, List.map_cons, if_pos rfl,
        ih fun f mem => free f (List.mem_cons_of_mem _ mem), blankJoined_cons last]

/-- What the function returns: the fields with blanks between them, some of them in braces. -/
theorem convert_eq (str : Text) :
    SN_convert_separator_to_blank str =
      blankJoined ((str.splitOn DB_FLDSEP_CHR).map fun f => quoted (isQuoted str f) f) := by
  have free : ∀ f ∈ str.splitOn DB_FLDSEP_CHR, DB_FLDSEP_CHR ∉ f :=
    fun f mem => sep_notMem_of_mem_splitOn mem
  have whole : joinFields (str.splitOn DB_FLDSEP_CHR) = str := List.intercalate_splitOn _
  have some_field := List.splitOn_ne_nil DB_FLDSEP_CHR str
  unfold SN_convert_separator_to_blank
  split
  next both =>
    have written := quoteFields_eq _ free some_field
    rw [whole] at written
    rw [written]
    simp only [isQuoted, both.1, decide_true, Bool.true_and]
  next not_both =>
    split
    next sep =>
      have no_blank : 32 ∉ str := fun blank => not_both ⟨sep, blank⟩
      have plain : ∀ f ∈ str.splitOn DB_FLDSEP_CHR, quoted (isQuoted str f) f = f := by
        intro f mem
        have inside : 32 ∉ f := by
          intro blank
          apply no_blank
          rw [← whole]
          exact mem_joinFields mem blank
        rw [isQuoted, blankLast_of_notMem inside, Bool.and_false, quoted_false]
      have written := map_separator _ free
      rw [whole] at written
      rw [written, List.map_congr_left plain, List.map_id']
    next no_sep =>
      have single : str.splitOn DB_FLDSEP_CHR = [str] := List.splitOn_eq_singleton no_sep
      rw [single, List.map_singleton, blankJoined_singleton, isQuoted, decide_eq_false no_sep,
        Bool.false_and, quoted_false]

/-- A field in braces has a blank. -/
theorem blank_of_isQuoted (h : isQuoted str field = true) : 32 ∈ field := by
  by_contra no_blank
  rw [isQuoted, blankLast_of_notMem no_blank, Bool.and_false] at h
  cases h

theorem length_quoted : (quoted b field).length = field.length + 2 * b.toNat := by
  cases b with
  | false => rfl
  | true => simp [quoted]

theorem length_blankJoined (some_field : fields ≠ []) :
    (blankJoined fields).length + 1 = (fields.map fun f => f.length + 1).sum := by
  induction fields with
  | nil => exact absurd rfl some_field
  | cons f fields ih =>
    by_cases last : fields = []
    · rw [last, blankJoined_singleton]
      simp
    · rw [blankJoined_cons last, List.length_append, List.length_cons, List.map_cons,
        List.sum_cons, ← ih last]
      omega

/-- What is written, with its closing NUL, fits the buffer of `len * 2 + 2` bytes. -/
theorem length_convert_lt (str : Text) :
    (SN_convert_separator_to_blank str).length + 1 ≤ str.length * 2 + 2 := by
  have some_field := List.splitOn_ne_nil DB_FLDSEP_CHR str
  have text := length_joinFields some_field
  rw [show joinFields (str.splitOn DB_FLDSEP_CHR) = str from List.intercalate_splitOn _] at text
  have written := @length_blankJoined
    ((str.splitOn DB_FLDSEP_CHR).map fun f => quoted (isQuoted str f) f) (by simp [some_field])
  rw [convert_eq, written, List.map_map]
  have bound : ∀ fields : List Text,
      (fields.map ((fun f => f.length + 1) ∘ fun f => quoted (isQuoted str f) f)).sum ≤
        2 * (fields.map fun f => f.length + 1).sum := by
    intro fields
    induction fields with
    | nil => exact le_refl _
    | cons f fields ih =>
      have field : (quoted (isQuoted str f) f).length ≤ 2 * f.length + 1 := by
        rw [length_quoted]
        cases quotes : isQuoted str f with
        | false => simp only [Bool.toNat_false]; omega
        | true =>
          have some_byte := List.length_pos_of_mem (blank_of_isQuoted quotes)
          simp only [Bool.toNat_true]
          omega
      simp only [List.map_cons, List.sum_cons, Function.comp_apply] at ih ⊢
      omega
  have all := bound (str.splitOn DB_FLDSEP_CHR)
  omega

end Written

/-! ### The list is read back -/

/-- A field that stands for itself in a list: it is not empty, does not start with a brace or a
quote, and has no white space; a backslash is the last byte of the record. -/
def Stands (last : Prop) (field : Text) : Prop :=
  (∃ c p, field = c :: p ∧ c ≠ OPEN_BRACE ∧ c ≠ QUOTE) ∧ (∀ c ∈ field, isspace c = false) ∧
    (BACKSLASH ∈ field → last ∧ BACKSLASH ∉ field.dropLast)

/-- The fields from one on: in those that are put in braces the braces match, and the others
stand for themselves. -/
def Readable (str : Text) : List Text → Prop
  | [] => True
  | f :: fields =>
    (if isQuoted str f then balanced 0 f = true else Stands (fields = []) f) ∧
      Readable str fields

/-- The record is read back from the list. -/
def ListForm (str : Text) : Prop := Readable str (str.splitOn DB_FLDSEP_CHR)

section Read

variable {str field T : Text} {fields : List Text} {b : Bool}

/-- The list of the fields. -/
def written (str : Text) (fields : List Text) : Text :=
  blankJoined (fields.map fun f => quoted (isQuoted str f) f)

theorem written_singleton : written str [field] = quoted (isQuoted str field) field :=
  blankJoined_singleton

theorem written_cons (some_field : fields ≠ []) :
    written str (field :: fields) =
      quoted (isQuoted str field) field ++ 32 :: written str fields := by
  rw [written, List.map_cons, blankJoined_cons (by simpa using some_field)]
  rfl

theorem Stands.bare {rest : Text} {last : Prop} (h : Stands last field) (at_end : last → rest = []) :
    Bare rest field :=
  ⟨h.1, h.2.1, fun mem => ⟨at_end (h.2.2 mem).1, (h.2.2 mem).2⟩⟩

/-- The first field of a readable list is read. -/
theorem split_quoted {rest : Text} (closed : closes rest = true)
    (readable : if isQuoted str field then balanced 0 field = true else Bare rest field) :
    Tcl_SplitList (quoted (isQuoted str field) field ++ rest) =
      (Tcl_SplitList (skipSpace rest)).map (field :: ·) := by
  cases quotes : isQuoted str field with
  | true =>
    rw [quotes, if_pos rfl] at readable
    have read := split_braced readable closed
    simpa [quoted] using read
  | false =>
    rw [quotes, if_neg Bool.false_ne_true] at readable
    exact split_bare readable closed

/-- A readable list does not start with white space. -/
theorem skipSpace_written (some_field : fields ≠ []) (readable : Readable str fields) :
    skipSpace (written str fields) = written str fields := by
  obtain ⟨f, fields, rfl⟩ := List.exists_cons_of_ne_nil some_field
  obtain ⟨c, p, starts, no_space⟩ : ∃ c p, quoted (isQuoted str f) f = c :: p ∧
      isspace c = false := by
    have first := readable.1
    split at first
    next quotes =>
      rw [quotes]
      exact ⟨_, _, rfl, by decide⟩
    next stands =>
      obtain ⟨⟨c, p, rfl, _⟩, no_space, _⟩ := first
      rw [Bool.not_eq_true] at stands
      rw [stands]
      exact ⟨c, p, rfl, no_space c List.mem_cons_self⟩
  by_cases last : fields = []
  · rw [last, written_singleton, starts, skipSpace_cons no_space]
  · rw [written_cons last, starts, List.cons_append, skipSpace_cons no_space]

/-- Readable fields are read back. -/
theorem split_written (some_field : fields ≠ []) (readable : Readable str fields) :
    Tcl_SplitList (written str fields) = some fields := by
  induction fields with
  | nil => exact absurd rfl some_field
  | cons f fields ih =>
    obtain ⟨first, more⟩ := readable
    by_cases last : fields = []
    · subst last
      have read := @split_quoted str f [] rfl (by
        split at first
        · rwa [if_pos (by assumption)]
        · rw [if_neg (by assumption)]
          exact first.bare fun _ => rfl)
      rw [List.append_nil] at read
      rw [written_singleton, read, skipSpace, List.dropWhile_nil, split_nil]
      rfl
    · have read := @split_quoted str f (32 :: written str fields) rfl
        (by
          split at first
          · rwa [if_pos (by assumption)]
          · rw [if_neg (by assumption)]
            exact first.bare fun none_left => absurd none_left last)
      have blank : skipSpace (32 :: written str fields) = written str fields :=
        (@skipSpace_append _ [32] (by simp [isspace])).trans (skipSpace_written last more)
      rw [written_cons last, read, blank, ih last more]
      rfl

/-- An element that takes no more than it needs is the written field. -/
theorem readable_of_tight {rest : Text} {last : Prop}
    (h : TightItem rest (quoted (isQuoted str field) field) field)
    (need : needed field = (quoted (isQuoted str field) field).length)
    (at_end : rest = [] → last) :
    if isQuoted str field then balanced 0 field = true else Stands last field := by
  split
  next quotes =>
    have blank := blank_of_isQuoted quotes
    rw [quotes] at h
    rcases h with ⟨_, ⟨_, matched⟩ | quote⟩ | ⟨no_blank, _⟩
    · exact matched
    · exact absurd (List.cons.inj quote).1 (by decide)
    · exact absurd blank no_blank
  next stands =>
    rw [Bool.not_eq_true] at stands
    have no_blank : 32 ∉ field := by
      intro blank
      rw [needed, if_pos blank, stands, quoted_false] at need
      omega
    rcases h with ⟨blank, _⟩ | ⟨_, _, start, no_space, last_byte⟩
    · exact absurd blank no_blank
    · exact ⟨start, no_space, fun mem => ⟨at_end (last_byte mem).1, (last_byte mem).2⟩⟩

/-- A written list that takes no more than it needs is readable. -/
theorem readable_of_tightList (h : TightList T fields) (whole : T = written str fields)
    (need : ∀ f ∈ fields, needed f = (quoted (isQuoted str f) f).length) :
    Readable str fields := by
  induction h with
  | last item =>
    rw [written_singleton] at whole
    rw [whole] at item
    exact ⟨readable_of_tight item (need _ List.mem_cons_self) fun _ => rfl, trivial⟩
  | @cons e T v s vs space item more ih =>
    have some_left : vs ≠ [] := by cases more <;> simp
    have first := need v List.mem_cons_self
    rw [written_cons some_left] at whole
    obtain ⟨same, behind⟩ := List.append_inj whole (item.length.trans first)
    obtain ⟨rfl, same_rest⟩ := List.cons.inj behind
    rw [same] at item
    refine ⟨readable_of_tight item first fun empty => ?_,
      ih same_rest fun f mem => need f (List.mem_cons_of_mem _ mem)⟩
    exact absurd empty (List.cons_ne_nil _ _)

/-- Two sums that are equal term by term, if one is nowhere above the other. -/
theorem eq_of_sum_le {a c : Text → Nat} (below : ∀ f ∈ fields, a f ≤ c f)
    (sums : (fields.map c).sum ≤ (fields.map a).sum) : ∀ f ∈ fields, c f = a f := by
  induction fields with
  | nil => simp
  | cons f fields ih =>
    have first := below f List.mem_cons_self
    have later := fun g mem => below g (List.mem_cons_of_mem f mem)
    have less : (fields.map a).sum ≤ (fields.map c).sum := by
      clear ih sums below first
      induction fields with
      | nil => exact le_refl _
      | cons g fields ih =>
        have one := later g List.mem_cons_self
        have rest := ih fun h mem => later h (List.mem_cons_of_mem g mem)
        simp only [List.map_cons, List.sum_cons]
        omega
    simp only [List.map_cons, List.sum_cons] at sums
    intro g mem
    rcases List.mem_cons.mp mem with rfl | mem
    · omega
    · exact ih later (by omega) g mem

theorem count_written (fields : List Text) :
    (written str fields).count BACKSLASH = Tcl.backslashes fields := by
  have field : ∀ f, (quoted (isQuoted str f) f).count BACKSLASH = f.count BACKSLASH := by
    have brace : OPEN_BRACE ≠ BACKSLASH ∧ CLOSE_BRACE ≠ BACKSLASH := by decide
    intro f
    cases isQuoted str f with
    | false => rfl
    | true => simp [quoted, brace]
  induction fields with
  | nil => rfl
  | cons f fields ih =>
    by_cases last : fields = []
    · rw [last, written_singleton, field]
      simp [Tcl.backslashes]
    · rw [written_cons last, List.count_append, field, List.count_cons_of_ne (by decide), ih]
      simp [Tcl.backslashes]

/-- Fields that are read back are readable: the list has as many backslashes as the fields and
no more bytes than they need. -/
theorem readable_of_split (some_field : fields ≠ [])
    (h : Tcl_SplitList (written str fields) = some fields) : Readable str fields := by
  obtain ⟨enough, tight⟩ := (listOf_of_split h).tight some_field (count_written fields)
  have within := length_skipSpace (written str fields)
  have length := @length_blankJoined
    (fields.map fun f => quoted (isQuoted str f) f) (by simpa using some_field)
  rw [List.map_map, ← written] at length
  have below : ∀ f ∈ fields,
      ((fun f => f.length + 1) ∘ fun f => quoted (isQuoted str f) f) f ≤ needed f + 1 := by
    intro f _
    rw [Function.comp_apply, length_quoted, needed]
    cases quotes : isQuoted str f with
    | false => simp only [Bool.toNat_false]; omega
    | true =>
      rw [if_pos (blank_of_isQuoted quotes)]
      exact le_refl _
  have equal := eq_of_sum_le below (by omega)
  have sums : (fields.map fun f => needed f + 1).sum = (written str fields).length + 1 := by
    rw [length]
    exact congrArg List.sum (List.map_congr_left equal)
  have start : skipSpace (written str fields) = written str fields :=
    (List.dropWhile_suffix isspace).eq_of_length (by rw [← skipSpace]; omega)
  rw [start] at tight
  exact readable_of_tightList (tight sums) rfl fun f mem => Nat.succ_injective (equal f mem)

/-- The list is read back as the fields of the record exactly if the record has list form; and
what is written always fits the buffer. -/
theorem record_read_iff (str : Text) :
    (Tcl_SplitList (SN_convert_separator_to_blank str) = some (str.splitOn DB_FLDSEP_CHR) ↔
        ListForm str) ∧
      (SN_convert_separator_to_blank str).length + 1 ≤ str.length * 2 + 2 := by
  have some_field := List.splitOn_ne_nil DB_FLDSEP_CHR str
  refine ⟨?_, length_convert_lt str⟩
  rw [convert_eq]
  exact ⟨readable_of_split some_field, split_written some_field⟩

/-- An empty field is lost. -/
theorem empty_field_lost :
    Tcl_SplitList (SN_convert_separator_to_blank (joinFields [ascii "a", [], ascii "b"])) ≠
      some ((joinFields [ascii "a", [], ascii "b"]).splitOn DB_FLDSEP_CHR) := by
  have fields : (joinFields [ascii "a", [], ascii "b"]).splitOn DB_FLDSEP_CHR =
      [ascii "a", [], ascii "b"] := splitOn_joinFields (by decide) (by decide)
  rw [convert_eq, fields]
  intro read
  obtain ⟨_, ⟨⟨c, p, empty, _⟩, _⟩, _⟩ := readable_of_split (by decide) read
  cases empty

end Read

end SourceNavigator.Hyper.ListRecord

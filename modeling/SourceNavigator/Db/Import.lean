import SourceNavigator.Symbols

/-!
The lines that the importer reads (`db/dbimp.c`, `misc/libutils/longstr.c`).

`readLines` is `LongStringFgets` called until the end of the input, `importLine`
decodes one line into a request, and `dbimp` is the loop of `main`, which stops
at a request that panics.

* `dbimp_line` decodes a line whose key and data hold no byte that the framing
  uses.
-/

namespace SourceNavigator.Db

open SymbolType

/-- What `main` does for a line. -/
inductive Request
  | insert (type : Int) (key data : Text)
  | removeFile (file : Text)
  | removeCrossRefs (file : Text)
  | panic
  deriving DecidableEq

/-- The lines read by `LongStringFgets`: carriage returns are dropped, and an
empty line at the end of the input is no line. -/
def readLines (line : Text) : Text → List Text
  | [] => if line = [] then [] else [line]
  | c :: s =>
    if c = NEWLINE then line :: readLines [] s
    else if c = CARRIAGE_RETURN then readLines line s
    else readLines (line ++ [c]) s

/-- The escape bytes of a data text undone. -/
def unescape (s : Text) : Text := s.map fun c => if c = ESCAPE then NEWLINE else c

theorem unescape_eq_self {s : Text} (h : ESCAPE ∉ s) : unescape s = s := by
  refine (List.map_congr_left fun c mem => if_neg ?_).trans (List.map_id s)
  rintro rfl
  exact h mem

/-- The data that `db_insert_entry` stores. It undoes the escape bytes, but not
those of a file or of a cross reference. -/
def storedData (type : Int) (data : Text) : Text :=
  if type = PAF_FILE.code ∨ type = PAF_CROSS_REF.code then data else unescape data

def importLine (bufp : Text) : Option Request :=
  if bufp.head? = some 35 ∨ bufp = [] then
    none
  else if (ascii "Status: ").isPrefixOf bufp then
    none
  else
    match cut KEY_DATA_SEP_CHR bufp with
    | none => none
    | some (number, rest) =>
      match cut KEY_DATA_SEP_CHR rest with
      | none => none
      | some (key, data) =>
        let type := strtol number
        if type < -3 then none
        else if type = -1 then some (.removeFile data)
        else if type = -3 then some (.removeCrossRefs data)
        else if type = PAF_CROSS_REF_CPP.code then some .panic
        else some (.insert type key (storedData type data))

/-- The requests up to the first that panics. -/
def untilPanic : List Request → List Request
  | [] => []
  | .panic :: _ => [.panic]
  | r :: rs => r :: untilPanic rs

/-- The requests of an input. -/
def dbimp (s : Text) : List Request := untilPanic ((readLines [] s).filterMap importLine)

/-! ### A clean line -/

section Line

variable {line s rest key data : Text} {t : SymbolType}

theorem readLines_append (newline : NEWLINE ∉ s) (cr : CARRIAGE_RETURN ∉ s) :
    readLines line (s ++ NEWLINE :: rest) = (line ++ s) :: readLines [] rest := by
  induction s generalizing line with
  | nil => simp [readLines]
  | cons c s ih =>
    rw [List.mem_cons, not_or] at newline cr
    rw [List.cons_append, readLines, if_neg (Ne.symm newline.1), if_neg (Ne.symm cr.1),
      ih newline.2 cr.2, List.append_assoc, List.singleton_append]

/-- A key and a data text that the framing leaves alone. -/
structure Framed (key data : Text) : Prop where
  key_sep : KEY_DATA_SEP_CHR ∉ key
  key_newline : NEWLINE ∉ key
  key_cr : CARRIAGE_RETURN ∉ key
  data_newline : NEWLINE ∉ data
  data_cr : CARRIAGE_RETURN ∉ data

theorem importLine_code (sep : KEY_DATA_SEP_CHR ∉ key) (known : t ≠ PAF_CROSS_REF_CPP) :
    importLine (decimal t.code ++ KEY_DATA_SEP_CHR :: (key ++ KEY_DATA_SEP_CHR :: data)) =
      some (.insert t.code key (storedData t.code data)) := by
  have first := cut_append (b := key ++ KEY_DATA_SEP_CHR :: data) t.sep_notMem_code
  have second := cut_append (b := data) sep
  have number := t.strtol_code
  -- a line that starts with a number is no comment and no status line
  obtain ⟨c, s, starts, comment, status⟩ :
      ∃ c s, decimal t.code = c :: s ∧ c ≠ 35 ∧ c ≠ 83 := by
    cases t <;> exact ⟨_, _, rfl, by decide, by decide⟩
  have other : (t.code : Int) ≠ PAF_CROSS_REF_CPP.code := by
    cases t <;> first | decide | exact absurd rfl known
  have nonneg : (0 : Int) ≤ t.code := Int.natCast_nonneg _
  have no_status : (ascii "Status: ").isPrefixOf
      (decimal t.code ++ KEY_DATA_SEP_CHR :: (key ++ KEY_DATA_SEP_CHR :: data)) = false := by
    have head : ascii "Status: " = 83 :: ascii "tatus: " := by decide
    rw [starts, head, List.cons_append, List.isPrefixOf, beq_eq_false_iff_ne.mpr (Ne.symm status),
      Bool.false_and]
  have no_comment : ¬ ((decimal t.code ++ KEY_DATA_SEP_CHR ::
      (key ++ KEY_DATA_SEP_CHR :: data)).head? = some 35 ∨
      decimal t.code ++ KEY_DATA_SEP_CHR :: (key ++ KEY_DATA_SEP_CHR :: data) = []) := by
    rw [starts]
    simpa using comment
  unfold importLine
  simp only [no_comment, no_status, first, second, number]
  rw [if_neg (by simp), if_neg (by simp), if_neg (by omega), if_neg (by omega), if_neg (by omega),
    if_neg other]

/-- Reading on after a clean line. -/
theorem dbimp_line (framed : Framed key data) (known : t ≠ PAF_CROSS_REF_CPP) :
    dbimp (decimal t.code ++ KEY_DATA_SEP_CHR :: (key ++ KEY_DATA_SEP_CHR ::
        (data ++ [NEWLINE])) ++ rest) =
      .insert t.code key (storedData t.code data) :: dbimp rest := by
  set line := decimal t.code ++ KEY_DATA_SEP_CHR :: (key ++ KEY_DATA_SEP_CHR :: data) with hline
  have whole : decimal t.code ++ KEY_DATA_SEP_CHR :: (key ++ KEY_DATA_SEP_CHR ::
      (data ++ [NEWLINE])) ++ rest = line ++ NEWLINE :: rest := by
    simp [hline]
  have number : NEWLINE ∉ decimal t.code ∧ CARRIAGE_RETURN ∉ decimal t.code :=
    ⟨fun mem => absurd (t.digit_of_mem_code mem).1 (by decide),
      fun mem => absurd (t.digit_of_mem_code mem).1 (by decide)⟩
  have newline : NEWLINE ∉ line := by
    simpa [hline, number.1, framed.key_newline, framed.data_newline] using by decide
  have cr : CARRIAGE_RETURN ∉ line := by
    simpa [hline, number.2, framed.key_cr, framed.data_cr] using by decide
  rw [dbimp, whole, readLines_append newline cr, List.nil_append, List.filterMap_cons,
    importLine_code framed.key_sep known]
  rfl

end Line

/-! ### Every request -/

section Requests

variable {line s key data : Text} {t : Int}

/-- A line that was read holds no newline or carriage return, and only bytes of the input. -/
theorem mem_readLines (clean : NEWLINE ∉ line ∧ CARRIAGE_RETURN ∉ line) {l : Text}
    (h : l ∈ readLines line s) :
    NEWLINE ∉ l ∧ CARRIAGE_RETURN ∉ l ∧ ∀ c ∈ l, c ∈ line ∨ c ∈ s := by
  induction s generalizing line with
  | nil =>
    rw [readLines] at h
    split at h
    · cases h
    · rw [List.mem_singleton] at h
      subst h
      exact ⟨clean.1, clean.2, fun c mem => .inl mem⟩
  | cons d s ih =>
    rw [readLines] at h
    split at h
    case isTrue =>
      rcases List.mem_cons.mp h with rfl | later
      · exact ⟨clean.1, clean.2, fun c mem => .inl mem⟩
      · obtain ⟨newline, cr, bytes⟩ := ih (by simp) later
        exact ⟨newline, cr, fun c mem => .inr (.tail _ ((bytes c mem).resolve_left (by simp)))⟩
    case isFalse not_newline =>
      split at h
      · obtain ⟨newline, cr, bytes⟩ := ih clean h
        exact ⟨newline, cr, fun c mem => (bytes c mem).imp_right (.tail _)⟩
      case isFalse not_cr =>
        have clean' : NEWLINE ∉ line ++ [d] ∧ CARRIAGE_RETURN ∉ line ++ [d] := by
          simp [clean, Ne.symm not_newline, Ne.symm not_cr]
        obtain ⟨newline, cr, bytes⟩ := ih clean' h
        refine ⟨newline, cr, fun c mem => ?_⟩
        rcases bytes c mem with before | after
        · rcases List.mem_append.mp before with mem | here
          · exact .inl mem
          · exact .inr (List.mem_singleton.mp here ▸ List.mem_cons_self)
        · exact .inr (.tail _ after)

theorem mem_untilPanic {r : Request} {rs : List Request} (h : r ∈ untilPanic rs) : r ∈ rs := by
  induction rs with
  | nil => exact h
  | cons q rs ih =>
    cases q <;> simp only [untilPanic, List.mem_cons, List.not_mem_nil, or_false] at h ⊢ <;>
      tauto

/-- The text a line was decoded into. -/
theorem importLine_eq_insert (h : importLine line = some (.insert t key data)) :
    t ≠ PAF_CROSS_REF_CPP.code ∧ KEY_DATA_SEP_CHR ∉ key ∧ (∀ c ∈ key, c ∈ line) ∧
      ∃ raw, data = storedData t raw ∧ ∀ c ∈ raw, c ∈ line := by
  unfold importLine at h
  split at h
  · cases h
  split at h
  · cases h
  split at h
  · cases h
  case h_2 _ number rest first =>
    obtain ⟨-, rfl⟩ := cut_eq_some first
    split at h
    · cases h
    case h_2 _ key' data' second =>
      obtain ⟨sep, rfl⟩ := cut_eq_some second
      simp only at h
      split_ifs at h with h₁ h₂ h₃ h₄
      all_goals cases h
      refine ⟨h₄, sep, fun c mem => by simp [mem], data', rfl, fun c mem => by simp [mem]⟩

theorem newline_notMem_storedData (newline : NEWLINE ∉ data)
    (escape : t = PAF_FILE.code ∨ t = PAF_CROSS_REF.code ∨ ESCAPE ∉ data) :
    NEWLINE ∉ storedData t data := by
  unfold storedData
  split
  · exact newline
  case isFalse other =>
    rw [unescape, List.mem_map]
    rintro ⟨c, mem, same⟩
    split at same
    case isTrue esc =>
      rw [esc] at mem
      rcases escape with file | xref | absent
      · exact other (.inl file)
      · exact other (.inr xref)
      · exact absent mem
    case isFalse => exact newline (same ▸ mem)

theorem cr_notMem_storedData (cr : CARRIAGE_RETURN ∉ data) : CARRIAGE_RETURN ∉ storedData t data := by
  unfold storedData
  split
  · exact cr
  · rw [unescape, List.mem_map]
    rintro ⟨c, mem, same⟩
    split at same
    · cases same
    · exact cr (same ▸ mem)

/-- What is inserted has a key and data that the framing leaves alone; only an
escape byte gives data with a newline. -/
theorem mem_dbimp (h : .insert t key data ∈ dbimp s)
    (escape : t = PAF_FILE.code ∨ t = PAF_CROSS_REF.code ∨ ESCAPE ∉ s) :
    t ≠ PAF_CROSS_REF_CPP.code ∧ Framed key data := by
  obtain ⟨line, read, decoded⟩ := List.mem_filterMap.mp (mem_untilPanic h)
  obtain ⟨newline, cr, bytes⟩ := mem_readLines (by simp) read
  obtain ⟨known, sep, key_bytes, raw, rfl, raw_bytes⟩ := importLine_eq_insert decoded
  have from_input : ∀ c ∈ raw, c ∈ s := fun c mem =>
    (bytes c (raw_bytes c mem)).resolve_left (by simp)
  refine ⟨known, sep, fun mem => newline (key_bytes _ mem), fun mem => cr (key_bytes _ mem), ?_, ?_⟩
  · refine newline_notMem_storedData (fun mem => newline (raw_bytes _ mem)) ?_
    exact escape.imp_right fun h => h.imp_right fun absent mem => absent (from_input _ mem)
  · exact cr_notMem_storedData fun mem => cr (raw_bytes _ mem)

end Requests

end SourceNavigator.Db

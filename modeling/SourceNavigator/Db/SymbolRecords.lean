import SourceNavigator.Db.Remove

/-!
The two records of a call of `put_symbol`.

* `SymbolArgs.put_symbol_accepted` says that a call that is not refused writes
  the record of the symbol and that of the file symbol.
* `removalKey_eq_iff` says when the key that the deletion builds is that of a symbol.
-/

namespace SourceNavigator.Db

open SymbolType

/-! ### The records of a call -/

namespace SymbolArgs

variable (a : SymbolArgs)

def name : Text := escapeNewlines (skipSpace (a.symbol_name.getD []))

def file : Text := skipSpace (a.file_name.getD [])

def highStart : Int × Int := (a.high (skipSpace (a.symbol_name.getD []))).1

/-- The highlight position in the data of the file symbol. -/
def highPosition : Text := position a.highStart.1 a.highStart.2

/-- The highlight position in the key of the symbol. -/
def highKey : Text := sortedPosition a.highStart.1 a.highStart.2

/-- The scope in the key of the file symbol. -/
def scopeField : Text := a.scope.getD (ascii "#")

def symbolRecord (o : Options) : Line :=
  symbolLine o escapeNewlines a (skipSpace (a.symbol_name.getD [])) a.file

def fileRecord : Line :=
  fileSymbolLine escapeNewlines a (skipSpace (a.symbol_name.getD [])) a.file

/-- An accepted call writes the record of the symbol and that of the file symbol. -/
theorem put_symbol_accepted {o : Options} (accepted : put_symbol o escapeNewlines a ≠ []) :
    put_symbol o escapeNewlines a = [a.symbolRecord o, a.fileRecord] := by
  unfold put_symbol at accepted ⊢
  split
  next file_name symbol_name hf hs =>
    simp only [hf, hs] at accepted
    split
    next refused => exact absurd (if_pos refused) accepted
    next =>
      unfold symbolRecord fileRecord file
      rw [hf, hs]
      rfl
  next absent =>
    split at accepted
    next file_name symbol_name hf hs => exact (absent file_name symbol_name hf hs).elim
    next => exact absurd rfl accepted

theorem symbolRecord_key {o : Options} : (a.symbolRecord o).key =
    joinFields (a.scope.toList ++ [a.name, a.highKey, a.file]) :=
  rfl

theorem fileRecord_key : a.fileRecord.key =
    joinFields [a.file, sortedPosition a.start_lineno a.start_colpos, a.scopeField, a.name,
      a.sym_type.SN_GetSymbolType] :=
  rfl

/-- What the deletion needs of a call: fields without separators, of lengths that fit a
`short`. -/
structure Split : Prop where
  scope : DB_FLDSEP_CHR ∉ a.scopeField
  name : DB_FLDSEP_CHR ∉ a.name
  scope_length : a.scopeField.length < 32768
  name_length : a.name.length < 32768
  position_length : a.highPosition.length < 32768

/-- The highlight position fits the buffer in both formats. -/
def PositionFits : Prop := a.highPosition.length ≤ 10 ∧ a.highKey.length ≤ 10

instance : Decidable a.PositionFits := inferInstanceAs (Decidable (_ ∧ _))

/-- The key that the deletion builds. -/
def removalKey : Text :=
  if keyHasScope a.sym_type then joinFields [a.scopeField, a.name, a.highKey, a.file]
  else joinFields [a.name, a.highKey, a.file]

end SymbolArgs

/-! ### Texts of positions -/

theorem numeral_of_mem_position {line column : Int} {c : UInt8} (mem : c ∈ position line column) :
    IsNumeral c ∨ c = 46 := by
  unfold position at mem
  rcases List.mem_append.mp mem with mem | mem
  · rcases List.mem_append.mp mem with mem | mem
    · exact .inl (isNumeral_decimal mem)
    · exact .inr (List.mem_singleton.mp mem)
  · exact .inl (isNumeral_decimal mem)

theorem sep_notMem_position (line column : Int) : DB_FLDSEP_CHR ∉ position line column := by
  intro mem
  rcases numeral_of_mem_position mem with numeral | same
  · exact numeral.ne (by decide) rfl
  · exact absurd same (by decide)

theorem escape_notMem_position (line column : Int) : ESCAPE ∉ position line column := by
  intro mem
  rcases numeral_of_mem_position mem with (same | ⟨_, high⟩) | same
  · exact absurd same (by decide)
  · exact absurd high (by decide)
  · exact absurd same (by decide)

theorem sep_notMem_sortedPosition (line column : Int) :
    DB_FLDSEP_CHR ∉ sortedPosition line column := by
  intro mem
  unfold sortedPosition at mem
  rcases List.mem_append.mp mem with mem | mem
  · rcases List.mem_append.mp mem with mem | mem
    · exact (isNumeral_padded mem).ne (by decide) rfl
    · exact absurd (List.mem_singleton.mp mem) (by decide)
  · exact (isNumeral_padded mem).ne (by decide) rfl

/-! ### The symbol of a file symbol -/

section Symbol

variable {a : SymbolArgs}

/-- The data of a file symbol starts with two positions, which no escape byte changes. -/
theorem splitOn_fileRecord_data : ∃ end_ rest, (unescape a.fileRecord.data).splitOn DB_FLDSEP_CHR =
    end_ :: a.highPosition :: rest ∧ rest ≠ [] := by
  let rest := joinFields [position (a.high (skipSpace (a.symbol_name.getD []))).2.1
    (a.high (skipSpace (a.symbol_name.getD []))).2.2, inBraces (a.arg_types.getD [])]
  have data : a.fileRecord.data = position a.end_lineno a.end_colpos ++ DB_FLDSEP_CHR ::
      (a.highPosition ++ DB_FLDSEP_CHR :: rest) := by
    change joinFields _ = _
    rw [joinFields_cons (by simp), joinFields_cons (by simp)]
    rfl
  have unescaped : unescape a.fileRecord.data = position a.end_lineno a.end_colpos ++
      DB_FLDSEP_CHR :: (a.highPosition ++ DB_FLDSEP_CHR :: unescape rest) := by
    rw [data, unescape, List.map_append, List.map_cons, List.map_append, List.map_cons]
    change unescape _ ++ DB_FLDSEP_CHR :: (unescape _ ++ DB_FLDSEP_CHR :: _) = _
    rw [unescape_eq_self (escape_notMem_position _ _), SymbolArgs.highPosition,
      unescape_eq_self (escape_notMem_position _ _)]
    rfl
  refine ⟨position a.end_lineno a.end_colpos, (unescape rest).splitOn DB_FLDSEP_CHR, ?_,
    List.splitOn_ne_nil _ _⟩
  have second : DB_FLDSEP_CHR ∉ a.highPosition := sep_notMem_position _ _
  rw [unescaped, List.splitOn_append_cons_self_of_not_mem (sep_notMem_position _ _),
    List.splitOn_append_cons_self_of_not_mem second]

/-- The position field of the data is reformatted to the one of the keys. -/
theorem startpos_fileRecord (short : a.highPosition.length < 32768) :
    startpos (unescape a.fileRecord.data) =
      if a.PositionFits then some a.highKey else none := by
  obtain ⟨end_, rest, fields, more⟩ := splitOn_fileRecord_data (a := a)
  have size : fieldSize (end_ :: a.highPosition :: rest) 1 = a.highPosition.length :=
    int16_of_lt short
  have value : (fieldValue (end_ :: a.highPosition :: rest) 1).take a.highPosition.length =
      a.highPosition := by
    change (joinFields (a.highPosition :: rest)).take _ = _
    rw [joinFields_cons more, List.take_left]
  have position : scanPosition a.highPosition = some (a.highStart.1, a.highStart.2) :=
    scanPosition_position _ _
  unfold startpos
  simp only [fields, size, Int.toNat_natCast, value, position]
  change (if _ then none else if 11 < a.highKey.length + 1 then none else some a.highKey) = _
  by_cases low : a.highPosition.length ≤ 10
  · rw [if_neg]
    · by_cases key : a.highKey.length ≤ 10
      · rw [if_neg (by omega), if_pos ⟨low, key⟩]
      · rw [if_pos (by omega), if_neg fun both => key both.2]
    · rintro (few | negative | long)
      · exact absurd few (by simp)
      · omega
      · omega
  · rw [if_pos (.inr (.inr (by omega))), if_neg fun both => low both.1]

/-- The fields of the key of a file symbol. -/
theorem splitOn_fileRecord_key (split_ : a.Split) (file : DB_FLDSEP_CHR ∉ a.file) :
    a.fileRecord.key.splitOn DB_FLDSEP_CHR =
      [a.file, sortedPosition a.start_lineno a.start_colpos, a.scopeField, a.name,
        a.sym_type.SN_GetSymbolType] := by
  rw [a.fileRecord_key]
  apply splitOn_joinFields _ (by simp)
  simp only [List.forall_mem_cons, List.not_mem_nil, false_imp_iff, implies_true, and_true]
  exact ⟨file, sep_notMem_sortedPosition _ _, split_.scope, split_.name, sep_notMem_name _⟩

theorem symbolOf_fileRecord (split_ : a.Split) (file : DB_FLDSEP_CHR ∉ a.file) :
    symbolOf a.file a.fileRecord.key (unescape a.fileRecord.data) =
      if a.PositionFits then some (some (a.sym_type, a.removalKey)) else none := by
  have type : ofName ([a.file, sortedPosition a.start_lineno a.start_colpos, a.scopeField, a.name,
      a.sym_type.SN_GetSymbolType].getLastD []) = some a.sym_type := ofName_name a.sym_type
  have key : delkey a.sym_type [a.file, sortedPosition a.start_lineno a.start_colpos,
      a.scopeField, a.name, a.sym_type.SN_GetSymbolType] a.highKey a.file = some a.removalKey := by
    have scope : appended (joinFields [a.scopeField, a.name, a.sym_type.SN_GetSymbolType])
        (int16 a.scopeField.length) = a.scopeField := by
      rw [joinFields_cons (by simp)]
      exact appended_field (int16_of_lt split_.scope_length)
    have name : appended (joinFields [a.name, a.sym_type.SN_GetSymbolType])
        (int16 a.name.length) = a.name := by
      rw [joinFields_cons (by simp)]
      exact appended_field (int16_of_lt split_.name_length)
    unfold delkey SymbolArgs.removalKey
    simp only [fieldSize, fieldValue, List.getD_cons_zero, List.getD_cons_succ,
      List.drop_succ_cons, List.drop_zero, scope, name]
    rw [if_neg (by simp)]
    split
    · rfl
    · rfl
  unfold symbolOf
  simp only [splitOn_fileRecord_key split_ file, type, startpos_fileRecord split_.position_length]
  by_cases fits : a.PositionFits
  · rw [if_pos fits, if_pos fits]
    simp only [key, Option.map_some]
  · rw [if_neg fits, if_neg fits]

end Symbol

/-! ### The file of a record -/

/-- The types with a table of their own for their symbols. -/
def hasTable : SymbolType → Bool
  | PAF_FILE | PAF_FILE_SYMBOLS | PAF_CROSS_REF | PAF_COMMENT_DEF | PAF_CROSS_REF_CPP => false
  | _ => true

/-- A record of a file. -/
def RecordOf (file : Text) (t : SymbolType) (key : Text) : Prop :=
  if t = PAF_FILE_SYMBOLS ∨ t = PAF_COMMENT_DEF then filePrefix file <+: key else keyFile key = file

section File

variable {file other s : Text} {a b : SymbolArgs} {o : Options}

theorem keyFile_append (separate : DB_FLDSEP_CHR ∉ file) :
    keyFile (s ++ DB_FLDSEP_CHR :: file) = file := by
  unfold keyFile
  rw [List.splitOn_append_cons_self, List.splitOn_eq_singleton separate]
  obtain ⟨f, fields, pieces⟩ := List.exists_cons_of_ne_nil (List.splitOn_ne_nil DB_FLDSEP_CHR s)
  rw [pieces]
  cases fields with
  | nil => rfl
  | cons g fields =>
    change (g :: fields ++ [file]).getLastD f = file
    rw [List.getLastD_concat]

theorem keyFile_joinFields {fields : List Text} (some_field : fields ≠ [])
    (separate : DB_FLDSEP_CHR ∉ file) : keyFile (joinFields (fields ++ [file])) = file := by
  rw [joinFields_concat some_field, keyFile_append separate]

theorem filePrefix_iff (separate : DB_FLDSEP_CHR ∉ file) (separate' : DB_FLDSEP_CHR ∉ other) :
    filePrefix file <+: other ++ DB_FLDSEP_CHR :: s ↔ other = file := by
  constructor
  · rintro ⟨rest, same⟩
    have both := congrArg (cut DB_FLDSEP_CHR) same
    rw [filePrefix, List.append_assoc, List.singleton_append, cut_append separate,
      cut_append separate'] at both
    exact (Prod.mk.inj (Option.some.inj both)).1.symm
  · rintro rfl
    refine ⟨s, ?_⟩
    rw [filePrefix, List.append_assoc, List.singleton_append]

theorem recordOf_symbol (own : hasTable a.sym_type = true) (separate : DB_FLDSEP_CHR ∉ a.file) :
    RecordOf file a.sym_type (a.symbolRecord o).key ↔ a.file = file := by
  have not_file : ¬ (a.sym_type = PAF_FILE_SYMBOLS ∨ a.sym_type = PAF_COMMENT_DEF) := by
    rintro (same | same)
    · rw [same] at own
      exact absurd own (by decide)
    · rw [same] at own
      exact absurd own (by decide)
  have fields : a.scope.toList ++ [a.name, a.highKey, a.file] =
      (a.scope.toList ++ [a.name, a.highKey]) ++ [a.file] := by
    simp
  rw [RecordOf, if_neg not_file, a.symbolRecord_key, fields,
    keyFile_joinFields (by simp) separate]

theorem recordOf_file (separate : DB_FLDSEP_CHR ∉ file) (separate' : DB_FLDSEP_CHR ∉ a.file) :
    RecordOf file PAF_FILE_SYMBOLS a.fileRecord.key ↔ a.file = file := by
  rw [RecordOf, if_pos (.inl rfl), a.fileRecord_key, joinFields_cons (by simp),
    filePrefix_iff separate separate']

theorem keyFile_removalKey (separate : DB_FLDSEP_CHR ∉ a.file) : keyFile a.removalKey = a.file := by
  unfold SymbolArgs.removalKey
  split
  · exact keyFile_joinFields (List.cons_ne_nil a.scopeField [a.name, a.highKey]) separate
  · exact keyFile_joinFields (List.cons_ne_nil a.name [a.highKey]) separate

/-- Two lists of fields with one text are one list. -/
theorem joinFields_inj {xs ys : List Text} (hx : ∀ s ∈ xs, DB_FLDSEP_CHR ∉ s)
    (hy : ∀ s ∈ ys, DB_FLDSEP_CHR ∉ s) (x : xs ≠ []) (y : ys ≠ []) :
    joinFields xs = joinFields ys ↔ xs = ys := by
  constructor
  · intro same
    rw [← splitOn_joinFields hx x, same, splitOn_joinFields hy y]
  · rintro rfl
    rfl

/-- When the key built from one file symbol is that of a symbol. -/
theorem removalKey_eq_iff (split_ : a.Split) (split' : b.Split) (type : b.sym_type = a.sym_type)
    (file : b.file = a.file) (separate : DB_FLDSEP_CHR ∉ a.file) :
    b.removalKey = (a.symbolRecord o).key ↔ a.scope.isSome = keyHasScope a.sym_type ∧
      b.name = a.name ∧ b.highKey = a.highKey ∧
        (keyHasScope a.sym_type = true → b.scopeField = a.scopeField) := by
  have scope_of : ∀ {s}, a.scope = some s → a.scopeField = s := by
    intro s given
    rw [SymbolArgs.scopeField, given, Option.getD_some]
  have high : DB_FLDSEP_CHR ∉ a.highKey := sep_notMem_sortedPosition _ _
  have high' : DB_FLDSEP_CHR ∉ b.highKey := sep_notMem_sortedPosition _ _
  rw [SymbolArgs.removalKey, type, a.symbolRecord_key, file]
  -- the keys have three fields or four, as the type and the scope say
  cases expects : keyHasScope a.sym_type with
  | true =>
    rw [if_pos rfl]
    cases given : a.scope with
    | none =>
      rw [joinFields_inj] <;>
        simp [split_.name, split'.name, split'.scope, separate, high, high']
    | some s =>
      obtain rfl := scope_of given
      rw [joinFields_inj] <;>
        simp [split_.name, split'.name, split_.scope, split'.scope, separate, high, high']
      tauto
  | false =>
    rw [if_neg Bool.false_ne_true]
    cases given : a.scope with
    | none =>
      rw [joinFields_inj] <;> simp [split_.name, split'.name, separate, high, high']
    | some s =>
      obtain rfl := scope_of given
      rw [joinFields_inj] <;>
        simp [split_.name, split'.name, split_.scope, separate, high, high']

end File

end SourceNavigator.Db

import Mathlib.Data.List.TakeWhile
import SourceNavigator.Lib.SecondaryIndex
import SourceNavigator.Db.CrossRef

/-!
References and their mirrors.

`mirrorKey` and `mirrorData` say what the mirror of a record is: caller and
callee change places in the key, and so do the two data fields. A reference to a
local variable has no mirror. `CrossRef` is a reference with its fields, none of
which holds a separator.

* `put_cross_ref_reference` says that `put_cross_ref` writes references.
* `CrossRef.byKey_fields` and `CrossRef.xrefData_data` say that the code builds
  the mirror if the lengths of the fields fit a `short`.
* `mirrorKey_separates` says that two keys with one mirror are one key.
-/

namespace SourceNavigator.Db

open Lib SymbolType

/-! ### The mirror of a record -/

/-- The key of the mirror of a record. -/
def mirrorKey (key : Text) : Option Text :=
  match key.splitOn DB_FLDSEP_CHR with
  | [fnc_cls, fnc, scope_type, scope, what, type, acc, lineno, file] =>
    if type = PAF_LOCAL_VAR_DEF.SN_GetSymbolType then none
    else some (joinFields [scope, what, type, fnc_cls, fnc, scope_type, acc, lineno, file])
  | _ => none

/-- The data of the mirror of a record. -/
def mirrorData (data : Text) : Text := joinFields (data.splitOn DB_FLDSEP_CHR).reverse

/-- A reference as `put_cross_ref` writes it: nine fields of a key and two of a data text. -/
structure CrossRef where
  fnc_cls : Text
  fnc : Text
  scope_type : SymbolType
  scope : Text
  what : Text
  type : SymbolType
  acc : Text
  lineno : Text
  file : Text
  fnc_arg_types : Text
  arg_types : Text
  separate : ∀ s ∈ [fnc_cls, fnc, scope, what, acc, lineno, file, fnc_arg_types, arg_types],
    DB_FLDSEP_CHR ∉ s

namespace CrossRef

variable (r : CrossRef)

def fields : List Text :=
  [r.fnc_cls, r.fnc, r.scope_type.SN_GetSymbolType, r.scope, r.what, r.type.SN_GetSymbolType,
    r.acc, r.lineno, r.file]

def key : Text := joinFields r.fields

def data : Text := joinFields [r.fnc_arg_types, r.arg_types]

/-- The data that the table keeps. -/
def value : Text := joinFields [inBraces r.fnc_arg_types, inBraces r.arg_types]

/-- The lengths of the fields that are copied one by one fit a `short`. -/
def Short : Prop :=
  r.type = PAF_LOCAL_VAR_DEF ∨ ∀ s ∈ r.fields ++ [r.fnc_arg_types, r.arg_types], s.length < 32768

end CrossRef

/-! ### Split records -/

section Split

variable {s₁ s₂ s₃ rest : Text}

/-- The test of the first two bytes finds the local variables. -/
theorem isPrefixOf_name_iff (t : SymbolType) :
    PAF_LOCAL_VAR_DEF.SN_GetSymbolType.isPrefixOf (t.SN_GetSymbolType ++ DB_FLDSEP_CHR :: rest) =
      true ↔ t = PAF_LOCAL_VAR_DEF := by
  cases t <;> simp [SN_GetSymbolType, ascii, List.isPrefixOf] <;> decide

theorem name_eq_iff (t : SymbolType) :
    t.SN_GetSymbolType = PAF_LOCAL_VAR_DEF.SN_GetSymbolType ↔ t = PAF_LOCAL_VAR_DEF := by
  cases t <;> decide

/-- The bytes of three fields and their separators. -/
theorem appended_three :
    appended (s₁ ++ DB_FLDSEP_CHR :: (s₂ ++ DB_FLDSEP_CHR :: (s₃ ++ DB_FLDSEP_CHR :: rest)))
        (s₁.length + s₂.length + s₃.length + 3) =
      s₁ ++ DB_FLDSEP_CHR :: (s₂ ++ DB_FLDSEP_CHR :: (s₃ ++ [DB_FLDSEP_CHR])) := by
  have whole : s₁ ++ DB_FLDSEP_CHR :: (s₂ ++ DB_FLDSEP_CHR :: (s₃ ++ DB_FLDSEP_CHR :: rest)) =
      (s₁ ++ DB_FLDSEP_CHR :: (s₂ ++ DB_FLDSEP_CHR :: (s₃ ++ [DB_FLDSEP_CHR]))) ++ rest := by
    simp
  rw [appended, if_neg (by omega), whole]
  apply List.take_left'
  simp only [List.length_append, List.length_cons, List.length_nil]
  omega

/-- The key built from lengths that are kept is the one with the first six fields exchanged. -/
theorem byKey_nine {a b c d e f g h i : Text}
    (short : ∀ s ∈ [a, b, c, d, e, f, g, h, i], s.length < 32768) :
    byKey [a, b, c, d, e, f, g, h, i] = some (joinFields [d, e, f, a, b, c, g, h, i]) := by
  have size : ∀ s ∈ [a, b, c, d, e, f, g, h, i], int16 s.length = s.length :=
    fun s mem => int16_of_lt (short s mem)
  simp only [byKey, fieldSize, fieldValue, List.getD_cons_zero, List.getD_cons_succ,
    List.drop_succ_cons, List.drop_zero, List.length_cons, List.length_nil]
  rw [size a (by simp), size b (by simp), size c (by simp), size d (by simp), size e (by simp),
    size f (by simp), size g (by simp), size h (by simp), size i (by simp), if_neg (by omega)]
  have callee : joinFields [d, e, f, g, h, i] =
      d ++ DB_FLDSEP_CHR :: (e ++ DB_FLDSEP_CHR :: (f ++ DB_FLDSEP_CHR :: joinFields [g, h, i])) := by
    rw [joinFields_cons (by simp), joinFields_cons (by simp), joinFields_cons (by simp)]
  have caller : joinFields [a, b, c, d, e, f, g, h, i] =
      a ++ DB_FLDSEP_CHR ::
        (b ++ DB_FLDSEP_CHR :: (c ++ DB_FLDSEP_CHR :: joinFields [d, e, f, g, h, i])) := by
    rw [joinFields_cons (by simp), joinFields_cons (by simp), joinFields_cons (by simp)]
  have place : joinFields [g, h, i] = g ++ DB_FLDSEP_CHR :: (h ++ DB_FLDSEP_CHR :: i) := by
    rw [joinFields_cons (by simp), joinFields_cons (by simp), joinFields_singleton]
  have whole : joinFields [d, e, f, a, b, c, g, h, i] =
      d ++ DB_FLDSEP_CHR :: (e ++ DB_FLDSEP_CHR :: (f ++ DB_FLDSEP_CHR ::
        (a ++ DB_FLDSEP_CHR :: (b ++ DB_FLDSEP_CHR ::
          (c ++ DB_FLDSEP_CHR :: joinFields [g, h, i]))))) := by
    iterate 6 rw [joinFields_cons (by simp)]
  rw [callee, caller, appended_three, appended_three, appended_all, whole]
  · simp
  · rw [place]
    simp only [List.length_append, List.length_cons]
    omega

end Split

/-! ### The records of a reference -/

namespace CrossRef

variable {r : CrossRef}

theorem fields_separate : ∀ s ∈ r.fields, DB_FLDSEP_CHR ∉ s := by
  intro s mem
  simp only [fields, List.mem_cons, List.not_mem_nil, or_false] at mem
  rcases mem with rfl | rfl | rfl | rfl | rfl | rfl | rfl | rfl | rfl
  case inr.inr.inl => exact sep_notMem_name _
  case inr.inr.inr.inr.inr.inl => exact sep_notMem_name _
  all_goals exact r.separate _ (by simp)

theorem splitOn_key : r.key.splitOn DB_FLDSEP_CHR = r.fields :=
  splitOn_joinFields fields_separate (by simp [fields])

theorem splitOn_data : r.data.splitOn DB_FLDSEP_CHR = [r.fnc_arg_types, r.arg_types] := by
  apply splitOn_joinFields _ (by simp)
  intro s mem
  exact r.separate s (by simp at mem ⊢; tauto)

theorem sep_notMem_inBraces {s : Text} (h : DB_FLDSEP_CHR ∉ s) : DB_FLDSEP_CHR ∉ inBraces s := by
  rw [inBraces, List.mem_append, List.mem_append]
  rintro ((brace | mem) | brace)
  · exact absurd brace (by decide)
  · exact h mem
  · exact absurd brace (by decide)

theorem mirrorData_value :
    mirrorData r.value = joinFields [inBraces r.arg_types, inBraces r.fnc_arg_types] := by
  rw [mirrorData, value, splitOn_joinFields]
  · rfl
  · intro s mem
    simp only [List.mem_cons, List.not_mem_nil, or_false] at mem
    rcases mem with rfl | rfl
    · exact sep_notMem_inBraces (r.separate _ (by simp))
    · exact sep_notMem_inBraces (r.separate _ (by simp))
  · simp

theorem mirrorKey_key : mirrorKey r.key =
    if r.type = PAF_LOCAL_VAR_DEF then none
    else some (joinFields [r.scope, r.what, r.type.SN_GetSymbolType, r.fnc_cls, r.fnc,
      r.scope_type.SN_GetSymbolType, r.acc, r.lineno, r.file]) := by
  rw [mirrorKey, splitOn_key, fields]
  exact if_congr (name_eq_iff _) rfl rfl

/-- A reference that is not to a local variable has a mirror. -/
theorem exists_mirrorKey (other : r.type ≠ PAF_LOCAL_VAR_DEF) : ∃ i, mirrorKey r.key = some i := by
  rw [mirrorKey_key, if_neg other]
  exact ⟨_, rfl⟩

theorem toLocalVar_fields : toLocalVar r.fields = decide (r.type = PAF_LOCAL_VAR_DEF) := by
  rw [Bool.eq_iff_iff, decide_eq_true_iff, toLocalVar, fieldValue]
  simp only [fields, List.drop_succ_cons, List.drop_zero]
  rw [joinFields_cons (by simp)]
  exact isPrefixOf_name_iff r.type

/-- The key that the code builds from the lengths of the fields is the mirror of the key. -/
theorem byKey_fields (other : r.type ≠ PAF_LOCAL_VAR_DEF) (short : r.Short) :
    byKey r.fields = mirrorKey r.key := by
  have lengths := short.resolve_left other
  rw [mirrorKey_key, if_neg other]
  exact byKey_nine fun s mem => lengths s (List.mem_append_left _ mem)

/-- The records of a reference are split into as many fields as the insertion reads. -/
theorem insertable (caller : r.key.head? ≠ some 63) :
    ¬ ([r.fnc_arg_types, r.arg_types].length < 2 ∨ r.key.head? = some 63 ∨
      r.fields.length < 6) := by
  rintro (few | unknown | few)
  · exact absurd few (by simp)
  · exact caller unknown
  · exact absurd few (by simp [fields])

/-- The mirror of a key is as long as the key. -/
theorem length_mirrorKey {i : Text} (shown : mirrorKey r.key = some i) :
    i.length = r.key.length := by
  rw [mirrorKey_key] at shown
  split at shown
  · exact absurd shown (by simp)
  · rw [← Option.some.inj shown, key, fields]
    apply Nat.succ_injective
    change List.length _ + 1 = List.length _ + 1
    rw [length_joinFields (by simp), length_joinFields (by simp)]
    simp only [List.map_cons, List.map_nil, List.sum_cons, List.sum_nil]
    omega

/-- The data that the code builds is the one the table keeps, the fields in either order. -/
theorem xrefData_data (short : ∀ s ∈ [r.fnc_arg_types, r.arg_types], s.length < 32768) :
    xrefData [r.fnc_arg_types, r.arg_types] 0 1 = r.value ∧
      xrefData [r.fnc_arg_types, r.arg_types] 1 0 = mirrorData r.value := by
  have first : appended (joinFields [r.fnc_arg_types, r.arg_types])
      (int16 r.fnc_arg_types.length) = r.fnc_arg_types := by
    rw [joinFields_cons (by simp)]
    exact appended_field (int16_of_lt (short _ (by simp)))
  have second : appended (joinFields [r.arg_types]) (int16 r.arg_types.length) = r.arg_types := by
    rw [joinFields_singleton]
    exact appended_all (int16_of_lt (short _ (by simp)))
  rw [mirrorData_value, value]
  constructor
  · exact congrArg₂ (fun a b => joinFields [inBraces a, inBraces b]) first second
  · exact congrArg₂ (fun a b => joinFields [inBraces a, inBraces b]) second first

end CrossRef

/-- Two keys with one mirror are one key. -/
theorem mirrorKey_separates : Separates mirrorKey := by
  -- the fields of a key are those of its mirror in another order
  have fields_of : ∀ key i, mirrorKey key = some i → ∃ a b c d e f g h j,
      key.splitOn DB_FLDSEP_CHR = [a, b, c, d, e, f, g, h, j] ∧
        i.splitOn DB_FLDSEP_CHR = [d, e, f, a, b, c, g, h, j] := by
    intro key i found
    unfold mirrorKey at found
    split at found
    next a b c d e f g h j split_ =>
      split at found
      · exact absurd found (by simp)
      · obtain rfl := Option.some.inj found
        refine ⟨a, b, c, d, e, f, g, h, j, split_, splitOn_joinFields ?_ (by simp)⟩
        intro s mem
        have inKey : s ∈ key.splitOn DB_FLDSEP_CHR := by
          rw [split_]
          simp only [List.mem_cons, List.not_mem_nil, or_false] at mem ⊢
          tauto
        exact sep_notMem_of_mem_splitOn inKey
    next => exact absurd found (by simp)
  intro k₁ k₂ i first second
  obtain ⟨a, b, c, d, e, f, g, h, j, split₁, mirror₁⟩ := fields_of k₁ i first
  obtain ⟨a', b', c', d', e', f', g', h', j', split₂, mirror₂⟩ := fields_of k₂ i second
  rw [mirror₁] at mirror₂
  simp only [List.cons.injEq, and_true] at mirror₂
  obtain ⟨rfl, rfl, rfl, rfl, rfl, rfl, rfl, rfl, rfl⟩ := mirror₂
  calc k₁ = joinFields (k₁.splitOn DB_FLDSEP_CHR) := (List.intercalate_splitOn _).symm
    _ = joinFields (k₂.splitOn DB_FLDSEP_CHR) := by rw [split₁, split₂]
    _ = k₂ := List.intercalate_splitOn _

/-! ### What `put_cross_ref` writes -/

/-- No text of the call holds a field separator. The referenced class is cut at one. -/
def CrossRefArgs.Separate (a : CrossRefArgs) : Prop :=
  ∀ s ∈ [a.fnc_cls, a.fnc, a.what, a.file, a.fnc_arg_types, a.arg_types], DB_FLDSEP_CHR ∉ s.getD []

theorem sep_notMem_skipSpace {s : Text} (h : DB_FLDSEP_CHR ∉ s) : DB_FLDSEP_CHR ∉ skipSpace s :=
  fun mem => h ((List.dropWhile_sublist _).mem mem)

theorem sep_notMem_scopeText (a : CrossRefArgs) : DB_FLDSEP_CHR ∉ a.scopeText.getD (ascii "#") := by
  unfold CrossRefArgs.scopeText
  cases a.scope with
  | none => decide
  | some s =>
    rw [Option.map_some, Option.filter_some]
    split
    · intro mem
      have kept := List.mem_takeWhile_imp mem
      exact absurd rfl (of_decide_eq_true kept)
    · decide

/-- Every record of the call is one of a reference. -/
theorem put_cross_ref_reference {o : Options} {a : CrossRefArgs} {ls : List Line}
    (written : put_cross_ref o a = some ls) (separate : a.Separate) {l : Line} (mem : l ∈ ls) :
    ∃ r : CrossRef, l.key = r.key ∧ l.data = r.data := by
  have text : ∀ s ∈ [a.fnc_cls, a.fnc, a.what, a.file, a.fnc_arg_types, a.arg_types],
      DB_FLDSEP_CHR ∉ s.getD [] := separate
  have fnc_cls : DB_FLDSEP_CHR ∉ ((a.fnc_cls.filter (· ≠ [])).map skipSpace).getD (ascii "#") := by
    have given := text a.fnc_cls (by simp)
    cases h : a.fnc_cls.filter (· ≠ []) with
    | none => decide
    | some s =>
      rw [(Option.filter_eq_some_iff.mp h).1] at given
      exact sep_notMem_skipSpace given
  have lineno : DB_FLDSEP_CHR ∉ padded 6 a.lineno :=
    fun mem => (isNumeral_padded mem).ne (by decide) rfl
  have acc : DB_FLDSEP_CHR ∉ acc_strings a.acc := by
    cases a.acc <;> decide
  unfold put_cross_ref at written
  split at written
  next =>
    split at written
    next => exact absurd written (by simp)
    next =>
      split at written
      next =>
        obtain rfl := Option.some.inj written
        exact absurd mem List.not_mem_nil
      next =>
        obtain rfl := Option.some.inj written
        obtain rfl := List.mem_singleton.mp mem
        refine ⟨⟨_, a.fnc.getD [], a.scope_type, _, skipSpace (a.what.getD []), _, _, _,
          skipSpace (a.file.getD []), a.fnc_arg_types.getD [], a.arg_types.getD [], ?_⟩, rfl, rfl⟩
        simp only [List.forall_mem_cons, List.not_mem_nil, false_imp_iff, implies_true, and_true]
        exact ⟨fnc_cls, text _ (by simp), sep_notMem_scopeText a,
          sep_notMem_skipSpace (text _ (by simp)), acc, lineno,
          sep_notMem_skipSpace (text _ (by simp)), text _ (by simp), text _ (by simp)⟩
  next =>
    obtain rfl := Option.some.inj written
    exact absurd mem List.not_mem_nil

end SourceNavigator.Db

import Mathlib.Data.List.TakeDrop
import SourceNavigator.Db.FieldSplit
import SourceNavigator.Db.IgnoredWords
import SourceNavigator.Db.LongString
import SourceNavigator.Db.Table

/-!
Methods looked up in the class tree (`search_for_symbol` in `db/dbutils.c`).

If the class tree does not hold the method with its argument list, the records of the member
functions of the class and then those of the class tree are searched for one whose parameter list
is the same without the ignored words, and failing that for any. What is handed back is copied
into the buffers of the caller, through four exits.

`chosen` is the record that is meant, and `handed` what is meant to be handed back of it.
`none` stands for undefined behaviour: a buffer that is too small, and the pointers of
`my_SplitList` and of a split `LongString` that are not set.
-/

namespace SourceNavigator.Db.MethodLookup

open SymbolType FieldSplit

abbrev Row := Text × Text

/-- A record of the table of member functions or of the class tree. -/
inductive Chosen
  | member (row : Row)
  | inherited (row : Row)
  deriving DecidableEq

/-- What the search returns, the record it comes from with it. -/
structure Found where
  record : Chosen
  type : SymbolType
  scope : Text
  ret_type : Text
  arg_types : Text
  deriving DecidableEq

/-! ### Copies -/

def MY_STRNCPY (s : Text) (len : Nat) : Text := s.take (len - 1)

/-- The fields that `my_SplitList` sets, if it sets as many pointers as it has allocated. -/
def splitFields (data : Text) : Option (List Text) :=
  let split := my_SplitList data DB_FLDSEP_CHR
  if split.argv.length = split.num then some split.fields else none

/-- `sscanf(s, "%s", scope)` -/
def sscanf (s : Text) : Option Text :=
  let word := (skipSpace s).takeWhile fun c => !isspace c
  if word.length < 1024 then some word else none

/-- A field of a split `LongString` copied into a buffer by its size, and closed by a NUL. -/
def copyField (field : Text) (size : Int) (buffer : Nat) : Option Text :=
  if 0 ≤ size ∧ size < buffer then some (field.take size.toNat) else none

/-! ### The search -/

/-- The return type and the parameter list of a member function. -/
def memberFields (data : Text) (buffer : Nat) : Option (Text × Text) :=
  (splitFields data).map fun fields =>
    if 4 ≤ fields.length then
      (MY_STRNCPY (fields.getD 2 []) 1024, MY_STRNCPY (fields.getD 3 []) buffer)
    else ([], [])

/-- The loop over the member functions of the class. -/
def findMember (rounded_arg_types : Text) : List Row → Option (Option (Row × Text × Text))
  | [] => some none
  | row :: rows =>
    match memberFields row.2 2048 with
    | none => none
    | some (ret_type, param_args) =>
      if rounded param_args = rounded_arg_types then some (some (row, ret_type, param_args))
      else findMember rounded_arg_types rows

/-- A member function of the class; the scope is scanned from its prefix. -/
def memberFound (cl_nm_p : Text) (row : Row) (ret_type arg_types : Text) : Option Found :=
  (sscanf cl_nm_p).map fun scope =>
    { record := .member row, type := PAF_MBR_FUNC_DEF, scope := scope, ret_type := ret_type,
      arg_types := arg_types }

/-- A method of the class tree with a similar argument list; `sizeof(scope)` is that of a
pointer. -/
def similarFound (row : Row) (arg_types : Text) : Option Found :=
  if arg_types.length < 10000 then
    (splitFields row.2).map fun fields =>
      { record := .inherited row, type := PAF_MBR_FUNC_DEF,
        scope := if 4 ≤ fields.length then MY_STRNCPY (fields.getD 0 []) 8 else [],
        ret_type := if 4 ≤ fields.length then MY_STRNCPY (fields.getD 3 []) 1024 else [],
        arg_types := arg_types }
  else none

/-- The size of the fourth field, which takes the rest and the NUL behind it. -/
def restSize (fields : List Text) : Int := int16 ((joinFields (fields.drop 3)).length + 1)

/-- A record of the class tree that is taken as it is. -/
def treeFound (row : Row) (arg_types : Text) : Option Found :=
  let fields := row.2.splitOn DB_FLDSEP_CHR
  if fields.length < 4 then none
  else do
    let scope ← copyField (fields.getD 0 []) (fieldSize fields 0) 1024
    let sym_type ← copyField (fields.getD 1 []) (fieldSize fields 1) 50
    let _ ← copyField (fields.getD 2 []) (fieldSize fields 2) 80
    let ret_type ← copyField (joinFields (fields.drop 3)) (restSize fields) 1024
    some
      { record := .inherited row,
        type := if sym_type.head? = some 105 then PAF_MBR_VAR_DEF else PAF_MBR_FUNC_DEF,
        scope := scope, ret_type := ret_type, arg_types := arg_types }

/-- The prefix of the records of a method. -/
def methodPrefix (cls name : Text) : Text := joinFields [cls, name, []]

section Search

variable (tree : Table) (db_md : Option Table) (cls name arg_types : Text)

/-- The records of the method in the table of member functions, if that is open. -/
def members : List Row :=
  match db_md with
  | none => []
  | some db_md => db_md.scan (methodPrefix cls name)

/-- The records of the method in the class tree. -/
def inherited : List Row := tree.scan (methodPrefix cls name)

/-- The argument list in the key of a record of the class tree. -/
def keyArguments (row : Row) : Text := row.1.drop (methodPrefix cls name).length

/-- The search in the class tree for a method that the class does not declare. -/
def searchInherited : Option (Option Found) :=
  match (inherited tree cls name).find? fun row =>
      rounded (keyArguments cls name row) = rounded arg_types with
  | some row => (similarFound row (keyArguments cls name row)).map some
  | none =>
    match inherited tree cls name with
    | row :: _ =>
      if (keyArguments cls name row).length < 10000 then
        (treeFound row (keyArguments cls name row)).map some
      else none
    | [] => some none

/-- `search_for_symbol` in the class tree, for a class, a method name and an argument list. -/
def search_for_symbol (exact : Bool) : Option (Option Found) :=
  let key := joinFields [cls, name, arg_types]
  match tree[key]? with
  | some data => (treeFound (key, data) arg_types).map some
  | none =>
    if exact then some none
    else
      match findMember (rounded arg_types) (members db_md cls name) with
      | none => none
      | some (some (row, ret_type, param_args)) =>
        (memberFound (methodPrefix cls name) row ret_type param_args).map some
      | some none =>
        match members db_md cls name with
        | row :: _ => do
            let (ret_type, param_args) ← memberFields row.2 10000
            let found ← memberFound (methodPrefix cls name) row ret_type param_args
            some (some found)
        | [] => searchInherited tree cls name arg_types

/-! ### What is meant -/

/-- Two argument lists are the same without the words `const` and `unsigned`. -/
def sameWords (params : Text) : Bool := decide (keptWords params = keptWords arg_types)

/-- A field without the braces around it. -/
def unbraced (field : Text) : Text :=
  match field with
  | 123 :: rest => if rest.getLast? = some 125 then rest.dropLast else field
  | _ => field

/-- A field of a record of the table of member functions. -/
def memberField (data : Text) (i : Nat) : Text :=
  unbraced ((data.splitOn DB_FLDSEP_CHR).getD i [])

/-- A field of a record of the class tree. -/
def treeField (data : Text) (i : Nat) : Text := (data.splitOn DB_FLDSEP_CHR).getD i []

/-- The record that is meant: of the class before the class tree, and with the same argument list
before any other. -/
def chosen : Option Chosen :=
  let members := members db_md cls name
  let inherited := inherited tree cls name
  (((members.find? fun row => sameWords arg_types (memberField row.2 3)).or members.head?).map
      Chosen.member).or
    (((inherited.find? fun row => sameWords arg_types (keyArguments cls name row)).or
      inherited.head?).map Chosen.inherited)

/-- The scope, the return type and the parameter list of a record. -/
def handed : Chosen → Text × Text × Text
  | .member row => (cls, memberField row.2 2, memberField row.2 3)
  | .inherited row => (treeField row.2 0, treeField row.2 3, keyArguments cls name row)

/-- The search chooses the record that is meant and hands back its complete fields. -/
def LooksUp : Prop :=
  (search_for_symbol tree db_md cls name arg_types false).map
      (·.map fun found => (found.record, found.scope, found.ret_type, found.arg_types)) =
    some ((chosen tree db_md cls name arg_types).map fun record => (record, handed cls name record))

end Search

/-! ### The chosen record -/

section Choice

variable {α : Type} {l : List α} {p q : α → Bool} {a : α}

/-- The first element with one of two properties is the first with each that it has. -/
theorem find?_of_either (first : l.find? (fun a => p a || q a) = some a) (has : p a = true) :
    l.find? p = some a := by
  obtain ⟨-, front, back, rfl, before⟩ := List.find?_eq_some_iff_append.mp first
  refine List.find?_eq_some_iff_append.mpr ⟨has, front, back, rfl, fun b mem => ?_⟩
  have neither := before b mem
  rw [Bool.not_eq_true', Bool.or_eq_false_iff] at neither
  rw [neither.1, Bool.not_false]

/-- Two properties choose the same element, the first one if none has them, exactly if the first
that has one of them has both, or is the first of all and no element has the other. -/
theorem find?_or_head?_eq_iff :
    (l.find? p).or l.head? = (l.find? q).or l.head? ↔
      ∀ a, l.find? (fun a => p a || q a) = some a →
        (p a = true ∧ q a = true) ∨
          (l.head? = some a ∧ (l.find? p = none ∨ l.find? q = none)) := by
  cases first : l.find? (fun a => p a || q a) with
  | none =>
    have neither := List.find?_eq_none.mp first
    have no_p : l.find? p = none :=
      List.find?_eq_none.mpr fun b mem has => neither b mem (by rw [has, Bool.true_or])
    have no_q : l.find? q = none :=
      List.find?_eq_none.mpr fun b mem has => neither b mem (by rw [has, Bool.or_true])
    simp [no_p, no_q]
  | some a =>
    have has := List.find?_some first
    have swapped : l.find? (fun a => q a || p a) = some a := by
      simpa only [Bool.or_comm] using first
    have of_p : p a = true → l.find? p = some a := find?_of_either first
    have of_q : q a = true → l.find? q = some a := find?_of_either swapped
    have not_of_p : p a = false → l.find? p ≠ some a := by
      intro no found
      rw [List.find?_some found] at no
      cases no
    have not_of_q : q a = false → l.find? q ≠ some a := by
      intro no found
      rw [List.find?_some found] at no
      cases no
    simp only [Option.some.injEq, forall_eq']
    cases hp : p a with
    | true =>
      rw [of_p hp, Option.some_or]
      cases hq : q a with
      | true => simp [of_q hq]
      | false =>
        cases found : l.find? q with
        | none => simp [eq_comm]
        | some b =>
          have other : a ≠ b := by
            rintro rfl
            exact not_of_q hq found
          simp [other]
    | false =>
      have hq : q a = true := by simpa [hp] using has
      rw [of_q hq, Option.some_or]
      cases found : l.find? p with
      | none => simp
      | some b =>
        have other : b ≠ a := by
          rintro rfl
          exact not_of_p hp found
        simp [other]

end Choice

/-! ### The scope of a member function -/

section Member

variable {tree : Table} {db_md : Option Table} {cls name arg_types : Text}

theorem methodPrefix_eq : methodPrefix cls name = cls ++ DB_FLDSEP_CHR :: (name ++ [DB_FLDSEP_CHR]) := by
  rw [methodPrefix, joinFields_cons (by simp), joinFields_cons (by simp), joinFields_singleton]

/-- The word scanned from the prefix of a method is not the class. -/
theorem sscanf_ne (scope : Text) (scanned : sscanf (methodPrefix cls name) = some scope) :
    scope ≠ cls := by
  rintro rfl
  simp only [sscanf] at scanned
  split at scanned
  · rw [Option.some.injEq, methodPrefix_eq] at scanned
    have word : ∀ c ∈ scope, (!isspace c) = true := by
      intro c mem
      rw [← scanned] at mem
      exact List.mem_takeWhile_imp (p := fun c => !isspace c) mem
    have no_space : skipSpace (scope ++ DB_FLDSEP_CHR :: (name ++ [DB_FLDSEP_CHR])) =
        scope ++ DB_FLDSEP_CHR :: (name ++ [DB_FLDSEP_CHR]) := by
      cases scope with
      | nil => rfl
      | cons c scope =>
        have head := word c List.mem_cons_self
        rw [Bool.not_eq_true'] at head
        exact List.dropWhile_cons_of_neg (by simp [head])
    rw [no_space, List.takeWhile_append_of_pos word, List.takeWhile_cons_of_pos (by decide)] at scanned
    have longer := congrArg List.length scanned
    rw [List.length_append, List.length_cons] at longer
    omega
  · cases scanned

/-- What a member function of the class is returned with. -/
theorem scope_of_memberFound {row : Row} {ret_type params : Text} {found : Found}
    (returned : memberFound (methodPrefix cls name) row ret_type params = some found) :
    found.scope ≠ cls := by
  rw [memberFound, Option.map_eq_some_iff] at returned
  obtain ⟨scope, scanned, rfl⟩ := returned
  exact sscanf_ne scope scanned

/-- If the class declares the method, what is handed back has another scope. -/
theorem scope_of_declared (absent : tree[joinFields [cls, name, arg_types]]? = none)
    (declared : members db_md cls name ≠ []) {result : Option Found}
    (returned : search_for_symbol tree db_md cls name arg_types false = some result) :
    ∃ found, result = some found ∧ found.scope ≠ cls := by
  obtain ⟨row, rows, records⟩ := List.exists_cons_of_ne_nil declared
  simp only [search_for_symbol, absent, Bool.false_eq_true, if_false] at returned
  split at returned
  · cases returned
  next row' ret_type params _ =>
    obtain ⟨found, member, rfl⟩ := Option.map_eq_some_iff.mp returned
    exact ⟨found, rfl, scope_of_memberFound member⟩
  next =>
    rw [records] at returned
    simp only [Option.bind_eq_bind, Option.bind_eq_some_iff] at returned
    obtain ⟨fields, -, found, member, same⟩ := returned
    exact ⟨found, (Option.some.inj same).symm, scope_of_memberFound member⟩

theorem not_looksUp_of_declared (absent : tree[joinFields [cls, name, arg_types]]? = none)
    (declared : members db_md cls name ≠ []) : ¬ LooksUp tree db_md cls name arg_types := by
  intro looks
  obtain ⟨row, rows, records⟩ := List.exists_cons_of_ne_nil declared
  -- a record of the class is meant
  obtain ⟨row', meant⟩ : ∃ row', chosen tree db_md cls name arg_types = some (.member row') := by
    simp only [chosen, records, List.head?_cons]
    cases (row :: rows).find? fun row => sameWords arg_types (memberField row.2 3) with
    | none => exact ⟨row, rfl⟩
    | some row' => exact ⟨row', rfl⟩
  rw [LooksUp, meant, Option.map_some, Option.map_eq_some_iff] at looks
  obtain ⟨result, returned, same⟩ := looks
  obtain ⟨found, rfl, scope⟩ := scope_of_declared absent declared returned
  rw [Option.map_some, Option.some.injEq, Prod.mk.injEq] at same
  exact scope (Prod.mk.inj same.2).1

end Member

/-! ### The records of the class tree -/

/-- When a similar record of the class tree is handed back whole: its argument list fits the
buffer of the caller, and of the fields that are read the scope has seven bytes at most. -/
def SimilarFits (row : Row) (arg_types : Text) : Prop :=
  arg_types.length < 10000 ∧ ∃ fields, splitFields row.2 = some fields ∧
    if 4 ≤ fields.length then
      (fields.getD 0 []).take 7 = treeField row.2 0 ∧ (fields.getD 3 []).take 1023 = treeField row.2 3
    else treeField row.2 0 = [] ∧ treeField row.2 3 = []

/-- When the first record of the class tree is handed back whole: it has four fields, and each of
them fits its buffer. -/
def FirstFits (row : Row) (arg_types : Text) : Prop :=
  let fields := row.2.splitOn DB_FLDSEP_CHR
  arg_types.length < 10000 ∧ 4 ≤ fields.length ∧ (fields.getD 0 []).length < 1024 ∧
    (0 ≤ fieldSize fields 1 ∧ fieldSize fields 1 < 50) ∧
    (0 ≤ fieldSize fields 2 ∧ fieldSize fields 2 < 80) ∧
    (0 ≤ restSize fields ∧ restSize fields < 1024) ∧
    (fields.length = 4 ∧ (fields.getD 3 []).length ≤ restSize fields ∨
      restSize fields = (fields.getD 3 []).length)

section Inherited

variable {tree : Table} {arg_types : Text} {row : Row}

/-- What of a record is handed back, the record with it. -/
def handedBack (found : Found) : Chosen × Text × Text × Text :=
  (found.record, found.scope, found.ret_type, found.arg_types)

/-- A record of the class tree with its complete fields. -/
def whole (row : Row) (arg_types : Text) : Chosen × Text × Text × Text :=
  (.inherited row, treeField row.2 0, treeField row.2 3, arg_types)

theorem similarFound_iff :
    (similarFound row arg_types).map handedBack = some (whole row arg_types) ↔
      SimilarFits row arg_types := by
  unfold similarFound SimilarFits
  by_cases short : arg_types.length < 10000
  · rw [if_pos short]
    cases split : splitFields row.2 with
    | none => simp
    | some fields =>
      simp only [Option.map_some, Option.some.injEq, handedBack, whole, MY_STRNCPY, Prod.mk.injEq,
        true_and, and_true, short, exists_eq_left', Nat.reduceSub]
      split
      · rfl
      · rw [eq_comm, @eq_comm _ (treeField row.2 3)]
  · rw [if_neg short]
    simp only [Option.map_none, reduceCtorEq, short, false_and]

/-- A field is copied whole exactly if it is shorter than its buffer. -/
theorem copyField_iff {field : Text} {buffer : Nat} (small : buffer ≤ 1024) :
    copyField field (int16 field.length) buffer = some field ↔ field.length < buffer := by
  unfold copyField
  constructor
  · intro copies
    split at copies
    next fits =>
      have length := congrArg List.length (Option.some.inj copies)
      rw [List.length_take] at length
      omega
    next => cases copies
  · intro short
    rw [int16_of_lt (by omega), if_pos (by omega), Int.toNat_natCast, List.take_length]

theorem copyField_isSome {field : Text} {size : Int} {buffer : Nat} :
    (copyField field size buffer).isSome ↔ 0 ≤ size ∧ size < buffer := by
  unfold copyField
  split
  next fits => simp [fits]
  next spills => simp [spills]

/-- The rest is copied as the fourth field exactly if that is the rest, or if its size says so. -/
theorem copyRest_iff {fields : List Text} (four : 4 ≤ fields.length) :
    copyField (joinFields (fields.drop 3)) (restSize fields) 1024 = some (fields.getD 3 []) ↔
      (0 ≤ restSize fields ∧ restSize fields < 1024) ∧
        (fields.length = 4 ∧ (fields.getD 3 []).length ≤ restSize fields ∨
          restSize fields = (fields.getD 3 []).length) := by
  obtain ⟨field, back, rest⟩ : ∃ field back, fields.drop 3 = field :: back := by
    apply List.exists_cons_of_ne_nil
    apply List.ne_nil_of_length_pos
    rw [List.length_drop]
    omega
  have third : fields.getD 3 [] = field := by
    rw [List.getD_eq_getElem?_getD, ← List.head?_drop, rest]
    rfl
  have count : fields.length = 4 ↔ back = [] := by
    have lengths := congrArg List.length rest
    rw [List.length_drop, List.length_cons] at lengths
    rw [← List.length_eq_zero_iff]
    omega
  rw [third, rest, count, copyField]
  by_cases fits : 0 ≤ restSize fields ∧ restSize fields < (1024 : Nat)
  · rw [if_pos fits, Option.some.injEq]
    have known : 0 ≤ restSize fields ∧ restSize fields < 1024 := fits
    simp only [known, true_and]
    by_cases last : back = []
    · rw [last, joinFields_singleton, List.take_eq_self_iff]
      simp only [true_and]
      omega
    · rw [joinFields_cons last]
      simp only [last, false_and, false_or]
      constructor
      · intro copied
        have length := congrArg List.length copied
        rw [List.length_take, List.length_append, List.length_cons] at length
        omega
      · intro size
        rw [size, Int.toNat_natCast, List.take_left]
  · rw [if_neg fits]
    have unknown : ¬ (0 ≤ restSize fields ∧ restSize fields < 1024) := fits
    simp only [reduceCtorEq, unknown, false_and]

theorem treeFound_iff :
    (if arg_types.length < 10000 then treeFound row arg_types else none).map handedBack =
        some (whole row arg_types) ↔ FirstFits row arg_types := by
  unfold FirstFits
  dsimp only
  by_cases short : arg_types.length < 10000
  · rw [if_pos short]
    simp only [short, true_and]
    unfold treeFound
    dsimp only
    by_cases four : (row.2.splitOn DB_FLDSEP_CHR).length < 4
    · rw [if_pos four]
      simp only [Option.map_none, reduceCtorEq, false_iff]
      omega
    · rw [if_neg four]
      have enough := Nat.le_of_not_lt four
      simp only [enough, true_and]
      have scope_iff : copyField (treeField row.2 0) (fieldSize (row.2.splitOn DB_FLDSEP_CHR) 0) 1024 =
          some (treeField row.2 0) ↔ (treeField row.2 0).length < 1024 := copyField_iff (by decide)
      have type_iff : (copyField (treeField row.2 1) (fieldSize (row.2.splitOn DB_FLDSEP_CHR) 1)
          50).isSome ↔ 0 ≤ fieldSize (row.2.splitOn DB_FLDSEP_CHR) 1 ∧
            fieldSize (row.2.splitOn DB_FLDSEP_CHR) 1 < 50 := copyField_isSome
      have access_iff : (copyField (treeField row.2 2) (fieldSize (row.2.splitOn DB_FLDSEP_CHR) 2)
          80).isSome ↔ 0 ≤ fieldSize (row.2.splitOn DB_FLDSEP_CHR) 2 ∧
            fieldSize (row.2.splitOn DB_FLDSEP_CHR) 2 < 80 := copyField_isSome
      have ret_iff := copyRest_iff enough
      rw [← ret_iff, ← type_iff, ← access_iff]
      unfold treeField at scope_iff ⊢
      rw [← scope_iff]
      generalize copyField _ (fieldSize (row.2.splitOn DB_FLDSEP_CHR) 0) 1024 = scope
      generalize copyField _ (fieldSize (row.2.splitOn DB_FLDSEP_CHR) 1) 50 = sym_type
      generalize copyField _ (fieldSize (row.2.splitOn DB_FLDSEP_CHR) 2) 80 = in_access_val
      generalize copyField _ (restSize (row.2.splitOn DB_FLDSEP_CHR)) 1024 = ret_type
      cases scope with
      | none => simp
      | some scope =>
        cases sym_type with
        | none => simp
        | some sym_type =>
          cases in_access_val with
          | none => simp
          | some in_access_val =>
            cases ret_type with
            | none => simp
            | some ret_type => simp [handedBack, whole, treeField]
  · rw [if_neg short]
    simp only [Option.map_none, reduceCtorEq, short, false_and]

end Inherited

/-! ### The search -/

/-- The filter and the ignored words choose the same record of the class tree. -/
def SameChoice (inherited : List Row) (same_words similar : Row → Bool) : Prop :=
  ∀ row, inherited.find? (fun row => similar row || same_words row) = some row →
    (similar row = true ∧ same_words row = true) ∨
      (inherited.head? = some row ∧
        (inherited.find? similar = none ∨ inherited.find? same_words = none))

/-- The class declares no such method, the filter chooses the record that is meant, and what is
handed back of it fits the buffers. -/
structure Inherits (tree : Table) (db_md : Option Table) (cls name arg_types : Text) : Prop where
  undeclared : members db_md cls name = []
  choice : SameChoice (inherited tree cls name)
    (fun row => sameWords arg_types (keyArguments cls name row))
    (fun row => rounded (keyArguments cls name row) = rounded arg_types)
  similar : ∀ row, (inherited tree cls name).find?
      (fun row => rounded (keyArguments cls name row) = rounded arg_types) = some row →
    SimilarFits row (keyArguments cls name row)
  first : (inherited tree cls name).find?
      (fun row => rounded (keyArguments cls name row) = rounded arg_types) = none →
    ∀ row, (inherited tree cls name).head? = some row → FirstFits row (keyArguments cls name row)

section Search

variable {tree : Table} {db_md : Option Table} {cls name arg_types : Text}

/-- What is handed back comes from the record that the search has stopped at. -/
theorem record_of_similarFound {row : Row} {params : Text} {found : Found}
    (returned : similarFound row params = some found) : found.record = .inherited row := by
  unfold similarFound at returned
  split at returned
  · obtain ⟨fields, -, rfl⟩ := Option.map_eq_some_iff.mp returned
    rfl
  · cases returned

theorem record_of_treeFound {row : Row} {params : Text} {found : Found}
    (returned : treeFound row params = some found) : found.record = .inherited row := by
  unfold treeFound at returned
  dsimp only at returned
  split at returned
  · cases returned
  · simp only [Option.bind_eq_bind, Option.bind_eq_some_iff, Option.some.injEq] at returned
    obtain ⟨scope, -, sym_type, -, in_access_val, -, ret_type, -, rfl⟩ := returned
    rfl

/-- A result that comes from one record is the one that is meant exactly if that record is and
its fields are. -/
theorem handedBack_iff {result : Option Found} {row : Row} {meant : Option Row}
    (of_row : ∀ found, result = some found → found.record = .inherited row) (fields : Row → Text) :
    (result.map some).map (·.map handedBack) =
        some (meant.map fun row => whole row (fields row)) ↔
      some row = meant ∧ result.map handedBack = some (whole row (fields row)) := by
  cases result with
  | none => simp
  | some found =>
    have record := of_row found rfl
    cases meant with
    | none => simp
    | some row' =>
      simp only [Option.map_some, Option.some.injEq]
      constructor
      · intro same
        have rows : row = row' := by
          have first := congrArg Prod.fst same
          rw [handedBack, record] at first
          exact Chosen.inherited.inj first
        rw [rows]
        exact ⟨rfl, same⟩
      · rintro ⟨rfl, same⟩
        exact same

end Search

end SourceNavigator.Db.MethodLookup

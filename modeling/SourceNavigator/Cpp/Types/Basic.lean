import SourceNavigator.Cpp.Types.FromString
import SourceNavigator.Symbols
import Mathlib.Data.Nat.Find
import Mathlib.Tactic.ByContra

/-!
The resolution of typedefs (`f_TypeBasic` in `cpp/cpplib/cp_declaration.c`).

The name of a type is looked up and the text that is found is read as a type,
which takes over the operators of the declarator, until a name is not found. So
as not to go round in circles, the last three names are kept in a ring and the
loop is left at one of them.

The types that are gone through are the elements of a chain, which the table
alone determines. The loop ends when the chain does, or when it enters a cycle
of at most three names; a longer cycle is gone round for ever.
-/

namespace SourceNavigator.Cpp.Types

open Lib

/-- What the database says about a name. -/
abbrev PAF_REF_TO_TYPEDEF : SymbolType := .PAF_TYPE_DEF

/-! ### The loop -/

def f_NameFromType (type : Type_t) : Option Text :=
  match type.specifiers.Name with
  | some Name => some Name
  | none =>
    match type.specifiers.Class with
    | some Class => Class
    | none => type.specifiers.Enum.join

/-- The type that was read takes over the declarator of the type before it. -/
def takeOver (TypeTempo TypeBasic : Type_t) : Type_t :=
  match TypeTempo.Declarator, TypeBasic.Declarator with
  | none, Declarator => { TypeTempo with Declarator := Declarator }
  | some _, none => TypeTempo
  | some (.mk _ ListOper), some (.mk Name ListOper') =>
    { TypeTempo with Declarator := some (.mk Name (ListOper' ++ ListOper)) }

/-- The variables of the loop, and the names that are reported with `Put_cross_ref`. -/
structure Resolution where
  TypeBasic : Type_t
  name_prev : List (Option Text) := [none, none, none]
  j : Nat := 0
  reported : List (SymbolType × Text) := []

/-- A round of the loop, which goes on or ends; a text that is read for ever has no result. -/
def resolve (Get_class_or_typedef : Text → Option (SymbolType × Text)) (s : Resolution) :
    Option (Resolution ⊕ Resolution) :=
  match f_NameFromType s.TypeBasic with
  | none => some (.inr s)
  | some name =>
    if some name ∈ s.name_prev then some (.inr s)
    else
      match Get_class_or_typedef name with
      | none => some (.inr s)
      | some (paf_type, acType) =>
        let s := { s with reported := s.reported ++ [(paf_type, name)] }
        match f_TypeFromString acType with
        | .done (some TypeTempo) _ =>
          let j := if 3 ≤ s.j then 0 else s.j
          let s := { s with TypeBasic := takeOver TypeTempo s.TypeBasic,
                            name_prev := s.name_prev.set j (some name), j := j + 1 }
          if paf_type ≠ PAF_REF_TO_TYPEDEF then some (.inr s) else some (.inl s)
        | .done none _ => some (.inr s)
        | _ => none

/-- The loop, with at most `n` rounds. -/
def f_TypeBasic (Get_class_or_typedef : Text → Option (SymbolType × Text)) : Nat → Resolution → Option Resolution
  | 0, _ => none
  | n + 1, s =>
    match resolve Get_class_or_typedef s with
    | none => none
    | some (.inr s) => some s
    | some (.inl s) => f_TypeBasic Get_class_or_typedef n s

/-- A table in which there are only typedefs. -/
def typedefs (table : Text → Option Text) (name : Text) : Option (SymbolType × Text) :=
  (table name).map fun acType => (PAF_REF_TO_TYPEDEF, acType)

/-! ### The chain -/

section Chain

variable (table : Text → Option Text)

/-- The type that the name of a type stands for. -/
def definition (type : Type_t) : Option Type_t :=
  match (f_NameFromType type).bind table with
  | none => none
  | some acType =>
    match f_TypeFromString acType with
    | .done type _ => type
    | _ => none

/-- The chain of the types that begins with `type`. -/
def element (type : Type_t) : Nat → Option Type_t
  | 0 => some type
  | i + 1 => (element type i).bind (definition table)

/-- The name of the `i`-th element. -/
def nameAt (type : Type_t) (i : Nat) : Option Text := (element table type i).bind f_NameFromType

/-- The chain comes to an end: the name of the last element, if it has one, is not in the table or
stands for a text that is read to its end and is no type. -/
def Last (last : Type_t) : Prop :=
  ∀ acType, (f_NameFromType last).bind table = some acType → ∃ s, f_TypeFromString acType = .done none s

/-- The names come round again after at most three elements. -/
def ShortCycle (type : Type_t) : Prop :=
  ∃ i d name, 0 < d ∧ d ≤ 3 ∧ nameAt table type i = some name ∧ nameAt table type (i + d) = some name

/-- The chain comes to an end or enters a cycle of at most three names. -/
def Resolvable (type : Type_t) : Prop :=
  (∃ i last, element table type i = some last ∧ Last table last) ∨ ShortCycle table type

/-- The names up to the `e`-th element are different. -/
def Distinct (type : Type_t) (e : Nat) : Prop :=
  ∀ j k, j < k → k ≤ e → ∀ name, nameAt table type j = some name → nameAt table type k ≠ some name

def operators (type : Type_t) : List Oper := (type.Declarator.map Declarator.ListOper).getD []

/-- The operators of the elements up to the `e`-th, in their order. -/
def operatorsUpTo (type : Type_t) (e : Nat) : List Oper :=
  (List.range (e + 1)).flatMap fun i => ((element table type i).map operators).getD []

variable {table} {type : Type_t}

theorem element_of_le {e i : Nat} {last : Type_t} (reaches : element table type e = some last) (le : i ≤ e) :
    ∃ t, element table type i = some t := by
  induction e generalizing last with
  | zero =>
    obtain rfl := Nat.le_zero.mp le
    exact ⟨last, reaches⟩
  | succ e ih =>
    cases Nat.le_or_eq_of_le_succ le with
    | inl le =>
      obtain ⟨t, before, -⟩ := Option.bind_eq_some_iff.mp reaches
      exact ih before le
    | inr same => exact ⟨last, same ▸ reaches⟩

/-- No element follows the last one. -/
theorem definition_last {last : Type_t} (ends : Last table last) : definition table last = none := by
  unfold definition
  cases named : (f_NameFromType last).bind table with
  | none => rfl
  | some acType =>
    obtain ⟨s, read⟩ := ends acType named
    dsimp only
    rw [read]

theorem last_unique {e e' : Nat} {last last' : Type_t} (reaches : element table type e = some last)
    (ends : Last table last) (reaches' : element table type e' = some last') : e' ≤ e := by
  by_contra later
  obtain ⟨t, next⟩ := element_of_le reaches' (Nat.lt_of_not_le later)
  rw [element, reaches, Option.bind_some, definition_last ends] at next
  cases next

/-! ### The rounds -/

theorem f_NameFromType_congr {t t' : Type_t} (same : t.specifiers = t'.specifiers) :
    f_NameFromType t = f_NameFromType t' := by
  unfold f_NameFromType
  rw [same]

@[simp] theorem takeOver_specifiers (TypeTempo TypeBasic : Type_t) :
    (takeOver TypeTempo TypeBasic).specifiers = TypeTempo.specifiers := by
  unfold takeOver
  split
  · rfl
  · rfl
  · rfl

/-- The operators of the type before stand in front. -/
theorem takeOver_operators (TypeTempo TypeBasic : Type_t) :
    operators (takeOver TypeTempo TypeBasic) = operators TypeBasic ++ operators TypeTempo := by
  obtain ⟨specifiers, declarator⟩ := TypeTempo
  obtain ⟨specifiers', declarator'⟩ := TypeBasic
  cases declarator with
  | none => simp [takeOver, operators]
  | some d =>
    cases declarator' with
    | none => simp [takeOver, operators]
    | some d' =>
      cases d
      cases d'
      rfl

theorem operatorsUpTo_succ {i : Nat} {t : Type_t} (reaches : element table type (i + 1) = some t) :
    operatorsUpTo table type (i + 1) = operatorsUpTo table type i ++ operators t := by
  unfold operatorsUpTo
  rw [List.range_succ, List.flatMap_append, List.flatMap_singleton, reaches]
  rfl

/-- The variables in front of the `i`-th round. -/
structure Reached (table : Text → Option Text) (type : Type_t) (i : Nat) (s : Resolution) : Prop where
  current : ∃ t, element table type i = some t ∧ t.specifiers = s.TypeBasic.specifiers
  operators_eq : operators s.TypeBasic = operatorsUpTo table type i
  position : s.j ≤ 3 ∧ s.j % 3 = i % 3
  length_eq : s.name_prev.length = 3
  visited : ∀ k, k < i → i ≤ k + 3 → s.name_prev[k % 3]? = some (nameAt table type k)
  unvisited : ∀ m, i ≤ m → m < 3 → s.name_prev[m]? = some none

/-- The name of the `i`-th element is the one of one of the three elements before it. -/
def Recent (table : Text → Option Text) (type : Type_t) (i : Nat) : Prop :=
  ∃ d name, 0 < d ∧ d ≤ 3 ∧ d ≤ i ∧ nameAt table type (i - d) = some name ∧ nameAt table type i = some name

theorem reached_start (type : Type_t) : Reached table type 0 { TypeBasic := type } where
  current := ⟨type, rfl, rfl⟩
  operators_eq := by simp [operatorsUpTo, element]
  position := ⟨Nat.zero_le 3, rfl⟩
  length_eq := rfl
  visited k before := absurd before (Nat.not_lt_zero k)
  unvisited m _ lt := by
    match m with
    | 0 => rfl
    | 1 => rfl
    | 2 => rfl
    | m + 3 => omega

section Round

variable {i : Nat} {s : Resolution}

theorem Reached.nameAt_eq (reached : Reached table type i s) :
    nameAt table type i = f_NameFromType s.TypeBasic := by
  obtain ⟨t, reaches, same⟩ := reached.current
  rw [nameAt, reaches, Option.bind_some, f_NameFromType_congr same]

/-- The ring holds the names of the last three elements. -/
theorem Reached.mem_ring (reached : Reached table type i s) {name : Text} :
    some name ∈ s.name_prev ↔ ∃ d, 0 < d ∧ d ≤ 3 ∧ d ≤ i ∧ nameAt table type (i - d) = some name := by
  rw [List.mem_iff_getElem?]
  constructor
  · rintro ⟨m, found⟩
    have inside : m < 3 := by
      rw [← reached.length_eq]
      exact (List.getElem?_eq_some_iff.mp found).1
    have before : m < i := by
      by_contra out
      rw [reached.unvisited m (Nat.le_of_not_lt out) inside] at found
      cases found
    refine ⟨(i - 1 - m) % 3 + 1, by omega, by omega, by omega, ?_⟩
    have visited := reached.visited (i - ((i - 1 - m) % 3 + 1)) (by omega) (by omega)
    rw [show (i - ((i - 1 - m) % 3 + 1)) % 3 = m by omega, found] at visited
    exact (Option.some.inj visited).symm
  · rintro ⟨d, pos, le, inside, named⟩
    exact ⟨(i - d) % 3, by rw [reached.visited (i - d) (by omega) (by omega), named]⟩

theorem Reached.recent_iff (reached : Reached table type i s) {name : Text}
    (named : f_NameFromType s.TypeBasic = some name) :
    some name ∈ s.name_prev ↔ Recent table type i := by
  rw [reached.mem_ring]
  constructor
  · rintro ⟨d, pos, le, inside, same⟩
    exact ⟨d, name, pos, le, inside, same, reached.nameAt_eq.trans named⟩
  · rintro ⟨d, name', pos, le, inside, same, this⟩
    rw [reached.nameAt_eq, named] at this
    exact ⟨d, pos, le, inside, same.trans this.symm⟩

/-- What is stored at the end of a round. -/
theorem Reached.next (reached : Reached table type i s) {TypeTempo : Type_t} {name : Text}
    (named : f_NameFromType s.TypeBasic = some name)
    (reaches : element table type (i + 1) = some TypeTempo) (reported : List (SymbolType × Text)) :
    Reached table type (i + 1)
      { TypeBasic := takeOver TypeTempo s.TypeBasic,
        name_prev := s.name_prev.set (if 3 ≤ s.j then 0 else s.j) (some name),
        j := (if 3 ≤ s.j then 0 else s.j) + 1,
        reported := reported } := by
  obtain ⟨le, same⟩ := reached.position
  have place : (if 3 ≤ s.j then 0 else s.j) = i % 3 := by
    split
    · omega
    · omega
  rw [place]
  have inside : i % 3 < s.name_prev.length := by
    rw [reached.length_eq]
    exact Nat.mod_lt i (by decide)
  constructor
  · exact ⟨TypeTempo, reaches, (takeOver_specifiers TypeTempo s.TypeBasic).symm⟩
  · rw [takeOver_operators, reached.operators_eq, operatorsUpTo_succ reaches]
  · dsimp only
    omega
  · rw [List.length_set, reached.length_eq]
  · intro k before recent
    dsimp only
    rw [List.getElem?_set]
    cases Nat.lt_or_eq_of_le (Nat.le_of_lt_succ before) with
    | inl before =>
      rw [if_neg (by omega)]
      exact reached.visited k before (by omega)
    | inr last =>
      rw [last, if_pos rfl, if_pos inside, reached.nameAt_eq, named]
  · intro m after lt
    dsimp only
    rw [List.getElem?_set, if_neg (by omega)]
    exact reached.unvisited m (by omega) lt

/-- A round ends the loop at the last element and at a name that has come round again. -/
theorem Reached.resolve_cases (reached : Reached table type i s) :
    (∃ s', resolve (typedefs table) s = some (.inr s') ∧ Reached table type i s' ∧
      ((∃ last, element table type i = some last ∧ Last table last) ∨ Recent table type i)) ∨
    (∃ s', resolve (typedefs table) s = some (.inl s') ∧ Reached table type (i + 1) s' ∧
      ¬ Recent table type i) ∨
    (resolve (typedefs table) s = none ∧ element table type (i + 1) = none ∧ ¬ Recent table type i ∧
      ∀ last, element table type i = some last → ¬ Last table last) := by
  obtain ⟨t, reaches, same⟩ := reached.current
  have names := f_NameFromType_congr same
  cases named : f_NameFromType s.TypeBasic with
  | none =>
    refine .inl ⟨s, by simp only [resolve, named], reached, .inl ⟨t, reaches, ?_⟩⟩
    intro acType found
    rw [names, named] at found
    cases found
  | some name =>
    have recent := reached.recent_iff named
    by_cases visited : some name ∈ s.name_prev
    · exact .inl ⟨s, by simp only [resolve, named, if_pos visited], reached, .inr (recent.mp visited)⟩
    · have notRecent := mt recent.mpr visited
      cases found : table name with
      | none =>
        refine .inl ⟨s, by simp [resolve, named, visited, typedefs, found], reached,
          .inl ⟨t, reaches, ?_⟩⟩
        intro acType found'
        rw [names, named, Option.bind_some, found] at found'
        cases found'
      | some acType =>
        have next : element table type (i + 1) = match f_TypeFromString acType with
            | .done type _ => type
            | _ => none := by
          rw [element, reaches, Option.bind_some, definition, names, named, Option.bind_some, found]
        have notLast (no : ∀ s', f_TypeFromString acType ≠ .done none s') (last : Type_t)
            (reaches' : element table type i = some last) : ¬ Last table last := by
          intro ends
          obtain rfl := Option.some.inj (reaches.symm.trans reaches')
          obtain ⟨s', read⟩ := ends acType (by rw [names, named, Option.bind_some, found])
          exact no s' read
        cases read : f_TypeFromString acType with
        | endless s' =>
          refine .inr (.inr ⟨by simp [resolve, named, visited, typedefs, found, read],
            by rw [next, read], notRecent, notLast ?_⟩)
          intro s'' read'
          cases read.symm.trans read'
        | unfinished =>
          refine .inr (.inr ⟨by simp [resolve, named, visited, typedefs, found, read],
            by rw [next, read], notRecent, notLast ?_⟩)
          intro s'' read'
          cases read.symm.trans read'
        | done TypeTempo s' =>
          rw [read] at next
          cases TypeTempo with
          | none =>
            refine .inl ⟨{ s with reported := s.reported ++ [(PAF_REF_TO_TYPEDEF, name)] },
              by simp [resolve, named, visited, typedefs, found, read], { reached with },
              .inl ⟨t, reaches, ?_⟩⟩
            intro acType' found'
            rw [names, named, Option.bind_some, found] at found'
            cases found'
            exact ⟨s', read⟩
          | some TypeTempo =>
            have reached' := reached.next named next (s.reported ++ [(PAF_REF_TO_TYPEDEF, name)])
            refine .inr (.inl ⟨_, ?_, reached', notRecent⟩)
            simp [resolve, named, visited, typedefs, found, read]

/-- An element at which the loop ends. -/
def Ending (table : Text → Option Text) (type : Type_t) (i : Nat) : Prop :=
  (∃ last, element table type i = some last ∧ Last table last) ∨ Recent table type i

theorem Reached.ends (reached : Reached table type i s) (ending : Ending table type i) :
    ∃ s', resolve (typedefs table) s = some (.inr s') ∧ Reached table type i s' := by
  rcases reached.resolve_cases with ⟨s', run, last, -⟩ | ⟨s', -, next, notRecent⟩ | ⟨-, -, notRecent, notLast⟩
  · exact ⟨s', run, last⟩
  · obtain ⟨t, reaches, -⟩ := next.current
    rcases ending with ⟨last, reaches', ends⟩ | recent
    · exact absurd (last_unique reaches' ends reaches) (Nat.not_succ_le_self i)
    · exact absurd recent notRecent
  · rcases ending with ⟨last, reaches', ends⟩ | recent
    · exact absurd ends (notLast last reaches')
    · exact absurd recent notRecent

theorem Reached.goes_on (reached : Reached table type i s) {t : Type_t}
    (reaches : element table type (i + 1) = some t) (notRecent : ¬ Recent table type i) :
    ∃ s', resolve (typedefs table) s = some (.inl s') ∧ Reached table type (i + 1) s' := by
  rcases reached.resolve_cases with ⟨s', -, -, ⟨last, reaches', ends⟩ | recent⟩ | ⟨s', run, next, -⟩ | ⟨-, none, -⟩
  · exact absurd (last_unique reaches' ends reaches) (Nat.not_succ_le_self i)
  · exact absurd recent notRecent
  · exact ⟨s', run, next⟩
  · cases reaches.symm.trans none

/-! ### The whole loop -/

/-- The loop goes on up to the first element at which it ends. -/
theorem f_TypeBasic_of_ending {e k : Nat} (reached : Reached table type i s) (ahead : i + k = e)
    {t : Type_t} (reaches : element table type e = some t) (ending : Ending table type e)
    (first : ∀ j, j < e → ¬ Recent table type j) :
    ∃ n s', f_TypeBasic (typedefs table) n s = some s' ∧ Reached table type e s' := by
  induction k generalizing i s with
  | zero =>
    obtain rfl := ahead
    obtain ⟨s', run, last⟩ := reached.ends ending
    exact ⟨1, s', by rw [f_TypeBasic, run], last⟩
  | succ k ih =>
    obtain ⟨t', next⟩ := element_of_le reaches (show i + 1 ≤ e by omega)
    obtain ⟨s', run, reached'⟩ := reached.goes_on next (first i (by omega))
    obtain ⟨n, s'', more, last⟩ := ih reached' (by omega)
    exact ⟨n + 1, s'', by rw [f_TypeBasic, run]; exact more, last⟩

/-- A loop that ends does so at such an element. -/
theorem ending_of_f_TypeBasic {n : Nat} (reached : Reached table type i s) {s' : Resolution}
    (run : f_TypeBasic (typedefs table) n s = some s') : ∃ e, Ending table type e := by
  induction n generalizing i s with
  | zero => cases run
  | succ n ih =>
    rcases reached.resolve_cases with ⟨s'', -, -, ending⟩ | ⟨s'', next, reached', -⟩ | ⟨none, -⟩
    · exact ⟨i, ending⟩
    · rw [f_TypeBasic, next] at run
      exact ih reached' run
    · rw [f_TypeBasic, none] at run
      cases run

end Round

theorem resolvable_iff : Resolvable table type ↔ ∃ e, Ending table type e := by
  constructor
  · rintro (⟨i, last, reaches, ends⟩ | ⟨i, d, name, pos, le, first, again⟩)
    · exact ⟨i, .inl ⟨last, reaches, ends⟩⟩
    · exact ⟨i + d, .inr ⟨d, name, pos, le, by omega, by rw [Nat.add_sub_cancel]; exact first, again⟩⟩
  · rintro ⟨e, ⟨last, reaches, ends⟩ | ⟨d, name, pos, le, inside, first, again⟩⟩
    · exact .inl ⟨e, last, reaches, ends⟩
    · exact .inr ⟨e - d, d, name, pos, le, first, by rw [Nat.sub_add_cancel inside]; exact again⟩

theorem f_TypeBasic_ends (resolvable : Resolvable table type) :
    ∃ n s', f_TypeBasic (typedefs table) n { TypeBasic := type } = some s' := by
  classical
  have some := resolvable_iff.mp resolvable
  have ending := Nat.find_spec some
  obtain ⟨t, reaches⟩ : ∃ t, element table type (Nat.find some) = .some t := by
    rcases ending with ⟨last, reaches, -⟩ | ⟨d, name, -, -, -, -, named⟩
    · exact ⟨last, reaches⟩
    · obtain ⟨t, reaches, -⟩ := Option.bind_eq_some_iff.mp named
      exact ⟨t, reaches⟩
  obtain ⟨n, s', run, -⟩ := f_TypeBasic_of_ending (reached_start type) (Nat.zero_add _) reaches ending
    fun j before recent => Nat.find_min some before (.inr recent)
  exact ⟨n, s', run⟩

/-- A chain without a repeated name is gone through up to its last element. -/
theorem f_TypeBasic_of_distinct {e : Nat} {last : Type_t} (reaches : element table type e = some last)
    (ends : Last table last) (distinct : Distinct table type e) :
    ∃ n s', f_TypeBasic (typedefs table) n { TypeBasic := type } = some s' ∧ Reached table type e s' := by
  refine f_TypeBasic_of_ending (reached_start type) (Nat.zero_add e) reaches (.inl ⟨last, reaches, ends⟩) ?_
  rintro j before ⟨d, name, pos, le, inside, first, again⟩
  exact distinct (j - d) j (by omega) (Nat.le_of_lt before) name first again

/-- The loop ends, and at the end of a chain without a repeated name it has the specifiers of the last
element and the operators of all of them. -/
def Resolves (table : Text → Option Text) (type : Type_t) : Prop :=
  ∃ n s', f_TypeBasic (typedefs table) n { TypeBasic := type } = some s' ∧
    ∀ e last, element table type e = some last → Last table last → Distinct table type e →
      s'.TypeBasic.specifiers = last.specifiers ∧
        operators s'.TypeBasic = operatorsUpTo table type e

end Chain

/-! ### A long cycle -/

/-- The type with a name. -/
def named (Name : Text) : Type_t := { specifiers := { Name := some Name } }

/-- `typedef b a; typedef c b; typedef d c; typedef a d;` -/
def circular (name : Text) : Option Text :=
  [(ascii "a", ascii "b"), (ascii "b", ascii "c"), (ascii "c", ascii "d"), (ascii "d", ascii "a")].lookup name

/-- The names of the four types. -/
def letter (i : Nat) : Text := [UInt8.ofNat (97 + i % 4)]

theorem circular_element (i : Nat) : element circular (named (ascii "a")) i = some (named (letter i)) := by
  induction i with
  | zero => rfl
  | succ i ih =>
    have next : ∀ k, k < 4 → definition circular (named [UInt8.ofNat (97 + k)]) =
        some (named [UInt8.ofNat (97 + (k + 1) % 4)])
      | 0, _ => rfl
      | 1, _ => rfl
      | 2, _ => rfl
      | 3, _ => rfl
    rw [element, ih, Option.bind_some, letter, next (i % 4) (Nat.mod_lt i (by decide)), letter]
    rw [Nat.mod_add_mod]

end SourceNavigator.Cpp.Types

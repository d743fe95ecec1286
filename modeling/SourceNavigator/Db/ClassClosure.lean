import Mathlib.Data.List.TakeWhile
import Mathlib.Logic.Relation
import SourceNavigator.Db.ClassTree

/-!
The members that a class shows, and the class tree.

`Shown` reads the tables as the parsers write them: the records of a class start
with its name and a field separator. A class shows the members it declares and
the members of its base classes that are not private, with the access that is
left on the way. `load_class_closure` says when the class tree lists them.
-/

namespace SourceNavigator.Db

open SymbolType

/-- A member, as it is declared or as a class below inherits it. -/
structure Member where
  class_name : Text
  type : SymbolType
  name : Text
  params : Text
  access : Nat
  mbr_type : Text
  deriving DecidableEq

namespace Member

def Private (m : Member) : Prop := m.access &&& INH_AC_TYPE = PAF_PRIVATE

instance (m : Member) : Decidable m.Private := inferInstanceAs (Decidable (_ = _))

/-- The member in a class that inherits with an access: not more open than either. -/
def restrict (m : Member) (access : Nat) : Member :=
  if m.Private ∨ access &&& INH_AC_TYPE = PAF_PRIVATE then { m with access := PAF_PRIVATE }
  else if access &&& INH_AC_TYPE = PAF_PROTECTED then { m with access := PAF_PROTECTED }
  else m

/-- The key and the data of a member in the class tree, as `load_class_members` has them. -/
def listing (class_name : Text) (m : Member) : Text × Text :=
  (joinFields [class_name, m.name, m.params],
    joinFields [m.class_name, m.type.SN_GetSymbolType, ascii "0x" ++ digits 16 m.access,
      m.mbr_type])

end Member

/-- A text without the braces around it. -/
def unbrace (s : Text) : Text := (s.drop 1).dropLast

/-- The member that a record of a member table declares. -/
def declaredMember (type : SymbolType) (key data : Text) : Option Member :=
  match key.splitOn DB_FLDSEP_CHR, data.splitOn DB_FLDSEP_CHR with
  | [class_name, name, _, _], _ :: access :: ret :: arg_types :: _ =>
    some
      { class_name, type, name
        params := unbrace arg_types
        access := strtoul16 access
        mbr_type := unbrace ret }
  | _, _ => none

section Closure

variable (syms : Syms)

/-- A class has a record in the class table. -/
def HasRecord (C : Text) : Prop :=
  ∃ dbp key, syms PAF_CLASS_DEF = some dbp ∧ key ∈ dbp ∧ C ++ [DB_FLDSEP_CHR] <+: key

/-- A table has a name that goes on with a blank behind the name of the class. -/
def GoesOn (t : SymbolType) (C : Text) : Prop :=
  ∃ dbp key, syms t = some dbp ∧ key ∈ dbp ∧ classPrefix C <+: key

/-- Records of such a name are taken for records of the class. -/
def Misread (C : Text) : Prop :=
  GoesOn syms PAF_CLASS_DEF C ∧
    (GoesOn syms PAF_CLASS_INHERIT C ∨ GoesOn syms PAF_MBR_VAR_DEF C ∨
      GoesOn syms PAF_MBR_FUNC_DCL C)

/-- A class declares a member, in the table of variables or of methods. -/
def Declares (C : Text) (m : Member) : Prop :=
  (m.type = PAF_MBR_VAR_DEF ∨ m.type = PAF_MBR_FUNC_DCL) ∧ m.class_name = C ∧
    ∃ dbp key data, syms m.type = some dbp ∧ dbp[key]? = some data ∧
      declaredMember m.type key data = some m

/-- A class has a base class, which it inherits from with an access. -/
def InheritsFrom (C B : Text) (access : Nat) : Prop :=
  ∃ (dbp : Table) (key data line ac : Text) (fields more : List Text),
    syms PAF_CLASS_INHERIT = some dbp ∧ dbp[key]? = some data ∧
    key.splitOn DB_FLDSEP_CHR = C :: B :: fields ∧ data.splitOn DB_FLDSEP_CHR = line :: ac :: more ∧
    access = strtoul16 ac

/-- A class has a direct or transitive base class. -/
def BaseClass : Text → Text → Prop := Relation.TransGen fun C B => ∃ access, InheritsFrom syms C B access

/-- The members that a class inherits, along every path to a base class. -/
inductive Inherited : Text → Member → Prop
  | direct {C B : Text} {access : Nat} {m : Member} :
      InheritsFrom syms C B access → Declares syms B m → ¬ m.Private →
      Inherited C (m.restrict access)
  | further {C B : Text} {access : Nat} {m : Member} :
      InheritsFrom syms C B access → Inherited B m → Inherited C (m.restrict access)

/-- The members that a class shows. -/
def Shown (C : Text) (m : Member) : Prop := Declares syms C m ∨ Inherited syms C m

/-- The entries of a class in the class tree are the members that it shows. -/
def Lists (tree : Table) (C : Text) : Prop :=
  ∀ key data, C ++ [DB_FLDSEP_CHR] <+: key →
    (tree[key]? = some data ↔ ∃ m, Shown syms C m ∧ (key, data) = m.listing C)

/-- `load_class` returns, and the tree that it builds lists what the class shows. -/
def LoadsClosure (C : Text) : Prop :=
  ∃ n s, load_class syms n C open_tables_for_cross_ref = .ok s ∧ Lists syms s.class_tree C

/-- There is nothing to list for a class. -/
def Bare (C : Text) : Prop :=
  (∀ m, ¬ Declares syms C m) ∧ ∀ B, BaseClass syms C B → ∀ m, Declares syms B m → m.Private

end Closure

variable {syms : Syms} {C B : Text} {m : Member} {n : Nat} {s s' : Classes}

/-- A class inherits something exactly if a base class declares a member that is not private. -/
theorem exists_inherited :
    (∃ m, Inherited syms C m) ↔ ∃ B, BaseClass syms C B ∧ ∃ m, Declares syms B m ∧ ¬ m.Private := by
  constructor
  · rintro ⟨m, inherited⟩
    induction inherited with
    | @direct C B access m base member visible =>
      exact ⟨B, .single ⟨access, base⟩, m, member, visible⟩
    | @further C B access m base _ ih =>
      obtain ⟨D, above, member⟩ := ih
      exact ⟨D, .head ⟨access, base⟩ above, member⟩
  · rintro ⟨B, above, m, member, visible⟩
    induction above using Relation.TransGen.head_induction_on with
    | single base =>
      obtain ⟨access, base⟩ := base
      exact ⟨_, .direct base member visible⟩
    | head base _ ih =>
      obtain ⟨access, base⟩ := base
      obtain ⟨m', inherited⟩ := ih
      exact ⟨_, .further base inherited⟩

theorem bare_iff : Bare syms C ↔ ∀ m, ¬ Shown syms C m := by
  constructor
  · rintro ⟨own, bases⟩ m (declares | inherited)
    · exact own m declares
    · obtain ⟨B, above, m', member, visible⟩ := exists_inherited.mp ⟨m, inherited⟩
      exact visible (bases B above m' member)
  · intro nothing
    refine ⟨fun m declares => nothing m (.inl declares), fun B above m member => ?_⟩
    by_contra visible
    obtain ⟨m', inherited⟩ := exists_inherited.mpr ⟨B, above, m, member, visible⟩
    exact nothing m' (.inr inherited)

/-- A search for the name and a blank finds no record of the name itself. -/
theorem recordsFrom_classPrefix {t : SymbolType} {dbp : Table} (table : syms t = some dbp)
    (stops : ¬ GoesOn syms t C) (start : Text) : recordsFrom dbp start (classPrefix C) = [] := by
  rw [List.eq_nil_iff_forall_not_mem]
  rintro ⟨key, data⟩ mem
  rw [recordsFrom] at mem
  have starts := List.isPrefixOf_iff_prefix.mp
    (List.mem_takeWhile_imp (p := fun e : Text × Text => (classPrefix C).isPrefixOf e.1) mem)
  have whole : (key, data) ∈ dbp.toList :=
    List.dropWhile_sublist _ |>.subset (List.takeWhile_sublist _ |>.subset mem)
  have found := Std.TreeMap.mem_toList_iff_getElem?_eq_some.mp whole
  have there : key ∈ dbp := Std.TreeMap.mem_iff_isSome_getElem?.mpr (by rw [found]; rfl)
  exact stops ⟨dbp, key, table, there, starts⟩

theorem scan_classPrefix {t : SymbolType} {dbp : Table} (table : syms t = some dbp)
    (stops : ¬ GoesOn syms t C) : dbp.scan (classPrefix C) = [] :=
  recordsFrom_classPrefix table stops (classPrefix C)

theorem load_class_members_unfound {t : SymbolType} {tree : Table} (stops : ¬ GoesOn syms t C) :
    load_class_members syms t C tree = .ok tree := by
  unfold load_class_members
  split
  · rfl
  next dbp table =>
  rw [scan_classPrefix table stops]
  rfl

theorem baseRecords_unfound (stops : ¬ GoesOn syms PAF_CLASS_INHERIT C) (key : Text) :
    baseRecords syms C key = [] := by
  unfold baseRecords
  split
  · rfl
  next dbp table => exact recordsFrom_classPrefix table stops key

/-- Then `load_class` leaves the class tree as it is. -/
theorem load_class_unfound (exact_names : ¬ Misread syms C) :
    ∃ s', load_class syms (n + 1) C s = .ok s' ∧ s'.class_tree = s.class_tree := by
  rw [load_class]
  split
  · exact ⟨s, rfl, rfl⟩
  split
  · exact ⟨s, rfl, rfl⟩
  next dbp table =>
  split
  · exact ⟨s, rfl, rfl⟩
  next key data rest scanned =>
  have goes_on : GoesOn syms PAF_CLASS_DEF C := by
    by_contra stops
    rw [scan_classPrefix table stops] at scanned
    cases scanned
  obtain ⟨bases, fields, methods⟩ :
      ¬ GoesOn syms PAF_CLASS_INHERIT C ∧ ¬ GoesOn syms PAF_MBR_VAR_DEF C ∧
        ¬ GoesOn syms PAF_MBR_FUNC_DCL C := by
    rw [← not_or, ← not_or]
    exact fun found => exact_names ⟨goes_on, found⟩
  refine ⟨{ s with
    cached_classes := store_symbol_to_cache C PAF_CLASS_DEF none s.cached_classes }, ?_, rfl⟩
  rw [baseRecords_unfound bases]
  change (load_class_members syms PAF_MBR_VAR_DEF C s.class_tree >>= fun tree => _) = _
  rw [load_class_members_unfound fields]
  change (load_class_members syms PAF_MBR_FUNC_DCL C s.class_tree >>= fun tree => _) = _
  rw [load_class_members_unfound methods]
  rfl

theorem load_class_unchanged (exact_names : ¬ Misread syms C)
    (h : load_class syms n C s = .ok s') : s'.class_tree = s.class_tree := by
  cases n with
  | zero => cases h
  | succ n =>
    obtain ⟨s₁, loaded, same⟩ := load_class_unfound (n := n) (s := s) exact_names
    obtain rfl : s₁ = s' := Except.ok.inj (loaded.symm.trans h)
    exact same

theorem prefix_listing : C ++ [DB_FLDSEP_CHR] <+: (m.listing C).1 := by
  have some_field : [m.name, m.params] ≠ [] := List.cons_ne_nil _ _
  refine ⟨joinFields [m.name, m.params], ?_⟩
  rw [Member.listing, joinFields_cons some_field, List.append_assoc]
  rfl

/-- An empty tree lists what a class shows exactly if that is nothing. -/
theorem lists_empty : Lists syms ∅ C ↔ Bare syms C := by
  rw [bare_iff]
  constructor
  · intro lists m shown
    have entry := (lists (m.listing C).1 (m.listing C).2 prefix_listing).mpr ⟨m, shown, rfl⟩
    rw [Std.TreeMap.getElem?_emptyc] at entry
    cases entry
  · intro nothing key data _
    rw [Std.TreeMap.getElem?_emptyc]
    constructor
    · exact fun h => nomatch h
    · rintro ⟨m, shown, _⟩
      exact absurd shown (nothing m)

/-! ### A class with one member -/

/-- The records of a class `A` with a public variable `x`. -/
def oneMember : Syms
  | PAF_CLASS_DEF =>
    some ((∅ : Table).insert (joinFields [ascii "A", ascii "000001.006", ascii "a.h"])
      (joinFields [ascii "3.1", ascii "0x0", ascii "\x7b\x7d", ascii "\x7b\x7d", ascii "\x7b\x7d",
        ascii "\x7b\x7d"]))
  | PAF_MBR_VAR_DEF =>
    some ((∅ : Table).insert (joinFields [ascii "A", ascii "x", ascii "000002.013", ascii "a.h"])
      (joinFields [ascii "2.14", ascii "0x4", ascii "\x7bint\x7d", ascii "\x7b\x7d",
        ascii "\x7b\x7d", ascii "\x7b\x7d"]))
  | _ => none

def x : Member :=
  { class_name := ascii "A"
    type := PAF_MBR_VAR_DEF
    name := ascii "x"
    params := []
    access := PAF_PUBLIC
    mbr_type := ascii "int" }

theorem hasRecord_oneMember : HasRecord oneMember (ascii "A") := by
  refine ⟨_, _, rfl, Std.TreeMap.mem_insert_self, ?_⟩
  decide

theorem goesOn_oneMember : ¬ GoesOn oneMember PAF_CLASS_DEF (ascii "A") := by
  rintro ⟨dbp, key, table, mem, starts⟩
  obtain rfl := Option.some.inj table
  rw [Std.TreeMap.mem_insert, Std.LawfulEqCmp.compare_eq_iff_eq] at mem
  rcases mem with rfl | none
  · revert starts
    decide
  · exact Std.TreeMap.not_mem_emptyc none

theorem declares_x : Declares oneMember (ascii "A") x := by
  refine ⟨.inl rfl, rfl, _, _, _, rfl, Std.TreeMap.getElem?_insert_self, ?_⟩
  decide

/-- Where no records are misread, the class tree lists what the class shows exactly if there is
nothing to list. -/
theorem load_class_closure (exact_names : ¬ Misread syms C) :
    LoadsClosure syms C ↔ Bare syms C := by
  rw [← lists_empty]
  constructor
  · rintro ⟨n, s, loaded, lists⟩
    rw [load_class_unchanged exact_names loaded] at lists
    exact lists
  · intro lists
    obtain ⟨s, loaded, same⟩ :=
      load_class_unfound (n := 0) (s := open_tables_for_cross_ref) exact_names
    refine ⟨1, s, loaded, ?_⟩
    rw [same]
    exact lists

theorem load_class_closure_one : LoadsClosure oneMember (ascii "A") ↔ Bare oneMember (ascii "A") :=
  load_class_closure fun misread => goesOn_oneMember misread.1

theorem load_class_lists_nothing :
    HasRecord oneMember (ascii "A") ∧ ¬ LoadsClosure oneMember (ascii "A") := by
  refine ⟨hasRecord_oneMember, ?_⟩
  rintro ⟨n, s, loaded, lists⟩
  rw [load_class_unchanged (fun misread => goesOn_oneMember misread.1) loaded] at lists
  exact (lists_empty.mp lists).1 x declares_x

end SourceNavigator.Db

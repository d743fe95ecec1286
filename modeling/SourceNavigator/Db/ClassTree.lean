import Mathlib.Data.Finset.Card
import SourceNavigator.Lib.Fuel
import SourceNavigator.Scanf
import SourceNavigator.Db.LongString
import SourceNavigator.Db.Table

/-!
The class tree of the cross reference (`db/dbutils.c`).

`load_class` puts the members that a class has and inherits into the class tree:
it loads each base class first and copies what the tree then holds for it
(`inherit_members`), and reads the members of the class itself last
(`load_class_members`). A class that was loaded is kept in `cached_classes` and
not loaded again.

* `load_class_returns` says that this ends for every inheritance graph.
* `load_class_closure` compares the tree with the members that a class shows.

The records of the tables are searched for the class name and a blank, where
the parsers write a field separator.
-/

namespace SourceNavigator.Db

open SymbolType

/-- `read_next_field`: the field, and where the pointer is left. -/
def read_next_field (s : Text) : Text × Text :=
  match cut DB_FLDSEP_CHR s with
  | some parts => parts
  | none => (s, [])

/-- `atoi`, which is `strtol` with base 10 converted to `int`. -/
def atoi (s : Text) : Int :=
  match scanInt s with
  | some (n, _) => int32 (max (-9223372036854775808) (min 9223372036854775807 n))
  | none => 0

/-- `read_next_int_field`: the field is copied to a buffer of 64 bytes. -/
def read_next_int_field (s : Text) : Int × Text :=
  let (field, rest) := read_next_field s
  (atoi (field.take 64), rest)

/-- The string behind the prefix of a number with base 16. -/
def skipHexPrefix : Text → Text
  | 48 :: x :: c :: s =>
    if (x == 120 || x == 88) && (digitValue c).any (· < 16) then c :: s else 48 :: x :: c :: s
  | s => s

/-- `strtoul(s, NULL, 16)` -/
def strtoul16 (s : Text) : Nat :=
  let magnitude := fun s => readDigits 16 0 (skipHexPrefix s)
  match skipSpace s with
  | 45 :: s =>
    if magnitude s < 2 ^ 64 then (2 ^ 64 - magnitude s) % 2 ^ 64 else 2 ^ 64 - 1
  | 43 :: s => min (2 ^ 64 - 1) (magnitude s)
  | s => min (2 ^ 64 - 1) (magnitude s)

abbrev PAF_PRIVATE : Nat := 0x000001
abbrev PAF_PROTECTED : Nat := 0x000002
abbrev PAF_PUBLIC : Nat := 0x000004

def INH_AC_TYPE : Nat := PAF_PRIVATE ||| PAF_PROTECTED ||| PAF_PUBLIC

/-- Why a function has no result: its bound ran out, or its behaviour is undefined. -/
inductive Stop
  | bound
  | undefined
  deriving DecidableEq

/-- A value that the code takes for granted. -/
def taken {α : Type} : Option α → Except Stop α
  | some a => .ok a
  | none => .error .undefined

/-- The tables that `open_tables_for_cross_ref` creates. -/
structure Classes where
  class_tree : Table
  cached_classes : Table

def open_tables_for_cross_ref : Classes := ⟨∅, ∅⟩

/-- The tables of the project that are open (`db_syms`). -/
abbrev Syms := SymbolType → Option Table

/-! ### Inherited members -/

/-- The access of an inherited member (the `switch` on `output_ac_tp`). -/
def inheritedAccess (output_ac_tp inh_ac_tp : Nat) : Nat :=
  if output_ac_tp = PAF_PRIVATE then PAF_PRIVATE
  else if output_ac_tp = PAF_PROTECTED then PAF_PROTECTED
  else inh_ac_tp

/-- The entry that a class inherits from an entry of its base class, and nothing from a private
one. The data text is split in four fields and the key in three; a field that is not there is
read from memory that was never written. -/
def inheritedEntry (class_name : Text) (output_ac_tp : Nat) (key data : Text) :
    Option (Option (Text × Text)) :=
  match data.splitOn DB_FLDSEP_CHR with
  | inh_cls_name :: inh_symbol_type :: inh_access :: inh_mbr_type =>
    let inh_ac_tp := strtoul16 inh_access
    if inh_ac_tp &&& INH_AC_TYPE = PAF_PRIVATE then some none
    else
      match inh_mbr_type, key.splitOn DB_FLDSEP_CHR with
      | _ :: _, _ :: mbr_name :: r :: rest =>
        let access := ascii "0x" ++ digits 16 (inheritedAccess output_ac_tp inh_ac_tp)
        some (some
          (joinFields [class_name, mbr_name, joinFields (r :: rest)],
            joinFields [inh_cls_name, inh_symbol_type, access, joinFields inh_mbr_type]))
      | _, _ => none
  | _ => none

/-- The loop body of `inherit_members`. -/
def inheritEntry (class_name : Text) (output_ac_tp : Nat) (tree : Table) (entry : Text × Text) :
    Except Stop Table := do
  match ← taken (inheritedEntry class_name output_ac_tp entry.1 entry.2) with
  | some inherited => .ok (tree.insert inherited.1 inherited.2)
  | none => .ok tree

/-- The entries are put into the table that the cursor reads: under other keys than those it
meets, or under the key it has just met. -/
def inherit_members (class_name inherited_class inh_buf : Text) (tree : Table) :
    Except Stop Table :=
  (tree.scan (inherited_class ++ [DB_FLDSEP_CHR])).foldlM
    (inheritEntry class_name (strtoul16 inh_buf)) tree

/-! ### The members of a class -/

/-- The prefix that the records of a class are searched with. -/
def classPrefix (class_name : Text) : Text := class_name ++ ascii " "

/-- What `append` copies from a key between two offsets. -/
def keyBytes (key : Text) (mbr_name_beg mbr_name_end : Int) : Option Text :=
  if mbr_name_end = mbr_name_beg then some []
  else if mbr_name_beg < 0 ∨ key.length < max mbr_name_beg mbr_name_end then none
  else some (appended (key.drop mbr_name_beg.toNat) (mbr_name_end - mbr_name_beg))

/-- The entry for a record of a member. The second and the fourth field of the key are read as
the offsets of the name in the key. -/
def memberEntry (type : SymbolType) (class_name key data : Text) : Option (Text × Text) := do
  let (_, p) := read_next_field key
  let (mbr_name_beg, p) := read_next_int_field p
  let (_, p) := read_next_field p
  let (mbr_name_end, _) := read_next_int_field p
  let (_, p) ← cut DB_FLDSEP_CHR data
  let (inher_access, p) ← cut DB_FLDSEP_CHR p
  let (_, p) ← cut 123 p
  let (mbr_type, p) ← cut 125 p
  let (_, p) ← cut 123 p
  let (mbr_pars, _) ← cut 125 p
  let mbr_name ← keyBytes key mbr_name_beg mbr_name_end
  some
    (joinFields [class_name, mbr_name ++ mbr_pars],
      joinFields [class_name, type.SN_GetSymbolType, inher_access, mbr_type])

/-- The loop body of `load_class_members`. -/
def loadMember (type : SymbolType) (class_name : Text) (tree : Table) (record : Text × Text) :
    Except Stop Table := do
  let entry ← taken (memberEntry type class_name record.1 record.2)
  .ok (tree.insert entry.1 entry.2)

def load_class_members (syms : Syms) (type : SymbolType) (class_name : Text) (tree : Table) :
    Except Stop Table :=
  match syms type with
  | none => .ok tree
  | some dbp => (dbp.scan (classPrefix class_name)).foldlM (loadMember type class_name) tree

/-! ### The classes -/

/-- With `R_NOOVERWRITE` a class that is there keeps its data. -/
def store_symbol_to_cache (name : Text) (sym_type : SymbolType) (origin : Option Text)
    (cached_classes : Table) : Table :=
  if cached_classes.contains name then cached_classes
  else cached_classes.insert name (UInt8.ofNat sym_type.code :: origin.getD [])

/-- The records that a cursor reads from a key on, up to the first without the prefix. -/
def recordsFrom (dbp : Table) (start p : Text) : List (Text × Text) :=
  (dbp.toList.dropWhile fun e => Lib.Table.below start e.1).takeWhile fun e => p.isPrefixOf e.1

/-- The loop body of `load_class`: the base class of a record is loaded, and its entries are
copied. The cursor is set back to the record afterwards. -/
def loadBase (load : Text → Classes → Except Stop Classes) (class_name : Text) (s : Classes)
    (record : Text × Text) : Except Stop Classes := do
  let icls ← taken ((record.1.splitOn DB_FLDSEP_CHR)[1]?)
  let inhb ← taken ((record.2.splitOn DB_FLDSEP_CHR)[1]?)
  let s ← load icls s
  let class_tree ← inherit_members class_name icls inhb s.class_tree
  .ok { s with class_tree }

/-- The records of the base classes. `key` is the one that the search in the class table left. -/
def baseRecords (syms : Syms) (class_name key : Text) : List (Text × Text) :=
  match syms PAF_CLASS_INHERIT with
  | none => []
  | some dbp => recordsFrom dbp key (classPrefix class_name)

def load_class (syms : Syms) : Nat → Text → Classes → Except Stop Classes
  | 0, _, _ => .error .bound
  | n + 1, class_name, s =>
    if s.cached_classes.contains class_name then .ok s
    else
      match syms PAF_CLASS_DEF with
      | none => .ok s
      | some dbp =>
        match dbp.scan (classPrefix class_name) with
        | [] => .ok s
        | (key, _) :: _ => do
            let cached_classes :=
              store_symbol_to_cache class_name PAF_CLASS_DEF none s.cached_classes
            let s ← (baseRecords syms class_name key).foldlM
              (loadBase (load_class syms n) class_name) { s with cached_classes }
            let class_tree ← load_class_members syms PAF_MBR_VAR_DEF class_name s.class_tree
            let class_tree ← load_class_members syms PAF_MBR_FUNC_DCL class_name class_tree
            .ok { s with class_tree }

/-! ### The recursion ends -/

open Lib.Fuel

section Returns

variable {α : Type} {syms : Syms} {n : Nat} {type : SymbolType} {class_name icls inhb : Text}
  {tree tree' : Table} {s s' : Classes} {record : Text × Text}
  {load : Text → Classes → Except Stop Classes}

/-- Every class that was loaded stays loaded. -/
def Grows (s s' : Classes) : Prop := ∀ k ∈ s.cached_classes, k ∈ s'.cached_classes

theorem mem_store {origin : Option Text} {cached : Table} {k : Text} :
    k ∈ store_symbol_to_cache class_name type origin cached ↔ k ∈ cached ∨ k = class_name := by
  unfold store_symbol_to_cache
  split
  case isTrue there =>
    constructor
    · exact .inl
    · rintro (mem | rfl)
      · exact mem
      · exact Std.TreeMap.contains_iff_mem.mp there
  case isFalse =>
    rw [Std.TreeMap.mem_insert, Std.LawfulEqCmp.compare_eq_iff_eq, or_comm, eq_comm]

theorem taken_ne_bound (x : Option α) : taken x ≠ .error .bound := by
  cases x with
  | none => exact fun h => nomatch h
  | some a => exact fun h => nomatch h

theorem inherit_members_ne_bound : inherit_members class_name icls inhb tree ≠ .error .bound := by
  refine foldlM_ne_error (fun _ _ _ (_ : True) _ => trivial) ?_ trivial
  intro tree entry _
  refine bind_ne_error (taken_ne_bound _) fun inherited _ => ?_
  cases inherited with
  | none => exact fun h => nomatch h
  | some inherited => exact fun h => nomatch h

theorem load_class_members_ne_bound :
    load_class_members syms type class_name tree ≠ .error .bound := by
  unfold load_class_members
  split
  · exact fun h => nomatch h
  · refine foldlM_ne_error (fun _ _ _ (_ : True) _ => trivial) ?_ trivial
    intro tree record _
    exact bind_ne_error (taken_ne_bound _) fun entry _ h => nomatch h

/-- The loop body changes the loaded classes by loading the base class only. -/
theorem loadBase_eq_ok (h : loadBase load class_name s record = .ok s') :
    ∃ icls s₁, load icls s = .ok s₁ ∧ s'.cached_classes = s₁.cached_classes := by
  obtain ⟨icls, _, h⟩ := bind_eq_ok h
  obtain ⟨inhb, _, h⟩ := bind_eq_ok h
  obtain ⟨s₁, loaded, h⟩ := bind_eq_ok h
  obtain ⟨tree, _, h⟩ := bind_eq_ok h
  cases h
  exact ⟨icls, s₁, loaded, rfl⟩

theorem load_class_grows (h : load_class syms n class_name s = .ok s') : Grows s s' := by
  induction n generalizing class_name s s' with
  | zero => cases h
  | succ n ih =>
    rw [load_class] at h
    split at h
    · cases h
      exact fun k mem => mem
    split at h
    · cases h
      exact fun k mem => mem
    split at h
    · cases h
      exact fun k mem => mem
    obtain ⟨s₁, bases, h⟩ := bind_eq_ok h
    obtain ⟨tree, _, h⟩ := bind_eq_ok h
    obtain ⟨tree', _, h⟩ := bind_eq_ok h
    cases h
    change Grows s s₁
    refine @foldlM_inv _ _ _ _ _ _ (Grows s) _ ?_ ?_ bases
    · intro s record s' grown body
      obtain ⟨icls, s₂, loaded, same⟩ := loadBase_eq_ok body
      intro k mem
      rw [same]
      exact ih loaded k (grown k mem)
    · exact fun k mem => mem_store.mpr (.inl mem)

/-- The names that a search in the class table can find a record for. -/
def classNames (syms : Syms) : Finset Text :=
  (((syms PAF_CLASS_DEF).getD ∅).toList.flatMap fun e => e.1.inits).toFinset

/-- The names among these that are not loaded. -/
def waiting (syms : Syms) (s : Classes) : Finset Text :=
  (classNames syms).filter fun name => name ∉ s.cached_classes

theorem waiting_subset (grown : Grows s s') : waiting syms s' ⊆ waiting syms s := by
  intro k mem
  obtain ⟨name, absent⟩ := Finset.mem_filter.mp mem
  exact Finset.mem_filter.mpr ⟨name, fun there => absent (grown k there)⟩

theorem mem_classNames {dbp : Table} {key data : Text} (table : syms PAF_CLASS_DEF = some dbp)
    (found : (key, data) ∈ dbp.scan (classPrefix class_name)) : class_name ∈ classNames syms := by
  have starts := (Lib.Table.mem_scan.mp found).2
  have whole : (key, data) ∈ dbp.toList :=
    List.dropWhile_sublist _ |>.subset (List.takeWhile_sublist _ |>.subset found)
  rw [classNames, List.mem_toFinset, table, List.mem_flatMap]
  refine ⟨(key, data), whole, (List.mem_inits class_name key).mpr ?_⟩
  exact (List.prefix_append class_name (ascii " ")).trans starts

/-- Loading a class leaves fewer names to load. -/
theorem waiting_store {dbp : Table} {key data : Text} (table : syms PAF_CLASS_DEF = some dbp)
    (found : (key, data) ∈ dbp.scan (classPrefix class_name))
    (absent : class_name ∉ s.cached_classes) (type : SymbolType) (origin : Option Text) :
    (waiting syms { s with
        cached_classes := store_symbol_to_cache class_name type origin s.cached_classes }).card <
      (waiting syms s).card := by
  apply Finset.card_lt_card
  rw [Finset.ssubset_iff_of_subset (waiting_subset fun k mem => mem_store.mpr (.inl mem))]
  refine ⟨class_name, Finset.mem_filter.mpr ⟨mem_classNames table found, absent⟩, ?_⟩
  intro mem
  exact (Finset.mem_filter.mp mem).2 (mem_store.mpr (.inr rfl))

/-- A bound above the number of names to load does not run out: each nested call finds one name
less. -/
theorem load_class_ne_bound (enough : (waiting syms s).card < n) :
    load_class syms n class_name s ≠ .error .bound := by
  induction n generalizing class_name s with
  | zero => omega
  | succ n ih =>
    rw [load_class]
    split
    · exact fun h => nomatch h
    next absent =>
    split
    · exact fun h => nomatch h
    next dbp table =>
    split
    · exact fun h => nomatch h
    next key data rest scanned =>
    have found : (key, data) ∈ dbp.scan (classPrefix class_name) :=
      scanned ▸ List.mem_cons_self
    have fewer := waiting_store (s := s) table found
      (fun there => absent (Std.TreeMap.contains_iff_mem.mpr there)) PAF_CLASS_DEF none
    set marked : Classes := { s with
      cached_classes := store_symbol_to_cache class_name PAF_CLASS_DEF none s.cached_classes }
    have stored : Grows marked marked := fun k mem => mem
    refine bind_ne_error ?_ fun s₁ _ => ?_
    · refine foldlM_ne_error (e := Stop.bound) ?_ ?_ stored
      · intro s₁ record s₂ grown body k mem
        obtain ⟨icls, s₃, loaded, same⟩ := loadBase_eq_ok body
        rw [same]
        exact load_class_grows loaded k (grown k mem)
      · intro s₁ record grown
        have left : (waiting syms s₁).card ≤ _ := Finset.card_le_card (waiting_subset grown)
        refine bind_ne_error (taken_ne_bound _) fun icls _ => ?_
        refine bind_ne_error (taken_ne_bound _) fun inhb _ => ?_
        refine bind_ne_error (ih (by omega)) fun s₂ _ => ?_
        exact bind_ne_error inherit_members_ne_bound fun tree _ h => nomatch h
    · refine bind_ne_error load_class_members_ne_bound fun tree _ => ?_
      exact bind_ne_error load_class_members_ne_bound fun tree' _ h => nomatch h

end Returns

end SourceNavigator.Db

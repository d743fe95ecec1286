import Mathlib.Data.List.TakeWhile
import SourceNavigator.Db.Compare
import SourceNavigator.Lib.Run
import SourceNavigator.Lib.Table

/-!
The Tcl commands on open tables (`hyper/dbsym.c`).

`db_compare_nocase` is one flag for all tables. A fetch resets it and sets it
again for an option `-nocase`; it stays set when the fetch is over, however that
ends. The other commands only use it.

The database is a parameter. `Documented` is what it does for a comparison that
orders the keys: it is a sorted map, and a record that is found keeps its key.

* `Represents` relates the tables to finite maps, and `acted` says what the maps
  are after a list of commands.
-/

namespace SourceNavigator.Db

open Lib

/-- The entries of a table in their order. -/
abbrev Tree := List (Key × Text)

/-- The functions of the database, called with the state of `db_compare_nocase`. `seq` is what a
cursor reads that is set to a key. -/
structure BerkeleyDb where
  get : Bool → Tree → Key → Option Text
  put : Bool → Bool → Tree → Key → Text → Tree
  del : Bool → Tree → Key → Tree
  seq : Bool → Tree → Key → Tree

/-- The keys of a table and one more. -/
def keysWith (t : Tree) (k : Key) : Set Key := fun a => a = k ∨ ∃ d, (a, d) ∈ t

/-- The entries stand in the order of the comparison. -/
def Ordered (nocase : Bool) (t : Tree) : Prop :=
  t.Pairwise fun a b => db_case_compare nocase a.1 b.1 < 0

/-- The comparison orders the keys of a table and another key, and the table stands in its order. -/
structure Fit (nocase : Bool) (t : Tree) (k : Key) : Prop where
  preorder : Preorder nocase (keysWith t k)
  ordered : Ordered nocase t

/-- The database is a sorted map over a comparison that orders the keys. The second argument of
`put` is `R_NOOVERWRITE`. -/
structure Documented (db : BerkeleyDb) : Prop where
  get : ∀ nocase t k, Fit nocase t k → ∀ d,
    db.get nocase t k = some d ↔ ∃ old, (old, d) ∈ t ∧ db_case_compare nocase k old = 0
  ordered_put : ∀ nocase no t k d, Fit nocase t k → Ordered nocase (db.put nocase no t k d)
  put_new : ∀ nocase no t k d, Fit nocase t k →
    (∀ e ∈ t, db_case_compare nocase k e.1 ≠ 0) →
    ∀ e, e ∈ db.put nocase no t k d ↔ e = (k, d) ∨ e ∈ t
  put_found : ∀ nocase t k d, Fit nocase t k → ∀ old v, (old, v) ∈ t →
    db_case_compare nocase k old = 0 →
    ∀ e, e ∈ db.put nocase false t k d ↔ e = (old, d) ∨ e ∈ t ∧ e.1 ≠ old
  put_kept : ∀ nocase t k d, Fit nocase t k → ∀ old v, (old, v) ∈ t →
    db_case_compare nocase k old = 0 → ∀ e, e ∈ db.put nocase true t k d ↔ e ∈ t
  ordered_del : ∀ nocase t k, Fit nocase t k → Ordered nocase (db.del nocase t k)
  del : ∀ nocase t k, Fit nocase t k →
    ∀ e, e ∈ db.del nocase t k ↔ e ∈ t ∧ db_case_compare nocase k e.1 ≠ 0
  seq : ∀ nocase t k, Fit nocase t k →
    db.seq nocase t k = t.dropWhile fun e => db_case_compare nocase e.1 k < 0

/-! ### Commands -/

/-- An option of `get` and `seq`: `-nocase`, another one, or one that ends the command with an
error. -/
inductive FetchOption
  | nocase
  | other
  | error
  deriving DecidableEq

/-- `db_compare_nocase` after the options are read, and whether all were read. -/
def readOptions (db_compare_nocase : Bool) : List FetchOption → Bool × Bool
  | [] => (db_compare_nocase, true)
  | .nocase :: options => readOptions true options
  | .other :: options => readOptions db_compare_nocase options
  | .error :: _ => (db_compare_nocase, false)

/-- A command on a table. `delAll` is `del` with a pattern option: it deletes the records whose key
starts with a text and is selected by the pattern. -/
inductive Command
  | get (options : List FetchOption) (key : Key)
  | seq (options : List FetchOption) (key : Key)
  | put (key : Key) (data : Text) (noOverwrite : Bool)
  | del (key : Key)
  | delAll (key : Key) (selects : Text → Bool)
  | isempty

/-- What a command answers. -/
inductive Answer
  | error
  | record (data : Option Text)
  | records (t : Tree)
  | done
  | empty (b : Bool)

/-- The flag and the tables that are open. -/
structure Tables where
  db_compare_nocase : Bool
  table : Nat → Tree

def Tables.init : Tables := ⟨false, fun _ => []⟩

/-- The table `i` after a change. -/
def Tables.change (s : Tables) (i : Nat) (t : Tree) : Tables :=
  { s with table := Function.update s.table i t }

/-- The loop of a fetch over the records behind the cursor stops at the first without the prefix. -/
def withPrefix (key : Key) (t : Tree) : Tree := t.takeWhile fun e => key.data.isPrefixOf e.1.data

variable (db : BerkeleyDb)

/-- `dbtclfetch` -/
def dbtclfetch (s : Tables) (options : List FetchOption) (fetch : Bool → Answer) : Tables × Answer :=
  -- the flag of an earlier command is reset before the options are read
  let read := readOptions false options
  ({ s with db_compare_nocase := read.1 }, if read.2 then fetch read.1 else .error)

/-- `dbtcldel` with a pattern: a cursor reads the records with the prefix. -/
def deleteAll (nocase : Bool) (t : Tree) (key : Key) (selects : Text → Bool) : Tree :=
  let scanned := withPrefix key (db.seq nocase t key)
  t.filter fun e => !(scanned.any fun e' => e' == e && selects e.1.data)

/-- `dbDispCmd` -/
def dbDispCmd (s : Tables) (i : Nat) : Command → Tables × Answer
  | .get options key =>
    dbtclfetch s options fun nocase => .record (db.get nocase (s.table i) key)
  | .seq options key =>
    dbtclfetch s options fun nocase => .records (withPrefix key (db.seq nocase (s.table i) key))
  | .put key data noOverwrite =>
    (s.change i (db.put s.db_compare_nocase noOverwrite (s.table i) key data), .done)
  | .del key => (s.change i (db.del s.db_compare_nocase (s.table i) key), .done)
  | .delAll key selects =>
    (s.change i (deleteAll db s.db_compare_nocase (s.table i) key selects), .done)
  | .isempty => (s, .empty (s.table i).isEmpty)

def CommandStep (s : Tables) (a : Nat × Command) (s' : Tables) : Prop :=
  (dbDispCmd db s a.1 a.2).1 = s'

/-! ### Finite maps -/

/-- What the records of each table should be. -/
abbrev Maps := Nat → Key → Option Text

open Classical in
/-- A command acts on the exact keys. -/
noncomputable def act (maps : Maps) (a : Nat × Command) : Maps :=
  match a.2 with
  | .put key data noOverwrite =>
    if noOverwrite ∧ maps a.1 key ≠ none then maps
    else Function.update maps a.1 (Function.update (maps a.1) key (some data))
  | .del key => Function.update maps a.1 (Function.update (maps a.1) key none)
  | .delAll key selects =>
    Function.update maps a.1 fun k =>
      if key.data <+: k.data ∧ selects k.data then none else maps a.1 k
  | _ => maps

/-- What the records of each table should be after a list of commands. -/
noncomputable def acted (as : List (Nat × Command)) : Maps := as.foldl act fun _ _ => none

/-- The tables are these maps, and stand in the order of the exact comparison. -/
structure TablesAre (s : Tables) (maps : Maps) : Prop where
  ordered : ∀ i, Ordered false (s.table i)
  records : ∀ i k d, (k, d) ∈ s.table i ↔ maps i k = some d

/-- The flag is off where a command writes. -/
def Exact (s : Tables) (a : Nat × Command) : Prop :=
  match a.2 with
  | .put _ _ _ => s.db_compare_nocase = false
  | .del _ => s.db_compare_nocase = false
  | .delAll _ _ => s.db_compare_nocase = false
  | _ => True

/-! ### The exact comparison -/

section ExactCompare

variable {t : Tree} {k : Key}

theorem compare_exact_eq {a b : Key} : db_case_compare false a b = 0 ↔ a = b := by
  rw [← sign_eq_eq, db_case_compare_exact]
  exact Std.LawfulEqCmp.compare_eq_iff_eq

theorem compare_exact_lt {a b : Key} :
    db_case_compare false a b < 0 ↔ List.compareLex compare a.data b.data = .lt := by
  have order := db_case_compare_exact a b
  have less : db_case_compare false a b < 0 ↔ sign (db_case_compare false a b) = .lt :=
    Int.compare_eq_lt.symm
  rw [less, order]
  rfl

theorem Ordered.fit (h : Ordered false t) (k : Key) : Fit false t k := ⟨preorder_exact _, h⟩

/-- The records that a cursor scans are those with the prefix. -/
theorem mem_scanned (h : Ordered false t) {e : Key × Text} :
    e ∈ withPrefix k (t.dropWhile fun e => db_case_compare false e.1 k < 0) ↔
      e ∈ t ∧ k.data <+: e.1.data := by
  have sorted : (t.map fun e => (e.1.data, e)).Pairwise
      fun a b => List.compareLex compare a.1 b.1 = .lt := by
    rw [List.pairwise_map]
    exact h.imp fun less => compare_exact_lt.mp less
  have below : (fun e : Key × Text => decide (db_case_compare false e.1 k < 0)) =
      (fun e => Table.below k.data e.1) ∘ fun e : Key × Text => (e.1.data, e) := by
    funext e
    rw [Bool.eq_iff_iff, decide_eq_true_iff, compare_exact_lt]
    exact (beq_iff_eq (α := Ordering)).symm
  have cursor := Table.mem_cursor_iff (p := k.data) (e := (e.1.data, e)) sorted
  have injective : Function.Injective fun e : Key × Text => (e.1.data, e) :=
    fun a b same => congrArg Prod.snd same
  rw [List.dropWhile_map, List.takeWhile_map] at cursor
  unfold withPrefix
  rw [below]
  rw [List.mem_map_of_injective injective, List.mem_map_of_injective injective] at cursor
  exact cursor

end ExactCompare

/-! ### Commands act on the maps -/

section Act

variable {db : BerkeleyDb} {s s' t : Tables} {maps : Maps} {m : Key → Option Text} {i : Nat}
  {tree : Tree} {k : Key} {d : Text} {as : List (Nat × Command)} {a : Nat × Command}

/-- A table that is changed to another map. -/
theorem TablesAre.change (h : TablesAre s maps) (ordered : Ordered false tree)
    (records : ∀ k d, (k, d) ∈ tree ↔ m k = some d) :
    TablesAre (s.change i tree) (Function.update maps i m) := by
  constructor
  · intro j
    change Ordered false (Function.update s.table i tree j)
    by_cases same : j = i
    · subst same
      rw [Function.update_self]
      exact ordered
    · rw [Function.update_of_ne same]
      exact h.ordered j
  · intro j k d
    change (k, d) ∈ Function.update s.table i tree j ↔ _
    by_cases same : j = i
    · subst same
      rw [Function.update_self, Function.update_self]
      exact records k d
    · rw [Function.update_of_ne same, Function.update_of_ne same]
      exact h.records j k d

theorem TablesAre.flag (h : TablesAre s maps) (b : Bool) :
    TablesAre { s with db_compare_nocase := b } maps :=
  ⟨h.ordered, h.records⟩

/-- What a map holds after one key got another value. -/
theorem replaced_iff {k' : Key} {new : Option Text} {d' : Text} :
    (if k' = k then new else m k') = some d' ↔ k' = k ∧ new = some d' ∨ k' ≠ k ∧ m k' = some d' := by
  by_cases same : k' = k
  · rw [if_pos same]
    exact ⟨fun h => .inl ⟨same, h⟩, fun h => h.elim (·.2) fun other => absurd same other.1⟩
  · rw [if_neg same]
    exact ⟨fun h => .inr ⟨same, h⟩, fun h => h.elim (fun here => absurd here.1 same) (·.2)⟩

theorem TablesAre.put (doc : Documented db) (h : TablesAre s maps) (noOverwrite : Bool) :
    TablesAre (s.change i (db.put false noOverwrite (s.table i) k d))
      (act maps (i, .put k d noOverwrite)) := by
  have fit := (h.ordered i).fit k
  have ordered := doc.ordered_put false noOverwrite (s.table i) k d fit
  have same_maps : Function.update maps i (maps i) = maps := Function.update_eq_self i maps
  unfold act
  dsimp only
  cases found : maps i k with
  | none =>
    have new : ∀ e ∈ s.table i, db_case_compare false k e.1 ≠ 0 := by
      rintro ⟨old, v⟩ mem same
      obtain rfl := compare_exact_eq.mp same
      rw [(h.records i k v).mp mem] at found
      cases found
    rw [if_neg fun both => both.2 rfl]
    refine h.change ordered fun k' d' => ?_
    rw [doc.put_new false noOverwrite _ k d fit new, h.records, Function.update_apply, replaced_iff]
    constructor
    · rintro (entry | before)
      · obtain ⟨rfl, rfl⟩ := Prod.mk.inj entry
        exact .inl ⟨rfl, rfl⟩
      · refine .inr ⟨?_, before⟩
        rintro rfl
        rw [found] at before
        cases before
    · rintro (⟨rfl, value⟩ | ⟨_, before⟩)
      · rw [Option.some.inj value]
        exact .inl rfl
      · exact .inr before
  | some v =>
    have mem := (h.records i k v).mpr found
    have same : db_case_compare false k k = 0 := compare_exact_eq.mpr rfl
    cases noOverwrite with
    | true =>
      rw [if_pos ⟨rfl, Option.some_ne_none v⟩, ← same_maps]
      refine h.change ordered fun k' d' => ?_
      rw [doc.put_kept false _ k d fit k v mem same, h.records]
    | false =>
      rw [if_neg fun both => Bool.false_ne_true both.1]
      refine h.change ordered fun k' d' => ?_
      rw [doc.put_found false _ k d fit k v mem same, h.records, Function.update_apply,
        replaced_iff]
      constructor
      · rintro (entry | ⟨before, other⟩)
        · obtain ⟨rfl, rfl⟩ := Prod.mk.inj entry
          exact .inl ⟨rfl, rfl⟩
        · exact .inr ⟨other, before⟩
      · rintro (⟨rfl, value⟩ | ⟨other, before⟩)
        · rw [Option.some.inj value]
          exact .inl rfl
        · exact .inr ⟨before, other⟩

theorem TablesAre.del (doc : Documented db) (h : TablesAre s maps) :
    TablesAre (s.change i (db.del false (s.table i) k)) (act maps (i, .del k)) := by
  have fit := (h.ordered i).fit k
  refine h.change (doc.ordered_del false _ k fit) fun k' d' => ?_
  rw [doc.del false _ k fit, h.records, Function.update_apply, replaced_iff]
  constructor
  · rintro ⟨before, other⟩
    exact .inr ⟨fun same => other (compare_exact_eq.mpr same.symm), before⟩
  · rintro (⟨_, none⟩ | ⟨other, before⟩)
    · cases none
    · exact ⟨before, fun same => other (compare_exact_eq.mp same).symm⟩

theorem TablesAre.delAll (doc : Documented db) (h : TablesAre s maps) (selects : Text → Bool) :
    TablesAre (s.change i (deleteAll db false (s.table i) k selects))
      (act maps (i, .delAll k selects)) := by
  have fit := (h.ordered i).fit k
  refine h.change ((h.ordered i).filter _) fun k' d' => ?_
  have scanned : (k', d') ∈ withPrefix k (db.seq false (s.table i) k) ↔
      maps i k' = some d' ∧ k.data <+: k'.data := by
    rw [doc.seq false _ k fit, mem_scanned (h.ordered i), h.records]
  have deleted : ((withPrefix k (db.seq false (s.table i) k)).any fun e' =>
      e' == (k', d') && selects k'.data) = true ↔
      (maps i k' = some d' ∧ k.data <+: k'.data) ∧ selects k'.data = true := by
    rw [List.any_eq_true, ← scanned]
    constructor
    · rintro ⟨e, mem, both⟩
      rw [Bool.and_eq_true, beq_iff_eq] at both
      obtain ⟨rfl, selected⟩ := both
      exact ⟨mem, selected⟩
    · rintro ⟨mem, selected⟩
      exact ⟨_, mem, by rw [selected, beq_self_eq_true]; rfl⟩
  unfold deleteAll
  rw [List.mem_filter, h.records, Bool.not_eq_true', ← Bool.not_eq_true, deleted]
  split
  case isTrue both =>
    constructor
    · rintro ⟨before, stays⟩
      exact absurd ⟨⟨before, both.1⟩, both.2⟩ stays
    · intro none
      cases none
  case isFalse other =>
    exact ⟨fun h => h.1, fun before => ⟨before, fun goes => other ⟨goes.1.2, goes.2⟩⟩⟩

/-- A command acts on the maps if the flag is off where it writes. -/
theorem step_exact (doc : Documented db) (h : TablesAre s maps) (exact_ : Exact s a)
    (step : CommandStep db s a s') : TablesAre s' (act maps a) := by
  obtain ⟨i, command⟩ := a
  obtain rfl := step
  cases command with
  | get options key => exact h.flag _
  | seq options key => exact h.flag _
  | put key data noOverwrite =>
    have off : s.db_compare_nocase = false := exact_
    change TablesAre (s.change i (db.put s.db_compare_nocase noOverwrite (s.table i) key data)) _
    rw [off]
    exact h.put doc noOverwrite
  | del key =>
    have off : s.db_compare_nocase = false := exact_
    change TablesAre (s.change i (db.del s.db_compare_nocase (s.table i) key)) _
    rw [off]
    exact h.del doc
  | delAll key selects =>
    have off : s.db_compare_nocase = false := exact_
    change TablesAre (s.change i (deleteAll db s.db_compare_nocase (s.table i) key selects)) _
    rw [off]
    exact h.delAll doc selects
  | isempty => exact h

theorem run_exact (doc : Documented db) (h : TablesAre s maps)
    (run : Run (Guarded Exact (CommandStep db)) s as t) : TablesAre t (as.foldl act maps) := by
  induction run generalizing maps with
  | nil => exact h
  | cons first _ ih => exact ih (step_exact doc h first.1 first.2)

theorem tablesAre_init : TablesAre Tables.init fun _ _ => none where
  ordered _ := List.Pairwise.nil
  records _ _ _ := ⟨fun mem => absurd mem List.not_mem_nil, fun found => by cases found⟩

/-- A fetch without `-nocase` has the flag off. -/
theorem readOptions_exact {options : List FetchOption} (exact_ : .nocase ∉ options) :
    (readOptions false options).1 = false := by
  induction options with
  | nil => rfl
  | cons option options ih =>
    rw [List.mem_cons, not_or] at exact_
    cases option with
    | nocase => exact absurd rfl exact_.1
    | other => exact ih exact_.2
    | error => rfl

/-- A `get` without `-nocase` reads the record of the exact key, whatever was done before. -/
theorem get_exact (doc : Documented db) (h : TablesAre s maps) {options : List FetchOption}
    (exact_ : .nocase ∉ options) (ok : (readOptions false options).2 = true) :
    (dbDispCmd db s i (.get options k)).2 = .record (maps i k) := by
  have fit := (h.ordered i).fit k
  have read : db.get false (s.table i) k = maps i k := by
    apply Option.ext
    intro d
    rw [doc.get false _ k fit d]
    constructor
    · rintro ⟨old, mem, same⟩
      obtain rfl := compare_exact_eq.mp same
      exact (h.records i k d).mp mem
    · intro found
      exact ⟨k, (h.records i k d).mpr found, compare_exact_eq.mpr rfl⟩
  change (if (readOptions false options).2 = true then
    Answer.record (db.get (readOptions false options).1 (s.table i) k) else .error) = _
  rw [if_pos ok, readOptions_exact exact_, read]

end Act

/-! ### A database -/

/-- A database that looks at the entries one after the other. -/
def scanning : BerkeleyDb where
  get nocase t k := (t.find? fun e => db_case_compare nocase k e.1 == 0).map (·.2)
  put nocase noOverwrite t k d :=
    if t.any fun e => db_case_compare nocase k e.1 == 0 then
      if noOverwrite then t
      else t.map fun e => if db_case_compare nocase k e.1 = 0 then (e.1, d) else e
    else
      (t.takeWhile fun e => db_case_compare nocase e.1 k < 0) ++
        (k, d) :: t.dropWhile fun e => db_case_compare nocase e.1 k < 0
  del nocase t k := t.filter fun e => db_case_compare nocase k e.1 != 0
  seq nocase t k := t.dropWhile fun e => db_case_compare nocase e.1 k < 0

section Scanning

variable {nocase : Bool} {t : Tree} {a b k : Key} {d v w : Text} {e : Key × Text}

theorem self_keysWith : k ∈ keysWith t k := .inl rfl

theorem mem_keysWith (mem : e ∈ t) : e.1 ∈ keysWith t k := .inr ⟨e.2, mem⟩

theorem Preorder.lt_iff {S : Set Key} (h : Preorder nocase S) (mem_a : a ∈ S) (mem_b : b ∈ S) :
    db_case_compare nocase a b < 0 ↔ 0 < db_case_compare nocase b a := by
  have opposite := h.opposite a mem_a b mem_b
  have less : db_case_compare nocase a b < 0 ↔ sign (db_case_compare nocase a b) = .lt :=
    Int.compare_eq_lt.symm
  have greater : 0 < db_case_compare nocase b a ↔ sign (db_case_compare nocase b a) = .gt :=
    Int.compare_eq_gt.symm
  rw [less, greater, opposite, Ordering.swap_eq_lt]

theorem Preorder.eq_iff {S : Set Key} (h : Preorder nocase S) (mem_a : a ∈ S) (mem_b : b ∈ S) :
    db_case_compare nocase a b = 0 ↔ db_case_compare nocase b a = 0 := by
  rw [← sign_eq_eq, ← sign_eq_eq, h.opposite a mem_a b mem_b, Ordering.swap_eq_eq]

/-- One entry at most is found for a key. -/
theorem Fit.unique (h : Fit nocase t k) (mem : (a, v) ∈ t) (mem' : (b, w) ∈ t)
    (found : db_case_compare nocase k a = 0) (found' : db_case_compare nocase k b = 0) :
    (a, v) = (b, w) := by
  have mem_a : a ∈ keysWith t k := mem_keysWith mem
  have mem_b : b ∈ keysWith t k := mem_keysWith mem'
  have self : k ∈ keysWith t k := self_keysWith
  have ab : db_case_compare nocase a b ≤ 0 :=
    h.preorder.trans a mem_a k self b mem_b (Int.le_of_eq ((h.preorder.eq_iff self mem_a).mp found))
      (Int.le_of_eq found')
  have ba : db_case_compare nocase b a ≤ 0 :=
    h.preorder.trans b mem_b k self a mem_a (Int.le_of_eq ((h.preorder.eq_iff self mem_b).mp found'))
      (Int.le_of_eq found)
  obtain ⟨i, less, entry⟩ := List.mem_iff_getElem.mp mem
  obtain ⟨j, less', entry'⟩ := List.mem_iff_getElem.mp mem'
  have order := List.pairwise_iff_getElem.mp h.ordered
  rcases Nat.lt_trichotomy i j with before | same | behind
  · have lt := order i j less less' before
    rw [entry, entry', h.preorder.lt_iff mem_a mem_b] at lt
    omega
  · subst same
    exact entry.symm.trans entry'
  · have lt := order j i less' less behind
    rw [entry, entry', h.preorder.lt_iff mem_b mem_a] at lt
    omega

theorem find_any : (t.any fun e => db_case_compare nocase k e.1 == 0) = true ↔
    ∃ e ∈ t, db_case_compare nocase k e.1 = 0 := by
  rw [List.any_eq_true]
  simp only [beq_iff_eq]

/-- The entries behind the place of a new key are above it. -/
theorem Fit.above (h : Fit nocase t k) (new : ∀ e ∈ t, db_case_compare nocase k e.1 ≠ 0)
    (mem : e ∈ t.dropWhile fun e => db_case_compare nocase e.1 k < 0) :
    db_case_compare nocase k e.1 < 0 := by
  have sub := List.dropWhile_sublist (l := t) fun e => decide (db_case_compare nocase e.1 k < 0)
  have ordered := h.ordered.sublist sub
  have head := List.head?_dropWhile_not (fun e => decide (db_case_compare nocase e.1 k < 0)) t
  have in_t : ∀ e ∈ t.dropWhile fun e => db_case_compare nocase e.1 k < 0, e ∈ t :=
    fun e mem => sub.subset mem
  cases behind : t.dropWhile fun e => db_case_compare nocase e.1 k < 0 with
  | nil =>
    rw [behind] at mem
    exact absurd mem List.not_mem_nil
  | cons x r =>
    rw [behind] at mem ordered head in_t
    have mem_x := in_t x List.mem_cons_self
    have not_less : ¬ db_case_compare nocase x.1 k < 0 := of_decide_eq_false head
    have above_x : db_case_compare nocase k x.1 < 0 := by
      rw [h.preorder.lt_iff self_keysWith (mem_keysWith mem_x)]
      have other := new x mem_x
      rw [ne_eq, h.preorder.eq_iff self_keysWith (mem_keysWith mem_x)] at other
      omega
    rcases List.mem_cons.mp mem with rfl | rest
    · exact above_x
    · have order := (List.pairwise_cons.mp ordered).1 e rest
      have mem_e := in_t e mem
      have le := h.preorder.trans k self_keysWith x.1 (mem_keysWith mem_x) e.1 (mem_keysWith mem_e)
        (Int.le_of_lt above_x) (Int.le_of_lt order)
      have other := new e mem_e
      omega

theorem put_of_found (found : ∃ e ∈ t, db_case_compare nocase k e.1 = 0) (noOverwrite : Bool) :
    scanning.put nocase noOverwrite t k d =
      if noOverwrite then t
      else t.map fun e => if db_case_compare nocase k e.1 = 0 then (e.1, d) else e :=
  if_pos (find_any.mpr found)

theorem put_of_new (new : ∀ e ∈ t, db_case_compare nocase k e.1 ≠ 0) (noOverwrite : Bool) :
    scanning.put nocase noOverwrite t k d =
      (t.takeWhile fun e => db_case_compare nocase e.1 k < 0) ++
        (k, d) :: t.dropWhile fun e => db_case_compare nocase e.1 k < 0 := by
  apply if_neg
  rw [find_any]
  rintro ⟨e, mem, same⟩
  exact new e mem same

theorem ordered_put (h : Fit nocase t k) (noOverwrite : Bool) (d : Text) :
    Ordered nocase (scanning.put nocase noOverwrite t k d) := by
  by_cases found : ∃ e ∈ t, db_case_compare nocase k e.1 = 0
  · rw [put_of_found found]
    cases noOverwrite with
    | true => exact h.ordered
    | false =>
      change Ordered nocase (t.map _)
      have key : ∀ e : Key × Text,
          (if db_case_compare nocase k e.1 = 0 then (e.1, d) else e).1 = e.1 := by
        intro e
        split <;> rfl
      unfold Ordered
      rw [List.pairwise_map]
      refine h.ordered.imp fun {a b} less => ?_
      rw [key a, key b]
      exact less
  · have new : ∀ e ∈ t, db_case_compare nocase k e.1 ≠ 0 :=
      fun e mem same => found ⟨e, mem, same⟩
    have whole := h.ordered
    rw [← List.takeWhile_append_dropWhile
      (p := fun e => decide (db_case_compare nocase e.1 k < 0)) (l := t)] at whole
    obtain ⟨left, right, across⟩ := List.pairwise_append.mp whole
    rw [put_of_new new]
    refine List.pairwise_append.mpr
      ⟨left, List.pairwise_cons.mpr ⟨fun e mem => h.above new mem, right⟩, ?_⟩
    intro e mem e' mem'
    rcases List.mem_cons.mp mem' with rfl | mem'
    · have less := List.mem_takeWhile_imp mem
      exact of_decide_eq_true less
    · exact across e mem e' mem'

theorem documented_scanning : Documented scanning where
  get nocase t k fit d := by
    change (t.find? fun e => db_case_compare nocase k e.1 == 0).map (·.2) = some d ↔ _
    rw [Option.map_eq_some_iff]
    constructor
    · rintro ⟨⟨old, v⟩, found, rfl⟩
      have same := List.find?_some found
      exact ⟨old, List.mem_of_find?_eq_some found, beq_iff_eq.mp same⟩
    · rintro ⟨old, mem, same⟩
      cases found : t.find? fun e => db_case_compare nocase k e.1 == 0 with
      | none =>
        have missed := List.find?_eq_none.mp found (old, d) mem
        rw [beq_iff_eq] at missed
        exact absurd same missed
      | some e =>
        have same' := List.find?_some found
        have unique := fit.unique (List.mem_of_find?_eq_some found) mem (beq_iff_eq.mp same') same
        exact ⟨e, rfl, congrArg Prod.snd unique⟩
  ordered_put nocase noOverwrite t k d fit := ordered_put fit noOverwrite d
  put_new nocase noOverwrite t k d fit new e := by
    rw [put_of_new new, List.mem_append, List.mem_cons]
    have whole : e ∈ t ↔
        e ∈ (t.takeWhile fun e => decide (db_case_compare nocase e.1 k < 0)) ∨
          e ∈ t.dropWhile fun e => decide (db_case_compare nocase e.1 k < 0) := by
      rw [← List.mem_append, List.takeWhile_append_dropWhile]
    rw [whole]
    tauto
  put_found nocase t k d fit old v mem found e := by
    have only : ∀ e ∈ t, db_case_compare nocase k e.1 = 0 → e.1 = old := by
      rintro ⟨a, w⟩ mem' same
      exact congrArg Prod.fst (fit.unique mem' mem same found)
    rw [put_of_found ⟨_, mem, found⟩]
    change e ∈ t.map _ ↔ _
    rw [List.mem_map]
    constructor
    · rintro ⟨e, mem', rfl⟩
      split
      case isTrue same => exact .inl (congrArg (·, d) (only e mem' same))
      case isFalse other =>
        refine .inr ⟨mem', ?_⟩
        rintro rfl
        exact other found
    · rintro (rfl | ⟨mem', other⟩)
      · exact ⟨(old, v), mem, if_pos found⟩
      · exact ⟨e, mem', if_neg fun same => other (only e mem' same)⟩
  put_kept nocase t k d fit old v mem found e := by
    rw [put_of_found ⟨_, mem, found⟩]
    rfl
  ordered_del nocase t k fit := fit.ordered.filter _
  del nocase t k fit e := by
    change e ∈ t.filter _ ↔ _
    rw [List.mem_filter, bne_iff_ne]
  seq nocase t k fit := rfl

theorem act_put_self (maps : Maps) (i : Nat) : act maps (i, .put k d false) i k = some d := by
  unfold act
  dsimp only
  rw [if_neg fun both => Bool.false_ne_true both.1, Function.update_self, Function.update_self]

end Scanning

end SourceNavigator.Db

import Mathlib.Data.List.Infix
import Mathlib.Data.List.TakeWhile
import SourceNavigator.Lib.Cursor
import SourceNavigator.Db.Table

/-!
Records that are fetched and records that are deleted (`dbtclfetch` and `dbtcldel` in
`hyper/dbsym.c`).

Both commands take an option with a pattern and a key, go through the records whose keys start
with the key, and test each key against the pattern. Each has its own cursor and its own tests,
and only the fetch joins a key in braces.

A third argument that starts with a dash is one more option for the fetch, so that there is no key
and all records are gone through. The expressions of the patterns are matched by functions of Tcl,
which are parameters.

* `fetch_eq` and `delete_eq` say which records each command selects.
-/

namespace SourceNavigator.Hyper.DeleteMatches

open Db Lib

abbrev DASH : UInt8 := 45
abbrev OPEN_BRACE : UInt8 := 123
abbrev CLOSE_BRACE : UInt8 := 125

/-! ### Options and patterns -/

/-- The options that come with a pattern. -/
inductive MatchOption
  | glob
  | beg
  | last
  | strstr
  | regexp
  deriving DecidableEq

def MatchOption.text : MatchOption → Text
  | glob => ascii "-glob"
  | beg => ascii "-beg"
  | last => ascii "-end"
  | strstr => ascii "-strstr"
  | regexp => ascii "-regexp"

/-- `strncmp(s, t, n) == 0` -/
def strncmp (s t : Text) (n : Nat) : Bool := s.take n == t.take n

/-- The options of `dbtcldel`. -/
def delOption (argv : Text) : Option MatchOption :=
  if argv = ascii "-glob" then some .glob
  else if strncmp argv (ascii "-beg") 3 then some .beg
  else if strncmp argv (ascii "-end") 3 then some .last
  else if strncmp argv (ascii "-regexp") 3 then some .regexp
  else if strncmp argv (ascii "-strstr") 3 then some .strstr
  else none

/-- The options of `dbtclfetch` that come with a pattern. -/
def fetchOption (argv : Text) : Option MatchOption :=
  if strncmp argv (ascii "-glob") 4 then some .glob
  else if strncmp argv (ascii "-beg") 4 then some .beg
  else if strncmp argv (ascii "-end") 4 then some .last
  else if strncmp argv (ascii "-regexp") 4 then some .regexp
  else if strncmp argv (ascii "-strstr") 4 then some .strstr
  else none

/-- What `dbtclfetch` does with an option in the place of the key: `only_first`. It is `none` for
an option that is unknown or whose argument is missing, and for `-cross`, which makes lines of the
references and returns no records. -/
def keyOption (argv : Text) : Option Bool :=
  if strncmp argv (ascii "-nocase") 4 || strncmp argv (ascii "-exact") 4
      || strncmp argv (ascii "-key") 4 || strncmp argv (ascii "-data") 4
      || strncmp argv (ascii "-uniq") 4 || strncmp argv (ascii "-list") 5
      || argv == ascii "-updatecommand" then some false
  else if strncmp argv (ascii "-first") 4 then some true
  else none

/-- What a key is tested for. -/
inductive MatchType
  | DB_MATCH_NONE
  | DB_MATCH_GLOB (pattern : Text)
  | DB_MATCH_BEG (pattern : Text)
  | DB_MATCH_END (pattern : Text)
  | DB_MATCH_OCCURE (pattern : Text)
  | DB_MATCH_REGEXP (regexp : Text → Bool)

/-- The functions of Tcl: a pattern matches a string, and a regular expression is compiled. -/
structure TclMatch where
  Tcl_StringMatch : Text → Text → Bool
  Tcl_RegExpCompile : Text → Option (Text → Bool)

section Code

variable (tcl : TclMatch)

/-- The test of an option with its pattern, in both commands; `none` if it cannot be compiled. -/
def matchType (option : MatchOption) (pattern : Text) : Option MatchType :=
  if pattern = [] then some .DB_MATCH_NONE
  else
    match option with
    | .glob => some (if pattern = ascii "*" then .DB_MATCH_NONE else .DB_MATCH_GLOB pattern)
    | .beg => some (.DB_MATCH_BEG pattern)
    | .last => some (.DB_MATCH_END pattern)
    | .strstr => some (.DB_MATCH_OCCURE pattern)
    | .regexp => (tcl.Tcl_RegExpCompile pattern).map .DB_MATCH_REGEXP

/-- The string behind the last occurrence of a byte. -/
def strrchr (c : UInt8) : Text → Option Text
  | [] => none
  | d :: s =>
    match strrchr c s with
    | some behind => some behind
    | none => if d = c then some s else none

/-- The test of `dbtclfetch`. -/
def fetches (match_type : MatchType) (keyvalue : Text) : Bool :=
  match match_type with
  | .DB_MATCH_NONE => true
  | .DB_MATCH_BEG beg_pattern => beg_pattern.isPrefixOf keyvalue
  | .DB_MATCH_OCCURE strstr_pattern => decide (strstr_pattern <:+: keyvalue)
  | .DB_MATCH_GLOB glob_pattern => tcl.Tcl_StringMatch keyvalue glob_pattern
  | .DB_MATCH_REGEXP regexp => regexp keyvalue
  | .DB_MATCH_END end_pattern =>
    match strrchr DB_FLDSEP_CHR keyvalue with
    | none => decide (keyvalue = end_pattern)
    | some last_space => decide (last_space = end_pattern)

/-- The test of `dbtcldel`. -/
def deletes (match_type : MatchType) (keyp : Text) : Bool :=
  match match_type with
  | .DB_MATCH_END glob_pattern =>
    match strrchr DB_FLDSEP_CHR keyp with
    | none => false
    | some last_space => decide (last_space = glob_pattern)
  | .DB_MATCH_NONE => true
  | .DB_MATCH_REGEXP regexp => regexp keyp
  | .DB_MATCH_OCCURE glob_pattern => decide (glob_pattern <:+: keyp)
  | .DB_MATCH_BEG glob_pattern => glob_pattern.isPrefixOf keyp
  | .DB_MATCH_GLOB glob_pattern => tcl.Tcl_StringMatch keyp glob_pattern

/-! ### The commands -/

/-- A key as the table stores it. -/
def stored (key : Text) : Text := key ++ [0]

/-- The string is only changed if it starts with a brace. -/
def sn_my_JoinStr (str : Text) : Text :=
  if str.head? = some OPEN_BRACE then
    str.filter fun c => !(c == OPEN_BRACE || c == CLOSE_BRACE)
  else str

/-- The loop of `dbtclfetch` over the records from its cursor on. -/
def fetchLoop (match_type : MatchType) (pattern : Text) : List (Text × Text) → List (Text × Text)
  | [] => []
  | record :: records =>
    if !pattern.isPrefixOf (stored record.1) then []
    else if fetches tcl match_type record.1 then record :: fetchLoop match_type pattern records
    else fetchLoop match_type pattern records

/-- `seq option pattern key`: the records that are returned. -/
def dbtclfetch (t : Table) (option pattern key : Text) : Option (List (Text × Text)) := do
  let match_type ← (fetchOption option).bind fun option => matchType tcl option pattern
  if key.head? = some DASH then
    let only_first ← keyOption key
    let records := fetchLoop tcl match_type [] t.toList
    some (if only_first then records.take 1 else records)
  else
    let key := sn_my_JoinStr key
    let records :=
      if key = [] then t.toList else t.toList.dropWhile fun e => Table.below (stored key) (stored e.1)
    some (fetchLoop tcl match_type key records)

/-- What the loop of `dbtcldel` does with a record. -/
def judge (match_type : MatchType) (key_pattern key : Text) : Table.Verdict :=
  if !key_pattern.isPrefixOf (stored key) then .stop
  else if deletes tcl match_type key then .delete
  else .skip

/-- `del option pattern key`: the table that is left, and the number that is returned. -/
def dbtcldel (t : Table) (option pattern key_pattern : Text) : Option (Table × Nat) := do
  let match_type ← (delOption option).bind fun option => matchType tcl option pattern
  let first :=
    if key_pattern = [] then t.toList.head?
    else t.toList.find? fun e => !Table.below key_pattern (stored e.1)
  Table.deleteLoop (judge tcl match_type key_pattern) (t.size + 1) t 0 first

end Code

/-! ### The cursor -/

section Cursor

variable {p k pattern : Text} {tcl : TclMatch} {match_type : MatchType} {t : Table}
  {records : List (Text × Text)}

theorem options_agree (option : MatchOption) :
    fetchOption option.text = some option ∧ delOption option.text = some option := by
  cases option <;> decide

theorem compare_eq_lt {a b : UInt8} : compare a b = .lt ↔ a < b := compareOfLessAndEq_eq_lt

/-- The NUL behind a key does not change its place, and no more does one behind the string that it
is compared with. -/
theorem below_stored {nul : Text} (ends : nul = [] ∨ nul = [0]) (free : 0 ∉ p) :
    Table.below (p ++ nul) (stored k) = Table.below p k := by
  induction p generalizing k with
  | nil =>
    have lowest : ∀ b : UInt8, compare b 0 ≠ .lt := fun b lower =>
      UInt8.not_lt_zero (compare_eq_lt.mp lower)
    have behind : Table.below ([] : Text) k = false := Table.not_below_of_starts List.nil_prefix
    rw [behind, List.nil_append, Table.below, beq_eq_false_iff_ne]
    rcases ends with rfl | rfl
    · cases k <;> simp [stored, List.compareLex_cons_nil]
    · cases k with
      | nil => decide
      | cons b k =>
        rw [stored, List.cons_append, List.compareLex_cons_cons]
        cases order : compare b 0 with
        | lt => exact absurd order (lowest b)
        | eq => cases k <;> simp [List.compareLex_cons_nil]
        | gt => simp
  | cons a p ih =>
    rw [List.mem_cons, not_or] at free
    cases k with
    | nil =>
      have lower : compare (0 : UInt8) a = .lt :=
        compare_eq_lt.mpr (UInt8.pos_iff_ne_zero.mpr (Ne.symm free.1))
      simp [Table.below, stored, List.compareLex_cons_cons, List.compareLex_nil_cons, lower]
    | cons b k =>
      have rest := @ih k free.2
      simp only [Table.below, stored, List.cons_append, List.compareLex_cons_cons] at rest ⊢
      cases compare b a
      · simp
      · simpa using rest
      · simp

/-- A key starts with a string exactly if it does with its NUL. -/
theorem isPrefixOf_stored (free : 0 ∉ p) : p.isPrefixOf (stored k) = p.isPrefixOf k := by
  rw [Bool.eq_iff_iff, List.isPrefixOf_iff_prefix, List.isPrefixOf_iff_prefix, stored]
  constructor
  · intro starts
    rcases List.prefix_concat_iff.mp starts with whole | inside
    · refine absurd ?_ free
      rw [whole]
      simp
    · exact inside
  · exact fun starts => starts.trans (List.prefix_append k [0])

/-- The loop of the fetch selects among the records whose keys start with the key. -/
theorem fetchLoop_eq (free : 0 ∉ pattern) :
    fetchLoop tcl match_type pattern records =
      (records.takeWhile fun e => pattern.isPrefixOf e.1).filter fun e => fetches tcl match_type e.1 := by
  induction records with
  | nil => rfl
  | cons record records ih =>
    rw [fetchLoop, isPrefixOf_stored free, ih]
    by_cases starts : pattern.isPrefixOf record.1 = true
    · by_cases has : fetches tcl match_type record.1 = true
      · simp [starts, has]
      · simp [starts, has]
    · simp [starts]

/-- No key is below the empty one. -/
theorem dropWhile_below_nil (t : Table) :
    (t.toList.dropWhile fun e => Table.below [] e.1) = t.toList := by
  cases t.toList with
  | nil => rfl
  | cons e l =>
    have first : Table.below [] e.1 = false := Table.not_below_of_starts List.nil_prefix
    rw [List.dropWhile_cons_of_neg (by simp [first])]

theorem scan_nil (t : Table) : t.scan [] = t.toList := by
  rw [Table.scan, dropWhile_below_nil, List.takeWhile_eq_self_iff]
  intro e _
  rfl

/-- The records that the cursor of the fetch meets are those with the key as prefix. -/
theorem fetch_eq (free : 0 ∉ pattern) :
    fetchLoop tcl match_type pattern
        (if pattern = [] then t.toList
          else t.toList.dropWhile fun e => Table.below (stored pattern) (stored e.1)) =
      (t.scan pattern).filter fun e => fetches tcl match_type e.1 := by
  rw [fetchLoop_eq free]
  by_cases all : pattern = []
  · have every : t.toList.takeWhile (fun e => pattern.isPrefixOf e.1) = t.toList := by
      rw [List.takeWhile_eq_self_iff, all]
      intro e _
      rfl
    rw [if_pos all, every, all, scan_nil]
  · rw [if_neg all]
    have same : (fun e : Text × Text => Table.below (stored pattern) (stored e.1)) =
        fun e => Table.below pattern e.1 :=
      funext fun e => below_stored (.inr rfl) free
    rw [same]
    rfl

/-- What a walk of the deletion deletes. -/
theorem deleted_eq (free : 0 ∉ pattern) :
    Table.deleted (judge tcl match_type pattern) records =
      (records.takeWhile fun e => pattern.isPrefixOf e.1).filter fun e => deletes tcl match_type e.1 := by
  induction records with
  | nil => rfl
  | cons record records ih =>
    unfold Table.deleted at ih ⊢
    have verdict : judge tcl match_type pattern record.1 =
        if !pattern.isPrefixOf record.1 then .stop
        else if deletes tcl match_type record.1 then .delete else .skip := by
      rw [judge, isPrefixOf_stored free]
    by_cases starts : pattern.isPrefixOf record.1 = true
    · by_cases has : deletes tcl match_type record.1 = true
      · simp [verdict, starts, has] at ih ⊢
        exact ih
      · simp [verdict, starts, has] at ih ⊢
        exact ih
    · simp [verdict, starts]

/-- The deletion takes out the records with the key as prefix that its test finds, and counts
them. -/
theorem delete_eq (free : 0 ∉ pattern) :
    Table.deleteLoop (judge tcl match_type pattern) (t.size + 1) t 0
        (if pattern = [] then t.toList.head?
          else t.toList.find? fun e => !Table.below pattern (stored e.1)) =
      some (t.eraseAll (((t.scan pattern).filter fun e => deletes tcl match_type e.1).map Prod.fst),
        ((t.scan pattern).filter fun e => deletes tcl match_type e.1).length) := by
  have same : (fun e : Text × Text => Table.below pattern (stored e.1)) =
      fun e => Table.below pattern e.1 := by
    funext e
    have place := @below_stored pattern e.1 [] (.inl rfl) free
    rwa [List.append_nil] at place
  have cursor : (if pattern = [] then t.toList.head?
      else t.toList.find? fun e => !Table.below pattern (stored e.1)) =
        (t.toList.dropWhile fun e => Table.below pattern e.1).head? := by
    by_cases all : pattern = []
    · rw [if_pos all, all, dropWhile_below_nil]
    · rw [if_neg all, List.find?_eq_head?_dropWhile_not]
      simp only [Bool.not_not, same]
  have split : t.toList = (t.toList.takeWhile fun e => Table.below pattern e.1) ++
      t.toList.dropWhile fun e => Table.below pattern e.1 := List.takeWhile_append_dropWhile.symm
  have enough : (t.toList.dropWhile fun e => Table.below pattern e.1).length < t.size + 1 := by
    have shorter := (List.dropWhile_suffix (fun e => Table.below pattern e.1) (l := t.toList)).length_le
    rw [Std.TreeMap.length_toList] at shorter
    omega
  rw [cursor, Table.deleteLoop_eq split enough, deleted_eq free, Nat.zero_add]
  rfl

end Cursor

/-! ### Both commands -/

/-- What `del` takes out of the table is what `seq` has returned: all other records are unchanged
and the number is that of the records. If one of them is refused, so is the other. -/
def Agrees (tcl : TclMatch) (t : Table) (option pattern key : Text) : Prop :=
  match dbtclfetch tcl t option pattern key, dbtcldel tcl t option pattern key with
  | some records, some result =>
    (∀ k v, (k, v) ∈ records ↔ t[k]? = some v ∧ result.1.contains k = false) ∧
      (∀ k, result.1.contains k = true → result.1[k]? = t[k]?) ∧
      records.Nodup ∧ result.2 = records.length
  | none, none => True
  | _, _ => False

/-- A record whose key has only one field is the one that the pattern for the last field names. -/
def OneField (t : Table) (match_type : MatchType) (key : Text) : Prop :=
  ∃ end_pattern, match_type = .DB_MATCH_END end_pattern ∧ DB_FLDSEP_CHR ∉ end_pattern ∧
    key <+: end_pattern ∧ end_pattern ∈ t

/-- For a key that starts with a brace, the records that match: all of them start with it, if it
has nothing but braces; otherwise none of them starts with it, with or without its braces. -/
def BracesMatch (tcl : TclMatch) (t : Table) (match_type : MatchType) (key : Text) : Prop :=
  ∀ k ∈ t, fetches tcl match_type k = true →
    if sn_my_JoinStr key = [] then key <+: k ∧ deletes tcl match_type k = true
    else ¬ sn_my_JoinStr key <+: k ∧ ¬ (key <+: k ∧ deletes tcl match_type k = true)

/-- For a key that the fetch reads as an option, the records that match: they start with the key,
but for those behind the first one if the option asks for the first one only. -/
def OptionMatch (tcl : TclMatch) (t : Table) (match_type : MatchType) (key : Text)
    (only_first : Bool) : Prop :=
  ∀ k ∈ t, fetches tcl match_type k = true →
    ((key <+: k ∧ deletes tcl match_type k = true) ↔
      (only_first = true → ∀ k' ∈ t, fetches tcl match_type k' = true → Table.below k k' = false))

section Both

variable {tcl : TclMatch} {t : Table} {match_type : MatchType} {k v key pattern : Text}

theorem strrchr_eq_none {s : Text} {c : UInt8} : strrchr c s = none ↔ c ∉ s := by
  induction s with
  | nil => simp [strrchr]
  | cons d s ih =>
    rw [strrchr]
    cases behind : strrchr c s with
    | some rest =>
      have mem : c ∈ s := by
        by_contra free
        rw [ih.mpr free] at behind
        cases behind
      simp [mem]
    | none =>
      by_cases same : d = c
      · simp [same]
      · simp [same, ih.mp behind, Ne.symm same]

/-- The test of the deletion finds what that of the fetch does, but for keys of one field. -/
theorem deletes_iff : deletes tcl match_type k = true ↔
    fetches tcl match_type k = true ∧
      ¬ (match_type = .DB_MATCH_END k ∧ DB_FLDSEP_CHR ∉ k) := by
  cases match_type with
  | DB_MATCH_END end_pattern =>
    rw [deletes, fetches]
    cases behind : strrchr DB_FLDSEP_CHR k with
    | none =>
      have free := strrchr_eq_none.mp behind
      simp [free, eq_comm]
    | some rest =>
      have mem : DB_FLDSEP_CHR ∈ k := by
        by_contra free
        rw [strrchr_eq_none.mpr free] at behind
        cases behind
      simp [mem]
  | _ => simp [deletes, fetches]

theorem notMem_sn_my_JoinStr (free : 0 ∉ key) : 0 ∉ sn_my_JoinStr key := by
  unfold sn_my_JoinStr
  split
  · exact fun mem => free (List.mem_of_mem_filter mem)
  · exact free

/-- A test among the entries that a cursor meets. -/
theorem mem_filter_scan {test : Text → Bool} {p : Text} :
    (k, v) ∈ (t.scan p).filter (fun e => test e.1) ↔ t[k]? = some v ∧ p <+: k ∧ test k = true := by
  rw [List.mem_filter, Table.mem_scan, and_assoc]

theorem nodup_filter_scan {test : Text → Bool} {p : Text} :
    ((t.scan p).filter fun e => test e.1).Nodup :=
  (List.Nodup.of_map Prod.fst Table.nodup_scan).filter _

/-- What is left if the entries of a list are erased. -/
theorem contains_eraseAll {records : List (Text × Text)} :
    (t.eraseAll (records.map Prod.fst)).contains k = true ↔
      k ∈ t ∧ k ∉ records.map Prod.fst := by
  rw [Std.TreeMap.contains_eq_isSome_getElem?, Table.getElem?_eraseAll]
  by_cases erased : k ∈ records.map Prod.fst
  · rw [if_pos erased]
    simp [erased]
  · rw [if_neg erased, ← Std.TreeMap.contains_eq_isSome_getElem?, Std.TreeMap.contains_iff_mem]
    simp [erased]

/-- A fetch that selects keys by a test agrees with a deletion that selects the same keys of the
table. -/
theorem erased_iff {test : Text → Prop} {deleted records : List (Text × Text)}
    (mem : ∀ k v, (k, v) ∈ records ↔ t[k]? = some v ∧ test k) (once : records.Nodup)
    {test' : Text → Prop} (mem' : ∀ k v, (k, v) ∈ deleted ↔ t[k]? = some v ∧ test' k)
    (once' : deleted.Nodup) :
    ((∀ k v, (k, v) ∈ records ↔
          t[k]? = some v ∧ (t.eraseAll (deleted.map Prod.fst)).contains k = false) ∧
        (∀ k, (t.eraseAll (deleted.map Prod.fst)).contains k = true →
          (t.eraseAll (deleted.map Prod.fst))[k]? = t[k]?) ∧
        records.Nodup ∧ deleted.length = records.length) ↔
      ∀ k ∈ t, (test k ↔ test' k) := by
  have erased : ∀ k v, t[k]? = some v →
      ((t.eraseAll (deleted.map Prod.fst)).contains k = false ↔ test' k) := by
    intro k v found
    have stands : k ∈ t := Std.TreeMap.mem_iff_isSome_getElem?.mpr (by rw [found]; rfl)
    rw [← Bool.not_eq_true, contains_eraseAll, not_and, not_not, List.mem_map]
    constructor
    · intro gone
      obtain ⟨⟨k', v'⟩, inside, rfl⟩ := gone stands
      exact ((mem' k' v').mp inside).2
    · exact fun has _ => ⟨(k, v), (mem' k v).mpr ⟨found, has⟩, rfl⟩
  constructor
  · rintro ⟨same, -⟩ k stands
    obtain ⟨v, found⟩ := Option.isSome_iff_exists.mp (Std.TreeMap.mem_iff_isSome_getElem?.mp stands)
    have both := same k v
    rw [mem, erased k v found] at both
    simpa [found] using both
  · intro same
    have all : ∀ k v, (k, v) ∈ records ↔ (k, v) ∈ deleted := by
      intro k v
      rw [mem, mem']
      refine and_congr_right fun found => same k ?_
      exact Std.TreeMap.mem_iff_isSome_getElem?.mpr (by rw [found]; rfl)
    have perm : deleted.Perm records :=
      (List.perm_ext_iff_of_nodup once' once).mpr fun e => (all e.1 e.2).symm
    refine ⟨fun k v => ?_, fun k left => ?_, once, perm.length_eq⟩
    · rw [all, mem']
      exact and_congr_right fun found => (erased k v found).symm
    · rw [Table.getElem?_eraseAll, if_neg (contains_eraseAll.mp left).2]

/-- What the fetch selects with a key that is no option. -/
theorem dbtclfetch_key {option : MatchOption} (free : 0 ∉ key) (no_dash : key.head? ≠ some DASH)
    (compiled : matchType tcl option pattern = some match_type) :
    dbtclfetch tcl t option.text pattern key =
      some ((t.scan (sn_my_JoinStr key)).filter fun e => fetches tcl match_type e.1) := by
  rw [dbtclfetch, (options_agree option).1, Option.bind_some, compiled,
    Option.bind_eq_bind, Option.bind_some, if_neg no_dash]
  exact congrArg some (fetch_eq (notMem_sn_my_JoinStr free))

/-- What the fetch selects with an option in the place of the key. -/
theorem dbtclfetch_option {option : MatchOption} (dash : key.head? = some DASH)
    (compiled : matchType tcl option pattern = some match_type) :
    dbtclfetch tcl t option.text pattern key =
      (keyOption key).map fun only_first =>
        if only_first = true then (t.toList.filter fun e => fetches tcl match_type e.1).take 1
        else t.toList.filter fun e => fetches tcl match_type e.1 := by
  have whole : fetchLoop tcl match_type [] t.toList =
      t.toList.filter fun e => fetches tcl match_type e.1 := by
    have all := @fetch_eq [] tcl match_type t List.not_mem_nil
    rwa [if_pos rfl, scan_nil] at all
  rw [dbtclfetch, (options_agree option).1, Option.bind_some, compiled,
    Option.bind_eq_bind, Option.bind_some, if_pos dash, whole]
  cases keyOption key <;> rfl

/-- What the deletion selects. -/
theorem dbtcldel_eq {option : MatchOption} (free : 0 ∉ key)
    (compiled : matchType tcl option pattern = some match_type) :
    dbtcldel tcl t option.text pattern key =
      some (t.eraseAll (((t.scan key).filter fun e => deletes tcl match_type e.1).map Prod.fst),
        ((t.scan key).filter fun e => deletes tcl match_type e.1).length) := by
  rw [dbtcldel, (options_agree option).2, Option.bind_some, compiled]
  exact delete_eq free

/-- The first entry of a sorted list. -/
theorem mem_take_one {test : Text → Bool} :
    (k, v) ∈ (t.toList.filter fun e => test e.1).take 1 ↔
      t[k]? = some v ∧ test k = true ∧
        ∀ k' ∈ t, test k' = true → Table.below k k' = false := by
  have sorted : (t.toList.filter fun e => test e.1).Pairwise
      fun a b => List.compareLex compare a.1 b.1 = .lt := (Table.sorted_toList t).filter _
  have members : ∀ k v, (k, v) ∈ (t.toList.filter fun e => test e.1) ↔
      t[k]? = some v ∧ test k = true := by
    intro k v
    rw [List.mem_filter, Std.TreeMap.mem_toList_iff_getElem?_eq_some]
  cases list : t.toList.filter fun e => test e.1 with
  | nil =>
    rw [List.take_nil, ← and_assoc, ← members, list]
    simp
  | cons e rest =>
    rw [list, List.pairwise_cons] at sorted
    rw [List.take_succ_cons, List.take_zero, List.mem_singleton, ← and_assoc, ← members, list,
      List.mem_cons]
    constructor
    · rintro rfl
      refine ⟨.inl rfl, fun k' stands has => ?_⟩
      obtain ⟨v', found⟩ :=
        Option.isSome_iff_exists.mp (Std.TreeMap.mem_iff_isSome_getElem?.mp stands)
      have inside := (members k' v').mpr ⟨found, has⟩
      rw [list, List.mem_cons] at inside
      rw [Table.below, beq_eq_false_iff_ne]
      rcases inside with first | behind
      · rw [(Prod.mk.inj first).1, Table.compareLex_self]
        decide
      · exact Table.not_lt_of_gt (sorted.1 _ behind)
    · rintro ⟨first | behind, lowest⟩
      · exact first
      · have above := sorted.1 _ behind
        have first := (members e.1 e.2).mp (by rw [list]; exact List.mem_cons_self)
        have not_below := lowest e.1
          (Std.TreeMap.mem_iff_isSome_getElem?.mpr (by rw [first.1]; rfl)) first.2
        rw [Table.below, above] at not_below
        cases not_below

/-- What is selected with an option: the records that match, or the first one of them. -/
theorem mem_option {test : Text → Bool} {only_first : Bool} :
    (k, v) ∈ (if only_first = true then (t.toList.filter fun e => test e.1).take 1
        else t.toList.filter fun e => test e.1) ↔
      t[k]? = some v ∧ test k = true ∧
        (only_first = true → ∀ k' ∈ t, test k' = true → Table.below k k' = false) := by
  cases only_first with
  | true =>
    rw [if_pos rfl, mem_take_one]
    simp only [true_implies]
  | false =>
    rw [if_neg Bool.false_ne_true, List.mem_filter, Std.TreeMap.mem_toList_iff_getElem?_eq_some]
    simp

theorem nodup_option {test : Text → Bool} {only_first : Bool} :
    (if only_first = true then (t.toList.filter fun e => test e.1).take 1
        else t.toList.filter fun e => test e.1).Nodup := by
  have once : (t.toList.filter fun e => test e.1).Nodup := by
    rw [← scan_nil]
    exact nodup_filter_scan
  split
  · exact once.sublist (List.take_sublist 1 _)
  · exact once

theorem fetches_of_deletes (has : deletes tcl match_type k = true) :
    fetches tcl match_type k = true := (deletes_iff.mp has).1

/-- The string with a brace and the one without begin no string both. -/
theorem not_both_prefixes (brace : key.head? = some OPEN_BRACE) (some_left : sn_my_JoinStr key ≠ [])
    (joined : sn_my_JoinStr key <+: k) : ¬ key <+: k := by
  intro whole
  obtain ⟨c, rest, split⟩ := List.exists_cons_of_ne_nil some_left
  have inside : c ∈ sn_my_JoinStr key := by rw [split]; exact List.mem_cons_self
  rw [sn_my_JoinStr, if_pos brace, List.mem_filter] at inside
  have first : k.head? = some c := by
    obtain ⟨behind, rfl⟩ := joined
    rw [split]
    rfl
  have first' : k.head? = some OPEN_BRACE := by
    obtain ⟨behind, rfl⟩ := whole
    rw [List.head?_append, brace]
    rfl
  have same : c = OPEN_BRACE := Option.some.inj (first.symm.trans first')
  have kept := inside.2
  rw [same] at kept
  exact absurd kept (by decide)

/-- Where the key is none with a brace, the commands differ only on keys of one field. -/
theorem same_keys_iff (no_brace : key.head? ≠ some OPEN_BRACE) :
    (∀ k ∈ t, (sn_my_JoinStr key <+: k ∧ fetches tcl match_type k = true) ↔
        (key <+: k ∧ deletes tcl match_type k = true)) ↔ ¬ OneField t match_type key := by
  have joined : sn_my_JoinStr key = key := if_neg no_brace
  rw [joined]
  constructor
  · rintro same ⟨end_pattern, rfl, free, starts, stands⟩
    have fetched : fetches tcl (.DB_MATCH_END end_pattern) end_pattern = true := by
      rw [fetches, strrchr_eq_none.mpr free]
      exact decide_eq_true rfl
    have deleted := ((same end_pattern stands).mp ⟨starts, fetched⟩).2
    exact (deletes_iff.mp deleted).2 ⟨rfl, free⟩
  · intro none_such k stands
    refine and_congr_right fun starts => ?_
    rw [deletes_iff]
    constructor
    · exact fun fetched => ⟨fetched, fun ⟨is_end, free⟩ =>
        none_such ⟨k, is_end, free, starts, stands⟩⟩
    · exact And.left

theorem same_keys_brace_iff (brace : key.head? = some OPEN_BRACE) :
    (∀ k ∈ t, (sn_my_JoinStr key <+: k ∧ fetches tcl match_type k = true) ↔
        (key <+: k ∧ deletes tcl match_type k = true)) ↔ BracesMatch tcl t match_type key := by
  unfold BracesMatch
  refine forall₂_congr fun k _ => ?_
  by_cases empty : sn_my_JoinStr key = []
  · rw [if_pos empty, empty]
    constructor
    · exact fun same fetched => same.mp ⟨List.nil_prefix, fetched⟩
    · exact fun all => ⟨fun fetched => all fetched.2,
        fun deleted => ⟨List.nil_prefix, fetches_of_deletes deleted.2⟩⟩
  · rw [if_neg empty]
    constructor
    · intro same fetched
      constructor
      · intro joined
        exact not_both_prefixes brace empty joined (same.mp ⟨joined, fetched⟩).1
      · intro deleted
        exact not_both_prefixes brace empty (same.mpr deleted).1 deleted.1
    · intro none_such
      constructor
      · exact fun fetched => absurd fetched.1 (none_such fetched.2).1
      · exact fun deleted => absurd deleted (none_such (fetches_of_deletes deleted.2)).2

/-- An option in the place of the key: the records that match are those with it as prefix. -/
theorem same_keys_option_iff {only_first : Bool} :
    (∀ k ∈ t, (fetches tcl match_type k = true ∧ (only_first = true →
        ∀ k' ∈ t, fetches tcl match_type k' = true → Table.below k k' = false)) ↔
        (key <+: k ∧ deletes tcl match_type k = true)) ↔
      OptionMatch tcl t match_type key only_first := by
  unfold OptionMatch
  refine forall₂_congr fun k _ => ?_
  constructor
  · intro same fetched
    rw [← same]
    exact and_iff_right fetched
  · intro same
    constructor
    · exact fun ⟨fetched, lowest⟩ => (same fetched).mpr lowest
    · exact fun deleted => ⟨fetches_of_deletes deleted.2,
        (same (fetches_of_deletes deleted.2)).mp deleted⟩

end Both

/-- When `del option pattern key` takes out of a table what `seq option pattern key` returns. -/
theorem del_agrees_seq_iff (tcl : TclMatch) (t : Table) (option : MatchOption)
    (pattern key : Text) (free : 0 ∉ key) :
    Agrees tcl t option.text pattern key ↔
      ∀ match_type, matchType tcl option pattern = some match_type →
        if key.head? = some DASH then
          ∃ only_first, keyOption key = some only_first ∧ OptionMatch tcl t match_type key only_first
        else if key.head? = some OPEN_BRACE then BracesMatch tcl t match_type key
        else ¬ OneField t match_type key := by
  cases compiled : matchType tcl option pattern with
  | none =>
    have refused : Agrees tcl t option.text pattern key := by
      rw [Agrees, dbtclfetch, dbtcldel, (options_agree option).1, (options_agree option).2,
        Option.bind_some, compiled]
      trivial
    simp [refused]
  | some match_type =>
    have selected : ∀ k v, (k, v) ∈ (t.scan key).filter (fun e => deletes tcl match_type e.1) ↔
        t[k]? = some v ∧ key <+: k ∧ deletes tcl match_type k = true :=
      fun k v => mem_filter_scan
    rw [Agrees, dbtcldel_eq free compiled]
    simp only [Option.some.injEq, forall_eq']
    by_cases dash : key.head? = some DASH
    · rw [if_pos dash, dbtclfetch_option dash compiled]
      cases keyOption key with
      | none => simp
      | some only_first =>
        simp only [Option.map_some, Option.some.injEq, exists_eq_left']
        rw [← same_keys_option_iff]
        exact erased_iff (fun k v => mem_option) nodup_option selected nodup_filter_scan
    · rw [if_neg dash, dbtclfetch_key free dash compiled]
      by_cases brace : key.head? = some OPEN_BRACE
      · rw [if_pos brace, ← same_keys_brace_iff brace]
        exact erased_iff (fun k v => mem_filter_scan) nodup_filter_scan selected nodup_filter_scan
      · rw [if_neg brace, ← same_keys_iff brace]
        exact erased_iff (fun k v => mem_filter_scan) nodup_filter_scan selected nodup_filter_scan

/-- A table with a record of one field. -/
def abc : Table := Std.TreeMap.insert ∅ (ascii "abc") (ascii "value")

/-- The functions of Tcl for patterns without special characters. -/
def literal : TclMatch where
  Tcl_StringMatch string pattern := string == pattern
  Tcl_RegExpCompile pattern := some fun string => decide (pattern <:+: string)

/-- A key of one field is found by its end in the one command and not in the other. -/
theorem one_field_kept : ¬ Agrees literal abc (ascii "-end") (ascii "abc") [] := by
  intro agrees
  have fetched : dbtclfetch literal abc (ascii "-end") (ascii "abc") [] =
      some [(ascii "abc", ascii "value")] := by decide
  have deleted := @dbtcldel_eq literal abc (.DB_MATCH_END (ascii "abc")) [] (ascii "abc") .last
    List.not_mem_nil rfl
  rw [MatchOption.text] at deleted
  rw [Agrees, fetched, deleted] at agrees
  obtain ⟨-, -, -, counted⟩ := agrees
  exact absurd counted (by decide)

/-- The part of a key finds it in both commands. -/
theorem del_agrees_strstr : Agrees literal abc (ascii "-strstr") (ascii "bc") (ascii "a") := by
  refine (del_agrees_seq_iff literal abc .strstr (ascii "bc") (ascii "a") (by decide)).mpr ?_
  intro match_type compiled
  rw [if_neg (by decide), if_neg (by decide)]
  rintro ⟨end_pattern, is_end, -⟩
  rw [is_end, matchType, if_neg (by decide)] at compiled
  cases compiled

end SourceNavigator.Hyper.DeleteMatches

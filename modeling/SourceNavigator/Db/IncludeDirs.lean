import Mathlib.Data.List.TakeWhile
import SourceNavigator.Db.Table

/-!
Included files looked up in the include table (`Paf_Search_Include_dir` in `db/dbutils.c`).

The table holds a record for each file, with the name of the file and its directory as key. The
directories that still hold the file are collected, and the records of the others deleted. One
directory is taken as it is; of several, the one that an entry of the include path leads to;
without one, the entries of the include path are tried on the disk.

* `scan_eq` says which directories are collected and which records deleted.
* `search_eq` says for which names no buffer overflows, and what is then returned.
-/

namespace SourceNavigator.Db.IncludeDirs

abbrev SLASH : UInt8 := 47
abbrev DOT : UInt8 := 46
abbrev BACKSLASH : UInt8 := 92

/-! ### Paths -/

/-- The include path as `Paf_Open_Include_Dirs` keeps it: no empty lines and no comments. -/
def include_array (lines : List Text) : List Text :=
  lines.filter fun tmp => decide (tmp ≠ []) && decide (tmp.head? ≠ some 35)

def sn_internal_convert_path (path : Text) : Text :=
  path.map fun c => if c = BACKSLASH then SLASH else c

/-- The parts of a path in front of its last slash and behind it. -/
def file_lastroot : Text → Option (Text × Text)
  | [] => none
  | c :: path =>
    match file_lastroot path with
    | some (dir, base) => some (c :: dir, base)
    | none => if c = SLASH then some ([], path) else none

/-- The directory of an included name, and its base name. -/
def dirn (name : Text) : Text := ((file_lastroot name).map Prod.fst).getD []

def bfn (name : Text) : Text := ((file_lastroot name).map Prod.snd).getD name

/-- `%s/%s` -/
def inDirectory (dir file : Text) : Text := dir ++ SLASH :: file

/-- `sprintf` into a buffer for a path; `none` if it is too small. -/
def sprintf (path : Text) : Option Text := if path.length < MAXPATHLEN then some path else none

section Code

variable (access : Text → Bool) (readable : Text → Bool)

/-! ### The function -/

/-- The table and the directories that are collected. -/
structure Scan where
  db_include : Table
  path_argv : List Text

/-- The body of the loop over the records. -/
def scanRecord (st : Scan) (record : Text × Text) : Option Scan :=
  match cut DB_FLDSEP_CHR record.1 with
  | none => some st
  | some (file, dir) =>
    (sprintf (inDirectory dir file)).map fun incl_file =>
      if access incl_file then { st with path_argv := st.path_argv ++ [dir] }
      else { st with db_include := st.db_include.erase record.1 }

/-- The directory that an entry of the include path leads to. -/
def entryDirectory (dirn ip : Text) : Option Text :=
  if dirn = [] then some ip else sprintf (inDirectory ip dirn)

/-- The loop over the directories, for an entry of the include path. -/
def tryEntry (dirn ip : Text) : List Text → Option (Option Text)
  | [] => some none
  | dir :: path_argv =>
    if ip.headD 0 ≠ dir.headD 0 then tryEntry dirn ip path_argv
    else
      match entryDirectory dirn ip with
      | none => none
      | some p => if p = dir then some (some p) else tryEntry dirn ip path_argv

/-- The loop over the include path: the entry that is found, and its directory. -/
def tryEntries (dirn : Text) (path_argv : List Text) : List Text → Option (Option (Text × Text))
  | [] => some none
  | ip :: ips =>
    match tryEntry dirn ip path_argv with
    | none => none
    | some (some p) => some (some (ip, p))
    | some none => tryEntries dirn path_argv ips

/-- The files of the include path on the disk. -/
def lastPossibility (bfn : Text) : List Text → Option (Option Text)
  | [] => some none
  | ip :: ips =>
    match sprintf (inDirectory ip bfn) with
    | none => none
    | some incl_file => if readable incl_file then some (some incl_file) else lastPossibility bfn ips

/-- The path that is made of the directories that were collected. -/
def includePath (ips : List Text) (name : Text) (path_argv : List Text) : Option Text :=
  match path_argv with
  | [] => (lastPossibility readable (bfn name) ips).map fun found => found.getD name
  | [dir] => if dir.head? = some DOT then some (bfn name) else sprintf (inDirectory dir (bfn name))
  | dir :: dir' :: dirs =>
    match tryEntries (dirn name) (dir :: dir' :: dirs) ips with
    | none => none
    | some (some (ip, p)) =>
      if ip.head? = some DOT then some (bfn name) else sprintf (inDirectory p (bfn name))
    | some none => sprintf (inDirectory dir (bfn name))

/-- `Paf_Search_Include_dir`; the table is opened if the include path has an entry. -/
def Paf_Search_Include_dir (icl : Option Table) (lines : List Text) (name : Text) :
    Option (Text × Option Table) :=
  let name := sn_internal_convert_path name
  match if include_array lines = [] then none else icl with
  | none => some (name, icl)
  | some db_include =>
    if MAXPATHLEN ≤ (dirn name).length then none
    else do
      let filename ← sprintf (bfn name ++ [DB_FLDSEP_CHR])
      let st ← (db_include.scan filename).foldlM (scanRecord access) ⟨db_include, []⟩
      let incl ← includePath readable (include_array lines) name st.path_argv
      some (incl, some st.db_include)

end Code

/-! ### The file that is meant -/

/-- An entry of the include path, extended by the directory of the included name. -/
def extended (dirn ip : Text) : Text := if dirn = [] then ip else inDirectory ip dirn

/-- The directory of a record, if it still holds the file. -/
def recorded (access : Text → Bool) (record : Text × Text) : Option Text :=
  match cut DB_FLDSEP_CHR record.1 with
  | none => none
  | some (file, dir) => if access (inDirectory dir file) then some dir else none

/-- The record of a file that does not exist. -/
def stale (access : Text → Bool) (record : Text × Text) : Bool :=
  match cut DB_FLDSEP_CHR record.1 with
  | none => false
  | some (file, dir) => !access (inDirectory dir file)

/-- The records of a base name. -/
def records (db_include : Table) (name : Text) : List (Text × Text) :=
  db_include.scan (bfn name ++ [DB_FLDSEP_CHR])

/-- The directories that are recorded for a base name and hold the file. -/
def directories (access : Text → Bool) (db_include : Table) (name : Text) : List Text :=
  (records db_include name).filterMap (recorded access)

/-- An entry of the include path leads to one of the directories. -/
def leads (name : Text) (dirs : List Text) (ip : Text) : Bool :=
  dirs.contains (extended (dirn name) ip)

/-- The path of a file in a directory; in the current directory it may be the bare name. -/
def IsPath (dir file path : Text) : Prop :=
  path = inDirectory dir file ∨ dir = [DOT] ∧ path = file

/-- What is meant for an included name: the name itself or the path of a recorded or existing file
in its complete directory, and of several directories the one that the first entry of the include
path leads to, if one does. -/
structure Resolves (readable : Text → Bool) (ips : List Text) (name : Text) (dirs : List Text)
    (incl : Text) : Prop where
  path : incl = name ∨ (∃ dir ∈ dirs, IsPath dir (bfn name) incl) ∨
    ∃ ip ∈ ips, readable (inDirectory ip (bfn name)) = true ∧ incl = inDirectory ip (bfn name)
  first : 2 ≤ dirs.length → ∀ ip, ips.find? (leads name dirs) = some ip →
    IsPath (extended (dirn name) ip) (bfn name) incl

/-! ### The loops -/

/-- The elements up to the first that has a property, with it. -/
def upTo {α : Type} (p : α → Bool) : List α → List α
  | [] => []
  | a :: l => if p a then [a] else a :: upTo p l

/-- The path of a record fits its buffer. -/
def RecordFits (record : Text × Text) : Prop :=
  ∀ file dir, cut DB_FLDSEP_CHR record.1 = some (file, dir) →
    (inDirectory dir file).length < MAXPATHLEN

/-- An entry of the include path fits its buffer, if it is extended: for the first directory
that starts with the same byte. -/
def EntryFits (dirn : Text) (dirs : List Text) (ip : Text) : Prop :=
  dirn ≠ [] → (∃ dir ∈ dirs, ip.headD 0 = dir.headD 0) → (inDirectory ip dirn).length < MAXPATHLEN

section Loops

variable {access readable : Text → Bool} {dirs ips : List Text} {dirn bfn ip path : Text}

theorem sprintf_eq_some {s : Text} : sprintf path = some s ↔ path.length < MAXPATHLEN ∧ s = path := by
  unfold sprintf
  split
  next fits => simp [fits, eq_comm]
  next spills => simp [spills]

/-- One record: its directory is collected or it is deleted. -/
theorem scanRecord_iff {st st' : Scan} {record : Text × Text} :
    scanRecord access st record = some st' ↔ RecordFits record ∧
      st' =
        { db_include := st.db_include.eraseAll (([record].filter (stale access)).map Prod.fst),
          path_argv := st.path_argv ++ [record].filterMap (recorded access) } := by
  unfold scanRecord RecordFits
  cases parts : cut DB_FLDSEP_CHR record.1 with
  | none =>
    have not_stale : stale access record = false := by rw [stale, parts]
    have not_recorded : recorded access record = none := by rw [recorded, parts]
    simp only [Option.some.injEq, reduceCtorEq, IsEmpty.forall_iff, implies_true, true_and,
      List.filter_cons, not_stale, Bool.false_eq_true, if_false, List.filter_nil, List.map_nil,
      List.filterMap_cons, not_recorded, List.filterMap_nil, List.append_nil]
    exact eq_comm
  | some parts' =>
    obtain ⟨file, dir⟩ := parts'
    have is_stale : stale access record = !access (inDirectory dir file) := by rw [stale, parts]
    have is_recorded : recorded access record =
        if access (inDirectory dir file) then some dir else none := by rw [recorded, parts]
    dsimp only
    rw [Option.map_eq_some_iff]
    simp only [sprintf_eq_some, Option.some.injEq, Prod.mk.injEq]
    constructor
    · rintro ⟨incl_file, ⟨fits, rfl⟩, rfl⟩
      refine ⟨fun file' dir' same => by rw [← same.1, ← same.2]; exact fits, ?_⟩
      by_cases holds : access (inDirectory dir file) = true
      · simp [holds, is_stale, is_recorded, Lib.Table.eraseAll]
      · simp [holds, is_stale, is_recorded, Lib.Table.eraseAll]
    · rintro ⟨fits, rfl⟩
      refine ⟨_, ⟨fits file dir ⟨rfl, rfl⟩, rfl⟩, ?_⟩
      by_cases holds : access (inDirectory dir file) = true
      · simp [holds, is_stale, is_recorded, Lib.Table.eraseAll]
      · simp [holds, is_stale, is_recorded, Lib.Table.eraseAll]

/-- The scan collects the directories that hold the file and deletes the other records, if the
path of every record fits. -/
theorem scan_iff {rows : List (Text × Text)} {st st' : Scan} :
    rows.foldlM (scanRecord access) st = some st' ↔ (∀ record ∈ rows, RecordFits record) ∧
      st' =
        { db_include := st.db_include.eraseAll ((rows.filter (stale access)).map Prod.fst),
          path_argv := st.path_argv ++ rows.filterMap (recorded access) } := by
  induction rows generalizing st with
  | nil => simp [Lib.Table.eraseAll, eq_comm]
  | cons record rows ih =>
    rw [List.foldlM_cons, Option.bind_eq_bind, Option.bind_eq_some_iff]
    simp only [scanRecord_iff, ih, List.forall_mem_cons]
    have erased : ∀ t : Table, (t.eraseAll (([record].filter (stale access)).map Prod.fst)).eraseAll
        ((rows.filter (stale access)).map Prod.fst) =
          t.eraseAll (((record :: rows).filter (stale access)).map Prod.fst) := by
      intro t
      rw [Lib.Table.eraseAll, Lib.Table.eraseAll, ← List.foldl_append, ← List.map_append,
        ← List.filter_append]
      rfl
    have collected : [record].filterMap (recorded access) ++ rows.filterMap (recorded access) =
        (record :: rows).filterMap (recorded access) := by
      rw [← List.filterMap_append]
      rfl
    constructor
    · rintro ⟨st'', ⟨fits, rfl⟩, rest, rfl⟩
      exact ⟨⟨fits, rest⟩, by rw [← collected, ← erased, List.append_assoc]⟩
    · rintro ⟨⟨fits, rest⟩, rfl⟩
      exact ⟨_, ⟨fits, rfl⟩, rest, by rw [← collected, ← erased, List.append_assoc]⟩

theorem entryDirectory_eq_some {p : Text} :
    entryDirectory dirn ip = some p ↔
      (dirn ≠ [] → (inDirectory ip dirn).length < MAXPATHLEN) ∧ p = extended dirn ip := by
  unfold entryDirectory extended
  split
  next empty => simp [empty, eq_comm]
  next some_dir => simp [some_dir, sprintf_eq_some]

/-- An extended entry starts as the entry does. -/
theorem headD_extended (some_byte : ip ≠ []) : (extended dirn ip).headD 0 = ip.headD 0 := by
  obtain ⟨c, rest, rfl⟩ := List.exists_cons_of_ne_nil some_byte
  unfold extended
  split
  · rfl
  · rfl

/-- An entry leads to the directory it is extended to, if that is one of them. -/
theorem tryEntry_iff (some_byte : ip ≠ []) {found : Option Text} :
    tryEntry dirn ip dirs = some found ↔ EntryFits dirn dirs ip ∧
      found = if extended dirn ip ∈ dirs then some (extended dirn ip) else none := by
  induction dirs with
  | nil => simp [tryEntry, EntryFits, eq_comm]
  | cons dir dirs ih =>
    have head := @headD_extended dirn ip some_byte
    rw [tryEntry]
    by_cases differ : ip.headD 0 = dir.headD 0
    case neg =>
      have other : extended dirn ip ≠ dir := by
        rintro rfl
        exact differ head.symm
      have rest : EntryFits dirn (dir :: dirs) ip ↔ EntryFits dirn dirs ip := by
        refine imp_congr_right fun _ => imp_congr_left ?_
        rw [List.exists_mem_cons_iff, or_iff_right differ]
      have found_later : extended dirn ip ∈ dir :: dirs ↔ extended dirn ip ∈ dirs := by
        rw [List.mem_cons, or_iff_right other]
      rw [if_pos differ, ih, rest]
      simp only [found_later]
    rw [if_neg (not_not.mpr differ)]
    cases entry : entryDirectory dirn ip with
    | none =>
      have spills : ¬ (dirn ≠ [] → (inDirectory ip dirn).length < MAXPATHLEN) := by
        intro fits
        rw [entryDirectory_eq_some.mpr ⟨fits, rfl⟩] at entry
        cases entry
      have unfit : ¬ EntryFits dirn (dir :: dirs) ip := fun fits =>
        spills fun some_dir => fits some_dir ⟨dir, List.mem_cons_self, differ⟩
      simp [unfit]
    | some p =>
      obtain ⟨fits, rfl⟩ := entryDirectory_eq_some.mp entry
      have entry_fits : ∀ dirs, EntryFits dirn dirs ip := fun _ some_dir _ => fits some_dir
      dsimp only
      by_cases same : extended dirn ip = dir
      · rw [if_pos same]
        simp [entry_fits, same, eq_comm]
      · rw [if_neg same, ih]
        simp [entry_fits, same]

/-- The first entry that leads to a directory is found, if every entry up to it fits. -/
theorem tryEntries_iff (some_bytes : ∀ ip ∈ ips, ip ≠ []) {found : Option (Text × Text)} :
    tryEntries dirn dirs ips = some found ↔
      (∀ ip ∈ upTo (fun ip => dirs.contains (extended dirn ip)) ips, EntryFits dirn dirs ip) ∧
        found = (ips.find? fun ip => dirs.contains (extended dirn ip)).map
          fun ip => (ip, extended dirn ip) := by
  induction ips with
  | nil => simp [tryEntries, upTo, eq_comm]
  | cons ip ips ih =>
    obtain ⟨some_byte, rest⟩ := List.forall_mem_cons.mp some_bytes
    have step := @tryEntry_iff dirs dirn ip some_byte
    rw [tryEntries, upTo, List.find?_cons]
    cases tried : tryEntry dirn ip dirs with
    | none =>
      have unfit : ¬ EntryFits dirn dirs ip := by
        intro fits
        rw [step.mpr ⟨fits, rfl⟩] at tried
        cases tried
      by_cases leads : extended dirn ip ∈ dirs
      · simp [leads, unfit]
      · simp [leads, unfit]
    | some found' =>
      obtain ⟨fits, rfl⟩ := step.mp tried
      by_cases leads : extended dirn ip ∈ dirs
      · simp [leads, fits, eq_comm]
      · simp [leads, fits, ih rest]

/-- The first file that can be read is found, if every path up to it fits. -/
theorem lastPossibility_iff {found : Option Text} :
    lastPossibility readable bfn ips = some found ↔
      (∀ ip ∈ upTo (fun ip => readable (inDirectory ip bfn)) ips,
        (inDirectory ip bfn).length < MAXPATHLEN) ∧
        found = (ips.find? fun ip => readable (inDirectory ip bfn)).map
          fun ip => inDirectory ip bfn := by
  induction ips with
  | nil => simp [lastPossibility, upTo, eq_comm]
  | cons ip ips ih =>
    rw [lastPossibility, upTo, List.find?_cons]
    cases printed : sprintf (inDirectory ip bfn) with
    | none =>
      have spills : ¬ (inDirectory ip bfn).length < MAXPATHLEN := by
        intro fits
        rw [sprintf_eq_some.mpr ⟨fits, rfl⟩] at printed
        cases printed
      by_cases reads : readable (inDirectory ip bfn) = true
      · simp [reads, spills]
      · simp [reads, spills]
    | some incl_file =>
      obtain ⟨fits, rfl⟩ := sprintf_eq_some.mp printed
      by_cases reads : readable (inDirectory ip bfn) = true
      · simp [reads, fits, eq_comm]
      · simp [reads, fits, ih]

end Loops

/-! ### The path that is returned -/

/-- The path that is returned if no buffer overflows. -/
def returned (readable : Text → Bool) (ips : List Text) (name : Text) : List Text → Text
  | [] =>
    ((ips.find? fun ip => readable (inDirectory ip (bfn name))).map
      fun ip => inDirectory ip (bfn name)).getD name
  | [dir] => if dir.head? = some DOT then bfn name else inDirectory dir (bfn name)
  | dir :: dir' :: dirs =>
    match ips.find? (leads name (dir :: dir' :: dirs)) with
    | some ip =>
      if ip.head? = some DOT then bfn name
      else inDirectory (extended (dirn name) ip) (bfn name)
    | none => inDirectory dir (bfn name)

/-- The paths that are tried and the one that is returned fit the buffer. -/
def PathFits (readable : Text → Bool) (ips : List Text) (name : Text) (dirs : List Text) : Prop :=
  (dirs = [] → ∀ ip ∈ upTo (fun ip => readable (inDirectory ip (bfn name))) ips,
    (inDirectory ip (bfn name)).length < MAXPATHLEN) ∧
  (2 ≤ dirs.length → ∀ ip ∈ upTo (leads name dirs) ips, EntryFits (dirn name) dirs ip) ∧
  (dirs ≠ [] → returned readable ips name dirs ≠ bfn name →
    (returned readable ips name dirs).length < MAXPATHLEN)

section Returned

variable {readable : Text → Bool} {dirs ips : List Text} {name path : Text}

theorem inDirectory_ne (dir file : Text) : inDirectory dir file ≠ file := by
  intro same
  have length := congrArg List.length same
  rw [inDirectory, List.length_append, List.length_cons] at length
  omega

/-- The path of the directories, if it and those that are tried fit. -/
theorem includePath_iff (some_bytes : ∀ ip ∈ ips, ip ≠ []) :
    includePath readable ips name dirs = some path ↔
      PathFits readable ips name dirs ∧ path = returned readable ips name dirs := by
  unfold PathFits
  match dirs with
  | [] =>
    rw [includePath, Option.map_eq_some_iff, returned]
    simp only [lastPossibility_iff]
    constructor
    · rintro ⟨found, ⟨fits, rfl⟩, rfl⟩
      exact ⟨⟨fun _ => fits, by simp, by simp⟩, rfl⟩
    · rintro ⟨⟨fits, -, -⟩, rfl⟩
      exact ⟨_, ⟨fits trivial, rfl⟩, rfl⟩
  | [dir] =>
    rw [includePath, returned]
    by_cases dot : dir.head? = some DOT
    · rw [if_pos dot, if_pos dot]
      simp [eq_comm]
    · rw [if_neg dot, if_neg dot, sprintf_eq_some]
      simp [inDirectory_ne]
  | dir :: dir' :: dirs =>
    have found_iff := fun found => @tryEntries_iff (dir :: dir' :: dirs) ips (dirn name) some_bytes found
    have some_dir : dir :: dir' :: dirs ≠ [] := List.cons_ne_nil _ _
    have several : 2 ≤ (dir :: dir' :: dirs).length := by simp
    rw [includePath, returned]
    cases tried : tryEntries (dirn name) (dir :: dir' :: dirs) ips with
    | none =>
      have unfit : ¬ ∀ ip ∈ upTo (leads name (dir :: dir' :: dirs)) ips,
          EntryFits (dirn name) (dir :: dir' :: dirs) ip := by
        intro fits
        rw [(found_iff _).mpr ⟨fits, rfl⟩] at tried
        cases tried
      simp [unfit]
    | some found =>
      obtain ⟨fits, same⟩ := (found_iff _).mp tried
      have entries : (∀ ip ∈ upTo (leads name (dir :: dir' :: dirs)) ips,
          EntryFits (dirn name) (dir :: dir' :: dirs) ip) ↔ True := iff_true_intro fits
      have none_empty : dir :: dir' :: dirs = [] ↔ False := by simp
      simp only [none_empty, false_imp_iff, several, true_imp_iff, entries, true_and, ne_eq,
        not_false_iff]
      change found = (ips.find? (leads name (dir :: dir' :: dirs))).map _ at same
      cases first : ips.find? (leads name (dir :: dir' :: dirs)) with
      | none =>
        rw [first] at same
        rw [same]
        dsimp only [Option.map_none]
        rw [sprintf_eq_some]
        simp [inDirectory_ne]
      | some ip =>
        rw [first] at same
        rw [same]
        dsimp only [Option.map_some]
        by_cases dot : ip.head? = some DOT
        · rw [if_pos dot, if_pos dot]
          simp [eq_comm]
        · rw [if_neg dot, if_neg dot, sprintf_eq_some]
          simp [inDirectory_ne]

/-- What is not at the end of a path is in its directory. -/
theorem file_lastroot_spec (name : Text) :
    match file_lastroot name with
    | none => SLASH ∉ name
    | some (dir, base) => name = inDirectory dir base ∧ SLASH ∉ base := by
  induction name with
  | nil => exact List.not_mem_nil
  | cons c name ih =>
    rw [file_lastroot]
    cases split : file_lastroot name with
    | some parts =>
      rw [split] at ih
      exact ⟨congrArg (c :: ·) ih.1, ih.2⟩
    | none =>
      rw [split] at ih
      dsimp only
      by_cases slash : c = SLASH
      · rw [if_pos slash]
        exact ⟨by rw [slash]; rfl, ih⟩
      · rw [if_neg slash]
        rw [List.mem_cons, not_or]
        exact ⟨Ne.symm slash, ih⟩

theorem slash_notMem_bfn (name : Text) : SLASH ∉ bfn name := by
  have spec := file_lastroot_spec name
  unfold bfn
  cases split : file_lastroot name with
  | none =>
    rw [split] at spec
    exact spec
  | some parts =>
    rw [split] at spec
    exact spec.2

/-- The base name is the whole name exactly if there is no slash. -/
theorem bfn_eq_iff (name : Text) : bfn name = name ↔ SLASH ∉ name := by
  constructor
  · intro same
    rw [← same]
    exact slash_notMem_bfn name
  · intro free
    have spec := file_lastroot_spec name
    unfold bfn
    cases split : file_lastroot name with
    | none => rfl
    | some parts =>
      rw [split] at spec
      refine absurd ?_ free
      rw [spec.1, inDirectory]
      exact List.mem_append_right _ List.mem_cons_self

/-- A directory with a leading dot is left out of the path only where it is the current one: a
single one also if the name has no directory, and the one that is found of several. -/
structure NoDot (ips : List Text) (name : Text) (dirs : List Text) : Prop where
  single : ∀ dir, dirs = [dir] → dir.head? = some DOT → dir = [DOT] ∨ SLASH ∉ name
  several : 2 ≤ dirs.length → ∀ ip, ips.find? (leads name dirs) = some ip →
    ip.head? = some DOT → extended (dirn name) ip = [DOT]

/-- What is returned is the file that is meant exactly if no other directory is left out. -/
theorem resolves_iff : Resolves readable ips name dirs (returned readable ips name dirs) ↔
    NoDot ips name dirs := by
  have slashed : ∀ dir, bfn name ≠ inDirectory dir (bfn name) := fun dir => (inDirectory_ne dir _).symm
  constructor
  · intro resolves
    constructor
    · rintro dir rfl dot
      rw [returned, if_pos dot] at resolves
      rw [← bfn_eq_iff]
      rcases resolves.path with same | ⟨dir', mem, same | current⟩ | ⟨ip, -, -, same⟩
      · exact .inr same
      · exact absurd same (slashed dir')
      · rw [← List.mem_singleton.mp mem]
        exact .inl current.1
      · exact absurd same (slashed ip)
    · intro several ip first dot
      have meant := resolves.first several ip first
      match dirs, several with
      | dir :: dir' :: dirs, _ =>
        rw [returned, first] at meant
        dsimp only at meant
        rw [if_pos dot] at meant
        rcases meant with same | current
        · exact absurd same (slashed _)
        · exact current.1
  · intro no_dot
    match dirs with
    | [] =>
      refine ⟨?_, fun several => absurd several (by simp)⟩
      rw [returned]
      cases first : ips.find? fun ip => readable (inDirectory ip (bfn name)) with
      | none => exact .inl rfl
      | some ip =>
        have reads := List.find?_some first
        exact .inr (.inr ⟨ip, List.mem_of_find?_eq_some first, reads, rfl⟩)
    | [dir] =>
      refine ⟨?_, fun several => absurd several (by simp)⟩
      rw [returned]
      by_cases dot : dir.head? = some DOT
      · rw [if_pos dot]
        rcases no_dot.single dir rfl dot with current | bare
        · exact .inr (.inl ⟨dir, List.mem_cons_self, .inr ⟨current, rfl⟩⟩)
        · exact .inl ((bfn_eq_iff name).mpr bare)
      · rw [if_neg dot]
        exact .inr (.inl ⟨dir, List.mem_cons_self, .inl rfl⟩)
    | dir :: dir' :: dirs =>
      rw [returned]
      cases first : ips.find? (leads name (dir :: dir' :: dirs)) with
      | none =>
        refine ⟨.inr (.inl ⟨dir, List.mem_cons_self, .inl rfl⟩), fun _ ip found => ?_⟩
        rw [first] at found
        cases found
      | some ip =>
        have leading := List.find?_some first
        have leads_to : extended (dirn name) ip ∈ dir :: dir' :: dirs :=
          List.contains_iff_mem.mp leading
        have path : IsPath (extended (dirn name) ip) (bfn name)
            (if ip.head? = some DOT then bfn name
              else inDirectory (extended (dirn name) ip) (bfn name)) := by
          split
          next dot => exact .inr ⟨no_dot.several (by simp) ip first dot, rfl⟩
          next => exact .inl rfl
        refine ⟨.inr (.inl ⟨_, leads_to, path⟩), fun _ ip' found => ?_⟩
        rw [first] at found
        cases found
        exact path

end Returned

/-! ### The search -/

/-- The buffers are large enough for the name, the paths of its records, and those that are tried
and returned. -/
structure Fits (access readable : Text → Bool) (db_include : Table) (ips : List Text)
    (name : Text) : Prop where
  dirn : (dirn name).length < MAXPATHLEN
  filename : (bfn name).length + 1 < MAXPATHLEN
  records : ∀ record ∈ records db_include name, RecordFits record
  paths : PathFits readable ips name (directories access db_include name)

section Search

variable {access readable : Text → Bool} {icl : Option Table} {lines : List Text} {name : Text}

theorem ne_nil_of_mem_include_array {ip : Text} (mem : ip ∈ include_array lines) : ip ≠ [] := by
  have kept := (List.mem_filter.mp mem).2
  rw [Bool.and_eq_true, decide_eq_true_iff] at kept
  exact kept.1

/-- With an include table and a path, the search returns what is made of the directories that
hold the file, and deletes the other records, if the buffers are large enough. -/
theorem search_eq {db_include : Table} (some_path : include_array lines ≠ [])
    {result : Text × Option Table} :
    Paf_Search_Include_dir access readable (some db_include) lines name = some result ↔
      Fits access readable db_include (include_array lines) (sn_internal_convert_path name) ∧
        result =
          (returned readable (include_array lines) (sn_internal_convert_path name)
              (directories access db_include (sn_internal_convert_path name)),
            some (db_include.eraseAll
              (((records db_include (sn_internal_convert_path name)).filter
                (stale access)).map Prod.fst))) := by
  unfold Paf_Search_Include_dir
  dsimp only
  rw [if_neg some_path]
  generalize sn_internal_convert_path name = name
  dsimp only
  have some_bytes : ∀ ip ∈ include_array lines, ip ≠ [] := fun ip => ne_nil_of_mem_include_array
  constructor
  · intro found
    split at found
    · cases found
    next short =>
      simp only [Option.bind_eq_bind, Option.bind_eq_some_iff, sprintf_eq_some, scan_iff,
        includePath_iff some_bytes] at found
      obtain ⟨filename, ⟨fits, rfl⟩, st, ⟨scanned, rfl⟩, path, ⟨paths, rfl⟩, same⟩ := found
      rw [List.length_append, List.length_singleton] at fits
      exact ⟨⟨Nat.lt_of_not_le short, fits, scanned, paths⟩, (Option.some.inj same).symm⟩
  · rintro ⟨fits, rfl⟩
    rw [if_neg (Nat.not_le_of_lt fits.dirn)]
    simp only [Option.bind_eq_bind, Option.bind_eq_some_iff, sprintf_eq_some, scan_iff,
      includePath_iff some_bytes]
    refine ⟨_, ⟨?_, rfl⟩, _, ⟨fits.records, rfl⟩, _, ⟨fits.paths, rfl⟩, rfl⟩
    rw [List.length_append, List.length_singleton]
    exact fits.filename

/-- The directories that the search looks at: none without an include path or without a table. -/
def searched (access : Text → Bool) (icl : Option Table) (lines : List Text) (name : Text) :
    List Text :=
  match if include_array lines = [] then none else icl with
  | none => []
  | some db_include => directories access db_include (sn_internal_convert_path name)

/-- The search returns the file that is meant exactly if there is no include table or no path, or
its buffers are large enough and no directory but the current one is left out. -/
theorem search_include_iff (access readable : Text → Bool) (icl : Option Table)
    (lines : List Text) (name : Text) :
    (∃ result, Paf_Search_Include_dir access readable icl lines name = some result ∧
      Resolves readable (include_array lines) (sn_internal_convert_path name)
        (searched access icl lines name) result.1) ↔
    include_array lines = [] ∨ ∀ db_include, icl = some db_include →
      Fits access readable db_include (include_array lines) (sn_internal_convert_path name) ∧
        NoDot (include_array lines) (sn_internal_convert_path name)
          (searched access icl lines name) := by
  by_cases no_path : include_array lines = []
  · refine iff_of_true ⟨(sn_internal_convert_path name, icl), ?_, ?_⟩ (.inl no_path)
    · simp [Paf_Search_Include_dir, no_path]
    · refine ⟨.inl rfl, fun several => absurd several ?_⟩
      simp [searched, no_path]
  · rw [or_iff_right no_path]
    cases icl with
    | none =>
      refine iff_of_true ⟨(sn_internal_convert_path name, none), ?_, ?_⟩ (by simp)
      · simp [Paf_Search_Include_dir]
      · refine ⟨.inl rfl, fun several => absurd several ?_⟩
        simp [searched]
    | some db_include =>
      have dirs : searched access (some db_include) lines name =
          directories access db_include (sn_internal_convert_path name) := by
        simp [searched, no_path]
      rw [dirs]
      simp only [Option.some.injEq, forall_eq', search_eq no_path]
      constructor
      · rintro ⟨result, ⟨fits, rfl⟩, resolves⟩
        exact ⟨fits, resolves_iff.mp resolves⟩
      · rintro ⟨fits, no_dot⟩
        exact ⟨_, ⟨fits, rfl⟩, resolves_iff.mpr no_dot⟩

end Search

/-- A table with one file, in a directory beside the project. -/
def besideTable : Table := (∅ : Table).insert (ascii "a.h\x01../inc") []

/-- The file of the only record is returned without its directory. -/
theorem directory_dropped :
    ¬ ∃ result, Paf_Search_Include_dir (fun _ => true) (fun _ => false) (some besideTable)
        [ascii "/usr/include"] (ascii "sub/a.h") = some result ∧
      Resolves (fun _ => false) (include_array [ascii "/usr/include"])
        (sn_internal_convert_path (ascii "sub/a.h"))
        (searched (fun _ => true) (some besideTable) [ascii "/usr/include"] (ascii "sub/a.h"))
        result.1 := by
  have incl : (Paf_Search_Include_dir (fun _ => true) (fun _ => false) (some besideTable)
      [ascii "/usr/include"] (ascii "sub/a.h")).map Prod.fst = some (ascii "a.h") := by decide
  have dirs : searched (fun _ => true) (some besideTable) [ascii "/usr/include"]
      (ascii "sub/a.h") = [ascii "../inc"] := by decide
  rintro ⟨result, found, resolves⟩
  rw [found, Option.map_some, Option.some.injEq] at incl
  rw [incl, dirs] at resolves
  rcases resolves.path with same | ⟨dir, mem, same | current⟩ | ⟨ip, -, read, -⟩
  · exact absurd same (by decide)
  · rw [List.mem_singleton.mp mem] at same
    exact absurd same (by decide)
  · rw [List.mem_singleton.mp mem] at current
    exact absurd current.1 (by decide)
  · cases read

end SourceNavigator.Db.IncludeDirs

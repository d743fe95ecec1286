import Mathlib.Data.Fintype.Defs
import SourceNavigator.Text

/-!
Directories, links, and the paths that lead to them.

The directories form a tree, and links lead from one directory to another in any
way. A path is resolved name by name, from the root or from the working
directory; `lstat`, `stat`, `realpath` and `opendir` are what the C library
says about a path. Resolution fails when it has followed `SYMLOOP_MAX` links.

* `directory_child` and `fileOf_child` say where the path of an entry leads.
-/

namespace SourceNavigator.Hyper

abbrev SLASH : UInt8 := 47
abbrev DOT : UInt8 := 46

/-- An entry of a directory. A link leads to a directory, or to no directory; `hops` counts the
links that are followed on the way. -/
inductive Entry (Dir : Type)
  | file
  | dir (d : Dir)
  | link (hops : Nat) (target : Option Dir)
  deriving DecidableEq

/-- The name of an entry. -/
def IsName (name : Text) : Prop :=
  name ≠ [] ∧ name ≠ [DOT] ∧ name ≠ [DOT, DOT] ∧ SLASH ∉ name

instance (name : Text) : Decidable (IsName name) := inferInstanceAs (Decidable (_ ∧ _ ∧ _ ∧ _))

/-- A file system with finitely many directories. `entries` has the order of `readdir`, and `path`
the names from the root to a directory. -/
structure FileSystem where
  Dir : Type
  [fintype : Fintype Dir]
  [decEq : DecidableEq Dir]
  root : Dir
  cwd : Dir
  parent : Dir → Dir
  entries : Dir → List (Text × Entry Dir)
  readable : Dir → Bool
  path : Dir → List Text
  SYMLOOP_MAX : Nat
  nodup_names : ∀ d, ((entries d).map Prod.fst).Nodup
  isName : ∀ d, ∀ e ∈ entries d, IsName e.1
  path_root : path root = []
  path_entry : ∀ d, ∀ e ∈ entries d, ∀ d', e.2 = .dir d' → path d' = path d ++ [e.1] ∧ parent d' = d

attribute [instance] FileSystem.fintype FileSystem.decEq

namespace FileSystem

variable (fs : FileSystem)

/-- One name of a path, from a directory that was reached over some links. -/
def follow (place : fs.Dir × Nat) (name : Text) : Option (fs.Dir × Nat) :=
  if name = [] ∨ name = [DOT] then some place
  else if name = [DOT, DOT] then some (fs.parent place.1, place.2)
  else
    match (fs.entries place.1).lookup name with
    | some (.dir d) => some (d, place.2)
    | some (.link hops (some d)) =>
      if place.2 + hops ≤ fs.SYMLOOP_MAX then some (d, place.2 + hops) else none
    | _ => none

/-- Where a path starts. -/
def start (p : Text) : fs.Dir × Nat := (if p.head? = some SLASH then fs.root else fs.cwd, 0)

def resolve (p : Text) : Option (fs.Dir × Nat) :=
  if p = [] then none else (p.splitOn SLASH).foldlM fs.follow (fs.start p)

/-- The directory that a path leads to (`stat`). -/
def directory (p : Text) : Option fs.Dir := (fs.resolve p).map Prod.fst

/-- The directory that holds the last name of a path, with the links followed to it, and that
name. -/
def holder (p : Text) : Option ((fs.Dir × Nat) × Text) :=
  if p = [] then none
  else
    ((p.splitOn SLASH).dropLast.foldlM fs.follow (fs.start p)).map fun place =>
      (place, (p.splitOn SLASH).getLastD [])

/-- The file that a path names: its directory and its name in it. -/
def fileOf (p : Text) : Option (fs.Dir × Text) := (fs.holder p).map fun h => (h.1.1, h.2)

/-- What a name is in a directory. -/
def entry (d : fs.Dir) (name : Text) : Option (Entry fs.Dir) :=
  if name = [] ∨ name = [DOT] then some (.dir d)
  else if name = [DOT, DOT] then some (.dir (fs.parent d))
  else (fs.entries d).lookup name

/-- What a path names, where a link at its end is not followed. -/
def lstat (p : Text) : Option (Entry fs.Dir) :=
  (fs.holder p).bind fun h => fs.entry h.1.1 h.2

/-- The path of a directory without links. -/
def absolute (d : fs.Dir) : Text := SLASH :: List.intercalate [SLASH] (fs.path d)

/-- `realpath` of a path to a directory. -/
def realpath (p : Text) : Option Text := (fs.directory p).map fs.absolute

/-- What `readdir` returns until it returns `NULL`. -/
def readdir (d : fs.Dir) : List Text := [DOT] :: [DOT, DOT] :: (fs.entries d).map Prod.fst

def opendir (p : Text) : Option (List Text) :=
  (fs.directory p).bind fun d => if fs.readable d then some (fs.readdir d) else none

variable {fs} in
theorem mem_readdir {d : fs.Dir} {name : Text} (mem : name ∈ fs.readdir d) :
    name = [DOT] ∨ name = [DOT, DOT] ∨ IsName name := by
  rcases List.mem_cons.mp mem with here | mem
  · exact .inl here
  rcases List.mem_cons.mp mem with up | mem
  · exact .inr (.inl up)
  obtain ⟨e, there, rfl⟩ := List.mem_map.mp mem
  exact .inr (.inr (fs.isName d e there))

variable {fs} in
/-- `readdir` returns no name twice. -/
theorem nodup_readdir (d : fs.Dir) : (fs.readdir d).Nodup := by
  have valid : ∀ name ∈ (fs.entries d).map Prod.fst, IsName name := by
    intro name mem
    obtain ⟨e, there, rfl⟩ := List.mem_map.mp mem
    exact fs.isName d e there
  refine List.nodup_cons.mpr ⟨?_, List.nodup_cons.mpr ⟨?_, fs.nodup_names d⟩⟩
  · intro mem
    rcases List.mem_cons.mp mem with same | mem
    · cases same
    · exact (valid _ mem).2.1 rfl
  · intro mem
    exact (valid _ mem).2.2.1 rfl

/-! ### The path of an entry -/

section Child

variable {fs} {p name : Text} {d : fs.Dir} {k : Nat}

theorem splitOn_child {c : UInt8} {s : Text} (absent : c ∉ s) (p : Text) :
    (p ++ c :: s).splitOn c = p.splitOn c ++ [s] := by
  induction p with
  | nil =>
    rw [List.nil_append, List.splitOn_nil, List.splitOn_cons_eq_if_modifyHead,
      if_pos (beq_self_eq_true c), List.splitOn_eq_singleton absent]
    rfl
  | cons b p ih =>
    rw [List.cons_append, List.splitOn_cons_eq_if_modifyHead, List.splitOn_cons_eq_if_modifyHead,
      ih]
    split
    · rfl
    · cases pieces : p.splitOn c with
      | nil => exact absurd pieces (List.splitOn_ne_nil c p)
      | cons q qs => rfl

theorem start_append (nonempty : p ≠ []) (s : Text) : fs.start (p ++ s) = fs.start p := by
  cases p with
  | nil => exact absurd rfl nonempty
  | cons c p => rfl

theorem ne_nil_of_directory (h : fs.directory p = some d) : p ≠ [] := by
  rintro rfl
  cases h

theorem resolve_of_directory (h : fs.directory p = some d) :
    ∃ k, (p.splitOn SLASH).foldlM fs.follow (fs.start p) = some (d, k) := by
  obtain ⟨⟨d', k⟩, resolved, rfl⟩ := Option.map_eq_some_iff.mp h
  rw [resolve, if_neg (ne_nil_of_directory h)] at resolved
  exact ⟨k, resolved⟩

/-- The path of an entry names the entry. -/
theorem fileOf_child (h : fs.directory p = some d) (valid : SLASH ∉ name) :
    fs.fileOf (p ++ SLASH :: name) = some (d, name) := by
  obtain ⟨k, resolved⟩ := resolve_of_directory h
  have nonempty := ne_nil_of_directory h
  have longer : p ++ SLASH :: name ≠ [] := by simp
  rw [fileOf, holder, if_neg longer, splitOn_child valid, List.dropLast_concat,
    start_append nonempty, resolved, List.getLastD_concat]
  rfl

/-- A single name is one in the working directory. -/
theorem fileOf_name (valid : IsName name) : fs.fileOf name = some (fs.cwd, name) := by
  obtain ⟨nonempty, _, _, no_slash⟩ := valid
  have relative : fs.start name = (fs.cwd, 0) := by
    rw [start, if_neg]
    intro first
    exact no_slash (List.mem_of_mem_head? first)
  rw [fileOf, holder, if_neg nonempty, List.splitOn_eq_singleton no_slash, relative]
  rfl

end Child

/-! ### The path of a directory -/

section Directory

variable {fs} {p : Text} {d : fs.Dir}

theorem splitOn_eq_concat (p : Text) :
    p.splitOn SLASH = (p.splitOn SLASH).dropLast ++ [(p.splitOn SLASH).getLastD []] := by
  rcases List.eq_nil_or_concat (p.splitOn SLASH) with none | ⟨init, last, pieces⟩
  · exact absurd none (List.splitOn_ne_nil SLASH p)
  · rw [pieces, List.concat_eq_append, List.dropLast_concat, List.getLastD_concat]

/-- The last step to a directory. -/
theorem holder_of_directory (h : fs.directory p = some d) :
    ∃ place name k, fs.holder p = some (place, name) ∧ fs.follow place name = some (d, k) := by
  obtain ⟨k, resolved⟩ := resolve_of_directory h
  rw [splitOn_eq_concat, List.foldlM_append] at resolved
  obtain ⟨place, first, last⟩ := Option.bind_eq_some_iff.mp resolved
  rw [List.foldlM_cons] at last
  obtain ⟨last_place, followed, same⟩ := Option.bind_eq_some_iff.mp last
  cases same
  refine ⟨place, _, k, ?_, followed⟩
  rw [holder, if_neg (ne_nil_of_directory h), first]
  rfl

/-- On a path to a directory `lstat` finds a directory or a link. -/
theorem lstat_of_directory (h : fs.directory p = some d) :
    fs.lstat p = some (.dir d) ∨ ∃ hops target, fs.lstat p = some (.link hops target) := by
  obtain ⟨place, name, k, held, followed⟩ := holder_of_directory h
  rw [lstat, held, Option.bind_some, entry]
  rw [follow] at followed
  split at followed
  next stays =>
    cases followed
    exact .inl (if_pos stays)
  next moves =>
    rw [if_neg moves]
    split at followed
    next up =>
      cases followed
      exact .inl (if_pos up)
    next down =>
      rw [if_neg down]
      split at followed
      next e found =>
        cases followed
        exact .inl found
      next hops e found => exact .inr ⟨hops, some e, found⟩
      next => cases followed

end Directory

end FileSystem

end SourceNavigator.Hyper

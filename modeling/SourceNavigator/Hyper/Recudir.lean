import SourceNavigator.Lib.Run
import SourceNavigator.Hyper.FileSystem

/-!
The recursive scan of directories (`hyper/recudir.c`).

`recursive_glob` handles one path: a file is added to the list of files, a
directory to the lists of directories that were scanned, and then it is read,
unless it is found in these lists. The calls for the entries of a directory are
made between two calls of `readdir`; `step` is what happens up to the next of
these, with the directories that are being read on a stack.
-/

namespace SourceNavigator.Hyper

/-- The options of `sn_glob`. `wanted` is the match of a path against `-regexp` or `-match`, and
`updatecommand` says whether the command cancels the scan: when it is evaluated with this count
and in this directory. -/
structure Options where
  dir_suff : Text
  showhidden : Bool
  all_dirs : Bool
  show_files : Bool
  ignored_dirs : List Text
  wanted : Text → Bool
  updatecommand : Option (Nat → Text → Bool)

/-- The part of `Glob_Type` that changes, and the paths that `opendir` was called with. -/
structure Glob_Type where
  dirlist : List Text
  filelist : List Text
  realdirlist : List Text
  dirlevel : Int
  dircounter : Nat
  link_found : Nat
  opened : List Text
  deriving DecidableEq

def scan_list (dirlist : List Text) (dir : Text) : Bool := dir ≠ [] && dirlist.contains dir

def path_already_scanned (rp : Glob_Type) (dr realp : Text) : Bool :=
  rp.link_found ≠ 0 &&
    (scan_list rp.realdirlist realp || scan_list rp.realdirlist dr ||
      scan_list rp.dirlist dr || scan_list rp.dirlist realp)

/-- Whether a path leads to a directory, and whether it is a link. -/
def is_dir (fs : FileSystem) (dr : Text) : Bool × Bool :=
  match fs.lstat dr with
  | some (.dir _) => (true, false)
  | some (.link _ _) => ((fs.directory dr).isSome, true)
  | _ => (false, false)

/-- The path without `./` before it. -/
def skipDot : Text → Text
  | 46 :: 47 :: file => file
  | file => file

/-- What follows the last slash (`file_lastroot`). -/
def lastName (file : Text) : Text := (file.splitOn SLASH).getLastD []

section Directory

variable (fs : FileSystem) (o : Options)

/-- The name that a directory is listed under. -/
def dirbuf (file : Text) : Text :=
  if o.showhidden || file.head? ≠ some DOT then file ++ o.dir_suff else []

/-- The real path of a link. -/
def realp (file : Text) : Text := if (is_dir fs file).2 then (fs.realpath file).getD [] else []

def ignored (file : Text) : Bool := o.ignored_dirs.contains (lastName file)

/-- A link is counted. -/
def countLink (file : Text) (rp : Glob_Type) : Glob_Type :=
  if (is_dir fs file).2 then { rp with link_found := rp.link_found + 1 } else rp

/-- The directory is put on the lists. -/
def listDirectory (file : Text) (rp : Glob_Type) : Glob_Type :=
  { rp with
    realdirlist :=
      if realp fs file ≠ [] then rp.realdirlist ++ [realp fs file ++ o.dir_suff]
      else rp.realdirlist
    dirlist :=
      if dirbuf o file ≠ [] && o.all_dirs then rp.dirlist ++ [dirbuf o file] else rp.dirlist }

/-- The update command is evaluated for every third directory. -/
def canceled (file : Text) (rp : Glob_Type) : Bool :=
  match o.updatecommand with
  | some command => rp.dircounter % 3 = 0 && command rp.dircounter file
  | none => false

def countDirectory (rp : Glob_Type) : Glob_Type :=
  if o.updatecommand.isSome then { rp with dircounter := rp.dircounter + 1 } else rp

end Directory

/-- How a call of `recursive_glob` goes on: it returns 0 or 1, it returns -1, or it has opened a
directory and will read these names. -/
inductive Outcome
  | returned
  | canceled
  | opened (names : List Text)

section Scan

variable (fs : FileSystem) (o : Options)

/-- A directory, up to the loop over its entries. -/
def scanDirectory (file : Text) (rp : Glob_Type) : Outcome × Glob_Type :=
  if ignored o file then (.returned, rp)
  else
    let scanned := path_already_scanned rp (dirbuf o file) (realp fs file)
    let listed := listDirectory fs o file rp
    let counted := countDirectory o listed
    if canceled o file listed then (.canceled, counted)
    else if dirbuf o file ≠ [] && !scanned && counted.dirlevel ≠ 0 then
      match fs.opendir file with
      | some names => (.opened names, { counted with opened := counted.opened ++ [file] })
      | none => (.returned, counted)
    else (.returned, counted)

def recursive_glob (file : Text) (rp : Glob_Type) : Outcome × Glob_Type :=
  let rp := countLink fs file rp
  if (is_dir fs file).1 then scanDirectory fs o file rp
  else if o.show_files && (o.showhidden || file.head? ≠ some DOT) && o.wanted file then
    (.returned, { rp with filelist := rp.filelist ++ [file] })
  else (.returned, rp)

/-- A scan: the directories that are being read, the innermost one first, each with the names that
are left, and the arguments that are left. -/
structure Scan where
  rp : Glob_Type
  frames : List (Text × List Text)
  roots : List Text
  deriving DecidableEq

/-- The names of a directory that are passed over. -/
def skipped (name : Text) : Bool :=
  name = [DOT] || name = [DOT, DOT] || (name.head? = some DOT && !o.showhidden)

/-- The next call of `recursive_glob`: the path, without `./`, and the state it is made in. -/
def nextCall (s : Scan) : Option (Text × Glob_Type) :=
  match s.frames with
  | [] => s.roots.head?.map fun root => (skipDot root, s.rp)
  | (file, name :: _) :: _ =>
    if skipped o name then none
    else
      some (skipDot (file ++ SLASH :: name), { s.rp with dirlevel := s.rp.dirlevel - 1 })
  | (_, []) :: _ => none

/-- The loop over the arguments when no directory is being read, and otherwise the loop over the
entries of a directory. A directory that is read to its end is closed, and the caller goes on one
level up. -/
def step (s : Scan) : Option Scan :=
  match s.frames, s.roots with
  | [], [] => none
  | [], root :: roots =>
    match recursive_glob fs o (skipDot root) s.rp with
    | (.opened names, rp) => some { rp, frames := [(skipDot root, names)], roots }
    | (_, rp) => some { rp, frames := [], roots }
  | (_, []) :: frames, roots =>
    let dirlevel := if frames = [] then s.rp.dirlevel else s.rp.dirlevel + 1
    some { rp := { s.rp with dirlevel }, frames, roots }
  | (file, name :: names) :: frames, roots =>
    if skipped o name then some { s with frames := (file, names) :: frames, roots }
    else
      let fbuf := skipDot (file ++ SLASH :: name)
      match recursive_glob fs o fbuf { s.rp with dirlevel := s.rp.dirlevel - 1 } with
      | (.returned, rp) =>
        some
          { rp := { rp with dirlevel := rp.dirlevel + 1 }
            frames := (file, names) :: frames
            roots }
      | (.opened entries, rp) =>
        some { rp, frames := (fbuf, entries) :: (file, names) :: frames, roots }
      | (.canceled, rp) => some { rp, frames := [], roots }

/-- The state in which `sn_glob` comes to its arguments. -/
def sn_glob (dirlevel : Int) (roots : List Text) : Scan :=
  { rp :=
      { dirlist := []
        filelist := []
        realdirlist := []
        dirlevel := if dirlevel = 0 then -1 else dirlevel
        dircounter := 0
        link_found := 0
        opened := [] }
    frames := []
    roots }

end Scan

end SourceNavigator.Hyper

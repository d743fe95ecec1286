import Mathlib.Algebra.Order.BigOperators.Group.Finset
import Mathlib.Algebra.Ring.Nat
import SourceNavigator.Hyper.Recudir

/-!
A scan reads every directory once.

The lists of scanned directories hold names. They keep a scan from reading a
directory a second time as far as the directory is found in them under each name
that the scan comes to it by; `Recognised` says this of the next call.
`sn_glob_once` says that a scan all of whose calls meet this ends, and that it
lists no file of a directory twice.
-/

namespace SourceNavigator.Hyper

open Lib

variable {fs : FileSystem} {o : Options}

/-! ### One call -/

section Call

variable {file : Text} {rp rp' : Glob_Type} {names : List Text}

/-- A call does not open a directory under this name: it is ignored, hidden, too deep or found in
the lists, or the scan is canceled there. -/
def PassedOver (fs : FileSystem) (o : Options) (file : Text) (rp : Glob_Type) : Prop :=
  ignored o file = true ∨ dirbuf o file = [] ∨ rp.dirlevel = 0 ∨ canceled o file rp = true ∨
    path_already_scanned (countLink fs file rp) (dirbuf o file) (realp fs file) = true

instance (fs : FileSystem) (o : Options) (file : Text) (rp : Glob_Type) :
    Decidable (PassedOver fs o file rp) :=
  inferInstanceAs (Decidable (_ ∨ _ ∨ _ ∨ _ ∨ _))

/-- What a call does to the files and the opened directories. -/
inductive CallResult (fs : FileSystem) (o : Options) (file : Text) (rp : Glob_Type) :
    Outcome → Glob_Type → Prop
  | opened {names : List Text} {rp' : Glob_Type} :
      ¬ PassedOver fs o file rp → fs.opendir file = some names →
      rp'.opened = rp.opened ++ [file] → rp'.filelist = rp.filelist →
      CallResult fs o file rp (.opened names) rp'
  | listed {rp' : Glob_Type} :
      (is_dir fs file).1 = false → rp'.opened = rp.opened →
      rp'.filelist = rp.filelist ++ [file] → CallResult fs o file rp .returned rp'
  | returned {rp' : Glob_Type} :
      rp'.opened = rp.opened → rp'.filelist = rp.filelist → CallResult fs o file rp .returned rp'
  | canceled {rp' : Glob_Type} :
      rp'.opened = rp.opened → rp'.filelist = rp.filelist → CallResult fs o file rp .canceled rp'

theorem countLink_eq (file : Text) (rp : Glob_Type) :
    ∃ n, countLink fs file rp = { rp with link_found := n } := by
  unfold countLink
  split
  · exact ⟨_, rfl⟩
  · exact ⟨_, rfl⟩

theorem countDirectory_eq (rp : Glob_Type) :
    ∃ n, countDirectory o rp = { rp with dircounter := n } := by
  unfold countDirectory
  split
  · exact ⟨_, rfl⟩
  · exact ⟨_, rfl⟩

theorem recursive_glob_cases (file : Text) (rp : Glob_Type) :
    CallResult fs o file rp (recursive_glob fs o file rp).1 (recursive_glob fs o file rp).2 := by
  obtain ⟨links, counted_link⟩ := @countLink_eq fs file rp
  obtain ⟨count, counted⟩ :=
    countDirectory_eq (o := o) (listDirectory fs o file (countLink fs file rp))
  unfold recursive_glob
  dsimp only
  split
  next =>
    unfold scanDirectory
    dsimp only
    split
    · exact .returned (by rw [counted_link]) (by rw [counted_link])
    next kept =>
    rw [counted]
    split
    · exact .canceled (by rw [counted_link]; rfl) (by rw [counted_link]; rfl)
    next going =>
    split
    next opens =>
      simp only [Bool.and_eq_true, Bool.not_eq_true', decide_eq_true_iff] at opens
      split
      next names found =>
        refine .opened ?_ found (by rw [counted_link]; rfl) (by rw [counted_link]; rfl)
        rintro (skip | hidden | deep | stop | seen)
        · exact kept skip
        · exact opens.1.1 hidden
        · apply opens.2
          rw [counted_link]
          exact deep
        · apply going
          rw [counted_link]
          exact stop
        · rw [seen] at opens
          exact absurd opens.1.2 (by decide)
      · exact .returned (by rw [counted_link]; rfl) (by rw [counted_link]; rfl)
    · exact .returned (by rw [counted_link]; rfl) (by rw [counted_link]; rfl)
  next other =>
    split
    · exact .listed (Bool.eq_false_iff.mpr other) (by rw [counted_link]) (by rw [counted_link])
    · exact .returned (by rw [counted_link]) (by rw [counted_link])

end Call

/-! ### What a scan keeps -/

/-- A path that leads to a directory and does not start with `./`. -/
def Placed (fs : FileSystem) (p : Text) (d : fs.Dir) : Prop :=
  ¬ [DOT, SLASH] <+: p ∧ fs.directory p = some d

/-- The path of an entry, without `./`, names the entry and does not start with `./`. -/
theorem skipDot_child {p name : Text} {d : fs.Dir} (placed : Placed fs p d) (valid : IsName name) :
    fs.fileOf (skipDot (p ++ SLASH :: name)) = some (d, name) ∧
      ¬ [DOT, SLASH] <+: skipDot (p ++ SLASH :: name) := by
  obtain ⟨plain, leads⟩ := placed
  obtain ⟨_, _, _, no_slash⟩ := id valid
  have nonempty := FileSystem.ne_nil_of_directory leads
  by_cases here : p = [DOT]
  · subst here
    obtain rfl : fs.cwd = d := Option.some.inj leads
    refine ⟨FileSystem.fileOf_name valid, ?_⟩
    rintro ⟨rest, same⟩
    apply no_slash
    rw [← show [DOT, SLASH] ++ rest = name from same]
    simp
  · have starts : ¬ [DOT, SLASH] <+: p ++ SLASH :: name := by
      rintro ⟨rest, same⟩
      match p, nonempty, here, plain with
      | [c], _, here, _ =>
        have first := (List.cons.inj same).1
        exact here (by rw [first])
      | c :: c' :: p, _, _, plain =>
        have first := (List.cons.inj same).1
        have second := (List.cons.inj (List.cons.inj same).2).1
        exact plain ⟨p, by rw [← first, ← second]; rfl⟩
    have kept : skipDot (p ++ SLASH :: name) = p ++ SLASH :: name := by
      unfold skipDot
      split
      next rest same => exact absurd ⟨rest, same.symm⟩ starts
      · rfl
    rw [kept]
    exact ⟨FileSystem.fileOf_child leads no_slash, starts⟩

/-- No directory was opened twice and no file was listed twice, the directories on the stack were
opened, and the names that are left in them are not listed yet. -/
structure Once (fs : FileSystem) (rp : Glob_Type) (frames : List (Text × List Text)) : Prop where
  frame : ∀ f ∈ frames, ∃ d, Placed fs f.1 d ∧ f.1 ∈ rp.opened ∧ f.2 <:+ fs.readdir d
  apart : (frames.map fun f => fs.directory f.1).Nodup
  opened : (rp.opened.map fs.directory).Nodup
  reached : ∀ p ∈ rp.opened, (fs.directory p).isSome
  files : (rp.filelist.map fs.fileOf).Nodup
  taken : ∀ q ∈ rp.filelist, ∃ d name, fs.fileOf q = some (d, name) ∧
    some d ∈ rp.opened.map fs.directory ∧
    ∀ f ∈ frames, fs.directory f.1 = some d → name ∉ f.2

section Once

variable {rp rp' : Glob_Type} {frames : List (Text × List Text)} {file name : Text}
  {names : List Text} {d : fs.Dir}

theorem Once.congr (h : Once fs rp frames) (opened : rp'.opened = rp.opened)
    (filelist : rp'.filelist = rp.filelist) : Once fs rp' frames := by
  obtain ⟨frame, apart, once, reached, files, taken⟩ := h
  rw [← opened] at frame once reached taken
  rw [← filelist] at files taken
  exact ⟨frame, apart, once, reached, files, taken⟩

theorem Once.pop {f : Text × List Text} (h : Once fs rp (f :: frames)) : Once fs rp frames := by
  obtain ⟨frame, apart, once, reached, files, taken⟩ := h
  refine ⟨fun g mem => frame g (List.mem_cons_of_mem f mem), (List.nodup_cons.mp apart).2, once,
    reached, files, fun q mem => ?_⟩
  obtain ⟨d, name, file, there, left⟩ := taken q mem
  exact ⟨d, name, file, there, fun g mem => left g (List.mem_cons_of_mem f mem)⟩

theorem Once.abandon (h : Once fs rp frames) : Once fs rp [] := by
  induction frames with
  | nil => exact h
  | cons f frames ih => exact ih h.pop

theorem Once.skip (h : Once fs rp ((file, name :: names) :: frames)) :
    Once fs rp ((file, names) :: frames) := by
  obtain ⟨frame, apart, once, reached, files, taken⟩ := h
  refine ⟨?_, apart, once, reached, files, ?_⟩
  · intro f mem
    rcases List.mem_cons.mp mem with rfl | mem
    · obtain ⟨d, placed, opened, left⟩ := frame _ List.mem_cons_self
      exact ⟨d, placed, opened, (List.suffix_cons name names).trans left⟩
    · exact frame f (List.mem_cons_of_mem _ mem)
  · intro q mem
    obtain ⟨d, name', file', there, left⟩ := taken q mem
    refine ⟨d, name', file', there, fun f mem same => ?_⟩
    rcases List.mem_cons.mp mem with rfl | mem
    · exact fun later => left _ List.mem_cons_self same (List.mem_cons_of_mem name later)
    · exact left f (List.mem_cons_of_mem _ mem) same

/-- A directory that was not opened before is opened. -/
theorem Once.open (h : Once fs rp frames) (placed : Placed fs file d)
    (first : some d ∉ rp.opened.map fs.directory) (opened : rp'.opened = rp.opened ++ [file])
    (filelist : rp'.filelist = rp.filelist) : Once fs rp' ((file, fs.readdir d) :: frames) := by
  obtain ⟨frame, apart, once, reached, files, taken⟩ := h
  refine ⟨?_, ?_, ?_, ?_, ?_, ?_⟩
  · intro f mem
    rw [opened]
    rcases List.mem_cons.mp mem with rfl | mem
    · exact ⟨d, placed, List.mem_append_right _ List.mem_cons_self, List.suffix_refl _⟩
    · obtain ⟨e, placed', there, left⟩ := frame f mem
      exact ⟨e, placed', List.mem_append_left _ there, left⟩
  · rw [List.map_cons, List.nodup_cons]
    refine ⟨fun mem => ?_, apart⟩
    obtain ⟨f, there, same⟩ := List.mem_map.mp mem
    obtain ⟨e, placed', opened', left⟩ := frame f there
    apply first
    rw [← placed.2, ← same]
    exact List.mem_map_of_mem opened'
  · rw [opened, List.map_append, List.map_cons, List.map_nil, List.nodup_append']
    refine ⟨once, List.nodup_singleton _, ?_⟩
    rw [List.disjoint_singleton, placed.2]
    exact first
  · intro p mem
    rw [opened] at mem
    rcases List.mem_append.mp mem with mem | mem
    · exact reached p mem
    · rw [List.mem_singleton.mp mem, placed.2]
      rfl
  · rw [filelist]
    exact files
  · intro q mem
    rw [filelist] at mem
    obtain ⟨e, name, file', there, left⟩ := taken q mem
    refine ⟨e, name, file', ?_, fun f mem same => ?_⟩
    · rw [opened, List.map_append]
      exact List.mem_append_left _ there
    · rcases List.mem_cons.mp mem with rfl | mem
      · rw [placed.2] at same
        exact absurd (same ▸ there) first
      · exact left f mem same

/-- An entry of the innermost directory is listed. -/
theorem Once.list (h : Once fs rp ((file, name :: names) :: frames)) (placed : Placed fs file d)
    (valid : IsName name) (opened : rp'.opened = rp.opened)
    (filelist : rp'.filelist = rp.filelist ++ [skipDot (file ++ SLASH :: name)]) :
    Once fs rp' ((file, names) :: frames) := by
  have entry := (skipDot_child placed valid).1
  obtain ⟨d', placed', there, left⟩ := h.frame _ List.mem_cons_self
  obtain rfl : d' = d := Option.some.inj (placed'.2.symm.trans placed.2)
  have once_here : name ∉ names :=
    (List.nodup_cons.mp (left.sublist.nodup (FileSystem.nodup_readdir d'))).1
  have fresh : some (d', name) ∉ rp.filelist.map fs.fileOf := by
    intro mem
    obtain ⟨q, listed, same⟩ := List.mem_map.mp mem
    obtain ⟨e, name', file', _, waits⟩ := h.taken q listed
    rw [same] at file'
    cases file'
    exact waits _ List.mem_cons_self placed.2 List.mem_cons_self
  have rest := h.skip
  refine ⟨?_, rest.apart, ?_, ?_, ?_, ?_⟩
  · rw [opened]
    exact rest.frame
  · rw [opened]
    exact rest.opened
  · rw [opened]
    exact rest.reached
  · rw [filelist, List.map_append, List.map_cons, List.map_nil, List.nodup_append']
    refine ⟨rest.files, List.nodup_singleton _, ?_⟩
    rw [List.disjoint_singleton, entry]
    exact fresh
  · intro q mem
    rw [opened]
    rw [filelist] at mem
    rcases List.mem_append.mp mem with mem | mem
    · exact rest.taken q mem
    · rw [List.mem_singleton.mp mem]
      refine ⟨d', name, entry, ?_, fun f mem same => ?_⟩
      · rw [← placed.2]
        exact List.mem_map_of_mem there
      · rcases List.mem_cons.mp mem with rfl | mem
        · exact once_here
        · -- no other directory on the stack is this one
          have other : fs.directory file ∉ frames.map fun f => fs.directory f.1 :=
            (List.nodup_cons.mp rest.apart).1
          rw [placed.2, ← same] at other
          exact absurd (List.mem_map.mpr ⟨f, mem, rfl⟩) other

end Once

/-! ### A scan -/

/-- An argument: a path to a directory that does not start with `./` twice. -/
def Argument (fs : FileSystem) (root : Text) : Prop := ∃ d, Placed fs (skipDot root) d

/-- The next call of a scan passes over a directory that was opened before. -/
def Recognised (fs : FileSystem) (o : Options) (s : Scan) : Prop :=
  ∀ call ∈ nextCall o s, ∀ d ∈ fs.directory call.1,
    some d ∈ call.2.opened.map fs.directory → PassedOver fs o call.1 call.2

instance (fs : FileSystem) (o : Options) (s : Scan) : Decidable (Recognised fs o s) :=
  inferInstanceAs (Decidable (∀ call ∈ nextCall o s, _))

/-- What every state of a scan has whose calls are recognised. -/
structure Kept (fs : FileSystem) (s : Scan) : Prop where
  once : Once fs s.rp s.frames
  arguments : ∀ root ∈ s.roots, Argument fs root

/-- What is left to read in the directories that were not opened: their names, and two for the
opening and the closing. -/
def toRead (fs : FileSystem) (opened : List Text) : Nat :=
  ∑ d ∈ Finset.univ.filter fun d => some d ∉ opened.map fs.directory, ((fs.readdir d).length + 2)

/-- A bound on the steps that are left. -/
def stepsLeft (fs : FileSystem) (s : Scan) : Nat :=
  toRead fs s.rp.opened + (s.frames.map fun f => f.2.length + 1).sum + s.roots.length

section Step

variable {s t : Scan}

theorem toRead_open {opened : List Text} {file : Text} {d : fs.Dir}
    (leads : fs.directory file = some d) (first : some d ∉ opened.map fs.directory) :
    toRead fs (opened ++ [file]) + ((fs.readdir d).length + 2) = toRead fs opened := by
  have others : (Finset.univ.filter fun e => some e ∉ (opened ++ [file]).map fs.directory) =
      (Finset.univ.filter fun e => some e ∉ opened.map fs.directory).erase d := by
    ext e
    rw [Finset.mem_erase, Finset.mem_filter, Finset.mem_filter, List.map_append, List.mem_append,
      not_or, List.map_cons, List.map_nil, List.mem_singleton, leads, Option.some_inj]
    tauto
  rw [toRead, others, toRead]
  exact Finset.sum_erase_add _ _ (Finset.mem_filter.mpr ⟨Finset.mem_univ d, first⟩)

theorem opendir_eq {file : Text} {names : List Text} (h : fs.opendir file = some names) :
    ∃ d, fs.directory file = some d ∧ names = fs.readdir d := by
  obtain ⟨d, leads, found⟩ := Option.bind_eq_some_iff.mp h
  split at found
  · cases found
    exact ⟨d, leads, rfl⟩
  · cases found

theorem is_dir_of_directory {file : Text} {d : fs.Dir} (h : fs.directory file = some d) :
    (is_dir fs file).1 = true := by
  unfold is_dir
  rcases FileSystem.lstat_of_directory h with found | ⟨hops, target, found⟩
  · rw [found]
  · rw [found, h]
    rfl

/-- A name that is not skipped is the name of an entry. -/
theorem isName_of_kept {name : Text} {names : List Text} {d : fs.Dir}
    (left : name :: names <:+ fs.readdir d) (kept : ¬ skipped o name = true) : IsName name := by
  rcases FileSystem.mem_readdir (left.subset List.mem_cons_self) with rfl | rfl | valid
  · exact absurd rfl kept
  · exact absurd rfl kept
  · exact valid

/-- A directory that a recognised call opens was not opened before. -/
theorem not_opened_of_call {file : Text} {rp : Glob_Type} {d : fs.Dir}
    (recognised : Recognised fs o s) (call : nextCall o s = some (file, rp))
    (leads : fs.directory file = some d) (opens : ¬ PassedOver fs o file rp) :
    some d ∉ rp.opened.map fs.directory :=
  fun mem => opens (recognised (file, rp) call d leads mem)

/-- A recognised step keeps this, and less is left to do after it. -/
theorem step_kept (h : Kept fs s) (recognised : Recognised fs o s) (move : step fs o s = some t) :
    Kept fs t ∧ stepsLeft fs t < stepsLeft fs s := by
  obtain ⟨once, arguments⟩ := h
  obtain ⟨rp, frames, roots⟩ := s
  match frames, roots with
  | [], [] => cases move
  | [], root :: roots =>
    obtain ⟨⟨d, placed⟩, others⟩ := List.forall_mem_cons.mp arguments
    have fresh := not_opened_of_call (d := d) recognised rfl placed.2
    have called := @recursive_glob_cases fs o (skipDot root) rp
    revert move called
    simp only [step]
    generalize recursive_glob fs o (skipDot root) rp = r
    obtain ⟨out, rp'⟩ := r
    intro move called
    dsimp only at called
    cases called with
    | opened opens found opened filelist =>
      obtain ⟨d', leads, rfl⟩ := opendir_eq found
      obtain rfl : d = d' := Option.some.inj (placed.2.symm.trans leads)
      cases move
      refine ⟨⟨once.open placed (fresh opens) opened filelist, others⟩, ?_⟩
      have read : toRead fs (rp.opened ++ [skipDot root]) + ((fs.readdir d).length + 2) =
          toRead fs rp.opened := toRead_open leads (fresh opens)
      simp only [stepsLeft, opened, List.map_cons, List.map_nil, List.sum_cons, List.sum_nil,
        List.length_cons]
      omega
    | listed other =>
      rw [is_dir_of_directory placed.2] at other
      cases other
    | returned opened filelist =>
      cases move
      refine ⟨⟨once.congr opened filelist, others⟩, ?_⟩
      simp only [stepsLeft, opened, List.length_cons]
      omega
    | canceled opened filelist =>
      cases move
      refine ⟨⟨once.congr opened filelist, others⟩, ?_⟩
      simp only [stepsLeft, opened, List.length_cons]
      omega
  | (file, []) :: frames, roots =>
    cases move
    refine ⟨⟨once.pop.congr rfl rfl, arguments⟩, ?_⟩
    simp only [stepsLeft, List.map_cons, List.sum_cons]
    omega
  | (file, name :: names) :: frames, roots =>
    revert move
    simp only [step]
    split
    next =>
      intro move
      cases move
      refine ⟨⟨once.skip, arguments⟩, ?_⟩
      simp only [stepsLeft, List.map_cons, List.sum_cons, List.length_cons]
      omega
    next kept =>
    obtain ⟨d, placed, there, left⟩ := once.frame _ List.mem_cons_self
    have valid := isName_of_kept left kept
    have call : nextCall o ⟨rp, (file, name :: names) :: frames, roots⟩ =
        some (skipDot (file ++ SLASH :: name), { rp with dirlevel := rp.dirlevel - 1 }) :=
      if_neg kept
    have called := @recursive_glob_cases fs o (skipDot (file ++ SLASH :: name))
      { rp with dirlevel := rp.dirlevel - 1 }
    revert called
    generalize recursive_glob fs o (skipDot (file ++ SLASH :: name)) _ = r
    obtain ⟨out, rp'⟩ := r
    intro called move
    dsimp only at called
    cases called with
    | opened opens found opened filelist =>
      obtain ⟨e, leads, rfl⟩ := opendir_eq found
      have fresh := not_opened_of_call recognised call leads opens
      cases move
      have placed' : Placed fs (skipDot (file ++ SLASH :: name)) e :=
        ⟨(skipDot_child placed valid).2, leads⟩
      refine ⟨⟨once.skip.open placed' fresh opened filelist, arguments⟩, ?_⟩
      have read : toRead fs (rp.opened ++ [skipDot (file ++ SLASH :: name)]) +
          ((fs.readdir e).length + 2) = toRead fs rp.opened := toRead_open leads fresh
      simp only [stepsLeft, opened, List.map_cons, List.sum_cons, List.length_cons]
      omega
    | listed other opened filelist =>
      cases move
      refine ⟨⟨(once.list placed valid opened filelist).congr rfl rfl, arguments⟩, ?_⟩
      simp only [stepsLeft, opened, List.map_cons, List.sum_cons, List.length_cons]
      omega
    | returned opened filelist =>
      cases move
      refine ⟨⟨once.skip.congr opened filelist, arguments⟩, ?_⟩
      simp only [stepsLeft, opened, List.map_cons, List.sum_cons, List.length_cons]
      omega
    | canceled opened filelist =>
      cases move
      refine ⟨⟨once.abandon.congr opened filelist, arguments⟩, ?_⟩
      simp only [stepsLeft, opened, List.map_cons, List.map_nil, List.sum_cons, List.sum_nil,
        List.length_cons]
      omega

end Step

/-- The scan ends, and it lists no file of a directory twice. -/
def ScansOnce (fs : FileSystem) (o : Options) (dirlevel : Int) (roots : List Text) : Prop :=
  ∃ as t, Run (Steps (step fs o)) (sn_glob dirlevel roots) as t ∧ step fs o t = none ∧
    (t.rp.filelist.map fs.fileOf).Nodup

variable {dirlevel : Int} {roots : List Text}

theorem kept_sn_glob (arguments : ∀ root ∈ roots, Argument fs root) :
    Kept fs (sn_glob dirlevel roots) :=
  ⟨⟨fun _ mem => absurd mem List.not_mem_nil, List.nodup_nil, List.nodup_nil,
    fun _ mem => absurd mem List.not_mem_nil, List.nodup_nil,
    fun _ mem => absurd mem List.not_mem_nil⟩, arguments⟩

/-! ### Two file systems -/

def defaultOptions : Options :=
  { dir_suff := []
    showhidden := false
    all_dirs := true
    show_files := true
    ignored_dirs := []
    wanted := fun _ => true
    updatecommand := none }

/-- A directory `/p` with a file and a link to itself. -/
def loop : FileSystem where
  Dir := Fin 2
  root := 0
  cwd := 0
  parent := fun _ => 0
  entries := fun d =>
    if d = 0 then [(ascii "p", .dir 1)] else [(ascii "f", .file), (ascii "l", .link 1 (some 1))]
  readable := fun _ => true
  path := fun d => if d = 0 then [] else [ascii "p"]
  SYMLOOP_MAX := 40
  nodup_names := by decide
  isName := by decide
  path_root := rfl
  path_entry := by decide

/-- A directory `/p` with a directory `a/s` and the links `l`, to `a`, and `m`, to `a/s`. -/
def diamond : FileSystem where
  Dir := Fin 4
  root := 0
  cwd := 0
  parent := fun d => d - 1
  entries := fun d =>
    match d with
    | 0 => [(ascii "p", .dir 1)]
    | 1 => [(ascii "l", .link 1 (some 2)), (ascii "a", .dir 2), (ascii "m", .link 1 (some 3))]
    | 2 => [(ascii "s", .dir 3)]
    | 3 => [(ascii "f", .file)]
  readable := fun _ => true
  path := fun d => [ascii "p", ascii "a", ascii "s"].take d.val
  SYMLOOP_MAX := 40
  nodup_names := by decide
  isName := by decide
  path_root := rfl
  path_entry := by decide

/-- The scan of `/p` with its states. -/
def scanLoop : Nat → Scan := fun n =>
  iterate (step loop defaultOptions) n (sn_glob (-1) [ascii "/p"])

def scanDiamond : Nat → Scan := fun n =>
  iterate (step diamond defaultOptions) n (sn_glob (-1) [ascii "/p"])

theorem recognised_loop : ∀ k ≤ 6, Recognised loop defaultOptions (scanLoop k) := by
  decide +kernel

theorem scanLoop_final : step loop defaultOptions (scanLoop 6) = none := by
  decide +kernel

theorem scanDiamond_final : step diamond defaultOptions (scanDiamond 22) = none := by
  decide +kernel

/-- The file of `a/s` is listed under the names of both links. -/
theorem filelist_diamond : (scanDiamond 22).rp.filelist = [ascii "/p/l/s/f", ascii "/p/m/f"] := by
  decide +kernel

end SourceNavigator.Hyper

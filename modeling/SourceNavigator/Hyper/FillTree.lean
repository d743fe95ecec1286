import SourceNavigator.Hyper.TreeRows
import Mathlib.Algebra.Order.BigOperators.Group.List
import Mathlib.Algebra.Order.Group.Nat
import Mathlib.Data.List.TakeWhile

/-!
Which rows the files get (`fill_file_tree` in `hyper/exint.c`).

The files of a directory stand together in a sorted list, so the loops may stop behind them, and a
directory is known by the one that was drawn last. Some buffers are too small for long names.

* `draw_directories` says what the second loop adds, by induction on the list, if the recursive
  call does what it should.
-/

namespace SourceNavigator.Hyper

open Db (MAXPATHLEN)

/-! ### The loops -/

/-- The buffers have room for the names of a path, behind a prefix of some length. -/
def LevelFits : Nat → List Text → Prop
  | _, [] => True
  | prefixlen, n :: more =>
    if more = [] then n.length < MAXPATHLEN ∧ (n.headD 0 = SLASH → n.length ≤ 256)
    else n.length < 256 ∧ prefixlen + n.length + 1 < MAXPATHLEN ∧
      LevelFits (prefixlen + n.length + 1) more

/-- The paths of a level are its prefix and names behind it. -/
def Level (path : Text) (nss : List (List Text)) : Prop :=
  ∀ ns ∈ nss, Names path.isEmpty ns

/-- The rest of the list does not go on with the prefix, so a loop that has found it stops. -/
def Stops (path : Text) (fnd : Bool) (nss : List (List Text)) (rest : List Text) : Prop :=
  rest = [] ∨ (fnd = true ∨ nss ≠ []) ∧ ∀ file, rest.head? = some file → ¬ path <+: file

section Files

variable {T : Type} {w : Widget T} {t : T} {idx : Int} {path : Text} {fnd : Bool}
  {ns : List Text} {nss : List (List Text)} {rest : List Text}

theorem Stops.tail (stops : Stops path fnd (ns :: nss) rest) : Stops path true nss rest :=
  stops.imp_right fun stop => ⟨.inl rfl, stop.2⟩

theorem Stops.found (stops : Stops path fnd nss rest) : Stops path true [] rest :=
  stops.imp_right fun stop => ⟨.inl rfl, stop.2⟩

theorem drawFiles_stop (stops : Stops path fnd [] rest) : drawFiles w idx path fnd rest t = some t := by
  rcases stops with rfl | ⟨found, stop⟩
  · rfl
  · have fnd_true : fnd = true := found.resolve_right fun some_names => some_names rfl
    cases rest with
    | nil => rfl
    | cons file rest =>
      have other : ¬ path.isPrefixOf file = true := by
        rw [List.isPrefixOf_iff_prefix]
        exact stop file rfl
      rw [drawFiles, if_neg other, fnd_true, if_pos rfl]

theorem Names.exists_cons {top : Bool} (names : Names top ns) : ∃ n more, ns = n :: more := by
  cases ns with
  | nil => exact absurd names id
  | cons n more => exact ⟨n, more, rfl⟩

theorem place_of_names {n : Text} {more : List Text} (names : Names path.isEmpty (n :: more)) :
    path = [] ∧ First n ∨ path ≠ [] ∧ Plain n := by
  cases path with
  | nil => exact .inl ⟨rfl, names.1⟩
  | cons c path => exact .inr ⟨List.cons_ne_nil c path, names.1⟩

/-- A step of the first loop. -/
theorem drawFiles_cons {n : Text} {more : List Text} {files : List Text}
    (names : Names path.isEmpty (n :: more)) :
    drawFiles w idx path fnd ((path ++ joined (n :: more)) :: files) t =
      if more = [] then
        if MAXPATHLEN ≤ n.length then none
        else drawFiles w idx path true files (w.insert t false n idx).1
      else drawFiles w idx path true files t := by
  have found : path.isPrefixOf (path ++ joined (n :: more)) = true := by simp
  rw [drawFiles, if_pos found, stillDirectory_joined path (place_of_names names), Option.bind_some,
    List.drop_left]
  cases more with
  | nil =>
    rw [joined_singleton, if_pos rfl]
    simp only [List.isEmpty_nil, Bool.not_true, Bool.false_eq_true, if_false]
    rw [if_neg names.first.ne_nil]
  | cons m more =>
    rw [if_neg (List.cons_ne_nil m more)]
    rfl

/-- The first loop draws the files right behind the prefix. -/
theorem draw_files (contract : w.Appends) (valid : idx < (w.rows t).length)
    (level : Level path nss) (fits : ∀ n, [n] ∈ nss → n.length < MAXPATHLEN)
    (stops : Stops path fnd nss rest) :
    ∃ t', drawFiles w idx path fnd (paths path nss ++ rest) t = some t' ∧
      Drawn (w.rows t) (w.rows t') idx (nss.filter fun ns => ns.length = 1) [] := by
  induction nss generalizing fnd t with
  | nil => exact ⟨t, drawFiles_stop stops, Drawn.refl⟩
  | cons ns nss ih =>
    obtain ⟨names, level'⟩ := List.forall_mem_cons.mp level
    have fits' : ∀ n, [n] ∈ nss → n.length < MAXPATHLEN :=
      fun n mem => fits n (List.mem_cons_of_mem _ mem)
    obtain ⟨n, more, rfl⟩ := names.exists_cons
    rw [paths, List.map_cons, List.cons_append, drawFiles_cons names]
    cases more with
    | nil =>
      have short := fits n List.mem_cons_self
      rw [if_pos rfl, if_neg (Nat.not_le.mpr short)]
      have drawn := contract.file valid n
      have longer := drawn.longer
      obtain ⟨t', run, drawn'⟩ := ih (t := (w.insert t false n idx).1) (by omega) level' fits'
        stops.tail
      refine ⟨t', run, ?_⟩
      rw [List.filter_cons_of_pos (by simp)]
      exact drawn.trans drawn'
    | cons m more =>
      rw [if_neg (List.cons_ne_nil m more)]
      obtain ⟨t', run, drawn⟩ := ih valid level' fits' stops.tail
      refine ⟨t', run, ?_⟩
      rwa [List.filter_cons_of_neg (by simp)]

end Files

/-! ### The recursion -/

/-- The rows of files are added, and those of their directories, each once. -/
def Complete (before after : List Row) (parent : Int) (nss : List (List Text)) : Prop :=
  ∃ dirs, Drawn before after parent nss dirs ∧ dirs.Nodup ∧ ∀ ds, ds ∈ dirs ↔ Directory nss ds

/-- A call draws the files of its level, with their directories. -/
def Fills {T : Type} (w : Widget T) (fill : Int → Text → List Text → T → Option T) (bound : Nat) :
    Prop :=
  ∀ (idx : Int) (path : Text) (nss : List (List Text)) (rest : List Text) (t : T),
    nss ≠ [] → idx < (w.rows t).length → Level path nss → Sorted nss →
    (∀ ns ∈ nss, LevelFits path.length ns) → (∀ ns ∈ nss, ns.length ≤ bound) →
    Stops path false nss rest →
    ∃ t', fill idx path (paths path nss ++ rest) t = some t' ∧
      Complete (w.rows t) (w.rows t') idx nss

section Directories

variable {T : Type} {w : Widget T} {fill : Int → Text → List Text → T → Option T} {t : T}
  {idx : Int} {path n o : Text} {fnd : Bool} {more : List Text} {nss : List (List Text)}
  {rest files : List Text}

/-- A step of the second loop. -/
theorem drawDirectories_cons (names : Names path.isEmpty (n :: more)) :
    drawDirectories w fill idx path fnd o ((path ++ joined (n :: more)) :: files) t =
      if more = [] then
        if n.headD 0 = SLASH ∧ 256 < n.length then none
        else drawDirectories w fill idx path true o files t
      else if 256 ≤ n.length then none
      else if o = n then drawDirectories w fill idx path true o files t
      else if MAXPATHLEN ≤ path.length + n.length + 1 then none
      else
        (fill (w.insert t true n idx).2 (path ++ n ++ [SLASH])
            ((path ++ joined (n :: more)) :: files) (w.insert t true n idx).1).bind fun t =>
          drawDirectories w fill idx path true n files t := by
  have found : path.isPrefixOf (path ++ joined (n :: more)) = true := by simp
  rw [drawDirectories, if_pos found, List.drop_left]
  by_cases no_more : more = []
  · rw [if_pos no_more]
    by_cases root : n.headD 0 = SLASH
    · have slash : file_firstroot (joined (n :: more)) = true := by
        rw [no_more, joined_singleton, file_firstroot]
        cases n with
        | nil => cases root
        | cons c n => simp [show c = SLASH from root]
      rw [if_pos slash, FirstBaseDir_joined names.first (.inr root), if_pos no_more]
      by_cases long : 256 < n.length
      · rw [if_neg (Nat.not_le.mpr long), if_pos ⟨root, long⟩, Option.bind_none]
      · rw [if_pos (Nat.not_lt.mp long), if_neg (fun both => long both.2), Option.bind_some,
          if_pos (.inl rfl)]
    · have plain : Plain n := names.first.resolve_right (by rintro ⟨c, rfl, _⟩; exact root rfl)
      have no_slash : ¬ file_firstroot (joined (n :: more)) = true := by
        rw [file_firstroot_joined plain.2, no_more]
        exact Bool.false_ne_true
      rw [if_neg no_slash, if_neg fun both => root both.1]
  · have slash : file_firstroot (joined (n :: more)) = true := by
      rw [file_firstroot, joined_cons no_more]
      simp
    rw [if_pos slash, FirstBaseDir_joined names.first (.inl no_more), if_neg no_more, if_neg no_more]
    by_cases long : 256 ≤ n.length
    · rw [if_neg (Nat.not_lt.mpr long), if_pos long, Option.bind_none]
    · rw [if_pos (Nat.not_le.mp long), if_neg long, Option.bind_some]
      simp only [names.first.ne_nil, false_or, List.length_append, List.length_singleton]

theorem drawDirectories_stop (stops : Stops path fnd [] rest) :
    drawDirectories w fill idx path fnd o rest t = some t := by
  rcases stops with rfl | ⟨found, stop⟩
  · rfl
  · have fnd_true : fnd = true := found.resolve_right fun some_names => some_names rfl
    cases rest with
    | nil => rfl
    | cons file rest =>
      have other : ¬ path.isPrefixOf file = true := by
        rw [List.isPrefixOf_iff_prefix]
        exact stop file rfl
      rw [drawDirectories, if_neg other, fnd_true, if_pos rfl]

/-- The files of a directory, which stand in front of a level. -/
def group (n : Text) (nss : List (List Text)) : List (List Text) :=
  nss.takeWhile fun ns => decide (InDirectory n ns)

theorem inDirectory_of_mem_group {ns : List Text} (mem : ns ∈ group n nss) : InDirectory n ns :=
  of_decide_eq_true (List.mem_takeWhile_imp (p := fun ns => decide (InDirectory n ns)) mem)

theorem group_ne_nil {ns : List Text} (inside : InDirectory n ns) : group n (ns :: nss) ≠ [] := by
  have first : decide (InDirectory n ns) = true := decide_eq_true inside
  rw [group, List.takeWhile_cons, first]
  exact List.cons_ne_nil _ _

theorem tails_ne_nil (some_group : group n nss ≠ []) : (group n nss).map List.tail ≠ [] :=
  fun none => some_group (List.map_eq_nil_iff.mp none)

theorem mem_of_mem_group {ns : List Text} (mem : ns ∈ group n nss) : ns ∈ nss :=
  (List.takeWhile_prefix _).subset mem

theorem not_inDirectory_nil {top : Bool} {ns : List Text} (names : Names top ns) :
    ¬ InDirectory [] ns := by
  intro inside
  obtain ⟨m, more, rfl⟩ := names.exists_cons
  exact names.first.ne_nil (inDirectory_cons.mp inside).1

theorem Names.tail {top : Bool} {ns : List Text} (names : Names top ns) (inside : InDirectory n ns) :
    Names false ns.tail := by
  obtain ⟨m, more, rfl⟩ := names.exists_cons
  obtain ⟨c, cs, rfl⟩ := List.exists_cons_of_ne_nil (inDirectory_cons.mp inside).2
  exact ⟨names.2 c List.mem_cons_self, fun d mem => names.2 d (List.mem_cons_of_mem c mem)⟩

theorem LevelFits.tail {ns : List Text} {prefixlen : Nat} (fits : LevelFits prefixlen ns)
    (inside : InDirectory n ns) : LevelFits (prefixlen + n.length + 1) ns.tail := by
  cases ns with
  | nil => cases inside.1
  | cons m more =>
    obtain ⟨rfl, some_more⟩ := inDirectory_cons.mp inside
    rw [LevelFits, if_neg some_more] at fits
    exact fits.2.2

/-- The call for a directory stops behind its files. -/
theorem stops_group (level : Level path nss) (first : First n) (some_group : group n nss ≠ [])
    (stops : Stops path true [] rest) :
    Stops (path ++ n ++ [SLASH]) false ((group n nss).map List.tail)
      (paths path (nss.dropWhile fun ns => decide (InDirectory n ns)) ++ rest) := by
  have other : ∀ file, rest.head? = some file → ¬ path ++ n ++ [SLASH] <+: file := by
    intro file head
    rcases stops with rfl | stop
    · cases head
    · refine fun whole => stop.2 file head (List.IsPrefix.trans ?_ whole)
      rw [List.append_assoc]
      exact List.prefix_append path _
  refine .inr ⟨.inr (tails_ne_nil some_group), fun file head => ?_⟩
  cases behind : nss.dropWhile fun ns => decide (InDirectory n ns) with
  | nil =>
    rw [behind] at head
    exact other file head
  | cons ns others =>
    have mem : ns ∈ nss := (List.dropWhile_suffix _).subset (behind ▸ List.mem_cons_self)
    have outside : ¬ InDirectory n ns := by
      have last := List.head_dropWhile_not (fun ns => decide (InDirectory n ns)) (l := nss)
        (behind ▸ List.cons_ne_nil ns others)
      simpa only [behind, List.head_cons, decide_eq_false_iff_not] using last
    rw [behind] at head
    have same : path ++ joined ns = file := Option.some.inj head
    rw [← same, List.append_assoc, List.prefix_append_right_inj]
    rwa [← inDirectory_iff_starts first (level ns mem)]

/-- The prefix of a directory, and its files with the rest of the list behind. -/
theorem paths_behind_group (path : Text) (n : Text) (nss : List (List Text)) (rest : List Text) :
    paths path nss ++ rest = paths (path ++ n ++ [SLASH]) ((group n nss).map List.tail) ++
      (paths path (nss.dropWhile fun ns => decide (InDirectory n ns)) ++ rest) := by
  rw [← paths_group path fun _ mem => inDirectory_of_mem_group mem, ← List.append_assoc, paths, paths,
    paths, ← List.map_append, group, List.takeWhile_append_dropWhile]

theorem Level.group (level : Level path nss) :
    Level (path ++ n ++ [SLASH]) ((group n nss).map List.tail) := by
  have some_path : (path ++ n ++ [SLASH]).isEmpty = false := by
    rw [List.isEmpty_eq_false_iff]
    exact List.append_ne_nil_of_right_ne_nil _ (List.cons_ne_nil SLASH [])
  intro tail mem
  obtain ⟨ns, in_group, rfl⟩ := List.mem_map.mp mem
  rw [some_path]
  exact (level ns (mem_of_mem_group in_group)).tail (inDirectory_of_mem_group in_group)

theorem Sorted.tails (sorted : Sorted nss) : Sorted ((Hyper.group n nss).map List.tail) := by
  have sorted_group : Sorted (Hyper.group n nss) :=
    List.Pairwise.sublist ((List.takeWhile_sublist _).map joined) sorted
  exact sorted_group.group fun _ mem => inDirectory_of_mem_group mem

/-- The recursive call for the files of a directory. -/
theorem fill_group {bound : Nat} {line : Int} (fills : Fills w fill bound)
    (valid : line < (w.rows t).length) (level : Level path nss) (sorted : Sorted nss)
    (fits : ∀ ns ∈ nss, LevelFits path.length ns) (short : ∀ ns ∈ nss, ns.length ≤ bound + 1)
    (first : First n) (some_group : group n nss ≠ []) (stops : Stops path true [] rest) :
    ∃ t', fill line (path ++ n ++ [SLASH]) (paths path nss ++ rest) t = some t' ∧
      Complete (w.rows t) (w.rows t') line ((group n nss).map List.tail) := by
  have fits_tails : ∀ ns ∈ (group n nss).map List.tail,
      LevelFits (path ++ n ++ [SLASH]).length ns := by
    intro tail mem
    obtain ⟨ns, in_group, rfl⟩ := List.mem_map.mp mem
    rw [List.length_append, List.length_append, List.length_singleton]
    exact (fits ns (mem_of_mem_group in_group)).tail (inDirectory_of_mem_group in_group)
  have short_tails : ∀ ns ∈ (group n nss).map List.tail, ns.length ≤ bound := by
    intro tail mem
    obtain ⟨ns, in_group, rfl⟩ := List.mem_map.mp mem
    rw [List.length_tail]
    exact Nat.sub_le_of_le_add (short ns (mem_of_mem_group in_group))
  rw [paths_behind_group path n]
  exact fills line _ _ _ t (tails_ne_nil some_group) valid level.group sorted.tails fits_tails
    short_tails (stops_group level first some_group stops)

theorem Directory.mono {nss' : List (List Text)} {ds : List Text}
    (subset : ∀ ns ∈ nss, 2 ≤ ns.length → ns ∈ nss') (directory : Directory nss ds) :
    Directory nss' ds := by
  obtain ⟨some_ds, ns, mem, more, some_more, rfl⟩ := directory
  refine ⟨some_ds, ds ++ more, subset _ mem ?_, more, some_more, rfl⟩
  have some_first := List.length_pos_iff.mpr some_ds
  have some_last := List.length_pos_iff.mpr some_more
  rw [List.length_append]
  omega

/-- A directory and its files, and then the others. -/
theorem Complete.group {before inserted filled after : List Row} {line : Int}
    {ns : List Text} (row : Drawn before inserted idx [] [[n]])
    (inside : idx < line) (chain : parentChain inserted line = parentChain inserted idx ++ [n])
    (filled_group : Complete inserted filled line ((group n (ns :: nss)).map List.tail))
    (others : Complete filled after idx
      (nss.filter fun ms => decide (2 ≤ ms.length ∧ ¬ InDirectory n ms)))
    (in_n : InDirectory n ns)
    (grouped_n : (ns :: nss).Pairwise fun a b => InDirectory n b → InDirectory n a)
    (grouped_o : (ns :: nss).Pairwise fun a b => InDirectory o b → InDirectory o a)
    (other : ¬ InDirectory o ns) :
    Complete before after idx
      ((ns :: nss).filter fun ms => decide (2 ≤ ms.length ∧ ¬ InDirectory o ms)) := by
  obtain ⟨inner, drawn_inner, nodup_inner, mem_inner⟩ := filled_group
  obtain ⟨outer, drawn_outer, nodup_outer, mem_outer⟩ := others
  have all : ∀ ms ∈ Hyper.group n (ns :: nss), InDirectory n ms :=
    fun _ mem => inDirectory_of_mem_group mem
  have perm : (Hyper.group n (ns :: nss) ++
      nss.filter fun ms => decide (2 ≤ ms.length ∧ ¬ InDirectory n ms)).Perm
      ((ns :: nss).filter fun ms => decide (2 ≤ ms.length ∧ ¬ InDirectory o ms)) := by
    have whole : Hyper.group n (ns :: nss) = (ns :: nss).filter fun ms => decide (InDirectory n ms) :=
      (filter_eq_takeWhile (by simpa only [decide_eq_true_eq] using grouped_n)).symm
    rw [whole]
    exact filter_group grouped_o other in_n
  have drawn := (row.trans (drawn_inner.below inside chain)).trans drawn_outer
  rw [map_tail_group all, List.nil_append] at drawn
  refine ⟨_, drawn.perm perm (.refl _), ?_, fun ds => ?_⟩
  · refine nodup_directories (fun ms mem => ?_) nodup_inner nodup_outer
      (fun d mem => ((mem_inner d).mp mem).1) mem_outer
    exact (of_decide_eq_true (List.mem_filter.mp mem).2).2
  · rw [mem_directories all (group_ne_nil in_n) mem_inner mem_outer]
    exact ⟨.mono fun ms mem _ => perm.subset mem, .mono fun ms mem _ => perm.symm.subset mem⟩

/-- The second loop draws the directories of a level, apart from one that is drawn. -/
theorem draw_directories {bound : Nat} (contract : w.Appends) (fills : Fills w fill bound)
    (valid : idx < (w.rows t).length) (level : Level path nss) (sorted : Sorted nss)
    (fits : ∀ ns ∈ nss, LevelFits path.length ns) (short : ∀ ns ∈ nss, ns.length ≤ bound + 1)
    (grouped : nss.Pairwise fun a b => InDirectory o b → InDirectory o a)
    (stops : Stops path fnd nss rest) :
    ∃ t', drawDirectories w fill idx path fnd o (paths path nss ++ rest) t = some t' ∧
      Complete (w.rows t) (w.rows t') idx
        (nss.filter fun ns => decide (2 ≤ ns.length ∧ ¬ InDirectory o ns)) := by
  induction nss generalizing fnd t o with
  | nil =>
    refine ⟨t, drawDirectories_stop stops, [], Drawn.refl, List.nodup_nil, fun ds => ?_⟩
    refine iff_of_false List.not_mem_nil ?_
    rintro ⟨_, ns, mem, _⟩
    cases mem
  | cons ns nss ih =>
    obtain ⟨names, level'⟩ := List.forall_mem_cons.mp level
    obtain ⟨fit, fits'⟩ := List.forall_mem_cons.mp fits
    have short' := (List.forall_mem_cons.mp short).2
    have sorted' : Sorted nss := (List.pairwise_cons.mp sorted).2
    obtain ⟨n, more, rfl⟩ := names.exists_cons
    rw [LevelFits] at fit
    have whole : paths path ((n :: more) :: nss) ++ rest =
        (path ++ joined (n :: more)) :: (paths path nss ++ rest) := rfl
    by_cases skipped : more = [] ∨ o = n
    · have run : drawDirectories w fill idx path fnd o (paths path ((n :: more) :: nss) ++ rest) t =
          drawDirectories w fill idx path true o (paths path nss ++ rest) t := by
        rw [whole, drawDirectories_cons names]
        split
        case isTrue none =>
          rw [if_pos none] at fit
          rw [if_neg fun both => Nat.not_lt.mpr (fit.2 both.1) both.2]
        case isFalse some_more =>
          rw [if_neg some_more] at fit
          rw [if_neg (Nat.not_le.mpr fit.1), if_pos (skipped.resolve_left some_more)]
      have outside : ¬ (2 ≤ (n :: more).length ∧ ¬ InDirectory o (n :: more)) := by
        rintro ⟨long, other⟩
        have some_more : more ≠ [] := by
          rintro rfl
          exact absurd long (by simp)
        exact other (inDirectory_cons.mpr ⟨(skipped.resolve_left some_more).symm, some_more⟩)
      rw [run, List.filter_cons_of_neg (by simpa only [decide_eq_true_eq] using outside)]
      exact ih valid level' sorted' fits' short' (List.pairwise_cons.mp grouped).2 stops.tail
    · obtain ⟨some_more, other⟩ := not_or.mp skipped
      rw [if_neg some_more] at fit
      have in_n : InDirectory n (n :: more) := inDirectory_cons.mpr ⟨rfl, some_more⟩
      have not_o : ¬ InDirectory o (n :: more) :=
        fun inside => other (inDirectory_cons.mp inside).1.symm
      obtain ⟨row, inside, valid_line, chain⟩ := contract.directory valid n
      obtain ⟨t₁, call, filled⟩ := fill_group fills valid_line level sorted fits short names.first
        (group_ne_nil in_n) stops.found
      have grouped_n := grouped_of_sorted names.first sorted level in_n
      have still_valid : idx < (w.rows t₁).length := by
        obtain ⟨_, drawn, _⟩ := filled
        have longer := row.longer
        have longer' := drawn.longer
        omega
      obtain ⟨t', run, others⟩ := ih (t := t₁) (o := n) still_valid level' sorted' fits' short'
        (List.pairwise_cons.mp grouped_n).2 stops.tail
      refine ⟨t', ?_, Complete.group row inside ?_ filled others in_n grouped_n grouped not_o⟩
      · rw [whole, drawDirectories_cons names, if_neg some_more, if_neg (Nat.not_le.mpr fit.1),
          if_neg other, if_neg (Nat.not_le.mpr fit.2.1), ← whole, call, Option.bind_some, run]
      · rw [chain, row.chain]

/-- Both loops, where the recursive call does what it should. -/
theorem fill_level {fuel : Nat} (contract : w.Appends) (fills : Fills w (fill_recursive w fuel) fuel)
    (valid : idx < (w.rows t).length) (level : Level path nss) (sorted : Sorted nss)
    (fits : ∀ ns ∈ nss, LevelFits path.length ns) (short : ∀ ns ∈ nss, ns.length ≤ fuel + 1)
    (stops : Stops path false nss rest) :
    ∃ t', fill_recursive w (fuel + 1) idx path (paths path nss ++ rest) t = some t' ∧
      Complete (w.rows t) (w.rows t') idx nss := by
  have fits_files : ∀ n, [n] ∈ nss → n.length < MAXPATHLEN := by
    intro n mem
    have fit := fits [n] mem
    rw [LevelFits, if_pos rfl] at fit
    exact fit.1
  have no_empty : ∀ ns ∈ nss, ¬ InDirectory [] ns := fun ns mem => not_inDirectory_nil (level ns mem)
  have grouped : nss.Pairwise fun a b => InDirectory [] b → InDirectory [] a :=
    List.pairwise_of_forall_mem_list fun a _ b mem inside => absurd inside (no_empty b mem)
  obtain ⟨t₁, run, files⟩ := draw_files contract valid level fits_files stops
  have longer := files.longer
  have still_valid : idx < (w.rows t₁).length := by omega
  obtain ⟨t', run', dirs, drawn, nodup, mem⟩ :=
    draw_directories contract fills still_valid level sorted fits short grouped stops
  have deep : (nss.filter fun ns => decide (2 ≤ ns.length ∧ ¬ InDirectory [] ns)) =
      nss.filter fun ns => !decide (ns.length = 1) := by
    refine List.filter_congr fun ns mem => ?_
    obtain ⟨n, more, rfl⟩ := (level ns mem).exists_cons
    have outside := no_empty _ mem
    cases more with
    | nil => simp
    | cons m more => simp [outside]
  refine ⟨t', ?_, dirs, ?_, nodup, fun ds => ?_⟩
  · rw [fill_recursive, run, Option.bind_some, run']
  · rw [deep] at drawn
    exact (files.trans drawn).perm (List.filter_append_perm _ nss) (.refl dirs)
  · rw [mem]
    refine ⟨.mono fun ns mem _ => (List.mem_filter.mp mem).1, .mono fun ns mem long => ?_⟩
    exact List.mem_filter.mpr ⟨mem, decide_eq_true ⟨long, no_empty ns mem⟩⟩

/-- Enough fuel draws all files with their directories. -/
theorem fill_recursive_fills (contract : w.Appends) (fuel : Nat) :
    Fills w (fill_recursive w fuel) fuel := by
  induction fuel with
  | zero =>
    intro idx path nss rest t some_names valid level _ _ short _
    obtain ⟨ns, nss, rfl⟩ := List.exists_cons_of_ne_nil some_names
    obtain ⟨n, more, rfl⟩ := (level ns List.mem_cons_self).exists_cons
    exact absurd (short _ List.mem_cons_self) (Nat.not_succ_le_zero _)
  | succ fuel ih =>
    intro idx path nss rest t _ valid level sorted fits short stops
    exact fill_level contract ih valid level sorted fits short stops

/-! ### The buffers -/

theorem files_fit {t' : T} (level : Level path nss)
    (run : drawFiles w idx path fnd (paths path nss ++ rest) t = some t') :
    ∀ n, [n] ∈ nss → n.length < MAXPATHLEN := by
  induction nss generalizing fnd t with
  | nil =>
    intro n mem
    cases mem
  | cons ns nss ih =>
    obtain ⟨names, level'⟩ := List.forall_mem_cons.mp level
    obtain ⟨m, more, rfl⟩ := names.exists_cons
    rw [paths, List.map_cons, List.cons_append, drawFiles_cons names] at run
    intro n mem
    split at run
    case isTrue no_more =>
      split at run
      case isTrue => cases run
      case isFalse short =>
        rcases List.mem_cons.mp mem with same | mem
        · rw [(List.cons.inj same).1]
          exact Nat.not_le.mp short
        · exact ih level' run n mem
    case isFalse some_more =>
      rcases List.mem_cons.mp mem with same | mem
      · exact absurd (List.cons.inj same).2.symm some_more
      · exact ih level' run n mem

/-- What the second loop checks of a path. -/
def DirectoryFits (prefixlen : Nat) (ns : List Text) : Prop :=
  if 2 ≤ ns.length then LevelFits prefixlen ns
  else ∀ n, ns = [n] → n.headD 0 = SLASH → n.length ≤ 256

/-- A call that returns had room for the names. -/
def Checks (fill : Int → Text → List Text → T → Option T) : Prop :=
  ∀ (idx : Int) (path : Text) (nss : List (List Text)) (rest : List Text) (t t' : T),
    Level path nss → Sorted nss → fill idx path (paths path nss ++ rest) t = some t' →
    ∀ ns ∈ nss, LevelFits path.length ns

theorem directories_fit {t' : T} (checks : Checks fill) (level : Level path nss) (sorted : Sorted nss)
    (run : drawDirectories w fill idx path fnd o (paths path nss ++ rest) t = some t') :
    ∀ ns ∈ nss, ¬ InDirectory o ns → DirectoryFits path.length ns := by
  induction nss generalizing fnd t o with
  | nil =>
    intro ns mem
    cases mem
  | cons ns nss ih =>
    obtain ⟨names, level'⟩ := List.forall_mem_cons.mp level
    have sorted' : Sorted nss := (List.pairwise_cons.mp sorted).2
    obtain ⟨n, more, rfl⟩ := names.exists_cons
    have whole : paths path ((n :: more) :: nss) ++ rest =
        (path ++ joined (n :: more)) :: (paths path nss ++ rest) := rfl
    rw [whole, drawDirectories_cons names] at run
    intro ms mem outside
    split at run
    case isTrue no_more =>
      split at run
      case isTrue => cases run
      case isFalse short =>
        rcases List.mem_cons.mp mem with rfl | mem
        · rw [DirectoryFits, no_more, if_neg (by simp)]
          intro m same root
          rw [← (List.cons.inj same).1] at root ⊢
          exact Nat.not_lt.mp fun long => short ⟨root, long⟩
        · exact ih level' sorted' run ms mem outside
    case isFalse some_more =>
      have in_n : InDirectory n (n :: more) := inDirectory_cons.mpr ⟨rfl, some_more⟩
      split at run
      case isTrue => cases run
      case isFalse short =>
        split at run
        case isTrue same =>
          rcases List.mem_cons.mp mem with rfl | mem
          · exact absurd (same ▸ in_n) outside
          · exact ih level' sorted' run ms mem outside
        case isFalse other =>
          split at run
          case isTrue => cases run
          case isFalse room =>
            obtain ⟨t₁, call, run⟩ := Option.bind_eq_some_iff.mp run
            rw [← whole, paths_behind_group path n] at call
            have fits_tails := checks _ _ _ _ _ _ level.group sorted.tails call
            have grouped := grouped_of_sorted names.first sorted level in_n
            by_cases in_ms : InDirectory n ms
            · have in_group : ms ∈ group n ((n :: more) :: nss) := by
                rw [group, ← filter_eq_takeWhile (by simpa only [decide_eq_true_eq] using grouped)]
                exact List.mem_filter.mpr ⟨mem, decide_eq_true in_ms⟩
              have fit := fits_tails ms.tail (List.mem_map_of_mem in_group)
              rw [DirectoryFits, if_pos in_ms.2]
              obtain ⟨m, others, rfl⟩ := (level ms mem).exists_cons
              obtain ⟨rfl, some_others⟩ := inDirectory_cons.mp in_ms
              rw [List.length_append, List.length_append, List.length_singleton] at fit
              rw [LevelFits, if_neg some_others]
              exact ⟨Nat.not_le.mp short, Nat.not_le.mp room, fit⟩
            · rcases List.mem_cons.mp mem with rfl | mem
              · exact absurd in_n in_ms
              · exact ih level' sorted' run ms mem in_ms

/-- A call that returns had room for the names. -/
theorem fill_recursive_checks (fuel : Nat) : Checks (fill_recursive w fuel) := by
  induction fuel with
  | zero =>
    intro idx path nss rest t t' _ _ run
    cases run
  | succ fuel ih =>
    intro idx path nss rest t t' level sorted run ns mem
    obtain ⟨t₁, files, directories⟩ := Option.bind_eq_some_iff.mp run
    have fits := directories_fit ih level sorted directories ns mem
      (not_inDirectory_nil (level ns mem))
    have file := files_fit level files
    obtain ⟨n, more, rfl⟩ := (level ns mem).exists_cons
    by_cases some_more : more = []
    · rw [some_more, DirectoryFits, if_neg (by simp)] at fits
      rw [LevelFits, if_pos some_more]
      exact ⟨file n (some_more ▸ mem), fits n rfl⟩
    · rw [DirectoryFits, if_pos (inDirectory_cons.mpr ⟨rfl, some_more⟩).2] at fits
      exact fits

end Directories

/-! ### The list of files -/

theorem length_le_length_joined (ns : List Text) : ns.length ≤ (joined ns).length + 1 := by
  induction ns with
  | nil => exact Nat.zero_le _
  | cons n ns ih =>
    by_cases last : ns = []
    · simp [last]
    · rw [joined_cons last, List.length_append, List.length_cons, List.length_cons]
      omega

theorem paths_names (fileargv : List Text) : paths [] (fileargv.map names) = fileargv := by
  rw [paths, List.map_map]
  conv_rhs => rw [← List.map_id fileargv]
  exact List.map_congr_left fun file _ => joined_names file

/-- Every file gets one row below the rows of its directories, and every directory one row, if and
only if the names fit in the buffers. -/
theorem fill_tree_iff {T : Type} (w : Widget T) (contract : w.Appends) (parent : Int)
    (fileargv : List Text) (t : T) (valid : parent < (w.rows t).length)
    (ispath : ∀ file ∈ fileargv, IsPath file) (sorted : fileargv.Pairwise (· < ·)) :
    (∃ (t' : T) (dirs : List (List Text)), fill_file_tree w parent fileargv t = some t' ∧
      (w.rows t').Perm (w.rows t ++
        fileargv.map (fun file => (false, parentChain (w.rows t) parent ++ names file)) ++
        dirs.map (fun ds => (true, parentChain (w.rows t) parent ++ ds))) ∧
      dirs.Nodup ∧ ∀ ds, ds ∈ dirs ↔ Directory (fileargv.map names) ds) ↔
    ∀ file ∈ fileargv, LevelFits 0 (names file) := by
  have whole : paths [] (fileargv.map names) ++ [] = fileargv := by
    rw [List.append_nil, paths_names]
  have level : Level [] (fileargv.map names) := by
    intro ns mem
    obtain ⟨file, in_list, rfl⟩ := List.mem_map.mp mem
    exact names_names (ispath file in_list)
  have sorted_names : Sorted (fileargv.map names) := by
    have same : (fileargv.map names).map joined = fileargv := paths_names fileargv
    rw [Sorted, same]
    exact sorted
  constructor
  · rintro ⟨t', dirs, run, _⟩ file mem
    rw [fill_file_tree] at run
    have checks := fill_recursive_checks (w := w) ((fileargv.map List.length).sum + 1) parent []
      (fileargv.map names) [] t t' level sorted_names
    rw [whole] at checks
    exact checks run (names file) (List.mem_map_of_mem mem)
  · intro fits
    have fits_names : ∀ ns ∈ fileargv.map names, LevelFits 0 ns := by
      intro ns mem
      obtain ⟨file, in_list, rfl⟩ := List.mem_map.mp mem
      exact fits file in_list
    have short : ∀ ns ∈ fileargv.map names, ns.length ≤ (fileargv.map List.length).sum + 1 := by
      intro ns mem
      obtain ⟨file, in_list, rfl⟩ := List.mem_map.mp mem
      have names_le := length_le_length_joined (names file)
      have length_le := List.single_le_sum (l := fileargv.map List.length) (by simp) file.length
        (List.mem_map_of_mem in_list)
      rw [joined_names] at names_le
      omega
    obtain ⟨t', run, dirs, drawn, nodup, mem⟩ := fill_level contract (fill_recursive_fills contract _)
      valid level sorted_names fits_names short (.inl rfl)
    rw [whole] at run
    refine ⟨t', dirs, run, ?_, nodup, mem⟩
    have rows := drawn.rows
    rwa [List.map_map] at rows

/-- A table that puts every row at the end. -/
def rowList : Widget (List Row) where
  rows := id
  insert rows directory text parent :=
    (rows ++ [(directory, parentChain rows parent ++ [text])], rows.length)

theorem rowList_appends : rowList.Appends := by
  intro rows directory text parent inside
  exact ⟨rows, [], (List.append_nil rows).symm, inside, rfl, rfl⟩

theorem relative_and_absolute :
    (∃ (t' : List Row) (dirs : List (List Text)),
      fill_file_tree rowList (-1) [ascii "/c", ascii "a/b", ascii "a/d/e"] [] = some t' ∧
      (rowList.rows t').Perm (rowList.rows [] ++
        [ascii "/c", ascii "a/b", ascii "a/d/e"].map (fun file =>
          (false, parentChain (rowList.rows []) (-1) ++ names file)) ++
        dirs.map (fun ds => (true, parentChain (rowList.rows []) (-1) ++ ds))) ∧
      dirs.Nodup ∧ ∀ ds, ds ∈ dirs ↔
        Directory ([ascii "/c", ascii "a/b", ascii "a/d/e"].map names) ds) ↔
    ∀ file ∈ [ascii "/c", ascii "a/b", ascii "a/d/e"], LevelFits 0 (names file) :=
  fill_tree_iff rowList rowList_appends (-1) _ [] (by decide) (by decide) (by decide)

/-- The name of a directory of 256 bytes does not fit. -/
theorem long_directory_overflows :
    (∀ file ∈ [SLASH :: List.replicate 255 97 ++ ascii "/f"], IsPath file) ∧
      fill_file_tree rowList (-1) [SLASH :: List.replicate 255 97 ++ ascii "/f"] [] = none := by
  decide +kernel

end SourceNavigator.Hyper

import SourceNavigator.Hyper.FileTree

/-!
The rows of a tree table, and the directories of sorted paths (`fill_file_tree` in
`hyper/exint.c`).

The files of a directory stand together in a sorted list. What a call adds to the table is said by
`Drawn`: the rows below a parent, whose line stays where it is.

* `Drawn.below` makes rows below a directory rows below its parent.
* `mem_directories` and `nodup_directories` put a directory in front of the others.
-/

namespace SourceNavigator.Hyper

/-! ### The table -/

/-- The texts from the top down to a parent; the top has no line. -/
def parentChain (rows : List Row) (parent : Int) : List Text :=
  if parent < 0 then [] else ((rows[parent.toNat]?).map Prod.snd).getD []

/-- What the tree table does with an insertion: the new row is a child of the parent, somewhere
below its line, and the result is its line. -/
def Widget.Appends {T : Type} (w : Widget T) : Prop :=
  ∀ t directory text (parent : Int), parent < (w.rows t).length →
    ∃ above below, w.rows t = above ++ below ∧ parent < above.length ∧
      w.rows (w.insert t directory text parent).1 =
        above ++ (directory, parentChain (w.rows t) parent ++ [text]) :: below ∧
      (w.insert t directory text parent).2 = above.length

/-- The names are those of a file in a directory. -/
def InDirectory (n : Text) (ns : List Text) : Prop := ns.head? = some n ∧ 2 ≤ ns.length

instance (n : Text) (ns : List Text) : Decidable (InDirectory n ns) :=
  inferInstanceAs (Decidable (_ ∧ _))

/-- The rows are those before, and those of files and directories below a parent; the lines down to
the parent are left. -/
structure Drawn (before after : List Row) (parent : Int) (files dirs : List (List Text)) : Prop where
  rows : after.Perm (before ++ files.map (fun ns => (false, parentChain before parent ++ ns)) ++
    dirs.map (fun ds => (true, parentChain before parent ++ ds)))
  kept : ∀ line : Nat, (line : Int) ≤ parent → after[line]? = before[line]?
  longer : before.length ≤ after.length

section Table

variable {before middle after : List Row} {parent : Int} {files files' dirs dirs' : List (List Text)}

theorem Drawn.refl : Drawn before before parent [] [] := by
  constructor
  case rows => simp
  case kept => exact fun _ _ => rfl
  case longer => exact Nat.le_refl _

theorem Drawn.chain (drawn : Drawn before after parent files dirs) :
    parentChain after parent = parentChain before parent := by
  rw [parentChain, parentChain]
  split
  case isTrue => rfl
  case isFalse => rw [drawn.kept parent.toNat (by omega)]

theorem Drawn.trans (drawn : Drawn before middle parent files dirs)
    (drawn' : Drawn middle after parent files' dirs') :
    Drawn before after parent (files ++ files') (dirs ++ dirs') := by
  constructor
  case rows =>
    refine drawn'.rows.trans ?_
    rw [drawn.chain, List.map_append, List.map_append]
    refine ((drawn.rows.append_right _).append_right _).trans ?_
    rw [List.append_assoc, List.append_assoc, List.append_assoc, List.append_assoc, List.append_assoc]
    refine .append_left before (.append_left _ ?_)
    rw [← List.append_assoc, ← List.append_assoc]
    exact .append_right _ List.perm_append_comm
  case kept => exact fun line above => (drawn'.kept line above).trans (drawn.kept line above)
  case longer => exact Nat.le_trans drawn.longer drawn'.longer

theorem Drawn.perm (drawn : Drawn before after parent files dirs) (files_perm : files.Perm files')
    (dirs_perm : dirs.Perm dirs') : Drawn before after parent files' dirs' := by
  constructor
  case rows =>
    exact drawn.rows.trans (((files_perm.map _).append_left before).append (dirs_perm.map _))
  case kept => exact drawn.kept
  case longer => exact drawn.longer

end Table

section Insert

variable {T : Type} {w : Widget T} {t : T} {idx : Int} {text : Text}

theorem Widget.Appends.row (contract : w.Appends) (valid : idx < (w.rows t).length)
    (directory : Bool) (text : Text) :
    (w.rows (w.insert t directory text idx).1).Perm
        (w.rows t ++ [(directory, parentChain (w.rows t) idx ++ [text])]) ∧
      (∀ line : Nat, (line : Int) ≤ idx →
        (w.rows (w.insert t directory text idx).1)[line]? = (w.rows t)[line]?) ∧
      (w.rows t).length ≤ (w.rows (w.insert t directory text idx).1).length := by
  obtain ⟨above, below, before, inside, after, _⟩ := contract t directory text idx valid
  refine ⟨?_, fun line le => ?_, ?_⟩
  · rw [after, before, List.append_assoc]
    exact .append_left above (List.perm_append_singleton _ below).symm
  · rw [after, before, List.getElem?_append_left (by omega), List.getElem?_append_left (by omega)]
  · rw [after, before, List.length_append, List.length_append, List.length_cons]
    omega

theorem Widget.Appends.file (contract : w.Appends) (valid : idx < (w.rows t).length) (text : Text) :
    Drawn (w.rows t) (w.rows (w.insert t false text idx).1) idx [[text]] [] := by
  obtain ⟨rows, kept, longer⟩ := contract.row valid false text
  constructor
  case rows => rwa [List.map_singleton, List.map_nil, List.append_nil]
  case kept => exact kept
  case longer => exact longer

/-- The new row of a directory is the parent of what is drawn below it. -/
theorem Widget.Appends.directory (contract : w.Appends) (valid : idx < (w.rows t).length)
    (text : Text) :
    Drawn (w.rows t) (w.rows (w.insert t true text idx).1) idx [] [[text]] ∧
      idx < (w.insert t true text idx).2 ∧
      (w.insert t true text idx).2 < (w.rows (w.insert t true text idx).1).length ∧
      parentChain (w.rows (w.insert t true text idx).1) (w.insert t true text idx).2 =
        parentChain (w.rows t) idx ++ [text] := by
  obtain ⟨rows, kept, longer⟩ := contract.row valid true text
  obtain ⟨above, below, _, inside, after, line⟩ := contract t true text idx valid
  refine ⟨?_, ?_, ?_, ?_⟩
  · constructor
    case rows => rwa [List.map_singleton, List.map_nil, List.append_nil]
    case kept => exact kept
    case longer => exact longer
  · rw [line]
    exact inside
  · rw [line, after, List.length_append, List.length_cons]
    omega
  · rw [line, after, parentChain, if_neg (by omega), Int.toNat_natCast,
      List.getElem?_append_right (Nat.le_refl _), Nat.sub_self]
    rfl

end Insert

/-! ### Groups -/

/-- The directories of files: what stands in front of the last name. -/
def Directory (nss : List (List Text)) (ds : List Text) : Prop :=
  ds ≠ [] ∧ ∃ ns ∈ nss, ∃ more, more ≠ [] ∧ ns = ds ++ more

/-- The paths are sorted. -/
def Sorted (nss : List (List Text)) : Prop := (nss.map joined).Pairwise (· < ·)

/-- The paths behind a prefix. -/
def paths (path : Text) (nss : List (List Text)) : List Text := nss.map fun ns => path ++ joined ns

section Groups

variable {n o : Text} {ns : List Text} {nss tails dirs : List (List Text)} {top : Bool}
  {middle after : List Row} {parent line : Int}

theorem inDirectory_cons {m : Text} {more : List Text} :
    InDirectory n (m :: more) ↔ m = n ∧ more ≠ [] := by
  rw [InDirectory, List.head?_cons, Option.some_inj, List.length_cons]
  refine and_congr_right fun _ => ?_
  rw [← List.length_pos_iff]
  omega

theorem inDirectory_iff_starts (first : First n) (names : Names top ns) :
    InDirectory n ns ↔ n ++ [SLASH] <+: joined ns := by
  cases ns with
  | nil => exact absurd names id
  | cons m more => rw [inDirectory_cons, prefix_joined_iff first names.first]

/-- The files of a directory stand together. -/
theorem grouped_of_sorted (first : First n) (sorted : Sorted (ns :: nss))
    (level : ∀ ms ∈ ns :: nss, Names top ms) (inside : InDirectory n ns) :
    (ns :: nss).Pairwise fun a b => InDirectory n b → InDirectory n a := by
  rw [Sorted, List.pairwise_map, List.pairwise_cons] at sorted
  rw [List.pairwise_cons]
  refine ⟨fun _ _ _ => inside, sorted.2.imp_of_mem ?_⟩
  intro a b mem mem' less in_b
  have level_a := level a (List.mem_cons_of_mem ns mem)
  rw [inDirectory_iff_starts first level_a]
  rw [inDirectory_iff_starts first (level b (List.mem_cons_of_mem ns mem'))] at in_b
  rw [inDirectory_iff_starts first (level ns List.mem_cons_self)] at inside
  exact prefix_between inside in_b (sorted.1 a mem) less

/-- What stands together is taken from the front. -/
theorem filter_eq_takeWhile {α : Type} {p : α → Bool} {l : List α}
    (grouped : l.Pairwise fun a b => p b = true → p a = true) : l.filter p = l.takeWhile p := by
  induction l with
  | nil => rfl
  | cons a l ih =>
    rw [List.pairwise_cons] at grouped
    by_cases inside : p a = true
    · rw [List.filter_cons_of_pos inside, List.takeWhile_cons_of_pos inside, ih grouped.2]
    · rw [List.filter_cons_of_neg inside, List.takeWhile_cons_of_neg inside]
      rw [List.filter_eq_nil_iff]
      exact fun b mem in_b => inside (grouped.1 b mem in_b)

theorem map_tail_group (all : ∀ ns ∈ nss, InDirectory n ns) :
    (nss.map List.tail).map (n :: ·) = nss := by
  rw [List.map_map]
  conv_rhs => rw [← List.map_id nss]
  refine List.map_congr_left fun ns mem => ?_
  have inside := all ns mem
  cases ns with
  | nil => cases inside.1
  | cons m more => exact congrArg (· :: more) (inDirectory_cons.mp inside).1.symm

/-- The paths of a directory. -/
theorem paths_group (path : Text) (all : ∀ ns ∈ nss, InDirectory n ns) :
    paths path nss = paths (path ++ n ++ [SLASH]) (nss.map List.tail) := by
  rw [paths, paths, List.map_map]
  refine List.map_congr_left fun ns mem => ?_
  have inside := all ns mem
  cases ns with
  | nil => cases inside.1
  | cons m more =>
    obtain ⟨rfl, some_more⟩ := inDirectory_cons.mp inside
    rw [joined_cons some_more]
    simp

theorem Sorted.group (sorted : Sorted nss) (all : ∀ ns ∈ nss, InDirectory n ns) :
    Sorted (nss.map List.tail) := by
  rw [Sorted, List.map_map, List.pairwise_map]
  rw [Sorted, List.pairwise_map] at sorted
  refine sorted.imp_of_mem fun {a b} mem mem' less => ?_
  have in_a := all a mem
  have in_b := all b mem'
  cases a with
  | nil => cases in_a.1
  | cons m more =>
    cases b with
    | nil => cases in_b.1
    | cons m' more' =>
      obtain ⟨rfl, some_more⟩ := inDirectory_cons.mp in_a
      obtain ⟨rfl, some_more'⟩ := inDirectory_cons.mp in_b
      rw [joined_cons some_more, joined_cons some_more', append_lt_append_iff,
        List.cons_lt_cons_iff] at less
      exact (less.resolve_left (UInt8.lt_irrefl _)).2

/-- What is drawn below a directory is drawn below its parent. -/
theorem Drawn.below (drawn : Drawn middle after line tails dirs) (inside : parent < line)
    (chain : parentChain middle line = parentChain middle parent ++ [n]) :
    Drawn middle after parent (tails.map (n :: ·)) (dirs.map (n :: ·)) := by
  constructor
  case rows =>
    have rows := drawn.rows
    rw [chain] at rows
    rw [List.map_map, List.map_map]
    have same : ∀ (kind : Bool) (l : List (List Text)),
        l.map (fun ns => (kind, parentChain middle parent ++ [n] ++ ns)) =
          l.map ((fun ns => (kind, parentChain middle parent ++ ns)) ∘ (n :: ·)) := by
      intro kind l
      refine List.map_congr_left fun ns _ => ?_
      rw [List.append_assoc]
      rfl
    rw [same, same] at rows
    exact rows
  case kept => exact fun l le => drawn.kept l (by omega)
  case longer => exact drawn.longer

/-- The files of a level that are in directories, without those of one directory: these, those of
the next directory, and the others. -/
theorem filter_group (grouped_o : (ns :: nss).Pairwise fun a b => InDirectory o b → InDirectory o a)
    (other : ¬ InDirectory o ns) (inside : InDirectory n ns) :
    ((ns :: nss).filter fun ms => decide (InDirectory n ms)) ++
        (nss.filter fun ms => decide (2 ≤ ms.length ∧ ¬ InDirectory n ms)) |>.Perm
      ((ns :: nss).filter fun ms => decide (2 ≤ ms.length ∧ ¬ InDirectory o ms)) := by
  have no_o : ∀ ms ∈ ns :: nss, ¬ InDirectory o ms := by
    intro ms mem in_o
    rcases List.mem_cons.mp mem with rfl | mem
    · exact other in_o
    · exact other ((List.pairwise_cons.mp grouped_o).1 ms mem in_o)
  have deep : ((ns :: nss).filter fun ms => decide (2 ≤ ms.length ∧ ¬ InDirectory o ms)) =
      (ns :: nss).filter fun ms => decide (2 ≤ ms.length) :=
    List.filter_congr fun ms mem => by simp [no_o ms mem]
  have first : ((ns :: nss).filter fun ms => decide (InDirectory n ms)) =
      ((ns :: nss).filter fun ms => decide (2 ≤ ms.length)).filter
        fun ms => decide (InDirectory n ms) := by
    rw [List.filter_filter]
    refine List.filter_congr fun ms _ => ?_
    have long : InDirectory n ms → 2 ≤ ms.length := And.right
    by_cases in_n : InDirectory n ms
    · simp [in_n, long in_n]
    · simp [in_n]
  have second : (nss.filter fun ms => decide (2 ≤ ms.length ∧ ¬ InDirectory n ms)) =
      ((ns :: nss).filter fun ms => decide (2 ≤ ms.length)).filter
        fun ms => !decide (InDirectory n ms) := by
    rw [List.filter_filter, List.filter_cons_of_neg (by simp [inside])]
    refine List.filter_congr fun ms _ => ?_
    rw [Bool.decide_and, Bool.and_comm, decide_not]
  rw [deep, first, second]
  exact List.filter_append_perm _ _

/-- The directories below a directory, itself, and the others. -/
theorem mem_directories {group others inner outer : List (List Text)}
    (all : ∀ ms ∈ group, InDirectory n ms) (some_group : group ≠ [])
    (mem_inner : ∀ ds, ds ∈ inner ↔ Directory (group.map List.tail) ds)
    (mem_outer : ∀ ds, ds ∈ outer ↔ Directory others ds) (ds : List Text) :
    ds ∈ [[n]] ++ inner.map (n :: ·) ++ outer ↔ Directory (group ++ others) ds := by
  rw [List.append_assoc, List.singleton_append, List.mem_cons, List.mem_append, List.mem_map]
  constructor
  · rintro (rfl | ⟨d, mem, rfl⟩ | mem)
    · obtain ⟨ns, group, rfl⟩ := List.exists_cons_of_ne_nil some_group
      have inside := all ns List.mem_cons_self
      cases ns with
      | nil => cases inside.1
      | cons m more =>
        obtain ⟨rfl, some_more⟩ := inDirectory_cons.mp inside
        exact ⟨List.cons_ne_nil m [], m :: more, List.mem_cons_self, more, some_more, rfl⟩
    · obtain ⟨_, tail, tail_mem, more, some_more, whole⟩ := (mem_inner d).mp mem
      obtain ⟨ns, mem, rfl⟩ := List.mem_map.mp tail_mem
      refine ⟨List.cons_ne_nil n d, ns, List.mem_append_left others mem, more, some_more, ?_⟩
      have inside := all ns mem
      cases ns with
      | nil => cases inside.1
      | cons m tail =>
        rw [(inDirectory_cons.mp inside).1]
        exact congrArg (n :: ·) whole
    · obtain ⟨some_ds, ns, mem, last⟩ := (mem_outer ds).mp mem
      exact ⟨some_ds, ns, List.mem_append_right group mem, last⟩
  · rintro ⟨some_ds, ns, mem, more, some_more, rfl⟩
    obtain ⟨m, d, rfl⟩ := List.exists_cons_of_ne_nil some_ds
    rcases List.mem_append.mp mem with mem | mem
    · have same : m = n := (inDirectory_cons.mp (all _ mem)).1
      rw [same]
      by_cases some_d : d = []
      · exact .inl (by rw [some_d])
      · refine .inr (.inl ⟨d, (mem_inner d).mpr ⟨some_d, d ++ more, ?_, more, some_more, rfl⟩, rfl⟩)
        exact List.mem_map.mpr ⟨_, mem, rfl⟩
    · exact .inr (.inr ((mem_outer _).mpr ⟨some_ds, _, mem, more, some_more, rfl⟩))

theorem nodup_directories {others inner outer : List (List Text)}
    (apart : ∀ ms ∈ others, ¬ InDirectory n ms) (nodup_inner : inner.Nodup)
    (nodup_outer : outer.Nodup) (inner_ne : ∀ d ∈ inner, d ≠ [])
    (mem_outer : ∀ ds, ds ∈ outer ↔ Directory others ds) :
    ([[n]] ++ inner.map (n :: ·) ++ outer).Nodup := by
  have not_outer : ∀ d, n :: d ∉ outer := by
    intro d mem
    obtain ⟨_, ns, mem, more, some_more, rfl⟩ := (mem_outer _).mp mem
    refine apart _ mem (inDirectory_cons.mpr ⟨rfl, ?_⟩)
    exact List.append_ne_nil_of_right_ne_nil d some_more
  rw [List.append_assoc, List.singleton_append, List.nodup_cons, List.mem_append, List.mem_map,
    List.nodup_append']
  refine ⟨?_, nodup_inner.map fun a b same => (List.cons.inj same).2, nodup_outer, ?_⟩
  · rintro (⟨d, mem, same⟩ | mem)
    · exact inner_ne d mem (List.cons.inj same).2
    · exact not_outer [] mem
  · intro ds mem mem'
    obtain ⟨d, _, rfl⟩ := List.mem_map.mp mem
    exact not_outer d mem'

end Groups

end SourceNavigator.Hyper

import SourceNavigator.Db.LongString
import SourceNavigator.Db.Table
import SourceNavigator.Hyper.FileSystem

/-!
Files in a tree table, with their directories (`fill_file_tree` in `hyper/exint.c`).

The paths are sorted. For a prefix, one loop inserts the files right behind it, and a second one
the directories, each before its own files: their paths are the rest of the list. The tree table
is what the insertions go to; its rows are seen with the texts from the top down to them.

* `prefix_joined_iff` says which paths start with the name of a directory.
-/

namespace SourceNavigator.Hyper

open Db (MAXPATHLEN)

/-! ### The source -/

/-- `file_firstroot`: whether there is a slash. -/
def file_firstroot (path : Text) : Bool := path.contains SLASH

/-- `FirstBaseDir`, which writes to a buffer of 256 bytes; `none` is behind it. -/
def FirstBaseDir (pth : Text) : Option Text :=
  let fnd : Bool := pth.headD 0 == SLASH
  let p := if fnd then pth.drop 1 else pth
  let name := (if fnd then [SLASH] else []) ++ p.takeWhile (· != SLASH)
  if fnd && (p.dropWhile (· != SLASH)).isEmpty then
    if name.length ≤ 256 then some [] else none
  else if name.length < 256 then some name else none

/-- A row of the tree: whether it is a directory, and the texts from the top down to it. -/
abbrev Row := Bool × List Text

/-- A tree table: what is seen of it, and the command `insert end` with the image of a directory or
a file, the text and the parent, whose result is the line of the new row. -/
structure Widget (T : Type) where
  rows : T → List Row
  insert : T → Bool → Text → Int → T × Int

section Code

variable {T : Type} (w : Widget T)

/-- The test for a path that is still a directory, which skips a slash in front; `none` is behind
the path. -/
def stillDirectory (file : Text) (prefixlen : Nat) : Option Bool :=
  if file.headD 0 = SLASH then
    if file.length < 1 + prefixlen then none else some (file_firstroot (file.drop (1 + prefixlen)))
  else some (file_firstroot (file.drop prefixlen))

/-- The loop that draws files. -/
def drawFiles (idx : Int) (path : Text) : Bool → List Text → T → Option T
  | _, [], t => some t
  | fnd, file :: filelist, t =>
    if path.isPrefixOf file then
      (stillDirectory file path.length).bind fun directory =>
        if directory then drawFiles idx path true filelist t
        else
          let filename := file.drop path.length
          if MAXPATHLEN ≤ filename.length then none
          else if filename = [] then drawFiles idx path true filelist t
          else drawFiles idx path true filelist (w.insert t false filename idx).1
    else if fnd then some t
    else drawFiles idx path false filelist t

/-- The loop that draws sub directories, where `fill` is the recursive call. -/
def drawDirectories (fill : Int → Text → List Text → T → Option T) (idx : Int) (path : Text) :
    Bool → Text → List Text → T → Option T
  | _, _, [], t => some t
  | fnd, olddir, file :: filelist, t =>
    if path.isPrefixOf file then
      if file_firstroot (file.drop path.length) then
        (FirstBaseDir (file.drop path.length)).bind fun dirname =>
          if dirname = [] ∨ olddir = dirname then
            drawDirectories fill idx path true olddir filelist t
          else
            let inserted := w.insert t true dirname idx
            let maindir := path ++ dirname ++ [SLASH]
            if MAXPATHLEN ≤ maindir.length then none
            else
              (fill inserted.2 maindir (file :: filelist) inserted.1).bind fun t =>
                drawDirectories fill idx path true dirname filelist t
      else drawDirectories fill idx path true olddir filelist t
    else if fnd then some t
    else drawDirectories fill idx path false olddir filelist t

/-- `fill_recursive`, with a bound on the depth of its calls. -/
def fill_recursive : Nat → Int → Text → List Text → T → Option T
  | 0, _, _, _, _ => none
  | fuel + 1, idx, path, fileargv, t =>
    (drawFiles w idx path false fileargv t).bind fun t =>
      drawDirectories w (fill_recursive fuel) idx path false [] fileargv t

/-- What `fill_file_tree` does with the contents. -/
def fill_file_tree (parent : Int) (fileargv : List Text) (t : T) : Option T :=
  fill_recursive w ((fileargv.map List.length).sum + 1) parent [] fileargv t

end Code

/-! ### Paths -/

/-- A path without a slash in front. -/
def withoutRoot (file : Text) : Text := if file.headD 0 = SLASH then file.drop 1 else file

/-- A path without empty components. -/
def IsPath (file : Text) : Prop := [] ∉ (withoutRoot file).splitOn SLASH

instance (file : Text) : Decidable (IsPath file) := inferInstanceAs (Decidable (¬ _))

/-- The names of the directories of a path and of the file, where a slash in front belongs to the
first name. -/
def names (file : Text) : List Text :=
  let parts := (withoutRoot file).splitOn SLASH
  if file.headD 0 = SLASH then parts.modifyHead (SLASH :: ·) else parts

/-- The path of names. -/
def joined (ns : List Text) : Text := [SLASH].intercalate ns

/-- A name without a slash. -/
def Plain (n : Text) : Prop := n ≠ [] ∧ SLASH ∉ n

/-- A name that may have a slash in front. -/
def First (n : Text) : Prop := Plain n ∨ ∃ c, n = SLASH :: c ∧ Plain c

/-- The names of a path, the first of which may have a slash in front at the top. -/
def Names (top : Bool) : List Text → Prop
  | [] => False
  | n :: more => (if top then First n else Plain n) ∧ ∀ c ∈ more, Plain c

section Paths

variable {n c : Text} {more : List Text} {top : Bool} {file : Text}

theorem joined_singleton : joined [n] = n := by simp [joined]

theorem joined_cons (some_more : more ≠ []) : joined (n :: more) = n ++ SLASH :: joined more := by
  rw [joined, List.intercalate_cons_of_ne_nil some_more, List.append_assoc]
  rfl

theorem joined_splitOn (s : Text) : joined (s.splitOn SLASH) = s := List.intercalate_splitOn SLASH

theorem joined_cons_cons (x : UInt8) : joined ((x :: n) :: more) = x :: joined (n :: more) := by
  by_cases some_more : more = []
  · rw [some_more, joined_singleton, joined_singleton]
  · rw [joined_cons some_more, joined_cons some_more, List.cons_append]

theorem plain_of_mem_splitOn {s : Text} (path : [] ∉ s.splitOn SLASH) (mem : c ∈ s.splitOn SLASH) :
    Plain c :=
  ⟨fun empty => path (empty ▸ mem), Db.sep_notMem_of_mem_splitOn mem⟩

theorem joined_names (file : Text) : joined (names file) = file := by
  rw [names, withoutRoot]
  split
  case isTrue root =>
    obtain ⟨r, rfl⟩ : ∃ r, file = SLASH :: r := by
      cases file with
      | nil => cases root
      | cons c r => exact ⟨r, congrArg (· :: r) root⟩
    obtain ⟨q, qs, parts⟩ := List.exists_cons_of_ne_nil (List.splitOn_ne_nil SLASH r)
    have whole := joined_splitOn r
    rw [parts] at whole
    rw [List.drop_succ_cons, List.drop_zero, parts, List.modifyHead_cons, joined_cons_cons, whole]
  case isFalse => exact joined_splitOn file

theorem names_names (path : IsPath file) : Names true (names file) := by
  obtain ⟨q, qs, parts⟩ := List.exists_cons_of_ne_nil (List.splitOn_ne_nil SLASH (withoutRoot file))
  have plain : ∀ c ∈ q :: qs, Plain c := fun c mem =>
    plain_of_mem_splitOn path (parts ▸ mem)
  obtain ⟨first, rest⟩ := List.forall_mem_cons.mp plain
  rw [names, parts]
  split
  case isTrue => exact ⟨.inr ⟨q, rfl, first⟩, rest⟩
  case isFalse => exact ⟨.inl first, rest⟩

theorem Names.first (h : Names top (n :: more)) : First n := by
  cases top with
  | true => exact h.1
  | false => exact .inl h.1

theorem First.ne_nil (h : First n) : n ≠ [] := by
  rcases h with plain | ⟨c, rfl, _⟩
  · exact plain.1
  · exact List.cons_ne_nil _ _

theorem Plain.headD_ne (plain : Plain n) : n.headD 0 ≠ SLASH := by
  cases n with
  | nil => exact absurd rfl plain.1
  | cons c n =>
    intro slash
    exact plain.2 (slash ▸ List.mem_cons_self)

theorem joined_eq_append (n : Text) (more : List Text) : ∃ tail, joined (n :: more) = n ++ tail ∧
    (more = [] ∧ tail = [] ∨ more ≠ [] ∧ tail = SLASH :: joined more) := by
  by_cases some_more : more = []
  · exact ⟨[], by rw [some_more, joined_singleton, List.append_nil], .inl ⟨some_more, rfl⟩⟩
  · exact ⟨_, joined_cons some_more, .inr ⟨some_more, rfl⟩⟩

theorem headD_joined (some_byte : n ≠ []) : (joined (n :: more)).headD 0 = n.headD 0 := by
  obtain ⟨tail, whole, _⟩ := joined_eq_append n more
  obtain ⟨c, n, rfl⟩ := List.exists_cons_of_ne_nil some_byte
  rw [whole]
  rfl

/-- A name without a slash is a directory if more names follow. -/
theorem file_firstroot_joined (separate : SLASH ∉ c) :
    file_firstroot (joined (c :: more)) = !more.isEmpty := by
  obtain ⟨tail, whole, last⟩ := joined_eq_append c more
  rw [file_firstroot, whole]
  rcases last with ⟨rfl, rfl⟩ | ⟨some_more, rfl⟩
  · rw [List.append_nil]
    simpa using separate
  · rw [List.isEmpty_eq_false_iff.mpr some_more]
    simp

theorem takeWhile_joined (more : List Text) (separate : SLASH ∉ c) :
    (joined (c :: more)).takeWhile (· != SLASH) = c ∧
      ((joined (c :: more)).dropWhile (· != SLASH)).isEmpty = more.isEmpty := by
  obtain ⟨tail, whole, last⟩ := joined_eq_append c more
  have inside : ∀ x ∈ c, (x != SLASH) = true :=
    fun x mem => bne_iff_ne.mpr fun same => separate (same ▸ mem)
  rw [whole, List.takeWhile_append_of_pos inside, List.dropWhile_append_of_pos inside]
  rcases last with ⟨rfl, rfl⟩ | ⟨some_more, rfl⟩
  · exact ⟨List.append_nil c, rfl⟩
  · rw [List.isEmpty_eq_false_iff.mpr some_more]
    simp

/-- The first directory of a path, if a slash was seen. -/
theorem FirstBaseDir_joined (first : First n) (slash : more ≠ [] ∨ n.headD 0 = SLASH) :
    FirstBaseDir (joined (n :: more)) =
      if more = [] then if n.length ≤ 256 then some [] else none
      else if n.length < 256 then some n else none := by
  rw [FirstBaseDir, headD_joined first.ne_nil]
  rcases first with plain | ⟨c, rfl, plain⟩
  · have no_root : (n.headD 0 == SLASH) = false := beq_eq_false_iff_ne.mpr plain.headD_ne
    have some_more : more ≠ [] := slash.resolve_right plain.headD_ne
    obtain ⟨name, _⟩ := takeWhile_joined more plain.2
    rw [if_neg some_more, no_root]
    simp only [Bool.false_and, Bool.false_eq_true, if_false, List.nil_append, name]
  · obtain ⟨name, last⟩ := takeWhile_joined more plain.2
    rw [joined_cons_cons]
    simp only [List.headD_cons, beq_self_eq_true, if_true, List.drop_succ_cons, List.drop_zero, name,
      last, Bool.true_and, List.isEmpty_iff, List.singleton_append]

/-- The test for directories behind a prefix. -/
theorem stillDirectory_joined (path : Text) (place : path = [] ∧ First n ∨ path ≠ [] ∧ Plain n) :
    stillDirectory (path ++ joined (n :: more)) path.length = some (!more.isEmpty) := by
  rw [stillDirectory]
  rcases place with ⟨rfl, first⟩ | ⟨some_path, plain⟩
  · rw [List.nil_append, headD_joined first.ne_nil]
    rcases first with plain | ⟨c, rfl, plain⟩
    · rw [if_neg plain.headD_ne, List.length_nil, List.drop_zero, file_firstroot_joined plain.2]
    · rw [List.headD_cons, if_pos rfl, joined_cons_cons, List.length_nil, if_neg (by simp),
        List.drop_succ_cons, List.drop_zero, file_firstroot_joined plain.2]
  · have behind : (path ++ joined (n :: more)).drop path.length = joined (n :: more) :=
      List.drop_left
    obtain ⟨x, c, rfl⟩ := List.exists_cons_of_ne_nil plain.1
    have separate : SLASH ∉ c := fun mem => plain.2 (List.mem_cons_of_mem x mem)
    split
    case isTrue =>
      have one_more : (path ++ joined ((x :: c) :: more)).drop (1 + path.length) =
          joined (c :: more) := by
        rw [Nat.add_comm, ← List.drop_drop, behind, joined_cons_cons, List.drop_succ_cons,
          List.drop_zero]
      rw [one_more, file_firstroot_joined separate, if_neg]
      rw [List.length_append, joined_cons_cons, List.length_cons]
      omega
    case isFalse => rw [behind, file_firstroot_joined plain.2]

/-- What stands in front of the first slash. -/
theorem eq_of_append_slash {c d x y : Text} (separate : SLASH ∉ c) (separate' : SLASH ∉ d)
    (same : c ++ SLASH :: x = d ++ SLASH :: y) : c = d ∧ x = y := by
  have front : ∀ {c x : Text}, SLASH ∉ c → (c ++ SLASH :: x).takeWhile (· != SLASH) = c := by
    intro c x separate
    have inside : ∀ b ∈ c, (b != SLASH) = true :=
      fun b mem => bne_iff_ne.mpr fun same => separate (same ▸ mem)
    rw [List.takeWhile_append_of_pos inside]
    simp
  have first : c = d := by rw [← front separate (x := x), same, front separate']
  rw [first] at same
  exact ⟨first, (List.cons.inj (List.append_cancel_left same)).2⟩

theorem prefix_joined_plain {c d : Text} (separate : SLASH ∉ c) (separate' : SLASH ∉ d) :
    c ++ [SLASH] <+: joined (d :: more) ↔ d = c ∧ more ≠ [] := by
  constructor
  · rintro ⟨x, same⟩
    rw [List.append_assoc, List.singleton_append] at same
    by_cases some_more : more = []
    · rw [some_more, joined_singleton] at same
      exact absurd (same ▸ List.mem_append_right c List.mem_cons_self) separate'
    · rw [joined_cons some_more] at same
      exact ⟨(eq_of_append_slash separate separate' same).1.symm, some_more⟩
  · rintro ⟨rfl, some_more⟩
    rw [joined_cons some_more]
    exact ⟨joined more, by rw [List.append_assoc]; rfl⟩

/-- Which paths start with the name of a directory. -/
theorem prefix_joined_iff {m : Text} (first : First n) (first' : First m) :
    n ++ [SLASH] <+: joined (m :: more) ↔ m = n ∧ more ≠ [] := by
  rcases first with plain | ⟨c, rfl, plain⟩
  · rcases first' with plain' | ⟨d, rfl, plain'⟩
    · exact prefix_joined_plain plain.2 plain'.2
    · obtain ⟨x, n, rfl⟩ := List.exists_cons_of_ne_nil plain.1
      have other : SLASH ≠ x := fun same => plain.2 (same ▸ List.mem_cons_self)
      rw [joined_cons_cons, List.cons_append, List.cons_prefix_cons]
      refine iff_of_false (fun both => other both.1.symm) (fun both => other (List.cons.inj both.1).1)
  · rcases first' with plain' | ⟨d, rfl, plain'⟩
    · obtain ⟨x, m, rfl⟩ := List.exists_cons_of_ne_nil plain'.1
      have other : SLASH ≠ x := fun same => plain'.2 (same ▸ List.mem_cons_self)
      rw [joined_cons_cons, List.cons_append, List.cons_prefix_cons]
      refine iff_of_false (fun both => other both.1) (fun both => other (List.cons.inj both.1).1.symm)
    · rw [joined_cons_cons, List.cons_append, List.cons_prefix_cons,
        prefix_joined_plain plain.2 plain'.2, List.cons_eq_cons, and_iff_right rfl, and_iff_right rfl]

end Paths

/-! ### The order of the paths -/

section Order

variable {p a b c : Text}

/-- Between two texts with a prefix all texts have it. -/
theorem prefix_between (first : p <+: a) (last : p <+: c) (left : a < b) (right : b < c) : p <+: b := by
  induction p generalizing a b c with
  | nil => exact List.nil_prefix
  | cons x p ih =>
    obtain ⟨a, rfl⟩ := first
    obtain ⟨c, rfl⟩ := last
    cases b with
    | nil => exact absurd left (List.not_lt_nil _)
    | cons y b =>
      rw [List.cons_append, List.cons_lt_cons_iff] at left right
      rcases left with less | ⟨rfl, left⟩
      · rcases right with less' | ⟨rfl, _⟩
        · exact absurd (UInt8.lt_trans less less') (UInt8.lt_irrefl x)
        · exact absurd less (UInt8.lt_irrefl _)
      · rcases right with less' | ⟨_, right⟩
        · exact absurd less' (UInt8.lt_irrefl _)
        · rw [List.cons_prefix_cons]
          exact ⟨rfl, ih (List.prefix_append p a) (List.prefix_append p c) left right⟩

theorem append_lt_append_iff : p ++ a < p ++ b ↔ a < b := by
  induction p with
  | nil => rfl
  | cons x p ih =>
    rw [List.cons_append, List.cons_append, List.cons_lt_cons_iff, ih]
    constructor
    · rintro (less | ⟨_, less⟩)
      · exact absurd less (UInt8.lt_irrefl x)
      · exact less
    · exact fun less => .inr ⟨rfl, less⟩

end Order

end SourceNavigator.Hyper

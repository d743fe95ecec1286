import Mathlib.Data.List.Induction
import Mathlib.Data.List.TakeWhile
import SourceNavigator.Db.LongString
import SourceNavigator.Db.Table
import SourceNavigator.Hyper.FileSystem

/-!
Absolute paths without relative names (`absolutepath` in `misc/libutils/fileutils.c`).

The path, or the working directory with the path behind it, is read name by name. A name is written
at a pointer into the output; for `..` the pointer goes back to the separator in front of the last
name. At the root the pointer is left at the start of the output, which is not cut there.

* `pathLoop_eq` says that the loop goes through the components of the path.
* `absolutepath_normal_iff` says when the result is the path of the components that remain.
-/

namespace SourceNavigator.Hyper.AbsolutePath

open Db (MAXPATHLEN sep_notMem_of_mem_splitOn)

/-! ### The source -/

/-- The string in `fullpath`, and the pointer into it. -/
structure Output where
  fullpath : Text
  fp : Int

/-- `while (fp > fullpath && ! IS_ROOT(*fp)) fp--;` -/
def scanBack (fullpath : Text) (fp : Int) : Option Int :=
  if 0 < fp then
    match byteAt fullpath fp with
    | none => none
    | some c => if c = SLASH then some fp else scanBack fullpath (fp - 1)
  else some fp
termination_by fp.toNat

/-- `*(fp-1)`, which at the start of the output is the byte in front of it. -/
def byteBefore (before : UInt8) (out : Output) : Option UInt8 :=
  if out.fp = 0 then some before else byteAt out.fullpath (out.fp - 1)

/-- `strcpy (fp, s); fp += strlen (s);` -/
def Output.append (out : Output) (s : Text) : Output :=
  ⟨out.fullpath.take out.fp.toNat ++ s, out.fp + s.length⟩

/-- The branches of the loop over the names. -/
def addName (before : UInt8) (out : Output) (name : Text) : Option Output :=
  if name = [DOT, DOT] then
    (scanBack out.fullpath out.fp).map fun fp =>
      ⟨if 0 < fp then out.fullpath.take fp.toNat else out.fullpath, fp⟩
  else if name = [DOT] then some out
  else if name ≠ [] then
    (byteBefore before out).map fun c =>
      (if c = SLASH then out else out.append [SLASH]).append name
  else some out

theorem length_rest_lt (c : UInt8) (s : Text) :
    (((c :: s).dropWhile (· != SLASH)).dropWhile (· == SLASH)).length < (c :: s).length := by
  have shorter := fun (p : UInt8 → Bool) (t : Text) => (List.dropWhile_suffix p (l := t)).length_le
  by_cases slash : c = SLASH
  · rw [List.dropWhile_cons_of_neg (by simp [slash]), List.dropWhile_cons_of_pos (by simp [slash])]
    exact Nat.lt_succ_of_le (shorter _ _)
  · rw [List.dropWhile_cons_of_pos (by simp [slash])]
    exact Nat.lt_succ_of_le ((shorter _ _).trans (shorter _ _))

/-- `for (i=0; relpath[i]; )` -/
def pathLoop (before : UInt8) : Text → Output → Option Output
  | [], out => some out
  | c :: relpath, out =>
    let name := (c :: relpath).takeWhile (· != SLASH)
    if 256 ≤ name.length then none
    else
      match addName before out name with
      | none => none
      | some out =>
        pathLoop before (((c :: relpath).dropWhile (· != SLASH)).dropWhile (· == SLASH)) out
termination_by relpath => relpath.length
decreasing_by
  exact length_rest_lt c relpath

/-- The path that is filtered. -/
def joinedPath (pwd rpath : Text) : Text :=
  if rpath.head? = some SLASH then rpath else pwd ++ SLASH :: rpath

/-- `absolutepath` with the byte in front of the output: the result, or `none` if it returns `0`.
It is undefined (`none`) if a buffer overflows or a byte outside of the output is read. -/
def absolutepath (before : UInt8) (rpath : Text) (pwd : Option Text) : Option (Option Text) :=
  match pwd with
  | none =>
    if rpath.head? = some SLASH then
      if MAXPATHLEN < rpath.length then none
      else (pathLoop before rpath ⟨[SLASH], 1⟩).map fun out => some out.fullpath
    else some none
  | some pwd =>
    if MAXPATHLEN < (joinedPath pwd rpath).length then none
    else (pathLoop before (joinedPath pwd rpath) ⟨[SLASH], 1⟩).map fun out => some out.fullpath

/-! ### The path that is meant -/

/-- A component behind the names that remain of those in front of it. -/
def normalStep (names : List Text) (c : Text) : List Text :=
  if c = [DOT, DOT] then names.dropLast
  else if c = [] ∨ c = [DOT] then names
  else names ++ [c]

/-- The components that remain. -/
def normal (cs : List Text) : List Text := cs.foldl normalStep []

/-- The absolute path of some names. -/
def pathOf (names : List Text) : Text := SLASH :: List.intercalate [SLASH] names

/-- Each name with a separator in front of it. -/
def below (names : List Text) : Text := names.flatMap (SLASH :: ·)

theorem pathOf_eq_below {names : List Text} (some_name : names ≠ []) :
    pathOf names = below names := by
  induction names with
  | nil => exact absurd rfl some_name
  | cons n names ih =>
    cases names with
    | nil => simp [pathOf, below]
    | cons n' names =>
      have rest := ih (List.cons_ne_nil _ _)
      rw [pathOf] at rest
      rw [pathOf, List.intercalate_cons_cons, below, List.flatMap_cons, ← below, ← rest]
      simp

theorem below_concat (names : List Text) (n : Text) :
    below (names ++ [n]) = below names ++ SLASH :: n := by
  simp [below]

theorem pathOf_concat (names : List Text) (n : Text) :
    pathOf (names ++ [n]) = below names ++ SLASH :: n := by
  rw [pathOf_eq_below (by simp), below_concat]

theorem normal_concat (cs : List Text) (c : Text) : normal (cs ++ [c]) = normalStep (normal cs) c := by
  rw [normal, List.foldl_append]
  rfl

theorem normalStep_name {names : List Text} {c : Text} (name : IsName c) :
    normalStep names c = names ++ [c] := by
  obtain ⟨nonempty, not_dot, not_dots, _⟩ := name
  rw [normalStep, if_neg not_dots, if_neg (by simp [nonempty, not_dot])]

/-- A component is a name, or is left out, or goes up. -/
theorem component_cases {c : Text} (component : SLASH ∉ c) :
    IsName c ∨ (c = [] ∨ c = [DOT]) ∨ c = [DOT, DOT] := by
  by_cases up : c = [DOT, DOT]
  · exact .inr (.inr up)
  · by_cases out : c = [] ∨ c = [DOT]
    · exact .inr (.inl out)
    · rw [not_or] at out
      exact .inl ⟨out.1, out.2, up, component⟩

/-! ### The scan for the separator -/

section Scan

variable {m buf : Text}

/-- Behind a separator the scan goes back to it. -/
theorem scanBack_separator (a : Text) (name : SLASH ∉ m) {k : Nat} (le : k ≤ m.length + 1) :
    scanBack (a ++ SLASH :: m) ((a.length + k : Nat) : Int) = some (a.length : Int) := by
  induction k with
  | zero =>
    rw [scanBack]
    split
    case isTrue =>
      rw [Nat.add_zero, byteAt_of_lt (by simp)]
      simp
    case isFalse => rfl
  | succ k ih =>
    have byte : ∃ c, byteAt (a ++ SLASH :: m) ((a.length + (k + 1) : Nat) : Int) = some c ∧
        c ≠ SLASH := by
      have size : (a ++ SLASH :: m).length = a.length + (m.length + 1) := by simp
      rcases Nat.lt_or_ge k m.length with inside | beyond
      · refine ⟨m[k], ?_, fun same => name (same ▸ List.getElem_mem inside)⟩
        rw [byteAt_of_lt (by omega), List.getElem?_append_right (by omega), Nat.add_sub_cancel_left,
          List.getElem?_cons_succ, List.getElem?_eq_getElem inside]
      · have last : a.length + (k + 1) = (a ++ SLASH :: m).length := by omega
        exact ⟨0, by rw [last, byteAt_length], by decide⟩
    obtain ⟨c, found, other⟩ := byte
    have back : ((a.length + (k + 1) : Nat) : Int) - 1 = ((a.length + k : Nat) : Int) := by omega
    rw [scanBack, if_pos (by omega), found]
    simp only
    rw [if_neg other, back]
    exact ih (by omega)

/-- The scan stays between the start of the output and the pointer. -/
theorem scanBack_le {k : Nat} (le : k ≤ buf.length) :
    ∃ j ≤ k, scanBack buf (k : Int) = some (j : Int) := by
  induction k with
  | zero =>
    refine ⟨0, Nat.le_refl 0, ?_⟩
    rw [scanBack]
    rfl
  | succ k ih =>
    obtain ⟨c, found⟩ := byteAt_of_le le
    rw [scanBack, if_pos (by omega), found]
    by_cases separator : c = SLASH
    · exact ⟨k + 1, Nat.le_refl _, if_pos separator⟩
    · obtain ⟨j, before, stopped⟩ := ih (Nat.le_of_succ_le le)
      have back : ((k + 1 : Nat) : Int) - 1 = (k : Int) := by omega
      refine ⟨j, Nat.le_succ_of_le before, ?_⟩
      simp only
      rw [if_neg separator, back]
      exact stopped

end Scan

/-! ### The loop as a loop over the components -/

section Loop

variable {before : UInt8} {out : Output} {relpath : Text}

theorem addName_nil : addName before out [] = some out := rfl

theorem splitOn_slash (s : Text) : (SLASH :: s).splitOn SLASH = [] :: s.splitOn SLASH := by
  rw [List.splitOn_cons_eq_if_modifyHead, if_pos (beq_self_eq_true SLASH)]

/-- Separators in front of a path are without effect. -/
theorem foldlM_dropSlashes (s : Text) (out : Output) :
    ((s.dropWhile (· == SLASH)).splitOn SLASH).foldlM (addName before) out =
      (s.splitOn SLASH).foldlM (addName before) out := by
  induction s with
  | nil => rfl
  | cons c s ih =>
    by_cases slash : c = SLASH
    · rw [List.dropWhile_cons_of_pos (by simp [slash]), ih, slash, splitOn_slash, List.foldlM_cons,
        addName_nil]
      rfl
    · rw [List.dropWhile_cons_of_neg (by simp [slash])]

theorem mem_splitOn_dropSlashes {s c : Text} (mem : c ∈ (s.dropWhile (· == SLASH)).splitOn SLASH) :
    c ∈ s.splitOn SLASH := by
  induction s with
  | nil => exact mem
  | cons d s ih =>
    by_cases slash : d = SLASH
    · rw [List.dropWhile_cons_of_pos (by simp [slash])] at mem
      rw [slash, splitOn_slash]
      exact List.mem_cons_of_mem _ (ih mem)
    · rwa [List.dropWhile_cons_of_neg (by simp [slash])] at mem

/-- A path is one component, or a component and a path behind a separator. -/
theorem slash_cases (s : Text) :
    SLASH ∉ s ∨ ∃ w t, SLASH ∉ w ∧ s = w ++ SLASH :: t := by
  by_cases slash : SLASH ∈ s
  · obtain ⟨w, t, rfl, first⟩ := List.eq_append_cons_of_mem slash
    exact .inr ⟨w, t, first, rfl⟩
  · exact .inl slash

theorem pathLoop_of_ne_nil (nonempty : relpath ≠ []) (out : Output) :
    pathLoop before relpath out =
      if 256 ≤ (relpath.takeWhile (· != SLASH)).length then none
      else (addName before out (relpath.takeWhile (· != SLASH))).bind
        (pathLoop before ((relpath.dropWhile (· != SLASH)).dropWhile (· == SLASH))) := by
  cases relpath with
  | nil => exact absurd rfl nonempty
  | cons c relpath =>
    rw [pathLoop]
    split
    · rfl
    · cases addName before out ((c :: relpath).takeWhile (· != SLASH)) <;> rfl

/-- The loop adds the components of the path one by one. -/
theorem pathLoop_eq (fit : ∀ c ∈ relpath.splitOn SLASH, c.length < 256) (out : Output) :
    pathLoop before relpath out = (relpath.splitOn SLASH).foldlM (addName before) out := by
  induction size : relpath.length using Nat.strong_induction_on generalizing relpath out with
  | _ n ih =>
    by_cases empty : relpath = []
    · rw [empty, pathLoop]
      rfl
    rw [pathLoop_of_ne_nil empty]
    have other : ∀ {w : Text}, SLASH ∉ w → ∀ c ∈ w, (c != SLASH) = true := by
      intro w absent c mem
      rw [bne_iff_ne]
      rintro rfl
      exact absent mem
    rcases slash_cases relpath with single | ⟨w, t, first, rfl⟩
    · have name : relpath.takeWhile (· != SLASH) = relpath :=
        List.takeWhile_eq_self_iff.mpr (other single)
      have rest : relpath.dropWhile (· != SLASH) = [] :=
        List.dropWhile_eq_nil_iff.mpr (other single)
      have short := fit relpath (by rw [List.splitOn_eq_singleton single]; exact List.mem_singleton_self _)
      rw [name, rest, if_neg (Nat.not_le.mpr short), List.splitOn_eq_singleton single,
        List.foldlM_cons]
      refine congrArg (Option.bind _) (funext fun out => ?_)
      rw [List.dropWhile_nil, pathLoop]
      rfl
    · have name : (w ++ SLASH :: t).takeWhile (· != SLASH) = w := by
        rw [List.takeWhile_append_of_pos (other first), List.takeWhile_cons_of_neg (by simp),
          List.append_nil]
      have rest : ((w ++ SLASH :: t).dropWhile (· != SLASH)).dropWhile (· == SLASH) =
          t.dropWhile (· == SLASH) := by
        rw [List.dropWhile_append_of_pos (other first), List.dropWhile_cons_of_neg (by simp),
          List.dropWhile_cons_of_pos (by simp)]
      have pieces : (w ++ SLASH :: t).splitOn SLASH = w :: t.splitOn SLASH := by
        rw [List.splitOn_append_cons_self, List.splitOn_eq_singleton first]
        rfl
      rw [pieces] at fit
      have short := fit w List.mem_cons_self
      have shorter : (t.dropWhile (· == SLASH)).length < n := by
        have le := (List.dropWhile_suffix (· == SLASH) (l := t)).length_le
        rw [List.length_append, List.length_cons] at size
        omega
      rw [name, rest, if_neg (Nat.not_le.mpr short), pieces, List.foldlM_cons]
      refine congrArg (Option.bind _) (funext fun out => ?_)
      rw [ih _ shorter
        (fun c mem => fit c (List.mem_cons_of_mem _ (mem_splitOn_dropSlashes mem))) out rfl,
        foldlM_dropSlashes]

end Loop

/-! ### The output behind some components -/

/-- The byte in front of the output is no separator, or no name comes where all names in front of it
were deleted. -/
def Regular (before : UInt8) (cs : List Text) : Prop :=
  before ≠ SLASH ∨
    ∀ xs name ys, cs = xs ++ name :: ys → IsName name → normal xs = [] → [DOT, DOT] ∉ xs

/-- A name stands in the place of the root. -/
structure Rootless (out : Output) : Prop where
  first : ∃ c s, out.fullpath = c :: s ∧ c ≠ SLASH
  inside : ∃ k ≤ out.fullpath.length, out.fp = (k : Int)

/-- The output behind some components: the path that is meant with the pointer at its end; or the
pointer at the start, behind which the output was not cut; or a name in the place of the root. -/
inductive Reached (before : UInt8) (cs : List Text) (out : Output) : Prop
  | whole (regular : Regular before cs)
      (path : out = ⟨pathOf (normal cs), (pathOf (normal cs)).length⟩)
      (fresh : normal cs = [] → [DOT, DOT] ∉ cs ∧ ∀ c ∈ cs, ¬ IsName c)
  | root (regular : Regular before cs) (up : [DOT, DOT] ∈ cs) (none_left : normal cs = [])
      (start : out.fp = 0) (named : out.fullpath = [SLASH] ↔ ∀ c ∈ cs, ¬ IsName c)
  | lost (separator : before = SLASH) (irregular : ¬ Regular before cs)
      (rootless : Rootless out)

section Reached

variable {before : UInt8} {cs : List Text} {c : Text} {out : Output}

theorem isName_of_mem_normal (components : ∀ c ∈ cs, SLASH ∉ c) {n : Text} (mem : n ∈ normal cs) :
    n ∈ cs ∧ IsName n := by
  induction cs using List.reverseRecOn with
  | nil => cases mem
  | append_singleton cs c ih =>
    have before := fun mem =>
      ih (fun d mem => components d (List.mem_append_left _ mem)) mem
    rw [normal_concat, normalStep] at mem
    split at mem
    case isTrue =>
      obtain ⟨there, name⟩ := before (List.dropLast_subset _ mem)
      exact ⟨List.mem_append_left _ there, name⟩
    case isFalse up =>
      split at mem
      case isTrue =>
        obtain ⟨there, name⟩ := before mem
        exact ⟨List.mem_append_left _ there, name⟩
      case isFalse out =>
        rcases List.mem_append.mp mem with mem | mem
        · obtain ⟨there, name⟩ := before mem
          exact ⟨List.mem_append_left _ there, name⟩
        · rw [List.mem_singleton] at mem
          rw [not_or] at out
          subst mem
          have here := List.mem_append_right cs (List.mem_singleton_self n)
          exact ⟨here, out.1, out.2, up, components n here⟩

theorem regular_concat :
    Regular before (cs ++ [c]) ↔
      Regular before cs ∧
        (before ≠ SLASH ∨ (IsName c → normal cs = [] → [DOT, DOT] ∉ cs)) := by
  by_cases separator : before ≠ SLASH
  · exact ⟨fun _ => ⟨.inl separator, .inl separator⟩, fun _ => .inl separator⟩
  · constructor
    · intro regular
      have splits := regular.resolve_left separator
      refine ⟨.inr fun xs name ys same => splits xs name (ys ++ [c]) ?_, .inr (splits cs c [] rfl)⟩
      rw [same, List.append_assoc, List.cons_append]
    · rintro ⟨regular, last⟩
      have splits := regular.resolve_left separator
      refine .inr fun xs name ys same => ?_
      rcases List.eq_nil_or_concat ys with rfl | ⟨ys', d, rfl⟩
      · obtain ⟨rfl, last_name⟩ := List.append_inj' same rfl
        obtain rfl := (List.cons.inj last_name).1
        exact last.resolve_left separator
      · rw [List.concat_eq_append, ← List.cons_append, ← List.append_assoc] at same
        exact splits xs name ys' (List.append_inj' same rfl).1

theorem not_isName_up : ¬ IsName [DOT, DOT] := fun name => name.2.2.1 rfl

theorem nameless_concat (cs : List Text) (other : ¬ IsName c) :
    (∀ d ∈ cs ++ [c], ¬ IsName d) ↔ ∀ d ∈ cs, ¬ IsName d := by
  constructor
  · exact fun nameless d mem => nameless d (List.mem_append_left _ mem)
  · intro nameless d mem
    rcases List.mem_append.mp mem with mem | mem
    · exact nameless d mem
    · rwa [List.mem_singleton.mp mem]

/-- What is not a name leaves the path regular. -/
theorem regular_of_not_isName (regular : Regular before cs) (other : ¬ IsName c) :
    Regular before (cs ++ [c]) :=
  regular_concat.mpr ⟨regular, .inr fun name => absurd name other⟩

theorem not_regular_concat (irregular : ¬ Regular before cs) : ¬ Regular before (cs ++ [c]) :=
  fun regular => irregular (regular_concat.mp regular).1

theorem addName_skip (skip : c = [] ∨ c = [DOT]) : addName before out c = some out := by
  rcases skip with rfl | rfl <;> rfl

theorem normalStep_skip {names : List Text} (skip : c = [] ∨ c = [DOT]) :
    normalStep names c = names := by
  rcases skip with rfl | rfl <;> rfl

theorem not_isName_skip (skip : c = [] ∨ c = [DOT]) : ¬ IsName c := by
  rcases skip with rfl | rfl
  · exact fun name => name.1 rfl
  · exact fun name => name.2.1 rfl

theorem addName_name (name : IsName c) :
    addName before out c = (byteBefore before out).map fun b =>
      (if b = SLASH then out else out.append [SLASH]).append c := by
  obtain ⟨nonempty, not_dot, not_dots, _⟩ := name
  rw [addName, if_neg not_dots, if_neg not_dot, if_pos nonempty]

/-- A component that is left out changes nothing. -/
theorem Reached.skip (skip : c = [] ∨ c = [DOT]) (reached : Reached before cs out) :
    Reached before (cs ++ [c]) out := by
  have other := not_isName_skip skip
  have same : normal (cs ++ [c]) = normal cs := by rw [normal_concat, normalStep_skip skip]
  have names := nameless_concat cs other
  have ups : [DOT, DOT] ∈ cs ++ [c] ↔ [DOT, DOT] ∈ cs := by
    rcases skip with rfl | rfl <;> simp
  cases reached with
  | whole regular path fresh =>
    refine .whole (regular_of_not_isName regular other) ?_ ?_
    · rw [same]
      exact path
    · rw [same, ups, names]
      exact fresh
  | root regular up none_left start named =>
    refine .root (regular_of_not_isName regular other) (ups.mpr up) ?_ start ?_
    · rw [same]
      exact none_left
    · rw [names]
      exact named
  | lost separator irregular rootless =>
    exact .lost separator (not_regular_concat irregular) rootless

theorem byteBefore_of_pos {k : Nat} {buf : Text} :
    byteBefore before ⟨buf, ((k + 1 : Nat) : Int)⟩ = byteAt buf (k : Int) := by
  have back : ((k + 1 : Nat) : Int) - 1 = (k : Int) := by omega
  have later : ((k + 1 : Nat) : Int) ≠ 0 := by omega
  rw [byteBefore, if_neg later, back]

/-- At the end of the output the byte is the last one. -/
theorem byteBefore_concat (before : UInt8) (buf : Text) (d : UInt8) :
    byteBefore before ⟨buf ++ [d], ((buf ++ [d]).length : Int)⟩ = some d := by
  rw [List.length_append, List.length_singleton, byteBefore_of_pos, byteAt_of_lt (by simp),
    List.getElem?_append_right (Nat.le_refl _), Nat.sub_self]
  rfl

theorem append_at_end (buf s : Text) :
    Output.append ⟨buf, (buf.length : Int)⟩ s = ⟨buf ++ s, ((buf ++ s).length : Int)⟩ := by
  simp [Output.append]

theorem rootless_name {buf : Text} (name : IsName c) : Rootless (Output.append ⟨buf, 0⟩ c) where
  first := by
    obtain ⟨nonempty, _, _, no_slash⟩ := name
    obtain ⟨d, t, rfl⟩ := List.exists_cons_of_ne_nil nonempty
    exact ⟨d, t, rfl, fun same => no_slash (same ▸ List.mem_cons_self)⟩
  inside := ⟨c.length, Nat.le_refl _, Int.zero_add _⟩

theorem rootless_append (rootless : Rootless out) (later : 0 < out.fp) (s : Text) :
    Rootless (out.append s) := by
  obtain ⟨buf, fp⟩ := out
  obtain ⟨⟨d, t, whole, other⟩, k, le, same⟩ := rootless
  dsimp only at whole le same later
  obtain ⟨j, rfl⟩ : ∃ j, k = j + 1 := ⟨k - 1, by omega⟩
  subst same whole
  refine ⟨⟨d, t.take j ++ s, rfl, other⟩, j + 1 + s.length, ?_, rfl⟩
  rw [List.length_cons] at le
  simp [Output.append]
  omega

/-- A name behind the output: it is written at the root, or behind a separator. -/
theorem Reached.name (components : ∀ d ∈ cs, SLASH ∉ d) (name : IsName c)
    (reached : Reached before cs out) :
    ∃ out', addName before out c = some out' ∧ Reached before (cs ++ [c]) out' := by
  have longer : normal (cs ++ [c]) = normal cs ++ [c] := by rw [normal_concat, normalStep_name name]
  have some_name : normal (cs ++ [c]) ≠ [] := by
    rw [longer]
    exact List.concat_ne_nil _ _
  rw [addName_name name]
  cases reached with
  | whole regular path fresh =>
    have still : Regular before (cs ++ [c]) :=
      regular_concat.mpr ⟨regular, .inr fun _ none_left => (fresh none_left).1⟩
    have done : ∀ out', out' = ⟨pathOf (normal (cs ++ [c])), (pathOf (normal (cs ++ [c]))).length⟩ →
        Reached before (cs ++ [c]) out' :=
      fun out' same => .whole still same fun none_left => absurd none_left some_name
    subst path
    rcases List.eq_nil_or_concat (normal cs) with none_left | ⟨init, m, names⟩
    · have at_root : pathOf (normal cs) = [SLASH] := by
        rw [none_left]
        rfl
      refine ⟨_, ?_, done _ rfl⟩
      have last := byteBefore_concat before [] SLASH
      rw [List.nil_append] at last
      have path : pathOf (normal (cs ++ [c])) = [SLASH] ++ c := by
        rw [longer, none_left, pathOf, List.nil_append, List.intercalate_singleton]
        rfl
      rw [at_root, path, last, Option.map_some, if_pos rfl, append_at_end]
    · rw [List.concat_eq_append] at names
      have m_mem : m ∈ normal cs := by
        rw [names]
        exact List.mem_append_right _ (List.mem_singleton_self m)
      have m_name := (isName_of_mem_normal components m_mem).2
      obtain ⟨mi, d, m_eq⟩ := (List.eq_nil_or_concat m).resolve_left m_name.1
      rw [List.concat_eq_append] at m_eq
      have other : d ≠ SLASH := by
        rintro rfl
        exact m_name.2.2.2 (m_eq ▸ List.mem_append_right mi (List.mem_singleton_self SLASH))
      have old : pathOf (normal cs) = below init ++ SLASH :: mi ++ [d] := by
        rw [names, pathOf_concat, m_eq]
        simp
      have path : pathOf (normal (cs ++ [c])) = pathOf (normal cs) ++ [SLASH] ++ c := by
        rw [longer, pathOf_concat, pathOf_eq_below (List.ne_nil_of_mem m_mem)]
        simp
      have last := byteBefore_concat before (below init ++ SLASH :: mi) d
      rw [← old] at last
      refine ⟨_, ?_, done _ rfl⟩
      rw [last, Option.map_some, if_neg other, append_at_end, append_at_end, path]
  | root regular up none_left start named =>
    obtain ⟨buf, fp⟩ := out
    obtain rfl : fp = 0 := start
    have first : byteBefore before ⟨buf, 0⟩ = some before := rfl
    rw [first, Option.map_some]
    refine ⟨_, rfl, ?_⟩
    by_cases separator : before = SLASH
    · rw [if_pos separator]
      refine .lost separator ?_ (rootless_name name)
      intro still
      exact ((regular_concat.mp still).2.resolve_left (not_not_intro separator)) name none_left up
    · rw [if_neg separator]
      have path : pathOf (normal (cs ++ [c])) = [SLASH] ++ c := by
        rw [longer, none_left, pathOf, List.nil_append, List.intercalate_singleton]
        rfl
      refine .whole (regular_concat.mpr ⟨regular, .inl separator⟩) ?_
        fun none_left => absurd none_left some_name
      rw [path]
      exact append_at_end [SLASH] c
  | lost separator irregular rootless =>
    obtain ⟨buf, fp⟩ := out
    obtain ⟨k, le, rfl⟩ := rootless.inside
    cases k with
    | zero =>
      have first : byteBefore before ⟨buf, 0⟩ = some before := rfl
      refine ⟨_, congrArg (Option.map _) first, ?_⟩
      simp only [if_pos separator]
      exact .lost separator (not_regular_concat irregular) (rootless_name name)
    | succ k =>
      obtain ⟨b, found⟩ := byteAt_of_le (Nat.le_of_succ_le le)
      rw [byteBefore_of_pos, found, Option.map_some]
      have later : (0 : Int) < ((k + 1 : Nat) : Int) := by omega
      refine ⟨_, rfl, .lost separator (not_regular_concat irregular) ?_⟩
      split
      · exact rootless_append rootless later c
      · refine rootless_append (rootless_append rootless later [SLASH]) ?_ c
        have pos : (0 : Int) < ((k + 1 : Nat) : Int) + (([SLASH] : Text).length : Int) := by
          omega
        exact pos

theorem addName_up :
    addName before out [DOT, DOT] = (scanBack out.fullpath out.fp).map fun fp =>
      ⟨if 0 < fp then out.fullpath.take fp.toNat else out.fullpath, fp⟩ := by
  rw [addName, if_pos rfl]

/-- `..` goes back to the separator in front of the last name. -/
theorem Reached.up (components : ∀ d ∈ cs, SLASH ∉ d) (reached : Reached before cs out) :
    ∃ out', addName before out [DOT, DOT] = some out' ∧
      Reached before (cs ++ [[DOT, DOT]]) out' := by
  have shorter : normal (cs ++ [[DOT, DOT]]) = (normal cs).dropLast := by
    rw [normal_concat, normalStep, if_pos rfl]
  have ups : [DOT, DOT] ∈ cs ++ [[DOT, DOT]] := List.mem_append_right _ (List.mem_singleton_self _)
  rw [addName_up]
  cases reached with
  | whole regular path fresh =>
    have still := regular_of_not_isName regular not_isName_up
    subst path
    rcases List.eq_nil_or_concat (normal cs) with none_left | ⟨init, m, names⟩
    · have at_root : pathOf (normal cs) = [SLASH] := by
        rw [none_left]
        rfl
      have scan := scanBack_separator [] (m := []) List.not_mem_nil (Nat.le_refl 1)
      rw [at_root]
      refine ⟨_, congrArg (Option.map _) scan, ?_⟩
      refine .root still ups ?_ rfl ?_
      · rw [shorter, none_left]
        rfl
      · rw [nameless_concat cs not_isName_up]
        exact iff_of_true rfl (fresh none_left).2
    · rw [List.concat_eq_append] at names
      have m_last : m ∈ normal cs := by
        rw [names]
        exact List.mem_append_right _ (List.mem_singleton_self m)
      obtain ⟨m_mem, m_name⟩ := isName_of_mem_normal components m_last
      have old : pathOf (normal cs) = below init ++ SLASH :: m := by rw [names, pathOf_concat]
      have left : normal (cs ++ [[DOT, DOT]]) = init := by
        rw [shorter, names, List.dropLast_concat]
      have scan := scanBack_separator (below init) m_name.2.2.2 (Nat.le_refl (m.length + 1))
      have size : (below init ++ SLASH :: m).length = (below init).length + (m.length + 1) := by simp
      rw [old, size]
      refine ⟨_, congrArg (Option.map _) scan, ?_⟩
      by_cases empty : init = []
      · refine .root still ups (left.trans empty) ?_ ?_
        · rw [empty]
          rfl
        · have kept : ¬ ∀ d ∈ cs, ¬ IsName d := fun nameless => nameless m m_mem m_name
          rw [nameless_concat cs not_isName_up, empty]
          refine iff_of_false ?_ kept
          intro cut
          exact m_name.1 (List.cons.inj cut).2
      · have path := pathOf_eq_below empty
        have long : (0 : Int) < ((below init).length : Int) := by
          rw [← path]
          exact Int.natCast_pos.mpr (Nat.succ_pos _)
        refine .whole still ?_ fun none_left => absurd (left.symm.trans none_left) empty
        rw [left, path]
        dsimp only
        rw [if_pos long, Int.toNat_natCast, List.take_left]
  | root regular up none_left start named =>
    obtain ⟨buf, fp⟩ := out
    obtain rfl : fp = 0 := start
    have scan : scanBack buf 0 = some 0 := by
      rw [scanBack]
      rfl
    refine ⟨_, congrArg (Option.map _) scan, ?_⟩
    refine .root (regular_of_not_isName regular not_isName_up) ups ?_ rfl ?_
    · rw [shorter, none_left]
      rfl
    · rw [nameless_concat cs not_isName_up]
      exact named
  | lost separator irregular rootless =>
    obtain ⟨buf, fp⟩ := out
    obtain ⟨⟨d, t, whole, other⟩, k, le, same⟩ := rootless
    dsimp only at whole le same
    subst same
    obtain ⟨j, before_k, scan⟩ := scanBack_le le
    refine ⟨_, congrArg (Option.map _) scan, .lost separator (not_regular_concat irregular) ?_⟩
    cases j with
    | zero => exact ⟨⟨d, t, whole, other⟩, 0, Nat.zero_le _, rfl⟩
    | succ j =>
      have later : (0 : Int) < ((j + 1 : Nat) : Int) := by omega
      simp only [if_pos later, Int.toNat_natCast]
      refine ⟨⟨d, t.take j, ?_, other⟩, j + 1, ?_, rfl⟩
      · rw [whole, List.take_succ_cons]
      · rw [List.length_take]
        omega

/-- Every component leaves the output as described. -/
theorem Reached.step (components : ∀ d ∈ cs, SLASH ∉ d) (component : SLASH ∉ c)
    (reached : Reached before cs out) :
    ∃ out', addName before out c = some out' ∧ Reached before (cs ++ [c]) out' := by
  rcases component_cases component with name | skip | rfl
  · exact reached.name components name
  · exact ⟨out, addName_skip skip, reached.skip skip⟩
  · exact reached.up components

theorem reached_nil (before : UInt8) : Reached before [] ⟨[SLASH], 1⟩ := by
  refine .whole (.inr ?_) rfl fun _ => ⟨List.not_mem_nil, fun c mem => absurd mem List.not_mem_nil⟩
  intro xs name ys same
  cases xs <;> cases same

/-- The loop over the components. -/
theorem exists_reached (before : UInt8) (cs : List Text) (components : ∀ d ∈ cs, SLASH ∉ d) :
    ∃ out, cs.foldlM (addName before) ⟨[SLASH], 1⟩ = some out ∧ Reached before cs out := by
  induction cs using List.reverseRecOn with
  | nil => exact ⟨_, rfl, reached_nil before⟩
  | append_singleton cs c ih =>
    have front := fun d mem => components d (List.mem_append_left _ mem)
    obtain ⟨out, run, reached⟩ := ih front
    obtain ⟨out', step, next⟩ := reached.step front
      (components c (List.mem_append_right _ (List.mem_singleton_self c)))
    refine ⟨out', ?_, next⟩
    rw [List.foldlM_append, run]
    exact congrArg (fun o => Option.bind o pure) step

/-- The output is the path that is meant if the path is regular, and names remain or there were
none. -/
theorem Reached.fullpath_iff (reached : Reached before cs out) :
    out.fullpath = pathOf (normal cs) ↔
      (normal cs ≠ [] ∨ ∀ c ∈ cs, ¬ IsName c) ∧ Regular before cs := by
  cases reached with
  | whole regular path fresh =>
    subst path
    refine iff_of_true rfl ⟨?_, regular⟩
    by_cases none_left : normal cs = []
    · exact .inr (fresh none_left).2
    · exact .inl none_left
  | root regular up none_left start named =>
    rw [none_left, ne_eq, eq_self, not_true, false_or, and_iff_left regular]
    exact named
  | lost separator irregular rootless =>
    refine iff_of_false ?_ fun both => irregular both.2
    obtain ⟨d, t, whole, other⟩ := rootless.first
    rw [whole]
    intro same
    exact other (List.cons.inj same).1

end Reached

/-! ### The function -/

section Result

variable {before : UInt8} {cs names : List Text} {rpath : Text}

/-- A path that fits is read to its end. -/
theorem exists_pathLoop (before : UInt8) (fit : ∀ c ∈ rpath.splitOn SLASH, c.length < 256) :
    ∃ out, pathLoop before rpath ⟨[SLASH], 1⟩ = some out ∧
      Reached before (rpath.splitOn SLASH) out := by
  obtain ⟨out, run, reached⟩ := exists_reached before (rpath.splitOn SLASH)
    fun _ mem => sep_notMem_of_mem_splitOn mem
  exact ⟨out, (pathLoop_eq fit _).trans run, reached⟩

/-- A path from the root does not depend on the working directory. -/
theorem absolutepath_rooted (rooted : rpath.head? = some SLASH) (size : rpath.length ≤ MAXPATHLEN)
    (pwd : Option Text) :
    absolutepath before rpath pwd =
      (pathLoop before rpath ⟨[SLASH], 1⟩).map fun out => some out.fullpath := by
  cases pwd with
  | none => rw [absolutepath, if_pos rooted, if_neg (Nat.not_lt.mpr size)]
  | some pwd =>
    have whole : joinedPath pwd rpath = rpath := if_pos rooted
    rw [absolutepath, whole, if_neg (Nat.not_lt.mpr size)]

/-- The components of the path of some names. -/
theorem splitOn_pathOf (valid : ∀ n ∈ names, IsName n) :
    (pathOf names).splitOn SLASH = if names = [] then [[], []] else [] :: names := by
  rw [pathOf, splitOn_slash]
  split
  case isTrue empty =>
    rw [empty]
    rfl
  case isFalse some_name =>
    rw [List.splitOn_intercalate SLASH (fun n mem => (valid n mem).2.2.2) some_name]

theorem normal_names (valid : ∀ n ∈ names, IsName n) : normal names = names := by
  induction names using List.reverseRecOn with
  | nil => rfl
  | append_singleton names n ih =>
    rw [normal_concat, ih fun m mem => valid m (List.mem_append_left _ mem),
      normalStep_name (valid n (List.mem_append_right _ (List.mem_singleton_self n)))]

/-- The path of some names is its own absolute path, whatever the working directory is. -/
theorem absolutepath_pathOf (valid : ∀ n ∈ names, IsName n) (fit : ∀ n ∈ names, n.length < 256)
    (size : (pathOf names).length ≤ MAXPATHLEN) (before : UInt8) (pwd : Option Text) :
    absolutepath before (pathOf names) pwd = some (some (pathOf names)) := by
  have parts := splitOn_pathOf valid
  have same : normal ((pathOf names).splitOn SLASH) = names := by
    rw [parts]
    split
    case isTrue empty =>
      rw [empty]
      rfl
    case isFalse => exact normal_names valid
  have short : ∀ c ∈ (pathOf names).splitOn SLASH, c.length < 256 := by
    rw [parts]
    intro c mem
    split at mem
    case isTrue =>
      rcases List.mem_cons.mp mem with rfl | mem
      · decide
      · rw [List.mem_singleton.mp mem]
        decide
    case isFalse =>
      rcases List.mem_cons.mp mem with rfl | mem
      · decide
      · exact fit c mem
  have no_up : [DOT, DOT] ∉ (pathOf names).splitOn SLASH := by
    rw [parts]
    intro mem
    split at mem
    case isTrue => exact absurd mem (by decide)
    case isFalse =>
      rcases List.mem_cons.mp mem with same | mem
      · cases same
      · exact not_isName_up (valid _ mem)
  obtain ⟨out, run, reached⟩ := exists_pathLoop before short
  rw [absolutepath_rooted rfl size, run, Option.map_some]
  refine congrArg (fun p => some (some p)) ?_
  have whole := reached.fullpath_iff
  rw [same] at whole
  refine whole.mpr ⟨?_, .inr fun xs name ys split _ _ mem => no_up ?_⟩
  · by_cases empty : names = []
    · right
      rw [parts, if_pos empty]
      simp [IsName]
    · exact .inl empty
  · rw [split]
    exact List.mem_append_left _ mem

/-- What remains of the components makes no longer path. -/
theorem length_below_normal (cs : List Text) : (below (normal cs)).length ≤ (below cs).length := by
  induction cs using List.reverseRecOn with
  | nil => exact Nat.le_refl _
  | append_singleton cs c ih =>
    have longer : (below cs).length ≤ (below (cs ++ [c])).length := by
      rw [below_concat, List.length_append]
      exact Nat.le_add_right _ _
    rw [normal_concat, normalStep]
    split
    case isTrue =>
      refine le_trans ?_ (ih.trans longer)
      rcases List.eq_nil_or_concat (normal cs) with none_left | ⟨init, m, names⟩
      · rw [none_left]
        exact Nat.le_refl _
      · rw [names, List.concat_eq_append, List.dropLast_concat, below_concat, List.length_append]
        exact Nat.le_add_right _ _
    case isFalse =>
      split
      case isTrue => exact ih.trans longer
      case isFalse =>
        rw [below_concat, below_concat, List.length_append, List.length_append]
        exact Nat.add_le_add_right ih _

/-- The path of what remains is not longer than the path. -/
theorem length_pathOf_normal (rooted : rpath.head? = some SLASH) :
    (pathOf (normal (rpath.splitOn SLASH))).length ≤ rpath.length := by
  obtain ⟨t, rfl⟩ : ∃ t, rpath = SLASH :: t := by
    cases rpath with
    | nil => cases rooted
    | cons c t => exact ⟨t, by rw [Option.some.inj rooted]⟩
  have whole : (below (t.splitOn SLASH)).length = (SLASH :: t).length := by
    rw [← pathOf_eq_below (List.splitOn_ne_nil SLASH t), pathOf, List.intercalate_splitOn]
  rw [splitOn_slash, ← whole]
  have rest : normal ([] :: t.splitOn SLASH) = normal (t.splitOn SLASH) := rfl
  rw [rest]
  by_cases none_left : normal (t.splitOn SLASH) = []
  · rw [none_left, whole]
    exact Nat.succ_le_succ (Nat.zero_le _)
  · rw [pathOf_eq_below none_left]
    exact length_below_normal _

theorem joinedPath_rooted {pwd : Text} (absolute : pwd.head? = some SLASH) :
    (joinedPath pwd rpath).head? = some SLASH := by
  rw [joinedPath]
  split
  case isTrue rooted => exact rooted
  case isFalse => rw [List.head?_append, absolute, Option.some_or]

theorem absolutepath_joined (before : UInt8) (pwd rpath : Text)
    (size : (joinedPath pwd rpath).length ≤ MAXPATHLEN) :
    absolutepath before rpath (some pwd) =
      (pathLoop before (joinedPath pwd rpath) ⟨[SLASH], 1⟩).map fun out => some out.fullpath := by
  rw [absolutepath, if_neg (Nat.not_lt.mpr size)]

/-- The scan does not move in front of the output. -/
theorem scanBack_nonneg {buf : Text} {fp j : Int} (start : 0 ≤ fp) (h : scanBack buf fp = some j) :
    0 ≤ j := by
  fun_induction scanBack buf fp with
  | case1 => cases h
  | case2 => rwa [← Option.some.inj h]
  | case3 fp later c found other ih => exact ih (by omega) h
  | case4 => rwa [← Option.some.inj h]

/-- The result is the path of the components that remain, and its own absolute path, and no scan
moves in front of the output, exactly if names remain or there were none, and the byte in front of
the output is no separator where a name comes behind the last deleted one. -/
theorem absolutepath_normal_iff (before : UInt8) (pwd rpath : Text)
    (absolute : pwd.head? = some SLASH) (size : (joinedPath pwd rpath).length ≤ MAXPATHLEN)
    (fit : ∀ c ∈ (joinedPath pwd rpath).splitOn SLASH, c.length < 256) :
    (absolutepath before rpath (some pwd) =
        some (some (pathOf (normal ((joinedPath pwd rpath).splitOn SLASH)))) ∧
      (∀ before' pwd', absolutepath before'
          (pathOf (normal ((joinedPath pwd rpath).splitOn SLASH))) pwd' =
        some (some (pathOf (normal ((joinedPath pwd rpath).splitOn SLASH))))) ∧
      ∀ buf fp j, 0 ≤ fp → scanBack buf fp = some j → 0 ≤ j) ↔
    (normal ((joinedPath pwd rpath).splitOn SLASH) ≠ [] ∨
        ∀ c ∈ (joinedPath pwd rpath).splitOn SLASH, ¬ IsName c) ∧
      Regular before ((joinedPath pwd rpath).splitOn SLASH) := by
  obtain ⟨out, run, reached⟩ := exists_pathLoop before fit
  rw [absolutepath_joined before pwd rpath size, run, Option.map_some, Option.some_inj,
    Option.some_inj, reached.fullpath_iff]
  refine and_iff_left ⟨?_, fun buf fp j start h => scanBack_nonneg start h⟩
  have valid : ∀ n ∈ normal ((joinedPath pwd rpath).splitOn SLASH),
      n ∈ (joinedPath pwd rpath).splitOn SLASH ∧ IsName n :=
    fun n mem => isName_of_mem_normal (fun _ mem => sep_notMem_of_mem_splitOn mem) mem
  exact absolutepath_pathOf (fun n mem => (valid n mem).2) (fun n mem => fit n (valid n mem).1)
    ((length_pathOf_normal (joinedPath_rooted absolute)).trans size)

/-- A relative path with all kinds of components. -/
theorem normal_relative :
    absolutepath 0 (ascii "../b/./c//d") (some (ascii "/home/a")) =
        some (some (pathOf (normal ((joinedPath (ascii "/home/a") (ascii "../b/./c//d")).splitOn
          SLASH)))) ∧
      (∀ before' pwd', absolutepath before' (pathOf (normal
          ((joinedPath (ascii "/home/a") (ascii "../b/./c//d")).splitOn SLASH))) pwd' =
        some (some (pathOf (normal ((joinedPath (ascii "/home/a") (ascii "../b/./c//d")).splitOn
          SLASH))))) ∧
      ∀ buf fp j, 0 ≤ fp → scanBack buf fp = some j → 0 ≤ j :=
  (absolutepath_normal_iff 0 (ascii "/home/a") (ascii "../b/./c//d") (by decide) (by decide)
    (by decide)).mpr ⟨.inl (by decide), .inl (by decide)⟩

/-- The last name of a path is not deleted. -/
theorem last_name_kept :
    ¬ ∀ (before : UInt8) (pwd rpath : Text), pwd.head? = some SLASH →
      (joinedPath pwd rpath).length ≤ MAXPATHLEN →
      (∀ c ∈ (joinedPath pwd rpath).splitOn SLASH, c.length < 256) →
      absolutepath before rpath (some pwd) =
        some (some (pathOf (normal ((joinedPath pwd rpath).splitOn SLASH)))) := by
  intro h
  have whole := h 0 (ascii "/") (ascii "/a/..") (by decide) (by decide) (by decide)
  have fit : ∀ c ∈ (joinedPath (ascii "/") (ascii "/a/..")).splitOn SLASH, c.length < 256 := by
    decide
  obtain ⟨out, run, reached⟩ := exists_pathLoop 0 fit
  rw [absolutepath_joined _ _ _ (by decide), run, Option.map_some, Option.some_inj, Option.some_inj,
    reached.fullpath_iff] at whole
  exact absurd whole.1 (by decide)

end Result

end SourceNavigator.Hyper.AbsolutePath

import Mathlib.Algebra.Ring.Int.Defs
import SourceNavigator.Db.ClassTree

/-!
The search for a matching brace (`brace_balance` in `hyper/exint.c`).

The text is scanned forwards from its start or backwards from its end, and the level counts the
braces that are not behind a backslash. The scan stops at a closing brace with which the level is
not above zero.

* `scan_eq_firstPrefix` says that it stops behind the first part of the text that has a brace and
  no more opening braces than closing ones.
-/

namespace SourceNavigator.Hyper.BraceBalance

open Db (atoi)

abbrev BACKSLASH : UInt8 := 92

/-! ### The first prefix with a property -/

section FirstPrefix

variable {α : Type} {p : List α → Bool} {a : α} {l : List α} {k : Nat}

/-- The length of the shortest prefix of a list that has a property. -/
def firstPrefix (p : List α → Bool) (l : List α) : Option Nat :=
  (List.range (l.length + 1)).find? fun k => p (l.take k)

theorem firstPrefix_nil : firstPrefix p [] = if p [] then some 0 else none := by
  rw [firstPrefix, List.length_nil, List.range_one, List.find?_singleton, List.take_nil]

theorem firstPrefix_cons :
    firstPrefix p (a :: l) =
      if p [] then some 0 else (firstPrefix (fun q => p (a :: q)) l).map (· + 1) := by
  rw [firstPrefix, List.length_cons, List.range_succ_eq_map, List.find?_cons, List.take_zero]
  cases p [] with
  | true => rfl
  | false =>
    rw [List.find?_map]
    rfl

theorem firstPrefix_eq_some :
    firstPrefix p l = some k ↔
      p (l.take k) = true ∧ k ≤ l.length ∧ ∀ j < k, p (l.take j) = false := by
  rw [firstPrefix, List.find?_range_eq_some, List.mem_range, Nat.lt_succ_iff]
  simp only [Bool.not_eq_true']

theorem firstPrefix_eq_none :
    firstPrefix p l = none ↔ ∀ k ≤ l.length, p (l.take k) = false := by
  rw [firstPrefix, List.find?_range_eq_none]
  simp only [Nat.lt_succ_iff, Bool.not_eq_true']

end FirstPrefix

/-! ### The source -/

def brace_backslash (cur : Int) (cont : Text) : Bool :=
  decide (0 ≤ cur - 1) && byteAt cont (cur - 1) == some BACKSLASH &&
    (decide (cur - 2 < 0) || byteAt cont (cur - 2) != some BACKSLASH)

section Code

variable (cont : Text) (forw : Bool) (open_brace close_brace : UInt8)

/-- `if (forw) p++; else p--;` -/
def step (p : Int) : Int := if forw then p + 1 else p - 1

/-- What is left of the text for the scan. -/
def remaining (p : Int) : Nat := if forw then (cont.length + 1 - p).toNat else (p + 1).toNat

variable {cont} in
theorem remaining_step {p : Int} {c : UInt8} (h : byteAt cont p = some c) :
    remaining cont forw (step forw p) < remaining cont forw p := by
  obtain ⟨low, high⟩ := byteAt_bounds h
  cases forw with
  | true =>
    rw [remaining, remaining, step, if_pos rfl, if_pos rfl, if_pos rfl]
    omega
  | false =>
    rw [remaining, remaining, step, if_neg Bool.false_ne_true, if_neg Bool.false_ne_true,
      if_neg Bool.false_ne_true]
    omega

/-- The loop of `brace_balance` with the number that is printed; `none` if it reads outside of the
text. -/
def scan (p lev : Int) : Option Int :=
  match _ : byteAt cont p with
  | none => none
  | some c =>
    if c ≠ 0 ∧ 0 ≤ p then
      if c = open_brace ∧ brace_backslash p cont = false then scan (step forw p) (lev + 1)
      else if c = close_brace ∧ brace_backslash p cont = false then
        if lev - 1 ≤ 0 then some (if forw then p + 1 else p) else scan (step forw p) (lev - 1)
      else scan (step forw p) lev
    else some (-1)
termination_by remaining cont forw p
decreasing_by
  all_goals exact remaining_step forw (by assumption)

end Code

/-- `brace_balance`: the result or the message, or `none` if it reads outside of the text. -/
def brace_balance : List Text → Option (Except Text Text)
  | [_, cont, direction, opening, closing] =>
    let forw := atoi direction != 0
    let p : Int := if forw then 0 else cont.length - 1
    (scan cont forw (opening.headD 0) (closing.headD 0) p 0).map fun off => .ok (decimal off)
  | argv =>
    some (.error (ascii "wrong # args: should be \"" ++ argv.headD [] ++
      ascii " string direction open_brace close_brace\""))

/-! ### Marks -/

/-- What a position of the text counts as. -/
inductive Mark
  | opening
  | closing
  | other
  deriving DecidableEq

/-- The opening braces less the closing ones. -/
def depth (ms : List Mark) : Int := ms.count .opening - ms.count .closing

@[simp] theorem depth_nil : depth [] = 0 := rfl

@[simp] theorem depth_opening (ms : List Mark) : depth (.opening :: ms) = 1 + depth ms := by
  simp [depth]
  omega

@[simp] theorem depth_closing (ms : List Mark) : depth (.closing :: ms) = -1 + depth ms := by
  simp [depth]
  omega

@[simp] theorem depth_other (ms : List Mark) : depth (.other :: ms) = depth ms := by
  simp [depth]

theorem depth_append (ms ms' : List Mark) : depth (ms ++ ms') = depth ms + depth ms' := by
  simp only [depth, List.count_append]
  omega

theorem depth_of_others {ms : List Mark} (others : ∀ m ∈ ms, m = .other) : depth ms = 0 := by
  rw [List.eq_replicate_of_mem others]
  simp [depth, List.count_replicate]

/-- As many closing braces as opening ones, and at least one. -/
def closes (ms : List Mark) : Bool :=
  ms.count .closing == ms.count .opening && decide (0 < ms.count .opening)

/-- No more opening braces than closing ones, and at least one brace. -/
def stops (ms : List Mark) : Bool := ms.any (· != .other) && decide (depth ms ≤ 0)

@[simp] theorem stops_nil : stops [] = false := rfl

@[simp] theorem stops_opening (ms : List Mark) :
    stops (.opening :: ms) = decide (1 + depth ms ≤ 0) := by
  have brace : (Mark.opening != Mark.other) = true := rfl
  simp [stops, brace]

@[simp] theorem stops_closing (ms : List Mark) :
    stops (.closing :: ms) = decide (-1 + depth ms ≤ 0) := by
  have brace : (Mark.closing != Mark.other) = true := rfl
  simp [stops, brace]

@[simp] theorem stops_other (ms : List Mark) : stops (.other :: ms) = stops ms := by
  simp [stops]

/-- How many marks are gone through to the closing brace at which the scan stops. -/
def stopAt (lev : Int) : List Mark → Option Nat
  | [] => none
  | .opening :: ms => (stopAt (lev + 1) ms).map (· + 1)
  | .closing :: ms => if lev - 1 ≤ 0 then some 1 else (stopAt (lev - 1) ms).map (· + 1)
  | .other :: ms => (stopAt lev ms).map (· + 1)

/-- Above level zero the scan ends when the level is back at zero. -/
theorem stopAt_open {ms : List Mark} {lev : Int} (above : 0 < lev) :
    stopAt lev ms = firstPrefix (fun q => decide (lev + depth q ≤ 0)) ms := by
  induction ms generalizing lev with
  | nil =>
    have started : ¬ lev ≤ 0 := by omega
    simp [stopAt, firstPrefix_nil, started]
  | cons m ms ih =>
    have started : ¬ lev ≤ 0 := by omega
    cases m with
    | opening =>
      rw [stopAt, ih (by omega)]
      simp [firstPrefix_cons, started, Int.add_assoc]
    | closing =>
      rw [stopAt]
      split
      case isTrue last =>
        have zero : lev = 1 := by omega
        cases ms <;> simp [firstPrefix_cons, firstPrefix_nil, zero]
      case isFalse more =>
        rw [ih (by omega)]
        simp [firstPrefix_cons, started, Int.add_assoc, Int.sub_eq_add_neg]
    | other =>
      rw [stopAt, ih above]
      simp [firstPrefix_cons, started]

/-- From level zero it ends where the prefix has a brace and the level is not above zero. -/
theorem stopAt_zero (ms : List Mark) : stopAt 0 ms = firstPrefix stops ms := by
  induction ms with
  | nil => rfl
  | cons m ms ih =>
    cases m with
    | opening =>
      rw [stopAt, stopAt_open (by omega), firstPrefix_cons]
      simp
    | closing =>
      cases ms <;> simp [stopAt, firstPrefix_cons, firstPrefix_nil]
    | other =>
      rw [stopAt, ih, firstPrefix_cons]
      simp

/-! ### The scan as a scan of marks -/

section Marks

variable (cont : Text) (forw : Bool) (open_brace close_brace : UInt8)

/-- What the byte at a position counts as, with the positions that are escaped. -/
def mark (escaped : Nat → Bool) (p : Nat) : Mark :=
  if cont[p]? = some open_brace ∧ escaped p = false then .opening
  else if cont[p]? = some close_brace ∧ escaped p = false then .closing
  else .other

/-- The positions in the order of the scan. -/
def positions : List Nat :=
  if forw then List.range cont.length else (List.range cont.length).reverse

def marks (escaped : Nat → Bool) : List Mark :=
  (positions cont forw).map (mark cont open_brace close_brace escaped)

/-- The positions at which the source sees an escaped brace. -/
def lone (p : Nat) : Bool := brace_backslash p cont

/-- The backslashes directly in front of a position. -/
def backslashes (p : Nat) : Nat :=
  ((cont.take p).reverse.takeWhile (· == BACKSLASH)).length

/-- An odd number of backslashes. -/
def escaped (p : Nat) : Bool := decide (backslashes cont p % 2 = 1)

/-- The offset behind the first group of braces in the direction of the scan, or `-1`. -/
def closing_offset : Int :=
  match firstPrefix closes (marks cont forw open_brace close_brace (escaped cont)) with
  | some k => if forw then k else cont.length - k
  | none => -1

example : closing_offset (ascii "((\\))a)b") true 40 41 = 7 := by decide

example : closing_offset (ascii "b(a(\\\\))") false 41 40 = 1 := by decide

/-- No closing brace comes first, and the group is not closed yet. -/
def Enclosed (ms : List Mark) : Prop := (∀ m ∈ ms, m = .other) ∨ 0 < depth ms

/-- The level stays above zero from the first brace on, and is zero at the end of the group. Without
such an end the scan has to go forwards. -/
def EnclosedUpTo (seen : List Mark) : Option Nat → Prop
  | some k => (∀ j < k, Enclosed (seen.take j)) ∧ depth (seen.take k) = 0
  | none => forw = true ∧ ∀ j ≤ cont.length, Enclosed (seen.take j)

/-- Up to the end of the first group, the braces that are not behind a lone backslash enclose. -/
def Balanced : Prop :=
  EnclosedUpTo cont forw (marks cont forw open_brace close_brace (lone cont))
    (firstPrefix closes (marks cont forw open_brace close_brace (escaped cont)))

instance (ms : List Mark) : Decidable (Enclosed ms) := inferInstanceAs (Decidable (_ ∨ _))

instance (seen : List Mark) : (found : Option Nat) → Decidable (EnclosedUpTo cont forw seen found)
  | some _ => inferInstanceAs (Decidable (_ ∧ _))
  | none => inferInstanceAs (Decidable (_ ∧ _))

instance : Decidable (Balanced cont forw open_brace close_brace) :=
  inferInstanceAs (Decidable (EnclosedUpTo _ _ _ _))

end Marks

section Scan

variable {cont : Text} {forw : Bool} (open_brace close_brace : UInt8)

/-- A step of the scan at a byte of the text. -/
theorem scan_step (text : 0 ∉ cont) {p : Nat} (inside : p < cont.length) (lev : Int) :
    scan cont forw open_brace close_brace p lev =
      match mark cont open_brace close_brace (lone cont) p with
      | .opening => scan cont forw open_brace close_brace (step forw p) (lev + 1)
      | .closing =>
        if lev - 1 ≤ 0 then some (if forw then p + 1 else p)
        else scan cont forw open_brace close_brace (step forw p) (lev - 1)
      | .other => scan cont forw open_brace close_brace (step forw p) lev := by
  have byte := List.getElem?_eq_getElem inside
  have nonzero : cont[p] ≠ 0 := fun zero => text (zero ▸ List.getElem_mem inside)
  have found : byteAt cont p = some cont[p] := by rw [byteAt_of_lt inside, byte]
  rw [scan]
  split
  case h_1 missing =>
    rw [found] at missing
    cases missing
  case h_2 c same =>
    obtain rfl := Option.some.inj (found.symm.trans same)
    rw [if_pos ⟨nonzero, by omega⟩, mark, byte, lone]
    have mark_iff : ∀ d, (some cont[p] = some d ∧ brace_backslash p cont = false) ↔
        (cont[p] = d ∧ brace_backslash p cont = false) := by
      intro d
      rw [Option.some_inj]
    simp only [mark_iff]
    by_cases opening : cont[p] = open_brace ∧ brace_backslash p cont = false
    · simp only [if_pos opening]
    · by_cases closing : cont[p] = close_brace ∧ brace_backslash p cont = false
      · simp only [if_neg opening, if_pos closing]
      · simp only [if_neg opening, if_neg closing]

/-- Forwards, the scan from a position is the scan of the marks from there on. -/
theorem scan_forwards (text : 0 ∉ cont) {p : Nat} (le : p ≤ cont.length) (lev : Int) :
    scan cont true open_brace close_brace p lev =
      some (((stopAt lev ((marks cont true open_brace close_brace (lone cont)).drop p)).map
        fun k => ((p + k : Nat) : Int)).getD (-1)) := by
  obtain ⟨left, whole⟩ := Nat.exists_eq_add_of_le le
  induction left generalizing p lev with
  | zero =>
    have last : p = cont.length := by omega
    have size : (marks cont true open_brace close_brace (lone cont)).length ≤ p := by
      simp [marks, positions, last]
    rw [List.drop_eq_nil_of_le size, scan, last]
    split
    case h_1 missing =>
      rw [byteAt_length] at missing
      cases missing
    case h_2 c same =>
      obtain rfl := Option.some.inj (byteAt_length.symm.trans same)
      rw [if_neg (fun nonzero => nonzero.1 rfl)]
      rfl
  | succ left ih =>
    have inside : p < cont.length := by omega
    have next : step true p = ((p + 1 : Nat) : Int) := rfl
    have cons : (marks cont true open_brace close_brace (lone cont)).drop p =
        mark cont open_brace close_brace (lone cont) p ::
          (marks cont true open_brace close_brace (lone cont)).drop (p + 1) := by
      rw [List.drop_eq_getElem_cons (by simpa [marks, positions] using inside)]
      simp [marks, positions]
    have shift : ∀ o : Option Nat, (o.map (· + 1)).map (fun k => ((p + k : Nat) : Int)) =
        o.map fun k => ((p + 1 + k : Nat) : Int) := by
      intro o
      rw [Option.map_map]
      refine congrArg (Option.map · o) (funext fun k => ?_)
      exact congrArg Nat.cast (by omega : p + (k + 1) = p + 1 + k)
    rw [scan_step open_brace close_brace text inside, cons, next]
    cases mark cont open_brace close_brace (lone cont) p with
    | opening =>
      rw [stopAt, shift]
      exact ih (by omega) _ (by omega)
    | closing =>
      rw [stopAt]
      by_cases last : lev - 1 ≤ 0
      · simp only [if_pos last]
        rfl
      · simp only [if_neg last]
        rw [shift]
        exact ih (by omega) _ (by omega)
    | other =>
      rw [stopAt, shift]
      exact ih (by omega) _ (by omega)

/-- Backwards, it reads outside of the text if the marks are used up. -/
theorem scan_backwards (text : 0 ∉ cont) {p : Nat} (le : p ≤ cont.length) (lev : Int) :
    scan cont false open_brace close_brace (p - 1) lev =
      (stopAt lev ((List.range p).reverse.map
        (mark cont open_brace close_brace (lone cont)))).map fun k : Nat => (p : Int) - k := by
  induction p generalizing lev with
  | zero =>
    rw [scan]
    split
    case h_1 => rfl
    case h_2 c found =>
      have low := (byteAt_bounds found).1
      omega
  | succ p ih =>
    have here : ((p + 1 : Nat) : Int) - 1 = p := by omega
    have next : step false p = (p : Int) - 1 := rfl
    have shift : ∀ o : Option Nat,
        (o.map (· + 1)).map (fun k : Nat => ((p + 1 : Nat) : Int) - k) =
          o.map fun k : Nat => (p : Int) - k := by
      intro o
      rw [Option.map_map]
      refine congrArg (Option.map · o) (funext fun k => ?_)
      have same : ((p + 1 : Nat) : Int) - ((k + 1 : Nat) : Int) = p - k := by omega
      exact same
    rw [here, scan_step open_brace close_brace text (by omega), next, List.range_succ, List.reverse_append,
      List.reverse_singleton, List.singleton_append, List.map_cons]
    cases mark cont open_brace close_brace (lone cont) p with
    | opening =>
      rw [stopAt, shift]
      exact ih (by omega) _
    | closing =>
      rw [stopAt]
      by_cases last : lev - 1 ≤ 0
      · simp only [if_pos last]
        refine congrArg some ?_
        have one : (p : Int) = ((p + 1 : Nat) : Int) - ((1 : Nat) : Int) := by omega
        exact one
      · simp only [if_neg last]
        rw [shift]
        exact ih (by omega) _
    | other =>
      rw [stopAt, shift]
      exact ih (by omega) _

theorem length_marks (escaped : Nat → Bool) :
    (marks cont forw open_brace close_brace escaped).length = cont.length := by
  cases forw <;> simp [marks, positions]

/-- What the scan ends with, where its last step is known. -/
def stopOffset (cont : Text) (forw : Bool) : Option Nat → Option Int
  | some k => some (if forw then k else cont.length - k)
  | none => if forw then some (-1) else none

/-- The scan of a text: where the marks stop it, in the direction of the scan. -/
theorem scan_eq_firstPrefix (text : 0 ∉ cont) :
    scan cont forw open_brace close_brace (if forw then 0 else cont.length - 1) 0 =
      stopOffset cont forw
        (firstPrefix stops (marks cont forw open_brace close_brace (lone cont))) := by
  cases forw with
  | true =>
    have run := scan_forwards open_brace close_brace text (Nat.zero_le _) 0
    rw [List.drop_zero, stopAt_zero] at run
    refine run.trans ?_
    cases firstPrefix stops (marks cont true open_brace close_brace (lone cont)) with
    | none => rfl
    | some k => exact congrArg (fun n : Nat => some (n : Int)) (Nat.zero_add k)
  | false =>
    have run := scan_backwards open_brace close_brace text (Nat.le_refl _) 0
    have order : (List.range cont.length).reverse.map
        (mark cont open_brace close_brace (lone cont)) =
          marks cont false open_brace close_brace (lone cont) := rfl
    rw [stopAt_zero, order] at run
    refine run.trans ?_
    cases firstPrefix stops (marks cont false open_brace close_brace (lone cont)) with
    | none => rfl
    | some k => rfl

end Scan

/-! ### Lone backslashes and odd numbers of them -/

section Escapes

variable {cont : Text} {forw : Bool} {open_brace close_brace : UInt8} {k : Nat}

theorem byteAt_eq_backslash {p : Nat} :
    byteAt cont p = some BACKSLASH ↔ cont[p]? = some BACKSLASH := by
  rcases Nat.lt_trichotomy p cont.length with inside | rfl | beyond
  · rw [byteAt_of_lt inside]
  · rw [byteAt_length, List.getElem?_eq_none (Nat.le_refl _)]
    decide
  · have behind : (cont ++ [0]).length ≤ p := by
      rw [List.length_append, List.length_singleton]
      omega
    rw [byteAt, if_pos (by omega), Int.toNat_natCast, List.getElem?_eq_none behind,
      List.getElem?_eq_none (Nat.le_of_lt beyond)]

theorem backslashes_succ {p : Nat} (here : cont[p]? = some BACKSLASH) :
    backslashes cont (p + 1) = backslashes cont p + 1 := by
  rw [backslashes, List.take_add_one, here, Option.toList_some, List.reverse_append,
    List.reverse_singleton, List.singleton_append, List.takeWhile_cons_of_pos rfl,
    List.length_cons, backslashes]

theorem backslashes_of_ne {p : Nat} {c : UInt8} (here : cont[p]? = some c) (other : c ≠ BACKSLASH) :
    backslashes cont (p + 1) = 0 := by
  rw [backslashes, List.take_add_one, here, Option.toList_some, List.reverse_append,
    List.reverse_singleton, List.singleton_append, List.takeWhile_cons_of_neg]
  · rfl
  · rwa [beq_iff_eq]

/-- A lone backslash is an odd number of them. -/
theorem escaped_of_lone {p : Nat} (h : lone cont p = true) : escaped cont p = true := by
  simp only [lone, brace_backslash, Bool.and_eq_true, Bool.or_eq_true, decide_eq_true_eq,
    beq_iff_eq, bne_iff_ne] at h
  obtain ⟨⟨low, backslash⟩, single⟩ := h
  obtain ⟨q, rfl⟩ : ∃ q, p = q + 1 := ⟨p - 1, by omega⟩
  have before : ((q + 1 : Nat) : Int) - 1 = q := by omega
  rw [before, byteAt_eq_backslash] at backslash
  rw [escaped, backslashes_succ backslash]
  have none_before : backslashes cont q = 0 := by
    cases q with
    | zero => rfl
    | succ r =>
      have before_that : ((r + 1 + 1 : Nat) : Int) - 2 = r := by omega
      rw [before_that, ne_eq, byteAt_eq_backslash] at single
      have inside := (List.getElem?_eq_some_iff.mp backslash).1
      have byte : cont[r]? = some cont[r] := List.getElem?_eq_getElem _
      rw [byte] at single
      refine backslashes_of_ne byte ?_
      intro same
      exact single.elim (by omega) fun other => other (congrArg some same)
  rw [none_before]
  rfl

theorem opening_mem (mem : .opening ∈ (marks cont forw open_brace close_brace (escaped cont)).take k) :
    .opening ∈ (marks cont forw open_brace close_brace (lone cont)).take k := by
  rw [marks, ← List.map_take, List.mem_map] at mem ⊢
  obtain ⟨p, position, is⟩ := mem
  refine ⟨p, position, ?_⟩
  rw [mark] at is
  split at is
  case isTrue here =>
    have not_lone : lone cont p = false := by
      rw [← Bool.not_eq_true]
      intro h
      exact Bool.false_ne_true (here.2.symm.trans (escaped_of_lone h))
    rw [mark, if_pos ⟨here.1, not_lone⟩]
  case isFalse =>
    split at is <;> cases is

theorem stops_eq_false {ms : List Mark} : stops ms = false ↔ Enclosed ms := by
  rw [stops, Bool.and_eq_false_iff, decide_eq_false_iff_not, Int.not_le, List.any_eq_false]
  simp only [bne_iff_ne, not_not, Enclosed]

/-- The scan stops with level zero where no closing brace came first and one was opened. -/
theorem stops_iff_depth {ms : List Mark} {k : Nat} (before : ∀ j < k, Enclosed (ms.take j))
    (opened : .opening ∈ ms.take k) : stops (ms.take k) = true ↔ depth (ms.take k) = 0 := by
  cases k with
  | zero => cases opened
  | succ j =>
    have brace : (ms.take (j + 1)).any (· != .other) = true :=
      List.any_eq_true.mpr ⟨.opening, opened, rfl⟩
    rw [stops, brace, Bool.true_and, decide_eq_true_eq]
    rw [List.take_add_one, List.mem_append] at opened
    have last : -1 ≤ depth ms[j]?.toList := by
      rcases ms[j]? with _ | _ | _ | _ <;> simp
    rw [List.take_add_one, depth_append]
    rcases before j (Nat.lt_succ_self j) with others | above
    · have opening : Mark.opening ∈ ms[j]?.toList := by
        refine opened.resolve_left fun mem => ?_
        have is := others _ mem
        cases is
      rw [Option.mem_toList] at opening
      rw [depth_of_others others, opening]
      decide
    · omega

end Escapes

theorem map_decimal {found : Option Int} {off : Int} :
    found.map (fun off => (.ok (decimal off) : Except Text Text)) = some (.ok (decimal off)) ↔
      found = some off := by
  rw [Option.map_eq_some_iff]
  constructor
  · rintro ⟨n, rfl, same⟩
    exact congrArg some (decimal_injective (Except.ok.inj same))
  · rintro rfl
    exact ⟨off, rfl, rfl⟩

theorem stopOffset_some {cont : Text} {forw : Bool} {found : Option Nat} {k : Nat} :
    stopOffset cont forw found = some (if forw then (k : Int) else cont.length - k) ↔
      found = some k := by
  constructor
  · intro h
    cases found with
    | none =>
      cases forw with
      | true =>
        have off : (-1 : Int) = k := Option.some.inj h
        omega
      | false => cases h
    | some j =>
      have off := Option.some.inj h
      refine congrArg some ?_
      cases forw with
      | true => exact Int.ofNat.inj off
      | false =>
        have same : (cont.length : Int) - j = cont.length - k := off
        omega
  · rintro rfl
    rfl

theorem stopOffset_none {cont : Text} {forw : Bool} {found : Option Nat}
    (inside : ∀ k ∈ found, k ≤ cont.length) :
    stopOffset cont forw found = some (-1) ↔ forw = true ∧ found = none := by
  constructor
  · intro h
    cases found with
    | none =>
      cases forw with
      | true => exact ⟨rfl, rfl⟩
      | false => cases h
    | some j =>
      have le := inside j rfl
      cases forw with
      | true =>
        have off : (j : Int) = -1 := Option.some.inj h
        omega
      | false =>
        have off : (cont.length : Int) - j = -1 := Option.some.inj h
        omega
  · rintro ⟨rfl, rfl⟩
    rfl

theorem brace_balance_eq (argv0 direction opening closing : Text) {cont : Text} (text : 0 ∉ cont) :
    brace_balance [argv0, cont, direction, opening, closing] =
      (stopOffset cont (atoi direction != 0) (firstPrefix stops
        (marks cont (atoi direction != 0) (opening.headD 0) (closing.headD 0) (lone cont)))).map
          fun off => .ok (decimal off) := by
  rw [brace_balance, scan_eq_firstPrefix _ _ text]

/-- The result is the end of the first group of braces exactly if the braces are balanced when a
brace behind three, five or more backslashes counts as well, no closing brace comes first, and a
scan backwards finds a group. -/
theorem brace_balance_closing_iff (argv0 cont direction opening closing : Text) (text : 0 ∉ cont) :
    brace_balance [argv0, cont, direction, opening, closing] =
        some (.ok (decimal (closing_offset cont (atoi direction != 0) (opening.headD 0)
          (closing.headD 0)))) ↔
      Balanced cont (atoi direction != 0) (opening.headD 0) (closing.headD 0) := by
  rw [brace_balance_eq argv0 direction opening closing text, map_decimal]
  generalize (atoi direction != 0) = forw
  generalize opening.headD 0 = open_brace
  generalize closing.headD 0 = close_brace
  rw [closing_offset, Balanced]
  cases spec : firstPrefix closes (marks cont forw open_brace close_brace (escaped cont)) with
  | none =>
    have inside : ∀ k ∈ firstPrefix stops (marks cont forw open_brace close_brace (lone cont)),
        k ≤ cont.length := by
      intro k found
      have le := (firstPrefix_eq_some.mp found).2.1
      rwa [length_marks] at le
    rw [stopOffset_none inside, firstPrefix_eq_none, length_marks]
    simp only [stops_eq_false]
    exact Iff.rfl
  | some k =>
    obtain ⟨closed, inside, _⟩ := firstPrefix_eq_some.mp spec
    rw [closes, Bool.and_eq_true, decide_eq_true_iff, List.count_pos_iff] at closed
    have opened := opening_mem closed.2
    rw [stopOffset_some, firstPrefix_eq_some]
    simp only [stops_eq_false]
    constructor
    · rintro ⟨stopped, _, before⟩
      exact ⟨before, (stops_iff_depth before opened).mp stopped⟩
    · rintro ⟨before, level⟩
      rw [length_marks] at inside ⊢
      exact ⟨(stops_iff_depth before opened).mpr level, inside, before⟩

/-- Nested groups with an escaped brace, forwards. -/
theorem closing_nested :
    brace_balance [ascii "brace_balance", ascii "((\\))a)b", ascii "1", ascii "(", ascii ")"] =
      some (.ok (decimal (closing_offset (ascii "((\\))a)b") true 40 41))) :=
  (brace_balance_closing_iff (ascii "brace_balance") (ascii "((\\))a)b") (ascii "1") (ascii "(")
    (ascii ")") (by decide)).mpr (by decide)

/-- The brace behind three backslashes ends the group. -/
theorem three_backslashes :
    ¬ ∀ cont direction opening closing : Text, 0 ∉ cont → opening.headD 0 ≠ closing.headD 0 →
      brace_balance [ascii "brace_balance", cont, direction, opening, closing] =
        some (.ok (decimal (closing_offset cont (atoi direction != 0) (opening.headD 0)
          (closing.headD 0)))) := by
  intro h
  have run := h (ascii "(\\\\\\))") (ascii "1") (ascii "(") (ascii ")") (by decide) (by decide)
  rw [brace_balance_eq _ _ _ _ (by decide), map_decimal] at run
  exact absurd run (by decide)

end SourceNavigator.Hyper.BraceBalance

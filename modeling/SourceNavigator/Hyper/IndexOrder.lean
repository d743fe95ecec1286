import Mathlib.Data.List.DropRight
import SourceNavigator.Scanf

/-!
The order of the browser lists (`hyper/compare.c`).

The comment on `sn_compare` promises the order of a card catalog: case is
ignored except to break ties, and numbers compare by their value. The loop
stops at the first difference it meets.

* `compareLoop_eq`: the loop computes the lexicographic order of the characters,
  each by its upper case letter and then its case.
* `index_order_iff` says for which strings that is the order of the comment.
-/

namespace SourceNavigator.Hyper.IndexOrder

/-- `toupper` in the C locale. -/
def toupper (c : UInt8) : UInt8 := if 97 ≤ c && c ≤ 122 then c - 32 else c

def isupper (c : UInt8) : Bool := 65 ≤ c && c ≤ 90

def islower (c : UInt8) : Bool := 97 ≤ c && c ≤ 122

/-- `if (*left == '~') left++;` -/
def skipTilde : Text → Text
  | c :: s => if c = 126 then s else c :: s
  | [] => []

/-- The loop over both strings, and the test for their ends. -/
def compareLoop : Text → Text → Int
  | [], [] => 0
  | [], _ :: _ => -1
  | _ :: _, [] => 1
  | c :: left, d :: right =>
    if c = d then compareLoop left right
    else if toupper c < toupper d then -1
    else if toupper d < toupper c then 1
    else if isupper c && islower d then -1
    else if islower c && isupper d then 1
    else compareLoop left right

/-- The result for two strings. -/
def order (left right : Text) : Int := compareLoop (skipTilde left) (skipTilde right)

/-- The command with its arguments. -/
def sn_compare (name : Text) : List Text → Except Text Int
  | [left, right] => .ok (order left right)
  | _ => .error (ascii "wrong # args: should be \"" ++ name ++ ascii " string1 string2\"")

/-! ### The order of characters -/

/-- The number an order is returned as. -/
def result : Ordering → Int
  | .lt => -1
  | .eq => 0
  | .gt => 1

theorem result_inj {o o' : Ordering} : result o = result o' ↔ o = o' := by
  cases o <;> cases o' <;> decide

/-- The place of a character: by its upper case letter, upper before lower case. -/
def key (c : UInt8) : Nat := 2 * (toupper c).toNat + (islower c).toNat

theorem islower_iff {c : UInt8} : islower c = true ↔ 97 ≤ c.toNat ∧ c.toNat ≤ 122 := by
  rw [islower, Bool.and_eq_true, decide_eq_true_iff, decide_eq_true_iff, UInt8.le_iff_toNat_le,
    UInt8.le_iff_toNat_le]
  rfl

theorem isupper_iff {c : UInt8} : isupper c = true ↔ 65 ≤ c.toNat ∧ c.toNat ≤ 90 := by
  rw [isupper, Bool.and_eq_true, decide_eq_true_iff, decide_eq_true_iff, UInt8.le_iff_toNat_le,
    UInt8.le_iff_toNat_le]
  rfl

theorem isdigit_iff {c : UInt8} : isdigit c = true ↔ 48 ≤ c.toNat ∧ c.toNat ≤ 57 := by
  rw [isdigit, Bool.and_eq_true, decide_eq_true_iff, decide_eq_true_iff, UInt8.le_iff_toNat_le,
    UInt8.le_iff_toNat_le]
  rfl

theorem toupper_lower {c : UInt8} (lower : islower c = true) :
    (toupper c).toNat + 32 = c.toNat := by
  have low := (islower_iff.mp lower).1
  have fits : (32 : UInt8) ≤ c := UInt8.le_iff_toNat_le.mpr (Nat.le_trans (by decide) low)
  have value : (32 : UInt8).toNat = 32 := rfl
  unfold islower at lower
  rw [toupper, if_pos lower, UInt8.toNat_sub_of_le _ _ fits, value]
  omega

theorem toupper_other {c : UInt8} (other : islower c = false) : toupper c = c := by
  unfold islower at other
  rw [toupper, if_neg (Bool.eq_false_iff.mp other)]

/-- Characters that differ in case only are the two forms of a letter. -/
theorem letters {c d : UInt8} (apart : c ≠ d) (same : toupper c = toupper d) :
    (isupper c = true ∧ islower d = true ∧ islower c = false) ∨
      (islower c = true ∧ isupper d = true ∧ islower d = false) := by
  have value : (toupper c).toNat = (toupper d).toNat := congrArg UInt8.toNat same
  cases c_case : islower c <;> cases d_case : islower d
  · rw [toupper_other c_case, toupper_other d_case] at same
    exact absurd same apart
  · left
    have shift := toupper_lower d_case
    have bounds := islower_iff.mp d_case
    rw [toupper_other c_case] at value
    exact ⟨isupper_iff.mpr (by omega), rfl, rfl⟩
  · right
    have shift := toupper_lower c_case
    have bounds := islower_iff.mp c_case
    rw [toupper_other d_case] at value
    exact ⟨rfl, isupper_iff.mpr (by omega), rfl⟩
  · have left := toupper_lower c_case
    have right := toupper_lower d_case
    exact absurd (UInt8.toNat_inj.mp (by omega)) apart

theorem isupper_not_lower {c : UInt8} (upper : isupper c = true) : islower c = false := by
  rw [Bool.eq_false_iff]
  intro lower
  have high := isupper_iff.mp upper
  have low := islower_iff.mp lower
  omega

theorem byte_trichotomy (c d : UInt8) : c < d ∨ c = d ∨ d < c := by
  rw [UInt8.lt_iff_toNat_lt, UInt8.lt_iff_toNat_lt, ← UInt8.toNat_inj]
  exact Nat.lt_trichotomy c.toNat d.toNat

theorem compare_of_lt {c d : UInt8} (less : c < d) : compare c d = .lt := by
  have order : compare c d = compareOfLessAndEq c d := rfl
  rw [order, compareOfLessAndEq, if_pos less]

theorem compare_of_gt {c d : UInt8} (greater : d < c) : compare c d = .gt := by
  have order : compare c d = compareOfLessAndEq c d := rfl
  have apart : c ≠ d := by
    rintro rfl
    exact UInt8.lt_irrefl _ greater
  rw [order, compareOfLessAndEq, if_neg (UInt8.lt_asymm greater), if_neg apart]

theorem key_lt {c d : UInt8} (less : toupper c < toupper d) : key c < key d := by
  rw [UInt8.lt_iff_toNat_lt] at less
  have one := Bool.toNat_le (islower c)
  unfold key
  omega

theorem key_inj {c d : UInt8} (same : key c = key d) : c = d := by
  by_contra apart
  rcases byte_trichotomy (toupper c) (toupper d) with less | equal | less
  · exact absurd same (Nat.ne_of_lt (key_lt less))
  · unfold key at same
    rw [equal] at same
    rcases letters apart equal with ⟨_, lower, upper⟩ | ⟨lower, _, upper⟩
    · rw [lower, upper] at same
      exact absurd same (by simp)
    · rw [lower, upper] at same
      exact absurd same (by simp)
  · exact absurd same (Nat.ne_of_gt (key_lt less))

/-! ### The loop -/

/-- The loop compares the characters by their places. -/
theorem compareLoop_eq (a b : Text) :
    compareLoop a b = result (compare (a.map key) (b.map key)) := by
  induction a generalizing b with
  | nil =>
    cases b with
    | nil => rfl
    | cons d b => rw [List.map_nil, List.map_cons, List.compare_nil_cons]; rfl
  | cons c a ih =>
    cases b with
    | nil => rw [List.map_nil, List.map_cons, List.compare_cons_nil]; rfl
    | cons d b =>
      rw [List.map_cons, List.map_cons, List.compare_cons_cons, compareLoop]
      by_cases same : c = d
      · have equal : compare (key c) (key d) = .eq := Nat.compare_eq_eq.mpr (by rw [same])
        rw [if_pos same, equal, ih]
        rfl
      rw [if_neg same]
      rcases byte_trichotomy (toupper c) (toupper d) with less | equal | less
      · rw [if_pos less, Nat.compare_eq_lt.mpr (key_lt less)]
        rfl
      · have stay : ¬ toupper c < toupper d := by rw [equal]; exact UInt8.lt_irrefl _
        have stay' : ¬ toupper d < toupper c := by rw [equal]; exact UInt8.lt_irrefl _
        rw [if_neg stay, if_neg stay']
        rcases letters same equal with ⟨upper, lower, other⟩ | ⟨lower, upper, other⟩
        · have less : key c < key d := by
            unfold key
            rw [equal, lower, other]
            exact Nat.lt_succ_self _
          rw [upper, lower, Nat.compare_eq_lt.mpr less]
          rfl
        · have less : key d < key c := by
            unfold key
            rw [equal, lower, other]
            exact Nat.lt_succ_self _
          rw [lower, upper, other, Bool.and_false, Nat.compare_eq_gt.mpr less]
          rfl
      · rw [if_neg (UInt8.lt_asymm less), if_pos less, Nat.compare_eq_gt.mpr (key_lt less)]
        rfl

theorem order_swap (s t : Text) : order s t = -order t s := by
  have swap : compare ((skipTilde s).map key) ((skipTilde t).map key) =
      (compare ((skipTilde t).map key) ((skipTilde s).map key)).swap := Std.OrientedCmp.eq_swap
  rw [order, order, compareLoop_eq, compareLoop_eq, swap]
  cases compare ((skipTilde t).map key) ((skipTilde s).map key) <;> rfl

theorem compareLoop_eq_zero {a b : Text} : compareLoop a b = 0 ↔ a = b := by
  have zero : result .eq = 0 := rfl
  rw [compareLoop_eq, ← zero, result_inj, Std.LawfulEqCmp.compare_eq_iff_eq]
  constructor
  · intro same
    exact List.map_injective_iff.mpr (fun _ _ => key_inj) same
  · intro same
    rw [same]

theorem result_nonpos {o : Ordering} : result o ≤ 0 ↔ o.isLE := by
  cases o <;> decide

theorem order_trans {s t u : Text} (first : order s t ≤ 0) (second : order t u ≤ 0) :
    order s u ≤ 0 := by
  rw [order, compareLoop_eq, result_nonpos] at first second ⊢
  exact Std.TransCmp.isLE_trans first second

/-! ### The order of the comment -/

/-- A string without case. -/
def fold (s : Text) : Text := s.map toupper

/-- The order of two strings without case. -/
def foldOrder (a b : Text) : Ordering := compare (fold a) (fold b)

/-- The order of the first characters that differ in case only, if the strings are equal without
case up to there. -/
def caseOrder : Text → Text → Ordering
  | c :: a, d :: b =>
    if c = d then caseOrder a b
    else if toupper c = toupper d then if isupper c then .lt else .gt
    else .eq
  | _, _ => .eq

/-- The length of the common part without case. -/
def shared : Text → Text → Nat
  | c :: a, d :: b => if toupper c = toupper d then shared a b + 1 else 0
  | _, _ => 0

/-- The digits around a place. -/
def runAt (s : Text) (n : Nat) : Text :=
  (s.take n).rtakeWhile isdigit ++ (s.drop n).takeWhile isdigit

/-- The value of a run of digits. -/
def number (ds : Text) : Nat := (scanDigits 0 ds).1

/-- The order of the numbers that stand where the strings differ first without case. -/
def numberOrder (a b : Text) : Ordering :=
  let u := runAt a (shared a b)
  let v := runAt b (shared a b)
  if u = [] ∨ v = [] then .eq else compare (number u) (number v)

/-- A run of digits that cannot be made longer: what stands before and behind it. -/
structure IsRun (front digits behind : Text) : Prop where
  some_digit : digits ≠ []
  all : ∀ c ∈ digits, isdigit c = true
  front : ∀ c ∈ front.getLast?, isdigit c = false
  behind : Ends behind

/-- The comment on `sn_compare`, for a pair of strings. -/
structure CardCatalog (s t : Text) : Prop where
  /-- The two directions agree. -/
  swap : order s t = -order t s
  /-- Strings are equal if they are the same behind a tilde. -/
  zero : order s t = 0 ↔ skipTilde s = skipTilde t
  trans : ∀ u, order s t ≤ 0 → order t u ≤ 0 → order s u ≤ 0
  /-- The case is ignored. -/
  case_ignored : fold (skipTilde s) ≠ fold (skipTilde t) →
    order s t = compareLoop (fold (skipTilde s)) (fold (skipTilde t))
  /-- In a tie `B` comes before `b`. -/
  ties : ∀ p c d x y, fold (skipTilde s) = fold (skipTilde t) → skipTilde s = p ++ c :: x →
    skipTilde t = p ++ d :: y → isupper c = true → islower d = true → order s t = -1
  /-- Numbers at the same place compare by their value. -/
  numbers : ∀ p q u v x y, skipTilde s = p ++ (u ++ x) → skipTilde t = q ++ (v ++ y) →
    fold p = fold q → IsRun p u x → IsRun q v y → number u ≠ number v →
      order s t = result (compare (number u) (number v))

/-- The order of the first difference without case is that of an earlier difference in case, and
that of the numbers that stand there. -/
def FirstDifferenceAgrees (a b : Text) : Prop :=
  foldOrder a b = .eq ∨
    (caseOrder a b = .eq ∨ caseOrder a b = foldOrder a b) ∧
      (numberOrder a b = .eq ∨ numberOrder a b = foldOrder a b)

/-! ### Case -/

theorem toupper_toupper (c : UInt8) : toupper (toupper c) = toupper c := by
  apply toupper_other
  rw [Bool.eq_false_iff]
  intro lower
  have bounds := islower_iff.mp lower
  cases c_case : islower c
  · rw [toupper_other c_case] at lower
    exact absurd lower (Bool.eq_false_iff.mp c_case)
  · have shift := toupper_lower c_case
    have high := islower_iff.mp c_case
    omega

theorem foldOrder_eq_eq {a b : Text} : foldOrder a b = .eq ↔ fold a = fold b := by
  rw [foldOrder]
  exact Std.LawfulEqCmp.compare_eq_iff_eq

theorem foldOrder_cons (c d : UInt8) (a b : Text) :
    foldOrder (c :: a) (d :: b) = (compare (toupper c) (toupper d)).then (foldOrder a b) :=
  List.compare_cons_cons

/-- The loop decides by the first difference in case, or by the order without case. -/
theorem compareLoop_eq_then (a b : Text) :
    compareLoop a b = result ((caseOrder a b).then (foldOrder a b)) := by
  induction a generalizing b with
  | nil =>
    cases b with
    | nil => rfl
    | cons d b => rfl
  | cons c a ih =>
    cases b with
    | nil => rfl
    | cons d b =>
      rw [compareLoop, caseOrder, foldOrder_cons]
      by_cases same : c = d
      · have equal : compare (toupper c) (toupper d) = .eq := by
          rw [same]
          exact Std.ReflCmp.compare_self
        rw [if_pos same, if_pos same, equal, ih]
        rfl
      rw [if_neg same, if_neg same]
      rcases byte_trichotomy (toupper c) (toupper d) with less | equal | less
      · have apart : toupper c ≠ toupper d := by
          intro equal
          rw [equal] at less
          exact UInt8.lt_irrefl _ less
        rw [if_pos less, if_neg apart, compare_of_lt less]
        rfl
      · have stay : ¬ toupper c < toupper d := by rw [equal]; exact UInt8.lt_irrefl _
        have stay' : ¬ toupper d < toupper c := by rw [equal]; exact UInt8.lt_irrefl _
        rw [if_neg stay, if_neg stay', if_pos equal]
        rcases letters same equal with ⟨upper, lower, _⟩ | ⟨lower, upper, other⟩
        · rw [upper, lower]
          rfl
        · have not_upper : isupper c = false := by
            rw [Bool.eq_false_iff]
            intro both
            rw [isupper_not_lower both] at lower
            exact absurd lower (by decide)
          rw [lower, upper, other, not_upper]
          rfl
      · have apart : toupper c ≠ toupper d := by
          intro equal
          rw [equal] at less
          exact UInt8.lt_irrefl _ less
        rw [if_neg (UInt8.lt_asymm less), if_pos less, if_neg apart, compare_of_gt less]
        rfl

theorem fold_fold (s : Text) : fold (fold s) = fold s := by
  rw [fold, fold, List.map_map]
  exact List.map_congr_left fun c _ => toupper_toupper c

/-- Without case nothing is left to decide by case. -/
theorem caseOrder_fold (a b : Text) : caseOrder (fold a) (fold b) = .eq := by
  induction a generalizing b with
  | nil => rfl
  | cons c a ih =>
    cases b with
    | nil => rfl
    | cons d b =>
      have step : caseOrder (fold (c :: a)) (fold (d :: b)) =
          if toupper c = toupper d then caseOrder (fold a) (fold b)
          else if toupper (toupper c) = toupper (toupper d) then
            if isupper (toupper c) then .lt else .gt
          else .eq := rfl
      rw [step, toupper_toupper, toupper_toupper]
      by_cases same : toupper c = toupper d
      · rw [if_pos same, ih]
      · rw [if_neg same, if_neg same]

theorem compareLoop_fold (a b : Text) :
    compareLoop (fold a) (fold b) = result (foldOrder a b) := by
  rw [compareLoop_eq_then, caseOrder_fold, foldOrder, fold_fold, fold_fold]
  rfl

/-! ### Numbers -/

theorem isdigit_toupper (c : UInt8) : isdigit (toupper c) = isdigit c := by
  cases lower : islower c
  · rw [toupper_other lower]
  · have shift := toupper_lower lower
    have bounds := islower_iff.mp lower
    have no : isdigit c = false := by
      rw [Bool.eq_false_iff]
      intro digit
      have := isdigit_iff.mp digit
      omega
    rw [no, Bool.eq_false_iff]
    intro digit
    have := isdigit_iff.mp digit
    omega

theorem toupper_digit {c : UInt8} (digit : isdigit c = true) : toupper c = c := by
  apply toupper_other
  rw [Bool.eq_false_iff]
  intro lower
  have low := islower_iff.mp lower
  have high := isdigit_iff.mp digit
  omega

theorem shared_append {p q : Text} (same : fold p = fold q) (s t : Text) :
    shared (p ++ s) (q ++ t) = p.length + shared s t := by
  induction p generalizing q with
  | nil =>
    have empty : q = [] := List.map_eq_nil_iff.mp same.symm
    rw [empty, List.nil_append, List.nil_append, List.length_nil, Nat.zero_add]
  | cons c p ih =>
    cases q with
    | nil => cases same
    | cons d q =>
      obtain ⟨first, rest⟩ := List.cons.inj same
      rw [List.cons_append, List.cons_append, shared, if_pos first, ih rest, List.length_cons]
      omega

/-- A digit and what is no digit differ also without case. -/
theorem shared_of_ends {x : Text} (ends : Ends x) {d : UInt8} (digit : isdigit d = true)
    (t : Text) : shared x (d :: t) = 0 ∧ shared (d :: t) x = 0 := by
  cases x with
  | nil => exact ⟨rfl, rfl⟩
  | cons c x =>
    have apart : toupper c ≠ toupper d := by
      intro same
      have both : isdigit c = isdigit d := by
        rw [← isdigit_toupper c, same, isdigit_toupper]
      rw [ends c rfl, digit] at both
      exact absurd both (by decide)
    exact ⟨if_neg apart, if_neg (Ne.symm apart)⟩

/-- Different runs of digits differ before the end of one of them. -/
theorem shared_runs {u v x y : Text} (apart : u ≠ v) (digits_u : ∀ c ∈ u, isdigit c = true)
    (digits_v : ∀ c ∈ v, isdigit c = true) (ends_x : Ends x) (ends_y : Ends y) :
    shared (u ++ x) (v ++ y) ≤ u.length ∧ shared (u ++ x) (v ++ y) ≤ v.length := by
  induction u generalizing v with
  | nil =>
    cases v with
    | nil => exact absurd rfl apart
    | cons d v =>
      have none := (shared_of_ends ends_x (digits_v d List.mem_cons_self) (v ++ y)).1
      rw [List.nil_append, List.cons_append, none]
      exact ⟨Nat.zero_le _, Nat.zero_le _⟩
  | cons c u ih =>
    have digit := digits_u c List.mem_cons_self
    cases v with
    | nil =>
      have none := (shared_of_ends ends_y digit (u ++ x)).2
      rw [List.nil_append, List.cons_append, none]
      exact ⟨Nat.zero_le _, Nat.zero_le _⟩
    | cons d v =>
      have digit' := digits_v d List.mem_cons_self
      rw [List.cons_append, List.cons_append, shared, toupper_digit digit,
        toupper_digit digit']
      by_cases same : c = d
      · have rest : u ≠ v := by
          intro equal
          exact apart (by rw [same, equal])
        have bounds := ih rest (fun c mem => digits_u c (List.mem_cons_of_mem _ mem))
          (fun c mem => digits_v c (List.mem_cons_of_mem _ mem))
        rw [if_pos same, List.length_cons, List.length_cons]
        omega
      · rw [if_neg same]
        exact ⟨Nat.zero_le _, Nat.zero_le _⟩

theorem rtakeWhile_append {front digits : Text} (front_ends : ∀ c ∈ front.getLast?, isdigit c = false)
    (all : ∀ c ∈ digits, isdigit c = true) :
    (front ++ digits).rtakeWhile isdigit = digits := by
  have head : ∀ c ∈ front.reverse.head?, isdigit c = false := by
    rw [List.head?_reverse]
    exact front_ends
  have stops : front.reverse.takeWhile isdigit = [] := by
    cases reversed : front.reverse with
    | nil => rfl
    | cons c s =>
      rw [reversed] at head
      rw [List.takeWhile_cons, head c rfl]
      rfl
  rw [List.rtakeWhile, List.reverse_append, List.takeWhile_append_of_pos, stops, List.append_nil,
    List.reverse_reverse]
  intro c mem
  exact all c (List.mem_reverse.mp mem)

theorem takeWhile_of_ends {behind : Text} (ends : Ends behind) :
    behind.takeWhile isdigit = [] := by
  cases behind with
  | nil => rfl
  | cons c s =>
    rw [List.takeWhile_cons, ends c rfl]
    rfl

/-- A run is found around each of its places. -/
theorem runAt_of_isRun {front digits behind : Text} (run : IsRun front digits behind) {m : Nat}
    (inside : m ≤ digits.length) :
    runAt (front ++ (digits ++ behind)) (front.length + m) = digits := by
  have taken : (front ++ (digits ++ behind)).take (front.length + m) = front ++ digits.take m := by
    rw [List.take_length_add_append, List.take_append_of_le_length inside]
  have dropped : (front ++ (digits ++ behind)).drop (front.length + m) =
      digits.drop m ++ behind := by
    rw [List.drop_length_add_append, List.drop_append_of_le_length inside]
  have all : ∀ c ∈ digits.take m, isdigit c = true := by
    intro c mem
    exact run.all c (List.mem_of_mem_take mem)
  have first := rtakeWhile_append run.front all
  have second : (digits.drop m ++ behind).takeWhile isdigit = digits.drop m := by
    rw [List.takeWhile_append_of_pos fun c mem => run.all c (List.mem_of_mem_drop mem),
      takeWhile_of_ends run.behind, List.append_nil]
  rw [runAt, taken, dropped, first, second, List.take_append_drop]

theorem fold_take_shared (a b : Text) :
    fold (a.take (shared a b)) = fold (b.take (shared a b)) := by
  induction a generalizing b with
  | nil => cases b <;> rfl
  | cons c a ih =>
    cases b with
    | nil => rfl
    | cons d b =>
      rw [shared]
      by_cases same : toupper c = toupper d
      · rw [if_pos same, List.take_succ_cons, List.take_succ_cons]
        exact congrArg₂ List.cons same (ih b)
      · rw [if_neg same, List.take_zero, List.take_zero]

theorem ends_dropWhile (s : Text) : Ends (s.dropWhile isdigit) := by
  induction s with
  | nil =>
    intro c mem
    cases mem
  | cons c s ih =>
    rw [List.dropWhile_cons]
    cases digit : isdigit c
    · intro d mem
      cases mem
      exact digit
    · exact ih

theorem fold_rdropWhile (s : Text) :
    fold (s.rdropWhile isdigit) = (fold s).rdropWhile isdigit := by
  have same : isdigit ∘ toupper = isdigit := funext isdigit_toupper
  rw [fold, fold, List.rdropWhile, List.rdropWhile, List.map_reverse, ← List.map_reverse (l := s),
    List.dropWhile_map, same]

/-- Digits at the end are the same without case. -/
theorem fold_rtakeWhile (s : Text) : (fold s).rtakeWhile isdigit = s.rtakeWhile isdigit := by
  have same : isdigit ∘ toupper = isdigit := funext isdigit_toupper
  rw [fold, List.rtakeWhile, List.rtakeWhile, ← List.map_reverse, List.takeWhile_map, same]
  congr 1
  have fixed : ∀ c ∈ s.reverse.takeWhile isdigit, toupper c = id c := by
    intro c mem
    exact toupper_digit (List.mem_takeWhile_imp mem)
  rw [List.map_congr_left fixed, List.map_id]

/-- The digits around a place are a run, if there are any. -/
theorem isRun_runAt {s : Text} {n : Nat} (some_digit : runAt s n ≠ []) :
    s = (s.take n).rdropWhile isdigit ++ (runAt s n ++ (s.drop n).dropWhile isdigit) ∧
      IsRun ((s.take n).rdropWhile isdigit) (runAt s n) ((s.drop n).dropWhile isdigit) := by
  constructor
  · rw [runAt, List.append_assoc, List.takeWhile_append_dropWhile, ← List.append_assoc,
      List.rdropWhile_append_rtakeWhile, List.take_append_drop]
  · refine ⟨some_digit, ?_, ?_, ends_dropWhile _⟩
    · intro c mem
      rcases List.mem_append.mp mem with before | behind
      · exact List.mem_rtakeWhile_imp before
      · exact List.mem_takeWhile_imp behind
    · rw [List.rdropWhile, List.getLast?_reverse]
      exact ends_dropWhile (s.take n).reverse

/-- The number part of the comment, by the numbers at the first difference. -/
theorem numbers_iff {a b : Text} {o : Int} :
    (∀ p q u v x y, a = p ++ (u ++ x) → b = q ++ (v ++ y) → fold p = fold q → IsRun p u x →
      IsRun q v y → number u ≠ number v → o = result (compare (number u) (number v))) ↔
    (numberOrder a b ≠ .eq → o = result (numberOrder a b)) := by
  constructor
  · intro numbers apart
    unfold numberOrder at apart ⊢
    dsimp only at apart ⊢
    by_cases missing : runAt a (shared a b) = [] ∨ runAt b (shared a b) = []
    · rw [if_pos missing] at apart
      exact absurd rfl apart
    rw [if_neg missing] at apart ⊢
    obtain ⟨some_u, some_v⟩ := not_or.mp missing
    obtain ⟨left, run⟩ := isRun_runAt some_u
    obtain ⟨right, run'⟩ := isRun_runAt some_v
    apply numbers _ _ _ _ _ _ left right _ run run'
    · intro same
      exact apart (Nat.compare_eq_eq.mpr same)
    · rw [fold_rdropWhile, fold_rdropWhile, fold_take_shared]
  · rintro at_first p q u v x y rfl rfl same run run' apart
    have runs : u ≠ v := by
      rintro rfl
      exact apart rfl
    have lengths : p.length = q.length := by
      have := congrArg List.length same
      rwa [fold, fold, List.length_map, List.length_map] at this
    have place := shared_append same (u ++ x) (v ++ y)
    obtain ⟨in_u, in_v⟩ := shared_runs runs run.all run'.all run.behind run'.behind
    have found := runAt_of_isRun run in_u
    have found' := runAt_of_isRun run' in_v
    rw [← lengths] at found'
    have here : numberOrder (p ++ (u ++ x)) (q ++ (v ++ y)) = compare (number u) (number v) := by
      unfold numberOrder
      dsimp only
      rw [place, found, found', if_neg (not_or.mpr ⟨run.some_digit, run'.some_digit⟩)]
    rw [here] at at_first
    apply at_first
    intro equal
    exact apart (Nat.compare_eq_eq.mp equal)

/-- Strings that are equal without case have the same numbers. -/
theorem numberOrder_of_fold {a b : Text} (same : fold a = fold b) : numberOrder a b = .eq := by
  have whole : ∀ {a b : Text}, fold a = fold b → shared a b = a.length ∧ a.length = b.length := by
    intro a b same
    have at_end := shared_append same [] []
    rw [List.append_nil, List.append_nil] at at_end
    have lengths := congrArg List.length same
    rw [fold, fold, List.length_map, List.length_map] at lengths
    exact ⟨at_end, lengths⟩
  obtain ⟨at_end, lengths⟩ := whole same
  have equal : runAt a (shared a b) = runAt b (shared a b) := by
    rw [at_end, runAt, runAt, List.drop_length, List.take_length, lengths, List.drop_length,
      List.take_length, ← fold_rtakeWhile a, ← fold_rtakeWhile b, same]
  unfold numberOrder
  dsimp only
  rw [equal]
  split
  · rfl
  · exact Nat.compare_eq_eq.mpr rfl

/-- In a tie the upper case letter comes first, wherever the first difference is. -/
theorem ties_of_fold {p x y : Text} {c d : UInt8} (upper : isupper c = true)
    (lower : islower d = true) (same : fold (p ++ c :: x) = fold (p ++ d :: y)) :
    compareLoop (p ++ c :: x) (p ++ d :: y) = -1 := by
  induction p with
  | nil =>
    have letter : toupper c = toupper d := (List.cons.inj same).1
    have apart : c ≠ d := by
      rintro rfl
      rw [isupper_not_lower upper] at lower
      exact absurd lower (by decide)
    have stay : ¬ toupper c < toupper d := by rw [letter]; exact UInt8.lt_irrefl _
    have stay' : ¬ toupper d < toupper c := by rw [letter]; exact UInt8.lt_irrefl _
    rw [List.nil_append, List.nil_append, compareLoop, if_neg apart, if_neg stay, if_neg stay',
      upper, lower]
    rfl
  | cons e p ih =>
    rw [List.cons_append, List.cons_append, compareLoop, if_pos rfl]
    exact ih (List.cons.inj same).2

/-- For each pair of strings the order is that of the comment if and only if the first difference
without case agrees with what is to be compared there. -/
theorem index_order_iff (s t : Text) :
    CardCatalog s t ↔ FirstDifferenceAgrees (skipTilde s) (skipTilde t) := by
  constructor
  · intro catalog
    by_cases same : foldOrder (skipTilde s) (skipTilde t) = .eq
    · exact .inl same
    have apart : fold (skipTilde s) ≠ fold (skipTilde t) := fun h => same (foldOrder_eq_eq.mpr h)
    have case_ignored := catalog.case_ignored apart
    rw [compareLoop_fold] at case_ignored
    refine .inr ⟨?_, ?_⟩
    · rw [order, compareLoop_eq_then, result_inj] at case_ignored
      cases first : caseOrder (skipTilde s) (skipTilde t) with
      | eq => exact .inl rfl
      | lt => rw [first] at case_ignored; exact .inr case_ignored
      | gt => rw [first] at case_ignored; exact .inr case_ignored
    · by_cases none_there : numberOrder (skipTilde s) (skipTilde t) = .eq
      · exact .inl none_there
      have at_first := numbers_iff.mp catalog.numbers none_there
      rw [case_ignored, result_inj] at at_first
      exact .inr at_first.symm
  · intro agrees
    refine ⟨order_swap s t, compareLoop_eq_zero, fun u => order_trans, ?_, ?_, ?_⟩
    · intro apart
      rcases agrees with same | ⟨same_case, _⟩
      · exact absurd (foldOrder_eq_eq.mp same) apart
      rw [order, compareLoop_eq_then, compareLoop_fold]
      rcases same_case with none_first | first
      · rw [none_first]
        rfl
      · rw [first]
        cases foldOrder (skipTilde s) (skipTilde t) <;> rfl
    · intro p c d x y same left right upper lower
      rw [left, right] at same
      rw [order, left, right]
      exact ties_of_fold upper lower same
    · apply numbers_iff.mpr
      intro differ
      rcases agrees with same | ⟨same_case, same_number⟩
      · exact absurd (numberOrder_of_fold (foldOrder_eq_eq.mp same)) differ
      have number_first := same_number.resolve_left differ
      rw [order, compareLoop_eq_then, number_first]
      rcases same_case with none_first | first
      · rw [none_first]
        rfl
      · rw [first]
        cases foldOrder (skipTilde s) (skipTilde t) <;> rfl

/-- `x10y` is put before `x9y`, and `Ab` before `aa`. -/
theorem tens_before_nines :
    sn_compare (ascii "sn_compare") [ascii "x10y", ascii "x9y"] = .ok (-1) ∧
      ¬ CardCatalog (ascii "x10y") (ascii "x9y") ∧
        sn_compare (ascii "sn_compare") [ascii "Ab", ascii "aa"] = .ok (-1) ∧
          ¬ CardCatalog (ascii "Ab") (ascii "aa") := by
  refine ⟨rfl, ?_, rfl, ?_⟩
  · intro catalog
    have run : ∀ ds : Text, ds ≠ [] → (∀ c ∈ ds, isdigit c = true) →
        IsRun (ascii "x") ds (ascii "y") := by
      intro ds some_digit all
      refine ⟨some_digit, all, ?_, ?_⟩
      · intro c mem
        cases mem
        rfl
      · intro c mem
        cases mem
        rfl
    have all : ∀ c ∈ ascii "10", isdigit c = true := List.all_eq_true.mp (by rfl)
    have all' : ∀ c ∈ ascii "9", isdigit c = true := List.all_eq_true.mp (by rfl)
    have bad := catalog.numbers (ascii "x") (ascii "x") (ascii "10") (ascii "9") (ascii "y")
      (ascii "y") rfl rfl rfl (run _ (by decide) all) (run _ (by decide) all') (by decide)
    exact absurd bad (by decide)
  · intro catalog
    have bad := catalog.case_ignored (by decide)
    exact absurd bad (by decide)

end SourceNavigator.Hyper.IndexOrder

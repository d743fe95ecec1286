import SourceNavigator.Lib.MergedOrder
import SourceNavigator.Text

/-!
The comparison of database keys (`db/dbutils.c`).

* `db_case_compare_exact` says that without `db_compare_nocase` the keys are in
  lexicographic order of their bytes.
* `db_case_compare_nocase` says that with it keys of one size that differ only in
  case are equal, and other keys stand in the same order as before.
-/

namespace SourceNavigator.Db

open Lib

/-- A key (`DBT`). Its size is converted to `int`. -/
structure Key where
  data : Text
  fits : data.length < 2147483648
  deriving DecidableEq

def Key.size (a : Key) : Nat := a.data.length

/-- `memcmp` on the first `n` bytes. -/
def memcmp : Text → Text → Nat → Int
  | c :: a, d :: b, n + 1 => if c = d then memcmp a b n else (c.toNat : Int) - d.toNat
  | _, _, _ => 0

/-- `tolower` in the C locale. -/
def tolower (c : UInt8) : UInt8 := if 65 ≤ c && c ≤ 90 then c + 32 else c

/-- `strncasecmp` on the first `n` bytes, which stops behind a NUL. -/
def strncasecmp : Text → Text → Nat → Int
  | c :: a, d :: b, n + 1 =>
    if tolower c = tolower d then if c = 0 then 0 else strncasecmp a b n
    else ((tolower c).toNat : Int) - (tolower d).toNat
  | _, _, _ => 0

def db_case_compare (db_compare_nocase : Bool) (a b : Key) : Int :=
  let size := if a.size < b.size then a.size else b.size
  if db_compare_nocase && a.size == b.size && strncasecmp a.data b.data size == 0 then
    (a.size : Int) - b.size
  else
    let cmp := memcmp a.data b.data size
    if cmp ≠ 0 then cmp else (a.size : Int) - b.size

/-! ### The order of bytes -/

/-- The sign of a result. -/
def sign (n : Int) : Ordering := compare n 0

/-- The lexicographic order of the bytes of keys. -/
def bytewise (a b : Key) : Ordering := compare a.data b.data

/-- Keys that the comparison without case finds equal. -/
def sameFold (a b : Key) : Bool :=
  a.size == b.size && strncasecmp a.data b.data a.size == 0

theorem sign_eq_eq {n : Int} : sign n = .eq ↔ n = 0 := Int.compare_eq_eq

theorem sign_isLE {n : Int} : (sign n).isLE ↔ n ≤ 0 := Int.isLE_compare

theorem compare_toNat {c d : UInt8} : sign ((c.toNat : Int) - d.toNat) = compare c d := by
  have order : compare c d = compareOfLessAndEq c d := rfl
  rw [order, compareOfLessAndEq]
  split
  case isTrue less =>
    rw [UInt8.lt_iff_toNat_lt] at less
    exact Int.compare_eq_lt.mpr (by omega)
  case isFalse le =>
    split
    case isTrue same =>
      rw [same]
      exact Int.compare_eq_eq.mpr (by omega)
    case isFalse other =>
      rw [UInt8.lt_iff_toNat_lt] at le
      have ne : c.toNat ≠ d.toNat := fun h => other (UInt8.toNat_inj.mp h)
      exact Int.compare_eq_gt.mpr (by omega)

/-- The bytes that both keys have are compared first, and then the sizes. -/
theorem sign_memcmp {a b : Text} :
    sign (if memcmp a b (min a.length b.length) ≠ 0 then memcmp a b (min a.length b.length)
      else (a.length : Int) - b.length) = compare a b := by
  induction a generalizing b with
  | nil =>
    cases b with
    | nil => rfl
    | cons d b =>
      have longer : (([] : Text).length : Int) - (d :: b).length < 0 := by
        rw [List.length_cons, List.length_nil]
        omega
      rw [List.compare_nil_cons]
      exact Int.compare_eq_lt.mpr longer
  | cons c a ih =>
    cases b with
    | nil =>
      have longer : 0 < ((c :: a).length : Int) - ([] : Text).length := by
        rw [List.length_cons, List.length_nil]
        omega
      rw [List.compare_cons_nil]
      exact Int.compare_eq_gt.mpr longer
    | cons d b =>
      have least : min (c :: a).length (d :: b).length = min a.length b.length + 1 :=
        Nat.succ_min_succ a.length b.length
      have length : ((c :: a).length : Int) - (d :: b).length = a.length - b.length := by
        rw [List.length_cons, List.length_cons]
        omega
      rw [least, length, List.compare_cons_cons, memcmp]
      by_cases same : c = d
      · subst same
        have itself : compare c c = .eq := Std.ReflCmp.compare_self
        rw [if_pos rfl, ih, itself]
        rfl
      · have ne : c.toNat ≠ d.toNat := fun h => same (UInt8.toNat_inj.mp h)
        have apart : compare c d ≠ .eq := fun h => same (Std.LawfulEqCmp.eq_of_compare h)
        rw [if_neg same, if_pos (by omega), compare_toNat]
        cases order : compare c d with
        | lt => rfl
        | eq => exact absurd order apart
        | gt => rfl

/-! ### Keys that differ in case only -/

/-- A key up to its first NUL, without case. -/
def folded : Text → Text
  | [] => []
  | c :: s => if c = 0 then [0] else tolower c :: folded s

theorem tolower_eq_zero {c : UInt8} : tolower c = 0 ↔ c = 0 := by
  unfold tolower
  split
  case isTrue upper =>
    rw [Bool.and_eq_true, decide_eq_true_iff, decide_eq_true_iff, UInt8.le_iff_toNat_le,
      UInt8.le_iff_toNat_le] at upper
    have low : (65 : UInt8).toNat = 65 := rfl
    have high : (90 : UInt8).toNat = 90 := rfl
    have add : (c + 32).toNat = c.toNat + 32 := by
      rw [UInt8.toNat_add]
      have value : (32 : UInt8).toNat = 32 := rfl
      omega
    have zero : (0 : UInt8).toNat = 0 := rfl
    rw [← UInt8.toNat_inj, ← UInt8.toNat_inj, add]
    omega
  case isFalse => exact Iff.rfl

theorem strncasecmp_eq_zero {a b : Text} (size : a.length = b.length) :
    strncasecmp a b a.length = 0 ↔ folded a = folded b := by
  induction a generalizing b with
  | nil =>
    obtain rfl := List.length_eq_zero_iff.mp size.symm
    exact ⟨fun _ => rfl, fun _ => rfl⟩
  | cons c a ih =>
    cases b with
    | nil => cases size
    | cons d b =>
      have rest := ih (Nat.succ.inj size)
      rw [List.length_cons, strncasecmp, folded, folded]
      by_cases same : tolower c = tolower d
      · rw [if_pos same]
        have zero : c = 0 ↔ d = 0 := by rw [← tolower_eq_zero, same, tolower_eq_zero]
        by_cases nul : c = 0
        · rw [if_pos nul, if_pos nul, if_pos (zero.mp nul)]
          exact ⟨fun _ => rfl, fun _ => rfl⟩
        · rw [if_neg nul, if_neg nul, if_neg fun h => nul (zero.mpr h), rest, same]
          exact ⟨fun h => by rw [h], fun h => (List.cons.inj h).2⟩
      · rw [if_neg same]
        have ne : (tolower c).toNat ≠ (tolower d).toNat := fun h => same (UInt8.toNat_inj.mp h)
        constructor
        · intro h
          omega
        · intro h
          refine absurd ?_ same
          split at h
          case isTrue nul =>
            split at h
            case isTrue nul' => rw [nul, nul']
            case isFalse nul' => exact absurd (tolower_eq_zero.mp (List.cons.inj h).1.symm) nul'
          case isFalse nul =>
            split at h
            case isTrue nul' => exact absurd (tolower_eq_zero.mp (List.cons.inj h).1) nul
            case isFalse nul' => exact (List.cons.inj h).1

theorem sameFold_iff {a b : Key} :
    sameFold a b ↔ a.size = b.size ∧ folded a.data = folded b.data := by
  unfold sameFold
  rw [Bool.and_eq_true, beq_iff_eq, beq_iff_eq]
  constructor
  · rintro ⟨size, same⟩
    exact ⟨size, (strncasecmp_eq_zero size).mp same⟩
  · rintro ⟨size, same⟩
    exact ⟨size, (strncasecmp_eq_zero size).mpr same⟩

theorem sameFold_equivalence : Equivalence fun a b => sameFold a b = true where
  refl a := sameFold_iff.mpr ⟨rfl, rfl⟩
  symm h := by
    obtain ⟨size, same⟩ := sameFold_iff.mp h
    exact sameFold_iff.mpr ⟨size.symm, same.symm⟩
  trans h h' := by
    obtain ⟨size, same⟩ := sameFold_iff.mp h
    obtain ⟨size', same'⟩ := sameFold_iff.mp h'
    exact sameFold_iff.mpr ⟨size.trans size', same.trans same'⟩

/-! ### The comparison -/

instance : Std.TransCmp bytewise where
  eq_swap {a b} := by
    change compare a.data b.data = (compare b.data a.data).swap
    exact Std.OrientedCmp.eq_swap
  isLE_trans {a b c} := by
    change (compare a.data b.data).isLE → (compare b.data c.data).isLE → (compare a.data c.data).isLE
    exact Std.TransCmp.isLE_trans

instance : Std.LawfulEqCmp bytewise where
  compare_self := Std.ReflCmp.compare_self
  eq_of_compare {a b} same := by
    cases a
    cases b
    congr
    exact Std.LawfulEqCmp.eq_of_compare same

theorem least_size (a b : Key) :
    (if a.size < b.size then a.size else b.size) = min a.data.length b.data.length := by
  unfold Key.size
  split <;> omega

theorem db_case_compare_exact (a b : Key) : sign (db_case_compare false a b) = bytewise a b := by
  unfold db_case_compare
  rw [least_size]
  exact sign_memcmp

theorem db_case_compare_nocase (a b : Key) :
    sign (db_case_compare true a b) = merged sameFold bytewise a b := by
  by_cases same : sameFold a b
  · have size := (sameFold_iff.mp same).1
    have fold := same
    rw [sameFold, Bool.and_eq_true, beq_iff_eq, beq_iff_eq] at fold
    have least : (if a.size < b.size then a.size else b.size) = a.size := by
      rw [size, if_neg (Nat.lt_irrefl _)]
    have taken : (true && a.size == b.size && strncasecmp a.data b.data a.size == 0) = true := by
      rw [fold.2, size, beq_self_eq_true]
      rfl
    unfold db_case_compare
    rw [merged_same same, least, if_pos taken, size, Int.sub_self]
    rfl
  · have other : ¬ (true && a.size == b.size &&
        strncasecmp a.data b.data (if a.size < b.size then a.size else b.size) == 0) = true := by
      intro taken
      rw [Bool.true_and, Bool.and_eq_true, beq_iff_eq, beq_iff_eq] at taken
      obtain ⟨size, fold⟩ := taken
      rw [size, if_neg (Nat.lt_irrefl _)] at fold
      apply same
      rw [sameFold, size, fold, beq_self_eq_true]
      rfl
    unfold db_case_compare
    rw [merged_other same, if_neg other, least_size]
    exact sign_memcmp

/-- What a btree relies on for the comparison of the keys it holds. -/
structure Preorder (db_compare_nocase : Bool) (S : Set Key) : Prop where
  opposite : ∀ a ∈ S, ∀ b ∈ S,
    sign (db_case_compare db_compare_nocase a b) =
      (sign (db_case_compare db_compare_nocase b a)).swap
  trans : ∀ a ∈ S, ∀ b ∈ S, ∀ c ∈ S, db_case_compare db_compare_nocase a b ≤ 0 →
    db_case_compare db_compare_nocase b c ≤ 0 → db_case_compare db_compare_nocase a c ≤ 0
  exact : db_compare_nocase = false → ∀ a ∈ S, ∀ b ∈ S,
    db_case_compare db_compare_nocase a b = 0 → a = b

theorem preorder_exact (S : Set Key) : Preorder false S where
  opposite a _ b _ := by
    rw [db_case_compare_exact, db_case_compare_exact]
    exact Std.OrientedCmp.eq_swap
  trans a _ b _ c _ := by
    rw [← sign_isLE, ← sign_isLE, ← sign_isLE, db_case_compare_exact, db_case_compare_exact,
      db_case_compare_exact]
    exact Std.TransCmp.isLE_trans
  exact _ a _ b _ := by
    rw [← sign_eq_eq, db_case_compare_exact]
    exact Std.LawfulEqCmp.eq_of_compare

theorem preorder_nocase_iff {S : Set Key} :
    Preorder true S ↔ TransOn S (merged sameFold bytewise) := by
  constructor
  · intro preorder a mem_a b mem_b c mem_c
    rw [← db_case_compare_nocase, ← db_case_compare_nocase, ← db_case_compare_nocase, sign_isLE,
      sign_isLE, sign_isLE]
    exact preorder.trans a mem_a b mem_b c mem_c
  · intro trans
    refine ⟨fun a _ b _ => ?_, fun a mem_a b mem_b c mem_c => ?_, fun nocase => ?_⟩
    · rw [db_case_compare_nocase, db_case_compare_nocase]
      exact merged_swap sameFold_equivalence
    · rw [← sign_isLE, ← sign_isLE, ← sign_isLE, db_case_compare_nocase, db_case_compare_nocase,
        db_case_compare_nocase]
      exact trans a mem_a b mem_b c mem_c
    · cases nocase

/-- The comparison is an order on a set of keys exactly if, with `db_compare_nocase`, no other key
of the set stands between two that differ only in case. -/
theorem db_case_compare_preorder (db_compare_nocase : Bool) (S : Set Key) :
    Preorder db_compare_nocase S ↔
      (db_compare_nocase = true → ¬ Straddled S sameFold bytewise) := by
  cases db_compare_nocase with
  | false =>
    constructor
    · intro _ nocase
      cases nocase
    · intro _
      exact preorder_exact S
  | true =>
    rw [preorder_nocase_iff, transOn_merged_iff sameFold_equivalence]
    exact ⟨fun none _ => none, fun none => none rfl⟩

/-- The key of a string, with its NUL. -/
def wordKey (c : UInt8) : Key := ⟨[c, 0], Nat.lt_of_lt_of_le (Nat.lt_succ_self 2) (by decide)⟩

/-- `a` and `A` are equal and `B` comes after `A`, but not after `a`. -/
theorem db_case_compare_not_trans :
    ¬ ∀ (db_compare_nocase : Bool) (a b c : Key),
      db_case_compare db_compare_nocase a b ≤ 0 → db_case_compare db_compare_nocase b c ≤ 0 →
        db_case_compare db_compare_nocase a c ≤ 0 := by
  intro trans
  exact absurd (trans true (wordKey 97) (wordKey 65) (wordKey 66) (by decide) (by decide))
    (by decide)

end SourceNavigator.Db

import SourceNavigator.Lib.Fuel
import SourceNavigator.Parsers.SearchTable
import Mathlib.NumberTheory.Bertrand

/-!
The size of a hash table (`isprime` and `HashTableCreate`).

* `isprime_spec` says which odd numbers `isprime` accepts: `1` and the primes
  but `3`.
* `nextPrime_returns` says that the search for a size ends. Bertrand's postulate
  gives the size that it does not go past.
* `HashTableCreate_returns` is the created table: empty, of a size that is odd
  and not below the first size tried.
-/

namespace SourceNavigator.Parsers

open Lib.Fuel

/-! ### The test for primes -/

/-- What holds of the divisor each time round the loop of `isprime`: it is odd,
no smaller odd divisor from `3` on divides, and the one before it was below the
square root. -/
structure TrialDivisor (number div : Nat) : Prop where
  odd : div % 2 = 1
  least : 3 ≤ div
  tried : ∀ d, 3 ≤ d → d < div → d % 2 = 1 → ¬ d ∣ number
  below : div = 3 ∨ (div - 2) * (div - 2) < number

theorem TrialDivisor.init (number : Nat) : TrialDivisor number 3 :=
  ⟨rfl, le_rfl, fun d _ _ _ => by omega, .inl rfl⟩

/-- The squares that the loop compares with the number do not overflow. -/
theorem TrialDivisor.square_lt {number div : Nat} (bound : number < 1073741824)
    (h : TrialDivisor number div) : div * div < 4294967296 := by
  have small : div < 32772 := by
    rcases h.below with rfl | below
    · omega
    · by_contra large
      have : 32770 * 32770 ≤ (div - 2) * (div - 2) := Nat.mul_le_mul (by omega) (by omega)
      omega
  nlinarith

theorem TrialDivisor.next {number div : Nat} (h : TrialDivisor number div)
    (square : div * div < number) (remainder : number % div ≠ 0) :
    TrialDivisor number (div + 2) := by
  refine ⟨by have := h.odd; omega, by have := h.least; omega, ?_, .inr (by simpa using square)⟩
  intro d three below odd divides
  rcases Nat.lt_or_ge d div with less | more
  · exact h.tried d three less odd divides
  · have same : d = div := by
      have := h.odd
      omega
    exact remainder (Nat.mod_eq_zero_of_dvd (same ▸ divides))

/-- A divisor past `3` is not far up. -/
theorem TrialDivisor.three_mul_lt {number div : Nat} (h : TrialDivisor number div)
    (past : div ≠ 3) : 3 * (div - 2) < number := by
  have below := h.below.resolve_left past
  have three : 3 ≤ div - 2 := by
    have := h.odd
    have := h.least
    omega
  have : 3 * (div - 2) ≤ (div - 2) * (div - 2) := Nat.mul_le_mul_right _ three
  omega

/-- The loop of `isprime` ends, at the square root or at a divisor. -/
theorem isprimeLoop_spec {number fuel div : Nat} (bound : number < 1073741824)
    (h : TrialDivisor number div) (some_fuel : 0 < fuel) (enough : number ≤ fuel + div) :
    ∃ e, isprimeLoop number fuel div = some e ∧ TrialDivisor number e ∧
      (number ≤ e * e ∨ e ∣ number) := by
  induction fuel generalizing div with
  | zero => omega
  | succ fuel ih =>
    have least := h.least
    rw [isprimeLoop, unsigned_of_lt (h.square_lt bound)]
    split
    case isTrue go =>
      have more : div + div ≤ div * div := by nlinarith
      have square := h.square_lt bound
      rw [unsigned_of_lt (by omega)]
      exact ih (h.next go.1 go.2) (by omega) (by omega)
    case isFalse done =>
      refine ⟨div, rfl, h, ?_⟩
      by_cases root : div * div < number
      · exact .inr (Nat.dvd_of_mod_eq_zero (by simpa [root] using done))
      · exact .inl (by omega)

/-- An odd number without an odd divisor up to its square root is `1` or a prime. -/
theorem TrialDivisor.prime {number div : Nat} (h : TrialDivisor number div)
    (odd : number % 2 = 1) (root : number ≤ div * div) (remainder : ¬ div ∣ number)
    (more : number ≠ 1) : number.Prime := by
  have factor_odd : number.minFac % 2 = 1 := by
    rcases Nat.mod_two_eq_zero_or_one number.minFac with even | odd'
    · have : 2 ∣ number := (Nat.dvd_of_mod_eq_zero even).trans number.minFac_dvd
      omega
    · exact odd'
  have factor_prime := Nat.minFac_prime more
  by_contra composite
  have square : number.minFac ^ 2 ≤ number := Nat.minFac_sq_le_self (by omega) composite
  have at_most : number.minFac ≤ div := by nlinarith
  have three : 3 ≤ number.minFac := by
    have := factor_prime.two_le
    omega
  rcases Nat.lt_or_eq_of_le at_most with below | same
  · exact h.tried _ three below factor_odd number.minFac_dvd
  · exact remainder (same ▸ number.minFac_dvd)

/-- Among the odd numbers `isprime` accepts `1` and the primes but `3`. -/
theorem isprime_spec {number fuel : Nat} (bound : number < 1073741824) (odd : number % 2 = 1)
    (enough : number ≤ fuel) :
    isprime fuel number = some (decide (number = 1 ∨ number.Prime ∧ number ≠ 3)) := by
  obtain ⟨e, ends, divisor, stops⟩ :=
    isprimeLoop_spec bound (.init number) (by omega : 0 < fuel) (by omega)
  simp only [isprime, ends, Option.map_some, Option.some.injEq]
  by_cases divides : e ∣ number
  · have zero := Nat.mod_eq_zero_of_dvd divides
    have least := divisor.least
    have refused : ¬ (number = 1 ∨ number.Prime ∧ number ≠ 3) := by
      rintro (rfl | ⟨prime, other⟩)
      · have := Nat.le_of_dvd (by omega) divides
        omega
      · -- the only divisor left is the number itself, which is past its square root
        rcases (Nat.dvd_prime prime).mp divides with rfl | rfl
        · omega
        · have := divisor.three_mul_lt other
          omega
    simp [zero, refused]
  · have remainder : number % e ≠ 0 := fun zero => divides (Nat.dvd_of_mod_eq_zero zero)
    have accepted : number = 1 ∨ number.Prime ∧ number ≠ 3 := by
      by_cases one : number = 1
      · exact .inl one
      · have root := stops.resolve_right divides
        refine .inr ⟨divisor.prime odd root divides one, ?_⟩
        rintro rfl
        have past : e ≠ 3 := by
          rintro rfl
          exact divides dvd_rfl
        have := divisor.three_mul_lt past
        have := divisor.least
        omega
    simp [remainder, accepted]

/-! ### The next size -/

/-- The sizes a table can have. -/
def TableSize (hsize : Nat) : Prop :=
  hsize = 1 ∨ (hsize.Prime ∧ 5 ≤ hsize)

theorem TableSize.odd {hsize : Nat} (h : TableSize hsize) : hsize % 2 = 1 := by
  rcases h with rfl | ⟨prime, five⟩
  · rfl
  · exact prime.eq_two_or_odd.resolve_left (by omega)

/-- `isprime` accepts the table sizes among the odd numbers. -/
theorem isprime_eq_tableSize {number fuel : Nat} (bound : number < 1073741824)
    (odd : number % 2 = 1) (enough : number ≤ fuel) :
    ∃ accepted, isprime fuel number = some accepted ∧ (accepted = true ↔ TableSize number) := by
  refine ⟨_, isprime_spec bound odd enough, ?_⟩
  have iff : (number.Prime ∧ number ≠ 3) ↔ (number.Prime ∧ 5 ≤ number) := by
    refine and_congr_right fun prime => ?_
    have := prime.two_le
    omega
  rw [decide_eq_true_iff, iff, TableSize]

/-- The loop of `HashTableCreate` ends at a size, no later than at any size given. -/
theorem nextPrime_spec {nel fuel last : Nat} (odd : nel % 2 = 1) (bound : last < 1073741824)
    (size : TableSize last) (le : nel ≤ last) (enough : 2 * last < fuel + nel) :
    ∃ p, nextPrime fuel nel = some p ∧ TableSize p ∧ nel ≤ p ∧ p ≤ last := by
  induction fuel generalizing nel with
  | zero => omega
  | succ fuel ih =>
    obtain ⟨accepted, answer, iff⟩ :=
      isprime_eq_tableSize (by omega : nel < 1073741824) odd (by omega : nel ≤ fuel)
    rw [nextPrime, answer]
    cases accepted with
    | true => exact ⟨nel, rfl, iff.mp rfl, le_rfl, le⟩
    | false =>
      have different : nel ≠ last := by
        rintro rfl
        exact absurd (iff.mpr size) (by simp)
      have := size.odd
      simp only [unsigned_of_lt (by omega : nel + 2 < 4294967296)]
      obtain ⟨p, found, rest, above, within⟩ :=
        ih (by omega : (nel + 2) % 2 = 1) (by omega) (by omega)
      exact ⟨p, found, rest, by omega, within⟩

theorem isprimeLoop_succ {number div fuel e : Nat} (found : isprimeLoop number fuel div = some e) :
    isprimeLoop number (fuel + 1) div = some e := by
  induction fuel generalizing div with
  | zero => cases found
  | succ fuel ih =>
    rw [isprimeLoop] at found ⊢
    split at found
    case isTrue go => rw [if_pos go, ih found]
    case isFalse done => rw [if_neg done, found]

theorem isprime_succ {number fuel : Nat} {answer : Bool} (found : isprime fuel number = some answer) :
    isprime (fuel + 1) number = some answer := by
  obtain ⟨e, ends, rfl⟩ := Option.map_eq_some_iff.mp found
  exact Option.map_eq_some_iff.mpr ⟨e, isprimeLoop_succ ends, rfl⟩

theorem nextPrime_succ {nel fuel p : Nat} (found : nextPrime fuel nel = some p) :
    nextPrime (fuel + 1) nel = some p := by
  induction fuel generalizing nel with
  | zero => cases found
  | succ fuel ih =>
    rw [nextPrime] at found ⊢
    cases answer : isprime fuel nel with
    | none => simp [answer] at found
    | some accepted =>
      rw [isprime_succ answer]
      rw [answer] at found
      cases accepted with
      | true => exact found
      | false => exact ih found

theorem nextPrime_mono (nel : Nat) : Mono fun fuel => nextPrime fuel nel :=
  fun _ _ => nextPrime_succ

/-- From an odd number on there is a size within twice the number. -/
theorem exists_tableSize {nel : Nat} (odd : nel % 2 = 1) :
    ∃ last, TableSize last ∧ nel ≤ last ∧ last ≤ 2 * nel := by
  by_cases one : nel = 1
  · exact ⟨1, .inl rfl, by omega, by omega⟩
  · obtain ⟨last, prime, above, within⟩ :=
      Nat.exists_prime_lt_and_le_two_mul nel (by omega : nel ≠ 0)
    have := prime.eq_two_or_odd
    exact ⟨last, .inr ⟨prime, by omega⟩, by omega, within⟩

/-- The search for a size from an odd number on ends. -/
theorem nextPrime_returns {nel : Nat} (odd : nel % 2 = 1) (bound : nel < 536870912) :
    ∃ p, Returns (fun fuel => nextPrime fuel nel) p ∧ TableSize p ∧ nel ≤ p := by
  obtain ⟨last, size, le, within⟩ := exists_tableSize odd
  obtain ⟨p, found, size, above, -⟩ :=
    nextPrime_spec odd (by omega) size le (by omega : 2 * last < 2 * last + 1 + nel)
  exact ⟨p, ⟨_, found⟩, size, above⟩

/-! ### Creation -/

theorem firstSize_odd (nel : Nat) : firstSize nel % 2 = 1 := by
  rw [firstSize, Nat.mod_two_eq_one_iff_testBit_zero, Nat.testBit_or]
  simp

theorem firstSize_le (nel : Nat) : firstSize nel < 536870912 := by
  have small : unsigned (nel * 10) / 9 + 1 < 2 ^ 29 := by
    have := unsigned_lt (nel * 10)
    omega
  exact Nat.or_lt_two_pow small (by decide)

theorem le_firstSize (nel : Nat) : unsigned (nel * 10) / 9 + 1 ≤ firstSize nel :=
  Nat.left_le_or

/-- The table that creation makes when it gets the memory. -/
def emptyTable (hsize : Nat) : SearchTable where
  data := Array.replicate (hsize + 1) .zero
  hsize := hsize
  filled := 0
  cursor := 0

theorem HashTableCreate_mono (ckalloc : Ckalloc) (nel : Nat) :
    Mono fun fuel => HashTableCreate fuel ckalloc nel :=
  (nextPrime_mono _).map _

/-- Creation returns, with an empty table of a proper size or with no memory. -/
theorem HashTableCreate_returns (ckalloc : Ckalloc) (nel : Nat) :
    ∃ htable, Returns (fun fuel => HashTableCreate fuel ckalloc nel) htable := by
  obtain ⟨p, found, -⟩ := nextPrime_returns (firstSize_odd nel) (firstSize_le nel)
  exact ⟨_, returns_map.mpr ⟨p, found, rfl⟩⟩

/-- A created table is empty and of a proper size. -/
theorem HashTableCreate_eq {ckalloc : Ckalloc} {nel : Nat} {htable : SearchTable}
    (h : Returns (fun fuel => HashTableCreate fuel ckalloc nel) (some htable)) :
    ∃ hsize, htable = emptyTable hsize ∧ TableSize hsize ∧ firstSize nel ≤ hsize ∧
      (hsize + 1) * sizeof_DATA < 4294967296 := by
  obtain ⟨p, found, size, above⟩ := nextPrime_returns (firstSize_odd nel) (firstSize_le nel)
  obtain ⟨q, found', made⟩ := returns_map.mp h
  obtain rfl := (nextPrime_mono _).unique found found'
  split at made
  case isTrue granted =>
    cases made
    rw [Bool.and_eq_true] at granted
    exact ⟨p, rfl, size, above, ckalloc.counts _ granted.2⟩
  case isFalse => cases made

end SourceNavigator.Parsers

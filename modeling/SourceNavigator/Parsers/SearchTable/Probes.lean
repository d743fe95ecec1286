import SourceNavigator.Parsers.SearchTable.History

/-!
The slots that a search in a hash table tries.

* `isprime_asked`: the numbers that creation asks `isprime` about are odd and small
  enough for its arithmetic, and from `5` on it accepts the primes.
* `probes_every_slot_iff`: in a reachable table every sequence of slots goes round the
  slots `1` to `hsize`, exactly if there is more than one slot.
-/

namespace SourceNavigator.Parsers

open Lib Lib.Fuel Lib.OpenAddressing

variable {ckalloc : Ckalloc} {nel number hsize hash start : Nat} {t₀ t : SearchTable}
  {hist : List (Call × Option SearchEntry)}

/-! ### The numbers that `isprime` is asked about -/

/-- The loop of `HashTableCreate` asks `isprime` about a number. -/
inductive Asked (nel : Nat) : Nat → Prop
  | first : Asked nel (firstSize nel)
  | next {number : Nat} : Asked nel number → Returns (fun fuel => isprime fuel number) false →
      Asked nel (unsigned (number + 2))

theorem isprime_returns (bound : number < 1073741824) (odd : number % 2 = 1) :
    ∃ answer, Returns (fun fuel => isprime fuel number) answer ∧
      (answer = true ↔ TableSize number) := by
  obtain ⟨answer, given, iff⟩ := isprime_eq_tableSize bound odd le_rfl
  exact ⟨answer, ⟨_, given⟩, iff⟩

theorem isprime_mono (number : Nat) : Mono fun fuel => isprime fuel number :=
  fun _ _ => isprime_succ

/-- The numbers asked about are odd, and not past the first size at or above `firstSize`. -/
theorem Asked.bounds {last : Nat} (asked : Asked nel number) (size : TableSize last)
    (above : firstSize nel ≤ last) (bound : last < 1073741824) :
    number % 2 = 1 ∧ number ≤ last := by
  induction asked with
  | first => exact ⟨firstSize_odd nel, above⟩
  | @next number _ refused ih =>
    obtain ⟨odd, below⟩ := ih
    obtain ⟨answer, given, iff⟩ := isprime_returns (by omega) odd
    obtain rfl := (isprime_mono number).unique refused given
    have passed : number ≠ last := by
      rintro rfl
      exact absurd (iff.mpr size) (by decide)
    have := size.odd
    rw [unsigned_of_lt (by omega)]
    omega

/-- From `5` on `isprime` accepts the primes among the numbers it is asked about. -/
theorem isprime_asked (asked : Asked nel number) (five : 5 ≤ number) :
    number % 2 = 1 ∧ ∃ answer, Returns (fun fuel => isprime fuel number) answer ∧
      (answer = true ↔ number.Prime) := by
  have small := firstSize_le nel
  obtain ⟨last, size, above, within⟩ := exists_tableSize (firstSize_odd nel)
  obtain ⟨odd, below⟩ := asked.bounds size above (by omega)
  obtain ⟨answer, given, iff⟩ := isprime_returns (by omega) odd
  refine ⟨odd, answer, given, iff.trans ?_⟩
  constructor
  · rintro (rfl | size)
    · omega
    · exact size.1
  · exact fun prime => .inr ⟨prime, five⟩

/-! ### The slots -/

/-- `hval`: the hash value modulo the size, but not zero. -/
def reduced (hsize hash : Nat) : Nat := if hash % hsize = 0 then 1 else hash % hsize

/-- The next index of the `do` loop, in an `unsigned int`. -/
def nextIndex (hsize hval2 idx : Nat) : Nat :=
  if idx ≤ hval2 then unsigned (hsize + idx + 4294967296 - hval2) else idx - hval2

/-- The slots that the `do` loop goes through from an index on. -/
def slotAt (hsize hash start n : Nat) : Nat :=
  (nextIndex hsize (secondStep hsize (reduced hsize hash)))^[n] start

/-- The sequence takes every slot once and begins again. -/
def GoesRound (hsize hash start : Nat) : Prop :=
  ((List.range hsize).map (slotAt hsize hash start)).Perm (List.range' 1 hsize) ∧
    ∀ n, slotAt hsize hash start (n + hsize) = slotAt hsize hash start n

theorem nextIndex_eq_stepDown {d i : Nat} (hdp : d < hsize) (small : hsize < 4294967296) :
    nextIndex hsize d i = stepDown hsize d i := by
  have wraps (n : Nat) (below : n < 4294967296) : unsigned (n + 4294967296) = n := by
    rw [unsigned, Nat.add_mod_right, Nat.mod_eq_of_lt below]
  unfold nextIndex stepDown
  by_cases le : i ≤ d
  · rw [if_pos le, if_pos le, Nat.sub_add_comm (Nat.le_add_right_of_le hdp.le), wraps _ (by omega)]
  · rw [if_neg le, if_neg le]

theorem slotAt_eq_stepDown (five : 5 ≤ hsize) (small : hsize < 4294967296) (n : Nat) :
    slotAt hsize hash start n =
      (stepDown hsize (secondStep hsize (reduced hsize hash)))^[n] start := by
  have step := secondStep_mem five small (reduced hsize hash)
  have same : nextIndex hsize (secondStep hsize (reduced hsize hash)) =
      stepDown hsize (secondStep hsize (reduced hsize hash)) :=
    funext fun _ => nextIndex_eq_stepDown step.2 small
  rw [slotAt, same]

/-- The indices that the search for a key tries are these. -/
theorem probe_eq_slotAt (five : 5 ≤ hsize) (small : hsize < 4294967296) (key : List UInt8)
    (n : Nat) :
    probe hsize key n = slotAt hsize (hashValue key).toNat (firstIndex hsize key) n := by
  rw [slotAt_eq_stepDown five small]
  rfl

theorem goesRound (prime : hsize.Prime) (five : 5 ≤ hsize) (small : hsize < 4294967296)
    (one : 1 ≤ start) (top : start ≤ hsize) : GoesRound hsize hash start := by
  have step := secondStep_mem five small (reduced hsize hash)
  constructor
  · have same : slotAt hsize hash start = fun n =>
        (stepDown hsize (secondStep hsize (reduced hsize hash)))^[n] start :=
      funext (slotAt_eq_stepDown five small)
    rw [same]
    exact perm_stepDown prime step.1 step.2 one top
  · intro n
    rw [slotAt_eq_stepDown five small, slotAt_eq_stepDown five small]
    exact stepDown_period step.1 step.2 one top n

/-- With a single slot the second one tried is the reserved slot. -/
theorem not_goesRound_one : ¬ GoesRound 1 hash 1 := by
  rintro ⟨-, again⟩
  have second : slotAt 1 hash 1 1 = 0 := by
    simp [slotAt, reduced, nextIndex, secondStep, unsigned, Nat.mod_one]
  exact absurd (second.symm.trans (again 0)) Nat.zero_ne_one

/-- A table is created with a single slot for the requests that come to nothing in the arithmetic
of the first size. -/
theorem created_one_iff (created : Created ckalloc nel t₀) :
    t₀.hsize = 1 ↔ unsigned (nel * 10) < 9 := by
  constructor
  · intro single
    obtain ⟨hsize, rfl, -, above, -⟩ := HashTableCreate_eq created
    have := le_firstSize nel
    have : firstSize nel ≤ 1 := above.trans (le_of_eq single)
    omega
  · intro nothing
    have first : firstSize nel = 1 := by
      rw [firstSize, Nat.div_eq_of_lt nothing]
      rfl
    obtain ⟨q, found, made⟩ := returns_map.mp created
    rw [first] at found
    have accepted : Returns (fun fuel => nextPrime fuel 1) 1 := ⟨2, by decide⟩
    obtain rfl := (nextPrime_mono 1).unique found accepted
    split at made
    · cases made
      rfl
    · cases made

theorem created_one_iff_five : (emptyTable 5).hsize = 1 ↔ unsigned (4 * 10) < 9 :=
  created_one_iff created_five

/-- In a reachable table, and for every hash value and every slot to begin at, the sequence of slots
takes each slot once and then begins again, exactly if there is more than one slot. -/
theorem probes_every_slot_iff (created : Created ckalloc nel t₀) (run : Run Step t₀ hist t) :
    ((∀ request number, Asked request number → 5 ≤ number →
        number % 2 = 1 ∧ ∃ answer, Returns (fun fuel => isprime fuel number) answer ∧
          (answer = true ↔ number.Prime)) ∧
      ∀ hash start, 1 ≤ start → start ≤ t.hsize → GoesRound t.hsize hash start) ↔
    t.hsize ≠ 1 := by
  have wf := reachable_wellFormed created run
  constructor
  · rintro ⟨-, rounds⟩ single
    rw [single] at rounds
    exact not_goesRound_one (rounds 0 1 le_rfl le_rfl)
  · intro several
    obtain ⟨prime, five⟩ := wf.size.resolve_left several
    refine ⟨fun _ _ => isprime_asked, fun hash start one top => ?_⟩
    exact goesRound prime five (by have := wf.small; omega) one top

theorem probes_every_slot_five :
    ((∀ request number, Asked request number → 5 ≤ number →
        number % 2 = 1 ∧ ∃ answer, Returns (fun fuel => isprime fuel number) answer ∧
          (answer = true ↔ number.Prime)) ∧
      ∀ hash start, 1 ≤ start → start ≤ (emptyTable 5).hsize →
        GoesRound (emptyTable 5).hsize hash start) ↔
    (emptyTable 5).hsize ≠ 1 :=
  probes_every_slot_iff created_five (.nil _)

/-- A table that is asked for with no entries has the size `1`. -/
theorem single_slot_left :
    ¬ ∀ (ckalloc : Ckalloc) (nel : Nat) (t₀ t : SearchTable)
        (hist : List (Call × Option SearchEntry)),
        Created ckalloc nel t₀ → Run Step t₀ hist t →
        (∀ request number, Asked request number → 5 ≤ number →
            number % 2 = 1 ∧ ∃ answer, Returns (fun fuel => isprime fuel number) answer ∧
              (answer = true ↔ number.Prime)) ∧
          ∀ hash start, 1 ≤ start → start ≤ t.hsize → GoesRound t.hsize hash start := by
  intro claim
  have created : Created amplyGranted 0 (emptyTable 1) := ⟨10, by decide⟩
  exact not_goesRound_one ((claim amplyGranted 0 _ _ [] created (.nil _)).2 0 1 le_rfl le_rfl)

end SourceNavigator.Parsers

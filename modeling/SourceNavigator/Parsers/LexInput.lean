import Mathlib.Logic.Function.Basic
import SourceNavigator.Text

/-!
The input of the lexers (`parsers/common/lexinput.c`), without an encoding.

`translate_crlf` works in place on the buffer that `fread` has filled. The
buffer goes on behind the filled part with whatever was there, and the loop
records every place it reads.

* `read_behind` says that the function reads behind the filled part on every
  chunk that is not empty.
* `sn_encoded_input_correct` says when the whole input is translated with all
  reads inside, and `readAll_quiet` when the output is right nevertheless.
-/

namespace SourceNavigator.Parsers.LexInput

/-- The state of the copying loop, and the places that were read. -/
structure Copy where
  buffer : Nat → UInt8
  dtmp : Nat
  stmp : Nat
  removed : Nat
  reads : List Nat

/-- One pass of the loop. -/
def copyStep (c : Copy) : Copy :=
  let cr := c.buffer c.stmp = CARRIAGE_RETURN
  let crlf := cr ∧ c.buffer (c.stmp + 1) = NEWLINE
  let stmp := if crlf then c.stmp + 1 else c.stmp
  { buffer :=
      if c.dtmp ≠ stmp then Function.update c.buffer c.dtmp (c.buffer stmp) else c.buffer
    dtmp := c.dtmp + 1
    stmp := stmp + 1
    removed := if crlf then c.removed + 1 else c.removed
    reads :=
      c.reads ++ [c.stmp] ++ (if cr then [c.stmp + 1] else []) ++
        (if c.dtmp ≠ stmp then [stmp] else []) }

/-- The loop: every pass moves on by one place at least, so `size` passes are enough. -/
def copyLoop (size : Nat) : Nat → Copy → Copy
  | 0, c => c
  | fuel + 1, c => if c.stmp < size then copyLoop size fuel (copyStep c) else c

/-- What `translate_crlf` leaves: the buffer, the number of removed characters, `saved_cr` and the
places it read. -/
structure Translated where
  buffer : Nat → UInt8
  removed : Nat
  saved_cr : Bool
  reads : List Nat

def translate_crlf (saved_cr : Bool) (buffer : Nat → UInt8) (size : Nat) : Translated :=
  if size = 0 then ⟨buffer, 0, saved_cr, []⟩
  else
    -- a saved CR is looked at and forgotten, whatever follows it
    let reads := if saved_cr then [0] else []
    let c := copyLoop size size ⟨buffer, 0, 0, 0, reads⟩
    if c.buffer c.stmp = CARRIAGE_RETURN then
      ⟨c.buffer, c.removed + 1, true, c.reads ++ [c.stmp]⟩
    else ⟨c.buffer, c.removed, false, c.reads ++ [c.stmp]⟩

/-- The bytes that `fread` delivers, and what stands behind them in the buffer. -/
structure Chunk where
  data : Text
  behind : Nat → UInt8

/-- The buffer after `fread`. -/
def Chunk.buffer (k : Chunk) (i : Nat) : UInt8 :=
  if h : i < k.data.length then k.data.get ⟨i, h⟩ else k.behind (i - k.data.length)

/-- The output of a call, `saved_cr` after it, and whether all reads were inside the filled
part. -/
def sn_encoded_input (saved_cr : Bool) (k : Chunk) : Text × Bool × Bool :=
  let t := translate_crlf saved_cr k.buffer k.data.length
  ((List.range (k.data.length - t.removed)).map t.buffer, t.saved_cr,
    t.reads.all fun i => i < k.data.length)

/-- The outputs of successive calls, and whether all reads were inside. -/
def readAll (saved_cr : Bool) : List Chunk → Text × Bool
  | [] => ([], true)
  | k :: ks =>
    let call := sn_encoded_input saved_cr k
    let rest := readAll call.2.1 ks
    (call.1 ++ rest.1, call.2.2 && rest.2)

/-! ### What the input should be -/

/-- Every CR directly before LF is left out. -/
def crlf : Text → Text
  | [] => []
  | [c] => [c]
  | c :: d :: s => if c = 13 ∧ d = 10 then crlf (d :: s) else c :: crlf (d :: s)

/-- The bytes of the stream that is read in chunks. -/
def stream (ks : List Chunk) : Text := ks.flatMap Chunk.data

/-- The whole stream is translated, and no byte outside the filled part of the buffer is read. -/
def Correct (ks : List Chunk) : Prop := readAll false ks = (crlf (stream ks), true)

/-! ### The loop -/

theorem stmp_copyStep (c : Copy) : c.stmp < (copyStep c).stmp := by
  unfold copyStep
  dsimp only
  split <;> omega

theorem le_stmp_copyLoop {size fuel : Nat} {c : Copy} (enough : size ≤ c.stmp + fuel) :
    size ≤ (copyLoop size fuel c).stmp := by
  induction fuel generalizing c with
  | zero => exact enough
  | succ fuel ih =>
    rw [copyLoop]
    split
    case isTrue =>
      have moves := stmp_copyStep c
      exact ih (by omega)
    case isFalse past => exact Nat.le_of_not_lt past

/-- The function reads behind the filled part. -/
theorem read_behind (saved_cr : Bool) (buffer : Nat → UInt8) {size : Nat} (some_data : size ≠ 0) :
    ∃ i ∈ (translate_crlf saved_cr buffer size).reads, size ≤ i := by
  let c := copyLoop size size ⟨buffer, 0, 0, 0, if saved_cr then [0] else []⟩
  have past : size ≤ c.stmp := le_stmp_copyLoop (Nat.le_add_left size 0)
  have last : c.stmp ∈ c.reads ++ [c.stmp] :=
    List.mem_append_right c.reads (List.mem_singleton.mpr rfl)
  refine ⟨c.stmp, ?_, past⟩
  unfold translate_crlf
  rw [if_neg some_data]
  change c.stmp ∈ (if c.buffer c.stmp = CARRIAGE_RETURN then
    (⟨c.buffer, c.removed + 1, true, c.reads ++ [c.stmp]⟩ : Translated)
    else ⟨c.buffer, c.removed, false, c.reads ++ [c.stmp]⟩).reads
  split <;> exact last

theorem sn_encoded_input_inside {saved_cr : Bool} {k : Chunk} :
    (sn_encoded_input saved_cr k).2.2 = true ↔ k.data = [] := by
  constructor
  · intro inside
    by_contra some_data
    have size : k.data.length ≠ 0 := fun h => some_data (List.length_eq_zero_iff.mp h)
    obtain ⟨i, mem, past⟩ := read_behind saved_cr k.buffer size
    have less := of_decide_eq_true (List.all_eq_true.mp inside i mem)
    exact absurd past (Nat.not_le.mpr less)
  · intro empty
    unfold sn_encoded_input translate_crlf
    rw [empty]
    rfl

theorem readAll_inside {saved_cr : Bool} {ks : List Chunk} :
    (readAll saved_cr ks).2 = true ↔ stream ks = [] := by
  induction ks generalizing saved_cr with
  | nil => exact ⟨fun _ => rfl, fun _ => rfl⟩
  | cons k ks ih =>
    rw [readAll, Bool.and_eq_true, sn_encoded_input_inside, ih]
    unfold stream
    rw [List.flatMap_cons, List.append_eq_nil_iff]

theorem readAll_empty {saved_cr : Bool} {ks : List Chunk} (empty : stream ks = []) :
    (readAll saved_cr ks).1 = [] := by
  induction ks generalizing saved_cr with
  | nil => rfl
  | cons k ks ih =>
    unfold stream at empty
    rw [List.flatMap_cons, List.append_eq_nil_iff] at empty
    have output : (sn_encoded_input saved_cr k).1 = [] := by
      have size : k.data.length = 0 := List.length_eq_zero_iff.mpr empty.1
      unfold sn_encoded_input
      dsimp only
      rw [size, Nat.zero_sub]
      rfl
    rw [readAll, output, ih empty.2]
    rfl

/-- The input is translated, with all reads inside the filled part, for the empty stream only. -/
theorem sn_encoded_input_correct (ks : List Chunk) : Correct ks ↔ stream ks = [] := by
  unfold Correct
  constructor
  · intro correct
    exact readAll_inside.mp (congrArg Prod.snd correct)
  · intro empty
    refine Prod.ext ?_ (readAll_inside.mpr empty)
    rw [readAll_empty empty, empty]
    rfl

/-! ### Right outputs -/

/-- Where a pass of the loop reads the byte it keeps. -/
def Copy.source (c : Copy) : Nat :=
  if c.buffer c.stmp = CARRIAGE_RETURN ∧ c.buffer (c.stmp + 1) = NEWLINE then c.stmp + 1
  else c.stmp

theorem copyStep_dtmp (c : Copy) : (copyStep c).dtmp = c.dtmp + 1 := rfl

theorem copyStep_stmp (c : Copy) : (copyStep c).stmp = c.source + 1 := rfl

theorem copyStep_buffer_self (c : Copy) : (copyStep c).buffer c.dtmp = c.buffer c.source := by
  change (if c.dtmp ≠ c.source then Function.update c.buffer c.dtmp (c.buffer c.source)
    else c.buffer) c.dtmp = _
  split
  case isTrue => exact Function.update_self c.dtmp _ c.buffer
  case isFalse same => rw [Decidable.not_not.mp same]

theorem copyStep_buffer_ne {c : Copy} {i : Nat} (other : i ≠ c.dtmp) :
    (copyStep c).buffer i = c.buffer i := by
  change (if c.dtmp ≠ c.source then Function.update c.buffer c.dtmp (c.buffer c.source)
    else c.buffer) i = _
  split
  case isTrue => exact Function.update_of_ne other _ c.buffer
  case isFalse => rfl

/-- The bytes that were written. -/
def Copy.written (c : Copy) : Text := (List.range c.dtmp).map c.buffer

theorem written_copyStep (c : Copy) : (copyStep c).written = c.written ++ [c.buffer c.source] := by
  unfold Copy.written
  rw [copyStep_dtmp, List.range_succ, List.map_append, List.map_singleton, copyStep_buffer_self]
  congr 1
  apply List.map_congr_left
  intro i mem
  exact copyStep_buffer_ne (Nat.ne_of_lt (List.mem_range.mp mem))

/-- The loop has `x` before it up to `size`, and has written all it has passed but the removed
characters. -/
structure Ahead (size : Nat) (x : Text) (c : Copy) : Prop where
  left : c.stmp + x.length = size
  count : c.dtmp + c.removed = c.stmp
  ahead : ∀ j (h : j < x.length), c.buffer (c.stmp + j) = x.get ⟨j, h⟩

variable {size fuel : Nat} {c : Copy} {x y : Text} {b d : UInt8}

/-- A pass that keeps the byte it is at. -/
theorem Ahead.keep (h : Ahead size (b :: x) c) (source : c.source = c.stmp) :
    Ahead size x (copyStep c) ∧ (copyStep c).written = c.written ++ [b] ∧
      (copyStep c).buffer size = c.buffer size := by
  have count := h.count
  have left := h.left
  rw [List.length_cons] at left
  have removed : (copyStep c).removed = c.removed := by
    change (if _ then _ else _) = _
    rw [if_neg]
    intro crlf
    have moves : c.source = c.stmp + 1 := if_pos crlf
    omega
  have first : c.buffer c.source = b := by
    rw [source]
    exact h.ahead 0 (Nat.succ_pos _)
  refine ⟨⟨?_, ?_, ?_⟩, ?_, copyStep_buffer_ne (by omega)⟩
  · rw [copyStep_stmp, source]
    omega
  · rw [copyStep_dtmp, copyStep_stmp, source, removed]
    omega
  · intro j less
    rw [copyStep_stmp, source, copyStep_buffer_ne (by omega), Nat.add_assoc, Nat.add_comm 1 j]
    exact h.ahead (j + 1) (Nat.succ_lt_succ less)
  · rw [written_copyStep, first]

/-- A pass that leaves a CR out. -/
theorem Ahead.remove (h : Ahead size (13 :: 10 :: x) c) :
    Ahead size x (copyStep c) ∧ (copyStep c).written = c.written ++ [10] ∧
      (copyStep c).buffer size = c.buffer size := by
  have count := h.count
  have left := h.left
  rw [List.length_cons, List.length_cons] at left
  have cr : c.buffer c.stmp = 13 := h.ahead 0 (Nat.succ_pos _)
  have lf : c.buffer (c.stmp + 1) = 10 := h.ahead 1 (Nat.succ_lt_succ (Nat.succ_pos _))
  have source : c.source = c.stmp + 1 := if_pos ⟨cr, lf⟩
  have removed : (copyStep c).removed = c.removed + 1 := if_pos ⟨cr, lf⟩
  refine ⟨⟨?_, ?_, ?_⟩, ?_, copyStep_buffer_ne (by omega)⟩
  · rw [copyStep_stmp, source]
    omega
  · rw [copyStep_dtmp, copyStep_stmp, source, removed]
    omega
  · intro j less
    have place : c.stmp + 1 + 1 + j = c.stmp + (j + 2) := by omega
    rw [copyStep_stmp, source, copyStep_buffer_ne (by omega), place]
    exact h.ahead (j + 2) (Nat.succ_lt_succ (Nat.succ_lt_succ less))
  · rw [written_copyStep, source, lf]

theorem crlf_cons (other : ¬ (b = 13 ∧ x.head? = some 10)) : crlf (b :: x) = b :: crlf x := by
  cases x with
  | nil => rfl
  | cons d x =>
    rw [crlf, if_neg]
    rintro ⟨cr, lf⟩
    exact other ⟨cr, congrArg some lf⟩

theorem crlf_remove : crlf (13 :: 10 :: x) = 10 :: crlf x := by
  rw [crlf, if_pos ⟨rfl, rfl⟩, crlf_cons]
  rintro ⟨cr, _⟩
  exact absurd cr (by decide)

/-- The loop translates what is before it, if no LF stands behind the filled part. -/
theorem copyLoop_quiet (h : Ahead size x c) (enough : x.length ≤ fuel) (quiet : c.buffer size ≠ 10) :
    Ahead size [] (copyLoop size fuel c) ∧ (copyLoop size fuel c).written = c.written ++ crlf x ∧
      (copyLoop size fuel c).buffer size = c.buffer size := by
  induction fuel generalizing c x with
  | zero =>
    obtain rfl := List.length_eq_zero_iff.mp (Nat.le_zero.mp enough)
    exact ⟨h, (List.append_nil c.written).symm, rfl⟩
  | succ fuel ih =>
    have left := h.left
    cases x with
    | nil =>
      rw [List.length_nil] at left
      rw [copyLoop, if_neg (by omega)]
      exact ⟨h, (List.append_nil c.written).symm, rfl⟩
    | cons b x =>
      rw [List.length_cons] at left enough
      rw [copyLoop, if_pos (by omega)]
      have cr : c.buffer c.stmp = b := h.ahead 0 (Nat.succ_pos _)
      by_cases pair : b = 13 ∧ x.head? = some 10
      · obtain ⟨rfl, lf⟩ := pair
        cases x with
        | nil => cases lf
        | cons d x =>
          obtain rfl : d = 10 := Option.some.inj lf
          rw [List.length_cons] at enough
          obtain ⟨next, written, behind⟩ := h.remove
          have rest := ih next (by omega) (behind ▸ quiet)
          rw [written, behind] at rest
          rw [crlf_remove]
          exact ⟨rest.1, by rw [rest.2.1, List.append_assoc]; rfl, rest.2.2⟩
      · have source : c.source = c.stmp := by
          apply if_neg
          rintro ⟨is_cr, is_lf⟩
          cases x with
          | nil =>
            rw [List.length_nil] at left
            have past : c.stmp + 1 = size := by omega
            rw [past] at is_lf
            exact quiet is_lf
          | cons d x =>
            have lf := h.ahead 1 (Nat.succ_lt_succ (Nat.succ_pos _))
            exact pair ⟨cr.symm.trans is_cr, congrArg some (lf.symm.trans is_lf)⟩
        obtain ⟨next, written, behind⟩ := h.keep source
        have rest := ih next (by omega) (behind ▸ quiet)
        rw [written, behind] at rest
        rw [crlf_cons pair]
        exact ⟨rest.1, by rw [rest.2.1, List.append_assoc]; rfl, rest.2.2⟩

/-- Neither CR nor LF happens to stand behind the filled part. -/
def Chunk.Quiet (k : Chunk) : Prop := k.behind 0 ≠ 13 ∧ k.behind 0 ≠ 10

theorem ahead_init (k : Chunk) (reads : List Nat) :
    Ahead k.data.length k.data ⟨k.buffer, 0, 0, 0, reads⟩ where
  left := Nat.zero_add _
  count := rfl
  ahead j h := by
    change k.buffer (0 + j) = _
    rw [Nat.zero_add]
    exact dif_pos h

/-- The output of a call on a quiet chunk. -/
theorem output_quiet {saved_cr : Bool} {k : Chunk} (quiet : k.Quiet) :
    (sn_encoded_input saved_cr k).1 = crlf k.data := by
  have behind : k.buffer k.data.length = k.behind 0 := by
    unfold Chunk.buffer
    rw [dif_neg (Nat.lt_irrefl _), Nat.sub_self]
  by_cases size : k.data.length = 0
  · have empty := List.length_eq_zero_iff.mp size
    unfold sn_encoded_input
    dsimp only
    rw [size, Nat.zero_sub, empty]
    rfl
  · have no_lf : k.buffer k.data.length ≠ 10 := by
      rw [behind]
      exact quiet.2
    obtain ⟨done, written, last⟩ := copyLoop_quiet
      (ahead_init k (if saved_cr then [0] else [])) (Nat.le_refl _) no_lf
    have left := done.left
    have count := done.count
    rw [List.length_nil] at left
    unfold sn_encoded_input translate_crlf
    rw [if_neg size]
    dsimp only
    rw [if_neg]
    · dsimp only
      rw [← Nat.add_zero (copyLoop _ _ _).stmp, left] at count
      have kept : k.data.length - (copyLoop k.data.length k.data.length
          ⟨k.buffer, 0, 0, 0, if saved_cr then [0] else []⟩).removed =
          (copyLoop k.data.length k.data.length
            ⟨k.buffer, 0, 0, 0, if saved_cr then [0] else []⟩).dtmp := by
        omega
      rw [kept]
      exact written
    · rw [← Nat.add_zero (copyLoop _ _ _).stmp, left, last]
      change k.buffer k.data.length ≠ 13
      rw [behind]
      exact quiet.1

/-- No CR at the end of the first part has its LF in the second. -/
def Apart (x y : Text) : Prop := ¬ (x.getLast? = some 13 ∧ y.head? = some 10)

theorem crlf_append (apart : Apart x y) : crlf (x ++ y) = crlf x ++ crlf y := by
  induction x with
  | nil => rfl
  | cons b x ih =>
    cases x with
    | nil =>
      rw [List.singleton_append, crlf_cons]
      · rfl
      · rintro ⟨rfl, lf⟩
        exact apart ⟨rfl, lf⟩
    | cons d x =>
      have rest : crlf (d :: (x ++ y)) = crlf (d :: x) ++ crlf y := by
        apply ih
        rintro ⟨cr, lf⟩
        exact apart ⟨by rw [List.getLast?_cons_cons]; exact cr, lf⟩
      rw [List.cons_append, List.cons_append, crlf, crlf, rest]
      split <;> rfl

/-- Every chunk is quiet, and no CR at the end of a chunk has its LF in what follows. -/
def QuietStream : List Chunk → Prop
  | [] => True
  | k :: ks => k.Quiet ∧ Apart k.data (stream ks) ∧ QuietStream ks

/-- On such a stream the output is right, although the reads are not. -/
theorem readAll_quiet {saved_cr : Bool} {ks : List Chunk} (quiet : QuietStream ks) :
    (readAll saved_cr ks).1 = crlf (stream ks) := by
  induction ks generalizing saved_cr with
  | nil => rfl
  | cons k ks ih =>
    obtain ⟨first, apart, rest⟩ := quiet
    have whole : stream (k :: ks) = k.data ++ stream ks := List.flatMap_cons
    rw [readAll, output_quiet first, ih rest, whole, crlf_append apart]

theorem readAll_quiet_pair : (readAll false [⟨[97, 13], fun _ => 0⟩, ⟨[98, 13, 10], fun _ => 0⟩]).1 =
    [97, 13, 98, 10] :=
  readAll_quiet (by simp [QuietStream, Chunk.Quiet, Apart, stream])

/-- A stream read in two chunks, with a CR at the end of the first. -/
def cutPair : List Chunk := [⟨[97, 13], fun _ => 0⟩, ⟨[10, 98], fun _ => 0⟩]

/-- The CR stays when its LF is in the next chunk. -/
theorem sn_encoded_input_cut : ¬ ∀ ks : List Chunk, Correct ks := by
  intro correct
  have output : (readAll false cutPair).1 = [97, 13, 10, 98] := by decide
  have wanted : crlf (stream cutPair) = [97, 10, 98] := by decide
  have same := (congrArg Prod.fst (correct cutPair)).symm.trans output
  exact absurd (wanted.symm.trans same) (by decide)

end SourceNavigator.Parsers.LexInput

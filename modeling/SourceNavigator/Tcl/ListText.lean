import Mathlib.Algebra.Ring.Nat
import Mathlib.Data.List.TakeWhile
import Mathlib.Tactic.ByContra
import SourceNavigator.Text

/-!
Lists in texts (`generic/tclUtil.c` and `generic/tclUtf.c` of the Tcl library).

`Tcl_SplitList` reads the elements of a list one after the other. An element
stands in braces, in quotes or by itself; the backslash sequences of one that
does not stand in braces are replaced.

* `ListOf` describes the elements of a list, and `listOf_of_split` says that what
  is read is described by it.
* `tightList_of_listOf` says that a text without room to spare holds its elements
  as they are, with braces or quotes around those that have a blank.
-/

namespace SourceNavigator.Tcl

abbrev BACKSLASH : UInt8 := 92
abbrev OPEN_BRACE : UInt8 := 123
abbrev CLOSE_BRACE : UInt8 := 125
abbrev QUOTE : UInt8 := 34

/-! ### Backslash sequences -/

/-- `Tcl_UniCharToUtf` with at most three bytes. -/
def Tcl_UniCharToUtf (ch : Int) : Text :=
  if 0 < ch ∧ ch < 0x80 then [UInt8.ofInt ch]
  else if ch ≤ 0x7FF then [UInt8.ofInt (ch >>> (6 : Nat)) ||| 0xC0, (UInt8.ofInt ch ||| 0x80) &&& 0xBF]
  else
    let ch := if ch ≤ 0xFFFF then ch else 0xFFFD
    [UInt8.ofInt (ch >>> (12 : Nat)) ||| 0xE0, (UInt8.ofInt (ch >>> (6 : Nat)) ||| 0x80) &&& 0xBF,
      (UInt8.ofInt ch ||| 0x80) &&& 0xBF]

def isxdigit (c : UInt8) : Bool := (digitValue c).any (· < 16)

def isOctal (c : UInt8) : Bool := 48 ≤ c && c < 56

/-- The length of the prefix `0x` that `strtoul` with base 16 skips. -/
def hexPrefix : Text → Nat
  | 48 :: x :: c :: _ => if (x == 120 || x == 88) && isxdigit c then 2 else 0
  | _ => 0

/-- A `char` as a number. -/
def signedChar (c : UInt8) : Int := if c < 128 then c.toNat else c.toNat - 256

/-- The character of a backslash sequence, and how many bytes are read behind the backslash. -/
def backslashResult : Text → Int × Nat
  | [] => (92, 0)
  | 97 :: _ => (0x7, 1)
  | 98 :: _ => (0x8, 1)
  | 102 :: _ => (0xc, 1)
  | 110 :: _ => (0xa, 1)
  | 114 :: _ => (0xd, 1)
  | 116 :: _ => (0x9, 1)
  | 118 :: _ => (0xb, 1)
  | 120 :: p =>
    if p.head?.any isxdigit then
      let number := (p.drop (hexPrefix p)).takeWhile isxdigit
      ((min (2 ^ 64 - 1) (readDigits 16 0 number) % 256 : Nat), 1 + hexPrefix p + number.length)
    else (120, 1)
  | 117 :: p =>
    let number := (p.take 4).takeWhile isxdigit
    (if number = [] then 117 else (readDigits 16 0 number : Nat), 1 + number.length)
  | 10 :: p => (32, 1 + (p.takeWhile fun c => c == 32 || c == 9).length)
  | c :: p =>
    if isOctal c then
      let number := c :: (p.take 2).takeWhile isOctal
      ((readDigits 8 0 number % 256 : Nat), number.length)
    else (signedChar c, 1)

/-- `Tcl_UtfBackslash`: the bytes for the sequence, and how many bytes are read behind the
backslash. -/
def Tcl_UtfBackslash (p : Text) : Text × Nat :=
  (Tcl_UniCharToUtf (backslashResult p).1, (backslashResult p).2)

/-! ### Elements -/

/-- A byte in front of what a scan found. -/
def addByte (c : UInt8) (found : Text × Text) : Text × Text := (c :: found.1, found.2)

/-- The element is closed by the end of the list or by white space. -/
def closes (p : Text) : Bool := p.head?.all isspace

/-- The loop of `TclFindElement` that looks for the end of an element, with the bytes that a
backslash sequence still skips: the element and the text behind it. `none` is an error. -/
def scanElement (openBraces : Nat) (inQuotes : Bool) : Nat → Text → Option (Text × Text)
  | _, [] => if openBraces ≠ 0 ∨ inQuotes then none else some ([], [])
  | skip + 1, c :: p => (scanElement openBraces inQuotes skip p).map (addByte c)
  | 0, c :: p =>
    if c = OPEN_BRACE then
      (scanElement (if openBraces ≠ 0 then openBraces + 1 else 0) inQuotes 0 p).map (addByte c)
    else if c = CLOSE_BRACE ∧ 1 < openBraces then
      (scanElement (openBraces - 1) inQuotes 0 p).map (addByte c)
    else if c = CLOSE_BRACE ∧ openBraces = 1 then
      if closes p then some ([], p) else none
    else if c = BACKSLASH then
      (scanElement openBraces inQuotes (Tcl_UtfBackslash p).2 p).map (addByte c)
    else if isspace c ∧ openBraces = 0 ∧ ¬ inQuotes then some ([], c :: p)
    else if c = QUOTE ∧ inQuotes then
      if closes p then some ([], p) else none
    else (scanElement openBraces inQuotes 0 p).map (addByte c)

/-- What `TclFindElement` finds: the element, the text it starts, whether it stands in braces,
and the text behind it and the white space that follows. -/
structure Found where
  element : Text
  src : Text
  brace : Bool
  next : Text

/-- Where an element starts: whether a brace and whether a quote is open, and the text. -/
def elementStart : Text → Nat × Bool × Text
  | [] => (0, false, [])
  | c :: p =>
    if c = OPEN_BRACE then (1, false, p)
    else if c = QUOTE then (0, true, p)
    else (0, false, c :: p)

def TclFindElement (list : Text) : Option Found :=
  match skipSpace list with
  | [] => some { element := [], src := [], brace := false, next := [] }
  | c :: p =>
    let start := elementStart (c :: p)
    (scanElement start.1 start.2.1 0 start.2.2).map fun found =>
      { element := found.1, src := start.2.2, brace := decide (start.1 ≠ 0),
        next := skipSpace found.2 }

/-- `TclCopyAndCollapse` with the bytes that a backslash sequence still skips: `count` bytes of
the text with their backslash sequences replaced. -/
def TclCopyAndCollapse : Nat → Nat → Text → Text
  | _, 0, _ => []
  | _, _, [] => []
  | skip + 1, count + 1, _ :: src => TclCopyAndCollapse skip count src
  | 0, count + 1, c :: src =>
    if c = BACKSLASH then
      (Tcl_UtfBackslash src).1 ++ TclCopyAndCollapse (Tcl_UtfBackslash src).2 count src
    else c :: TclCopyAndCollapse 0 count src

/-- The value of an element. -/
def Found.value (f : Found) : Text :=
  if f.brace then f.element else TclCopyAndCollapse 0 f.element.length f.src

section Scan

variable {openBraces : Nat} {inQuotes : Bool} {skip : Nat} {p rest raw : Text} {c : UInt8}

/-- A scan that goes on behind a byte. -/
theorem map_addByte_eq_some {o : Option (Text × Text)} {found : Text × Text} :
    o.map (addByte c) = some found ↔
      ∃ raw rest, o = some (raw, rest) ∧ found = (c :: raw, rest) := by
  rw [Option.map_eq_some_iff]
  constructor
  · rintro ⟨⟨raw, rest⟩, eq, rfl⟩
    exact ⟨raw, rest, eq, rfl⟩
  · rintro ⟨raw, rest, eq, rfl⟩
    exact ⟨(raw, rest), eq, rfl⟩

theorem length_addByte {o : Option (Text × Text)} {found : Text × Text}
    (h : o.map (addByte c) = some found)
    (bound : ∀ f, o = some f → f.1.length + f.2.length ≤ p.length) :
    found.1.length + found.2.length ≤ (c :: p).length := by
  obtain ⟨raw, rest, eq, rfl⟩ := map_addByte_eq_some.mp h
  have less := bound _ eq
  simp only [List.length_cons] at less ⊢
  omega

/-- What a scan finds lies in the text. -/
theorem length_scanElement {found : Text × Text}
    (h : scanElement openBraces inQuotes skip p = some found) :
    found.1.length + found.2.length ≤ p.length := by
  induction p generalizing openBraces skip found with
  | nil =>
    unfold scanElement at h
    split at h
    · cases h
    · cases h
      rfl
  | cons c p ih =>
    cases skip with
    | succ skip => exact length_addByte h fun f eq => ih eq
    | zero =>
      unfold scanElement at h
      split at h
      · exact length_addByte h fun f eq => ih eq
      split at h
      · exact length_addByte h fun f eq => ih eq
      split at h
      · split at h
        · cases h
          simp
        · cases h
      split at h
      · exact length_addByte h fun f eq => ih eq
      split at h
      · cases h
        simp
      split at h
      · split at h
        · cases h
          simp
        · cases h
      · exact length_addByte h fun f eq => ih eq

/-- Outside of braces. -/
theorem scanElement_cons_zero :
    scanElement 0 inQuotes 0 (c :: p) =
      if c = BACKSLASH then
        (scanElement 0 inQuotes (Tcl_UtfBackslash p).2 p).map (addByte c)
      else if isspace c ∧ ¬ inQuotes then some ([], c :: p)
      else if c = QUOTE ∧ inQuotes then if closes p then some ([], p) else none
      else (scanElement 0 inQuotes 0 p).map (addByte c) := by
  have other : OPEN_BRACE ≠ BACKSLASH ∧ isspace OPEN_BRACE = false ∧ OPEN_BRACE ≠ QUOTE := by decide
  rw [scanElement]
  by_cases opens : c = OPEN_BRACE
  · subst opens
    simp [other]
  · simp [opens]

/-- Inside of braces. -/
theorem scanElement_cons_succ (depth : Nat) :
    scanElement (depth + 1) false 0 (c :: p) =
      if c = OPEN_BRACE then (scanElement (depth + 2) false 0 p).map (addByte c)
      else if c = CLOSE_BRACE then
        if depth = 0 then if closes p then some ([], p) else none
        else (scanElement depth false 0 p).map (addByte c)
      else if c = BACKSLASH then
        (scanElement (depth + 1) false (Tcl_UtfBackslash p).2 p).map (addByte c)
      else (scanElement (depth + 1) false 0 p).map (addByte c) := by
  rw [scanElement]
  by_cases closed : c = CLOSE_BRACE
  · subst closed
    cases depth with
    | zero => simp
    | succ depth => simp
  · simp [closed]

/-- An element that is not in braces or quotes and does not start with white space is not
empty. -/
theorem scanElement_bare_cons (no_space : isspace c = false)
    (h : scanElement 0 false 0 (c :: p) = some (raw, rest)) :
    ∃ raw', raw = c :: raw' ∧ raw'.length + rest.length ≤ p.length := by
  have goes_on : ∃ k, (scanElement 0 false k p).map (addByte c) = some (raw, rest) := by
    rw [scanElement_cons_zero] at h
    simp only [no_space, Bool.false_eq_true, false_and, and_false, if_false] at h
    split at h
    · exact ⟨_, h⟩
    · exact ⟨0, h⟩
  obtain ⟨k, found⟩ := goes_on
  obtain ⟨raw', rest', found, same⟩ := map_addByte_eq_some.mp found
  cases same
  exact ⟨raw', rfl, length_scanElement found⟩

theorem skipSpace_cons_ne {list : Text} (h : skipSpace list = c :: p) :
    isspace c = false ∧ ∃ ws, (∀ b ∈ ws, isspace b = true) ∧ list = ws ++ c :: p := by
  refine ⟨?_, list.takeWhile isspace, fun b mem => List.mem_takeWhile_imp mem, ?_⟩
  · have head := List.head?_dropWhile_not isspace list
    rw [show list.dropWhile isspace = c :: p from h] at head
    simpa using head
  · rw [← h]
    exact List.takeWhile_append_dropWhile.symm

theorem length_skipSpace (p : Text) : (skipSpace p).length ≤ p.length :=
  (List.dropWhile_suffix isspace).length_le

/-- The text behind an element is shorter. -/
theorem length_next {list : Text} {f : Found} (h : TclFindElement list = some f)
    (some_element : f.src ≠ []) : f.next.length < list.length := by
  unfold TclFindElement at h
  split at h
  · cases h
    exact absurd rfl some_element
  · rename_i c p eq
    obtain ⟨no_space, ws, _, whole⟩ := skipSpace_cons_ne eq
    obtain ⟨⟨raw, rest⟩, scanned, rfl⟩ := Option.map_eq_some_iff.mp h
    have behind := length_skipSpace rest
    have longer : p.length < list.length := by
      rw [whole, List.length_append, List.length_cons]
      omega
    have inside : rest.length ≤ p.length := by
      unfold elementStart at scanned
      dsimp only at scanned
      split at scanned
      · have bound := length_scanElement scanned
        dsimp only at bound
        omega
      split at scanned
      · have bound := length_scanElement scanned
        dsimp only at bound
        omega
      · obtain ⟨raw', _, bound⟩ := scanElement_bare_cons no_space scanned
        omega
    exact Nat.lt_of_le_of_lt (behind.trans inside) longer

end Scan

/-- The elements of a list; `none` is an error. -/
def Tcl_SplitList (list : Text) : Option (List Text) :=
  if list = [] then some []
  else
    match _h : TclFindElement list with
    | none => none
    | some f => if _hs : f.src = [] then some [] else (Tcl_SplitList f.next).map (f.value :: ·)
termination_by list.length
decreasing_by exact length_next _h _hs

/-! ### What a backslash sequence reads and writes -/

section Backslash

variable {p : Text} {c : UInt8}

/-- A byte that means nothing to the scan inside of braces. -/
def isPlain (c : UInt8) : Bool := c != OPEN_BRACE && c != CLOSE_BRACE && c != BACKSLASH

theorem no_backslash_high (b : UInt8) :
    (b ||| 0xC0) ≠ BACKSLASH ∧ (b ||| 0xE0) ≠ BACKSLASH ∧ ((b ||| 0x80) &&& 0xBF) ≠ BACKSLASH := by
  have highest : ∀ c : UInt8, c.toBitVec.getLsbD 7 = true → c ≠ BACKSLASH := by
    rintro c set rfl
    exact absurd set (by decide)
  refine ⟨highest _ ?_, highest _ ?_, highest _ ?_⟩
  · simp
  · simp
  · simp

/-- A character is written as a backslash or without one. -/
theorem backslash_of_mem_utf {ch : Int} (mem : BACKSLASH ∈ Tcl_UniCharToUtf ch) :
    Tcl_UniCharToUtf ch = [BACKSLASH] := by
  have high := no_backslash_high
  unfold Tcl_UniCharToUtf at mem ⊢
  split at mem
  · rename_i low
    rw [if_pos low, ← List.mem_singleton.mp mem]
  split at mem
  · simp only [List.mem_cons, List.not_mem_nil, or_false] at mem
    rcases mem with eq | eq
    · exact absurd eq.symm (high _).1
    · exact absurd eq.symm (high _).2.2
  · simp only [List.mem_cons, List.not_mem_nil, or_false] at mem
    rcases mem with eq | eq | eq
    · exact absurd eq.symm (high _).2.1
    · exact absurd eq.symm (high _).2.2
    · exact absurd eq.symm (high _).2.2

theorem utfBackslash_nil : Tcl_UtfBackslash [] = ([BACKSLASH], 0) := by
  decide

theorem isPlain_iff : isPlain c = true ↔ c ≠ OPEN_BRACE ∧ c ≠ CLOSE_BRACE ∧ c ≠ BACKSLASH := by
  simp only [isPlain, Bool.and_eq_true, bne_iff_ne, and_assoc]

/-- A kind of byte that no brace and no backslash is of. -/
theorem isPlain_of {q : UInt8 → Bool}
    (others : q OPEN_BRACE = false ∧ q CLOSE_BRACE = false ∧ q BACKSLASH = false)
    (kind : q c = true) : isPlain c = true := by
  rw [isPlain_iff]
  refine ⟨?_, ?_, ?_⟩
  · rintro rfl
    rw [others.1] at kind
    cases kind
  · rintro rfl
    rw [others.2.1] at kind
    cases kind
  · rintro rfl
    rw [others.2.2] at kind
    cases kind

/-- The bytes at the start of a text, or of the first part of it, that are of one kind. -/
theorem plain_takeWhile {q : UInt8 → Bool} (n : Nat)
    (others : q OPEN_BRACE = false ∧ q CLOSE_BRACE = false ∧ q BACKSLASH = false) (p : Text) :
    ((p.take n).takeWhile q).length ≤ p.length ∧
      ∀ b ∈ p.take ((p.take n).takeWhile q).length, isPlain b = true := by
  have start : (p.take n).takeWhile q <+: p :=
    (List.takeWhile_prefix q).trans (List.take_prefix n p)
  refine ⟨start.length_le, fun b mem => ?_⟩
  rw [← List.prefix_iff_eq_take.mp start] at mem
  exact isPlain_of others (List.mem_takeWhile_imp mem)

/-- The bytes of a hexadecimal number with its prefix. -/
theorem plain_hexadecimal (p : Text) :
    hexPrefix p + ((p.drop (hexPrefix p)).takeWhile isxdigit).length ≤ p.length ∧
      ∀ b ∈ p.take (hexPrefix p + ((p.drop (hexPrefix p)).takeWhile isxdigit).length),
        isPlain b = true := by
  have digits := plain_takeWhile (q := isxdigit) (p.drop (hexPrefix p)).length (by decide)
    (p.drop (hexPrefix p))
  rw [List.take_length] at digits
  have front : hexPrefix p ≤ p.length ∧ ∀ b ∈ p.take (hexPrefix p), isPlain b = true := by
    unfold hexPrefix
    split
    · rename_i x c rest
      split
      · rename_i marker
        rw [Bool.and_eq_true, Bool.or_eq_true, beq_iff_eq, beq_iff_eq] at marker
        refine ⟨by simp, fun b mem => ?_⟩
        simp only [List.take_succ_cons, List.take_zero, List.mem_cons, List.not_mem_nil,
          or_false] at mem
        rcases mem with rfl | rfl
        · decide
        · rcases marker.1 with rfl | rfl <;> decide
      · simp
    · simp
  constructor
  · have bound := digits.1
    rw [List.length_drop] at bound
    omega
  · intro b mem
    rw [List.take_add, List.mem_append] at mem
    rcases mem with mem | mem
    · exact front.2 b mem
    · exact digits.2 b mem

/-- The sequence lies in the text and reads at least one byte of it; what it reads behind the
first is plain. -/
theorem utfBackslash_cons (c : UInt8) (p : Text) :
    ∃ k, (Tcl_UtfBackslash (c :: p)).2 = k + 1 ∧ k ≤ p.length ∧
      ∀ b ∈ p.take k, isPlain b = true := by
  have single : ∃ k, 1 = k + 1 ∧ k ≤ p.length ∧ ∀ b ∈ p.take k, isPlain b = true :=
    ⟨0, rfl, Nat.zero_le _, by simp⟩
  rw [Tcl_UtfBackslash]
  dsimp only
  unfold backslashResult
  split
  case h_1 eq => cases eq
  case h_9 eq =>
    cases eq
    split
    · exact ⟨_, by dsimp only; omega, plain_hexadecimal p⟩
    · exact single
  case h_10 eq =>
    cases eq
    exact ⟨_, Nat.add_comm _ _, plain_takeWhile 4 (by decide) p⟩
  case h_11 eq =>
    cases eq
    have blanks := plain_takeWhile (q := fun c => c == 32 || c == 9) p.length (by decide) p
    rw [List.take_length] at blanks
    exact ⟨_, Nat.add_comm _ _, blanks⟩
  case h_12 eq =>
    cases eq
    split
    · exact ⟨_, rfl, plain_takeWhile 2 (by decide) p⟩
    · exact single
  all_goals exact single

end Backslash

/-! ### Elements in braces -/

/-- The braces of a text match, inside of a number of open ones; a byte behind a backslash is
no brace. -/
def balanced : Nat → Text → Bool
  | depth, [] => depth == 0
  | depth, c :: p =>
    if c = OPEN_BRACE then balanced (depth + 1) p
    else if c = CLOSE_BRACE then depth != 0 && balanced (depth - 1) p
    else if c = BACKSLASH then
      match p with
      | [] => false
      | _ :: p => balanced depth p
    else balanced depth p

section Braces

variable {depth : Nat} {c : UInt8} {p raw rest : Text}

theorem balanced_open : balanced depth (OPEN_BRACE :: p) = balanced (depth + 1) p := by
  rw [balanced.eq_def]
  exact if_pos rfl

theorem balanced_close :
    balanced depth (CLOSE_BRACE :: p) = (depth != 0 && balanced (depth - 1) p) := by
  have opens : CLOSE_BRACE ≠ OPEN_BRACE := by decide
  rw [balanced.eq_def]
  dsimp only
  rw [if_neg opens, if_pos rfl]

theorem balanced_backslash : balanced depth (BACKSLASH :: c :: p) = balanced depth p := by
  have opens : BACKSLASH ≠ OPEN_BRACE := by decide
  have closed : BACKSLASH ≠ CLOSE_BRACE := by decide
  rw [balanced.eq_def]
  dsimp only
  rw [if_neg opens, if_neg closed, if_pos rfl]

theorem balanced_lone : balanced depth [BACKSLASH] = false := by
  have opens : BACKSLASH ≠ OPEN_BRACE := by decide
  have closed : BACKSLASH ≠ CLOSE_BRACE := by decide
  rw [balanced.eq_def]
  dsimp only
  rw [if_neg opens, if_neg closed, if_pos rfl]

theorem balanced_plain (plain : isPlain c = true) :
    balanced depth (c :: p) = balanced depth p := by
  obtain ⟨opens, closed, escapes⟩ := isPlain_iff.mp plain
  rw [balanced.eq_def]
  dsimp only
  rw [if_neg opens, if_neg closed, if_neg escapes]

/-- Plain bytes are skipped as they are passed. -/
theorem scanElement_plain {k : Nat} (plain : ∀ b ∈ p.take k, isPlain b = true) :
    scanElement (depth + 1) false k p = scanElement (depth + 1) false 0 p := by
  induction k generalizing p with
  | zero => rfl
  | succ k ih =>
    cases p with
    | nil => simp [scanElement]
    | cons c p =>
      rw [List.take_succ_cons] at plain
      obtain ⟨opens, closed, escapes⟩ := isPlain_iff.mp (plain c List.mem_cons_self)
      rw [scanElement_cons_succ, if_neg opens, if_neg closed, if_neg escapes,
        ← ih fun b mem => plain b (List.mem_cons_of_mem _ mem)]
      simp only [scanElement]

/-- A backslash hides the byte behind it. -/
theorem scanElement_backslash (depth : Nat) (c : UInt8) (p : Text) :
    scanElement (depth + 1) false 0 (BACKSLASH :: c :: p) =
      ((scanElement (depth + 1) false 0 p).map (addByte c)).map (addByte BACKSLASH) := by
  have opens : BACKSLASH ≠ OPEN_BRACE := by decide
  have closed : BACKSLASH ≠ CLOSE_BRACE := by decide
  obtain ⟨k, read, _, plain⟩ := utfBackslash_cons c p
  rw [scanElement_cons_succ, if_neg opens, if_neg closed, if_pos rfl, read]
  simp only [scanElement]
  rw [scanElement_plain plain]

/-- An element in braces ends where its braces match. -/
theorem scanElement_braced_iff :
    scanElement (depth + 1) false 0 p = some (raw, rest) ↔
      p = raw ++ CLOSE_BRACE :: rest ∧ balanced depth raw = true ∧ closes rest = true := by
  -- a backslash takes two bytes at once
  induction n : p.length using Nat.strong_induction_on generalizing p raw depth with
  | _ n ih =>
  cases p with
  | nil => simp [scanElement]
  | cons c p =>
    subst n
    have shorter : p.length < (c :: p).length := Nat.lt_succ_self _
    rw [scanElement_cons_succ]
    by_cases opens : c = OPEN_BRACE
    · subst opens
      rw [if_pos rfl, map_addByte_eq_some]
      constructor
      · rintro ⟨raw', rest', found, same⟩
        cases same
        obtain ⟨rfl, matched, behind⟩ := (ih _ shorter rfl).mp found
        exact ⟨rfl, by rw [balanced_open]; exact matched, behind⟩
      · rintro ⟨whole, matched, behind⟩
        cases raw with
        | nil => cases whole
        | cons c raw =>
          cases whole
          rw [balanced_open] at matched
          exact ⟨raw, rest, (ih _ shorter rfl).mpr ⟨rfl, matched, behind⟩, rfl⟩
    rw [if_neg opens]
    by_cases closed : c = CLOSE_BRACE
    · subst closed
      rw [if_pos rfl]
      cases depth with
      | zero =>
        rw [if_pos rfl]
        constructor
        · intro found
          split at found
          · cases found
            exact ⟨rfl, rfl, by assumption⟩
          · cases found
        · rintro ⟨whole, matched, behind⟩
          cases raw with
          | nil =>
            cases whole
            rw [if_pos behind]
          | cons c raw =>
            cases whole
            rw [balanced_close] at matched
            cases matched
      | succ depth =>
        rw [if_neg (Nat.succ_ne_zero _), map_addByte_eq_some]
        constructor
        · rintro ⟨raw', rest', found, same⟩
          cases same
          obtain ⟨rfl, matched, behind⟩ := (ih _ shorter rfl).mp found
          refine ⟨rfl, ?_, behind⟩
          rw [balanced_close]
          simpa using matched
        · rintro ⟨whole, matched, behind⟩
          cases raw with
          | nil => simp [balanced] at matched
          | cons c raw =>
            cases whole
            rw [balanced_close] at matched
            refine ⟨raw, rest, (ih _ shorter rfl).mpr ⟨rfl, ?_, behind⟩, rfl⟩
            simpa using matched
    by_cases escapes : c = BACKSLASH
    · subst escapes
      rw [if_neg closed, if_pos rfl]
      cases p with
      | nil =>
        constructor
        · intro found
          simp [scanElement] at found
        · rintro ⟨whole, matched, behind⟩
          cases raw with
          | nil => cases whole
          | cons c raw =>
            cases raw with
            | nil => cases whole
            | cons => cases whole
      | cons d p =>
        have step := scanElement_backslash depth d p
        rw [scanElement_cons_succ, if_neg opens, if_neg closed, if_pos rfl] at step
        rw [step, map_addByte_eq_some]
        have shorter' : p.length < (BACKSLASH :: d :: p).length := by
          simp only [List.length_cons]
          omega
        constructor
        · rintro ⟨raw', rest', found, same⟩
          cases same
          obtain ⟨raw'', rest'', found, same⟩ := map_addByte_eq_some.mp found
          cases same
          obtain ⟨rfl, matched, behind⟩ := (ih _ shorter' rfl).mp found
          refine ⟨rfl, ?_, behind⟩
          rw [balanced_backslash]
          exact matched
        · rintro ⟨whole, matched, behind⟩
          cases raw with
          | nil => cases whole
          | cons c raw =>
            cases raw with
            | nil =>
              cases whole
              rw [balanced_lone] at matched
              cases matched
            | cons d raw =>
              cases whole
              rw [balanced_backslash] at matched
              exact ⟨d :: raw, rest, map_addByte_eq_some.mpr
                ⟨raw, rest, (ih _ shorter' rfl).mpr ⟨rfl, matched, behind⟩, rfl⟩, rfl⟩
    · have plain : isPlain c = true := isPlain_iff.mpr ⟨opens, closed, escapes⟩
      rw [if_neg closed, if_neg escapes, map_addByte_eq_some]
      constructor
      · rintro ⟨raw', rest', found, same⟩
        cases same
        obtain ⟨rfl, matched, behind⟩ := (ih _ shorter rfl).mp found
        refine ⟨rfl, ?_, behind⟩
        rw [balanced_plain plain]
        exact matched
      · rintro ⟨whole, matched, behind⟩
        cases raw with
        | nil =>
          cases whole
          exact absurd rfl closed
        | cons c raw =>
          cases whole
          rw [balanced_plain plain] at matched
          exact ⟨raw, rest, (ih _ shorter rfl).mpr ⟨rfl, matched, behind⟩, rfl⟩

end Braces

/-! ### Elements that are not in braces -/

/-- An element that was read outside of braces, and its value: replacing backslash sequences
never adds a backslash, and where it takes none away, it makes the element shorter and writes no
white space. -/
structure Unbraced (inQuotes : Bool) (p raw rest val : Text) : Prop where
  text : p = raw ++ ((if inQuotes then [QUOTE] else []) ++ rest)
  behind : closes rest = true
  backslashes : val.count BACKSLASH ≤ raw.count BACKSLASH
  shorter : val.count BACKSLASH = raw.count BACKSLASH → val.length ≤ raw.length
  same : val.count BACKSLASH = raw.count BACKSLASH → val.length = raw.length →
    val = raw ∧ (BACKSLASH ∈ raw → rest = [] ∧ BACKSLASH ∉ raw.dropLast)
  no_space : val.count BACKSLASH = raw.count BACKSLASH → inQuotes = false →
    ∀ c ∈ val, isspace c = false

section Unbraced

variable {inQuotes : Bool} {p raw rest val out front : Text} {c : UInt8} {k : Nat}

theorem scanElement_skip {openBraces : Nat} (inside : k ≤ p.length) :
    scanElement openBraces inQuotes k p =
      (scanElement openBraces inQuotes 0 (p.drop k)).map fun f => (p.take k ++ f.1, f.2) := by
  induction k generalizing p with
  | zero => simp
  | succ k ih =>
    cases p with
    | nil => cases inside
    | cons c p =>
      rw [scanElement, ih (Nat.le_of_succ_le_succ inside), Option.map_map]
      rfl

theorem TclCopyAndCollapse_skip {count : Nat} :
    TclCopyAndCollapse k (k + count) p = TclCopyAndCollapse 0 count (p.drop k) := by
  induction k generalizing p with
  | zero => rw [Nat.zero_add, List.drop_zero]
  | succ k ih =>
    cases p with
    | nil =>
      rw [List.drop_nil]
      cases count <;> simp [TclCopyAndCollapse]
    | cons c p =>
      rw [Nat.add_right_comm, TclCopyAndCollapse, ih, List.drop_succ_cons]

/-- A byte that stands for itself. -/
theorem Unbraced.cons (h : Unbraced inQuotes p raw rest val) (other : c ≠ BACKSLASH)
    (no_space : inQuotes = false → isspace c = false) :
    Unbraced inQuotes (c :: p) (c :: raw) rest (c :: val) := by
  have counts : ∀ t : Text, (c :: t).count BACKSLASH = t.count BACKSLASH :=
    fun t => List.count_cons_of_ne other
  refine ⟨?_, h.behind, ?_, ?_, ?_, ?_⟩
  · rw [List.cons_append, ← h.text]
  · rw [counts, counts]
    exact h.backslashes
  · intro equal
    rw [counts, counts] at equal
    exact Nat.succ_le_succ (h.shorter equal)
  · intro equal lengths
    rw [counts, counts] at equal
    obtain ⟨rfl, last⟩ := h.same equal (Nat.succ_injective lengths)
    refine ⟨rfl, fun mem => ?_⟩
    have inside : BACKSLASH ∈ val := (List.mem_cons.mp mem).resolve_left (Ne.symm other)
    obtain ⟨at_end, once⟩ := last inside
    refine ⟨at_end, ?_⟩
    rw [List.dropLast_cons_of_ne_nil (List.ne_nil_of_mem inside), List.mem_cons, not_or]
    exact ⟨Ne.symm other, once⟩
  · intro equal bare d mem
    rw [counts, counts] at equal
    rcases List.mem_cons.mp mem with rfl | mem
    · exact no_space bare
    · exact h.no_space equal bare d mem

/-- A backslash sequence in front: one that is not the last byte of the text reads more bytes
than it writes if it writes a backslash. -/
theorem Unbraced.backslash (h : Unbraced inQuotes p raw rest val)
    (written : BACKSLASH ∈ out → out = [BACKSLASH])
    (lone : front = [] → p = []) :
    Unbraced inQuotes (BACKSLASH :: (front ++ p)) (BACKSLASH :: (front ++ raw)) rest (out ++ val) := by
  have few : out.count BACKSLASH ≤ 1 := by
    by_cases mem : BACKSLASH ∈ out
    · rw [written mem]
      rfl
    · rw [List.count_eq_zero_of_not_mem mem]
      exact Nat.zero_le 1
  have counted : (BACKSLASH :: (front ++ raw)).count BACKSLASH =
      front.count BACKSLASH + raw.count BACKSLASH + 1 := by
    rw [List.count_cons_self, List.count_append]
  have less := h.backslashes
  -- no backslash is taken away: the sequence writes one and reads no other
  have tight : (out ++ val).count BACKSLASH = (BACKSLASH :: (front ++ raw)).count BACKSLASH →
      out = [BACKSLASH] ∧ val.count BACKSLASH = raw.count BACKSLASH := by
    intro equal
    rw [List.count_append, counted] at equal
    have one : out.count BACKSLASH = 1 := by omega
    exact ⟨written (List.count_pos_iff.mp (by omega)), by omega⟩
  refine ⟨?_, h.behind, ?_, ?_, ?_, ?_⟩
  · rw [List.cons_append, List.append_assoc, ← h.text]
  · rw [List.count_append, counted]
    omega
  · intro equal
    obtain ⟨rfl, kept⟩ := tight equal
    have bound := h.shorter kept
    simp only [List.length_append, List.length_cons, List.length_nil]
    omega
  · intro equal lengths
    obtain ⟨rfl, kept⟩ := tight equal
    have bound := h.shorter kept
    simp only [List.length_append, List.length_cons, List.length_nil] at lengths
    have empty : front = [] := List.length_eq_zero_iff.mp (by omega)
    have text := h.text
    rw [lone empty] at text
    obtain ⟨rfl, behind⟩ := List.append_eq_nil_iff.mp text.symm
    obtain ⟨_, rfl⟩ := List.append_eq_nil_iff.mp behind
    have no_value : val = [] := List.length_eq_zero_iff.mp (Nat.le_zero.mp bound)
    rw [empty, no_value]
    exact ⟨rfl, fun _ => ⟨rfl, by simp⟩⟩
  · intro equal bare d mem
    obtain ⟨rfl, kept⟩ := tight equal
    rcases List.mem_cons.mp mem with rfl | mem
    · decide
    · exact h.no_space kept bare d mem

/-- What is read outside of braces. -/
theorem unbraced_of_scan (h : scanElement 0 inQuotes 0 p = some (raw, rest)) :
    Unbraced inQuotes p raw rest (TclCopyAndCollapse 0 raw.length p) := by
  induction n : p.length using Nat.strong_induction_on generalizing p raw with
  | _ n ih =>
  have nothing : TclCopyAndCollapse 0 0 p = [] := by simp [TclCopyAndCollapse]
  cases p with
  | nil =>
    cases inQuotes with
    | true => simp [scanElement] at h
    | false =>
      simp only [scanElement, ne_eq, not_true_eq_false, Bool.false_eq_true, or_self, if_false,
        Option.some.injEq, Prod.mk.injEq] at h
      obtain ⟨rfl, rfl⟩ := h
      exact ⟨rfl, rfl, le_refl _, fun _ => le_refl _, fun _ _ => ⟨rfl, by simp⟩, by simp [TclCopyAndCollapse]⟩
  | cons c p =>
    subst n
    rw [scanElement_cons_zero] at h
    split at h
    case isTrue escapes =>
      subst escapes
      obtain ⟨raw', rest', found, same⟩ := map_addByte_eq_some.mp h
      cases same
      have bound : (Tcl_UtfBackslash p).2 ≤ p.length := by
        cases p with
        | nil => rw [utfBackslash_nil]; exact le_refl _
        | cons d p =>
          obtain ⟨k, read, inside, _⟩ := utfBackslash_cons d p
          rw [read]
          exact Nat.succ_le_succ inside
      rw [scanElement_skip bound, Option.map_eq_some_iff] at found
      obtain ⟨⟨raw'', rest''⟩, found, same⟩ := found
      cases same
      have rest_read := ih _ (by rw [List.length_drop, List.length_cons]; omega) found rfl
      have value : TclCopyAndCollapse 0
          (BACKSLASH :: (p.take (Tcl_UtfBackslash p).2 ++ raw'')).length (BACKSLASH :: p) =
          (Tcl_UtfBackslash p).1 ++
            TclCopyAndCollapse 0 raw''.length (p.drop (Tcl_UtfBackslash p).2) := by
        rw [List.length_cons, TclCopyAndCollapse, if_pos rfl, List.length_append,
          List.length_take_of_le bound, TclCopyAndCollapse_skip]
      have read := @Unbraced.backslash inQuotes _ _ _ _ (Tcl_UtfBackslash p).1
        (p.take (Tcl_UtfBackslash p).2) rest_read backslash_of_mem_utf (by
          intro empty
          cases p with
          | nil => simp
          | cons d p =>
            obtain ⟨k, count, _⟩ := utfBackslash_cons d p
            rw [count] at empty
            cases empty)
      rw [List.take_append_drop] at read
      rw [value]
      exact read
    case isFalse other =>
      have value : ∀ raw : Text, TclCopyAndCollapse 0 (c :: raw).length (c :: p) =
          c :: TclCopyAndCollapse 0 raw.length p := by
        intro raw
        rw [List.length_cons, TclCopyAndCollapse, if_neg other]
      split at h
      case isTrue ends =>
        cases h
        have bare : inQuotes = false := by simpa using ends.2
        subst bare
        refine ⟨rfl, ?_, ?_, ?_, ?_, ?_⟩
        · simpa [closes] using ends.1
        all_goals rw [List.length_nil, nothing]
        · simp
        · simp
        · simp
      case isFalse goes_on =>
        split at h
        case isTrue ends =>
          split at h
          case isTrue behind =>
            cases h
            obtain ⟨rfl, quoted⟩ := ends
            refine ⟨by rw [quoted]; rfl, behind, ?_, ?_, ?_, ?_⟩
            all_goals rw [List.length_nil, nothing]
            · simp
            · simp
            · simp
          case isFalse => cases h
        case isFalse =>
          obtain ⟨raw', rest', found, same⟩ := map_addByte_eq_some.mp h
          cases same
          rw [value]
          refine (ih _ (Nat.lt_succ_self _) found rfl).cons other fun bare => ?_
          simpa [bare] using goes_on

end Unbraced

/-! ### Lists -/

/-- An element as it stands in a list with a text behind it, and its value. -/
inductive Item (rest : Text) : Text → Text → Prop
  | braced {v : Text} : balanced 0 v = true → Item rest (OPEN_BRACE :: (v ++ [CLOSE_BRACE])) v
  | quoted {p raw v : Text} : Unbraced true p raw rest v → Item rest (QUOTE :: (raw ++ [QUOTE])) v
  | bare {p raw v : Text} {c : UInt8} : Unbraced false p (c :: raw) rest v → isspace c = false →
      c ≠ OPEN_BRACE → c ≠ QUOTE → Item rest (c :: raw) v

/-- The elements of a list with white space in front of each of them. -/
inductive ListOf : Text → List Text → Prop
  | nil {ws : Text} : (∀ c ∈ ws, isspace c = true) → ListOf ws []
  | cons {ws e rest v : Text} {vs : List Text} : (∀ c ∈ ws, isspace c = true) → Item rest e v →
      closes rest = true → ListOf rest vs → ListOf (ws ++ (e ++ rest)) (v :: vs)

section Lists

variable {list rest e v T : Text} {vs : List Text}

/-- An element starts with a byte that is no white space. -/
theorem Item.head (h : Item rest e v) : ∃ c p, e = c :: p ∧ isspace c = false := by
  cases h with
  | braced => exact ⟨_, _, rfl, by decide⟩
  | quoted => exact ⟨_, _, rfl, by decide⟩
  | bare _ no_space => exact ⟨_, _, rfl, no_space⟩

/-- White space in front of a list. -/
theorem ListOf.blank {ws : Text} (blank : ∀ c ∈ ws, isspace c = true) (h : ListOf T vs) :
    ListOf (ws ++ T) vs := by
  have both : ∀ {ws' : Text}, (∀ c ∈ ws', isspace c = true) →
      ∀ c ∈ ws ++ ws', isspace c = true := by
    intro ws' blank' c mem
    rcases List.mem_append.mp mem with mem | mem
    · exact blank c mem
    · exact blank' c mem
  cases h with
  | nil blank' => exact .nil (both blank')
  | cons blank' item behind more =>
    rw [← List.append_assoc]
    exact .cons (both blank') item behind more

theorem skipSpace_eq (p : Text) :
    ∃ ws, (∀ c ∈ ws, isspace c = true) ∧ p = ws ++ skipSpace p :=
  ⟨p.takeWhile isspace, fun _ mem => List.mem_takeWhile_imp mem,
    List.takeWhile_append_dropWhile.symm⟩

theorem elementStart_open {p : Text} : elementStart (OPEN_BRACE :: p) = (1, false, p) := rfl

theorem elementStart_quote {p : Text} : elementStart (QUOTE :: p) = (0, true, p) := rfl

theorem elementStart_bare {c : UInt8} {p : Text} (opens : c ≠ OPEN_BRACE) (quotes : c ≠ QUOTE) :
    elementStart (c :: p) = (0, false, c :: p) := by
  rw [elementStart, if_neg opens, if_neg quotes]

/-- What `TclFindElement` finds: white space only, or an element. -/
theorem item_of_find {f : Found} (h : TclFindElement list = some f) :
    (f.src = [] ∧ ∀ c ∈ list, isspace c = true) ∨
      f.src ≠ [] ∧ ∃ ws e rest, (∀ c ∈ ws, isspace c = true) ∧ list = ws ++ (e ++ rest) ∧
        Item rest e f.value ∧ closes rest = true ∧ f.next = skipSpace rest := by
  unfold TclFindElement at h
  split at h
  next empty =>
    cases h
    exact .inl ⟨rfl, fun c mem => List.dropWhile_eq_nil_iff.mp empty c mem⟩
  next c p eq =>
    obtain ⟨no_space, ws, blank, rfl⟩ := skipSpace_cons_ne eq
    right
    by_cases opens : c = OPEN_BRACE
    · subst opens
      simp only [elementStart_open] at h
      obtain ⟨⟨raw, rest⟩, scanned, rfl⟩ := Option.map_eq_some_iff.mp h
      obtain ⟨rfl, matched, behind⟩ := scanElement_braced_iff.mp scanned
      exact ⟨by simp, ws, OPEN_BRACE :: (raw ++ [CLOSE_BRACE]), rest, blank, by simp,
        .braced matched, behind, rfl⟩
    by_cases quotes : c = QUOTE
    · subst quotes
      simp only [elementStart_quote] at h
      obtain ⟨⟨raw, rest⟩, scanned, rfl⟩ := Option.map_eq_some_iff.mp h
      have read := unbraced_of_scan scanned
      have text := read.text
      rw [if_pos rfl] at text
      refine ⟨?_, ws, QUOTE :: (raw ++ [QUOTE]), rest, blank, ?_, .quoted read, read.behind, rfl⟩
      · dsimp only
        rw [text]
        simp
      · conv_lhs => rw [text]
        simp
    · simp only [elementStart_bare opens quotes] at h
      obtain ⟨⟨raw, rest⟩, scanned, rfl⟩ := Option.map_eq_some_iff.mp h
      have read := unbraced_of_scan scanned
      obtain ⟨raw', rfl, _⟩ := scanElement_bare_cons no_space scanned
      have text := read.text
      rw [if_neg Bool.false_ne_true, List.nil_append] at text
      exact ⟨List.cons_ne_nil _ _, ws, c :: raw', rest, blank, by rw [text],
        .bare read no_space opens quotes, read.behind, rfl⟩

/-- What is read is a list of elements. -/
theorem listOf_of_split (h : Tcl_SplitList list = some vs) : ListOf list vs := by
  induction n : list.length using Nat.strong_induction_on generalizing list vs with
  | _ n ih =>
  subst n
  unfold Tcl_SplitList at h
  split at h
  next empty =>
    cases h
    rw [empty]
    exact .nil (by simp)
  next =>
    split at h
    next => cases h
    next f found =>
      rcases item_of_find found with ⟨nothing, blank⟩ | ⟨something, ws, e, rest, blank, whole, item, behind, next⟩
      · rw [dif_pos nothing] at h
        cases h
        exact .nil blank
      · rw [dif_neg something] at h
        obtain ⟨vs', read, rfl⟩ := Option.map_eq_some_iff.mp h
        have more := ih _ (length_next found something) read rfl
        rw [next] at more
        obtain ⟨ws', blank', skipped⟩ := skipSpace_eq rest
        rw [whole]
        exact .cons blank item behind (skipped ▸ more.blank blank')

end Lists

/-! ### Texts without room to spare -/

/-- A value that stands for itself in front of a text: it has no white space, no brace or quote
at its start, and a backslash only as the last byte of the list. -/
def Bare (rest v : Text) : Prop :=
  (∃ c p, v = c :: p ∧ c ≠ OPEN_BRACE ∧ c ≠ QUOTE) ∧ (∀ c ∈ v, isspace c = false) ∧
    (BACKSLASH ∈ v → rest = [] ∧ BACKSLASH ∉ v.dropLast)

/-- The bytes that a value with its braces takes. -/
def needed (v : Text) : Nat := v.length + if 32 ∈ v then 2 else 0

def backslashes (vs : List Text) : Nat := (vs.map (List.count BACKSLASH)).sum

/-- An element that takes no more than the value needs. -/
def TightItem (rest e v : Text) : Prop :=
  (32 ∈ v ∧ (e = OPEN_BRACE :: (v ++ [CLOSE_BRACE]) ∧ balanced 0 v = true ∨
      e = QUOTE :: (v ++ [QUOTE]))) ∨
    (32 ∉ v ∧ e = v ∧ Bare rest v)

theorem TightItem.length {rest e v : Text} (h : TightItem rest e v) : e.length = needed v := by
  rcases h with ⟨blank, ⟨rfl, _⟩ | rfl⟩ | ⟨no_blank, rfl, _⟩
  · simp [needed, blank]
  · simp [needed, blank]
  · simp [needed, no_blank]

/-- Elements with single white space between them, none of which takes more than its value
needs. -/
inductive TightList : Text → List Text → Prop
  | last {e v : Text} : TightItem [] e v → TightList e [v]
  | cons {e T v : Text} {s : UInt8} {vs : List Text} : isspace s = true →
      TightItem (s :: T) e v → TightList T vs → TightList (e ++ s :: T) (v :: vs)

section Tight

variable {rest e v T : Text} {vs : List Text}

theorem Item.backslashes (h : Item rest e v) : v.count BACKSLASH ≤ e.count BACKSLASH := by
  have brace : OPEN_BRACE ≠ BACKSLASH ∧ CLOSE_BRACE ≠ BACKSLASH ∧ QUOTE ≠ BACKSLASH := by decide
  cases h with
  | braced => simp [brace]
  | quoted read =>
    have less := read.backslashes
    simpa [brace] using less
  | bare read => exact read.backslashes

/-- Where no backslash is lost, an element is as long as its value needs; and if it is no longer,
it holds the value as it is. -/
theorem Item.tight (h : Item rest e v) (equal : v.count BACKSLASH = e.count BACKSLASH) :
    needed v ≤ e.length ∧ (needed v = e.length → TightItem rest e v) := by
  have brace : OPEN_BRACE ≠ BACKSLASH ∧ CLOSE_BRACE ≠ BACKSLASH ∧ QUOTE ≠ BACKSLASH := by decide
  have extra : needed v ≤ v.length + 2 ∧ (needed v = v.length + 2 → 32 ∈ v) := by
    unfold needed
    split <;> simp_all
  cases h with
  | braced matched =>
    simp only [List.length_cons, List.length_append, List.length_nil]
    exact ⟨extra.1, fun exact_length => .inl ⟨extra.2 exact_length, .inl ⟨rfl, matched⟩⟩⟩
  | @quoted p raw v read =>
    have kept : v.count BACKSLASH = raw.count BACKSLASH := by simpa [brace] using equal
    have shorter := read.shorter kept
    simp only [List.length_cons, List.length_append, List.length_nil]
    refine ⟨by omega, fun exact_length => ?_⟩
    obtain ⟨rfl, _⟩ := read.same kept (by omega)
    exact .inl ⟨extra.2 exact_length, .inr rfl⟩
  | @bare p raw v c read no_space opens quotes =>
    have no_blank : 32 ∉ v := fun mem =>
      absurd (read.no_space equal rfl 32 mem) (by decide)
    have need : needed v = v.length := by rw [needed, if_neg no_blank, Nat.add_zero]
    rw [need]
    refine ⟨read.shorter equal, fun exact_length => .inr ⟨no_blank, ?_⟩⟩
    obtain ⟨rfl, last⟩ := read.same equal exact_length
    exact ⟨rfl, ⟨c, raw, rfl, opens, quotes⟩, read.no_space equal rfl, last⟩

theorem ListOf.ne_nil (h : ListOf T vs) (some_value : vs ≠ []) : T ≠ [] := by
  cases h with
  | nil => exact absurd rfl some_value
  | cons blank item behind more =>
    obtain ⟨c, p, rfl, _⟩ := item.head
    simp

theorem ListOf.backslashes (h : ListOf T vs) : Tcl.backslashes vs ≤ T.count BACKSLASH := by
  induction h with
  | nil => exact Nat.zero_le _
  | cons blank item behind more ih =>
    have less := item.backslashes
    rw [List.count_append, List.count_append]
    simp only [Tcl.backslashes, List.map_cons, List.sum_cons] at ih ⊢
    omega

theorem skipSpace_append {ws : Text} (blank : ∀ c ∈ ws, isspace c = true) :
    skipSpace (ws ++ T) = skipSpace T :=
  List.dropWhile_append_of_pos blank

theorem skipSpace_cons {c : UInt8} {p : Text} (no_space : isspace c = false) :
    skipSpace (c :: p) = c :: p := by
  rw [skipSpace, List.dropWhile_cons_of_neg (by simp [no_space])]

/-- Where no backslash is lost, a list takes at least what its values need, with white space
between them; and if it takes no more, it holds the values as they are. -/
theorem ListOf.tight (h : ListOf T vs) (some_value : vs ≠ [])
    (equal : T.count BACKSLASH = Tcl.backslashes vs) :
    (vs.map fun v => needed v + 1).sum ≤ (skipSpace T).length + 1 ∧
      ((vs.map fun v => needed v + 1).sum = (skipSpace T).length + 1 →
        TightList (skipSpace T) vs) := by
  induction h with
  | nil => exact absurd rfl some_value
  | @cons ws e rest v vs blank item behind more ih =>
    obtain ⟨c, p, rfl, no_space⟩ := item.head
    have item_less := item.backslashes
    have more_less := more.backslashes
    have counts : v.count BACKSLASH = (c :: p).count BACKSLASH ∧
        rest.count BACKSLASH = Tcl.backslashes vs := by
      rw [List.count_append, List.count_append] at equal
      simp only [Tcl.backslashes, List.map_cons, List.sum_cons] at equal more_less ⊢
      omega
    obtain ⟨long_enough, no_longer⟩ := item.tight counts.1
    rw [skipSpace_append blank, List.cons_append, skipSpace_cons no_space, ← List.cons_append,
      List.length_append, List.map_cons, List.sum_cons]
    cases vs with
    | nil =>
      simp only [List.map_nil, List.sum_nil, Nat.add_zero]
      refine ⟨by omega, fun exact_length => ?_⟩
      have nothing : rest = [] := List.length_eq_zero_iff.mp (by omega)
      subst nothing
      rw [List.append_nil]
      exact .last (no_longer (by simp only [List.length_nil] at exact_length; omega))
    | cons v' vs =>
      obtain ⟨enough, tight⟩ := ih (List.cons_ne_nil _ _) counts.2
      -- white space stands in front of the next element
      obtain ⟨s, T, rfl⟩ := List.exists_cons_of_ne_nil (more.ne_nil (List.cons_ne_nil _ _))
      have space : isspace s = true := by simpa [closes] using behind
      have skipped : skipSpace (s :: T) = skipSpace T :=
        @skipSpace_append T [s] (by simpa using space)
      have within := length_skipSpace T
      have longer : (s :: T).length = T.length + 1 := rfl
      rw [skipped] at enough tight
      refine ⟨by omega, fun exact_length => ?_⟩
      have single : skipSpace T = T :=
        (List.dropWhile_suffix isspace).eq_of_length (by rw [← skipSpace]; omega)
      rw [single] at enough tight
      exact .cons space (no_longer (by omega)) (tight (by omega))

end Tight

/-! ### Reading what stands for itself -/

section Reading

variable {rest v T : Text}

theorem closes_cases (h : closes rest = true) :
    rest = [] ∨ ∃ s T, rest = s :: T ∧ isspace s = true := by
  cases rest with
  | nil => exact .inl rfl
  | cons s T => exact .inr ⟨s, T, rfl, by simpa [closes] using h⟩

/-- An element that stands for itself is read as it is. -/
theorem scanElement_bare (no_space : ∀ c ∈ v, isspace c = false)
    (last : BACKSLASH ∈ v → rest = [] ∧ BACKSLASH ∉ v.dropLast) (behind : closes rest = true) :
    scanElement 0 false 0 (v ++ rest) = some (v, rest) ∧
      TclCopyAndCollapse 0 v.length (v ++ rest) = v := by
  induction v with
  | nil =>
    refine ⟨?_, by cases rest <;> simp [TclCopyAndCollapse]⟩
    rcases closes_cases behind with rfl | ⟨s, T, rfl, space⟩
    · rfl
    · have other : s ≠ BACKSLASH := by
        rintro rfl
        exact absurd space (by decide)
      rw [List.nil_append, scanElement_cons_zero, if_neg other, if_pos ⟨space, by simp⟩]
  | cons c v ih =>
    have inside : ∀ d ∈ v, isspace d = false := fun d mem =>
      no_space d (List.mem_cons_of_mem _ mem)
    by_cases escapes : c = BACKSLASH
    · subst escapes
      obtain ⟨rfl, once⟩ := last List.mem_cons_self
      obtain rfl : v = [] := by
        cases v with
        | nil => rfl
        | cons d v => exact absurd (by simp [List.dropLast]) once
      exact ⟨rfl, by decide⟩
    · have later : BACKSLASH ∈ v → rest = [] ∧ BACKSLASH ∉ v.dropLast := by
        intro mem
        obtain ⟨at_end, once⟩ := last (List.mem_cons_of_mem _ mem)
        rw [List.dropLast_cons_of_ne_nil (List.ne_nil_of_mem mem), List.mem_cons, not_or] at once
        exact ⟨at_end, once.2⟩
      obtain ⟨scanned, collapsed⟩ := ih inside later
      constructor
      · rw [List.cons_append, scanElement_cons_zero, if_neg escapes,
          if_neg (by simp [no_space c List.mem_cons_self]), if_neg (by simp), scanned]
        rfl
      · rw [List.length_cons, List.cons_append, TclCopyAndCollapse, if_neg escapes, collapsed]

/-- The list behind an element that was found. -/
theorem split_found {list : Text} {f : Found} (found : TclFindElement list = some f)
    (some_element : f.src ≠ []) :
    Tcl_SplitList list = (Tcl_SplitList f.next).map (f.value :: ·) := by
  have some_text : list ≠ [] := by
    rintro rfl
    cases found
    exact some_element rfl
  rw [Tcl_SplitList, if_neg some_text]
  split
  next none_found => rw [found] at none_found; cases none_found
  next f' found' =>
    rw [found] at found'
    cases found'
    rw [dif_neg some_element]

theorem split_braced (matched : balanced 0 v = true) (behind : closes rest = true) :
    Tcl_SplitList (OPEN_BRACE :: (v ++ CLOSE_BRACE :: rest)) =
      (Tcl_SplitList (skipSpace rest)).map (v :: ·) := by
  have scanned := scanElement_braced_iff.mpr ⟨rfl, matched, behind⟩
  have found : TclFindElement (OPEN_BRACE :: (v ++ CLOSE_BRACE :: rest)) =
      some ⟨v, v ++ CLOSE_BRACE :: rest, true, skipSpace rest⟩ := by
    rw [TclFindElement, skipSpace_cons (by decide)]
    simp only [elementStart_open, scanned]
    rfl
  rw [split_found found (by simp)]
  rfl

theorem split_bare (bare : Bare rest v) (behind : closes rest = true) :
    Tcl_SplitList (v ++ rest) = (Tcl_SplitList (skipSpace rest)).map (v :: ·) := by
  obtain ⟨⟨c, p, rfl, opens, quotes⟩, no_space, last⟩ := bare
  obtain ⟨scanned, collapsed⟩ := scanElement_bare no_space last behind
  have found : TclFindElement (c :: p ++ rest) =
      some ⟨c :: p, c :: p ++ rest, false, skipSpace rest⟩ := by
    rw [List.cons_append] at scanned
    rw [List.cons_append, TclFindElement, skipSpace_cons (no_space c List.mem_cons_self)]
    simp only [elementStart_bare opens quotes, scanned]
    rfl
  rw [split_found found (by simp)]
  simp only [Found.value, Bool.false_eq_true, if_false, collapsed]

theorem split_nil : Tcl_SplitList [] = some [] := by
  rw [Tcl_SplitList, if_pos rfl]

end Reading

end SourceNavigator.Tcl

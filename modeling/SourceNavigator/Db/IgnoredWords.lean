import Mathlib.Data.List.TakeWhile
import Mathlib.Tactic.ByContra
import SourceNavigator.Lib.Pieces
import SourceNavigator.Text

/-!
The word filter of argument lists (`RemoveIgnoredWords` in `db/dbutils.c`).

An argument list is scanned word by word, a word with the delimiter behind it,
and the words `const` and `unsigned` are not copied. The scan stops at an empty
word.

* `keptWords` is what is left of an argument list without the ignored words.
* `removes_ignored_words_iff` says when that is what the code leaves.
-/

namespace SourceNavigator.Db

open Lib

/-! ### The function -/

/-- The delimiters of `strcspn(pb, " ,")`. -/
def isDelimiter (c : UInt8) : Bool := c == 32 || c == 44

def CIgnoredWords : List Text := [ascii "const", ascii "unsigned"]

/-- What one step copies: the word and the byte behind it, unless the word is ignored. -/
def copyWord (word : Text) (pe : UInt8) : Text :=
  if CIgnoredWords.contains word then [] else word ++ [pe]

theorem length_dropWhile_tail {p : UInt8 → Bool} {pb rest : Text} {c : UInt8}
    (h : pb.dropWhile p = c :: rest) : rest.length < pb.length := by
  have shorter := (List.dropWhile_suffix p (l := pb)).length_le
  rw [h, List.length_cons] at shorter
  exact shorter

/-- The bytes that the loop writes into the target buffer. -/
def scan (pb : Text) : Text :=
  let word := pb.takeWhile fun c => !isDelimiter c
  if word = [] then []
  else
    match _h : pb.dropWhile fun c => !isDelimiter c with
    | [] => copyWord word 0
    | pe :: rest => copyWord word pe ++ scan rest
termination_by pb.length
decreasing_by exact length_dropWhile_tail _h

/-- The bytes in the target buffer and the length that is returned. -/
def RemoveIgnoredWords (pb : Text) : Text × Nat :=
  if scan pb = [] then ([0], 0) else (scan pb, (scan pb).length - 1)

/-- What is compared of two filtered argument lists. -/
def rounded (pb : Text) : Text := (RemoveIgnoredWords pb).1.take (RemoveIgnoredWords pb).2

/-! ### The words of an argument list -/

/-- The words of an argument list, each with the delimiter behind it. -/
def argumentWords (pb : Text) : List (Text × Option UInt8) :=
  (pieces isDelimiter pb).filter fun q => decide (q.1 ≠ [])

def notIgnored (q : Text × Option UInt8) : Bool := !CIgnoredWords.contains q.1

/-- The words without the ignored ones. -/
def keptWords (pb : Text) : List (Text × Option UInt8) := (argumentWords pb).filter notIgnored

/-- Words written one after the other, each with the byte behind it. -/
def writtenWords (qs : List (Text × Option UInt8)) : Text :=
  qs.flatMap fun q => q.1 ++ [q.2.getD 0]

/-- The buffer that holds words, closed by a NUL if there are none. -/
def filled (qs : List (Text × Option UInt8)) : Text :=
  if writtenWords qs = [] then [0] else writtenWords qs

/-- Every word behind an empty one, which is where two delimiters stand together or one
stands first, is ignored. -/
def ScanReaches (pb : Text) : Prop :=
  ∀ q ∈ (pieces isDelimiter pb).dropWhile (fun q => decide (q.1 ≠ [])),
    q.1 ≠ [] → q.1 ∈ CIgnoredWords

instance (pb : Text) : Decidable (ScanReaches pb) :=
  inferInstanceAs (Decidable (∀ q ∈ _, _))

/-! ### What the scan copies -/

section Scan

variable {w s : Text} {d : UInt8} {q : Text × Option UInt8} {qs : List (Text × Option UInt8)}

theorem takeWhile_word (free : ∀ c ∈ w, isDelimiter c = false) :
    w.takeWhile (fun c => !isDelimiter c) = w :=
  List.takeWhile_eq_self_iff.mpr fun c mem => by rw [free c mem, Bool.not_false]

theorem takeWhile_delimited (free : ∀ c ∈ w, isDelimiter c = false) (delimiter : isDelimiter d) :
    (w ++ d :: s).takeWhile (fun c => !isDelimiter c) = w := by
  rw [List.takeWhile_append_of_pos fun c mem => by rw [free c mem, Bool.not_false],
    List.takeWhile_cons_of_neg (by simp [delimiter]), List.append_nil]

theorem dropWhile_delimited (free : ∀ c ∈ w, isDelimiter c = false) (delimiter : isDelimiter d) :
    (w ++ d :: s).dropWhile (fun c => !isDelimiter c) = d :: s := by
  rw [List.dropWhile_append_of_pos fun c mem => by rw [free c mem, Bool.not_false],
    List.dropWhile_cons_of_neg (by simp [delimiter])]

theorem scan_last (free : ∀ c ∈ w, isDelimiter c = false) :
    scan w = if w = [] then [] else copyWord w 0 := by
  have all : w.dropWhile (fun c => !isDelimiter c) = [] :=
    List.dropWhile_eq_nil_iff.mpr fun c mem => by rw [free c mem, Bool.not_false]
  rw [scan, takeWhile_word free]
  split
  case isTrue => rfl
  case isFalse =>
    split
    next => rfl
    next eq => rw [all] at eq; cases eq

theorem scan_next (free : ∀ c ∈ w, isDelimiter c = false) (delimiter : isDelimiter d) :
    scan (w ++ d :: s) = if w = [] then [] else copyWord w d ++ scan s := by
  rw [scan, takeWhile_delimited free delimiter]
  split
  case isTrue => rfl
  case isFalse =>
    have rest := dropWhile_delimited (s := s) free delimiter
    split
    next eq => rw [rest] at eq; cases eq
    next eq =>
      rw [rest] at eq
      cases eq
      rfl

theorem writtenWords_cons :
    writtenWords (q :: qs) = q.1 ++ [q.2.getD 0] ++ writtenWords qs := rfl

/-- A word and the byte behind it are copied unless the word is ignored. -/
theorem copyWord_eq : copyWord w (q.2.getD 0) = writtenWords ([(w, q.2)].filter notIgnored) := by
  unfold copyWord
  by_cases ignored : w ∈ CIgnoredWords <;> simp [ignored, notIgnored, writtenWords]

/-- The scan copies the words in front of the first empty one. -/
theorem scan_eq (s : Text) :
    scan s = writtenWords
      (((pieces isDelimiter s).takeWhile fun q => decide (q.1 ≠ [])).filter notIgnored) := by
  induction s using pieces_induction (p := isDelimiter) with
  | last w free =>
    rw [scan_last free, pieces_free free]
    by_cases empty : w = []
    · simp [empty, writtenWords]
    · rw [if_neg empty, List.takeWhile_cons_of_pos (by simpa using empty), List.takeWhile_nil]
      exact copyWord_eq (q := (w, none))
  | next w d s free delimiter ih =>
    rw [scan_next free delimiter, pieces_delimited free delimiter]
    by_cases empty : w = []
    · simp [empty, writtenWords]
    · rw [if_neg empty, List.takeWhile_cons_of_pos (by simpa using empty), ih,
        List.filter_cons]
      unfold copyWord
      by_cases ignored : w ∈ CIgnoredWords
      · simp [ignored, notIgnored]
      · simp [ignored, notIgnored, writtenWords]

theorem writtenWords_append {qs' : List (Text × Option UInt8)} :
    writtenWords (qs ++ qs') = writtenWords qs ++ writtenWords qs' :=
  List.flatMap_append

theorem writtenWords_eq_nil : writtenWords qs = [] ↔ qs = [] := by
  cases qs with
  | nil => simp [writtenWords]
  | cons q qs => simp [writtenWords_cons]

/-- The kept words are those that the scan copies and those behind the place where it stops. -/
theorem writtenWords_keptWords (s : Text) :
    ∃ behind : List (Text × Option UInt8),
      writtenWords (keptWords s) = scan s ++ writtenWords behind ∧
        (behind = [] ↔ ScanReaches s) ∧ ∀ q ∈ behind, q.1 ≠ [] := by
  set p : Text × Option UInt8 → Bool := fun q => decide (q.1 ≠ []) with hp
  refine ⟨(((pieces isDelimiter s).dropWhile p).filter p).filter notIgnored, ?_, ?_, ?_⟩
  · have front : ((pieces isDelimiter s).takeWhile p).filter p
        = (pieces isDelimiter s).takeWhile p :=
      List.filter_eq_self.mpr fun q mem => List.mem_takeWhile_imp mem
    have parts : argumentWords s = (pieces isDelimiter s).takeWhile p
        ++ ((pieces isDelimiter s).dropWhile p).filter p := by
      conv_lhs => rw [argumentWords, ← List.takeWhile_append_dropWhile (p := p)
        (l := pieces isDelimiter s), List.filter_append, front]
    rw [keptWords, parts, List.filter_append, writtenWords_append, scan_eq]
  · rw [List.filter_eq_nil_iff]
    constructor
    · intro none_kept q mem word
      by_contra ignored
      exact none_kept q (List.mem_filter.mpr ⟨mem, by simpa [hp] using word⟩)
        (by simpa [notIgnored] using ignored)
    · intro reaches q mem
      obtain ⟨mem, word⟩ := List.mem_filter.mp mem
      have ignored := reaches q mem (by simpa [hp] using word)
      simp [notIgnored, ignored]
  · intro q mem
    have word := (List.mem_filter.mp (List.mem_filter.mp mem).1).2
    simpa [hp] using word

end Scan

/-! ### The filter -/

section Filter

variable {s s' : Text} {qs : List (Text × Option UInt8)}

theorem target_eq (s : Text) :
    RemoveIgnoredWords s =
      if scan s = [] then ([0], 0) else (scan s, (scan s).length - 1) := rfl

/-- The function writes the kept words, and returns their length without the last delimiter,
exactly if it reaches them all. -/
theorem target_filled_iff (s : Text) :
    RemoveIgnoredWords s = (filled (keptWords s), (filled (keptWords s)).length - 1) ↔
      ScanReaches s := by
  obtain ⟨behind, kept, reaches, words⟩ := writtenWords_keptWords s
  rw [← reaches, target_eq, filled, kept]
  constructor
  · intro same
    by_contra some_behind
    obtain ⟨q, qs, rfl⟩ := List.exists_cons_of_ne_nil some_behind
    -- a word and the byte behind it are more than a lone NUL
    have longer : 2 ≤ (writtenWords (q :: qs)).length := by
      have word := List.length_pos_iff.mpr (words q List.mem_cons_self)
      rw [writtenWords_cons]
      simp only [List.length_append, List.length_singleton]
      omega
    have both : scan s ++ writtenWords (q :: qs) ≠ [] := by
      intro empty
      rw [(List.append_eq_nil_iff.mp empty).2] at longer
      exact absurd longer (by decide)
    have lengths := congrArg (fun r => r.1.length) same
    rw [if_neg both] at lengths
    split at lengths
    · simp only [List.length_singleton, List.length_append] at lengths
      omega
    · simp only [List.length_append] at lengths
      omega
  · rintro rfl
    rw [show writtenWords [] = [] from rfl, List.append_nil]
    split <;> rfl

/-- Without its last byte, what is written of a list of words is the words with their
delimiters between them. -/
theorem dropLast_writtenWords
    (delimited : qs.Pairwise fun q _ => ∃ d, q.2 = some d ∧ isDelimiter d = true) :
    (writtenWords qs).dropLast = joined qs := by
  induction qs with
  | nil => rfl
  | cons q qs ih =>
    cases qs with
    | nil => simp [writtenWords, joined]
    | cons q' qs =>
      rw [List.pairwise_cons] at delimited
      obtain ⟨d, delimiter, _⟩ := delimited.1 q' List.mem_cons_self
      have some_rest : writtenWords (q' :: qs) ≠ [] :=
        fun empty => List.cons_ne_nil _ _ (writtenWords_eq_nil.mp empty)
      rw [writtenWords_cons, List.dropLast_append_of_ne_nil some_rest, ih delimited.2, joined,
        delimiter]
      rfl

/-- What is compared of a filtered list are its kept words with the delimiters between them. -/
theorem rounded_eq (reaches : ScanReaches s) : rounded s = joined (keptWords s) := by
  have delimited : (keptWords s).Pairwise fun q _ => ∃ d, q.2 = some d ∧ isDelimiter d = true :=
    ((delimited_pieces s).filter _).filter _
  rw [rounded, (target_filled_iff s).mpr reaches, ← dropLast_writtenWords delimited, filled]
  split
  next empty => rw [empty]; rfl
  next => exact List.dropLast_eq_take.symm

/-- The kept words are read back from what is compared. -/
theorem keptWords_of_rounded (reaches : ScanReaches s) :
    (keptWords s).map Prod.fst =
      ((pieces isDelimiter (rounded s)).map Prod.fst).filter fun w => decide (w ≠ []) := by
  have pieces_of_kept : ∀ q ∈ keptWords s, q ∈ pieces isDelimiter s ∧ q.1 ≠ [] := by
    intro q mem
    obtain ⟨mem, word⟩ := List.mem_filter.mp (List.mem_filter.mp mem).1
    exact ⟨mem, by simpa using word⟩
  rw [rounded_eq reaches]
  by_cases empty : keptWords s = []
  · rw [empty]
    rfl
  · have read := map_fst_pieces_joined (p := isDelimiter) empty
      (fun q mem => free_of_mem_pieces (pieces_of_kept q mem).1)
      (((delimited_pieces s).filter _).filter _)
    rw [read]
    symm
    refine List.filter_eq_self.mpr fun w mem => ?_
    obtain ⟨q, kept, rfl⟩ := List.mem_map.mp mem
    simpa using (pieces_of_kept q kept).2

/-- The function is the word filter exactly if the scan reaches every word that is not
ignored, and then argument lists with different words are not equal after it. -/
theorem removes_ignored_words_iff (s s' : Text) :
    (RemoveIgnoredWords s = (filled (keptWords s), (filled (keptWords s)).length - 1) ↔
      ScanReaches s) ∧
    (ScanReaches s → ScanReaches s' → rounded s = rounded s' →
      (keptWords s).map Prod.fst = (keptWords s').map Prod.fst) := by
  refine ⟨target_filled_iff s, fun reaches reaches' same => ?_⟩
  rw [keptWords_of_rounded reaches, keptWords_of_rounded reaches', same]

theorem const_dropped :
    RemoveIgnoredWords (ascii "int,const char") = (ascii "int,char" ++ [0], 8) ∧
      (keptWords (ascii "int,const char")).map Prod.fst
        = (keptWords (ascii "int,char")).map Prod.fst := by
  obtain ⟨filters, same_words⟩ :=
    removes_ignored_words_iff (ascii "int,const char") (ascii "int,char")
  refine ⟨filters.mpr (by decide), same_words (by decide) (by decide) ?_⟩
  simp only [rounded, target_eq, scan_eq]
  decide

/-- A blank behind the comma ends the scan: `int, char` and `int, long` are equal. -/
theorem blank_behind_comma :
    rounded (ascii "int, char") = rounded (ascii "int, long") ∧
      (keptWords (ascii "int, char")).map Prod.fst = [ascii "int", ascii "char"] ∧
      (keptWords (ascii "int, long")).map Prod.fst = [ascii "int", ascii "long"] ∧
      RemoveIgnoredWords (ascii "int, char") = (ascii "int,", 3) ∧
      filled (keptWords (ascii "int, char")) = ascii "int,char" ++ [0] := by
  simp only [rounded, target_eq, scan_eq]
  decide

end Filter

end SourceNavigator.Db

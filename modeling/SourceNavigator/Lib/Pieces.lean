import Mathlib.Data.List.Basic

/-!
A list cut at its delimiters, each piece with the delimiter behind it.

`pieces` cuts a list at the elements that a predicate accepts; the last piece
has no delimiter. `pieces_free` and `pieces_delimited` compute it, and
`pieces_induction` is the induction along the pieces. `joined` writes a list of
words with delimiters between them, and `map_fst_pieces_joined` reads the words
back.
-/

namespace Lib

section Pieces

variable {α : Type} (p : α → Bool)

/-- The pieces with the element in front of the first. -/
def extendPiece (c : α) : List (List α × Option α) → List (List α × Option α)
  | [] => []
  | (w, d) :: ps => (c :: w, d) :: ps

/-- The pieces of a list between its delimiters, each with the delimiter behind it. -/
def pieces : List α → List (List α × Option α)
  | [] => [([], none)]
  | c :: s => if p c then ([], some c) :: pieces s else extendPiece c (pieces s)

variable {p} {w s : List α} {d : α}

/-- A list without a delimiter is one piece. -/
theorem pieces_free (free : ∀ c ∈ w, p c = false) : pieces p w = [(w, none)] := by
  induction w with
  | nil => rfl
  | cons c w ih =>
    have other : ¬ p c = true := by simp [free c List.mem_cons_self]
    rw [pieces, if_neg other, ih fun c mem => free c (List.mem_cons_of_mem _ mem), extendPiece]

/-- The first delimiter ends the first piece. -/
theorem pieces_delimited (free : ∀ c ∈ w, p c = false) (delimiter : p d = true) :
    pieces p (w ++ d :: s) = (w, some d) :: pieces p s := by
  induction w with
  | nil => rw [List.nil_append, pieces, if_pos delimiter]
  | cons c w ih =>
    have other : ¬ p c = true := by simp [free c List.mem_cons_self]
    rw [List.cons_append, pieces, if_neg other,
      ih fun c mem => free c (List.mem_cons_of_mem _ mem), extendPiece]

/-- What holds of a list without a delimiter, and of a piece in front of any list that it
holds of, holds of every list. -/
theorem pieces_induction {motive : List α → Prop}
    (last : ∀ w, (∀ c ∈ w, p c = false) → motive w)
    (next : ∀ w d s, (∀ c ∈ w, p c = false) → p d = true → motive s → motive (w ++ d :: s))
    (s : List α) : motive s := by
  -- the word in front of the list grows until its delimiter comes
  suffices all : ∀ s w, (∀ c ∈ w, p c = false) → motive (w ++ s) from all s [] (by simp)
  intro s
  induction s with
  | nil =>
    intro w free
    rw [List.append_nil]
    exact last w free
  | cons c s ih =>
    intro w free
    by_cases delimiter : p c = true
    · exact next w c s free delimiter (ih [] (by simp))
    · rw [List.append_cons]
      refine ih (w ++ [c]) fun d mem => ?_
      rcases List.mem_append.mp mem with mem | mem
      · exact free d mem
      · rw [List.mem_singleton.mp mem]
        simpa using delimiter

/-- No piece holds a delimiter. -/
theorem free_of_mem_pieces {q : List α × Option α} (mem : q ∈ pieces p s) :
    ∀ c ∈ q.1, p c = false := by
  induction s using pieces_induction (p := p) with
  | last w free =>
    rw [pieces_free free, List.mem_singleton] at mem
    rw [mem]
    exact free
  | next w d s free delimiter ih =>
    rw [pieces_delimited free delimiter, List.mem_cons] at mem
    rcases mem with rfl | mem
    · exact free
    · exact ih mem

/-- Every piece in front of another one has its delimiter. -/
theorem delimited_pieces (s : List α) :
    (pieces p s).Pairwise fun q _ => ∃ d, q.2 = some d ∧ p d = true := by
  induction s using pieces_induction (p := p) with
  | last w free =>
    rw [pieces_free free]
    exact List.pairwise_singleton _ _
  | next w d s free delimiter ih =>
    rw [pieces_delimited free delimiter, List.pairwise_cons]
    exact ⟨fun _ _ => ⟨d, rfl, delimiter⟩, ih⟩

/-- Words with their delimiters between them. -/
def joined : List (List α × Option α) → List α
  | [] => []
  | [(w, _)] => w
  | (w, d) :: q :: ps => w ++ d.toList ++ joined (q :: ps)

/-- The words are read back from the text in which they are joined. -/
theorem map_fst_pieces_joined {ps : List (List α × Option α)} (some_word : ps ≠ [])
    (free : ∀ q ∈ ps, ∀ c ∈ q.1, p c = false)
    (delimited : ps.Pairwise fun q _ => ∃ d, q.2 = some d ∧ p d = true) :
    (pieces p (joined ps)).map Prod.fst = ps.map Prod.fst := by
  induction ps with
  | nil => exact absurd rfl some_word
  | cons q ps ih =>
    obtain ⟨w, o⟩ := q
    have word := free (w, o) List.mem_cons_self
    cases ps with
    | nil => rw [joined, pieces_free word]; rfl
    | cons q' ps =>
      rw [List.pairwise_cons] at delimited
      obtain ⟨d, rfl, delimiter⟩ := delimited.1 q' List.mem_cons_self
      have rest := ih (List.cons_ne_nil _ _)
        (fun q mem => free q (List.mem_cons_of_mem _ mem)) delimited.2
      rw [joined, Option.toList_some, List.append_assoc, List.singleton_append,
        pieces_delimited word delimiter, List.map_cons, rest]
      rfl

end Pieces

end Lib

import SourceNavigator.Cpp.Types.Plain
import Mathlib.Data.List.Infix
import Mathlib.Data.List.TakeWhile

/-!
The tokens of a text that is put together with `f_Strcat`.

Two texts that stand behind one another have the tokens of the first and then
those of the second, when no word and no pair of colons is formed at the seam.
`f_Strcat` sees to the words; so the tokens of the text of a plain type are
those of its words and names with the punctuation of its operators between them.
-/

namespace SourceNavigator.Cpp.Types

variable {a b : Text} {n m : Nat}

/-! ### Texts behind one another -/

theorem length_dropWhile_le (p : UInt8 → Bool) (pc : Text) : (pc.dropWhile p).length ≤ pc.length :=
  (List.dropWhile_suffix p).length_le

/-- Any number of steps that is not less than the length gives the same tokens. -/
theorem lexFrom_of_le {pc : Text} (enough : pc.length ≤ n) : lexFrom n pc = lex pc := by
  suffices same : ∀ n m (pc : Text), pc.length ≤ n → pc.length ≤ m → lexFrom n pc = lexFrom m pc from
    same n pc.length pc enough (Nat.le_refl _)
  clear enough
  intro n
  induction n with
  | zero =>
    intro m pc none _
    rw [List.eq_nil_of_length_eq_zero (Nat.le_zero.mp none)]
    cases m <;> rfl
  | succ n ih =>
    intro m pc enough enough'
    cases pc with
    | nil => cases m <;> rfl
    | cons yychar pcLex =>
      obtain ⟨m, rfl⟩ : ∃ k, m = k + 1 := ⟨m - 1, by simp at enough'; omega⟩
      simp only [List.length_cons, Nat.add_le_add_iff_right] at enough enough'
      have dropped := length_dropWhile_le continuesWord pcLex
      unfold lexFrom
      rw [ih m pcLex enough enough', ih m _ (Nat.le_trans dropped enough) (Nat.le_trans dropped enough')]
      split
      · rfl
      · split
        · rfl
        · split
          · rfl
          · split
            · split
              · rename_i pcLex
                simp only [List.length_cons] at enough enough'
                rw [ih m pcLex (by omega) (by omega)]
              · rw [ih m _ enough enough']
            · rfl

theorem lex_cons (yychar : UInt8) (pcLex : Text) : lex (yychar :: pcLex) =
    if yychar = 0 then []
    else if beginsWord yychar then
      ⟨wordCode (yychar :: pcLex.takeWhile continuesWord), yychar :: pcLex.takeWhile continuesWord⟩ ::
        lex (pcLex.dropWhile continuesWord)
    else if yychar = 32 ∨ yychar = 9 ∨ yychar = 13 ∨ yychar = 10 then lex pcLex
    else if yychar = 58 then
      if pcLex.head? = some 58 then ⟨SN_CLCL, [58, 58]⟩ :: lex pcLex.tail else ⟨58, [58]⟩ :: lex pcLex
    else ⟨yychar.toNat, [yychar]⟩ :: lex pcLex := by
  change lexFrom (pcLex.length + 1) (yychar :: pcLex) = _
  unfold lexFrom
  rw [lexFrom_of_le (Nat.le_refl _), lexFrom_of_le (length_dropWhile_le _ _)]
  split
  · rfl
  · split
    · rfl
    · split
      · rfl
      · split
        · split
          · rw [lexFrom_of_le (by simp)]
            rfl
          · rename_i single
            rw [lexFrom_of_le (Nat.le_refl _), if_neg]
            intro double
            obtain ⟨pcLex', same⟩ := List.head?_eq_some_iff.mp double
            exact single pcLex' same
        · rfl

/-- No word and no pair of colons is formed at the seam. -/
def Apart (a b : Text) : Prop :=
  ∀ c ∈ a.getLast?, ∀ d ∈ b.head?, ¬ (continuesWord c = true ∧ continuesWord d = true) ∧ ¬ (c = 58 ∧ d = 58)

theorem Apart.suffix {s : Text} (apart : Apart a b) (suffix : s <:+ a) : Apart s b := by
  intro c last
  refine apart c ?_
  obtain ⟨front, rfl⟩ := suffix
  rw [List.getLast?_append, Option.mem_def.mp last]
  rfl

/-- A word that goes up to the seam ends there. -/
theorem stops_at_seam {c : UInt8} {s : Text} (begins : beginsWord c = true)
    (whole : ∀ d ∈ s, continuesWord d = true) (apart : Apart (c :: s) b) :
    b.takeWhile continuesWord = [] ∧ b.dropWhile continuesWord = b := by
  have continues : continuesWord c = true := by
    simp only [beginsWord, continuesWord, isalnum, Bool.or_eq_true, Bool.and_eq_true, decide_eq_true_eq] at begins ⊢
    tauto
  cases b with
  | nil => exact ⟨rfl, rfl⟩
  | cons d b =>
    obtain ⟨last, isLast⟩ : ∃ e, (c :: s).getLast? = some e := ⟨_, List.getLast?_cons⟩
    have among := List.mem_of_getLast? isLast
    have stop : ¬ continuesWord d = true := by
      intro more
      refine (apart last isLast d rfl).1 ⟨?_, more⟩
      cases List.mem_cons.mp among with
      | inl same => exact same ▸ continues
      | inr inside => exact whole last inside
    exact ⟨by rw [List.takeWhile_cons, if_neg stop], by rw [List.dropWhile_cons, if_neg stop]⟩

theorem lex_append (nul : (0 : UInt8) ∉ a) (apart : Apart a b) : lex (a ++ b) = lex a ++ lex b := by
  generalize len : a.length = k
  induction k using Nat.strongRecOn generalizing a with
  | ind k ih =>
    -- what stands behind the first token
    have rest {s : Text} (suffix : s <:+ a) (shorter : s.length < a.length) :
        lex (s ++ b) = lex s ++ lex b :=
      ih s.length (len ▸ shorter) (fun among => nul (suffix.subset among)) (apart.suffix suffix) rfl
    cases a with
    | nil => rfl
    | cons c s =>
      have tail := rest (List.suffix_cons c s) (Nat.lt_succ_self _)
      rw [List.cons_append, lex_cons, lex_cons c s]
      have notNul : c ≠ 0 := fun zero => nul (zero ▸ List.mem_cons_self)
      rw [if_neg notNul, if_neg notNul]
      by_cases begins : beginsWord c = true
      · rw [if_pos begins, if_pos begins]
        by_cases whole : ∀ d ∈ s, continuesWord d = true
        · -- the word goes up to the seam
          have stop := stops_at_seam begins whole apart
          rw [List.takeWhile_append_of_pos whole, List.dropWhile_append_of_pos whole, stop.1, stop.2,
            List.append_nil, List.takeWhile_eq_self_iff.mpr whole, List.dropWhile_eq_nil_iff.mpr whole]
          rfl
        · have dropped : s.dropWhile continuesWord ≠ [] := mt List.dropWhile_eq_nil_iff.mp whole
          have taken : (s.takeWhile continuesWord).length ≠ s.length := by
            intro same
            have parts := congrArg List.length (@List.takeWhile_append_dropWhile _ continuesWord s)
            rw [List.length_append, same] at parts
            exact dropped (List.eq_nil_of_length_eq_zero (by omega))
          rw [List.takeWhile_append, if_neg taken, List.dropWhile_append, if_neg (by simpa using dropped)]
          have suffix : s.dropWhile continuesWord <:+ c :: s :=
            (List.dropWhile_suffix continuesWord).trans (List.suffix_cons c s)
          rw [rest suffix (Nat.lt_succ_of_le (length_dropWhile_le continuesWord s)), List.cons_append]
      · rw [if_neg begins, if_neg begins]
        by_cases blank : c = 32 ∨ c = 9 ∨ c = 13 ∨ c = 10
        · rw [if_pos blank, if_pos blank, tail]
        · rw [if_neg blank, if_neg blank]
          by_cases colon : c = 58
          · rw [if_pos colon, if_pos colon]
            cases s with
            | nil =>
              have single : b.head? ≠ some 58 := fun next =>
                (apart c rfl 58 next).2 ⟨colon, rfl⟩
              rw [List.nil_append, if_neg single, if_neg (by simp)]
              rfl
            | cons d s =>
              have behind := rest (s := s) ((List.suffix_cons d s).trans (List.suffix_cons c _))
                (by simp only [List.length_cons]; omega)
              rw [List.cons_append, List.head?_cons, List.head?_cons, List.tail_cons, List.tail_cons]
              rw [List.cons_append] at tail
              rw [behind, tail]
              split
              · rfl
              · rfl
          · rw [if_neg colon, if_neg colon, tail]
            rfl

/-! ### Texts that are put together -/

theorem endsWord_of_continuesWord {c : UInt8} (continues : continuesWord c = true) : endsWord c = true := by
  simp only [continuesWord, endsWord, Bool.or_eq_true, decide_eq_true_eq] at continues ⊢
  exact .inl continues

/-- The tokens of the first text, and then those of the second. -/
theorem lex_strcat_of_colon (nul : (0 : UInt8) ∉ a) (head : b.head? ≠ some 62)
    (colon : ¬ (a.getLast? = some 58 ∧ b.head? = some 58)) : lex (f_Strcat a b) = lex a ++ lex b := by
  unfold f_Strcat
  split
  · rw [show lex [] = [] from rfl, List.append_nil]
  · rename_i d b
    split
    · rename_i c last
      split
      · have apart : Apart a (32 :: d :: b) := by
          rintro c - e first
          obtain rfl : (32 : UInt8) = e := Option.some.inj first
          exact ⟨fun word => absurd word.2 (by decide), fun pair => absurd pair.2 (by decide)⟩
        rw [lex_append nul apart]
        rfl
      · rename_i notWord
        have apart : Apart a (d :: b) := by
          intro c' last' e first
          obtain rfl : d = e := Option.some.inj first
          obtain rfl : c = c' := Option.some.inj (last.symm.trans last')
          refine ⟨fun word => notWord ?_, fun pair => colon ⟨pair.1 ▸ last, congrArg some pair.2⟩⟩
          have notAngle : d ≠ 62 := fun angle => head (congrArg some angle)
          simp [endsWord_of_continuesWord word.1, notAngle]
        exact lex_append nul apart
    · rename_i none
      rw [List.getLast?_eq_none_iff.mp none]
      rfl

/-- A text that may stand anywhere among others. -/
structure Chunk (pc : Text) : Prop where
  nul : (0 : UInt8) ∉ pc
  head : pc.head? ≠ some 62
  last : pc.getLast? ≠ some 58

theorem chunk_nil : Chunk [] := ⟨by decide, by decide, by decide⟩

theorem lex_strcat (first : Chunk a) (second : Chunk b) : lex (f_Strcat a b) = lex a ++ lex b :=
  lex_strcat_of_colon first.nul second.head fun colons => first.last colons.1

/-- The characters of a text that is put together. -/
theorem f_Strcat_eq (a b : Text) : ∃ blank : Text, (blank = [] ∨ blank = [32] ∧ a ≠ []) ∧
    (b = [] → blank = []) ∧ f_Strcat a b = a ++ (blank ++ b) := by
  unfold f_Strcat
  split
  · exact ⟨[], .inl rfl, fun _ => rfl, by simp⟩
  · split
    · rename_i c last
      split
      · refine ⟨[32], .inr ⟨rfl, ?_⟩, nofun, rfl⟩
        rintro rfl
        cases last
      · exact ⟨[], .inl rfl, nofun, rfl⟩
    · exact ⟨[], .inl rfl, nofun, rfl⟩

theorem Chunk.strcat_of_last (nul : (0 : UInt8) ∉ a) (head : a.head? ≠ some 62) (second : Chunk b)
    (last : b = [] → a.getLast? ≠ some 58) : Chunk (f_Strcat a b) := by
  obtain ⟨blank, cases, empty, eq⟩ := f_Strcat_eq a b
  rw [eq]
  constructor
  · intro among
    rcases List.mem_append.mp among with among | among
    · exact nul among
    · rcases List.mem_append.mp among with among | among
      · rcases cases with rfl | ⟨rfl, -⟩
        · exact absurd among List.not_mem_nil
        · exact absurd among (by decide)
      · exact second.nul among
  · cases a with
    | nil =>
      rcases cases with rfl | ⟨-, no⟩
      · exact second.head
      · exact absurd rfl no
    | cons c a => exact head
  · cases b with
    | nil =>
      rw [empty rfl]
      simpa using last rfl
    | cons d b =>
      rw [← List.append_assoc, List.getLast?_append_of_ne_nil _ (List.cons_ne_nil d b)]
      exact second.last

theorem Chunk.strcat (first : Chunk a) (second : Chunk b) : Chunk (f_Strcat a b) :=
  Chunk.strcat_of_last first.nul first.head second fun _ => first.last

theorem chunk_strcats {words : List Text} (first : Chunk a) (chunks : ∀ word ∈ words, Chunk word) :
    Chunk (f_Strcats a words) ∧ lex (f_Strcats a words) = lex a ++ words.flatMap lex := by
  induction words generalizing a with
  | nil => exact ⟨first, (List.append_nil _).symm⟩
  | cons word words ih =>
    have here := chunks word List.mem_cons_self
    obtain ⟨chunk, tokens⟩ := ih (first.strcat here) fun word among => chunks word (List.mem_cons_of_mem _ among)
    refine ⟨chunk, ?_⟩
    rw [show f_Strcats a (word :: words) = f_Strcats (f_Strcat a word) words from rfl, tokens,
      lex_strcat first here, List.append_assoc]
    rfl

end SourceNavigator.Cpp.Types

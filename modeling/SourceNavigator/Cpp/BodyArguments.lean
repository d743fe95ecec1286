import SourceNavigator.Cpp.Symtab

/-!
The arguments of a function body (`f_CompoundStatement` in `cpp/cpplib/cp_statement.c`).

The types and the names of the arguments come as two texts with commas between
them, which are cut in step. A comma between angle brackets is passed over, one
between parentheses is not. `f_CompoundStatement_entered` says when the arguments
are entered with their own types: when no comma inside a type is taken for one
between two arguments, up to the last argument that has a name.
-/

namespace SourceNavigator.Cpp

open Parsers

abbrev COMMA : UInt8 := 44

/-- The count of the angle brackets behind a character. -/
def angle (in_ : Int) (pc : UInt8) : Int := if pc = 60 then in_ + 1 else if pc = 62 then in_ - 1 else in_

/-- The parts before and behind the character that is found. -/
def my_strchr (c : UInt8) : Int → Text → Option (Text × Text)
  | _, [] => none
  | in_, pc :: text =>
    if in_ = 0 ∧ pc = c then some ([], text)
    else (my_strchr c (angle in_ pc) text).map fun parts => (pc :: parts.1, parts.2)

/-- The types and names that the loop over the arguments finds, with at most `n` commas. -/
def argumentParts : Nat → Text → Text → List (Text × Text)
  | n, types, names =>
    match n, my_strchr COMMA 0 types, my_strchr COMMA 0 names with
    | n + 1, some (types_beg, types), some (names_beg, names) =>
      (types_beg, names_beg) :: argumentParts n types names
    | _, types_end, names_end => [((types_end.map Prod.fst).getD types, (names_end.map Prod.fst).getD names)]

/-- Whether an argument is entered: it has a name, and it is no ellipsis. -/
def isEntered (argument : Text × Text) : Bool := !argument.2.isEmpty && argument.1.head? != some 46

/-- The arguments that are entered, each with its type; no text has more commas than characters. -/
def enteredArguments (types names : Text) : List (Text × Text) :=
  (argumentParts types.length types names).filter isEntered

/-- The part of `f_CompoundStatement` in front of `compound_statement`; `Type_` is what is made of the
text of a type and a name with `f_TypeFromString` and `f_TypeBasic`. -/
def enterArguments {D : Type} (Type_ : Text → Text → D) (niveauComp : Int) (SymtabVariable : Symtab D)
    (types names : Text) : Symtab D :=
  (enteredArguments types names).foldl
    (fun symtab argument => SymtabInsert symtab argument.2 (Type_ argument.1 argument.2) niveauComp)
    SymtabVariable

/-! ### Texts between commas -/

variable {in_ : Int} {t s a b name types names : Text} {arguments : List (Text × Text)} {n : Nat}

/-- The count of the angle brackets behind a text. -/
def angles (in_ : Int) (t : Text) : Int := t.foldl angle in_

/-- No comma of the text is found, and the one behind it is. -/
def Closed (t : Text) : Prop := my_strchr COMMA 0 t = none ∧ angles 0 t = 0

/-- The texts of the arguments with commas between them. -/
def joined (texts : List Text) : Text := List.intercalate [COMMA] texts

theorem joined_cons (t : Text) {texts : List Text} (more : texts ≠ []) :
    joined (t :: texts) = t ++ COMMA :: joined texts := by
  obtain ⟨u, us, rfl⟩ := List.exists_cons_of_ne_nil more
  simp [joined, List.intercalate_cons_cons]

/-- Behind a text in which nothing is found the search goes on. -/
theorem my_strchr_append (none : my_strchr COMMA in_ t = none) :
    my_strchr COMMA in_ (t ++ s) =
      (my_strchr COMMA (angles in_ t) s).map fun parts => (t ++ parts.1, parts.2) := by
  induction t generalizing in_ with
  | nil => simp [angles]
  | cons c t ih =>
    rw [my_strchr] at none
    split at none
    · cases none
    · rename_i other
      rw [List.cons_append, my_strchr, if_neg other, ih (Option.map_eq_none_iff.mp none), Option.map_map]
      rfl

theorem my_strchr_append_of_some (found : my_strchr COMMA in_ t = some (a, b)) :
    my_strchr COMMA in_ (t ++ s) = some (a, b ++ s) := by
  induction t generalizing in_ a with
  | nil => cases found
  | cons c t ih =>
    rw [my_strchr] at found
    rw [List.cons_append, my_strchr]
    split at found
    · rename_i here
      obtain ⟨rfl, rfl⟩ := Prod.mk.inj (Option.some.inj found)
      rw [if_pos here]
    · rename_i other
      obtain ⟨⟨a', b'⟩, behind, same⟩ := Option.map_eq_some_iff.mp found
      obtain ⟨rfl, rfl⟩ := Prod.mk.inj same
      rw [if_neg other, ih behind]
      rfl

theorem my_strchr_length (found : my_strchr COMMA in_ t = some (a, b)) : a.length + b.length < t.length := by
  induction t generalizing in_ a with
  | nil => cases found
  | cons c t ih =>
    rw [my_strchr] at found
    split at found
    · obtain ⟨rfl, rfl⟩ := Prod.mk.inj (Option.some.inj found)
      simp
    · obtain ⟨⟨a', b'⟩, behind, same⟩ := Option.map_eq_some_iff.mp found
      obtain ⟨rfl, rfl⟩ := Prod.mk.inj same
      have := ih behind
      dsimp only at this ⊢
      simp only [List.length_cons]
      omega

theorem my_strchr_prefix (found : my_strchr COMMA in_ t = some (a, b)) : a <+: t := by
  induction t generalizing in_ a with
  | nil => cases found
  | cons c t ih =>
    rw [my_strchr] at found
    split at found
    · obtain ⟨rfl, rfl⟩ := Prod.mk.inj (Option.some.inj found)
      exact List.nil_prefix
    · obtain ⟨⟨a', b'⟩, behind, same⟩ := Option.map_eq_some_iff.mp found
      obtain ⟨rfl, rfl⟩ := Prod.mk.inj same
      exact (List.prefix_cons_inj c).mpr (ih behind)

theorem Closed.found (closed : Closed t) : my_strchr COMMA 0 (t ++ COMMA :: s) = some (t, s) := by
  rw [my_strchr_append closed.1, closed.2, my_strchr, if_pos ⟨rfl, rfl⟩]
  simp

/-- A name, which has neither commas nor angle brackets. -/
def IsName (name : Text) : Prop := ∀ c ∈ name, c ≠ COMMA ∧ c ≠ 60 ∧ c ≠ 62

theorem IsName.closed (isName : IsName name) : Closed name := by
  induction name with
  | nil => exact ⟨rfl, rfl⟩
  | cons c name ih =>
    obtain ⟨comma, opens, closes⟩ := isName c List.mem_cons_self
    obtain ⟨none, level⟩ := ih fun d among => isName d (List.mem_cons_of_mem _ among)
    have same : angle 0 c = 0 := by rw [angle, if_neg opens, if_neg closes]
    constructor
    · rw [my_strchr, if_neg fun here => comma here.2, same, none]
      rfl
    · rw [angles, List.foldl_cons, same]
      exact level

/-! ### The loop -/

/-- Where both texts have a comma, both are cut. -/
theorem argumentParts_cons {types' names' : Text} (more : types.length ≤ n)
    (types_end : my_strchr COMMA 0 types = some (a, types')) (names_end : my_strchr COMMA 0 names = some (b, names')) :
    argumentParts n types names = (a, b) :: argumentParts (n - 1) types' names' := by
  have := my_strchr_length types_end
  obtain ⟨n, rfl⟩ : ∃ m, n = m + 1 := ⟨n - 1, by omega⟩
  rw [argumentParts.eq_def]
  dsimp only
  rw [types_end, names_end]
  rfl

/-- The last argument. -/
theorem argumentParts_last (types_end : my_strchr COMMA 0 types = none) (names_end : my_strchr COMMA 0 names = none) :
    argumentParts n types names = [(types, names)] := by
  unfold argumentParts
  rw [types_end, names_end]
  cases n <;> rfl

/-- Without a name nothing is entered. -/
theorem filter_nameless (commas : ∀ c ∈ names, c = COMMA) (n : Nat) (types : Text) :
    (argumentParts n types names).filter isEntered = [] := by
  induction n generalizing types names with
  | zero =>
    unfold argumentParts
    cases names with
    | nil => simp [my_strchr, isEntered]
    | cons c names =>
      obtain rfl := commas c List.mem_cons_self
      simp [my_strchr, isEntered]
  | succ n ih =>
    cases names with
    | nil =>
      unfold argumentParts
      cases my_strchr COMMA 0 types <;> simp [my_strchr, isEntered]
    | cons c names =>
      obtain rfl := commas c List.mem_cons_self
      have found : my_strchr COMMA 0 (COMMA :: names) = some ([], names) := by simp [my_strchr]
      unfold argumentParts
      rw [found]
      cases my_strchr COMMA 0 types with
      | none => simp [isEntered]
      | some parts =>
        have rest := ih (fun d among => commas d (List.mem_cons_of_mem _ among)) parts.2
        simp [isEntered, rest]

theorem joined_nameless {texts : List Text} (nameless : ∀ t ∈ texts, t = []) : ∀ c ∈ joined texts, c = COMMA := by
  induction texts with
  | nil => simp [joined]
  | cons t texts ih =>
    obtain rfl := nameless t List.mem_cons_self
    have rest := ih fun u among => nameless u (List.mem_cons_of_mem _ among)
    by_cases more : texts = []
    · subst more
      simp [joined]
    · rw [joined_cons [] more]
      intro c among
      rcases List.mem_cons.mp among with rfl | among
      · rfl
      · exact rest c among

/-- Up to the last argument that has a name, no comma of a type is found, and the one behind the
type is. -/
def Separated : List (Text × Text) → Prop
  | [] => True
  | argument :: l =>
    ((∃ other ∈ argument :: l, other.2 ≠ []) →
      my_strchr COMMA 0 argument.1 = none ∧ (l ≠ [] → angles 0 argument.1 = 0)) ∧ Separated l

theorem entered_of_separated (names : ∀ argument ∈ arguments, IsName argument.2) (separated : Separated arguments)
    (enough : (joined (arguments.map Prod.fst)).length ≤ n) :
    (argumentParts n (joined (arguments.map Prod.fst)) (joined (arguments.map Prod.snd))).filter isEntered =
      arguments.filter isEntered := by
  induction arguments generalizing n with
  | nil => exact filter_nameless (by simp [joined]) n _
  | cons argument l ih =>
    by_cases named : ∃ other ∈ argument :: l, other.2 ≠ []
    · obtain ⟨none, level⟩ := separated.1 named
      have name := (names argument List.mem_cons_self).closed
      by_cases more : l = []
      · subst more
        rw [show joined ([argument].map Prod.fst) = argument.1 by simp [joined],
          show joined ([argument].map Prod.snd) = argument.2 by simp [joined],
          argumentParts_last none name.1]
      · have first : l.map Prod.fst ≠ [] := by simpa using more
        have second : l.map Prod.snd ≠ [] := by simpa using more
        rw [List.map_cons, joined_cons _ first] at enough ⊢
        rw [List.map_cons, joined_cons _ second,
          argumentParts_cons enough (Closed.found ⟨none, level more⟩) name.found, List.filter_cons, List.filter_cons]
        rw [ih (fun other among => names other (List.mem_cons_of_mem _ among)) separated.2 (by
          simp only [List.length_append, List.length_cons] at enough
          omega)]
    · push Not at named
      rw [filter_nameless (joined_nameless ?_) n]
      · symm
        rw [List.filter_eq_nil_iff]
        intro other among
        simp [isEntered, named other among]
      · intro t among
        obtain ⟨other, isOther, rfl⟩ := List.mem_map.mp among
        exact named other isOther

/-- What stands in front of the first comma that is found. -/
def firstPart (types : Text) : Text := ((my_strchr COMMA 0 types).map Prod.fst).getD types

theorem head_argumentParts (n : Nat) (types names : Text) :
    (argumentParts n types names).head? = some (firstPart types, firstPart names) := by
  unfold argumentParts firstPart
  split
  · rename_i types_end names_end
    rw [types_end, names_end]
    rfl
  · rfl

theorem firstPart_prefix (types : Text) : firstPart types <+: types := by
  unfold firstPart
  cases found : my_strchr COMMA 0 types with
  | none => exact List.prefix_rfl
  | some parts => exact my_strchr_prefix found

theorem Closed.firstPart_eq (closed : Closed t) : firstPart (t ++ COMMA :: s) = t := by
  rw [firstPart, closed.found]
  rfl

/-- Nothing is found in a text that is the first part itself. -/
theorem my_strchr_of_firstPart (same : firstPart (t ++ s) = t) : my_strchr COMMA 0 t = none := by
  cases found : my_strchr COMMA 0 t with
  | none => rfl
  | some parts =>
    have := my_strchr_length found
    rw [firstPart, my_strchr_append_of_some found] at same
    have length := congrArg List.length same
    simp only [Option.map_some, Option.getD_some] at length
    omega

/-- The comma behind a text that is the first part itself is found. -/
theorem angles_of_firstPart (same : firstPart (t ++ COMMA :: s) = t) : angles 0 t = 0 := by
  by_contra level
  have none := my_strchr_of_firstPart same
  rw [firstPart, my_strchr_append none, my_strchr, if_neg fun here => level here.1] at same
  have length := congrArg List.length same
  cases found : my_strchr COMMA (angle (angles 0 t) COMMA) s with
  | none => simp [found] at length
  | some parts => simp [found] at length

/-- Where every argument is entered, a comma that is found inside a type, or one behind a type that
is not, changes what is entered. -/
theorem separated_of_entered (names : ∀ argument ∈ arguments, IsName argument.2)
    (all : ∀ argument ∈ arguments, isEntered argument = true)
    (enough : (joined (arguments.map Prod.fst)).length ≤ n)
    (entered : (argumentParts n (joined (arguments.map Prod.fst)) (joined (arguments.map Prod.snd))).filter isEntered =
      arguments) : Separated arguments := by
  induction arguments generalizing n with
  | nil => trivial
  | cons argument l ih =>
    have name := (names argument List.mem_cons_self).closed
    have isArgument := all argument List.mem_cons_self
    -- what is behind the first type and the first name
    obtain ⟨s, types, bare⟩ : ∃ s, joined ((argument :: l).map Prod.fst) = argument.1 ++ s ∧
        (s = [] ∧ l = [] ∨ s = COMMA :: joined (l.map Prod.fst) ∧ l ≠ []) := by
      by_cases more : l = []
      · exact ⟨[], by simp [joined, more], .inl ⟨rfl, more⟩⟩
      · exact ⟨_, joined_cons _ (by simpa using more), .inr ⟨rfl, more⟩⟩
    have second : firstPart (joined ((argument :: l).map Prod.snd)) = argument.2 := by
      by_cases more : l = []
      · rw [more, show joined ([argument].map Prod.snd) = argument.2 by simp [joined], firstPart, name.1]
        rfl
      · rw [List.map_cons, joined_cons _ (by simpa using more), name.firstPart_eq]
    have head := head_argumentParts n (joined ((argument :: l).map Prod.fst)) (joined ((argument :: l).map Prod.snd))
    rw [second, types] at head
    obtain ⟨others, parts⟩ := List.head?_eq_some_iff.mp head
    -- the first part is entered, as the argument is
    have first : isEntered (firstPart (argument.1 ++ s), argument.2) = true := by
      simp only [isEntered, Bool.and_eq_true, bne_iff_ne] at isArgument ⊢
      refine ⟨isArgument.1, fun dot => isArgument.2 ?_⟩
      obtain ⟨behind, whole⟩ := firstPart_prefix (argument.1 ++ s)
      have begins : (argument.1 ++ s).head? = some 46 := by
        rw [← whole, List.head?_append, dot]
        rfl
      cases type : argument.1 with
      | cons c t =>
        rw [type] at begins
        exact begins
      | nil =>
        rw [type] at begins
        rcases bare with ⟨rfl, -⟩ | ⟨rfl, -⟩
        · cases begins
        · exact absurd (Option.some.inj begins) (by decide)
    rw [types, parts, List.filter_cons, if_pos first] at entered
    have same : firstPart (argument.1 ++ s) = argument.1 := congrArg Prod.fst (List.cons.inj entered).1
    have none := my_strchr_of_firstPart same
    rcases bare with ⟨-, rfl⟩ | ⟨rfl, more⟩
    · exact ⟨fun _ => ⟨none, fun no => absurd rfl no⟩, trivial⟩
    · have level := angles_of_firstPart same
      refine ⟨fun _ => ⟨none, fun _ => level⟩, ?_⟩
      have rest := argumentParts_cons (types ▸ enough) (Closed.found ⟨none, level⟩)
        (name.found (s := joined (l.map Prod.snd)))
      rw [types] at enough
      rw [List.map_cons, @joined_cons argument.2 (l.map Prod.snd) (by simpa using more), rest] at parts
      refine ih (n := n - 1) (fun other among => names other (List.mem_cons_of_mem _ among))
        (fun other among => all other (List.mem_cons_of_mem _ among)) ?_ ?_
      · simp only [List.length_append, List.length_cons] at enough
        omega
      · rw [(List.cons.inj parts).2]
        exact (List.cons.inj entered).2

end SourceNavigator.Cpp

import SourceNavigator.Cpp.BodyArguments

/-!
Bodies inside a function body (`cpp/cpplib/cp_statement.c`).

The body of a member function of a local class is parsed in the middle of a
declaration, with the same `f_CompoundStatement` as the function body around it.
It ends by clearing the symbol table, with whatever was declared in the blocks
around it. `f_CompoundStatement_keeps_iff` says when nothing is lost: when nothing
has been declared yet in the blocks that are open, arguments included.
-/

namespace SourceNavigator.Cpp

open Lib Parsers

/-- `SymtabClear` -/
def SymtabClear : Symtab D := SymtabCreate

/-- What is parsed in a body, as far as the symbol table of the variables is concerned: a declared
variable with its type, a compound statement, and a body in a declaration for which
`f_CompoundStatement( 0, 0 )` is called. -/
inductive Part (D : Type)
  | declaration (name : Text) (type : D)
  | compound_statement (parts : List (Part D))
  | body (parts : List (Part D))

/-- The variables of the parser. -/
structure Scope (D : Type) where
  niveauComp : Int
  SymtabVariable : Symtab D

variable {D : Type}

def CompCreate (s : Scope D) : Scope D := { s with niveauComp := s.niveauComp + 1 }

def CompDestroy (s : Scope D) : Option (Scope D) :=
  (SymtabNiveauDestroy s.SymtabVariable (s.niveauComp - 1)).map fun SymtabVariable =>
    ⟨s.niveauComp - 1, SymtabVariable⟩

/-- The symbol table behind a body, with the variables of the blocks that are still open, the one
declared last in front. -/
structure Behind (D : Type) where
  isOpen : List (Text × D)
  SymtabVariable : Symtab D

/-- The variables that are declared in the block itself. -/
def Part.declares : Part D → List (Text × D)
  | .declaration name type => [(name, type)]
  | _ => []

mutual

/-- A part of a body, with what is behind the bodies in it. -/
def statement (isOpen : List (Text × D)) (s : Scope D) : Part D → Option (Scope D × List (Behind D))
  | .declaration name type =>
    some ({ s with SymtabVariable := SymtabInsert s.SymtabVariable name type s.niveauComp }, [])
  | .compound_statement parts =>
    (statements isOpen (CompCreate s) parts).bind fun r => (CompDestroy r.1).map fun s => (s, r.2)
  | .body parts =>
    (statements isOpen (CompCreate s) parts).bind fun r => (CompDestroy r.1).map fun s =>
      ({ s with SymtabVariable := SymtabClear }, r.2 ++ [⟨isOpen, SymtabClear⟩])

def statements (isOpen : List (Text × D)) (s : Scope D) : List (Part D) → Option (Scope D × List (Behind D))
  | [] => some (s, [])
  | part :: parts =>
    (statement isOpen s part).bind fun r =>
      (statements (part.declares ++ isOpen) r.1 parts).map fun r' => (r'.1, r.2 ++ r'.2)

end

/-- The function body with its arguments, from the empty table. -/
def f_CompoundStatement (Type_ : Text → Text → D) (types names : Text) (parts : List (Part D)) :
    Option (Scope D × List (Behind D)) :=
  let isOpen := ((enteredArguments types names).map fun argument => (argument.2, Type_ argument.1 argument.2)).reverse
  (statements isOpen (CompCreate ⟨0, enterArguments Type_ 0 SymtabCreate types names⟩) parts).bind fun r =>
    (CompDestroy r.1).map fun s => ({ s with SymtabVariable := SymtabClear }, r.2)

/-- Every variable of an open block is found, with the type of the declaration that is innermost. -/
def Behind.Keeps (b : Behind D) : Prop :=
  ∀ name type, b.isOpen.lookup name = some type → (SymtabFind b.SymtabVariable name).2 = some type

mutual

/-- Where a body stands, nothing has been declared yet in the blocks that are open. -/
def Part.Unopened (isOpen : List (Text × D)) : Part D → Prop
  | .declaration .. => True
  | .compound_statement parts => unopenedParts isOpen parts
  | .body parts => isOpen = [] ∧ unopenedParts isOpen parts

def unopenedParts (isOpen : List (Text × D)) : List (Part D) → Prop
  | [] => True
  | part :: parts => part.Unopened isOpen ∧ unopenedParts (part.declares ++ isOpen) parts

end

/-! ### The table stays sound -/

section Sound

variable {symtab t : Symtab D} {iNiveau : Int} {fuel iCount : Nat} {scopes : Scopes D} {types names : Text}
  {Type_ : Text → Text → D}

/-- The names are sorted, and each has an entry. -/
structure Sound (symtab : Symtab D) : Prop where
  sorted : Sorted keyOrder symtab.data
  some_entry : ∀ e ∈ symtab.data, e.2 ≠ []

theorem Represents.sound (h : Represents symtab scopes) : Sound symtab :=
  ⟨h.sorted, fun _ mem => (h.some_entry mem).1⟩

/-- A sound table represents its own entries. -/
theorem Sound.represents (sound : Sound symtab) : ∃ scopes, Represents symtab scopes := by
  classical
  refine ⟨fun name => if h : ∃ stack, (name, stack) ∈ symtab.data then h.choose else [], sound.sorted, ?_⟩
  intro name stack
  constructor
  · intro mem
    have h : ∃ stack, (name, stack) ∈ symtab.data := ⟨stack, mem⟩
    refine ⟨sound.some_entry _ mem, ?_⟩
    rw [dif_pos h]
    exact sound.sorted.single h.choose_spec mem
  · rintro ⟨some, rfl⟩
    split at some
    · rename_i h
      rw [dif_pos h]
      exact h.choose_spec
    · exact absurd rfl some

theorem Sound.insert (sound : Sound symtab) (name : Text) (pvData : D) (iNiveau : Int) :
    Sound (SymtabInsert symtab name pvData iNiveau) := by
  obtain ⟨scopes, represents⟩ := sound.represents
  exact represents.insert.sound

theorem Sound.clear : Sound (SymtabClear : Symtab D) := represents_create.sound

/-- Every round deletes a name or goes on to the next one. -/
theorem niveauLoop_sound (sound : Sound symtab) (more : 0 < fuel)
    (enough : symtab.data.length + 1 ≤ fuel + symtab.next iCount) :
    ∃ t, niveauLoop iNiveau fuel iCount symtab = some t ∧ Sound t := by
  induction fuel generalizing iCount symtab with
  | zero => exact absurd more (Nat.lt_irrefl 0)
  | succ fuel ih =>
    rw [niveauLoop, BtreeTableSeq]
    generalize place : symtab.next iCount = k at enough ⊢
    obtain ⟨data, cursor⟩ := symtab
    cases slot : data[k]? with
    | none => exact ⟨_, rfl, sound⟩
    | some entry =>
      obtain ⟨name, stack⟩ := entry
      obtain ⟨inside, slot⟩ := List.getElem?_eq_some_iff.mp slot
      obtain ⟨a, b, rfl, length⟩ : ∃ a b, data = a ++ (name, stack) :: b ∧ a.length = k :=
        ⟨data.take k, data.drop (k + 1), by rw [← slot, List.getElem_cons_drop, List.take_append_drop],
          List.length_take_of_le (Nat.le_of_lt inside)⟩
      dsimp only at enough inside
      have others : ∀ e ∈ a ++ b, e.2 ≠ [] := fun e mem => sound.some_entry e (mem_around.mpr (.inr mem))
      have some_entry := sound.some_entry (name, stack) (mem_around.mpr (.inl rfl))
      -- a round after which the name keeps some entries
      have stays : ∀ stack', stack' ≠ [] →
          ∃ t, niveauLoop iNiveau fuel (iCount + 1) ⟨a ++ (name, stack') :: b, k⟩ = some t ∧ Sound t := by
        intro stack' some_entry
        refine ih ⟨sound.sorted.replace, ?_⟩ ?_ ?_
        · intro e mem
          rcases mem_around.mp mem with rfl | mem
          · exact some_entry
          · exact others e mem
        · omega
        · rw [BtreeTable.next, if_neg (Nat.succ_ne_zero iCount)]
          simp only [List.length_append, List.length_cons] at enough ⊢
          omega
      obtain ⟨top, behind, rfl⟩ := List.exists_cons_of_ne_nil some_entry
      cases behind with
      | nil =>
        dsimp only
        split
        · rw [@BtreeTableDelete_eq _ ⟨a ++ (name, [top]) :: b, k⟩ name [top] a b sound.sorted rfl]
          refine ih ⟨sound.sorted.remove, others⟩ ?_ ?_
          · omega
          · rw [BtreeTable.next] at place ⊢
            simp only [List.length_append, List.length_cons] at enough ⊢
            split
            · rename_i first
              rw [if_pos first] at place
              omega
            · omega
        · exact stays [top] (List.cons_ne_nil _ _)
      | cons next rest =>
        dsimp only
        split
        · rw [← length, set_passed, length]
          exact stays (next :: rest) (List.cons_ne_nil _ _)
        · exact stays _ (List.cons_ne_nil _ _)

theorem Sound.niveauDestroy (sound : Sound symtab) (iNiveau : Int) :
    ∃ t, SymtabNiveauDestroy symtab iNiveau = some t ∧ Sound t :=
  niveauLoop_sound sound (Nat.succ_pos _) (Nat.le_refl _)

theorem Sound.enterArguments (types names : Text) : Sound (enterArguments Type_ 0 SymtabCreate types names) := by
  unfold Cpp.enterArguments
  generalize enteredArguments types names = arguments
  suffices all : ∀ symtab : Symtab D, Sound symtab → Sound (arguments.foldl
      (fun symtab argument => SymtabInsert symtab argument.2 (Type_ argument.1 argument.2) 0) symtab) from
    all SymtabCreate Sound.clear
  induction arguments with
  | nil => exact fun symtab sound => sound
  | cons argument arguments ih => exact fun symtab sound => ih _ (sound.insert _ _ _)

end Sound

/-! ### The run of a body -/

section Runs

variable {s : Scope D}

/-- The run comes to an end, and behind every body the table is empty. -/
def Cleared (r : Option (Scope D × List (Behind D))) (unopened : Prop) : Prop :=
  ∃ s bodies, r = some (s, bodies) ∧ Sound s.SymtabVariable ∧
    (∀ b ∈ bodies, b.SymtabVariable = SymtabClear) ∧ ((∀ b ∈ bodies, b.isOpen = []) ↔ unopened)

theorem CompDestroy_sound (sound : Sound s.SymtabVariable) : ∃ t, CompDestroy s = some t ∧ Sound t.SymtabVariable := by
  obtain ⟨t, run, sound⟩ := sound.niveauDestroy (s.niveauComp - 1)
  exact ⟨⟨s.niveauComp - 1, t⟩, by rw [CompDestroy, run, Option.map_some], sound⟩

mutual

theorem statement_cleared (isOpen : List (Text × D)) (s : Scope D) (sound : Sound s.SymtabVariable) :
    ∀ part : Part D, Cleared (statement isOpen s part) (part.Unopened isOpen)
  | .declaration name type =>
    ⟨_, [], rfl, sound.insert _ _ _, by simp, by simp [Part.Unopened]⟩
  | .compound_statement parts => by
    obtain ⟨t, bodies, run, sound, cleared, unopened⟩ := statements_cleared isOpen (CompCreate s) sound parts
    obtain ⟨t', destroyed, sound⟩ := CompDestroy_sound sound
    exact ⟨t', bodies, by simp only [statement, run, Option.bind_some, destroyed, Option.map_some], sound, cleared,
      unopened⟩
  | .body parts => by
    obtain ⟨t, bodies, run, sound, cleared, unopened⟩ := statements_cleared isOpen (CompCreate s) sound parts
    obtain ⟨t', destroyed, sound⟩ := CompDestroy_sound sound
    refine ⟨{ t' with SymtabVariable := SymtabClear }, bodies ++ [⟨isOpen, SymtabClear⟩], ?_, Sound.clear, ?_, ?_⟩
    · rw [statement, run, Option.bind_some, destroyed, Option.map_some]
    · intro b mem
      rcases List.mem_append.mp mem with mem | mem
      · exact cleared b mem
      · rw [List.mem_singleton.mp mem]
    · rw [Part.Unopened, ← unopened]
      simp only [List.mem_append, List.mem_singleton, or_imp, forall_and, forall_eq]
      exact and_comm

theorem statements_cleared (isOpen : List (Text × D)) (s : Scope D) (sound : Sound s.SymtabVariable) :
    ∀ parts : List (Part D), Cleared (statements isOpen s parts) (unopenedParts isOpen parts)
  | [] => ⟨s, [], rfl, sound, by simp, by simp [unopenedParts]⟩
  | part :: parts => by
    obtain ⟨t, bodies, run, sound, cleared, unopened⟩ := statement_cleared isOpen s sound part
    obtain ⟨t', bodies', run', sound, cleared', unopened'⟩ :=
      statements_cleared (part.declares ++ isOpen) t sound parts
    refine ⟨t', bodies ++ bodies', by simp only [statements, run, Option.bind_some, run', Option.map_some], sound, ?_, ?_⟩
    · intro b mem
      rcases List.mem_append.mp mem with mem | mem
      · exact cleared b mem
      · exact cleared' b mem
    · rw [unopenedParts, ← unopened, ← unopened']
      simp only [List.mem_append, or_imp, forall_and]

end

/-- In the cleared table nothing is found. -/
theorem Behind.keeps_iff {b : Behind D} (cleared : b.SymtabVariable = SymtabClear) : b.Keeps ↔ b.isOpen = [] := by
  constructor
  · intro keeps
    cases declared : b.isOpen with
    | nil => rfl
    | cons first others =>
      have found := keeps first.1 first.2 (by rw [declared, List.lookup_cons, beq_self_eq_true])
      rw [cleared] at found
      cases found
  · intro none name type found
    rw [none] at found
    cases found

end Runs

/-- The parsing of a function body comes to an end; behind every body in it the variables declared in
the open blocks are found exactly when there are none of them, wherever a body stands. -/
theorem f_CompoundStatement_keeps_iff {D : Type} (Type_ : Text → Text → D) (types names : Text) (parts : List (Part D)) :
    ∃ s bodies, f_CompoundStatement Type_ types names parts = some (s, bodies) ∧
      ((∀ b ∈ bodies, b.Keeps) ↔
        unopenedParts ((enteredArguments types names).map fun argument => (argument.2, Type_ argument.1 argument.2)).reverse
          parts) := by
  unfold f_CompoundStatement
  generalize ((enteredArguments types names).map fun argument => (argument.2, Type_ argument.1 argument.2)).reverse =
    isOpen
  obtain ⟨t, bodies, run, sound, cleared, unopened⟩ :=
    statements_cleared isOpen (CompCreate ⟨0, enterArguments Type_ 0 SymtabCreate types names⟩)
      (Sound.enterArguments types names) parts
  obtain ⟨t', destroyed, -⟩ := CompDestroy_sound sound
  refine ⟨{ t' with SymtabVariable := SymtabClear }, bodies, ?_, ?_⟩
  · dsimp only
    rw [run, Option.bind_some, destroyed, Option.map_some]
  rw [← unopened]
  constructor
  · exact fun keeps b mem => (Behind.keeps_iff (cleared b mem)).mp (keeps b mem)
  · exact fun none b mem => (Behind.keeps_iff (cleared b mem)).mpr (none b mem)

/-- `void f() { A a; struct L { void m() {} } l; ... }`: behind the body of `m` the variable `a` is
not found any more. -/
theorem local_class_clears : ∃ s b,
    f_CompoundStatement (fun type _ => type) [] []
        [.declaration (ascii "a") (ascii "A"), .body [], .declaration (ascii "l") (ascii "L")] = some (s, [b]) ∧
      b.isOpen.lookup (ascii "a") = some (ascii "A") ∧ (SymtabFind b.SymtabVariable (ascii "a")).2 = none :=
  ⟨_, ⟨[(ascii "a", ascii "A")], SymtabClear⟩, rfl, by decide, by decide⟩

end SourceNavigator.Cpp

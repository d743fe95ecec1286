import SourceNavigator.Parsers.Python.Scanner

/-!
The blocks of a Python source, by its logical lines.

`Layout` follows Python's rule of indentation: a block opens with the first line
behind its header, which is indented further, and ends at a line that is back at
the column of an outer block. The scanner looks at the lines with `def` and
`class` only (`recorded`).

* `owner_eq_innermost`: the innermost function or class around a line is the one
  that is found by going back over the smaller and smaller columns.
* `ownerClass_pop`: the scanner takes the latest line with `def` or `class`
  at a smaller column instead.
* `recorded_eq_iff` says when the two agree.
-/

namespace SourceNavigator.Parsers.Python

/-! ### Python's rule -/

/-- What a logical line is. The body of a function or class is on the lines behind it, or on the
same line. -/
inductive Head
  | empty
  | statement
  | block
  | def_ (name : Text) (below : Bool)
  | class_ (name : Text) (below : Bool)
  deriving DecidableEq

/-- A logical line; one that is empty or a comment has no column that counts. -/
structure Logical where
  column : Nat
  head : Head
  deriving DecidableEq

inductive Scope
  | function
  | class_ (name : Text)
  deriving DecidableEq

/-- An open block: the column of its lines, and the function or class whose body it is. -/
structure Block where
  column : Nat
  scope : Option Scope

/-- The open blocks, the innermost first, and the block that is to open with the next line. -/
structure Layout where
  blocks : List Block
  opening : Option (Option Scope)

def columnOf : List Block → Nat
  | [] => 0
  | b :: _ => b.column

/-- The blocks that are open at a line of a column; `none` is an error in the indentation. -/
def Layout.enter (st : Layout) (c : Nat) : Option (List Block) :=
  match st.opening with
  | some scope => if columnOf st.blocks < c then some (⟨c, scope⟩ :: st.blocks) else none
  | none =>
    let blocks := st.blocks.dropWhile fun b => c < b.column
    if columnOf blocks = c then some blocks else none

/-- The function or class of a line. -/
def Head.scope : Head → Option Scope
  | .def_ _ _ => some .function
  | .class_ name _ => some (.class_ name)
  | _ => none

/-- The name of the function that a line defines. -/
def Head.function : Head → Option Text
  | .def_ name _ => some name
  | _ => none

/-- The block that opens behind a line. -/
def Head.opens : Head → Option (Option Scope)
  | .block => some none
  | .def_ _ true => some (some .function)
  | .class_ name true => some (some (.class_ name))
  | _ => none

/-- A line. -/
def Layout.step (st : Layout) (l : Logical) : Option Layout :=
  if l.head = .empty then some st
  else (st.enter l.column).map fun blocks => ⟨blocks, l.head.opens⟩

/-- The innermost function or class. -/
def innermost (blocks : List Block) : Option Scope := blocks.findSome? Block.scope

/-- The class that a function in a function or class is a member of. -/
def memberOf : Option Scope → Option Text
  | some (.class_ name) => some name
  | _ => none

/-- The functions of a source, each with the class it is a member of. -/
def expected : Layout → List Logical → List (Option Text × Text)
  | _, [] => []
  | st, l :: ls =>
    match st.step l with
    | none => []
    | some st' =>
      match l.head.function with
      | some name => (memberOf (innermost st'.blocks), name) :: expected st' ls
      | none => expected st' ls

/-- Nothing has been read. -/
def start : Layout := ⟨[], none⟩

/-- No line has an error in the indentation. -/
def WellFormed (ls : List Logical) : Prop := ∃ st, ls.foldlM Layout.step start = some st

/-! ### The scanner's rule -/

/-- The stack of the scanner behind a line. -/
def stackStep (scope_stack : List Entry) (l : Logical) : List Entry :=
  match l.head with
  | .def_ name _ =>
    let scope_stack := pop l.column scope_stack
    ⟨l.column, if (ownerClass scope_stack).isSome then .SN_MBR_FUNC_DEF else .SN_FUNC_DEF, name⟩ ::
      scope_stack
  | .class_ name _ => ⟨l.column, .SN_CLASS_DEF, name⟩ :: pop l.column scope_stack
  | _ => scope_stack

/-- The functions that are recorded. -/
def recorded : List Entry → List Logical → List (Option Text × Text)
  | _, [] => []
  | scope_stack, l :: ls =>
    match l.head.function with
    | some name =>
      (ownerClass (pop l.column scope_stack), name) :: recorded (stackStep scope_stack l) ls
    | none => recorded (stackStep scope_stack l) ls

/-! ### Where the rules agree -/

/-- The latest line with `def` or `class` at a smaller column, and the lines behind it. The lines
are given from the latest one on. -/
def governing (c : Nat) : List Logical → Option (List Logical × Logical)
  | [] => none
  | l :: older =>
    if l.head.scope.isSome ∧ l.column < c then some ([], l)
    else (governing c older).map fun g => (l :: g.1, g.2)

/-- The function or class of the latest line that is at a smaller column than all lines behind it,
and is no other line. -/
def owner (c : Nat) : List Logical → Option Scope
  | [] => none
  | l :: older =>
    if l.head ≠ .empty ∧ l.column < c then
      match l.head.scope with
      | some scope => some scope
      | none => owner l.column older
    else owner c older

/-- The block of the latest `def` or `class` at a smaller column has not been ended by another line,
or the function is a member of the same class (or of none) nevertheless. `scope_stack` is what was
on the stack before. -/
def Noticed (scope_stack : List Entry) (before : List Logical) (l : Logical) : Prop :=
  match governing l.column before with
  | some (between, h) =>
    (∀ k ∈ between, k.head ≠ .empty → h.column < k.column) ∨
      memberOf h.head.scope = memberOf (owner l.column before)
  | none => ownerClass (pop l.column scope_stack) = none

/-- Every function of the lines is noticed, where `before` is what comes in front of them. -/
def AllNoticed (scope_stack : List Entry) : List Logical → List Logical → Prop
  | _, [] => True
  | before, l :: ls =>
    (l.head.function.isSome = true → Noticed scope_stack before l) ∧
      AllNoticed scope_stack (l :: before) ls

/-! ### The innermost block -/

section Owner

variable {st st' : Layout} {before older ls : List Logical} {l h : Logical} {c m : Nat}
  {blocks : List Block} {scope_stack : List Entry} {between : List Logical}

/-- The layout behind some lines, the latest one first. -/
inductive Laid : List Logical → Layout → Prop
  | nil : Laid [] start
  | cons {older : List Logical} {st st' : Layout} {l : Logical} :
      Laid older st → st.step l = some st' → Laid (l :: older) st'

theorem dropWhile_dropWhile {α : Type} {p q : α → Bool} (imp : ∀ a, q a = true → p a = true)
    (as : List α) : (as.dropWhile q).dropWhile p = as.dropWhile p := by
  induction as with
  | nil => rfl
  | cons a as ih =>
    rw [List.dropWhile_cons]
    split
    case isTrue dropped => rw [List.dropWhile_cons_of_pos (imp a dropped), ih]
    case isFalse => rfl

/-- Back to an outer column, by way of one in between. -/
theorem outer_outer {e : Nat} (le : c ≤ e) (blocks : List Block) :
    (blocks.dropWhile fun b => e < b.column).dropWhile (fun b => c < b.column) =
      blocks.dropWhile fun b => c < b.column :=
  dropWhile_dropWhile (fun _ deeper =>
    decide_eq_true (Nat.lt_of_le_of_lt le (of_decide_eq_true deeper))) blocks

theorem column_enter (entered : st.enter c = some blocks) : columnOf blocks = c := by
  unfold Layout.enter at entered
  split at entered
  case h_1 =>
    split at entered
    case isTrue =>
      cases entered
      rfl
    case isFalse => cases entered
  case h_2 =>
    dsimp only at entered
    split at entered
    case isTrue same =>
      cases entered
      exact same
    case isFalse => cases entered

/-- Only a column that is no deeper than the open blocks can be gone back to. -/
theorem le_of_outer (valid : columnOf (blocks.dropWhile fun b => c < b.column) = c) :
    c ≤ columnOf blocks := by
  cases blocks with
  | nil => exact Nat.le_of_eq valid.symm
  | cons b blocks =>
    by_contra deeper
    rw [columnOf, Nat.not_le] at deeper
    rw [List.dropWhile_cons_of_neg (by simpa using Nat.le_of_lt deeper)] at valid
    exact absurd valid (Nat.ne_of_lt deeper)

theorem outer_columnOf (column : columnOf blocks = c) :
    (blocks.dropWhile fun b => c < b.column) = blocks := by
  cases blocks with
  | nil => rfl
  | cons b blocks =>
    rw [columnOf] at column
    exact List.dropWhile_cons_of_neg (by simp [column])

/-- What is known behind some lines: going back over the columns finds the innermost function or
class, both for a column that ends some blocks and for one that opens a block. -/
structure Owned (before : List Logical) (st : Layout) : Prop where
  outer : ∀ c, columnOf (st.blocks.dropWhile fun b => c < b.column) = c →
    owner c before = innermost (st.blocks.dropWhile fun b => c < b.column)
  inner : ∀ scope, st.opening = some scope → ∀ c, columnOf st.blocks < c →
    owner c before = innermost (⟨c, scope⟩ :: st.blocks)

theorem Owned.enter (owned : Owned before st) (entered : st.enter c = some blocks) :
    owner c before = innermost blocks := by
  unfold Layout.enter at entered
  split at entered
  case h_1 scope opening =>
    split at entered
    case isTrue deeper =>
      cases entered
      exact owned.inner scope opening c deeper
    case isFalse => cases entered
  case h_2 =>
    dsimp only at entered
    split at entered
    case isTrue same =>
      cases entered
      exact owned.outer c same
    case isFalse => cases entered

/-- Behind a line the outer blocks are those that were open before. -/
theorem outer_enter (entered : st.enter l.column = some blocks) (less : c < l.column) :
    blocks.dropWhile (fun b => c < b.column) = st.blocks.dropWhile fun b => c < b.column := by
  unfold Layout.enter at entered
  split at entered
  case h_1 scope opening =>
    split at entered
    case isTrue =>
      cases entered
      exact List.dropWhile_cons_of_pos (decide_eq_true less)
    case isFalse => cases entered
  case h_2 =>
    dsimp only at entered
    split at entered
    case isTrue =>
      cases entered
      exact outer_outer (Nat.le_of_lt less) st.blocks
    case isFalse => cases entered

theorem laid_owned (laid : Laid before st) : Owned before st := by
  induction laid with
  | nil => exact ⟨fun c valid => rfl, fun scope opening => by cases opening⟩
  | @cons older st st' l _ step ih =>
    rw [Layout.step] at step
    split at step
    case isTrue empty =>
      cases step
      have skip (c : Nat) : owner c (l :: older) = owner c older := by
        rw [owner, if_neg fun there => there.1 empty]
      exact ⟨fun c valid => (skip c).trans (ih.outer c valid),
        fun scope opening c deeper => (skip c).trans (ih.inner scope opening c deeper)⟩
    case isFalse there =>
      obtain ⟨blocks, entered, rfl⟩ := Option.map_eq_some_iff.mp step
      have column := column_enter entered
      have here := ih.enter entered
      constructor
      · intro c valid
        dsimp only at valid ⊢
        have le : c ≤ l.column := column ▸ le_of_outer valid
        have back : owner c (l :: older) = owner c older := by
          rw [owner, if_neg fun deeper => Nat.not_lt.mpr le deeper.2]
        rw [back]
        rcases Nat.eq_or_lt_of_le le with rfl | less
        · rw [here, outer_columnOf column]
        · rw [outer_enter entered less] at valid ⊢
          exact ih.outer c valid
      · intro scope opening c deeper
        dsimp only at opening deeper ⊢
        rw [column] at deeper
        rw [owner, if_pos ⟨there, deeper⟩]
        cases head : l.head with
        | empty => exact absurd head there
        | statement => rw [head] at opening; cases opening
        | block =>
          rw [head] at opening
          cases opening
          exact here
        | def_ name below =>
          rw [head] at opening
          cases below with
          | true => cases opening; rfl
          | false => cases opening
        | class_ name below =>
          rw [head] at opening
          cases below with
          | true => cases opening; rfl
          | false => cases opening

/-- The innermost function or class around a line is the one found by going back over the smaller
columns. -/
theorem owner_eq_innermost (laid : Laid before st) (entered : st.enter c = some blocks) :
    owner c before = innermost blocks :=
  (laid_owned laid).enter entered

/-! ### The top of the stack -/

/-- The stack behind some lines, the latest one first. -/
def stackBehind (scope_stack : List Entry) : List Logical → List Entry
  | [] => scope_stack
  | l :: older => stackStep (stackBehind scope_stack older) l

theorem pop_pop {e : Nat} (le : c ≤ e) (entries : List Entry) :
    pop c (pop e entries) = pop c entries :=
  dropWhile_dropWhile (fun _ deeper =>
    decide_eq_true (Nat.le_trans le (of_decide_eq_true deeper))) entries

/-- What the scanner takes for the class of a function at a column. -/
theorem ownerClass_pop (scope_stack : List Entry) (before : List Logical) (c : Nat) :
    ownerClass (pop c (stackBehind scope_stack before)) =
      match governing c before with
      | some g => memberOf g.2.head.scope
      | none => ownerClass (pop c scope_stack) := by
  induction before with
  | nil => rfl
  | cons l older ih =>
    have skip (unchanged : pop c (stackBehind scope_stack (l :: older)) =
        pop c (stackBehind scope_stack older))
        (other : ¬ (l.head.scope.isSome ∧ l.column < c)) :
        ownerClass (pop c (stackBehind scope_stack (l :: older))) =
          match governing c (l :: older) with
          | some g => memberOf g.2.head.scope
          | none => ownerClass (pop c scope_stack) := by
      rw [unchanged, ih, governing, if_neg other]
      cases governing c older with
      | none => rfl
      | some g => rfl
    have pushed (e : Entry) (column : e.indent = l.column) (owns : l.head.scope.isSome)
        (stack : stackBehind scope_stack (l :: older) =
          e :: pop l.column (stackBehind scope_stack older))
        (class_ : ownerClass [e] = memberOf l.head.scope) :
        ownerClass (pop c (stackBehind scope_stack (l :: older))) =
          match governing c (l :: older) with
          | some g => memberOf g.2.head.scope
          | none => ownerClass (pop c scope_stack) := by
      by_cases less : l.column < c
      · rw [governing, if_pos ⟨owns, less⟩, stack, pop,
          List.dropWhile_cons_of_neg (by simp [column, less])]
        exact class_
      · refine skip ?_ fun both => less both.2
        rw [stack, pop, List.dropWhile_cons_of_pos (by simp [column, Nat.not_lt.mp less])]
        exact pop_pop (Nat.not_lt.mp less) _
    cases head : l.head with
    | empty =>
      exact skip (by rw [stackBehind, stackStep, head]) (by rw [head]; exact fun h => by cases h.1)
    | statement =>
      exact skip (by rw [stackBehind, stackStep, head]) (by rw [head]; exact fun h => by cases h.1)
    | block =>
      exact skip (by rw [stackBehind, stackStep, head]) (by rw [head]; exact fun h => by cases h.1)
    | def_ name below =>
      refine pushed ⟨l.column, _, name⟩ rfl (by rw [head]; rfl)
        (by rw [stackBehind, stackStep, head]) ?_
      rw [head, ownerClass]
      exact if_neg (by split <;> exact fun h => by cases h)
    | class_ name below =>
      exact pushed ⟨l.column, .SN_CLASS_DEF, name⟩ rfl (by rw [head]; rfl)
        (by rw [stackBehind, stackStep, head]) (by rw [head]; rfl)

/-! ### The rules compared -/

theorem column_governing (found : governing c before = some (between, h)) : h.column < c := by
  induction before generalizing between with
  | nil => cases found
  | cons l older ih =>
    rw [governing] at found
    split at found
    case isTrue here =>
      cases found
      exact here.2
    case isFalse =>
      obtain ⟨⟨between', h'⟩, deeper, same⟩ := Option.map_eq_some_iff.mp found
      cases same
      exact ih deeper

/-- A line with `def` or `class` whose block no line behind it has ended is the owner. -/
theorem owner_of_governing (found : governing c before = some (between, h))
    (alive : ∀ k ∈ between, k.head ≠ .empty → h.column < k.column) :
    owner c before = h.head.scope := by
  have general (m : Nat) (inside : h.column < m) (le : m ≤ c) : owner m before = h.head.scope := by
    induction before generalizing between m with
    | nil => cases found
    | cons l older ih =>
      rw [governing] at found
      split at found
      case isTrue here =>
        cases found
        obtain ⟨scope, some_scope⟩ := Option.isSome_iff_exists.mp here.1
        have there : h.head ≠ .empty := by
          intro empty
          rw [empty] at some_scope
          cases some_scope
        rw [owner, if_pos ⟨there, inside⟩, some_scope]
      case isFalse further =>
        obtain ⟨⟨between', h'⟩, deeper, same⟩ := Option.map_eq_some_iff.mp found
        cases same
        clear found
        have rest := fun k mem => alive k (List.mem_cons_of_mem l mem)
        rw [owner]
        split
        case isTrue there =>
          cases scope : l.head.scope with
          | some scope' =>
            exact absurd ⟨by rw [scope]; rfl, Nat.lt_of_lt_of_le there.2 le⟩ further
          | none =>
            exact ih deeper rest l.column (alive l List.mem_cons_self there.1)
              (Nat.le_of_lt (Nat.lt_of_lt_of_le there.2 le))
        case isFalse => exact ih deeper rest m inside le
  exact general c (column_governing found) (Nat.le_refl c)

/-- Without such a line there is no owner. -/
theorem owner_of_none (nothing : governing c before = none) : owner c before = none := by
  have general (m : Nat) (le : m ≤ c) : owner m before = none := by
    induction before generalizing m with
    | nil => rfl
    | cons l older ih =>
      rw [governing] at nothing
      split at nothing
      case isTrue => cases nothing
      case isFalse further =>
        have rest := Option.map_eq_none_iff.mp nothing
        rw [owner]
        split
        case isTrue there =>
          cases scope : l.head.scope with
          | some scope' =>
            exact absurd ⟨by rw [scope]; rfl, Nat.lt_of_lt_of_le there.2 le⟩ further
          | none => exact ih rest l.column (Nat.le_of_lt (Nat.lt_of_lt_of_le there.2 le))
        case isFalse => exact ih rest m le
  exact general c (Nat.le_refl c)

/-- The scanner attributes a function as Python does exactly if it is noticed. -/
theorem ownerClass_eq_iff (laid : Laid before st) (entered : st.enter l.column = some blocks) :
    ownerClass (pop l.column (stackBehind scope_stack before)) = memberOf (innermost blocks) ↔
      Noticed scope_stack before l := by
  rw [ownerClass_pop, ← owner_eq_innermost laid entered, Noticed]
  cases found : governing l.column before with
  | none =>
    rw [owner_of_none found]
    exact Iff.rfl
  | some g =>
    obtain ⟨between, h⟩ := g
    constructor
    · exact .inr
    · rintro (alive | same)
      · rw [owner_of_governing found alive]
      · exact same

/-- All functions are recorded as Python's rule has it exactly if each of them is noticed. -/
theorem recorded_eq_iff_behind (laid : Laid before st) (read : ls.foldlM Layout.step st = some st') :
    recorded (stackBehind scope_stack before) ls = expected st ls ↔
      AllNoticed scope_stack before ls := by
  induction ls generalizing st before with
  | nil => exact ⟨fun _ => trivial, fun _ => rfl⟩
  | cons l ls ih =>
    rw [List.foldlM_cons] at read
    obtain ⟨next, step, rest⟩ := Option.bind_eq_some_iff.mp read
    have later := ih (laid.cons step) rest
    rw [recorded, expected, step, AllNoticed, ← later]
    cases function : l.head.function with
    | none => exact ⟨fun same => ⟨fun absent => (by cases absent), same⟩, fun both => both.2⟩
    | some name =>
      have there : l.head ≠ .empty := by
        intro empty
        rw [empty] at function
        cases function
      rw [Layout.step, if_neg there] at step
      obtain ⟨blocks, entered, rfl⟩ := Option.map_eq_some_iff.mp step
      have here : ownerClass (pop l.column (stackBehind scope_stack before)) =
          memberOf (innermost blocks) ↔ Noticed scope_stack before l :=
        ownerClass_eq_iff laid entered
      dsimp only
      rw [List.cons.injEq, Prod.mk.injEq, here]
      exact ⟨fun same => ⟨fun _ => same.1.1, same.2⟩, fun both => ⟨⟨both.1 rfl, rfl⟩, both.2⟩⟩

end Owner

/-- The functions of a well-formed source are recorded as Python's rule has it exactly if each of
them is noticed. -/
theorem recorded_eq_iff {scope_stack : List Entry} {ls : List Logical} (wf : WellFormed ls) :
    recorded scope_stack ls = expected start ls ↔ AllNoticed scope_stack [] ls := by
  obtain ⟨st, read⟩ := wf
  exact recorded_eq_iff_behind .nil read

end SourceNavigator.Parsers.Python

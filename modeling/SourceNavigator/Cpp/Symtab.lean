import SourceNavigator.Lib.Run
import SourceNavigator.Parsers.BtreeTable

/-!
The scoped symbol table of the C++ parser (`parsers/cpp/cpplib/cp_symbol.c`).

Every name has a stack of entries, the last one inserted on top.
`SymtabNiveauDestroy` leaves the scopes above a level: it goes over the sorted
table once, takes one entry at most off each stack, and deletes names that have
no entry left while it goes on.

* `Represents` relates a table to the entries that each name should have, and
  `declared` says which these are after a list of operations.
* `symtab_scoped` keeps the relation, and finds the innermost entries, along every
  run whose steps are `Orderly`.
-/

namespace SourceNavigator.Cpp

open Lib Parsers

/-- An entry of a name. -/
structure Datasp (D : Type) where
  pvData : D
  iNiveau : Int
  deriving DecidableEq

/-- The sorted table of the names, each with its stack of entries. -/
abbrev Symtab (D : Type) := BtreeTable (List (Datasp D))

variable {D : Type}

def SymtabCreate : Symtab D := ⟨[], 0⟩

def SymtabInsert (symtab : Symtab D) (name : Text) (pvData : D) (iNiveau : Int) : Symtab D :=
  let found := BtreeTableSearch symtab name
  match found.2 with
  | some (key, old) =>
    { found.1 with data := found.1.data.set found.1.cursor (key, ⟨pvData, iNiveau⟩ :: old) }
  | none => BtreeTableAdd found.1 name [⟨pvData, iNiveau⟩]

def SymtabFind (symtab : Symtab D) (name : Text) : Symtab D × Option D :=
  let found := BtreeTableSearch symtab name
  (found.1, found.2.bind fun entry => entry.2.head?.map Datasp.pvData)

/-- The loop of `SymtabNiveauDestroy`, with a bound on its passes. `none` also for a name without
entries, whose first entry is read all the same. -/
def niveauLoop (iNiveau : Int) : Nat → Nat → Symtab D → Option (Symtab D)
  | 0, _, _ => none
  | fuel + 1, iCount, symtab =>
    match BtreeTableSeq symtab iCount with
    | (symtab, none) => some symtab
    | (_, some (_, [])) => none
    | (symtab, some (name, [top])) =>
      -- `iCount` goes down and up again, the cursor stays on the deleted place
      if iNiveau < top.iNiveau then niveauLoop iNiveau fuel iCount (BtreeTableDelete symtab name)
      else niveauLoop iNiveau fuel (iCount + 1) symtab
    | (symtab, some (name, top :: next :: rest)) =>
      if iNiveau < top.iNiveau then
        niveauLoop iNiveau fuel (iCount + 1)
          { symtab with data := symtab.data.set symtab.cursor (name, next :: rest) }
      else niveauLoop iNiveau fuel (iCount + 1) symtab

/-- A pass deletes a name or moves the cursor, and one pass finds the end. -/
def SymtabNiveauDestroy (symtab : Symtab D) (iNiveau : Int) : Option (Symtab D) :=
  niveauLoop iNiveau (symtab.data.length + 1) 0 symtab

/-- What a parser does with its table. -/
inductive SymtabOp (D : Type)
  | insert (name : Text) (pvData : D) (iNiveau : Int)
  | find (name : Text)
  | niveauDestroy (iNiveau : Int)

def symtabStep (symtab : Symtab D) : SymtabOp D → Option (Symtab D)
  | .insert name pvData iNiveau => some (SymtabInsert symtab name pvData iNiveau)
  | .find name => some (SymtabFind symtab name).1
  | .niveauDestroy iNiveau => SymtabNiveauDestroy symtab iNiveau

def SymtabStep (s : Symtab D) (op : SymtabOp D) (t : Symtab D) : Prop := symtabStep s op = some t

/-! ### Scopes -/

/-- The entries that each name should have, the last one first. -/
abbrev Scopes (D : Type) := Text → List (Datasp D)

def declare (scopes : Scopes D) : SymtabOp D → Scopes D
  | .insert name pvData iNiveau => Function.update scopes name (⟨pvData, iNiveau⟩ :: scopes name)
  | .find _ => scopes
  | .niveauDestroy iNiveau => fun name => (scopes name).filter fun d => d.iNiveau ≤ iNiveau

/-- The entries that each name should have after a list of operations. -/
def declared (ops : List (SymtabOp D)) : Scopes D := ops.foldl declare fun _ => []

/-- The table has exactly these entries. -/
structure Represents (symtab : Symtab D) (scopes : Scopes D) : Prop where
  sorted : Sorted keyOrder symtab.data
  entries : ∀ name stack, (name, stack) ∈ symtab.data ↔ stack ≠ [] ∧ scopes name = stack

/-- What is found is an entry of the innermost level, if there is one. -/
def Innermost (scope : List (Datasp D)) (found : Option D) : Prop :=
  match found with
  | none => scope = []
  | some pvData => ∃ d ∈ scope, d.pvData = pvData ∧ ∀ d' ∈ scope, d'.iNiveau ≤ d.iNiveau

/-! ### Orderly steps -/

/-- All entries of a name are above a level. -/
def gone (iNiveau : Int) (e : Text × List (Datasp D)) : Bool :=
  e.2.all fun d => iNiveau < d.iNiveau

/-- An entry of a name is above a level. -/
def above (iNiveau : Int) (e : Text × List (Datasp D)) : Bool :=
  e.2.any fun d => iNiveau < d.iNiveau

/-- No name that is left altogether stands directly before one that has an entry to be left. -/
def KeepApart (iNiveau : Int) : List (Text × List (Datasp D)) → Prop
  | e :: f :: t => (gone iNiveau e → ¬ above iNiveau f) ∧ KeepApart iNiveau (f :: t)
  | _ => True

/-- The same from the first name on that stays. -/
def NoSkip (iNiveau : Int) : List (Text × List (Datasp D)) → Prop
  | [] => True
  | e :: t => if gone iNiveau e then NoSkip iNiveau t else KeepApart iNiveau t

/-- A name is inserted at a level not below that of its last entry. When scopes are left, every name
has one entry at most above the level, on top, and no name is skipped. -/
def Orderly (symtab : Symtab D) : SymtabOp D → Prop
  | .insert name _ iNiveau =>
    ∀ stack, (name, stack) ∈ symtab.data → ∀ top ∈ stack.head?, top.iNiveau ≤ iNiveau
  | .find _ => True
  | .niveauDestroy iNiveau =>
    (∀ e ∈ symtab.data, ∀ d ∈ e.2.tail, d.iNiveau ≤ iNiveau) ∧ NoSkip iNiveau symtab.data

/-! ### The loop -/

/-- The entries of a name that stay. -/
def kept (iNiveau : Int) (stack : List (Datasp D)) : List (Datasp D) :=
  stack.filter fun d => d.iNiveau ≤ iNiveau

/-- The names that stay, with the entries that stay. -/
def cleaned (iNiveau : Int) (t : List (Text × List (Datasp D))) : List (Text × List (Datasp D)) :=
  t.filterMap fun e => if kept iNiveau e.2 = [] then none else some (e.1, kept iNiveau e.2)

/-- A name has an entry, and at most the first one is above the level. -/
structure Shallow (iNiveau : Int) (e : Text × List (Datasp D)) : Prop where
  some_entry : e.2 ≠ []
  tail : ∀ d ∈ e.2.tail, d.iNiveau ≤ iNiveau

section Loop

variable {iNiveau : Int} {name : Text} {top : Datasp D} {stack rest : List (Datasp D)}
  {p r t : List (Text × List (Datasp D))} {e : Text × List (Datasp D)} {fuel iCount cursor : Nat}

theorem kept_of_le (le : ∀ d ∈ stack, d.iNiveau ≤ iNiveau) : kept iNiveau stack = stack :=
  List.filter_eq_self.mpr fun d mem => decide_eq_true (le d mem)

theorem kept_below (shallow : Shallow iNiveau (name, top :: rest)) (low : ¬ iNiveau < top.iNiveau) :
    kept iNiveau (top :: rest) = top :: rest := by
  apply kept_of_le
  intro d mem
  rcases List.mem_cons.mp mem with rfl | mem
  · exact Int.not_lt.mp low
  · exact shallow.tail d mem

theorem kept_above (shallow : Shallow iNiveau (name, top :: rest))
    (high : iNiveau < top.iNiveau) :
    kept iNiveau (top :: rest) = rest := by
  unfold kept
  rw [List.filter_cons_of_neg (by rw [decide_eq_true_iff]; exact Int.not_le.mpr high)]
  exact kept_of_le shallow.tail

theorem cleaned_cons_kept (stays : kept iNiveau e.2 ≠ []) :
    cleaned iNiveau (e :: t) = (e.1, kept iNiveau e.2) :: cleaned iNiveau t :=
  List.filterMap_cons_some (if_neg stays)

theorem cleaned_cons_gone (goes : kept iNiveau e.2 = []) :
    cleaned iNiveau (e :: t) = cleaned iNiveau t :=
  List.filterMap_cons_none (if_pos goes)

theorem kept_of_not_above (low : ¬ above iNiveau e) :
    kept iNiveau e.2 = e.2 := by
  apply kept_of_le
  intro d mem
  by_contra high
  apply low
  exact List.any_eq_true.mpr ⟨d, mem, decide_eq_true (Int.not_le.mp high)⟩

/-- The name that is read after the names `p` when the cursor is on the last of these. -/
theorem seq_after (next : (⟨p ++ r, cursor⟩ : Symtab D).next iCount = p.length) :
    BtreeTableSeq ⟨p ++ r, cursor⟩ iCount =
      match r with
      | [] => (⟨p ++ r, cursor⟩, none)
      | e :: _ => (⟨p ++ r, p.length⟩, some e) := by
  unfold BtreeTableSeq
  rw [next]
  cases r with
  | nil => rw [List.append_nil, List.getElem?_eq_none (Nat.le_refl _)]
  | cons e r => rw [List.getElem?_append_right (Nat.le_refl _), Nat.sub_self]; rfl

theorem KeepApart.tail (apart : KeepApart iNiveau (e :: r)) : KeepApart iNiveau r := by
  cases r with
  | nil => trivial
  | cons f r => exact apart.2

theorem niveauLoop_end {s : Symtab D} (past : s.data.length ≤ s.next iCount) :
    niveauLoop iNiveau (fuel + 1) iCount s = some s := by
  have seq : BtreeTableSeq s iCount = (s, none) := by
    unfold BtreeTableSeq
    rw [List.getElem?_eq_none past]
  rw [niveauLoop, seq]

theorem length_passed (e : Text × List (Datasp D)) : p.length + 1 = (p ++ [e]).length := by
  rw [List.length_append, List.length_singleton]

theorem set_passed {e' : Text × List (Datasp D)} : (p ++ e :: r).set p.length e' = p ++ e' :: r := by
  rw [List.set_append_right _ _ (Nat.le_refl _), Nat.sub_self]
  rfl

/-- The loop once a name has stayed: `p` is what it has passed. -/
theorem niveauLoop_passed (sorted : Sorted keyOrder (p ++ r)) (apart : KeepApart iNiveau r)
    (shallow : ∀ e ∈ r, Shallow iNiveau e) (passed : cursor + 1 = p.length) (started : iCount ≠ 0)
    (enough : r.length < fuel) :
    ∃ s, niveauLoop iNiveau fuel iCount ⟨p ++ r, cursor⟩ = some s ∧
      s.data = p ++ cleaned iNiveau r := by
  induction fuel generalizing p r iCount cursor with
  | zero => exact absurd enough (Nat.not_lt_zero _)
  | succ fuel ih =>
    have next : (⟨p ++ r, cursor⟩ : Symtab D).next iCount = p.length := by
      rw [BtreeTable.next, if_neg started]
      exact passed
    have seq := seq_after next
    rw [niveauLoop, seq]
    cases r with
    | nil => exact ⟨_, rfl, rfl⟩
    | cons e r =>
      obtain ⟨name, stack⟩ := e
      obtain ⟨first, others⟩ := List.forall_mem_cons.mp shallow
      rw [List.length_cons] at enough
      -- the name stays, with these entries
      have stays : ∀ stack', kept iNiveau stack = stack' → stack' ≠ [] →
          ∃ s, niveauLoop iNiveau fuel (iCount + 1) ⟨p ++ (name, stack') :: r, p.length⟩ = some s ∧
            s.data = p ++ cleaned iNiveau ((name, stack) :: r) := by
        intro stack' keeps some_entry
        obtain ⟨s, loop, data⟩ := ih (p := p ++ [(name, stack')]) (r := r) (by rw [← List.append_cons]; exact sorted.replace)
          apart.tail others (length_passed _) (Nat.succ_ne_zero iCount) (by omega)
        refine ⟨s, by rw [List.append_cons]; exact loop, ?_⟩
        rw [data, cleaned_cons_kept (by rw [keeps]; exact some_entry), keeps, ← List.append_cons]
      match stack, first with
      | [], first => exact absurd rfl first.some_entry
      | [top], first =>
        dsimp only
        split
        case isTrue high =>
          have deleted : BtreeTableDelete ⟨p ++ (name, [top]) :: r, p.length⟩ name =
              ⟨p ++ r, p.length⟩ := BtreeTableDelete_eq sorted rfl
          have goes : gone iNiveau (name, [top]) :=
            List.all_eq_true.mpr fun d mem =>
              decide_eq_true (List.mem_singleton.mp mem ▸ high)
          rw [deleted, cleaned_cons_gone (kept_above first high)]
          cases r with
          | nil =>
            obtain ⟨fuel, rfl⟩ : ∃ n, fuel = n + 1 := ⟨fuel - 1, by omega⟩
            refine ⟨_, niveauLoop_end ?_, rfl⟩
            rw [BtreeTable.next, if_neg started, List.append_nil]
            exact Nat.le_succ _
          | cons f r =>
            have low := kept_of_not_above (apart.1 goes)
            have stays := (others f List.mem_cons_self).some_entry
            rw [List.length_cons] at enough
            obtain ⟨s, loop, data⟩ := ih (p := p ++ [f]) (r := r) (by rw [← List.append_cons]; exact sorted.remove)
              apart.tail.tail (fun e mem => others e (List.mem_cons_of_mem _ mem))
              (length_passed _) started (by omega)
            refine ⟨s, by rw [List.append_cons]; exact loop, ?_⟩
            rw [data, cleaned_cons_kept (by rw [low]; exact stays), low, ← List.append_cons]
        case isFalse low => exact stays _ (kept_below first low) first.some_entry
      | top :: next :: rest, first =>
        dsimp only
        split
        case isTrue high =>
          rw [set_passed]
          exact stays _ (kept_above first high) (List.cons_ne_nil _ _)
        case isFalse low => exact stays _ (kept_below first low) first.some_entry

/-- The loop from its start. -/
theorem niveauLoop_noSkip (cursor : Nat) (sorted : Sorted keyOrder r) (noSkip : NoSkip iNiveau r)
    (shallow : ∀ e ∈ r, Shallow iNiveau e) (enough : r.length < fuel) :
    ∃ s, niveauLoop iNiveau fuel 0 ⟨r, cursor⟩ = some s ∧ s.data = cleaned iNiveau r := by
  induction r generalizing fuel cursor with
  | nil =>
    obtain ⟨fuel, rfl⟩ : ∃ n, fuel = n + 1 := ⟨fuel - 1, by omega⟩
    exact ⟨_, niveauLoop_end (Nat.zero_le _), rfl⟩
  | cons e r ih =>
    obtain ⟨fuel, rfl⟩ : ∃ n, fuel = n + 1 := ⟨fuel - 1, by omega⟩
    obtain ⟨name, stack⟩ := e
    obtain ⟨first, others⟩ := List.forall_mem_cons.mp shallow
    rw [List.length_cons] at enough
    have seq : BtreeTableSeq ⟨(name, stack) :: r, cursor⟩ 0 =
        (⟨(name, stack) :: r, 0⟩, some (name, stack)) := rfl
    -- the name stays, with these entries, and the loop goes on behind it
    have stays : ∀ stack', ¬ gone iNiveau (name, stack) → kept iNiveau stack = stack' →
        stack' ≠ [] → ∃ s, niveauLoop iNiveau fuel 1 ⟨(name, stack') :: r, 0⟩ = some s ∧
          s.data = cleaned iNiveau ((name, stack) :: r) := by
      intro stack' not_gone keeps some_entry
      rw [NoSkip, if_neg not_gone] at noSkip
      obtain ⟨s, loop, data⟩ := niveauLoop_passed (p := [(name, stack')])
        (Sorted.replace (a := []) sorted) noSkip others (Nat.zero_add 1) Nat.one_ne_zero
        (Nat.lt_of_succ_lt_succ enough)
      refine ⟨s, loop, ?_⟩
      rw [data, cleaned_cons_kept (by rw [keeps]; exact some_entry), keeps]
      rfl
    have stays_below : ∀ top rest, stack = top :: rest → ¬ iNiveau < top.iNiveau →
        ¬ gone iNiveau (name, stack) := by
      rintro top rest rfl low goes
      exact low (of_decide_eq_true (List.all_eq_true.mp goes top List.mem_cons_self))
    rw [niveauLoop, seq]
    match stack, first with
    | [], first => exact absurd rfl first.some_entry
    | [top], first =>
      dsimp only
      split
      case isTrue high =>
        have deleted : BtreeTableDelete ⟨(name, [top]) :: r, 0⟩ name = ⟨r, 0⟩ :=
          BtreeTableDelete_eq (a := []) sorted rfl
        have goes : gone iNiveau (name, [top]) :=
          List.all_eq_true.mpr fun d mem => decide_eq_true (List.mem_singleton.mp mem ▸ high)
        rw [NoSkip, if_pos goes] at noSkip
        rw [deleted, cleaned_cons_gone (kept_above first high)]
        exact ih 0 (List.pairwise_cons.mp sorted).2 noSkip others (Nat.lt_of_succ_lt_succ enough)
      case isFalse low =>
        exact stays _ (stays_below top [] rfl low) (kept_below first low) first.some_entry
    | top :: next :: rest, first =>
      dsimp only
      split
      case isTrue high =>
        refine stays _ (fun goes => ?_) (kept_above first high) (List.cons_ne_nil _ _)
        have mem : next ∈ top :: next :: rest := List.mem_cons_of_mem _ List.mem_cons_self
        have above_next := of_decide_eq_true (List.all_eq_true.mp goes next mem)
        exact absurd (first.tail next List.mem_cons_self) (Int.not_le.mpr above_next)
      case isFalse low =>
        exact stays _ (stays_below top _ rfl low) (kept_below first low) first.some_entry

end Loop

/-! ### Runs -/

section Runs

variable {symtab s t : Symtab D} {scopes : Scopes D} {name : Text} {pvData : D} {iNiveau : Int}
  {op : SymtabOp D} {ops : List (SymtabOp D)}

/-- The last entry of a name is the innermost. -/
def Descending (scopes : Scopes D) : Prop :=
  ∀ name, (scopes name).Pairwise fun d d' => d'.iNiveau ≤ d.iNiveau

theorem Represents.some_entry (h : Represents symtab scopes) {e : Text × List (Datasp D)}
    (mem : e ∈ symtab.data) : e.2 ≠ [] ∧ scopes e.1 = e.2 :=
  (h.entries e.1 e.2).mp mem

theorem Represents.mem (h : Represents symtab scopes) (some_entry : scopes name ≠ []) :
    (name, scopes name) ∈ symtab.data :=
  (h.entries name (scopes name)).mpr ⟨some_entry, rfl⟩

theorem Represents.insert (h : Represents symtab scopes) :
    Represents (SymtabInsert symtab name pvData iNiveau)
      (declare scopes (.insert name pvData iNiveau)) := by
  have other : ∀ name', name' ≠ name →
      declare scopes (.insert name pvData iNiveau) name' = scopes name' :=
    fun name' ne => Function.update_of_ne ne _ scopes
  have self : declare scopes (.insert name pvData iNiveau) name = ⟨pvData, iNiveau⟩ :: scopes name :=
    Function.update_self name _ scopes
  rcases search_cases h.sorted name with
    ⟨idx, old, found, slot, around⟩ | ⟨idx, comparison, none, at_place⟩
  · have inserted : (SymtabInsert symtab name pvData iNiveau).data =
        symtab.data.take idx ++ (name, ⟨pvData, iNiveau⟩ :: old) :: symtab.data.drop (idx + 1) := by
      have less : idx < symtab.data.length := (List.getElem?_eq_some_iff.mp slot).1
      unfold SymtabInsert BtreeTableSearch
      rw [found]
      dsimp only
      rw [slot]
      dsimp only
      rw [List.set_eq_take_append_cons_drop, if_pos less]
    have sorted := h.sorted
    rw [around] at sorted
    obtain ⟨_, current⟩ := h.some_entry (List.mem_of_getElem? slot)
    constructor
    · rw [inserted]
      exact sorted.replace
    · intro name' stack
      rw [inserted, mem_around, sorted.mem_remove, ← around, h.entries]
      by_cases same : name' = name
      · subst same
        rw [self, current]
        constructor
        · rintro (new | ⟨_, ne⟩)
          · obtain ⟨_, rfl⟩ := Prod.mk.inj new
            exact ⟨List.cons_ne_nil _ _, rfl⟩
          · exact absurd rfl ne
        · rintro ⟨_, rfl⟩
          exact .inl rfl
      · rw [other name' same]
        constructor
        · rintro (new | ⟨old, _⟩)
          · exact absurd (Prod.mk.inj new).1 same
          · exact old
        · exact fun old => .inr ⟨old, same⟩
  · have new : ∀ stack, (name, stack) ∉ symtab.data := fun stack => absent_of_insertAt at_place
    have empty : scopes name = [] := by
      by_contra some_entry
      exact new _ (h.mem some_entry)
    have added : SymtabInsert symtab name pvData iNiveau =
        BtreeTableAdd symtab name [⟨pvData, iNiveau⟩] := by
      unfold SymtabInsert BtreeTableSearch
      rw [none]
    obtain ⟨sorted, mem⟩ := @BtreeTableAdd_new _ _ _ [⟨pvData, iNiveau⟩] h.sorted new
    rw [added]
    refine ⟨sorted, fun name' stack => ?_⟩
    rw [mem, h.entries]
    by_cases same : name' = name
    · subst same
      rw [self, empty]
      constructor
      · rintro (new | ⟨some_entry, old⟩)
        · obtain ⟨_, rfl⟩ := Prod.mk.inj new
          exact ⟨List.cons_ne_nil _ _, rfl⟩
        · exact absurd old.symm some_entry
      · rintro ⟨_, rfl⟩
        exact .inl rfl
    · rw [other name' same]
      constructor
      · rintro (new | old)
        · exact absurd (Prod.mk.inj new).1 same
        · exact old
      · exact fun old => .inr old

theorem Represents.find (h : Represents symtab scopes) :
    Represents (SymtabFind symtab name).1 scopes := by
  obtain ⟨data, _⟩ := BtreeTableSearch_eq h.sorted name
  constructor
  · change Sorted keyOrder (BtreeTableSearch symtab name).1.data
    rw [data]
    exact h.sorted
  · change ∀ name' stack, (name', stack) ∈ (BtreeTableSearch symtab name).1.data ↔ _
    rw [data]
    exact h.entries

theorem Represents.niveauDestroy (h : Represents symtab scopes)
    (orderly : Orderly symtab (.niveauDestroy iNiveau)) :
    ∃ t, SymtabNiveauDestroy symtab iNiveau = some t ∧
      Represents t (declare scopes (.niveauDestroy iNiveau)) := by
  obtain ⟨tails, noSkip⟩ := orderly
  obtain ⟨t, loop, data⟩ := niveauLoop_noSkip symtab.cursor h.sorted noSkip
    (fun e mem => ⟨(h.some_entry mem).1, tails e mem⟩) (Nat.lt_succ_self _)
  refine ⟨t, loop, ?_, ?_⟩
  · rw [data]
    refine List.Pairwise.filterMap _ (fun e e' less b some_b b' some_b' => ?_) h.sorted
    split at some_b
    case isTrue => cases some_b
    case isFalse =>
      split at some_b'
      case isTrue => cases some_b'
      case isFalse =>
        cases some_b
        cases some_b'
        exact less
  · intro name stack
    have mem_cleaned : (name, stack) ∈ cleaned iNiveau symtab.data ↔
        ∃ old, (name, old) ∈ symtab.data ∧ kept iNiveau old = stack ∧ stack ≠ [] := by
      unfold cleaned
      rw [List.mem_filterMap]
      constructor
      · rintro ⟨e, mem, image⟩
        split at image
        case isTrue => cases image
        case isFalse stays =>
          obtain ⟨rfl, rfl⟩ := Prod.mk.inj (Option.some.inj image)
          exact ⟨e.2, mem, rfl, stays⟩
      · rintro ⟨old, mem, rfl, stays⟩
        exact ⟨(name, old), mem, if_neg stays⟩
    rw [data, mem_cleaned]
    constructor
    · rintro ⟨old, mem, keeps, stays⟩
      have current : scopes name = old := (h.some_entry mem).2
      refine ⟨stays, ?_⟩
      rw [← keeps, ← current]
      rfl
    · rintro ⟨stays, current⟩
      have some_entry : scopes name ≠ [] := by
        intro empty
        apply stays
        rw [← current]
        change (scopes name).filter _ = []
        rw [empty]
        rfl
      exact ⟨scopes name, h.mem some_entry, current, stays⟩

/-- A step that is orderly has a result, which has the entries it should have. -/
theorem symtabStep_orderly (h : Represents symtab scopes) (orderly : Orderly symtab op) :
    ∃ t, symtabStep symtab op = some t ∧ Represents t (declare scopes op) := by
  cases op with
  | insert name pvData iNiveau => exact ⟨_, rfl, h.insert⟩
  | find name => exact ⟨_, rfl, h.find⟩
  | niveauDestroy iNiveau => exact h.niveauDestroy orderly

theorem Descending.declare (descending : Descending scopes) (h : Represents symtab scopes)
    (orderly : Orderly symtab op) : Descending (declare scopes op) := by
  cases op with
  | insert name pvData iNiveau =>
    intro name'
    by_cases same : name' = name
    · subst same
      change (Function.update scopes name' (⟨pvData, iNiveau⟩ :: scopes name') name').Pairwise _
      rw [Function.update_self]
      refine List.pairwise_cons.mpr ⟨fun d mem => ?_, descending name'⟩
      have some_entry : scopes name' ≠ [] := List.ne_nil_of_mem mem
      obtain ⟨top, rest, stack⟩ := List.exists_cons_of_ne_nil some_entry
      have top_le : top.iNiveau ≤ iNiveau :=
        orderly (scopes name') (h.mem some_entry) top (by rw [stack]; rfl)
      have sorted := descending name'
      rw [stack] at sorted mem
      rcases List.mem_cons.mp mem with rfl | mem
      · exact top_le
      · exact Int.le_trans ((List.pairwise_cons.mp sorted).1 d mem) top_le
    · change (Function.update scopes name (⟨pvData, iNiveau⟩ :: scopes name) name').Pairwise _
      rw [Function.update_of_ne same]
      exact descending name'
  | find name => exact descending
  | niveauDestroy iNiveau => exact fun name => (descending name).filter _

/-- Where the last entry of each name is the innermost, that is what is found. -/
theorem SymtabFind_innermost (h : Represents symtab scopes) (descending : Descending scopes)
    (name : Text) : Innermost (scopes name) (SymtabFind symtab name).2 := by
  rcases (BtreeTableSearch_eq h.sorted name).2 with ⟨stack, found, mem⟩ | ⟨none, absent⟩
  · obtain ⟨some_entry, current⟩ := h.some_entry mem
    obtain ⟨top, rest, cons⟩ := List.exists_cons_of_ne_nil some_entry
    have result : (SymtabFind symtab name).2 = some top.pvData := by
      change (BtreeTableSearch symtab name).2.bind _ = _
      rw [found]
      change stack.head?.map _ = _
      rw [show stack = top :: rest from cons]
      rfl
    have sorted := descending name
    rw [result, current]
    rw [current] at sorted
    change ∃ d ∈ stack, _
    rw [show stack = top :: rest from cons] at sorted ⊢
    refine ⟨top, List.mem_cons_self, rfl, fun d mem => ?_⟩
    rcases List.mem_cons.mp mem with rfl | mem
    · exact Int.le_refl _
    · exact (List.pairwise_cons.mp sorted).1 d mem
  · have result : (SymtabFind symtab name).2 = Option.none := by
      change (BtreeTableSearch symtab name).2.bind _ = _
      rw [none]
      rfl
    rw [result]
    by_contra some_entry
    exact absent _ (h.mem some_entry)

theorem symtab_represents (h : Represents s scopes) (descending : Descending scopes)
    (run : Run (Guarded Orderly SymtabStep) s ops t) :
    Represents t (ops.foldl declare scopes) ∧ Descending (ops.foldl declare scopes) := by
  induction run generalizing scopes with
  | nil => exact ⟨h, descending⟩
  | cons first _ ih =>
    obtain ⟨orderly, step⟩ := first
    obtain ⟨next, same, represents⟩ := symtabStep_orderly h orderly
    obtain rfl := Option.some.inj (same.symm.trans step)
    exact ih represents (descending.declare h orderly)

theorem represents_create : Represents (SymtabCreate : Symtab D) fun _ => [] where
  sorted := List.Pairwise.nil
  entries _ _ :=
    ⟨fun mem => absurd mem List.not_mem_nil, fun h => absurd h.2.symm h.1⟩

/-- In every run whose steps are orderly the table has exactly the entries that each name should
have, each lookup finds the innermost one, and every orderly step has a result. -/
theorem symtab_scoped (run : Run (Guarded Orderly SymtabStep) SymtabCreate ops t) :
    Represents t (declared ops) ∧ (∀ name, Innermost (declared ops name) (SymtabFind t name).2) ∧
      ∀ op, Orderly t op → ∃ u, SymtabStep t op u := by
  obtain ⟨represents, descending⟩ :=
    symtab_represents represents_create (fun _ => List.Pairwise.nil) run
  refine ⟨represents, SymtabFind_innermost represents descending, fun op orderly => ?_⟩
  obtain ⟨u, step, _⟩ := symtabStep_orderly represents orderly
  exact ⟨u, step⟩

/-- A name stays and another one is left. -/
theorem symtab_scoped_two :
    ∃ t : Symtab Nat,
      Run (Guarded Orderly SymtabStep) SymtabCreate
        [.insert [97] 1 1, .insert [98] 2 2, .niveauDestroy 1] t ∧
      Represents t (declared [.insert [97] 1 1, .insert [98] 2 2, .niveauDestroy 1]) := by
  have first : Orderly (SymtabCreate : Symtab Nat) (.insert [97] 1 1) :=
    fun stack mem => absurd mem List.not_mem_nil
  have second : Orderly (⟨[([97], [⟨1, 1⟩])], 0⟩ : Symtab Nat) (.insert [98] 2 2) := by
    intro stack mem
    have same := (Prod.mk.inj (List.mem_singleton.mp mem)).1
    cases same
  have third : Orderly (⟨[([97], [⟨1, 1⟩]), ([98], [⟨2, 2⟩])], 1⟩ : Symtab Nat)
      (.niveauDestroy 1) := by
    refine ⟨fun e mem d tail => ?_, ?_⟩
    · rcases List.mem_cons.mp mem with rfl | mem
      · cases tail
      · obtain rfl := List.mem_singleton.mp mem
        cases tail
    · exact trivial
  have run : Run (Guarded Orderly SymtabStep) (SymtabCreate : Symtab Nat)
      [.insert [97] 1 1, .insert [98] 2 2, .niveauDestroy 1] ⟨[([97], [⟨1, 1⟩])], 1⟩ :=
    .cons ⟨first, rfl⟩ (.cons ⟨second, rfl⟩ (.cons ⟨third, rfl⟩ (.nil _)))
  exact ⟨_, run, (symtab_scoped run).1⟩

/-- Of two names that are left one after the other the second is skipped. -/
theorem niveauDestroy_skips :
    ¬ ∀ (ops : List (SymtabOp Nat)) (t : Symtab Nat),
      Run SymtabStep SymtabCreate ops t → Represents t (declared ops) := by
  intro represents
  have run : Run SymtabStep (SymtabCreate : Symtab Nat)
      [.insert [97] 1 1, .insert [98] 2 2, .insert [99] 3 2, .niveauDestroy 1]
      ⟨[([97], [⟨1, 1⟩]), ([99], [⟨3, 2⟩])], 1⟩ :=
    .cons rfl (.cons rfl (.cons rfl (.cons rfl (.nil _))))
  have left := ((represents _ _ run).entries [99] [⟨3, 2⟩]).mp (by simp)
  exact absurd left.2 (by decide)

end Runs

end SourceNavigator.Cpp

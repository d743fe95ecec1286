import Mathlib.Data.Finset.Card
import Mathlib.Data.List.Forall2
import Mathlib.Data.List.SplitBy
import SourceNavigator.Hyper.CrossFilter

/-!
Duplicates in cross-reference lists (`cross_services` in `hyper/services.c`).

The records that pass the filters fall into runs of the same symbols. A record is compared with the
one that is put out before the static filter is applied to it, so one that this filter holds back
adds its access letter, too.

* `groups` are the records that are collected for the elements.
* `filter_iff` says when there is an element for each run with the letters of the run.
-/

namespace SourceNavigator.Hyper.Cross

/-! ### Runs -/

/-- What stands in the records that are compared. -/
def Options.symbols (o : Options) (r : Record) : Text × Text × Text × Option Text :=
  (r.field DB_CLS2, r.field DB_SYM2, r.field DB_SCP2,
    if o.accept_param then some (r.field DB_PRM2) else none)

/-- The records of the list that pass the filters for scopes and access. -/
def Options.shownRecords (o : Options) (contents : Text) : List Record :=
  ((elements contents).filterMap Record.read).filter o.shows

/-- The record passes the static filter. -/
def Options.passes (o : Options) (r : Record) : Bool := !o.drops r

/-- The records that pass all filters. -/
def Options.passing (o : Options) (contents : Text) : List Record :=
  (o.shownRecords contents).filter o.passes

/-- A line for a run: the fields of the first record, and the access letters of all. -/
def Carries (run : List Record) (line : List Text) : Prop :=
  ∃ r letters, run.head? = some r ∧ line = r.line ++ [letters] ∧ letters.Nodup ∧
    ∀ c, c ∈ letters ↔ ∃ r ∈ run, r.refa = [c]

/-- The records that are collected for the element of `r`, and those for the elements behind it. -/
def Options.groupsFrom (o : Options) : Record → List Record → List Record → List (List Record)
  | _, run, [] => [run]
  | r, run, a :: rs =>
    if o.same r a then o.groupsFrom r (run ++ [a]) rs
    else if o.drops a then o.groupsFrom r run rs
    else run :: o.groupsFrom a [a] rs

/-- The runs together with the duplicates that the static filter would hold back. -/
def Options.groups (o : Options) : List Record → List (List Record)
  | [] => []
  | r :: rs => if o.drops r then o.groups rs else o.groupsFrom r [r] rs

/-- The access letters of records. -/
def letters (run : List Record) : Finset UInt8 := (run.flatMap Record.refa).toFinset

section Runs

variable {o : Options} {r a : Record} {run rs : List Record}

theorem same_iff : o.same r a = true ↔ o.symbols r = o.symbols a := by
  rw [Options.same, Options.symbols, Options.symbols]
  cases o.accept_param with
  | true => simp [and_assoc]
  | false => simp [and_assoc]

theorem groupsFrom_cons (o : Options) (r : Record) (run rs : List Record) :
    ∃ more others, o.groupsFrom r run rs = (run ++ more) :: others := by
  induction rs generalizing run with
  | nil => exact ⟨[], [], by rw [Options.groupsFrom, List.append_nil]⟩
  | cons a rs ih =>
    rw [Options.groupsFrom]
    split
    case isTrue =>
      obtain ⟨more, others, whole⟩ := ih (run ++ [a])
      exact ⟨a :: more, others, by rw [whole, List.append_assoc, List.singleton_append]⟩
    case isFalse =>
      split
      case isTrue => exact ih run
      case isFalse => exact ⟨[], _, by rw [List.append_nil]⟩

theorem isChain_same (all : ∀ e ∈ run, o.same r e = true) :
    (run.filter o.passes).IsChain fun x y => o.same x y = true := by
  refine (List.pairwise_of_forall_mem_list fun x mem y mem' => ?_).isChain
  have first := same_iff.mp (all x (List.mem_filter.mp mem).1)
  have second := same_iff.mp (all y (List.mem_filter.mp mem').1)
  exact same_iff.mpr (first.symm.trans second)

/-- Without the records that the static filter holds back the groups are runs. -/
theorem filter_groupsFrom (first : run.head? = some r) (passes : o.passes r = true)
    (all : ∀ e ∈ run, o.same r e = true) :
    (o.groupsFrom r run rs).map (List.filter o.passes) =
      ((run ++ rs).filter o.passes).splitBy o.same := by
  have some_run : run.filter o.passes ≠ [] :=
    List.ne_nil_of_mem (List.mem_filter.mpr ⟨List.mem_of_head? first, passes⟩)
  induction rs generalizing r run with
  | nil =>
    rw [Options.groupsFrom, List.append_nil, List.map_singleton,
      List.splitBy_of_isChain some_run (isChain_same all)]
  | cons a rs ih =>
    rw [Options.groupsFrom]
    split
    case isTrue same =>
      have all' : ∀ e ∈ run ++ [a], o.same r e = true := by
        intro e mem
        rcases List.mem_append.mp mem with mem | mem
        · exact all e mem
        · rw [List.mem_singleton.mp mem]
          exact same
      have first' : (run ++ [a]).head? = some r := by rw [List.head?_append, first]; rfl
      have some_run' : (run ++ [a]).filter o.passes ≠ [] := by
        rw [List.filter_append]
        exact List.append_ne_nil_of_left_ne_nil some_run _
      rw [ih first' passes all' some_run', List.append_assoc, List.singleton_append]
    case isFalse other =>
      split
      case isTrue dropped =>
        rw [ih first passes all some_run, List.filter_append, List.filter_append,
          List.filter_cons_of_neg (by simp [Options.passes, dropped])]
      case isFalse kept =>
        have pass : o.passes a = true := by simp [Options.passes, kept]
        have differs : ∀ x ∈ (run.filter o.passes).getLast?, o.same x a = false := by
          intro x mem
          have in_run := (List.mem_filter.mp (List.mem_of_getLast? mem)).1
          refine Bool.eq_false_iff.mpr fun same => other (same_iff.mpr ?_)
          exact (same_iff.mp (all x in_run)).trans (same_iff.mp same)
        have single : ∀ e ∈ [a], o.same a e = true := by simp [same_iff]
        have rest := ih rfl pass single (by simp [pass])
        rw [List.singleton_append, List.filter_cons_of_pos pass] at rest
        rw [List.map_cons, rest, List.filter_append, List.filter_cons_of_pos pass,
          List.splitBy_append_cons _ differs, List.splitBy_of_isChain some_run (isChain_same all),
          List.singleton_append]

theorem filter_groups :
    (o.groups rs).map (List.filter o.passes) = (rs.filter o.passes).splitBy o.same := by
  induction rs with
  | nil => rfl
  | cons r rs ih =>
    rw [Options.groups]
    split
    case isTrue dropped => rw [ih, List.filter_cons_of_neg (by simp [Options.passes, dropped])]
    case isFalse kept =>
      exact filter_groupsFrom rfl (by simp [Options.passes, kept]) (by simp [same_iff])

/-- The records of a group come from its run and the rest, and the first one passes. -/
theorem mem_groupsFrom {g : List Record} (first : run.head? = some r) (passes : o.passes r = true)
    (mem : g ∈ o.groupsFrom r run rs) :
    (∀ a ∈ g, a ∈ run ++ rs) ∧ ∀ r', g.head? = some r' → o.passes r' = true := by
  induction rs generalizing r run with
  | nil =>
    rw [List.mem_singleton.mp mem, List.append_nil]
    refine ⟨fun a mem => mem, fun r' head => ?_⟩
    rw [first] at head
    rwa [← Option.some.inj head]
  | cons a rs ih =>
    rw [Options.groupsFrom] at mem
    split at mem
    case isTrue same =>
      have first' : (run ++ [a]).head? = some r := by
        rw [List.head?_append, first]
        rfl
      have rest := ih first' passes mem
      rwa [List.append_assoc] at rest
    case isFalse other =>
      split at mem
      case isTrue dropped =>
        obtain ⟨inside, head⟩ := ih first passes mem
        refine ⟨fun b in_g => ?_, head⟩
        exact (List.append_sublist_append_left run).mpr (List.sublist_cons_self a rs) |>.subset
          (inside b in_g)
      case isFalse kept =>
        rcases List.mem_cons.mp mem with rfl | mem
        · refine ⟨fun b in_g => List.mem_append_left _ in_g, fun r' head => ?_⟩
          rw [first] at head
          rwa [← Option.some.inj head]
        · obtain ⟨inside, head⟩ := ih rfl (by simp [Options.passes, kept]) mem
          exact ⟨fun b in_g => List.mem_append_right run (inside b in_g), head⟩

theorem mem_groups {g : List Record} (mem : g ∈ o.groups rs) :
    (∀ a ∈ g, a ∈ rs) ∧ ∀ r, g.head? = some r → o.passes r = true := by
  induction rs with
  | nil => cases mem
  | cons a rs ih =>
    rw [Options.groups] at mem
    split at mem
    case isTrue dropped =>
      obtain ⟨inside, head⟩ := ih mem
      exact ⟨fun b in_g => List.mem_cons_of_mem a (inside b in_g), head⟩
    case isFalse kept => exact mem_groupsFrom rfl (by simp [Options.passes, kept]) mem

end Runs

/-! ### The loop -/

/-- The letters of a group are collected, each once. -/
def Collects (run : List Record) (letters : Text) : Prop :=
  letters.Nodup ∧ ∀ c, c ∈ letters ↔ ∃ r ∈ run, c ∈ r.refa

/-- The line of a group. -/
def Element (run : List Record) (line : List Text) : Prop :=
  ∃ r letters, run.head? = some r ∧ line = r.line ++ [letters] ∧ Collects run letters

/-- The element of a record waits. -/
def pending (r : Record) (letters : Text) (erg : List (List Text)) : State :=
  ⟨true, letters, r.line, some r, erg⟩

section Loop

variable {o : Options} {r a : Record} {run rs : List Record} {collected : Text}
  {erg : List (List Text)} {st : State}

theorem card_letters (collects : Collects run collected) :
    (letters run).card = collected.length := by
  rw [← List.toFinset_card_of_nodup collects.1]
  refine congrArg Finset.card (Finset.ext fun c => ?_)
  rw [letters, List.mem_toFinset, List.mem_toFinset, List.mem_flatMap, collects.2]

theorem Collects.append_nil (collects : Collects run collected) (none : a.refa = []) :
    Collects (run ++ [a]) collected := by
  refine ⟨collects.1, fun c => ?_⟩
  simp [collects.2, none]

theorem Collects.append_old {c : UInt8} (collects : Collects run collected) (letter : a.refa = [c])
    (old : c ∈ collected) : Collects (run ++ [a]) collected := by
  refine ⟨collects.1, fun d => ?_⟩
  rw [collects.2]
  constructor
  · rintro ⟨r, mem, in_r⟩
    exact ⟨r, List.mem_append_left _ mem, in_r⟩
  · rintro ⟨r, mem, in_r⟩
    rcases List.mem_append.mp mem with mem | mem
    · exact ⟨r, mem, in_r⟩
    · rw [List.mem_singleton.mp mem, letter, List.mem_singleton] at in_r
      rw [in_r]
      exact (collects.2 c).mp old

theorem Collects.append_new {c : UInt8} (collects : Collects run collected) (letter : a.refa = [c])
    (new : c ∉ collected) : Collects (run ++ [a]) (collected ++ [c]) := by
  constructor
  · exact List.nodup_append.mpr ⟨collects.1, List.nodup_singleton c, by
      intro x mem y mem' same
      rw [List.mem_singleton.mp mem'] at same
      exact new (same ▸ mem)⟩
  · intro d
    simp [collects.2, letter, or_and_right, exists_or]

theorem access_cases (letter : a.refa.length ≤ 1) : a.refa = [] ∨ ∃ c, a.refa = [c] := by
  cases accesses : a.refa with
  | nil => exact .inl rfl
  | cons c more =>
    rw [accesses, List.length_cons] at letter
    have last : more = [] := List.length_eq_zero_iff.mp (by omega)
    exact .inr ⟨c, by rw [last]⟩

theorem collects_singleton (letter : a.refa.length ≤ 1) : Collects [a] a.refa := by
  refine ⟨?_, fun c => by simp⟩
  rcases access_cases letter with none | ⟨c, single⟩
  · rw [none]
    exact List.nodup_nil
  · rw [single]
    exact List.nodup_singleton c

/-- A duplicate adds its letter, or there is no room for it. -/
theorem turn_same (erg : List (List Text)) (uniq : o.uniq = true) (shown : o.shows a = true) (letter : a.refa.length ≤ 1)
    (same : o.same r a = true) (collects : Collects run collected) (room : collected.length < 16) :
    (∃ collected', o.turn (pending r collected erg) a = .next (pending r collected' erg) ∧
      Collects (run ++ [a]) collected' ∧ collected'.length < 16) ∨
    (o.turn (pending r collected erg) a = .overflow ∧ 16 ≤ (letters (run ++ [a])).card) := by
  have duplicate : (o.uniq && (pending r collected erg).oldfields.any (o.same · a)) = true := by
    simp [pending, uniq, same]
  simp only [Options.turn, shown, duplicate, Bool.not_true, Bool.false_eq_true, if_false, if_true]
  rcases access_cases letter with none | ⟨c, single⟩
  · refine .inl ⟨collected, ?_, collects.append_nil none, room⟩
    rw [none]
    split
    case isTrue => simp [pending, room]
    case isFalse => rfl
  · rw [single]
    by_cases old : c ∈ collected
    · refine .inl ⟨collected, ?_, collects.append_old single old, room⟩
      have some_letter : collected ≠ [] := List.ne_nil_of_mem old
      simp [pending, old, some_letter]
    · have collects' := collects.append_new single old
      by_cases full : 16 ≤ collected.length + 1
      · refine .inr ⟨?_, ?_⟩
        · simp [pending, old, full]
        · rw [card_letters collects', List.length_append]
          exact full
      · refine .inl ⟨collected ++ [c], ?_, collects', ?_⟩
        · simp [pending, old, full]
        · rw [List.length_append]
          exact Nat.not_le.mp full

theorem turn_dropped (collected : Text) (erg : List (List Text)) (shown : o.shows a = true)
    (differs : o.same r a = false) (dropped : o.drops a = true) :
    o.turn (pending r collected erg) a = .next (pending r collected erg) := by
  simp [Options.turn, pending, shown, differs, dropped]

theorem turn_kept (collected : Text) (erg : List (List Text)) (have_off : o.have_refs = false)
    (shown : o.shows a = true) (differs : o.same r a = false) (kept : o.drops a = false)
    (letter : a.refa.length ≤ 1) :
    o.turn (pending r collected erg) a =
      .next (pending a a.refa (erg ++ [r.line ++ [collected]])) := by
  have room : ¬ 16 ≤ a.refa.length := by omega
  simp [Options.turn, pending, have_off, shown, differs, kept, room]

/-- The loop puts out a line for each group, if there is room for the letters. -/
theorem records_groupsFrom (erg : List (List Text)) (have_off : o.have_refs = false) (uniq : o.uniq = true)
    (shown : ∀ a ∈ rs, o.shows a = true) (letter : ∀ a ∈ rs, a.refa.length ≤ 1)
    (first : run.head? = some r) (collects : Collects run collected) (room : collected.length < 16) :
    (∃ lines, (o.records (pending r collected erg) rs).map State.result = some (erg ++ lines) ∧
      List.Forall₂ Element (o.groupsFrom r run rs) lines ∧
      ∀ g ∈ o.groupsFrom r run rs, (letters g).card < 16) ∨
    (o.records (pending r collected erg) rs = none ∧
      ∃ g ∈ o.groupsFrom r run rs, 16 ≤ (letters g).card) := by
  induction rs generalizing r run collected erg with
  | nil =>
    refine .inl ⟨[r.line ++ [collected]], rfl, ?_, fun g mem => ?_⟩
    · exact .cons ⟨r, collected, first, rfl, collects⟩ .nil
    · rw [List.mem_singleton.mp mem, card_letters collects]
      exact room
  | cons a rs ih =>
    obtain ⟨shown_a, shown'⟩ := List.forall_mem_cons.mp shown
    obtain ⟨letter_a, letter'⟩ := List.forall_mem_cons.mp letter
    rw [Options.records, Options.groupsFrom]
    by_cases same : o.same r a = true
    · have first' : (run ++ [a]).head? = some r := by
        rw [List.head?_append, first]
        rfl
      rw [if_pos same]
      rcases turn_same erg uniq shown_a letter_a same collects room with
        ⟨collected', turn, collects', room'⟩ | ⟨turn, full⟩
      · rw [turn]
        exact ih erg shown' letter' first' collects' room'
      · rw [turn]
        obtain ⟨more, others, whole⟩ := groupsFrom_cons o r (run ++ [a]) rs
        refine .inr ⟨rfl, run ++ [a] ++ more, whole ▸ List.mem_cons_self, ?_⟩
        refine Nat.le_trans full (Finset.card_le_card fun c mem => ?_)
        rw [letters, List.mem_toFinset] at mem ⊢
        rw [List.flatMap_append]
        exact List.mem_append_left _ mem
    · have differs : o.same r a = false := Bool.eq_false_iff.mpr same
      rw [if_neg same]
      by_cases dropped : o.drops a = true
      · rw [turn_dropped _ _ shown_a differs dropped, if_pos dropped]
        exact ih erg shown' letter' first collects room
      · have kept : o.drops a = false := Bool.eq_false_iff.mpr dropped
        have room' : a.refa.length < 16 := Nat.lt_of_le_of_lt letter_a (by decide)
        rw [turn_kept _ _ have_off shown_a differs kept letter_a, if_neg dropped]
        rcases ih (erg ++ [r.line ++ [collected]]) shown' letter' rfl (collects_singleton letter_a)
          room' with ⟨lines, result, elements, fits⟩ | ⟨overflow, g, mem, full⟩
        · refine .inl ⟨(r.line ++ [collected]) :: lines, ?_, ?_, fun g mem => ?_⟩
          · rw [result, List.append_assoc, List.singleton_append]
          · exact .cons ⟨r, collected, first, rfl, collects⟩ elements
          · rcases List.mem_cons.mp mem with rfl | mem
            · rw [card_letters collects]
              exact room
            · exact fits g mem
        · exact .inr ⟨overflow, g, List.mem_cons_of_mem _ mem, full⟩

/-- The first record that passes starts the first group. -/
theorem records_groups (have_off : o.have_refs = false) (uniq : o.uniq = true)
    (shown : ∀ a ∈ rs, o.shows a = true) (letter : ∀ a ∈ rs, a.refa.length ≤ 1) :
    (∃ lines, (o.records ⟨false, [], [], none, []⟩ rs).map State.result = some lines ∧
      List.Forall₂ Element (o.groups rs) lines ∧ ∀ g ∈ o.groups rs, (letters g).card < 16) ∨
    (o.records ⟨false, [], [], none, []⟩ rs = none ∧ ∃ g ∈ o.groups rs, 16 ≤ (letters g).card) := by
  induction rs with
  | nil => exact .inl ⟨[], rfl, .nil, fun g mem => absurd mem List.not_mem_nil⟩
  | cons a rs ih =>
    obtain ⟨shown_a, shown'⟩ := List.forall_mem_cons.mp shown
    obtain ⟨letter_a, letter'⟩ := List.forall_mem_cons.mp letter
    rw [Options.records, Options.groups]
    by_cases dropped : o.drops a = true
    · have stays : o.turn ⟨false, [], [], none, []⟩ a = .next ⟨false, [], [], none, []⟩ := by
        simp [Options.turn, shown_a, dropped]
      rw [stays, if_pos dropped]
      exact ih shown' letter'
    · have room : a.refa.length < 16 := Nat.lt_of_le_of_lt letter_a (by decide)
      have starts : o.turn ⟨false, [], [], none, []⟩ a = .next (pending a a.refa []) := by
        simp [Options.turn, pending, shown_a, dropped, have_off, Nat.not_le.mpr room]
      rw [starts, if_neg dropped]
      exact records_groupsFrom [] have_off uniq shown' letter' rfl (collects_singleton letter_a) room

/-- Without the test for duplicates every record that passes is put out. -/
theorem records_each (st : State) (have_off : o.have_refs = false) (uniq : o.uniq = false)
    (shown : ∀ a ∈ rs, o.shows a = true) (letter : ∀ a ∈ rs, a.refa.length ≤ 1) :
    (o.records st rs).map State.result =
      some (st.result ++ (rs.filter o.passes).map fun r => r.line ++ [r.refa]) := by
  induction rs generalizing st with
  | nil => simp [Options.records]
  | cons a rs ih =>
    obtain ⟨shown_a, shown'⟩ := List.forall_mem_cons.mp shown
    obtain ⟨letter_a, letter'⟩ := List.forall_mem_cons.mp letter
    rw [Options.records]
    by_cases dropped : o.drops a = true
    · have stays : o.turn st a = .next st := by simp [Options.turn, uniq, shown_a, dropped]
      rw [stays, List.filter_cons_of_neg (by simp [Options.passes, dropped])]
      exact ih st shown' letter'
    · have room : ¬ 16 ≤ a.refa.length := by omega
      have turn : o.turn st a = .next (pending a a.refa st.result) := by
        simp [Options.turn, pending, State.result, uniq, shown_a, dropped, have_off, room]
      rw [turn, List.filter_cons_of_pos (by simp [Options.passes, dropped])]
      have waits : (pending a a.refa st.result).result = st.result ++ [a.line ++ [a.refa]] := rfl
      have rest := ih (pending a a.refa st.result) shown' letter'
      rw [waits, List.append_assoc] at rest
      exact rest

end Loop

/-! ### The list -/

theorem refa_ne_nil {o : Options} {d : Record} (dropped : o.drops d = true) : d.refa ≠ [] := by
  rintro none
  simp [Options.drops, none] at dropped

/-- A line carries what its run asks for if the duplicates that were held back have no letters of
their own. -/
theorem carries_iff {o : Options} {g : List Record} {line : List Text} (element : Element g line)
    (letter : ∀ a ∈ g, a.refa.length ≤ 1) (passes : ∀ r, g.head? = some r → o.passes r = true) :
    Carries (g.filter o.passes) line ↔
      ∀ d ∈ g, o.drops d = true → ∃ r ∈ g, o.drops r = false ∧ r.refa = d.refa := by
  obtain ⟨r, collected, first, rfl, collects⟩ := element
  constructor
  · rintro ⟨r', collected', _, same, _, mem_iff⟩ d mem dropped
    obtain ⟨c, single⟩ := (access_cases (letter d mem)).resolve_left (refa_ne_nil dropped)
    have same_letters : collected = collected' := List.singleton_inj.mp (List.append_inj' same rfl).2
    have in_letters : c ∈ collected := (collects.2 c).mpr ⟨d, mem, by simp [single]⟩
    rw [same_letters, mem_iff] at in_letters
    obtain ⟨e, in_run, access⟩ := in_letters
    obtain ⟨in_g, pass⟩ := List.mem_filter.mp in_run
    exact ⟨e, in_g, by simpa [Options.passes] using pass, access.trans single.symm⟩
  · intro shared
    refine ⟨r, collected, ?_, rfl, collects.1, fun c => ?_⟩
    · cases g with
      | nil => cases first
      | cons a g => rw [List.filter_cons_of_pos (passes a rfl)]; exact first
    · rw [collects.2]
      constructor
      · rintro ⟨e, in_g, in_e⟩
        have single : e.refa = [c] := by
          rcases access_cases (letter e in_g) with none | ⟨d, single⟩
          · rw [none] at in_e
            cases in_e
          · rw [single, List.mem_singleton] at in_e
            rw [single, in_e]
        cases dropped : o.drops e with
        | false => exact ⟨e, List.mem_filter.mpr ⟨in_g, by simp [Options.passes, dropped]⟩, single⟩
        | true =>
          obtain ⟨e', in_g', kept, same⟩ := shared e in_g dropped
          exact ⟨e', List.mem_filter.mpr ⟨in_g', by simp [Options.passes, kept]⟩, same.trans single⟩
      · rintro ⟨e, in_run, single⟩
        exact ⟨e, (List.mem_filter.mp in_run).1, by simp [single]⟩

theorem forall₂_carries_iff {f : List Record → List Record} {gs : List (List Record)}
    {lines : List (List Text)} {p : List Record → Prop} (elements : List.Forall₂ Element gs lines)
    (each : ∀ g ∈ gs, ∀ line, Element g line → (Carries (f g) line ↔ p g)) :
    List.Forall₂ Carries (gs.map f) lines ↔ ∀ g ∈ gs, p g := by
  induction elements with
  | nil => simp
  | cons element elements ih =>
    rw [List.map_cons, List.forall₂_cons, List.forall_mem_cons,
      each _ List.mem_cons_self _ element, ih fun g mem => each g (List.mem_cons_of_mem _ mem)]

/-- There is a line for each run with the letters of the run, and no buffer is written past its
end, if and only if no line of the list is as long as the line buffer, no run has 16 letters, and
no duplicate that is held back has a letter that no record of the run has. -/
theorem filter_iff (o : Options) (contents : Text) (have_off : o.have_refs = false)
    (letter : ∀ r ∈ (elements contents).filterMap Record.read, r.refa.length ≤ 1) :
    (∃ erg, cross_services_filter o contents = some erg ∧
      if o.uniq then List.Forall₂ Carries ((o.passing contents).splitBy o.same) erg
      else erg = (o.passing contents).map fun r => r.line ++ [r.refa]) ↔
    LineFits 512 ((elements contents).map List.length) ∧
      (o.uniq = true → ∀ g ∈ o.groups (o.shownRecords contents), (letters g).card < 16 ∧
        ∀ d ∈ g, o.drops d = true → ∃ r ∈ g, o.drops r = false ∧ r.refa = d.refa) := by
  have shown : ∀ a ∈ o.shownRecords contents, o.shows a = true :=
    fun a mem => (List.mem_filter.mp mem).2
  have letter' : ∀ a ∈ o.shownRecords contents, a.refa.length ≤ 1 :=
    fun a mem => letter a (List.mem_filter.mp mem).1
  rw [cross_services_filter, lines_eq have_off (by decide)]
  by_cases fits : LineFits 512 ((elements contents).map List.length)
  · rw [if_pos fits, and_iff_right fits, records_filter]
    cases uniq : o.uniq with
    | false =>
      have each := records_each ⟨false, [], [], none, []⟩ have_off uniq shown letter'
      refine iff_of_true ⟨_, each, ?_⟩ (fun on => absurd on Bool.false_ne_true)
      rfl
    | true =>
      simp only [if_true, true_implies]
      have all : ∀ g ∈ o.groups (o.shownRecords contents), ∀ line, Element g line →
          (Carries (g.filter o.passes) line ↔
            ∀ d ∈ g, o.drops d = true → ∃ r ∈ g, o.drops r = false ∧ r.refa = d.refa) := by
        intro g mem line element
        obtain ⟨inside, passes⟩ := mem_groups mem
        exact carries_iff element (fun a in_g => letter' a (inside a in_g)) passes
      rw [Options.passing, ← filter_groups]
      rcases records_groups have_off uniq shown letter' with
        ⟨lines, result, elements, room⟩ | ⟨overflow, g, mem, full⟩
      · have carry := forall₂_carries_iff elements all
        constructor
        · rintro ⟨erg, run, carries⟩ g mem
          have same : lines = erg := Option.some.inj (result.symm.trans run)
          rw [← same, carry] at carries
          exact ⟨room g mem, carries g mem⟩
        · intro each
          exact ⟨lines, result, carry.mpr fun g mem => (each g mem).2⟩
      · refine iff_of_false ?_ (fun each => Nat.not_le.mpr (each g mem).1 full)
        rintro ⟨erg, run, _⟩
        have returns : (o.records ⟨false, [], [], none, []⟩ (o.shownRecords contents)).map
            State.result = some erg := run
        rw [overflow] at returns
        cases returns
  · rw [if_neg fits]
    refine iff_of_false ?_ (fun both => fits both.1)
    rintro ⟨erg, run, _⟩
    cases run

/-- The settings that test for duplicates only. -/
def unique : Options where
  refart := .REF_BY
  file := []
  uniq := true
  have_refs := false
  accept_param := false
  accept_static := false
  shown_scopes := []
  ref_access := []

/-- A symbol that is read and written. -/
def readAndWritten : Text := ascii "\x7bs c mi p r f 1 q\x7d \x7bs c mi p w f 2 q\x7d"

theorem read_and_written :
    (∃ erg, cross_services_filter unique readAndWritten = some erg ∧
      if unique.uniq then
        List.Forall₂ Carries ((unique.passing readAndWritten).splitBy unique.same) erg
      else erg = (unique.passing readAndWritten).map fun r => r.line ++ [r.refa]) ↔
    LineFits 512 ((elements readAndWritten).map List.length) ∧
      (unique.uniq = true → ∀ g ∈ unique.groups (unique.shownRecords readAndWritten),
        (letters g).card < 16 ∧ ∀ d ∈ g, unique.drops d = true →
          ∃ r ∈ g, unique.drops r = false ∧ r.refa = d.refa) :=
  filter_iff unique readAndWritten rfl (by decide +kernel)

/-- A record of 512 bytes is copied to the line buffer with the NUL behind it. -/
theorem record_fills_line_buffer :
    (elements (ascii "\x7bs c mi " ++ List.replicate 497 112 ++ ascii " r f 1 q\x7d")).map
        List.length = [512] ∧
      cross_services_filter unique
        (ascii "\x7bs c mi " ++ List.replicate 497 112 ++ ascii " r f 1 q\x7d") = none := by
  decide +kernel

end SourceNavigator.Hyper.Cross

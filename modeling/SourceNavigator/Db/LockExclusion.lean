import SourceNavigator.Db.LockRecord

/-!
Mutual exclusion by the lock of a project.

* `step_effect`: a step has one of the effects on the lock file (`Effect`).
* `lock_exclusive` keeps mutual exclusion along every run in which no process
  unlinks the file of another one that lives and has not given it up.
-/

namespace SourceNavigator.Db.Lock

open Lib

/-! ### What a step does -/

section Effect

variable {args : Nat → Args} {s s' t : State} {p q i j : Nat} {e : Event} {pc : Pc}

/-- What a step of a process does to the lock file and to the file the process holds. -/
inductive Effect (s : State) (p : Nat) (e : Event) (s' : State) : Prop
  | keeps (path : s'.path = s.path) (held : ∀ i, Holds s' p i → Holds s p i)
  | creates (absent : s.path = none) (held : ∀ i, Holds s' p i → s'.path = some i)
  | unlinks (turn : s.proc p = .unlink) (next : e = .next) (gone : ∀ i, ¬ Holds s' p i)
  | releases (i : Nat) (held : Holds s p i) (gone : ∀ i, ¬ Holds s' p i)

/-- A process that goes on holds the file that its place says. -/
theorem held_goto (holds : Holds (s.goto p pc) p i) : pc.held = some i := by
  have place := holds.2
  rwa [proc_goto_self] at place

theorem gone_goto (gone : pc.held = none) (i : Nat) : ¬ Holds (s.goto p pc) p i := by
  intro holds
  rw [held_goto holds] at gone
  cases gone

/-- A process that goes on without a new file. -/
theorem keeps_goto (path : t.path = s.path) (alive : s.alive p = true)
    (held : pc.held = none ∨ pc.held = (s.proc p).held) : Effect s p e (t.goto p pc) := by
  refine .keeps path fun i holds => ⟨alive, ?_⟩
  rcases held with none | same
  · exact absurd holds (gone_goto none i)
  · rw [← same, held_goto holds]

theorem held_nextTry (first : Option LockRecord) (fd cou : Nat) (lck : LockRecord) :
    (nextTry first fd cou lck).held = none := by
  unfold nextTry
  split <;> rfl

theorem held_afterRead (first : Option LockRecord) (lck : LockRecord) :
    (afterRead first lck).held = none := by
  cases first with
  | none =>
    unfold afterRead
    dsimp only
    split
    · rfl
    · split <;> rfl
  | some first =>
    unfold afterRead
    dsimp only
    split <;> rfl

/-- A step of a living process is one of the four effects. -/
theorem run_effect (alive : s.alive p = true) (h : run args s p e = some s') : Effect s p e s' := by
  unfold run at h
  split at h
  case h_1 place =>
    split at h
    · cases h
    · cases h
      exact keeps_goto rfl alive (.inl rfl)
  case h_2 place =>
    split at h
    case h_1 =>
      cases h
      exact keeps_goto rfl alive (.inl rfl)
    case h_2 absent =>
      cases h
      refine .creates absent fun i holds => ?_
      rw [← held_goto holds]
      rfl
  case h_3 => cases h; exact keeps_goto rfl alive (.inl rfl)
  case h_4 => split at h <;> cases h <;> exact keeps_goto rfl alive (.inl rfl)
  case h_5 =>
    dsimp only at h
    split at h
    · cases h
      exact keeps_goto rfl alive (.inl (held_nextTry _ _ _ _))
    · split at h
      · cases h
      · split at h <;> cases h
        · exact keeps_goto rfl alive (.inl (held_afterRead _ _))
        · exact keeps_goto rfl alive (.inl (held_nextTry _ _ _ _))
  case h_6 => cases h; exact keeps_goto rfl alive (.inl (held_nextTry _ _ _ _))
  case h_7 =>
    cases h
    refine keeps_goto rfl alive (.inl ?_)
    split
    · rfl
    · exact held_afterRead _ _
  case h_8 =>
    split at h <;> cases h
    refine keeps_goto rfl alive (.inl ?_)
    split <;> rfl
  case h_9 =>
    split at h <;> cases h
    refine keeps_goto rfl alive (.inl ?_)
    split <;> rfl
  case h_10 place => cases h; exact .unlinks place rfl (gone_goto rfl)
  case h_11 => cases h; exact keeps_goto rfl alive (.inl rfl)
  case h_12 fd place =>
    cases h
    refine keeps_goto rfl alive (.inr ?_)
    rw [place]
    rfl
  case h_13 => cases h; exact keeps_goto rfl alive (.inl rfl)
  case h_14 =>
    split at h <;> cases h
    exact keeps_goto rfl alive (.inl rfl)
  case h_15 fd place =>
    cases h
    refine keeps_goto rfl alive ?_
    split
    · right
      rw [place]
      rfl
    · exact .inl rfl
  case h_16 => cases h; exact keeps_goto rfl alive (.inl rfl)
  case h_17 fd place =>
    cases h
    refine .releases fd ⟨alive, ?_⟩ (gone_goto rfl)
    rw [place]
    rfl
  case h_18 => split at h <;> cases h <;> exact keeps_goto rfl alive (.inl rfl)
  case h_19 => cases h

/-- A step of a process leaves the other processes as they are. -/
def Frame (s : State) (p : Nat) (s' : State) : Prop :=
  ∀ q, q ≠ p → s'.proc q = s.proc q ∧ s'.alive q = s.alive q

theorem frame_goto (proc : t.proc = s.proc) (alive : t.alive = s.alive) :
    Frame s p (t.goto p pc) := by
  intro q other
  rw [proc_goto_ne other, proc]
  exact ⟨rfl, congrFun alive q⟩

theorem run_frame (h : run args s p e = some s') : Frame s p s' := by
  unfold run at h
  split at h
  case h_5 =>
    dsimp only at h
    split at h
    · cases h
      exact frame_goto rfl rfl
    · split at h
      · cases h
      · split at h <;> cases h <;> exact frame_goto rfl rfl
  case h_19 => cases h
  all_goals first
    | (split at h <;> cases h <;> exact frame_goto rfl rfl)
    | (cases h; exact frame_goto rfl rfl)

/-- A step is one of the four effects, and leaves the other processes as they are. -/
theorem step_effect (h : Step args s (p, e) s') :
    Effect s p e s' ∧ Frame s p s' := by
  have living : ∀ e, (if s.alive p then run args s p e else none) = some s' →
      Effect s p e s' ∧ Frame s p s' := by
    intro e h
    split at h
    case isTrue alive => exact ⟨run_effect alive h, run_frame h⟩
    case isFalse => cases h
  unfold Step step at h
  dsimp only at h
  split at h
  case h_1 dbimp =>
    split at h <;> cases h
    refine ⟨.keeps rfl fun i holds => absurd holds (gone_goto ?_ i), fun q other => ⟨?_, ?_⟩⟩
    · split <;> rfl
    · exact proc_goto_ne other
    · exact Function.update_of_ne other true s.alive
  case h_2 =>
    split at h <;> cases h
    refine ⟨.keeps rfl fun i holds => ?_, fun q other => ⟨rfl, ?_⟩⟩
    · have dead : Function.update s.alive p false p = false := Function.update_self p false s.alive
      exact absurd (holds.1.symm.trans dead) Bool.true_eq_false.mp
    · exact Function.update_of_ne other false s.alive
  case h_3 => exact living e h

/-- What holds of a process that takes no step is what held before. -/
theorem holds_frame (frame : Frame s p s')
    (other : q ≠ p) : Holds s' q i ↔ Holds s q i := by
  obtain ⟨proc, alive⟩ := frame q other
  rw [Holds, Holds, proc, alive]

/-! ### Mutual exclusion -/

/-- The lock file that is linked is the one a process holds, so that one process holds one at
most. -/
structure Inv (s : State) : Prop where
  linked : ∀ p i, Holds s p i → s.path = some i
  single : ∀ p q i j, Holds s p i → Holds s q j → p = q

theorem inv_init : Inv State.init where
  linked _ _ holds := Bool.noConfusion holds.1
  single _ _ _ _ holds _ := Bool.noConfusion holds.1

/-- A process that holds nothing else of others' files keeps the invariant. -/
theorem Inv.of_gone (frame : Frame s p s')
    (alone : ∀ q i, q ≠ p → ¬ Holds s q i) (linked : ∀ i, Holds s' p i → s'.path = some i) :
    Inv s' := by
  have only : ∀ q i, Holds s' q i → q = p := by
    intro q i holds
    by_contra other
    exact alone q i other ((holds_frame frame other).mp holds)
  constructor
  · intro q i holds
    obtain rfl := only q i holds
    exact linked i holds
  · intro q r i j first second
    rw [only q i first, only r j second]

/-- Every step that unlinks no file of another living process keeps the invariant. -/
theorem step_inv {a : Nat × Event} (inv : Inv s) (rightful : Rightful s a)
    (h : Step args s a s') : Inv s' := by
  obtain ⟨p, e⟩ := a
  obtain ⟨effect, frame⟩ := step_effect h
  cases effect with
  | keeps path held =>
    have before : ∀ q i, Holds s' q i → Holds s q i := by
      intro q i holds
      by_cases same : q = p
      · obtain rfl := same
        exact held i holds
      · exact (holds_frame frame same).mp holds
    constructor
    · intro q i holds
      rw [path]
      exact inv.linked q i (before q i holds)
    · intro q r i j first second
      exact inv.single q r i j (before q i first) (before r j second)
  | creates absent held =>
    refine .of_gone frame (fun q i other holds => ?_) held
    have linked := inv.linked q i holds
    rw [absent] at linked
    cases linked
  | unlinks turn next gone =>
    refine .of_gone frame (fun q i other holds => ?_) fun i holds => absurd holds (gone i)
    exact rightful turn next q i holds (inv.linked q i holds)
  | releases i held gone =>
    refine .of_gone frame (fun q j other holds => ?_) fun i holds => absurd holds (gone i)
    exact other (inv.single q p j i holds held)

theorem exclusive_of_inv (inv : Inv s) : Exclusive s := by
  intro p q i j alive alive' locked locked'
  have first : Holds s p i := ⟨alive, by rw [locked]; rfl⟩
  have second : Holds s q j := ⟨alive', by rw [locked']; rfl⟩
  exact inv.single p q i j first second

/-- In a run in which no process unlinks the file of another one that lives and has not given it
up, no two living processes have the lock. -/
theorem lock_exclusive {as : List (Nat × Event)}
    (h : Run (Guarded Rightful (Step args)) State.init as s) : Exclusive s := by
  have inv : Inv s := h.invariant (fun s a s' inv step => step_inv inv step.1 step.2) inv_init
  exact exclusive_of_inv inv

end Effect

/-! ### The lock is taken from a living process -/

section Overtaken

variable {args : Nat → Args} {s : State} {p q i : Nat} {sn_pid : Int}

/-- `q` can take the lock that `p` has. -/
theorem overtaken (other : q ≠ p) (alive : s.alive p = true) (alive' : s.alive q = true)
    (locked : s.proc p = .locked i) (asks : s.proc q = .create) (linked : s.path = some i)
    (text : s.file i = statusText (args p) p) (printed : (args p).Printed sn_pid)
    (short : (statusText (args p) p).length < 500)
    (short_host : (args p).sn_host.length < MAXHOSTNAMELEN + 2)
    (short' : (statusText (args q) q).length < 500) :
    ∃ s', Run (Step args) s (List.replicate 10 (q, .next)) s' ∧ s'.alive p = true ∧
      s'.alive q = true ∧ s'.proc p = .locked i ∧ s'.proc q = .locked s.fresh := by
  have unread : Unread (s.file i) := by
    rw [statusText_eq, List.length_append, List.length_singleton] at short
    rw [text, statusText_eq]
    exact unread_record printed short_host (by omega) fun c mem => List.mem_singleton.mp mem
  obtain ⟨t, takes, locked', living, rest⟩ := takes_lock alive' asks linked unread short'
  exact ⟨t, takes, by rw [living, alive], by rw [living, alive'], by rw [rest p other.symm, locked],
    locked'⟩

end Overtaken

section Session

/-- The process 1 gets the lock, and then the process 2 asks for it. -/
def firstLocks : List (Nat × Event) :=
  [(1, .spawn true), (1, .next), (1, .next), (1, .next), (1, .next), (2, .spawn true), (2, .next)]

/-- Then the process 1 gives the lock up, and the process 2 gets it. -/
def thenSecond : List (Nat × Event) :=
  firstLocks ++ [(1, .release), (2, .next), (2, .next), (2, .next)]

/-- A step that is no unlink in `create_lock_file`. -/
def keepingStep (s : State) (a : Nat × Event) : Option State :=
  if s.proc a.1 = .unlink then none else step session s a.1 a.2

theorem run_of_keepingStep {as : List (Nat × Event)} {s t : State}
    (h : as.foldlM keepingStep s = some t) : Run (Guarded Rightful (Step session)) s as t := by
  apply (Run.of_foldlM h).mono
  intro s a t step
  unfold keepingStep at step
  split at step
  case isTrue => cases step
  case isFalse keeping => exact ⟨fun turn => absurd turn keeping, step⟩

/-- The processes 1 and 2 have the lock one after the other. -/
theorem lock_exclusive_two :
    ∃ s, Run (Guarded Rightful (Step session)) State.init thenSecond s ∧
      s.proc 2 = .locked 1 ∧ Exclusive s := by
  have plays : (thenSecond.foldlM keepingStep State.init).map (fun s => s.proc 2) =
      some (.locked 1) := by decide
  obtain ⟨s, run, locked⟩ := Option.map_eq_some_iff.mp plays
  exact ⟨s, run_of_keepingStep run, locked, lock_exclusive (run_of_keepingStep run)⟩

/-- Two living processes have the lock of one project. -/
theorem lock_stolen :
    ¬ ∀ (args : Nat → Args) (as : List (Nat × Event)) (s : State),
      Run (Step args) State.init as s → Exclusive s := by
  intro exclusive
  have plays : (firstLocks.foldlM keepingStep State.init).map
      (fun s => (s.alive 1, s.alive 2, s.proc 1, s.proc 2, s.path, s.file 0)) =
      some (true, true, .locked 0, .create, some 0, statusText (session 1) 1) := by rfl
  obtain ⟨s, run, place⟩ := Option.map_eq_some_iff.mp plays
  simp only [Prod.mk.injEq] at place
  obtain ⟨alive, alive', locked, asks, linked, text⟩ := place
  obtain ⟨t, steals, alive, alive', locked, locked'⟩ := @overtaken session s 1 2 0 100 (by decide)
    alive alive' locked asks linked text (session_printed 1) (by decide) (by decide) (by decide)
  have whole := ((run_of_keepingStep run).mono fun s a t step => step.2).append steals
  exact absurd (exclusive session _ t whole 1 2 _ _ alive alive' locked locked') (by decide)

end Session

end SourceNavigator.Db.Lock

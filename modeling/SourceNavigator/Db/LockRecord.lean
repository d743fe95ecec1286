import SourceNavigator.Db.Lock

/-!
The record of a lock file and the mark of a crash.

* `scanLock_record` says that no reader gets four values from the record of a
  process: the record has three words.
* `takes_lock` says that a process that asks for a lock gets it by its own steps
  while a file with such a record is linked.
-/

namespace SourceNavigator.Db.Lock

open Lib

/-! ### The record is not read back -/

theorem skipSpace_cons {c : UInt8} {s : Text} (blank : isspace c = true) :
    skipSpace (c :: s) = skipSpace s := by
  rw [skipSpace, List.dropWhile_cons, if_pos blank]
  rfl

theorem skipSpace_word {c : UInt8} {s : Text} (word : isspace c = false) :
    skipSpace (c :: s) = c :: s := by
  rw [skipSpace, List.dropWhile_cons, word]
  rfl

theorem scanInt_cons {c : UInt8} {s : Text} (blank : isspace c = true) :
    scanInt (c :: s) = scanInt s := by
  unfold scanInt
  rw [skipSpace_cons blank]

theorem scanInt_blanks {s : Text} (n : Nat) : scanInt (List.replicate n 32 ++ s) = scanInt s := by
  induction n with
  | zero => rfl
  | succ n ih => rw [List.replicate_succ, List.cons_append, scanInt_cons (by decide), ih]

theorem ends_cons {c : UInt8} {s : Text} (other : isdigit c = false) : Ends (c :: s) := by
  intro d mem
  obtain rfl : c = d := Option.some.inj mem
  exact other

theorem scanInt_blankPadded (n : Nat) {rest : Text} (ends : Ends rest) :
    scanInt (blankPadded n ++ rest) = some ((n : Int), rest) := by
  have whole : digits 10 n = decimal n := by
    rw [decimal, if_neg (by omega), Int.natAbs_natCast]
  rw [blankPadded, List.append_assoc, scanInt_blanks, whole, scanInt_decimal ends]

theorem takeWhile_word (host rest : Text) (one_word : ∀ c ∈ host, isspace c = false) :
    (host ++ 32 :: rest).takeWhile (fun c => !isspace c) = host ∧
      (host ++ 32 :: rest).dropWhile (fun c => !isspace c) = 32 :: rest := by
  have all : ∀ c ∈ host, (!isspace c) = true := by
    intro c mem
    rw [one_word c mem]
    rfl
  constructor
  · rw [List.takeWhile_append_of_pos all]
    exact List.append_nil host
  · rw [List.dropWhile_append_of_pos all]
    rfl

/-- The arguments of a process are a pid and a host name of one word. -/
structure Args.Printed (a : Args) (sn_pid : Int) : Prop where
  pid : a.sn_pid = decimal sn_pid
  host : a.sn_host ≠ []
  word : ∀ c ∈ a.sn_host, isspace c = false

/-- The record of a process without its newline. -/
def recordWords (a : Args) (pid : Nat) : Text :=
  a.sn_pid ++ ascii " " ++ a.sn_host ++ ascii " " ++ blankPadded pid

theorem statusText_eq (a : Args) (pid : Nat) : statusText a pid = recordWords a pid ++ [10] := rfl

/-- Newlines only. -/
def Newlines (rest : Text) : Prop := ∀ c ∈ rest, c = 10

theorem Newlines.ends {rest : Text} (h : Newlines rest) : Ends rest := by
  intro c mem
  rw [h c (List.mem_of_mem_head? mem)]
  decide

theorem Newlines.scanInt {rest : Text} (h : Newlines rest) : scanInt rest = none := by
  induction rest with
  | nil => rfl
  | cons c rest ih =>
    obtain rfl : c = 10 := h c List.mem_cons_self
    rw [scanInt_cons (by decide)]
    exact ih fun d mem => h d (List.mem_cons_of_mem _ mem)

/-- The record of a process is read as three values, not four. -/
theorem scanLock_record {a : Args} {sn_pid : Int} (printed : a.Printed sn_pid) (pid : Nat)
    (rest : Text) (newlines : Newlines rest) :
    scanLock (recordWords a pid ++ rest) =
      (3, ⟨ulong sn_pid, a.sn_host, ulong pid % 65536, 0⟩) := by
  have text : recordWords a pid ++ rest =
      decimal sn_pid ++ 32 :: (a.sn_host ++ 32 :: (blankPadded pid ++ rest)) := by
    have blank : ascii " " = [32] := rfl
    rw [recordWords, printed.pid, blank]
    simp only [List.append_assoc, List.cons_append, List.nil_append]
  have first : scanInt (recordWords a pid ++ rest) =
      some (sn_pid, 32 :: (a.sn_host ++ 32 :: (blankPadded pid ++ rest))) := by
    rw [text, scanInt_decimal (ends_cons (by decide))]
  have second : skipSpace (32 :: (a.sn_host ++ 32 :: (blankPadded pid ++ rest))) =
      a.sn_host ++ 32 :: (blankPadded pid ++ rest) := by
    obtain ⟨c, host, some_host⟩ := List.exists_cons_of_ne_nil printed.host
    have word : isspace c = false := printed.word c (some_host ▸ List.mem_cons_self)
    rw [skipSpace_cons (by decide), some_host, List.cons_append, skipSpace_word word]
  have third : scanInt (32 :: (blankPadded pid ++ rest)) = some ((pid : Int), rest) := by
    rw [scanInt_cons (by decide), scanInt_blankPadded pid newlines.ends]
  obtain ⟨host, behind⟩ := takeWhile_word a.sn_host (blankPadded pid ++ rest) printed.word
  unfold scanLock
  rw [first]
  dsimp only
  rw [second, host, behind, if_neg printed.host, third]
  dsimp only
  rw [newlines.scanInt]

/-- A text from which a reader gets fewer than four values. -/
structure Unread (text : Text) : Prop where
  some_text : text.take 498 ≠ []
  fits : (scanLock (text.take 498)).2.host.length < MAXHOSTNAMELEN + 2
  values : (scanLock (text.take 498)).1 ≠ 4

theorem unread_record {a : Args} {sn_pid : Int} (printed : a.Printed sn_pid)
    (short_host : a.sn_host.length < MAXHOSTNAMELEN + 2) {pid : Nat}
    (short : (recordWords a pid).length ≤ 498) {rest : Text} (newlines : Newlines rest) :
    Unread (recordWords a pid ++ rest) := by
  have taken : (recordWords a pid ++ rest).take 498 =
      recordWords a pid ++ rest.take (498 - (recordWords a pid).length) := by
    rw [List.take_append, List.take_of_length_le short]
  have scan := scanLock_record printed pid (rest.take (498 - (recordWords a pid).length))
    fun c mem => newlines c (List.mem_of_mem_take mem)
  constructor
  · rw [taken]
    apply List.append_ne_nil_of_left_ne_nil
    unfold recordWords
    exact List.append_ne_nil_of_left_ne_nil
      (List.append_ne_nil_of_right_ne_nil _ (by decide)) _
  · rw [taken, scan]
    exact short_host
  · rw [taken, scan]
    exact (by decide : (3 : Nat) ≠ 4)

/-! ### A process that finds such a file -/

section Takes

variable {args : Nat → Args} {s t : State} {p q i : Nat} {pc : Pc}

theorem proc_goto_self : (s.goto p pc).proc p = pc := by
  change Function.update s.proc p pc p = pc
  exact Function.update_self p pc s.proc

theorem proc_goto_ne (other : q ≠ p) : (s.goto p pc).proc q = s.proc q := by
  change Function.update s.proc p pc q = s.proc q
  exact Function.update_of_ne other pc s.proc

theorem goto_goto {pc' : Pc} : (s.goto p pc).goto p pc' = s.goto p pc' := by
  unfold State.goto
  rw [Function.update_idem]

theorem goto_self (place : s.proc p = pc) : s.goto p pc = s := by
  unfold State.goto
  rw [← place, Function.update_eq_self]

/-- A step of a process that is at `pc`, to `pc'`. -/
theorem step_goto {pc' : Pc} (alive : s.alive q = true)
    (h : run args (s.goto q pc) q .next = some ((t.goto q pc).goto q pc')) :
    Step args (s.goto q pc) (q, .next) (t.goto q pc') := by
  rw [goto_goto] at h
  change (if s.alive q then run args (s.goto q pc) q .next else none) = _
  rw [if_pos alive, h]

/-- Each try to read such a file fails. -/
theorem read_unread (alive : s.alive q = true) (unread : Unread (s.file i)) (cou : Nat)
    (lck : LockRecord) :
    Step args (s.goto q (.read none i cou lck)) (q, .next)
      (s.goto q (nextTry none i cou (scanLock ((s.file i).take 498)).2)) := by
  apply step_goto alive
  have fits : ¬ MAXHOSTNAMELEN + 2 ≤ (scanLock ((s.file i).take 498)).2.host.length :=
    Nat.not_le.mpr unread.fits
  unfold run
  rw [proc_goto_self]
  change (if (s.file i).take 498 = [] then _ else _) = _
  rw [if_neg unread.some_text]
  change (if MAXHOSTNAMELEN + 2 ≤ (scanLock ((s.file i).take 498)).2.host.length then _ else _) = _
  rw [if_neg fits]
  change (if (scanLock ((s.file i).take 498)).1 = 4 then _ else _) = _
  rw [if_neg unread.values]
  rfl

/-- A process that has created the lock file gets the lock if its write is not cut. -/
theorem create_lock (alive : s.alive q = true) (absent : s.path = none)
    (short : (statusText (args q) q).length < 500) :
    ∃ s' : State, Run (Step args) (s.goto q .create) [(q, .next), (q, .next), (q, .next)]
      (s'.goto q (.locked s.fresh)) ∧ s'.proc = s.proc ∧ s'.alive = s.alive := by
  let written := s.creat.overwrite s.fresh (statusText (args q) q)
  have created : Step args (s.goto q .create) (q, .next) (s.creat.goto q (.write s.fresh)) := by
    apply step_goto alive
    unfold run
    rw [proc_goto_self]
    have no_path : (s.goto q .create).path = none := absent
    rw [no_path]
    rfl
  have wrote : Step args (s.creat.goto q (.write s.fresh)) (q, .next)
      (written.goto q (.verify s.fresh)) := by
    apply step_goto (s := s.creat) alive
    unfold run
    rw [proc_goto_self]
    rfl
  have content : written.file s.fresh = statusText (args q) q := by
    change Function.update s.creat.file s.fresh (statusText (args q) q ++
      (Function.update s.file s.fresh [] s.fresh).drop (statusText (args q) q).length) s.fresh = _
    rw [Function.update_self, Function.update_self, List.drop_nil, List.append_nil]
  have read : (written.file s.fresh).take 1000 = statusText (args q) q := by
    rw [content]
    exact List.take_of_length_le (by omega)
  have verified : Step args (written.goto q (.verify s.fresh)) (q, .next)
      (written.goto q (.locked s.fresh)) := by
    apply step_goto (s := written) alive
    unfold run
    rw [proc_goto_self]
    change some ((written.goto q (.verify s.fresh)).goto q
      (if (written.file s.fresh).take 1000 = statusText (args q) q then _ else _)) = _
    rw [if_pos read]
  exact ⟨written, .cons created (.cons wrote (.cons verified (.nil _))), rfl, rfl⟩

/-- A process that asks for the lock gets it while such a file is linked. -/
theorem takes_lock (alive : s.alive q = true) (asks : s.proc q = .create)
    (linked : s.path = some i) (unread : Unread (s.file i))
    (short : (statusText (args q) q).length < 500) :
    ∃ s', Run (Step args) s (List.replicate 10 (q, .next)) s' ∧ s'.proc q = .locked s.fresh ∧
      s'.alive = s.alive ∧ ∀ r, r ≠ q → s'.proc r = s.proc r := by
  have read := @read_unread args s q i alive unread
  have exists_file : Step args (s.goto q .create) (q, .next) (s.goto q (.openFile none)) := by
    apply step_goto alive
    unfold run
    rw [proc_goto_self]
    have path : (s.goto q .create).path = some i := linked
    rw [path]
  have opened : Step args (s.goto q (.openFile none)) (q, .next)
      (s.goto q (.read none i 0 .zero)) := by
    apply step_goto alive
    unfold run
    rw [proc_goto_self]
    have path : (s.goto q (.openFile none)).path = some i := linked
    rw [path]
  let lck := (scanLock ((s.file i).take 498)).2
  have strange : Step args (s.goto q (.access none lck)) (q, .next) (s.goto q .unlink) := by
    apply step_goto alive
    unfold run
    rw [proc_goto_self]
    change some ((s.goto q _).goto q (if s.path.isSome then _ else _)) = _
    rw [linked]
    rfl
  have removed : Step args (s.goto q .unlink) (q, .next)
      (({ s with path := none } : State).goto q .create) := by
    apply step_goto (t := { s with path := none }) alive
    unfold run
    rw [proc_goto_self]
    rfl
  obtain ⟨t, got, proc, living⟩ := create_lock (s := { s with path := none }) alive rfl short
  refine ⟨t.goto q (.locked s.fresh), ?_, proc_goto_self, living, fun r other => ?_⟩
  · rw [← goto_self asks]
    exact .cons exists_file (.cons opened (.cons (read 0 .zero) (.cons (read 1 lck)
      (.cons (read 2 lck) (.cons strange (.cons removed got))))))
  · rw [proc_goto_ne other]
    exact congrFun proc r

end Takes

/-! ### The mark of a crash -/

section Crash

variable {args : Nat → Args} {s s' : State} {a : Args} {p q i : Nat} {sn_pid : Int}

/-- The words of a record before the pid. -/
def sessionWords (a : Args) : Text := a.sn_pid ++ ascii " " ++ a.sn_host ++ ascii " "

theorem length_blankPadded (pid : Nat) (fits : pid < 100000000) :
    7 ≤ (blankPadded pid).length ∧ (blankPadded pid).length ≤ 8 := by
  have digits_le : (digits 10 pid).length ≤ 8 := by
    rw [digits, List.length_map]
    exact (Nat.length_toDigits_le_iff (by decide) (by decide)).mpr fits
  rw [blankPadded, List.length_append, List.length_replicate]
  omega

theorem length_recordWords (a : Args) (pid : Nat) :
    (recordWords a pid).length = (sessionWords a).length + (blankPadded pid).length :=
  List.length_append

/-- The mark is as long as the record or leaves one newline of it. -/
theorem newlines_behind_mark {pid : Nat} (fits : pid < 100000000) :
    Newlines ((statusText a pid).drop (statusText a 0).length) := by
  have zero : (blankPadded 0).length = 7 := by decide
  have length : (statusText a 0).length = (sessionWords a).length + 8 := by
    rw [statusText_eq, List.length_append, length_recordWords, zero]
    rfl
  have text : statusText a pid = sessionWords a ++ (blankPadded pid ++ [10]) := by
    rw [statusText_eq, recordWords, sessionWords, List.append_assoc]
  have past : (blankPadded pid).drop 8 = [] :=
    List.drop_eq_nil_of_le (length_blankPadded pid fits).2
  rw [text, length, List.drop_append, List.drop_append, List.drop_eq_nil_of_le (Nat.le_add_right _ 8),
    Nat.add_sub_cancel_left, past]
  intro c mem
  exact List.mem_singleton.mp (List.mem_of_mem_drop mem)

/-- What the mark leaves is read as three values, as the record was. -/
theorem unread_mark (printed : a.Printed sn_pid)
    (short_host : a.sn_host.length < MAXHOSTNAMELEN + 2) {pid : Nat}
    (short : (statusText a pid).length < 500) (fits : pid < 100000000) :
    Unread (statusText a 0 ++ (statusText a pid).drop (statusText a 0).length) := by
  have zero := length_blankPadded 0 (by decide)
  have length := length_blankPadded pid fits
  rw [statusText_eq a pid, List.length_append, length_recordWords, List.length_singleton] at short
  rw [statusText_eq a 0, List.append_assoc]
  apply unread_record printed short_host
  · have seven : (blankPadded 0).length = 7 := by decide
    rw [length_recordWords]
    omega
  · intro c mem
    rcases List.mem_append.mp mem with newline | behind
    · exact List.mem_singleton.mp newline
    · exact newlines_behind_mark fits c behind

/-- A process that has the lock marks its project as unusable and ends. -/
structure Crashes (args : Nat → Args) (s : State) (p i : Nat) (s' : State) : Prop where
  locked : s.proc p = .locked i
  linked : s.path = some i
  record : s.file i = statusText (args p) p
  step : Step args s (p, .releaseUnusable) s'

theorem Crashes.file (h : Crashes args s p i s') :
    s'.path = some i ∧
      s'.file i = statusText (args p) 0 ++ (statusText (args p) p).drop (statusText (args p) 0).length := by
  have step := h.step
  change (if s.alive p then run args s p .releaseUnusable else none) = some s' at step
  split at step
  case isFalse => cases step
  case isTrue =>
    unfold run at step
    rw [h.locked] at step
    dsimp only at step
    rw [h.linked] at step
    cases step
    refine ⟨h.linked, ?_⟩
    change Function.update s.file i (statusText (args p) 0 ++
      (s.file i).drop (statusText (args p) 0).length) i = _
    rw [Function.update_self, h.record]

/-- The record of a process is never read back. And a process that asks for the lock after the
owner has crashed gets it: the mark is read as little as the record. -/
theorem record_lost (printed : (args p).Printed sn_pid)
    (short : (statusText (args p) p).length < 500) :
    (∀ lck, read_lock_file (some (statusText (args p) p)) ≠ some (some lck)) ∧
      ((args p).sn_host.length < MAXHOSTNAMELEN + 2 → p < 100000000 →
        ∀ s s' i q, Crashes args s p i s' → s'.alive q = true → s'.proc q = .create →
          (statusText (args q) q).length < 500 →
          ∃ t, Run (Step args) s' (List.replicate 10 (q, .next)) t ∧ t.proc q = .locked s'.fresh) := by
  constructor
  · intro lck
    have length : (recordWords (args p) p).length ≤ 498 := by
      rw [statusText_eq, List.length_append, List.length_singleton] at short
      omega
    have taken : (statusText (args p) p).take 498 =
        recordWords (args p) p ++ [10].take (498 - (recordWords (args p) p).length) := by
      rw [statusText_eq, List.take_append, List.take_of_length_le length]
    have scan := scanLock_record printed p ([10].take (498 - (recordWords (args p) p).length))
      fun c mem => List.mem_singleton.mp (List.mem_of_mem_take mem)
    unfold read_lock_file
    dsimp only
    rw [taken, scan]
    split
    · intro h
      cases h
    · split
      · intro h
        cases h
      · intro h
        cases h
  · intro short_host fits s s' i q crash alive asks short'
    obtain ⟨linked, file⟩ := crash.file
    have unread : Unread (s'.file i) := by
      rw [file]
      exact unread_mark printed short_host short fits
    obtain ⟨t, takes, locked, _⟩ := takes_lock alive asks linked unread short'
    exact ⟨t, takes, locked⟩

/-- Every process is started for the session 100 on the host `h`. -/
def session (_ : Nat) : Args := ⟨ascii "100", ascii "h"⟩

theorem session_printed (p : Nat) : (session p).Printed 100 where
  pid := rfl
  host := List.cons_ne_nil _ _
  word c mem := by
    have one_word : (ascii "h").all (fun c => !isspace c) = true := by decide
    have word := List.all_eq_true.mp one_word c mem
    rwa [Bool.not_eq_true'] at word

theorem record_lost_session :
    read_lock_file (some (statusText (session 1) 1)) ≠ some (some ⟨100, ascii "h", 0, 1⟩) :=
  (@record_lost session 1 100 (session_printed 1) (by decide)).1 _

/-- A record that is not read back. -/
theorem record_not_read_back :
    ¬ ∀ (a : Args) (sn_pid : Int) (pid : Nat), a.Printed sn_pid →
      ∃ port, read_lock_file (some (statusText a pid)) =
        some (some ⟨ulong sn_pid, a.sn_host, port, pid⟩) := by
  intro back
  obtain ⟨port, read⟩ := back (session 1) 100 1 (session_printed 1)
  have lost : read_lock_file (some (statusText (session 1) 1)) = some none := by decide
  rw [lost] at read
  cases read

end Crash

end SourceNavigator.Db.Lock

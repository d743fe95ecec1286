import SourceNavigator.Lib.Run
import SourceNavigator.Scanf

/-!
The lock of a project (`db/dbimp.c`).

A process that imports into a project creates the lock file of the project and
writes a record with its pid into it. A process that finds the file reads it and
asks whether the processes of the record still live. `step` takes one atomic step
of one process: an exclusive create, a read, a test of a pid, an unlink, a write.
Processes start and die at any time, and a pid is used again.

`killed` stays 0 in `create_lock_file`, as `main` installs no signal handlers.
`none` is no step of the process: what it waits for does not happen, or a record
or host name overflows its buffer.
-/

namespace SourceNavigator.Db.Lock

open Lib

/-- The arguments `-P` and `-H` of a process. -/
structure Args where
  sn_pid : Text
  sn_host : Text

/-- The values that are read from a lock file. -/
structure LockRecord where
  sn_pid : Nat
  host : Text
  port : Nat
  db_pid : Nat
  deriving DecidableEq

/-- Nothing was read. -/
def LockRecord.zero : LockRecord := ⟨0, [], 0, 0⟩

/-! ### The text of a lock file -/

/-- `%7lu` -/
def blankPadded (n : Nat) : Text :=
  List.replicate (7 - (digits 10 n).length) 32 ++ digits 10 n

/-- The record of a process, with `0` for its pid once the project is unusable. -/
def statusText (a : Args) (pid : Nat) : Text :=
  a.sn_pid ++ ascii " " ++ a.sn_host ++ ascii " " ++ blankPadded pid ++ ascii "\n"

/-- The `unsigned long` of a scanned number. -/
def ulong (n : Int) : Nat :=
  if 18446744073709551616 ≤ n.natAbs then 18446744073709551615
  else (n % 18446744073709551616).toNat

/-- `sscanf` with `%lu %s %hu %lu`: the number of conversions and their values. -/
def scanLock (tmp : Text) : Nat × LockRecord :=
  match scanInt tmp with
  | none => (0, .zero)
  | some (sn_pid, rest) =>
    let host := (skipSpace rest).takeWhile fun c => !isspace c
    if host = [] then (1, ⟨ulong sn_pid, [], 0, 0⟩)
    else
      match scanInt ((skipSpace rest).dropWhile fun c => !isspace c) with
      | none => (2, ⟨ulong sn_pid, host, 0, 0⟩)
      | some (port, rest) =>
        match scanInt rest with
        | none => (3, ⟨ulong sn_pid, host, ulong port % 65536, 0⟩)
        | some (db_pid, _) => (4, ⟨ulong sn_pid, host, ulong port % 65536, ulong db_pid⟩)

def MAXHOSTNAMELEN : Nat := 64

/-- `read_lock_file` while nobody else works on the file: `none` if the host name overflows its
buffer, `some none` for -1. -/
def read_lock_file (file : Option Text) : Option (Option LockRecord) :=
  match file with
  | none => some none
  | some text =>
    let tmp := text.take 498
    if tmp = [] then some none
    else
      let scan := scanLock tmp
      if MAXHOSTNAMELEN + 2 ≤ scan.2.host.length then none
      else if scan.1 = 4 then some (some scan.2)
      else some none

/-! ### Processes -/

/-- Where a process is. `first` is what `check_running` read before it reads again. -/
inductive Pc
  | other
  | start
  | create
  | openFile (first : Option LockRecord)
  | read (first : Option LockRecord) (fd cou : Nat) (lck : LockRecord)
  | access (first : Option LockRecord) (lck : LockRecord)
  | testSn (lck : LockRecord)
  | testDb (lck : LockRecord)
  | unlink
  | write (fd : Nat)
  | verify (fd : Nat)
  | locked (fd : Nat)
  | done
  deriving DecidableEq

/-- The lock file that is linked, the contents of all files, and the processes. -/
structure State where
  path : Option Nat
  file : Nat → Text
  fresh : Nat
  proc : Nat → Pc
  alive : Nat → Bool

/-- No lock file and no process. -/
def State.init : State where
  path := none
  file := fun _ => []
  fresh := 0
  proc := fun _ => .other
  alive := fun _ => false

def State.goto (s : State) (p : Nat) (pc : Pc) : State :=
  { s with proc := Function.update s.proc p pc }

/-- Text written at the start of a file; what is behind it stays. -/
def State.overwrite (s : State) (fd : Nat) (text : Text) : State :=
  { s with file := Function.update s.file fd (text ++ (s.file fd).drop text.length) }

/-- An exclusive create of the lock file, which is not there. -/
def State.creat (s : State) : State :=
  { s with
    path := some s.fresh
    file := Function.update s.file s.fresh []
    fresh := s.fresh + 1 }

/-- What happens to a process: it takes its next step, a system call fails or writes `n` bytes
only, `kill` finds no process, the lock is given up, the process starts or dies. -/
inductive Event
  | next
  | fail
  | short (n : Nat)
  | kill (esrch : Bool)
  | release
  | releaseUnusable
  | spawn (dbimp : Bool)
  | exit
  deriving DecidableEq

/-- `check_running` after `read_lock_file` has returned 0. -/
def afterRead (first : Option LockRecord) (lck : LockRecord) : Pc :=
  match first with
  | none =>
    if lck.sn_pid = 0 then .unlink
    else if lck.db_pid = 0 then .done
    else .testSn lck
  | some first =>
    if lck.sn_pid ≠ first.sn_pid ∨ first.host ≠ lck.host ∨ first.port ≠ lck.port then .unlink
    else .done

/-- The next of three tries to read. -/
def nextTry (first : Option LockRecord) (fd cou : Nat) (lck : LockRecord) : Pc :=
  if cou + 1 = 3 then .access first lck else .read first fd (cou + 1) lck

/-- `kill` can find no process: a pid is that of a living process or not, and for a process
group nothing is known. -/
def State.kills (s : State) (pid : Nat) (esrch : Bool) : Bool :=
  int32 pid ≤ 0 || esrch == !s.alive (int32 pid).toNat

section Step

variable (args : Nat → Args)

/-- A step of a living process. -/
def run (s : State) (p : Nat) (e : Event) : Option State :=
  match s.proc p, e with
  | .start, .next =>
    if 500 ≤ (statusText (args p) p).length then none else some (s.goto p .create)
  | .create, .next =>
    match s.path with
    | some _ => some (s.goto p (.openFile none))
    | none => some (s.creat.goto p (.write s.fresh))
  | .create, .fail => some (s.goto p .done)
  | .openFile first, .next =>
    match s.path with
    | none => some (s.goto p .unlink)
    | some fd => some (s.goto p (.read first fd 0 .zero))
  | .read first fd cou lck, .next =>
    let tmp := (s.file fd).take 498
    if tmp = [] then some (s.goto p (nextTry first fd cou lck))
    else
      let scan := scanLock tmp
      if MAXHOSTNAMELEN + 2 ≤ scan.2.host.length then none
      else if scan.1 = 4 then some (s.goto p (afterRead first scan.2))
      else some (s.goto p (nextTry first fd cou scan.2))
  | .read first fd cou lck, .fail => some (s.goto p (nextTry first fd cou lck))
  | .access first lck, .next =>
    some (s.goto p (if s.path.isSome then .unlink else afterRead first lck))
  | .testSn lck, .kill esrch =>
    if s.kills lck.sn_pid esrch then some (s.goto p (if esrch then .done else .testDb lck))
    else none
  | .testDb lck, .kill esrch =>
    if s.kills lck.db_pid esrch then
      some (s.goto p (if esrch then .openFile (some lck) else .create))
    else none
  | .unlink, .next => some ({ s with path := none }.goto p .create)
  | .unlink, .fail => some (s.goto p .create)
  | .write fd, .next =>
    some ((s.overwrite fd (statusText (args p) p)).goto p (.verify fd))
  | .write _, .fail => some (s.goto p .done)
  | .write fd, .short n =>
    if n < (statusText (args p) p).length then
      some ((s.overwrite fd ((statusText (args p) p).take n)).goto p .create)
    else none
  | .verify fd, .next =>
    some (s.goto p (if (s.file fd).take 1000 = statusText (args p) p then .locked fd else .create))
  | .verify _, .fail => some (s.goto p .create)
  | .locked _, .release => some ({ s with path := none }.goto p .done)
  | .locked _, .releaseUnusable =>
    match s.path with
    | none => some (s.goto p .done)
    | some i => some ((s.overwrite i (statusText (args p) 0)).goto p .done)
  | _, _ => none

def step (s : State) (p : Nat) (e : Event) : Option State :=
  match e with
  | .spawn dbimp =>
    if s.alive p then none
    else
      some
        ({ s with alive := Function.update s.alive p true }.goto p
          (if dbimp then .start else .other))
  | .exit => if s.alive p then some { s with alive := Function.update s.alive p false } else none
  | e => if s.alive p then run args s p e else none

/-- A step of the system: an event of a process. -/
def Step (s : State) (a : Nat × Event) (s' : State) : Prop := step args s a.1 a.2 = some s'

end Step

/-! ### The lock -/

/-- The file that a process has created and not given up. -/
def Pc.held : Pc → Option Nat
  | .write fd => some fd
  | .verify fd => some fd
  | .locked fd => some fd
  | _ => none

/-- The process lives and has created the file `i`, and not given it up. -/
def Holds (s : State) (p i : Nat) : Prop := s.alive p = true ∧ (s.proc p).held = some i

/-- No two living processes have the lock. -/
def Exclusive (s : State) : Prop :=
  ∀ p q i j, s.alive p = true → s.alive q = true → s.proc p = .locked i → s.proc q = .locked j →
    p = q

/-- The step is not an unlink of a file that another living process has created and not given
up. -/
def Rightful (s : State) (a : Nat × Event) : Prop :=
  s.proc a.1 = .unlink → a.2 = .next → ∀ q i, Holds s q i → s.path ≠ some i

end SourceNavigator.Db.Lock

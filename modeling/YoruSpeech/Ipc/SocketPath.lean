/-
YoruSpeech.Ipc.SocketPath — several processes and one socket path
(`IpcServer::start` and `IpcServer::stop`, system call by system call).

`Host` is what the kernel knows: which socket the file at the path is bound
to, which sockets listen, and where each process is in `start()` or
`stop()`. A socket is a number that is never used twice. `is_socket_live`
is one step, its `connect`: a connection is accepted, or waits in the
backlog, exactly while the socket behind the file listens.

Left out are the two checks at the head of `start()`, an instance that runs
already and a path that is too long, which come before any system call.
-/
import YoruSpeech.Lib.Transition

namespace YoruSpeech

abbrev ProcessId := Nat

/-- Where a process is. -/
inductive StartPhase where
  | stopped
  /-- `is_socket_live` answered no; `unlink` is next. -/
  | probed
  /-- `socket` is next. -/
  | unlinked
  /-- `bind` is next. -/
  | created
  /-- `listen` is next. -/
  | bound (socket : Nat)
  /-- `eventfd` is next. -/
  | listening (socket : Nat)
  /-- `listen` or `eventfd` failed; `close` is next. -/
  | failed (socket : Nat)
  | running (socket : Nat)
  /-- After the `close` of `stop()`, or of a failed `start()`; `unlink` is
  next. -/
  | closed
  deriving DecidableEq, Repr

namespace StartPhase

/-- The socket the process has open. -/
def socket? : StartPhase → Option Nat
  | .bound n => some n
  | .listening n => some n
  | .failed n => some n
  | .running n => some n
  | _ => none

/-- The socket the process serves, or is about to. -/
def serves? : StartPhase → Option Nat
  | .bound n => some n
  | .listening n => some n
  | .running n => some n
  | _ => none

/-- The process will unlink the path without looking at it again. -/
def removing : StartPhase → Bool
  | .probed => true
  | .failed _ => true
  | .closed => true
  | _ => false

end StartPhase

structure Host where
  /-- The socket the file at the path is bound to. -/
  file : Option Nat := none
  /-- The sockets that listen. -/
  listening : List Nat := []
  next : Nat := 1
  phase : ProcessId → StartPhase := fun _ => .stopped

/-- One system call of a process; `done` is whether it succeeds. -/
inductive HostAct where
  /-- `is_socket_live`; `opened` is whether its own `socket` succeeds. -/
  | probe (p : ProcessId) (opened : Bool)
  | unlink (p : ProcessId) (done : Bool)
  | socket (p : ProcessId) (done : Bool)
  | bind (p : ProcessId) (done : Bool)
  | listen (p : ProcessId) (done : Bool)
  | eventfd (p : ProcessId) (done : Bool)
  /-- The listening socket is closed, by `stop()` or on the way out of a
  failed `start()`. -/
  | close (p : ProcessId)
  /-- The process ends without `stop()`. -/
  | die (p : ProcessId)
  deriving DecidableEq, Repr

namespace Host

/-- A path nobody serves, with or without a leftover file. -/
def init (leftover : Bool) : Host := { file := if leftover then some 0 else none }

def goto (h : Host) (p : ProcessId) (phase : StartPhase) : Host :=
  { h with phase := fun q => if q = p then phase else h.phase q }

/-- `connect` finds somebody behind the path. -/
def live (h : Host) : Bool :=
  match h.file with
  | some n => h.listening.contains n
  | none => false

/-- `unlink`. -/
def removeFile (h : Host) (done : Bool) : Host :=
  { h with file := if done then none else h.file }

/-- The last descriptor of a socket is gone. -/
def shut (h : Host) (socket? : Option Nat) : Host :=
  { h with listening := h.listening.filter (some · ≠ socket?) }

/-- One system call. -/
def step (h : Host) : HostAct → Option Host
  | .probe p opened =>
    match h.phase p with
    | .stopped => some (if opened && h.live then h else h.goto p .probed)
    | _ => none
  | .unlink p done =>
    match h.phase p with
    | .probed => some ((h.removeFile done).goto p .unlinked)
    | .closed => some ((h.removeFile done).goto p .stopped)
    | _ => none
  | .socket p done =>
    match h.phase p with
    | .unlinked => some (h.goto p (if done then .created else .stopped))
    | _ => none
  | .bind p done =>
    match h.phase p with
    | .created =>
      -- `EADDRINUSE` while there is a file
      if h.file = none ∧ done = true then
        some ({ h with file := some h.next, next := h.next + 1 }.goto p (.bound h.next))
      else some (h.goto p .stopped)
    | _ => none
  | .listen p done =>
    match h.phase p with
    | .bound n =>
      some (if done then { h with listening := n :: h.listening }.goto p (.listening n)
        else h.goto p (.failed n))
    | _ => none
  | .eventfd p done =>
    match h.phase p with
    | .listening n => some (h.goto p (if done then .running n else .failed n))
    | _ => none
  | .close p =>
    match h.phase p with
    | .failed n => some ((h.shut (some n)).goto p .closed)
    | .running n => some ((h.shut (some n)).goto p .closed)
    | _ => none
  | .die p => some ((h.shut (h.phase p).socket?).goto p .stopped)

/-- The step removes a file that another process serves, or is about to. -/
def Takes (h : Host) : HostAct → Prop
  | .unlink p done => done = true ∧ ∃ q n, q ≠ p ∧ (h.phase q).serves? = some n ∧ h.file = some n
  | _ => False

/-- A client that connects to the path reaches this process. -/
def Reaches (h : Host) (p : ProcessId) : Prop :=
  ∃ n, h.file = some n ∧ n ∈ h.listening ∧ (h.phase p).serves? = some n

end Host

end YoruSpeech

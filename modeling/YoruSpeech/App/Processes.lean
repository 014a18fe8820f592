/-
YoruSpeech.App.Processes — the descriptors of the daemon and of the
commands it runs.

The controlling thread opens and closes descriptors in `IpcServer`, and
`WlClipboardAdapter::copy` (`domains/clipboard/wl_clipboard_adapter.cpp`)
forks: the child starts with a copy of the daemon's table, wires its
standard streams and executes the clipboard command, which goes on to fork
into the background by itself. The flag of each descriptor is the one its
creation site asks for: `EFD_CLOEXEC` for the wake-up eventfd, none for the
sockets and the pipe.

`copy()` runs on the controlling thread, so the server does nothing until
it returns, which is after its child has ended. A `copy()` that fails
before it forks, and a `start()` that fails, leave the table as it was and
are no steps here. The descriptors below 3 are the standard streams.
-/
import YoruSpeech.Ipc.IpcServer
import YoruSpeech.Ipc.SocketPath
import YoruSpeech.Lib.DescriptorTable

namespace YoruSpeech

open Lib (Descriptor DescriptorTable)

/-- What a descriptor refers to. -/
inductive OpenFile where
  | stdio
  | listener (id : Nat)
  | connection (id : Nat)
  | wake
  | pipe
  | devNull
  deriving DecidableEq, Repr

/-- A socket of the server. -/
def OpenFile.isSocket : OpenFile → Bool
  | .listener _ => true
  | .connection _ => true
  | _ => false

/-- A process started by `copy()`. -/
structure ChildProcess where
  pid : ProcessId
  table : DescriptorTable OpenFile
  /-- The two ends of `stdin_pipe`. -/
  readEnd : Nat
  writeEnd : Nat
  /-- It runs the command. -/
  executed : Bool := false

structure Processes where
  transport : Transport := {}
  /-- The daemon's descriptors. -/
  table : DescriptorTable OpenFile :=
    fun fd => if fd < 3 then some ⟨.stdio, false⟩ else none
  alive : Bool := true
  /-- `listen_fd` and `wake_fd`, while the server runs. -/
  listenFd : Nat := 0
  wakeFd : Nat := 0
  /-- Inside `copy()`: the child it waits for, and its end of the pipe. -/
  copying : Option (ProcessId × Nat) := none
  children : List ChildProcess := []
  /-- Numbers the sockets. -/
  next : Nat := 0

inductive ProcessAct where
  /-- `start()` succeeds with these descriptors. -/
  | start (listenFd wakeFd : Nat)
  | accept (fd : ClientId)
  /-- Any other step of the server. -/
  | serve (a : TransportAct)
  /-- `copy()` up to the parent's first `close`. -/
  | copy (pid : ProcessId) (readEnd writeEnd : Nat)
  /-- The child executes the command; `devNull` is the descriptor of
  `/dev/null`, if it can be opened. -/
  | exec (pid : ProcessId) (devNull : Option Nat)
  /-- The command forks. -/
  | background (pid child : ProcessId)
  /-- A child ends, by itself or killed. -/
  | exit (pid : ProcessId)
  /-- `copy()` returns. -/
  | copyReturns
  /-- The daemon ends without `stop()`. -/
  | die

namespace ChildProcess

/-- `silence_stdio`. -/
def silenceStdio (t : DescriptorTable OpenFile) : Option Nat → DescriptorTable OpenFile
  | none => t
  | some fd => (((t.openAt fd .devNull false).dup2 fd 1).dup2 fd 2).close [fd]

/-- The pipe's read end becomes the child's stdin. -/
def wired (c : ChildProcess) : DescriptorTable OpenFile :=
  (c.table.dup2 c.readEnd 0).close [c.readEnd, c.writeEnd]

/-- From the `fork` to the `execlp` of the child. -/
def exec (c : ChildProcess) (devNull : Option Nat) : ChildProcess :=
  { c with table := (silenceStdio c.wired devNull).exec, executed := true }

end ChildProcess

namespace Processes

def running (σ : Processes) : Bool := σ.transport.server.running

/-- The descriptors a step of the server closes. -/
def closedBy (σ : Processes) : TransportAct → List Nat
  | .stop =>
    if σ.running then σ.transport.server.clients ++ [σ.listenFd, σ.wakeFd] else []
  | .pollOnce _ _ => if σ.running then σ.transport.server.flush.2 else []
  | .finish => (σ.transport.server.disconnect σ.transport.phase.doomed).2
  | _ => []

/-- The controlling thread is free. -/
def free (σ : Processes) : Bool := σ.alive && σ.copying.isNone

/-- The descriptor number is unused. -/
def unused (σ : Processes) (fd : Nat) : Bool := (σ.table fd).isNone

/-- Change one child. -/
def updateChild (σ : Processes) (pid : ProcessId) (f : ChildProcess → ChildProcess) : Processes :=
  { σ with children := σ.children.map fun c => if c.pid = pid then f c else c }

/-- One step. -/
def step (σ : Processes) : ProcessAct → Option Processes
  | .start listenFd wakeFd =>
    if σ.free ∧ σ.running = false ∧ σ.unused listenFd ∧ σ.unused wakeFd ∧ listenFd ≠ wakeFd then
      (σ.transport.step .start).map fun t => { σ with
        transport := t
        table := (σ.table.openAt listenFd (.listener σ.next) false).openAt wakeFd .wake true
        listenFd := listenFd
        wakeFd := wakeFd
        next := σ.next + 1 }
    else none
  | .accept fd =>
    if σ.free ∧ σ.unused fd then
      (σ.transport.step (.accept fd)).map fun t => { σ with
        transport := t
        table := σ.table.openAt fd (.connection σ.next) false
        next := σ.next + 1 }
    else none
  | .serve a =>
    match a with
    | .start => none
    | .accept _ => none
    | a =>
      if σ.free then
        (σ.transport.step a).map fun t =>
          { σ with transport := t, table := σ.table.close (σ.closedBy a) }
      else none
  | .copy pid readEnd writeEnd =>
    if σ.free ∧ σ.unused readEnd ∧ σ.unused writeEnd ∧ readEnd ≠ writeEnd ∧
        (∀ c ∈ σ.children, c.pid ≠ pid) then
      let table := (σ.table.openAt readEnd .pipe false).openAt writeEnd .pipe false
      some { σ with
        table := table.close [readEnd]
        copying := some (pid, writeEnd)
        children := { pid, table, readEnd, writeEnd } :: σ.children }
    else none
  | .exec pid devNull =>
    match σ.children.find? (·.pid = pid) with
    | some c =>
      if c.executed = false ∧ (∀ fd ∈ devNull, (c.wired fd).isNone) then
        some (σ.updateChild pid (·.exec devNull))
      else none
    | none => none
  | .background pid child =>
    match σ.children.find? (·.pid = pid) with
    | some c =>
      if c.executed ∧ (∀ c ∈ σ.children, c.pid ≠ child) then
        some { σ with children := { c with pid := child } :: σ.children }
      else none
    | none => none
  | .exit pid => some { σ with children := σ.children.filter (·.pid ≠ pid) }
  | .copyReturns =>
    match σ.copying with
    | some (pid, writeEnd) =>
      if σ.alive ∧ (∀ c ∈ σ.children, c.pid ≠ pid) then
        some { σ with table := σ.table.close [writeEnd], copying := none }
      else none
    | none => none
  | .die => some { σ with alive := false, copying := none, table := fun _ => none }

/-- The file is open in some process. -/
def IsOpen (σ : Processes) (f : OpenFile) : Prop :=
  σ.table.Holds f ∨ ∃ c ∈ σ.children, c.table.Holds f

/-- The peer of a connection reads end of file. -/
def SeesEndOfFile (σ : Processes) (id : Nat) : Prop := ¬ σ.IsOpen (.connection id)

/-- `is_socket_live` on the path this listener was bound to. -/
def IsSocketLive (σ : Processes) (id : Nat) : Prop := σ.IsOpen (.listener id)

end Processes

end YoruSpeech

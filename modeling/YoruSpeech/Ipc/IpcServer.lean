/-
YoruSpeech.Ipc.IpcServer — the Unix socket transport
(`domains/ipc/ipc_server.cpp`): the registry of connected clients, the
line splitter and the non-blocking writes.

* `IpcServer` is `IpcServer::Impl` with the operations as the source
  computes them. A descriptor is its number; what the kernel answers to
  `write`, `read`, `accept` and `poll` is an input.
* `Transport` runs the operations one system call after the other.
  `poll_once` is cut at every place where the kernel answers or a callback
  runs, so lines can be sent from inside `on_line` (a response, or an event
  a command publishes) and between two calls of `poll_once` (the events of
  `poll_completed()` and `tick()`), and nowhere else.

The order in which `poll_once` visits the clients is that of an
`std::unordered_map`, so it is an input as well. The wake-up eventfd
belongs to the run loop and is not part of this state; neither are the
steps of `start()` before `listen` succeeds, which touch no client.
-/
import YoruSpeech.Core.Event
import YoruSpeech.Lib.Transition
import Mathlib.Algebra.Group.Nat.Defs

namespace YoruSpeech

/-- `IpcServer::ClientId`: the descriptor number of a connection. -/
abbrev ClientId := Nat

/-- `'\n'`. -/
def newline : UInt8 := 10

/-- `kReadChunkSize`. -/
def kReadChunkSize : Nat := 4096

/-- `kMaxLineBytes`, 1 MiB. -/
def kMaxLineBytes : Nat := 2 ^ 20

/-- What one `write` on a client's socket returns. -/
inductive WriteResult where
  /-- The kernel took this many bytes, of those it was offered. -/
  | accepted (count : Nat)
  /-- -1 with `EINTR`. -/
  | interrupted
  /-- -1 with any other `errno`, `EAGAIN` included. -/
  | failed
  deriving DecidableEq, Repr

/-- What `poll` and `read` say about one polled client. -/
inductive ReadResult where
  /-- None of `POLLIN`, `POLLHUP`, `POLLERR`, or `EAGAIN` or `EINTR` after
  all. -/
  | nothing
  | endOfFile
  | failed
  | data (chunk : Bytes)
  deriving DecidableEq, Repr

/-! ## The server -/

/-- `IpcServer::Impl`. -/
structure IpcServer where
  /-- `listen_fd != -1`. -/
  running : Bool := false
  /-- Also the registry of the connected clients. -/
  readBuffers : List (ClientId × Bytes) := []
  pendingDisconnects : List ClientId := []
  deriving DecidableEq, Repr

namespace IpcServer

def clients (s : IpcServer) : List ClientId := s.readBuffers.map Prod.fst

/-- `read_buffers.contains`. -/
def contains (s : IpcServer) (fd : ClientId) : Bool := s.clients.contains fd

/-- `read_buffers[fd]` of a connected client. -/
def buffer (s : IpcServer) (fd : ClientId) : Bytes := (s.readBuffers.lookup fd).getD []

def setBuffer (s : IpcServer) (fd : ClientId) (bytes : Bytes) : IpcServer :=
  { s with readBuffers := s.readBuffers.map fun entry =>
      if entry.1 = fd then (fd, bytes) else entry }

/-- `read_buffers.erase` followed by `close`. -/
def close (s : IpcServer) (fd : ClientId) : IpcServer :=
  { s with readBuffers := s.readBuffers.filter (·.1 ≠ fd) }

/-- `start()`, once the socket listens. -/
def start (s : IpcServer) : IpcServer := { s with running := true }

/-- `stop()`. -/
def stop (s : IpcServer) : IpcServer :=
  if s.running then {} else s

/-- The loop of `send_line` over the bytes still to be written: what the
kernel took, and whether it took everything. `none` when the answers end
before the loop does. -/
def writeLoop : Bytes → List WriteResult → Option (Bytes × Bool)
  | [], _ => some ([], true)
  | _ :: _, [] => none
  | data, .interrupted :: rest => writeLoop data rest
  | _, .failed :: _ => some ([], false)
  -- `sent <= 0`: an empty write gives up like a failed one
  | _, .accepted 0 :: _ => some ([], false)
  | data, .accepted (count + 1) :: rest =>
    (writeLoop (data.drop (count + 1)) rest).map fun (taken, complete) =>
      (data.take (count + 1) ++ taken, complete)

/-- `pending_disconnects`, with the client recorded once. -/
def giveUp (s : IpcServer) (fd : ClientId) : IpcServer :=
  if fd ∈ s.pendingDisconnects then s
  else { s with pendingDisconnects := s.pendingDisconnects ++ [fd] }

/-- `send_line`: the server afterwards and the bytes the kernel took. -/
def sendLine (s : IpcServer) (fd : ClientId) (line : Bytes) (answers : List WriteResult) :
    Option (IpcServer × Bytes) :=
  if s.contains fd then
    (writeLoop (line ++ [newline]) answers).map fun (taken, complete) =>
      (if complete then s else s.giveUp fd, taken)
  else some (s, [])

/-- The two loops that disconnect clients: those still registered are
closed and reported to `on_disconnect`. -/
def disconnect (s : IpcServer) : List ClientId → IpcServer × List ClientId
  | [] => (s, [])
  | fd :: rest =>
    if s.contains fd then
      let after := (s.close fd).disconnect rest
      (after.1, fd :: after.2)
    else s.disconnect rest

/-- The start of `poll_once`. -/
def flush (s : IpcServer) : IpcServer × List ClientId :=
  let after := s.disconnect s.pendingDisconnects
  ({ after.1 with pendingDisconnects := [] }, after.2)

/-- `accept` handed out a descriptor. -/
def addClient (s : IpcServer) (fd : ClientId) : IpcServer :=
  { s with readBuffers := s.readBuffers ++ [(fd, [])] }

/-- `buffer.append`. -/
def append (s : IpcServer) (fd : ClientId) (chunk : Bytes) : IpcServer :=
  s.setBuffer fd (s.buffer fd ++ chunk)

/-- `buffer.find('\n')`, with the line before it and the rest after it. -/
def splitLine : Bytes → Option (Bytes × Bytes)
  | [] => none
  | b :: rest =>
    if b = newline then some ([], rest)
    else (splitLine rest).map fun (line, after) => (b :: line, after)

end IpcServer

/-! ## Runs -/

/-- What happened on one connection. Nothing reads it back. -/
structure Connection where
  /-- The lines `send_line` was called with, in call order. -/
  requested : List Bytes := []
  /-- The bytes the kernel accepted from those calls. -/
  accepted : Bytes := []
  /-- The bytes `read` returned. -/
  received : Bytes := []
  /-- The lines handed to `on_line`. -/
  delivered : List Bytes := []
  deriving DecidableEq, Repr

/-- Where the controlling thread is. -/
inductive PollPhase where
  /-- Not inside `poll_once`. -/
  | outside
  /-- `poll` reported activity; the backlog is being drained. -/
  | accepting (polled : List ClientId)
  /-- At the head of the loop over the polled clients. -/
  | reading (todo disconnected : List ClientId)
  /-- At the head of the loop over the lines of one buffer. -/
  | scanning (fd : ClientId) (todo disconnected : List ClientId)
  /-- Inside `on_line`. -/
  | handling (fd : ClientId) (todo disconnected : List ClientId)
  deriving DecidableEq, Repr

/-- The local `disconnected` of `poll_once`. -/
def PollPhase.doomed : PollPhase → List ClientId
  | .outside => []
  | .accepting _ => []
  | .reading _ disconnected => disconnected
  | .scanning _ _ disconnected => disconnected
  | .handling _ _ disconnected => disconnected

structure Transport where
  server : IpcServer := {}
  phase : PollPhase := .outside
  /-- The latest connection of each descriptor. -/
  connection : ClientId → Connection := fun _ => {}

inductive TransportAct where
  | start
  | stop
  /-- `poll_once` begins; `order` is the iteration order of the registry,
  `active` whether `poll` returns a positive count. -/
  | pollOnce (order : List ClientId) (active : Bool)
  | accept (fd : ClientId)
  /-- The backlog is empty. -/
  | drained
  /-- The next polled client. -/
  | read (result : ReadResult)
  /-- The next line of the buffer, if there is one. -/
  | scan
  /-- `on_line` returns. -/
  | handled
  /-- The end of `poll_once`. -/
  | finish
  | sendLine (fd : ClientId) (line : Bytes) (answers : List WriteResult)
  deriving DecidableEq, Repr

namespace Transport

/-- Record something on a descriptor's connection. -/
def record (t : Transport) (fd : ClientId) (f : Connection → Connection) : Transport :=
  { t with connection := fun x => if x = fd then f (t.connection x) else t.connection x }

/-- `send_line` may run here. -/
def maySend : PollPhase → Bool
  | .outside => true
  | .handling _ _ _ => true
  | _ => false

/-- `send_line` on the run's state. -/
def send (t : Transport) (fd : ClientId) (line : Bytes) (answers : List WriteResult) :
    Option Transport :=
  (t.server.sendLine fd line answers).map fun (server, taken) =>
    let sent := { t with server := server }
    if t.server.contains fd then
      sent.record fd fun c =>
        { c with requested := c.requested ++ [line], accepted := c.accepted ++ taken }
    else sent

/-- One polled client of `poll_once`. -/
def readClient (t : Transport) (fd : ClientId) (todo disconnected : List ClientId) :
    ReadResult → Option Transport
  | .nothing => some { t with phase := .reading todo disconnected }
  | .endOfFile => some { t with phase := .reading todo (disconnected ++ [fd]) }
  | .failed => some { t with phase := .reading todo (disconnected ++ [fd]) }
  | .data chunk =>
    if chunk ≠ [] ∧ chunk.length ≤ kReadChunkSize then
      some ({ t with
        server := t.server.append fd chunk
        phase := .scanning fd todo disconnected }.record fd fun c =>
          { c with received := c.received ++ chunk })
    else none

/-- The loop over the lines of one buffer, then the size check. -/
def scanBuffer (t : Transport) (fd : ClientId) (todo disconnected : List ClientId) : Transport :=
  match IpcServer.splitLine (t.server.buffer fd) with
  | some (line, rest) =>
    { t with
      server := t.server.setBuffer fd rest
      phase := .handling fd todo disconnected }.record fd fun c =>
        { c with delivered := c.delivered ++ [line] }
  | none =>
    if (t.server.buffer fd).length > kMaxLineBytes then
      { t with phase := .reading todo (disconnected ++ [fd]) }
    else { t with phase := .reading todo disconnected }

/-- One step of the controlling thread. -/
def step (t : Transport) : TransportAct → Option Transport
  | .start =>
    if t.phase = .outside then some { t with server := t.server.start } else none
  | .stop =>
    if t.phase = .outside then some { t with server := t.server.stop } else none
  | .pollOnce order active =>
    if t.phase = .outside then
      if t.server.running then
        let server := t.server.flush.1
        if order.isPerm server.clients then
          some { t with
            server := server
            phase := if active then .accepting order else .outside }
        else none
      else some t
    else none
  | .accept fd =>
    match t.phase with
    | .accepting _ =>
      -- the kernel hands out a descriptor that is not open
      if t.server.contains fd then none
      else some ({ t with server := t.server.addClient fd }.record fd fun _ => {})
    | _ => none
  | .drained =>
    match t.phase with
    | .accepting polled => some { t with phase := .reading polled [] }
    | _ => none
  | .read result =>
    match t.phase with
    | .reading (fd :: todo) disconnected => t.readClient fd todo disconnected result
    | _ => none
  | .scan =>
    match t.phase with
    | .scanning fd todo disconnected => some (t.scanBuffer fd todo disconnected)
    | _ => none
  | .handled =>
    match t.phase with
    | .handling fd todo disconnected => some { t with phase := .scanning fd todo disconnected }
    | _ => none
  | .finish =>
    match t.phase with
    | .reading [] disconnected =>
      some { t with server := (t.server.disconnect disconnected).1, phase := .outside }
    | _ => none
  | .sendLine fd line answers =>
    if maySend t.phase then t.send fd line answers else none

end Transport

end YoruSpeech

/-
YoruSpeech.App.IpcService — the IPC stack as `domains/ipc/ipc_service.cpp`
wires it: the transport under the daemon.

`Daemon` handles lines and lists its `send_line` calls; `Transport` reads
lines off the sockets and writes to them. `IpcService` joins the two:
every line `poll_once` delivers is handled by `Daemon.onLine`, every line
the daemon sends goes through `Transport.send`, and every client reported
to `on_disconnect` is unsubscribed. `stop()` is that of the server alone.

The answers of the kernel to the writes of a step are given in the order
of its `send_line` calls. The controlling thread is in one place at a
time: the operations of the run loop begin outside `poll_once` only, and a
call of `IpcService` is made while no operation runs. Other threads step at
any moment.
-/
import YoruSpeech.App.Daemon

namespace YoruSpeech

structure IpcService where
  daemon : Daemon
  transport : Transport := {}

inductive ServiceAct where
  | start
  | stop
  | pollOnce (order : List ClientId) (active : Bool)
  | accept (fd : ClientId)
  | drained
  | read (result : ReadResult)
  /-- The next line of the buffer is handled, if there is one. -/
  | scan (env : LineEnv) (answers : List (List WriteResult))
  | finish
  /-- A step of the session machine. -/
  | session (a : Act) (copy : Option CopyFailure) (answers : List (List WriteResult))

namespace Transport

/-- `send_line` calls in a row. -/
def sendAll (t : Transport) :
    List (ClientId × Bytes) → List (List WriteResult) → Option Transport
  | [], _ => some t
  | _ :: _, [] => none
  | (fd, line) :: rest, answer :: answers =>
    (t.send fd line answer).bind fun t => t.sendAll rest answers

/-- The line `on_line` is being called with. -/
def current? (t : Transport) : Option (ClientId × Bytes) :=
  match t.phase with
  | .handling fd _ _ => (t.connection fd).delivered.getLast?.map (fd, ·)
  | _ => none

end Transport

namespace Daemon

/-- `on_disconnect` for each of these clients. -/
def forget (d : Daemon) (fds : List ClientId) : Daemon :=
  { d with hub := fds.foldl Hub.unsubscribe d.hub }

/-- The lines a step of the daemon passed to `send_line`. -/
def newLines (d d' : Daemon) : List (ClientId × Bytes) :=
  d'.hub.sent.drop d.hub.sent.length

end Daemon

namespace IpcService

/-- The thread that owns the service is free to call it. -/
def free (s : IpcService) : Bool :=
  s.daemon.terminated = false && s.daemon.machine.owner = .idle

/-- A step of the server in which no callback runs. -/
def transfer (s : IpcService) (a : TransportAct) : Option IpcService :=
  if s.free then (s.transport.step a).map fun t => { s with transport := t } else none

/-- A step of the server that reports these clients to `on_disconnect`. -/
def transferDropping (s : IpcService) (a : TransportAct) (fds : List ClientId) :
    Option IpcService :=
  if s.free then
    (s.transport.step a).map fun t => { daemon := s.daemon.forget fds, transport := t }
  else none

/-- `on_line`: the daemon handles the line, its lines are written, and
`poll_once` goes on. -/
def onLine (lib : Libraries) (d : Daemon) (t : Transport) (fd : ClientId) (line : Bytes)
    (env : LineEnv) (answers : List (List WriteResult)) : Option IpcService :=
  let d' := d.onLine lib fd line env
  (t.sendAll (d.newLines d') answers).bind fun t =>
    (t.step .handled).map fun t => { daemon := d', transport := t }

/-- One step. -/
def step (lib : Libraries) (s : IpcService) : ServiceAct → Option IpcService
  | .start => s.transfer .start
  | .stop => s.transfer .stop
  | .pollOnce order active =>
    -- a stopped server returns at once
    s.transferDropping (.pollOnce order active)
      (if s.transport.server.running then s.transport.server.flush.2 else [])
  | .accept fd => s.transfer (.accept fd)
  | .drained => s.transfer .drained
  | .read result => s.transfer (.read result)
  | .scan env answers =>
    if s.free then
      (s.transport.step .scan).bind fun t =>
        match t.current? with
        | some (fd, line) => onLine lib s.daemon t fd line env answers
        | none => some { s with transport := t }
    else none
  | .finish =>
    s.transferDropping .finish (s.transport.server.disconnect s.transport.phase.doomed).2
  | .session a copy answers =>
    if a.byOwner = true ∧ s.transport.phase ≠ .outside then none
    else
      (s.daemon.step lib (.session a copy)).bind fun d =>
        (s.transport.sendAll (s.daemon.newLines d) answers).map fun t =>
          { daemon := d, transport := t }

/-- The service as `main.cpp` constructs it. -/
def init (lib : Libraries) (startup : Startup) : IpcService where
  daemon := Daemon.init lib startup

end IpcService

end YoruSpeech

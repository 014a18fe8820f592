/-
YoruSpeech.App.Toggle — the dictation helper against the daemon
(`packaging/hyprland/yoru-dictate`).

`Desk` is the helper's marker file next to the session machine of the
daemon. One invocation of the helper is one step: it reads the marker,
makes its requests and writes or removes the marker. How far a request gets
is an input (`Exchange`). A command that the daemon handles only after the
client gave up on it is `unanswered`: by then the client does nothing more.

The `ok` of a response is that of what the operation returned.
`open_event_listener` touches neither the marker nor the capture state, so
only whether it returns is an input; what a stop does after its reply is in
`YoruSpeech.App.Dictate`. How the operations on the marker end are inputs
too: the one `except` of `do_stop` covers the reading and the removal, and
what `do_start` raises after the reply ends the invocation.
-/
import YoruSpeech.App.Daemon

namespace YoruSpeech

/-- How far a `send` gets. -/
inductive Exchange where
  /-- The daemon handles the command and its reply is read. -/
  | answered
  /-- The daemon handles the command; reading the reply raises. -/
  | unanswered
  /-- The command does not reach the daemon. -/
  | undelivered
  deriving DecidableEq, Repr

/-- The file at `start_time_path()`. -/
inductive Marker where
  | absent
  /-- It holds a number. -/
  | stamped
  /-- It holds something else: `float(f.read())` raises. -/
  | garbled
  deriving DecidableEq, Repr

/-- How `do_start` gets on with writing the marker. -/
inductive MarkerWrite where
  | done
  | openFailed
  /-- The file is open, and so empty, and writing it raises; what has been
  written is no number, or is one all the same. -/
  | cut (illegible : Bool)
  deriving DecidableEq, Repr

/-- How `do_stop` gets on with a marker it can make sense of. -/
inductive MarkerRead where
  | removed
  /-- `os.remove` raises. -/
  | removeFailed
  /-- Opening or reading raises. -/
  | readFailed
  deriving DecidableEq, Repr

namespace Marker

/-- The marker after `do_start` has set out to write it. -/
def written (marker : Marker) : MarkerWrite → Marker
  | .done => .stamped
  | .openFailed => marker
  | .cut illegible => if illegible then .garbled else .stamped

/-- What the `try` of `do_stop` does: whether it sets `held_seconds`, and
the marker afterwards. -/
def taken (marker : Marker) (read : MarkerRead) : Bool × Marker :=
  match marker, read with
  | .stamped, .removed => (true, .absent)
  | .stamped, .removeFailed => (true, .stamped)
  | _, _ => (false, marker)

end Marker

/-- `sys.argv[1]`. -/
inductive Requested where
  | start
  | stop
  | toggle
  deriving DecidableEq, Repr

/-- One invocation of `yoru-dictate`, with what happens during it. -/
structure Invocation where
  requested : Requested
  /-- The marker is younger than `MIN_HOLD_SECONDS`. -/
  quick : Bool := false
  /-- The `stat` of `os.path.exists` succeeds where there is a marker. -/
  sees : Bool := true
  read : MarkerRead := .removed
  write : MarkerWrite := .done
  /-- `open_event_listener` returns. -/
  listens : Bool := true
  exchange : Exchange := .answered
  env : LineEnv := {}

structure Desk where
  machine : Machine
  marker : Marker := .absent

/-- `send`: the daemon afterwards, and `response.get("ok")`; `none` when it
raises. -/
def send (m : Machine) (op : Op) (i : Invocation) : Machine × Option Bool :=
  match i.exchange with
  | .answered => ((m.perform op i.env).1, (m.perform op i.env).2.map (!·.refuses))
  | .unanswered => ((m.perform op i.env).1, none)
  | .undelivered => (m, none)

namespace Desk

/-- `do_start`. -/
def doStart (σ : Desk) (i : Invocation) : Desk :=
  let (machine, ok) := send σ.machine .startSession i
  { machine := machine
    marker := if ok = some true then σ.marker.written i.write else σ.marker }

/-- `do_stop`. What becomes of the marker is settled before anything is
sent. -/
def doStop (σ : Desk) (checkMinHold : Bool) (i : Invocation) : Desk :=
  let (held, marker) := σ.marker.taken i.read
  if checkMinHold && held && i.quick then
    { machine := (send σ.machine .cancelSession i).1, marker := marker }
  else if i.listens then
    { machine := (send σ.machine .stopSession i).1, marker := marker }
  else { σ with marker := marker }

/-- `main`: whether this invocation starts. -/
def starts (σ : Desk) (i : Invocation) : Bool :=
  match i.requested with
  | .start => true
  | .stop => false
  | .toggle => σ.marker = .absent || !i.sees

/-- `main`. -/
def invoke (σ : Desk) (i : Invocation) : Desk :=
  if σ.starts i then σ.doStart i else σ.doStop (i.requested = .stop) i

end Desk

inductive DeskAct where
  /-- A step the daemon takes by itself; the device may be lost in one. -/
  | daemon (a : Act)
  | invoke (i : Invocation)

namespace Desk

/-- A daemon that has just started, with or without a marker left over. -/
def init (capacity : Nat) (c : Configuration) (liveConfig : LiveTranscriberConfig)
    (marker : Marker) : Desk :=
  { machine := Machine.init capacity c liveConfig, marker := marker }

def step (σ : Desk) : DeskAct → Option Desk
  | .daemon a =>
    if a.ofLoop then (σ.machine.step a).map fun machine => { σ with machine := machine } else none
  | .invoke i => if σ.machine.owner = .idle then some (σ.invoke i) else none

end Desk

end YoruSpeech

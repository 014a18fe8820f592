/-
YoruSpeech.App.RunLoop — the run loop of `main.cpp` and the eventfd that
wakes it.

Each turn of the loop is `poll_once`, `poll_completed` and `tick`.
`poll_once` sleeps in `poll` until a descriptor is ready or the timeout has
passed; it reads the eventfd only if `poll` reported it, and then handles
the lines of the clients. The worker writes the eventfd from its activity
callback, which is between the hand-over of a job or a result and its next
step. The operations themselves are those of `YoruSpeech.Session.Machine`;
`LoopPhase` says which of them the loop may call where.

What the server does with its clients is in `YoruSpeech.Ipc.IpcServer`.
After the loop the daemon cancels, shuts the queue down and publishes what
is left.
-/
import YoruSpeech.Session.Machine
import Mathlib.Algebra.Group.Nat.Defs

namespace YoruSpeech

/-- The largest value of an eventfd counter. -/
def kMaxEventfdCount : Nat := 2 ^ 64 - 2

/-- `wake()`: a write that would overflow the counter fails and leaves it
as it is. -/
def wake (counter : Nat) : Nat :=
  if counter < kMaxEventfdCount then counter + 1 else counter

/-- The worker has handed something over and not yet called the activity
callback. -/
def Worker.announcing : Worker → Bool
  | .popped _ => true
  | .finished => true
  | _ => false

/-- Where the loop is. -/
inductive LoopPhase where
  /-- At the head of the loop, or asleep in `poll`. -/
  | polling
  /-- `poll` returned a positive count; `readable` is its answer for the
  eventfd. -/
  | polled (readable : Bool)
  /-- The eventfd is dealt with; lines are handled. -/
  | lines
  /-- `poll_completed` is next. -/
  | completing
  /-- Inside `poll_completed`. -/
  | publishing
  /-- `tick` is next. -/
  | ticking
  /-- Inside `tick`. -/
  | previewing
  /-- After the loop. -/
  | left
  deriving DecidableEq, Repr

/-- The operations a line can ask for. -/
def Op.ofClient : Op → Bool
  | .startSession => true
  | .stopSession => true
  | .cancelSession => true
  | .cancelJob _ => true
  | .configure _ => true
  | _ => false

/-- The operations after the loop. -/
def Op.ofShutdown : Op → Bool
  | .cancelSession => true
  | .shutdown => true
  | .pollCompleted => true
  | _ => false

/-- The phase a step of the session machine leaves the loop in, if it can
happen here. -/
def LoopPhase.take : LoopPhase → Act → Option LoopPhase
  | phase, .worker _ => some phase
  | phase, .capture _ => some phase
  | phase, .lose => some phase
  | .lines, .call op _ => if op.ofClient then some .lines else none
  | .lines, .own _ => some .lines
  | .completing, .call .pollCompleted _ => some .publishing
  | .publishing, .own _ => some .publishing
  | .ticking, .call .tick _ => some .previewing
  | .previewing, .own _ => some .previewing
  | .left, .call op _ => if op.ofShutdown then some .left else none
  | .left, .own _ => some .left
  | _, _ => none

structure RunLoop where
  machine : Machine
  /-- The eventfd. -/
  counter : Nat := 0
  phase : LoopPhase := .polling

inductive LoopAct where
  /-- `poll` returns; `active` is whether with a positive count. -/
  | poll (active : Bool)
  /-- The eventfd is read, if `poll` reported it. -/
  | drainEventfd
  /-- A step of the session machine. -/
  | session (a : Act)
  /-- The call the loop is in has returned. -/
  | next
  /-- A signal has asked to stop. -/
  | leave

namespace RunLoop

/-- The step runs the activity callback. -/
def rings (r : RunLoop) : Act → Bool
  | .worker _ => r.machine.worker.announcing
  | _ => false

/-- One step of the loop or of another thread. -/
def step (r : RunLoop) : LoopAct → Option RunLoop
  | .poll active =>
    match r.phase with
    | .polling =>
      some { r with phase := if active then .polled (0 < r.counter) else .completing }
    | _ => none
  | .drainEventfd =>
    match r.phase with
    | .polled true => some { r with counter := 0, phase := .lines }
    | .polled false => some { r with phase := .lines }
    | _ => none
  | .session a =>
    (r.phase.take a).bind fun phase =>
      (r.machine.step a).map fun machine =>
        { machine, phase, counter := if r.rings a then wake r.counter else r.counter }
  | .next =>
    if r.machine.owner = .idle then
      match r.phase with
      | .lines => some { r with phase := .completing }
      | .publishing => some { r with phase := .ticking }
      | .previewing => some { r with phase := .polling }
      | _ => none
    else none
  | .leave =>
    match r.phase with
    | .polling => some { r with phase := .left }
    | _ => none

/-- `main.cpp` at the head of its loop. -/
def init (capacity : Nat) (c : Configuration) (liveConfig : LiveTranscriberConfig) : RunLoop where
  machine := Machine.init capacity c liveConfig

/-- A start or a result waits to be drained. -/
def Undrained (r : RunLoop) : Prop :=
  r.machine.manager.queue.started ≠ [] ∨ r.machine.manager.queue.completed ≠ []

/-- The loop is past the eventfd and has not finished both drains. -/
def Draining (r : RunLoop) : Prop :=
  r.phase = .lines ∨ r.phase = .completing ∨
    ∃ results, r.machine.owner = .inside (.drained results)

end RunLoop

end YoruSpeech

/-
YoruSpeech.Session.SessionManager — the session manager's operations
(`session_manager.cpp`), cut where another thread can be seen.

The owner thread shares only the `TranscriptionQueue` with the worker and
talks to the rest of the daemon by publishing events. Between two accesses
to the queue, and between two published events, an operation touches state
no other thread reads, so each operation is a sequence of SECTIONS: a
section makes at most one access to the queue and publishes at most one
event. `Frame` names the points between sections and carries the local
variables that are live there; a section ends by continuing in a frame
(`Next.more`), by returning (`Next.done`), or by dereferencing an empty
`std::optional` (`Next.undefined`).

The sections that involve the backend's abort flag or the join of the
worker thread belong to `shutdown()` and are taken by the machine in
`YoruSpeech.Session.Machine`.
-/
import YoruSpeech.Audio.RecordingManager
import YoruSpeech.Session.Session
import YoruSpeech.Session.TranscriptionQueue

namespace YoruSpeech

/-- `session::SessionError`. -/
structure SessionError where
  message : Bytes
  deriving DecidableEq, Repr

/-- `session::StopSessionResult`, with the `QueuedJob` alternative spelled
out. -/
inductive StopSessionResult where
  | queuedJob (id : SessionId) (position : Nat)
  | error (e : SessionError)
  deriving DecidableEq, Repr

/-- `session::SessionStatus`. -/
structure SessionStatus where
  state : ServiceState
  queued : Nat
  processing : Bool
  lastCompleted : Option SessionId
  lastFailed : Option SessionId
  deriving DecidableEq, Repr

/-- What an operation of the owner thread returned. -/
inductive Return where
  | startSession (r : Option SessionError)
  | stopSession (r : StopSessionResult)
  | pollCompleted (count : Nat)
  | cancelSession (r : Option SessionError)
  | cancelJob (id : SessionId) (r : Bool)
  | shutdown (dropped : List SessionId)
  | configure
  | tick
  deriving DecidableEq, Repr

/-- A point inside an operation, with its live local variables. -/
inductive Frame where
  /-- `start_session`: the queue has room. -/
  | starting
  /-- `stop_session`: the recording is in hand, not yet enqueued. -/
  | recorded (id : SessionId) (recording : Recording)
  /-- `stop_session`: enqueued at `position`, not yet announced. -/
  | enqueued (id : SessionId) (position : Nat)
  /-- `cancel_session`: the device is stopped. -/
  | discarding
  /-- `cancel_job`: the job is out of the queue, not yet announced. -/
  | cancelled (id : SessionId)
  /-- `poll_completed`: `completed_` drained. -/
  | drained (results : List TranscriptionJobResult)
  /-- `poll_completed`: `started_` drained too; these starts are left to
  publish. -/
  | announcing (starts : List SessionId) (results : List TranscriptionJobResult)
  /-- `poll_completed`: these results are left to publish. -/
  | reporting (results : List TranscriptionJobResult) (count : Nat)
  /-- `shutdown`: `stopping_` is set and the waiting jobs are taken. -/
  | stopping (dropped : List SessionId)
  /-- `shutdown`: `request_abort()` has run; the join is next. -/
  | aborted (dropped : List SessionId)
  /-- `shutdown`: the worker is joined; these drops are left to publish. -/
  | dropping (todo dropped : List SessionId)
  deriving DecidableEq, Repr

/-- `session::SessionManager`, with the objects it refers to. -/
structure SessionManager where
  recordingManager : RecordingManager := {}
  state : ServiceState := .idle
  activeSession : Option Session := none
  nextSessionId : SessionId := 1
  defaultLanguage : Bytes
  transcriptionPrompt : Bytes
  lastCompleted : Option SessionId := none
  lastFailed : Option SessionId := none
  queue : TranscriptionQueue
  deriving DecidableEq, Repr

/-- How a section ends. -/
inductive Next where
  | done (m : SessionManager) (event : Option Event) (r : Return)
  | more (m : SessionManager) (event : Option Event) (f : Frame)
  | undefined
  deriving DecidableEq, Repr

namespace SessionManager

/-! ## Starting and stopping -/

/-- `SessionManager::fail`; `none` when `active_session_` is empty. -/
def fail (m : SessionManager) (component : Component) (message : Bytes) (now : Nat) :
    Option (SessionManager × Event) :=
  match m.activeSession with
  | none => none
  | some session =>
    let failed := (session.tryTransition .failed now).2
    some ({ m with activeSession := some failed, state := .error },
      .errorOccurred (some failed.id) component message)

/-- `start_session`, up to `has_capacity()`. -/
def startSession (m : SessionManager) : Next :=
  if m.state ≠ .idle then
    .done m none (.startSession (some ⟨str "a session is already active"⟩))
  else if !m.queue.hasCapacity then
    let message := str "transcription queue is full"
    .done m (some (.errorOccurred none .queue message)) (.startSession (some ⟨message⟩))
  else .more m none .starting

/-- `start_session`, from drawing the id to the end. -/
def startRecording (m : SessionManager) (outcome : DeviceStart) (now : Nat) : Next :=
  let sessionId := m.nextSessionId
  let m := { m with nextSessionId := m.nextSessionId + 1 }
  match m.recordingManager.start sessionId outcome with
  | (recorder, .inl e) =>
    .done { m with recordingManager := recorder }
      (some (.errorOccurred none .audio e.message)) (.startSession (some ⟨e.message⟩))
  | (recorder, .inr event) =>
    let session : Session := { id := sessionId, createdAt := now }
    .done { m with
        recordingManager := recorder
        activeSession := some (session.tryTransition .recording now).2
        state := .recording }
      (some event) (.startSession none)

/-- `stop_session`, up to `recording_manager_.stop()`. -/
def stopSession (m : SessionManager) (now : Nat) : Next :=
  if m.state ≠ .recording then
    .done m none (.stopSession (.error ⟨str "no session is recording"⟩))
  else
    match m.activeSession with
    | none => .undefined
    | some session =>
      match m.recordingManager.stop with
      | (recorder, .inl e) =>
        match ({ m with recordingManager := recorder }).fail .audio e.message now with
        | none => .undefined
        | some (m, event) => .done m (some event) (.stopSession (.error ⟨e.message⟩))
      | (recorder, .inr (recording, event)) =>
        .more { m with recordingManager := recorder } (some event)
          (.recorded session.id recording)

/-- The job `stop_session` builds from a recording. -/
def jobFor (m : SessionManager) (id : SessionId) (recording : Recording) :
    TranscriptionJob :=
  { sessionId := id
    samples := recording.samples
    request := { language := m.defaultLanguage, initialPrompt := m.transcriptionPrompt } }

/-- `stop_session`, from the move to Processing to leaving Recording. -/
def enqueueRecording (m : SessionManager) (id : SessionId) (recording : Recording)
    (now : Nat) : Next :=
  match m.activeSession with
  | none => .undefined
  | some session =>
    let m := { m with activeSession := some (session.tryTransition .processing now).2 }
    match m.queue.tryEnqueue (m.jobFor id recording) with
    | (_, none) =>
      let message := str "transcription queue is full or shutting down"
      match m.fail .queue message now with
      | none => .undefined
      | some (m, event) => .done m (some event) (.stopSession (.error ⟨message⟩))
    | (queue, some position) =>
      .more { m with queue := queue, activeSession := none, state := .idle } none
        (.enqueued id position)

/-- `stop_session`, the last publication. -/
def announceQueued (m : SessionManager) (id : SessionId) (position : Nat) : Next :=
  .done m (some (.transcriptionQueued id position)) (.stopSession (.queuedJob id position))

/-! ## Cancelling -/

/-- `cancel_session`, up to `recording_manager_.stop()`. -/
def cancelSession (m : SessionManager) : Next :=
  if m.state = .idle then
    .done m none (.cancelSession (some ⟨str "no session to cancel"⟩))
  else if m.state = .recording then
    match m.recordingManager.stop with
    | (recorder, .inl _) => .more { m with recordingManager := recorder } none .discarding
    | (recorder, .inr (_, event)) =>
      .more { m with recordingManager := recorder } (some event) .discarding
  else .more m none .discarding

/-- `cancel_session`, from there to the end. -/
def discardSession (m : SessionManager) : Next :=
  let event := m.activeSession.map fun session => Event.sessionCancelled session.id
  .done { m with activeSession := none, state := .idle } event (.cancelSession none)

/-- `cancel_job`, up to `cancel_pending()`. -/
def cancelJob (m : SessionManager) (id : SessionId) : Next :=
  match m.queue.cancelPending id with
  | (_, false) => .done m none (.cancelJob id false)
  | (queue, true) => .more { m with queue := queue } none (.cancelled id)

/-- `cancel_job`, the publication. -/
def announceCancelled (m : SessionManager) (id : SessionId) : Next :=
  .done m (some (.sessionCancelled id)) (.cancelJob id true)

/-! ## Publishing what the worker did -/

/-- `poll_completed`, up to `drain_completed()`. -/
def pollCompleted (m : SessionManager) : Next :=
  let (queue, results) := m.queue.drainCompleted
  .more { m with queue := queue } none (.drained results)

/-- `poll_completed`, `drain_started()`. -/
def collectStarted (m : SessionManager) (results : List TranscriptionJobResult) : Next :=
  let (queue, starts) := m.queue.drainStarted
  .more { m with queue := queue } none (.announcing starts results)

/-- `poll_completed`, one turn of the loop over the started ids. -/
def announceStarted (m : SessionManager) (starts : List SessionId)
    (results : List TranscriptionJobResult) : Next :=
  match starts with
  | [] => .more m none (.reporting results results.length)
  | id :: rest => .more m (some (.transcriptionStarted id)) (.announcing rest results)

/-- `poll_completed`, one turn of the loop over the results. -/
def reportResult (m : SessionManager) (results : List TranscriptionJobResult)
    (count : Nat) : Next :=
  match results with
  | [] => .done m none (.pollCompleted count)
  | job :: rest =>
    match job.result with
    | .error e =>
      .more { m with lastFailed := some job.sessionId }
        (some (.errorOccurred (some job.sessionId) .speech e.message)) (.reporting rest count)
    | .transcript t =>
      .more { m with lastCompleted := some job.sessionId }
        (some (.transcriptionCompleted job.sessionId t)) (.reporting rest count)

/-! ## Shutting down -/

/-- `shutdown`, the section of `TranscriptionQueue::shutdown` under the
lock. -/
def shutdown (m : SessionManager) : Next :=
  let (queue, dropped) := m.queue.stop
  .more { m with queue := queue } none (.stopping dropped)

/-- `shutdown`, one turn of the loop over the dropped ids. -/
def reportDropped (m : SessionManager) (todo dropped : List SessionId) : Next :=
  match todo with
  | [] => .done m none (.shutdown dropped)
  | id :: rest =>
    .more m
      (some (.errorOccurred (some id) .queue
        (str "dropped at shutdown before it could be transcribed")))
      (.dropping rest dropped)

/-! ## Observers -/

/-- `derive_state`. -/
def deriveState (captureState : ServiceState) (queue : QueueSnapshot) : ServiceState :=
  if captureState ≠ .idle then captureState
  else if queue.busy || queue.pending > 0 then .processing else .idle

/-- `SessionManager::state`. -/
def reportedState (m : SessionManager) : ServiceState :=
  deriveState m.state m.queue.snapshot

/-- `SessionManager::status`: one snapshot feeds every field. -/
def status (m : SessionManager) : SessionStatus :=
  let queue := m.queue.snapshot
  { state := deriveState m.state queue
    queued := queue.pending
    processing := queue.busy
    lastCompleted := m.lastCompleted
    lastFailed := m.lastFailed }

/-- `SessionManager::transcription_busy`. -/
def transcriptionBusy (m : SessionManager) : Bool := m.queue.outstandingCount > 0

/-- `SessionManager::active_session_id`. -/
def activeSessionId (m : SessionManager) : Option SessionId :=
  m.activeSession.map (·.id)

/-- The handler the constructor subscribes. -/
def onEvent (m : SessionManager) : Event → SessionManager
  | .configurationChanged c =>
    { m with defaultLanguage := c.defaultLanguage, transcriptionPrompt := c.transcriptionPrompt }
  | _ => m

end SessionManager

end YoruSpeech

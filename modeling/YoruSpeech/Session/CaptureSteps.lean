/-
YoruSpeech.Session.CaptureSteps — starting and stopping a recording, cut at
every access to what miniaudio's thread also touches
(`CaptureDevice::start`, `CaptureDevice::stop`, `RecordingManager::start`,
`RecordingManager::stop`, and their callers in `session_manager.cpp`).

`YoruSpeech.Audio.RecordingManager` runs each of these calls in one step,
and a notification comes before or after it. Here the controlling thread
moves from one `Point` to the next: a step makes one access to `running` or
to the samples, or is one call of miniaudio, and the notification handler,
the audio callback and the transcription worker run between any two of
them.

* miniaudio is seen through its results (`go answer`) and through
  `streaming`: from the moment the device streams, inside `ma_device_start`,
  until `ma_device_uninit` has returned it may call back.
* `initialized` belongs to the controlling thread alone and is written
  together with the access next to it.
* The worker and the other operations of the session manager work on the
  queue only, which the step `queue` replaces by any other one.
* `notified`, `returns` and `stops` are history: whether a stopped
  notification of the current device has run, what the operations returned,
  and every finished call of `RecordingManager::stop`. Published events are
  left out.

`start_alone` and `stop_alone` say that a call nobody interrupts is the one
of `YoruSpeech.Session.SessionManager`.
-/
import YoruSpeech.Lib.Transition
import YoruSpeech.Session.SessionManager

namespace YoruSpeech

/-- Who calls `RecordingManager::stop`. -/
inductive StopCaller where
  | stopSession
  | cancelSession
  deriving DecidableEq, Repr

/-- A call of `RecordingManager::stop` in progress. -/
structure Stopping where
  caller : StopCaller
  /-- `device_was_lost`. -/
  lost : Bool
  /-- A stopped notification of the device had run when it was called. -/
  notified : Bool
  deriving DecidableEq, Repr

/-- A finished call of `RecordingManager::stop`. -/
structure Stopped where
  caller : StopCaller
  notified : Bool
  result : RecordingError ⊕ Recording
  /-- The state of the service when the caller is done. -/
  state : ServiceState
  /-- The caller changed the queue. -/
  queued : Bool
  deriving DecidableEq, Repr

/-- Where the controlling thread is. -/
inductive Point where
  | idle
  /-- `RecordingManager::start` has cleared the samples; `running` is read
  next. -/
  | starting (id : SessionId)
  /-- A device object is left over; `ma_device_uninit` is next. -/
  | releasing (id : SessionId)
  /-- `ma_device_init` is next. -/
  | opening (id : SessionId)
  /-- `ma_device_start` is next. -/
  | opened (id : SessionId)
  /-- Inside `ma_device_start`; the device streams. -/
  | launching (id : SessionId)
  /-- `ma_device_start` has returned `MA_SUCCESS`; `running = true` is
  next. -/
  | launched (id : SessionId)
  /-- `ma_device_start` has failed; `ma_device_uninit` is next. -/
  | abandoning (id : SessionId)
  /-- `RecordingManager::stop` has read `running`; `ma_device_uninit` is
  next. -/
  | closing (call : Stopping)
  /-- `ma_device_uninit` has returned; `running = false` is next. -/
  | closed (call : Stopping)
  /-- `CaptureDevice::stop` has returned; the samples are next. -/
  | collecting (call : Stopping)
  deriving DecidableEq, Repr

/-- The session manager while it records, with miniaudio beside it. -/
structure Capturing where
  manager : SessionManager
  point : Point := .idle
  streaming : Bool := false
  notified : Bool := false
  returns : List Return := []
  stops : List Stopped := []
  deriving DecidableEq, Repr

/-- What can happen next. -/
inductive CaptureAct where
  /-- The controlling thread calls an operation. -/
  | startSession
  | stopSession (now : Nat)
  | cancelSession (now : Nat)
  /-- It goes on inside the operation; miniaudio succeeds or fails where it
  is called. -/
  | go (answer : Bool) (now : Nat)
  /-- miniaudio runs `handle_device_notification`. -/
  | notify
  /-- It runs `forward_captured_samples`. -/
  | samples (buffer : List Sample)
  /-- Somebody works on the queue. -/
  | queue (q : TranscriptionQueue)
  deriving DecidableEq, Repr

namespace Capturing

abbrev recorder (s : Capturing) : RecordingManager := s.manager.recordingManager

abbrev device (s : Capturing) : CaptureDevice := s.recorder.device

def setRecorder (s : Capturing) (r : RecordingManager) : Capturing :=
  { s with manager := { s.manager with recordingManager := r } }

def setDevice (s : Capturing) (d : CaptureDevice) : Capturing :=
  s.setRecorder { s.recorder with device := d }

/-- `ma_device_uninit` has returned: the device is gone, and with it its
notifications. -/
def uninit (s : Capturing) : Capturing := { s with streaming := false, notified := false }

/-! ## Starting -/

/-- `start_session`, up to `device_.start()`. -/
def startSession (s : Capturing) : Option Capturing :=
  match s.manager.startSession with
  | .done _ _ r => some { s with returns := s.returns ++ [r] }
  | .more m _ _ =>
    let id := m.nextSessionId
    let s := { s with manager := { m with nextSessionId := m.nextSessionId + 1 } }
    if s.recorder.activeSession.isSome then
      let message := str "a recording is already in progress"
      some { s with returns := s.returns ++ [.startSession (some ⟨message⟩)] }
    else some { s.setRecorder { s.recorder with samples := [] } with point := .starting id }
  | .undefined => none

/-- `start_session`, when `recording_manager_.start()` has failed. -/
def startFailed (s : Capturing) (message : Bytes) : Capturing :=
  { s with point := .idle, returns := s.returns ++ [.startSession (some ⟨message⟩)] }

/-- `start_session`, when `device_.start()` has succeeded. -/
def startSucceeded (s : Capturing) (id : SessionId) (now : Nat) : Capturing :=
  let session : Session := { id := id, createdAt := now }
  { s with
    manager := { s.manager with
      recordingManager := { s.recorder with activeSession := some id }
      activeSession := some (session.tryTransition .recording now).2
      state := .recording }
    point := .idle
    returns := s.returns ++ [.startSession none] }

/-! ## Stopping -/

/-- `stop_session`, from `try_enqueue` to its end. -/
def afterEnqueue : Next → Option (SessionManager × Return)
  | .done m _ r => some (m, r)
  | .more m _ (.enqueued id position) => some (m, .stopSession (.queuedJob id position))
  | _ => none

/-- The rest of the operation that called `RecordingManager::stop`. -/
def conclude (s : Capturing) (call : Stopping) (result : RecordingError ⊕ Recording)
    (now : Nat) : Option Capturing :=
  let after : Option (SessionManager × Return) :=
    match call.caller, result with
    | .stopSession, .inl e =>
      (s.manager.fail .audio e.message now).map fun next =>
        (next.1, .stopSession (.error ⟨e.message⟩))
    | .stopSession, .inr recording =>
      match s.manager.activeSession with
      | none => none
      | some session => afterEnqueue (s.manager.enqueueRecording session.id recording now)
    | .cancelSession, _ =>
      match s.manager.discardSession with
      | .done m _ r => some (m, r)
      | _ => none
  after.map fun next =>
    { s with
      manager := next.1
      point := .idle
      returns := s.returns ++ [next.2]
      stops := s.stops ++
        [{ caller := call.caller, notified := call.notified, result := result,
           state := next.1.state, queued := decide (next.1.queue ≠ s.manager.queue) }] }

/-- `RecordingManager::stop`, up to `ma_device_uninit`. -/
def stopRecording (s : Capturing) (caller : StopCaller) (now : Nat) : Option Capturing :=
  let call : Stopping :=
    { caller := caller, lost := !s.device.isRunning, notified := s.notified }
  match s.recorder.activeSession with
  | none => s.conclude call (.inl ⟨str "no recording is in progress"⟩) now
  | some _ =>
    -- `CaptureDevice::stop` returns at once when there is no device object
    if s.device.initialized then some { s with point := .closing call }
    else some { s with point := .collecting call }

/-- `stop_session`, up to there. -/
def stopSession (s : Capturing) (now : Nat) : Option Capturing :=
  if s.manager.state ≠ .recording then
    let message := str "no session is recording"
    some { s with returns := s.returns ++ [.stopSession (.error ⟨message⟩)] }
  else
    match s.manager.activeSession with
    | none => none
    | some _ => s.stopRecording .stopSession now

/-- `cancel_session`, up to there; an `Error` is only dismissed. -/
def cancelSession (s : Capturing) (now : Nat) : Option Capturing :=
  if s.manager.state = .idle then
    let message := str "no session to cancel"
    some { s with returns := s.returns ++ [.cancelSession (some ⟨message⟩)] }
  else if s.manager.state = .recording then s.stopRecording .cancelSession now
  else
    match s.manager.discardSession with
    | .done m _ r => some { s with manager := m, returns := s.returns ++ [r] }
    | _ => none

/-- `RecordingManager::stop`, from `device_.stop()` on. -/
def collect (s : Capturing) (call : Stopping) (now : Nat) : Option Capturing :=
  let released := s.setRecorder { s.recorder with samples := [], activeSession := none }
  if call.lost then
    released.conclude call
      (.inl ⟨str "capture device stopped unexpectedly (microphone disconnected?)"⟩) now
  else
    let recording : Recording :=
      { samples := s.recorder.samples, sampleRate := kSampleRate, channels := kChannels }
    released.conclude call (.inr recording) now

/-! ## Steps -/

/-- The controlling thread goes on from its point. -/
def advance (s : Capturing) (answer : Bool) (now : Nat) : Option Capturing :=
  match s.point with
  | .idle => none
  | .starting id =>
    if s.device.running then some (s.startSucceeded id now)
    else if s.device.initialized then some { s with point := .releasing id }
    else some { s with point := .opening id }
  | .releasing id =>
    some { s.uninit.setDevice { s.device with initialized := false } with point := .opening id }
  | .opening id =>
    if answer then
      some { s.setDevice { s.device with initialized := true } with point := .opened id }
    else some (s.startFailed (str "failed to open the default capture device"))
  | .opened id =>
    if answer then some { s with streaming := true, point := .launching id }
    else some { s with point := .abandoning id }
  | .launching id =>
    if answer then some { s with point := .launched id }
    else some { s with point := .abandoning id }
  | .launched id => some ((s.setDevice { s.device with running := true }).startSucceeded id now)
  | .abandoning _ =>
    some ((s.uninit.setDevice { s.device with initialized := false }).startFailed
      (str "failed to start the capture device"))
  | .closing call => some { s.uninit with point := .closed call }
  | .closed call =>
    some { s.setDevice { running := false, initialized := false } with point := .collecting call }
  | .collecting call => s.collect call now

def step (s : Capturing) : CaptureAct → Option Capturing
  | .startSession => if s.point = .idle then s.startSession else none
  | .stopSession now => if s.point = .idle then s.stopSession now else none
  | .cancelSession now => if s.point = .idle then s.cancelSession now else none
  | .go answer now => s.advance answer now
  | .notify =>
    if s.streaming then
      some { s.setDevice s.device.handleDeviceNotification with notified := true }
    else none
  | .samples buffer =>
    if s.streaming then some (s.setRecorder (s.recorder.onSamples buffer)) else none
  | .queue q => some { s with manager := { s.manager with queue := q } }

/-- A new session manager. -/
def init (capacity : Nat) (c : Configuration) : Capturing where
  manager :=
    { defaultLanguage := c.defaultLanguage
      transcriptionPrompt := c.transcriptionPrompt
      queue := { capacity := capacity } }

end Capturing

end YoruSpeech

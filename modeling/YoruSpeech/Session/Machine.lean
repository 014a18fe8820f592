/-
YoruSpeech.Session.Machine — the daemon's two threads over the session
domain: every interleaving of the owner loop with the transcription worker
and the audio thread.

* The OWNER runs one operation at a time (`Op`), section by section; see
  `YoruSpeech.Session.SessionManager` for the cut. The sections of `tick()`
  and the ones of `shutdown()` that touch the backend or the worker thread
  are here.
* The WORKER runs `TranscriptionQueue::run`: wait and pop under the lock,
  ring the activity callback, `transcribe`, hand the result over under the
  lock, ring again, loop. A wait with nothing to do is an action that is
  not enabled.
* The AUDIO thread appends captured buffers and may report that the device
  was lost, at any time while a device is open.

`transcribe`, `transcribe_partial`, the device and the clocks are inputs of
the actions, so a property of all runs is a property for every behaviour of
theirs. Publishing an event appends it to `log` and runs the handlers of
this domain (`SessionManager`, `LiveTranscriber`); none of the handlers
`main.cpp` subscribes calls back into an operation. The activity callback
only writes the wake-up eventfd of the IPC server, which is not part of
this state.

`History` records what happened for the statements to speak about. Nothing
reads it back.
-/
import YoruSpeech.Session.SessionManager
import YoruSpeech.Session.LiveTranscriber
import YoruSpeech.Lib.Transition

namespace YoruSpeech

/-! ## State -/

/-- A call of the speech backend that has not returned. -/
inductive BackendCall where
  | transcribe (id : SessionId)
  | transcribePartial
  deriving DecidableEq, Repr

/-- The part of the backend both threads see: the abort flag, and the calls
currently open. -/
structure SpeechBackend where
  abortRequested : Bool := false
  inside : List BackendCall := []
  deriving DecidableEq, Repr

/-- The program point of the owner thread. -/
inductive Owner where
  /-- Between two operations. -/
  | idle
  /-- Inside an operation of the session manager. -/
  | inside (f : Frame)
  /-- `tick()`: `transcription_busy()` answered no. -/
  | ticking
  /-- `tick()`: the window was cut; the second snapshot is next. -/
  | recutting (id : SessionId) (now : Int)
  /-- `tick()`: inside `transcribe_partial`. -/
  | decoding (id : SessionId) (window : List Sample)
  /-- An empty `std::optional` was dereferenced. -/
  | undefined
  deriving DecidableEq, Repr

/-- The program point of the worker thread. -/
inductive Worker where
  | waiting
  /-- A job is popped; the activity callback is next. -/
  | popped (job : TranscriptionJob)
  | transcribing (job : TranscriptionJob)
  /-- `transcribe` returned; the hand-over is next. -/
  | decoded (job : TranscriptionJob) (result : TranscriptionResult)
  /-- The result is handed over; the activity callback is next. -/
  | finished
  | exited
  deriving DecidableEq, Repr

/-- What happened so far. -/
structure History where
  /-- Ids drawn by `start_session`, in order. -/
  issued : List SessionId := []
  /-- Ids whose recording the queue accepted, in order. -/
  accepted : List SessionId := []
  /-- Ids the worker popped, in order. -/
  taken : List SessionId := []
  /-- Jobs `transcribe` was called on, in order. -/
  calls : List TranscriptionJob := []
  /-- What `transcribe` returned, in order. -/
  results : List TranscriptionJobResult := []
  /-- Ids taken out of the queue by `cancel_job` and `shutdown`. -/
  withdrawn : List SessionId := []
  /-- The ids that were waiting when `stopping_` was first set. -/
  pendingAtStop : Option (List SessionId) := none
  /-- `request_abort()` has run. -/
  abortRequested : Bool := false
  deriving DecidableEq, Repr

/-- What entering a frame adds to the history. -/
def History.note (h : History) : Frame → History
  | .enqueued id _ => { h with accepted := h.accepted ++ [id] }
  | .cancelled id => { h with withdrawn := h.withdrawn ++ [id] }
  | .stopping dropped => { h with withdrawn := h.withdrawn ++ dropped }
  | _ => h

structure Machine where
  manager : SessionManager
  live : LiveTranscriber
  backend : SpeechBackend := {}
  owner : Owner := .idle
  worker : Worker := .waiting
  log : List Event := []
  returns : List Return := []
  history : History := {}
  deriving DecidableEq, Repr

/-- The operations the owner loop calls. -/
inductive Op where
  | startSession
  | stopSession
  | pollCompleted
  | cancelSession
  | cancelJob (id : SessionId)
  | shutdown
  /-- `ConfigurationManager::update` publishing `ConfigurationChanged`. -/
  | configure (c : Configuration)
  | tick
  deriving DecidableEq, Repr

/-- What the environment answers during one owner section. -/
structure Input where
  device : DeviceStart := .ok
  now : Nat := 0
  steadyNow : Int := 0
  partialResult : TranscriptionResult := .error ⟨[]⟩
  verdict : Bool := false
  deriving DecidableEq, Repr

inductive Act where
  /-- The owner begins an operation. -/
  | call (op : Op) (inp : Input)
  /-- The owner runs the next section of the operation it is in. -/
  | own (inp : Input)
  /-- The worker's next step; `result` is what `transcribe` returns. -/
  | worker (result : TranscriptionResult)
  /-- The audio thread delivers a buffer. -/
  | capture (buffer : List Sample)
  /-- The audio thread reports that the device stopped. -/
  | lose
  deriving DecidableEq, Repr

/-- The action is a step of the owner thread. -/
def Act.byOwner : Act → Bool
  | .call _ _ => true
  | .own _ => true
  | _ => false

/-- The action begins an operation. -/
def Act.isCall : Act → Bool
  | .call _ _ => true
  | _ => false

namespace Machine

/-- `main.cpp` after construction. -/
def init (capacity : Nat) (c : Configuration) (liveConfig : LiveTranscriberConfig) : Machine where
  manager :=
    { defaultLanguage := c.defaultLanguage
      transcriptionPrompt := c.transcriptionPrompt
      queue := { capacity := capacity } }
  live :=
    { config := liveConfig
      defaultLanguage := c.defaultLanguage
      transcriptionPrompt := c.transcriptionPrompt }

/-! ## The owner -/

/-- `EventBus::publish`, for the handlers of this domain. -/
def publish (m : Machine) (e : Event) : Machine :=
  { m with
    log := m.log ++ [e]
    manager := m.manager.onEvent e
    live := m.live.onEvent e }

def publish? (m : Machine) : Option Event → Machine
  | none => m
  | some e => m.publish e

/-- The end of a section. -/
def apply (m : Machine) : Next → Machine
  | .done manager e r =>
    ({ m with manager := manager, owner := .idle, returns := m.returns ++ [r] }).publish? e
  | .more manager e f =>
    ({ m with manager := manager, owner := .inside f, history := m.history.note f }).publish? e
  | .undefined => { m with owner := .undefined }

/-- The owner returns from `tick()`. -/
def endTick (m : Machine) : Machine :=
  { m with owner := .idle, returns := m.returns ++ [.tick] }

/-- `tick()`, up to `transcription_busy()`. -/
def beginTick (m : Machine) : Machine :=
  if m.manager.reportedState ≠ .recording then m.endTick
  else if m.manager.transcriptionBusy then { m with live := m.live.pause }.endTick
  else { m with owner := .ticking }

/-- `tick()` enters `transcribe_partial`. -/
def enterPartial (m : Machine) (id : SessionId) (window : List Sample) : Machine :=
  { m with
    owner := .decoding id window
    backend := { m.backend with inside := .transcribePartial :: m.backend.inside } }

/-- `tick()`, from the session id to the first snapshot. -/
def tickWindow (m : Machine) (now : Int) : Machine :=
  match m.manager.activeSessionId with
  | none => m.endTick
  | some id =>
    let window := m.manager.recordingManager.samplesSnapshot m.live.committedSampleCount
    match m.live.chooseWindow now window with
    | .skip => m.endTick
    | .decode l => { m with live := l }.enterPartial id window
    | .cut l => { m with live := l, owner := .recutting id now }

/-- `tick()`, the second snapshot. -/
def tickRecut (m : Machine) (id : SessionId) (now : Int) : Machine :=
  let window := m.manager.recordingManager.samplesSnapshot m.live.committedSampleCount
  if window = [] then m.endTick
  else { m with live := { m.live with lastTickAt := some now } }.enterPartial id window

/-- `tick()`, from the return of `transcribe_partial`. -/
def tickDecoded (m : Machine) (id : SessionId) (window : List Sample) (inp : Input) : Machine :=
  let after := m.live.afterDecode id window.length inp.partialResult inp.verdict
  let backend :=
    { m.backend with inside := m.backend.inside.erase .transcribePartial }
  ({ m with live := after.1, backend := backend }.endTick).publish? after.2

/-- The first section of an operation. -/
def begin (m : Machine) (op : Op) (inp : Input) : Machine :=
  match op with
  | .startSession => m.apply m.manager.startSession
  | .stopSession => m.apply (m.manager.stopSession inp.now)
  | .pollCompleted => m.apply m.manager.pollCompleted
  | .cancelSession => m.apply m.manager.cancelSession
  | .cancelJob id => m.apply (m.manager.cancelJob id)
  | .shutdown =>
    let atStop := m.history.pendingAtStop <|> some m.manager.queue.pendingIds
    { m with history := { m.history with pendingAtStop := atStop } }.apply m.manager.shutdown
  | .configure c =>
    ({ m with returns := m.returns ++ [Return.configure] }).publish (.configurationChanged c)
  | .tick => m.beginTick

/-- The section of an operation that starts at a frame; `none` while
`shutdown()` waits for the worker thread. -/
def resume (m : Machine) (f : Frame) (inp : Input) : Option Machine :=
  match f with
  | .starting =>
    let issued := m.history.issued ++ [m.manager.nextSessionId]
    some ({ m with history := { m.history with issued := issued } }.apply
      (m.manager.startRecording inp.device inp.now))
  | .recorded id recording => some (m.apply (m.manager.enqueueRecording id recording inp.now))
  | .enqueued id position => some (m.apply (m.manager.announceQueued id position))
  | .discarding => some (m.apply m.manager.discardSession)
  | .cancelled id => some (m.apply (m.manager.announceCancelled id))
  | .drained results => some (m.apply (m.manager.collectStarted results))
  | .announcing starts results => some (m.apply (m.manager.announceStarted starts results))
  | .reporting results count => some (m.apply (m.manager.reportResult results count))
  | .stopping dropped =>
    -- `backend_.request_abort()`, outside the lock
    some { m with
      owner := .inside (.aborted dropped)
      backend := { m.backend with abortRequested := true }
      history := { m.history with abortRequested := true } }
  | .aborted dropped =>
    -- `if (worker_.joinable()) worker_.join()`
    let queue := m.manager.queue
    if queue.joinable then
      if m.worker = .exited then
        some { m with
          owner := .inside (.dropping dropped dropped)
          manager := { m.manager with queue := { queue with joinable := false } } }
      else none
    else some { m with owner := .inside (.dropping dropped dropped) }
  | .dropping todo dropped => some (m.apply (m.manager.reportDropped todo dropped))

/-! ## The worker -/

/-- One step of `TranscriptionQueue::run`. -/
def workerStep (m : Machine) (result : TranscriptionResult) : Option Machine :=
  match m.worker with
  | .waiting =>
    if m.manager.queue.stopping then some { m with worker := .exited }
    else
      match m.manager.queue.pop with
      | none => none
      | some (queue, job) =>
        -- `clear_abort()` runs under the same lock as the pop
        some { m with
          manager := { m.manager with queue := queue }
          backend := { m.backend with abortRequested := false }
          worker := .popped job
          history := { m.history with taken := m.history.taken ++ [job.sessionId] } }
  | .popped job =>
    some { m with
      worker := .transcribing job
      backend := { m.backend with inside := .transcribe job.sessionId :: m.backend.inside }
      history := { m.history with calls := m.history.calls ++ [job] } }
  | .transcribing job =>
    some { m with
      worker := .decoded job result
      backend := { m.backend with inside := m.backend.inside.erase (.transcribe job.sessionId) }
      history := { m.history with results := m.history.results ++ [⟨job.sessionId, result⟩] } }
  | .decoded job result =>
    some { m with
      worker := .finished
      manager := { m.manager with
        queue := m.manager.queue.finish { sessionId := job.sessionId, result := result } } }
  | .finished => some { m with worker := .waiting }
  | .exited => none

/-! ## The audio thread -/

/-- `on_samples` of an open device. -/
def captureStep (m : Machine) (buffer : List Sample) : Option Machine :=
  if m.manager.recordingManager.device.initialized then
    some { m with manager := { m.manager with
      recordingManager := m.manager.recordingManager.onSamples buffer } }
  else none

/-- A `stopped` notification of an open device. -/
def loseStep (m : Machine) : Option Machine :=
  let recorder := m.manager.recordingManager
  if recorder.device.initialized then
    some { m with manager := { m.manager with
      recordingManager := { recorder with device := recorder.device.handleDeviceNotification } } }
  else none

/-! ## Runs -/

/-- One step of the daemon. -/
def step (m : Machine) : Act → Option Machine
  | .call op inp => if m.owner = .idle then some (m.begin op inp) else none
  | .own inp =>
    match m.owner with
    | .inside f => m.resume f inp
    | .ticking => some (m.tickWindow inp.steadyNow)
    | .recutting id now => some (m.tickRecut id now)
    | .decoding id window => some (m.tickDecoded id window inp)
    | .idle => none
    | .undefined => none
  | .worker result => m.workerStep result
  | .capture buffer => m.captureStep buffer
  | .lose => m.loseStep

/-- The states of the daemon: what some run leads to from construction. -/
def Reachable (capacity : Nat) (c : Configuration) (liveConfig : LiveTranscriberConfig)
    (m : Machine) : Prop :=
  Lib.Reachable step (init capacity c liveConfig) m

end Machine

end YoruSpeech

/-
YoruSpeech.App.Main — the whole process, from the first object `main`
constructs to the last destructor.

`mainBody` is the body of `main`, statement by statement. The objects live
on a stack (`alive`): construction pushes, and once `main` returns, by
either of its two ways, the destructors run from the top. The worker and
the audio thread take their steps at any time, as long as the worker runs
and the device is open, whatever has been destroyed meanwhile.

`fault` records what must never happen: a step touched an object that is
not alive, or used or freed a whisper context that is not allocated. What
a step touches is over-approximated: the operations of the session manager
publish events, whose handlers belong to objects constructed later, and so
may reach any object.

* The activity callback refers to `ipc_service`. `notify_activity` copies
  it under the lock (`fetch`) and calls the copy outside.
* `~TranscriptionQueue` is a `shutdown()` of the queue alone: its three
  sections are in `DtorPoint`.
* `~RecordingManager` destroys the buffer and its mutex before the capture
  device, which is what closes it.
* The results of `transcribe` and `transcribe_partial` are those of
  `WhisperBackend`; only whisper.cpp's answers are inputs.
-/
import YoruSpeech.Session.Machine
import YoruSpeech.App.RunLoop
import YoruSpeech.Speech.ModelRepository
import YoruSpeech.Speech.WhisperBackend

namespace YoruSpeech

/-! ## The program -/

/-- The objects of `main`, with the two parts of the recording manager. -/
inductive Object where
  | logger
  | eventBus
  | configurationManager
  /-- `RecordingManager::device_`. -/
  | captureDevice
  /-- The recording manager, with the buffer and its mutex. -/
  | recordingManager
  | speechBackend
  | sessionManager
  | liveTranscriber
  | autoClipboard
  | ipcService
  deriving DecidableEq, Repr

inductive Statement where
  | construct (object : Object)
  | loadConfiguredModel
  /-- `ipc_service.start()`, and the return after a failure. -/
  | start
  | setActivityCallback (set : Bool)
  | loop
  | call (op : Op)
  /-- `ipc_service.stop()`. -/
  | stop
  deriving DecidableEq, Repr

def Statement.object? : Statement → Option Object
  | .construct object => some object
  | _ => none

/-- The body of `main`. Handlers of signals are left out, but for what they
do to the loop. -/
def mainBody : List Statement :=
  [.construct .logger, .construct .eventBus, .construct .configurationManager,
    .construct .captureDevice, .construct .recordingManager, .construct .speechBackend,
    .loadConfiguredModel, .construct .sessionManager, .construct .liveTranscriber,
    .construct .autoClipboard, .construct .ipcService, .start, .setActivityCallback true, .loop,
    .call .cancelSession, .call .shutdown, .setActivityCallback false, .call .pollCompleted, .stop]

/-- How far `~TranscriptionQueue` is. -/
inductive DtorPoint where
  | entered
  | stopped
  | aborted
  deriving DecidableEq, Repr

structure Program where
  machine : Machine
  whisper : Whisper := {}
  backend : WhisperBackend := {}
  /-- The statements left, the current one first. -/
  rest : List Statement := mainBody
  /-- The current statement is a call that has not returned. -/
  called : Bool := false
  /-- What `main` has returned. -/
  status : Option Nat := none
  /-- The objects constructed and not destroyed, the last one first. -/
  alive : List Object := []
  /-- The worker thread has been started. -/
  spawned : Bool := false
  /-- `on_activity_` is set. -/
  ringing : Bool := false
  /-- The worker's copy of `on_activity_`: whether it is set. -/
  fetched : Option Bool := none
  dtor : DtorPoint := .entered
  /-- The server listens. -/
  serving : Bool := false
  fault : Bool := false

/-- How the process comes up: the loaded configuration, and the models
directory. -/
structure MainStartup where
  capacity : Nat
  configuration : Configuration := {}
  liveConfig : LiveTranscriberConfig := {}
  modelsDirectory : Bytes := []
  entries : List DirectoryEntry := []

inductive MainAct where
  /-- `main` carries out its next statement; `load` and `listens` are what
  whisper.cpp and the server's start answer. -/
  | next (load : LoadAnswer) (listens : Bool)
  /-- A signal has asked to stop, and the loop ends. -/
  | leave
  /-- A step of a thread over the session domain in which no decode
  returns. -/
  | session (a : Act)
  /-- The worker copies the activity callback. -/
  | fetch
  /-- `transcribe` returns. -/
  | decoded (answer : FullAnswer)
  /-- `transcribe_partial` returns. -/
  | previewed (inp : Input) (answer : FullAnswer)
  /-- The next step of the destructors. -/
  | unwind

namespace Program

variable (s : MainStartup)

def init : Program where
  machine := Machine.init s.capacity s.configuration s.liveConfig

/-- A step touches these objects. -/
def touch (objects : List Object) (p : Program) : Program :=
  { p with fault := p.fault || objects.any fun o => !p.alive.contains o }

/-- What an operation of the session domain may reach. -/
def reached : List Object := mainBody.filterMap Statement.object?

/-- The session domain has moved on; the abort flag is the backend's. -/
def advance (p : Program) (machine : Machine) : Program :=
  { p with machine := machine
           backend := { p.backend with abortRequested := machine.backend.abortRequested } }

/-- `run_whisper_full` enters whisper.cpp, unless it fails before. -/
def enterFull (p : Program) (samples : List Sample) (request : TranscriptionRequest) : Program :=
  match p.backend.prepareFull samples request with
  | .inl _ => p
  | .inr call =>
    match p.whisper.full call with
    | some whisper => { p with whisper := whisper }
    | none => { p with fault := true }

/-- A step that begins a decode enters `run_whisper_full`. -/
def enter (p : Program) : Option (List Sample × TranscriptionRequest) → Program
  | none => p
  | some (samples, request) => p.enterFull samples request

/-- `run_whisper_full` asks whisper.cpp for the segments. -/
def leaveFull (p : Program) : Program :=
  { p with fault := p.fault || p.backend.ctx.any fun ctx => !p.whisper.live.contains ctx }

/-! ## `main` -/

/-- `load_configured_model`. The context is one whisper.cpp has not handed
out already. -/
def loadConfiguredModel (p : Program) (load : LoadAnswer) : Option Program :=
  match findModel (listAvailableModels s.modelsDirectory s.entries)
      s.configuration.selectedModel with
  | none => some p
  | some model =>
    if load.ctx.any p.whisper.live.contains then none
    else
      match p.backend.loadModel p.whisper model load with
      | none => some { p with fault := true }
      | some loaded => some { p with whisper := loaded.whisper, backend := loaded.backend }

/-- `main` carries out a statement other than the loop. -/
def carryOut (p : Program) (load : LoadAnswer) (listens : Bool) (after : List Statement) :
    Statement → Option Program
  | .construct object =>
    some { p with alive := object :: p.alive, rest := after
                  spawned := p.spawned || object == .sessionManager }
  | .loadConfiguredModel =>
    (({ p with rest := after }).touch [.logger, .eventBus, .speechBackend]).loadConfiguredModel
      s load
  | .start =>
    let p := p.touch [.ipcService]
    if listens then some { p with rest := after, serving := true } else some { p with status := some 1 }
  | .setActivityCallback set =>
    some (({ p with rest := after, ringing := set }).touch [.sessionManager])
  | .loop => none
  | .call op =>
    if p.called then
      if p.machine.owner = .idle then some { p with rest := after, called := false } else none
    else
      (p.machine.step (.call op {})).map fun machine =>
        (({ p with called := true }).advance machine).touch reached
  | .stop => some (({ p with rest := after, serving := false, status := some 0 }).touch [.ipcService])

def next (p : Program) (load : LoadAnswer) (listens : Bool) : Option Program :=
  match p.status, p.rest with
  | none, statement :: after => p.carryOut s load listens after statement
  | _, _ => none

/-- The loop ends, between two turns. -/
def leave (p : Program) : Option Program :=
  match p.status, p.rest with
  | none, .loop :: after => if p.machine.owner = .idle then some { p with rest := after } else none
  | _, _ => none

/-! ## The threads -/

/-- The loop is running. -/
def looping (p : Program) : Bool := p.rest.head? = some .loop && p.status.isNone

/-- The operations the loop calls, those of the clients among them. -/
def loopCalls (op : Op) : Bool := op.ofClient || op = .pollCompleted || op = .tick

/-- The step may happen here; steps in which a decode returns are apart. -/
def allows (p : Program) : Act → Bool
  | .call op _ => p.looping && loopCalls op
  | .own _ =>
    match p.machine.owner with
    | .decoding _ _ => false
    | _ => p.looping || p.called
  | .worker _ =>
    match p.machine.worker with
    | .transcribing _ => false
    | worker => p.spawned && (!worker.announcing || p.fetched.isSome)
  | .capture _ => true
  | .lose => true

/-- The objects a step touches. -/
def touches (p : Program) : Act → List Object
  | .call _ _ => reached
  | .own _ => reached
  | .worker _ =>
    .sessionManager :: .speechBackend :: if p.fetched = some true then [.ipcService] else []
  | .capture _ => [.captureDevice, .recordingManager]
  | .lose => [.captureDevice]

/-- The decode a step begins. -/
def entered (before after : Machine) : Option (List Sample × TranscriptionRequest) :=
  match before.worker, after.worker with
  | .popped _, .transcribing job => some (job.samples, job.request)
  | _, _ =>
    match before.owner, after.owner with
    | .decoding _ _, _ => none
    | _, .decoding _ window =>
      some (window, { language := after.live.defaultLanguage
                      initialPrompt := after.live.transcriptionPrompt })
    | _, _ => none

/-- The worker calls its copy of the callback and drops it. -/
def fetchedAfter (p : Program) : Act → Option Bool
  | .worker _ => none
  | _ => p.fetched

def session (p : Program) (a : Act) : Option Program :=
  if p.allows a then
    (p.machine.step a).map fun machine =>
      { (p.touch (p.touches a)).advance machine with fetched := p.fetchedAfter a }.enter
        (entered p.machine machine)
  else none

/-- The first half of `notify_activity`. -/
def fetch (p : Program) : Option Program :=
  if p.spawned && p.machine.worker.announcing && p.fetched.isNone then
    some (({ p with fetched := some p.ringing }).touch [.sessionManager])
  else none

def decoded (p : Program) (answer : FullAnswer) : Option Program :=
  match p.machine.worker with
  | .transcribing job =>
    (p.machine.step (.worker (p.backend.runWhisperFull job.samples job.request answer))).map
      fun machine => ((p.touch [.sessionManager, .speechBackend]).leaveFull).advance machine
  | _ => none

def previewed (p : Program) (inp : Input) (answer : FullAnswer) : Option Program :=
  match p.machine.owner with
  | .decoding _ window =>
    let request : TranscriptionRequest :=
      { language := p.machine.live.defaultLanguage
        initialPrompt := p.machine.live.transcriptionPrompt }
    let result := p.backend.runWhisperFull window request answer
    (p.machine.step (.own { inp with partialResult := result })).map
      fun machine => ((p.touch reached).leaveFull).advance machine
  | _ => none

/-! ## The destructors -/

/-- The object on top is gone. -/
def drop (p : Program) : Program := { p with alive := p.alive.tail }

/-- `~TranscriptionQueue`, section by section. -/
def destroyQueue (p : Program) : Option Program :=
  let m := p.machine
  match p.dtor with
  | .entered =>
    some { p with
      dtor := .stopped
      machine := { m with manager := { m.manager with queue := m.manager.queue.stop.1 } } }
  | .stopped =>
    some (({ p with dtor := .aborted }.advance
      { m with backend := { m.backend with abortRequested := true } }).touch [.speechBackend])
  | .aborted =>
    if m.manager.queue.joinable then
      if m.worker = .exited then
        some { p with machine := { m with
          manager := { m.manager with queue := { m.manager.queue with joinable := false } } } }.drop
      else none
    else some p.drop

/-- `~CaptureDevice`. -/
def closeDevice (p : Program) : Program :=
  let recorder := p.machine.manager.recordingManager
  { p with machine := { p.machine with manager := { p.machine.manager with
      recordingManager := { recorder with device := recorder.device.stop } } } }

/-- The next section of a destructor. -/
def destroy (p : Program) : Object → Option Program
  | .ipcService => some { p with serving := false }.drop
  | .sessionManager => p.destroyQueue
  | .speechBackend =>
    match p.backend.unloadModel p.whisper with
    | none => some { p with fault := true }.drop
    | some (whisper, backend) => some { p with whisper := whisper, backend := backend }.drop
  | .captureDevice => some p.closeDevice.drop
  | _ => some p.drop

def unwind (p : Program) : Option Program :=
  match p.status, p.alive with
  | some _, top :: _ => p.destroy top
  | _, _ => none

/-- One step of the process. -/
def step (p : Program) : MainAct → Option Program
  | .next load listens => p.next s load listens
  | .leave => p.leave
  | .session a => p.session a
  | .fetch => p.fetch
  | .decoded answer => p.decoded answer
  | .previewed inp answer => p.previewed inp answer
  | .unwind => p.unwind

/-- The states of the process. -/
def Reachable (p : Program) : Prop := Lib.Reachable (step s) (init s) p

end Program

end YoruSpeech

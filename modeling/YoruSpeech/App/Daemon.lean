/-
YoruSpeech.App.Daemon — the daemon as `main.cpp` wires it.

`Hub` is what the event bus reaches beyond the session domain: the loggers
of `main.cpp` (which record every event), `AutoClipboard` and
`EventBridge`, subscribed in that order. `Machine.publish` has already run
the handlers of `SessionManager` and `LiveTranscriber`, which `main.cpp`
constructs between the loggers and `AutoClipboard`.

`Daemon` adds the request path: `IpcService` routes each line to a
subscription change or to the `CommandDispatcher` and sends the response.
A line is handled in one step; what other threads do meanwhile is part of
its `LineEnv`. Every other step is one of the session machine; the
operations it may begin are those the run loop calls by itself.

`sent` lists the `send_line` calls in order. An exception that leaves a
handler or the dispatcher is caught nowhere and ends the process.
-/
import YoruSpeech.Clipboard.AutoClipboard
import YoruSpeech.Core.EventBus
import YoruSpeech.Ipc.CommandDispatcher
import YoruSpeech.Ipc.IpcServer

namespace YoruSpeech

/-! ## The subscribers -/

structure Hub where
  clipboard : AutoClipboard
  /-- `EventBridge::subscribed_clients_`. -/
  subscribedClients : List ClientId := []
  /-- The lines passed to `send_line`, with their client. -/
  sent : List (ClientId × Bytes) := []
  /-- The events published on the bus. -/
  published : List Event := []
  deriving DecidableEq, Repr

/-- The kinds of event `AutoClipboard` subscribes to. -/
def Event.isCompleted : Event → Bool
  | .transcriptionCompleted _ _ => true
  | _ => false

def Event.isConfigured : Event → Bool
  | .configurationChanged _ => true
  | _ => false

namespace Hub

/-- `EventBridge::subscribe`. -/
def subscribe (h : Hub) (fd : ClientId) : Hub :=
  if fd ∈ h.subscribedClients then h
  else { h with subscribedClients := h.subscribedClients ++ [fd] }

/-- `EventBridge::unsubscribe`. -/
def unsubscribe (h : Hub) (fd : ClientId) : Hub :=
  { h with subscribedClients := h.subscribedClients.filter (· ≠ fd) }

/-- `EventBridge::broadcast`. Nothing is encoded while nobody listens. -/
def broadcast (json : JsonLib) (h : Hub) (e : Event) : Except Hub Hub :=
  if h.subscribedClients = [] then .ok h
  else
    match encodeEvent json e with
    | none => .error h
    | some line => .ok { h with sent := h.sent ++ h.subscribedClients.map (·, line) }

/-- The loggers. -/
def logger : Subscription Hub Event where
  accepts _ := true
  handler _ h e := .ok { h with published := h.published ++ [e] }

/-- `AutoClipboard`'s first subscription; `copy` is how the copy ends. -/
def copyTranscript (lib : Libraries) (copy : Option CopyFailure) : Subscription Hub Event where
  accepts := Event.isCompleted
  handler publish h e :=
    match e with
    | .transcriptionCompleted id _ =>
      match h.clipboard.onCompleted lib.config.strerror copy id with
      | some failure => publish h failure
      | none => .ok h
    | _ => .ok h

/-- `AutoClipboard`'s second subscription. -/
def trackConfiguration : Subscription Hub Event where
  accepts := Event.isConfigured
  handler _ h e :=
    match e with
    | .configurationChanged c => .ok { h with clipboard := h.clipboard.onConfigured c }
    | _ => .ok h

/-- `EventBridge`'s subscriptions, one for every event type. -/
def bridge (lib : Libraries) : Subscription Hub Event where
  accepts _ := true
  handler _ h e := h.broadcast lib.json e

/-- The subscriptions, in the order `main.cpp` makes them. -/
def subscriptions (lib : Libraries) (copy : Option CopyFailure) :
    List (Subscription Hub Event) :=
  [logger, copyTranscript lib copy, trackConfiguration, bridge lib]

/-- `publish` on the daemon's bus. No handler of a nested event publishes,
so two levels are all there are. -/
def publish (lib : Libraries) (copy : Option CopyFailure) (h : Hub) (e : Event) : Except Hub Hub :=
  YoruSpeech.publish (subscriptions lib copy) 2 h e

/-- Publications in a row, up to the first that throws. -/
def publishAll (lib : Libraries) (copy : Option CopyFailure) : List Event → Hub → Except Hub Hub
  | [], h => .ok h
  | e :: rest, h => h.publish lib copy e >>= publishAll lib copy rest

end Hub

/-! ## The daemon -/

structure Daemon where
  dispatcher : CommandDispatcher
  hub : Hub
  /-- An exception has ended the process. -/
  terminated : Bool := false

/-- How the daemon comes up. -/
structure Startup where
  configPath : Bytes := []
  pid : Nat := 0
  files : Files := fun _ => none
  load : LoadInput := {}
  capacity : Nat
  liveConfig : LiveTranscriberConfig := {}
  modelsDirectory : Bytes := []
  /-- The models directory at startup, and whether the backend can load the
  configured model from it. -/
  entries : List DirectoryEntry := []
  modelLoads : Bool := true

inductive DaemonAct where
  /-- A step of the session machine; `copy` is how a copy made in it
  ends. -/
  | session (a : Act) (copy : Option CopyFailure)
  /-- A client's line is handled. -/
  | line (fd : ClientId) (line : Bytes) (env : LineEnv)
  /-- `on_disconnect`. -/
  | disconnect (fd : ClientId)

/-- The operations the run loop of `main.cpp` calls, and those of its
end. -/
def Op.ofLoop : Op → Bool
  | .pollCompleted => true
  | .tick => true
  | .cancelSession => true
  | .shutdown => true
  | _ => false

/-- A step the run loop or another thread takes by itself. -/
def Act.ofLoop : Act → Bool
  | .call op _ => op.ofLoop
  | _ => true

namespace Daemon

def machine (d : Daemon) : Machine := d.dispatcher.machine

/-- The configuration manager after `load()`. -/
def loaded (lib : Libraries) (s : Startup) : ConfigurationManager :=
  (ConfigurationManager.load lib.config
    { configPath := s.configPath, pid := s.pid, files := s.files } s.load).1

/-- `load_configured_model`: what it publishes. -/
def loadConfiguredModel (lib : Libraries) (s : Startup) : List Event :=
  match findModel (listAvailableModels s.modelsDirectory s.entries)
      (loaded lib s).configuration.selectedModel with
  | some model => if s.modelLoads then [.modelLoaded model] else []
  | none => []

/-- `main.cpp` up to the run loop. -/
def init (lib : Libraries) (s : Startup) : Daemon where
  dispatcher :=
    { machine := Machine.init s.capacity (loaded lib s).configuration s.liveConfig
      configurationManager := loaded lib s
      modelsDirectory := s.modelsDirectory }
  hub :=
    { clipboard := { enabled := (loaded lib s).configuration.autoClipboard }
      published := loadConfiguredModel lib s }

/-- The events the managers published on the way to a new state. -/
def newEvents (d : Daemon) (machine : Machine) : List Event :=
  machine.log.drop d.machine.log.length

/-- A step of the session machine, with the handlers of what it
published. -/
def advance (lib : Libraries) (d : Daemon) (copy : Option CopyFailure) (machine : Machine) :
    Daemon :=
  let dispatcher := { d.dispatcher with machine := machine }
  match Hub.publishAll lib copy (d.newEvents machine) d.hub with
  | .ok h => { dispatcher := dispatcher, hub := h }
  | .error h => { dispatcher := dispatcher, hub := h, terminated := true }

/-- `CommandDispatcher::handle_line`, with the handlers of what it
published. -/
def handleLine (lib : Libraries) (d : Daemon) (line : Bytes) (env : LineEnv) : Daemon × Reply :=
  let (dispatcher, reply) := d.dispatcher.handleLine lib line env
  match Hub.publishAll lib none (d.newEvents dispatcher.machine) d.hub with
  | .ok h => ({ dispatcher := dispatcher, hub := h }, reply)
  | .error h => ({ dispatcher := dispatcher, hub := h }, .threw)

/-- `send_line` of a response, unless there is none. -/
def respond (d : Daemon) (fd : ClientId) : Reply → Daemon
  | .line bytes => { d with hub := { d.hub with sent := d.hub.sent ++ [(fd, bytes)] } }
  | _ => { d with terminated := true }

/-- The `on_line` callback of `IpcService::poll_once`. -/
def onLine (lib : Libraries) (d : Daemon) (fd : ClientId) (line : Bytes) (env : LineEnv) :
    Daemon :=
  let type := (parseMessage lib.json line).type
  if type = some (str "subscribe_events") then
    { d with hub := d.hub.subscribe fd }.respond fd
      (.ofDump (encodeAck lib.json (str "subscribe_events")))
  else if type = some (str "unsubscribe_events") then
    { d with hub := d.hub.unsubscribe fd }.respond fd
      (.ofDump (encodeAck lib.json (str "unsubscribe_events")))
  else
    let (d, reply) := d.handleLine lib line env
    d.respond fd reply

/-- One step of the daemon. -/
def step (lib : Libraries) (d : Daemon) : DaemonAct → Option Daemon
  | .session a copy =>
    if d.terminated = false ∧ a.ofLoop = true then (d.machine.step a).map (d.advance lib copy)
    else none
  | .line fd line env =>
    if d.terminated = false ∧ d.machine.owner = .idle then some (d.onLine lib fd line env)
    else none
  | .disconnect fd =>
    if d.terminated = false ∧ d.machine.owner = .idle then
      some { d with hub := d.hub.unsubscribe fd }
    else none

/-- The states of the daemon: what some run leads to from its startup. -/
def Reachable (lib : Libraries) (s : Startup) (d : Daemon) : Prop :=
  Lib.Reachable (step lib) (init lib s) d

end Daemon

end YoruSpeech

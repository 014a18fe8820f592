/-
YoruSpeech.Ipc.CommandDispatcher — from a request line to its response
(`domains/ipc/command_dispatcher.cpp`).

The dispatcher calls operations of the session manager, which other
threads can see half done. `Machine.perform` runs one operation from its
call to its return: between two of its sections any steps of the worker
and of the audio thread happen (`LineEnv.between`), so every execution of
the call in the daemon is one of these. The operations a command calls
have at most three sections.

`Reply.threw` is an exception leaving `handle_line`: `dump()` on a string
that is not UTF-8.
-/
import YoruSpeech.Config.ConfigurationManager
import YoruSpeech.Ipc.MessageCodec
import YoruSpeech.Session.Machine
import YoruSpeech.Speech.ModelRepository

namespace YoruSpeech

/-- The libraries the daemon is linked with. -/
structure Libraries where
  json : JsonLib
  config : ConfigLib

/-- What the environment answers while one line is handled. -/
structure LineEnv where
  /-- Device and clocks, section by section. -/
  inputs : Nat → Input := fun _ => {}
  /-- What the other threads do before each section. -/
  between : Nat → List Act := fun _ => []
  /-- How the write of the configuration file ends. -/
  write : WriteOutcome := .done
  /-- The models directory. -/
  entries : List DirectoryEntry := []

namespace Machine

/-- Steps of the other threads; one that is not enabled does not happen. -/
def meanwhile (m : Machine) (acts : List Act) : Machine :=
  acts.foldl (fun m a => if a.byOwner then m else (m.step a).getD m) m

/-- Run the owner to the end of its operation, from section `k` on. -/
def complete (env : LineEnv) : Nat → Nat → Machine → Machine
  | 0, _, m => m
  | fuel + 1, k, m =>
    let m := m.meanwhile (env.between k)
    match m.owner with
    | .inside f =>
      match m.resume f (env.inputs k) with
      | some m => complete env fuel (k + 1) m
      | none => m
    | _ => m

/-- Call an operation and run it to its end: the state afterwards, and what
it returned. -/
def perform (m : Machine) (op : Op) (env : LineEnv) : Machine × Option Return :=
  let m' := (m.begin op (env.inputs 0)).complete env 3 1
  (m', (m'.returns.drop m.returns.length).head?)

end Machine

/-- How `handle_line` ends. -/
inductive Reply where
  /-- It returns this response. -/
  | line (bytes : Bytes)
  /-- An exception leaves it. -/
  | threw
  /-- The operation it called did not come back with a result. -/
  | undefined
  deriving DecidableEq, Repr

/-- The end of an encoder. -/
def Reply.ofDump : Option Bytes → Reply
  | some bytes => .line bytes
  | none => .threw

/-- The return carries an error, so that the response says `ok: false`. -/
def Return.refuses : Return → Bool
  | .startSession (some _) => true
  | .stopSession (.error _) => true
  | .cancelSession (some _) => true
  | .cancelJob _ false => true
  | _ => false

/-- `CommandDispatcher`, with the managers it refers to. -/
structure CommandDispatcher where
  machine : Machine
  configurationManager : ConfigurationManager
  modelsDirectory : Bytes

namespace CommandDispatcher

/-- Call an operation of the session manager and encode what it returns. -/
def call (s : CommandDispatcher) (op : Op) (env : LineEnv) (respond : Return → Option Bytes) :
    CommandDispatcher × Reply :=
  match s.machine.perform op env with
  | (machine, some r) => ({ s with machine := machine }, .ofDump (respond r))
  | (machine, none) => ({ s with machine := machine }, .undefined)

/-- The response to `start_recording`. -/
def respondStart (json : JsonLib) (type : Bytes) : Return → Option Bytes
  | .startSession (some e) => encodeError json type e.message
  | .startSession none => encodeAck json type
  | _ => none

/-- The response to `stop_recording`. -/
def respondStop (json : JsonLib) (type : Bytes) : Return → Option Bytes
  | .stopSession (.error e) => encodeError json type e.message
  | .stopSession (.queuedJob id position) => encodeQueued json type id position
  | _ => none

/-- The response to `cancel_job`. -/
def respondCancelJob (json : JsonLib) (type : Bytes) : Return → Option Bytes
  | .cancelJob _ true => encodeAck json type
  | .cancelJob _ false => encodeError json type (str "no queued job with that session_id")
  | _ => none

/-- The response to `cancel_session`. -/
def respondCancelSession (json : JsonLib) (type : Bytes) : Return → Option Bytes
  | .cancelSession (some e) => encodeError json type e.message
  | .cancelSession none => encodeAck json type
  | _ => none

/-- The error text of a rejected configuration. -/
def rejectionText (errors : List ValidationError) : Bytes :=
  str "invalid configuration:" ++
    errors.zipIdx.flatMap fun (e, i) =>
      (if i = 0 then str " " else str ", ") ++ e.field ++ str ": " ++ e.message

/-- `set_config`. `update` publishes `ConfigurationChanged` when it accepts
the configuration. -/
def setConfig (lib : Libraries) (s : CommandDispatcher) (type line : Bytes) (env : LineEnv) :
    CommandDispatcher × Reply :=
  let decoded := decodeSetConfig lib.json line s.configurationManager.configuration
  match decoded.error with
  | some e => (s, .ofDump (encodeError lib.json type e))
  | none =>
    let (manager, errors) :=
      s.configurationManager.update lib.config decoded.configuration env.write
    let s := { s with configurationManager := manager }
    match errors with
    | [] =>
      let machine := (s.machine.perform (.configure manager.configuration) env).1
      ({ s with machine := machine }, .ofDump (encodeConfig lib.json type manager.configuration))
    | errors => (s, .ofDump (encodeError lib.json type (rejectionText errors)))

/-- `handle_line`. -/
def handleLine (lib : Libraries) (s : CommandDispatcher) (line : Bytes) (env : LineEnv) :
    CommandDispatcher × Reply :=
  let message := parseMessage lib.json line
  match message.type with
  | none =>
    (s, .ofDump (encodeError lib.json (str "error")
      (message.error.getD (str "malformed message"))))
  | some type =>
    if type = str "start_recording" then
      s.call .startSession env (respondStart lib.json type)
    else if type = str "stop_recording" then
      s.call .stopSession env (respondStop lib.json type)
    else if type = str "cancel_job" then
      match decodeCancelJob lib.json line with
      | none =>
        (s, .ofDump (encodeError lib.json type (str "session_id must be a non-negative integer")))
      | some id => s.call (.cancelJob id) env (respondCancelJob lib.json type)
    else if type = str "cancel_session" then
      s.call .cancelSession env (respondCancelSession lib.json type)
    else if type = str "get_state" then
      (s, .ofDump (encodeState lib.json type s.machine.manager.status))
    else if type = str "get_config" then
      (s, .ofDump (encodeConfig lib.json type s.configurationManager.configuration))
    else if type = str "set_config" then s.setConfig lib type line env
    else if type = str "list_models" then
      (s, .ofDump (encodeModels lib.json type (listAvailableModels s.modelsDirectory env.entries)))
    else (s, .ofDump (encodeError lib.json type (str "unknown command: " ++ type)))

end CommandDispatcher

end YoruSpeech

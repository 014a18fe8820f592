/-
YoruSpeech.Ipc.MessageCodec — the messages of the JSON Lines protocol
(`domains/ipc/message_codec.cpp`).

nlohmann::json is a parameter, `JsonLib`: `parse` is `json::parse` with
exceptions off, `none` for a discarded value, and `dump` is `dump()`,
`none` when it throws. `JsonLib.Lawful` states what the code relies on, as
the library documents it:

* a parsed value holds well-formed UTF-8 only;
* `dump()` throws exactly on a value with a string that is not;
* its text is one line, and parses back to the value.

`compactJson` is a library of that kind, over the text of
`YoruSpeech.Lib.JsonText`.

An encoder of the source returns a `std::string` or throws out of `dump()`;
here it returns `none` in the second case.
-/
import YoruSpeech.Core.Event
import YoruSpeech.Lib.JsonText
import YoruSpeech.Session.SessionManager

namespace YoruSpeech

open Lib (Json validUtf8)

/-- The part of nlohmann::json the protocol layer uses. -/
structure JsonLib where
  parse : Bytes → Option Json
  dump : Json → Option Bytes

/-- What the library documents about it. Numbers are unbounded here and have
64 bits in the library; the daemon prints none but session ids, counts and
durations, which have 64 bits in the source too, so that the two agree on
what is printed as long as an id has not come to the end of its range. -/
structure JsonLib.Lawful (lib : JsonLib) : Prop where
  utf8_of_parse : ∀ line v, lib.parse line = some v → v.utf8 = true
  dump_isSome : ∀ v, (lib.dump v).isSome = v.utf8
  one_line : ∀ v line, lib.dump v = some line → (10 : UInt8) ∉ line
  parse_dump : ∀ v line, v.Canonical → lib.dump v = some line → lib.parse line = some v

/-- The library over the compact text. -/
def compactJson : JsonLib where
  parse input := (Json.read input).filter Json.utf8
  dump v := if v.utf8 then some v.render else none

theorem compactJson_lawful : compactJson.Lawful where
  utf8_of_parse line v h := by
    simp only [compactJson, Option.filter_eq_some_iff] at h
    exact h.2
  dump_isSome v := by
    simp only [compactJson]
    cases hv : v.utf8 <;> simp
  one_line v line h := by
    simp only [compactJson, Option.ite_none_right_eq_some, Option.some.injEq] at h
    obtain ⟨-, rfl⟩ := h
    exact Json.newline_not_mem_render v
  parse_dump v line hc h := by
    simp only [compactJson, Option.ite_none_right_eq_some, Option.some.injEq] at h
    obtain ⟨hv, rfl⟩ := h
    simp [compactJson, Json.read_render hc, hv]

/-! ## Names of the enumerations -/

/-- `to_string(speech::ModelSize)`. -/
def ModelSize.name : ModelSize → Bytes
  | .tiny => str "tiny"
  | .base => str "base"
  | .small => str "small"
  | .medium => str "medium"
  | .large => str "large"

/-- `to_string(session::ServiceState)`. -/
def ServiceState.name : ServiceState → Bytes
  | .idle => str "idle"
  | .recording => str "recording"
  | .processing => str "processing"
  | .error => str "error"

/-! ## Requests -/

/-- `ipc::ParsedMessage`. -/
structure ParsedMessage where
  type : Option Bytes
  error : Option Bytes
  deriving DecidableEq, Repr

/-- `parse_message`. -/
def parseMessage (lib : JsonLib) (line : Bytes) : ParsedMessage :=
  match (lib.parse line).bind (Json.get? (str "type")) with
  | some (.str type) => { type := some type, error := none }
  | _ =>
    { type := none
      error := some (str "message must be a JSON object with a string \"type\" field") }

/-- `decode_cancel_job`. -/
def decodeCancelJob (lib : JsonLib) (line : Bytes) : Option SessionId :=
  match (lib.parse line).bind (Json.get? (str "session_id")) with
  | some (.unsigned n) => some n
  | _ => none

/-- `ipc::DecodedSetConfig`. -/
structure DecodedSetConfig where
  configuration : Configuration
  error : Option Bytes
  deriving DecidableEq, Repr

/-- One optional field of a `set_config` request: the value it sets, if it
is present, or the complaint that it is not of the kind `what`. -/
def optionalField {α : Type} (parsed : Json) (name what : String) (accept : Json → Option α) :
    Except Bytes (Option α) :=
  match parsed.get? (str name) with
  | none => .ok none
  | some v =>
    match accept v with
    | some a => .ok (some a)
    | none => .error (str (name ++ " must be " ++ what))

def acceptString : Json → Option Bytes
  | .str s => some s
  | _ => none

def acceptBoolean : Json → Option Bool
  | .bool b => some b
  | _ => none

/-- `model_load_policy`, whose string must also be one of the two names. -/
def policyField (parsed : Json) : Except Bytes (Option ModelLoadPolicy) :=
  match optionalField parsed "model_load_policy" "a string" acceptString with
  | .ok (some name) =>
    match parseModelLoadPolicy name with
    | some policy => .ok (some policy)
    | none => .error (str "model_load_policy must be \"on_demand\" or \"always_loaded\"")
  | .ok none => .ok none
  | .error e => .error e

/-- The fields of a `set_config` request, merged onto `base` in the order
of the source; the first complaint ends it. -/
def mergeFields (parsed : Json) (base : Configuration) : Except Bytes Configuration := do
  let language ← optionalField parsed "default_language" "a string" acceptString
  let model ← optionalField parsed "selected_model" "a string" acceptString
  let clipboard ← optionalField parsed "auto_clipboard" "a boolean" acceptBoolean
  let policy ← policyField parsed
  let prompt ← optionalField parsed "transcription_prompt" "a string" acceptString
  return {
    defaultLanguage := language.getD base.defaultLanguage
    selectedModel := model.getD base.selectedModel
    autoClipboard := clipboard.getD base.autoClipboard
    modelLoadPolicy := policy.getD base.modelLoadPolicy
    transcriptionPrompt := prompt.getD base.transcriptionPrompt }

/-- `decode_set_config`. -/
def decodeSetConfig (lib : JsonLib) (line : Bytes) (base : Configuration) : DecodedSetConfig :=
  match lib.parse line with
  | some (.obj fields) =>
    match mergeFields (.obj fields) base with
    | .ok configuration => { configuration := configuration, error := none }
    | .error e => { configuration := base, error := some e }
  | _ => { configuration := base, error := some (str "message must be a JSON object") }

/-! ## Responses -/

/-- One assignment of an object under construction. -/
def field (key : String) (value : Json) : Bytes × Json := (str key, value)

/-- The head of every response. -/
def responseFields (type : Bytes) (ok : Bool) : List (Bytes × Json) :=
  [field "type" (.str type), field "ok" (.bool ok)]

/-- `encode_ack`. -/
def encodeAck (lib : JsonLib) (type : Bytes) : Option Bytes :=
  lib.dump (.object (responseFields type true))

/-- `encode_error`. -/
def encodeError (lib : JsonLib) (type error : Bytes) : Option Bytes :=
  lib.dump (.object (responseFields type false ++ [field "error" (.str error)]))

/-- `encode_queued`. -/
def encodeQueued (lib : JsonLib) (type : Bytes) (id : SessionId) (position : Nat) :
    Option Bytes :=
  lib.dump (.object (responseFields type true ++
    [field "session_id" (.unsigned id), field "position" (.unsigned position)]))

/-- A field that is left out while there is nothing to report. -/
def optionalId (key : String) (id : Option SessionId) : List (Bytes × Json) :=
  (id.map fun id => field key (.unsigned id)).toList

/-- `encode_state`. -/
def encodeState (lib : JsonLib) (type : Bytes) (status : SessionStatus) : Option Bytes :=
  lib.dump (.object (responseFields type true ++
    [field "state" (.str status.state.name),
      field "queued" (.unsigned status.queued),
      field "processing" (.bool status.processing)] ++
    optionalId "last_completed" status.lastCompleted ++
    optionalId "last_failed" status.lastFailed))

/-- The five fields of a configuration. -/
def configurationFields (c : Configuration) : List (Bytes × Json) :=
  [field "default_language" (.str c.defaultLanguage),
    field "selected_model" (.str c.selectedModel),
    field "auto_clipboard" (.bool c.autoClipboard),
    field "model_load_policy" (.str c.modelLoadPolicy.name),
    field "transcription_prompt" (.str c.transcriptionPrompt)]

/-- `encode_config`. -/
def encodeConfig (lib : JsonLib) (type : Bytes) (c : Configuration) : Option Bytes :=
  lib.dump (.object (responseFields type true ++ configurationFields c))

/-- The five fields of a model. -/
def modelFields (model : Model) : List (Bytes × Json) :=
  [field "name" (.str model.name),
    field "size" (.str model.size.name),
    field "supported_language" (.str model.supportedLanguage),
    field "path" (.str model.path),
    field "backend" (.str model.backend)]

/-- `encode_models`. -/
def encodeModels (lib : JsonLib) (type : Bytes) (models : List Model) : Option Bytes :=
  lib.dump (.object (responseFields type true ++
    [field "models" (.arr (models.map fun model => .object (modelFields model)))]))

/-! ## Events -/

/-- The name each overload of `encode_event` passes to `event_envelope`. -/
def Event.name : Event → String
  | .recordingStarted _ => "recording_started"
  | .recordingFinished _ _ => "recording_finished"
  | .transcriptionStarted _ => "transcription_started"
  | .transcriptionCompleted _ _ => "transcription_completed"
  | .transcriptionQueued _ _ => "transcription_queued"
  | .transcriptionPartial _ _ _ => "transcription_partial"
  | .modelLoaded _ => "model_loaded"
  | .configurationChanged _ => "configuration_changed"
  | .errorOccurred _ _ _ => "error_occurred"
  | .sessionCancelled _ => "session_cancelled"

/-- The fields each overload adds to the envelope. -/
def eventFields : Event → List (Bytes × Json)
  | .recordingStarted id => [field "session_id" (.unsigned id)]
  | .recordingFinished id recording =>
    [field "session_id" (.unsigned id),
      field "duration_ms" (.unsigned recording.duration),
      field "sample_rate" (.unsigned recording.sampleRate),
      field "channels" (.unsigned recording.channels)]
  | .transcriptionStarted id => [field "session_id" (.unsigned id)]
  | .transcriptionCompleted id transcript =>
    [field "session_id" (.unsigned id),
      field "text" (.str transcript.text),
      field "detected_language" (.str transcript.detectedLanguage),
      field "requested_language" (.str transcript.requestedLanguage),
      field "audio_duration_ms" (.unsigned transcript.audioDuration),
      field "processing_time_ms" (.unsigned transcript.processingTime)]
  | .transcriptionQueued id position =>
    [field "session_id" (.unsigned id), field "position" (.unsigned position)]
  | .transcriptionPartial id committedText tailText =>
    [field "session_id" (.unsigned id),
      field "committed_text" (.str committedText),
      field "tail_text" (.str tailText)]
  | .modelLoaded model => modelFields model
  | .configurationChanged c => configurationFields c
  | .errorOccurred id component message =>
    optionalId "session_id" id ++
      [field "component" (.str component.name), field "message" (.str message)]
  | .sessionCancelled id => [field "session_id" (.unsigned id)]

/-- `event_envelope`. -/
def eventEnvelope (name : String) : List (Bytes × Json) :=
  [field "type" (.str (str "event")), field "event" (.str (str name))]

/-- The message an event is pushed as. -/
def eventMessage (e : Event) : Json := .object (eventEnvelope e.name ++ eventFields e)

/-- The ten overloads of `encode_event`. -/
def encodeEvent (lib : JsonLib) (e : Event) : Option Bytes := lib.dump (eventMessage e)

end YoruSpeech

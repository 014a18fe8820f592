/-
YoruSpeech.Ipc.MessageCodecTheorems — when an encoder returns, and what
its line says.

* `dump_object`: a message with distinct keys is encoded exactly when its
  strings are well-formed UTF-8.
* `isResponse_of_dump`: an encoded response is one line that parses to an
  object with the request's type and a Boolean `ok`.
* `encodeEvent_isSome`: an event is encoded exactly when its texts are
  well-formed UTF-8.
-/
import YoruSpeech.Ipc.MessageCodec

namespace YoruSpeech

open Lib (Json validUtf8)

/-! ## Objects -/

theorem dump_object {json : JsonLib} (h : json.Lawful) {assignments : List (Bytes × Json)}
    (hkeys : (assignments.map Prod.fst).Nodup) :
    (json.dump (.object assignments)).isSome =
      assignments.all fun a => validUtf8 a.1 && a.2.utf8 := by
  rw [h.dump_isSome, Json.utf8_object hkeys]

/-- The line is one object that answers a request of this type. -/
structure IsResponse (json : JsonLib) (type : Bytes) (line : Bytes) : Prop where
  one_line : (10 : UInt8) ∉ line
  content : ∃ v, v.Canonical ∧ json.dump v = some line ∧ json.parse line = some v ∧
    v.isObject = true ∧ v.get? (str "type") = some (.str type) ∧
    ∃ ok, v.get? (str "ok") = some (.bool ok)

/-- Fields that can follow the head of a response. -/
structure ResponseBody (fields : List (Bytes × Json)) : Prop where
  keys : (str "type" :: str "ok" :: fields.map Prod.fst).Nodup
  canonical : ∀ f ∈ fields, f.2.Canonical

section Bodies

variable {json : JsonLib} {type line : Bytes} {ok : Bool} {fields : List (Bytes × Json)}

theorem ResponseBody.canonical_object (hbody : ResponseBody fields) (type : Bytes) (ok : Bool) :
    (Json.object (responseFields type ok ++ fields)).Canonical := by
  refine Json.canonical_object hbody.keys ?_
  intro a ha
  rcases List.mem_append.mp ha with ha | ha
  · simp only [responseFields, field, List.mem_cons, List.not_mem_nil, or_false] at ha
    rcases ha with rfl | rfl
    · trivial
    · trivial
  · exact hbody.canonical a ha

/-- An encoded response parses back to what was encoded. -/
theorem ResponseBody.parse (h : json.Lawful) (hbody : ResponseBody fields)
    (hdump : json.dump (.object (responseFields type ok ++ fields)) = some line) :
    json.parse line = some (.object (responseFields type ok ++ fields)) :=
  h.parse_dump _ _ (hbody.canonical_object type ok) hdump

theorem ResponseBody.get_ok (hbody : ResponseBody fields) (type : Bytes) (ok : Bool) :
    (Json.object (responseFields type ok ++ fields)).get? (str "ok") = some (.bool ok) :=
  Json.get?_object hbody.keys (by simp [responseFields, field])

theorem isResponse_of_dump (h : json.Lawful) (hbody : ResponseBody fields)
    (hdump : json.dump (.object (responseFields type ok ++ fields)) = some line) :
    IsResponse json type line := by
  refine ⟨h.one_line _ _ hdump, _, hbody.canonical_object type ok, hdump, hbody.parse h hdump, rfl,
    ?_, ok, hbody.get_ok type ok⟩
  exact Json.get?_object hbody.keys (by simp [responseFields, field])

/-- A response whose type and remaining fields are well-formed is encoded,
as a response. -/
theorem exists_response (h : json.Lawful) (htype : validUtf8 type = true)
    (hbody : ResponseBody fields)
    (hutf8 : (fields.all fun f => validUtf8 f.1 && f.2.utf8) = true) :
    ∃ line, json.dump (.object (responseFields type ok ++ fields)) = some line ∧
      IsResponse json type line := by
  have hkeys : ((responseFields type ok ++ fields).map Prod.fst).Nodup := hbody.keys
  have hsome : (json.dump (.object (responseFields type ok ++ fields))).isSome = true := by
    rw [dump_object h hkeys, List.all_append, hutf8, Bool.and_true]
    have hnames : validUtf8 (str "type") = true ∧ validUtf8 (str "ok") = true := by decide
    simp [responseFields, field, Json.utf8, htype, hnames]
  obtain ⟨line, hline⟩ := Option.isSome_iff_exists.mp hsome
  exact ⟨line, hline, isResponse_of_dump h hbody hline⟩

end Bodies

/-! ## Responses -/

section Responses

variable {json : JsonLib} {type : Bytes}

theorem ackBody : ResponseBody [] where
  keys := by decide
  canonical := by simp

theorem encodeAck_response (h : json.Lawful) (htype : validUtf8 type = true) :
    ∃ line, encodeAck json type = some line ∧ IsResponse json type line := by
  have hack : ∃ line, json.dump (.object (responseFields type true ++ [])) = some line ∧
      IsResponse json type line := exists_response h htype ackBody (by simp)
  rwa [List.append_nil] at hack

theorem encodeError_response (h : json.Lawful) {error : Bytes} (htype : validUtf8 type = true)
    (herror : validUtf8 error = true) :
    ∃ line, encodeError json type error = some line ∧ IsResponse json type line := by
  refine exists_response h htype ⟨?_, ?_⟩ ?_
  · show [str "type", str "ok", str "error"].Nodup
    decide
  · simp [field, Json.Canonical]
  · have hname : validUtf8 (str "error") = true := by decide
    simp [field, Json.utf8, herror, hname]

theorem queuedBody (id : SessionId) (position : Nat) :
    ResponseBody [field "session_id" (.unsigned id), field "position" (.unsigned position)] where
  keys := by
    show [str "type", str "ok", str "session_id", str "position"].Nodup
    decide
  canonical := by simp [field, Json.Canonical]

theorem encodeQueued_response (h : json.Lawful) (id : SessionId) (position : Nat)
    (htype : validUtf8 type = true) :
    ∃ line, encodeQueued json type id position = some line ∧ IsResponse json type line := by
  refine exists_response h htype (queuedBody id position) ?_
  have hnames : validUtf8 (str "session_id") = true ∧ validUtf8 (str "position") = true := by
    decide
  simp [field, Json.utf8, hnames]

theorem ServiceState.utf8_name (s : ServiceState) : validUtf8 s.name = true := by
  cases s <;> decide

theorem ModelLoadPolicy.utf8_name (p : ModelLoadPolicy) : validUtf8 p.name = true := by
  cases p <;> decide

theorem ModelSize.utf8_name (s : ModelSize) : validUtf8 s.name = true := by
  cases s <;> decide

theorem Component.utf8_name (c : Component) : validUtf8 c.name = true := by
  cases c <;> decide

/-- The fields of a `get_state` response behind its head. -/
def stateFields (status : SessionStatus) : List (Bytes × Json) :=
  [field "state" (.str status.state.name),
    field "queued" (.unsigned status.queued),
    field "processing" (.bool status.processing)] ++
  (optionalId "last_completed" status.lastCompleted ++ optionalId "last_failed" status.lastFailed)

theorem encodeState_eq (json : JsonLib) (type : Bytes) (status : SessionStatus) :
    encodeState json type status =
      json.dump (.object (responseFields type true ++ stateFields status)) := by
  rw [encodeState, stateFields, List.append_assoc, List.append_assoc]

theorem stateBody (status : SessionStatus) : ResponseBody (stateFields status) where
  keys := by
    unfold stateFields
    cases status.lastCompleted <;> cases status.lastFailed <;>
      simp only [optionalId, field, Option.map_none, Option.map_some, Option.toList_none,
        Option.toList_some, List.append_nil, List.cons_append, List.nil_append, List.map_cons,
        List.map_nil] <;>
      decide
  canonical := by
    unfold stateFields
    cases status.lastCompleted <;> cases status.lastFailed <;>
      simp [optionalId, field, Json.Canonical]

theorem encodeState_response (h : json.Lawful) (status : SessionStatus)
    (htype : validUtf8 type = true) :
    ∃ line, encodeState json type status = some line ∧ IsResponse json type line := by
  rw [encodeState_eq]
  refine exists_response h htype (stateBody status) ?_
  have hnames : validUtf8 (str "state") = true ∧ validUtf8 (str "queued") = true ∧
      validUtf8 (str "processing") = true ∧ validUtf8 (str "last_completed") = true ∧
      validUtf8 (str "last_failed") = true := by
    decide
  obtain ⟨h₁, h₂, h₃, h₄, h₅⟩ := hnames
  unfold stateFields
  cases status.lastCompleted <;> cases status.lastFailed <;>
    simp [optionalId, field, Json.utf8, h₁, h₂, h₃, h₄, h₅, ServiceState.utf8_name]

end Responses

/-- The texts of a configuration. -/
def Configuration.texts (c : Configuration) : List Bytes :=
  [c.defaultLanguage, c.selectedModel, c.transcriptionPrompt]

/-- The texts of a model. -/
def Model.texts (model : Model) : List Bytes :=
  [model.name, model.supportedLanguage, model.path, model.backend]

/-- Every text is well-formed UTF-8. -/
def allUtf8 (texts : List Bytes) : Bool := texts.all validUtf8

@[simp] theorem allUtf8_nil : allUtf8 [] = true := rfl

@[simp] theorem allUtf8_cons (t : Bytes) (texts : List Bytes) :
    allUtf8 (t :: texts) = (validUtf8 t && allUtf8 texts) := rfl

theorem utf8_configurationFields (c : Configuration) :
    ((configurationFields c).all fun f => validUtf8 f.1 && f.2.utf8) = allUtf8 c.texts := by
  have hnames : validUtf8 (str "default_language") = true ∧
      validUtf8 (str "selected_model") = true ∧ validUtf8 (str "auto_clipboard") = true ∧
      validUtf8 (str "model_load_policy") = true ∧
      validUtf8 (str "transcription_prompt") = true := by
    decide
  simp [configurationFields, Configuration.texts, field, Json.utf8, hnames,
    ModelLoadPolicy.utf8_name]

theorem utf8_modelFields (model : Model) :
    ((modelFields model).all fun f => validUtf8 f.1 && f.2.utf8) = allUtf8 model.texts := by
  have hnames : validUtf8 (str "name") = true ∧ validUtf8 (str "size") = true ∧
      validUtf8 (str "supported_language") = true ∧ validUtf8 (str "path") = true ∧
      validUtf8 (str "backend") = true := by
    decide
  simp [modelFields, Model.texts, field, Json.utf8, hnames, ModelSize.utf8_name]

theorem configBody (c : Configuration) : ResponseBody (configurationFields c) where
  keys := by
    show [str "type", str "ok", str "default_language", str "selected_model",
      str "auto_clipboard", str "model_load_policy", str "transcription_prompt"].Nodup
    decide
  canonical := by simp [configurationFields, field, Json.Canonical]

theorem encodeConfig_response {json : JsonLib} (h : json.Lawful) {type : Bytes}
    {c : Configuration} (htype : validUtf8 type = true) (hc : allUtf8 c.texts = true) :
    ∃ line, encodeConfig json type c = some line ∧ IsResponse json type line := by
  refine exists_response h htype (configBody c) ?_
  rw [utf8_configurationFields, hc]

theorem nodup_modelKeys (model : Model) : ((modelFields model).map Prod.fst).Nodup := by
  show [str "name", str "size", str "supported_language", str "path", str "backend"].Nodup
  decide

theorem canonical_model (model : Model) : (Json.object (modelFields model)).Canonical :=
  Json.canonical_object (nodup_modelKeys model) (by simp [modelFields, field, Json.Canonical])

theorem modelsBody (models : List Model) :
    ResponseBody [field "models" (.arr (models.map fun model => .object (modelFields model)))] where
  keys := by
    show [str "type", str "ok", str "models"].Nodup
    decide
  canonical := by
    intro f hf
    rw [List.mem_singleton] at hf
    subst hf
    show Json.CanonicalItems _
    rw [Json.canonicalItems_iff]
    intro v hv
    obtain ⟨model, -, rfl⟩ := List.mem_map.mp hv
    exact canonical_model model

/-- The fields of a `list_models` response. -/
theorem utf8_models (models : List Model) :
    (Json.arr (models.map fun model => .object (modelFields model))).utf8 =
      models.all fun model => allUtf8 model.texts := by
  show Json.utf8Items _ = _
  rw [Json.utf8Items_eq, List.all_map]
  refine List.all_congr rfl ?_
  intro model
  rw [Function.comp_apply, Json.utf8_object (nodup_modelKeys model), utf8_modelFields]

/-- `encode_models` returns exactly when every listed text is UTF-8. -/
theorem encodeModels_isSome {json : JsonLib} (h : json.Lawful) {type : Bytes}
    (models : List Model) (htype : validUtf8 type = true) :
    (encodeModels json type models).isSome = models.all fun model => allUtf8 model.texts := by
  have hkeys : ((responseFields type true ++
      [field "models" (.arr (models.map fun model => .object (modelFields model)))]).map
        Prod.fst).Nodup := (modelsBody models).keys
  have hnames : validUtf8 (str "type") = true ∧ validUtf8 (str "ok") = true ∧
      validUtf8 (str "models") = true := by
    decide
  rw [encodeModels, dump_object h hkeys]
  simp only [responseFields, field, List.cons_append, List.nil_append, List.all_cons,
    List.all_nil, Bool.and_true, utf8_models, hnames, Bool.true_and]
  simp [Json.utf8, htype]

theorem encodeModels_response {json : JsonLib} (h : json.Lawful) {type line : Bytes}
    {models : List Model} (hline : encodeModels json type models = some line) :
    IsResponse json type line :=
  isResponse_of_dump h (modelsBody models) hline

/-! ## Events -/

/-- The texts of an event. -/
def Event.texts : Event → List Bytes
  | .transcriptionCompleted _ t => [t.text, t.detectedLanguage, t.requestedLanguage]
  | .transcriptionPartial _ committedText tailText => [committedText, tailText]
  | .modelLoaded model => model.texts
  | .configurationChanged c => c.texts
  | .errorOccurred _ _ message => [message]
  | _ => []

theorem nodup_eventKeys (e : Event) :
    ((eventEnvelope e.name ++ eventFields e).map Prod.fst).Nodup := by
  cases e with
  | errorOccurred id component message =>
    cases id with
    | none =>
      show [str "type", str "event", str "component", str "message"].Nodup
      decide
    | some id =>
      show [str "type", str "event", str "session_id", str "component", str "message"].Nodup
      decide
  | _ =>
    simp only [eventEnvelope, eventFields, modelFields, configurationFields, field,
      List.cons_append, List.nil_append, List.map_cons, List.map_nil]
    decide

theorem canonical_eventMessage (e : Event) : (eventMessage e).Canonical := by
  refine Json.canonical_object (nodup_eventKeys e) ?_
  cases e with
  | errorOccurred id component message =>
    cases id <;> simp [eventEnvelope, eventFields, optionalId, field, Json.Canonical]
  | _ =>
    simp [eventEnvelope, eventFields, modelFields, configurationFields, field, Json.Canonical]

theorem utf8_eventEnvelope (e : Event) :
    ((eventEnvelope e.name).all fun f => validUtf8 f.1 && f.2.utf8) = true := by
  cases e <;>
    simp only [Event.name, eventEnvelope, field, List.all_cons, List.all_nil, Json.utf8] <;>
    decide

theorem utf8_eventFields (e : Event) :
    ((eventFields e).all fun f => validUtf8 f.1 && f.2.utf8) = allUtf8 e.texts := by
  have hid : validUtf8 (str "session_id") = true := by decide
  cases e with
  | recordingStarted | transcriptionStarted | sessionCancelled =>
    simp [eventFields, Event.texts, field, Json.utf8, hid]
  | recordingFinished =>
    have hnames : validUtf8 (str "duration_ms") = true ∧ validUtf8 (str "sample_rate") = true ∧
        validUtf8 (str "channels") = true := by
      decide
    simp [eventFields, Event.texts, field, Json.utf8, hid, hnames]
  | transcriptionCompleted =>
    have hnames : validUtf8 (str "text") = true ∧ validUtf8 (str "detected_language") = true ∧
        validUtf8 (str "requested_language") = true ∧
        validUtf8 (str "audio_duration_ms") = true ∧
        validUtf8 (str "processing_time_ms") = true := by
      decide
    simp [eventFields, Event.texts, field, Json.utf8, hid, hnames]
  | transcriptionQueued =>
    have hname : validUtf8 (str "position") = true := by decide
    simp [eventFields, Event.texts, field, Json.utf8, hid, hname]
  | transcriptionPartial =>
    have hnames : validUtf8 (str "committed_text") = true ∧
        validUtf8 (str "tail_text") = true := by
      decide
    simp [eventFields, Event.texts, field, Json.utf8, hid, hnames]
  | modelLoaded model => exact utf8_modelFields model
  | configurationChanged c => exact utf8_configurationFields c
  | errorOccurred id component message =>
    have hnames : validUtf8 (str "component") = true ∧ validUtf8 (str "message") = true := by
      decide
    cases id <;>
      simp [eventFields, Event.texts, optionalId, field, Json.utf8, hid, hnames,
        Component.utf8_name]

/-- `encode_event` returns exactly when the texts of the event are
well-formed UTF-8. -/
theorem encodeEvent_isSome {json : JsonLib} (h : json.Lawful) (e : Event) :
    (encodeEvent json e).isSome = allUtf8 e.texts := by
  rw [encodeEvent, eventMessage, dump_object h (nodup_eventKeys e), List.all_append,
    utf8_eventEnvelope, utf8_eventFields, Bool.true_and]

end YoruSpeech

/-
YoruSpeech.App.SetConfigTheorems — `set_config` is a field-wise merge that
inverts `get_config`.

The encoder, the event encoder, the decoder, `validate` and the dispatcher
each name the five fields. `Configuration.value` names them once more, as
the JSON a message carries for a field, and each of the five is compared
with it. A request is then the function from fields to the values it
carries, and the merge is an override of one such function by another
(`Configuration.Merges`).

What the dispatcher makes of a request is `verdict`. On a valid
configuration its refusals depend on the request alone
(`verdict_error_congr`), because `validate` looks at each field by itself
and finds nothing in the fields the request leaves. Commutation and
idempotence follow from that and from the override.
-/
import YoruSpeech.App.RefusalTheorems
import YoruSpeech.Config.RepairTheorems

namespace YoruSpeech

open Lib (Json validUtf8)

/-! ## Fields as values -/

namespace Configuration

/-- What a message carries for a field. -/
def value (c : Configuration) : ConfigField → Json
  | .defaultLanguage => .str c.defaultLanguage
  | .selectedModel => .str c.selectedModel
  | .autoClipboard => .bool c.autoClipboard
  | .modelLoadPolicy => .str c.modelLoadPolicy.name
  | .transcriptionPrompt => .str c.transcriptionPrompt

/-- A configuration is its five values. -/
theorem eq_of_value {c c' : Configuration} (h : ∀ f, c.value f = c'.value f) : c = c' := by
  have hlanguage := h .defaultLanguage
  have hmodel := h .selectedModel
  have hclipboard := h .autoClipboard
  have hpolicy := h .modelLoadPolicy
  have hprompt := h .transcriptionPrompt
  simp only [value, Json.str.injEq, Json.bool.injEq] at hlanguage hmodel hclipboard hpolicy hprompt
  have hname : c.modelLoadPolicy = c'.modelLoadPolicy := by
    have hparse := parseModelLoadPolicy_name c.modelLoadPolicy
    rw [hpolicy, parseModelLoadPolicy_name] at hparse
    exact (Option.some.inj hparse).symm
  obtain ⟨language, model, clipboard, policy, prompt⟩ := c
  obtain ⟨language', model', clipboard', policy', prompt'⟩ := c'
  simp_all

/-- `c` is `base` with exactly the fields of the message replaced. -/
def Merges (base : Configuration) (message : Json) (c : Configuration) : Prop :=
  ∀ f : ConfigField, c.value f = (message.get? f.key).getD (base.value f)

end Configuration

/-- The encoders write the fields under their keys. -/
theorem configurationFields_eq (c : Configuration) :
    configurationFields c =
      [ConfigField.defaultLanguage, .selectedModel, .autoClipboard, .modelLoadPolicy,
        .transcriptionPrompt].map fun f => (f.key, c.value f) := rfl

theorem mem_configurationFields (c : Configuration) (f : ConfigField) :
    (f.key, c.value f) ∈ configurationFields c := by
  rw [configurationFields_eq]
  exact List.mem_map.mpr ⟨f, by cases f <;> simp, rfl⟩

/-! ## The decoder -/

/-- The changes a request asks for. -/
structure Changes where
  language : Option Bytes
  model : Option Bytes
  clipboard : Option Bool
  policy : Option ModelLoadPolicy
  prompt : Option Bytes

namespace Changes

def value (d : Changes) : ConfigField → Option Json
  | .defaultLanguage => d.language.map .str
  | .selectedModel => d.model.map .str
  | .autoClipboard => d.clipboard.map .bool
  | .modelLoadPolicy => d.policy.map fun policy => .str policy.name
  | .transcriptionPrompt => d.prompt.map .str

def onto (d : Changes) (base : Configuration) : Configuration where
  defaultLanguage := d.language.getD base.defaultLanguage
  selectedModel := d.model.getD base.selectedModel
  autoClipboard := d.clipboard.getD base.autoClipboard
  modelLoadPolicy := d.policy.getD base.modelLoadPolicy
  transcriptionPrompt := d.prompt.getD base.transcriptionPrompt

theorem value_onto (d : Changes) (base : Configuration) (f : ConfigField) :
    (d.onto base).value f = (d.value f).getD (base.value f) := by
  obtain ⟨language, model, clipboard, policy, prompt⟩ := d
  cases f with
  | defaultLanguage => cases language <;> rfl
  | selectedModel => cases model <;> rfl
  | autoClipboard => cases clipboard <;> rfl
  | modelLoadPolicy => cases policy <;> rfl
  | transcriptionPrompt => cases prompt <;> rfl

end Changes

/-- The part of the decoder that does not look at the base. -/
def readChanges (parsed : Json) : Except Bytes Changes := do
  let language ← optionalField parsed "default_language" "a string" acceptString
  let model ← optionalField parsed "selected_model" "a string" acceptString
  let clipboard ← optionalField parsed "auto_clipboard" "a boolean" acceptBoolean
  let policy ← policyField parsed
  let prompt ← optionalField parsed "transcription_prompt" "a string" acceptString
  return { language, model, clipboard, policy, prompt }

theorem mergeFields_eq (parsed : Json) (base : Configuration) :
    mergeFields parsed base = (readChanges parsed).map (·.onto base) := by
  unfold mergeFields readChanges
  cases optionalField parsed "default_language" "a string" acceptString with
  | error e => rfl
  | ok language =>
  cases optionalField parsed "selected_model" "a string" acceptString with
  | error e => rfl
  | ok model =>
  cases optionalField parsed "auto_clipboard" "a boolean" acceptBoolean with
  | error e => rfl
  | ok clipboard =>
  cases policyField parsed with
  | error e => rfl
  | ok policy =>
  cases optionalField parsed "transcription_prompt" "a string" acceptString with
  | error e => rfl
  | ok prompt => rfl

/-- A field that is read is the one of the message. -/
theorem optionalField_reads {α : Type} (parsed : Json) (name what : String)
    {accept : Json → Option α} (put : α → Json) (hput : ∀ v a, accept v = some a → put a = v) :
    Lib.Ends (fun o => o.map put = parsed.get? (str name)) (fun _ => True)
      (optionalField parsed name what accept) := by
  unfold optionalField
  cases parsed.get? (str name) with
  | none => exact Lib.Ends.pure rfl
  | some v =>
    cases haccept : accept v with
    | none => simpa [haccept] using Lib.Ends.throw trivial
    | some a => simpa [haccept, Lib.Ends] using hput v a haccept

theorem acceptString_put : ∀ v a, acceptString v = some a → Json.str a = v := by
  intro v a h
  cases v with
  | str s =>
    cases h
    rfl
  | _ => cases h

theorem acceptBoolean_put : ∀ v a, acceptBoolean v = some a → Json.bool a = v := by
  intro v a h
  cases v with
  | bool b =>
    cases h
    rfl
  | _ => cases h

theorem name_of_parseModelLoadPolicy {name : Bytes} {policy : ModelLoadPolicy}
    (h : parseModelLoadPolicy name = some policy) : policy.name = name := by
  unfold parseModelLoadPolicy at h
  split at h
  · rename_i hname
    cases h
    exact hname.symm
  · split at h
    · rename_i hname
      cases h
      exact hname.symm
    · cases h

theorem policyField_reads (parsed : Json) :
    Lib.Ends (fun o => (o.map fun policy => Json.str policy.name) =
      parsed.get? (str "model_load_policy")) (fun _ => True) (policyField parsed) := by
  have hfield := optionalField_reads parsed "model_load_policy" "a string" Json.str
    acceptString_put
  unfold policyField
  split
  · rename_i name hname
    split
    · rename_i policy hpolicy
      refine Lib.Ends.pure ?_
      rw [← hfield.of_ok hname, Option.map_some, Option.map_some,
        name_of_parseModelLoadPolicy hpolicy]
    · exact Lib.Ends.throw trivial
  · rename_i hnone
    exact Lib.Ends.pure (hfield.of_ok hnone)
  · exact Lib.Ends.throw trivial

/-- The changes are the fields of the message. -/
theorem readChanges_reads (parsed : Json) :
    Lib.Ends (fun d => ∀ f : ConfigField, d.value f = parsed.get? f.key) (fun _ => True)
      (readChanges parsed) := by
  have hstring := fun name => optionalField_reads parsed name "a string" Json.str acceptString_put
  unfold readChanges
  refine (hstring "default_language").bind fun language hlanguage => ?_
  refine (hstring "selected_model").bind fun model hmodel => ?_
  refine (optionalField_reads parsed "auto_clipboard" "a boolean" Json.bool
    acceptBoolean_put).bind fun clipboard hclipboard => ?_
  refine (policyField_reads parsed).bind fun policy hpolicy => ?_
  refine (hstring "transcription_prompt").bind fun prompt hprompt => ?_
  refine Lib.Ends.pure ?_
  intro f
  cases f with
  | defaultLanguage => exact hlanguage
  | selectedModel => exact hmodel
  | autoClipboard => exact hclipboard
  | modelLoadPolicy => exact hpolicy
  | transcriptionPrompt => exact hprompt

theorem mergeFields_merges {parsed : Json} {base c : Configuration}
    (h : mergeFields parsed base = .ok c) : base.Merges parsed c := by
  rw [mergeFields_eq] at h
  cases hread : readChanges parsed with
  | error e =>
    rw [hread] at h
    cases h
  | ok d =>
    rw [hread] at h
    cases h
    intro f
    rw [Changes.value_onto, (readChanges_reads parsed).of_ok hread f]

/-- A complaint of the decoder is about the message. -/
theorem mergeFields_error_congr {parsed : Json} {base : Configuration} {e : Bytes}
    (h : mergeFields parsed base = .error e) (base' : Configuration) :
    mergeFields parsed base' = .error e := by
  rw [mergeFields_eq] at h ⊢
  cases hread : readChanges parsed with
  | error e' =>
    rw [hread] at h
    cases h
    rfl
  | ok d =>
    rw [hread] at h
    cases h

/-- `decode_set_config` keeps the base or merges the whole message. -/
theorem decodeSetConfig_cases (json : JsonLib) (line : Bytes) (base : Configuration) :
    ((decodeSetConfig json line base).error ≠ none ∧
      (decodeSetConfig json line base).configuration = base) ∨
    ((decodeSetConfig json line base).error = none ∧
      ∃ v, json.parse line = some v ∧ v.isObject = true ∧
        base.Merges v (decodeSetConfig json line base).configuration) := by
  unfold decodeSetConfig
  split
  · rename_i fields hparse
    split
    · rename_i c hmerge
      exact .inr ⟨rfl, .obj fields, hparse, rfl, mergeFields_merges hmerge⟩
    · exact .inl ⟨by simp, rfl⟩
  · exact .inl ⟨by simp, rfl⟩

/-- A message that carries every value of a configuration sets it, whatever
the base. -/
theorem mergeFields_whole {v : Json} {c : Configuration}
    (h : ∀ f : ConfigField, v.get? f.key = some (c.value f)) (base : Configuration) :
    mergeFields v base = .ok c := by
  have hlanguage : v.get? (str "default_language") = some (.str c.defaultLanguage) :=
    h .defaultLanguage
  have hmodel : v.get? (str "selected_model") = some (.str c.selectedModel) := h .selectedModel
  have hclipboard : v.get? (str "auto_clipboard") = some (.bool c.autoClipboard) :=
    h .autoClipboard
  have hpolicy : v.get? (str "model_load_policy") = some (.str c.modelLoadPolicy.name) :=
    h .modelLoadPolicy
  have hprompt : v.get? (str "transcription_prompt") = some (.str c.transcriptionPrompt) :=
    h .transcriptionPrompt
  simp only [mergeFields, policyField, optionalField, hlanguage, hmodel, hclipboard, hpolicy,
    hprompt, acceptString, acceptBoolean, parseModelLoadPolicy_name]
  rfl

/-! ## The encoders -/

section Encoders

variable {json : JsonLib} {type line : Bytes} {c : Configuration}

/-- A reply carries the five values. -/
theorem encodeConfig_carries (h : json.Lawful) (hline : encodeConfig json type c = some line) :
    ∃ v, json.parse line = some v ∧ v.isObject = true ∧ v.get? (str "type") = some (.str type) ∧
      ∀ f : ConfigField, v.get? f.key = some (c.value f) := by
  refine ⟨_, (configBody c).parse h hline, rfl, ?_, ?_⟩
  · exact Json.get?_object (configBody c).keys (by simp [responseFields, field])
  · intro f
    refine Json.get?_object (configBody c).keys ?_
    exact List.mem_append_right _ (mem_configurationFields c f)

/-- So does the event, and nothing besides but the envelope. -/
theorem encodeEvent_carries (h : json.Lawful)
    (hline : encodeEvent json (.configurationChanged c) = some line) :
    ∃ v, json.parse line = some v ∧ (∀ f : ConfigField, v.get? f.key = some (c.value f)) ∧
      ∀ key, key ≠ str "type" → key ≠ str "event" → (∀ f : ConfigField, key ≠ f.key) →
        v.get? key = none := by
  have hkeys := nodup_eventKeys (.configurationChanged c)
  refine ⟨_, h.parse_dump _ _ (canonical_eventMessage _) hline, ?_, ?_⟩
  · intro f
    exact Json.get?_object hkeys (List.mem_append_right _ (mem_configurationFields c f))
  · intro key htype hevent hfields
    refine Json.get?_object_none hkeys ?_
    show key ∉ [str "type", str "event", ConfigField.key .defaultLanguage,
      ConfigField.key .selectedModel, ConfigField.key .autoClipboard,
      ConfigField.key .modelLoadPolicy, ConfigField.key .transcriptionPrompt]
    simp [htype, hevent, hfields]

theorem decodeSetConfig_encodeConfig (h : json.Lawful)
    (hline : encodeConfig json type c = some line) (base : Configuration) :
    decodeSetConfig json line base = { configuration := c, error := none } := by
  obtain ⟨v, hparse, hobject, -, hvalues⟩ := encodeConfig_carries h hline
  cases v with
  | obj fields => simp only [decodeSetConfig, hparse, mergeFields_whole hvalues base]
  | _ => cases hobject

end Encoders

/-! ## The verdict on a request -/

/-- What the dispatcher decides about a request: the complaint, or the
configuration it sets. -/
def verdict (v : Json) (base : Configuration) : Except Bytes Configuration :=
  match mergeFields v base with
  | .error e => .error e
  | .ok c =>
    match validate c with
    | [] => .ok c
    | errors => .error (CommandDispatcher.rejectionText errors)

theorem verdict_ok_iff {v : Json} {base c : Configuration} :
    verdict v base = .ok c ↔ mergeFields v base = .ok c ∧ validate c = [] := by
  unfold verdict
  cases mergeFields v base with
  | error e => simp
  | ok c' =>
    cases hvalid : validate c' with
    | nil =>
      simp only [hvalid, Except.ok.injEq]
      exact ⟨fun heq => ⟨heq, heq ▸ hvalid⟩, fun h => h.1⟩
    | cons e errors =>
      simp only [hvalid, reduceCtorEq, Except.ok.injEq, false_iff, not_and]
      rintro rfl
      simp [hvalid]

/-- `validate` looks at a field by itself: on top of valid configurations,
one message meets the same complaints. -/
theorem validate_merges {v : Json} {base base' c c' : Configuration} (hbase : validate base = [])
    (hbase' : validate base' = []) (hc : base.Merges v c) (hc' : base'.Merges v c') :
    validate c = validate c' := by
  obtain ⟨hlanguage, hmodel⟩ := validate_eq_nil_iff.mp hbase
  obtain ⟨hlanguage', hmodel'⟩ := validate_eq_nil_iff.mp hbase'
  -- a checked field is the message's, or it passed already
  have hchecked : ∀ {f : ConfigField} {valid : Bytes → Bool} {get : Configuration → Bytes},
      (∀ d : Configuration, d.value f = .str (get d)) → valid (get base) = true →
      valid (get base') = true → valid (get c) = valid (get c') := by
    intro f valid get hget hv hv'
    have hf := hc f
    have hf' := hc' f
    cases hmessage : v.get? f.key with
    | none =>
      simp only [hmessage, Option.getD_none, hget, Json.str.injEq] at hf hf'
      rw [hf, hf', hv, hv']
    | some w =>
      simp only [hmessage, Option.getD_some] at hf hf'
      rw [← hf', hget, hget, Json.str.injEq] at hf
      rw [hf]
  have hl := hchecked (f := .defaultLanguage) (fun _ => rfl) hlanguage hlanguage'
  have hm := hchecked (f := .selectedModel) (fun _ => rfl) hmodel hmodel'
  rw [validate_eq, validate_eq, hl, hm]

/-- Refusals depend on the request alone. -/
theorem verdict_error_congr {v : Json} {base base' : Configuration} {e : Bytes}
    (hbase : validate base = []) (hbase' : validate base' = [])
    (h : verdict v base = .error e) : verdict v base' = .error e := by
  unfold verdict at h ⊢
  cases hmerge : mergeFields v base with
  | error e' =>
    rw [hmerge] at h
    rw [mergeFields_error_congr hmerge base']
    exact h
  | ok c =>
    cases hmerge' : mergeFields v base' with
    | error e' =>
      rw [mergeFields_error_congr hmerge' base] at hmerge
      cases hmerge
    | ok c' =>
      have hsame := validate_merges hbase hbase' (mergeFields_merges hmerge)
        (mergeFields_merges hmerge')
      rw [hmerge] at h
      simp only [hsame] at h
      cases hvalid : validate c' with
      | nil => simp [hvalid] at h
      | cons e' errors =>
        simp only [hvalid] at h ⊢
        exact h

theorem verdict_utf8 {v : Json} {base : Configuration} {e : Bytes} (hv : v.utf8 = true)
    (h : verdict v base = .error e) : validUtf8 e = true := by
  unfold verdict at h
  cases hmerge : mergeFields v base with
  | error e' =>
    rw [hmerge] at h
    cases h
    -- the complaint is the one on top of any configuration
    have hutf8 : Lib.Ends _ (validUtf8 · = true) (mergeFields v {}) :=
      mergeFields_utf8 hv (by decide)
    exact hutf8.of_error (mergeFields_error_congr hmerge {})
  | ok c =>
    simp only [hmerge] at h
    cases hvalid : validate c with
    | nil => simp [hvalid] at h
    | cons e' errors =>
      simp only [hvalid, Except.error.injEq] at h
      subst h
      rw [← hvalid]
      exact rejectionText_utf8 validate_utf8

/-- The line is a `set_config` request with this content. -/
structure Requests (json : JsonLib) (line : Bytes) (v : Json) : Prop where
  parse : json.parse line = some v
  type : v.get? (str "type") = some (.str (str "set_config"))

/-- The response says `ok: true`. -/
def Reply.accepts (json : JsonLib) : Reply → Bool
  | .line bytes =>
    match (json.parse bytes).bind (Json.get? (str "ok")) with
    | some (.bool true) => true
    | _ => false
  | _ => false

namespace CommandDispatcher

variable {lib : Libraries} {s : CommandDispatcher} {env : LineEnv} {line : Bytes} {v : Json}
  {c : Configuration}

/-- The configuration the dispatcher works on. -/
abbrev configuration (s : CommandDispatcher) : Configuration :=
  s.configurationManager.configuration

theorem parseMessage_requests (hline : Requests lib.json line v) :
    (parseMessage lib.json line).type = some (str "set_config") := by
  simp only [parseMessage, hline.parse, Option.bind_some, hline.type]

theorem handleLine_requests (hline : Requests lib.json line v) (s : CommandDispatcher)
    (env : LineEnv) :
    s.handleLine lib line env = s.setConfig lib (str "set_config") line env := by
  have htype := parseMessage_requests hline
  unfold handleLine
  simp only [htype]
  rfl

theorem decodeSetConfig_requests (hline : Requests lib.json line v) (base : Configuration) :
    decodeSetConfig lib.json line base =
      match mergeFields v base with
      | .ok c => { configuration := c, error := none }
      | .error e => { configuration := base, error := some e } := by
  have htype := hline.type
  cases v with
  | obj fields =>
    unfold decodeSetConfig
    cases hmerge : mergeFields (.obj fields) base with
    | ok c => simp [hline.parse, hmerge]
    | error e => simp [hline.parse, hmerge]
  | _ => cases htype

/-- The accepted request: the configuration is set, and is the reply. -/
theorem handleLine_verdict_ok (hline : Requests lib.json line v) (hwrite : env.write = .done)
    (h : verdict v s.configuration = .ok c) :
    (s.handleLine lib line env).1.configuration = c ∧
    (s.handleLine lib line env).2 = .ofDump (encodeConfig lib.json (str "set_config") c) := by
  obtain ⟨hmerge, hvalid⟩ := verdict_ok_iff.mp h
  rw [handleLine_requests hline, setConfig]
  simp only [decodeSetConfig_requests hline, hmerge, ConfigurationManager.update, hvalid, hwrite,
    writeFileAtomically]
  exact ⟨trivial, trivial⟩

/-- The refused request: nothing happens. -/
theorem handleLine_verdict_error {e : Bytes} (hline : Requests lib.json line v)
    (h : verdict v s.configuration = .error e) :
    s.handleLine lib line env = (s, .ofDump (encodeError lib.json (str "set_config") e)) := by
  rw [handleLine_requests hline, setConfig]
  unfold verdict at h
  cases hmerge : mergeFields v s.configuration with
  | error e' =>
    rw [hmerge] at h
    cases h
    simp only [decodeSetConfig_requests hline, hmerge]
  | ok c =>
    simp only [hmerge] at h
    cases hvalid : validate c with
    | nil => simp [hvalid] at h
    | cons e' errors =>
      simp only [hvalid, Except.error.injEq] at h
      subst h
      simp only [decodeSetConfig_requests hline, hmerge, ConfigurationManager.update, hvalid]

theorem encodeError_refuses (h : lib.json.Lawful) {type e : Bytes} (htype : validUtf8 type = true)
    (he : validUtf8 e = true) :
    (Reply.ofDump (encodeError lib.json type e)).refuses lib.json = true := by
  have hbody : ResponseBody [field "error" (.str e)] := by
    constructor
    · show [str "type", str "ok", str "error"].Nodup
      decide
    · simp [field, Json.Canonical]
  obtain ⟨bytes, hdump, -⟩ := encodeError_response h htype he
  have hparse := hbody.parse h hdump
  rw [hdump]
  simp only [Reply.ofDump, Reply.refuses, hparse, Option.bind_some, hbody.get_ok type false]

/-- A response is not both. -/
theorem not_accepts_of_refuses {json : JsonLib} {r : Reply} (h : r.refuses json = true) :
    r.accepts json = false := by
  cases r with
  | line bytes =>
    simp only [Reply.refuses, Reply.accepts] at h ⊢
    split at h
    · rename_i hok
      simp only [hok]
    · cases h
  | threw | undefined => rfl

theorem encodeConfig_isSome (h : lib.json.Lawful) (type : Bytes) (c : Configuration) :
    (encodeConfig lib.json type c).isSome = (validUtf8 type && allUtf8 c.texts) := by
  have hnames : validUtf8 (str "type") = true ∧ validUtf8 (str "ok") = true := by decide
  have hkeys : ((responseFields type true ++ configurationFields c).map Prod.fst).Nodup :=
    (configBody c).keys
  rw [encodeConfig, dump_object h hkeys, List.all_append, utf8_configurationFields]
  simp [responseFields, field, Json.utf8, hnames]

theorem encodeConfig_accepts (h : lib.json.Lawful) {type : Bytes} (htype : validUtf8 type = true)
    (c : Configuration) :
    (Reply.ofDump (encodeConfig lib.json type c)).accepts lib.json = allUtf8 c.texts := by
  have hsome := encodeConfig_isSome h type c
  rw [htype, Bool.true_and] at hsome
  cases hdump : encodeConfig lib.json type c with
  | none =>
    rw [hdump] at hsome
    exact hsome
  | some bytes =>
    have hparse := (configBody c).parse h hdump
    rw [hdump] at hsome
    simp only [Reply.ofDump, Reply.accepts, hparse, Option.bind_some,
      (configBody c).get_ok type true]
    exact hsome

/-- Refused is what the verdict says. -/
theorem refuses_iff (h : lib.json.Lawful) (hline : Requests lib.json line v)
    (hwrite : env.write = .done) :
    (s.handleLine lib line env).2.refuses lib.json = true ↔
      ∃ e, verdict v s.configuration = .error e := by
  cases hverdict : verdict v s.configuration with
  | error e =>
    have he := verdict_utf8 (h.utf8_of_parse line v hline.parse) hverdict
    rw [handleLine_verdict_error hline hverdict]
    exact iff_of_true (encodeError_refuses h (by decide) he) ⟨e, rfl⟩
  | ok c =>
    rw [(handleLine_verdict_ok hline hwrite hverdict).2]
    have haccepts := accepts_of_body h (configBody c) (str "set_config")
    rw [encodeConfig, haccepts]
    simp

/-- The request is accepted only if the verdict is. -/
theorem verdict_of_accepts (h : lib.json.Lawful) (hline : Requests lib.json line v)
    (hwrite : env.write = .done) (haccepts : (s.handleLine lib line env).2.accepts lib.json = true) :
    ∃ c, verdict v s.configuration = .ok c ∧ allUtf8 c.texts = true := by
  cases hverdict : verdict v s.configuration with
  | error e =>
    have hrefuses := (refuses_iff (s := s) h hline hwrite).mpr ⟨e, hverdict⟩
    rw [not_accepts_of_refuses hrefuses] at haccepts
    cases haccepts
  | ok c =>
    rw [(handleLine_verdict_ok hline hwrite hverdict).2,
      encodeConfig_accepts h (by decide)] at haccepts
    exact ⟨c, rfl, haccepts⟩

/-- From a UTF-8 configuration every request is answered. -/
theorem accepts_eq (h : lib.json.Lawful) (hline : Requests lib.json line v)
    (hwrite : env.write = .done) (hutf8 : allUtf8 s.configuration.texts = true) :
    (s.handleLine lib line env).2.accepts lib.json =
      !(s.handleLine lib line env).2.refuses lib.json := by
  cases hverdict : verdict v s.configuration with
  | error e =>
    have hrefuses := (refuses_iff (s := s) h hline hwrite).mpr ⟨e, hverdict⟩
    rw [not_accepts_of_refuses hrefuses, hrefuses]
    rfl
  | ok c =>
    have hv := h.utf8_of_parse line v hline.parse
    have hc := (mergeFields_utf8 hv hutf8).of_ok (verdict_ok_iff.mp hverdict).1
    have haccepts := accepts_of_body h (configBody c) (str "set_config")
    rw [(handleLine_verdict_ok hline hwrite hverdict).2, encodeConfig_accepts h (by decide), hc,
      encodeConfig, haccepts]
    rfl

end CommandDispatcher

/-! ## Requests one after another -/

/-- What a request leaves. -/
def settled (v : Json) (base : Configuration) : Configuration :=
  match verdict v base with
  | .ok c => c
  | .error _ => base

section Settled

variable {v w : Json} {base c : Configuration} {e : Bytes}

theorem settled_ok (h : verdict v base = .ok c) : settled v base = c := by
  rw [settled, h]

theorem settled_error (h : verdict v base = .error e) : settled v base = base := by
  rw [settled, h]

theorem validate_settled (v : Json) (hbase : validate base = []) :
    validate (settled v base) = [] := by
  cases hverdict : verdict v base with
  | error e => rw [settled_error hverdict, hbase]
  | ok c => rw [settled_ok hverdict, (verdict_ok_iff.mp hverdict).2]

theorem settled_utf8 (hv : v.utf8 = true) (hbase : allUtf8 base.texts = true) :
    allUtf8 (settled v base).texts = true := by
  cases hverdict : verdict v base with
  | error e => rw [settled_error hverdict, hbase]
  | ok c =>
    rw [settled_ok hverdict]
    exact (mergeFields_utf8 hv hbase).of_ok (verdict_ok_iff.mp hverdict).1

/-- An accepted request is accepted on top of any other valid
configuration. -/
theorem verdict_ok_congr {base' : Configuration} (hbase : validate base = [])
    (hbase' : validate base' = []) (h : verdict v base = .ok c) :
    ∃ c', verdict v base' = .ok c' ∧ base'.Merges v c' := by
  cases hverdict : verdict v base' with
  | error e =>
    rw [verdict_error_congr hbase' hbase hverdict] at h
    cases h
  | ok c' => exact ⟨c', rfl, mergeFields_merges (verdict_ok_iff.mp hverdict).1⟩

/-- Idempotence: on top of what it set, the request changes nothing. -/
theorem verdict_again (h : verdict v base = .ok c) : verdict v c = .ok c := by
  obtain ⟨hmerge, hvalid⟩ := verdict_ok_iff.mp h
  cases hagain : mergeFields v c with
  | error e =>
    rw [mergeFields_error_congr hagain base] at hmerge
    cases hmerge
  | ok c' =>
    have hfirst := mergeFields_merges hmerge
    have hsecond := mergeFields_merges hagain
    obtain rfl : c' = c := by
      refine Configuration.eq_of_value fun f => ?_
      rw [hsecond f, hfirst f]
      cases v.get? f.key <;> rfl
    exact verdict_ok_iff.mpr ⟨hagain, hvalid⟩

/-- Commutation: requests for different fields leave the same. -/
theorem settled_comm (hbase : validate base = [])
    (hdisjoint : ∀ f : ConfigField, v.get? f.key = none ∨ w.get? f.key = none) :
    settled w (settled v base) = settled v (settled w base) := by
  have hv := validate_settled v hbase
  have hw := validate_settled w hbase
  cases hverdict : verdict v base with
  | error e =>
    rw [settled_error hverdict, settled_error (verdict_error_congr hbase hw hverdict)]
  | ok c =>
  cases hverdict' : verdict w base with
  | error e =>
    rw [settled_error hverdict', settled_error (verdict_error_congr hbase hv hverdict')]
  | ok d =>
    obtain ⟨c', hc', hmerges⟩ := verdict_ok_congr hbase hw hverdict
    obtain ⟨d', hd', hmerges'⟩ := verdict_ok_congr hbase hv hverdict'
    rw [settled_ok hc', settled_ok hd']
    rw [settled_ok hverdict'] at hmerges
    rw [settled_ok hverdict] at hmerges'
    have hfirst := mergeFields_merges (verdict_ok_iff.mp hverdict).1
    have hsecond := mergeFields_merges (verdict_ok_iff.mp hverdict').1
    refine Configuration.eq_of_value fun f => ?_
    rw [hmerges' f, hfirst f, hmerges f, hsecond f]
    rcases hdisjoint f with hnone | hnone
    · rw [hnone, Option.getD_none, Option.getD_none]
    · rw [hnone, Option.getD_none, Option.getD_none]

end Settled

namespace CommandDispatcher

variable {lib : Libraries} {s : CommandDispatcher} {env : LineEnv} {line : Bytes} {v : Json}

theorem configuration_handleLine (hline : Requests lib.json line v) (hwrite : env.write = .done) :
    (s.handleLine lib line env).1.configuration = settled v s.configuration := by
  cases hverdict : verdict v s.configuration with
  | error e => rw [handleLine_verdict_error hline hverdict, settled_error hverdict]
  | ok c => rw [(handleLine_verdict_ok hline hwrite hverdict).1, settled_ok hverdict]

/-- The line says what the reply says, as a `set_config` request. -/
def Resends (json : JsonLib) (reply line : Bytes) : Prop :=
  ∃ v w, json.parse reply = some v ∧ Requests json line w ∧
    ∀ key, key ≠ str "type" → w.get? key = v.get? key

/-- A `get_config` reply sent back. -/
theorem resent_accepted (h : lib.json.Lawful) (hvalid : validate s.configuration = [])
    {request reply : Bytes} {env' : LineEnv}
    (hrequest : (parseMessage lib.json request).type = some (str "get_config"))
    (hreply : (s.handleLine lib request env).2 = .line reply)
    (hresends : Resends lib.json reply line) (hwrite : env'.write = .done) :
    let s' := (s.handleLine lib request env).1
    (s'.handleLine lib line env').2.accepts lib.json = true ∧
      (s'.handleLine lib line env').1.configuration = s.configuration := by
  have hget : s.handleLine lib request env =
      (s, .ofDump (encodeConfig lib.json (str "get_config") s.configuration)) := by
    unfold handleLine
    simp only [hrequest]
    rfl
  rw [hget] at hreply ⊢
  simp only
  cases hdump : encodeConfig lib.json (str "get_config") s.configuration with
  | none =>
    rw [hdump] at hreply
    cases hreply
  | some bytes =>
    rw [hdump] at hreply
    cases hreply
    obtain ⟨v, w, hparse, hline, hsame⟩ := hresends
    obtain ⟨v', hparse', -, -, hvalues⟩ := encodeConfig_carries h hdump
    obtain rfl : v = v' := Option.some.inj (hparse.symm.trans hparse')
    have hwhole : ∀ f : ConfigField, w.get? f.key = some (s.configuration.value f) := by
      intro f
      rw [hsame f.key (by cases f <;> decide), hvalues f]
    have hverdict : verdict w s.configuration = .ok s.configuration :=
      verdict_ok_iff.mpr ⟨mergeFields_whole hwhole _, hvalid⟩
    have hutf8 : allUtf8 s.configuration.texts = true := by
      have hsome := encodeConfig_isSome h (str "get_config") s.configuration
      rw [hdump, Option.isSome_some, eq_comm, Bool.and_eq_true] at hsome
      exact hsome.2
    obtain ⟨hconfiguration, hanswer⟩ := handleLine_verdict_ok hline hwrite hverdict
    exact ⟨by rw [hanswer, encodeConfig_accepts h (by decide), hutf8], hconfiguration⟩

/-- An accepted request sent again. -/
theorem repeated_accepted (h : lib.json.Lawful) (hline : Requests lib.json line v)
    {env' : LineEnv} (hwrite : env.write = .done) (hwrite' : env'.write = .done)
    (haccepts : (s.handleLine lib line env).2.accepts lib.json = true) :
    let s' := (s.handleLine lib line env).1
    (s'.handleLine lib line env').2.accepts lib.json = true ∧
      (s'.handleLine lib line env').1.configuration = s'.configuration := by
  obtain ⟨c, hverdict, hutf8⟩ := verdict_of_accepts h hline hwrite haccepts
  have hc := (handleLine_verdict_ok hline hwrite hverdict).1
  have hagain : verdict v (s.handleLine lib line env).1.configuration = .ok c := by
    rw [hc]
    exact verdict_again hverdict
  obtain ⟨hconfiguration, hanswer⟩ := handleLine_verdict_ok hline hwrite' hagain
  exact ⟨by rw [hanswer, encodeConfig_accepts h (by decide), hutf8], by rw [hconfiguration, hc]⟩

/-- Both responses accept, or both refuse with the same words. -/
def Alike (json : JsonLib) (r r' : Reply) : Prop :=
  r.refuses json = r'.refuses json ∧ (r.refuses json = true → r = r')

/-- A request is refused alike on top of every valid configuration. -/
theorem alike_of_valid (h : lib.json.Lawful) (hvalid : validate s.configuration = [])
    (hline : Requests lib.json line v) {t : CommandDispatcher}
    (hvalid' : validate t.configuration = []) {env' : LineEnv} (hwrite : env.write = .done)
    (hwrite' : env'.write = .done) :
    Alike lib.json (s.handleLine lib line env).2 (t.handleLine lib line env').2 := by
  have hs := refuses_iff (s := s) h hline hwrite
  have ht := refuses_iff (s := t) h hline hwrite'
  constructor
  · rw [Bool.eq_iff_iff, hs, ht]
    constructor
    · rintro ⟨e, he⟩
      exact ⟨e, verdict_error_congr hvalid hvalid' he⟩
    · rintro ⟨e, he⟩
      exact ⟨e, verdict_error_congr hvalid' hvalid he⟩
  · intro hrefused
    obtain ⟨e, he⟩ := hs.mp hrefused
    rw [handleLine_verdict_error hline he,
      handleLine_verdict_error hline (verdict_error_congr hvalid hvalid' he)]

/-- Two requests in both orders, against the dispatcher as it is. -/
structure Commute (lib : Libraries) (s : CommandDispatcher) (a b : Bytes)
    (ea eb ea' eb' : LineEnv) : Prop where
  first : Alike lib.json (s.handleLine lib a ea).2
    ((s.handleLine lib b eb').1.handleLine lib a ea').2
  second : Alike lib.json ((s.handleLine lib a ea).1.handleLine lib b eb).2
    (s.handleLine lib b eb').2
  configuration :
    ((s.handleLine lib a ea).1.handleLine lib b eb).1.configuration =
      ((s.handleLine lib b eb').1.handleLine lib a ea').1.configuration
  /-- In UTF-8 a request that is not refused is answered with `ok: true`. -/
  answered : allUtf8 s.configuration.texts = true →
    (s.handleLine lib a ea).2.accepts lib.json =
        ((s.handleLine lib b eb').1.handleLine lib a ea').2.accepts lib.json ∧
      ((s.handleLine lib a ea).1.handleLine lib b eb).2.accepts lib.json =
        (s.handleLine lib b eb').2.accepts lib.json

theorem commute_of_disjoint (h : lib.json.Lawful) (hvalid : validate s.configuration = [])
    {a b : Bytes} {w : Json} {ea eb ea' eb' : LineEnv} (ha : Requests lib.json a v)
    (hb : Requests lib.json b w) (hea : ea.write = .done) (heb : eb.write = .done)
    (hea' : ea'.write = .done) (heb' : eb'.write = .done)
    (hdisjoint : ∀ f : ConfigField, v.get? f.key = none ∨ w.get? f.key = none) :
    Commute lib s a b ea eb ea' eb' := by
  have hca := configuration_handleLine (s := s) ha hea
  have hcb := configuration_handleLine (s := s) hb heb'
  have hva : validate (s.handleLine lib a ea).1.configuration = [] := by
    rw [hca]
    exact validate_settled v hvalid
  have hvb : validate (s.handleLine lib b eb').1.configuration = [] := by
    rw [hcb]
    exact validate_settled w hvalid
  have hfirst : Alike lib.json (s.handleLine lib a ea).2 _ :=
    alike_of_valid h hvalid ha hvb hea hea'
  have hsecond : Alike lib.json (handleLine lib _ b eb).2 _ :=
    alike_of_valid h hva hb hvalid heb heb'
  refine ⟨hfirst, hsecond, ?_, ?_⟩
  · rw [configuration_handleLine hb heb, configuration_handleLine ha hea', hca, hcb]
    exact settled_comm hvalid hdisjoint
  · intro hutf8
    have hua : allUtf8 (s.handleLine lib a ea).1.configuration.texts = true := by
      rw [hca]
      exact settled_utf8 (h.utf8_of_parse a v ha.parse) hutf8
    have hub : allUtf8 (s.handleLine lib b eb').1.configuration.texts = true := by
      rw [hcb]
      exact settled_utf8 (h.utf8_of_parse b w hb.parse) hutf8
    rw [accepts_eq h ha hea hutf8, accepts_eq h ha hea' hub, accepts_eq h hb heb hua,
      accepts_eq h hb heb' hutf8, hfirst.1, hsecond.1]
    exact ⟨rfl, rfl⟩

/-- **`set_config` is an atomic, field-wise merge that inverts
`get_config`.** The decoder keeps the base or merges every field of the
line; it reads back what the encoder wrote, and the event carries the same
values. From a valid configuration and with successful writes, a
`get_config` reply sent back and an accepted request sent again are accepted
and change nothing, and requests for different fields end alike in both
orders. -/
theorem setConfig_merges (lib : Libraries) (h : lib.json.Lawful) :
    (∀ line base,
      ((decodeSetConfig lib.json line base).error ≠ none ∧
        (decodeSetConfig lib.json line base).configuration = base) ∨
      ((decodeSetConfig lib.json line base).error = none ∧
        ∃ v, lib.json.parse line = some v ∧ v.isObject = true ∧
          base.Merges v (decodeSetConfig lib.json line base).configuration)) ∧
    (∀ type c, allUtf8 c.texts = true →
      (encodeConfig lib.json type c).isSome = validUtf8 type ∧
      ∀ reply, encodeConfig lib.json type c = some reply →
        (∀ base, decodeSetConfig lib.json reply base = { configuration := c, error := none }) ∧
        ∃ event v w, encodeEvent lib.json (.configurationChanged c) = some event ∧
          lib.json.parse reply = some v ∧ lib.json.parse event = some w ∧
          (∀ f : ConfigField, v.get? f.key = some (c.value f) ∧ w.get? f.key = some (c.value f)) ∧
          ∀ key, key ≠ str "type" → key ≠ str "event" → (∀ f : ConfigField, key ≠ f.key) →
            w.get? key = none) ∧
    ∀ s : CommandDispatcher, validate s.configuration = [] →
      (∀ request reply line env env', (parseMessage lib.json request).type = some (str "get_config") →
        (s.handleLine lib request env).2 = .line reply → Resends lib.json reply line →
        env'.write = .done →
        ((s.handleLine lib request env).1.handleLine lib line env').2.accepts lib.json = true ∧
        ((s.handleLine lib request env).1.handleLine lib line env').1.configuration =
          s.configuration) ∧
      (∀ line v env env', Requests lib.json line v → env.write = .done → env'.write = .done →
        (s.handleLine lib line env).2.accepts lib.json = true →
        ((s.handleLine lib line env).1.handleLine lib line env').2.accepts lib.json = true ∧
        ((s.handleLine lib line env).1.handleLine lib line env').1.configuration =
          (s.handleLine lib line env).1.configuration) ∧
      ∀ a b v w ea eb ea' eb', Requests lib.json a v → Requests lib.json b w →
        ea.write = .done → eb.write = .done → ea'.write = .done → eb'.write = .done →
        (∀ f : ConfigField, v.get? f.key = none ∨ w.get? f.key = none) →
        Commute lib s a b ea eb ea' eb' := by
  refine ⟨decodeSetConfig_cases lib.json, ?_, ?_⟩
  · intro type c hc
    refine ⟨by rw [encodeConfig_isSome h, hc, Bool.and_true], ?_⟩
    intro reply hreply
    refine ⟨decodeSetConfig_encodeConfig h hreply, ?_⟩
    obtain ⟨event, hevent⟩ : ∃ event, encodeEvent lib.json (.configurationChanged c) =
        some event := by
      rw [← Option.isSome_iff_exists, encodeEvent_isSome h]
      exact hc
    obtain ⟨v, hv, -, -, hcarries⟩ := encodeConfig_carries h hreply
    obtain ⟨w, hw, hcarries', hrest⟩ := encodeEvent_carries h hevent
    exact ⟨event, v, w, hevent, hv, hw, fun f => ⟨hcarries f, hcarries' f⟩, hrest⟩
  · intro s hvalid
    refine ⟨?_, ?_, ?_⟩
    · intro request reply line env env' hrequest hreply hresends hwrite
      exact resent_accepted h hvalid hrequest hreply hresends hwrite
    · intro line v env env' hline hwrite hwrite' haccepts
      exact repeated_accepted h hline hwrite hwrite' haccepts
    · intro a b v w ea eb ea' eb' ha hb hea heb hea' heb' hdisjoint
      exact commute_of_disjoint h hvalid ha hb hea heb hea' heb' hdisjoint

/-- A request that sets one field. -/
def setting (f : ConfigField) (value : Json) : Json :=
  .object [field "type" (.str (str "set_config")), (f.key, value)]

theorem setting_requests {f : ConfigField} {value : Json} (hcanonical : value.Canonical)
    (hutf8 : value.utf8 = true) :
    Requests compactJson (setting f value).render (setting f value) := by
  have hkeys : ([field "type" (.str (str "set_config")), (f.key, value)].map Prod.fst).Nodup := by
    cases f <;> (simp only [field, List.map_cons, List.map_nil]; decide)
  have hnames : validUtf8 (str "type") = true ∧ validUtf8 (str "set_config") = true ∧
      validUtf8 f.key = true := by
    cases f <;> decide
  have hdump : compactJson.dump (setting f value) = some (setting f value).render := by
    refine if_pos ?_
    rw [setting, Json.utf8_object hkeys]
    simp [field, Json.utf8, hutf8, hnames]
  refine ⟨compactJson_lawful.parse_dump _ _ ?_ hdump, ?_⟩
  · exact Json.canonical_object hkeys (by simp [field, Json.Canonical, hcanonical])
  · exact Json.get?_object hkeys (by simp [field])

/-- The dispatcher of a daemon with the default configuration. -/
def plainDispatcher : CommandDispatcher :=
  (Daemon.init Daemon.tomlLibraries Daemon.plainStartup).dispatcher

/-- The language set twice, and the language and the clipboard set in both
orders. -/
theorem setConfig_merges_two_fields :
    let line := (setting .defaultLanguage (.str (str "en"))).render
    let s := (plainDispatcher.handleLine Daemon.tomlLibraries line {}).1
    s.configuration = { defaultLanguage := str "en" } ∧
    (s.handleLine Daemon.tomlLibraries line {}).1.configuration = s.configuration ∧
    Commute Daemon.tomlLibraries plainDispatcher line
      (setting .autoClipboard (.bool false)).render {} {} {} {} := by
  have hvalid : validate plainDispatcher.configuration = [] := by decide +kernel
  have hlanguage : Requests compactJson (setting .defaultLanguage (.str (str "en"))).render _ :=
    setting_requests trivial (by decide)
  have hclipboard : Requests compactJson (setting .autoClipboard (.bool false)).render _ :=
    setting_requests trivial rfl
  have haccepts : (plainDispatcher.handleLine Daemon.tomlLibraries
      (setting .defaultLanguage (.str (str "en"))).render {}).2.accepts compactJson = true := by
    decide +kernel
  obtain ⟨-, hrepeat, hcommute⟩ :=
    (setConfig_merges Daemon.tomlLibraries compactJson_lawful).2.2 plainDispatcher hvalid
  refine ⟨by decide +kernel, ?_, ?_⟩
  · exact (hrepeat _ _ {} {} hlanguage rfl rfl haccepts).2
  · refine hcommute _ _ _ _ {} {} {} {} hlanguage hclipboard rfl rfl rfl rfl ?_
    intro f
    cases f with
    | defaultLanguage => exact .inr rfl
    | _ => exact .inl rfl

end CommandDispatcher

end YoruSpeech

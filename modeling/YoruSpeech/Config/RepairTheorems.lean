/-
YoruSpeech.Config.RepairTheorems — decoding a document is a field-wise
repair.

`decode_toml` looks for wrong kinds and unknown policies in one pass and
for unacceptable values in a second one, over the merged configuration.
Said field by field: a value that is there, of its kind and acceptable is
taken (`TomlTable.repairs`), everything else is the default, and a field
gives one complaint exactly when it is there and not taken
(`errorsAbout_decodeTable`). Neither depends on any other key. `validate`
uses the same predicates, so decoding a printed configuration complains as
`validate` does and replaces what `validate` rejects.
-/
import YoruSpeech.Config.TomlCodecTheorems

namespace YoruSpeech

/-! ## The fields -/

/-- A field of the configuration. -/
inductive ConfigField where
  | defaultLanguage
  | selectedModel
  | autoClipboard
  | modelLoadPolicy
  | transcriptionPrompt
  deriving DecidableEq, Repr

namespace ConfigField

/-- Its name in the file and in errors. -/
def key : ConfigField → Bytes
  | defaultLanguage => str "default_language"
  | selectedModel => str "selected_model"
  | autoClipboard => str "auto_clipboard"
  | modelLoadPolicy => str "model_load_policy"
  | transcriptionPrompt => str "transcription_prompt"

theorem key_inj {f g : ConfigField} : f.key = g.key ↔ f = g := by
  refine ⟨?_, fun h => h ▸ rfl⟩
  cases f <;> cases g <;> first | exact fun _ => rfl | (intro h; revert h; decide)

end ConfigField

/-- How many of the errors are about the field. -/
def errorsAbout (f : ConfigField) (errors : List ValidationError) : Nat :=
  errors.countP (·.field = f.key)

@[simp] theorem errorsAbout_append (f : ConfigField) (es es' : List ValidationError) :
    errorsAbout f (es ++ es') = errorsAbout f es + errorsAbout f es' := List.countP_append

/-- One complaint about a field, or none. -/
def complain (f : ConfigField) (bad : Bool) (message : Bytes) : List ValidationError :=
  if bad then [⟨f.key, message⟩] else []

@[simp] theorem errorsAbout_complain (f g : ConfigField) (bad : Bool) (message : Bytes) :
    errorsAbout f (complain g bad message) = if f = g ∧ bad = true then 1 else 0 := by
  cases bad with
  | false => simp [complain, errorsAbout]
  | true =>
    by_cases h : f = g
    · simp [complain, errorsAbout, h]
    · have hkey : g.key ≠ f.key := fun heq => h (ConfigField.key_inj.mp heq).symm
      simp [complain, errorsAbout, h, hkey]

theorem field_of_mem_complain {f : ConfigField} {bad : Bool} {message : Bytes}
    {e : ValidationError} (h : e ∈ complain f bad message) : ∃ g : ConfigField, e.field = g.key := by
  unfold complain at h
  split at h
  · rw [List.mem_singleton] at h
    exact ⟨f, h ▸ rfl⟩
  · cases h

/-! ## What a document holds -/

namespace TomlTable

variable (root : TomlTable)

/-- The value under the field's key, if it is there and of the kind asked
for. -/
def get? {α : Type} (f : ConfigField) (value : Bytes → Option α) : Option α :=
  if root.contains f.key then value f.key else none

/-- The acceptable value of each field. -/
def language? : Option Bytes :=
  (root.get? .defaultLanguage root.string).filter isValidLanguageCode

def model? : Option Bytes := (root.get? .selectedModel root.string).filter isValidModelName

def clipboard? : Option Bool := root.get? .autoClipboard root.boolean

def policy? : Option ModelLoadPolicy :=
  (root.get? .modelLoadPolicy root.string).bind parseModelLoadPolicy

def prompt? : Option Bytes := root.get? .transcriptionPrompt root.string

def accepts : ConfigField → Bool
  | .defaultLanguage => root.language?.isSome
  | .selectedModel => root.model?.isSome
  | .autoClipboard => root.clipboard?.isSome
  | .modelLoadPolicy => root.policy?.isSome
  | .transcriptionPrompt => root.prompt?.isSome

/-- The document's acceptable values, and the defaults for the rest. -/
def repairs (defaults : Configuration) : Configuration where
  defaultLanguage := root.language?.getD defaults.defaultLanguage
  selectedModel := root.model?.getD defaults.selectedModel
  autoClipboard := root.clipboard?.getD defaults.autoClipboard
  modelLoadPolicy := root.policy?.getD defaults.modelLoadPolicy
  transcriptionPrompt := root.prompt?.getD defaults.transcriptionPrompt

end TomlTable

/-! ## The two passes -/

/-- The first pass at one field. -/
theorem readKey_eq {α : Type} (root : TomlTable) (f : ConfigField) (key kind : String)
    (hkey : f.key = str key) (value : Bytes → Option α) :
    readKey root key kind value =
      (root.get? f value,
        complain f (root.contains f.key && (value f.key).isNone) (str ("expected a " ++ kind))) := by
  unfold readKey TomlTable.get? complain
  rw [← hkey]
  cases root.contains f.key with
  | false => simp
  | true => cases value f.key <;> simp

theorem readPolicy_eq (root : TomlTable) :
    ∃ message, readPolicy root =
      (root.policy?, complain .modelLoadPolicy
        (root.contains (ConfigField.key .modelLoadPolicy) && root.policy?.isNone) message) := by
  unfold readPolicy
  rw [readKey_eq root .modelLoadPolicy "model_load_policy" "string" rfl]
  simp only [TomlTable.policy?, TomlTable.get?]
  cases hcontains : root.contains (ConfigField.key .modelLoadPolicy) with
  | false => exact ⟨[], by simp [complain]⟩
  | true =>
    cases hvalue : root.string (ConfigField.key .modelLoadPolicy) with
    | none => exact ⟨str "expected a string", by simp⟩
    | some name =>
      refine ⟨kModelLoadPolicyMessage, ?_⟩
      cases hname : parseModelLoadPolicy name with
      | none => simp [hname, complain, ConfigField.key]
      | some policy => simp [hname, complain]

/-- The second pass. -/
theorem validate_eq (c : Configuration) :
    validate c =
      complain .defaultLanguage (!isValidLanguageCode c.defaultLanguage) kLanguageCodeMessage ++
      complain .selectedModel (!isValidModelName c.selectedModel) kModelNameMessage := by
  unfold validate complain
  cases isValidLanguageCode c.defaultLanguage <;> cases isValidModelName c.selectedModel <;> rfl

/-- A value of a checked field after both passes. -/
theorem checked_getD (valid : Bytes → Bool) (default : Bytes) (value : Option Bytes) :
    (if valid (value.getD default) then value.getD default else default) =
      (value.filter valid).getD default := by
  cases value with
  | none => simp
  | some v =>
    by_cases hv : valid v = true
    · simp [Option.filter, hv]
    · simp [Option.filter, hv]

section Decode

variable {root : TomlTable} {defaults : Configuration}

/-- **The configuration is the repaired one.** -/
theorem decodeTable_configuration (root : TomlTable) (defaults : Configuration) :
    (decodeTable root defaults).configuration = root.repairs defaults := by
  obtain ⟨message, hpolicy⟩ := readPolicy_eq root
  simp only [decodeTable, TomlTable.repairs, hpolicy,
    readKey_eq root .defaultLanguage "default_language" "string" rfl,
    readKey_eq root .selectedModel "selected_model" "string" rfl,
    readKey_eq root .autoClipboard "auto_clipboard" "boolean" rfl,
    readKey_eq root .transcriptionPrompt "transcription_prompt" "string" rfl,
    checked_getD]
  rfl

/-- The complaints, of the first pass and then of the second. -/
theorem decodeTable_errors (root : TomlTable) (defaults : Configuration) :
    ∃ message, (decodeTable root defaults).errors =
      complain .defaultLanguage (root.contains (ConfigField.key .defaultLanguage) &&
        (root.string (ConfigField.key .defaultLanguage)).isNone) (str "expected a string") ++
      complain .selectedModel (root.contains (ConfigField.key .selectedModel) &&
        (root.string (ConfigField.key .selectedModel)).isNone) (str "expected a string") ++
      complain .autoClipboard (root.contains (ConfigField.key .autoClipboard) &&
        (root.boolean (ConfigField.key .autoClipboard)).isNone) (str "expected a boolean") ++
      complain .modelLoadPolicy (root.contains (ConfigField.key .modelLoadPolicy) &&
        root.policy?.isNone) message ++
      complain .transcriptionPrompt (root.contains (ConfigField.key .transcriptionPrompt) &&
        (root.string (ConfigField.key .transcriptionPrompt)).isNone) (str "expected a string") ++
      (complain .defaultLanguage (!isValidLanguageCode
          ((root.get? .defaultLanguage root.string).getD defaults.defaultLanguage))
          kLanguageCodeMessage ++
        complain .selectedModel (!isValidModelName
          ((root.get? .selectedModel root.string).getD defaults.selectedModel))
          kModelNameMessage) := by
  obtain ⟨message, hpolicy⟩ := readPolicy_eq root
  refine ⟨message, ?_⟩
  simp only [decodeTable, hpolicy, validate_eq,
    readKey_eq root .defaultLanguage "default_language" "string" rfl,
    readKey_eq root .selectedModel "selected_model" "string" rfl,
    readKey_eq root .autoClipboard "auto_clipboard" "boolean" rfl,
    readKey_eq root .transcriptionPrompt "transcription_prompt" "string" rfl]
  rfl

/-- A checked field is complained about once over the two passes: its value
is of the wrong kind, and then the default is checked, or it is of the right
kind and is checked itself. -/
theorem checked_once {valid : Bytes → Bool} {default : Bytes} (hdefault : valid default = true)
    (root : TomlTable) (f : ConfigField) :
    ((if (root.contains f.key && (root.string f.key).isNone) = true then 1 else 0) +
      if (!valid ((root.get? f root.string).getD default)) = true then 1 else 0) =
    if (root.contains f.key && ((root.get? f root.string).filter valid).isNone) = true then 1
      else 0 := by
  unfold TomlTable.get?
  cases root.contains f.key with
  | false => simp [hdefault]
  | true =>
    cases root.string f.key with
    | none => simp [hdefault]
    | some v => cases hv : valid v <;> simp [Option.filter, hv]

theorem isNone_and_iff {α : Type} {b : Bool} {value : Option α} :
    (b && value.isNone) = true ↔ b = true ∧ value.isSome = false := by
  cases b <;> cases value <;> simp

/-- **One complaint for each field that is there and not acceptable.** -/
theorem errorsAbout_decodeTable (h : validate defaults = []) (f : ConfigField) :
    errorsAbout f (decodeTable root defaults).errors =
      if root.contains f.key = true ∧ root.accepts f = false then 1 else 0 := by
  obtain ⟨hlanguage, hmodel⟩ := validate_eq_nil_iff.mp h
  obtain ⟨message, herrors⟩ := decodeTable_errors root defaults
  have honce := checked_once hlanguage root .defaultLanguage
  have honce' := checked_once hmodel root .selectedModel
  rw [herrors]
  -- only the complaints about the field itself count
  cases f <;> simp only [errorsAbout_append, errorsAbout_complain, reduceCtorEq, false_and,
    true_and, if_false, Nat.add_zero, Nat.zero_add]
  case defaultLanguage =>
    rw [honce]
    simp only [isNone_and_iff]
    rfl
  case selectedModel =>
    rw [honce']
    simp only [isNone_and_iff]
    rfl
  case modelLoadPolicy =>
    simp only [isNone_and_iff]
    rfl
  case autoClipboard =>
    cases hc : root.contains (ConfigField.key .autoClipboard) <;>
      simp [TomlTable.accepts, TomlTable.clipboard?, TomlTable.get?, hc]
  case transcriptionPrompt =>
    cases hc : root.contains (ConfigField.key .transcriptionPrompt) <;>
      simp [TomlTable.accepts, TomlTable.prompt?, TomlTable.get?, hc]

theorem field_of_mem_errors {e : ValidationError} (h : e ∈ (decodeTable root defaults).errors) :
    ∃ f : ConfigField, e.field = f.key := by
  obtain ⟨message, herrors⟩ := decodeTable_errors root defaults
  rw [herrors] at h
  simp only [List.mem_append] at h
  rcases h with ((((h | h) | h) | h) | h) | h | h
  all_goals exact field_of_mem_complain h

end Decode

/-! ## A printed configuration -/

namespace Configuration

/-- `validate` complains about the field. -/
def rejects (c : Configuration) (f : ConfigField) : Bool := (validate c).any (·.field = f.key)

/-- The configuration with what `validate` rejects replaced by the
defaults. -/
def repaired (c defaults : Configuration) : Configuration where
  defaultLanguage :=
    if c.rejects .defaultLanguage then defaults.defaultLanguage else c.defaultLanguage
  selectedModel := if c.rejects .selectedModel then defaults.selectedModel else c.selectedModel
  autoClipboard := if c.rejects .autoClipboard then defaults.autoClipboard else c.autoClipboard
  modelLoadPolicy :=
    if c.rejects .modelLoadPolicy then defaults.modelLoadPolicy else c.modelLoadPolicy
  transcriptionPrompt :=
    if c.rejects .transcriptionPrompt then defaults.transcriptionPrompt else c.transcriptionPrompt

theorem rejects_eq (c : Configuration) (f : ConfigField) :
    c.rejects f =
      match f with
      | .defaultLanguage => !isValidLanguageCode c.defaultLanguage
      | .selectedModel => !isValidModelName c.selectedModel
      | _ => false := by
  have hany : ∀ g bad message,
      (complain g bad message).any (·.field = f.key) = (bad && decide (f = g)) := by
    intro g bad message
    cases bad with
    | false => rfl
    | true => simp [complain, ConfigField.key_inj, eq_comm]
  rw [rejects, validate_eq, List.any_append, hany, hany]
  cases f <;> simp

end Configuration

/-- toml++ gives the table of the configuration back. -/
def TomlLib.ReadsBack (toml : TomlLib) (c : Configuration) : Prop :=
  ∃ root, toml.parse (toml.print c.fields) = .ok root ∧ ∀ f ∈ c.fields, root.Holds f.1 f.2

theorem TomlLib.RoundTrips.readsBack {toml : TomlLib} (h : toml.RoundTrips) {c : Configuration}
    (hutf8 : allUtf8 c.texts = true) : toml.ReadsBack c :=
  h c.fields (Configuration.fields_printable hutf8)

theorem decodeTable_fields {root : TomlTable} {c : Configuration}
    (hholds : ∀ f ∈ c.fields, root.Holds f.1 f.2) (defaults : Configuration) :
    decodeTable root defaults =
      { configuration := c.repaired defaults, errors := validate c } := by
  simp only [Configuration.fields, List.forall_mem_cons, List.not_mem_nil, false_implies,
    implies_true, and_true] at hholds
  obtain ⟨hl, hm, hc, hp, ht⟩ := hholds
  simp only [decodeTable, readKey_string hl, readKey_string hm, readKey_boolean hc,
    readPolicy_name hp, readKey_string ht, Option.getD_some, Configuration.repaired,
    Configuration.rejects_eq, List.append_nil, List.nil_append, Bool.false_eq_true, if_false]
  cases isValidLanguageCode c.defaultLanguage <;> cases isValidModelName c.selectedModel <;> rfl

/-- **Decoding is a field-wise repair that agrees with `validate`.** With
valid defaults, whatever the document that parses: the result is valid,
every field is the document's value when it is there, of its kind and
acceptable, and the default otherwise, and there is one error for every
field that is there but not acceptable, and none besides. Decoding a printed
configuration gives it back with what `validate` rejects replaced, and the
errors are those of `validate`. -/
theorem decodeToml_repairs (toml : TomlLib) {defaults : Configuration}
    (hdefaults : validate defaults = []) :
    (∀ source root, toml.parse source = .ok root →
      validate (decodeToml toml source defaults).configuration = [] ∧
      (decodeToml toml source defaults).configuration = root.repairs defaults ∧
      (∀ f, errorsAbout f (decodeToml toml source defaults).errors =
        if root.contains f.key = true ∧ root.accepts f = false then 1 else 0) ∧
      ∀ e ∈ (decodeToml toml source defaults).errors, ∃ f : ConfigField, e.field = f.key) ∧
    ∀ c, toml.ReadsBack c → decodeToml toml (encodeToml toml c) defaults =
      { configuration := c.repaired defaults, errors := validate c } := by
  constructor
  · intro source root hparse
    have hdecode : decodeToml toml source defaults = decodeTable root defaults := by
      rw [decodeToml, hparse]
    have hvalid := validate_decodeToml toml source hdefaults
    rw [hdecode] at hvalid ⊢
    exact ⟨hvalid, decodeTable_configuration root defaults,
      errorsAbout_decodeTable hdefaults, fun e he => field_of_mem_errors he⟩
  · rintro c ⟨root, hparse, hholds⟩
    rw [encodeToml_eq, decodeToml, hparse]
    exact decodeTable_fields hholds defaults

/-- A language that is not acceptable, in a configuration that is printed
and read back. -/
theorem decodeToml_repairs_language :
    decodeToml plainToml (encodeToml plainToml { defaultLanguage := str "EN" }) {} =
      { configuration := {}, errors := [⟨str "default_language", kLanguageCodeMessage⟩] } := by
  have hreads : plainToml.ReadsBack { defaultLanguage := str "EN" } :=
    plainToml_roundTrips.readsBack (by decide)
  rw [(decodeToml_repairs plainToml validate_default).2 _ hreads]
  decide

end YoruSpeech

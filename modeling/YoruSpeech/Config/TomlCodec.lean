/-
YoruSpeech.Config.TomlCodec — validation and the on-disk format of the
configuration (`domains/config/toml_codec.cpp`).

toml++ is a parameter, `TomlLib`. A parsed document is seen through the
three questions the codec asks it: whether a key is there, and what
`value<std::string>()` and `value<bool>()` answer for it.
-/
import YoruSpeech.Core.Event

namespace YoruSpeech

/-- A value the codec writes. -/
inductive TomlValue where
  | string (s : Bytes)
  | boolean (b : Bool)
  deriving DecidableEq, Repr

/-- A parsed document, as the codec reads it. -/
structure TomlTable where
  contains : Bytes → Bool
  /-- `root[key].value<std::string>()`. -/
  string : Bytes → Option Bytes
  /-- `root[key].value<bool>()`. -/
  boolean : Bytes → Option Bool

/-- The part of toml++ the codec uses. -/
structure TomlLib where
  /-- `toml::parse`, or the description of the `parse_error`. -/
  parse : Bytes → Except Bytes TomlTable
  /-- Streaming a table out. -/
  print : List (Bytes × TomlValue) → Bytes

/-- `config::ValidationError`. -/
structure ValidationError where
  field : Bytes
  message : Bytes
  deriving DecidableEq, Repr

/-- `std::islower` in the C locale. -/
def isLower (b : UInt8) : Bool := 97 ≤ b ∧ b ≤ 122

/-- `is_valid_language_code`. -/
def isValidLanguageCode (value : Bytes) : Bool :=
  if value = str "auto" then true
  else
    match value with
    | [a, b] => isLower a && isLower b
    | _ => false

/-- `is_valid_model_name`. -/
def isValidModelName (value : Bytes) : Bool := !value.isEmpty

/-- `kLanguageCodeMessage`. -/
def kLanguageCodeMessage : Bytes := str "must be \"auto\" or a 2-letter language code"

/-- `kModelNameMessage`. -/
def kModelNameMessage : Bytes := str "must not be empty"

/-- `kModelLoadPolicyMessage`. -/
def kModelLoadPolicyMessage : Bytes := str "must be \"on_demand\" or \"always_loaded\""

/-- `validate`. -/
def validate (c : Configuration) : List ValidationError :=
  (if isValidLanguageCode c.defaultLanguage then []
    else [⟨str "default_language", kLanguageCodeMessage⟩]) ++
  (if isValidModelName c.selectedModel then []
    else [⟨str "selected_model", kModelNameMessage⟩])

/-- `encode_toml`. -/
def encodeToml (toml : TomlLib) (c : Configuration) : Bytes :=
  toml.print
    [(str "default_language", .string c.defaultLanguage),
      (str "selected_model", .string c.selectedModel),
      (str "auto_clipboard", .boolean c.autoClipboard),
      (str "model_load_policy", .string c.modelLoadPolicy.name),
      (str "transcription_prompt", .string c.transcriptionPrompt)]

/-- `config::DecodedConfiguration`. -/
structure DecodedConfiguration where
  configuration : Configuration
  errors : List ValidationError
  deriving DecidableEq, Repr

/-- One key of the document: the value it holds, if the key is there and of
the kind asked for, and the complaint otherwise. -/
def readKey {α : Type} (root : TomlTable) (key kind : String)
    (value : Bytes → Option α) : Option α × List ValidationError :=
  if root.contains (str key) then
    match value (str key) with
    | some a => (some a, [])
    | none => (none, [⟨str key, str ("expected a " ++ kind)⟩])
  else (none, [])

/-- `model_load_policy`, whose value must also be one of the two names. -/
def readPolicy (root : TomlTable) : Option ModelLoadPolicy × List ValidationError :=
  match readKey root "model_load_policy" "string" root.string with
  | (some name, errors) =>
    match parseModelLoadPolicy name with
    | some policy => (some policy, errors)
    | none => (none, [⟨str "model_load_policy", kModelLoadPolicyMessage⟩])
  | (none, errors) => (none, errors)

/-- `decode_toml`, behind `toml::parse`. -/
def decodeTable (root : TomlTable) (defaults : Configuration) : DecodedConfiguration :=
  let language := readKey root "default_language" "string" root.string
  let model := readKey root "selected_model" "string" root.string
  let clipboard := readKey root "auto_clipboard" "boolean" root.boolean
  let policy := readPolicy root
  let prompt := readKey root "transcription_prompt" "string" root.string
  let merged : Configuration := {
    defaultLanguage := language.1.getD defaults.defaultLanguage
    selectedModel := model.1.getD defaults.selectedModel
    autoClipboard := clipboard.1.getD defaults.autoClipboard
    modelLoadPolicy := policy.1.getD defaults.modelLoadPolicy
    transcriptionPrompt := prompt.1.getD defaults.transcriptionPrompt }
  -- what fails validation falls back to its default
  { configuration := { merged with
      defaultLanguage :=
        if isValidLanguageCode merged.defaultLanguage then merged.defaultLanguage
        else defaults.defaultLanguage
      selectedModel :=
        if isValidModelName merged.selectedModel then merged.selectedModel
        else defaults.selectedModel }
    errors := language.2 ++ model.2 ++ clipboard.2 ++ policy.2 ++ prompt.2 ++ validate merged }

/-- `decode_toml`. -/
def decodeToml (toml : TomlLib) (source : Bytes) (defaults : Configuration) :
    DecodedConfiguration :=
  match toml.parse source with
  | .error description =>
    { configuration := defaults, errors := [⟨str "<file>", description⟩] }
  | .ok root => decodeTable root defaults

end YoruSpeech

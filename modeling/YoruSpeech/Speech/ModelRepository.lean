/-
YoruSpeech.Speech.ModelRepository — which files of the models directory
are models (`domains/speech/model_repository.cpp`).

A directory listing is the list of entries `directory_iterator` yields
before its end or its first error, empty when the directory cannot be
opened. File names are byte strings: the kernel does not ask for UTF-8.
`to_lower` and the comparison of tokens are those of the C locale.
-/
import YoruSpeech.Core.Event

namespace YoruSpeech

/-- One entry of the models directory. -/
structure DirectoryEntry where
  filename : Bytes
  /-- `is_regular_file` answered true without an error. -/
  regularFile : Bool := true
  deriving DecidableEq, Repr

/-- `path::stem` and `path::extension` of a file name: cut at its last dot,
unless that is its first byte. -/
def splitExtension (filename : Bytes) : Bytes × Bytes :=
  let reversed := filename.reverse
  let extension := reversed.takeWhile (· ≠ 46)
  let stem := (reversed.drop (extension.length + 1)).reverse
  if stem = [] ∨ filename = str ".." then (filename, [])
  else (stem, 46 :: extension.reverse)

/-- `std::tolower` of a byte. -/
def toLowerByte (b : UInt8) : UInt8 := if 65 ≤ b ∧ b ≤ 90 then b + 32 else b

/-- `to_lower`. -/
def toLower (bytes : Bytes) : Bytes := bytes.map toLowerByte

/-- `'-'`, `'.'` or `'_'`. -/
def isDelimiter (b : UInt8) : Bool := b = 45 ∨ b = 46 ∨ b = 95

/-- The loop of `split_tokens`, with the token read so far. -/
def splitTokensFrom (current : Bytes) : Bytes → List Bytes
  | [] => if current = [] then [] else [current]
  | b :: rest =>
    if isDelimiter b then
      if current = [] then splitTokensFrom [] rest
      else current :: splitTokensFrom [] rest
    else splitTokensFrom (current ++ [b]) rest

/-- `split_tokens`. -/
def splitTokens (lowerFilename : Bytes) : List Bytes := splitTokensFrom [] lowerFilename

/-- `kSizeTokens`. -/
def sizeToken (token : Bytes) : Option ModelSize :=
  if token = str "tiny" then some .tiny
  else if token = str "base" then some .base
  else if token = str "small" then some .small
  else if token = str "medium" then some .medium
  else if token = str "large" then some .large
  else none

/-- `infer_size`. -/
def inferSize (tokens : List Bytes) : Option ModelSize := tokens.findSome? sizeToken

/-- `infer_supported_language`. -/
def inferSupportedLanguage (tokens : List Bytes) : Bytes :=
  if tokens.contains (str "en") then str "en" else str "multi"

/-- `directory / filename`. -/
def joinPath (directory filename : Bytes) : Bytes :=
  if directory = [] ∨ directory.getLast? = some 47 then directory ++ filename
  else directory ++ 47 :: filename

/-- The model an entry is, if it is one. -/
def modelOfEntry (directory : Bytes) (entry : DirectoryEntry) : Option Model :=
  let (stem, extension) := splitExtension entry.filename
  if extension ≠ str ".bin" then none
  else if !entry.regularFile then none
  else
    let tokens := splitTokens (toLower entry.filename)
    match inferSize tokens with
    | none => none
    | some size => some {
        name := stem
        size := size
        supportedLanguage := inferSupportedLanguage tokens
        path := joinPath directory entry.filename
        backend := str "whisper.cpp" }

/-- `list_available_models`. -/
def listAvailableModels (directory : Bytes) (entries : List DirectoryEntry) : List Model :=
  entries.filterMap (modelOfEntry directory)

/-- `find_model`. -/
def findModel (available : List Model) (name : Bytes) : Option Model :=
  available.find? fun model => model.name = name

example : (listAvailableModels (str "/m")
    [⟨str "ggml-Tiny.en-q5_1.bin", true⟩, ⟨str "notes-database.bin", true⟩]).map (·.name) =
    [str "ggml-Tiny.en-q5_1"] := by decide

end YoruSpeech

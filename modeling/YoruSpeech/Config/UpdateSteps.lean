/-
YoruSpeech.Config.UpdateSteps — `ConfigurationManager::update`, one
file-system step at a time (`domains/config/configuration_manager.cpp`).

`ConfigurationManager.update` runs from beginning to end. Here the same
function stops after every call that reaches the file system, so that a
process that ends in between is a run that is not continued: opening the
temporary file (which empties it), the writes behind `stream << contents`
and `flush()` (any number of them, of any size), `rename`, and `remove`.
What the file system answers is the input of each step.
-/
import YoruSpeech.Config.ConfigurationManager

namespace YoruSpeech

/-- Where `update()` is. -/
inductive UpdatePoint where
  | validating
  /-- `std::ofstream stream(temp_path, ...)` is next. -/
  | opening
  /-- The temporary file is open; this much is not written yet. -/
  | writing (rest : Bytes)
  /-- It is written and closed; `std::filesystem::rename` is next. -/
  | closed
  /-- The rename failed; `std::filesystem::remove` is next. -/
  | removing (errno : Nat)
  /-- The file is in place; the configuration in memory is next. -/
  | committing
  | returned (errors : List ValidationError)
  deriving DecidableEq, Repr

/-- What the file system answers. -/
inductive FileAnswer where
  | ok
  /-- A write took this many bytes. -/
  | wrote (count : Nat)
  | failed (errno : Nat)
  deriving DecidableEq, Repr

/-- A call of `update(next)`. -/
structure Updating where
  manager : ConfigurationManager
  point : UpdatePoint := .validating
  published : List Event := []

namespace Updating

def tempPath (s : Updating) : Bytes := YoruSpeech.tempPath s.manager.configPath s.manager.pid

/-- The call goes on at `point`. -/
def goTo (s : Updating) (point : UpdatePoint) : Updating := { s with point := point }

/-- `return {ValidationError{"<file>", message}}`. -/
def fail (s : Updating) (message : Bytes) : Updating :=
  s.goTo (.returned (ConfigurationManager.fileError message))

def setFiles (s : Updating) (files : Files) : Updating :=
  { s with manager := { s.manager with files := files } }

/-- The next step of the call. -/
def step (lib : ConfigLib) (next : Configuration) (s : Updating) (answer : FileAnswer) :
    Option Updating :=
  let files := s.manager.files
  match s.point, answer with
  | .validating, .ok =>
    match validate next with
    | [] => some (s.goTo .opening)
    | errors => some (s.goTo (.returned errors))
  | .opening, .ok =>
    some ((s.setFiles (files.set s.tempPath (some []))).goTo (.writing (encodeToml lib.toml next)))
  | .opening, .failed _ => some (s.fail (str "failed to open temporary file for writing"))
  | .writing rest, .wrote count =>
    let written := (files s.tempPath).getD [] ++ rest.take count
    some ((s.setFiles (files.set s.tempPath (some written))).goTo (.writing (rest.drop count)))
  | .writing [], .ok => some (s.goTo .closed)
  | .writing _, .failed _ => some (s.fail (str "failed to write temporary file"))
  | .closed, .ok =>
    some ((s.setFiles ((files.set s.tempPath none).set s.manager.configPath
      (files s.tempPath))).goTo .committing)
  | .closed, .failed errno => some (s.goTo (.removing errno))
  | .removing errno, .ok =>
    some ((s.setFiles (files.set s.tempPath none)).fail
      (str "failed to move temporary file into place: " ++ lib.strerror errno))
  | .removing errno, .failed _ =>
    some (s.fail (str "failed to move temporary file into place: " ++ lib.strerror errno))
  | .committing, .ok =>
    some { s with
      manager := { s.manager with configuration := next }
      point := .returned []
      published := s.published ++ [.configurationChanged next] }
  | _, _ => none

end Updating

end YoruSpeech

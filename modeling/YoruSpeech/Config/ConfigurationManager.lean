/-
YoruSpeech.Config.ConfigurationManager — the configuration in memory and
on disk (`domains/config/configuration_manager.cpp`).

The file system is a map from paths to contents; whether a step on it
succeeds is an input. An error text is `std::strerror`'s, a parameter.
`update` publishes `ConfigurationChanged`; the caller runs the handlers.
-/
import YoruSpeech.Config.TomlCodec
import YoruSpeech.Lib.JsonText

namespace YoruSpeech

/-- The files, by path. -/
abbrev Files := Bytes → Option Bytes

def Files.set (files : Files) (path : Bytes) (contents : Option Bytes) : Files :=
  fun x => if x = path then contents else files x

/-- How far `write_file_atomically` gets. -/
inductive WriteOutcome where
  | done
  | openFailed
  /-- The stream is bad after the flush; this much reached the file. -/
  | writeFailed (written : Bytes)
  /-- `rename` fails, and the removal of the temporary file as well or
  not. -/
  | renameFailed (errno : Nat) (removed : Bool)
  deriving DecidableEq, Repr

/-- The libraries below the configuration. -/
structure ConfigLib where
  toml : TomlLib
  strerror : Nat → Bytes

/-- What the code relies on: toml++ accepts UTF-8 documents only, and the
messages of the C library are ASCII in the C locale, in which the daemon
runs. -/
structure ConfigLib.Lawful (lib : ConfigLib) : Prop where
  toml_utf8 : ∀ source root key s, lib.toml.parse source = .ok root → root.string key = some s →
    Lib.validUtf8 s = true
  strerror_utf8 : ∀ errno, Lib.validUtf8 (lib.strerror errno) = true

/-- The path of the temporary file. -/
def tempPath (path : Bytes) (pid : Nat) : Bytes := path ++ str ".tmp." ++ Lib.Json.digits pid

/-- `write_file_atomically`: the files afterwards, and the error message. -/
def writeFileAtomically (strerror : Nat → Bytes) (files : Files) (path : Bytes) (pid : Nat)
    (contents : Bytes) : WriteOutcome → Files × Option Bytes
  | .openFailed => (files, some (str "failed to open temporary file for writing"))
  | .writeFailed written =>
    (files.set (tempPath path pid) (some written), some (str "failed to write temporary file"))
  | .renameFailed errno removed =>
    (if removed then files.set (tempPath path pid) none
      else files.set (tempPath path pid) (some contents),
      some (str "failed to move temporary file into place: " ++ strerror errno))
  | .done => ((files.set (tempPath path pid) none).set path (some contents), none)

/-- `config::ConfigurationManager`, with the files it works on. -/
structure ConfigurationManager where
  configPath : Bytes
  pid : Nat
  files : Files := fun _ => none
  configuration : Configuration := {}

/-- How the reading of a file that is there ends. -/
inductive ReadOutcome where
  | done
  | openFailed
  /-- A read fails after this many bytes; that of a directory fails at
  once. -/
  | cut (length : Nat)
  deriving DecidableEq, Repr

/-- `read_file`. The failure of a read is thrown by the file buffer and
caught by the `operator<<` that copies it; the bad bit it sets is that of
`contents`. The one the code then looks at is that of `stream`, which the
copy does not touch, so what was read before passes for the file. -/
def readFile (contents : Bytes) : ReadOutcome → Except Bytes Bytes
  | .done => .ok contents
  | .openFailed => .error (str "failed to open file for reading")
  | .cut length => .ok (contents.take length)

/-- What the file system answers to `load()`. -/
structure LoadInput where
  /-- The `error_code` of `create_directories`, if it is set. -/
  createError : Option Nat := none
  /-- That of `exists`. -/
  existsError : Option Nat := none
  read : ReadOutcome := .done
  write : WriteOutcome := .done
  deriving DecidableEq, Repr

namespace ConfigurationManager

/-- The error list of a failure of the file itself. -/
def fileError (message : Bytes) : List ValidationError := [⟨str "<file>", message⟩]

/-- `load`. -/
def load (lib : ConfigLib) (m : ConfigurationManager) (inp : LoadInput) :
    ConfigurationManager × List ValidationError :=
  let defaults := { m with configuration := {} }
  match inp.createError with
  | some errno =>
    (defaults, fileError (str "failed to create config directory: " ++ lib.strerror errno))
  | none =>
    match inp.existsError with
    | some errno =>
      (defaults, fileError (str "failed to check config file: " ++ lib.strerror errno))
    | none =>
      match m.files m.configPath with
      | none =>
        let (files, error) := writeFileAtomically lib.strerror m.files m.configPath m.pid
          (encodeToml lib.toml {}) inp.write
        ({ defaults with files := files }, (error.map fileError).getD [])
      | some contents =>
        match readFile contents inp.read with
        | .error message => (defaults, fileError message)
        | .ok contents =>
          let decoded := decodeToml lib.toml contents {}
          ({ m with configuration := decoded.configuration }, decoded.errors)

/-- `update`: the manager afterwards and the errors. `ConfigurationChanged`
is published exactly when there are none. -/
def update (lib : ConfigLib) (m : ConfigurationManager) (next : Configuration)
    (write : WriteOutcome) : ConfigurationManager × List ValidationError :=
  match validate next with
  | [] =>
    let (files, error) := writeFileAtomically lib.strerror m.files m.configPath m.pid
      (encodeToml lib.toml next) write
    match error with
    | some message => ({ m with files := files }, fileError message)
    | none => ({ m with files := files, configuration := next }, [])
  | errors => (m, errors)

end ConfigurationManager

end YoruSpeech

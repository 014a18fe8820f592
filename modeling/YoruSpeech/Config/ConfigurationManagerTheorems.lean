/-
YoruSpeech.Config.ConfigurationManagerTheorems — what `load` and `update`
leave in memory and on disk.

A write that does not complete stays in the temporary file
(`writeFileAtomically_cases`), so an update is all or nothing: it is
refused and neither the configuration nor its file changes, or both become
the new one (`update_cases`).

`Persisted` says that the file decodes to the configuration in memory. It
holds after every `load` that could read the file or create it
(`load_persisted`), and an update keeps it.
-/
import YoruSpeech.Config.TomlCodecTheorems

namespace YoruSpeech

/-! ## Writing -/

@[simp] theorem Files.set_self (files : Files) (path : Bytes) (contents : Option Bytes) :
    files.set path contents path = contents := if_pos rfl

theorem Files.set_of_ne (files : Files) {path other : Bytes} (contents : Option Bytes)
    (h : other ≠ path) : files.set path contents other = files other := if_neg h

theorem tempPath_ne (path : Bytes) (pid : Nat) : path ≠ tempPath path pid := by
  intro h
  have hlength := congrArg List.length h
  have hsuffix : (str ".tmp.").length = 5 := by decide
  simp only [tempPath, List.length_append, hsuffix] at hlength
  omega

/-- The write completes, or it reports an error and the file itself is as
it was. -/
theorem writeFileAtomically_cases (strerror : Nat → Bytes) (files : Files) (path : Bytes)
    (pid : Nat) (contents : Bytes) (outcome : WriteOutcome) :
    (outcome = .done ∧
      ∃ files', writeFileAtomically strerror files path pid contents outcome = (files', none) ∧
        files' path = some contents) ∨
    (outcome ≠ .done ∧
      ∃ files' message,
        writeFileAtomically strerror files path pid contents outcome = (files', some message) ∧
        files' path = files path) := by
  have hframe : ∀ c, files.set (tempPath path pid) c path = files path :=
    fun c => files.set_of_ne c (tempPath_ne path pid)
  cases outcome with
  | done => exact .inl ⟨rfl, _, rfl, Files.set_self _ _ _⟩
  | openFailed => exact .inr ⟨by simp, _, _, rfl, rfl⟩
  | writeFailed written => exact .inr ⟨by simp, _, _, rfl, hframe _⟩
  | renameFailed errno removed =>
    cases removed with
    | true => exact .inr ⟨by simp, _, _, rfl, hframe _⟩
    | false => exact .inr ⟨by simp, _, _, rfl, hframe _⟩

namespace ConfigurationManager

variable {lib : ConfigLib} {m m' : ConfigurationManager} {next : Configuration}
  {write : WriteOutcome}

/-! ## Updating -/

/-- The configuration and its file are the same in both. -/
structure Same (m m' : ConfigurationManager) : Prop where
  configPath : m'.configPath = m.configPath
  configuration : m'.configuration = m.configuration
  file : m'.files m.configPath = m.files m.configPath

theorem Same.refl (m : ConfigurationManager) : Same m m := ⟨rfl, rfl, rfl⟩

/-- An update is refused with an error and changes nothing, or it is
accepted without one and is in memory and on disk. -/
theorem update_cases (lib : ConfigLib) (m : ConfigurationManager) (next : Configuration)
    (write : WriteOutcome) :
    ((m.update lib next write).2 ≠ [] ∧ Same m (m.update lib next write).1) ∨
    ((m.update lib next write).2 = [] ∧ validate next = [] ∧
      (m.update lib next write).1.configPath = m.configPath ∧
      (m.update lib next write).1.configuration = next ∧
      (m.update lib next write).1.files m.configPath = some (encodeToml lib.toml next)) := by
  unfold update
  cases hvalid : validate next with
  | cons e errors => exact .inl ⟨by simp, .refl m⟩
  | nil =>
    rcases writeFileAtomically_cases lib.strerror m.files m.configPath m.pid
      (encodeToml lib.toml next) write with ⟨-, files, hwrite, hfile⟩ | ⟨-, files, e, hwrite, hfile⟩
    · simp only [hwrite]
      exact .inr ⟨trivial, trivial, trivial, trivial, hfile⟩
    · simp only [hwrite]
      exact .inl ⟨by simp [fileError], rfl, rfl, hfile⟩

/-! ## The file and the memory -/

/-- The file decodes to the configuration in memory. -/
def Persisted (lib : ConfigLib) (m : ConfigurationManager) : Prop :=
  ∃ contents, m.files m.configPath = some contents ∧
    (decodeToml lib.toml contents {}).configuration = m.configuration

theorem Persisted.of_same (h : Persisted lib m) (hs : Same m m') : Persisted lib m' := by
  obtain ⟨contents, hfile, hdecode⟩ := h
  refine ⟨contents, ?_, ?_⟩
  · rw [hs.configPath, hs.file, hfile]
  · rw [hs.configuration, hdecode]

/-- The file holds what `encode_toml` makes of the configuration in
memory. -/
theorem persisted_of_encoded (htoml : lib.toml.RoundTrips)
    (hutf8 : allUtf8 m.configuration.texts = true) (hvalid : validate m.configuration = [])
    (hfile : m.files m.configPath = some (encodeToml lib.toml m.configuration)) :
    Persisted lib m :=
  ⟨_, hfile, decodeToml_encodeToml htoml hutf8 hvalid {}⟩

/-- `load()` finds a file and reads the whole of it, or finds none and can
create it. -/
def Loads (m : ConfigurationManager) (inp : LoadInput) : Prop :=
  inp.createError = none ∧ inp.existsError = none ∧
    match m.files m.configPath with
    | some contents => readFile contents inp.read = .ok contents
    | none => inp.write = .done

theorem load_configPath (lib : ConfigLib) (m : ConfigurationManager) (inp : LoadInput) :
    (m.load lib inp).1.configPath = m.configPath := by
  unfold load
  simp only
  repeat' split
  all_goals rfl

/-- What `load()` leaves in memory is valid. -/
theorem validate_load (lib : ConfigLib) (m : ConfigurationManager) (inp : LoadInput) :
    validate (m.load lib inp).1.configuration = [] := by
  unfold load
  simp only
  split
  · exact validate_default
  · split
    · exact validate_default
    · split
      · exact validate_default
      · split
        · exact validate_default
        · exact validate_decodeToml lib.toml _ validate_default

theorem load_persisted (htoml : lib.toml.RoundTrips) {inp : LoadInput} (h : m.Loads inp) :
    Persisted lib (m.load lib inp).1 := by
  obtain ⟨hcreate, hexists, hfile⟩ := h
  unfold load
  simp only [hcreate, hexists]
  cases hpath : m.files m.configPath with
  | none =>
    rw [hpath] at hfile
    have hwrite : inp.write = .done := hfile
    have hutf8 : allUtf8 ({} : Configuration).texts = true := by decide
    refine persisted_of_encoded htoml hutf8 validate_default ?_
    simp only [hwrite, writeFileAtomically, Files.set_self]
  | some contents =>
    rw [hpath] at hfile
    have hread : readFile contents inp.read = .ok contents := hfile
    simp only [hread]
    exact ⟨contents, hpath, rfl⟩

/-- Loading the file of a daemon that persisted its configuration gives
that configuration again. -/
theorem Persisted.load_configuration (h : Persisted lib m) (hpath : m'.configPath = m.configPath)
    (hfiles : m'.files = m.files) {inp : LoadInput} (hloads : m'.Loads inp) :
    (m'.load lib inp).1.configuration = m.configuration := by
  obtain ⟨contents, hfile, hdecode⟩ := h
  obtain ⟨hcreate, hexists, hread⟩ := hloads
  have hfile' : m'.files m'.configPath = some contents := by rw [hfiles, hpath, hfile]
  rw [hfile'] at hread
  have hread' : readFile contents inp.read = .ok contents := hread
  unfold load
  simp only [hcreate, hexists, hfile', hread']
  exact hdecode

end ConfigurationManager

end YoruSpeech

/-
YoruSpeech.Config.UpdateTheorems — what a failed or interrupted update
leaves behind.

`Progress` says where the files are at every point of a call. The
configuration file itself changes in one step, the rename, so at every
moment it holds a complete document. A failed call leaves the memory, the
file and the event bus alone, but not always the directory: the path that
fails to rename removes the temporary file, the path that fails to write
does not (`failed_update_leaves_no_trace_iff`).

`returned_update` connects the steps with `ConfigurationManager.update`.
-/
import YoruSpeech.Config.UpdateSteps
import YoruSpeech.Config.ConfigurationManagerTheorems
import YoruSpeech.Lib.Transition

namespace YoruSpeech

theorem Files.set_set (files : Files) (path : Bytes) (c c' : Option Bytes) :
    (files.set path c).set path c' = files.set path c' := by
  funext x
  by_cases hx : x = path
  · subst hx
    rw [Files.set_self, Files.set_self]
  · rw [Files.set_of_ne _ _ hx, Files.set_of_ne _ _ hx, Files.set_of_ne _ _ hx]

namespace Updating

variable {lib : ConfigLib} {next : Configuration} {m : ConfigurationManager} {s s' : Updating}
  {answer : FileAnswer} {answers : List FileAnswer}

/-- The manager with other contents in the temporary file. -/
def withTemp (m : ConfigurationManager) (contents : Option Bytes) : ConfigurationManager :=
  { m with files := m.files.set (YoruSpeech.tempPath m.configPath m.pid) contents }

@[simp] theorem withTemp_self (m : ConfigurationManager) (contents : Option Bytes) :
    (withTemp m contents).files (YoruSpeech.tempPath m.configPath m.pid) = contents :=
  Files.set_self _ _ _

theorem withTemp_of_ne (m : ConfigurationManager) (contents : Option Bytes) {path : Bytes}
    (h : path ≠ YoruSpeech.tempPath m.configPath m.pid) :
    (withTemp m contents).files path = m.files path :=
  Files.set_of_ne _ _ h

/-- The manager with the new document in place. -/
def withFile (m : ConfigurationManager) (contents : Bytes) : ConfigurationManager :=
  let files := m.files.set (YoruSpeech.tempPath m.configPath m.pid) none
  { m with files := files.set m.configPath (some contents) }

/-- Where the files are at every point of a call on `m`. -/
inductive Progress (lib : ConfigLib) (next : Configuration) (m : ConfigurationManager) :
    List FileAnswer → Updating → Prop
  | validating : Progress lib next m [] ⟨m, .validating, []⟩
  | opening (answers : List FileAnswer) (valid : validate next = [])
      (quiet : ∀ e, .failed e ∉ answers) : Progress lib next m answers ⟨m, .opening, []⟩
  | writing (answers : List FileAnswer) (written rest : Bytes) (valid : validate next = [])
      (quiet : ∀ e, .failed e ∉ answers) (contents : written ++ rest = encodeToml lib.toml next) :
      Progress lib next m answers ⟨withTemp m (some written), .writing rest, []⟩
  | closed (answers : List FileAnswer) (valid : validate next = [])
      (quiet : ∀ e, .failed e ∉ answers) :
      Progress lib next m answers ⟨withTemp m (some (encodeToml lib.toml next)), .closed, []⟩
  | removing (answers : List FileAnswer) (errno : Nat) (valid : validate next = []) :
      Progress lib next m answers
        ⟨withTemp m (some (encodeToml lib.toml next)), .removing errno, []⟩
  | committing (answers : List FileAnswer) (valid : validate next = [])
      (quiet : ∀ e, .failed e ∉ answers) :
      Progress lib next m answers ⟨withFile m (encodeToml lib.toml next), .committing, []⟩
  | accepted (answers : List FileAnswer) (valid : validate next = [])
      (quiet : ∀ e, .failed e ∉ answers) :
      Progress lib next m answers
        ⟨(m.update lib next .done).1, .returned (m.update lib next .done).2,
          [.configurationChanged next]⟩
  | refused (answers : List FileAnswer) (write : WriteOutcome)
      (fails : validate next ≠ [] ∨ write ≠ .done) :
      Progress lib next m answers
        ⟨(m.update lib next write).1, .returned (m.update lib next write).2, []⟩

theorem update_of_failed {write : WriteOutcome} {files : Files} {message : Bytes}
    (hvalid : validate next = [])
    (hwrite : writeFileAtomically lib.strerror m.files m.configPath m.pid
      (encodeToml lib.toml next) write = (files, some message)) :
    m.update lib next write =
      ({ m with files := files }, ConfigurationManager.fileError message) := by
  unfold ConfigurationManager.update
  simp only [hvalid, hwrite]

theorem update_of_done (lib : ConfigLib) (m : ConfigurationManager) (hvalid : validate next = []) :
    m.update lib next .done =
      ({ withFile m (encodeToml lib.toml next) with configuration := next }, []) := by
  unfold ConfigurationManager.update
  simp only [hvalid, writeFileAtomically]
  rfl

theorem update_of_invalid {errors : List ValidationError} (hinvalid : validate next = errors)
    (hne : errors ≠ []) (write : WriteOutcome) : m.update lib next write = (m, errors) := by
  unfold ConfigurationManager.update
  rw [hinvalid]
  cases errors with
  | nil => exact absurd rfl hne
  | cons e rest => rfl

/-- A failing outcome of the write, as the state the call returns in. -/
theorem refused_of_failed (write : WriteOutcome) {files : Files} {message : Bytes}
    (hvalid : validate next = []) (hfails : write ≠ .done) (answers : List FileAnswer)
    (hwrite : writeFileAtomically lib.strerror m.files m.configPath m.pid
      (encodeToml lib.toml next) write = (files, some message)) :
    Progress lib next m answers
      ⟨{ m with files := files }, .returned (ConfigurationManager.fileError message), []⟩ := by
  have hrefused : Progress lib next m answers _ := .refused answers write (.inr hfails)
  rwa [update_of_failed hvalid hwrite] at hrefused

theorem not_mem_snoc {e : Nat} (h : FileAnswer.failed e ∉ answers)
    (ha : answer ≠ .failed e) : FileAnswer.failed e ∉ answers ++ [answer] := by
  rw [List.mem_append, List.mem_singleton]
  rintro (hmem | heq)
  · exact h hmem
  · exact ha heq.symm

theorem Progress.step (h : Progress lib next m answers s) (hs : s.step lib next answer = some s') :
    Progress lib next m (answers ++ [answer]) s' := by
  have hquiet : (∀ e, FileAnswer.failed e ∉ answers) → (∀ e, answer ≠ .failed e) →
      ∀ e, FileAnswer.failed e ∉ answers ++ [answer] :=
    fun hold hnew e => not_mem_snoc (hold e) (hnew e)
  cases h with
  | validating =>
    cases answer with
    | ok =>
      simp only [Updating.step] at hs
      cases hvalid : validate next with
      | nil =>
        rw [hvalid] at hs
        cases hs
        exact .opening _ hvalid (by simp)
      | cons e errors =>
        rw [hvalid] at hs
        cases hs
        have hrefused : Progress lib next m [.ok] _ :=
          .refused [.ok] .done (.inl (by rw [hvalid]; simp))
        rwa [update_of_invalid hvalid (by simp)] at hrefused
    | wrote | failed => cases hs
  | opening _ hvalid hold =>
    cases answer with
    | ok =>
      cases hs
      exact .writing _ [] _ hvalid (hquiet hold (by simp)) rfl
    | failed e =>
      cases hs
      exact refused_of_failed .openFailed hvalid (by simp) _ rfl
    | wrote => cases hs
  | writing _ written rest hvalid hold hcontents =>
    cases answer with
    | ok =>
      cases rest with
      | nil =>
        cases hs
        rw [List.append_nil] at hcontents
        rw [goTo, hcontents]
        exact .closed _ hvalid (hquiet hold (by simp))
      | cons b rest => cases hs
    | wrote count =>
      cases hs
      have hnext : Progress lib next m (answers ++ [.wrote count]) _ := .writing _
        (written ++ rest.take count) (rest.drop count) hvalid (hquiet hold (by simp))
        (by rw [List.append_assoc, List.take_append_drop, hcontents])
      simpa [goTo, setFiles, withTemp, Updating.tempPath, Files.set_set] using hnext
    | failed e =>
      have hrefused : Progress lib next m (answers ++ [.failed e]) _ :=
        refused_of_failed (.writeFailed written) hvalid (by simp) _ rfl
      cases rest with
      | nil =>
        cases hs
        exact hrefused
      | cons b rest =>
        cases hs
        exact hrefused
  | closed _ hvalid hold =>
    cases answer with
    | ok =>
      cases hs
      have hnext : Progress lib next m (answers ++ [.ok]) _ :=
        .committing _ hvalid (hquiet hold (by simp))
      simpa [goTo, setFiles, withTemp, withFile, Updating.tempPath, Files.set_set] using hnext
    | failed e =>
      cases hs
      exact .removing _ e hvalid
    | wrote => cases hs
  | removing _ errno hvalid =>
    cases answer with
    | ok =>
      cases hs
      have hrefused : Progress lib next m (answers ++ [.ok]) _ :=
        refused_of_failed (.renameFailed errno true) hvalid (by simp) _ rfl
      simpa [fail, goTo, setFiles, withTemp, Updating.tempPath, Files.set_set] using hrefused
    | failed e =>
      cases hs
      exact refused_of_failed (.renameFailed errno false) hvalid (by simp) _ rfl
    | wrote => cases hs
  | committing _ hvalid hold =>
    cases answer with
    | ok =>
      cases hs
      have hnext : Progress lib next m (answers ++ [.ok]) _ :=
        .accepted _ hvalid (hquiet hold (by simp))
      rwa [update_of_done lib m hvalid] at hnext
    | wrote | failed => cases hs
  | accepted => cases hs
  | refused => cases hs

theorem progress_run (hrun : Lib.run (Updating.step lib next) ⟨m, .validating, []⟩ answers = some s) :
    Progress lib next m answers s :=
  Lib.run_history (P := Progress lib next m) .validating (fun _ _ _ _ _ h hs => h.step hs) hrun

/-- A call that returns has done what `update` does, for some outcome of the
write, and has published the new configuration exactly if it accepted it. -/
theorem returned_update {errors : List ValidationError}
    (hrun : Lib.run (Updating.step lib next) ⟨m, .validating, []⟩ answers = some s)
    (hreturned : s.point = .returned errors) :
    ∃ write, m.update lib next write = (s.manager, errors) ∧
      s.published = if errors = [] then [.configurationChanged next] else [] := by
  cases progress_run hrun with
  | accepted _ hvalid =>
    cases hreturned
    refine ⟨.done, rfl, ?_⟩
    rw [update_of_done lib m hvalid, if_pos rfl]
  | refused _ write hfails =>
    cases hreturned
    refine ⟨write, rfl, ?_⟩
    rcases ConfigurationManager.update_cases lib m next write with ⟨hne, -⟩ | ⟨-, hvalid, hrest⟩
    · rw [if_neg hne]
    · rcases hfails with hinvalid | hwrite
      · exact absurd hvalid hinvalid
      · rcases writeFileAtomically_cases lib.strerror m.files m.configPath m.pid
          (encodeToml lib.toml next) write with ⟨hdone, -⟩ | ⟨-, files, message, heq, -⟩
        · exact absurd hdone hwrite
        · rw [update_of_failed hvalid heq]
          simp [ConfigurationManager.fileError]
  | _ => cases hreturned

/-! ## The document on disk -/

/-- At every point of a call the configuration file holds the complete
document it held before, or the complete new one. -/
theorem Progress.complete (h : Progress lib next m answers s) :
    s.manager.files m.configPath = m.files m.configPath ∨
    s.manager.files m.configPath = some (encodeToml lib.toml next) := by
  have htemp : ∀ c, (withTemp m c).files m.configPath = m.files m.configPath :=
    fun c => withTemp_of_ne m c (tempPath_ne m.configPath m.pid)
  have hupdate : ∀ write,
      (m.update lib next write).1.files m.configPath = m.files m.configPath ∨
      (m.update lib next write).1.files m.configPath = some (encodeToml lib.toml next) := by
    intro write
    rcases ConfigurationManager.update_cases lib m next write with ⟨-, hsame⟩ | ⟨-, -, -, -, hfile⟩
    · exact .inl hsame.file
    · exact .inr hfile
  cases h with
  | validating | opening => exact .inl rfl
  | writing | closed | removing => exact .inl (htemp _)
  | committing => exact .inr (Files.set_self _ _ _)
  | accepted => exact hupdate .done
  | refused _ write _ => exact hupdate write

/-! ## What a failed call leaves -/

/-- The call returned errors, and memory, file, directory and event bus are
as they were. -/
structure NoTrace (m : ConfigurationManager) (s : Updating) : Prop where
  memory : s.manager.configuration = m.configuration
  file : s.manager.files m.configPath = m.files m.configPath
  directory : ∀ path, (s.manager.files path).isSome = (m.files path).isSome
  unpublished : s.published = []
  errors : ∃ errors, s.point = .returned errors ∧ errors ≠ []

/-- The failing step is one the code cleans up after. A write that fails
leaves the temporary file, and so does a failed removal; a successful one
also takes away a file of that name that was there before. -/
def FailsCleanly (m : ConfigurationManager) : UpdatePoint → FileAnswer → Prop
  | .writing _, _ => (m.files (YoruSpeech.tempPath m.configPath m.pid)).isSome = true
  | .removing _, .ok => (m.files (YoruSpeech.tempPath m.configPath m.pid)).isSome = false
  | .removing _, _ => (m.files (YoruSpeech.tempPath m.configPath m.pid)).isSome = true
  | _, _ => True

/-- A failed call that has touched the temporary file only. -/
theorem noTrace_withTemp (m : ConfigurationManager) (contents : Option Bytes) (message : Bytes) :
    NoTrace m ⟨withTemp m contents, .returned (ConfigurationManager.fileError message), []⟩ ↔
      (m.files (YoruSpeech.tempPath m.configPath m.pid)).isSome = contents.isSome := by
  constructor
  · intro h
    have hdirectory := h.directory (YoruSpeech.tempPath m.configPath m.pid)
    simp only [withTemp_self] at hdirectory
    exact hdirectory.symm
  · intro h
    refine ⟨rfl, withTemp_of_ne m contents (tempPath_ne m.configPath m.pid), ?_, rfl, _, rfl,
      by simp [ConfigurationManager.fileError]⟩
    intro path
    by_cases hpath : path = YoruSpeech.tempPath m.configPath m.pid
    · simp only [hpath, withTemp_self, h]
    · simp only [withTemp_of_ne m contents hpath]

/-- How a call comes to return: before it has touched a file, with only the
temporary file touched, or at the end with nothing failed. -/
theorem Progress.returns_cases {t : Updating} {errors : List ValidationError}
    (h : Progress lib next m answers t) (hs : t.step lib next answer = some s)
    (hreturned : s.point = .returned errors) :
    (s = ⟨m, .returned errors, []⟩ ∧ errors ≠ [] ∧ FailsCleanly m t.point answer) ∨
    (∃ contents message,
      s = ⟨withTemp m contents, .returned (ConfigurationManager.fileError message), []⟩ ∧
      (FailsCleanly m t.point answer ↔
        (m.files (YoruSpeech.tempPath m.configPath m.pid)).isSome = contents.isSome)) ∨
    (validate next = [] ∧ ∀ e, .failed e ∉ answers ++ [answer]) := by
  cases h with
  | validating =>
    cases answer with
    | ok =>
      simp only [Updating.step] at hs
      cases hvalid : validate next with
      | nil =>
        rw [hvalid] at hs
        cases hs
        cases hreturned
      | cons e rest =>
        rw [hvalid] at hs
        cases hs
        cases hreturned
        exact .inl ⟨rfl, List.cons_ne_nil e rest, trivial⟩
    | wrote | failed => cases hs
  | opening _ _ _ =>
    cases answer with
    | ok =>
      cases hs
      cases hreturned
    | failed e =>
      cases hs
      cases hreturned
      exact .inl ⟨rfl, by simp [ConfigurationManager.fileError], trivial⟩
    | wrote => cases hs
  | writing _ written rest _ _ _ =>
    cases answer with
    | ok =>
      cases rest with
      | nil =>
        cases hs
        cases hreturned
      | cons b rest => cases hs
    | wrote count =>
      cases hs
      cases hreturned
    | failed e =>
      cases rest with
      | nil =>
        cases hs
        exact .inr (.inl ⟨some written, _, rfl, Iff.rfl⟩)
      | cons b rest =>
        cases hs
        exact .inr (.inl ⟨some written, _, rfl, Iff.rfl⟩)
  | closed _ _ _ =>
    cases answer with
    | ok | failed e =>
      cases hs
      cases hreturned
    | wrote => cases hs
  | removing _ errno _ =>
    cases answer with
    | ok =>
      cases hs
      refine .inr (.inl ⟨none, str "failed to move temporary file into place: " ++
        lib.strerror errno, ?_, Iff.rfl⟩)
      simp [fail, goTo, setFiles, withTemp, Updating.tempPath, Files.set_set]
    | failed e =>
      cases hs
      exact .inr (.inl ⟨some (encodeToml lib.toml next), _, rfl, Iff.rfl⟩)
    | wrote => cases hs
  | committing _ hvalid hquiet =>
    cases answer with
    | ok => exact .inr (.inr ⟨hvalid, fun e => not_mem_snoc (hquiet e) (by simp)⟩)
    | wrote | failed => cases hs
  | accepted | refused => cases hs

/-- **When a failed update leaves no trace.** A call whose configuration is
rejected or one of whose file-system steps fails, at the step it returns
with: everything is as before exactly when that step is one the code cleans
up after. And whether it fails or not, a process that stops at any point of
the call leaves a complete document, the old one or the new one. -/
theorem failed_update_leaves_no_trace_iff {t : Updating} {errors : List ValidationError}
    (hrun : Lib.run (Updating.step lib next) ⟨m, .validating, []⟩ answers = some t)
    (hs : t.step lib next answer = some s) (hreturned : s.point = .returned errors)
    (hfails : validate next ≠ [] ∨ ∃ e, .failed e ∈ answers ++ [answer]) :
    (NoTrace m s ↔ FailsCleanly m t.point answer) ∧
    ∀ upto u, Lib.run (Updating.step lib next) ⟨m, .validating, []⟩ upto = some u →
      u.manager.files m.configPath = m.files m.configPath ∨
      u.manager.files m.configPath = some (encodeToml lib.toml next) := by
  refine ⟨?_, fun upto u hupto => (progress_run hupto).complete⟩
  obtain ⟨rfl, hne, hclean⟩ | ⟨contents, message, rfl, hclean⟩ | ⟨hvalid, hquiet⟩ :=
    (progress_run hrun).returns_cases hs hreturned
  · have hnone : NoTrace m ⟨m, .returned errors, []⟩ :=
      ⟨rfl, rfl, fun _ => rfl, rfl, errors, rfl, hne⟩
    exact iff_of_true hnone hclean
  · rw [hclean]
    exact noTrace_withTemp m contents message
  · rcases hfails with hinvalid | ⟨e, hmem⟩
    · exact absurd hvalid hinvalid
    · exact absurd hmem (hquiet e)

/-- A manager with a configuration file and nothing else in its directory. -/
def onlyConfig : ConfigurationManager where
  configPath := str "config.toml"
  pid := 7
  files := fun path => if path = str "config.toml" then some (str "old") else none

/-- The libraries of the runs below. -/
def quietLib : ConfigLib where
  toml := plainToml
  strerror := fun _ => str "error"

/-- The temporary file cannot be opened: nothing is left. -/
theorem failed_update_leaves_no_trace_iff_unopened :
    ∃ t s errors, Lib.run (Updating.step quietLib {}) ⟨onlyConfig, .validating, []⟩ [.ok] = some t ∧
      t.step quietLib {} (.failed 13) = some s ∧ s.point = .returned errors ∧
      NoTrace onlyConfig s := by
  have hrun : Lib.run (Updating.step quietLib {}) ⟨onlyConfig, .validating, []⟩ [.ok] =
      some ⟨onlyConfig, .opening, []⟩ := by
    simp [Lib.run, Updating.step, validate_default, goTo]
  have hstep : Updating.step quietLib {} ⟨onlyConfig, .opening, []⟩ (.failed 13) =
      some ⟨onlyConfig, .returned (ConfigurationManager.fileError
        (str "failed to open temporary file for writing")), []⟩ := rfl
  refine ⟨_, _, _, hrun, hstep, rfl, ?_⟩
  exact (failed_update_leaves_no_trace_iff hrun hstep rfl (.inr ⟨13, by simp⟩)).1.mpr trivial

/-- The disk is full when the temporary file is written: it stays. -/
theorem failed_write_leaves_temporary_file :
    ∃ t s errors,
      Lib.run (Updating.step quietLib {}) ⟨onlyConfig, .validating, []⟩ [.ok, .ok] = some t ∧
      t.step quietLib {} (.failed 28) = some s ∧ s.point = .returned errors ∧ errors ≠ [] ∧
      onlyConfig.files (str "config.toml.tmp.7") = none ∧
      s.manager.files (str "config.toml.tmp.7") = some [] ∧ ¬ NoTrace onlyConfig s := by
  have hrun : Lib.run (Updating.step quietLib {}) ⟨onlyConfig, .validating, []⟩ [.ok, .ok] =
      some ⟨withTemp onlyConfig (some []), .writing (encodeToml plainToml {}), []⟩ := by
    simp [Lib.run, Updating.step, validate_default, goTo, setFiles, withTemp, Updating.tempPath,
      quietLib]
  have hpath : YoruSpeech.tempPath onlyConfig.configPath onlyConfig.pid =
      str "config.toml.tmp.7" := by
    decide
  have hstep : Updating.step quietLib {} ⟨withTemp onlyConfig (some []),
      .writing (encodeToml plainToml {}), []⟩ (.failed 28) =
      some ⟨withTemp onlyConfig (some []),
        .returned (ConfigurationManager.fileError (str "failed to write temporary file")), []⟩ := by
    cases encodeToml plainToml {} <;> rfl
  have hbefore : onlyConfig.files (str "config.toml.tmp.7") = none := by decide
  refine ⟨_, _, _, hrun, hstep, rfl, by simp [ConfigurationManager.fileError], hbefore, ?_, ?_⟩
  · rw [← hpath]
    exact withTemp_self _ _
  · rw [noTrace_withTemp, hpath, hbefore]
    simp

end Updating

end YoruSpeech

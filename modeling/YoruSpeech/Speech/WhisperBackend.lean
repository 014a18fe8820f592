/-
YoruSpeech.Speech.WhisperBackend — the speech backend over whisper.cpp
(`whisper_backend.cpp`).

whisper.cpp is not part of the program. `Whisper` is what the backend sees
of it: the contexts it has allocated and the calls of `whisper_full`; what
it answers is an input. Freeing a context that is not allocated, or
decoding with one, is undefined behaviour, and the operations return
`none` there.

`run_whisper_full` is cut at `whisper_full`, where other threads can set
the abort flag: `prepareFull` is what comes before the call and
`concludeFull` what comes after it.
-/
import YoruSpeech.Core.Event
import Mathlib.Algebra.Group.Nat.Defs

namespace YoruSpeech

/-! ## whisper.cpp -/

/-- A `whisper_context*` that is not null. -/
abbrev WhisperContext := Nat

/-- What a `const char*` into a string hands over: the bytes before the first
NUL. -/
def cString (bytes : Bytes) : Bytes := bytes.takeWhile (· ≠ 0)

/-- The fields of `whisper_full_params` the backend sets, as whisper.cpp
reads them. -/
structure WhisperFullParams where
  language : Bytes
  detectLanguage : Bool := false
  initialPrompt : Option Bytes
  carryInitialPrompt : Bool
  deriving DecidableEq, Repr

/-- A call of `whisper_full`; the count is passed as an `int`. -/
structure FullCall where
  ctx : WhisperContext
  params : WhisperFullParams
  samples : List Sample
  count : Int
  deriving DecidableEq, Repr

/-- What whisper.cpp answers about a call: the status, the segments, the
language it detected and the name it has for it. -/
structure FullAnswer where
  status : Int := 0
  segments : List Bytes := []
  langId : Int := 0
  langStr : Option Bytes := none
  processingTime : Nat := 0
  deriving DecidableEq, Repr

structure Whisper where
  /-- The contexts allocated and not freed. -/
  live : List WhisperContext := []
  /-- The calls of `whisper_full`, in order. -/
  calls : List FullCall := []
  deriving DecidableEq, Repr

namespace Whisper

/-- `whisper_init_from_file_with_params`, when it returns a context. -/
def init (w : Whisper) (ctx : WhisperContext) : Whisper := { w with live := ctx :: w.live }

/-- `whisper_free`. -/
def free (w : Whisper) (ctx : WhisperContext) : Option Whisper :=
  if ctx ∈ w.live then some { w with live := w.live.erase ctx } else none

/-- `whisper_full`, up to its return. -/
def full (w : Whisper) (call : FullCall) : Option Whisper :=
  if call.ctx ∈ w.live then some { w with calls := w.calls ++ [call] } else none

end Whisper

/-! ## The backend -/

/-- What `std::filesystem::exists` answers. -/
inductive ExistsAnswer where
  | failed (message : Bytes)
  | answered (found : Bool)
  deriving DecidableEq, Repr

/-- The environment of `load_model`. -/
structure LoadAnswer where
  modelExists : ExistsAnswer := .answered true
  /-- What `whisper_init_from_file_with_params` returns. -/
  ctx : Option WhisperContext := none
  deriving DecidableEq, Repr

/-- `WhisperBackend::Impl`. -/
structure WhisperBackend where
  ctx : Option WhisperContext := none
  abortRequested : Bool := false
  currentModel : Option Model := none
  deriving DecidableEq, Repr

/-- `WHISPER_SAMPLE_RATE`. -/
def kWhisperSampleRate : Nat := 16000

namespace WhisperBackend

/-- `unload_model`, and the destructor. -/
def unloadModel (w : Whisper) (b : WhisperBackend) : Option (Whisper × WhisperBackend) :=
  match b.ctx with
  | none => some (w, b)
  | some ctx => (w.free ctx).map fun w => (w, { b with ctx := none, currentModel := none })

/-- What `load_model` leaves behind. -/
structure Loaded where
  whisper : Whisper
  backend : WhisperBackend
  error : Option SpeechError := none
  event : Option Event := none
  deriving DecidableEq, Repr

/-- `load_model`. The old context is freed only once the new one is
there. -/
def loadModel (w : Whisper) (b : WhisperBackend) (model : Model) (answer : LoadAnswer) :
    Option Loaded :=
  match answer.modelExists with
  | .failed message =>
    some { whisper := w, backend := b
           error := some ⟨str "failed to check model file: " ++ message⟩ }
  | .answered false =>
    some { whisper := w, backend := b, error := some ⟨str "model file not found: " ++ model.path⟩ }
  | .answered true =>
    match answer.ctx with
    | none =>
      some { whisper := w, backend := b
             error := some ⟨str "failed to load model: " ++ model.path⟩ }
    | some ctx =>
      (unloadModel (w.init ctx) b).map fun (w, b) =>
        { whisper := w, backend := { b with ctx := some ctx, currentModel := some model }
          event := some (.modelLoaded model) }

/-- `run_whisper_full`, the parameters. -/
def fullParams (request : TranscriptionRequest) : WhisperFullParams :=
  let autoDetect := request.language = [] ∨ request.language = str "auto"
  let hasPrompt := request.initialPrompt ≠ []
  { language := if autoDetect then str "auto" else cString request.language
    initialPrompt := if hasPrompt then some (cString request.initialPrompt) else none
    carryInitialPrompt := hasPrompt }

/-- `run_whisper_full`, up to the call of `whisper_full`. -/
def prepareFull (b : WhisperBackend) (samples : List Sample) (request : TranscriptionRequest) :
    SpeechError ⊕ FullCall :=
  if samples = [] then .inl ⟨str "empty audio buffer"⟩
  else
    match b.ctx with
    | none => .inl ⟨str "no model loaded"⟩
    | some ctx =>
      .inr { ctx, samples, params := fullParams request
             count := Int.bmod samples.length (2 ^ 32) }

/-- `run_whisper_full`, from the return of `whisper_full`. -/
def concludeFull (b : WhisperBackend) (samples : List Sample) (request : TranscriptionRequest)
    (answer : FullAnswer) : TranscriptionResult :=
  if b.abortRequested then .error ⟨str "transcription aborted"⟩
  else if answer.status ≠ 0 then .error ⟨str "whisper_full failed internally"⟩
  else
    let langStr := if 0 ≤ answer.langId then answer.langStr else none
    .transcript {
      text := answer.segments.flatten
      detectedLanguage := langStr.getD []
      requestedLanguage := request.language
      audioDuration := samples.length * 1000 / kWhisperSampleRate
      processingTime := answer.processingTime }

/-- What `transcribe` and `transcribe_partial` return, when the flag and the
context are as they are in `b` at the end. -/
def runWhisperFull (b : WhisperBackend) (samples : List Sample) (request : TranscriptionRequest)
    (answer : FullAnswer) : TranscriptionResult :=
  match b.prepareFull samples request with
  | .inl e => .error e
  | .inr _ => b.concludeFull samples request answer

/-- What fits in an `int` is passed on unchanged. -/
theorem bmod_of_fits {n : Nat} (h : n < 2 ^ 31) : Int.bmod n (2 ^ 32) = n :=
  Int.bmod_eq_of_le (by omega) (by omega)

/-- A call is made with the context of the backend, over all the samples as
long as their number fits in an `int`, and never over none. -/
theorem prepareFull_call {b : WhisperBackend} {samples : List Sample}
    {request : TranscriptionRequest} {call : FullCall}
    (h : b.prepareFull samples request = .inr call) :
    b.ctx = some call.ctx ∧ samples ≠ [] ∧ call.samples = samples ∧
      (samples.length < 2 ^ 31 → call.count = samples.length) ∧
      call.params = fullParams request := by
  unfold prepareFull at h
  split at h
  · cases h
  · rename_i hne
    split at h
    · cases h
    · rename_i hctx
      cases h
      refine ⟨hctx, hne, rfl, fun hfits => ?_, rfl⟩
      simp only [bmod_of_fits hfits]

/-- A transcript comes from a call, and says how it was asked for. -/
theorem runWhisperFull_transcript {b : WhisperBackend} {samples : List Sample}
    {request : TranscriptionRequest} {answer : FullAnswer} {t : Transcript}
    (h : b.runWhisperFull samples request answer = .transcript t) :
    (∃ call, b.prepareFull samples request = .inr call) ∧ b.abortRequested = false ∧
      t.requestedLanguage = request.language ∧
      t.audioDuration = samples.length * 1000 / kWhisperSampleRate := by
  unfold runWhisperFull at h
  split at h
  · cases h
  · rename_i call hprepare
    refine ⟨⟨call, hprepare⟩, ?_⟩
    unfold concludeFull at h
    split at h
    · cases h
    · rename_i habort
      split at h
      · cases h
      · cases h
        exact ⟨by simpa using habort, rfl, rfl⟩

/-! ## What loading leaves alone -/

section Loading

variable {w w' : Whisper} {b b' : WhisperBackend}

theorem unloadModel_calls (hs : unloadModel w b = some (w', b')) :
    w'.calls = w.calls ∧ b'.abortRequested = b.abortRequested := by
  unfold unloadModel at hs
  split at hs
  · cases hs
    exact ⟨rfl, rfl⟩
  · obtain ⟨freed, hfree, hq⟩ := Option.map_eq_some_iff.mp hs
    obtain ⟨-, hfreed⟩ := Option.ite_none_right_eq_some.mp hfree
    cases hq
    cases hfreed
    exact ⟨rfl, rfl⟩

theorem loadModel_calls {model : Model} {answer : LoadAnswer} {loaded : Loaded}
    (hs : loadModel w b model answer = some loaded) :
    loaded.whisper.calls = w.calls ∧ loaded.backend.abortRequested = b.abortRequested := by
  unfold loadModel at hs
  split at hs
  · cases hs
    exact ⟨rfl, rfl⟩
  · cases hs
    exact ⟨rfl, rfl⟩
  · split at hs
    · cases hs
      exact ⟨rfl, rfl⟩
    · obtain ⟨⟨w', b'⟩, hunload, hq⟩ := Option.map_eq_some_iff.mp hs
      cases hq
      have hkept := unloadModel_calls hunload
      exact ⟨hkept.1, hkept.2⟩

end Loading

/-! ## Ownership -/

/-- The backend owns the one context there is. -/
def Owns (w : Whisper) (b : WhisperBackend) : Prop :=
  w.live = b.ctx.toList ∧ b.currentModel.isSome = b.ctx.isSome

variable {w w' : Whisper} {b b' : WhisperBackend}

theorem Owns.unloadModel (h : Owns w b) :
    unloadModel w b = some ({ w with live := [] }, { b with ctx := none, currentModel := none }) := by
  obtain ⟨hlive, hmodel⟩ := h
  obtain ⟨ctx, abort, model⟩ := b
  cases ctx with
  | none =>
    have hnone : model = none := by simpa using hmodel
    subst hnone
    obtain ⟨live, calls⟩ := w
    simp only [Option.toList_none] at hlive
    subst hlive
    rfl
  | some ctx =>
    have hmem : ctx ∈ w.live := by rw [hlive]; simp
    simp [WhisperBackend.unloadModel, Whisper.free, hlive]

/-- A new context takes the place of the old one; without one nothing
changes. -/
theorem Owns.loadModel (h : Owns w b) (model : Model) {answer : LoadAnswer}
    (hfresh : ∀ ctx, answer.ctx = some ctx → ctx ∉ w.live) :
    ∃ loaded, loadModel w b model answer = some loaded ∧
      Owns loaded.whisper loaded.backend := by
  unfold WhisperBackend.loadModel
  cases answer.modelExists with
  | failed message => exact ⟨_, rfl, h⟩
  | answered found =>
    cases found with
    | false => exact ⟨_, rfl, h⟩
    | true =>
      cases hctx : answer.ctx with
      | none => exact ⟨_, rfl, h⟩
      | some ctx =>
        have hnew := hfresh ctx hctx
        rw [h.1] at hnew
        cases hold : b.ctx with
        | none =>
          refine ⟨_, by simp [WhisperBackend.unloadModel, hold]; rfl, ?_⟩
          simp [Owns, Whisper.init, h.1, hold]
        | some old =>
          have hne : ctx ≠ old := fun heq => hnew (by simp [hold, heq])
          have hmem : old ∈ (w.init ctx).live := by simp [Whisper.init, h.1, hold]
          refine ⟨_, by simp [WhisperBackend.unloadModel, hold, Whisper.free, hmem]; rfl, ?_⟩
          simp [Owns, Whisper.init, h.1, hold, hne]

end WhisperBackend

end YoruSpeech

/-
YoruSpeech.Audio.RecordingManager — microphone capture
(`domains/audio/capture_device.cpp`, `domains/audio/recording_manager.cpp`).

`CaptureDevice` wraps miniaudio, which is not part of the repository: the
outcome of opening and starting the hardware is an input (`DeviceStart`),
and the notification that the hardware stopped on its own is a transition
of the device (`lost`) that can happen at any time while it is open. The
`on_samples` assertion of the constructor makes the "callback is not set"
branch of `start()` unreachable and it is left out.
-/
import YoruSpeech.Core.Event

namespace YoruSpeech

/-- What miniaudio answers when `CaptureDevice::start` opens the hardware. -/
inductive DeviceStart where
  | ok
  | initFailed
  | startFailed
  deriving DecidableEq, Repr

/-- `CaptureDevice::Impl`: `running` is what the hardware does as far as we
know, `initialized` whether a device object is allocated. -/
structure CaptureDevice where
  running : Bool := false
  initialized : Bool := false
  deriving DecidableEq, Repr

/-- `audio::CaptureError`. -/
structure CaptureError where
  message : Bytes
  deriving DecidableEq, Repr

namespace CaptureDevice

/-- `CaptureDevice::start`. A device object left over from a lost device is
released first, so `initialized` is decided by this call alone. -/
def start (d : CaptureDevice) (outcome : DeviceStart) :
    CaptureDevice × Option CaptureError :=
  if d.running then (d, none)
  else
    match outcome with
    | .initFailed =>
      ({ d with initialized := false },
        some ⟨str "failed to open the default capture device"⟩)
    | .startFailed =>
      ({ d with initialized := false }, some ⟨str "failed to start the capture device"⟩)
    | .ok => ({ running := true, initialized := true }, none)

/-- `CaptureDevice::stop`. -/
def stop (d : CaptureDevice) : CaptureDevice :=
  if d.initialized then { running := false, initialized := false } else d

/-- `CaptureDevice::is_running`. -/
def isRunning (d : CaptureDevice) : Bool := d.running

/-- `handle_device_notification` with a `stopped` notification. -/
def handleDeviceNotification (d : CaptureDevice) : CaptureDevice :=
  { d with running := false }

end CaptureDevice

/-- `audio::RecordingError`. -/
structure RecordingError where
  message : Bytes
  deriving DecidableEq, Repr

/-- `audio::RecordingManager`. -/
structure RecordingManager where
  device : CaptureDevice := {}
  samples : List Sample := []
  activeSession : Option SessionId := none
  deriving DecidableEq, Repr

namespace RecordingManager

/-- `RecordingManager::on_samples`, run on the audio thread under
`samples_mutex_`. -/
def onSamples (r : RecordingManager) (buffer : List Sample) : RecordingManager :=
  { r with samples := r.samples ++ buffer }

/-- `RecordingManager::start`: the new state, and the error or the event it
publishes. -/
def start (r : RecordingManager) (id : SessionId) (outcome : DeviceStart) :
    RecordingManager × (RecordingError ⊕ Event) :=
  if r.activeSession.isSome then (r, .inl ⟨str "a recording is already in progress"⟩)
  else
    match r.device.start outcome with
    | (device, some e) => ({ r with samples := [], device := device }, .inl ⟨e.message⟩)
    | (device, none) =>
      ({ device := device, samples := [], activeSession := some id },
        .inr (.recordingStarted id))

/-- `RecordingManager::stop`: the new state, and the error or the finished
recording with the event that announces it. -/
def stop (r : RecordingManager) :
    RecordingManager × (RecordingError ⊕ (Recording × Event)) :=
  match r.activeSession with
  | none => (r, .inl ⟨str "no recording is in progress"⟩)
  | some id =>
    -- read before `device_.stop()`, which always leaves it false
    let deviceWasLost := !r.device.isRunning
    let released : RecordingManager :=
      { device := r.device.stop, samples := [], activeSession := none }
    if deviceWasLost then
      (released,
        .inl ⟨str "capture device stopped unexpectedly (microphone disconnected?)"⟩)
    else
      let recording : Recording :=
        { samples := r.samples, sampleRate := kSampleRate, channels := kChannels }
      (released, .inr (recording, .recordingFinished id recording))

/-- `RecordingManager::samples_snapshot`. -/
def samplesSnapshot (r : RecordingManager) (startIndex : Nat) : List Sample :=
  if r.samples.length ≤ startIndex then [] else r.samples.drop startIndex

/-! ## What the two operations do

One specification lemma each; callers reason from these and never unfold
the operations. -/

/-- Every outcome of `start`, from a manager with no recording in progress:
either it stays inactive, or it becomes active for `id` and says so. -/
theorem start_cases (r : RecordingManager) (id : SessionId) (outcome : DeviceStart)
    (h : r.activeSession = none) :
    (∃ r' e, r.start id outcome = (r', .inl e) ∧ r'.activeSession = none) ∨
    (∃ r', r.start id outcome = (r', .inr (.recordingStarted id)) ∧
      r'.activeSession = some id ∧ r'.samples = [] ∧ r'.device.running = true) := by
  unfold start
  simp only [h, Option.isSome_none, Bool.false_eq_true, if_false]
  cases hs : r.device.start outcome with
  | mk device e =>
    cases e with
    | some e => exact .inl ⟨_, _, rfl, rfl⟩
    | none =>
      refine .inr ⟨_, rfl, rfl, rfl, ?_⟩
      unfold CaptureDevice.start at hs
      split at hs
      · simp only [Prod.mk.injEq, and_true] at hs
        exact hs ▸ ‹r.device.running = true›
      · cases outcome <;> simp at hs
        exact hs ▸ rfl

/-- Every outcome of `stop`, from a manager recording for `id`: it becomes
inactive, and it hands over the recording exactly when the device was still
running. -/
theorem stop_cases (r : RecordingManager) (id : SessionId)
    (h : r.activeSession = some id) :
    (r.device.running = false ∧ ∃ r' e, r.stop = (r', .inl e) ∧
      r'.activeSession = none) ∨
    (r.device.running = true ∧ ∃ r' rec, r.stop = (r', .inr (rec, .recordingFinished id rec)) ∧
      r'.activeSession = none ∧ rec.samples = r.samples) := by
  unfold stop
  simp only [h, CaptureDevice.isRunning]
  by_cases hr : r.device.running = true
  · exact .inr ⟨hr, _, _, if_neg (by simp [hr]), rfl, rfl⟩
  · have hlost : r.device.running = false := by simpa using hr
    exact .inl ⟨hlost, _, _, if_pos (by simp [hlost]), rfl⟩

end RecordingManager

end YoruSpeech

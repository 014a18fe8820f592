/-
YoruSpeech.Session.CaptureTheorems — from the microphone to `transcribe`.

One sample buffer serves every session. `step_recorder` says what a step
does to the recording manager: nothing, `on_samples`, a lost device,
`start()` or `stop()`. From it:

* a device is open exactly while a recording is in progress, so no buffer
  arrives outside of one (`Wired`);
* while a recording is in progress the buffer holds what was captured since
  it started, and nothing else (`Recorded`);
* every job on its way to the backend carries the buffers of its own
  session and the settings in force when it was stopped (`Delivered`).

The preview reads the buffer and writes nothing but its own state. A run
with its ticks taken out is a run again, with the same jobs and the same
events of the session manager (`Quiet`, `run_withoutTicks`).
-/
import YoruSpeech.Session.MachineTheorems
import YoruSpeech.Session.SettingsTheorems

namespace YoruSpeech

/-! ## The recording manager -/

namespace RecordingManager

variable {r : RecordingManager}

/-- A device runs only when it is open, and is open exactly while a
recording is in progress. -/
structure Wired (r : RecordingManager) : Prop where
  running : r.device.running = true → r.device.initialized = true
  initialized : r.device.initialized = r.activeSession.isSome

theorem Wired.running_eq_false (h : Wired r) (hnone : r.activeSession = none) :
    r.device.running = false := by
  have hclosed : r.device.initialized = false := by rw [h.initialized, hnone]; rfl
  cases hr : r.device.running with
  | false => rfl
  | true =>
    have hopen := h.running hr
    rw [hclosed] at hopen
    cases hopen

/-- `start()` on an inactive manager: it opens the device for the session,
with an empty buffer, exactly when miniaudio does. -/
theorem Wired.start_cases (h : Wired r) (hnone : r.activeSession = none) (id : SessionId)
    (outcome : DeviceStart) :
    (outcome = .ok ∧ (r.start id outcome).1 =
      { device := { running := true, initialized := true }, samples := [],
        activeSession := some id }) ∨
    (outcome ≠ .ok ∧ (r.start id outcome).1 =
      { device := { running := false, initialized := false }, samples := [],
        activeSession := none }) := by
  have hrunning := h.running_eq_false hnone
  obtain ⟨⟨running, initialized⟩, samples, active⟩ := r
  simp only at hnone hrunning
  subst hnone hrunning
  cases outcome with
  | ok => exact .inl ⟨rfl, rfl⟩
  | initFailed => exact .inr ⟨by simp, rfl⟩
  | startFailed => exact .inr ⟨by simp, rfl⟩

theorem stop_inactive (r : RecordingManager) : r.stop.1.activeSession = none := by
  unfold stop
  split
  · assumption
  · simp only
    split
    · rfl
    · rfl

theorem Wired.stop (h : Wired r) : Wired r.stop.1 := by
  obtain ⟨hrunning, hinitialized⟩ := h
  unfold RecordingManager.stop
  split
  · exact ⟨hrunning, hinitialized⟩
  · rename_i id hactive
    have hopen : r.device.initialized = true := by rw [hinitialized, hactive]; rfl
    have hreleased : r.device.stop = { running := false, initialized := false } := by
      rw [CaptureDevice.stop, if_pos hopen]
    simp only [hreleased]
    split
    · exact ⟨by simp, rfl⟩
    · exact ⟨by simp, rfl⟩

end RecordingManager

/-! ## Steps -/

/-- The samples an action delivers. -/
def Act.samples : Act → List Sample
  | .capture buffer => buffer
  | _ => []

/-- The recording manager a section leaves. -/
def Next.recorder (r : RecordingManager) : Next → RecordingManager
  | .done g _ _ => g.recordingManager
  | .more g _ _ => g.recordingManager
  | .undefined => r

namespace SessionManager

theorem stopSession_recorder (g : SessionManager) (now : Nat) :
    (g.stopSession now).recorder g.recordingManager = g.recordingManager ∨
    (g.stopSession now).recorder g.recordingManager = g.recordingManager.stop.1 := by
  unfold stopSession
  split
  · exact .inl rfl
  · split
    · exact .inl rfl
    · split
      · rename_i recorder e hstop
        rw [hstop]
        simp only [fail]
        split
        · exact .inl rfl
        · rename_i hfail
          cases hactive : g.activeSession with
          | none => simp [hactive] at hfail
          | some s =>
            simp only [hactive, Option.some.injEq, Prod.mk.injEq] at hfail
            obtain ⟨rfl, -⟩ := hfail
            exact .inr rfl
      · rename_i recorder recording e hstop
        rw [hstop]
        exact .inr rfl

theorem cancelSession_recorder (g : SessionManager) :
    g.cancelSession.recorder g.recordingManager = g.recordingManager ∨
    g.cancelSession.recorder g.recordingManager = g.recordingManager.stop.1 := by
  unfold cancelSession
  split
  · exact .inl rfl
  · split
    · split
      · rename_i recorder e hstop
        rw [hstop]
        exact .inr rfl
      · rename_i recorder recording e hstop
        rw [hstop]
        exact .inr rfl
    · exact .inl rfl

theorem startSession_recorder (g : SessionManager) :
    g.startSession.recorder g.recordingManager = g.recordingManager := by
  rcases startSession_cases g with ⟨e, r, hnext, -⟩ | ⟨-, -, hnext⟩
  · rw [hnext]
    rfl
  · rw [hnext]
    rfl

theorem startRecording_recorder (g : SessionManager) (outcome : DeviceStart) (now : Nat) :
    (g.startRecording outcome now).recorder g.recordingManager =
      (g.recordingManager.start g.nextSessionId outcome).1 := by
  unfold startRecording
  simp only
  split
  · rename_i hstart
    rw [hstart]
    rfl
  · rename_i hstart
    rw [hstart]
    rfl

theorem enqueueRecording_recorder (g : SessionManager) (id : SessionId) (recording : Recording)
    (now : Nat) :
    (g.enqueueRecording id recording now).recorder g.recordingManager = g.recordingManager := by
  unfold enqueueRecording
  split
  · rfl
  · simp only
    split
    · simp only [fail]
      rfl
    · rfl

theorem cancelJob_recorder (g : SessionManager) (id : SessionId) :
    (g.cancelJob id).recorder g.recordingManager = g.recordingManager := by
  rcases cancelJob_cases g id with ⟨-, hnext⟩ | ⟨-, hnext⟩
  · rw [hnext]
    rfl
  · rw [hnext]
    rfl

theorem announceStarted_recorder (g : SessionManager) (starts : List SessionId)
    (results : List TranscriptionJobResult) :
    (g.announceStarted starts results).recorder g.recordingManager = g.recordingManager := by
  cases starts <;> rfl

theorem reportResult_recorder (g : SessionManager) (results : List TranscriptionJobResult)
    (count : Nat) :
    (g.reportResult results count).recorder g.recordingManager = g.recordingManager := by
  cases results with
  | nil => rfl
  | cons job rest =>
    obtain ⟨id, result⟩ := job
    cases result <;> rfl

theorem reportDropped_recorder (g : SessionManager) (todo dropped : List SessionId) :
    (g.reportDropped todo dropped).recorder g.recordingManager = g.recordingManager := by
  cases todo <;> rfl

end SessionManager

namespace Machine

variable {m m' : Machine} {a : Act}

/-- The recording manager. -/
abbrev recorder (m : Machine) : RecordingManager := m.manager.recordingManager

theorem apply_recorder (m : Machine) (next : Next) :
    (m.apply next).recorder = next.recorder m.recorder := by
  cases next with
  | done g e r => simp [apply, Next.recorder]
  | more g e f => simp [apply, Next.recorder]
  | undefined => rfl

/-- What a step does to the recording manager. -/
inductive RecorderStep (m : Machine) (a : Act) (m' : Machine) : Prop
  | keep (quiet : a.samples = []) (recorder : m'.recorder = m.recorder)
  | samples (buffer : List Sample) (act : a = .capture buffer)
      (device : m.recorder.device.initialized = true)
      (recorder : m'.recorder = m.recorder.onSamples buffer)
  | lost (act : a = .lose) (device : m.recorder.device.initialized = true)
      (recorder : m'.recorder =
        { m.recorder with device := m.recorder.device.handleDeviceNotification })
  | start (inp : Input) (act : a = .own inp) (owner : m.owner = .inside .starting)
      (recorder : m'.recorder =
        (m.recorder.start m.manager.nextSessionId inp.device).1)
  | stop (quiet : a.samples = []) (recorder : m'.recorder = m.recorder.stop.1)

theorem begin_recorder (m : Machine) (op : Op) (inp : Input) :
    (m.begin op inp).recorder = m.recorder ∨ (m.begin op inp).recorder = m.recorder.stop.1 := by
  cases op with
  | startSession =>
    refine .inl ((apply_recorder m _).trans ?_)
    exact SessionManager.startSession_recorder m.manager
  | stopSession =>
    simp only [begin, apply_recorder]
    exact SessionManager.stopSession_recorder m.manager inp.now
  | pollCompleted => exact .inl rfl
  | cancelSession =>
    simp only [begin, apply_recorder]
    exact SessionManager.cancelSession_recorder m.manager
  | cancelJob id =>
    refine .inl ((apply_recorder m _).trans ?_)
    exact SessionManager.cancelJob_recorder m.manager id
  | shutdown => exact .inl rfl
  | configure c => exact .inl rfl
  | tick =>
    refine .inl ?_
    show m.beginTick.recorder = _
    unfold beginTick
    split
    · rfl
    · split
      · rfl
      · rfl

theorem resume_recorder {f : Frame} {inp : Input} (hs : m.resume f inp = some m') :
    (f = .starting ∧ m'.recorder = (m.recorder.start m.manager.nextSessionId inp.device).1) ∨
    m'.recorder = m.recorder := by
  cases f with
  | starting =>
    cases hs
    refine .inl ⟨rfl, ?_⟩
    rw [apply_recorder]
    exact SessionManager.startRecording_recorder m.manager inp.device inp.now
  | recorded id recording =>
    cases hs
    refine .inr ((apply_recorder m _).trans ?_)
    exact SessionManager.enqueueRecording_recorder m.manager id recording inp.now
  | announcing starts results =>
    cases hs
    refine .inr ((apply_recorder m _).trans ?_)
    exact SessionManager.announceStarted_recorder m.manager starts results
  | reporting results count =>
    cases hs
    refine .inr ((apply_recorder m _).trans ?_)
    exact SessionManager.reportResult_recorder m.manager results count
  | dropping todo dropped =>
    cases hs
    refine .inr ((apply_recorder m _).trans ?_)
    exact SessionManager.reportDropped_recorder m.manager todo dropped
  | aborted dropped =>
    simp only [resume] at hs
    split at hs
    · split at hs
      · cases hs
        exact .inr rfl
      · cases hs
    · cases hs
      exact .inr rfl
  | discarding =>
    cases hs
    exact .inr (apply_recorder m _)
  | enqueued | cancelled | drained | stopping =>
    cases hs
    exact .inr rfl

theorem step_recorder (hs : m.step a = some m') : RecorderStep m a m' := by
  cases a with
  | call op inp =>
    simp only [step, Option.ite_none_right_eq_some, Option.some.injEq] at hs
    obtain ⟨-, rfl⟩ := hs
    rcases begin_recorder m op inp with hkeep | hstop
    · exact .keep rfl hkeep
    · exact .stop rfl hstop
  | own inp =>
    simp only [step] at hs
    split at hs
    · rename_i f howner
      rcases resume_recorder hs with ⟨rfl, hstart⟩ | hkeep
      · exact .start inp rfl howner hstart
      · exact .keep rfl hkeep
    · cases hs
      refine .keep rfl ?_
      unfold tickWindow
      split
      · rfl
      · simp only
        split <;> rfl
    · cases hs
      refine .keep rfl ?_
      unfold tickRecut
      simp only
      split <;> rfl
    · cases hs
      refine .keep rfl ?_
      unfold tickDecoded
      simp [recorder, endTick]
    · cases hs
    · cases hs
  | worker result => exact .keep rfl (workerStep_offstage hs).2
  | capture buffer =>
    simp only [step, captureStep, Option.ite_none_right_eq_some, Option.some.injEq] at hs
    obtain ⟨hopen, rfl⟩ := hs
    exact .samples buffer rfl hopen rfl
  | lose =>
    simp only [step, loseStep, Option.ite_none_right_eq_some, Option.some.injEq] at hs
    obtain ⟨hopen, rfl⟩ := hs
    exact .lost rfl hopen rfl

/-! ## The device -/

section Reachable

variable {capacity : Nat} {c : Configuration} {liveConfig : LiveTranscriberConfig}

theorem Reachable.inactive_of_starting (h : Reachable capacity c liveConfig m)
    (howner : m.owner = .inside .starting) : m.recorder.activeSession = none := by
  have hcaptured := h.captured
  rw [Captured, howner] at hcaptured
  exact SessionManager.inactive_of_starting hcaptured

/-- A device is open exactly while a recording is in progress. -/
theorem Reachable.wired (h : Reachable capacity c liveConfig m) : m.recorder.Wired := by
  refine Lib.Reachable.invariant (P := fun m => m.recorder.Wired) h ⟨by simp [init], rfl⟩ ?_
  intro t a t' hreach ht hs
  cases step_recorder hs with
  | keep _ hkeep =>
    rw [hkeep]
    exact ht
  | samples buffer _ _ hrecorder =>
    rw [hrecorder]
    exact ⟨ht.running, ht.initialized⟩
  | lost _ _ hrecorder =>
    rw [hrecorder]
    exact ⟨by simp [CaptureDevice.handleDeviceNotification], ht.initialized⟩
  | start inp _ howner hrecorder =>
    rw [hrecorder]
    rcases ht.start_cases (Reachable.inactive_of_starting hreach howner) t.manager.nextSessionId
      inp.device with ⟨-, heq⟩ | ⟨-, heq⟩
    · rw [heq]
      exact ⟨fun _ => rfl, rfl⟩
    · rw [heq]
      exact ⟨by simp, rfl⟩
  | stop _ hrecorder =>
    rw [hrecorder]
    exact ht.stop

end Reachable

/-! ## Recordings and jobs, one step at a time -/

section Steps

variable {capacity : Nat} {c : Configuration} {liveConfig : LiveTranscriberConfig}
  {id : SessionId}

/-- A recording in progress after a step was in progress before it, with
what the step delivered appended to its buffer, or the step started it. -/
theorem step_active (hr : Reachable capacity c liveConfig m) (hs : m.step a = some m')
    (hactive : m'.recorder.activeSession = some id) :
    (m.recorder.activeSession = some id ∧
      m'.recorder.samples = m.recorder.samples ++ a.samples) ∨
    (m.owner = .inside .starting ∧ m'.log = m.log ++ [.recordingStarted id] ∧
      m'.recorder.samples = []) := by
  cases step_recorder hs with
  | keep hquiet hkeep =>
    rw [hkeep] at hactive ⊢
    exact .inl ⟨hactive, by rw [hquiet, List.append_nil]⟩
  | samples buffer hact _ hrecorder =>
    rw [hrecorder] at hactive ⊢
    subst hact
    exact .inl ⟨hactive, rfl⟩
  | lost hact _ hrecorder =>
    rw [hrecorder] at hactive ⊢
    subst hact
    exact .inl ⟨hactive, (List.append_nil _).symm⟩
  | start inp hact howner hrecorder =>
    subst hact
    have hinactive := hr.inactive_of_starting howner
    have hlog : m'.log = m.log ++ [.recordingStarted id] := by
      have hresume : m.resume .starting inp = some m' := by simpa only [step, howner] using hs
      cases hresume
      rcases SessionManager.startRecording_cases hinactive inp.device inp.now with
        ⟨recorder, message, hnone, hnext⟩ | ⟨recorder, s, hsome, -, -, hnext⟩
      · rw [hnext] at hactive
        simp [Machine.recorder, apply, hnone] at hactive
      · rw [hnext] at hactive ⊢
        have hid : m.manager.nextSessionId = id := by
          simpa [Machine.recorder, apply, hsome] using hactive
        simp [apply, hid]
    refine .inr ⟨howner, hlog, ?_⟩
    rw [hrecorder]
    rcases hr.wired.start_cases hinactive m.manager.nextSessionId inp.device with
      ⟨-, heq⟩ | ⟨-, heq⟩
    · rw [heq]
    · rw [heq]
  | stop _ hrecorder =>
    rw [hrecorder, RecordingManager.stop_inactive] at hactive
    cases hactive

theorem apply_inside {next : Next} {f : Frame} (h : (m.apply next).owner = .inside f) :
    ∃ g e, next = .more g e f := by
  cases next with
  | done g e r => simp [apply] at h
  | more g e f' =>
    simp only [apply, publish?_owner, Owner.inside.injEq] at h
    exact ⟨g, e, by rw [h]⟩
  | undefined => cases h

/-- No section ends with a recording in hand, except the first of
`stop_session()`. -/
theorem resume_owner {f : Frame} {inp : Input} (hcap : Captured m) (ho : m.owner = .inside f)
    (hs : m.resume f inp = some m') (recording : Recording) :
    m'.owner ≠ .inside (.recorded id recording) := by
  intro howner
  rw [Captured, ho] at hcap
  cases f with
  | starting =>
    cases hs
    obtain ⟨g, e, hnext⟩ := apply_inside howner
    rcases SessionManager.startRecording_cases (SessionManager.inactive_of_starting hcap)
      inp.device inp.now with ⟨_, _, -, hcase⟩ | ⟨_, _, -, -, -, hcase⟩
    · cases hnext.symm.trans hcase
    · cases hnext.symm.trans hcase
  | recorded id' recording' =>
    cases hs
    obtain ⟨g, e, hnext⟩ := apply_inside howner
    rcases SessionManager.enqueueRecording_cases hcap inp.now with
      ⟨_, _, -, -, -, -, hcase⟩ | ⟨-, -, hcase⟩
    · cases hnext.symm.trans hcase
    · cases hnext.symm.trans hcase
  | announcing starts results =>
    cases hs
    obtain ⟨g, e, hnext⟩ := apply_inside howner
    cases starts <;> cases hnext
  | reporting results count =>
    cases hs
    obtain ⟨g, e, hnext⟩ := apply_inside howner
    cases results with
    | nil => cases hnext
    | cons job rest =>
      obtain ⟨id', result⟩ := job
      cases result <;> cases hnext
  | dropping todo dropped =>
    cases hs
    obtain ⟨g, e, hnext⟩ := apply_inside howner
    cases todo <;> cases hnext
  | aborted dropped =>
    simp only [resume] at hs
    split at hs
    · split at hs
      · cases hs
        cases howner
      · cases hs
    · cases hs
      cases howner
  | stopping dropped =>
    cases hs
    cases howner
  | enqueued | discarding | cancelled | drained =>
    cases hs
    obtain ⟨g, e, hnext⟩ := apply_inside howner
    cases hnext

theorem begin_owner {op : Op} {inp : Input} {recording : Recording} (hcap : Captured m)
    (ho : m.owner = .idle) (howner : (m.begin op inp).owner = .inside (.recorded id recording)) :
    op = .stopSession := by
  cases op with
  | stopSession => rfl
  | startSession =>
    obtain ⟨g, e, hnext⟩ := apply_inside howner
    rcases SessionManager.startSession_cases m.manager with ⟨_, _, hcase, -⟩ | ⟨-, -, hcase⟩
    · cases hnext.symm.trans hcase
    · cases hnext.symm.trans hcase
  | cancelSession =>
    obtain ⟨g, e, hnext⟩ := apply_inside howner
    rcases SessionManager.cancelSession_cases (captured_idle hcap ho) with
      ⟨-, _, hcase⟩ | ⟨_, _, -, -, -, hcase⟩
    · cases hnext.symm.trans hcase
    · cases hnext.symm.trans hcase
  | cancelJob id' =>
    obtain ⟨g, e, hnext⟩ := apply_inside howner
    rcases SessionManager.cancelJob_cases m.manager id' with ⟨-, hcase⟩ | ⟨-, hcase⟩
    · cases hnext.symm.trans hcase
    · cases hnext.symm.trans hcase
  | pollCompleted => cases howner
  | shutdown => cases howner
  | configure c =>
    have hkeep : (m.begin (.configure c) inp).owner = m.owner := rfl
    rw [hkeep, ho] at howner
    cases howner
  | tick =>
    have htick : m.beginTick.owner = .inside (.recorded id recording) := howner
    unfold beginTick at htick
    split at htick
    · cases htick
    · split at htick
      · cases htick
      · cases htick

/-- A recording in hand after a step was in hand before it, and the step
was another thread's, or the step is a `stop_session()` that took it. -/
theorem step_recorded {recording : Recording} (hr : Reachable capacity c liveConfig m)
    (hs : m.step a = some m') (howner : m'.owner = .inside (.recorded id recording)) :
    (a.byOwner = false ∧ m.owner = .inside (.recorded id recording)) ∨
    (∃ inp, a = .call .stopSession inp ∧ m.recorder.activeSession = some id ∧
      recording.samples = m.recorder.samples ∧
      m'.log = m.log ++ [.recordingFinished id recording]) := by
  cases hby : a.byOwner with
  | false => exact .inl ⟨rfl, (step_background hby hs).owner.symm.trans howner⟩
  | true =>
    cases a with
    | call op inp =>
      simp only [step, Option.ite_none_right_eq_some, Option.some.injEq] at hs
      obtain ⟨ho, rfl⟩ := hs
      obtain rfl := begin_owner hr.captured ho howner
      have hcase := captured_idle hr.captured ho
      obtain ⟨g, e, hnext⟩ := apply_inside howner
      refine .inr ⟨inp, rfl, ?_⟩
      rcases SessionManager.stopSession_cases hcase inp.now with
        ⟨-, _, hstop⟩ | ⟨_, _, _, -, -, -, -, hstop⟩ |
        ⟨s, recorder, rec, hstate, -, hactive, -, -, hsamples, hstop⟩
      · cases hnext.symm.trans hstop
      · cases hnext.symm.trans hstop
      · have hlog : (m.begin .stopSession inp).log = m.log ++ [.recordingFinished s.id rec] := by
          simp [begin, hstop, apply]
        cases hnext.symm.trans hstop
        refine ⟨?_, hsamples, hlog⟩
        cases hcase with
        | idle h _ _ => rw [hstate] at h; cases h
        | error _ h _ _ _ _ => rw [hstate] at h; cases h
        | recording s' _ h hrec _ =>
          rw [hactive] at h
          cases h
          exact hrec
    | own inp =>
      simp only [step] at hs
      split at hs
      · rename_i f ho
        exact absurd howner (resume_owner hr.captured ho hs recording)
      · cases hs
        unfold tickWindow at howner
        split at howner
        · cases howner
        · simp only at howner
          split at howner <;> cases howner
      · cases hs
        unfold tickRecut at howner
        simp only at howner
        split at howner <;> cases howner
      · cases hs
        unfold tickDecoded at howner
        simp [endTick] at howner
      · cases hs
      · cases hs
    | worker | capture | lose => cases hby

/-- The job is on its way to the backend, or has been there. -/
def Carries (m : Machine) (job : TranscriptionJob) : Prop :=
  job ∈ m.manager.queue.pending ∨ m.worker.job? = some job ∨ job ∈ m.history.calls

/-- A job comes from the recording in hand. -/
theorem Move.carries {job : TranscriptionJob} (hm : Move m m') (h : m'.Carries job) :
    m.Carries job ∨
    ∃ id recording, m.owner = .inside (.recorded id recording) ∧
      job = m.manager.jobFor id recording := by
  unfold Carries at h ⊢
  cases hm with
  | enqueue id recording ho hs hp =>
    simp only [List.mem_append, List.mem_singleton] at h
    rcases h with (hmem | rfl) | hworker | hcalls
    · exact .inl (.inl hmem)
    · exact .inr ⟨id, recording, ho, rfl⟩
    · exact .inl (.inr (.inl hworker))
    · exact .inl (.inr (.inr hcalls))
  | cancel id ho hmem =>
    rcases h with hpending | hworker | hcalls
    · exact .inl (.inl (List.mem_of_mem_eraseP hpending))
    · exact .inl (.inr (.inl hworker))
    · exact .inl (.inr (.inr hcalls))
  | stop ho =>
    rcases h with hpending | hworker | hcalls
    · cases hpending
    · exact .inl (.inr (.inl hworker))
    · exact .inl (.inr (.inr hcalls))
  | pop job' rest hw hs hp =>
    rcases h with hpending | hworker | hcalls
    · exact .inl (.inl (hp ▸ List.mem_cons_of_mem job' hpending))
    · obtain rfl : job' = job := Option.some.inj hworker
      exact .inl (.inl (hp ▸ List.mem_cons_self))
    · exact .inl (.inr (.inr hcalls))
  | enter job' hw =>
    simp only [List.mem_append, List.mem_singleton] at h
    rcases h with hpending | hworker | hcalls | rfl
    · exact .inl (.inl hpending)
    · obtain rfl : job' = job := Option.some.inj hworker
      exact .inl (.inr (.inl (by rw [hw]; rfl)))
    · exact .inl (.inr (.inr hcalls))
    · exact .inl (.inr (.inl (by rw [hw]; rfl)))
  | leave job' result hw =>
    rcases h with hpending | hworker | hcalls
    · exact .inl (.inl hpending)
    · exact .inl (.inr (.inl (by rw [hw]; exact hworker)))
    · exact .inl (.inr (.inr hcalls))
  | finish job' result hw =>
    rcases h with hpending | hworker | hcalls
    · exact .inl (.inl hpending)
    · cases hworker
    · exact .inl (.inr (.inr hcalls))
  | exit hw | loop hw =>
    rcases h with hpending | hworker | hcalls
    · exact .inl (.inl hpending)
    · cases hworker
    · exact .inl (.inr (.inr hcalls))
  | _ => exact .inl (by simpa using h)

end Steps

/-! ## Whole runs -/

/-- The samples delivered along a list of actions, in order. -/
def captured (acts : List Act) : List Sample := acts.flatMap Act.samples

@[simp] theorem captured_append (xs ys : List Act) :
    captured (xs ++ ys) = captured xs ++ captured ys := List.flatMap_append

@[simp] theorem captured_singleton (a : Act) : captured [a] = a.samples := by
  simp [captured]

/-- The run `acts` from `m₀` to `m` started a recording for the session in
one of its steps; `during` is the rest of it, all of it taken while that
recording was in progress. -/
def Recorded (m₀ : Machine) (acts : List Act) (m : Machine) (id : SessionId)
    (during : List Act) : Prop :=
  ∃ before start t t', acts = before ++ start :: during ∧
    Lib.run step m₀ before = some t ∧ t.owner = .inside .starting ∧ t.step start = some t' ∧
    t'.log = t.log ++ [.recordingStarted id] ∧ Lib.run step t' during = some m ∧
    Lib.Along step (fun u _ => u.recorder.activeSession = some id) t' during

/-- The run `acts` recorded the job's session from a step that started it
to a `stop_session()`, its samples are what was captured in between, and
its request holds the settings announced last before that call. -/
def Delivered (c : Configuration) (m₀ : Machine) (acts : List Act) (job : TranscriptionJob) :
    Prop :=
  ∃ recorded during inp after t t' recording,
    acts = recorded ++ Act.call .stopSession inp :: after ∧
    Recorded m₀ recorded t job.sessionId during ∧ t.step (.call .stopSession inp) = some t' ∧
    t'.log = t.log ++ [.recordingFinished job.sessionId recording] ∧
    job.samples = captured during ∧
    job.request = {
      language := (configurationAfter c t.log).defaultLanguage
      initialPrompt := (configurationAfter c t.log).transcriptionPrompt }

theorem Recorded.snoc {m₀ : Machine} {acts during : List Act} {id : SessionId}
    (h : Recorded m₀ acts m id during) (hactive : m.recorder.activeSession = some id)
    (hs : m.step a = some m') : Recorded m₀ (acts ++ [a]) m' id (during ++ [a]) := by
  obtain ⟨before, start, t, t', rfl, hbefore, howner, hstart, hlog, hduring, halong⟩ := h
  exact ⟨before, start, t, t', by simp, hbefore, howner, hstart, hlog,
    Lib.run_snoc hduring hs, halong.snoc hduring hactive⟩

theorem Delivered.snoc {c : Configuration} {m₀ : Machine} {acts : List Act}
    {job : TranscriptionJob} (h : Delivered c m₀ acts job) (a : Act) :
    Delivered c m₀ (acts ++ [a]) job := by
  obtain ⟨recorded, during, inp, after, t, t', recording, rfl, hrest⟩ := h
  exact ⟨recorded, during, inp, after ++ [a], t, t', recording, by simp, hrest⟩

/-- What a run knows about the samples: those of the recording in progress,
of the one in hand and of every job. -/
structure Tracked (c : Configuration) (m₀ : Machine) (acts : List Act) (m : Machine) : Prop where
  active : ∀ id, m.recorder.activeSession = some id →
    ∃ during, Recorded m₀ acts m id during ∧ m.recorder.samples = captured during
  held : ∀ id recording, m.owner = .inside (.recorded id recording) →
    Delivered c m₀ acts (m.manager.jobFor id recording)
  jobs : ∀ job, m.Carries job → Delivered c m₀ acts job

section Runs

variable {capacity : Nat} {c : Configuration} {liveConfig : LiveTranscriberConfig}

theorem Tracked.step {acts : List Act}
    (hrun : Lib.run Machine.step (init capacity c liveConfig) acts = some m)
    (h : Tracked c (init capacity c liveConfig) acts m) (hs : m.step a = some m') :
    Tracked c (init capacity c liveConfig) (acts ++ [a]) m' := by
  have hr : Reachable capacity c liveConfig m := ⟨acts, hrun⟩
  refine ⟨?_, ?_, ?_⟩
  · intro id hactive
    rcases step_active hr hs hactive with ⟨hbefore, hsamples⟩ | ⟨howner, hlog, hsamples⟩
    · obtain ⟨during, hrecorded, hbuffer⟩ := h.active id hbefore
      refine ⟨during ++ [a], hrecorded.snoc hbefore hs, ?_⟩
      rw [hsamples, hbuffer, captured_append, captured_singleton]
    · exact ⟨[], ⟨acts, a, m, m', rfl, hrun, howner, hs, hlog, rfl, trivial⟩, hsamples⟩
  · intro id recording howner
    rcases step_recorded hr hs howner with ⟨hby, hheld⟩ | ⟨inp, rfl, hactive, hsamples, hlog⟩
    · -- another thread's step: the settings of the job are the same
      have hquiet : configures a = false := by
        cases a with
        | call op inp => cases hby
        | _ => rfl
      have hu := step_unconfigured hquiet hs
      have hjob : m'.manager.jobFor id recording = m.manager.jobFor id recording := by
        simp only [SessionManager.jobFor, hu.language, hu.prompt]
      rw [hjob]
      exact (h.held id recording hheld).snoc a
    · obtain ⟨during, hrecorded, hbuffer⟩ := h.active id hactive
      have hu := step_unconfigured (a := .call .stopSession inp) rfl hs
      have hfollows := hr.follows
      refine ⟨acts, during, inp, [], m, m', recording, by simp, hrecorded, hs, hlog, ?_, ?_⟩
      · exact hsamples.trans hbuffer
      · simp only [SessionManager.jobFor, hu.language, hu.prompt, hfollows.language,
          hfollows.prompt]
  · intro job hjob
    rcases (hr.move hs).carries hjob with hold | ⟨id, recording, howner, rfl⟩
    · exact (h.jobs job hold).snoc a
    · exact (h.held id recording howner).snoc a

theorem tracked_run {acts : List Act}
    (hrun : Lib.run step (init capacity c liveConfig) acts = some m) :
    Tracked c (init capacity c liveConfig) acts m := by
  refine Lib.run_history (P := Tracked c (init capacity c liveConfig)) ⟨?_, ?_, ?_⟩ ?_ hrun
  · intro id hactive
    cases hactive
  · intro id recording howner
    cases howner
  · intro job hjob
    rcases hjob with hjob | hjob | hjob <;> cases hjob
  · exact fun acts t a t' hrun ht hs => ht.step hrun hs

end Runs

/-! ## Ticks -/

end Machine

/-- The event is one the session manager or another component publishes,
not the live preview. -/
def Event.managed : Event → Bool
  | .transcriptionPartial _ _ _ => false
  | _ => true

theorem LiveTranscriber.afterDecode_unmanaged {l : LiveTranscriber} {id : SessionId} {size : Nat}
    {result : TranscriptionResult} {verdict : Bool} {e : Event}
    (h : (l.afterDecode id size result verdict).2 = some e) : e.managed = false := by
  unfold afterDecode at h
  split at h
  · cases h
  · simp only at h
    split at h
    · cases h
    · cases h
      rfl

namespace Machine

variable {t t' : Machine}

/-- The step is one of `tick()`. -/
def ticks (m : Machine) : Act → Bool
  | .call .tick _ => true
  | .own _ => m.owner.inTick
  | _ => false

/-- The actions of a run that belong to no tick. -/
def withoutTicks : Machine → List Act → List Act
  | _, [] => []
  | m, a :: rest =>
    match m.step a with
    | none => []
    | some m' => if m.ticks a then withoutTicks m' rest else a :: withoutTicks m' rest

/-- The two states differ in the live preview, and in nothing the session
manager, the worker or the backend's `transcribe` sees. -/
structure Quiet (m t : Machine) : Prop where
  manager : t.manager = m.manager
  worker : t.worker = m.worker
  history : t.history = m.history
  owner : t.owner = if m.owner.inTick then .idle else m.owner
  events : t.log.filter Event.managed = m.log.filter Event.managed

theorem Quiet.refl (h : m.owner.inTick = false) : Quiet m m :=
  ⟨rfl, rfl, rfl, by simp [h], rfl⟩

theorem quiet_publish? (h : Quiet m t) (e : Option Event) : Quiet (m.publish? e) (t.publish? e) := by
  cases e with
  | none => exact h
  | some e =>
    refine ⟨?_, h.worker, h.history, h.owner, ?_⟩
    · show t.manager.onEvent e = m.manager.onEvent e
      rw [h.manager]
    · show (t.log ++ [e]).filter _ = (m.log ++ [e]).filter _
      rw [List.filter_append, List.filter_append, h.events]

theorem quiet_apply (h : Quiet m t) (next : Next) : Quiet (m.apply next) (t.apply next) := by
  cases next with
  | done g e r =>
    refine quiet_publish? ?_ e
    exact ⟨rfl, h.worker, h.history, rfl, h.events⟩
  | more g e f =>
    refine quiet_publish? ?_ e
    exact ⟨rfl, h.worker, by rw [h.history], rfl, h.events⟩
  | undefined => exact ⟨h.manager, h.worker, h.history, rfl, h.events⟩

theorem quiet_begin (h : Quiet m t) {op : Op} (hop : op ≠ .tick) (inp : Input) :
    Quiet (m.begin op inp) (t.begin op inp) := by
  cases op with
  | startSession | stopSession | pollCompleted | cancelSession | cancelJob id =>
    simp only [begin, h.manager]
    exact quiet_apply h _
  | shutdown =>
    simp only [begin, h.manager, h.history]
    refine quiet_apply ?_ _
    exact ⟨rfl, h.worker, rfl, h.owner, h.events⟩
  | configure c =>
    refine quiet_publish? ?_ (some (.configurationChanged c))
    exact ⟨h.manager, h.worker, h.history, h.owner, h.events⟩
  | tick => exact absurd rfl hop

theorem quiet_resume (h : Quiet m t) {f : Frame} {inp : Input}
    (hs : m.resume f inp = some m') : ∃ t', t.resume f inp = some t' ∧ Quiet m' t' := by
  cases f with
  | starting =>
    cases hs
    refine ⟨_, rfl, ?_⟩
    rw [h.manager, h.history]
    refine quiet_apply ?_ _
    exact ⟨rfl, h.worker, rfl, h.owner, h.events⟩
  | stopping dropped =>
    cases hs
    refine ⟨_, rfl, ?_⟩
    exact ⟨h.manager, h.worker, by rw [h.history], rfl, h.events⟩
  | aborted dropped =>
    simp only [resume] at hs ⊢
    rw [h.manager, h.worker]
    split at hs
    · rename_i hjoin
      split at hs
      · rename_i hexit
        cases hs
        rw [if_pos hjoin, if_pos hexit]
        exact ⟨_, rfl, rfl, rfl, h.history, rfl, h.events⟩
      · cases hs
    · rename_i hjoin
      cases hs
      rw [if_neg hjoin]
      exact ⟨_, rfl, rfl, rfl, h.history, rfl, h.events⟩
  | recorded | enqueued | discarding | cancelled | drained | announcing | reporting | dropping =>
    cases hs
    refine ⟨_, rfl, ?_⟩
    rw [h.manager]
    exact quiet_apply h _

theorem quiet_worker (h : Quiet m t) {result : TranscriptionResult}
    (hs : m.workerStep result = some m') : ∃ t', t.workerStep result = some t' ∧ Quiet m' t' := by
  simp only [workerStep] at hs ⊢
  rw [h.worker, h.manager]
  split at hs
  · split at hs
    · rename_i hstop
      cases hs
      simp only [hstop, if_true]
      exact ⟨_, rfl, rfl, rfl, h.history, h.owner, h.events⟩
    · rename_i hstop
      split at hs
      · cases hs
      · cases hs
        simp only [hstop]
        exact ⟨_, rfl, rfl, rfl, by rw [h.history], h.owner, h.events⟩
  · cases hs
    exact ⟨_, rfl, rfl, rfl, by rw [h.history], h.owner, h.events⟩
  · cases hs
    exact ⟨_, rfl, rfl, rfl, by rw [h.history], h.owner, h.events⟩
  · cases hs
    exact ⟨_, rfl, rfl, rfl, h.history, h.owner, h.events⟩
  · cases hs
    exact ⟨_, rfl, rfl, rfl, h.history, h.owner, h.events⟩
  · cases hs

/-- A step that is no part of a tick happens in the run without ticks as
well. -/
theorem quiet_step (h : Quiet m t) (ha : m.ticks a = false) (hs : m.step a = some m') :
    ∃ t', t.step a = some t' ∧ Quiet m' t' := by
  cases a with
  | call op inp =>
    simp only [step, Option.ite_none_right_eq_some, Option.some.injEq] at hs
    obtain ⟨ho, rfl⟩ := hs
    have hidle : t.owner = .idle := by rw [h.owner, ho]; rfl
    refine ⟨t.begin op inp, by simp only [step, hidle, if_true], ?_⟩
    refine quiet_begin h ?_ inp
    rintro rfl
    cases ha
  | own inp =>
    have howner : t.owner = m.owner := by
      rw [h.owner]
      exact if_neg (by simpa [ticks] using ha)
    simp only [step] at hs ⊢
    rw [howner]
    split at hs
    · exact quiet_resume h hs
    · rename_i ho
      simp [ticks, ho, Owner.inTick] at ha
    · rename_i ho
      simp [ticks, ho, Owner.inTick] at ha
    · rename_i ho
      simp [ticks, ho, Owner.inTick] at ha
    · cases hs
    · cases hs
  | worker result => exact quiet_worker h hs
  | capture buffer =>
    simp only [step, captureStep, Option.ite_none_right_eq_some, Option.some.injEq] at hs ⊢
    obtain ⟨hopen, rfl⟩ := hs
    rw [h.manager]
    exact ⟨_, ⟨hopen, rfl⟩, rfl, h.worker, h.history, h.owner, h.events⟩
  | lose =>
    simp only [step, loseStep, Option.ite_none_right_eq_some, Option.some.injEq] at hs ⊢
    obtain ⟨hopen, rfl⟩ := hs
    rw [h.manager]
    exact ⟨_, ⟨hopen, rfl⟩, rfl, h.worker, h.history, h.owner, h.events⟩

/-- What `tick()` does without publishing is the preview's own. -/
theorem quiet_of_preview (h : Quiet m t) (hidle : t.owner = .idle)
    (hmanager : m'.manager = m.manager) (hworker : m'.worker = m.worker)
    (hhistory : m'.history = m.history) (hlog : m'.log = m.log)
    (howner : m'.owner = .idle ∨ m'.owner.inTick = true) : Quiet m' t := by
  refine ⟨h.manager.trans hmanager.symm, h.worker.trans hworker.symm,
    h.history.trans hhistory.symm, ?_, by rw [hlog]; exact h.events⟩
  rcases howner with hend | htick
  · rw [hend]
    exact hidle
  · rw [hidle]
    exact (if_pos htick).symm

/-- A step of a tick is none in the run without ticks. -/
theorem quiet_tick (h : Quiet m t) (ha : m.ticks a = true) (hs : m.step a = some m') :
    Quiet m' t := by
  cases a with
  | call op inp =>
    cases op with
    | tick =>
      simp only [step, Option.ite_none_right_eq_some, Option.some.injEq] at hs
      obtain ⟨ho, rfl⟩ := hs
      have hidle : t.owner = .idle := by rw [h.owner, ho]; rfl
      show Quiet m.beginTick t
      unfold beginTick
      split
      · exact quiet_of_preview h hidle rfl rfl rfl rfl (.inl rfl)
      · split
        · exact quiet_of_preview h hidle rfl rfl rfl rfl (.inl rfl)
        · exact quiet_of_preview h hidle rfl rfl rfl rfl (.inr rfl)
    | _ => cases ha
  | own inp =>
    have htick : m.owner.inTick = true := ha
    have hidle : t.owner = .idle := by rw [h.owner, if_pos htick]
    simp only [step] at hs
    split at hs
    · rename_i ho
      simp [ho, Owner.inTick] at htick
    · cases hs
      unfold tickWindow
      split
      · exact quiet_of_preview h hidle rfl rfl rfl rfl (.inl rfl)
      · simp only
        split
        · exact quiet_of_preview h hidle rfl rfl rfl rfl (.inl rfl)
        · exact quiet_of_preview h hidle rfl rfl rfl rfl (.inr rfl)
        · exact quiet_of_preview h hidle rfl rfl rfl rfl (.inr rfl)
    · cases hs
      unfold tickRecut
      simp only
      split
      · exact quiet_of_preview h hidle rfl rfl rfl rfl (.inl rfl)
      · exact quiet_of_preview h hidle rfl rfl rfl rfl (.inr rfl)
    · rename_i id window ho
      cases hs
      unfold tickDecoded
      simp only
      cases he : (m.live.afterDecode id window.length inp.partialResult inp.verdict).2 with
      | none => exact quiet_of_preview h hidle rfl rfl rfl rfl (.inl rfl)
      | some e =>
        have hunmanaged := LiveTranscriber.afterDecode_unmanaged he
        refine ⟨?_, h.worker, h.history, hidle, ?_⟩
        · show t.manager = m.manager.onEvent e
          cases e with
          | configurationChanged c => cases hunmanaged
          | _ => exact h.manager
        · show _ = (m.log ++ [e]).filter _
          rw [List.filter_append, List.filter_cons_of_neg (by simp [hunmanaged]), List.filter_nil,
            List.append_nil]
          exact h.events
    · cases hs
    · cases hs
  | worker | capture | lose => cases ha

/-- A run with its ticks taken out is a run. -/
theorem run_withoutTicks : ∀ {acts : List Act} {m m' t : Machine}, Quiet m t →
    Lib.run step m acts = some m' →
      ∃ t', Lib.run step t (withoutTicks m acts) = some t' ∧ Quiet m' t'
  | [], m, m', t, h, hrun => by
      cases hrun
      exact ⟨t, rfl, h⟩
  | a :: rest, m, m', t, h, hrun => by
      obtain ⟨u, hu, hrest⟩ := Lib.run_cons_eq_some.mp hrun
      simp only [withoutTicks, hu]
      cases ha : m.ticks a with
      | true =>
        simp only [if_true]
        exact run_withoutTicks (quiet_tick h ha hu) hrest
      | false =>
        obtain ⟨t', ht', hquiet⟩ := quiet_step h ha hu
        obtain ⟨u', hu', hend⟩ := run_withoutTicks hquiet hrest
        refine ⟨u', ?_, hend⟩
        simp [Lib.run, ht', hu']

/-! ## What the backend is given -/

section Inputs

variable {capacity : Nat} {c : Configuration} {liveConfig : LiveTranscriberConfig}

/-- Every call of `transcribe` gets what was captured between the start and
the stop of its own session, with the settings in force at the stop; and
two runs that differ in their ticks only call it on the same jobs and
publish the same events, apart from the preview's. -/
theorem transcribe_inputs {acts : List Act}
    (hrun : Lib.run step (init capacity c liveConfig) acts = some m) :
    (∀ job ∈ m.history.calls, Delivered c (init capacity c liveConfig) acts job) ∧
    (∃ m', Lib.run step (init capacity c liveConfig)
        (withoutTicks (init capacity c liveConfig) acts) = some m' ∧
      m'.history.calls = m.history.calls ∧
      m'.log.filter Event.managed = m.log.filter Event.managed) ∧
    ∀ acts' m', Lib.run step (init capacity c liveConfig) acts' = some m' →
      withoutTicks (init capacity c liveConfig) acts' =
        withoutTicks (init capacity c liveConfig) acts →
      m'.history.calls = m.history.calls ∧
      m'.log.filter Event.managed = m.log.filter Event.managed := by
  have hinit : Quiet (init capacity c liveConfig) (init capacity c liveConfig) := .refl rfl
  obtain ⟨t, ht, hquiet⟩ := run_withoutTicks hinit hrun
  refine ⟨?_, ?_, ?_⟩
  · intro job hjob
    exact (tracked_run hrun).jobs job (.inr (.inr hjob))
  · exact ⟨t, ht, congrArg History.calls hquiet.history, hquiet.events⟩
  · intro acts' m' hrun' hsame
    obtain ⟨t', ht', hquiet'⟩ := run_withoutTicks hinit hrun'
    rw [hsame, ht] at ht'
    cases ht'
    refine ⟨?_, hquiet'.events.symm.trans hquiet.events⟩
    exact congrArg History.calls (hquiet'.history.symm.trans hquiet.history)

/-- Two dictations with a tick in the first one; the device is lost in the
second one, which is cancelled. -/
def twoDictations : List Act :=
  [.call .startSession {}, .own {}, .capture [1, 2], .call .tick {}, .own {}, .own {},
    .capture [3], .call .stopSession {}, .own {}, .own {}, .call .startSession {}, .own {},
    .capture [4], .lose, .call .cancelSession {}, .own {}, .worker (.error ⟨[]⟩),
    .worker (.error ⟨[]⟩)]

/-- `transcribe` is called once, on the samples of the first dictation. -/
theorem transcribe_inputs_two_dictations :
    ∃ m, Lib.run step (init 2 {} {}) twoDictations = some m ∧
      m.history.calls = [⟨1, [1, 2, 3], ⟨str "auto", []⟩⟩] ∧
      ∀ job ∈ m.history.calls, Delivered {} (init 2 {} {}) twoDictations job := by
  have hrun : ((Lib.run step (init 2 {} {}) twoDictations).map fun m => m.history.calls) =
      some [⟨1, [1, 2, 3], ⟨str "auto", []⟩⟩] := by
    decide +kernel
  obtain ⟨m, hm, hcalls⟩ := Option.map_eq_some_iff.mp hrun
  exact ⟨m, hm, hcalls, (transcribe_inputs hm).1⟩

end Inputs

end Machine

end YoruSpeech

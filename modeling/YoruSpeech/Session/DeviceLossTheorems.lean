/-
YoruSpeech.Session.DeviceLossTheorems — when a lost microphone is noticed.

`running` has three writers: `start()` sets it when `ma_device_start` has
returned, `stop()` clears it, and the notification handler clears it when
the hardware goes away. A notification that runs after the device streams
and before `start()` writes `true` is overwritten, and `stop()` then takes
the truncated recording for a complete one.

* `Placed` says what the flags are at every point of the controlling
  thread, whatever the interleaving.
* `Heard` adds that a notification has left its mark. A step keeps it
  unless it is the write of `running` after a notification (`Unheard`).
* `step_kept` is the one step lemma for both.
* `device_loss_noticed` puts both together for whole runs.
-/
import YoruSpeech.Session.CaptureSteps

namespace YoruSpeech

/-! ## Finished calls -/

namespace Stopped

/-- An error is passed on: `stop_session` moves to Error and queues
nothing. -/
def Passed (stop : Stopped) : Prop :=
  ∀ e, stop.result = .inl e → stop.caller = .stopSession →
    stop.state = .error ∧ stop.queued = false

/-- A loss that is reported is one of this device. -/
def Truthful (stop : Stopped) : Prop := (∃ e, stop.result = .inl e) → stop.notified = true

/-- A loss that was notified is reported. -/
def Noticed (stop : Stopped) : Prop := stop.notified = true → ∃ e, stop.result = .inl e

end Stopped

namespace Capturing

variable {s s' : Capturing} {a : CaptureAct} {now : Nat}

/-! ## What holds at a point -/

/-- No recording is in progress. -/
structure Waiting (s : Capturing) : Prop where
  inactive : s.recorder.activeSession = none
  state : s.manager.state ≠ .recording
  running : s.device.running = false

theorem Waiting.of_manager (h : s.Waiting) (hmanager : s'.manager = s.manager) : s'.Waiting := by
  refine ⟨?_, ?_, ?_⟩
  · rw [recorder, hmanager]
    exact h.inactive
  · rw [hmanager]
    exact h.state
  · rw [device, recorder, hmanager]
    exact h.running

/-- There is no device object. -/
structure Quiet (s : Capturing) : Prop where
  initialized : s.device.initialized = false
  streaming : s.streaming = false
  notified : s.notified = false

/-- A recording is in progress. -/
structure Live (s : Capturing) : Prop where
  active : s.recorder.activeSession ≠ none
  state : s.manager.state = .recording
  session : s.manager.activeSession ≠ none

/-- What is so wherever the controlling thread is: a flag that is false
during a recording, or was false when `stop` looked, is due to a
notification of the current device. -/
def Placed (s : Capturing) : Prop :=
  match s.point with
  | .idle =>
    (s.Waiting ∧ s.Quiet) ∨
      (s.Live ∧ s.device.initialized = true ∧ (s.device.running = false → s.notified = true))
  | .starting _ => s.Waiting ∧ s.Quiet
  | .releasing _ => False
  | .opening _ => s.Waiting ∧ s.Quiet
  | .opened _ => s.Waiting ∧ s.device.initialized = true ∧ s.streaming = false ∧ s.notified = false
  | .launching _ => s.Waiting ∧ s.device.initialized = true
  | .launched _ => s.Waiting ∧ s.device.initialized = true
  | .abandoning _ => s.Waiting
  | .closing call => s.Live ∧ (call.lost = true → call.notified = true)
  | .closed call =>
    s.Live ∧ s.streaming = false ∧ s.notified = false ∧ (call.lost = true → call.notified = true)
  | .collecting call =>
    s.Live ∧ s.Quiet ∧ s.device.running = false ∧ (call.lost = true → call.notified = true)

/-- A notification of the current device is in the flag, or in what `stop`
read of it. -/
def Heard (s : Capturing) : Prop :=
  match s.point with
  | .idle => s.recorder.activeSession ≠ none → s.notified = true → s.device.running = false
  | .closing call => call.notified = true → call.lost = true
  | .closed call => call.notified = true → call.lost = true
  | .collecting call => call.notified = true → call.lost = true
  | _ => True

/-- The step is not a write of `running = true` over a notification. -/
def Unheard (s : Capturing) (a : CaptureAct) : Prop :=
  match s.point, a with
  | .launched _, .go _ _ => s.notified = false
  | _, _ => True

instance Unheard.decidable (s : Capturing) (a : CaptureAct) : Decidable (s.Unheard a) := by
  unfold Unheard
  split <;> infer_instance

/-! ## What a step keeps -/

/-- What one step does to the two invariants and to the record of calls. -/
structure Kept (s : Capturing) (a : CaptureAct) (s' : Capturing) : Prop where
  placed : s'.Placed
  heard : s.Heard → s.Unheard a → s'.Heard
  stops : ∃ new, s'.stops = s.stops ++ new ∧
    ∀ stop ∈ new, stop.Passed ∧ stop.Truthful ∧ (s.Heard → stop.Noticed)

/-- A step that ends no call of `stop`. -/
theorem Kept.of_stops_eq (hplaced : s'.Placed) (hheard : s.Heard → s.Unheard a → s'.Heard)
    (hstops : s'.stops = s.stops) : Kept s a s' :=
  ⟨hplaced, hheard, [], by simp [hstops], by simp⟩

/-! ## The calls -/

theorem fail_spec {m m' : SessionManager} {component : Component} {message : Bytes} {e : Event}
    (h : m.fail component message now = some (m', e)) :
    m'.recordingManager = m.recordingManager ∧ m'.state = .error ∧ m'.queue = m.queue := by
  unfold SessionManager.fail at h
  split at h
  · cases h
  · cases h
    exact ⟨rfl, rfl, rfl⟩

theorem enqueueRecording_leaves {m m' : SessionManager} {id : SessionId} {recording : Recording}
    {r : Return} (h : afterEnqueue (m.enqueueRecording id recording now) = some (m', r)) :
    m'.recordingManager = m.recordingManager ∧ m'.state ≠ .recording := by
  unfold SessionManager.enqueueRecording at h
  split at h
  · cases h
  · simp only at h
    split at h
    · split at h
      · cases h
      · rename_i hfail
        cases h
        obtain ⟨hrecorder, hstate, -⟩ := fail_spec hfail
        exact ⟨hrecorder, by simp [hstate]⟩
    · cases h
      exact ⟨rfl, by simp⟩

/-- The end of a call: the caller is done, and an error made it fail. -/
theorem conclude_spec {call : Stopping} {result : RecordingError ⊕ Recording}
    (h : s.conclude call result now = some s') :
    (s'.point = .idle ∧ s'.recorder = s.recorder ∧ s'.streaming = s.streaming ∧
      s'.notified = s.notified ∧ s'.manager.state ≠ .recording) ∧
    ∃ stop : Stopped, s'.stops = s.stops ++ [stop] ∧ stop.caller = call.caller ∧
      stop.notified = call.notified ∧ stop.result = result ∧ stop.Passed := by
  unfold conclude at h
  obtain ⟨⟨m, r⟩, hnext, rfl⟩ := Option.map_eq_some_iff.mp h
  -- what the caller's rest leaves, and that it fails on an error
  have hafter : m.recordingManager = s.recorder ∧ m.state ≠ .recording ∧
      (∀ e, result = .inl e → call.caller = .stopSession →
        m.state = .error ∧ m.queue = s.manager.queue) := by
    split at hnext
    · rename_i e
      obtain ⟨⟨m', event⟩, hfail, heq⟩ := Option.map_eq_some_iff.mp hnext
      cases heq
      obtain ⟨hrecorder, hstate, hqueue⟩ := fail_spec hfail
      exact ⟨hrecorder, by simp [hstate], fun _ _ _ => ⟨hstate, hqueue⟩⟩
    · split at hnext
      · cases hnext
      · obtain ⟨hrecorder, hstate⟩ := enqueueRecording_leaves hnext
        exact ⟨hrecorder, hstate, by simp⟩
    · rename_i hcaller
      simp only [SessionManager.discardSession, Option.some.injEq, Prod.mk.injEq] at hnext
      obtain ⟨rfl, -⟩ := hnext
      refine ⟨rfl, by simp, ?_⟩
      intro e _ hstop
      rw [hcaller] at hstop
      cases hstop
  obtain ⟨hrecorder, hstate, herror⟩ := hafter
  refine ⟨⟨rfl, hrecorder, rfl, rfl, hstate⟩, _, rfl, rfl, rfl, rfl, ?_⟩
  intro e he hcaller
  obtain ⟨herr, hqueue⟩ := herror e he hcaller
  exact ⟨herr, by simp [hqueue]⟩

/-- With a session to act on, the caller's rest does not get stuck. -/
theorem conclude_isSome (call : Stopping) (result : RecordingError ⊕ Recording)
    (h : s.manager.activeSession ≠ none) (now : Nat) :
    (s.conclude call result now).isSome = true := by
  obtain ⟨session, hsession⟩ := Option.ne_none_iff_exists'.mp h
  unfold conclude
  rw [Option.isSome_map]
  split
  · simp [SessionManager.fail, hsession]
  · rw [hsession]
    simp only [SessionManager.enqueueRecording, hsession, SessionManager.fail]
    cases TranscriptionQueue.tryEnqueue _ _ with
    | mk queue position => cases position <;> rfl
  · rfl

/-- The call starts from a recording and goes for the device. -/
theorem stopRecording_spec {caller : StopCaller} (hidle : s.point = .idle) (h : s.Placed)
    (hstate : s.manager.state = .recording) :
    (s.Live ∧ s.device.initialized = true ∧ (s.device.running = false → s.notified = true)) ∧
    s.stopRecording caller now =
      some { s with point := .closing { caller := caller, lost := !s.device.running,
                                        notified := s.notified } } := by
  simp only [Placed, hidle] at h
  obtain ⟨hwaiting, -⟩ | hlive := h
  · exact absurd hstate hwaiting.state
  · refine ⟨hlive, ?_⟩
    obtain ⟨id, hactive⟩ := Option.ne_none_iff_exists'.mp hlive.1.active
    simp only [stopRecording, hactive, hlive.2.1, if_true]
    rfl

theorem stopRecording_kept {caller : StopCaller} (hidle : s.point = .idle) (h : s.Placed)
    (hstate : s.manager.state = .recording) (hstep : s.stopRecording caller now = some s') :
    Kept s a s' := by
  obtain ⟨⟨hlive, -, hrunning⟩, hspec⟩ := stopRecording_spec hidle h hstate
  rw [hspec, Option.some.injEq] at hstep
  subst hstep
  refine Kept.of_stops_eq ?_ ?_ rfl
  · refine ⟨⟨hlive.active, hlive.state, hlive.session⟩, ?_⟩
    intro hlost
    exact hrunning (by simpa using hlost)
  · intro hheard _ hnotified
    simp only [Heard, hidle] at hheard
    have hlost := hheard hlive.active hnotified
    simp [hlost]

theorem collect_kept {call : Stopping} (hpoint : s.point = .collecting call) (h : s.Placed)
    (hstep : s.collect call now = some s') : Kept s a s' := by
  simp only [Placed, hpoint] at h
  obtain ⟨hlive, hquiet, hrunning, hlost⟩ := h
  -- the result tells what `stop` had read
  have hresult : ∃ result,
      (s.setRecorder { s.recorder with samples := [], activeSession := none }).conclude call
        result now = some s' ∧ ((∃ e, result = .inl e) ↔ call.lost = true) := by
    unfold collect at hstep
    by_cases hl : call.lost = true
    · simp only [hl, if_true] at hstep
      exact ⟨_, hstep, iff_of_true ⟨_, rfl⟩ hl⟩
    · simp only [hl, Bool.false_eq_true, if_false] at hstep
      exact ⟨_, hstep, iff_of_false (by simp) hl⟩
  obtain ⟨result, hconclude, hiff⟩ := hresult
  obtain ⟨⟨hidle, hrecorder, hstreaming, hnotified, hstate⟩, stop, hstops, -, hcall, hres,
    hpassed⟩ := conclude_spec hconclude
  have hnone : s'.recorder.activeSession = none := by rw [hrecorder]; rfl
  refine ⟨?_, ?_, [stop], hstops, ?_⟩
  · simp only [Placed, hidle]
    refine .inl ⟨⟨hnone, hstate, ?_⟩, ⟨?_, ?_, ?_⟩⟩
    · rw [device, hrecorder]
      exact hrunning
    · rw [device, hrecorder]
      exact hquiet.initialized
    · rw [hstreaming]
      exact hquiet.streaming
    · rw [hnotified]
      exact hquiet.notified
  · intro _ _
    simp only [Heard, hidle]
    exact fun hactive => absurd hnone hactive
  · intro x hx
    rw [List.mem_singleton] at hx
    subst hx
    refine ⟨hpassed, ?_, ?_⟩
    · intro herror
      rw [hres] at herror
      rw [hcall]
      exact hlost (hiff.mp herror)
    · intro hheard hnotified
      simp only [Heard, hpoint] at hheard
      rw [hcall] at hnotified
      rw [hres]
      exact hiff.mpr (hheard hnotified)

/-! ## Steps -/

/-- The two states look the same to both invariants. -/
structure Same (s s' : Capturing) : Prop where
  point : s'.point = s.point
  active : s'.recorder.activeSession = s.recorder.activeSession
  device : s'.device = s.device
  state : s'.manager.state = s.manager.state
  session : s'.manager.activeSession = s.manager.activeSession
  streaming : s'.streaming = s.streaming
  notified : s'.notified = s.notified

theorem Same.waiting (h : Same s s') (hs : s.Waiting) : s'.Waiting :=
  ⟨h.active ▸ hs.inactive, h.state ▸ hs.state, h.device ▸ hs.running⟩

theorem Same.quiet (h : Same s s') (hs : s.Quiet) : s'.Quiet :=
  ⟨h.device ▸ hs.initialized, h.streaming ▸ hs.streaming, h.notified ▸ hs.notified⟩

theorem Same.live (h : Same s s') (hs : s.Live) : s'.Live :=
  ⟨h.active ▸ hs.active, h.state ▸ hs.state, h.session ▸ hs.session⟩

theorem Same.placed (h : Same s s') (hs : s.Placed) : s'.Placed := by
  unfold Placed at hs ⊢
  rw [h.point, h.device, h.streaming, h.notified]
  cases hpoint : s.point with
  | idle =>
    rw [hpoint] at hs
    obtain ⟨hwaiting, hquiet⟩ | ⟨hlive, hrest⟩ := hs
    · exact .inl ⟨h.waiting hwaiting, h.quiet hquiet⟩
    · exact .inr ⟨h.live hlive, hrest⟩
  | starting | opening =>
    rw [hpoint] at hs
    exact ⟨h.waiting hs.1, h.quiet hs.2⟩
  | releasing =>
    rw [hpoint] at hs
    exact hs
  | opened | launching | launched =>
    rw [hpoint] at hs
    exact ⟨h.waiting hs.1, hs.2⟩
  | abandoning =>
    rw [hpoint] at hs
    exact h.waiting hs
  | closing | closed =>
    rw [hpoint] at hs
    exact ⟨h.live hs.1, hs.2⟩
  | collecting =>
    rw [hpoint] at hs
    exact ⟨h.live hs.1, h.quiet hs.2.1, hs.2.2⟩

theorem Same.heard (h : Same s s') (hs : s.Heard) : s'.Heard := by
  unfold Heard at hs ⊢
  rw [h.point, h.device, h.active, h.notified]
  exact hs

theorem Same.kept (h : Same s s') (hstops : s'.stops = s.stops) (hs : s.Placed) : Kept s a s' :=
  Kept.of_stops_eq (h.placed hs) (fun hheard _ => h.heard hheard) hstops

/-- Between two operations with no recording, what a start or a dismissed
error makes of it. -/
theorem waiting_of_idle (hidle : s.point = .idle) (h : s.Placed)
    (hstate : s.manager.state ≠ .recording) : s.Waiting ∧ s.Quiet := by
  simp only [Placed, hidle] at h
  obtain hwaiting | ⟨hlive, -⟩ := h
  · exact hwaiting
  · exact absurd hlive.state hstate

theorem startSession_kept (hidle : s.point = .idle) (h : s.Placed)
    (hstep : s.startSession = some s') : Kept s a s' := by
  unfold startSession at hstep
  split at hstep
  · rw [Option.some.injEq] at hstep
    subst hstep
    exact Same.kept ⟨rfl, rfl, rfl, rfl, rfl, rfl, rfl⟩ rfl h
  · rename_i m _ f hmore
    have hm : m = s.manager ∧ s.manager.state = .idle := by
      unfold SessionManager.startSession at hmore
      split at hmore
      · cases hmore
      · rename_i hidle
        split at hmore
        · cases hmore
        · cases hmore
          exact ⟨rfl, by simpa using hidle⟩
    obtain ⟨rfl, hstate⟩ := hm
    obtain ⟨hwaiting, hquiet⟩ := waiting_of_idle hidle h (by simp [hstate])
    have hnone : s.manager.recordingManager.activeSession = none := hwaiting.inactive
    simp only [recorder, hnone, Option.isSome_none, Bool.false_eq_true, if_false,
      Option.some.injEq] at hstep
    subst hstep
    refine Kept.of_stops_eq ⟨⟨rfl, hwaiting.state, hwaiting.running⟩, ?_⟩
      (fun _ _ => trivial) rfl
    exact ⟨hquiet.initialized, hquiet.streaming, hquiet.notified⟩
  · cases hstep

theorem stopSession_kept (hidle : s.point = .idle) (h : s.Placed)
    (hstep : s.stopSession now = some s') : Kept s a s' := by
  unfold stopSession at hstep
  split at hstep
  · rw [Option.some.injEq] at hstep
    subst hstep
    exact Same.kept ⟨rfl, rfl, rfl, rfl, rfl, rfl, rfl⟩ rfl h
  · rename_i hstate
    split at hstep
    · cases hstep
    · exact stopRecording_kept hidle h (by simpa using hstate) hstep

theorem cancelSession_kept (hidle : s.point = .idle) (h : s.Placed)
    (hstep : s.cancelSession now = some s') : Kept s a s' := by
  unfold cancelSession at hstep
  split at hstep
  · rw [Option.some.injEq] at hstep
    subst hstep
    exact Same.kept ⟨rfl, rfl, rfl, rfl, rfl, rfl, rfl⟩ rfl h
  · split at hstep
    · rename_i hstate
      exact stopRecording_kept hidle h hstate hstep
    · rename_i hstate
      obtain ⟨hwaiting, hquiet⟩ := waiting_of_idle hidle h hstate
      simp only [SessionManager.discardSession, Option.some.injEq] at hstep
      subst hstep
      refine Kept.of_stops_eq ?_ ?_ rfl
      · simp only [Placed, hidle]
        refine .inl ⟨⟨hwaiting.inactive, by simp, hwaiting.running⟩, ?_⟩
        exact ⟨hquiet.initialized, hquiet.streaming, hquiet.notified⟩
      · intro _ _
        simp only [Heard, hidle]
        exact fun hactive => absurd hwaiting.inactive hactive

/-- The controlling thread goes on. -/
theorem advance_kept {answer : Bool} (h : s.Placed) (hstep : s.advance answer now = some s') :
    Kept s (.go answer now) s' := by
  unfold advance at hstep
  have hplaced := h
  cases hpoint : s.point with
  | idle =>
    rw [hpoint] at hstep
    cases hstep
  | starting id =>
    simp only [Placed, hpoint] at hplaced
    obtain ⟨hwaiting, hquiet⟩ := hplaced
    simp only [hpoint, hwaiting.running, hquiet.initialized, Bool.false_eq_true, if_false,
      Option.some.injEq] at hstep
    subst hstep
    refine Kept.of_stops_eq ⟨hwaiting.of_manager rfl, ?_⟩ (fun _ _ => trivial) rfl
    exact ⟨hquiet.initialized, hquiet.streaming, hquiet.notified⟩
  | releasing id =>
    simp only [Placed, hpoint] at hplaced
  | opening id =>
    simp only [Placed, hpoint] at hplaced
    obtain ⟨hwaiting, hquiet⟩ := hplaced
    simp only [hpoint] at hstep
    split at hstep
    · cases hstep
      refine Kept.of_stops_eq ⟨?_, rfl, hquiet.streaming, hquiet.notified⟩ (fun _ _ => trivial) rfl
      exact ⟨hwaiting.inactive, hwaiting.state, hwaiting.running⟩
    · cases hstep
      refine Kept.of_stops_eq (.inl ⟨hwaiting.of_manager rfl, ?_⟩) ?_ rfl
      · exact ⟨hquiet.initialized, hquiet.streaming, hquiet.notified⟩
      · exact fun _ _ hactive => absurd hwaiting.inactive hactive
  | opened id =>
    simp only [Placed, hpoint] at hplaced
    obtain ⟨hwaiting, hinitialized, -, -⟩ := hplaced
    simp only [hpoint] at hstep
    split at hstep
    · cases hstep
      exact Kept.of_stops_eq ⟨hwaiting.of_manager rfl, hinitialized⟩ (fun _ _ => trivial) rfl
    · cases hstep
      exact Kept.of_stops_eq (hwaiting.of_manager rfl) (fun _ _ => trivial) rfl
  | launching id =>
    simp only [Placed, hpoint] at hplaced
    obtain ⟨hwaiting, hinitialized⟩ := hplaced
    simp only [hpoint] at hstep
    split at hstep
    · cases hstep
      exact Kept.of_stops_eq ⟨hwaiting.of_manager rfl, hinitialized⟩ (fun _ _ => trivial) rfl
    · cases hstep
      exact Kept.of_stops_eq (hwaiting.of_manager rfl) (fun _ _ => trivial) rfl
  | launched id =>
    simp only [Placed, hpoint] at hplaced
    obtain ⟨-, hinitialized⟩ := hplaced
    simp only [hpoint, Option.some.injEq] at hstep
    subst hstep
    refine Kept.of_stops_eq (.inr ⟨⟨?_, rfl, ?_⟩, hinitialized, ?_⟩) ?_ rfl
    · exact Option.some_ne_none id
    · exact Option.some_ne_none _
    · intro hrunning
      cases hrunning
    · -- the write itself: nothing was notified, or it is lost here
      intro _ hunheard _ hnotified
      simp only [Unheard, hpoint] at hunheard
      have hboth : true = false := hnotified.symm.trans hunheard
      cases hboth
  | abandoning id =>
    simp only [Placed, hpoint] at hplaced
    simp only [hpoint, Option.some.injEq] at hstep
    subst hstep
    refine Kept.of_stops_eq (.inl ⟨?_, rfl, rfl, rfl⟩) ?_ rfl
    · exact ⟨hplaced.inactive, hplaced.state, hplaced.running⟩
    · exact fun _ _ hactive => absurd hplaced.inactive hactive
  | closing call =>
    simp only [Placed, hpoint] at hplaced
    obtain ⟨hlive, hlost⟩ := hplaced
    simp only [hpoint, Option.some.injEq] at hstep
    subst hstep
    refine Kept.of_stops_eq ⟨⟨hlive.active, hlive.state, hlive.session⟩, rfl, rfl, hlost⟩ ?_ rfl
    intro hheard _
    simpa only [Heard, hpoint] using hheard
  | closed call =>
    simp only [Placed, hpoint] at hplaced
    obtain ⟨hlive, hstreaming, hnotified, hlost⟩ := hplaced
    simp only [hpoint, Option.some.injEq] at hstep
    subst hstep
    refine Kept.of_stops_eq ⟨⟨hlive.active, hlive.state, hlive.session⟩,
      ⟨rfl, hstreaming, hnotified⟩, rfl, hlost⟩ ?_ rfl
    intro hheard _
    simpa only [Heard, hpoint] using hheard
  | collecting call =>
    simp only [hpoint] at hstep
    exact collect_kept hpoint h hstep

/-- The notification handler runs. -/
theorem notify_kept (h : s.Placed) (hstreaming : s.streaming = true) :
    Kept s .notify { s.setDevice s.device.handleDeviceNotification with notified := true } := by
  -- without a device nobody calls back
  have hquiet : ¬ s.Quiet := by
    intro hq
    rw [hq.streaming] at hstreaming
    cases hstreaming
  obtain ⟨m, point, streaming, notified, returns, stops⟩ := s
  refine Kept.of_stops_eq ?_ ?_ rfl
  · cases point with
    | idle =>
      obtain ⟨-, hq⟩ | ⟨hlive, hinitialized, -⟩ := h
      · exact absurd hq hquiet
      · exact .inr ⟨⟨hlive.active, hlive.state, hlive.session⟩, hinitialized, fun _ => rfl⟩
    | starting | opening => exact absurd h.2 hquiet
    | releasing => exact h
    | opened =>
      have hsilent : streaming = false := h.2.2.1
      rw [hsilent] at hstreaming
      cases hstreaming
    | launching | launched => exact ⟨⟨h.1.inactive, h.1.state, rfl⟩, h.2⟩
    | abandoning => exact ⟨h.inactive, h.state, rfl⟩
    | closing => exact ⟨⟨h.1.active, h.1.state, h.1.session⟩, h.2⟩
    | closed =>
      have hsilent : streaming = false := h.2.1
      rw [hsilent] at hstreaming
      cases hstreaming
    | collecting => exact absurd h.2.1 hquiet
  · intro hheard _
    cases point with
    | idle => exact fun _ _ => rfl
    | closing | closed | collecting => exact hheard
    | _ => trivial

/-- **One step**, whoever takes it. -/
theorem step_kept (h : s.Placed) (hstep : s.step a = some s') : Kept s a s' := by
  cases a with
  | startSession =>
    obtain ⟨hidle, hcall⟩ := Option.ite_none_right_eq_some.mp hstep
    exact startSession_kept hidle h hcall
  | stopSession now =>
    obtain ⟨hidle, hcall⟩ := Option.ite_none_right_eq_some.mp hstep
    exact stopSession_kept hidle h hcall
  | cancelSession now =>
    obtain ⟨hidle, hcall⟩ := Option.ite_none_right_eq_some.mp hstep
    exact cancelSession_kept hidle h hcall
  | go answer now => exact advance_kept h hstep
  | notify =>
    obtain ⟨hstreaming, heq⟩ := Option.ite_none_right_eq_some.mp hstep
    cases heq
    exact notify_kept h hstreaming
  | samples buffer =>
    obtain ⟨-, heq⟩ := Option.ite_none_right_eq_some.mp hstep
    cases heq
    exact Same.kept ⟨rfl, rfl, rfl, rfl, rfl, rfl, rfl⟩ rfl h
  | queue q =>
    cases hstep
    exact Same.kept ⟨rfl, rfl, rfl, rfl, rfl, rfl, rfl⟩ rfl h

/-- The controlling thread is never stuck inside an operation. -/
theorem advance_isSome (h : s.Placed) (hpoint : s.point ≠ .idle) (answer : Bool) (now : Nat) :
    (s.advance answer now).isSome = true := by
  unfold advance
  cases hp : s.point with
  | idle => exact absurd hp hpoint
  | collecting call =>
    simp only [Placed, hp] at h
    have hsession : s.manager.activeSession ≠ none := h.1.session
    simp only [collect]
    split
    · refine conclude_isSome _ _ ?_ now
      exact hsession
    · refine conclude_isSome _ _ ?_ now
      exact hsession
  | starting id =>
    simp only
    split
    · rfl
    · split <;> rfl
  | opening id | opened id | launching id =>
    simp only
    split <;> rfl
  | releasing | launched | abandoning | closing | closed => rfl

/-! ## Calls nobody interrupts -/

/-- What `start_session` gets from miniaudio and does, step by step. -/
def startActs (now : Nat) : DeviceStart → List CaptureAct
  | .initFailed => [.startSession, .go true now, .go false now]
  | .startFailed => [.startSession, .go true now, .go true now, .go false now, .go true now]
  | .ok => [.startSession, .go true now, .go true now, .go true now, .go true now, .go true now]

/-- `start_session` without interruption is the one of the session
manager. -/
theorem start_alone (hidle : s.point = .idle) (hwaiting : s.Waiting) (hquiet : s.Quiet)
    (hstart : s.manager.startSession = .more s.manager none .starting) (outcome : DeviceStart)
    (now : Nat) :
    (Lib.run step s (startActs now outcome)).map (fun t => (t.manager, t.returns)) =
      match s.manager.startRecording outcome now with
      | .done m _ r => some (m, s.returns ++ [r])
      | _ => none := by
  have hactive : s.manager.recordingManager.activeSession = none := hwaiting.inactive
  have hrunning : s.manager.recordingManager.device.running = false := hwaiting.running
  have hinitialized : s.manager.recordingManager.device.initialized = false := hquiet.initialized
  have hdevice : s.manager.recordingManager.device = {} := by
    generalize s.manager.recordingManager.device = d at hrunning hinitialized
    obtain ⟨running, initialized⟩ := d
    subst hrunning hinitialized
    rfl
  cases outcome <;>
    simp [Lib.run, step, startActs, startSession, hstart, hidle, hactive, advance, setRecorder,
      setDevice, recorder, device, hdevice, startFailed, startSucceeded, uninit,
      SessionManager.startRecording, RecordingManager.start, CaptureDevice.start]

/-- `stop_session` of the session manager, from its call to its return. -/
def stopAtOnce (m : SessionManager) (now : Nat) : Option (SessionManager × Return) :=
  match m.stopSession now with
  | .done m _ r => some (m, r)
  | .more m _ (.recorded id recording) => afterEnqueue (m.enqueueRecording id recording now)
  | _ => none

/-- So is `stop_session`. -/
theorem stop_alone (hidle : s.point = .idle) (hlive : s.Live)
    (hinitialized : s.device.initialized = true) (now : Nat) :
    (Lib.run step s [.stopSession now, .go true now, .go true now, .go true now]).map
        (fun t => (t.manager, t.returns)) =
      (stopAtOnce s.manager now).map fun next => (next.1, s.returns ++ [next.2]) := by
  obtain ⟨session, hsession⟩ := Option.ne_none_iff_exists'.mp hlive.session
  obtain ⟨id, hactive⟩ := Option.ne_none_iff_exists'.mp hlive.active
  have hstate := hlive.state
  have hactive' : s.manager.recordingManager.activeSession = some id := hactive
  have hinit : s.manager.recordingManager.device.initialized = true := hinitialized
  cases hrunning : s.manager.recordingManager.device.running with
  | true =>
    simp [Lib.run, step, stopSession, hidle, hstate, hsession, stopRecording, hactive', hinit,
      advance, setRecorder, setDevice, recorder, device, uninit, collect, hrunning,
      CaptureDevice.isRunning, conclude, stopAtOnce, SessionManager.stopSession, RecordingManager.stop,
      CaptureDevice.stop, Function.comp_def]
  | false =>
    simp [Lib.run, step, stopSession, hidle, hstate, hsession, stopRecording, hactive', hinit,
      advance, setRecorder, setDevice, recorder, device, uninit, collect, hrunning,
      CaptureDevice.isRunning, conclude, stopAtOnce, SessionManager.stopSession, RecordingManager.stop,
      CaptureDevice.stop, SessionManager.fail]

/-! ## Runs -/

theorem init_placed (capacity : Nat) (c : Configuration) : (init capacity c).Placed :=
  .inl ⟨⟨rfl, by simp [init], rfl⟩, rfl, rfl, rfl⟩

theorem reachable_placed {capacity : Nat} {c : Configuration}
    (h : Lib.Reachable step (init capacity c) s) :
    s.Placed ∧ ∀ stop ∈ s.stops, stop.Passed ∧ stop.Truthful := by
  refine Lib.Reachable.invariant
    (P := fun t : Capturing => t.Placed ∧ ∀ stop ∈ t.stops, stop.Passed ∧ stop.Truthful)
    h ⟨init_placed capacity c, by simp [init]⟩ ?_
  rintro t a t' - ⟨hplaced, hstops⟩ hstep
  obtain ⟨hplaced', -, new, hnew, hnews⟩ := step_kept hplaced hstep
  refine ⟨hplaced', ?_⟩
  intro stop hstop
  rw [hnew] at hstop
  rcases List.mem_append.mp hstop with hold | hold
  · exact hstops stop hold
  · exact ⟨(hnews stop hold).1, (hnews stop hold).2.1⟩

/-- Runs that never write `running` over a notification notice every
loss. -/
theorem along_heard {capacity : Nat} {c : Configuration} {acts : List CaptureAct}
    (hrun : Lib.run step (init capacity c) acts = some s)
    (halong : Lib.Along step Unheard (init capacity c) acts) :
    s.Heard ∧ ∀ stop ∈ s.stops, stop.Noticed := by
  have hinv : s.Placed ∧ s.Heard ∧ ∀ stop ∈ s.stops, stop.Noticed := by
    refine Lib.run_along
      (Q := fun t : Capturing => t.Placed ∧ t.Heard ∧ ∀ stop ∈ t.stops, stop.Noticed) ?_
      ⟨init_placed capacity c, ?_, by simp [init]⟩ halong hrun
    · rintro t a t' ⟨hplaced, hheard, hstops⟩ hunheard hstep
      obtain ⟨hplaced', hheard', new, hnew, hnews⟩ := step_kept hplaced hstep
      refine ⟨hplaced', hheard' hheard hunheard, ?_⟩
      intro stop hstop
      rw [hnew] at hstop
      rcases List.mem_append.mp hstop with hold | hold
      · exact hstops stop hold
      · exact (hnews stop hold).2.2 hheard
    · exact fun hactive => absurd rfl hactive
  exact hinv.2

/-- The controlling thread goes on by itself from the write of `running`
through a `stop_session`, up to the samples. -/
theorem run_launched {id : SessionId} (h : s.Placed) (hpoint : s.point = .launched id)
    (now : Nat) :
    Lib.run step s [.go true now, .stopSession now, .go true now, .go true now] =
      some { (((s.setDevice { s.device with running := true }).startSucceeded id now).uninit).setDevice
          { running := false, initialized := false } with
        point := .collecting { caller := .stopSession, lost := false, notified := s.notified } } := by
  simp only [Placed, hpoint] at h
  have hdevice : s.manager.recordingManager.device.initialized = true := h.2
  simp [Lib.run, step, advance, hpoint, stopSession, stopRecording, startSucceeded, setDevice,
    setRecorder, CaptureDevice.isRunning, hdevice, uninit]

/-- Conversely: a notification that `start` is about to overwrite is missed
by the `stop_session` that follows. -/
theorem overwritten_missed {id : SessionId} (h : s.Placed) (hpoint : s.point = .launched id)
    (hnotified : s.notified = true) (now : Nat) :
    ∃ t stop recording, Lib.run step s [.go true now, .stopSession now, .go true now,
        .go true now, .go true now] = some t ∧ stop ∈ t.stops ∧ stop.caller = .stopSession ∧
      stop.notified = true ∧ stop.result = .inr recording := by
  obtain ⟨u, hrun, hcollecting, hsession⟩ : ∃ u : Capturing,
      Lib.run step s [.go true now, .stopSession now, .go true now, .go true now] = some u ∧
      u.point = .collecting { caller := .stopSession, lost := false, notified := true } ∧
      u.manager.activeSession ≠ none := by
    refine ⟨_, run_launched h hpoint now, ?_, ?_⟩
    · simp only [hnotified]
    · exact Option.some_ne_none _
  obtain ⟨t, ht⟩ := Option.isSome_iff_exists.mp (conclude_isSome
    (s := u.setRecorder { u.recorder with samples := [], activeSession := none })
    { caller := .stopSession, lost := false, notified := true }
    (.inr { samples := u.recorder.samples, sampleRate := kSampleRate, channels := kChannels })
    hsession now)
  obtain ⟨-, stop, hstops, hcaller, hcall, hresult, -⟩ := conclude_spec ht
  refine ⟨t, stop, _, ?_, ?_, hcaller, hcall, hresult⟩
  · have hcollect : u.step (.go true now) = some t := by
      simp only [step, advance, hcollecting, collect, Bool.false_eq_true, if_false]
      exact ht
    exact Lib.run_snoc hrun hcollect
  · rw [hstops]
    simp

/-- **A lost microphone is noticed unless `start` overwrites the
notification.** In every run in which `running = true` is never written
after a stopped notification of the same device, a notification that ran
before `RecordingManager::stop` makes it return an error, and `stop_session`
moves to Error and queues nothing. In every run, a loss that is reported, or
that `is_running` shows during a recording, is one of the current device,
the controlling thread gets to the end of its operation, and from a point
where a notification is about to be overwritten `stop_session` can take the
recording for a complete one. -/
theorem device_loss_noticed (capacity : Nat) (c : Configuration) {acts : List CaptureAct}
    (hrun : Lib.run step (init capacity c) acts = some s) :
    (Lib.Along step Unheard (init capacity c) acts →
      ∀ stop ∈ s.stops, stop.notified = true →
        (∃ e, stop.result = .inl e) ∧
        (stop.caller = .stopSession → stop.state = .error ∧ stop.queued = false)) ∧
    (∀ stop ∈ s.stops, (∃ e, stop.result = .inl e) → stop.notified = true) ∧
    (s.point = .idle → s.recorder.activeSession ≠ none → s.device.isRunning = false →
      s.notified = true) ∧
    (s.point ≠ .idle → ∀ answer now, (s.step (.go answer now)).isSome = true) ∧
    ∀ id now, s.point = .launched id → s.notified = true →
      ∃ t stop recording, Lib.run step s [.go true now, .stopSession now, .go true now,
          .go true now, .go true now] = some t ∧ stop ∈ t.stops ∧ stop.caller = .stopSession ∧
        stop.notified = true ∧ stop.result = .inr recording := by
  obtain ⟨hplaced, hstops⟩ := reachable_placed ⟨acts, hrun⟩
  refine ⟨?_, ?_, ?_, ?_, ?_⟩
  · intro halong stop hstop hnotified
    obtain ⟨e, he⟩ := (along_heard hrun halong).2 stop hstop hnotified
    exact ⟨⟨e, he⟩, (hstops stop hstop).1 e he⟩
  · intro stop hstop
    exact (hstops stop hstop).2
  · intro hidle hactive hrunning
    simp only [Placed, hidle] at hplaced
    obtain ⟨hwaiting, -⟩ | ⟨-, -, hlost⟩ := hplaced
    · exact absurd hwaiting.inactive hactive
    · exact hlost hrunning
  · exact fun hpoint answer now => advance_isSome hplaced hpoint answer now
  · exact fun id now hpoint hnotified => overwritten_missed hplaced hpoint hnotified now

/-- One recording, with what happens before the write of `running` and after
it. -/
def recordingActs (before after : List CaptureAct) : List CaptureAct :=
  [.startSession, .go true 0, .go true 0, .go true 0, .samples [5]] ++ before ++
    [.go true 0, .go true 0] ++ after ++
    [.stopSession 1, .go true 1, .go true 1, .go true 1]

/-- A loss during the first recording, dismissed, and a second recording:
the first is reported, the second is not. -/
theorem device_loss_noticed_once :
    ∃ s first second, Lib.run step (init 8 {}) (recordingActs [] [.notify] ++ [.cancelSession 2] ++
        recordingActs [] []) = some s ∧ s.stops = [first, second] ∧
      first.state = .error ∧ first.queued = false ∧ second.notified = false ∧
      second.queued = true := by
  have hrun : ((Lib.run step (init 8 {}) (recordingActs [] [.notify] ++ [.cancelSession 2] ++
      recordingActs [] [])).map fun s =>
        s.stops.map fun stop => (stop.caller, stop.notified, stop.queued)) =
      some [(.stopSession, true, false), (.stopSession, false, true)] := by
    decide +kernel
  have halong : Lib.Along step Unheard (init 8 {}) (recordingActs [] [.notify] ++
      [.cancelSession 2] ++ recordingActs [] []) := by
    decide +kernel
  obtain ⟨s, hs, hstops⟩ := Option.map_eq_some_iff.mp hrun
  obtain ⟨first, rest, hfirst, hcall, hrest⟩ := List.map_eq_cons_iff.mp hstops
  obtain ⟨second, rest', hsecond, hcall', hnil⟩ := List.map_eq_cons_iff.mp hrest
  rw [List.map_eq_nil_iff] at hnil
  subst hnil hsecond
  simp only [Prod.mk.injEq] at hcall hcall'
  obtain ⟨hcaller, hnotified, -⟩ := hcall
  obtain ⟨-, herror⟩ := (device_loss_noticed 8 {} hs).1 halong first (by simp [hfirst]) hnotified
  exact ⟨s, first, second, hs, hfirst, (herror hcaller).1, (herror hcaller).2, hcall'.2.1,
    hcall'.2.2⟩

/-- The microphone disappears as soon as it streams: `start` overwrites the
notification, and the recording is queued. -/
theorem overwritten_loss_queued :
    ∃ s stop, Lib.run step (init 8 {}) (recordingActs [.notify] []) = some s ∧
      stop ∈ s.stops ∧ stop.notified = true ∧ stop.caller = .stopSession ∧
      (¬ ∃ e, stop.result = .inl e) ∧ stop.state = .idle ∧ stop.queued = true := by
  have hrun : ((Lib.run step (init 8 {}) (recordingActs [.notify] [])).map Capturing.stops) =
      some [{ caller := .stopSession, notified := true,
              result := .inr { samples := [5], sampleRate := kSampleRate, channels := kChannels },
              state := .idle, queued := true }] := by
    decide +kernel
  obtain ⟨s, hs, hstops⟩ := Option.map_eq_some_iff.mp hrun
  exact ⟨s, _, hs, by rw [hstops]; exact List.mem_singleton.mpr rfl, rfl, rfl, by simp, rfl, rfl⟩

end Capturing

end YoruSpeech

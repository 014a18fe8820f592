/-
YoruSpeech.Session.SessionManagerTheorems — what each section of the
session manager does, and the joint invariant of the three objects that
hold capture state.

`CaptureCase` lists the three consistent combinations of `state_`,
`active_session_` and the recording manager's own active session. The
`*_cases` lemmas say once what a section can do from a consistent state:
the guard of each branch, the state it leaves, the event it publishes and
how it ends. Everything proved about runs of the daemon reads off these.
-/
import YoruSpeech.Session.SessionManager

namespace YoruSpeech

/-! ## The joint invariant -/

/-- The consistent combinations of the three holders of capture state. -/
inductive CaptureCase (g : SessionManager) : Prop
  | idle : g.state = .idle → g.activeSession = none →
      g.recordingManager.activeSession = none → CaptureCase g
  | recording (s : Session) : g.state = .recording → g.activeSession = some s →
      g.recordingManager.activeSession = some s.id → s.state = .recording → CaptureCase g
  | error (s : Session) : g.state = .error → g.activeSession = some s →
      g.recordingManager.activeSession = none → s.state = .failed →
      s.finishedAt.isSome = true → CaptureCase g

/-- Consistency at a point inside an operation. Between stopping the device
and leaving Recording, the recording manager is already inactive. -/
def CaptureAt (g : SessionManager) : Frame → Prop
  | .starting => g.state = .idle ∧ CaptureCase g
  | .recorded id _ => g.state = .recording ∧ g.recordingManager.activeSession = none ∧
      ∃ s, g.activeSession = some s ∧ s.id = id ∧ s.state = .recording
  | .discarding => (g.state = .recording ∨ g.state = .error) ∧
      g.recordingManager.activeSession = none ∧ ∃ s, g.activeSession = some s
  | _ => CaptureCase g

namespace SessionManager

variable {g : SessionManager}

/-! ## Starting -/

/-- No recording is open while `start_session()` is at work. -/
theorem inactive_of_starting (h : CaptureAt g .starting) :
    g.recordingManager.activeSession = none := by
  cases h.2 with
  | idle _ _ h₃ => exact h₃
  | recording _ h₁ _ _ _ => rw [h.1] at h₁; cases h₁
  | error _ _ _ h₃ _ _ => exact h₃

theorem startSession_cases (g : SessionManager) :
    (∃ e r, g.startSession = .done g e (.startSession (some r)) ∧
      (e = none ∨ ∃ message, e = some (.errorOccurred none .queue message))) ∨
    (g.state = .idle ∧ g.queue.hasCapacity = true ∧ g.startSession = .more g none .starting) := by
  unfold startSession
  split
  · exact .inl ⟨_, _, rfl, .inl rfl⟩
  · rename_i hidle
    split
    · exact .inl ⟨_, _, rfl, .inr ⟨_, rfl⟩⟩
    · rename_i hcap
      exact .inr ⟨by simpa using hidle, by simpa using hcap, rfl⟩

theorem startRecording_cases (h : g.recordingManager.activeSession = none)
    (outcome : DeviceStart) (now : Nat) :
    (∃ recorder message, recorder.activeSession = none ∧
      g.startRecording outcome now =
        .done { g with recordingManager := recorder, nextSessionId := g.nextSessionId + 1 }
          (some (.errorOccurred none .audio message)) (.startSession (some ⟨message⟩))) ∨
    (∃ recorder session, recorder.activeSession = some g.nextSessionId ∧
      session.id = g.nextSessionId ∧ session.state = .recording ∧
      g.startRecording outcome now =
        .done { g with
            recordingManager := recorder
            nextSessionId := g.nextSessionId + 1
            activeSession := some session
            state := .recording }
          (some (.recordingStarted g.nextSessionId)) (.startSession none)) := by
  unfold startRecording
  rcases g.recordingManager.start_cases g.nextSessionId outcome h with
    ⟨recorder, e, hstart, hinactive⟩ | ⟨recorder, hstart, hactive, _⟩
  · exact .inl ⟨recorder, e.message, hinactive, by simp only [hstart]⟩
  · refine .inr ⟨recorder, _, hactive, ?_, ?_, by simp only [hstart]; rfl⟩
    · rw [Session.tryTransition_id]
    · rfl

/-! ## Stopping -/

theorem stopSession_cases (h : CaptureCase g) (now : Nat) :
    (g.state ≠ .recording ∧
      ∃ r, g.stopSession now = .done g none (.stopSession (.error r))) ∨
    (∃ s recorder message, g.state = .recording ∧
      g.recordingManager.device.running = false ∧ g.activeSession = some s ∧
      recorder.activeSession = none ∧
      g.stopSession now =
        .done { g with
            recordingManager := recorder
            activeSession := some { s with state := .failed, finishedAt := some now }
            state := .error }
          (some (.errorOccurred (some s.id) .audio message)) (.stopSession (.error ⟨message⟩))) ∨
    (∃ s recorder recording, g.state = .recording ∧
      g.recordingManager.device.running = true ∧ g.activeSession = some s ∧
      s.state = .recording ∧ recorder.activeSession = none ∧
      recording.samples = g.recordingManager.samples ∧
      g.stopSession now =
        .more { g with recordingManager := recorder }
          (some (.recordingFinished s.id recording)) (.recorded s.id recording)) := by
  cases h with
  | idle hstate _ _ =>
    exact .inl ⟨by simp [hstate], ⟨str "no session is recording"⟩, by simp [stopSession, hstate]⟩
  | error s hstate _ _ _ _ =>
    exact .inl ⟨by simp [hstate], ⟨str "no session is recording"⟩, by simp [stopSession, hstate]⟩
  | recording s hstate hactive hrec hsess =>
    rcases g.recordingManager.stop_cases s.id hrec with
      ⟨hrun, recorder, e, hstop, hin⟩ | ⟨hrun, recorder, rec, hstop, hin, hsamples⟩
    · refine .inr (.inl ⟨s, recorder, e.message, hstate, hrun, hactive, hin, ?_⟩)
      simp [stopSession, fail, hstate, hactive, hstop,
        Session.tryTransition_failed now (.inl hsess)]
    · refine .inr (.inr ⟨s, recorder, rec, hstate, hrun, hactive, hsess, hin, hsamples, ?_⟩)
      simp [stopSession, hstate, hactive, hstop]

theorem enqueueRecording_cases {id : SessionId} {recording : Recording}
    (h : CaptureAt g (.recorded id recording)) (now : Nat) :
    (∃ s message, (g.queue.stopping = true ∨ g.queue.capacity ≤ g.queue.pending.length) ∧
      s.id = id ∧ s.state = .failed ∧ s.finishedAt.isSome = true ∧
      g.enqueueRecording id recording now =
        .done { g with activeSession := some s, state := .error }
          (some (.errorOccurred (some id) .queue message)) (.stopSession (.error ⟨message⟩))) ∨
    (g.queue.stopping = false ∧ g.queue.pending.length < g.queue.capacity ∧
      g.enqueueRecording id recording now =
        .more { g with
            queue := { g.queue with pending := g.queue.pending ++ [g.jobFor id recording] }
            activeSession := none
            state := .idle }
          none (.enqueued id g.queue.outstandingCount)) := by
  obtain ⟨hstate, hrec, s, hactive, rfl, hsess⟩ := h
  have hproc : (s.tryTransition .processing now).2.state = .processing := by
    simp [Session.tryTransition, SessionState.canTransition, hsess]
  by_cases hfull : g.queue.stopping = true ∨ g.queue.capacity ≤ g.queue.pending.length
  · refine .inl ⟨{ (s.tryTransition .processing now).2 with
      state := .failed, finishedAt := some now },
      str "transcription queue is full or shutting down", hfull, s.tryTransition_id _ _, rfl,
      rfl, ?_⟩
    simp only [enqueueRecording, hactive, TranscriptionQueue.tryEnqueue, Bool.or_eq_true,
      decide_eq_true_eq, hfull, if_true, fail,
      Session.tryTransition_failed now (.inr hproc), Session.tryTransition_id]
  · simp only [not_or, Bool.not_eq_true, Nat.not_le] at hfull
    refine .inr ⟨hfull.1, hfull.2, ?_⟩
    have hnot : ¬ g.queue.capacity ≤ g.queue.pending.length := by omega
    simp [enqueueRecording, hactive, TranscriptionQueue.tryEnqueue, hfull.1, hnot, jobFor]

/-! ## Cancelling -/

theorem cancelSession_cases (h : CaptureCase g) :
    (g.state = .idle ∧ ∃ r, g.cancelSession = .done g none (.cancelSession (some r))) ∨
    (∃ recorder e, g.state ≠ .idle ∧ recorder.activeSession = none ∧
      (e = none ∨ ∃ id recording, e = some (Event.recordingFinished id recording)) ∧
      g.cancelSession = .more { g with recordingManager := recorder } e .discarding) := by
  cases h with
  | idle hstate _ _ =>
    exact .inl ⟨hstate, ⟨str "no session to cancel"⟩, by simp [cancelSession, hstate]⟩
  | error s hstate _ hrec _ _ =>
    exact .inr ⟨g.recordingManager, none, by simp [hstate], hrec, .inl rfl,
      by rw [cancelSession, if_neg (by simp [hstate]), if_neg (by simp [hstate])]⟩
  | recording s hstate _ hrec _ =>
    rcases g.recordingManager.stop_cases s.id hrec with
      ⟨_, recorder, e, hstop, hin⟩ | ⟨_, recorder, rec, hstop, hin, _⟩
    · exact .inr ⟨recorder, none, by simp [hstate], hin, .inl rfl,
        by simp [cancelSession, hstate, hstop]⟩
    · exact .inr ⟨recorder, _, by simp [hstate], hin, .inr ⟨s.id, rec, rfl⟩,
        by simp [cancelSession, hstate, hstop]⟩

theorem cancelJob_cases (g : SessionManager) (id : SessionId) :
    (id ∉ g.queue.pendingIds ∧ g.cancelJob id = .done g none (.cancelJob id false)) ∨
    (id ∈ g.queue.pendingIds ∧
      g.cancelJob id =
        .more { g with
            queue := { g.queue with pending := g.queue.pending.eraseP (·.sessionId == id) } }
          none (.cancelled id)) := by
  unfold cancelJob TranscriptionQueue.cancelPending
  by_cases hmem : id ∈ g.queue.pendingIds
  · have hany : g.queue.pending.any (·.sessionId == id) = true := by
      simpa [TranscriptionQueue.pendingIds] using hmem
    exact .inr ⟨hmem, by simp only [hany, if_true]⟩
  · have hany : g.queue.pending.any (·.sessionId == id) = false := by
      simpa [TranscriptionQueue.pendingIds] using hmem
    exact .inl ⟨hmem, by simp only [hany, Bool.false_eq_true, if_false]⟩

/-! ## Observing -/

/-- The reported state is Recording only while a session is recording. -/
theorem state_of_reportedState (h : g.reportedState = .recording) : g.state = .recording := by
  unfold reportedState deriveState at h
  split at h
  · exact h
  · split at h <;> cases h

end SessionManager

end YoruSpeech

/-
YoruSpeech.Session.MachineMoves — what one step of the daemon can do, said
once.

`Move m m'` lists every step of the two threads from a consistent state `m`
with its guard and the state it leaves; `step_move` shows that `Machine.step`
takes no other, and `Move.captured` that consistency is kept, so every
reachable state is consistent and every step between reachable states is a
`Move`. The invariants of the daemon are proved by cases on it and never
unfold `step`.
-/
import YoruSpeech.Session.Machine
import YoruSpeech.Session.SessionManagerTheorems

namespace YoruSpeech

/-- A return value that says nothing about a job of the queue. -/
def Return.silent : Return → Bool
  | .stopSession (.queuedJob _ _) => false
  | .pollCompleted _ => false
  | .cancelJob _ r => !r
  | .shutdown _ => false
  | _ => true

namespace Machine

/-! ## What publishing leaves alone -/

section Publish

variable (m : Machine) (e : Option Event)

@[simp] theorem publish?_owner : (m.publish? e).owner = m.owner := by cases e <;> rfl

@[simp] theorem publish?_worker : (m.publish? e).worker = m.worker := by cases e <;> rfl

@[simp] theorem publish?_backend : (m.publish? e).backend = m.backend := by cases e <;> rfl

@[simp] theorem publish?_returns : (m.publish? e).returns = m.returns := by cases e <;> rfl

@[simp] theorem publish?_history : (m.publish? e).history = m.history := by cases e <;> rfl

@[simp] theorem publish?_log : (m.publish? e).log = m.log ++ e.toList := by
  cases e <;> simp [publish?, publish]

@[simp] theorem publish?_queue : (m.publish? e).manager.queue = m.manager.queue := by
  rcases e with _ | e
  · rfl
  · cases e <;> rfl

@[simp] theorem publish?_state : (m.publish? e).manager.state = m.manager.state := by
  rcases e with _ | e
  · rfl
  · cases e <;> rfl

@[simp] theorem publish?_activeSession :
    (m.publish? e).manager.activeSession = m.manager.activeSession := by
  rcases e with _ | e
  · rfl
  · cases e <;> rfl

@[simp] theorem publish?_recordingManager :
    (m.publish? e).manager.recordingManager = m.manager.recordingManager := by
  rcases e with _ | e
  · rfl
  · cases e <;> rfl

@[simp] theorem publish?_nextSessionId :
    (m.publish? e).manager.nextSessionId = m.manager.nextSessionId := by
  rcases e with _ | e
  · rfl
  · cases e <;> rfl

end Publish

/-! ## The moves -/

/-- The snapshot a `tick()` would take now. -/
def window (m : Machine) : List Sample :=
  m.manager.recordingManager.samplesSnapshot m.live.committedSampleCount

/-- The steps of the daemon. Events that play no role in the life of a job
are left abstract (`aside`), and so is what happens inside the live
preview. -/
inductive Move (m : Machine) : Machine → Prop
  -- the capture side of the owner
  | refuse (e : Option Event) (r : Return) : m.owner = .idle → (∀ x ∈ e, x.aside = true) →
      r.silent = true →
      Move m (publish? { m with owner := .idle, returns := m.returns ++ [r] } e)
  | reserve : m.owner = .idle → m.manager.state = .idle → m.manager.queue.hasCapacity = true →
      Move m { m with owner := .inside .starting }
  | startFailed (recorder : RecordingManager) (message : Bytes) :
      m.owner = .inside .starting → recorder.activeSession = none →
      Move m (publish? { m with
        manager := { m.manager with
          recordingManager := recorder, nextSessionId := m.manager.nextSessionId + 1 }
        owner := .idle
        returns := m.returns ++ [.startSession (some ⟨message⟩)]
        history := { m.history with issued := m.history.issued ++ [m.manager.nextSessionId] } }
        (some (.errorOccurred none .audio message)))
  | started (recorder : RecordingManager) (session : Session) :
      m.owner = .inside .starting → recorder.activeSession = some m.manager.nextSessionId →
      session.id = m.manager.nextSessionId → session.state = .recording →
      Move m (publish? { m with
        manager := { m.manager with
          recordingManager := recorder
          nextSessionId := m.manager.nextSessionId + 1
          activeSession := some session
          state := .recording }
        owner := .idle
        returns := m.returns ++ [.startSession none]
        history := { m.history with issued := m.history.issued ++ [m.manager.nextSessionId] } }
        (some (.recordingStarted m.manager.nextSessionId)))
  | stopLost (recorder : RecordingManager) (session : Session) (now : Nat) (message : Bytes) :
      m.owner = .idle → m.manager.state = .recording → m.manager.activeSession = some session →
      m.manager.recordingManager.device.running = false → recorder.activeSession = none →
      Move m (publish? { m with
        manager := { m.manager with
          recordingManager := recorder
          activeSession := some { session with state := .failed, finishedAt := some now }
          state := .error }
        owner := .idle
        returns := m.returns ++ [.stopSession (.error ⟨message⟩)] }
        (some (.errorOccurred (some session.id) .audio message)))
  | stopped (recorder : RecordingManager) (session : Session) (recording : Recording) :
      m.owner = .idle → m.manager.state = .recording → m.manager.activeSession = some session →
      session.state = .recording → m.manager.recordingManager.device.running = true →
      recorder.activeSession = none →
      recording.samples = m.manager.recordingManager.samples →
      Move m (publish? { m with
        manager := { m.manager with recordingManager := recorder }
        owner := .inside (.recorded session.id recording) }
        (some (.recordingFinished session.id recording)))
  | discard (recorder : RecordingManager) (e : Option Event) : m.owner = .idle →
      m.manager.state ≠ .idle → recorder.activeSession = none → (∀ x ∈ e, x.aside = true) →
      Move m (publish? { m with
        manager := { m.manager with recordingManager := recorder }
        owner := .inside .discarding } e)
  | discarded (session : Session) : m.owner = .inside .discarding →
      m.manager.activeSession = some session →
      Move m (publish? { m with
        manager := { m.manager with activeSession := none, state := .idle }
        owner := .idle
        returns := m.returns ++ [.cancelSession none] }
        (some (.sessionCancelled session.id)))
  -- `stop_session` hands a recording to the queue
  | enqueueRefused (id : SessionId) (recording : Recording) (session : Session)
      (message : Bytes) : m.owner = .inside (.recorded id recording) →
      (m.manager.queue.stopping = true ∨
        m.manager.queue.capacity ≤ m.manager.queue.pending.length) →
      session.id = id → session.state = .failed → session.finishedAt.isSome = true →
      Move m (publish? { m with
        manager := { m.manager with activeSession := some session, state := .error }
        owner := .idle
        returns := m.returns ++ [.stopSession (.error ⟨message⟩)] }
        (some (.errorOccurred (some id) .queue message)))
  | enqueue (id : SessionId) (recording : Recording) :
      m.owner = .inside (.recorded id recording) → m.manager.queue.stopping = false →
      m.manager.queue.pending.length < m.manager.queue.capacity →
      Move m { m with
        manager := { m.manager with
          queue := { m.manager.queue with
            pending := m.manager.queue.pending ++ [m.manager.jobFor id recording] }
          activeSession := none
          state := .idle }
        owner := .inside (.enqueued id m.manager.queue.outstandingCount)
        history := { m.history with accepted := m.history.accepted ++ [id] } }
  | announceQueued (id : SessionId) (position : Nat) :
      m.owner = .inside (.enqueued id position) →
      Move m (publish? { m with
        owner := .idle
        returns := m.returns ++ [.stopSession (.queuedJob id position)] }
        (some (.transcriptionQueued id position)))
  -- `cancel_job`
  | cancel (id : SessionId) : m.owner = .idle → id ∈ m.manager.queue.pendingIds →
      Move m { m with
        manager := { m.manager with
          queue := { m.manager.queue with
            pending := m.manager.queue.pending.eraseP (·.sessionId == id) } }
        owner := .inside (.cancelled id)
        history := { m.history with withdrawn := m.history.withdrawn ++ [id] } }
  | announceCancelled (id : SessionId) : m.owner = .inside (.cancelled id) →
      Move m (publish? { m with
        owner := .idle
        returns := m.returns ++ [.cancelJob id true] }
        (some (.sessionCancelled id)))
  -- `poll_completed`
  | drain : m.owner = .idle →
      Move m { m with
        manager := { m.manager with queue := { m.manager.queue with completed := [] } }
        owner := .inside (.drained m.manager.queue.completed) }
  | collect (results : List TranscriptionJobResult) : m.owner = .inside (.drained results) →
      Move m { m with
        manager := { m.manager with queue := { m.manager.queue with started := [] } }
        owner := .inside (.announcing m.manager.queue.started results) }
  | announceStarted (id : SessionId) (starts : List SessionId)
      (results : List TranscriptionJobResult) :
      m.owner = .inside (.announcing (id :: starts) results) →
      Move m (publish? { m with owner := .inside (.announcing starts results) }
        (some (.transcriptionStarted id)))
  | announced (results : List TranscriptionJobResult) :
      m.owner = .inside (.announcing [] results) →
      Move m { m with owner := .inside (.reporting results results.length) }
  | reportFailed (id : SessionId) (e : SpeechError) (rest : List TranscriptionJobResult)
      (count : Nat) : m.owner = .inside (.reporting (⟨id, .error e⟩ :: rest) count) →
      Move m (publish? { m with
        manager := { m.manager with lastFailed := some id }
        owner := .inside (.reporting rest count) }
        (some (.errorOccurred (some id) .speech e.message)))
  | reportCompleted (id : SessionId) (t : Transcript) (rest : List TranscriptionJobResult)
      (count : Nat) : m.owner = .inside (.reporting (⟨id, .transcript t⟩ :: rest) count) →
      Move m (publish? { m with
        manager := { m.manager with lastCompleted := some id }
        owner := .inside (.reporting rest count) }
        (some (.transcriptionCompleted id t)))
  | reported (count : Nat) : m.owner = .inside (.reporting [] count) →
      Move m { m with owner := .idle, returns := m.returns ++ [.pollCompleted count] }
  -- `shutdown`
  | stop : m.owner = .idle →
      Move m { m with
        manager := { m.manager with
          queue := { m.manager.queue with stopping := true, pending := [] } }
        owner := .inside (.stopping m.manager.queue.pendingIds)
        history := { m.history with
          withdrawn := m.history.withdrawn ++ m.manager.queue.pendingIds
          pendingAtStop := m.history.pendingAtStop <|> some m.manager.queue.pendingIds } }
  | abort (dropped : List SessionId) : m.owner = .inside (.stopping dropped) →
      Move m { m with
        owner := .inside (.aborted dropped)
        backend := { m.backend with abortRequested := true }
        history := { m.history with abortRequested := true } }
  | join (dropped : List SessionId) : m.owner = .inside (.aborted dropped) →
      (m.manager.queue.joinable = true → m.worker = .exited) →
      Move m { m with
        owner := .inside (.dropping dropped dropped)
        manager := { m.manager with queue := { m.manager.queue with joinable := false } } }
  | reportDropped (id : SessionId) (todo dropped : List SessionId) (message : Bytes) :
      m.owner = .inside (.dropping (id :: todo) dropped) →
      Move m (publish? { m with owner := .inside (.dropping todo dropped) }
        (some (.errorOccurred (some id) .queue message)))
  | shutDown (dropped : List SessionId) : m.owner = .inside (.dropping [] dropped) →
      Move m { m with owner := .idle, returns := m.returns ++ [.shutdown dropped] }
  -- `tick`
  | tickEnd (l : LiveTranscriber) :
      (m.owner = .idle ∨ m.owner = .ticking ∨ ∃ id now, m.owner = .recutting id now) →
      (l = m.live ∨ m.manager.state = .recording ∧ m.manager.transcriptionBusy = true ∧
        l = m.live.pause) →
      Move m { m with live := l, owner := .idle, returns := m.returns ++ [.tick] }
  | tickFree : m.owner = .idle → m.manager.state = .recording →
      m.manager.queue.pending = [] → m.manager.queue.busy = false →
      Move m { m with owner := .ticking }
  | tickCut (l : LiveTranscriber) (id : SessionId) (now : Int) : m.owner = .ticking →
      m.live.chooseWindow now m.window = .cut l →
      Move m { m with live := l, owner := .recutting id now }
  | tickDecode (l : LiveTranscriber) (id : SessionId) :
      ((∃ now, m.owner = .ticking ∧ m.live.chooseWindow now m.window = .decode l) ∨
        ∃ id now, m.owner = .recutting id now ∧ m.window ≠ [] ∧
          l = { m.live with lastTickAt := some now }) →
      Move m { m with
        live := l
        owner := .decoding id m.window
        backend := { m.backend with inside := .transcribePartial :: m.backend.inside } }
  | tickDecoded (l : LiveTranscriber) (id : SessionId) (window : List Sample)
      (e : Option Event) : m.owner = .decoding id window → (∀ x ∈ e, x.aside = true) →
      Move m (publish? { m with
        live := l
        owner := .idle
        returns := m.returns ++ [.tick]
        backend := { m.backend with
          inside := m.backend.inside.erase .transcribePartial } } e)
  -- the worker
  | exit : m.worker = .waiting → m.manager.queue.stopping = true →
      Move m { m with worker := .exited }
  | pop (job : TranscriptionJob) (rest : List TranscriptionJob) : m.worker = .waiting →
      m.manager.queue.stopping = false → m.manager.queue.pending = job :: rest →
      Move m { m with
        manager := { m.manager with
          queue := { m.manager.queue with
            pending := rest
            busy := true
            started := m.manager.queue.started ++ [job.sessionId] } }
        backend := { m.backend with abortRequested := false }
        worker := .popped job
        history := { m.history with taken := m.history.taken ++ [job.sessionId] } }
  | enter (job : TranscriptionJob) : m.worker = .popped job →
      Move m { m with
        worker := .transcribing job
        backend := { m.backend with inside := .transcribe job.sessionId :: m.backend.inside }
        history := { m.history with calls := m.history.calls ++ [job] } }
  | leave (job : TranscriptionJob) (result : TranscriptionResult) :
      m.worker = .transcribing job →
      Move m { m with
        worker := .decoded job result
        backend := { m.backend with
          inside := m.backend.inside.erase (.transcribe job.sessionId) }
        history := { m.history with results := m.history.results ++ [⟨job.sessionId, result⟩] } }
  | finish (job : TranscriptionJob) (result : TranscriptionResult) :
      m.worker = .decoded job result →
      Move m { m with
        worker := .finished
        manager := { m.manager with
          queue := m.manager.queue.finish { sessionId := job.sessionId, result := result } } }
  | loop : m.worker = .finished → Move m { m with worker := .waiting }
  -- the audio thread
  | audio (recorder : RecordingManager) (buffer : List Sample) :
      recorder.activeSession = m.manager.recordingManager.activeSession →
      recorder.samples = m.manager.recordingManager.samples ++ buffer →
      Move m { m with manager := { m.manager with recordingManager := recorder } }

/-! ## Consistency -/

/-- The three holders of capture state agree, wherever the owner is. -/
def Captured (m : Machine) : Prop :=
  match m.owner with
  | .inside f => CaptureAt m.manager f
  | .undefined => False
  | _ => CaptureCase m.manager

theorem captureCase_congr {g g' : SessionManager} (hs : g'.state = g.state)
    (ha : g'.activeSession = g.activeSession)
    (hr : g'.recordingManager.activeSession = g.recordingManager.activeSession)
    (h : CaptureCase g) : CaptureCase g' := by
  cases h with
  | idle h₁ h₂ h₃ => exact .idle (hs.trans h₁) (ha.trans h₂) (hr.trans h₃)
  | recording s h₁ h₂ h₃ h₄ =>
    exact .recording s (hs.trans h₁) (ha.trans h₂) (hr.trans h₃) h₄
  | error s h₁ h₂ h₃ h₄ h₅ =>
    exact .error s (hs.trans h₁) (ha.trans h₂) (hr.trans h₃) h₄ h₅

theorem captureAt_congr {g g' : SessionManager} (hs : g'.state = g.state)
    (ha : g'.activeSession = g.activeSession)
    (hr : g'.recordingManager.activeSession = g.recordingManager.activeSession)
    {f : Frame} (h : CaptureAt g f) : CaptureAt g' f := by
  cases f <;> simp only [CaptureAt, hs, ha, hr] at h ⊢ <;>
    first
    | exact captureCase_congr hs ha hr h
    | exact ⟨h.1, captureCase_congr hs ha hr h.2⟩
    | exact h

/-- Consistency is about the owner's place and the three holders only. -/
theorem captured_congr {m m' : Machine} (h : Captured m) (ho : m'.owner = m.owner)
    (hs : m'.manager.state = m.manager.state)
    (ha : m'.manager.activeSession = m.manager.activeSession)
    (hr : m'.manager.recordingManager.activeSession =
      m.manager.recordingManager.activeSession) : Captured m' := by
  unfold Captured at h ⊢
  rw [ho]
  cases hm : m.owner with
  | inside f => rw [hm] at h; exact captureAt_congr hs ha hr h
  | undefined => rw [hm] at h; exact h.elim
  | _ => rw [hm] at h; exact captureCase_congr hs ha hr h

/-- The points of the owner where the three holders must already agree. -/
def calm : Owner → Bool
  | .inside .starting => false
  | .inside (.recorded _ _) => false
  | .inside .discarding => false
  | .undefined => false
  | _ => true

theorem captured_calm_iff {m : Machine} (ho : calm m.owner = true) :
    Captured m ↔ CaptureCase m.manager := by
  unfold Captured
  cases hm : m.owner with
  | inside f =>
    rw [hm] at ho
    cases f <;> first | exact Iff.rfl | cases ho
  | undefined => rw [hm] at ho; cases ho
  | _ => exact Iff.rfl

/-- A step between two calm points that leaves the holders alone. -/
theorem captured_of_calm {m m' : Machine} (h : Captured m) (ho : calm m.owner = true)
    (ho' : calm m'.owner = true) (hs : m'.manager.state = m.manager.state)
    (ha : m'.manager.activeSession = m.manager.activeSession)
    (hr : m'.manager.recordingManager.activeSession =
      m.manager.recordingManager.activeSession) : Captured m' :=
  (captured_calm_iff ho').mpr (captureCase_congr hs ha hr ((captured_calm_iff ho).mp h))

theorem captured_idle {m : Machine} (h : Captured m) (ho : m.owner = .idle) :
    CaptureCase m.manager :=
  (captured_calm_iff (by rw [ho]; rfl)).mp h

/-- **Every move keeps the three holders consistent.** -/
theorem Move.captured {m m' : Machine} (h : Captured m) (hm : Move m m') : Captured m' := by
  cases hm with
  | reserve ho hs _ =>
    have hcase := captured_idle h ho
    exact ⟨hs, hcase⟩
  | started r s ho hr hid hs =>
    exact .recording s (by simp) (by simp) (by simp [hr, hid]) hs
  | startFailed r msg ho hr =>
    rw [Captured, ho] at h
    cases h.2 with
    | idle h₁ h₂ h₃ => exact .idle (by simp [h₁]) (by simp [h₂]) (by simp [hr])
    | recording _ h₁ _ _ _ => rw [h.1] at h₁; cases h₁
    | error _ h₁ _ _ _ _ => rw [h.1] at h₁; cases h₁
  | stopLost r s now msg ho hs ha _ hr =>
    exact .error { s with state := .failed, finishedAt := some now } (by simp) (by simp)
      (by simp [hr]) rfl rfl
  | stopped r s rec ho hs ha hsess _ hr _ =>
    exact ⟨by simp [hs], by simp [hr], s, by simp [ha], rfl, hsess⟩
  | discard r e ho hs hr _ =>
    cases captured_idle h ho with
    | idle h₁ _ _ => exact absurd h₁ hs
    | recording s h₁ h₂ _ _ => simp [Captured, CaptureAt, h₁, h₂, hr]
    | error s h₁ h₂ _ _ _ => simp [Captured, CaptureAt, h₁, h₂, hr]
  | discarded s ho ha =>
    rw [Captured, ho] at h
    exact .idle (by simp) (by simp) (by simp [h.2.1])
  | enqueueRefused id rec s msg ho _ hid hs hf =>
    rw [Captured, ho] at h
    exact .error s (by simp) (by simp) (by simp [h.2.1]) hs hf
  | enqueue id rec ho _ _ =>
    rw [Captured, ho] at h
    exact .idle rfl rfl h.2.1
  | tickEnd l ho _ =>
    have hcalm : calm m.owner = true := by
      rcases ho with ho | ho | ⟨_, _, ho⟩ <;> rw [ho] <;> rfl
    exact captured_of_calm h hcalm rfl rfl rfl rfl
  | tickDecode l id ho =>
    have hcalm : calm m.owner = true := by
      rcases ho with ⟨_, ho, _⟩ | ⟨_, _, ho, _⟩ <;> rw [ho] <;> rfl
    exact captured_of_calm h hcalm rfl rfl rfl rfl
  | exit | pop | enter | leave | finish | loop => exact captured_congr h rfl rfl rfl rfl
  | audio r _ hr _ => exact captured_congr h rfl rfl rfl hr
  | _ => exact captured_of_calm h (by simp [calm, *]) (by simp [calm]) (by simp) (by simp) (by simp)

/-! ## Every step is a move -/

variable {m m' : Machine}

theorem begin_move (h : Captured m) (ho : m.owner = .idle) (op : Op) (inp : Input) :
    Move m (m.begin op inp) := by
  have hcase := captured_idle h ho
  cases op with
  | startSession =>
    rcases m.manager.startSession_cases with ⟨e, r, heq, he⟩ | ⟨hs, hcap, heq⟩
    · rw [begin, heq]
      refine .refuse e (.startSession (some r)) ho ?_ rfl
      rcases he with rfl | ⟨message, rfl⟩ <;> simp [Event.aside]
    · rw [begin, heq]
      exact .reserve ho hs hcap
  | stopSession =>
    rcases SessionManager.stopSession_cases hcase inp.now with
      ⟨_, r, heq⟩ | ⟨s, r, message, hs, hrun, ha, hr, heq⟩ |
      ⟨s, r, recording, hs, hrun, ha, hsess, hr, hsamples, heq⟩
    · rw [begin, heq]
      exact .refuse none (.stopSession (.error r)) ho (by simp) rfl
    · rw [begin, heq]
      exact .stopLost r s inp.now message ho hs ha hrun hr
    · rw [begin, heq]
      exact .stopped r s recording ho hs ha hsess hrun hr hsamples
  | pollCompleted => exact .drain ho
  | cancelSession =>
    rcases SessionManager.cancelSession_cases hcase with
      ⟨_, r, heq⟩ | ⟨r, e, hs, hr, he, heq⟩
    · rw [begin, heq]
      exact .refuse none (.cancelSession (some r)) ho (by simp) rfl
    · rw [begin, heq]
      refine .discard r e ho hs hr ?_
      rcases he with rfl | ⟨_, _, rfl⟩ <;> simp [Event.aside]
  | cancelJob id =>
    rcases m.manager.cancelJob_cases id with ⟨_, heq⟩ | ⟨hmem, heq⟩
    · rw [begin, heq]
      exact .refuse none (.cancelJob id false) ho (by simp) rfl
    · rw [begin, heq]
      exact .cancel id ho hmem
  | shutdown => exact .stop ho
  | configure c =>
    have hm : m.begin (.configure c) inp =
        publish? { m with owner := .idle, returns := m.returns ++ [.configure] }
          (some (.configurationChanged c)) := by
      simp only [begin, publish?, ← ho]
    rw [hm]
    exact .refuse _ _ ho (by simp [Event.aside]) rfl
  | tick =>
    show Move m m.beginTick
    unfold beginTick
    split
    · exact .tickEnd m.live (.inl ho) (.inl rfl)
    · rename_i hrec
      have hstate := SessionManager.state_of_reportedState (Decidable.not_not.mp hrec)
      split
      · rename_i hbusy
        exact .tickEnd m.live.pause (.inl ho) (.inr ⟨hstate, hbusy, rfl⟩)
      · rename_i hbusy
        have hzero : m.manager.queue.outstandingCount = 0 := by
          simpa [SessionManager.transcriptionBusy] using hbusy
        unfold TranscriptionQueue.outstandingCount at hzero
        refine .tickFree ho hstate (List.eq_nil_of_length_eq_zero (by omega)) ?_
        cases hb : m.manager.queue.busy with
        | false => rfl
        | true => simp [hb] at hzero

theorem resume_move {f : Frame} {inp : Input} (h : Captured m) (ho : m.owner = .inside f)
    (hs : m.resume f inp = some m') : Move m m' := by
  have hat : CaptureAt m.manager f := by simpa [Captured, ho] using h
  cases f with
  | starting =>
    rcases SessionManager.startRecording_cases (SessionManager.inactive_of_starting hat)
      inp.device inp.now with
      ⟨r, message, hr, heq⟩ | ⟨r, session, hr, hid, hsess, heq⟩
    · simp only [resume, heq, Option.some.injEq] at hs
      exact hs ▸ .startFailed r message ho hr
    · simp only [resume, heq, Option.some.injEq] at hs
      exact hs ▸ .started r session ho hr hid hsess
  | recorded id recording =>
    rcases SessionManager.enqueueRecording_cases hat inp.now with
      ⟨session, message, hfull, hid, hsess, hfin, heq⟩ | ⟨hstop, hroom, heq⟩
    · simp only [resume, heq, Option.some.injEq] at hs
      exact hs ▸ .enqueueRefused id recording session message ho hfull hid hsess hfin
    · simp only [resume, heq, Option.some.injEq] at hs
      exact hs ▸ .enqueue id recording ho hstop hroom
  | enqueued id position =>
    simp only [resume, SessionManager.announceQueued, Option.some.injEq] at hs
    exact hs ▸ .announceQueued id position ho
  | discarding =>
    obtain ⟨-, -, session, ha⟩ := hat
    simp only [resume, SessionManager.discardSession, ha, Option.map_some,
      Option.some.injEq] at hs
    exact hs ▸ .discarded session ho ha
  | cancelled id =>
    simp only [resume, SessionManager.announceCancelled, Option.some.injEq] at hs
    exact hs ▸ .announceCancelled id ho
  | drained results =>
    simp only [resume, SessionManager.collectStarted, TranscriptionQueue.drainStarted,
      Option.some.injEq] at hs
    exact hs ▸ .collect results ho
  | announcing starts results =>
    cases starts with
    | nil =>
      simp only [resume, SessionManager.announceStarted, Option.some.injEq] at hs
      exact hs ▸ .announced results ho
    | cons id rest =>
      simp only [resume, SessionManager.announceStarted, Option.some.injEq] at hs
      exact hs ▸ .announceStarted id rest results ho
  | reporting results count =>
    match results, ho, hs with
    | [], ho, hs =>
      simp only [resume, SessionManager.reportResult, Option.some.injEq] at hs
      exact hs ▸ .reported count ho
    | ⟨id, .error e⟩ :: rest, ho, hs =>
      simp only [resume, SessionManager.reportResult, Option.some.injEq] at hs
      exact hs ▸ .reportFailed id e rest count ho
    | ⟨id, .transcript t⟩ :: rest, ho, hs =>
      simp only [resume, SessionManager.reportResult, Option.some.injEq] at hs
      exact hs ▸ .reportCompleted id t rest count ho
  | stopping dropped =>
    simp only [resume, Option.some.injEq] at hs
    exact hs ▸ .abort dropped ho
  | aborted dropped =>
    unfold resume at hs
    cases hj : m.manager.queue.joinable with
    | true =>
      by_cases hexit : m.worker = .exited
      · dsimp only at hs
        rw [if_pos hj, if_pos hexit, Option.some.injEq] at hs
        exact hs ▸ .join dropped ho fun _ => hexit
      · simp [hj, hexit] at hs
    | false =>
      -- nothing to join: the flag is already down, so the move's update is the identity
      simp only [hj, Bool.false_eq_true, if_false, Option.some.injEq] at hs
      have hsame : m' = { m with
          owner := .inside (.dropping dropped dropped)
          manager := { m.manager with queue := { m.manager.queue with joinable := false } } } := by
        rw [← hs, ← hj]
      exact hsame ▸ .join dropped ho fun hjoin => by simp [hj] at hjoin
  | dropping todo dropped =>
    cases todo with
    | nil =>
      simp only [resume, SessionManager.reportDropped, Option.some.injEq] at hs
      exact hs ▸ .shutDown dropped ho
    | cons id rest =>
      simp only [resume, SessionManager.reportDropped, Option.some.injEq] at hs
      exact hs ▸ .reportDropped id rest dropped _ ho

theorem tickWindow_move (ho : m.owner = .ticking) (now : Int) : Move m (m.tickWindow now) := by
  unfold tickWindow
  split
  · exact .tickEnd m.live (.inr (.inl ho)) (.inl rfl)
  · dsimp only
    split
    · exact .tickEnd m.live (.inr (.inl ho)) (.inl rfl)
    · rename_i l hchoice
      exact .tickDecode l _ (.inl ⟨now, ho, hchoice⟩)
    · rename_i l hchoice
      exact .tickCut l _ now ho hchoice

theorem tickRecut_move {id : SessionId} {now : Int} (ho : m.owner = .recutting id now) :
    Move m (m.tickRecut id now) := by
  unfold tickRecut
  dsimp only
  split
  · exact .tickEnd m.live (.inr (.inr ⟨id, now, ho⟩)) (.inl rfl)
  · rename_i hwindow
    exact .tickDecode { m.live with lastTickAt := some now } id (.inr ⟨id, now, ho, hwindow, rfl⟩)

theorem tickDecoded_move {id : SessionId} {window : List Sample}
    (ho : m.owner = .decoding id window) (inp : Input) :
    Move m (m.tickDecoded id window inp) := by
  have haside : ∀ x ∈ (m.live.afterDecode id window.length inp.partialResult inp.verdict).2,
      x.aside = true := by
    unfold LiveTranscriber.afterDecode
    split
    · simp
    · dsimp only
      split <;> simp [Event.aside]
  exact .tickDecoded _ id window _ ho haside

theorem workerStep_move {result : TranscriptionResult}
    (hs : m.workerStep result = some m') : Move m m' := by
  unfold workerStep at hs
  cases hw : m.worker with
  | waiting =>
    simp only [hw] at hs
    cases hstop : m.manager.queue.stopping with
    | true =>
      simp only [hstop, if_true, Option.some.injEq] at hs
      exact hs ▸ .exit hw hstop
    | false =>
      cases hp : m.manager.queue.pending with
      | nil => simp [hstop, TranscriptionQueue.pop, hp] at hs
      | cons job rest =>
        have hpop : m.manager.queue.pop = some ({ m.manager.queue with
            pending := rest
            busy := true
            started := m.manager.queue.started ++ [job.sessionId] }, job) := by
          simp only [TranscriptionQueue.pop, hp]
        rw [if_neg (by simp [hstop]), hpop, Option.some.injEq] at hs
        exact hs ▸ .pop job rest hw hstop hp
  | popped job =>
    simp only [hw, Option.some.injEq] at hs
    exact hs ▸ .enter job hw
  | transcribing job =>
    simp only [hw, Option.some.injEq] at hs
    exact hs ▸ .leave job result hw
  | decoded job r =>
    simp only [hw, Option.some.injEq] at hs
    exact hs ▸ .finish job r hw
  | finished =>
    simp only [hw, Option.some.injEq] at hs
    exact hs ▸ .loop hw
  | exited => simp [hw] at hs

theorem captureStep_move {buffer : List Sample} (hs : m.captureStep buffer = some m') :
    Move m m' := by
  unfold captureStep at hs
  split at hs
  · simp only [Option.some.injEq] at hs
    exact hs ▸ .audio _ buffer rfl rfl
  · cases hs

theorem loseStep_move (hs : m.loseStep = some m') : Move m m' := by
  unfold loseStep at hs
  dsimp only at hs
  split at hs
  · simp only [Option.some.injEq] at hs
    exact hs ▸ .audio _ [] rfl (List.append_nil _).symm
  · cases hs

/-- What a step of the worker or the audio thread leaves to the owner, field
by field: of the session manager it touches the queue and the recorder. -/
structure Offstage (m m' : Machine) : Prop where
  owner : m'.owner = m.owner
  log : m'.log = m.log
  live : m'.live = m.live
  manager : ∃ queue recorder, m'.manager =
    { m.manager with queue := queue, recordingManager := recorder }

/-- Of the session manager, the worker touches the queue only. -/
theorem workerStep_offstage {result : TranscriptionResult}
    (hs : m.workerStep result = some m') :
    Offstage m m' ∧ m'.manager.recordingManager = m.manager.recordingManager := by
  have hcases : ∃ queue, m'.manager = { m.manager with queue := queue } ∧
      m'.owner = m.owner ∧ m'.log = m.log ∧ m'.live = m.live := by
    simp only [workerStep] at hs
    split at hs
    · split at hs
      · cases hs
        exact ⟨_, rfl, rfl, rfl, rfl⟩
      · split at hs
        · cases hs
        · cases hs
          exact ⟨_, rfl, rfl, rfl, rfl⟩
    · cases hs
      exact ⟨_, rfl, rfl, rfl, rfl⟩
    · cases hs
      exact ⟨_, rfl, rfl, rfl, rfl⟩
    · cases hs
      exact ⟨_, rfl, rfl, rfl, rfl⟩
    · cases hs
      exact ⟨_, rfl, rfl, rfl, rfl⟩
    · cases hs
  obtain ⟨queue, hmanager, howner, hlog, hlive⟩ := hcases
  exact ⟨⟨howner, hlog, hlive, queue, m.manager.recordingManager, hmanager⟩, by rw [hmanager]⟩

theorem step_offstage {a : Act} (ha : a.byOwner = false) (hs : m.step a = some m') :
    Offstage m m' := by
  cases a with
  | call op inp => cases ha
  | own inp => cases ha
  | worker result => exact (workerStep_offstage hs).1
  | capture buffer =>
    simp only [step, captureStep, Option.ite_none_right_eq_some, Option.some.injEq] at hs
    obtain ⟨-, rfl⟩ := hs
    exact ⟨rfl, rfl, rfl, _, _, rfl⟩
  | lose =>
    simp only [step, loseStep, Option.ite_none_right_eq_some, Option.some.injEq] at hs
    obtain ⟨-, rfl⟩ := hs
    exact ⟨rfl, rfl, rfl, _, _, rfl⟩

/-- **From a consistent state, every step is a move.** -/
theorem step_move {a : Act} (h : Captured m) (hs : m.step a = some m') : Move m m' := by
  cases a with
  | call op inp =>
    simp only [step] at hs
    split at hs
    · rename_i ho
      simp only [Option.some.injEq] at hs
      exact hs ▸ begin_move h ho op inp
    · cases hs
  | own inp =>
    unfold step at hs
    cases ho : m.owner with
    | inside f =>
      simp only [ho] at hs
      exact resume_move h ho hs
    | ticking =>
      simp only [ho, Option.some.injEq] at hs
      exact hs ▸ tickWindow_move ho _
    | recutting id now =>
      simp only [ho, Option.some.injEq] at hs
      exact hs ▸ tickRecut_move ho
    | decoding id window =>
      simp only [ho, Option.some.injEq] at hs
      exact hs ▸ tickDecoded_move ho inp
    | idle => simp [ho] at hs
    | undefined => simp [ho] at hs
  | worker result => exact workerStep_move hs
  | capture buffer => exact captureStep_move hs
  | lose => exact loseStep_move hs

/-! ## Reachable states -/

section Reachable

variable {capacity : Nat} {c : Configuration} {liveConfig : LiveTranscriberConfig}

theorem captured_init : Captured (init capacity c liveConfig) :=
  .idle rfl rfl rfl

/-- **The three holders agree in every reachable state.** -/
theorem Reachable.captured (h : Reachable capacity c liveConfig m) : Captured m := by
  refine Lib.Reachable.invariant h captured_init ?_
  intro t a t' _ hcap hs
  exact (step_move hcap hs).captured hcap

/-- The steps between reachable states are moves. -/
theorem Reachable.move {a : Act} (h : Reachable capacity c liveConfig m)
    (hs : m.step a = some m') : Move m m' :=
  step_move h.captured hs

/-- **Invariant rule of the daemon.** A property that construction
establishes and every move between reachable states keeps. -/
theorem Reachable.invariant {P : Machine → Prop} (h : Reachable capacity c liveConfig m)
    (hinit : P (init capacity c liveConfig))
    (hmove : ∀ t t', Reachable capacity c liveConfig t → P t → Move t t' → P t') : P m := by
  refine Lib.Reachable.invariant h hinit ?_
  intro t a t' hr hp hs
  exact hmove t t' hr hp (Reachable.move hr hs)

end Reachable

end Machine

end YoruSpeech

/-
YoruSpeech.Ipc.CallTheorems — what the commands do to the session machine.

A command calls one operation and waits for its return, while the worker
and the audio thread go on. `Aside` says what no step of theirs touches,
`Beside` that the queue and the worker are where their steps alone lead to.

`perform_startSession`, `perform_stopSession`, `perform_cancelSession` and
`perform_cancelJob` specify the four calls: the condition for each outcome,
what is returned, and the capture state afterwards.
-/
import YoruSpeech.Ipc.CommandTheorems
import YoruSpeech.Session.CaptureTheorems

namespace YoruSpeech

namespace Machine

variable {m m' t t' : Machine} {env : LineEnv} {capacity : Nat} {c : Configuration}
  {liveConfig : LiveTranscriberConfig}

/-! ## The other threads -/

/-- The queue, and what the worker is at. -/
def work (m : Machine) : TranscriptionQueue × Worker := (m.manager.queue, m.worker)

/-- What the worker makes of the queue depends on nothing else. -/
theorem workerStep_work (h : m.work = t.work) (result : TranscriptionResult) :
    ((m.workerStep result).getD m).work = ((t.workerStep result).getD t).work := by
  obtain ⟨hqueue, hworker⟩ := Prod.mk.inj h
  cases hw : t.worker with
  | waiting =>
    rw [hw] at hworker
    simp only [workerStep, hworker, hw, hqueue]
    by_cases hstop : t.manager.queue.stopping = true
    · simp only [hstop, if_true, Option.getD_some, work, hqueue]
    · simp only [hstop]
      cases t.manager.queue.pop with
      | none => exact h
      | some popped => rfl
  | exited =>
    rw [hw] at hworker
    simp only [workerStep, hworker, hw]
    exact h
  | _ =>
    rw [hw] at hworker
    simp only [workerStep, hworker, hw, Option.getD_some, work, hqueue]

theorem step_work {a : Act} (ha : a.byOwner = false) (h : m.work = t.work) :
    ((m.step a).getD m).work = ((t.step a).getD t).work := by
  have haudio : ∀ (m : Machine), (∀ m', m.step a = some m' → m'.work = m.work) →
      ((m.step a).getD m).work = m.work := by
    intro m hm
    cases hs : m.step a with
    | none => rfl
    | some m' => exact hm m' hs
  cases a with
  | call op inp => cases ha
  | own inp => cases ha
  | worker result => exact workerStep_work h result
  | capture buffer =>
    have hkeep : ∀ m m' : Machine, m.step (.capture buffer) = some m' → m'.work = m.work := by
      intro m m' hs
      simp only [step, captureStep, Option.ite_none_right_eq_some, Option.some.injEq] at hs
      obtain ⟨-, rfl⟩ := hs
      rfl
    rw [haudio m (hkeep m), haudio t (hkeep t), h]
  | lose =>
    have hkeep : ∀ m m' : Machine, m.step .lose = some m' → m'.work = m.work := by
      intro m m' hs
      simp only [step, loseStep, Option.ite_none_right_eq_some, Option.some.injEq] at hs
      obtain ⟨-, rfl⟩ := hs
      rfl
    rw [haudio m (hkeep m), haudio t (hkeep t), h]

theorem meanwhile_work (acts : List Act) : ∀ {m t : Machine}, m.work = t.work →
    (m.meanwhile acts).work = (t.meanwhile acts).work := by
  induction acts with
  | nil => exact fun h => h
  | cons a rest ih =>
    intro m t h
    refine ih ?_
    cases ha : a.byOwner with
    | true => simpa [ha] using h
    | false => simpa [ha] using step_work ha h

theorem meanwhile_append (m : Machine) (xs ys : List Act) :
    m.meanwhile (xs ++ ys) = (m.meanwhile xs).meanwhile ys := List.foldl_append

theorem meanwhile_aside (m : Machine) (acts : List Act) : Aside m (m.meanwhile acts) := by
  refine meanwhile_keeps (P := Aside m) ?_ acts ⟨rfl, rfl, rfl, rfl, rfl⟩
  intro t a t' ht ha hs
  have hstep := step_aside ha hs
  exact ⟨hstep.owner.trans ht.owner, hstep.returns.trans ht.returns, hstep.state.trans ht.state,
    hstep.session.trans ht.session, hstep.stopping.trans ht.stopping⟩

/-- The queue and the worker are where the steps of the other threads in
between lead to. -/
def Beside (env : LineEnv) (m m' : Machine) : Prop :=
  ∃ acts, (∀ a ∈ acts, ∃ k, a ∈ env.between k) ∧ m'.work = (m.meanwhile acts).work

theorem Beside.refl (env : LineEnv) (m : Machine) : Beside env m m := ⟨[], by simp, rfl⟩

theorem Beside.own (h : Beside env m t) (ht : t'.work = t.work) : Beside env m t' := by
  obtain ⟨acts, hacts, hwork⟩ := h
  exact ⟨acts, hacts, ht.trans hwork⟩

theorem Beside.meanwhile (h : Beside env m t) (k : Nat) :
    Beside env m (t.meanwhile (env.between k)) := by
  obtain ⟨acts, hacts, hwork⟩ := h
  refine ⟨acts ++ env.between k, ?_, ?_⟩
  · intro a ha
    rcases List.mem_append.mp ha with ha | ha
    · exact hacts a ha
    · exact ⟨k, ha⟩
  · rw [meanwhile_append]
    exact meanwhile_work _ hwork

/-- With nothing in between, the queue and the worker are as they were. -/
theorem Beside.alone (h : Beside env m m') (henv : ∀ k, env.between k = []) :
    m'.work = m.work := by
  obtain ⟨acts, hacts, hwork⟩ := h
  have hnil : acts = [] := by
    refine List.eq_nil_iff_forall_not_mem.mpr ?_
    intro a ha
    obtain ⟨k, hk⟩ := hacts a ha
    rw [henv k] at hk
    cases hk
  rw [hwork, hnil]
  rfl

/-! ## Calls -/

theorem complete_idle (env : LineEnv) (fuel k : Nat) (h : m.owner = .idle) :
    m.complete env (fuel + 1) k = m.meanwhile (env.between k) := by
  have howner : (m.meanwhile (env.between k)).owner = .idle :=
    (meanwhile_aside m _).owner.trans h
  simp only [complete, howner]

theorem complete_inside {f : Frame} (fuel k : Nat) (h : m.owner = .inside f)
    (hresume : (m.meanwhile (env.between k)).resume f (env.inputs k) = some m') :
    m.complete env (fuel + 1) k = m'.complete env fuel (k + 1) := by
  have howner : (m.meanwhile (env.between k)).owner = .inside f :=
    (meanwhile_aside m _).owner.trans h
  simp only [complete, howner, hresume]

/-- What a call that ran to its end returned. -/
theorem perform_returned {op : Op} {r : Return}
    (h : (m.perform op env).1.returns = m.returns ++ [r]) : (m.perform op env).2 = some r := by
  show ((m.perform op env).1.returns.drop m.returns.length).head? = some r
  rw [h]
  simp

/-- The capture state and the active session are the same, and the queue is
left to the other threads. -/
structure Kept (env : LineEnv) (m m' : Machine) : Prop where
  state : m'.manager.state = m.manager.state
  session : m'.manager.activeSession = m.manager.activeSession
  work : Beside env m m'

theorem Kept.meanwhile (h : Kept env m t) (k : Nat) :
    Kept env m (t.meanwhile (env.between k)) := by
  have haside := meanwhile_aside t (env.between k)
  exact ⟨haside.state.trans h.state, haside.session.trans h.session, h.work.meanwhile k⟩

/-- A section that returns a refusal and leaves the session manager as it
was, apart from the recorder and the next id. -/
theorem kept_done {g : SessionManager} {e : Option Event} {r : Return} (h : Kept env m t)
    (hstate : g.state = t.manager.state) (hsession : g.activeSession = t.manager.activeSession)
    (hqueue : g.queue = t.manager.queue) : Kept env m (t.apply (.done g e r)) := by
  refine ⟨?_, ?_, h.work.own ?_⟩
  · simpa [apply, hstate] using h.state
  · simpa [apply, hsession] using h.session
  · simp [apply, work, hqueue]

theorem kept_begin (m : Machine) (env : LineEnv) : Kept env m m := ⟨rfl, rfl, .refl env m⟩

/-- The state in which the second section of a call begins. -/
def second (m : Machine) (env : LineEnv) (next : Next) : Machine :=
  (m.apply next).meanwhile (env.between 1)

section Calls

variable {op : Op} {next : Next} {g g' : SessionManager} {e e' : Option Event} {f : Frame}
  {r : Return}

theorem second_spec (hr : Reachable capacity c liveConfig m) (hidle : m.owner = .idle)
    (hbegin : m.begin op (env.inputs 0) = m.apply next) (hnext : next = .more g e f) :
    Reachable capacity c liveConfig (m.second env next) ∧
    (m.second env next).owner = .inside f ∧ (m.second env next).returns = m.returns := by
  subst hnext
  have hs : m.step (.call op (env.inputs 0)) = some (m.apply (.more g e f)) := by
    simp only [step, hidle, if_true, hbegin]
  have haside := meanwhile_aside (m.apply (.more g e f)) (env.between 1)
  refine ⟨meanwhile_keeps (fun _ _ _ h _ hs => h.snoc hs) _ (hr.snoc hs), ?_, ?_⟩
  · refine haside.owner.trans ?_
    simp [apply]
  · refine haside.returns.trans ?_
    simp [apply]

/-- A call whose first section returns is over. -/
theorem perform_done (hbegin : m.begin op (env.inputs 0) = m.apply next)
    (hnext : next = .done g e r) :
    (m.perform op env).1 = (m.apply (.done g e r)).meanwhile (env.between 1) ∧
    (m.perform op env).2 = some r := by
  subst hnext
  have hend : (m.perform op env).1 = (m.apply (.done g e r)).meanwhile (env.between 1) := by
    show complete env 3 1 (m.begin op (env.inputs 0)) = _
    rw [hbegin, complete_idle env 2 1 (by simp [apply])]
  refine ⟨hend, perform_returned ?_⟩
  rw [hend, (meanwhile_aside _ _).returns]
  simp [apply]

/-- A call whose first section goes on runs the second one from there. -/
theorem perform_more (hbegin : m.begin op (env.inputs 0) = m.apply next)
    (hnext : next = .more g e f) (hresume : (m.second env next).resume f (env.inputs 1) = some m') :
    (m.perform op env).1 = m'.complete env 2 2 := by
  subst hnext
  show complete env 3 1 (m.begin op (env.inputs 0)) = _
  rw [hbegin, complete_inside 2 1 (by simp [apply]) hresume]

/-- A call whose second section returns is over. -/
theorem perform_more_done (hbegin : m.begin op (env.inputs 0) = m.apply next)
    (hnext : next = .more g e f)
    (hresume : (m.second env next).resume f (env.inputs 1) = some (t.apply (.done g' e' r)))
    (ht : t.returns = m.returns) :
    (m.perform op env).1 = (t.apply (.done g' e' r)).meanwhile (env.between 2) ∧
    (m.perform op env).2 = some r := by
  have hend : (m.perform op env).1 = (t.apply (.done g' e' r)).meanwhile (env.between 2) := by
    rw [perform_more hbegin hnext hresume, complete_idle env 1 2 (by simp [apply])]
  refine ⟨hend, perform_returned ?_⟩
  rw [hend, (meanwhile_aside _ _).returns]
  simp [apply, ht]

end Calls

/-- A call that returns at once and leaves the session manager alone. -/
theorem perform_refused {op : Op} {next : Next} {e : Option Event} {r : Return}
    (hbegin : m.begin op (env.inputs 0) = m.apply next) (hnext : next = .done m.manager e r) :
    (m.perform op env).2 = some r ∧ Kept env m (m.perform op env).1 := by
  obtain ⟨hend, hreturn⟩ := perform_done hbegin hnext
  refine ⟨hreturn, ?_⟩
  rw [hend]
  exact (kept_done (kept_begin m env) rfl rfl rfl).meanwhile 1

/-! ## The four calls -/

/-- `start_session()` can start: the daemon is idle, the queue has room and
the device opens. -/
def CanStart (m : Machine) (env : LineEnv) : Prop :=
  m.manager.state = .idle ∧ m.manager.queue.hasCapacity = true ∧ (env.inputs 1).device = .ok

theorem perform_startSession (hr : Reachable capacity c liveConfig m) (hidle : m.owner = .idle)
    (env : LineEnv) :
    (m.CanStart env ∧ (m.perform .startSession env).2 = some (.startSession none) ∧
      (m.perform .startSession env).1.manager.state = .recording) ∨
    (¬ m.CanStart env ∧
      (∃ e, (m.perform .startSession env).2 = some (.startSession (some e))) ∧
      Kept env m (m.perform .startSession env).1) := by
  have hbegin : m.begin .startSession (env.inputs 0) = m.apply m.manager.startSession := rfl
  by_cases hplace : m.manager.state = .idle ∧ m.manager.queue.hasCapacity = true
  · -- a place is reserved; the device decides
    have hnext : m.manager.startSession = .more m.manager none .starting := by
      simp [SessionManager.startSession, hplace]
    obtain ⟨hreach, howner, hreturns⟩ := second_spec hr hidle hbegin hnext
    have hkept : Kept env m (m.second env m.manager.startSession) := by
      rw [hnext]
      refine Kept.meanwhile ?_ 1
      exact ⟨rfl, rfl, .own (.refl env m) rfl⟩
    let noted : Machine := { m.second env m.manager.startSession with
      history := { (m.second env m.manager.startSession).history with
        issued := (m.second env m.manager.startSession).history.issued ++
          [(m.second env m.manager.startSession).manager.nextSessionId] } }
    have hnoted : Kept env m noted := ⟨hkept.state, hkept.session, hkept.work.own rfl⟩
    have hresume : ∀ last, noted.manager.startRecording (env.inputs 1).device
        (env.inputs 1).now = last →
        (m.second env m.manager.startSession).resume .starting (env.inputs 1) =
          some (noted.apply last) := by
      rintro last rfl
      rfl
    have hinactive := hreach.inactive_of_starting howner
    have hdevice := hreach.wired.start_cases hinactive
      (m.second env m.manager.startSession).manager.nextSessionId (env.inputs 1).device
    have hrecorder := SessionManager.startRecording_recorder
      (m.second env m.manager.startSession).manager (env.inputs 1).device (env.inputs 1).now
    rcases SessionManager.startRecording_cases hinactive (env.inputs 1).device
      (env.inputs 1).now with
      ⟨recorder, message, hnone, hlast⟩ | ⟨recorder, s, hsome, -, -, hlast⟩
    · obtain ⟨hend, hreturn⟩ := perform_more_done hbegin hnext (hresume _ hlast) hreturns
      refine .inr ⟨?_, ⟨_, hreturn⟩, ?_⟩
      · rintro ⟨-, -, hok⟩
        rcases hdevice with ⟨-, hopen⟩ | ⟨hnot, -⟩
        · rw [hlast, hopen] at hrecorder
          have heq : recorder = _ := hrecorder
          rw [heq] at hnone
          cases hnone
        · exact hnot hok
      · rw [hend]
        refine Kept.meanwhile ?_ 2
        exact kept_done hnoted rfl rfl rfl
    · obtain ⟨hend, hreturn⟩ := perform_more_done hbegin hnext (hresume _ hlast) hreturns
      refine .inl ⟨⟨hplace.1, hplace.2, ?_⟩, hreturn, ?_⟩
      · rcases hdevice with ⟨hok, -⟩ | ⟨-, hclosed⟩
        · exact hok
        · rw [hlast, hclosed] at hrecorder
          have heq : recorder = _ := hrecorder
          rw [heq] at hsome
          cases hsome
      · rw [hend, (meanwhile_aside _ _).state]
        simp [apply]
  · rcases SessionManager.startSession_cases m.manager with
      ⟨e, r, hnext, -⟩ | ⟨hstate, hroom, -⟩
    · obtain ⟨hreturn, hkept⟩ := perform_refused hbegin hnext
      refine .inr ⟨?_, ⟨r, hreturn⟩, hkept⟩
      rintro ⟨hstate, hroom, -⟩
      exact hplace ⟨hstate, hroom⟩
    · exact absurd ⟨hstate, hroom⟩ hplace

theorem perform_cancelJob (hr : Reachable capacity c liveConfig m) (hidle : m.owner = .idle)
    (id : SessionId) (env : LineEnv) :
    ((m.perform (.cancelJob id) env).2 = some (.cancelJob id false) ∧
      Kept env m (m.perform (.cancelJob id) env).1) ∨
    (m.perform (.cancelJob id) env).2 = some (.cancelJob id true) := by
  have hbegin : m.begin (.cancelJob id) (env.inputs 0) = m.apply (m.manager.cancelJob id) := rfl
  rcases SessionManager.cancelJob_cases m.manager id with ⟨-, hnext⟩ | ⟨-, hnext⟩
  · exact .inl (perform_refused hbegin hnext)
  · obtain ⟨-, -, hreturns⟩ := second_spec hr hidle hbegin hnext
    exact .inr (perform_more_done hbegin hnext rfl hreturns).2

theorem perform_cancelSession (hr : Reachable capacity c liveConfig m) (hidle : m.owner = .idle)
    (env : LineEnv) :
    (m.manager.state = .idle ∧
      (∃ e, (m.perform .cancelSession env).2 = some (.cancelSession (some e))) ∧
      Kept env m (m.perform .cancelSession env).1) ∨
    (m.manager.state ≠ .idle ∧ (m.perform .cancelSession env).2 = some (.cancelSession none) ∧
      (m.perform .cancelSession env).1.manager.state = .idle) := by
  have hbegin : m.begin .cancelSession (env.inputs 0) = m.apply m.manager.cancelSession := rfl
  rcases SessionManager.cancelSession_cases (captured_idle hr.captured hidle) with
    ⟨hstate, r, hnext⟩ | ⟨recorder, e, hstate, -, -, hnext⟩
  · obtain ⟨hreturn, hkept⟩ := perform_refused hbegin hnext
    exact .inl ⟨hstate, ⟨r, hreturn⟩, hkept⟩
  · obtain ⟨-, -, hreturns⟩ := second_spec hr hidle hbegin hnext
    obtain ⟨hend, hreturn⟩ := perform_more_done hbegin hnext rfl hreturns
    refine .inr ⟨hstate, hreturn, ?_⟩
    rw [hend, (meanwhile_aside _ _).state]
    simp [apply]

/-- `stop_session()` on a recording it cannot hand over: the daemon is in
Error with the same session, and the queue is left to the other threads. -/
structure Broken (env : LineEnv) (m m' : Machine) : Prop where
  recording : m.manager.state = .recording
  cause : m.manager.recordingManager.device.running = false ∨ m.manager.queue.stopping = true
  state : m'.manager.state = .error
  session : m'.manager.activeSessionId = m.manager.activeSessionId
  work : Beside env m m'

theorem Broken.meanwhile (h : Broken env m t) (k : Nat) :
    Broken env m (t.meanwhile (env.between k)) := by
  have haside := meanwhile_aside t (env.between k)
  refine ⟨h.recording, h.cause, haside.state.trans h.state, ?_, h.work.meanwhile k⟩
  rw [SessionManager.activeSessionId, haside.session]
  exact h.session

/-- A recording that was queued is announced, and the call returns its
position. -/
theorem perform_enqueued {op : Op} {id : SessionId} {position : Nat} {f : Frame} {next : Next}
    {g g' : SessionManager} {e e' : Option Event}
    (hbegin : m.begin op (env.inputs 0) = m.apply next) (hnext : next = .more g e f)
    (hresume : (m.second env next).resume f (env.inputs 1) =
      some (t.apply (.more g' e' (.enqueued id position)))) (ht : t.returns = m.returns) :
    (m.perform op env).2 = some (.stopSession (.queuedJob id position)) ∧
    (m.perform op env).1.manager.state = g'.state := by
  have howner : (t.apply (.more g' e' (.enqueued id position))).owner =
      .inside (.enqueued id position) := by simp [apply]
  have haside := meanwhile_aside (t.apply (.more g' e' (.enqueued id position))) (env.between 2)
  have hreturns := haside.returns.trans (show _ = m.returns by simp [apply, ht])
  have hstate := haside.state.trans (show _ = g'.state by simp [apply])
  have hend : (t.apply (.more g' e' (.enqueued id position))).complete env 2 2 = _ :=
    complete_inside 1 2 howner rfl
  rw [← perform_more hbegin hnext hresume] at hend
  generalize (t.apply (.more g' e' (.enqueued id position))).meanwhile (env.between 2) = u
    at hreturns hstate hend
  rw [complete_idle env 0 3 rfl] at hend
  refine ⟨perform_returned ?_, ?_⟩
  · rw [hend, (meanwhile_aside _ _).returns]
    show u.returns ++ _ = _
    rw [hreturns]
  · rw [hend, (meanwhile_aside _ _).state]
    exact hstate

theorem perform_stopSession (hr : Reachable capacity c liveConfig m) (hidle : m.owner = .idle)
    (env : LineEnv) :
    (m.manager.state ≠ .recording ∧
      (∃ e, (m.perform .stopSession env).2 = some (.stopSession (.error e))) ∧
      Kept env m (m.perform .stopSession env).1) ∨
    ((∃ e, (m.perform .stopSession env).2 = some (.stopSession (.error e))) ∧
      Broken env m (m.perform .stopSession env).1) ∨
    (m.manager.state = .recording ∧ m.manager.recordingManager.device.running = true ∧
      m.manager.queue.stopping = false ∧
      (∃ id position, (m.perform .stopSession env).2 =
        some (.stopSession (.queuedJob id position))) ∧
      (m.perform .stopSession env).1.manager.state = .idle) := by
  have hbegin : m.begin .stopSession (env.inputs 0) =
      m.apply (m.manager.stopSession (env.inputs 0).now) := rfl
  rcases SessionManager.stopSession_cases (captured_idle hr.captured hidle) (env.inputs 0).now with
    ⟨hstate, r, hnext⟩ | ⟨s, recorder, message, hstate, hlost, hactive, -, hnext⟩ |
    ⟨s, recorder, recording, hstate, hrunning, hactive, -, -, -, hnext⟩
  · obtain ⟨hreturn, hkept⟩ := perform_refused hbegin hnext
    exact .inl ⟨hstate, ⟨r, hreturn⟩, hkept⟩
  · -- the device was lost
    obtain ⟨hend, hreturn⟩ := perform_done hbegin hnext
    refine .inr (.inl ⟨⟨_, hreturn⟩, ?_⟩)
    rw [hend]
    refine Broken.meanwhile ?_ 1
    refine ⟨hstate, .inl hlost, ?_, ?_, .own (.refl env m) ?_⟩
    · simp [apply]
    · simp [apply, SessionManager.activeSessionId, hactive]
    · simp [apply, work]
  · obtain ⟨hreach, howner, hreturns⟩ := second_spec hr hidle hbegin hnext
    have hwork : Beside env m (m.second env (m.manager.stopSession (env.inputs 0).now)) := by
      refine Beside.meanwhile ?_ 1
      refine .own (.refl env m) ?_
      simp [hnext, apply, work]
    have hstopping : (m.second env (m.manager.stopSession
        (env.inputs 0).now)).manager.queue.stopping = m.manager.queue.stopping := by
      refine (meanwhile_aside _ _).stopping.trans ?_
      simp [hnext, apply]
    have hcaptured := hreach.captured
    rw [Captured, howner] at hcaptured
    rcases SessionManager.enqueueRecording_cases hcaptured (env.inputs 1).now with
      ⟨s', message, hfull, hid, -, -, hlast⟩ | ⟨hopen, -, hlast⟩
    · -- a place was kept for the recording, so the queue has been shut down
      have hstop : m.manager.queue.stopping = true := by
        rcases hfull with hstop | hfull
        · exact hstopping.symm.trans hstop
        · cases hopen : m.manager.queue.stopping with
          | true => rfl
          | false =>
            have hroom := hreach.room
            have hlt := hroom.reserved (.inl hcaptured.1) (hstopping.trans hopen)
            rw [← hroom.fixed] at hlt
            omega
      obtain ⟨hend, hreturn⟩ := perform_more_done hbegin hnext (by rw [resume, hlast]) hreturns
      refine .inr (.inl ⟨⟨_, hreturn⟩, ?_⟩)
      rw [hend]
      refine Broken.meanwhile ?_ 2
      refine ⟨hstate, .inr hstop, ?_, ?_, hwork.own ?_⟩
      · simp [apply]
      · simp [apply, SessionManager.activeSessionId, hactive, hid]
      · simp [apply, work]
    · obtain ⟨hreturn, hend⟩ :=
        perform_enqueued hbegin hnext (by rw [resume, hlast]) hreturns
      exact .inr (.inr ⟨hstate, hrunning, hstopping.symm.trans hopen, ⟨_, _, hreturn⟩, hend⟩)

end Machine

end YoruSpeech

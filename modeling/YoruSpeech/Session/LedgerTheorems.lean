/-
YoruSpeech.Session.LedgerTheorems — the daemon refines the hand-off of
`YoruSpeech.Lib.Handoff`.

`ledgerOf` reads the state of a hand-off off a state of the daemon: where
each accepted session is, and what the published log says about it.
`Move.simulates` matches every move of the daemon by moves of the hand-off,
so the hand-off's invariant holds in every reachable state, and with it the
two results this domain is about: an accepted recording is in exactly one
place and gets exactly one outcome, and the published events come out in
order.
-/
import YoruSpeech.Lib.Handoff
import YoruSpeech.Session.MachineTheorems

namespace YoruSpeech

open Lib (Handoff Phase Steps)

/-! ## The abstraction -/

/-- The ids of a list of results. -/
def resultIds (results : List TranscriptionJobResult) : List SessionId :=
  results.map (·.sessionId)

/-- What the owner is in the middle of, as a phase of the hand-off. -/
def Owner.phase : Owner → Phase SessionId
  | .inside (.enqueued id _) => .queueing id
  | .inside (.cancelled id) => .withdrawing [id]
  | .inside (.drained results) => .collected (resultIds results)
  | .inside (.announcing starts results) => .announcing starts (resultIds results)
  | .inside (.reporting results _) => .reporting (resultIds results)
  | .inside (.stopping dropped) => .withdrawing dropped
  | .inside (.aborted dropped) => .withdrawing dropped
  | .inside (.dropping todo _) => .withdrawing todo
  | _ => .idle

theorem Owner.phase_todo (o : Owner) : o.phase.todo = o.todo := by
  cases o with
  | inside f => cases f <;> rfl
  | _ => rfl

/-- The session the worker holds. -/
def Worker.running (w : Worker) : List SessionId :=
  (w.job?.map (·.sessionId)).toList

namespace Machine

variable {m m' : Machine} {capacity : Nat} {c : Configuration}
  {liveConfig : LiveTranscriberConfig}

/-- The log's accepted sessions that were taken out of the queue again. -/
def withdrawnIn (accepted : List SessionId) (log : List Event) : List SessionId :=
  (log.filterMap Event.withdrawn?).filter (· ∈ accepted)

def ledgerOf (m : Machine) : Handoff SessionId where
  accepted := m.history.accepted
  pending := m.manager.queue.pendingIds
  taken := m.history.taken
  running := m.worker.running
  started := m.manager.queue.started
  finished := m.manager.queue.completedIds
  withdrawn := m.history.withdrawn
  phase := m.owner.phase
  queuedLog := m.log.filterMap Event.queued?
  startedLog := m.log.filterMap Event.started?
  resultLog := m.log.filterMap Event.result?
  withdrawnLog := withdrawnIn m.history.accepted m.log

/-- Publishing an event that ends a session the queue never accepted. -/
theorem withdrawnIn_unaccepted {accepted : List SessionId} {log : List Event} {e : Event}
    {id : SessionId} (he : e.withdrawn? = some id) (hid : id ∉ accepted) :
    withdrawnIn accepted (log ++ [e]) = withdrawnIn accepted log := by
  simp [withdrawnIn, he, hid]

/-- Publishing an event that ends an accepted session. -/
theorem withdrawnIn_accepted {accepted : List SessionId} {log : List Event} {e : Event}
    {id : SessionId} (he : e.withdrawn? = some id) (hid : id ∈ accepted) :
    withdrawnIn accepted (log ++ [e]) = withdrawnIn accepted log ++ [id] := by
  simp [withdrawnIn, he, hid]

/-- Publishing an event that ends no session. -/
theorem withdrawnIn_none {accepted : List SessionId} {log : List Event} {e : Event}
    (he : e.withdrawn? = none) :
    withdrawnIn accepted (log ++ [e]) = withdrawnIn accepted log := by
  simp [withdrawnIn, he]

/-- Accepting a session no event has ended. -/
theorem withdrawnIn_accept {accepted : List SessionId} {log : List Event} {id : SessionId}
    (hid : id ∉ log.filterMap Event.withdrawn?) :
    withdrawnIn (accepted ++ [id]) log = withdrawnIn accepted log := by
  apply List.filter_congr
  intro x hx
  have hne : x ≠ id := fun heq => hid (heq ▸ hx)
  simp [hne]

/-! ## The simulation -/

theorem steps_of_eq {R : Handoff SessionId → Handoff SessionId → Prop} {t u : Handoff SessionId}
    (h : u = t) : Steps R t u := by
  subst h
  exact Steps.refl _

theorem steps_of_step {t u v : Handoff SessionId} (hs : Handoff.Step t u) (h : v = u) :
    Steps Handoff.Step t v := by
  subst h
  exact Steps.single hs

/-- A step outside the hand-off. -/
theorem ledger_frame {e : Option Event} (he : ∀ x ∈ e, x.aside = true)
    (hlog : m'.log = m.log ++ e.toList)
    (hh : m'.history.accepted = m.history.accepted) (ht : m'.history.taken = m.history.taken)
    (hw : m'.history.withdrawn = m.history.withdrawn)
    (hq : m'.manager.queue.pending = m.manager.queue.pending)
    (hs : m'.manager.queue.started = m.manager.queue.started)
    (hc : m'.manager.queue.completed = m.manager.queue.completed)
    (hr : m'.worker.running = m.worker.running)
    (hp : m'.owner.phase = m.owner.phase) :
    Steps Handoff.Step (ledgerOf m) (ledgerOf m') := by
  obtain ⟨h₁, h₂, h₃, h₄, -, -⟩ := Event.filterMap_aside m.log he
  apply steps_of_eq
  simp only [ledgerOf, withdrawnIn, TranscriptionQueue.pendingIds,
    TranscriptionQueue.completedIds, hlog, hh, ht, hw, hq, hs, hc, hr, hp, h₁, h₂, h₃, h₄]

theorem ledger_phase {o : Owner} (ho : m.owner = o) : (ledgerOf m).phase = o.phase :=
  congrArg Owner.phase ho

theorem ledger_running {w : Worker} (hw : m.worker = w) : (ledgerOf m).running = w.running :=
  congrArg Worker.running hw

/-- The step publishes `e`, or nothing; queue, worker and history stay. -/
structure LogsOnly (m m' : Machine) (e : Option Event) : Prop where
  log : m'.log = m.log ++ e.toList
  history : m'.history = m.history
  queue : m'.manager.queue = m.manager.queue
  worker : m'.worker = m.worker

namespace LogsOnly

variable {e : Event} {id : SessionId}

/-- Only the logs and the phase of the ledger are touched. -/
theorem ledger {e : Option Event} (h : LogsOnly m m' e) :
    ledgerOf m' = { ledgerOf m with
      phase := m'.owner.phase
      queuedLog := (ledgerOf m).queuedLog ++ e.toList.filterMap Event.queued?
      startedLog := (ledgerOf m).startedLog ++ e.toList.filterMap Event.started?
      resultLog := (ledgerOf m).resultLog ++ e.toList.filterMap Event.result?
      withdrawnLog := withdrawnIn m.history.accepted (m.log ++ e.toList) } := by
  simp only [ledgerOf, h.log, h.history, h.queue, h.worker, List.filterMap_append]

/-- An event of no concern to the hand-off. -/
theorem aside {e : Option Event} (h : LogsOnly m m' e) (he : ∀ x ∈ e, x.aside = true)
    (hp : m'.owner.phase = m.owner.phase) : Steps Handoff.Step (ledgerOf m) (ledgerOf m') :=
  ledger_frame he h.log (by rw [h.history]) (by rw [h.history]) (by rw [h.history])
    (by rw [h.queue]) (by rw [h.queue]) (by rw [h.queue]) (by rw [h.worker]) hp

/-- The end of a session the queue never accepted. -/
theorem unaccepted (h : LogsOnly m m' (some e)) (he : e.withdrawn? = some id)
    (hroles : e.queued? = none ∧ e.started? = none ∧ e.result? = none)
    (hid : id ∉ m.history.accepted) (hp : m'.owner.phase = m.owner.phase) :
    Steps Handoff.Step (ledgerOf m) (ledgerOf m') := by
  apply steps_of_eq
  rw [h.ledger]
  simp [ledgerOf, hp, withdrawnIn_unaccepted he hid, hroles]

/-- The end of an accepted session. -/
theorem withdrawn (h : LogsOnly m m' (some e)) (he : e.withdrawn? = some id)
    (hroles : e.queued? = none ∧ e.started? = none ∧ e.result? = none)
    (hid : id ∈ m.history.accepted) {todo : List SessionId}
    (hp : m.owner.phase = .withdrawing (id :: todo)) (hp' : m'.owner.phase = .withdrawing todo) :
    Steps Handoff.Step (ledgerOf m) (ledgerOf m') := by
  refine steps_of_step (.reportWithdrawn (ledgerOf m) id todo hp) ?_
  rw [h.ledger]
  simp [ledgerOf, hp', withdrawnIn_accepted he hid, hroles]

theorem queued (position : Nat) (h : LogsOnly m m' (some (.transcriptionQueued id position)))
    (hp : m.owner.phase = .queueing id) (hp' : m'.owner.phase = .idle) :
    Steps Handoff.Step (ledgerOf m) (ledgerOf m') := by
  refine steps_of_step (.announceQueued (ledgerOf m) id hp) ?_
  rw [h.ledger]
  simp [ledgerOf, hp', Event.queued?, Event.started?, Event.result?,
    withdrawnIn_none (e := .transcriptionQueued id position) rfl]

theorem started (h : LogsOnly m m' (some (.transcriptionStarted id)))
    {starts results : List SessionId} (hp : m.owner.phase = .announcing (id :: starts) results)
    (hp' : m'.owner.phase = .announcing starts results) :
    Steps Handoff.Step (ledgerOf m) (ledgerOf m') := by
  refine steps_of_step (.announce (ledgerOf m) id starts results hp) ?_
  rw [h.ledger]
  simp [ledgerOf, hp', Event.queued?, Event.started?, Event.result?,
    withdrawnIn_none (e := .transcriptionStarted id) rfl]

/-- The result of a session, whichever it is. -/
theorem result (h : LogsOnly m m' (some e)) (he : e.result? = some id)
    (hroles : e.queued? = none ∧ e.started? = none ∧ e.withdrawn? = none)
    {results : List SessionId} (hp : m.owner.phase = .reporting (id :: results))
    (hp' : m'.owner.phase = .reporting results) :
    Steps Handoff.Step (ledgerOf m) (ledgerOf m') := by
  refine steps_of_step (.report (ledgerOf m) id results hp) ?_
  rw [h.ledger]
  simp [ledgerOf, hp', he, withdrawnIn_none hroles.2.2, hroles]

end LogsOnly

/-- The owner turns to another phase and says nothing. -/
theorem ledger_turn (hlog : m'.log = m.log) (hhistory : m'.history = m.history)
    (hqueue : m'.manager.queue = m.manager.queue) (hworker : m'.worker = m.worker)
    (hs : Handoff.Step (ledgerOf m) { ledgerOf m with phase := m'.owner.phase }) :
    Steps Handoff.Step (ledgerOf m) (ledgerOf m') := by
  refine steps_of_step hs ?_
  simp only [ledgerOf, hlog, hhistory, hqueue, hworker]

/-- The producer accepts. -/
theorem ledger_enqueue {id : SessionId} {recording : Recording} (hp : m.owner.phase = .idle)
    (hnew : id ∉ m.history.accepted) (hopen : id ∉ m.log.filterMap Event.withdrawn?) :
    Steps Handoff.Step (ledgerOf m) (ledgerOf { m with
      manager := { m.manager with
        queue := { m.manager.queue with
          pending := m.manager.queue.pending ++ [m.manager.jobFor id recording] }
        activeSession := none
        state := .idle }
      owner := .inside (.enqueued id m.manager.queue.outstandingCount)
      history := { m.history with accepted := m.history.accepted ++ [id] } }) := by
  refine steps_of_step (.accept (ledgerOf m) id hp hnew) ?_
  simp [ledgerOf, TranscriptionQueue.pendingIds, TranscriptionQueue.completedIds,
    SessionManager.jobFor, Owner.phase, withdrawnIn_accept hopen]

/-- The producer withdraws one session: the queue holds it once. -/
theorem ledger_cancel {id : SessionId} (hp : m.owner.phase = .idle)
    (hnodup : m.manager.queue.pendingIds.Nodup) (hmem : id ∈ m.manager.queue.pendingIds) :
    Steps Handoff.Step (ledgerOf m) (ledgerOf { m with
      manager := { m.manager with
        queue := { m.manager.queue with
          pending := m.manager.queue.pending.eraseP (·.sessionId == id) } }
      owner := .inside (.cancelled id)
      history := { m.history with withdrawn := m.history.withdrawn ++ [id] } }) := by
  have hone : m.manager.queue.pendingIds.filter (· == id) = [id] := by
    rw [List.filter_beq, List.count_eq_one_of_mem hnodup hmem]
    rfl
  have hrest : (m.manager.queue.pending.eraseP (·.sessionId == id)).map (·.sessionId) =
      m.manager.queue.pendingIds.filter fun i => !(i == id) := by
    rw [TranscriptionQueue.eraseP_ids_of_nodup hnodup]
    exact List.filter_congr fun i _ => by by_cases hi : i = id <;> simp [hi]
  refine steps_of_step (.withdraw (ledgerOf m) (· == id) hp) ?_
  simp only [ledgerOf, hone, ← hrest]
  rfl

/-- The producer withdraws whatever waits. -/
theorem ledger_stop (hp : m.owner.phase = .idle) :
    Steps Handoff.Step (ledgerOf m) (ledgerOf { m with
      manager := { m.manager with
        queue := { m.manager.queue with stopping := true, pending := [] } }
      owner := .inside (.stopping m.manager.queue.pendingIds)
      history := { m.history with
        withdrawn := m.history.withdrawn ++ m.manager.queue.pendingIds
        pendingAtStop := m.history.pendingAtStop <|> some m.manager.queue.pendingIds } }) := by
  refine steps_of_step (.withdraw (ledgerOf m) (fun _ => true) hp) ?_
  simp [ledgerOf, TranscriptionQueue.pendingIds, TranscriptionQueue.completedIds, Owner.phase]

/-- An announcement of a cancelled session ends the withdrawal of it. -/
theorem ledger_announceCancelled {id : SessionId} (h : LogsOnly m m' (some (.sessionCancelled id)))
    (hid : id ∈ m.history.accepted) (hp : m.owner.phase = .withdrawing [id])
    (hp' : m'.owner.phase = .idle) : Steps Handoff.Step (ledgerOf m) (ledgerOf m') := by
  have hreport := Handoff.Step.reportWithdrawn (ledgerOf m) id [] hp
  refine (Steps.single hreport).trans (steps_of_step (.withdrew _ rfl) ?_)
  rw [h.ledger]
  simp [ledgerOf, hp', Event.queued?, Event.started?, Event.result?,
    withdrawnIn_accepted (e := .sessionCancelled id) rfl hid]

theorem ledger_pop {job : TranscriptionJob} {rest : List TranscriptionJob}
    {backend : SpeechBackend} (hw : m.worker.running = [])
    (hpending : m.manager.queue.pending = job :: rest) :
    Steps Handoff.Step (ledgerOf m) (ledgerOf { m with
      manager := { m.manager with
        queue := { m.manager.queue with
          pending := rest
          busy := true
          started := m.manager.queue.started ++ [job.sessionId] } }
      backend := backend
      worker := .popped job
      history := { m.history with taken := m.history.taken ++ [job.sessionId] } }) := by
  refine steps_of_step (.take (ledgerOf m) job.sessionId (rest.map (·.sessionId)) hw
    (by simp [ledgerOf, TranscriptionQueue.pendingIds, hpending])) ?_
  simp [ledgerOf, Worker.running, Worker.job?, TranscriptionQueue.pendingIds,
    TranscriptionQueue.completedIds]

theorem ledger_finish {job : TranscriptionJob} {result : TranscriptionResult}
    (hw : m.worker.running = [job.sessionId]) :
    Steps Handoff.Step (ledgerOf m) (ledgerOf { m with
      worker := .finished
      manager := { m.manager with
        queue := m.manager.queue.finish { sessionId := job.sessionId, result := result } } }) := by
  refine steps_of_step (.finish (ledgerOf m) job.sessionId hw) ?_
  simp [ledgerOf, Worker.running, Worker.job?, TranscriptionQueue.finish,
    TranscriptionQueue.pendingIds, TranscriptionQueue.completedIds]

/-- The producer's two drains. -/
theorem ledger_drain (hp : m.owner.phase = .idle) :
    Steps Handoff.Step (ledgerOf m) (ledgerOf { m with
      manager := { m.manager with queue := { m.manager.queue with completed := [] } }
      owner := .inside (.drained m.manager.queue.completed) }) := by
  refine steps_of_step (.collect (ledgerOf m) hp) ?_
  simp [ledgerOf, Owner.phase, TranscriptionQueue.completedIds, TranscriptionQueue.pendingIds,
    resultIds]

theorem ledger_collect {results : List TranscriptionJobResult}
    (hp : m.owner.phase = .collected (resultIds results)) :
    Steps Handoff.Step (ledgerOf m) (ledgerOf { m with
      manager := { m.manager with queue := { m.manager.queue with started := [] } }
      owner := .inside (.announcing m.manager.queue.started results) }) := by
  refine steps_of_step (.gather (ledgerOf m) (resultIds results) hp) ?_
  simp [ledgerOf, Owner.phase, TranscriptionQueue.completedIds, TranscriptionQueue.pendingIds]

/-- A recording in hand was never accepted, and no event has ended it. -/
theorem recorded_open (hcap : Captured m) (hfresh : Fresh m) {id : SessionId}
    {recording : Recording} (ho : m.owner = .inside (.recorded id recording)) :
    id ∉ m.history.accepted ∧ id ∉ m.log.filterMap Event.withdrawn? := by
  rw [Captured, ho] at hcap
  obtain ⟨hstate, -, s, hactive, rfl, -⟩ := hcap
  refine ⟨(hfresh.active s hactive).2, fun hmem => ?_⟩
  obtain ⟨e, he, hw⟩ := List.mem_filterMap.mp hmem
  exact hfresh.recording s hactive hstate
    (List.mem_filterMap.mpr ⟨e, he, Event.closed?_of_withdrawn? hw⟩)

theorem Move.simulates (hcap : Captured m) (hfresh : Fresh m)
    (hinv : Handoff.Inv (ledgerOf m)) (hm : Move m m') :
    Steps Handoff.Step (ledgerOf m) (ledgerOf m') := by
  cases hm with
  -- steps outside the hand-off
  | refuse e _ ho he _ =>
    exact LogsOnly.aside ⟨by simp, by simp, by simp, by simp⟩ he (by simp [ho])
  | discard _ e ho _ _ he | tickDecoded _ _ _ e ho he =>
    exact LogsOnly.aside ⟨by simp, by simp, by simp, by simp⟩ he (by simp [ho, Owner.phase])
  | stopped r s rec ho =>
    exact LogsOnly.aside (e := some (.recordingFinished s.id rec))
      ⟨by simp, by simp, by simp, by simp⟩ (by simp [Event.aside]) (by simp [ho, Owner.phase])
  | startFailed r msg ho hr =>
    -- the failed start has used up an id
    exact ledger_frame (e := some (.errorOccurred none .audio msg)) (by simp [Event.aside])
      (by simp) (by simp) (by simp) (by simp) (by simp) (by simp) (by simp) (by simp)
      (by simp [ho, Owner.phase])
  | started r s ho hr hid hs =>
    apply steps_of_eq
    simp [ledgerOf, ho, Owner.phase, Event.queued?, Event.started?, Event.result?,
      withdrawnIn_none (e := .recordingStarted m.manager.nextSessionId) rfl]
  | stopLost r s now msg ho =>
    apply steps_of_eq
    simp [ledgerOf, ho, Owner.phase, Event.queued?, Event.started?, Event.result?,
      withdrawnIn_none (e := .errorOccurred (some s.id) .audio msg) rfl]
  | reserve ho _ _ | tickFree ho _ _ _ | tickCut _ _ _ ho _ | abort _ ho | join _ ho _ =>
    exact ledger_frame (e := none) (by simp) (by simp) rfl rfl rfl rfl rfl rfl rfl
      (by simp [ho, Owner.phase])
  | tickEnd l ho _ =>
    refine ledger_frame (e := none) (by simp) (by simp) rfl rfl rfl rfl rfl rfl rfl ?_
    rcases ho with ho | ho | ⟨_, _, ho⟩ <;> simp [ho, Owner.phase]
  | tickDecode l id ho =>
    refine ledger_frame (e := none) (by simp) (by simp) rfl rfl rfl rfl rfl rfl rfl ?_
    rcases ho with ⟨_, ho, _⟩ | ⟨_, _, ho, _⟩ <;> simp [ho, Owner.phase]
  | exit hw _ | enter _ hw | leave _ _ hw | loop hw =>
    exact ledger_frame (e := none) (by simp) (by simp) rfl rfl rfl rfl rfl rfl
      (by simp [hw, Worker.running, Worker.job?]) rfl
  | audio r _ hr _ =>
    exact ledger_frame (e := none) (by simp) (by simp) rfl rfl rfl rfl rfl rfl rfl rfl
  | discarded s ho hactive =>
    exact LogsOnly.unaccepted (e := .sessionCancelled s.id) ⟨by simp, by simp, by simp, by simp⟩
      rfl ⟨rfl, rfl, rfl⟩ (hfresh.active s hactive).2 (by simp [ho, Owner.phase])
  | enqueueRefused id rec s msg ho =>
    exact LogsOnly.unaccepted (e := .errorOccurred (some id) .queue msg)
      ⟨by simp, by simp, by simp, by simp⟩ rfl ⟨rfl, rfl, rfl⟩
      (recorded_open hcap hfresh ho).1 (by simp [ho, Owner.phase])
  -- the producer accepts and withdraws
  | enqueue id rec ho =>
    obtain ⟨hnew, hopen⟩ := recorded_open hcap hfresh ho
    exact ledger_enqueue (ledger_phase ho) hnew hopen
  | announceQueued id position ho =>
    exact LogsOnly.queued position ⟨by simp, by simp, by simp, by simp⟩ (ledger_phase ho)
      (by simp [Owner.phase])
  | cancel id ho hmem =>
    exact ledger_cancel (ledger_phase ho) (List.nodup_append.mp hinv.nodup_order).2.1 hmem
  | announceCancelled id ho =>
    exact ledger_announceCancelled ⟨by simp, by simp, by simp, by simp⟩
      (hfresh.held id (by simp [ho, Owner.todo])) (ledger_phase ho) (by simp [Owner.phase])
  | stop ho => exact ledger_stop (ledger_phase ho)
  | reportDropped id todo d msg ho =>
    exact LogsOnly.withdrawn (e := .errorOccurred (some id) .queue msg)
      ⟨by simp, by simp, by simp, by simp⟩ rfl ⟨rfl, rfl, rfl⟩
      (hfresh.held id (by simp [ho, Owner.todo])) (ledger_phase ho) (by simp [Owner.phase])
  | shutDown d ho => exact ledger_turn rfl rfl rfl rfl (.withdrew (ledgerOf m) (ledger_phase ho))
  -- the producer drains and publishes
  | drain ho => exact ledger_drain (ledger_phase ho)
  | collect rs ho => exact ledger_collect (ledger_phase ho)
  | announceStarted id starts rs ho =>
    exact LogsOnly.started ⟨by simp, by simp, by simp, by simp⟩ (ledger_phase ho)
      (by simp [Owner.phase])
  | announced rs ho =>
    exact ledger_turn rfl rfl rfl rfl (.announced (ledgerOf m) (resultIds rs) (ledger_phase ho))
  | reportFailed id e rest count ho =>
    exact LogsOnly.result (e := .errorOccurred (some id) .speech e.message)
      ⟨by simp, by simp, by simp, by simp⟩ rfl ⟨rfl, rfl, rfl⟩ (ledger_phase ho)
      (by simp [Owner.phase, resultIds])
  | reportCompleted id t rest count ho =>
    exact LogsOnly.result (e := .transcriptionCompleted id t)
      ⟨by simp, by simp, by simp, by simp⟩ rfl ⟨rfl, rfl, rfl⟩ (ledger_phase ho)
      (by simp [Owner.phase, resultIds])
  | reported count ho =>
    exact ledger_turn rfl rfl rfl rfl (.reported (ledgerOf m) (ledger_phase ho))
  -- the worker
  | pop job rest hw _ hpending => exact ledger_pop (ledger_running hw) hpending
  | finish job result hw => exact ledger_finish (ledger_running hw)

/-- **The daemon refines the hand-off**: the ledger of a reachable state is
one the hand-off leads to. -/
theorem Reachable.handoff (h : Reachable capacity c liveConfig m) :
    Steps Handoff.Step {} (ledgerOf m) := by
  refine Lib.Reachable.simulates (R := Handoff.Step) ledgerOf h ?_
  intro t a t' hr hsteps hs
  have hinv : Handoff.Inv (ledgerOf t) :=
    hsteps.invariant Handoff.Inv.init fun _ _ hx hstep => hx.step hstep
  exact (Reachable.move hr hs).simulates (Reachable.captured hr) (Reachable.fresh hr) hinv

theorem Reachable.ledger (h : Reachable capacity c liveConfig m) : Handoff.Inv (ledgerOf m) :=
  h.handoff.invariant Handoff.Inv.init fun _ _ hx hstep => hx.step hstep

end Machine

end YoruSpeech

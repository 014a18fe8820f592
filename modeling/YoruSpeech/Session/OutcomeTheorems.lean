/-
YoruSpeech.Session.OutcomeTheorems — what clients of the session manager
can rely on, over every interleaving of the two threads: one outcome for
each accepted recording, events in order, and a shutdown that loses nothing.

The first half says what the values the operations returned imply about the
state (`Answered`, `Settled`, `Dropped`); the second half combines that with
the hand-off of `YoruSpeech.Session.LedgerTheorems`.
-/
import YoruSpeech.Session.LedgerTheorems

namespace YoruSpeech

open Lib (Handoff Phase Steps)

/-- The ids a `shutdown()` returned. -/
def Return.dropped? : Return → Option (List SessionId)
  | .shutdown dropped => some dropped
  | _ => none

/-- A return of `shutdown()` or of `poll_completed()`. -/
def Return.closing : Return → Bool
  | .shutdown _ => true
  | .pollCompleted _ => true
  | _ => false

theorem Return.closing_of_silent {r : Return} (h : r.silent = true) : r.closing = false := by
  cases r <;> first | rfl | cases h

theorem Return.dropped?_of_silent {r : Return} (h : r.silent = true) : r.dropped? = none := by
  cases r <;> first | rfl | cases h

/-- The owner is inside `poll_completed()`. -/
def Owner.polling : Owner → Bool
  | .inside (.drained _) => true
  | .inside (.announcing _ _) => true
  | .inside (.reporting _ _) => true
  | _ => false

/-- The job that is popped and not yet transcribed. -/
def Worker.poppedIds : Worker → List SessionId
  | .popped job => [job.sessionId]
  | _ => []

namespace Machine

variable {m m' : Machine} {capacity : Nat} {c : Configuration}
  {liveConfig : LiveTranscriberConfig}

/-! ## What was called, what was answered -/

structure Answered (m : Machine) : Prop where
  calls : m.history.calls.map (·.sessionId) ++ m.worker.poppedIds = m.history.taken
  queued : ∀ id position, .stopSession (.queuedJob id position) ∈ m.returns →
    id ∈ m.history.accepted
  cancelled : ∀ id, .cancelJob id true ∈ m.returns → id ∈ m.history.withdrawn

/-- The step returned nothing, or a value that says nothing about a single
job. -/
def Unanswered (m m' : Machine) : Prop :=
  m'.returns = m.returns ∨
    ∃ r, m'.returns = m.returns ++ [r] ∧ (r.silent = true ∨ r.closing = true)

/-- A step that answers nothing about a job and leaves the worker alone. -/
theorem Answered.frame (h : Answered m) (hr : Unanswered m m')
    (hc : m'.history.calls = m.history.calls)
    (hw : m'.worker.poppedIds = m.worker.poppedIds) (ht : m'.history.taken = m.history.taken)
    (ha : ∀ id ∈ m.history.accepted, id ∈ m'.history.accepted)
    (hd : ∀ id ∈ m.history.withdrawn, id ∈ m'.history.withdrawn) : Answered m' := by
  have hold : ∀ x ∈ m'.returns, x ∈ m.returns ∨ x.silent = true ∨ x.closing = true := by
    intro x hx
    rcases hr with hr | ⟨r, hr, hquiet⟩
    · exact .inl (hr ▸ hx)
    · rw [hr, List.mem_append, List.mem_singleton] at hx
      rcases hx with hx | rfl
      · exact .inl hx
      · exact .inr hquiet
  refine ⟨by rw [hc, hw, ht]; exact h.calls, ?_, ?_⟩
  · intro id position hmem
    have hmem' := (hold _ hmem).resolve_right (by simp [Return.silent, Return.closing])
    exact ha id (h.queued id position hmem')
  · intro id hmem
    have hmem' := (hold _ hmem).resolve_right (by simp [Return.silent, Return.closing])
    exact hd id (h.cancelled id hmem')

theorem Move.answered (hinv : Handoff.Inv (ledgerOf m)) (h : Answered m) (hm : Move m m') :
    Answered m' := by
  cases hm with
  | announceQueued id position ho =>
    have hacc : id ∈ m.history.accepted := by
      have hq := hinv.queued
      simp only [ledgerOf, ho, Owner.phase, Phase.queued] at hq
      rw [← hq]
      simp
    refine ⟨by simpa using h.calls, ?_, ?_⟩
    · intro x pos hx
      simp only [publish?_returns, List.mem_append, List.mem_singleton, Return.stopSession.injEq,
        StopSessionResult.queuedJob.injEq] at hx
      rw [publish?_history]
      rcases hx with hx | ⟨rfl, -⟩
      · exact h.queued x pos hx
      · exact hacc
    · intro x hx
      simp only [publish?_returns, List.mem_append, List.mem_singleton, reduceCtorEq,
        or_false] at hx
      simpa using h.cancelled x hx
  | announceCancelled id ho =>
    have hwd : id ∈ m.history.withdrawn := by
      have hd := hinv.dropped
      simp only [ledgerOf, ho, Owner.phase, Phase.todo] at hd
      rw [← hd]
      simp
    refine ⟨by simpa using h.calls, ?_, ?_⟩
    · intro x pos hx
      simp only [publish?_returns, List.mem_append, List.mem_singleton, reduceCtorEq,
        or_false] at hx
      simpa using h.queued x pos hx
    · intro x hx
      simp only [publish?_returns, List.mem_append, List.mem_singleton, Return.cancelJob.injEq,
        and_true] at hx
      rw [publish?_history]
      rcases hx with hx | rfl
      · exact h.cancelled x hx
      · exact hwd
  | enqueue id rec ho hs hp =>
    exact h.frame (.inl rfl) rfl rfl rfl (fun x hx => List.mem_append_left _ hx) (by simp)
  | cancel id ho hmem =>
    exact h.frame (.inl rfl) rfl rfl rfl (by simp) (fun x hx => List.mem_append_left _ hx)
  | stop ho =>
    exact h.frame (.inl rfl) rfl rfl rfl (by simp) (fun x hx => List.mem_append_left _ hx)
  | pop job rest hw hs hp =>
    refine ⟨?_, h.queued, h.cancelled⟩
    have hcalls := h.calls
    simp only [hw, Worker.poppedIds, List.append_nil] at hcalls ⊢
    rw [hcalls]
  | enter job hw =>
    refine ⟨?_, h.queued, h.cancelled⟩
    simpa [hw, Worker.poppedIds] using h.calls
  | leave _ _ hw | finish _ _ hw | loop hw | exit hw _ =>
    exact h.frame (.inl rfl) rfl (by simp [hw, Worker.poppedIds]) rfl (by simp) (by simp)
  | refuse e r ho he hr =>
    exact h.frame (.inr ⟨r, by simp, .inl hr⟩) (by simp) (by simp) (by simp) (by simp) (by simp)
  | _ =>
    exact h.frame (by simp [Unanswered, Return.silent, Return.closing]) (by simp) (by simp)
      (by simp) (by simp) (by simp)

theorem Reachable.answered (h : Reachable capacity c liveConfig m) : Answered m := by
  refine Reachable.invariant h ⟨rfl, by simp [init], by simp [init]⟩ ?_
  intro t t' hr hans hm
  exact hm.answered (Reachable.ledger hr) hans

/-! ## After a shutdown -/

/-- The returns of `shutdown()` and `poll_completed()` so far. -/
def closings (m : Machine) : List Return := m.returns.filter Return.closing

theorem closings_concat {r : Return} (hr : m'.returns = m.returns ++ [r])
    (hc : r.closing = true) : m'.closings = m.closings ++ [r] := by
  simp [closings, hr, List.filter_append, hc]

structure Settled (m : Machine) : Prop where
  ended : ∀ dropped, .shutdown dropped ∈ m.closings →
    m.manager.queue.joinable = false ∧ m.owner.todo = []
  polled : ∀ dropped, .shutdown dropped ∈ m.closings → m.owner.polling = true →
    m.manager.queue.completed = []
  settled : ∀ dropped count, [.shutdown dropped, .pollCompleted count].Sublist m.closings →
    m.manager.queue.completed = [] ∧ m.owner.phase.results = []

/-- A pair that is a sublist of a list with one more element is in the list
already, or ends in that element. -/
theorem pair_sublist_concat {α : Type} {a b r : α} {l : List α}
    (h : [a, b].Sublist (l ++ [r])) : [a, b].Sublist l ∨ a ∈ l ∧ b = r := by
  obtain ⟨l₁, l₂, heq, h₁, h₂⟩ := List.sublist_append_iff.mp h
  rcases List.sublist_singleton.mp h₂ with rfl | rfl
  · left
    rw [List.append_nil] at heq
    exact heq ▸ h₁
  · right
    obtain ⟨rfl, rfl⟩ : l₁ = [a] ∧ r = b := by
      cases l₁ with
      | nil => simp at heq
      | cons x xs => cases xs <;> simp_all
    exact ⟨List.singleton_sublist.mp h₁, rfl⟩

/-- A step that returns neither and moves nothing the invariant reads. -/
theorem Settled.frame (h : Settled m) (hr : m'.closings = m.closings)
    (hj : m.manager.queue.joinable = false → m'.manager.queue.joinable = false)
    (hc : m'.manager.queue.completed = m.manager.queue.completed)
    (ho : m.owner.todo = [] → m'.owner.todo = [])
    (hpoll : m'.owner.polling = true → m.owner.polling = true)
    (hres : m.owner.phase.results = [] → m'.owner.phase.results = []) : Settled m' := by
  refine ⟨?_, ?_, ?_⟩
  · rw [hr]
    exact fun d hd => ⟨hj (h.ended d hd).1, ho (h.ended d hd).2⟩
  · rw [hr, hc]
    exact fun d hd hpol => h.polled d hd (hpoll hpol)
  · rw [hr, hc]
    exact fun d n hsub => ⟨(h.settled d n hsub).1, hres (h.settled d n hsub).2⟩

/-- Once the worker is joined it has left its loop, and nothing waits. -/
theorem Halting.halted (h : Halting m) (hj : m.manager.queue.joinable = false) :
    m.worker = .exited ∧ m.manager.queue.pending = [] :=
  ⟨h.joined hj, h.emptied (h.exited (h.joined hj))⟩

/-- A step that only a worker still in its loop allows, or only waiting jobs:
no `shutdown()` has returned. -/
theorem Settled.vacuous (h : Settled m) (hr : m'.closings = m.closings)
    (hj : m.manager.queue.joinable ≠ false) : Settled m' := by
  have hnone : ∀ d, .shutdown d ∉ m'.closings := by
    intro d hd
    exact hj (h.ended d (hr ▸ hd)).1
  exact ⟨fun d hd => absurd hd (hnone d), fun d hd => absurd hd (hnone d),
    fun d n hsub => absurd (hsub.subset (by simp)) (hnone d)⟩

theorem Move.settled (hhalt : Halting m) (h : Settled m) (hm : Move m m') : Settled m' := by
  cases hm with
  | refuse e r ho he hr =>
    have hclose : r.closing = false := Return.closing_of_silent hr
    exact h.frame (by simp [closings, hclose]) (by simp) (by simp)
      (by simp [Owner.todo]) (by simp [Owner.polling]) (by simp [Owner.phase, Phase.results])
  | cancel id ho hmem =>
    refine h.vacuous rfl fun hj => ?_
    simp [TranscriptionQueue.pendingIds, (hhalt.halted hj).2] at hmem
  | finish job result hw =>
    refine h.vacuous rfl fun hj => ?_
    rw [(hhalt.halted hj).1] at hw
    cases hw
  | stop ho =>
    refine ⟨fun d hd => ⟨(h.ended d hd).1, ?_⟩, by simp [Owner.polling], fun d n hsub => ?_⟩
    · simp [Owner.todo, TranscriptionQueue.pendingIds, (hhalt.halted (h.ended d hd).1).2]
    · exact ⟨(h.settled d n hsub).1, rfl⟩
  | drain ho =>
    refine ⟨fun d hd => ⟨(h.ended d hd).1, rfl⟩, fun _ _ _ => rfl, fun d n hsub => ⟨rfl, ?_⟩⟩
    simp [Owner.phase, Phase.results, resultIds, (h.settled d n hsub).1]
  | reported count ho =>
    refine ⟨?_, by simp [Owner.polling], ?_⟩
    · intro d hd
      have hd' : .shutdown d ∈ m.closings := by simpa [closings, Return.closing] using hd
      exact ⟨(h.ended d hd').1, rfl⟩
    · intro d n hsub
      rw [closings_concat (m := m) rfl rfl] at hsub
      refine ⟨?_, rfl⟩
      rcases pair_sublist_concat hsub with hsub | ⟨hd, -⟩
      · exact (h.settled d n hsub).1
      · exact h.polled d hd (by simp [ho, Owner.polling])
  | shutDown d ho =>
    have hj : m.manager.queue.joinable = false :=
      (hhalt.joining (hhalt.inside (by simp [ho, Owner.dropped?]))).resolve_right (by simp [ho])
    refine ⟨fun _ _ => ⟨hj, rfl⟩, by simp [Owner.polling], ?_⟩
    intro d' n hsub
    rw [closings_concat (m := m) rfl rfl] at hsub
    rcases pair_sublist_concat hsub with hsub | ⟨-, hbad⟩
    · exact ⟨(h.settled d' n hsub).1, rfl⟩
    · cases hbad
  | tickEnd l ho _ =>
    exact h.frame (by simp [closings, Return.closing]) id rfl
      (by simp [Owner.todo]) (by simp [Owner.polling]) (by simp [Owner.phase, Phase.results])
  | tickDecode l id ho =>
    exact h.frame rfl (fun hj => hj) rfl
      (by simp [Owner.todo]) (by simp [Owner.polling]) (by simp [Owner.phase, Phase.results])
  | exit | pop | enter | leave | loop | audio => exact h.frame rfl id rfl id id id
  | _ =>
    exact h.frame (by simp [closings, Return.closing]) (by simp) (by simp)
      (by simp [*, Owner.todo]) (by simp [*, Owner.polling])
      (by simp [*, Owner.phase, Phase.results, resultIds])

theorem Reachable.settled (h : Reachable capacity c liveConfig m) : Settled m := by
  refine Reachable.invariant h ?_ fun t t' hr hset hm => hm.settled (Reachable.halting hr) hset
  constructor <;> simp [init, closings]

/-! ## One outcome each -/

/-- Where an accepted recording can be. -/
inductive Place where
  | pending
  | transcribing
  /-- In `completed_`, or taken out of a container by the operation in
  progress, which publishes its outcome before it returns. -/
  | completed
  | reported
  deriving DecidableEq, Repr

/-- How often session `id` is at each place. -/
def countAt (m : Machine) (id : SessionId) : Place → Nat
  | .pending => m.manager.queue.pendingIds.count id
  | .transcribing => m.worker.running.count id
  | .completed => m.manager.queue.completedIds.count id +
      (m.owner.phase.results ++ m.owner.phase.todo).count id
  | .reported => (m.log.filterMap Event.outcome?).count id

/-- Session `id` is at the place. -/
def isAt (m : Machine) (id : SessionId) : Place → Prop
  | .pending => id ∈ m.manager.queue.pendingIds
  | .transcribing => id ∈ m.worker.running
  | .completed => id ∈ m.manager.queue.completedIds ∨
      id ∈ m.owner.phase.results ++ m.owner.phase.todo
  | .reported => id ∈ m.log.filterMap Event.outcome?

theorem isAt_iff {id : SessionId} {p : Place} : m.isAt id p ↔ 0 < m.countAt id p := by
  cases p with
  | completed =>
    simp only [isAt, countAt, ← List.count_pos_iff]
    omega
  | _ => exact List.count_pos_iff.symm

/-- An event is a result or a withdrawal, never both. -/
theorem count_outcomes (log : List Event) (id : SessionId) :
    (log.filterMap Event.outcome?).count id =
      (log.filterMap Event.result?).count id + (log.filterMap Event.withdrawn?).count id := by
  induction log with
  | nil => rfl
  | cons e rest ih =>
    have hone : e.result? = none ∧ e.outcome? = e.withdrawn? ∨
        e.withdrawn? = none ∧ e.outcome? = e.result? := by
      unfold Event.outcome?
      cases hr : e.result? with
      | none => exact .inl ⟨rfl, rfl⟩
      | some x =>
        refine .inr ⟨?_, rfl⟩
        unfold Event.result? at hr
        split at hr <;> first | rfl | cases hr
    rcases hone with ⟨hr, ho⟩ | ⟨hw, ho⟩
    · cases hw : e.withdrawn? with
      | none => simp only [List.filterMap_cons, hr, ho, hw, ih]
      | some x =>
        simp only [List.filterMap_cons, hr, ho, hw, List.count_cons, ih]
        omega
    · cases hr : e.result? with
      | none => simp only [List.filterMap_cons, hr, ho, hw, ih]
      | some x =>
        simp only [List.filterMap_cons, hr, ho, hw, List.count_cons, ih]
        omega

/-- An accepted session is counted once over the four places. -/
theorem countAt_sum (hinv : Handoff.Inv (ledgerOf m)) {id : SessionId}
    (hid : id ∈ m.history.accepted) :
    m.countAt id .pending + m.countAt id .transcribing + m.countAt id .completed +
      m.countAt id .reported = 1 := by
  have hone := hinv.exactly_one hid
  have hwd : (withdrawnIn m.history.accepted m.log).count id =
      (m.log.filterMap Event.withdrawn?).count id :=
    List.count_filter (by simpa using hid)
  simp only [ledgerOf] at hone
  simp only [countAt, count_outcomes, List.count_append]
  omega

theorem existsUnique_place {id : SessionId} (h : m.countAt id .pending +
    m.countAt id .transcribing + m.countAt id .completed + m.countAt id .reported = 1) :
    ∃! p, m.isAt id p := by
  have hpos : ∃ p, 0 < m.countAt id p := by
    by_contra hno
    simp only [not_exists, Nat.not_lt, Nat.le_zero] at hno
    simp [hno] at h
  obtain ⟨p, hp⟩ := hpos
  refine ⟨p, isAt_iff.mpr hp, fun q hq => ?_⟩
  have hq' := isAt_iff.mp hq
  cases p <;> cases q <;> first | rfl | (exfalso; omega)

/-- **Exactly one outcome per accepted recording.** A recording for which
`stop_session()` returned a queued job is at exactly one place and reported
at most once; the backend is never called for a job that `cancel_job()`
says it cancelled; and once `shutdown()` and then `poll_completed()` have
returned, every such recording has been reported exactly once. -/
theorem exactly_one_outcome (h : Reachable capacity c liveConfig m) :
    (∀ id position, .stopSession (.queuedJob id position) ∈ m.returns →
      (∃! p, m.isAt id p) ∧ (m.log.filterMap Event.outcome?).count id ≤ 1) ∧
    (∀ id, .cancelJob id true ∈ m.returns → ∀ job ∈ m.history.calls, job.sessionId ≠ id) ∧
    (∀ dropped count, [.shutdown dropped, .pollCompleted count].Sublist m.returns →
      ∀ id position, .stopSession (.queuedJob id position) ∈ m.returns →
        (m.log.filterMap Event.outcome?).count id = 1) := by
  have hinv := h.ledger
  have hans := h.answered
  refine ⟨?_, ?_, ?_⟩
  · intro id position hret
    have hsum := countAt_sum hinv (hans.queued id position hret)
    refine ⟨existsUnique_place hsum, ?_⟩
    simp only [countAt] at hsum
    omega
  · rintro id hret job hjob rfl
    have htaken : job.sessionId ∈ m.history.taken := by
      rw [← hans.calls]
      exact List.mem_append_left _ (List.mem_map_of_mem hjob)
    exact hinv.not_mem_order (hans.cancelled _ hret) (List.mem_append_left _ htaken)
  · intro dropped count hsub id position hret
    have hclose : [.shutdown dropped, .pollCompleted count].Sublist m.closings :=
      hsub.filter Return.closing
    have hset := h.settled
    obtain ⟨hcompleted, hresults⟩ := hset.settled dropped count hclose
    obtain ⟨hjoined, htodo⟩ := hset.ended dropped (hclose.subset (by simp))
    obtain ⟨hexited, hpending⟩ := h.halting.halted hjoined
    have hsum := countAt_sum hinv (hans.queued id position hret)
    simpa [countAt, TranscriptionQueue.pendingIds, TranscriptionQueue.completedIds, hcompleted,
      hresults, hpending, Owner.phase_todo, htodo, hexited, Worker.running, Worker.job?] using hsum

/-- A session is being transcribed when the daemon shuts down; its result is
collected afterwards. -/
def shutdownActs : List Act :=
  transcribingActs ++ ([.call .shutdown {}, .own {},
    .worker (.transcript ⟨[104, 105], [], [], 0, 0⟩), .worker (.error ⟨[]⟩),
    .worker (.error ⟨[]⟩), .worker (.error ⟨[]⟩), .own {}, .own {}, .call .pollCompleted {},
    .own {}, .own {}, .own {}, .own {}, .own {}] : List Act)

theorem exactly_one_outcome_shutdown :
    [.shutdown [], .pollCompleted 1].Sublist (after shutdownActs).returns ∧
    ((after shutdownActs).log.filterMap Event.outcome?).count 1 = 1 := by
  have hr : Reachable TranscriptionQueue.defaultCapacity {} {} (after shutdownActs) :=
    after_reachable (by decide)
  have hsub : [.shutdown [], .pollCompleted 1].Sublist (after shutdownActs).returns := by decide
  exact ⟨hsub, (exactly_one_outcome hr).2.2 [] 1 hsub 1 0 (by decide)⟩

/-! ## Events in order -/

/-- Every step publishes at most one event. -/
theorem Move.log_concat (hm : Move m m') : ∃ e : Option Event, m'.log = m.log ++ e.toList := by
  cases hm <;> first | exact ⟨_, publish?_log _ _⟩ | exact ⟨none, (List.append_nil _).symm⟩

/-- In this log, results follow the order of the starts, and every start was
announced as queued. -/
structure Ordered (log : List Event) : Prop where
  results : log.filterMap Event.result? <+: log.filterMap Event.started?
  starts : ∀ id ∈ log.filterMap Event.started?, id ∈ log.filterMap Event.queued?

/-- Every initial segment of the published log is ordered. -/
theorem Reachable.ordered (h : Reachable capacity c liveConfig m) :
    ∀ pre, pre <+: m.log → Ordered pre := by
  have hnow : ∀ {t : Machine}, Reachable capacity c liveConfig t → Ordered t.log := fun ht =>
    ⟨ht.ledger.results, fun id hid => ht.ledger.started_queued hid⟩
  refine Lib.Reachable.invariant (P := fun t => ∀ pre, pre <+: t.log → Ordered pre) h ?_ ?_
  · intro pre hpre
    rw [List.prefix_nil.mp hpre]
    exact ⟨List.prefix_rfl, by simp⟩
  · intro t a t' hr hold hs pre hpre
    have hr' : Reachable capacity c liveConfig t' := Lib.Reachable.snoc hr hs
    obtain ⟨e, hlog⟩ := (Reachable.move hr hs).log_concat
    cases e with
    | none =>
      rw [hlog, Option.toList_none, List.append_nil] at hpre
      exact hold pre hpre
    | some e =>
      -- a proper initial segment was there before the step; the whole log is new
      rw [hlog, Option.toList_some, List.prefix_concat_iff] at hpre
      rcases hpre with rfl | hpre
      · have hnew := hnow hr'
        rwa [hlog] at hnew
      · exact hold pre hpre

/-- In an ordered log, an event comes after the one it presupposes. -/
theorem Ordered.last {pre : List Event} {e : Event} (h : Ordered (pre ++ [e])) (id : SessionId) :
    (e.started? = some id → id ∈ pre.filterMap Event.queued?) ∧
    (e.result? = some id → id ∈ pre.filterMap Event.started?) := by
  constructor
  · intro hs
    have hq : e.queued? = none := by
      cases e <;> first | rfl | cases hs
    have hmem := h.starts id (by simp [hs])
    simpa [hq] using hmem
  · intro hr
    have hs : e.started? = none := by
      cases e <;> first | rfl | cases hr
    have hmem := h.results.subset (show id ∈ (pre ++ [e]).filterMap Event.result? by simp [hr])
    simpa [hs] using hmem

/-- **Events come out in order.** At every point of the published log the
results are an initial segment of the starts, the starts of the jobs taken,
and the jobs taken followed by those waiting are the accepted ones in stop
order without the cancelled and the dropped. A job's start follows the
announcement that it is queued, its result follows its start, each is
published at most once, and results come out in stop order. -/
theorem events_in_order (h : Reachable capacity c liveConfig m) :
    m.log.filterMap Event.result? <+: m.log.filterMap Event.started? ∧
    m.log.filterMap Event.started? <+: m.history.taken ∧
    m.history.taken ++ m.manager.queue.pendingIds =
      m.history.accepted.filter (· ∉ m.history.withdrawn) ∧
    (∀ pre e post id, m.log = pre ++ e :: post →
      (e.started? = some id → id ∈ pre.filterMap Event.queued?) ∧
      (e.result? = some id → id ∈ pre.filterMap Event.started?)) ∧
    (m.log.filterMap Event.queued?).Nodup ∧ (m.log.filterMap Event.started?).Nodup ∧
    (m.log.filterMap Event.result?).Nodup ∧
    (m.log.filterMap Event.result?).Sublist m.history.accepted := by
  have hinv := h.ledger
  have hres : m.log.filterMap Event.result? <+: m.log.filterMap Event.started? := hinv.results
  have hst : m.log.filterMap Event.started? <+: m.history.taken := hinv.starts_prefix
  have hord : m.history.taken ++ m.manager.queue.pendingIds =
      m.history.accepted.filter (· ∉ m.history.withdrawn) := hinv.order
  have htaken : m.history.taken.Sublist m.history.accepted := by
    have hsub := (List.prefix_append m.history.taken m.manager.queue.pendingIds).sublist
    rw [hord] at hsub
    exact hsub.trans List.filter_sublist
  have hqueued : m.log.filterMap Event.queued? <+: m.history.accepted :=
    ⟨m.owner.phase.queued, hinv.queued⟩
  have hnodup : m.history.accepted.Nodup := hinv.nodup
  have hsts := hst.sublist.trans htaken
  have hress := hres.sublist.trans hsts
  refine ⟨hres, hst, hord, ?_, hqueued.sublist.nodup hnodup, hsts.nodup hnodup,
    hress.nodup hnodup, hress⟩
  intro pre e post id hlog
  refine (h.ordered (pre ++ [e]) ?_).last id
  rw [hlog]
  exact ⟨post, by simp⟩

theorem events_in_order_shutdown :
    (after shutdownActs).log.filterMap Event.result? = [1] ∧
    (after shutdownActs).log.filterMap Event.result? <+:
      (after shutdownActs).log.filterMap Event.started? := by
  have hr : Reachable TranscriptionQueue.defaultCapacity {} {} (after shutdownActs) :=
    after_reachable (by decide)
  exact ⟨by decide, (events_in_order hr).1⟩

/-! ## Shutting down loses nothing -/

/-- What the `shutdown()` calls so far returned or are about to return: the
ids that waited when `stopping_` was set, and then nothing. -/
def Dropped (m : Machine) : Prop :=
  ∃ k, m.returns.filterMap Return.dropped? ++ m.owner.dropped?.toList =
    (m.history.pendingAtStop.map (· :: List.replicate k [])).getD []

/-- A step that neither starts nor ends a `shutdown()`. -/
theorem Dropped.frame (h : Dropped m)
    (hr : m'.returns.filterMap Return.dropped? = m.returns.filterMap Return.dropped?)
    (ho : m'.owner.dropped? = m.owner.dropped?)
    (hp : m'.history.pendingAtStop = m.history.pendingAtStop) : Dropped m' := by
  unfold Dropped
  rw [hr, ho, hp]
  exact h

theorem Move.dropped (hhalt : Halting m) (h : Dropped m) (hm : Move m m') : Dropped m' := by
  cases hm with
  | stop ho =>
    obtain ⟨k, hk⟩ := h
    simp only [ho, Owner.dropped?, Option.toList_none, List.append_nil] at hk
    cases hp : m.history.pendingAtStop with
    | none =>
      refine ⟨0, ?_⟩
      rw [hp] at hk
      simp [Owner.dropped?, hk]
    | some ids =>
      -- `stopping_` was set before, so nothing waits now
      have hstop : m.manager.queue.stopping = true := by rw [← hhalt.noted, hp]; rfl
      refine ⟨k + 1, ?_⟩
      rw [hp] at hk
      simp [Owner.dropped?, hk, TranscriptionQueue.pendingIds, hhalt.emptied hstop,
        List.replicate_succ']
  | shutDown d ho =>
    obtain ⟨k, hk⟩ := h
    refine ⟨k, ?_⟩
    simpa [ho, Owner.dropped?, Return.dropped?] using hk
  | refuse e r ho he hr =>
    exact h.frame (by simp [Return.dropped?_of_silent hr]) (by simp [ho]) (by simp)
  | tickEnd l ho _ =>
    refine h.frame (by simp [Return.dropped?]) ?_ rfl
    rcases ho with ho | ho | ⟨_, _, ho⟩ <;> simp [ho, Owner.dropped?]
  | tickDecode l id ho =>
    refine h.frame rfl ?_ rfl
    rcases ho with ⟨_, ho, _⟩ | ⟨_, _, ho, _⟩ <;> simp [ho, Owner.dropped?]
  | exit | pop | enter | leave | finish | loop | audio => exact h.frame rfl rfl rfl
  | _ => exact h.frame (by simp [Return.dropped?]) (by simp [*, Owner.dropped?]) (by simp)

theorem Reachable.dropped (h : Reachable capacity c liveConfig m) : Dropped m :=
  Reachable.invariant h ⟨0, rfl⟩ fun _ _ hr hdrop hm => hm.dropped (Reachable.halting hr) hdrop

/-- What stays once `stopping_` is set. -/
structure Stays (m m' : Machine) : Prop where
  stopping : m'.manager.queue.stopping = true
  taken : m'.history.taken = m.history.taken
  atStop : m'.history.pendingAtStop = m.history.pendingAtStop
  aborted : m.history.abortRequested = true → m'.history.abortRequested = true

theorem Move.stays (hhalt : Halting m) (hs : m.manager.queue.stopping = true)
    (hm : Move m m') : Stays m m' := by
  cases hm with
  | stop ho =>
    have hsome : m.history.pendingAtStop.isSome = true := hhalt.noted.trans hs
    refine ⟨rfl, rfl, ?_, id⟩
    cases hp : m.history.pendingAtStop with
    | none => simp [hp] at hsome
    | some ids => rfl
  | pop job rest hw hstop hp => rw [hs] at hstop; cases hstop
  | enqueue id rec ho hstop hp => rw [hs] at hstop; cases hstop
  | finish job result hw => exact ⟨hs, rfl, rfl, id⟩
  | _ => exact ⟨by simpa using hs, by simp, by simp, by simp⟩

theorem Reachable.stays (h : Reachable capacity c liveConfig m)
    (hs : m.manager.queue.stopping = true) (hlater : Lib.Reachable step m m') : Stays m m' := by
  refine Lib.Reachable.invariant hlater ⟨hs, rfl, rfl, fun h => h⟩ ?_
  intro t a t' hr hst hstep
  have hrt : Reachable capacity c liveConfig t := Lib.Reachable.trans h hr
  have hone := (hrt.move hstep).stays hrt.halting hst.stopping
  exact ⟨hone.stopping, hone.taken.trans hst.taken, hone.atStop.trans hst.atStop,
    fun ha => hone.aborted (hst.aborted ha)⟩

/-- Only `shutdown()` sets `stopping_`, and it notes what waits. -/
theorem Move.stopping_set (hm : Move m m') (hs : m.manager.queue.stopping = false)
    (hs' : m'.manager.queue.stopping = true) (hnone : m.history.pendingAtStop = none) :
    m'.history.pendingAtStop = some m.manager.queue.pendingIds ∧
      m'.history.taken = m.history.taken := by
  cases hm with
  | stop ho => exact ⟨by simp [hnone], rfl⟩
  | finish job result hw =>
    simp only [TranscriptionQueue.finish] at hs'
    rw [hs] at hs'
    cases hs'
  | _ => simp [hs] at hs'

/-- A `shutdown()` after the first finds nothing to do: it goes through its
sections and leaves everything but its return value as it was. -/
theorem shutdown_again (h : Reachable capacity c liveConfig m) (ho : m.owner = .idle)
    (hs : m.manager.queue.stopping = true) (i₀ i₁ i₂ i₃ : Input) :
    Lib.run step m [.call .shutdown i₀, .own i₁, .own i₂, .own i₃] =
      some { m with returns := m.returns ++ [.shutdown []] } := by
  have hhalt := h.halting
  have hpending := hhalt.emptied hs
  have hjoined := (hhalt.joining hs).resolve_right (by simp [ho])
  have habort := (hhalt.aborting hs).resolve_right (by simp [ho])
  have hflag := (hhalt.flag habort).1
  obtain ⟨ids, hids⟩ := Option.isSome_iff_exists.mp (hhalt.noted.trans hs)
  obtain ⟨manager, live, backend, owner, worker, log, returns, history⟩ := m
  obtain ⟨recorder, state, active, next, language, prompt, completed, failed, queue⟩ := manager
  obtain ⟨cap, pending, started, done, busy, stopping, joinable⟩ := queue
  obtain ⟨flag, inside⟩ := backend
  obtain ⟨issued, accepted, taken, calls, results, withdrawn, atStop, requested⟩ := history
  dsimp only at ho hs hpending hjoined habort hflag hids
  subst ho hs hpending hjoined habort hflag hids
  simp [Lib.run, step, begin, SessionManager.shutdown, TranscriptionQueue.stop, apply, publish?,
    History.note, resume, SessionManager.reportDropped, TranscriptionQueue.pendingIds]

theorem eq_nil_or_cons_replicate {α : Type} {l : List (List α)} {o : Option (List α)}
    {x : List α} {k : Nat} (h : l ++ o.toList = x :: List.replicate k []) :
    l = [] ∨ ∃ k', l = x :: List.replicate k' [] := by
  cases l with
  | nil => exact .inl rfl
  | cons y rest =>
    simp only [List.cons_append, List.cons.injEq] at h
    obtain ⟨rfl, hrest⟩ := h
    have hrep := (List.append_eq_replicate_iff.mp hrest).2.1
    exact .inr ⟨rest.length, by rw [← hrep]⟩

/-- **An abort requested at shutdown is never lost.** Once `stopping_` is set
no job is popped; once `request_abort()` has run the flag stays up; the
returned ids are those that waited when `stopping_` was set, none of which
the backend ever sees, and a later `shutdown()` returns none and changes
nothing. -/
theorem abort_never_lost (h : Reachable capacity c liveConfig m) :
    (m.manager.queue.stopping = true →
      ∀ m', Lib.Reachable step m m' → m'.history.taken = m.history.taken) ∧
    (∀ dropped inp m₁ m', m.owner = .inside (.stopping dropped) →
      m.step (.own inp) = some m₁ → Lib.Reachable step m₁ m' →
        m'.backend.abortRequested = true) ∧
    (∀ a m₁ m', m.manager.queue.stopping = false → m.step a = some m₁ →
      m₁.manager.queue.stopping = true → Lib.Reachable step m₁ m' →
        (m'.returns.filterMap Return.dropped? = [] ∨
          ∃ k, m'.returns.filterMap Return.dropped? =
            m.manager.queue.pendingIds :: List.replicate k []) ∧
        ∀ id ∈ m.manager.queue.pendingIds, ∀ job ∈ m'.history.calls, job.sessionId ≠ id) ∧
    (m.owner = .idle → m.manager.queue.stopping = true →
      (∀ result, m.step (.worker result) = none) ∧
      ∀ i₀ i₁ i₂ i₃, Lib.run step m [.call .shutdown i₀, .own i₁, .own i₂, .own i₃] =
        some { m with returns := m.returns ++ [.shutdown []] }) := by
  refine ⟨fun hs m' hlater => (h.stays hs hlater).taken, ?_, ?_, ?_⟩
  · intro dropped inp m₁ m' ho hstep hlater
    have hr₁ : Reachable capacity c liveConfig m₁ := Lib.Reachable.snoc h hstep
    have hr' : Reachable capacity c liveConfig m' := Lib.Reachable.trans hr₁ hlater
    have hstop : m.manager.queue.stopping = true := h.halting.inside (by simp [ho, Owner.dropped?])
    have hreq : m₁.history.abortRequested = true ∧ m₁.manager.queue.stopping = true := by
      simp only [step, ho, resume, Option.some.injEq] at hstep
      exact hstep ▸ ⟨rfl, hstop⟩
    exact (hr'.halting.flag ((hr₁.stays hreq.2 hlater).aborted hreq.1)).1
  · intro a m₁ m' hs hstep hs₁ hlater
    have hr₁ : Reachable capacity c liveConfig m₁ := Lib.Reachable.snoc h hstep
    have hr' : Reachable capacity c liveConfig m' := Lib.Reachable.trans hr₁ hlater
    have hnone : m.history.pendingAtStop = none := by
      have hnoted := h.halting.noted
      rw [hs] at hnoted
      simpa using hnoted
    obtain ⟨hat₁, htaken₁⟩ := (h.move hstep).stopping_set hs hs₁ hnone
    have hstays := hr₁.stays hs₁ hlater
    refine ⟨?_, ?_⟩
    · obtain ⟨k, hk⟩ := hr'.dropped
      rw [hstays.atStop, hat₁] at hk
      exact eq_nil_or_cons_replicate hk
    · rintro id hid job hjob rfl
      have htaken : job.sessionId ∈ m.history.taken := by
        rw [← htaken₁, ← hstays.taken, ← hr'.answered.calls]
        exact List.mem_append_left _ (List.mem_map_of_mem hjob)
      exact (List.nodup_append.mp h.ledger.nodup_order).2.2 _ htaken _ hid rfl
  · intro ho hs
    have hhalt := h.halting
    have hexited : m.worker = .exited :=
      hhalt.joined ((hhalt.joining hs).resolve_right (by simp [ho]))
    exact ⟨fun result => by simp [step, workerStep, hexited], shutdown_again h ho hs⟩

/-- One session is being transcribed and a second one waits. -/
def waitingActs : List Act :=
  transcribingActs ++
    ([.call .startSession {}, .own {}, .call .stopSession {}, .own {}, .own {}] : List Act)

/-- What is left of a `shutdown()` in that state, up to its return. -/
def haltActs : List Act :=
  [.own {}, .worker (.error ⟨[]⟩), .worker (.error ⟨[]⟩), .worker (.error ⟨[]⟩),
    .worker (.error ⟨[]⟩), .own {}, .own {}, .own {}]

theorem abort_never_lost_waiting :
    (after (waitingActs ++ .call .shutdown {} :: haltActs)).returns.filterMap Return.dropped? =
      [[2]] ∧
    ∀ job ∈ (after (waitingActs ++ .call .shutdown {} :: haltActs)).history.calls,
      job.sessionId ≠ 2 := by
  have hr : Reachable TranscriptionQueue.defaultCapacity {} {} (after waitingActs) :=
    after_reachable (by decide)
  have hstop := (abort_never_lost hr).2.2.1 (.call .shutdown {})
    (after (waitingActs ++ [.call .shutdown {}]))
    (after (waitingActs ++ .call .shutdown {} :: haltActs)) (by decide) (by decide) (by decide)
    ⟨haltActs, by decide⟩
  exact ⟨by decide, hstop.2 2 (by decide)⟩

end Machine

end YoruSpeech

/-
YoruSpeech.Session.PositionTheorems — the announced queue position is
exact.

The position `try_enqueue` returns is the length of `pending_` plus one
while the worker is busy. In terms of the history it is the number of
earlier accepted jobs that have not left (`outstanding_length`): not handed
over by the worker, not cancelled, not dropped. Its meaning for the future
is that of a waiting line: when the job starts, whoever was ahead of it has
left, and nobody was dropped, because `shutdown()` lets no job start.

* `Announced` follows a position from its acceptance to `stop_session`'s
  return, through any steps of the other threads.
* `Cancels`: until `shutdown()`, every withdrawn job was one of
  `cancel_job`.
-/
import YoruSpeech.Session.OutcomeTheorems

namespace YoruSpeech

open Lib (Handoff Phase)

namespace Machine

variable {m m' : Machine} {capacity : Nat} {c : Configuration}
  {liveConfig : LiveTranscriberConfig} {id : SessionId} {position : Nat}

/-! ## Jobs that have not left -/

/-- The jobs the worker has handed over: their results are in `completed_`,
with the owner or published. -/
def finishedIds (m : Machine) : List SessionId := (ledgerOf m).done

/-- The accepted jobs that are neither finished nor cancelled nor dropped. -/
def outstandingIds (m : Machine) : List SessionId :=
  m.history.accepted.filter fun i => decide (i ∉ m.finishedIds ∧ i ∉ m.history.withdrawn)

theorem outstandingIds_eq (h : Reachable capacity c liveConfig m) :
    m.outstandingIds = m.worker.running ++ m.manager.queue.pendingIds :=
  h.ledger.outstanding

/-- **The count under the lock is the number of jobs that have not left.** -/
theorem outstanding_length (h : Reachable capacity c liveConfig m) :
    m.outstandingIds.length = m.manager.queue.outstandingCount := by
  have hbusy := h.exclusive.busy
  rw [outstandingIds_eq h, List.length_append, TranscriptionQueue.outstandingCount,
    TranscriptionQueue.pendingIds, List.length_map, Nat.add_comm, hbusy, Worker.running]
  cases m.worker.job? <;> rfl

/-! ## From acceptance to announcement -/

/-- The position was given to the job, whether or not `stop_session` has
returned. -/
def Announced (m : Machine) (id : SessionId) (position : Nat) : Prop :=
  m.owner = .inside (.enqueued id position) ∨
    .stopSession (.queuedJob id position) ∈ m.returns ∨
    .transcriptionQueued id position ∈ m.log

/-- The step accepts the job at this position. -/
structure Accepts (m m' : Machine) (id : SessionId) (position : Nat) : Prop where
  accepted : m'.history.accepted = m.history.accepted ++ [id]
  owner : m'.owner = .inside (.enqueued id position)
  position : position = m.manager.queue.outstandingCount
  room : m.manager.queue.pending.length < m.manager.queue.capacity

/-- A step that neither returns nor publishes a position. -/
theorem Announced.of_frame (h : m'.Announced id position)
    (ho : m'.owner = .inside (.enqueued id position) → m.owner = .inside (.enqueued id position))
    (hr : .stopSession (.queuedJob id position) ∈ m'.returns →
      .stopSession (.queuedJob id position) ∈ m.returns)
    (hl : .transcriptionQueued id position ∈ m'.log → .transcriptionQueued id position ∈ m.log) :
    m.Announced id position :=
  h.imp ho (Or.imp hr hl)

/-- An event that plays no role in the life of a job announces nothing. -/
theorem not_queued_of_aside {e : Option Event} (he : ∀ x ∈ e, x.aside = true)
    (h : .transcriptionQueued id position ∈ (m.publish? e).log) :
    .transcriptionQueued id position ∈ m.log := by
  rw [publish?_log, List.mem_append, Option.mem_toList] at h
  rcases h with h | h
  · exact h
  · have haside := he _ h
    cases haside

theorem Move.announced_cases (hm : Move m m') (h : m'.Announced id position) :
    m.Announced id position ∨ Accepts m m' id position := by
  cases hm with
  | enqueue id' rec ho hs hp =>
    rcases h with h | h | h
    · cases h
      exact .inr ⟨rfl, rfl, rfl, hp⟩
    · exact .inl (.inr (.inl h))
    · exact .inl (.inr (.inr h))
  | announceQueued id' position' ho =>
    left
    rcases h with h | h | h
    · simp at h
    · simp only [publish?_returns, List.mem_append, List.mem_singleton, Return.stopSession.injEq,
        StopSessionResult.queuedJob.injEq] at h
      rcases h with h | ⟨rfl, rfl⟩
      · exact .inr (.inl h)
      · exact .inl ho
    · simp only [publish?_log, List.mem_append, Option.toList_some, List.mem_singleton,
        Event.transcriptionQueued.injEq] at h
      rcases h with h | ⟨rfl, rfl⟩
      · exact .inr (.inr h)
      · exact .inl ho
  | refuse e r ho he hr =>
    refine .inl (h.of_frame (by simp) ?_ (not_queued_of_aside he))
    intro hmem
    simp only [publish?_returns, List.mem_append, List.mem_singleton] at hmem
    rcases hmem with hmem | rfl
    · exact hmem
    · cases hr
  | discard r e ho hs hr he | tickDecoded l id' window e ho he =>
    exact .inl (h.of_frame (by simp) (by simp) (not_queued_of_aside he))
  | exit | pop | enter | leave | finish | loop | audio => exact .inl h
  | _ => exact .inl (h.of_frame (by simp) (by simp) (by simp))

/-- **An announced position was given at an acceptance.** -/
theorem exists_accepts {acts : List Act}
    (hrun : Lib.run step (init capacity c liveConfig) acts = some m)
    (h : m.Announced id position) :
    ∃ before a after m₁ m₂, acts = before ++ a :: after ∧
      Lib.run step (init capacity c liveConfig) before = some m₁ ∧ m₁.step a = some m₂ ∧
      Accepts m₁ m₂ id position := by
  revert h
  refine Lib.run_history (P := fun acts t => Announced t id position →
    ∃ before a after m₁ m₂, acts = before ++ a :: after ∧
      Lib.run step (init capacity c liveConfig) before = some m₁ ∧ m₁.step a = some m₂ ∧
      Accepts m₁ m₂ id position) ?_ ?_ hrun
  · intro h
    simp [Announced, init] at h
  · intro acts t b t' ht ih hs h
    rcases (Reachable.move ⟨acts, ht⟩ hs).announced_cases h with hold | hnew
    · obtain ⟨before, a, after, m₁, m₂, rfl, hbefore, hstep, haccepts⟩ := ih hold
      exact ⟨before, a, after ++ [b], m₁, m₂, by simp, hbefore, hstep, haccepts⟩
    · exact ⟨acts, b, [], t, t', rfl, ht, hs, hnew⟩

/-! ## From acceptance to start -/

/-- Accepted jobs are remembered in order. -/
theorem Move.accepted_isPrefix_after (hm : Move m m') : m.history.accepted <+: m'.history.accepted := by
  cases hm with
  | enqueue => exact List.prefix_append _ _
  | _ => simp

theorem accepted_isPrefix_of_run {acts : List Act} (h : Reachable capacity c liveConfig m)
    (hrun : Lib.run step m acts = some m') : m.history.accepted <+: m'.history.accepted := by
  refine Lib.run_history (P := fun _ t => m.history.accepted <+: t.history.accepted)
    List.prefix_rfl ?_ hrun
  intro acts t a t' ht hgrown hs
  exact hgrown.trans (Reachable.move (h.trans ⟨acts, ht⟩) hs).accepted_isPrefix_after

/-- A job is started from the front of the line, by an idle worker, before
any `shutdown()`. -/
structure Starts (m : Machine) (id : SessionId) : Prop where
  running : m.worker.running = []
  serving : m.manager.queue.stopping = false
  front : ∃ rest, m.manager.queue.pendingIds = id :: rest

theorem Move.starts (hm : Move m m') (h : m'.history.taken = m.history.taken ++ [id]) :
    Starts m id := by
  cases hm with
  | pop job rest hw hs hp =>
    have hid : job.sessionId = id := by simpa using h
    refine ⟨by simp [hw, Worker.running, Worker.job?], hs, rest.map (·.sessionId), ?_⟩
    simp [TranscriptionQueue.pendingIds, hp, hid]
  | _ => simp at h

/-- `cancel_job` took the job out of the queue. -/
def Cancelled (m : Machine) (id : SessionId) : Prop :=
  m.owner = .inside (.cancelled id) ∨ .cancelJob id true ∈ m.returns

/-- Before a `shutdown()`, whoever was withdrawn was cancelled. -/
def Cancels (m : Machine) : Prop :=
  m.manager.queue.stopping = false → ∀ i ∈ m.history.withdrawn, m.Cancelled i

/-- A step that withdraws nothing, and is not the end of a `cancel_job`. -/
theorem Cancels.frame (h : Cancels m)
    (hs : m'.manager.queue.stopping = false → m.manager.queue.stopping = false)
    (hw : m'.history.withdrawn = m.history.withdrawn)
    (ho : ∀ i, m.owner = .inside (.cancelled i) → m'.owner = .inside (.cancelled i))
    (hr : ∀ r ∈ m.returns, r ∈ m'.returns) : Cancels m' := by
  intro hopen i hi
  rw [hw] at hi
  exact (h (hs hopen) i hi).imp (ho i) (hr _)

theorem Move.cancels (h : Cancels m) (hm : Move m m') : Cancels m' := by
  cases hm with
  | cancel id ho hmem =>
    intro hopen i hi
    rcases List.mem_append.mp hi with hi | hi
    · rcases h hopen i hi with hinside | hreturned
      · rw [ho] at hinside
        cases hinside
      · exact .inr hreturned
    · rw [List.mem_singleton.mp hi]
      exact .inl rfl
  | announceCancelled id ho =>
    intro hopen i hi
    rw [publish?_queue] at hopen
    rw [publish?_history] at hi
    right
    rw [publish?_returns]
    rcases h hopen i hi with hinside | hreturned
    · rw [ho] at hinside
      cases hinside
      simp
    · exact List.mem_append_left _ hreturned
  | stop ho =>
    intro hopen
    cases hopen
  | exit | pop | enter | leave | finish | loop | audio => exact h
  | tickEnd l ho _ =>
    refine h.frame (fun hs => hs) rfl ?_ (fun r hr => List.mem_append_left _ hr)
    intro i hi
    rcases ho with ho | ho | ⟨_, _, ho⟩ <;> simp [hi] at ho
  | tickDecode l id ho =>
    refine h.frame (fun hs => hs) rfl ?_ (fun r hr => hr)
    intro i hi
    rcases ho with ⟨_, ho, _⟩ | ⟨_, _, ho, _⟩ <;> simp [hi] at ho
  | _ =>
    -- the owner is at another point of its program
    exact h.frame (by simp) (by simp) (by simp [*]) (by simp +contextual)

theorem Reachable.cancels (h : Reachable capacity c liveConfig m) : Cancels m := by
  refine Reachable.invariant h ?_ fun t t' _ hcancels hm => hm.cancels hcancels
  intro _ i hi
  simp [init] at hi

/-- Whoever was accepted before the job that starts has left, by finishing
or by `cancel_job`. -/
theorem gone_of_starts (h : Reachable capacity c liveConfig m) (hstarts : Starts m id)
    {before : List SessionId} (hgrown : before ++ [id] <+: m.history.accepted) :
    ∀ i ∈ before, i ∉ m.outstandingIds ∧ (i ∈ m.finishedIds ∨ m.Cancelled i) := by
  obtain ⟨later, haccepted⟩ := hgrown
  obtain ⟨rest, hfront⟩ := hstarts.front
  rw [List.append_assoc, List.singleton_append] at haccepted
  have hleft := h.ledger.front haccepted.symm hstarts.running hfront
  intro i hi
  constructor
  · intro hout
    have hstill := (List.mem_filter.mp hout).2
    simp only [decide_eq_true_eq] at hstill
    exact (hleft i hi).elim hstill.1 hstill.2
  · exact (hleft i hi).imp (fun hdone => hdone) (h.cancels hstarts.serving i)

/-- **The announced position is exact.** When `stop_session` returns or
publishes a position, it gave it at an acceptance earlier in the run, it is
the number of jobs accepted before that had not left, and it is at most the
capacity. However the run goes on from there, if the job is ever started,
exactly so many of the jobs accepted before it have left in between, each by
finishing or by `cancel_job`. -/
theorem queue_position_exact {acts : List Act}
    (hrun : Lib.run step (init capacity c liveConfig) acts = some m)
    (h : .stopSession (.queuedJob id position) ∈ m.returns ∨
      .transcriptionQueued id position ∈ m.log) :
    position ≤ capacity ∧
    ∃ before a after m₁ m₂, acts = before ++ a :: after ∧
      Lib.run step (init capacity c liveConfig) before = some m₁ ∧ m₁.step a = some m₂ ∧
      m₂.history.accepted = m₁.history.accepted ++ [id] ∧
      m₁.outstandingIds.length = position ∧
      ∀ acts' m₃ b m₄, Lib.run step m₂ acts' = some m₃ → m₃.step b = some m₄ →
        m₄.history.taken = m₃.history.taken ++ [id] →
        (m₁.outstandingIds.filter (· ∉ m₃.outstandingIds)).length = position ∧
        ∀ i ∈ m₁.outstandingIds, i ∈ m₃.finishedIds ∨ m₃.Cancelled i := by
  obtain ⟨before, a, after, m₁, m₂, hacts, hbefore, hstep, haccepts⟩ :=
    exists_accepts hrun (.inr h)
  have hreach : Reachable capacity c liveConfig m₁ := ⟨before, hbefore⟩
  have hreach' : Reachable capacity c liveConfig m₂ := Lib.Reachable.snoc hreach hstep
  have hlength : m₁.outstandingIds.length = position := by
    rw [outstanding_length hreach, haccepts.position]
  refine ⟨?_, before, a, after, m₁, m₂, hacts, hbefore, hstep, haccepts.accepted, hlength, ?_⟩
  · have hroom := haccepts.room
    rw [hreach.room.fixed] at hroom
    rw [haccepts.position, TranscriptionQueue.outstandingCount]
    split <;> omega
  · intro acts' m₃ b m₄ hlater hs htaken
    have hreach₃ : Reachable capacity c liveConfig m₃ := Lib.Reachable.trans hreach' ⟨acts', hlater⟩
    have hstarts : Starts m₃ id := (Reachable.move hreach₃ hs).starts htaken
    have hgrown : m₁.history.accepted ++ [id] <+: m₃.history.accepted := by
      rw [← haccepts.accepted]
      exact accepted_isPrefix_of_run hreach' hlater
    have hgone : ∀ i ∈ m₁.outstandingIds,
        i ∉ m₃.outstandingIds ∧ (i ∈ m₃.finishedIds ∨ m₃.Cancelled i) :=
      fun i hi => gone_of_starts hreach₃ hstarts hgrown i (List.mem_of_mem_filter hi)
    refine ⟨?_, fun i hi => (hgone i hi).2⟩
    have hall : m₁.outstandingIds.filter (· ∉ m₃.outstandingIds) = m₁.outstandingIds := by
      rw [List.filter_eq_self]
      intro i hi
      simp only [decide_eq_true_eq]
      exact (hgone i hi).1
    rw [hall, hlength]

/-- The second session of `waitingActs` is told that one job is ahead of it:
one had not left when it was accepted. -/
theorem queue_position_exact_waiting :
    .stopSession (.queuedJob 2 1) ∈ (after waitingActs).returns ∧
    1 ≤ TranscriptionQueue.defaultCapacity ∧
    ∃ m₁, Reachable TranscriptionQueue.defaultCapacity {} {} m₁ ∧ m₁.outstandingIds.length = 1 := by
  have hsome : (Lib.run step (init TranscriptionQueue.defaultCapacity {} {}) waitingActs).isSome =
      true := by
    decide
  obtain ⟨m, hm⟩ := Option.isSome_iff_exists.mp hsome
  have hafter : after waitingActs = m := by rw [after, hm]; rfl
  have hreturned : .stopSession (.queuedJob 2 1) ∈ (after waitingActs).returns := by decide
  obtain ⟨hcapacity, before, a, rest, m₁, m₂, -, hbefore, -, -, hlength, -⟩ :=
    queue_position_exact hm (.inl (hafter ▸ hreturned))
  exact ⟨hreturned, hcapacity, m₁, ⟨before, hbefore⟩, hlength⟩

end Machine

end YoruSpeech

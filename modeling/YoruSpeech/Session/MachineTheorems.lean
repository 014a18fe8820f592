/-
YoruSpeech.Session.MachineTheorems — invariants of the daemon over every
interleaving of its threads.

Each invariant is a structure with its own preservation lemma, proved by
cases on `Machine.Move`:

* `Exclusive` — `busy_` follows the worker's program point, and while the
  owner is in the part of `tick()` that relies on an idle worker there is
  nothing for the worker to take; so the backend has at most one open call;
* `Halting` — how far a shutdown has got: nothing waits, nothing is popped,
  the abort flag is up, the worker is joined;
* `Room` — the place in the queue a recording was started for is still
  there;
* `Fresh` — session ids are drawn in increasing order, and the session
  being recorded has not been queued or given up.
-/
import YoruSpeech.Session.MachineMoves

namespace YoruSpeech

/-! ## Program points -/

/-- The job the worker holds. -/
def Worker.job? : Worker → Option TranscriptionJob
  | .popped job => some job
  | .transcribing job => some job
  | .decoded job _ => some job
  | _ => none

/-- The backend calls the worker has open. -/
def Worker.calls : Worker → List BackendCall
  | .transcribing job => [.transcribe job.sessionId]
  | _ => []

/-- The owner is past the check of `tick()` that the worker is idle. -/
def Owner.inTick : Owner → Bool
  | .ticking => true
  | .recutting _ _ => true
  | .decoding _ _ => true
  | _ => false

/-- The backend calls the owner has open. -/
def Owner.calls : Owner → List BackendCall
  | .decoding _ _ => [.transcribePartial]
  | _ => []

/-- The ids taken out of the queue whose event the owner has yet to
publish. -/
def Owner.todo : Owner → List SessionId
  | .inside (.cancelled id) => [id]
  | .inside (.stopping dropped) => dropped
  | .inside (.aborted dropped) => dropped
  | .inside (.dropping todo _) => todo
  | _ => []

/-- The ids a `shutdown()` in progress took out of the queue. -/
def Owner.dropped? : Owner → Option (List SessionId)
  | .inside (.stopping dropped) => some dropped
  | .inside (.aborted dropped) => some dropped
  | .inside (.dropping _ dropped) => some dropped
  | _ => none

namespace Machine

variable {m m' : Machine} {capacity : Nat} {c : Configuration}
  {liveConfig : LiveTranscriberConfig}

/-! ## One call of the backend at a time -/

structure Exclusive (m : Machine) : Prop where
  busy : m.manager.queue.busy = m.worker.job?.isSome
  tick : m.owner.inTick = true → m.manager.queue.pending = [] ∧ m.manager.queue.busy = false
  inside : m.backend.inside = m.owner.calls ++ m.worker.calls

/-- While the worker holds a job, the owner has no call open. -/
theorem Exclusive.owner_calls (h : Exclusive m) (hjob : m.worker.job?.isSome = true) :
    m.owner.calls = [] := by
  cases ho : m.owner with
  | decoding id window =>
    have hfree := (h.tick (by simp [ho, Owner.inTick])).2
    rw [h.busy, hjob] at hfree
    cases hfree
  | _ => rfl

theorem Move.exclusive (h : Exclusive m) (hm : Move m m') : Exclusive m' := by
  have howner := h.owner_calls
  obtain ⟨hbusy, htick, hinside⟩ := h
  cases hm with
  | pop job rest hw hstop hp =>
    have hfree : m.owner.inTick = false := by
      cases ht : m.owner.inTick with
      | false => rfl
      | true => simp [hp] at htick; exact absurd ht (by simp [htick])
    exact ⟨rfl, by simp [hfree], by simpa [hw, Worker.calls] using hinside⟩
  | tickFree ho _ hp hb =>
    exact ⟨hbusy, fun _ => ⟨hp, hb⟩, by simpa [ho, Owner.calls] using hinside⟩
  | tickCut l id now ho _ =>
    exact ⟨hbusy, fun _ => htick (by simp [ho, Owner.inTick]),
      by simpa [ho, Owner.calls] using hinside⟩
  | tickDecode l id ho =>
    have hbefore : m.owner.inTick = true ∧ m.owner.calls = [] := by
      rcases ho with ⟨_, ho, _⟩ | ⟨_, _, ho, _⟩ <;> simp [ho, Owner.inTick, Owner.calls]
    refine ⟨hbusy, fun _ => htick hbefore.1, ?_⟩
    rw [hinside, hbefore.2]
    rfl
  | tickDecoded l id window e ho he =>
    refine ⟨by simpa using hbusy, by simp [Owner.inTick], ?_⟩
    simp [hinside, ho, Owner.calls]
  | tickEnd l ho _ =>
    refine ⟨hbusy, by simp [Owner.inTick], ?_⟩
    rcases ho with ho | ho | ⟨_, _, ho⟩ <;> simpa [ho, Owner.calls] using hinside
  | enter job hw =>
    have hnone := howner (by simp [hw, Worker.job?])
    refine ⟨by simpa [hw, Worker.job?] using hbusy, htick, ?_⟩
    simp [hinside, hnone, hw, Worker.calls]
  | leave job result hw =>
    have hnone := howner (by simp [hw, Worker.job?])
    refine ⟨by simpa [hw, Worker.job?] using hbusy, htick, ?_⟩
    simp [hinside, hnone, hw, Worker.calls]
  | finish job result hw =>
    refine ⟨rfl, fun ht => ⟨(htick ht).1, rfl⟩, ?_⟩
    simpa [hw, Worker.calls] using hinside
  | exit hw _ | loop hw =>
    exact ⟨by simpa [hw, Worker.job?] using hbusy, htick, by simpa [hw, Worker.calls] using hinside⟩
  | audio r _ hr _ => exact ⟨hbusy, htick, hinside⟩
  | _ =>
    -- the owner moves outside `tick()` and the worker stays
    exact ⟨by simpa using hbusy, by simp [Owner.inTick], by simp [*, Owner.calls]⟩

theorem Reachable.exclusive (h : Reachable capacity c liveConfig m) : Exclusive m := by
  refine Reachable.invariant h ⟨rfl, by simp [init, Owner.inTick], rfl⟩ ?_
  intro t t' _ hex hm
  exact hm.exclusive hex

/-- The backend never has two calls open. -/
theorem Exclusive.inside_le_one (h : Exclusive m) : m.backend.inside.length ≤ 1 := by
  rw [h.inside]
  cases hw : m.worker with
  | transcribing job =>
    rw [h.owner_calls (by simp [hw, Worker.job?])]
    simp [Worker.calls]
  | _ => cases m.owner <;> simp [Worker.calls, Owner.calls]

/-! ## Shutting down -/

structure Halting (m : Machine) : Prop where
  exited : m.worker = .exited → m.manager.queue.stopping = true
  joined : m.manager.queue.joinable = false → m.worker = .exited
  emptied : m.manager.queue.stopping = true → m.manager.queue.pending = []
  aborting : m.manager.queue.stopping = true →
    m.history.abortRequested = true ∨ ∃ dropped, m.owner = .inside (.stopping dropped)
  joining : m.manager.queue.stopping = true →
    m.manager.queue.joinable = false ∨ (∃ dropped, m.owner = .inside (.stopping dropped)) ∨
      ∃ dropped, m.owner = .inside (.aborted dropped)
  flag : m.history.abortRequested = true →
    m.backend.abortRequested = true ∧ m.manager.queue.stopping = true
  noted : m.history.pendingAtStop.isSome = m.manager.queue.stopping
  inside : m.owner.dropped?.isSome = true → m.manager.queue.stopping = true

/-- A step between two points outside `shutdown()` that leaves alone what
the invariant reads. -/
theorem Halting.frame (h : Halting m) (ho : m.owner.dropped? = none)
    (ho' : m'.owner.dropped? = none) (hw : m'.worker = .exited ↔ m.worker = .exited)
    (hs : m'.manager.queue.stopping = m.manager.queue.stopping)
    (hj : m'.manager.queue.joinable = m.manager.queue.joinable)
    (hp : m'.manager.queue.pending = m.manager.queue.pending)
    (ha : m'.history.abortRequested = m.history.abortRequested)
    (hn : m'.history.pendingAtStop = m.history.pendingAtStop)
    (hb : m'.backend.abortRequested = m.backend.abortRequested) : Halting m' := by
  refine ⟨?_, ?_, ?_, ?_, ?_, ?_, ?_, by simp [ho']⟩
  · rw [hw, hs]; exact h.exited
  · rw [hj, hw]; exact h.joined
  · rw [hs, hp]; exact h.emptied
  · intro hstop
    rw [hs] at hstop
    refine .inl (ha.trans ((h.aborting hstop).resolve_right ?_))
    rintro ⟨d, hd⟩
    simp [hd, Owner.dropped?] at ho
  · intro hstop
    rw [hs] at hstop
    refine .inl (hj.trans ((h.joining hstop).resolve_right ?_))
    rintro (⟨d, hd⟩ | ⟨d, hd⟩) <;> simp [hd, Owner.dropped?] at ho
  · rw [ha, hb, hs]; exact h.flag
  · rw [hn, hs]; exact h.noted

theorem Move.halting (h : Halting m) (hm : Move m m') : Halting m' := by
  obtain ⟨hexit, hjoined, hempty, habort, hjoin, hflag, hnoted, hinside⟩ := id h
  cases hm with
  | stop ho =>
    refine ⟨fun _ => rfl, hjoined, fun _ => rfl, fun _ => .inr ⟨_, rfl⟩,
      fun _ => .inr (.inl ⟨_, rfl⟩), fun hreq => ⟨(hflag hreq).1, rfl⟩, ?_, fun _ => rfl⟩
    cases m.history.pendingAtStop <;> rfl
  | abort d ho =>
    have hstop := hinside (by simp [ho, Owner.dropped?])
    exact ⟨hexit, hjoined, hempty, fun _ => .inl rfl, fun _ => .inr (.inr ⟨d, rfl⟩),
      fun _ => ⟨rfl, hstop⟩, hnoted, fun _ => hstop⟩
  | join d ho hw =>
    have hstop := hinside (by simp [ho, Owner.dropped?])
    refine ⟨hexit, fun _ => ?_, hempty, ?_, fun _ => .inl rfl, hflag, hnoted, fun _ => hstop⟩
    · cases hj : m.manager.queue.joinable with
      | true => exact hw hj
      | false => exact hjoined hj
    · intro hs
      exact .inl ((habort hs).resolve_right (by simp [ho]))
  | reportDropped id todo d message ho =>
    have hstop := hinside (by simp [ho, Owner.dropped?])
    refine ⟨by simpa using hexit, by simpa using hjoined, by simpa using hempty, fun _ => .inl ?_,
      fun _ => .inl ?_, by simpa using hflag, by simpa using hnoted, by simp [hstop]⟩
    · simpa using (habort hstop).resolve_right (by simp [ho])
    · simpa using (hjoin hstop).resolve_right (by simp [ho])
  | shutDown d ho =>
    have hstop := hinside (by simp [ho, Owner.dropped?])
    exact ⟨hexit, hjoined, hempty, fun _ => .inl ((habort hstop).resolve_right (by simp [ho])),
      fun _ => .inl ((hjoin hstop).resolve_right (by simp [ho])), hflag, hnoted,
      by simp [Owner.dropped?]⟩
  | exit hw hs =>
    exact ⟨fun _ => hs, fun _ => rfl, hempty, habort, hjoin, hflag, hnoted, hinside⟩
  | pop job rest hw hs hp =>
    -- popping needs `stopping_` down, so the flag it clears was not asked for
    refine ⟨by simp, fun hj => ?_, by simp [hs], by simp [hs], by simp [hs], ?_, hnoted, hinside⟩
    · rw [hjoined hj] at hw; cases hw
    · intro hreq
      rw [(hflag hreq).2] at hs
      cases hs
  | enter job hw | leave job _ hw | finish job _ hw | loop hw =>
    have hjoinable : m.manager.queue.joinable ≠ false := fun hj => by
      rw [hjoined hj] at hw; cases hw
    exact ⟨by simp, fun hj => absurd hj hjoinable, hempty, habort, hjoin, hflag, hnoted, hinside⟩
  | audio r _ hr _ => exact ⟨hexit, hjoined, hempty, habort, hjoin, hflag, hnoted, hinside⟩
  | enqueue id rec ho hs hp =>
    exact ⟨hexit, hjoined, by simp [hs], by simp [hs], by simp [hs], hflag, hnoted,
      by simp [Owner.dropped?]⟩
  | cancel id ho hmem =>
    refine ⟨hexit, hjoined, fun hs => by simp [hempty hs], ?_, ?_, hflag, hnoted,
      by simp [Owner.dropped?]⟩
    · intro hs; exact .inl ((habort hs).resolve_right (by simp [ho]))
    · intro hs; exact .inl ((hjoin hs).resolve_right (by simp [ho]))
  | tickEnd l ho _ =>
    refine h.frame ?_ rfl Iff.rfl rfl rfl rfl rfl rfl rfl
    rcases ho with ho | ho | ⟨_, _, ho⟩ <;> rw [ho] <;> rfl
  | tickDecode l id ho =>
    refine h.frame ?_ rfl Iff.rfl rfl rfl rfl rfl rfl rfl
    rcases ho with ⟨_, ho, _⟩ | ⟨_, _, ho, _⟩ <;> rw [ho] <;> rfl
  | _ =>
    exact h.frame (by simp [*, Owner.dropped?]) (by simp [Owner.dropped?]) (by simp) (by simp)
      (by simp) (by simp) (by simp) (by simp) (by simp)

theorem Reachable.halting (h : Reachable capacity c liveConfig m) : Halting m := by
  refine Reachable.invariant h ?_ fun t t' _ hhalt hm => hm.halting hhalt
  constructor <;> simp [init, Owner.dropped?]

/-! ## Room in the queue -/

structure Room (capacity : Nat) (m : Machine) : Prop where
  fixed : m.manager.queue.capacity = capacity
  bounded : m.manager.queue.pending.length ≤ capacity
  reserved : m.manager.state = .recording ∨ m.owner = .inside .starting →
    m.manager.queue.stopping = false → m.manager.queue.pending.length < capacity

/-- A step that leaves the queue alone and starts no recording. -/
theorem Room.frame (h : Room capacity m)
    (hq : m'.manager.queue.capacity = m.manager.queue.capacity)
    (hp : m'.manager.queue.pending = m.manager.queue.pending)
    (hs : m'.manager.queue.stopping = m.manager.queue.stopping)
    (hrec : m'.manager.state = .recording ∨ m'.owner = .inside .starting →
      m.manager.state = .recording ∨ m.owner = .inside .starting) : Room capacity m' :=
  ⟨hq.trans h.fixed, hp ▸ h.bounded, fun hr hstop =>
    hp ▸ h.reserved (hrec hr) (hs ▸ hstop)⟩

theorem Move.room (h : Room capacity m) (hm : Move m m') : Room capacity m' := by
  cases hm with
  | reserve ho hs hroom =>
    have hlt : m.manager.queue.stopping = false ∧ m.manager.queue.pending.length < capacity := by
      simpa [TranscriptionQueue.hasCapacity, h.fixed] using hroom
    exact ⟨h.fixed, h.bounded, fun _ _ => hlt.2⟩
  | enqueue id rec ho hs hp =>
    have hlt : m.manager.queue.pending.length < capacity := h.fixed ▸ hp
    refine ⟨h.fixed, ?_, by simp⟩
    simp only [List.length_append, List.length_singleton]
    exact hlt
  | cancel id ho hmem =>
    have hshort : (m.manager.queue.pending.eraseP (·.sessionId == id)).length ≤
        m.manager.queue.pending.length := List.length_eraseP_le
    refine ⟨h.fixed, Nat.le_trans hshort h.bounded, fun hrec hstop => ?_⟩
    have hlt := h.reserved (.inl (hrec.resolve_right (by simp))) hstop
    exact Nat.lt_of_le_of_lt hshort hlt
  | pop job rest hw hs hp =>
    have hle := h.bounded
    have hres := h.reserved
    rw [hp, List.length_cons] at hle hres
    refine ⟨h.fixed, Nat.le_of_succ_le hle, fun hrec hstop => ?_⟩
    exact Nat.lt_of_succ_lt (hres hrec hstop)
  | stop ho =>
    exact ⟨h.fixed, Nat.zero_le _, by simp⟩
  | started r s ho hr hid hs =>
    exact h.frame (by simp) (by simp) (by simp) fun _ => .inr ho
  | finish | exit | enter | leave | loop | audio => exact h.frame rfl rfl rfl id
  | stopLost | discarded | enqueueRefused =>
    exact h.frame (by simp) (by simp) (by simp) (by simp)
  | _ => exact h.frame (by simp) (by simp) (by simp) fun hr => .inl (by simpa using hr)

theorem Reachable.room (h : Reachable capacity c liveConfig m) : Room capacity m :=
  Reachable.invariant h ⟨rfl, Nat.zero_le _, by simp [init]⟩ fun _ _ _ hroom hm => hm.room hroom

/-! ## Session ids -/

structure Fresh (m : Machine) : Prop where
  issued : m.history.issued.Pairwise (· < ·)
  drawn : ∀ id ∈ m.history.issued, id < m.manager.nextSessionId
  accepted : ∀ id ∈ m.history.accepted, id < m.manager.nextSessionId
  waiting : ∀ id ∈ m.manager.queue.pendingIds, id ∈ m.history.accepted
  held : ∀ id ∈ m.owner.todo, id ∈ m.history.accepted
  closed : ∀ id ∈ m.log.filterMap Event.closed?, id < m.manager.nextSessionId
  lost : ∀ id ∈ m.log.filterMap Event.lost?, id ∉ m.history.accepted
  active : ∀ s, m.manager.activeSession = some s →
    s.id < m.manager.nextSessionId ∧ s.id ∉ m.history.accepted
  recording : ∀ s, m.manager.activeSession = some s → m.manager.state = .recording →
    s.id ∉ m.log.filterMap Event.closed?

/-- A step that publishes nothing about a session and leaves alone what the
invariant reads. -/
theorem Fresh.frame (h : Fresh m)
    (hi : m'.history.issued = m.history.issued) (ha : m'.history.accepted = m.history.accepted)
    (hn : m'.manager.nextSessionId = m.manager.nextSessionId)
    (hp : ∀ id ∈ m'.manager.queue.pendingIds, id ∈ m.manager.queue.pendingIds)
    (ho : ∀ id ∈ m'.owner.todo, id ∈ m.history.accepted)
    (hc : m'.log.filterMap Event.closed? = m.log.filterMap Event.closed?)
    (hl : m'.log.filterMap Event.lost? = m.log.filterMap Event.lost?)
    (hs : ∀ s, m'.manager.activeSession = some s →
      m.manager.activeSession = some s ∧ m'.manager.state = m.manager.state) : Fresh m' where
  issued := hi ▸ h.issued
  drawn := by rw [hi, hn]; exact h.drawn
  accepted := by rw [ha, hn]; exact h.accepted
  waiting id hid := ha ▸ h.waiting id (hp id hid)
  held id hid := ha ▸ ho id hid
  closed := by rw [hc, hn]; exact h.closed
  lost := by rw [hl, ha]; exact h.lost
  active s hact := by rw [ha, hn]; exact h.active s (hs s hact).1
  recording s hact hrec := by
    obtain ⟨hact', hst⟩ := hs s hact
    rw [hc]
    exact h.recording s hact' (hst ▸ hrec)

/-- A step that publishes the end of session `id`. -/
theorem Fresh.close (h : Fresh m) (e : Event) (id : SessionId) (hlog : m'.log = m.log ++ [e])
    (hc : e.closed? = some id) (hid : id < m.manager.nextSessionId)
    (hl : e.lost? = none ∨ e.lost? = some id ∧ id ∉ m.history.accepted)
    (hi : m'.history.issued = m.history.issued) (ha : m'.history.accepted = m.history.accepted)
    (hn : m'.manager.nextSessionId = m.manager.nextSessionId)
    (hp : m'.manager.queue.pendingIds = m.manager.queue.pendingIds)
    (ho : ∀ id ∈ m'.owner.todo, id ∈ m.history.accepted)
    (hact : ∀ s, m'.manager.activeSession = some s →
      s.id < m.manager.nextSessionId ∧ s.id ∉ m.history.accepted)
    (hrec : ∀ s, m'.manager.activeSession = some s → m'.manager.state = .recording →
      m.manager.activeSession = some s ∧ m.manager.state = .recording ∧ s.id ≠ id) :
    Fresh m' where
  issued := hi ▸ h.issued
  drawn := by rw [hi, hn]; exact h.drawn
  accepted := by rw [ha, hn]; exact h.accepted
  waiting := by rw [hp, ha]; exact h.waiting
  held id hid := ha ▸ ho id hid
  closed := by
    intro x hx
    rw [hlog, List.filterMap_append, List.mem_append] at hx
    rw [hn]
    rcases hx with hx | hx
    · exact h.closed x hx
    · have hxid : x = id := by simpa [hc] using hx
      exact hxid ▸ hid
  lost := by
    intro x hx
    rw [hlog, List.filterMap_append, List.mem_append] at hx
    rw [ha]
    rcases hx with hx | hx
    · exact h.lost x hx
    · rcases hl with hnone | ⟨hsome, hnot⟩
      · simp [hnone] at hx
      · have hxid : x = id := by simpa [hsome] using hx
        exact hxid ▸ hnot
  active := by rw [ha, hn]; exact hact
  recording s hs hst := by
    obtain ⟨hold, hstold, hne⟩ := hrec s hs hst
    rw [hlog, List.filterMap_append, List.mem_append]
    rintro (hx | hx)
    · exact h.recording s hold hstold hx
    · exact hne (by simpa [hc] using hx)

/-- A step that draws the next id. -/
theorem Fresh.draw (h : Fresh m) (e : Event) (he : e.lost? = none ∧ e.closed? = none)
    (hlog : m'.log = m.log ++ [e])
    (hi : m'.history.issued = m.history.issued ++ [m.manager.nextSessionId])
    (ha : m'.history.accepted = m.history.accepted)
    (hn : m'.manager.nextSessionId = m.manager.nextSessionId + 1)
    (hp : m'.manager.queue.pendingIds = m.manager.queue.pendingIds)
    (ho : m'.owner.todo = [])
    (hact : ∀ s, m'.manager.activeSession = some s →
      m.manager.activeSession = some s ∧ m'.manager.state = m.manager.state ∨
        s.id = m.manager.nextSessionId) : Fresh m' := by
  have hlost : m'.log.filterMap Event.lost? = m.log.filterMap Event.lost? := by
    simp [hlog, he.1]
  have hclosed : m'.log.filterMap Event.closed? = m.log.filterMap Event.closed? := by
    simp [hlog, he.2]
  have hnew : ∀ {l : List SessionId}, (∀ id ∈ l, id < m.manager.nextSessionId) →
      m.manager.nextSessionId ∉ l := fun hl hmem => Nat.lt_irrefl _ (hl _ hmem)
  refine ⟨?_, ?_, ?_, ?_, by simp [ho], ?_, ?_, ?_, ?_⟩
  · rw [hi, List.pairwise_append]
    refine ⟨h.issued, List.pairwise_singleton _ _, ?_⟩
    intro a ha' b hb
    rw [List.mem_singleton.mp hb]
    exact h.drawn a ha'
  · intro id hid
    rw [hi, List.mem_append, List.mem_singleton] at hid
    rw [hn]
    rcases hid with hid | rfl
    · exact Nat.lt_succ_of_lt (h.drawn id hid)
    · exact Nat.lt_succ_self _
  · intro id hid
    rw [hn]
    exact Nat.lt_succ_of_lt (h.accepted id (ha ▸ hid))
  · rw [hp, ha]; exact h.waiting
  · intro id hid
    rw [hn]
    exact Nat.lt_succ_of_lt (h.closed id (hclosed ▸ hid))
  · rw [hlost, ha]; exact h.lost
  · intro s hs
    rw [hn, ha]
    rcases hact s hs with ⟨hold, -⟩ | hid
    · exact ⟨Nat.lt_succ_of_lt (h.active s hold).1, (h.active s hold).2⟩
    · rw [hid]
      exact ⟨Nat.lt_succ_self _, hnew h.accepted⟩
  · intro s hs hst
    rw [hclosed]
    rcases hact s hs with ⟨hold, hstold⟩ | hid
    · exact h.recording s hold (hstold ▸ hst)
    · exact hid ▸ hnew h.closed

/-- The end of a session the queue accepted: it is not the one on the
microphone. -/
theorem Fresh.closeAccepted (h : Fresh m) (e : Event) (id : SessionId)
    (hlog : m'.log = m.log ++ [e]) (hc : e.closed? = some id) (hl : e.lost? = none)
    (hid : id ∈ m.history.accepted) (hi : m'.history.issued = m.history.issued)
    (ha : m'.history.accepted = m.history.accepted)
    (hn : m'.manager.nextSessionId = m.manager.nextSessionId)
    (hp : m'.manager.queue.pendingIds = m.manager.queue.pendingIds)
    (ho : ∀ id ∈ m'.owner.todo, id ∈ m.history.accepted)
    (hact : m'.manager.activeSession = m.manager.activeSession)
    (hst : m'.manager.state = m.manager.state) : Fresh m' := by
  refine h.close e id hlog hc (h.accepted id hid) (.inl hl) hi ha hn hp ho ?_ ?_
  · rw [hact]
    exact h.active
  · intro s hs hrec
    rw [hact] at hs
    rw [hst] at hrec
    exact ⟨hs, hrec, fun heq => (h.active s hs).2 (heq ▸ hid)⟩

/-- A step that publishes nothing about a session and leaves queue and
history alone. -/
theorem Fresh.aside (h : Fresh m) {e : Option Event} (he : ∀ x ∈ e, x.aside = true)
    (hlog : m'.log = m.log ++ e.toList) (hh : m'.history = m.history)
    (hn : m'.manager.nextSessionId = m.manager.nextSessionId)
    (hp : m'.manager.queue.pendingIds = m.manager.queue.pendingIds) (ho : m'.owner.todo = [])
    (hact : m'.manager.activeSession = m.manager.activeSession)
    (hst : m'.manager.state = m.manager.state) : Fresh m' := by
  have hroles := Event.filterMap_aside m.log he
  exact h.frame (by rw [hh]) (by rw [hh]) hn (by simp [hp]) (by simp [ho]) (by simp [hlog, hroles])
    (by simp [hlog, hroles]) fun s hs => ⟨hact ▸ hs, hst⟩

/-- The queue accepts the recording on the microphone: no event has closed
it, so in particular none has lost it. -/
theorem Fresh.enqueue (h : Fresh m) {s : Session} (hs : m.manager.activeSession = some s)
    (hrec : m.manager.state = .recording) (hlog : m'.log = m.log)
    (hi : m'.history.issued = m.history.issued)
    (ha : m'.history.accepted = m.history.accepted ++ [s.id])
    (hn : m'.manager.nextSessionId = m.manager.nextSessionId)
    (hp : m'.manager.queue.pendingIds = m.manager.queue.pendingIds ++ [s.id])
    (ho : m'.owner.todo = []) (hnone : m'.manager.activeSession = none) : Fresh m' where
  issued := hi ▸ h.issued
  drawn := by rw [hi, hn]; exact h.drawn
  accepted := by
    rw [ha, hn]
    simpa [or_imp, forall_and] using ⟨h.accepted, (h.active s hs).1⟩
  waiting := by
    intro x hx
    rw [hp, List.mem_append] at hx
    rw [ha, List.mem_append]
    exact hx.imp (h.waiting x) id
  held := by simp [ho]
  closed := by rw [hlog, hn]; exact h.closed
  lost := by
    intro x hx
    rw [hlog] at hx
    rw [ha, List.mem_append, List.mem_singleton, not_or]
    refine ⟨h.lost x hx, ?_⟩
    rintro rfl
    obtain ⟨e, he, hlost⟩ := List.mem_filterMap.mp hx
    exact h.recording s hs hrec (List.mem_filterMap.mpr ⟨e, he, Event.closed?_of_lost? hlost⟩)
  active := by simp [hnone]
  recording := by simp [hnone]

theorem Move.fresh (hcap : Captured m) (h : Fresh m) (hm : Move m m') : Fresh m' := by
  cases hm with
  -- an id is drawn
  | startFailed r msg ho hr =>
    exact h.draw (.errorOccurred none .audio msg) ⟨rfl, rfl⟩ (by simp) (by simp) (by simp) (by simp)
      (by simp) rfl fun s hs => .inl (by simpa using hs)
  | started r s ho hr hid hs =>
    refine h.draw (.recordingStarted m.manager.nextSessionId) ⟨rfl, rfl⟩ (by simp) (by simp)
      (by simp) (by simp) (by simp) rfl fun s' hs' => .inr ?_
    have heq : s = s' := by simpa using hs'
    exact heq ▸ hid
  -- the session on the microphone ends or is accepted
  | stopLost r s now msg ho hs ha _ hr =>
    have hact := h.active s ha
    refine h.close (.errorOccurred (some s.id) .audio msg) s.id (by simp) rfl hact.1
      (.inr ⟨rfl, hact.2⟩) (by simp) (by simp) (by simp) (by simp) (by simp [Owner.todo]) ?_
      (by simp)
    simpa using hact
  | discarded s ho ha =>
    have hact := h.active s ha
    exact h.close (.sessionCancelled s.id) s.id (by simp) rfl hact.1 (.inl rfl) (by simp)
      (by simp) (by simp) (by simp) (by simp [Owner.todo]) (by simp) (by simp)
  | enqueueRefused id rec s msg ho hfull hid hs hf =>
    rw [Captured, ho] at hcap
    obtain ⟨-, -, s', ha, hid', -⟩ := hcap
    have hact := h.active s' ha
    rw [hid'] at hact
    refine h.close (.errorOccurred (some id) .queue msg) id (by simp) rfl hact.1 (.inl rfl)
      (by simp) (by simp) (by simp) (by simp) (by simp [Owner.todo]) ?_ (by simp)
    simpa [hid] using hact
  | enqueue id rec ho hs hp =>
    rw [Captured, ho] at hcap
    obtain ⟨hstate, -, s, ha, rfl, -⟩ := hcap
    exact h.enqueue ha hstate rfl rfl rfl rfl
      (by simp [TranscriptionQueue.pendingIds, SessionManager.jobFor]) rfl rfl
  -- a session of the queue ends
  | announceCancelled id ho =>
    exact h.closeAccepted (.sessionCancelled id) id (by simp) rfl rfl
      (h.held id (by simp [ho, Owner.todo])) (by simp) (by simp) (by simp) (by simp)
      (by simp [Owner.todo]) (by simp) (by simp)
  | reportDropped id todo d msg ho =>
    refine h.closeAccepted (.errorOccurred (some id) .queue msg) id (by simp) rfl rfl
      (h.held id (by simp [ho, Owner.todo])) (by simp) (by simp) (by simp) (by simp) ?_ (by simp)
      (by simp)
    intro x hx
    exact h.held x (by simpa [ho, Owner.todo] using Or.inr hx)
  -- sessions leave the queue
  | cancel id ho hmem =>
    refine h.frame rfl rfl rfl ?_ ?_ rfl rfl (by simp)
    · intro x hx
      exact (List.eraseP_sublist.map _).subset hx
    · simpa [Owner.todo] using h.waiting id hmem
  | stop ho =>
    exact h.frame rfl rfl rfl (by simp [TranscriptionQueue.pendingIds])
      (by simpa [Owner.todo] using h.waiting) rfl rfl (by simp)
  | pop job rest hw hs hp =>
    refine h.frame rfl rfl rfl ?_ h.held rfl rfl (by simp)
    intro x hx
    simp only [TranscriptionQueue.pendingIds, hp, List.map_cons, List.mem_cons] at hx ⊢
    exact .inr hx
  -- nothing of the kind
  | refuse e _ ho he _ | discard _ e ho _ _ he | tickDecoded _ _ _ e ho he =>
    exact h.aside he (by simp) (by simp) (by simp) (by simp) (by simp [Owner.todo]) (by simp)
      (by simp)
  | abort d ho | join d ho _ =>
    exact h.frame rfl rfl rfl (fun _ hx => hx) (by simpa [ho, Owner.todo] using h.held) rfl rfl
      (by simp)
  | exit | enter | leave | finish | loop | audio =>
    exact h.frame rfl rfl rfl (fun _ hx => hx) h.held rfl rfl (by simp)
  | _ =>
    exact h.frame (by simp) (by simp) (by simp) (by simp [TranscriptionQueue.pendingIds])
      (by simp [Owner.todo])
      (by simp [Event.closed?, Event.withdrawn?, Event.lost?]) (by simp [Event.lost?]) (by simp)

theorem Reachable.fresh (h : Reachable capacity c liveConfig m) : Fresh m := by
  refine Reachable.invariant h ?_ fun t t' hr hfresh hm => hm.fresh (Reachable.captured hr) hfresh
  constructor <;> simp [init, Owner.todo, TranscriptionQueue.pendingIds]

/-! ## A run to look at

The daemon with the queue of `main.cpp` and the default configuration, after
some actions. -/

/-- The state after `acts`, which must all be enabled in turn. -/
def after (acts : List Act) (liveConfig : LiveTranscriberConfig := {}) : Machine :=
  (Lib.run step (init TranscriptionQueue.defaultCapacity {} liveConfig) acts).getD
    (init TranscriptionQueue.defaultCapacity {} liveConfig)

theorem after_reachable {acts : List Act} {liveConfig : LiveTranscriberConfig}
    (h : (Lib.run step (init TranscriptionQueue.defaultCapacity {} liveConfig) acts).isSome =
      true) :
    Reachable TranscriptionQueue.defaultCapacity {} liveConfig (after acts liveConfig) := by
  obtain ⟨m, hm⟩ := Option.isSome_iff_exists.mp h
  exact ⟨acts, by rw [after, hm]; rfl⟩

/-- A session is recording and has captured three samples. -/
def recordingActs : List Act := [.call .startSession {}, .own {}, .capture [1, 2, 3]]

/-- It is stopped, and the worker is transcribing it. -/
def transcribingActs : List Act :=
  recordingActs ++ ([.call .stopSession {}, .own {}, .own {}, .worker (.error ⟨[]⟩),
    .worker (.error ⟨[]⟩)] : List Act)

/-! ## The capture state machine -/

/-- `state_` moves only as `can_transition` allows. -/
theorem Move.canTransition (hcap : Captured m) (hm : Move m m')
    (hne : m'.manager.state ≠ m.manager.state) :
    m.manager.state.canTransition m'.manager.state = true := by
  cases hm with
  | started r s ho hr hid hs =>
    rw [Captured, ho] at hcap
    simp [hcap.1, ServiceState.canTransition]
  | stopLost r s now msg ho hs ha hrun hr => simp [hs, ServiceState.canTransition]
  | discarded s ho ha =>
    rw [Captured, ho] at hcap
    rcases hcap.1 with hst | hst <;> simp [hst, ServiceState.canTransition]
  | enqueueRefused id rec s msg ho hfull hid hs hf =>
    rw [Captured, ho] at hcap
    simp [hcap.1, ServiceState.canTransition]
  | enqueue id rec ho hs hp =>
    rw [Captured, ho] at hcap
    simp [hcap.1, ServiceState.canTransition]
  | _ => simp at hne

/-- The generator of ids counts: in the source it wraps after 2^64 - 1
sessions, and up to there its value is this one. -/
def Counted (m : Machine) : Prop :=
  m.history.issued = List.range' 1 m.history.issued.length ∧
    m.manager.nextSessionId = m.history.issued.length + 1

theorem Counted.draw (h : Counted m)
    (hissued : m'.history.issued = m.history.issued ++ [m.manager.nextSessionId])
    (hnext : m'.manager.nextSessionId = m.manager.nextSessionId + 1) : Counted m' := by
  obtain ⟨hrange, hlast⟩ := h
  have hlength : m'.history.issued.length = m.history.issued.length + 1 := by
    rw [hissued, List.length_append, List.length_singleton]
  refine ⟨?_, ?_⟩
  · rw [hlength, List.range'_1_concat, ← hrange, hissued, hlast, Nat.add_comm]
  · rw [hnext, hlast, hlength]

theorem Counted.frame (h : Counted m) (hissued : m'.history.issued = m.history.issued)
    (hnext : m'.manager.nextSessionId = m.manager.nextSessionId) : Counted m' := by
  unfold Counted
  rw [hissued, hnext]
  exact h

/-- **The worker is never inside `transcribe` while the owner is inside
`transcribe_partial`, and the backend never has two calls open.** -/
theorem backend_entered_once (h : Reachable capacity c liveConfig m) :
    m.backend.inside.length ≤ 1 ∧
    m.backend.inside = m.owner.calls ++ m.worker.calls ∧
    ∀ job id window, ¬ (m.worker = .transcribing job ∧ m.owner = .decoding id window) := by
  have hex := h.exclusive
  refine ⟨hex.inside_le_one, hex.inside, ?_⟩
  rintro job id window ⟨hw, ho⟩
  have hnone := hex.owner_calls (by simp [hw, Worker.job?])
  simp [ho, Owner.calls] at hnone

theorem backend_entered_once_transcribing :
    (after transcribingActs).backend.inside = [.transcribe 1] ∧
    (after transcribingActs).backend.inside.length ≤ 1 := by
  have hr : Reachable TranscriptionQueue.defaultCapacity {} {} (after transcribingActs) :=
    after_reachable (by decide)
  exact ⟨by decide, (backend_entered_once hr).1⟩

/-! ## A started recording can be queued -/

/-- What a step of the worker or the audio thread leaves to the owner. -/
structure Background (m m' : Machine) : Prop where
  owner : m'.owner = m.owner
  log : m'.log = m.log
  returns : m'.returns = m.returns
  live : m'.live = m.live
  stopping : m'.manager.queue.stopping = m.manager.queue.stopping
  outstanding : m'.manager.queue.outstandingCount ≤ m.manager.queue.outstandingCount
  activeSession : m'.manager.recordingManager.activeSession =
    m.manager.recordingManager.activeSession
  samples : m.manager.recordingManager.samples <+: m'.manager.recordingManager.samples

theorem workerStep_background {result : TranscriptionResult}
    (hs : m.workerStep result = some m') : Background m m' := by
  cases hw : m.worker with
  | waiting =>
    simp only [workerStep, hw] at hs
    cases hstop : m.manager.queue.stopping with
    | true =>
      simp only [hstop, if_true, Option.some.injEq] at hs
      exact hs ▸ ⟨rfl, rfl, rfl, rfl, rfl, Nat.le_refl _, rfl, List.prefix_rfl⟩
    | false =>
      cases hp : m.manager.queue.pending with
      | nil => simp [hstop, TranscriptionQueue.pop, hp] at hs
      | cons job rest =>
        simp only [hstop, Bool.false_eq_true, if_false, TranscriptionQueue.pop, hp,
          Option.some.injEq] at hs
        refine hs ▸ ⟨rfl, rfl, rfl, rfl, hstop.symm, ?_, rfl, List.prefix_rfl⟩
        simp only [TranscriptionQueue.outstandingCount, hp, List.length_cons, if_true]
        omega
  | decoded job r =>
    simp only [workerStep, hw, Option.some.injEq] at hs
    refine hs ▸ ⟨rfl, rfl, rfl, rfl, rfl, ?_, rfl, List.prefix_rfl⟩
    simp [TranscriptionQueue.outstandingCount, TranscriptionQueue.finish]
  | popped job | transcribing job | finished =>
    simp only [workerStep, hw, Option.some.injEq] at hs
    exact hs ▸ ⟨rfl, rfl, rfl, rfl, rfl, Nat.le_refl _, rfl, List.prefix_rfl⟩
  | exited => simp [workerStep, hw] at hs

theorem step_background {a : Act} (ha : a.byOwner = false) (hs : m.step a = some m') :
    Background m m' := by
  cases a with
  | call op inp => cases ha
  | own inp => cases ha
  | worker result => exact workerStep_background hs
  | capture buffer =>
    simp only [step, captureStep] at hs
    split at hs
    · simp only [Option.some.injEq] at hs
      exact hs ▸ ⟨rfl, rfl, rfl, rfl, rfl, Nat.le_refl _, rfl, List.prefix_append _ _⟩
    · cases hs
  | lose =>
    simp only [step, loseStep] at hs
    split at hs
    · simp only [Option.some.injEq] at hs
      exact hs ▸ ⟨rfl, rfl, rfl, rfl, rfl, Nat.le_refl _, rfl, List.prefix_rfl⟩
    · cases hs

/-- What no step of the worker or the audio thread touches. -/
structure Aside (m m' : Machine) : Prop where
  owner : m'.owner = m.owner
  returns : m'.returns = m.returns
  state : m'.manager.state = m.manager.state
  session : m'.manager.activeSession = m.manager.activeSession
  stopping : m'.manager.queue.stopping = m.manager.queue.stopping

theorem step_aside {a : Act} (ha : a.byOwner = false) (hs : m.step a = some m') : Aside m m' := by
  have hb := step_background ha hs
  obtain ⟨queue, recorder, hmanager⟩ := (step_offstage ha hs).manager
  refine ⟨hb.owner, hb.returns, ?_, ?_, hb.stopping⟩
  · rw [hmanager]
  · rw [hmanager]

@[simp] theorem apply_worker (m : Machine) (next : Next) : (m.apply next).worker = m.worker := by
  cases next with
  | done g e r => simp [apply]
  | more g e f => simp [apply]
  | undefined => rfl

@[simp] theorem begin_worker (m : Machine) (op : Op) (inp : Input) :
    (m.begin op inp).worker = m.worker := by
  cases op with
  | tick =>
    show m.beginTick.worker = m.worker
    unfold beginTick
    split
    · rfl
    · split <;> rfl
  | startSession | stopSession | pollCompleted | cancelSession | cancelJob | shutdown =>
    exact apply_worker _ _
  | configure => rfl

theorem resume_worker {f : Frame} {inp : Input} (hs : m.resume f inp = some m') :
    m'.worker = m.worker := by
  cases f with
  | stopping dropped =>
    cases hs
    rfl
  | aborted dropped =>
    simp only [resume] at hs
    split at hs
    · split at hs
      · cases hs
        rfl
      · cases hs
    · cases hs
      rfl
  | starting | recorded | enqueued | discarding | cancelled | drained | announcing | reporting
  | dropping =>
    cases hs
    exact apply_worker _ _

/-- The owner leaves the worker where it is. -/
theorem step_worker {a : Act} (ha : a.byOwner = true) (hs : m.step a = some m') :
    m'.worker = m.worker := by
  cases a with
  | call op inp =>
    simp only [step, Option.ite_none_right_eq_some, Option.some.injEq] at hs
    obtain ⟨-, rfl⟩ := hs
    exact begin_worker m op inp
  | own inp =>
    simp only [step] at hs
    split at hs
    · exact resume_worker hs
    · cases hs
      unfold tickWindow
      split
      · rfl
      · simp only
        split <;> rfl
    · cases hs
      unfold tickRecut
      simp only
      split <;> rfl
    · cases hs
      simp [tickDecoded, endTick]
    · cases hs
    · cases hs
  | worker | capture | lose => cases ha

/-- How far a `stop_session()` called in `m₀` has got after `k` more sections
of the owner. -/
def StopProgress (m₀ : Machine) : Nat → Machine → Prop
  | 0, m => m.manager.queue.stopping = false ∧ m.returns = m₀.returns ∧
      ∃ id recording, m.owner = .inside (.recorded id recording)
  | 1, m => m.returns = m₀.returns ∧ ∃ id position, m.owner = .inside (.enqueued id position)
  | _, m => m.owner = .idle ∧
      ∃ id position, m.returns = m₀.returns ++ [.stopSession (.queuedJob id position)]

theorem stopProgress_background {m₀ : Machine} {k : Nat} {a : Act} (h : StopProgress m₀ k m)
    (ha : a.byOwner = false) (hs : m.step a = some m') : StopProgress m₀ k m' := by
  obtain ⟨ho, -, hr, -, hstop, -, -, -⟩ := step_background ha hs
  match k, h with
  | 0, h => exact ⟨hstop.trans h.1, hr.trans h.2.1, ho ▸ h.2.2⟩
  | 1, h => exact ⟨hr.trans h.1, ho ▸ h.2⟩
  | k + 2, h => exact ⟨ho.trans h.1, hr ▸ h.2⟩

/-- The place is still there when the recording is handed to the queue. -/
theorem stopProgress_own {m₀ : Machine} {k : Nat} {inp : Input}
    (hr : Reachable capacity c liveConfig m) (h : StopProgress m₀ k m) :
    (k < 2 → ∃ m', m.step (.own inp) = some m') ∧
    ∀ m', m.step (.own inp) = some m' → StopProgress m₀ (k + 1) m' := by
  match k, h with
  | 0, ⟨hstop, hret, id, recording, ho⟩ =>
    have hat : CaptureAt m.manager (.recorded id recording) := by
      have hcap := hr.captured
      rwa [Captured, ho] at hcap
    have hroom := hr.room
    have hlt := hroom.reserved (.inl hat.1) hstop
    rcases SessionManager.enqueueRecording_cases hat inp.now with
      ⟨_, _, hfull, _⟩ | ⟨_, _, heq⟩
    · rcases hfull with hfull | hfull
      · rw [hstop] at hfull; cases hfull
      · rw [hroom.fixed] at hfull; omega
    · have hstep : m.step (.own inp) = some (m.apply (.more { m.manager with
          queue := { m.manager.queue with
            pending := m.manager.queue.pending ++ [m.manager.jobFor id recording] }
          activeSession := none
          state := .idle } none (.enqueued id m.manager.queue.outstandingCount))) := by
        simp only [step, ho, resume, heq]
      refine ⟨fun _ => ⟨_, hstep⟩, fun m' hs => ?_⟩
      rw [hstep, Option.some.injEq] at hs
      exact hs ▸ ⟨hret, id, _, rfl⟩
  | 1, ⟨hret, id, position, ho⟩ =>
    have hstep : m.step (.own inp) = some (m.apply (m.manager.announceQueued id position)) := by
      simp only [step, ho, resume]
    refine ⟨fun _ => ⟨_, hstep⟩, fun m' hs => ?_⟩
    rw [hstep, Option.some.injEq] at hs
    subst hs
    exact ⟨by simp [apply, SessionManager.announceQueued],
      id, position, by simp [apply, SessionManager.announceQueued, hret]⟩
  | k + 2, ⟨ho, _⟩ =>
    refine ⟨fun hk => by omega, fun m' hs => ?_⟩
    simp [step, ho] at hs

/-- A run without further calls carries `stop_session()` on by one section
for each step of the owner. -/
theorem stopProgress_run {m₀ : Machine} : ∀ {acts : List Act} {k : Nat} {m m' : Machine},
    Reachable capacity c liveConfig m → StopProgress m₀ k m → acts.any Act.isCall = false →
    Lib.run step m acts = some m' → StopProgress m₀ (k + acts.countP Act.byOwner) m'
  | [], k, m, m', _, h, _, hrun => by
      simp only [Lib.run_nil, Option.some.injEq] at hrun
      exact hrun ▸ h
  | a :: rest, k, m, m', hr, h, hcalls, hrun => by
      obtain ⟨t, hs, hrest⟩ := Lib.run_cons_eq_some.mp hrun
      simp only [List.any_cons, Bool.or_eq_false_iff] at hcalls
      have hrt : Reachable capacity c liveConfig t := Lib.Reachable.snoc hr hs
      cases ha : a.byOwner with
      | false =>
        have ht := stopProgress_background h ha hs
        simpa [List.countP_cons, ha] using stopProgress_run hrt ht hcalls.2 hrest
      | true =>
        cases a with
        | own inp =>
          have ht := (stopProgress_own hr h).2 t hs
          have hend := stopProgress_run hrt ht hcalls.2 hrest
          rw [List.countP_cons_of_pos ha]
          rwa [Nat.add_right_comm] at hend
        | call op inp => cases hcalls.1
        | _ => cases ha

/-- **A started recording can be queued.** The queue keeps its bound and a
recording in progress keeps its place; `stop_session()` with a working
device, whatever the other threads do meanwhile, returns a queued job after
two more sections of the owner, each of which can run. -/
theorem started_recording_can_be_queued (h : Reachable capacity c liveConfig m) :
    m.manager.queue.pending.length ≤ capacity ∧
    m.manager.queue.outstandingCount ≤ capacity + 1 ∧
    (m.manager.state = .recording → m.manager.queue.stopping = false →
      m.manager.queue.pending.length < capacity) ∧
    (m.owner = .idle → m.manager.state = .recording → m.manager.queue.stopping = false →
      m.manager.recordingManager.device.running = true →
      ∀ inp acts m', acts.any Act.isCall = false →
        Lib.run step m (.call .stopSession inp :: acts) = some m' →
        (acts.countP Act.byOwner < 2 ∧ m'.returns = m.returns ∧
          ∀ inp', ∃ t, m'.step (.own inp') = some t) ∨
        (m'.owner = .idle ∧ ∃ id position,
          m'.returns = m.returns ++ [.stopSession (.queuedJob id position)])) := by
  have hroom := h.room
  refine ⟨hroom.bounded, ?_, fun hrec hstop => hroom.reserved (.inl hrec) hstop, ?_⟩
  · have hle := hroom.bounded
    unfold TranscriptionQueue.outstandingCount
    split <;> omega
  · intro ho hrec hstop hrun inp acts m' hcalls hacts
    obtain ⟨t, hs, hrest⟩ := Lib.run_cons_eq_some.mp hacts
    have hrt : Reachable capacity c liveConfig t := Lib.Reachable.snoc h hs
    have hstart : StopProgress m 0 t := by
      simp only [step, ho, if_true, Option.some.injEq, begin] at hs
      rcases SessionManager.stopSession_cases (captured_idle h.captured ho) inp.now with
        ⟨hne, _⟩ | ⟨_, _, _, _, hlost, _⟩ | ⟨s, recorder, recording, _, _, _, _, _, _, heq⟩
      · exact absurd hrec hne
      · rw [hrun] at hlost; cases hlost
      · rw [heq] at hs
        subst hs
        exact ⟨by simpa [apply] using hstop, by simp [apply], s.id, recording, by simp [apply]⟩
    have hend := stopProgress_run hrt hstart hcalls hrest
    have hrm : Reachable capacity c liveConfig m' := Lib.Reachable.trans h ⟨_, hacts⟩
    rw [Nat.zero_add] at hend
    -- none, one or both of the two sections have run
    cases hk : acts.countP Act.byOwner with
    | zero =>
      rw [hk] at hend
      exact .inl ⟨by omega, hend.2.1, fun inp' => (stopProgress_own hrm hend).1 (by omega)⟩
    | succ k =>
      rw [hk] at hend
      cases k with
      | zero => exact .inl ⟨by omega, hend.1, fun inp' => (stopProgress_own hrm hend).1 (by omega)⟩
      | succ k => exact .inr hend

theorem started_recording_can_be_queued_recording :
    (after recordingActs).manager.queue.pending.length < TranscriptionQueue.defaultCapacity ∧
    ∃ id position, (after (recordingActs ++
        [.call .stopSession {}, .own {}, .worker (.error ⟨[]⟩), .own {}])).returns =
      (after recordingActs).returns ++ [.stopSession (.queuedJob id position)] := by
  have hr : Reachable TranscriptionQueue.defaultCapacity {} {} (after recordingActs) :=
    after_reachable (by decide)
  obtain ⟨-, -, hroom, hstop⟩ := started_recording_can_be_queued hr
  refine ⟨hroom (by decide) (by decide), ?_⟩
  have hqueued := hstop (by decide) (by decide) (by decide) (by decide) {}
    [.own {}, .worker (.error ⟨[]⟩), .own {}]
    (after (recordingActs ++
      ([.call .stopSession {}, .own {}, .worker (.error ⟨[]⟩), .own {}] : List Act)))
    (by decide) (by decide)
  exact (hqueued.resolve_left (by simp [List.countP_cons, Act.byOwner])).2

end Machine

end YoruSpeech

/-
YoruSpeech.Session.ResultTheorems — what the published events say about the
results of `transcribe`.

* `Accounted` — the results, in the order they were returned, are those the
  log has published followed by those on their way to it: in the hands of
  `poll_completed()`, in the queue, and with the worker.
* `Publishes` — which state a completed transcript is published from, and
  that no operation reports an error of the clipboard.
* `Reachable.ends_unique` and `Reachable.ends_cases` are what follows for
  one accepted session: one event ends it, and it says what became of the
  session.
-/
import YoruSpeech.Session.OutcomeTheorems

namespace YoruSpeech

open Lib (Handoff)

/-- The result of `transcribe` this event publishes. -/
def Event.jobResult? : Event → Option TranscriptionJobResult
  | .transcriptionCompleted id t => some ⟨id, .transcript t⟩
  | .errorOccurred (some id) .speech message => some ⟨id, .error ⟨message⟩⟩
  | _ => none

/-- The results `poll_completed()` has drained and not published. -/
def Owner.results : Owner → List TranscriptionJobResult
  | .inside (.drained results) => results
  | .inside (.announcing _ results) => results
  | .inside (.reporting results _) => results
  | _ => []

/-- The result the worker has not handed over. -/
def Worker.result : Worker → List TranscriptionJobResult
  | .decoded job result => [⟨job.sessionId, result⟩]
  | _ => []

namespace Machine

variable {m m' : Machine} {capacity : Nat} {c : Configuration}
  {liveConfig : LiveTranscriberConfig}

/-- The results on their way to the log. -/
def unreported (m : Machine) : List TranscriptionJobResult :=
  m.owner.results ++ m.manager.queue.completed ++ m.worker.result

def Accounted (m : Machine) : Prop :=
  m.history.results = m.log.filterMap Event.jobResult? ++ m.unreported

theorem jobResult?_of_aside {e : Event} (h : e.aside = true) : e.jobResult? = none := by
  cases e with
  | transcriptionCompleted => cases h
  | errorOccurred id component message =>
    cases id with
    | none => rfl
    | some id => cases h
  | _ => rfl

/-- A step that publishes no result and moves none. -/
theorem Accounted.frame (h : Accounted m) {e : Option Event} (hlog : m'.log = m.log ++ e.toList)
    (he : ∀ x ∈ e, x.jobResult? = none) (hh : m'.history.results = m.history.results)
    (ho : m'.owner.results = m.owner.results)
    (hc : m'.manager.queue.completed = m.manager.queue.completed)
    (hw : m'.worker.result = m.worker.result) : Accounted m' := by
  have hnone : e.toList.filterMap Event.jobResult? = [] := by
    cases e with
    | none => rfl
    | some x => simp [he x rfl]
  unfold Accounted unreported
  rw [hlog, hh, ho, hc, hw, List.filterMap_append, hnone, List.append_nil]
  exact h

theorem Move.accounted (h : Accounted m) (hm : Move m m') : Accounted m' := by
  cases hm with
  | refuse e r ho he _ =>
    exact h.frame (e := e) (by simp) (fun x hx => jobResult?_of_aside (he x hx)) (by simp)
      (by simp [ho]) (by simp) (by simp)
  | discard r e ho hs hr he =>
    exact h.frame (e := e) (by simp) (fun x hx => jobResult?_of_aside (he x hx)) (by simp)
      (by simp [ho, Owner.results]) (by simp) (by simp)
  | tickDecoded l id window e ho he =>
    exact h.frame (e := e) (by simp) (fun x hx => jobResult?_of_aside (he x hx)) (by simp)
      (by simp [ho, Owner.results]) (by simp) (by simp)
  | tickEnd l ho _ =>
    refine h.frame (e := none) (by simp) (by simp) rfl ?_ rfl rfl
    rcases ho with ho | ho | ⟨_, _, ho⟩ <;> simp [ho, Owner.results]
  | tickDecode l id ho =>
    refine h.frame (e := none) (by simp) (by simp) rfl ?_ rfl rfl
    rcases ho with ⟨_, ho, _⟩ | ⟨_, _, ho, _⟩ <;> simp [ho, Owner.results]
  -- the worker gets a result and hands it over
  | leave job result hw =>
    unfold Accounted unreported at h ⊢
    simp [h, hw, Worker.result]
  | finish job result hw =>
    unfold Accounted unreported at h ⊢
    simp [h, hw, Worker.result, TranscriptionQueue.finish]
  | exit hw _ | enter _ hw | loop hw =>
    exact h.frame (e := none) (by simp) (by simp) rfl rfl rfl (by simp [hw, Worker.result])
  | pop job rest hw hs hp =>
    exact h.frame (e := none) (by simp) (by simp) rfl rfl rfl (by simp [hw, Worker.result])
  | audio r _ _ _ => exact h.frame (e := none) (by simp) (by simp) rfl rfl rfl rfl
  -- `poll_completed()` takes the results and publishes them
  | drain ho =>
    unfold Accounted unreported at h ⊢
    simpa [ho, Owner.results] using h
  | reportFailed id e rest count ho =>
    unfold Accounted unreported at h ⊢
    simpa [ho, Owner.results, Event.jobResult?] using h
  | reportCompleted id t rest count ho =>
    unfold Accounted unreported at h ⊢
    simpa [ho, Owner.results, Event.jobResult?] using h
  | startFailed | started | stopLost | stopped | discarded | enqueueRefused | announceQueued
  | announceCancelled | announceStarted | reportDropped =>
    exact h.frame (publish?_log _ _) (by simp [Event.jobResult?]) (by simp)
      (by simp [*, Owner.results]) (by simp) (by simp)
  | _ =>
    exact h.frame (e := none) (by simp) (by simp) rfl (by simp [*, Owner.results]) rfl rfl

theorem Reachable.accounted (h : Reachable capacity c liveConfig m) : Accounted m :=
  Reachable.invariant h rfl fun _ _ _ hacc hm => hm.accounted hacc

/-! ## What a step publishes -/

/-- What the state has to look like for the event to be published next. No
operation reports an error of the clipboard. -/
def Publishes (m : Machine) : Event → Prop
  | .transcriptionCompleted id t =>
    ∃ rest count, m.owner = .inside (.reporting (⟨id, .transcript t⟩ :: rest) count)
  | .errorOccurred (some _) .clipboard _ => False
  | _ => True

theorem publishes_of_aside {e : Event} (h : e.aside = true) : m.Publishes e := by
  cases e with
  | transcriptionCompleted => cases h
  | errorOccurred id component message =>
    cases id with
    | none => trivial
    | some id => cases h
  | _ => trivial

theorem Move.publishes (hm : Move m m') :
    ∃ e : Option Event, m'.log = m.log ++ e.toList ∧ ∀ x ∈ e, m.Publishes x := by
  cases hm with
  | refuse e r ho he _ => exact ⟨e, by simp, fun x hx => publishes_of_aside (he x hx)⟩
  | discard r e ho hs hr he => exact ⟨e, by simp, fun x hx => publishes_of_aside (he x hx)⟩
  | tickDecoded l id window e ho he =>
    exact ⟨e, by simp, fun x hx => publishes_of_aside (he x hx)⟩
  | reportCompleted id t rest count ho =>
    refine ⟨some _, publish?_log _ _, ?_⟩
    rintro x ⟨⟩
    exact ⟨rest, count, ho⟩
  | startFailed | started | stopLost | stopped | discarded | enqueueRefused | announceQueued
  | announceCancelled | announceStarted | reportFailed | reportDropped =>
    refine ⟨some _, publish?_log _ _, ?_⟩
    rintro x ⟨⟩
    trivial
  | _ => exact ⟨none, by simp, by simp⟩

/-- The log holds no error of the clipboard. -/
theorem Reachable.no_clipboard (h : Reachable capacity c liveConfig m) :
    ∀ id message, .errorOccurred (some id) .clipboard message ∉ m.log := by
  refine Reachable.invariant
    (P := fun m => ∀ id message, .errorOccurred (some id) .clipboard message ∉ m.log) h
    (by simp [init]) ?_
  intro t t' _ hno hm id message hmem
  obtain ⟨e, hlog, he⟩ := hm.publishes
  rw [hlog, List.mem_append, Option.mem_toList] at hmem
  rcases hmem with hmem | hmem
  · exact hno id message hmem
  · exact he _ hmem

/-! ## One session -/

end Machine

/-- The session a waiting client takes this event for the end of. -/
def Event.ends? : Event → Option SessionId
  | .transcriptionCompleted id _ => some id
  | .errorOccurred id _ _ => id
  | .sessionCancelled id => some id
  | _ => none

namespace Machine

/-- An event that ends an accepted session is its outcome. -/
theorem Reachable.outcome_of_ends (h : Reachable capacity c liveConfig m) {id : SessionId}
    (hid : id ∈ m.history.accepted) {e : Event} (he : e ∈ m.log) (hends : e.ends? = some id) :
    e.outcome? = some id := by
  cases e with
  | transcriptionCompleted i t => exact hends
  | sessionCancelled i => exact hends
  | errorOccurred i component message =>
    simp only [Event.ends?] at hends
    subst hends
    cases component with
    | speech => rfl
    | queue => rfl
    | audio =>
      have hlost : id ∈ m.log.filterMap Event.lost? := List.mem_filterMap.mpr ⟨_, he, rfl⟩
      exact absurd hid (h.fresh.lost id hlost)
    | clipboard => exact absurd he (h.no_clipboard id message)
  | _ => cases hends

theorem eq_of_count_filterMap_le_one {α β : Type} [DecidableEq β] {f : α → Option β} {b : β} :
    ∀ {l : List α}, (l.filterMap f).count b ≤ 1 → ∀ {x y : α}, x ∈ l → y ∈ l →
      f x = some b → f y = some b → x = y
  | [], _, x, y, hx, _, _, _ => by cases hx
  | a :: rest, hcount, x, y, hx, hy, hfx, hfy => by
      have hrest : ∀ z ∈ rest, f z = some b → 1 ≤ (rest.filterMap f).count b := by
        intro z hz hfz
        exact List.count_pos_iff.mpr (List.mem_filterMap.mpr ⟨z, hz, hfz⟩)
      have hhead : f a = some b → ((a :: rest).filterMap f).count b =
          (rest.filterMap f).count b + 1 := by
        intro hfa
        simp [hfa]
      have htail : (rest.filterMap f).count b ≤ ((a :: rest).filterMap f).count b := by
        rw [List.filterMap_cons]
        split
        · exact Nat.le_refl _
        · exact List.count_le_count_cons
      rcases List.mem_cons.mp hx with rfl | hx'
      · rcases List.mem_cons.mp hy with rfl | hy'
        · rfl
        · have h₁ := hhead hfx
          have h₂ := hrest y hy' hfy
          omega
      · rcases List.mem_cons.mp hy with rfl | hy'
        · have h₁ := hhead hfy
          have h₂ := hrest x hx' hfx
          omega
        · exact eq_of_count_filterMap_le_one (Nat.le_trans htail hcount) hx' hy' hfx hfy

/-- An accepted session is ended by one event. -/
theorem Reachable.ends_unique (h : Reachable capacity c liveConfig m) {id : SessionId}
    (hid : id ∈ m.history.accepted) {x y : Event} (hx : x ∈ m.log) (hy : y ∈ m.log)
    (hxe : x.ends? = some id) (hye : y.ends? = some id) : x = y := by
  have hcount : (m.log.filterMap Event.outcome?).count id ≤ 1 := by
    have hsum := countAt_sum h.ledger hid
    simp only [countAt] at hsum
    omega
  exact eq_of_count_filterMap_le_one hcount hx hy (h.outcome_of_ends hid hx hxe)
    (h.outcome_of_ends hid hy hye)

/-- What an event says that ends an accepted session. -/
theorem Reachable.ends_cases (h : Reachable capacity c liveConfig m) {id : SessionId}
    (hid : id ∈ m.history.accepted) {e : Event} (he : e ∈ m.log) (hends : e.ends? = some id) :
    (∃ t, e = .transcriptionCompleted id t) ∨
    (∃ error, ⟨id, .error error⟩ ∈ m.history.results) ∨ id ∈ m.history.withdrawn := by
  have hwithdrawn : e.withdrawn? = some id → id ∈ m.history.withdrawn := by
    intro hw
    have hdropped : withdrawnIn m.history.accepted m.log ++ m.owner.phase.todo =
        m.history.withdrawn := h.ledger.dropped
    rw [← hdropped]
    refine List.mem_append_left _ (List.mem_filter.mpr ⟨?_, by simpa using hid⟩)
    exact List.mem_filterMap.mpr ⟨e, he, hw⟩
  have houtcome := h.outcome_of_ends hid he hends
  cases e with
  | transcriptionCompleted i t =>
    cases hends
    exact .inl ⟨t, rfl⟩
  | sessionCancelled i =>
    cases hends
    exact .inr (.inr (hwithdrawn rfl))
  | errorOccurred i component message =>
    simp only [Event.ends?] at hends
    subst hends
    cases component with
    | speech =>
      refine .inr (.inl ⟨⟨message⟩, ?_⟩)
      rw [h.accounted]
      exact List.mem_append_left _ (List.mem_filterMap.mpr ⟨_, he, rfl⟩)
    | queue => exact .inr (.inr (hwithdrawn rfl))
    | audio => cases houtcome
    | clipboard => cases houtcome
  | _ => cases hends

/-- A session whose result is on its way has not ended. -/
theorem Reachable.not_ended (h : Reachable capacity c liveConfig m) {r : TranscriptionJobResult}
    (hid : r.sessionId ∈ m.history.accepted) (hr : r ∈ m.unreported) :
    ∀ e ∈ m.log, e.ends? ≠ some r.sessionId := by
  intro e he hends
  have hout : 0 < (m.log.filterMap Event.outcome?).count r.sessionId :=
    List.count_pos_iff.mpr
      (List.mem_filterMap.mpr ⟨e, he, h.outcome_of_ends hid he hends⟩)
  have hplace : r.sessionId ∈ m.owner.phase.results ∨
      r.sessionId ∈ m.manager.queue.completedIds ∨ r.sessionId ∈ m.worker.running := by
    simp only [unreported, List.mem_append] at hr
    rcases hr with (hr | hr) | hr
    · left
      have hphase : m.owner.phase.results = resultIds m.owner.results := by
        cases m.owner with
        | inside f => cases f <;> rfl
        | _ => rfl
      rw [hphase]
      exact List.mem_map_of_mem hr
    · exact .inr (.inl (List.mem_map_of_mem hr))
    · right
      right
      cases hw : m.worker with
      | decoded job result =>
        rw [hw, Worker.result, List.mem_singleton] at hr
        subst hr
        simp [Worker.running, Worker.job?]
      | _ => simp [hw, Worker.result] at hr
  have hsum := countAt_sum h.ledger hid
  simp only [countAt, List.count_append] at hsum
  simp only [← List.count_pos_iff] at hplace
  omega

/-- A transcript that was returned is published, or on its way. -/
theorem Reachable.published_or_unreported (h : Reachable capacity c liveConfig m)
    {id : SessionId} {t : Transcript} (ht : ⟨id, .transcript t⟩ ∈ m.history.results) :
    .transcriptionCompleted id t ∈ m.log ∨ ⟨id, .transcript t⟩ ∈ m.unreported := by
  rw [h.accounted, List.mem_append] at ht
  refine ht.imp_left ?_
  intro hmem
  obtain ⟨e, he, hresult⟩ := List.mem_filterMap.mp hmem
  unfold Event.jobResult? at hresult
  split at hresult
  · cases hresult
    exact he
  · cases hresult
  · cases hresult

/-- A published result is that of an accepted session. -/
theorem Reachable.accepted_of_completed (h : Reachable capacity c liveConfig m) {id : SessionId}
    {t : Transcript} (ht : .transcriptionCompleted id t ∈ m.log) : id ∈ m.history.accepted := by
  have hmem : id ∈ m.log.filterMap Event.result? := List.mem_filterMap.mpr ⟨_, ht, rfl⟩
  have hinv := h.ledger
  have htaken : id ∈ m.history.taken := by
    have hwork : m.log.filterMap Event.result? ++ m.owner.phase.results ++
        m.manager.queue.completedIds ++ m.worker.running = m.history.taken := hinv.work
    rw [← hwork]
    simp [hmem]
  exact hinv.mem_accepted_of_order (List.mem_append_left _ htaken)

end Machine

end YoruSpeech

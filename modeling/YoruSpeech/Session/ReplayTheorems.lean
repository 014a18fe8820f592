/-
YoruSpeech.Session.ReplayTheorems — what the published events say about the
service, and that it is true.

* `Replay` is kept by somebody who sees nothing but the events: the state of
  the capture, the session on the microphone, and the last results. It
  follows the log event by event.
* `Mirrored` — wherever the owner is, the replay of the log is the state of
  the `SessionManager`, except that between taking a recording into the
  queue and announcing it the event is still to come.
* `outstanding_eq`: the sessions queued and not yet given an outcome are
  those the worker has finished, the one it holds and those that wait, in
  this order.
-/
import YoruSpeech.Session.OutcomeTheorems

namespace YoruSpeech

/-- What the events so far say. -/
structure Replay where
  capture : ServiceState := .idle
  /-- The session on the microphone, or left in Error. -/
  active : Option SessionId := none
  lastCompleted : Option SessionId := none
  lastFailed : Option SessionId := none
  deriving DecidableEq, Repr

namespace Replay

/-- A session is over, or in the queue. -/
def close (r : Replay) (id : SessionId) : Replay :=
  if r.active = some id then { r with capture := .idle, active := none } else r

/-- A session has failed. -/
def fail (r : Replay) (id : SessionId) : Replay :=
  if r.active = some id then { r with capture := .error } else r

def see (r : Replay) : Event → Replay
  | .recordingStarted id => { r with capture := .recording, active := some id }
  | .transcriptionQueued id _ => r.close id
  | .sessionCancelled id => r.close id
  | .transcriptionCompleted id _ => { r with lastCompleted := some id }
  | .errorOccurred (some id) .speech _ => { r with lastFailed := some id }
  | .errorOccurred (some id) .audio _ => r.fail id
  | .errorOccurred (some id) .queue _ => r.fail id
  | _ => r

def ofLog (log : List Event) : Replay := log.foldl see {}

theorem ofLog_append (log es : List Event) : ofLog (log ++ es) = es.foldl see (ofLog log) :=
  List.foldl_append

theorem see_aside {e : Event} (h : e.aside = true) (r : Replay) : r.see e = r := by
  cases e with
  | recordingStarted | transcriptionQueued | transcriptionStarted | transcriptionCompleted
  | sessionCancelled =>
    cases h
  | errorOccurred id component message =>
    cases id with
    | none => rfl
    | some id => cases h
  | _ => rfl

theorem ofLog_aside (log : List Event) {e : Option Event} (he : ∀ x ∈ e, x.aside = true) :
    ofLog (log ++ e.toList) = ofLog log := by
  cases e with
  | none => simp
  | some e => simp [ofLog_append, see_aside (he e rfl)]

theorem close_other {r : Replay} {id : SessionId} (h : r.active ≠ some id) : r.close id = r :=
  if_neg h

theorem fail_other {r : Replay} {id : SessionId} (h : r.active ≠ some id) : r.fail id = r :=
  if_neg h

end Replay

/-- A recording taken into the queue and not yet announced. -/
def Owner.inHand? : Owner → Option SessionId
  | .inside (.enqueued id _) => some id
  | _ => none

namespace Machine

open Replay (ofLog ofLog_append ofLog_aside)

variable {m m' : Machine} {capacity : Nat} {c : Configuration}
  {liveConfig : LiveTranscriberConfig}

section Publish

variable (m : Machine) (e : Option Event)

@[simp] theorem publish?_lastCompleted :
    (m.publish? e).manager.lastCompleted = m.manager.lastCompleted := by
  rcases e with _ | e
  · rfl
  · cases e <;> rfl

@[simp] theorem publish?_lastFailed :
    (m.publish? e).manager.lastFailed = m.manager.lastFailed := by
  rcases e with _ | e
  · rfl
  · cases e <;> rfl

end Publish

/-- The replay of the log is the state of the manager. -/
structure Mirrored (m : Machine) : Prop where
  completed : (ofLog m.log).lastCompleted = m.manager.lastCompleted
  failed : (ofLog m.log).lastFailed = m.manager.lastFailed
  capture : m.owner.inHand? = none → (ofLog m.log).capture = m.manager.state ∧
    (ofLog m.log).active = m.manager.activeSessionId
  announced : ∀ id, m.owner.inHand? = some id →
    (ofLog m.log).active = some id ∧ m.manager.state = .idle ∧ m.manager.activeSession = none

/-- A step that changes nothing of the kind. -/
theorem Mirrored.frame (h : Mirrored m) (hlog : ofLog m'.log = ofLog m.log)
    (hcompleted : m'.manager.lastCompleted = m.manager.lastCompleted)
    (hfailed : m'.manager.lastFailed = m.manager.lastFailed)
    (hstate : m'.manager.state = m.manager.state)
    (hactive : m'.manager.activeSession = m.manager.activeSession)
    (howner : m'.owner.inHand? = m.owner.inHand?) : Mirrored m' := by
  refine ⟨?_, ?_, ?_, ?_⟩
  · rw [hlog, hcompleted]
    exact h.completed
  · rw [hlog, hfailed]
    exact h.failed
  · rw [howner, hlog, hstate, SessionManager.activeSessionId, hactive]
    exact h.capture
  · rw [howner, hlog, hstate, hactive]
    exact h.announced

/-- A step that publishes nothing of the kind. -/
theorem Mirrored.aside (h : Mirrored m) {e : Option Event} (he : ∀ x ∈ e, x.aside = true)
    (hlog : m'.log = m.log ++ e.toList)
    (hcompleted : m'.manager.lastCompleted = m.manager.lastCompleted)
    (hfailed : m'.manager.lastFailed = m.manager.lastFailed)
    (hstate : m'.manager.state = m.manager.state)
    (hactive : m'.manager.activeSession = m.manager.activeSession)
    (howner : m'.owner.inHand? = m.owner.inHand?) : Mirrored m' :=
  h.frame (by rw [hlog, ofLog_aside m.log he]) hcompleted hfailed hstate hactive howner

/-- A step that ends with nothing in hand and publishes this event. -/
theorem Mirrored.of_publish (m : Machine) (e : Event) (hlog : m'.log = m.log ++ [e])
    (hcompleted : ((ofLog m.log).see e).lastCompleted = m'.manager.lastCompleted)
    (hfailed : ((ofLog m.log).see e).lastFailed = m'.manager.lastFailed)
    (howner : m'.owner.inHand? = none)
    (hcapture : ((ofLog m.log).see e).capture = m'.manager.state)
    (hactive : ((ofLog m.log).see e).active = m'.manager.activeSessionId) : Mirrored m' := by
  have hsee : ofLog m'.log = (ofLog m.log).see e := by
    rw [hlog, ofLog_append]
    rfl
  refine ⟨hsee ▸ hcompleted, hsee ▸ hfailed, fun _ => ⟨hsee ▸ hcapture, hsee ▸ hactive⟩, ?_⟩
  intro id hid
  rw [howner] at hid
  cases hid

/-- The session on the microphone, in the events and in the manager. -/
theorem Mirrored.active_eq (h : Mirrored m) (howner : m.owner.inHand? = none) {session : Session}
    (hsession : m.manager.activeSession = some session) :
    (ofLog m.log).active = some session.id := by
  rw [(h.capture howner).2, SessionManager.activeSessionId, hsession]
  rfl

/-- The session on the microphone was never accepted. -/
theorem Mirrored.active_ne (h : Mirrored m) (hfresh : Fresh m) (howner : m.owner.inHand? = none)
    {id : SessionId} (hid : id ∈ m.history.accepted) : (ofLog m.log).active ≠ some id := by
  intro hactive
  rw [(h.capture howner).2, SessionManager.activeSessionId, Option.map_eq_some_iff] at hactive
  obtain ⟨session, hsession, rfl⟩ := hactive
  exact (hfresh.active session hsession).2 hid

/-- A recording in hand is that of the session on the microphone. -/
theorem Mirrored.active_recorded (h : Mirrored m) (hcap : Captured m) {id : SessionId}
    {recording : Recording} (ho : m.owner = .inside (.recorded id recording)) :
    (ofLog m.log).active = some id := by
  have hat : CaptureAt m.manager (.recorded id recording) := by simpa [Captured, ho] using hcap
  obtain ⟨-, -, s, hsome, rfl, -⟩ := hat
  exact h.active_eq (by rw [ho]; rfl) hsome

section OneEvent

variable {e : Event} {id : SessionId}

/-- The session on the microphone is over, or in the queue. -/
theorem Mirrored.close (h : Mirrored m) (hsee : ∀ r : Replay, r.see e = r.close id)
    (hid : (ofLog m.log).active = some id) (hlog : m'.log = m.log ++ [e])
    (hcompleted : m'.manager.lastCompleted = m.manager.lastCompleted)
    (hfailed : m'.manager.lastFailed = m.manager.lastFailed) (howner : m'.owner.inHand? = none)
    (hstate : m'.manager.state = .idle) (hactive : m'.manager.activeSession = none) :
    Mirrored m' := by
  refine Mirrored.of_publish m e hlog ?_ ?_ howner ?_ ?_
  · simpa [hsee, Replay.close, hid, hcompleted] using h.completed
  · simpa [hsee, Replay.close, hid, hfailed] using h.failed
  · simp [hsee, Replay.close, hid, hstate]
  · simp [hsee, Replay.close, hid, SessionManager.activeSessionId, hactive]

/-- The session on the microphone fails. -/
theorem Mirrored.fail (h : Mirrored m) (hsee : ∀ r : Replay, r.see e = r.fail id)
    (hid : (ofLog m.log).active = some id) (hlog : m'.log = m.log ++ [e])
    (hcompleted : m'.manager.lastCompleted = m.manager.lastCompleted)
    (hfailed : m'.manager.lastFailed = m.manager.lastFailed) (howner : m'.owner.inHand? = none)
    (hstate : m'.manager.state = .error) (hactive : m'.manager.activeSessionId = some id) :
    Mirrored m' := by
  refine Mirrored.of_publish m e hlog ?_ ?_ howner ?_ ?_
  · simpa [hsee, Replay.fail, hid, hcompleted] using h.completed
  · simpa [hsee, Replay.fail, hid, hfailed] using h.failed
  · simp [hsee, Replay.fail, hid, hstate]
  · simp [hsee, Replay.fail, hid, hactive]

/-- An event about another session than the one on the microphone. -/
theorem Mirrored.other (h : Mirrored m) (hsee : (ofLog m.log).see e = ofLog m.log)
    (hlog : m'.log = m.log ++ [e])
    (hcompleted : m'.manager.lastCompleted = m.manager.lastCompleted)
    (hfailed : m'.manager.lastFailed = m.manager.lastFailed)
    (hstate : m'.manager.state = m.manager.state)
    (hactive : m'.manager.activeSession = m.manager.activeSession)
    (howner : m'.owner.inHand? = m.owner.inHand?) : Mirrored m' :=
  h.frame (by rw [hlog, ofLog_append]; exact hsee) hcompleted hfailed hstate hactive howner

end OneEvent

theorem Mirrored.init : Mirrored (init capacity c liveConfig) where
  completed := rfl
  failed := rfl
  capture _ := ⟨rfl, rfl⟩
  announced _ hid := by cases hid

theorem Move.mirrored (hcap : Captured m) (hfresh : Fresh m) (h : Mirrored m) (hm : Move m m') :
    Mirrored m' := by
  have idle {o : Owner} (ho : m.owner = o) (hnone : o.inHand? = none) :
      m.owner.inHand? = none := by rw [ho, hnone]
  cases hm with
  -- nothing of the kind is published
  | refuse e r ho he _ =>
    exact h.aside he (by simp) (by simp) (by simp) (by simp) (by simp) (by simp [ho])
  | discard _ e ho _ _ he | tickDecoded _ _ _ e ho he =>
    exact h.aside he (by simp) (by simp) (by simp) (by simp) (by simp) (by simp [ho, Owner.inHand?])
  | startFailed r message ho hr =>
    exact h.aside (e := some (.errorOccurred none .audio message)) (by simp [Event.aside])
      (by simp) (by simp) (by simp) (by simp) (by simp) (by simp [ho, Owner.inHand?])
  | stopped r session recording ho =>
    exact h.aside (e := some (.recordingFinished session.id recording)) (by simp [Event.aside])
      (by simp) (by simp) (by simp) (by simp) (by simp) (by simp [ho, Owner.inHand?])
  -- nothing is published
  | reserve ho _ _ | cancel _ ho _ | drain ho | collect _ ho | announced _ ho | reported _ ho
  | stop ho | abort _ ho | join _ ho _ | shutDown _ ho | tickFree ho | tickCut _ _ _ ho _ =>
    exact h.frame rfl rfl rfl rfl rfl (by simp [ho, Owner.inHand?])
  | tickEnd l ho _ =>
    have hidle : m.owner.inHand? = none := by
      rcases ho with ho | ho | ⟨id, now, ho⟩ <;> rw [ho] <;> rfl
    exact h.frame rfl rfl rfl rfl rfl hidle.symm
  | tickDecode l id ho =>
    have hidle : m.owner.inHand? = none := by
      rcases ho with ⟨now, ho, -⟩ | ⟨id, now, ho, -⟩ <;> rw [ho] <;> rfl
    exact h.frame rfl rfl rfl rfl rfl hidle.symm
  | exit | pop | enter | leave | finish | loop | audio => exact h.frame rfl rfl rfl rfl rfl rfl
  -- the session on the microphone
  | started r session ho hr hid hs =>
    refine Mirrored.of_publish m (.recordingStarted m.manager.nextSessionId) (by simp) ?_ ?_
      (by simp [Owner.inHand?]) (by simp [Replay.see]) ?_
    · simpa [Replay.see] using h.completed
    · simpa [Replay.see] using h.failed
    · simp [Replay.see, SessionManager.activeSessionId, hid]
  | stopLost r session now message ho hs hactive =>
    exact h.fail (e := .errorOccurred (some session.id) .audio message) (fun _ => rfl)
      (h.active_eq (idle ho rfl) hactive) (by simp) (by simp) (by simp) (by simp [Owner.inHand?])
      (by simp) (by simp [SessionManager.activeSessionId])
  | discarded session ho hactive =>
    exact h.close (e := .sessionCancelled session.id) (fun _ => rfl)
      (h.active_eq (idle ho rfl) hactive) (by simp) (by simp) (by simp) (by simp [Owner.inHand?])
      (by simp) (by simp)
  | enqueueRefused id recording session message ho hfull hid hs hf =>
    exact h.fail (e := .errorOccurred (some id) .queue message) (fun _ => rfl)
      (h.active_recorded hcap ho) (by simp) (by simp) (by simp) (by simp [Owner.inHand?])
      (by simp) (by simp [SessionManager.activeSessionId, hid])
  | enqueue id recording ho hstop hroom =>
    refine ⟨h.completed, h.failed, fun hnone => (by cases hnone), ?_⟩
    intro id' hid'
    cases hid'
    exact ⟨h.active_recorded hcap ho, rfl, rfl⟩
  | announceQueued id position ho =>
    obtain ⟨hactive, hstate, hnone⟩ := h.announced id (by rw [ho]; rfl)
    exact h.close (e := .transcriptionQueued id position) (fun _ => rfl) hactive (by simp)
      (by simp) (by simp) (by simp [Owner.inHand?]) (by simp [hstate]) (by simp [hnone])
  -- the sessions in the queue
  | announceCancelled id ho =>
    have hother := h.active_ne hfresh (idle ho rfl) (hfresh.held id (by simp [ho, Owner.todo]))
    exact h.other (e := .sessionCancelled id) (Replay.close_other hother) (by simp) (by simp)
      (by simp) (by simp) (by simp) (by simp [ho, Owner.inHand?])
  | announceStarted id starts results ho =>
    exact h.other (e := .transcriptionStarted id) rfl (by simp) (by simp) (by simp) (by simp)
      (by simp) (by simp [ho, Owner.inHand?])
  | reportDropped id todo dropped message ho =>
    have hother := h.active_ne hfresh (idle ho rfl) (hfresh.held id (by simp [ho, Owner.todo]))
    exact h.other (e := .errorOccurred (some id) .queue message) (Replay.fail_other hother)
      (by simp) (by simp) (by simp) (by simp) (by simp) (by simp [ho, Owner.inHand?])
  | reportFailed id e rest count ho =>
    obtain ⟨hcapture, hactive⟩ := h.capture (idle ho rfl)
    refine Mirrored.of_publish m (.errorOccurred (some id) .speech e.message) (by simp) ?_
      (by simp [Replay.see]) (by simp [Owner.inHand?]) ?_ ?_
    · simpa [Replay.see] using h.completed
    · simpa [Replay.see] using hcapture
    · simpa [Replay.see, SessionManager.activeSessionId] using hactive
  | reportCompleted id t rest count ho =>
    obtain ⟨hcapture, hactive⟩ := h.capture (idle ho rfl)
    refine Mirrored.of_publish m (.transcriptionCompleted id t) (by simp) (by simp [Replay.see]) ?_
      (by simp [Owner.inHand?]) ?_ ?_
    · simpa [Replay.see] using h.failed
    · simpa [Replay.see] using hcapture
    · simpa [Replay.see, SessionManager.activeSessionId] using hactive

theorem Reachable.mirrored (h : Reachable capacity c liveConfig m) : Mirrored m :=
  Reachable.invariant h Mirrored.init fun _ _ hr hf hm =>
    hm.mirrored (Reachable.captured hr) (Reachable.fresh hr) hf

/-! ## The queue -/

/-- The sessions that were queued and have no outcome yet. -/
def outstanding (log : List Event) : List SessionId :=
  (log.filterMap Event.queued?).filter (· ∉ log.filterMap Event.outcome?)

theorem filter_not_mem_left {xs ys : List SessionId} (hnodup : (xs ++ ys).Nodup) :
    (xs ++ ys).filter (· ∉ xs) = ys := by
  obtain ⟨-, -, hdisjoint⟩ := List.nodup_append.mp hnodup
  rw [List.filter_append]
  have hnone : xs.filter (· ∉ xs) = [] := by simp
  have hall : ys.filter (· ∉ xs) = ys := by
    rw [List.filter_eq_self]
    intro y hy
    simp only [decide_eq_true_eq]
    exact fun hx => hdisjoint y hx y hy rfl
  rw [hnone, hall, List.nil_append]

theorem mem_outcomes {log : List Event} {id : SessionId} :
    id ∈ log.filterMap Event.outcome? ↔
      id ∈ log.filterMap Event.result? ∨ id ∈ log.filterMap Event.withdrawn? := by
  rw [← List.count_pos_iff, count_outcomes, ← List.count_pos_iff, ← List.count_pos_iff]
  omega

/-- Between two operations, what was queued and has no outcome is what the
worker has finished, holds, or has still to take. -/
theorem outstanding_eq (h : Reachable capacity c liveConfig m) (hidle : m.owner = .idle) :
    outstanding m.log =
      m.manager.queue.completedIds ++ m.worker.running ++ m.manager.queue.pendingIds := by
  have hinv := h.ledger
  have hphase : (ledgerOf m).phase = .idle := ledger_phase hidle
  have hqueued : m.log.filterMap Event.queued? = m.history.accepted := by
    have hq := hinv.queued
    rw [hphase] at hq
    exact (List.append_nil _).symm.trans hq
  have hwithdrawn : withdrawnIn m.history.accepted m.log = m.history.withdrawn := by
    have hd := hinv.dropped
    rw [hphase] at hd
    exact (List.append_nil _).symm.trans hd
  have hwork : m.log.filterMap Event.result? ++ (m.manager.queue.completedIds ++
      m.worker.running ++ m.manager.queue.pendingIds) =
        m.history.accepted.filter (· ∉ m.history.withdrawn) := by
    have hw := hinv.work
    have ho := hinv.order
    rw [hphase] at hw
    rw [← hw] at ho
    simp only [ledgerOf, Lib.Phase.results, List.append_nil, List.append_assoc] at ho ⊢
    exact ho
  have hnodup := hinv.nodup.filter (· ∉ m.history.withdrawn)
  -- the results come first, so they are what a second filter takes away
  have hrest := filter_not_mem_left (hwork ▸ hnodup)
  rw [hwork, List.filter_filter] at hrest
  rw [← hrest, outstanding, hqueued]
  refine List.filter_congr ?_
  intro id hid
  have hmem : id ∈ m.history.withdrawn ↔ id ∈ m.log.filterMap Event.withdrawn? := by
    rw [← hwithdrawn, withdrawnIn, List.mem_filter]
    simp [hid]
  rw [Bool.eq_iff_iff, Bool.and_eq_true, decide_eq_true_eq, decide_eq_true_eq,
    decide_eq_true_eq, mem_outcomes, hmem, not_or]

end Machine

end YoruSpeech

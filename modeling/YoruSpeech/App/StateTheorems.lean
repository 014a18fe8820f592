/-
YoruSpeech.App.StateTheorems — `get_state` answers what the events said.

* The bus carries the events of the managers, the model loaded at startup
  and the errors of `AutoClipboard`; the last two leave a `Replay` and the
  outstanding sessions as they are (`Reachable.publications`).
* The fields of the response are read back with the JSON library
  (`stateFields_get`).
* `state_answered`: in every state of the daemon the response to `get_state`
  carries the capture state and the last results a listener has worked out
  from the events, and its queue counts split the sessions the listener
  knows to be outstanding.
-/
import YoruSpeech.App.ConversationTheorems
import YoruSpeech.Session.ReplayTheorems

namespace YoruSpeech

open Lib (Json)
open Machine (outstanding)

/-! ## What the bus carries beside the managers' events -/

namespace Publication

variable {p : Publication}

theorem Proper.foldl_see (hp : p.Proper) (r : Replay) :
    p.logged.foldl Replay.see r = r.see p.event := by
  unfold logged
  cases hf : p.failure with
  | none => rfl
  | some x =>
    obtain ⟨id, t, message, -, rfl⟩ := hp x hf
    rfl

theorem Proper.filterMap_logged (hp : p.Proper) {role : Event → Option SessionId}
    (hrole : ∀ id message, role (.errorOccurred (some id) .clipboard message) = none) :
    p.logged.filterMap role = [p.event].filterMap role := by
  unfold logged
  cases hf : p.failure with
  | none => rfl
  | some x =>
    obtain ⟨id, t, message, -, rfl⟩ := hp x hf
    rw [Option.toList_some, ← List.singleton_append, List.filterMap_append,
      List.filterMap_cons_none (hrole id message)]
    exact List.append_nil _

end Publication

theorem foldl_see_logged {ps : List Publication} (hproper : ∀ p ∈ ps, p.Proper) (r : Replay) :
    (ps.flatMap Publication.logged).foldl Replay.see r =
      (ps.map Publication.event).foldl Replay.see r := by
  induction ps generalizing r with
  | nil => rfl
  | cons p rest ih =>
    rw [List.flatMap_cons, List.foldl_append, (hproper p List.mem_cons_self).foldl_see,
      ih fun q hq => hproper q (List.mem_cons_of_mem p hq)]
    rfl

theorem filterMap_logged {ps : List Publication} (hproper : ∀ p ∈ ps, p.Proper)
    {role : Event → Option SessionId}
    (hrole : ∀ id message, role (.errorOccurred (some id) .clipboard message) = none) :
    (ps.flatMap Publication.logged).filterMap role =
      (ps.map Publication.event).filterMap role := by
  induction ps with
  | nil => rfl
  | cons p rest ih =>
    rw [List.flatMap_cons, List.filterMap_append,
      (hproper p List.mem_cons_self).filterMap_logged hrole,
      ih fun q hq => hproper q (List.mem_cons_of_mem p hq), ← List.filterMap_append]
    rfl

namespace Daemon

variable {lib : Libraries} {s : Startup} {d d' : Daemon} {line : Bytes} {env : LineEnv}

/-- A step of a daemon that lives on is a conversation with any client. -/
theorem step_converses (hlib : lib.Lawful) (hd : Reachable lib s d) {a : DaemonAct}
    (hs : d.step lib a = some d') (halive : d'.terminated = false) :
    d'.machine.log = d.machine.log ∧ d'.hub.published = d.hub.published ∨
      ∃ fd asked ps, Converses lib fd d d' asked ps := by
  have hsound := hd.sound hlib
  have hnodup := hd.nodup
  cases a with
  | session a copy =>
    obtain ⟨ps, h⟩ := advance_converses hsound hnodup 0 hs halive
    exact .inr ⟨0, [], ps, h⟩
  | line client line env =>
    simp only [step, Option.ite_none_right_eq_some, Option.some.injEq] at hs
    obtain ⟨⟨-, hidle⟩, rfl⟩ := hs
    obtain ⟨ps, h⟩ := onLine_converses hlib hsound hnodup hidle 0 halive
    exact .inr ⟨0, _, ps, h⟩
  | disconnect client =>
    simp only [step, Option.ite_none_right_eq_some, Option.some.injEq] at hs
    obtain ⟨-, rfl⟩ := hs
    exact .inl ⟨rfl, rfl⟩

theorem alive_of_step {a : DaemonAct} (hs : d.step lib a = some d') : d.terminated = false := by
  cases a with
  | session | line | disconnect =>
    simp only [step, Option.ite_none_right_eq_some] at hs
    exact hs.1.1

/-- What was published: the model, then the events of the managers with the
errors nested in them. -/
theorem Reachable.publications (hlib : lib.Lawful) (hd : Reachable lib s d)
    (halive : d.terminated = false) :
    ∃ ps : List Publication, (∀ p ∈ ps, p.Proper) ∧
      d.machine.log = ps.map Publication.event ∧
      d.hub.published = loadConfiguredModel lib s ++ ps.flatMap Publication.logged := by
  refine Lib.Reachable.invariant (P := fun d => d.terminated = false →
    ∃ ps : List Publication, (∀ p ∈ ps, p.Proper) ∧
      d.machine.log = ps.map Publication.event ∧
      d.hub.published = loadConfiguredModel lib s ++ ps.flatMap Publication.logged)
    hd ?_ ?_ halive
  · exact fun _ => ⟨[], fun _ hp => absurd hp List.not_mem_nil, rfl, (List.append_nil _).symm⟩
  · intro t a t' ht ih hs halive
    obtain ⟨ps, hproper, hlog, hpublished⟩ := ih (alive_of_step hs)
    rcases step_converses hlib ht hs halive with ⟨hlog', hpublished'⟩ | ⟨fd, asked, qs, h⟩
    · exact ⟨ps, hproper, hlog'.trans hlog, hpublished'.trans hpublished⟩
    · refine ⟨ps ++ qs, ?_, ?_, ?_⟩
      · intro p hp
        rcases List.mem_append.mp hp with hp | hp
        · exact hproper p hp
        · exact h.proper p hp
      · rw [h.log, hlog, List.map_append]
      · rw [h.published, hpublished, List.flatMap_append, List.append_assoc]

/-- The model of the startup plays no role in a recording. -/
theorem loadConfiguredModel_aside (lib : Libraries) (s : Startup) :
    Replay.ofLog (loadConfiguredModel lib s) = {} ∧
      (loadConfiguredModel lib s).filterMap Event.queued? = [] ∧
      (loadConfiguredModel lib s).filterMap Event.outcome? = [] := by
  unfold loadConfiguredModel
  split
  · split
    · exact ⟨rfl, rfl, rfl⟩
    · exact ⟨rfl, rfl, rfl⟩
  · exact ⟨rfl, rfl, rfl⟩

/-- A listener on the bus learns what the log says. -/
theorem Reachable.replayed (hlib : lib.Lawful) (hd : Reachable lib s d)
    (halive : d.terminated = false) :
    Replay.ofLog d.hub.published = Replay.ofLog d.machine.log ∧
      outstanding d.hub.published = outstanding d.machine.log := by
  obtain ⟨ps, hproper, hlog, hpublished⟩ := hd.publications hlib halive
  obtain ⟨hreplay, hqueued, houtcome⟩ := loadConfiguredModel_aside lib s
  rw [hpublished, hlog]
  constructor
  · rw [Replay.ofLog_append, hreplay, foldl_see_logged hproper]
    rfl
  · unfold outstanding
    rw [List.filterMap_append, List.filterMap_append, hqueued, houtcome, List.nil_append,
      List.nil_append, filterMap_logged hproper fun _ _ => rfl,
      filterMap_logged hproper fun _ _ => rfl]

end Daemon

/-! ## Reading a status -/

/-- The fields of a `get_state` response. -/
structure ReadsAs (v : Json) (status : SessionStatus) : Prop where
  ok : v.get? (str "ok") = some (.bool true)
  state : v.get? (str "state") = some (.str status.state.name)
  queued : v.get? (str "queued") = some (.unsigned status.queued)
  processing : v.get? (str "processing") = some (.bool status.processing)
  lastCompleted : v.get? (str "last_completed") = status.lastCompleted.map Json.unsigned
  lastFailed : v.get? (str "last_failed") = status.lastFailed.map Json.unsigned

theorem stateFields_get (type : Bytes) (status : SessionStatus) :
    ReadsAs (.object (responseFields type true ++ stateFields status)) status := by
  have hkeys : ((responseFields type true ++ stateFields status).map Prod.fst).Nodup :=
    (stateBody status).keys
  have hget : ∀ {key : String} {v : Json},
      field key v ∈ responseFields type true ++ stateFields status →
        (Json.object (responseFields type true ++ stateFields status)).get? (str key) = some v :=
    fun hmem => Json.get?_object hkeys hmem
  have hmiss : ∀ {key : String},
      str key ∉ (responseFields type true ++ stateFields status).map Prod.fst →
        (Json.object (responseFields type true ++ stateFields status)).get? (str key) = none :=
    fun hnot => Json.get?_object_none hkeys hnot
  refine ⟨(stateBody status).get_ok type true, hget ?_, hget ?_, hget ?_, ?_, ?_⟩
  · simp [stateFields]
  · simp [stateFields]
  · simp [stateFields]
  · cases hlast : status.lastCompleted with
    | some id => exact hget (by simp [stateFields, optionalId, hlast])
    | none =>
      refine hmiss ?_
      unfold stateFields
      cases status.lastFailed <;> rw [hlast] <;>
        simp only [optionalId, responseFields, field, Option.map_none, Option.map_some,
          Option.toList_none, Option.toList_some, List.append_nil, List.cons_append,
          List.nil_append, List.map_cons, List.map_nil] <;>
        decide
  · cases hlast : status.lastFailed with
    | some id => exact hget (by simp [stateFields, optionalId, hlast])
    | none =>
      refine hmiss ?_
      unfold stateFields
      cases status.lastCompleted <;> rw [hlast] <;>
        simp only [optionalId, responseFields, field, Option.map_none, Option.map_some,
          Option.toList_none, Option.toList_some, List.append_nil, List.cons_append,
          List.nil_append, List.map_cons, List.map_nil] <;>
        decide

namespace Daemon

variable {lib : Libraries} {s : Startup} {d d' : Daemon} {line : Bytes} {env : LineEnv}

/-- `get_state` changes nothing and answers with the status. -/
theorem handleLine_getState (env : LineEnv) (hlib : lib.Lawful) (halive : d.terminated = false)
    (htype : (parseMessage lib.json line).type = some (str "get_state")) :
    ∃ bytes v, d.handleLine lib line env = (d, .line bytes) ∧ lib.json.parse bytes = some v ∧
      ReadsAs v d.machine.manager.status := by
  have hutf8 : Lib.validUtf8 (str "get_state") = true := by decide
  obtain ⟨bytes, hbytes, -⟩ := encodeState_response hlib.json d.machine.manager.status hutf8
  have hdispatch : d.dispatcher.handleLine lib line env = (d.dispatcher, .line bytes) := by
    unfold CommandDispatcher.handleLine
    simp only [htype]
    rw [if_neg (by decide), if_neg (by decide), if_neg (by decide), if_neg (by decide),
      if_pos trivial]
    exact congrArg (fun dumped => (d.dispatcher, Reply.ofDump dumped)) hbytes
  refine ⟨bytes, _, ?_, ?_, stateFields_get (str "get_state") d.machine.manager.status⟩
  · unfold handleLine
    rw [hdispatch]
    have hnone : d.newEvents d.dispatcher.machine = [] := List.drop_length
    simp only [hnone, Hub.publishAll, ← halive]
  · rw [encodeState_eq] at hbytes
    exact (stateBody _).parse hlib.json hbytes

/-- **`get_state` tells what the events told.** A listener that has heard
everything published so far knows the capture state, the last results and
the sessions that are queued without an outcome. The response carries the
first three; and its counts split the last: these sessions are, in order,
those of the queue's results not yet collected, that of the job in the
worker's hands, which is there exactly if `processing`, and those of the
waiting jobs, `queued` of them. The reported state is the capture state
unless that is Idle, and then Processing exactly if the worker has a job in
its hands or still to take. -/
theorem state_answered (hlib : lib.Lawful) (hd : Reachable lib s d)
    (halive : d.terminated = false) (hidle : d.machine.owner = .idle)
    (htype : (parseMessage lib.json line).type = some (str "get_state")) :
    ∃ bytes v status, d.handleLine lib line env = (d, .line bytes) ∧
      lib.json.parse bytes = some v ∧ ReadsAs v status ∧
      status.lastCompleted = (Replay.ofLog d.hub.published).lastCompleted ∧
      status.lastFailed = (Replay.ofLog d.hub.published).lastFailed ∧
      outstanding d.hub.published = d.machine.manager.queue.completedIds ++
        d.machine.worker.running ++ d.machine.manager.queue.pendingIds ∧
      status.queued = d.machine.manager.queue.pendingIds.length ∧ status.queued ≤ s.capacity ∧
      d.machine.worker.running.length = (if status.processing then 1 else 0) ∧
      status.state =
        if (Replay.ofLog d.hub.published).capture ≠ .idle then
          (Replay.ofLog d.hub.published).capture
        else if d.machine.worker.running ++ d.machine.manager.queue.pendingIds = [] then .idle
        else .processing := by
  obtain ⟨bytes, v, hreply, hparse, hreads⟩ := handleLine_getState env hlib halive htype
  have hr := (hd.sound hlib).reachable
  obtain ⟨hreplay, houtstanding⟩ := hd.replayed hlib halive
  have hmirrored := Machine.Reachable.mirrored hr
  have hcapture := (hmirrored.capture (by rw [hidle]; rfl)).1
  have hbusy : d.machine.manager.queue.busy = d.machine.worker.job?.isSome :=
    (Machine.Reachable.exclusive hr).busy
  refine ⟨bytes, v, _, hreply, hparse, hreads, ?_, ?_, ?_, ?_, ?_, ?_, ?_⟩
  · rw [hreplay, hmirrored.completed]
    rfl
  · rw [hreplay, hmirrored.failed]
    rfl
  · rw [houtstanding]
    exact Machine.outstanding_eq hr hidle
  · exact (List.length_map _).symm
  · exact (Machine.Reachable.room hr).bounded
  · show d.machine.worker.running.length = if d.machine.manager.queue.busy then 1 else 0
    rw [hbusy, Worker.running]
    cases d.machine.worker.job? <;> rfl
  · rw [hreplay, hcapture]
    have hnothing : (d.machine.worker.running ++ d.machine.manager.queue.pendingIds = []) ↔
        ¬ (d.machine.manager.queue.busy || d.machine.manager.queue.pending.length > 0) = true := by
      rw [hbusy, Worker.running, TranscriptionQueue.pendingIds]
      cases d.machine.worker.job? <;> simp
    show SessionManager.deriveState _ _ = _
    unfold SessionManager.deriveState
    by_cases hstate : d.machine.manager.state = .idle
    · simp only [hstate, ne_eq, not_true_eq_false, if_false, hnothing, ite_not]
      rfl
    · rw [if_pos hstate, if_pos hstate]

/-- The dictation of "hi", to the end of `poll_completed()`. -/
def settledActs : List DaemonAct := dictationActs none ++ [.session (.own {}) none]

def settled : Daemon := (Lib.run (step plainLibraries) listening settledActs).getD listening

/-- Afterwards `get_state` names its session. -/
theorem state_answered_dictated :
    ∃ bytes v, settled.handleLine plainLibraries (request "get_state") {} =
        (settled, .line bytes) ∧
      compactJson.parse bytes = some v ∧
      v.get? (str "last_completed") = some (.unsigned 1) := by
  have hsubscribe : (init plainLibraries plainStartup).step plainLibraries
      (.line 5 (request "subscribe_events") {}) = some listening := rfl
  have hsome : (Lib.run (step plainLibraries) listening settledActs).isSome = true := by
    decide +kernel
  have hrun : Lib.run (step plainLibraries) listening settledActs =
      some settled := by
    rw [settled, ← Option.get_eq_getD (h := hsome), Option.some_get]
  have hd : Reachable plainLibraries plainStartup settled :=
    ((Lib.Reachable.refl _).snoc hsubscribe).trans ⟨_, hrun⟩
  have halive : settled.terminated = false := by decide +kernel
  have hidle : settled.machine.owner = .idle := by decide +kernel
  have htype : (parseMessage compactJson (request "get_state")).type = some (str "get_state") := by
    decide +kernel
  have hlast : (Replay.ofLog settled.hub.published).lastCompleted = some 1 := by
    decide +kernel
  obtain ⟨bytes, v, status, hreply, hparse, hreads, hcompleted, -⟩ :=
    @state_answered plainLibraries plainStartup settled (request "get_state") {}
      plainLibraries_lawful hd halive hidle htype
  refine ⟨bytes, v, hreply, hparse, ?_⟩
  rw [hreads.lastCompleted, hcompleted, hlast]
  rfl

end Daemon

end YoruSpeech

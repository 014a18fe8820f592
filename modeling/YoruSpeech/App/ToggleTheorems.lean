/-
YoruSpeech.App.ToggleTheorems — when the toggle key recovers.

The marker is written after one reply and removed before another request,
so it can drift apart from the daemon. `InStep` lists the combinations from
which the key still works: the daemon is idle and the marker can be removed,
or it is recording and the marker is there. From any other one, every
further toggle is refused (`toggles_stuck`): without a marker it asks a
daemon that is not idle to start, a marker that holds no number stays and
makes it ask an idle one to stop, and in Error there is nothing to stop.

`Clean` is the exact condition on a step to keep `InStep`. Of the steps the
daemon takes by itself all do but one: at its end it discards a recording.
-/
import YoruSpeech.App.Toggle
import YoruSpeech.Ipc.CallTheorems

namespace YoruSpeech

/-! ## Room in the queue -/

namespace Machine

variable {m m' : Machine} {a : Act} {env : LineEnv} {capacity : Nat} {c : Configuration}
  {liveConfig : LiveTranscriberConfig}

/-- The other threads only make room. -/
theorem step_hasCapacity (ha : a.byOwner = false) (hs : m.step a = some m')
    (h : m.manager.queue.hasCapacity = true) : m'.manager.queue.hasCapacity = true := by
  cases a with
  | call op inp => cases ha
  | own inp => cases ha
  | worker result =>
    simp only [step, workerStep] at hs
    split at hs
    · split at hs
      · cases hs
        exact h
      · cases hp : m.manager.queue.pending with
        | nil => simp [TranscriptionQueue.pop, hp] at hs
        | cons job rest =>
          simp only [TranscriptionQueue.pop, hp, Option.some.injEq] at hs
          subst hs
          simp only [TranscriptionQueue.hasCapacity, hp, List.length_cons, Bool.and_eq_true,
            decide_eq_true_eq] at h ⊢
          exact ⟨h.1, by omega⟩
    all_goals
      cases hs
      try exact h
  | capture buffer =>
    simp only [step, captureStep, Option.ite_none_right_eq_some, Option.some.injEq] at hs
    obtain ⟨-, rfl⟩ := hs
    exact h
  | lose =>
    simp only [step, loseStep, Option.ite_none_right_eq_some, Option.some.injEq] at hs
    obtain ⟨-, rfl⟩ := hs
    exact h

theorem Kept.hasCapacity (h : Kept env m m') (hroom : m.manager.queue.hasCapacity = true) :
    m'.manager.queue.hasCapacity = true := by
  obtain ⟨acts, -, hwork⟩ := h.work
  have hqueue : m'.manager.queue = (m.meanwhile acts).manager.queue := congrArg Prod.fst hwork
  rw [hqueue]
  refine meanwhile_keeps (P := fun t => t.manager.queue.hasCapacity = true) ?_ acts hroom
  exact fun t a t' ht ha hs => step_hasCapacity ha hs ht

/-! ## What the daemon does by itself -/

/-- A point the owner reaches without a command. -/
def byItself : Owner → Bool
  | .inside .starting => false
  | .inside (.recorded _ _) => false
  | .inside (.enqueued _ _) => false
  | .inside (.cancelled _) => false
  | .undefined => false
  | _ => true

/-- By itself the daemon keeps its capture state, or discards the session
and falls back to Idle. -/
structure Settles (m m' : Machine) : Prop where
  owner : byItself m'.owner = true
  state : m'.manager.state = m.manager.state ∨
    m'.manager.state = .idle ∧ m.owner = .inside .discarding

theorem settles_done {g : SessionManager} {e : Option Event} {r : Return}
    (h : g.state = m.manager.state ∨ g.state = .idle ∧ m.owner = .inside .discarding) :
    Settles m (m.apply (.done g e r)) := by
  refine ⟨by simp [apply, byItself], ?_⟩
  simpa [apply] using h

theorem settles_more {g : SessionManager} {e : Option Event} {f : Frame}
    (hf : byItself (.inside f) = true)
    (h : g.state = m.manager.state ∨ g.state = .idle ∧ m.owner = .inside .discarding) :
    Settles m (m.apply (.more g e f)) := by
  refine ⟨by simpa [apply] using hf, ?_⟩
  simpa [apply] using h

theorem beginTick_settles (m : Machine) : Settles m m.beginTick := by
  unfold beginTick
  split
  · exact ⟨rfl, .inl rfl⟩
  · split
    · exact ⟨rfl, .inl rfl⟩
    · exact ⟨rfl, .inl rfl⟩

theorem tickWindow_settles (m : Machine) (now : Int) : Settles m (m.tickWindow now) := by
  unfold tickWindow
  split
  · exact ⟨rfl, .inl rfl⟩
  · simp only
    split
    · exact ⟨rfl, .inl rfl⟩
    · exact ⟨rfl, .inl rfl⟩
    · exact ⟨rfl, .inl rfl⟩

theorem tickRecut_settles (m : Machine) (id : SessionId) (now : Int) :
    Settles m (m.tickRecut id now) := by
  unfold tickRecut
  simp only
  split
  · exact ⟨rfl, .inl rfl⟩
  · exact ⟨rfl, .inl rfl⟩

theorem tickDecoded_settles (m : Machine) (id : SessionId) (window : List Sample) (inp : Input) :
    Settles m (m.tickDecoded id window inp) := by
  refine ⟨?_, .inl ?_⟩
  · simp [tickDecoded, endTick, byItself]
  · simp [tickDecoded, endTick]

/-- The operations of the run loop. -/
theorem begin_settles {op : Op} (hr : Reachable capacity c liveConfig m) (hidle : m.owner = .idle)
    (hop : op.ofLoop = true) (inp : Input) : Settles m (m.begin op inp) := by
  cases op with
  | pollCompleted => exact ⟨rfl, .inl rfl⟩
  | cancelSession =>
    show Settles m (m.apply m.manager.cancelSession)
    rcases SessionManager.cancelSession_cases (captured_idle hr.captured hidle) with
      ⟨-, r, hnext⟩ | ⟨recorder, e, -, -, -, hnext⟩
    · rw [hnext]
      exact settles_done (.inl rfl)
    · rw [hnext]
      exact settles_more rfl (.inl rfl)
  | shutdown => exact ⟨rfl, .inl rfl⟩
  | tick => exact beginTick_settles m
  | startSession | stopSession | cancelJob | configure => cases hop

theorem resume_settles {f : Frame} {inp : Input} (ho : m.owner = .inside f)
    (hf : byItself (.inside f) = true) (hs : m.resume f inp = some m') : Settles m m' := by
  cases f with
  | starting | recorded | enqueued | cancelled => cases hf
  | discarding =>
    cases hs
    exact settles_done (.inr ⟨rfl, ho⟩)
  | drained results =>
    cases hs
    exact settles_more rfl (.inl rfl)
  | announcing starts results =>
    cases hs
    cases starts with
    | nil => exact settles_more rfl (.inl rfl)
    | cons id rest => exact settles_more rfl (.inl rfl)
  | reporting results count =>
    cases hs
    cases results with
    | nil => exact settles_done (.inl rfl)
    | cons job rest =>
      simp only [SessionManager.reportResult]
      cases job.result with
      | error e => exact settles_more rfl (.inl rfl)
      | transcript t => exact settles_more rfl (.inl rfl)
  | stopping dropped =>
    cases hs
    exact ⟨rfl, .inl rfl⟩
  | aborted dropped =>
    simp only [resume] at hs
    split at hs
    · split at hs
      · cases hs
        exact ⟨rfl, .inl rfl⟩
      · cases hs
    · cases hs
      exact ⟨rfl, .inl rfl⟩
  | dropping todo dropped =>
    cases hs
    cases todo with
    | nil => exact settles_done (.inl rfl)
    | cons id rest => exact settles_more rfl (.inl rfl)

theorem step_settles (hr : Reachable capacity c liveConfig m) (ho : byItself m.owner = true)
    (ha : a.ofLoop = true) (hs : m.step a = some m') : Settles m m' := by
  have hother : a.byOwner = false → Settles m m' := by
    intro hby
    have haside := step_aside hby hs
    exact ⟨haside.owner ▸ ho, .inl haside.state⟩
  cases a with
  | call op inp =>
    simp only [step, Option.ite_none_right_eq_some, Option.some.injEq] at hs
    obtain ⟨hidle, rfl⟩ := hs
    exact begin_settles hr hidle ha inp
  | own inp =>
    simp only [step] at hs
    cases howner : m.owner with
    | inside f =>
      rw [howner] at hs ho
      exact resume_settles howner ho hs
    | ticking =>
      rw [howner] at hs
      cases hs
      exact tickWindow_settles m _
    | recutting id now =>
      rw [howner] at hs
      cases hs
      exact tickRecut_settles m id now
    | decoding id window =>
      rw [howner] at hs
      cases hs
      exact tickDecoded_settles m id window inp
    | idle | undefined =>
      rw [howner] at hs
      cases hs
  | worker | capture | lose => exact hother rfl

end Machine

/-! ## The marker and the daemon -/

namespace Desk

variable {σ σ' : Desk} {i : Invocation} {capacity : Nat} {c : Configuration}
  {liveConfig : LiveTranscriberConfig}

/-- The combinations of marker and capture state the toggle key works
from. -/
def InStep (σ : Desk) : Prop :=
  (σ.machine.manager.state = .idle ∧ σ.marker ≠ .garbled) ∨
    (σ.machine.manager.state = .recording ∧ σ.marker ≠ .absent)

instance : Decidable σ.InStep := inferInstanceAs (Decidable (_ ∨ _))

/-- What the helper finds when the daemon is between two requests. -/
structure Calm (capacity : Nat) (c : Configuration) (liveConfig : LiveTranscriberConfig)
    (σ : Desk) : Prop where
  reachable : Machine.Reachable capacity c liveConfig σ.machine
  idle : σ.machine.owner = .idle

/-- The request reaches the daemon or it does not. -/
theorem send_calm (h : Calm capacity c liveConfig σ) (op : Op) (hop : op.IsCommand)
    (i : Invocation) (marker : Marker) :
    Calm capacity c liveConfig { machine := (send σ.machine op i).1, marker := marker } := by
  obtain ⟨hr, hidle, -, -⟩ := Machine.perform_spec h.reachable h.idle hop i.env
  unfold send
  cases i.exchange with
  | answered => exact ⟨hr, hidle⟩
  | unanswered => exact ⟨hr, hidle⟩
  | undelivered => exact ⟨h.reachable, h.idle⟩

theorem invoke_calm (h : Calm capacity c liveConfig σ) (i : Invocation) :
    Calm capacity c liveConfig (σ.invoke i) := by
  unfold invoke doStart doStop
  simp only
  split
  · exact send_calm h .startSession trivial i _
  · split
    · exact send_calm h .cancelSession trivial i _
    · split
      · exact send_calm h .stopSession trivial i _
      · exact ⟨h.reachable, h.idle⟩

/-! ## The three requests -/

theorem send_startSession (h : Calm capacity c liveConfig σ) (i : Invocation) :
    (σ.machine.CanStart i.env ∧ i.exchange ≠ .undelivered ∧
      (send σ.machine .startSession i).1.manager.state = .recording ∧
      ((send σ.machine .startSession i).2 = some true ↔ i.exchange = .answered)) ∨
    ((¬ σ.machine.CanStart i.env ∨ i.exchange = .undelivered) ∧
      Machine.Kept i.env σ.machine (send σ.machine .startSession i).1 ∧
      (send σ.machine .startSession i).2 ≠ some true) := by
  have hcall := Machine.perform_startSession h.reachable h.idle i.env
  unfold send
  cases hx : i.exchange with
  | undelivered => exact .inr ⟨.inr rfl, Machine.kept_begin _ _, by simp⟩
  | answered =>
    rcases hcall with ⟨hcan, hreturn, hstate⟩ | ⟨hcan, ⟨e, hreturn⟩, hkept⟩
    · exact .inl ⟨hcan, by simp, hstate, by simp [hreturn, Return.refuses]⟩
    · exact .inr ⟨.inl hcan, hkept, by simp [hreturn, Return.refuses]⟩
  | unanswered =>
    rcases hcall with ⟨hcan, -, hstate⟩ | ⟨hcan, -, hkept⟩
    · exact .inl ⟨hcan, by simp, hstate, by simp⟩
    · exact .inr ⟨.inl hcan, hkept, by simp⟩

/-- A handled `cancel_session` leaves the daemon idle. -/
theorem send_cancelSession (h : Calm capacity c liveConfig σ) (i : Invocation) :
    (i.exchange = .undelivered ∧ (send σ.machine .cancelSession i).1 = σ.machine) ∨
    (i.exchange ≠ .undelivered ∧ (send σ.machine .cancelSession i).1.manager.state = .idle) := by
  have hcall : (σ.machine.perform .cancelSession i.env).1.manager.state = .idle := by
    rcases Machine.perform_cancelSession h.reachable h.idle i.env with
      ⟨hstate, -, hkept⟩ | ⟨-, -, hstate⟩
    · exact hkept.state.trans hstate
    · exact hstate
  unfold send
  cases hx : i.exchange with
  | undelivered => exact .inl ⟨rfl, rfl⟩
  | answered => exact .inr ⟨by simp, hcall⟩
  | unanswered => exact .inr ⟨by simp, hcall⟩

/-- `stop_recording` does nothing to a daemon that is not recording. -/
theorem send_stopSession (h : Calm capacity c liveConfig σ) (i : Invocation)
    (hstate : σ.machine.manager.state ≠ .recording) :
    Machine.Kept i.env σ.machine (send σ.machine .stopSession i).1 := by
  have hcall : Machine.Kept i.env σ.machine (σ.machine.perform .stopSession i.env).1 := by
    rcases Machine.perform_stopSession h.reachable h.idle i.env with
      ⟨-, -, hkept⟩ | ⟨-, hbroken⟩ | ⟨hrecording, -⟩
    · exact hkept
    · exact absurd hbroken.recording hstate
    · exact absurd hrecording hstate
  unfold send
  cases i.exchange with
  | undelivered => exact Machine.kept_begin _ _
  | answered => exact hcall
  | unanswered => exact hcall

/-- `stop_recording` on a recording: a lost device or a queue that has been
shut down make it fail, and then the daemon is in Error. -/
theorem send_stopSession_recording (h : Calm capacity c liveConfig σ) {i : Invocation}
    (hstate : σ.machine.manager.state = .recording) (hdelivered : i.exchange ≠ .undelivered) :
    (send σ.machine .stopSession i).1.manager.state =
      if σ.machine.manager.recordingManager.device.running = true ∧
          σ.machine.manager.queue.stopping = false then .idle else .error := by
  have hcall : (σ.machine.perform .stopSession i.env).1.manager.state =
      if σ.machine.manager.recordingManager.device.running = true ∧
          σ.machine.manager.queue.stopping = false then .idle else .error := by
    rcases Machine.perform_stopSession h.reachable h.idle i.env with
      ⟨hnot, -⟩ | ⟨-, hbroken⟩ | ⟨-, hrunning, hopen, -, hidle⟩
    · exact absurd hstate hnot
    · have hcause : ¬ (σ.machine.manager.recordingManager.device.running = true ∧
          σ.machine.manager.queue.stopping = false) := by
        rintro ⟨hrunning, hopen⟩
        rcases hbroken.cause with hlost | hshut
        · rw [hrunning] at hlost
          cases hlost
        · rw [hopen] at hshut
          cases hshut
      rw [if_neg hcause]
      exact hbroken.state
    · rw [if_pos ⟨hrunning, hopen⟩]
      exact hidle
  unfold send
  cases hx : i.exchange with
  | undelivered => exact absurd hx hdelivered
  | answered => exact hcall
  | unanswered => exact hcall

/-! ## One invocation -/

/-- The recording was too short: `do_stop` asks to cancel it. -/
def Cancels (σ : Desk) (i : Invocation) : Prop :=
  i.requested = .stop ∧ (σ.marker.taken i.read).1 = true ∧ i.quick = true

instance : Decidable (σ.Cancels i) := inferInstanceAs (Decidable (_ ∧ _ ∧ _))

/-- The daemon handles the request `do_stop` makes. -/
def Handled (σ : Desk) (i : Invocation) : Prop :=
  i.exchange ≠ .undelivered ∧ (σ.Cancels i ∨ i.listens = true)

instance : Decidable (σ.Handled i) := inferInstanceAs (Decidable (_ ∧ _))

/-- A request to stop the recording that the daemon handles and fails. -/
def Breaks (σ : Desk) (i : Invocation) : Prop :=
  σ.Handled i ∧ ¬ σ.Cancels i ∧
    ¬ (σ.machine.manager.recordingManager.device.running = true ∧
      σ.machine.manager.queue.stopping = false)

instance : Decidable (σ.Breaks i) := inferInstanceAs (Decidable (_ ∧ _))

/-- An invocation that keeps the marker and the daemon in step. One that
starts a recording without a marker leaves one: its reply is read and the
marker opened. One that stops a recording does not make it fail; if it
removes the marker it ends the recording, and if it finds a marker without
a number it does not. Nor does the daemon then. -/
def Clean (σ : Desk) : DeskAct → Prop
  | .daemon a =>
    σ.marker = .garbled → σ.machine.owner = .inside .discarding → a.byOwner = false
  | .invoke i =>
    if σ.starts i then
      ¬ (σ.machine.CanStart i.env ∧ σ.marker = .absent ∧
        (i.exchange = .unanswered ∨ i.exchange = .answered ∧ i.write = .openFailed))
    else
      σ.machine.manager.state = .recording →
        ¬ σ.Breaks i ∧ (σ.marker = .stamped ∧ i.read = .removed → σ.Handled i) ∧
          (σ.marker = .garbled → ¬ σ.Handled i)

instance : Decidable (σ.machine.CanStart i.env) := inferInstanceAs (Decidable (_ ∧ _ ∧ _))

instance Clean.decidable : ∀ act, Decidable (σ.Clean act)
  | .daemon _ => inferInstanceAs (Decidable (_ → _ → _))
  | .invoke _ => inferInstanceAs (Decidable (ite _ _ _))

/-- A marker there stays there, and one that was missing is missing only
where it cannot be opened. -/
theorem written_eq_absent (marker : Marker) (write : MarkerWrite) :
    marker.written write = .absent ↔ marker = .absent ∧ write = .openFailed := by
  cases write with
  | done => simp [Marker.written]
  | openFailed => simp [Marker.written]
  | cut illegible => cases illegible <;> simp [Marker.written]

theorem doStart_inStep_iff (h : Calm capacity c liveConfig σ) (hin : σ.InStep) (i : Invocation) :
    (σ.doStart i).InStep ↔
      ¬ (σ.machine.CanStart i.env ∧ σ.marker = .absent ∧
        (i.exchange = .unanswered ∨ i.exchange = .answered ∧ i.write = .openFailed)) := by
  unfold doStart InStep
  simp only
  rcases send_startSession h i with ⟨hcan, hdelivered, hstate, hok⟩ | ⟨hcan, hkept, hok⟩
  · -- recording now: the marker is there if it was, or if it has been opened
    simp only [hstate, hok, hcan]
    cases hx : i.exchange with
    | answered => simp [written_eq_absent]
    | unanswered => simp
    | undelivered => exact absurd hx hdelivered
  · simp only [hkept.state, if_neg hok]
    have hclean : ¬ (σ.machine.CanStart i.env ∧ σ.marker = .absent ∧
        (i.exchange = .unanswered ∨ i.exchange = .answered ∧ i.write = .openFailed)) := by
      rintro ⟨hyes, -, hx⟩
      rcases hcan with hno | hun
      · exact hno hyes
      · rw [hun] at hx
        rcases hx with hx | ⟨hx, -⟩ <;> cases hx
    exact ⟨fun _ => hclean, fun _ => hin⟩

theorem doStop_marker (σ : Desk) (checkMinHold : Bool) (i : Invocation) :
    (σ.doStop checkMinHold i).marker = (σ.marker.taken i.read).2 := by
  unfold doStop
  simp only
  split
  · rfl
  · split <;> rfl

/-- Nothing is left to stop. -/
theorem doStop_idle (h : Calm capacity c liveConfig σ)
    (hidle : σ.machine.manager.state = .idle) (checkMinHold : Bool) (i : Invocation) :
    (σ.doStop checkMinHold i).machine.manager.state = .idle := by
  have hnot : σ.machine.manager.state ≠ .recording := by
    rw [hidle]
    decide
  unfold doStop
  simp only
  split
  · rcases send_cancelSession h i with ⟨-, hsame⟩ | ⟨-, hcancelled⟩
    · exact (congrArg (·.manager.state) hsame).trans hidle
    · exact hcancelled
  · split
    · exact (send_stopSession h i hnot).state.trans hidle
    · exact hidle

/-- What becomes of a recording. -/
theorem doStop_recording (h : Calm capacity c liveConfig σ)
    (hrecording : σ.machine.manager.state = .recording) (i : Invocation) :
    (σ.doStop (i.requested = .stop) i).machine.manager.state =
      if σ.Handled i then if σ.Breaks i then .error else .idle else .recording := by
  have hcancels : (decide (i.requested = .stop) && (σ.marker.taken i.read).1 && i.quick) = true ↔
      σ.Cancels i := by
    simp [Cancels, and_assoc]
  unfold doStop
  simp only [hcancels]
  by_cases hcancel : σ.Cancels i
  · rw [if_pos hcancel, if_neg (show ¬ σ.Breaks i from fun hb => hb.2.1 hcancel)]
    rcases send_cancelSession h i with ⟨hx, hsame⟩ | ⟨hx, hcancelled⟩
    · rw [if_neg (show ¬ σ.Handled i from fun hh => hh.1 hx)]
      exact (congrArg (·.manager.state) hsame).trans hrecording
    · rw [if_pos (show σ.Handled i from ⟨hx, .inl hcancel⟩)]
      exact hcancelled
  · rw [if_neg hcancel]
    split
    · rename_i hlistens
      by_cases hx : i.exchange = .undelivered
      · rw [if_neg (show ¬ σ.Handled i from fun hh => hh.1 hx)]
        simp only [send, hx]
        exact hrecording
      · have hhandled : σ.Handled i := ⟨hx, .inr hlistens⟩
        rw [if_pos hhandled, send_stopSession_recording h hrecording hx]
        simp only [Breaks, hhandled, hcancel, not_false_eq_true, true_and, ite_not]
    · rename_i hdeaf
      rw [if_neg (show ¬ σ.Handled i from fun hh => hh.2.elim hcancel hdeaf)]
      exact hrecording

theorem doStop_inStep_iff (h : Calm capacity c liveConfig σ) (hin : σ.InStep) (i : Invocation) :
    (σ.doStop (i.requested = .stop) i).InStep ↔ (σ.machine.manager.state = .recording →
      ¬ σ.Breaks i ∧ (σ.marker = .stamped ∧ i.read = .removed → σ.Handled i) ∧
        (σ.marker = .garbled → ¬ σ.Handled i)) := by
  rcases hin with ⟨hidle, hmarker⟩ | ⟨hrecording, hmarker⟩
  · -- nothing to stop, and a marker that made sense makes sense or is gone
    have hleft : (σ.marker.taken i.read).2 ≠ .garbled := by
      cases hm : σ.marker with
      | absent => exact Marker.noConfusion
      | stamped => cases i.read <;> exact Marker.noConfusion
      | garbled => exact absurd hm hmarker
    refine ⟨fun _ hrecording => ?_, fun _ => .inl ⟨doStop_idle h hidle _ i, ?_⟩⟩
    · rw [hidle] at hrecording
      cases hrecording
    · rwa [doStop_marker]
  · have hbreaks : σ.Breaks i → σ.Handled i := And.left
    unfold InStep
    rw [doStop_recording h hrecording, doStop_marker]
    simp only [hrecording, true_implies]
    cases hm : σ.marker with
    | absent => exact absurd hm hmarker
    | garbled =>
      simp only [Marker.taken]
      by_cases hhandled : σ.Handled i <;> by_cases hbreak : σ.Breaks i <;> simp_all
    | stamped =>
      cases hread : i.read with
      | removed =>
        simp only [Marker.taken]
        by_cases hhandled : σ.Handled i <;> by_cases hbreak : σ.Breaks i <;> simp_all
      | removeFailed | readFailed =>
        simp only [Marker.taken]
        by_cases hhandled : σ.Handled i <;> by_cases hbreak : σ.Breaks i <;> simp_all

theorem invoke_inStep_iff (h : Calm capacity c liveConfig σ) (hin : σ.InStep) (i : Invocation) :
    (σ.invoke i).InStep ↔ σ.Clean (.invoke i) := by
  unfold invoke Clean
  by_cases hstarts : σ.starts i = true
  · simp only [hstarts, if_true]
    exact doStart_inStep_iff h hin i
  · simp only [hstarts]
    exact doStop_inStep_iff h hin i

/-! ## The toggle key -/

/-- A complete `yoru-dictate toggle` against a daemon that answers, on files
it can read, write and remove. -/
def toggle (σ : Desk) (env : LineEnv) : Desk :=
  σ.invoke { requested := .toggle, env := env }

/-- `n` of them in a row. -/
def toggles (envs : Nat → LineEnv) : Nat → Desk → Desk
  | 0, σ => σ
  | n + 1, σ => (toggles envs n σ).toggle (envs n)

/-- The daemon is recording and the marker says so. -/
def Ready (σ : Desk) : Prop :=
  σ.machine.manager.state = .recording ∧ σ.marker ≠ .absent

/-- The device opens. -/
def Works (env : LineEnv) : Prop := ∀ k, (env.inputs k).device = .ok

/-- Zero, one or two toggles lead to a recording with its marker. -/
def Recovers (σ : Desk) : Prop :=
  ∀ envs : Nat → LineEnv, (∀ k, Works (envs k)) → ∃ n ≤ 2, (toggles envs n σ).Ready

theorem toggles_calm (h : Calm capacity c liveConfig σ) (envs : Nat → LineEnv) (n : Nat) :
    Calm capacity c liveConfig (toggles envs n σ) := by
  induction n with
  | zero => exact h
  | succ n ih => exact invoke_calm ih _

/-- Without a marker, a toggle asks the daemon to start. -/
theorem toggle_unmarked (σ : Desk) (env : LineEnv) (hmarker : σ.marker = .absent) :
    σ.toggle env = σ.doStart { requested := .toggle, env := env } := by
  simp [toggle, invoke, starts, hmarker]

/-- With one, it asks the daemon to stop, and removes the marker if it holds
a number. -/
theorem toggle_marked (σ : Desk) (env : LineEnv) (hmarker : σ.marker ≠ .absent) :
    σ.toggle env =
      { machine := (send σ.machine .stopSession { requested := .toggle, env := env }).1
        marker := if σ.marker = .garbled then .garbled else .absent } := by
  cases hm : σ.marker with
  | absent => exact absurd hm hmarker
  | stamped => simp [toggle, invoke, starts, doStop, Marker.taken, hm]
  | garbled => simp [toggle, invoke, starts, doStop, Marker.taken, hm]

/-- A toggle that finds the two out of step leaves them so: the daemon
refuses what it asks for. -/
theorem toggle_stuck (h : Calm capacity c liveConfig σ) (hout : ¬ σ.InStep) (env : LineEnv) :
    ¬ (σ.toggle env).InStep := by
  by_cases hmarker : σ.marker = .absent
  · -- then the daemon is not idle, and does not start
    have hbusy : σ.machine.manager.state ≠ .idle :=
      fun hidle => hout (.inl ⟨hidle, by simp [hmarker]⟩)
    rw [toggle_unmarked σ env hmarker]
    rcases send_startSession h { requested := .toggle, env := env } with
      ⟨hcan, -⟩ | ⟨-, hkept, hok⟩
    · exact absurd hcan.1 hbusy
    · simp [doStart, InStep, hkept.state, hok, hbusy, hmarker]
  · -- then it is not recording, and has nothing to stop
    have hnot : σ.machine.manager.state ≠ .recording :=
      fun hrecording => hout (.inr ⟨hrecording, hmarker⟩)
    rw [toggle_marked σ env hmarker]
    simp only [InStep, (send_stopSession h _ hnot).state]
    rintro (⟨hidle, hleft⟩ | ⟨hrecording, -⟩)
    · refine hout (.inl ⟨hidle, fun hgarbled => hleft ?_⟩)
      rw [if_pos hgarbled]
    · exact hnot hrecording

theorem toggles_stuck (h : Calm capacity c liveConfig σ) (hout : ¬ σ.InStep)
    (envs : Nat → LineEnv) (n : Nat) : ¬ (toggles envs n σ).InStep := by
  induction n with
  | zero => exact hout
  | succ n ih => exact toggle_stuck (toggles_calm h envs n) ih (envs n)

/-- An idle daemon without a marker starts. -/
theorem toggle_starts (h : Calm capacity c liveConfig σ) {env : LineEnv} (hworks : Works env)
    (hidle : σ.machine.manager.state = .idle) (hmarker : σ.marker = .absent)
    (hroom : σ.machine.manager.queue.hasCapacity = true) : (σ.toggle env).Ready := by
  rw [toggle_unmarked σ env hmarker]
  rcases send_startSession h { requested := .toggle, env := env } with
    ⟨-, -, hstate, hok⟩ | ⟨hcan, -⟩
  · refine ⟨hstate, ?_⟩
    simp [doStart, hok, Marker.written]
  · have hyes : σ.machine.CanStart env := ⟨hidle, hroom, hworks 1⟩
    rcases hcan with hno | hun
    · exact absurd hyes hno
    · cases hun

theorem recovers_of_inStep (h : Calm capacity c liveConfig σ) (hin : σ.InStep)
    (hroom : σ.machine.manager.queue.hasCapacity = true) : σ.Recovers := by
  intro envs hworks
  rcases hin with ⟨hidle, hnumber⟩ | hready
  · by_cases hmarker : σ.marker = .absent
    · exact ⟨1, by omega, toggle_starts h (hworks 0) hidle hmarker hroom⟩
    · -- the first toggle removes the marker that was left over
      have hfirst := toggle_marked σ (envs 0) hmarker
      rw [if_neg hnumber] at hfirst
      have hnot : σ.machine.manager.state ≠ .recording := by
        rw [hidle]
        decide
      have hkept := send_stopSession h { requested := .toggle, env := envs 0 } hnot
      refine ⟨2, by omega, ?_⟩
      refine toggle_starts (toggles_calm h envs 1) (hworks 1) ?_ ?_ ?_
      · rw [toggles, toggles, hfirst]
        exact hkept.state.trans hidle
      · rw [toggles, toggles, hfirst]
      · rw [toggles, toggles, hfirst]
        exact hkept.hasCapacity hroom
  · exact ⟨0, by omega, hready⟩

theorem recovers_iff_inStep (h : Calm capacity c liveConfig σ)
    (hroom : σ.machine.manager.queue.hasCapacity = true) : σ.Recovers ↔ σ.InStep := by
  constructor
  · intro hrecovers
    by_cases hin : σ.InStep
    · exact hin
    · obtain ⟨n, -, hready⟩ := hrecovers (fun _ => {}) (fun _ _ => rfl)
      exact absurd (.inr hready) (toggles_stuck h hin (fun _ => {}) n)
  · exact fun hin => recovers_of_inStep h hin hroom

/-! ## Whole runs -/

theorem step_reachable {act : DeskAct}
    (h : Machine.Reachable capacity c liveConfig σ.machine) (hs : σ.step act = some σ') :
    Machine.Reachable capacity c liveConfig σ'.machine := by
  cases act with
  | daemon a =>
    simp only [step, Option.ite_none_right_eq_some, Option.map_eq_some_iff] at hs
    obtain ⟨-, machine, hmachine, rfl⟩ := hs
    exact h.snoc hmachine
  | invoke i =>
    simp only [step, Option.ite_none_right_eq_some, Option.some.injEq] at hs
    obtain ⟨hidle, rfl⟩ := hs
    exact (invoke_calm ⟨h, hidle⟩ i).reachable

theorem run_reachable {marker : Marker} {acts : List DeskAct}
    (hrun : Lib.run step (init capacity c liveConfig marker) acts = some σ) :
    Machine.Reachable capacity c liveConfig σ.machine := by
  have hinit : Machine.Reachable capacity c liveConfig
      (init capacity c liveConfig marker).machine := Lib.Reachable.refl _
  refine Lib.run_invariant
    (P := fun τ : Desk => Machine.Reachable capacity c liveConfig τ.machine) ?_ hinit hrun
  exact fun τ act τ' hτ hs => step_reachable hτ hs

/-- What every run of clean steps keeps. -/
structure Coupled (capacity : Nat) (c : Configuration) (liveConfig : LiveTranscriberConfig)
    (σ : Desk) : Prop where
  reachable : Machine.Reachable capacity c liveConfig σ.machine
  owner : Machine.byItself σ.machine.owner = true
  inStep : σ.InStep

theorem step_coupled (act : DeskAct) (h : Coupled capacity c liveConfig σ)
    (hclean : σ.Clean act) (hs : σ.step act = some σ') : Coupled capacity c liveConfig σ' := by
  have hr := step_reachable h.reachable hs
  cases act with
  | daemon a =>
    simp only [step, Option.ite_none_right_eq_some, Option.map_eq_some_iff] at hs
    obtain ⟨ha, machine, hmachine, rfl⟩ := hs
    have hsettles := Machine.step_settles h.reachable h.owner ha hmachine
    refine ⟨hr, hsettles.owner, ?_⟩
    have hin := h.inStep
    have hkept : machine.manager.state = σ.machine.manager.state →
        InStep { σ with machine := machine } := by
      intro hsame
      rwa [InStep, ← hsame] at hin
    rcases hsettles.state with hsame | ⟨hidle, ho⟩
    · exact hkept hsame
    · by_cases hgarbled : σ.marker = .garbled
      · exact hkept (Machine.step_aside (hclean hgarbled ho) hmachine).state
      · exact .inl ⟨hidle, hgarbled⟩
  | invoke i =>
    simp only [step, Option.ite_none_right_eq_some, Option.some.injEq] at hs
    obtain ⟨hidle, rfl⟩ := hs
    have hcalm : Calm capacity c liveConfig σ := ⟨h.reachable, hidle⟩
    refine ⟨hr, ?_, (invoke_inStep_iff hcalm h.inStep i).mpr hclean⟩
    rw [(invoke_calm hcalm i).idle]
    rfl

/-- Zero, one or two toggles lead to a recording with its marker exactly
from the states in which the daemon is idle and no marker is stuck, or is
recording and the marker is there; from any other one no number of toggles
does. A run stays among the former as long as its steps are `Clean`, and an
invocation that is not leaves them. -/
theorem toggle_recovers {marker : Marker} {acts : List DeskAct}
    (hrun : Lib.run step (init capacity c liveConfig marker) acts = some σ)
    (hidle : σ.machine.owner = .idle)
    (hroom : σ.machine.manager.queue.hasCapacity = true) :
    (σ.Recovers ↔ σ.InStep) ∧
    (¬ σ.InStep → ∀ envs n, ¬ (toggles envs n σ).Ready) ∧
    (marker ≠ .garbled → Lib.Along step Clean (init capacity c liveConfig marker) acts →
      σ.Recovers) ∧
    (σ.InStep → ∀ i, (σ.invoke i).InStep ↔ σ.Clean (.invoke i)) := by
  have hcalm : Calm capacity c liveConfig σ := ⟨run_reachable hrun, hidle⟩
  refine ⟨recovers_iff_inStep hcalm hroom, ?_, ?_, fun hin => invoke_inStep_iff hcalm hin⟩
  · intro hout envs n hready
    exact toggles_stuck hcalm hout envs n (.inr hready)
  · intro hleft hclean
    have hcoupled : Coupled capacity c liveConfig σ := by
      refine Lib.run_along (Q := Coupled capacity c liveConfig)
        (fun τ act τ' hτ hact hs => step_coupled act hτ hact hs) ?_ hclean hrun
      exact ⟨Lib.Reachable.refl _, rfl, .inl ⟨rfl, hleft⟩⟩
    exact recovers_of_inStep hcalm hcoupled.inStep hroom

/-- The key is pressed, the device is lost, and the key is pressed again. -/
def unpluggedActs : List DeskAct :=
  [.invoke { requested := .toggle }, .daemon .lose, .invoke { requested := .toggle }]

/-- Pressed to start and to stop, with a buffer captured in between, the key
starts the next recording. -/
theorem toggle_recovers_two_presses :
    ∃ acts σ, Lib.run step (init 4 {} {} .stamped) acts = some σ ∧
      Lib.Along step Clean (init 4 {} {} .stamped) acts ∧ σ.Recovers := by
  let acts : List DeskAct :=
    [.invoke { requested := .toggle }, .invoke { requested := .toggle },
      .daemon (.capture [1, 2]), .invoke { requested := .toggle }]
  have hfacts : (Lib.run step (init 4 {} {} .stamped) acts).map (fun σ =>
      (σ.machine.owner, σ.machine.manager.queue.hasCapacity)) = some (.idle, true) := by
    decide +kernel
  obtain ⟨σ, hrun, hσ⟩ := Option.map_eq_some_iff.mp hfacts
  simp only [Prod.mk.injEq] at hσ
  have hclean : Lib.Along step Clean (init 4 {} {} .stamped) acts := by decide +kernel
  exact ⟨acts, σ, hrun, hclean, (toggle_recovers hrun hσ.1 hσ.2).2.2.1 (by decide) hclean⟩

/-- The daemon is in Error and every further toggle is refused, although
the device works again. -/
theorem toggle_refused_unplugged :
    ∃ σ, Lib.run step (init 4 {} {} .absent) unpluggedActs = some σ ∧
      σ.machine.owner = .idle ∧ σ.machine.manager.queue.hasCapacity = true ∧
      σ.machine.manager.state = .error ∧ σ.marker = .absent ∧ ¬ σ.Recovers ∧
      ∀ envs n, ¬ (toggles envs n σ).Ready := by
  have hfacts : (Lib.run step (init 4 {} {} .absent) unpluggedActs).map (fun σ =>
      (σ.machine.owner, σ.machine.manager.queue.hasCapacity, σ.machine.manager.state,
        σ.marker)) = some (.idle, true, .error, .absent) := by
    decide +kernel
  obtain ⟨σ, hrun, hσ⟩ := Option.map_eq_some_iff.mp hfacts
  simp only [Prod.mk.injEq] at hσ
  obtain ⟨hidle, hroom, hstate, hmarker⟩ := hσ
  have hcalm : Calm 4 {} {} σ := ⟨run_reachable hrun, hidle⟩
  have hout : ¬ σ.InStep := by simp [InStep, hstate]
  refine ⟨σ, hrun, hidle, hroom, hstate, hmarker, ?_, ?_⟩
  · rwa [recovers_iff_inStep hcalm hroom]
  · intro envs n hready
    exact toggles_stuck hcalm hout envs n (.inr hready)

end Desk

end YoruSpeech

/-
YoruSpeech.App.RunLoopTheorems — no wake-up is lost.

* `Machine.Owed` — what a turn of the loop still has to find out about:
  results, and starts unless the loop is just about to drain them. No step
  of the owner adds to it.
* `Woken` — outside the stretch from the eventfd to the first drain, the
  counter is positive whenever something is owed and the worker is not on
  its way to the callback.
* `no_lost_wakeup` reads the two off.
-/
import YoruSpeech.App.RunLoop
import YoruSpeech.Session.MachineTheorems

namespace YoruSpeech

theorem wake_pos (counter : Nat) : 0 < wake counter := by
  unfold wake
  split
  · exact Nat.succ_pos counter
  · rename_i h
    have hmax : 0 < kMaxEventfdCount := by decide
    omega

/-! ## The two queues of the worker -/

namespace Machine

variable {m m' : Machine}

/-- Results wait, or starts that no drain under way will take. -/
def Owed (m : Machine) : Prop :=
  m.manager.queue.completed ≠ [] ∨
    m.manager.queue.started ≠ [] ∧ ∀ results, m.owner ≠ .inside (.drained results)

theorem Owed.of_same (h : Owed m')
    (hstarted : m'.manager.queue.started = m.manager.queue.started)
    (hcompleted : m'.manager.queue.completed = m.manager.queue.completed)
    (howner : ∀ results, m.owner ≠ .inside (.drained results)) : Owed m := by
  rcases h with h | ⟨h, -⟩
  · exact .inl (hcompleted ▸ h)
  · exact .inr ⟨hstarted ▸ h, howner⟩

/-- A move that is not the worker's adds nothing to what is owed. -/
theorem Move.owed (hm : Move m m') (hworker : m'.worker = m.worker) (h : Owed m') : Owed m := by
  cases hm with
  | drain ho =>
    rcases h with h | ⟨-, h⟩
    · exact absurd rfl h
    · exact absurd rfl (h _)
  | collect results ho =>
    rcases h with h | ⟨h, -⟩
    · exact .inl h
    · exact absurd rfl h
  | tickEnd l ho _ =>
    refine h.of_same rfl rfl ?_
    intro results hdrained
    rw [hdrained] at ho
    rcases ho with ho | ho | ⟨_, _, ho⟩ <;> cases ho
  | tickDecode l id ho =>
    refine h.of_same rfl rfl ?_
    intro results hdrained
    rw [hdrained] at ho
    rcases ho with ⟨_, ho, -⟩ | ⟨_, _, ho, -⟩ <;> cases ho
  | audio recorder buffer _ _ => exact h
  | exit ho _ =>
    rw [ho] at hworker
    cases hworker
  | pop job rest ho _ _ =>
    rw [ho] at hworker
    cases hworker
  | enter job ho =>
    rw [ho] at hworker
    cases hworker
  | leave job result ho =>
    rw [ho] at hworker
    cases hworker
  | finish job result ho =>
    rw [ho] at hworker
    cases hworker
  | loop ho =>
    rw [ho] at hworker
    cases hworker
  | _ => exact h.of_same (by simp) (by simp) (by simp [*])

/-- What the worker does to the two queues: it pushes and is then on its way
to the callback, or it leaves them alone. -/
theorem workerStep_owed {result : TranscriptionResult} (hs : m.workerStep result = some m')
    (hquiet : m.worker.announcing = false) (hquiet' : m'.worker.announcing = false)
    (h : Owed m') : Owed m := by
  cases hw : m.worker with
  | waiting =>
    simp only [workerStep, hw] at hs
    split at hs
    · cases hs
      exact h
    · split at hs
      · cases hs
      · cases hs
        cases hquiet'
  | transcribing job =>
    simp only [workerStep, hw, Option.some.injEq] at hs
    subst hs
    exact h
  | decoded job r =>
    simp only [workerStep, hw, Option.some.injEq] at hs
    subst hs
    cases hquiet'
  | popped job =>
    rw [hw] at hquiet
    cases hquiet
  | finished =>
    rw [hw] at hquiet
    cases hquiet
  | exited => simp [workerStep, hw] at hs

end Machine

/-! ## The loop -/

namespace RunLoop

variable {r r' : RunLoop} {capacity : Nat} {c : Configuration}
  {liveConfig : LiveTranscriberConfig}

/-- The phases in which no operation runs. -/
def atRest : LoopPhase → Bool
  | .polling => true
  | .polled _ => true
  | .completing => true
  | .ticking => true
  | _ => false

/-- The stretch from the eventfd to the first drain. -/
def drainAhead : LoopPhase → Bool
  | .lines => true
  | .completing => true
  | _ => false

structure Woken (capacity : Nat) (c : Configuration) (liveConfig : LiveTranscriberConfig)
    (r : RunLoop) : Prop where
  reachable : Machine.Reachable capacity c liveConfig r.machine
  rest : atRest r.phase = true → r.machine.owner = .idle
  woken : drainAhead r.phase = false → r.machine.worker.announcing = false → r.machine.Owed →
    0 < r.counter

theorem session_cases {a : Act} (h : r.step (.session a) = some r') :
    r.phase.take a = some r'.phase ∧ r.machine.step a = some r'.machine ∧
      r'.counter = if r.rings a then wake r.counter else r.counter := by
  simp only [step, Option.bind_eq_some_iff, Option.map_eq_some_iff] at h
  obtain ⟨phase, hphase, machine, hmachine, rfl⟩ := h
  exact ⟨hphase, hmachine, rfl⟩

/-- A phase in which the owner steps is not one of rest, unless the step is
the call that ends it. -/
theorem take_owner {phase phase' : LoopPhase} {a : Act} (ha : a.byOwner = true)
    (h : phase.take a = some phase') : atRest phase' = false := by
  cases a with
  | worker | capture | lose => cases ha
  | own inp =>
    cases phase <;> first | cases h; rfl | cases h
  | call op inp =>
    cases phase <;> cases op <;> first | cases h; rfl | cases h

/-- The stretch before the first drain ends with that drain. -/
theorem take_drain {phase phase' : LoopPhase} {a : Act} (h : phase.take a = some phase')
    (hahead : drainAhead phase = true) (hpast : drainAhead phase' = false) :
    ∃ inp, a = .call .pollCompleted inp := by
  cases a with
  | worker | capture | lose =>
    cases h
    rw [hahead] at hpast
    cases hpast
  | own inp =>
    cases phase with
    | lines =>
      cases h
      cases hpast
    | completing => cases h
    | polling | polled | publishing | ticking | previewing | left => cases hahead
  | call op inp =>
    cases phase with
    | lines =>
      obtain ⟨-, heq⟩ := Option.ite_none_right_eq_some.mp h
      cases heq
      cases hpast
    | completing =>
      cases op with
      | pollCompleted => exact ⟨inp, rfl⟩
      | _ => cases h
    | polling | polled | publishing | ticking | previewing | left => cases hahead

theorem not_owed_of_drain {m m' : Machine} {inp : Input}
    (hs : m.step (.call .pollCompleted inp) = some m') : ¬ m'.Owed := by
  simp only [Machine.step, Option.ite_none_right_eq_some, Option.some.injEq] at hs
  obtain ⟨-, rfl⟩ := hs
  rintro (h | ⟨-, h⟩)
  · exact h rfl
  · exact h _ rfl

theorem session_woken {a : Act} (hw : Woken capacity c liveConfig r)
    (hs : r.step (.session a) = some r') : Woken capacity c liveConfig r' := by
  obtain ⟨htake, hstep, hcounter⟩ := session_cases hs
  have hreachable : Machine.Reachable capacity c liveConfig r'.machine :=
    hw.reachable.snoc hstep
  cases howner : a.byOwner with
  | true =>
    have hworker := Machine.step_worker howner hstep
    have hsilent : r.rings a = false := by
      cases a <;> first | rfl | cases howner
    refine ⟨hreachable, ?_, ?_⟩
    · intro hrest
      rw [take_owner howner htake] at hrest
      cases hrest
    · intro hahead hquiet howed
      rw [hcounter, hsilent]
      rw [hworker] at hquiet
      cases hbefore : drainAhead r.phase with
      | false =>
        exact hw.woken hbefore hquiet ((hw.reachable.move hstep).owed hworker howed)
      | true =>
        obtain ⟨inp, rfl⟩ := take_drain htake hbefore hahead
        exact absurd howed (not_owed_of_drain hstep)
  | false =>
    have hback := Machine.step_background howner hstep
    have hphase : r'.phase = r.phase := by
      cases a with
      | call | own => cases howner
      | worker | capture | lose =>
        cases hp : r.phase <;> rw [hp] at htake <;> exact (Option.some.inj htake).symm
    refine ⟨hreachable, ?_, ?_⟩
    · rw [hphase, hback.owner]
      exact hw.rest
    · rw [hphase]
      intro hahead hquiet howed
      rw [hcounter]
      cases a with
      | call | own => cases howner
      | worker result =>
        cases hrings : r.machine.worker.announcing with
        | true =>
          have hring : r.rings (.worker result) = true := hrings
          rw [if_pos hring]
          exact wake_pos _
        | false =>
          have hring : ¬ r.rings (.worker result) = true := by simp [rings, hrings]
          rw [if_neg hring]
          exact hw.woken hahead hrings (Machine.workerStep_owed hstep hrings hquiet howed)
      | capture buffer =>
        simp only [Machine.step, Machine.captureStep, Option.ite_none_right_eq_some,
          Option.some.injEq] at hstep
        rw [← hstep.2] at hquiet howed
        exact hw.woken hahead hquiet howed
      | lose =>
        simp only [Machine.step, Machine.loseStep, Option.ite_none_right_eq_some,
          Option.some.injEq] at hstep
        rw [← hstep.2] at hquiet howed
        exact hw.woken hahead hquiet howed

/-- Every step of the loop and of the other threads keeps `Woken`. -/
theorem step_woken {a : LoopAct} (hw : Woken capacity c liveConfig r)
    (hs : r.step a = some r') : Woken capacity c liveConfig r' := by
  cases a with
  | session a => exact session_woken hw hs
  | poll active =>
    simp only [step] at hs
    split at hs
    · rename_i hphase
      cases hs
      have hidle : r.machine.owner = .idle := hw.rest (by rw [hphase]; rfl)
      refine ⟨hw.reachable, fun _ => hidle, ?_⟩
      intro _
      exact hw.woken (by rw [hphase]; rfl)
    · cases hs
  | drainEventfd =>
    simp only [step] at hs
    split at hs
    · cases hs
      exact ⟨hw.reachable, fun hrest => (by cases hrest), fun hahead => by cases hahead⟩
    · cases hs
      exact ⟨hw.reachable, fun hrest => (by cases hrest), fun hahead => by cases hahead⟩
    · cases hs
  | next =>
    simp only [step, Option.ite_none_right_eq_some] at hs
    obtain ⟨hidle, hs⟩ := hs
    split at hs
    · cases hs
      exact ⟨hw.reachable, fun _ => hidle, fun hahead => by cases hahead⟩
    · rename_i hphase
      cases hs
      exact ⟨hw.reachable, fun _ => hidle, fun _ => hw.woken (by rw [hphase]; rfl)⟩
    · rename_i hphase
      cases hs
      exact ⟨hw.reachable, fun _ => hidle, fun _ => hw.woken (by rw [hphase]; rfl)⟩
    · cases hs
  | leave =>
    simp only [step] at hs
    split at hs
    · rename_i hphase
      cases hs
      exact ⟨hw.reachable, fun hrest => (by cases hrest), fun _ => hw.woken (by rw [hphase]; rfl)⟩
    · cases hs

/-- In every state of every run: while a start or a result waits and the
worker is not between its push and its wake, the eventfd is readable or the
loop is past it with a drain still ahead; so the loop never sleeps in
`poll` over an announced result. -/
theorem no_lost_wakeup {acts : List LoopAct}
    (hrun : Lib.run step (init capacity c liveConfig) acts = some r) :
    (r.Undrained → r.machine.worker.announcing = false → 0 < r.counter ∨ r.Draining) ∧
    (r.phase = .polling → r.counter = 0 → r.machine.worker.announcing = false →
      r.machine.manager.queue.started = [] ∧ r.machine.manager.queue.completed = []) := by
  have hinit : Woken capacity c liveConfig (init capacity c liveConfig) := by
    refine ⟨Lib.Reachable.refl _, fun _ => rfl, ?_⟩
    rintro - - (h | ⟨h, -⟩)
    · exact absurd rfl h
    · exact absurd rfl h
  have hw : Woken capacity c liveConfig r :=
    Lib.run_invariant (fun _ _ _ hw hs => step_woken hw hs) hinit hrun
  have hmain : r.Undrained → r.machine.worker.announcing = false →
      0 < r.counter ∨ r.Draining := by
    intro hundrained hquiet
    by_cases hdraining : r.Draining
    · exact .inr hdraining
    · have hahead : drainAhead r.phase = false := by
        cases hphase : r.phase with
        | lines => exact absurd (.inl hphase) hdraining
        | completing => exact absurd (.inr (.inl hphase)) hdraining
        | polling | polled | publishing | ticking | previewing | left => rfl
      refine .inl (hw.woken hahead hquiet ?_)
      rcases hundrained with hstarted | hcompleted
      · exact .inr ⟨hstarted, fun results ho => hdraining (.inr (.inr ⟨results, ho⟩))⟩
      · exact .inl hcompleted
  refine ⟨hmain, ?_⟩
  intro hphase hzero hquiet
  have hidle : r.machine.owner = .idle := hw.rest (by rw [hphase]; rfl)
  have hnone : ¬ r.Undrained := by
    intro hundrained
    rcases hmain hundrained hquiet with hpos | hdraining
    · omega
    · rcases hdraining with h | h | ⟨results, h⟩
      · rw [hphase] at h
        cases h
      · rw [hphase] at h
        cases h
      · rw [hidle] at h
        cases h
  simp only [Undrained, not_or, ne_eq, Decidable.not_not] at hnone
  exact hnone

/-- A dictation is queued, popped and decoded; its result is handed over
and announced while the loop is about to sleep. -/
def resultBeforePoll : List LoopAct :=
  [.poll true, .drainEventfd,
    .session (.call .startSession {}), .session (.own {}),
    .session (.call .stopSession {}), .session (.own {}), .session (.own {}), .next,
    .session (.call .pollCompleted {}), .session (.own {}), .session (.own {}),
    .session (.own {}), .next, .session (.call .tick {}), .next,
    .session (.worker (.error ⟨[]⟩)), .session (.worker (.error ⟨[]⟩)),
    .session (.worker (.error ⟨[]⟩)), .session (.worker (.error ⟨[]⟩)),
    .session (.worker (.error ⟨[]⟩))]

/-- The loop is about to poll with the start and the result undrained, and
the eventfd is readable. -/
theorem no_lost_wakeup_result :
    ∃ r, Lib.run step (init 1 {} {}) resultBeforePoll = some r ∧ r.phase = .polling ∧
      r.Undrained ∧ 0 < r.counter := by
  have hrun : Lib.run step (init 1 {} {}) resultBeforePoll = some _ := rfl
  refine ⟨_, hrun, rfl, ?_, ?_⟩
  · exact .inl (by decide)
  · refine ((no_lost_wakeup hrun).1 (.inl (by decide)) rfl).resolve_right ?_
    rintro (h | h | ⟨results, h⟩) <;> cases h

end RunLoop

end YoruSpeech

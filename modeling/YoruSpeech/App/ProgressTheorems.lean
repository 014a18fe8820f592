/-
YoruSpeech.App.ProgressTheorems — the run loop keeps turning, and every
recording it accepted gets its outcome.

The runs are infinite and weakly fair to the two threads. The loop waits
for nobody but the operations it calls, which return
(`YoruSpeech.Session.ProgressTheorems`), and for `poll_once`, which
returns once the clients have nothing more to read. So `poll_completed` is
called again and again, and the results of the session domain carry over:
a behaviour of the loop is one of the session machine (`machineOf`).
-/
import YoruSpeech.App.RunLoopTheorems
import YoruSpeech.Session.ProgressTheorems

namespace YoruSpeech

open Lib (Behaviour Enabled Stutters)

/-- A step of the thread that runs the loop. -/
def LoopAct.ByMain : LoopAct → Prop
  | .session a => a.byOwner = true
  | _ => True

/-- The step of the session machine in a step of the daemon. -/
def LoopAct.act? : LoopAct → Option Act
  | .session a => some a
  | _ => none

namespace LoopPhase

/-- What can come next. -/
def follows : LoopPhase → LoopPhase → Bool
  | .polling, .polled _ => true
  | .polling, .completing => true
  | .polling, .left => true
  | .polled _, .lines => true
  | .lines, .completing => true
  | .completing, .publishing => true
  | .publishing, .ticking => true
  | .ticking, .previewing => true
  | .previewing, .polling => true
  | _, _ => false

/-- How far the call of `poll_completed` is ahead. -/
def distance : LoopPhase → Nat
  | .completing => 0
  | .lines => 1
  | .polled _ => 2
  | .polling => 3
  | .previewing => 4
  | .ticking => 5
  | .publishing => 6
  | .left => 7

theorem distance_lt {p q : LoopPhase} (h : p.follows q = true) (hp : p ≠ .completing)
    (hq : q ≠ .left) : q.distance < p.distance := by
  cases p <;> cases q <;> simp_all [follows, distance]

/-- A step of the session machine leaves the loop in its phase, or is the
call of the loop's own that the phase is for. -/
theorem take_follows {p q : LoopPhase} {a : Act} (h : p.take a = some q) :
    q = p ∨ p.follows q = true ∧ q ≠ .left := by
  cases a with
  | worker | capture | lose => exact .inl (by cases p <;> exact (Option.some.inj h).symm)
  | own inp => exact .inl (by cases p <;> first | exact (Option.some.inj h).symm | cases h)
  | call op inp =>
    cases p with
    | lines => exact .inl (Option.some.inj (Option.ite_none_right_eq_some.mp h).2).symm
    | left => exact .inl (Option.some.inj (Option.ite_none_right_eq_some.mp h).2).symm
    | completing | ticking =>
      refine .inr ?_
      cases op <;> first | cases h; exact ⟨rfl, LoopPhase.noConfusion⟩ | cases h
    | polling | polled | publishing | previewing => cases h

end LoopPhase

namespace RunLoop

variable {r r' : RunLoop} {capacity : Nat} {c : Configuration}
  {liveConfig : LiveTranscriberConfig}

/-! ## Steps -/

/-- What a step of the daemon can be. -/
inductive Moves (r : RunLoop) : LoopAct → RunLoop → Prop
  | session {a : Act} {r' : RunLoop} (htake : r.phase.take a = some r'.phase)
      (hstep : r.machine.step a = some r'.machine) : Moves r (.session a) r'
  /-- The loop's thread goes on between two operations. -/
  | loop {a : LoopAct} {r' : RunLoop} (hact : a.act? = none) (hmachine : r'.machine = r.machine)
      (hfollows : r.phase.follows r'.phase = true) (hleft : a = .leave ↔ r'.phase = .left)
      (hrest : atRest r.phase = true ∨ r.machine.owner = .idle) : Moves r a r'

theorem step_moves {a : LoopAct} (hs : r.step a = some r') : Moves r a r' := by
  cases a with
  | session a => exact .session (session_cases hs).1 (session_cases hs).2.1
  | poll active =>
    simp only [step] at hs
    split at hs
    · rename_i hphase
      cases hs
      exact .loop rfl rfl (by rw [hphase]; cases active <;> rfl) (by cases active <;> simp)
        (.inl (by rw [hphase]; rfl))
    · cases hs
  | drainEventfd =>
    simp only [step] at hs
    split at hs
    · rename_i hphase
      cases hs
      exact .loop rfl rfl (by rw [hphase]; rfl) (by simp) (.inl (by rw [hphase]; rfl))
    · rename_i hphase
      cases hs
      exact .loop rfl rfl (by rw [hphase]; rfl) (by simp) (.inl (by rw [hphase]; rfl))
    · cases hs
  | next =>
    simp only [step, Option.ite_none_right_eq_some] at hs
    obtain ⟨hidle, hs⟩ := hs
    split at hs
    · rename_i hphase
      cases hs
      exact .loop rfl rfl (by rw [hphase]; rfl) (by simp) (.inr hidle)
    · rename_i hphase
      cases hs
      exact .loop rfl rfl (by rw [hphase]; rfl) (by simp) (.inr hidle)
    · rename_i hphase
      cases hs
      exact .loop rfl rfl (by rw [hphase]; rfl) (by simp) (.inr hidle)
    · cases hs
  | leave =>
    simp only [step] at hs
    split at hs
    · rename_i hphase
      cases hs
      exact .loop rfl rfl (by rw [hphase]; rfl) (by simp) (.inl (by rw [hphase]; rfl))
    · cases hs

/-- The loop stays in its phase or goes on to one that follows it. -/
theorem Moves.follows {a : LoopAct} (h : Moves r a r') :
    r'.phase = r.phase ∨ r.phase.follows r'.phase = true := by
  cases h with
  | session htake _ => exact (LoopPhase.take_follows htake).imp_right And.left
  | loop _ _ hfollows _ _ => exact .inr hfollows

/-- Inside an operation the loop's thread can only go on in it. -/
theorem Moves.own {a : LoopAct} (h : Moves r a r') (hw : Woken capacity c liveConfig r)
    (ha : a.ByMain) (hbusy : r.machine.owner ≠ .idle) : ∃ inp, a = .session (.own inp) := by
  cases h with
  | @session a _ _ hstep =>
    cases a with
    | own inp => exact ⟨inp, rfl⟩
    | call op inp =>
      simp only [Machine.step, Option.ite_none_right_eq_some] at hstep
      exact absurd hstep.1 hbusy
    | worker | capture | lose => cases ha
  | loop _ _ _ _ hrest => exact absurd (hrest.elim hw.rest id) hbusy

/-- A step of the other threads leaves the loop where it is. -/
theorem Moves.other {a : LoopAct} (h : Moves r a r') (ha : ¬ a.ByMain) :
    r'.phase = r.phase ∧ r'.machine.owner = r.machine.owner := by
  cases h with
  | @session a _ htake hstep =>
    cases a with
    | call | own => exact absurd rfl ha
    | worker | capture | lose =>
      refine ⟨?_, (Machine.step_background rfl hstep).owner⟩
      cases hp : r.phase <;> rw [hp] at htake <;> exact (Option.some.inj htake).symm
  | loop hact _ _ _ _ =>
    cases a with
    | session => cases hact
    | poll | drainEventfd | next | leave => exact absurd trivial ha

/-- Between two operations a step of the loop's thread ends the phase, but
for the phases in which it may call any number of operations. -/
theorem Moves.leaves {a : LoopAct} (h : Moves r a r') (ha : a.ByMain)
    (hidle : r.machine.owner = .idle) (hlines : r.phase ≠ .lines) (hleft : r.phase ≠ .left) :
    r'.phase ≠ r.phase := by
  intro heq
  cases h with
  | @session a _ htake hstep =>
    rw [heq] at htake
    cases a with
    | worker | capture | lose => cases ha
    | own inp => simp [Machine.step, hidle] at hstep
    | call op inp =>
      cases hp : r.phase with
      | lines => exact hlines hp
      | left => exact hleft hp
      | polling | polled | publishing | previewing => rw [hp] at htake; cases htake
      | completing | ticking => rw [hp] at htake; cases op <;> cases htake
  | loop _ _ hfollows _ _ =>
    rw [heq] at hfollows
    cases hp : r.phase <;> rw [hp] at hfollows <;> cases hfollows

/-- There is such a step. -/
theorem main_enabled (hidle : r.machine.owner = .idle) (hleft : r.phase ≠ .left) :
    Enabled step LoopAct.ByMain r := by
  cases hp : r.phase with
  | polling => exact ⟨.poll false, trivial, by simp [step, hp]⟩
  | polled readable => exact ⟨.drainEventfd, trivial, by cases readable <;> simp [step, hp]⟩
  | lines | publishing | previewing => exact ⟨.next, trivial, by simp [step, hp, hidle]⟩
  | completing =>
    exact ⟨.session (.call .pollCompleted {}), rfl,
      by simp [step, hp, LoopPhase.take, Machine.step, hidle]⟩
  | ticking =>
    exact ⟨.session (.call .tick {}), rfl,
      by simp [step, hp, LoopPhase.take, Machine.step, hidle]⟩
  | left => exact absurd hp hleft

/-- Before `poll_completed` the loop's thread can only call it. -/
theorem completing_act {a : LoopAct} (hphase : r.phase = .completing) (ha : a.ByMain)
    (hs : r.step a = some r') : ∃ inp, a = .session (.call .pollCompleted inp) := by
  cases a with
  | session a =>
    have htake := (session_cases hs).1
    rw [hphase] at htake
    cases a with
    | worker | capture | lose => cases ha
    | own inp => cases htake
    | call op inp => cases op <;> first | exact ⟨inp, rfl⟩ | cases htake
  | poll | drainEventfd | next | leave => simp [step, hphase] at hs

/-- Where an operation runs, the loop lets it go on. -/
theorem take_own (hw : Woken capacity c liveConfig r) (hbusy : r.machine.owner ≠ .idle)
    (inp : Input) : r.phase.take (.own inp) = some r.phase := by
  cases hphase : r.phase with
  | polling | polled | completing | ticking => exact absurd (hw.rest (by rw [hphase]; rfl)) hbusy
  | lines | publishing | previewing | left => rfl

theorem init_woken : Woken capacity c liveConfig (init capacity c liveConfig) := by
  refine ⟨Lib.Reachable.refl _, fun _ => rfl, ?_⟩
  rintro - - (h | ⟨h, -⟩)
  · exact absurd rfl h
  · exact absurd rfl h

/-! ## The session machine in the loop -/

theorem step_machine {a : LoopAct} (hs : r.step a = some r') :
    Stutters Machine.step r.machine a.act? r'.machine := by
  cases step_moves hs with
  | session _ hstep => exact .move hstep
  | loop hact hmachine _ _ _ =>
    rw [hact, hmachine]
    exact .stay

/-- A run of the daemon, as one of the session machine. -/
def machineOf (b : Behaviour step) : Behaviour Machine.step :=
  b.project RunLoop.machine LoopAct.act? fun _ _ _ hs => step_machine hs

section Fair

variable {b : Behaviour step}

theorem machineOf_takes {A : Act → Prop} {i : Nat} {a : Act} (ha : b.act i = some (.session a))
    (hclass : A a) : (machineOf b).Takes A i :=
  ⟨a, by simp [machineOf, Behaviour.project, ha, LoopAct.act?], hclass⟩

theorem state_woken (hinit : b.state 0 = init capacity c liveConfig) (i : Nat) :
    Woken capacity c liveConfig (b.state i) :=
  Behaviour.always (P := Woken capacity c liveConfig) (hinit ▸ init_woken)
    (fun _ _ _ hw hs => step_woken hw hs) i

/-- Fairness to the loop's thread is fairness to the operation it is in. -/
theorem machineOf_continues (hinit : b.state 0 = init capacity c liveConfig)
    (hmain : b.WeaklyFair LoopAct.ByMain) : (machineOf b).WeaklyFair Act.Continues := by
  intro i
  obtain ⟨j, hij, hnext⟩ := hmain i
  refine ⟨j, hij, ?_⟩
  have hw := state_woken hinit j
  by_cases hidle : (b.state j).machine.owner = .idle
  · refine .inr ?_
    rintro ⟨_, ⟨inp, rfl⟩, hsome⟩
    have hnone : (b.state j).machine.step (.own inp) = none := by simp only [Machine.step, hidle]
    rw [show (machineOf b).state j = (b.state j).machine from rfl, hnone] at hsome
    cases hsome
  · rcases hnext with ⟨a, ha, hclass⟩ | hno
    · obtain ⟨inp, rfl⟩ := (step_moves (Behaviour.step_of_act ha)).own hw hclass hidle
      exact .inl (machineOf_takes ha ⟨inp, rfl⟩)
    · refine .inr ?_
      rintro ⟨_, ⟨inp, rfl⟩, hsome⟩
      refine hno ⟨.session (.own inp), rfl, ?_⟩
      obtain ⟨t, ht⟩ := Option.isSome_iff_exists.mp hsome
      have hstep : (b.state j).machine.step (.own inp) = some t := ht
      simp [step, take_own hw hidle, hstep]

theorem machineOf_byWorker
    (hworker : b.WeaklyFair fun a => ∃ result, a = .session (.worker result)) :
    (machineOf b).WeaklyFair Act.ByWorker := by
  intro i
  obtain ⟨j, hij, hnext⟩ := hworker i
  refine ⟨j, hij, ?_⟩
  rcases hnext with ⟨_, ha, result, rfl⟩ | hno
  · exact .inl (machineOf_takes ha ⟨result, rfl⟩)
  · refine .inr ?_
    rintro ⟨_, ⟨result, rfl⟩, hsome⟩
    refine hno ⟨.session (.worker result), ⟨result, rfl⟩, ?_⟩
    obtain ⟨t, ht⟩ := Option.isSome_iff_exists.mp hsome
    have hstep : (b.state j).machine.step (.worker result) = some t := ht
    have htake : (b.state j).phase.take (.worker result) = some (b.state j).phase := by
      cases (b.state j).phase <;> rfl
    simp [step, htake, hstep]

/-! ## The loop keeps turning -/

theorem state_ne_left (hinit : b.state 0 = init capacity c liveConfig)
    (hstay : ∀ i, b.act i ≠ some .leave) (i : Nat) : (b.state i).phase ≠ .left := by
  refine Behaviour.stays (P := fun r : RunLoop => r.phase ≠ .left) ?_ (Nat.zero_le i) ?_
  · intro j a hphase ha hleft
    cases step_moves (Behaviour.step_of_act ha) with
    | session htake _ =>
      rcases LoopPhase.take_follows htake with heq | ⟨-, hne⟩
      · exact hphase (heq ▸ hleft)
      · exact hne hleft
    | loop _ _ _ hleave _ =>
      rw [hleave.mpr hleft] at ha
      exact hstay j ha
  · rw [hinit]
    exact LoopPhase.noConfusion

/-- A phase that is left is left to one that follows it. -/
theorem follows_of_ne {i k : Nat} (hik : i ≤ k) (hne : (b.state k).phase ≠ (b.state i).phase) :
    ∃ j, i ≤ j ∧ (b.state i).phase.follows (b.state j).phase = true := by
  refine (Behaviour.reached_or_holds (P := fun r : RunLoop => r.phase = (b.state i).phase)
    (Q := fun r : RunLoop => (b.state i).phase.follows r.phase = true) ?_ hik rfl).resolve_right hne
  intro j a ha hphase _
  rw [← hphase]
  exact (step_moves (Behaviour.step_of_act ha)).follows.symm

/-- Between two operations, the loop's thread moves next in the phase it
is in. -/
theorem main_next (hmain : b.WeaklyFair LoopAct.ByMain) {p : LoopPhase} (hleft : p ≠ .left)
    {i : Nat} (hphase : (b.state i).phase = p) (hidle : (b.state i).machine.owner = .idle) :
    ∃ j, i ≤ j ∧ ((b.state j).phase = p ∧ (b.state j).machine.owner = .idle) ∧
      b.Takes LoopAct.ByMain j := by
  refine Behaviour.exists_takes (P := fun r : RunLoop => r.phase = p ∧ r.machine.owner = .idle)
    hmain ?_ ?_ ⟨hphase, hidle⟩
  · intro j hj
    exact main_enabled hj.2 (hj.1 ▸ hleft)
  · intro j a ha hclass hj
    obtain ⟨hsame, howner⟩ := (step_moves (Behaviour.step_of_act ha)).other hclass
    exact ⟨hsame.trans hj.1, howner.trans hj.2⟩

/-- Every phase ends. That of the lines does because `poll_once` returns. -/
theorem phase_ends (hinit : b.state 0 = init capacity c liveConfig)
    (hmain : b.WeaklyFair LoopAct.ByMain)
    (hworker : b.WeaklyFair fun a => ∃ result, a = .session (.worker result))
    (hstay : ∀ i, b.act i ≠ some .leave)
    (hreturns : b.LeadsTo (fun r => r.phase = .lines) fun r => r.phase ≠ .lines) (i : Nat) :
    ∃ k, i ≤ k ∧ (b.state k).phase ≠ (b.state i).phase := by
  by_cases hlines : (b.state i).phase = .lines
  · rw [hlines]
    exact hreturns i hlines
  have hleft := state_ne_left hinit hstay i
  -- the operation the loop is in returns first
  obtain ⟨j, hij, hidle⟩ := Machine.idle_recurs (b := machineOf b) (congrArg RunLoop.machine hinit)
    (machineOf_continues hinit hmain) (machineOf_byWorker hworker) i
  by_cases hphase : (b.state j).phase = (b.state i).phase
  · obtain ⟨k, hjk, ⟨hk, hidle'⟩, a, ha, hclass⟩ := main_next hmain hleft hphase hidle
    have hmoves := step_moves (Behaviour.step_of_act ha)
    refine ⟨k + 1, by omega, ?_⟩
    rw [← hk]
    exact hmoves.leaves hclass hidle' (hk ▸ hlines) (hk ▸ hleft)
  · exact ⟨j, hij, hphase⟩

/-- **The loop keeps turning**: `poll_completed` is called again and
again. -/
theorem pollCompleted_recurs (hinit : b.state 0 = init capacity c liveConfig)
    (hmain : b.WeaklyFair LoopAct.ByMain)
    (hworker : b.WeaklyFair fun a => ∃ result, a = .session (.worker result))
    (hstay : ∀ i, b.act i ≠ some .leave)
    (hreturns : b.LeadsTo (fun r => r.phase = .lines) fun r => r.phase ≠ .lines) (i : Nat) :
    ∃ j, i ≤ j ∧ (machineOf b).Takes (fun a => ∃ inp, a = .call .pollCompleted inp) j := by
  -- each phase is nearer to the call than the one before it
  have hcompleting : ∀ n i, (b.state i).phase.distance ≤ n →
      ∃ j, i ≤ j ∧ (b.state j).phase = .completing := by
    intro n
    induction n with
    | zero =>
      intro i hn
      refine ⟨i, Nat.le_refl i, ?_⟩
      cases hp : (b.state i).phase <;> rw [hp] at hn <;> first | rfl | cases hn
    | succ n ih =>
      intro i hn
      by_cases hp : (b.state i).phase = .completing
      · exact ⟨i, Nat.le_refl i, hp⟩
      · obtain ⟨k, hik, hne⟩ := phase_ends hinit hmain hworker hstay hreturns i
        obtain ⟨j, hij, hfollows⟩ := follows_of_ne hik hne
        have hlt := LoopPhase.distance_lt hfollows hp (state_ne_left hinit hstay j)
        obtain ⟨l, hjl, hl⟩ := ih j (by omega)
        exact ⟨l, Nat.le_trans hij hjl, hl⟩
  obtain ⟨j, hij, hj⟩ := hcompleting _ i (Nat.le_refl _)
  obtain ⟨k, hjk, hk, a, ha, hclass⟩ := main_next hmain LoopPhase.noConfusion hj
    ((state_woken hinit j).rest (by rw [hj]; rfl))
  obtain ⟨inp, rfl⟩ := completing_act hk.1 hclass (Behaviour.step_of_act ha)
  exact ⟨k, Nat.le_trans hij hjk, machineOf_takes ha ⟨inp, rfl⟩⟩

/-- **Every recording gets its outcome.** The daemon runs on, neither
thread is held up for ever, and `poll_once` returns from the clients each
time: once `stop_session()` has answered that a recording is queued, the
log comes to hold exactly one outcome for it, and that stays so. -/
theorem queued_recording_reported (hinit : b.state 0 = init capacity c liveConfig)
    (hmain : b.WeaklyFair LoopAct.ByMain)
    (hworker : b.WeaklyFair fun a => ∃ result, a = .session (.worker result))
    (hstay : ∀ i, b.act i ≠ some .leave)
    (hreturns : b.LeadsTo (fun r => r.phase = .lines) fun r => r.phase ≠ .lines)
    {i position : Nat} {id : SessionId}
    (hqueued : .stopSession (.queuedJob id position) ∈ (b.state i).machine.returns) :
    ∃ j, i ≤ j ∧ ∀ k, j ≤ k →
      ((b.state k).machine.log.filterMap Event.outcome?).count id = 1 := by
  have hm : (machineOf b).state 0 = Machine.init capacity c liveConfig :=
    congrArg RunLoop.machine hinit
  exact Machine.accepted_reported (b := machineOf b) hm (machineOf_continues hinit hmain)
    (machineOf_byWorker hworker) (pollCompleted_recurs hinit hmain hworker hstay hreturns)
    ((Machine.state_reachable hm i).answered.queued id position hqueued)

end Fair

/-- The result of `resultBeforePoll` is published, and the loop goes on. -/
def dictationStem : List LoopAct :=
  resultBeforePoll ++ [.poll true, .drainEventfd, .next, .session (.call .pollCompleted {}),
    .session (.own {}), .session (.own {}), .session (.own {}), .session (.own {}),
    .session (.own {}), .next, .session (.call .tick {}), .next]

/-- A turn of the loop in which nothing happens. -/
def quietTurn : List LoopAct :=
  [.poll false, .session (.call .pollCompleted {}), .session (.own {}), .session (.own {}),
    .session (.own {}), .next, .session (.call .tick {}), .next]

def dictated : RunLoop := (Lib.run step (init 1 {} {}) dictationStem).getD (init 1 {} {})

/-- At the head of the loop, after these returns. -/
def quiet (rs : List Return) : RunLoop :=
  { dictated with machine := { dictated.machine with returns := rs } }

theorem dictation_lasso : Behaviour.Lasso step (init 1 {} {}) (fun r => ∃ rs, r = quiet rs)
    dictationStem quietTurn where
  enters := ⟨_, rfl, _, rfl⟩
  returns := by
    rintro _ ⟨rs, rfl⟩
    exact ⟨_, rfl, _, rfl⟩
  turn_ne := List.cons_ne_nil _ _

theorem queued_recording_reported_dictation :
    ∃ b : Behaviour step, .stopSession (.queuedJob 1 0) ∈ (b.state 8).machine.returns ∧
      ∃ j, 8 ≤ j ∧ ∀ k, j ≤ k →
        ((b.state k).machine.log.filterMap Event.outcome?).count 1 = 1 := by
  have hqueued : .stopSession (.queuedJob 1 0) ∈
      (dictation_lasso.behaviour.state 8).machine.returns := by
    decide
  refine ⟨dictation_lasso.behaviour, hqueued, ?_⟩
  refine queued_recording_reported (b := dictation_lasso.behaviour) rfl ?_ ?_ ?_ ?_ hqueued
  · intro i
    obtain ⟨j, hij, hj⟩ := dictation_lasso.takes (a := .poll false) (by simp [quietTurn]) i
    exact ⟨j, hij, .inl ⟨_, hj, trivial⟩⟩
  · intro i
    obtain ⟨j, hij, rs, hj⟩ := dictation_lasso.recurs i
    refine ⟨j, hij, .inr ?_⟩
    rintro ⟨_, ⟨result, rfl⟩, hsome⟩
    rw [hj] at hsome
    cases hsome
  · intro i hleave
    rcases dictation_lasso.act_mem hleave with h | h
    · simp [dictationStem, resultBeforePoll] at h
    · simp [quietTurn] at h
  · intro i _
    obtain ⟨j, hij, rs, hj⟩ := dictation_lasso.recurs i
    exact ⟨j, hij, by rw [hj]; exact LoopPhase.noConfusion⟩

end RunLoop

end YoruSpeech

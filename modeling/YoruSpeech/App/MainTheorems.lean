/-
YoruSpeech.App.MainTheorems — the process from its first object to its last
destructor, over every interleaving of its threads.

* `Running` — what holds at the `n`-th statement of `main`: which objects
  are alive, what the session domain has come to, who may still call whom.
* `Unwinding` — what holds once `main` has returned, while the destructors
  run.
* `nothing_dangles` — no step of any thread touches an object that is gone
  or a whisper context that is not allocated, and nothing is left behind at
  the end.
-/
import Mathlib.Tactic.IntervalCases
import YoruSpeech.App.Main
import YoruSpeech.Session.CaptureTheorems
import YoruSpeech.Session.ProgressTheorems

namespace YoruSpeech

/-! ## The operations at the end of `main` -/

namespace Machine

variable {m m' : Machine} {capacity : Nat} {c : Configuration}
  {liveConfig : LiveTranscriberConfig} {op : Op}

/-- A section of one of them ends it or stays in it. Of the three only
`cancel_session()` touches the capture state, and leaves it idle. -/
theorem own_closing (hop : op.serves m.owner = true) (hclosing : op.ofShutdown = true)
    {inp : Input} (hs : m.step (.own inp) = some m') :
    (m'.owner = .idle ∨ op.serves m'.owner = true) ∧
      (op ≠ .cancelSession ∧ m'.manager.state = m.manager.state ∨
        m'.owner = .idle ∧ m'.manager.state = .idle) := by
  cases ho : m.owner with
  | idle | ticking | recutting | decoding | undefined =>
    rw [ho] at hop
    cases op <;> first | exact Bool.noConfusion hclosing | exact Bool.noConfusion hop
  | inside f =>
    rw [ho] at hop
    simp only [step, ho] at hs
    cases f with
    | starting | recorded | enqueued | cancelled =>
      cases op <;> first | exact Bool.noConfusion hclosing | exact Bool.noConfusion hop
    | discarding =>
      obtain rfl : op = .cancelSession := by cases op <;> first | rfl | cases hop
      simp only [resume, Option.some.injEq] at hs
      subst hs
      simp [apply, SessionManager.discardSession]
    | drained results =>
      obtain rfl : op = .pollCompleted := by cases op <;> first | rfl | cases hop
      simp only [resume, Option.some.injEq] at hs
      subst hs
      exact ⟨.inr rfl, .inl ⟨Op.noConfusion, rfl⟩⟩
    | announcing starts results =>
      obtain rfl : op = .pollCompleted := by cases op <;> first | rfl | cases hop
      simp only [resume, Option.some.injEq] at hs
      subst hs
      cases starts with
      | nil => exact ⟨.inr rfl, .inl ⟨Op.noConfusion, rfl⟩⟩
      | cons id rest => exact ⟨.inr rfl, .inl ⟨Op.noConfusion, rfl⟩⟩
    | reporting results count =>
      obtain rfl : op = .pollCompleted := by cases op <;> first | rfl | cases hop
      simp only [resume, Option.some.injEq] at hs
      subst hs
      cases results with
      | nil => exact ⟨.inl rfl, .inl ⟨Op.noConfusion, rfl⟩⟩
      | cons job rest =>
        obtain ⟨id, result⟩ := job
        cases result with
        | transcript t => exact ⟨.inr rfl, .inl ⟨Op.noConfusion, rfl⟩⟩
        | error e => exact ⟨.inr rfl, .inl ⟨Op.noConfusion, rfl⟩⟩
    | stopping dropped =>
      obtain rfl : op = .shutdown := by cases op <;> first | rfl | cases hop
      simp only [resume, Option.some.injEq] at hs
      subst hs
      exact ⟨.inr rfl, .inl ⟨Op.noConfusion, rfl⟩⟩
    | aborted dropped =>
      obtain rfl : op = .shutdown := by cases op <;> first | rfl | cases hop
      simp only [resume] at hs
      split at hs
      · split at hs
        · cases hs
          exact ⟨.inr rfl, .inl ⟨Op.noConfusion, rfl⟩⟩
        · cases hs
      · cases hs
        exact ⟨.inr rfl, .inl ⟨Op.noConfusion, rfl⟩⟩
    | dropping todo dropped =>
      obtain rfl : op = .shutdown := by cases op <;> first | rfl | cases hop
      simp only [resume, Option.some.injEq] at hs
      subst hs
      cases todo with
      | nil => exact ⟨.inl rfl, .inl ⟨Op.noConfusion, rfl⟩⟩
      | cons id rest => exact ⟨.inr rfl, .inl ⟨Op.noConfusion, rfl⟩⟩

/-- Calling one of them. -/
theorem call_closing (hcap : Captured m) (hclosing : op.ofShutdown = true) {inp : Input}
    (hs : m.step (.call op inp) = some m') :
    (m'.owner = .idle ∨ op.serves m'.owner = true) ∧
      (op = .cancelSession → m'.owner = .idle → m'.manager.state = .idle) ∧
      (op ≠ .cancelSession → m'.manager.state = m.manager.state) ∧
      (op = .shutdown → m'.manager.queue.stopping = true) := by
  simp only [step, Option.ite_none_right_eq_some, Option.some.injEq] at hs
  obtain ⟨hidle, rfl⟩ := hs
  cases op with
  | startSession | stopSession | cancelJob | configure | tick => cases hclosing
  | pollCompleted => exact ⟨.inr rfl, by simp, fun _ => rfl, by simp⟩
  | shutdown => exact ⟨.inr rfl, by simp, fun _ => rfl, fun _ => rfl⟩
  | cancelSession =>
    simp only [begin]
    rcases SessionManager.cancelSession_cases (captured_idle hcap hidle) with
      ⟨hstate, _, hnext⟩ | ⟨_, _, -, -, -, hnext⟩
    · rw [hnext]
      exact ⟨.inl rfl, fun _ _ => hstate, fun h => absurd rfl h, by simp⟩
    · rw [hnext]
      refine ⟨.inr (by simp [apply, Op.serves]), fun _ h => ?_, fun h => absurd rfl h, by simp⟩
      simp [apply] at h

end Machine

namespace Program

variable {s : MainStartup} {p q : Program} {n : Nat}

/-! ## The statements of `main` -/

/-- Where each statement stands. -/
inductive At : Nat → Statement → Prop
  | construct {n : Nat} {object : Object} (hlt : n < 11)
      (hspawn : (object == .sessionManager) = decide (n = 7)) : At n (.construct object)
  | load : At 6 .loadConfiguredModel
  | start : At 11 .start
  | ring : At 12 (.setActivityCallback true)
  | loop : At 13 .loop
  | cancel : At 14 (.call .cancelSession)
  | shutdown : At 15 (.call .shutdown)
  | unring : At 16 (.setActivityCallback false)
  | poll : At 17 (.call .pollCompleted)
  | stop : At 18 .stop

theorem at_of_getElem? {statement : Statement} (h : mainBody[n]? = some statement) :
    At n statement := by
  have hlt : n < 19 := (List.getElem?_eq_some_iff.mp h).1
  interval_cases n <;> cases h <;> first
    | exact .construct (by decide) (by decide)
    | constructor

theorem At.call_cases {op : Op} (h : At n (.call op)) :
    op.ofShutdown = true ∧ (n = 14 ∧ op = .cancelSession ∨ n = 15 ∧ op = .shutdown ∨
      n = 17 ∧ op = .pollCompleted) := by
  cases h <;> simp [Op.ofShutdown]

theorem getElem?_of_drop {statement : Statement} {after : List Statement}
    (h : mainBody.drop n = statement :: after) :
    mainBody[n]? = some statement ∧ after = mainBody.drop (n + 1) := by
  refine ⟨?_, ?_⟩
  · rw [← List.head?_drop, h, List.head?_cons]
  · rw [← List.tail_drop, h, List.tail_cons]

/-- The objects before the `n`-th statement, the last one first. -/
def stackAt (n : Nat) : List Object := ((mainBody.take n).filterMap Statement.object?).reverse

theorem stackAt_succ {statement : Statement} (h : mainBody[n]? = some statement) :
    stackAt (n + 1) = statement.object?.toList ++ stackAt n := by
  simp only [stackAt, List.take_add_one, h, Option.toList_some, List.filterMap_append,
    List.reverse_append]
  cases hobject : statement.object? with
  | none => simp [hobject]
  | some object => simp [hobject]

theorem stackAt_mono {k : Nat} (hnk : n ≤ k) {object : Object} (h : object ∈ stackAt n) :
    object ∈ stackAt k := by
  simp only [stackAt, List.mem_reverse, List.mem_filterMap] at h ⊢
  obtain ⟨statement, hmem, hobject⟩ := h
  exact ⟨statement, List.take_subset_take_left mainBody hnk hmem, hobject⟩

/-- From `ipc_service.start()` on every object is there. -/
theorem mem_stackAt (hn : 11 ≤ n) (object : Object) : object ∈ stackAt n :=
  stackAt_mono hn (by cases object <;> decide)

theorem touch_eq {objects : List Object} (h : ∀ o ∈ objects, o ∈ p.alive) :
    p.touch objects = p := by
  have hnone : (objects.any fun o => !p.alive.contains o) = false := by
    rw [List.any_eq_false]
    intro o ho
    simpa using h o ho
  rw [touch, hnone, Bool.or_false]

/-! ## Up to the return of `main` -/

/-- What holds at the `n`-th statement. -/
structure Running (s : MainStartup) (n : Nat) (p : Program) : Prop where
  status : p.status = none
  rest : p.rest = mainBody.drop n
  alive : p.alive = stackAt n
  reachable : Machine.Reachable s.capacity s.configuration s.liveConfig p.machine
  fresh : n < 13 → p.machine = Machine.init s.capacity s.configuration s.liveConfig
  idle : n ≠ 13 → p.called = false → p.machine.owner = .idle
  inside : p.called = true → ∃ op, At n (.call op) ∧
    (p.machine.owner = .idle ∨ op.serves p.machine.owner = true)
  cancelled : 15 ≤ n ∨ n = 14 ∧ p.called = true ∧ p.machine.owner = .idle →
    p.machine.manager.state = .idle
  stopping : 16 ≤ n ∨ n = 15 ∧ p.called = true → p.machine.manager.queue.stopping = true
  spawned : p.spawned = decide (8 ≤ n)
  ringing : p.ringing = true → 13 ≤ n ∧ n ≤ 16
  fetched : p.fetched.isSome = true → p.machine.worker.announcing = true
  fetchedRinging : p.fetched = some true → 13 ≤ n
  owns : WhisperBackend.Owns p.whisper p.backend
  fault : p.fault = false

/-- What holds while the destructors run. -/
structure Unwinding (p : Program) : Prop where
  status : p.status.isSome = true
  alive : ∃ k, p.alive = (stackAt 11).drop k
  owner : p.machine.owner = .idle
  device : p.machine.manager.recordingManager.device.initialized = false
  worker : p.machine.worker = .exited ∨
    p.machine.worker = .waiting ∧ p.machine.manager.queue.pending = [] ∧
      .sessionManager ∈ p.alive
  joined : p.machine.manager.queue.joinable = false → p.machine.worker = .exited
  fetched : p.fetched = none
  owns : WhisperBackend.Owns p.whisper p.backend
  freed : .speechBackend ∈ p.alive ∨ p.whisper.live = []
  serving : .ipcService ∈ p.alive ∨ p.serving = false
  fault : p.fault = false

/-! ## The threads while `main` runs -/

/-- The context the backend holds is allocated. -/
theorem enterFull_eq (howns : WhisperBackend.Owns p.whisper p.backend) (samples : List Sample)
    (request : TranscriptionRequest) :
    ∃ calls, p.enterFull samples request =
      { p with whisper := { p.whisper with calls := calls } } := by
  unfold enterFull
  cases hprepare : p.backend.prepareFull samples request with
  | inl e => exact ⟨p.whisper.calls, rfl⟩
  | inr call =>
    have hlive : call.ctx ∈ p.whisper.live := by
      rw [howns.1, (WhisperBackend.prepareFull_call hprepare).1]
      simp
    simp only [Whisper.full, hlive, if_true]
    exact ⟨_, rfl⟩

theorem leaveFull_eq (howns : WhisperBackend.Owns p.whisper p.backend) : p.leaveFull = p := by
  have hnone : (p.backend.ctx.any fun ctx => !p.whisper.live.contains ctx) = false := by
    rw [howns.1]
    cases p.backend.ctx <;> simp
  rw [leaveFull, hnone, Bool.or_false]

/-- What a step of the threads leaves to `main`. -/
structure Same (p q : Program) : Prop where
  status : q.status = p.status
  rest : q.rest = p.rest
  alive : q.alive = p.alive
  called : q.called = p.called
  spawned : q.spawned = p.spawned
  ringing : q.ringing = p.ringing
  fault : q.fault = p.fault

/-- A step of the session domain during the loop, or in a call at the end
of `main`. -/
theorem Running.moved (h : Running s n p) (hsame : Same p q) {a : Act}
    (hstep : p.machine.step a = some q.machine) (hn : 13 ≤ n)
    (howner : a.byOwner = true → n = 13 ∨ ∃ inp, a = .own inp)
    (hfetched : q.fetched.isSome = true → q.machine.worker.announcing = true)
    (howns : WhisperBackend.Owns q.whisper q.backend) : Running s n q := by
  -- outside the loop the owner is inside the operation `main` called
  have hclosing : a.byOwner = true → n ≠ 13 → ∃ op inp, At n (.call op) ∧ a = .own inp ∧
      op.serves p.machine.owner = true := by
    intro hby hne
    obtain ⟨inp, rfl⟩ := (howner hby).resolve_left hne
    have hbusy : p.machine.owner ≠ .idle := by
      intro hidle
      simp [Machine.step, hidle] at hstep
    cases hcalled : p.called with
    | false => exact absurd (h.idle hne hcalled) hbusy
    | true =>
      obtain ⟨op, hat, hserves⟩ := h.inside hcalled
      exact ⟨op, inp, hat, rfl, hserves.resolve_left hbusy⟩
  have hother : a.byOwner = false → Machine.Aside p.machine q.machine :=
    fun hby => Machine.step_aside hby hstep
  refine ⟨hsame.status.trans h.status, hsame.rest.trans h.rest, hsame.alive.trans h.alive,
    h.reachable.snoc hstep, fun hlt => absurd hlt (by omega), ?_, ?_, ?_, ?_,
    hsame.spawned.trans h.spawned, ?_, hfetched, fun _ => hn, howns, hsame.fault.trans h.fault⟩
  · intro hne hcalled
    rw [hsame.called] at hcalled
    cases hby : a.byOwner with
    | false => exact (hother hby).owner.trans (h.idle hne hcalled)
    | true =>
      obtain ⟨op, inp, -, rfl, hserves⟩ := hclosing hby hne
      exact absurd (h.idle hne hcalled) (Op.serves_ne_idle hserves)
  · intro hcalled
    rw [hsame.called] at hcalled
    obtain ⟨op, hat, hplace⟩ := h.inside hcalled
    refine ⟨op, hat, ?_⟩
    cases hby : a.byOwner with
    | false => exact (hother hby).owner.symm ▸ hplace
    | true =>
      have hne : n ≠ 13 := by
        have hcases := hat.call_cases.2
        omega
      obtain ⟨op', inp, hat', rfl, hserves⟩ := hclosing hby hne
      have hop : op' = op := by
        have h₁ := hat.call_cases.2
        have h₂ := hat'.call_cases.2
        rcases h₁ with ⟨h₁, rfl⟩ | ⟨h₁, rfl⟩ | ⟨h₁, rfl⟩ <;>
          rcases h₂ with ⟨h₂, rfl⟩ | ⟨h₂, rfl⟩ | ⟨h₂, rfl⟩ <;> first | rfl | omega
      subst hop
      exact (Machine.own_closing hserves hat.call_cases.1 hstep).1
  · intro hlate
    have hne : n ≠ 13 := by omega
    cases hby : a.byOwner with
    | false =>
      rw [(hother hby).state]
      rw [hsame.called, (hother hby).owner] at hlate
      exact h.cancelled hlate
    | true =>
      obtain ⟨op, inp, hat, rfl, hserves⟩ := hclosing hby hne
      rcases (Machine.own_closing hserves hat.call_cases.1 hstep).2 with ⟨hop, hstate⟩ | ⟨-, hstate⟩
      · have hcases := hat.call_cases.2
        have hlater : 15 ≤ n := by
          rcases hcases with ⟨-, rfl⟩ | ⟨hn', -⟩ | ⟨hn', -⟩
          · exact absurd rfl hop
          · omega
          · omega
        exact hstate.trans (h.cancelled (.inl hlater))
      · exact hstate
  · intro hlate
    rw [hsame.called] at hlate
    exact ((h.reachable.move hstep).stays h.reachable.halting (h.stopping hlate)).stopping
  · rw [hsame.ringing]
    exact h.ringing

theorem Running.looping (h : Running s n p) (hloop : p.looping = true) : n = 13 := by
  have hhead : (mainBody.drop n).head? = some .loop := by
    rw [← h.rest]
    simpa [Program.looping, h.status] using hloop
  rw [List.head?_drop] at hhead
  cases at_of_getElem? hhead
  rfl

/-- Before the loop nothing moves. -/
theorem Running.started (h : Running s n p) {a : Act} {machine : Machine}
    (ha : a.byOwner = true → p.looping = true ∨ p.called = true)
    (hstep : p.machine.step a = some machine) : 13 ≤ n := by
  by_contra hlt
  have hinit := h.fresh (by omega)
  rw [hinit] at hstep
  have hquiet : a.byOwner = true → False := by
    intro hby
    rcases ha hby with hloop | hcalled
    · have heq := h.looping hloop
      omega
    · obtain ⟨op, hat, -⟩ := h.inside hcalled
      have hcases := hat.call_cases.2
      omega
  cases a with
  | call | own => exact hquiet rfl
  | worker result => cases hstep
  | capture buffer => cases hstep
  | lose => cases hstep

theorem Running.touch (h : Running s n p) (hn : 11 ≤ n) (objects : List Object) :
    p.touch objects = p :=
  touch_eq fun o _ => h.alive ▸ mem_stackAt hn o

theorem allows_owner {a : Act} (hallows : p.allows a = true) (hby : a.byOwner = true) :
    p.looping = true ∨ p.called = true ∧ ∃ inp, a = .own inp := by
  cases a with
  | worker | capture | lose => cases hby
  | call op inp =>
    simp only [allows, Bool.and_eq_true] at hallows
    exact .inl hallows.1
  | own inp =>
    simp only [allows] at hallows
    split at hallows
    · cases hallows
    · rcases Bool.or_eq_true_iff.mp hallows with hloop | hcalled
      · exact .inl hloop
      · exact .inr ⟨hcalled, inp, rfl⟩

theorem enter_eq (howns : WhisperBackend.Owns p.whisper p.backend)
    (decode : Option (List Sample × TranscriptionRequest)) :
    ∃ calls, p.enter decode = { p with whisper := { p.whisper with calls := calls } } := by
  cases decode with
  | none => exact ⟨p.whisper.calls, rfl⟩
  | some decode => exact enterFull_eq howns decode.1 decode.2

/-- A copy of the callback is made and called between the worker's two
steps around it. -/
theorem fetchedAfter_announcing {a : Act} {machine : Machine}
    (hstep : p.machine.step a = some machine)
    (hfetched : p.fetched.isSome = true → p.machine.worker.announcing = true)
    (h : (p.fetchedAfter a).isSome = true) : machine.worker.announcing = true := by
  cases a with
  | worker result => cases h
  | call | own | capture | lose =>
    rw [Machine.step_worker_same (by simp [Act.ByWorker]) hstep]
    exact hfetched h

theorem Running.session (h : Running s n p) {a : Act} (hs : p.session a = some q) :
    Running s n q := by
  simp only [Program.session, Option.ite_none_right_eq_some, Option.map_eq_some_iff] at hs
  obtain ⟨hallows, machine, hstep, rfl⟩ := hs
  have hn : 13 ≤ n :=
    h.started (fun hby => (allows_owner hallows hby).imp_right And.left) hstep
  rw [h.touch (by omega)]
  obtain ⟨calls, heq⟩ := enter_eq (p := { p.advance machine with fetched := p.fetchedAfter a })
    h.owns (entered p.machine machine)
  rw [heq]
  exact h.moved ⟨rfl, rfl, rfl, rfl, rfl, rfl, rfl⟩ hstep hn
    (fun hby => (allows_owner hallows hby).imp h.looping And.right)
    (fetchedAfter_announcing hstep h.fetched) h.owns

theorem Running.fetch (h : Running s n p) (hs : p.fetch = some q) : Running s n q := by
  simp only [Program.fetch, Option.ite_none_right_eq_some, Bool.and_eq_true,
    Option.some.injEq] at hs
  obtain ⟨⟨⟨-, hannouncing⟩, -⟩, rfl⟩ := hs
  have hn : 13 ≤ n := by
    by_contra hlt
    rw [h.fresh (by omega)] at hannouncing
    cases hannouncing
  rw [touch_eq fun o _ => h.alive ▸ mem_stackAt (by omega) o]
  exact { h with
    fetched := fun _ => hannouncing
    fetchedRinging := fun hset => (h.ringing (Option.some.inj hset)).1 }

/-- `transcribe` returns. -/
theorem Running.decoded (h : Running s n p) {answer : FullAnswer}
    (hs : p.decoded answer = some q) : Running s n q := by
  simp only [Program.decoded] at hs
  split at hs
  · rename_i job hworker
    obtain ⟨machine, hstep, rfl⟩ := Option.map_eq_some_iff.mp hs
    have hn : 13 ≤ n := h.started (fun hby => by cases hby) hstep
    rw [h.touch (by omega), leaveFull_eq h.owns]
    refine h.moved ⟨rfl, rfl, rfl, rfl, rfl, rfl, rfl⟩ hstep hn (fun hby => by cases hby) ?_ h.owns
    intro hfetched
    have hannouncing := h.fetched hfetched
    rw [hworker] at hannouncing
    cases hannouncing
  · cases hs

/-- `transcribe_partial` returns. -/
theorem Running.previewed (h : Running s n p) {inp : Input} {answer : FullAnswer}
    (hs : p.previewed inp answer = some q) : Running s n q := by
  simp only [Program.previewed] at hs
  split at hs
  · rename_i id window howner
    obtain ⟨machine, hstep, rfl⟩ := Option.map_eq_some_iff.mp hs
    have hn : 13 ≤ n := by
      by_contra hlt
      rw [h.fresh (by omega)] at howner
      cases howner
    rw [h.touch (by omega), leaveFull_eq h.owns]
    refine h.moved ⟨rfl, rfl, rfl, rfl, rfl, rfl, rfl⟩ hstep hn (fun _ => .inr ⟨_, rfl⟩) ?_ h.owns
    show p.fetched.isSome = true → machine.worker.announcing = true
    rw [Machine.step_worker_same (by simp [Act.ByWorker]) hstep]
    exact h.fetched
  · cases hs

/-! ## The statements -/

/-- `load_configured_model` leaves the backend with the one context there
is, or with none, and touches nothing else. -/
theorem loadConfiguredModel_owns (howns : WhisperBackend.Owns p.whisper p.backend)
    {load : LoadAnswer} (hs : p.loadConfiguredModel s load = some q) :
    ∃ w b, q = { p with whisper := w, backend := b } ∧ WhisperBackend.Owns w b := by
  unfold loadConfiguredModel at hs
  split at hs
  · cases hs
    exact ⟨p.whisper, p.backend, rfl, howns⟩
  · rename_i model _
    obtain ⟨hfresh, hs⟩ := Option.ite_none_left_eq_some.mp hs
    have hnew : ∀ ctx, load.ctx = some ctx → ctx ∉ p.whisper.live := by
      intro ctx hctx hmem
      exact hfresh (by simp [hctx, hmem])
    obtain ⟨loaded, hload, howned⟩ := howns.loadModel model hnew
    rw [hload] at hs
    cases hs
    exact ⟨_, _, rfl, howned⟩

/-- `main` goes on to the next statement. -/
theorem Running.onward (h : Running s n p) (hidle : p.machine.owner = .idle)
    (hstate : n = 14 → p.machine.manager.state = .idle)
    (hstop : n = 15 → p.machine.manager.queue.stopping = true)
    (hmachine : q.machine = p.machine) (hstatus : q.status = none)
    (hrest : q.rest = mainBody.drop (n + 1)) (halive : q.alive = stackAt (n + 1))
    (hcalled : q.called = false) (hspawned : q.spawned = decide (8 ≤ n + 1))
    (hringing : q.ringing = true → 13 ≤ n + 1 ∧ n + 1 ≤ 16) (hfetched : q.fetched = p.fetched)
    (howns : WhisperBackend.Owns q.whisper q.backend) (hfault : q.fault = false) :
    Running s (n + 1) q where
  status := hstatus
  rest := hrest
  alive := halive
  reachable := hmachine ▸ h.reachable
  fresh hlt := hmachine.trans (h.fresh (by omega))
  idle _ _ := (congrArg Machine.owner hmachine).trans hidle
  inside hset := by rw [hcalled] at hset; cases hset
  cancelled hlate := by
    rw [hcalled] at hlate
    rw [hmachine]
    by_cases hn : n = 14
    · exact hstate hn
    · exact h.cancelled (.inl (by simp at hlate; omega))
  stopping hlate := by
    rw [hcalled] at hlate
    rw [hmachine]
    by_cases hn : n = 15
    · exact hstop hn
    · exact h.stopping (.inl (by simp at hlate; omega))
  spawned := hspawned
  ringing := hringing
  fetched := by rw [hfetched, hmachine]; exact h.fetched
  fetchedRinging hset := Nat.le_succ_of_le (h.fetchedRinging (hfetched ▸ hset))
  owns := howns
  fault := hfault

/-- Outside the loop and the calls the owner is idle. -/
theorem Running.not_called (h : Running s n p) (hn : n ≠ 14 ∧ n ≠ 15 ∧ n ≠ 17) :
    p.called = false := by
  cases hcalled : p.called with
  | false => rfl
  | true =>
    obtain ⟨op, hat, -⟩ := h.inside hcalled
    have hcases := hat.call_cases.2
    omega

/-- The call of `main` begins. -/
theorem Running.calls (h : Running s n p) {op : Op} (hat : At n (.call op)) {machine : Machine}
    (hstep : p.machine.step (.call op {}) = some machine) :
    Running s n ({ p with called := true }.advance machine) := by
  obtain ⟨hop, hcases⟩ := hat.call_cases
  obtain ⟨hinside, hcancel, hkeep, hshut⟩ :=
    Machine.call_closing h.reachable.captured hop hstep
  have hworker : machine.worker = p.machine.worker := Machine.step_worker rfl hstep
  refine ⟨h.status, h.rest, h.alive, h.reachable.snoc hstep, fun hlt => absurd hlt (by omega),
    fun _ hset => absurd hset (by simp [advance]), fun _ => ⟨op, hat, hinside⟩, ?_, ?_, h.spawned,
    h.ringing, ?_, h.fetchedRinging, h.owns, h.fault⟩
  · intro hlate
    rcases hcases with ⟨hn, rfl⟩ | ⟨hn, rfl⟩ | ⟨hn, rfl⟩
    · have hidle : machine.owner = .idle := by
        rcases hlate with hlate | ⟨-, -, hidle⟩
        · omega
        · exact hidle
      exact hcancel rfl hidle
    · exact (hkeep (by simp)).trans (h.cancelled (.inl (by omega)))
    · exact (hkeep (by simp)).trans (h.cancelled (.inl (by omega)))
  · intro hlate
    rcases hcases with ⟨hn, rfl⟩ | ⟨hn, rfl⟩ | ⟨hn, rfl⟩
    · omega
    · exact hshut rfl
    · exact ((h.reachable.move hstep).stays h.reachable.halting
        (h.stopping (.inl (by omega)))).stopping
  · show p.fetched.isSome = true → machine.worker.announcing = true
    rw [hworker]
    exact h.fetched

/-- The two stretches of the process. -/
def Sound (s : MainStartup) (p : Program) : Prop := (∃ n, Running s n p) ∨ Unwinding p

/-- The call of `main` has returned, or it begins. -/
theorem Running.carryOut_call (h : Running s n p) {op : Op} (hat : mainBody[n]? = some (.call op))
    {load : LoadAnswer} {listens : Bool}
    (hs : p.carryOut s load listens (mainBody.drop (n + 1)) (.call op) = some q) : Sound s q := by
  have hcall := at_of_getElem? hat
  obtain ⟨-, hcases⟩ := hcall.call_cases
  simp only [carryOut] at hs
  split at hs
  · rename_i hcalled
    obtain ⟨hidle, hq⟩ := Option.ite_none_right_eq_some.mp hs
    cases hq
    refine .inl ⟨n + 1, h.onward hidle (fun hn => ?_) (fun hn => ?_) rfl h.status rfl ?_ rfl
      ?_ (fun hset => ?_) rfl h.owns h.fault⟩
    · exact h.cancelled (.inr ⟨hn, hcalled, hidle⟩)
    · exact h.stopping (.inr ⟨hn, hcalled⟩)
    · rw [stackAt_succ hat]
      exact h.alive
    · rw [h.spawned]
      simp only [decide_eq_decide]
      omega
    · have hring := h.ringing hset
      omega
  · obtain ⟨machine, hstep, rfl⟩ := Option.map_eq_some_iff.mp hs
    have hrun := h.calls hcall hstep
    rw [hrun.touch (by omega)]
    exact .inl ⟨n, hrun⟩

theorem Running.not_fetched (h : Running s n p) (hquiet : p.machine.worker.announcing = false) :
    p.fetched = none := by
  cases hfetched : p.fetched with
  | none => rfl
  | some set =>
    have hannouncing := h.fetched (by rw [hfetched]; rfl)
    rw [hquiet] at hannouncing
    cases hannouncing

/-- Where the session is cancelled and the queue shut down, the device is
closed and the worker has left its loop. -/
theorem Running.ended (h : Running s n p) (hn : 17 ≤ n) (hidle : p.machine.owner = .idle) :
    p.machine.manager.recordingManager.device.initialized = false ∧
      p.machine.worker = .exited := by
  have hstate := h.cancelled (.inl (by omega))
  have hstop := h.stopping (.inl (by omega))
  have hhalt := h.reachable.halting
  refine ⟨?_, ?_⟩
  · have hnone : p.machine.manager.recordingManager.activeSession = none := by
      cases Machine.captured_idle h.reachable.captured hidle with
      | idle _ _ hnone => exact hnone
      | recording _ hrec _ _ _ => rw [hstate] at hrec; cases hrec
      | error _ herr _ _ _ _ => rw [hstate] at herr; cases herr
    have hwired : p.machine.manager.recordingManager.device.initialized =
        p.machine.manager.recordingManager.activeSession.isSome := h.reachable.wired.initialized
    rw [hwired, hnone]
    rfl
  · rcases hhalt.joining hstop with hjoined | ⟨_, ho⟩ | ⟨_, ho⟩
    · exact hhalt.joined hjoined
    · rw [hidle] at ho; cases ho
    · rw [hidle] at ho; cases ho

/-- `main` carries out its next statement. -/
theorem Running.next (h : Running s n p) {load : LoadAnswer} {listens : Bool}
    (hs : p.next s load listens = some q) : Sound s q := by
  simp only [Program.next, h.status, h.rest] at hs
  cases hd : mainBody.drop n with
  | nil => rw [hd] at hs; cases hs
  | cons statement after =>
    obtain ⟨hat, rfl⟩ := getElem?_of_drop hd
    rw [hd] at hs
    have hstack := stackAt_succ hat
    cases at_of_getElem? hat with
    | construct hlt hspawn =>
      cases hs
      have hidle := h.idle (by omega) (h.not_called (by omega))
      refine .inl ⟨n + 1, h.onward hidle (by omega) (by omega) rfl h.status rfl ?_
        (h.not_called (by omega)) ?_ (fun hset => absurd (h.ringing hset) (by omega)) rfl h.owns
        h.fault⟩
      · rw [hstack, h.alive]
        rfl
      · show (p.spawned || _) = _
        rw [h.spawned, hspawn, ← Bool.decide_or, decide_eq_decide]
        omega
    | load =>
      have hidle := h.idle (by omega) (h.not_called (by omega))
      simp only [carryOut] at hs
      rw [touch_eq (by rw [h.alive]; decide)] at hs
      obtain ⟨w, b, rfl, howns⟩ :=
        loadConfiguredModel_owns (p := { p with rest := mainBody.drop 7 }) h.owns hs
      exact .inl ⟨7, h.onward hidle (by omega) (by omega) rfl h.status rfl
        (h.alive.trans hstack.symm) (h.not_called (by omega)) h.spawned
        (fun hset => absurd (h.ringing hset) (by omega)) rfl howns h.fault⟩
    | start =>
      have hidle := h.idle (by omega) (h.not_called (by omega))
      simp only [carryOut, h.touch (Nat.le_refl 11)] at hs
      split at hs
      · cases hs
        exact .inl ⟨12, h.onward hidle (by omega) (by omega) rfl h.status rfl
          (h.alive.trans hstack.symm) (h.not_called (by omega)) h.spawned
          (fun hset => absurd (h.ringing hset) (by omega)) rfl h.owns h.fault⟩
      · cases hs
        have hinit := h.fresh (by omega)
        have hworker : p.machine.worker = .waiting := by
          rw [hinit]
          rfl
        refine .inr ⟨rfl, ⟨0, h.alive⟩, hidle, ?_, .inr ⟨hworker, ?_, ?_⟩, ?_,
          h.not_fetched (by rw [hworker]; rfl), h.owns, .inl ?_, .inl ?_, h.fault⟩
        · show p.machine.manager.recordingManager.device.initialized = false
          rw [hinit]
          rfl
        · show p.machine.manager.queue.pending = []
          rw [hinit]
          rfl
        · exact h.alive ▸ mem_stackAt (Nat.le_refl 11) _
        · show p.machine.manager.queue.joinable = false → _
          rw [hinit]
          exact fun hjoinable => Bool.noConfusion hjoinable
        · exact h.alive ▸ mem_stackAt (Nat.le_refl 11) _
        · exact h.alive ▸ mem_stackAt (Nat.le_refl 11) _
    | ring =>
      have hidle := h.idle (by omega) (h.not_called (by omega))
      simp only [carryOut] at hs
      rw [touch_eq fun o _ => h.alive ▸ mem_stackAt (by omega) o] at hs
      cases hs
      exact .inl ⟨13, h.onward hidle (by omega) (by omega) rfl h.status rfl
        (h.alive.trans hstack.symm) (h.not_called (by omega)) h.spawned (fun _ => by omega) rfl
        h.owns h.fault⟩
    | loop => cases hs
    | cancel => exact h.carryOut_call hat hs
    | shutdown => exact h.carryOut_call hat hs
    | unring =>
      have hidle := h.idle (by omega) (h.not_called (by omega))
      simp only [carryOut] at hs
      rw [touch_eq fun o _ => h.alive ▸ mem_stackAt (by omega) o] at hs
      cases hs
      exact .inl ⟨17, h.onward hidle (by omega) (by omega) rfl h.status rfl
        (h.alive.trans hstack.symm) (h.not_called (by omega)) h.spawned
        (fun hset => absurd hset Bool.noConfusion) rfl h.owns h.fault⟩
    | poll => exact h.carryOut_call hat hs
    | stop =>
      simp only [carryOut] at hs
      rw [touch_eq fun o _ => h.alive ▸ mem_stackAt (by omega) o] at hs
      cases hs
      have hidle := h.idle (by omega) (h.not_called (by omega))
      obtain ⟨hdevice, hworker⟩ := h.ended (by omega) hidle
      exact .inr ⟨rfl, ⟨0, h.alive⟩, hidle, hdevice, .inl hworker, fun _ => hworker,
        h.not_fetched (by rw [hworker]; rfl), h.owns, .inl (h.alive ▸ mem_stackAt (by omega) _),
        .inr rfl, h.fault⟩

theorem Running.leave (h : Running s n p) (hs : p.leave = some q) : Sound s q := by
  simp only [Program.leave, h.status, h.rest] at hs
  cases hd : mainBody.drop n with
  | nil => rw [hd] at hs; cases hs
  | cons statement after =>
    obtain ⟨hat, rfl⟩ := getElem?_of_drop hd
    rw [hd] at hs
    cases at_of_getElem? hat with
    | loop =>
      obtain ⟨hidle, hq⟩ := Option.ite_none_right_eq_some.mp hs
      cases hq
      exact .inl ⟨14, h.onward hidle (by omega) (by omega) rfl rfl rfl
        (h.alive.trans (stackAt_succ hat).symm) (h.not_called (by omega)) h.spawned
        (fun _ => by omega) rfl h.owns h.fault⟩
    | _ => cases hs

/-! ## The destructors -/

/-- The session manager goes before the backend its worker calls. -/
theorem speechBackend_below {k : Nat} (h : .sessionManager ∈ (stackAt 11).drop k) :
    .speechBackend ∈ (stackAt 11).drop k := by
  by_cases hk : k < 10
  · interval_cases k <;> first | decide | (revert h; decide)
  · rw [List.drop_eq_nil_of_le (by rw [show (stackAt 11).length = 10 by decide]; omega)] at h
    cases h

/-- While the destructors run, no thread has a step but the worker its way
out. -/
theorem Unwinding.step_exits (h : Unwinding p) {a : Act} {machine : Machine}
    (hallows : p.allows a = true) (hstep : p.machine.step a = some machine) :
    (∃ result, a = .worker result) ∧ machine = { p.machine with worker := .exited } ∧
      .sessionManager ∈ p.alive := by
  cases a with
  | call op inp =>
    have hloop : p.looping = false := by
      obtain ⟨result, hstatus⟩ := Option.isSome_iff_exists.mp h.status
      simp [looping, hstatus]
    simp [allows, hloop] at hallows
  | own inp => simp [Machine.step, h.owner] at hstep
  | capture buffer => simp [Machine.step, Machine.captureStep, h.device] at hstep
  | lose => simp [Machine.step, Machine.loseStep, h.device] at hstep
  | worker result =>
    refine ⟨⟨result, rfl⟩, ?_⟩
    rcases h.worker with hw | ⟨hw, hpending, hmem⟩
    · simp [Machine.step, Machine.workerStep, hw] at hstep
    · refine ⟨?_, hmem⟩
      simp only [Machine.step, Machine.workerStep, hw, TranscriptionQueue.pop, hpending] at hstep
      split at hstep
      · exact (Option.some.inj hstep).symm
      · cases hstep

theorem Unwinding.entered_exited (h : Unwinding p) :
    entered p.machine { p.machine with worker := .exited } = none := by
  simp [entered, h.owner]

theorem Unwinding.session (h : Unwinding p) {a : Act} (hs : p.session a = some q) :
    Unwinding q := by
  simp only [Program.session, Option.ite_none_right_eq_some, Option.map_eq_some_iff] at hs
  obtain ⟨hallows, machine, hstep, rfl⟩ := hs
  obtain ⟨⟨result, rfl⟩, rfl, hmem⟩ := h.step_exits hallows hstep
  obtain ⟨k, hk⟩ := h.alive
  have halive : ∀ o ∈ p.touches (.worker result), o ∈ p.alive := by
    simp only [touches, h.fetched, List.mem_cons]
    rintro o (rfl | rfl | ho)
    · exact hmem
    · exact hk ▸ speechBackend_below (hk ▸ hmem)
    · cases ho
  rw [touch_eq halive, h.entered_exited]
  exact { h with
    worker := .inl rfl
    joined := fun _ => rfl
    fetched := rfl }

/-- An object that is not on top stays. -/
theorem mem_tail_of_ne {o top : Object} {below : List Object} (halive : p.alive = top :: below)
    (h : o ∈ p.alive) (hne : o ≠ top) : o ∈ p.alive.tail := by
  rw [halive] at h ⊢
  exact (List.mem_cons.mp h).resolve_left hne

/-- An object other than the session manager and the backend is gone. -/
theorem Unwinding.drop (h : Unwinding p) {top : Object} {below : List Object}
    (halive : p.alive = top :: below)
    (hworker : p.machine.worker = .exited ∨ top ≠ .sessionManager)
    (hfreed : p.whisper.live = [] ∨ top ≠ .speechBackend)
    (hserving : p.serving = false ∨ top ≠ .ipcService) : Unwinding p.drop := by
  obtain ⟨k, hk⟩ := h.alive
  refine { h with alive := ⟨k + 1, ?_⟩, worker := ?_, freed := ?_, serving := ?_ }
  · show p.alive.tail = _
    rw [hk, List.tail_drop]
  · rcases h.worker with hw | ⟨hw, hpending, hmem⟩
    · exact .inl hw
    · rcases hworker with hw' | hne
      · exact .inl hw'
      · exact .inr ⟨hw, hpending, mem_tail_of_ne halive hmem hne.symm⟩
  · rcases hfreed with hlive | hne
    · exact .inr hlive
    · exact h.freed.imp_left fun hmem => mem_tail_of_ne halive hmem hne.symm
  · rcases hserving with hserving | hne
    · exact .inr hserving
    · exact h.serving.imp_left fun hmem => mem_tail_of_ne halive hmem hne.symm

theorem Unwinding.destroyQueue (h : Unwinding p) {below : List Object}
    (halive : p.alive = .sessionManager :: below) (hs : p.destroyQueue = some q) : Unwinding q := by
  obtain ⟨k, hk⟩ := h.alive
  have hbackend : .speechBackend ∈ p.alive :=
    hk ▸ speechBackend_below (hk ▸ halive ▸ List.mem_cons_self)
  unfold Program.destroyQueue at hs
  split at hs
  · cases hs
    exact { h with worker := h.worker.imp_right fun ⟨hw, _, hmem⟩ => ⟨hw, rfl, hmem⟩ }
  · cases hs
    rw [touch_eq (by simpa [advance] using hbackend)]
    exact { h with owns := h.owns }
  · simp only [] at hs
    split at hs
    · split at hs
      · rename_i hw
        cases hs
        have hjoined : Unwinding { p with machine := { p.machine with
            manager := { p.machine.manager with
              queue := { p.machine.manager.queue with joinable := false } } } } :=
          { h with joined := fun _ => hw }
        exact hjoined.drop halive (.inl hw) (.inr (by simp)) (.inr (by simp))
      · cases hs
    · rename_i hjoinable
      cases hs
      exact h.drop halive (.inl (h.joined (by simpa using hjoinable))) (.inr (by simp))
        (.inr (by simp))

theorem Unwinding.unwind (h : Unwinding p) (hs : p.unwind = some q) : Unwinding q := by
  obtain ⟨result, hstatus⟩ := Option.isSome_iff_exists.mp h.status
  cases halive : p.alive with
  | nil => simp [Program.unwind, hstatus, halive] at hs
  | cons top below =>
    have hs : p.destroy top = some q := by simpa only [Program.unwind, hstatus, halive] using hs
    cases top with
    | ipcService =>
      cases hs
      have hclosed : Unwinding { p with serving := false } := { h with serving := .inr rfl }
      exact hclosed.drop halive (.inr (by simp)) (.inr (by simp)) (.inl rfl)
    | sessionManager => exact h.destroyQueue halive hs
    | speechBackend =>
      simp only [destroy, WhisperBackend.Owns.unloadModel h.owns] at hs
      cases hs
      have hunloaded : Unwinding { p with
          whisper := { p.whisper with live := [] }
          backend := { p.backend with ctx := none, currentModel := none } } :=
        { h with owns := ⟨rfl, rfl⟩, freed := .inr rfl }
      exact hunloaded.drop halive (.inr (by simp)) (.inl rfl) (.inr (by simp))
    | captureDevice =>
      cases hs
      have hclosed : Unwinding p.closeDevice := by
        refine { h with device := ?_ }
        simp [closeDevice, CaptureDevice.stop, h.device]
      exact hclosed.drop halive (.inr (by simp)) (.inr (by simp)) (.inr (by simp))
    | logger | eventBus | configurationManager | recordingManager | liveTranscriber
    | autoClipboard =>
      cases hs
      exact h.drop halive (.inr (by simp)) (.inr (by simp)) (.inr (by simp))

theorem Unwinding.step (h : Unwinding p) {a : MainAct} (hs : p.step s a = some q) :
    Unwinding q ∧ (p.unwind = some q ∨ ∃ act, p.session act = some q) := by
  obtain ⟨result, hstatus⟩ := Option.isSome_iff_exists.mp h.status
  cases a with
  | next load listens => simp [Program.step, Program.next, hstatus] at hs
  | leave => simp [Program.step, Program.leave, hstatus] at hs
  | session act => exact ⟨h.session hs, .inr ⟨act, hs⟩⟩
  | fetch =>
    rcases h.worker with hw | ⟨hw, -⟩ <;>
      simp [Program.step, Program.fetch, hw, Worker.announcing] at hs
  | decoded answer =>
    rcases h.worker with hw | ⟨hw, -⟩ <;> simp [Program.step, Program.decoded, hw] at hs
  | previewed inp answer => simp [Program.step, Program.previewed, h.owner] at hs
  | unwind => exact ⟨h.unwind hs, .inl hs⟩

theorem step_sound (h : Sound s p) {a : MainAct} (hs : p.step s a = some q) : Sound s q := by
  rcases h with ⟨n, h⟩ | h
  · cases a with
    | next load listens => exact h.next hs
    | leave => exact h.leave hs
    | session a => exact .inl ⟨n, h.session hs⟩
    | fetch => exact .inl ⟨n, h.fetch hs⟩
    | decoded answer => exact .inl ⟨n, h.decoded hs⟩
    | previewed inp answer => exact .inl ⟨n, h.previewed hs⟩
    | unwind => simp [step, Program.unwind, h.status] at hs
  · exact .inr (h.step hs).1

theorem init_running : Running s 0 (init s) where
  status := rfl
  rest := rfl
  alive := rfl
  reachable := Lib.Reachable.refl _
  fresh _ := rfl
  idle _ _ := rfl
  inside h := Bool.noConfusion h
  cancelled h := absurd h (by omega)
  stopping h := absurd h (by omega)
  spawned := rfl
  ringing h := Bool.noConfusion h
  fetched h := Bool.noConfusion h
  fetchedRinging h := absurd h (by simp [init])
  owns := ⟨rfl, rfl⟩
  fault := rfl

theorem Reachable.sound (h : Reachable s p) : Sound s p :=
  Lib.Reachable.invariant h (.inl ⟨0, init_running⟩) fun _ _ _ _ hsound hs => step_sound hsound hs

/-- **Nothing dangles.** In every run of the process, whichever way `main`
returns, no step of any thread touches an object that has been destroyed,
nor a whisper context that is not allocated, and there is never more than
one. When the destructors have run, the worker has left its loop, the
capture device is closed, the server does not listen and no context is
left. -/
theorem nothing_dangles (h : Reachable s p) :
    p.fault = false ∧ p.whisper.live.length ≤ 1 ∧
    (p.status.isSome = true → p.alive = [] →
      p.machine.worker = .exited ∧
      p.machine.manager.recordingManager.device.initialized = false ∧
      p.serving = false ∧ p.whisper.live = []) := by
  have howned : WhisperBackend.Owns p.whisper p.backend → p.whisper.live.length ≤ 1 := by
    rintro ⟨hlive, -⟩
    rw [hlive]
    cases p.backend.ctx <;> simp
  rcases h.sound with ⟨n, hrun⟩ | hunwind
  · refine ⟨hrun.fault, howned hrun.owns, fun hstatus => ?_⟩
    rw [hrun.status] at hstatus
    cases hstatus
  · refine ⟨hunwind.fault, howned hunwind.owns, fun _ hnil => ?_⟩
    have hworker := hunwind.worker.resolve_right (by simp [hnil])
    exact ⟨hworker, hunwind.device, hunwind.serving.resolve_left (by simp [hnil]),
      hunwind.freed.resolve_left (by simp [hnil])⟩

/-- The daemon loads a model, turns once and is asked to stop. -/
def stopped : List MainAct :=
  List.replicate 13 (MainAct.next { ctx := some 7 } true) ++
    ([.session (.call .tick {}), .leave, .next {} true, .next {} true, .next {} true,
      .session (.own {}), .session (.worker (.error ⟨[]⟩)), .session (.own {}),
      .session (.own {}), .next {} true, .next {} true, .next {} true, .session (.own {}),
      .session (.own {}), .session (.own {}), .next {} true, .next {} true] : List MainAct) ++
    List.replicate 12 MainAct.unwind

def stoppedStartup : MainStartup :=
  { capacity := 1, modelsDirectory := str "/m", entries := [⟨str "base.bin", true⟩] }

theorem nothing_dangles_stopped :
    ∃ p, Lib.run (step stoppedStartup) (init stoppedStartup) stopped = some p ∧
      p.status = some 0 ∧ p.alive = [] ∧ p.whisper.live = [] := by
  have hrun : Lib.run (step stoppedStartup) (init stoppedStartup) stopped = some _ := rfl
  exact ⟨_, hrun, rfl, rfl, ((nothing_dangles ⟨stopped, hrun⟩).2.2 rfl rfl).2.2.2⟩

end Program

end YoruSpeech

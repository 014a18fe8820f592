/-
YoruSpeech.Session.ProgressTheorems — nothing in the session domain waits
for ever.

The runs here are infinite, and weakly fair to the owner's sections and to
the worker's steps: neither thread is held up for ever where it could go
on. That `transcribe` returns is part of the latter.

* `calls_return` — every operation of the owner returns, `shutdown()`
  included, which joins the worker;
* `accepted_reported` — when `poll_completed` is called again and again,
  every accepted recording gets its outcome.

`Owner.rank` counts down inside an operation; the worker counts down from
one job to the next.
-/
import Mathlib.Data.Prod.Lex
import YoruSpeech.Lib.Liveness
import YoruSpeech.Session.OutcomeTheorems

namespace YoruSpeech

open Lib (Behaviour Enabled Handoff)

/-! ## The threads -/

/-- The owner goes on in the operation it is in. -/
def Act.Continues (a : Act) : Prop := ∃ inp, a = .own inp

def Act.ByWorker (a : Act) : Prop := ∃ result, a = .worker result

namespace Owner

/-- Inside an operation that waits for nobody any more. Only `shutdown()`
waits, for the worker. -/
def settling : Owner → Bool
  | .idle => false
  | .undefined => false
  | .inside (.stopping _) => false
  | .inside (.aborted _) => false
  | _ => true

/-- How many sections are left: stages, and turns of the loop of this
stage. The starts `poll_completed` will publish are counted once it has
drained them. -/
def rank : Owner → Nat ×ₗ Nat
  | .inside (.recorded _ _) => toLex (2, 0)
  | .inside (.drained _) => toLex (3, 0)
  | .inside (.announcing starts _) => toLex (2, starts.length)
  | .inside (.reporting results _) => toLex (1, results.length)
  | .inside (.dropping todo _) => toLex (1, todo.length)
  | .ticking => toLex (3, 0)
  | .recutting _ _ => toLex (2, 0)
  | _ => toLex (1, 0)

end Owner

theorem stage_lt {i j : Nat} (h : i < j) (x y : Nat) : toLex (i, x) < toLex (j, y) :=
  Prod.Lex.toLex_lt_toLex.mpr (.inl h)

theorem turn_lt {x y : Nat} (h : x < y) (i : Nat) : toLex (i, x) < toLex (i, y) :=
  Prod.Lex.toLex_lt_toLex.mpr (.inr ⟨rfl, h⟩)

/-- How many steps the worker is away from its exit, once it may not pop
another job. -/
def Worker.distance : Worker → Nat
  | .popped _ => 5
  | .transcribing _ => 4
  | .decoded _ _ => 3
  | .finished => 2
  | .waiting => 1
  | .exited => 0

/-! ## Operations -/

namespace Op

/-- The value is one this operation returns. -/
def returns : Op → Return → Bool
  | .startSession, .startSession _ => true
  | .stopSession, .stopSession _ => true
  | .pollCompleted, .pollCompleted _ => true
  | .cancelSession, .cancelSession _ => true
  | .cancelJob id, .cancelJob id' _ => id == id'
  | .shutdown, .shutdown _ => true
  | .configure _, .configure => true
  | .tick, .tick => true
  | _, _ => false

/-- The owner is inside this operation. -/
def serves : Op → Owner → Bool
  | .startSession, .inside .starting => true
  | .stopSession, .inside (.recorded _ _) => true
  | .stopSession, .inside (.enqueued _ _) => true
  | .cancelSession, .inside .discarding => true
  | .cancelJob id, .inside (.cancelled id') => id == id'
  | .pollCompleted, .inside (.drained _) => true
  | .pollCompleted, .inside (.announcing _ _) => true
  | .pollCompleted, .inside (.reporting _ _) => true
  | .shutdown, .inside (.stopping _) => true
  | .shutdown, .inside (.aborted _) => true
  | .shutdown, .inside (.dropping _ _) => true
  | .tick, .ticking => true
  | .tick, .recutting _ _ => true
  | .tick, .decoding _ _ => true
  | _, _ => false

/-- A section of the operation ends with its return, or closer to its
end. -/
inductive Section (op : Op) (o : Owner) : Next → Prop
  | done {g : SessionManager} {e : Option Event} {r : Return} (hreturn : op.returns r = true) :
      Section op o (.done g e r)
  | more {g : SessionManager} {e : Option Event} {f : Frame}
      (hserves : op.serves (.inside f) = true) (hsettling : (Owner.inside f).settling = true)
      (hrank : (Owner.inside f).rank < o.rank) : Section op o (.more g e f)

theorem serves_ne_idle {op : Op} {o : Owner} (h : op.serves o = true) : o ≠ .idle := by
  rintro rfl
  cases op <;> cases h

/-- The owner is between two operations, or in one, or has run into an
empty `std::optional`. -/
theorem exists_serves (o : Owner) : o = .idle ∨ o = .undefined ∨ ∃ op : Op, op.serves o = true := by
  cases o with
  | idle => exact .inl rfl
  | undefined => exact .inr (.inl rfl)
  | ticking | recutting | decoding => exact .inr (.inr ⟨.tick, rfl⟩)
  | inside f =>
    refine .inr (.inr ?_)
    cases f with
    | starting => exact ⟨.startSession, rfl⟩
    | recorded | enqueued => exact ⟨.stopSession, rfl⟩
    | discarding => exact ⟨.cancelSession, rfl⟩
    | cancelled id => exact ⟨.cancelJob id, by simp [serves]⟩
    | drained | announcing | reporting => exact ⟨.pollCompleted, rfl⟩
    | stopping | aborted | dropping => exact ⟨.shutdown, rfl⟩

end Op

namespace Machine

variable {m m' t : Machine} {capacity : Nat} {c : Configuration}
  {liveConfig : LiveTranscriberConfig} {id : SessionId} {op : Op} {rs : List Return}

/-- The operation was called when `rs` had been returned and has not
returned. -/
structure Inside (op : Op) (rs : List Return) (m : Machine) : Prop where
  serves : op.serves m.owner = true
  returns : m.returns = rs

/-- It has returned. -/
structure Returned (op : Op) (rs : List Return) (m : Machine) : Prop where
  idle : m.owner = .idle
  returns : ∃ r, m.returns = rs ++ [r] ∧ op.returns r = true

/-! ## One section -/

theorem apply_section {o : Owner} {next : Next} (h : op.Section o next) :
    Returned op m.returns (m.apply next) ∨
      Inside op m.returns (m.apply next) ∧ (m.apply next).owner.settling = true ∧
        (m.apply next).owner.rank < o.rank := by
  cases h with
  | @done g e r hreturn => exact .inl ⟨by simp [apply], r, by simp [apply], hreturn⟩
  | more hserves hsettling hrank =>
    refine .inr ⟨⟨?_, by simp [apply]⟩, ?_, ?_⟩
    · simpa [apply] using hserves
    · simpa [apply] using hsettling
    · simpa [apply] using hrank

/-- The section at a frame of an operation that waits for nobody. -/
theorem resume_section {f : Frame} (hcap : Captured m) (ho : m.owner = .inside f)
    (hop : op.serves (.inside f) = true) (hf : (Owner.inside f).settling = true) (inp : Input) :
    ∃ t next, m.resume f inp = some (apply t next) ∧ t.returns = m.returns ∧
      op.Section (.inside f) next := by
  rw [Captured, ho] at hcap
  cases f with
  | stopping | aborted => cases hf
  | starting =>
    obtain rfl : op = .startSession := by cases op <;> first | rfl | cases hop
    refine ⟨_, _, rfl, rfl, ?_⟩
    rcases SessionManager.startRecording_cases (SessionManager.inactive_of_starting hcap)
      inp.device inp.now with ⟨_, _, -, hcase⟩ | ⟨_, _, -, -, -, hcase⟩
    · exact hcase ▸ .done rfl
    · exact hcase ▸ .done rfl
  | recorded id recording =>
    obtain rfl : op = .stopSession := by cases op <;> first | rfl | cases hop
    refine ⟨_, _, rfl, rfl, ?_⟩
    rcases SessionManager.enqueueRecording_cases hcap inp.now with
      ⟨_, _, -, -, -, -, hcase⟩ | ⟨-, -, hcase⟩
    · exact hcase ▸ .done rfl
    · exact hcase ▸ .more rfl rfl (stage_lt (by decide) _ _)
  | enqueued id position =>
    obtain rfl : op = .stopSession := by cases op <;> first | rfl | cases hop
    exact ⟨_, _, rfl, rfl, .done rfl⟩
  | discarding =>
    obtain rfl : op = .cancelSession := by cases op <;> first | rfl | cases hop
    exact ⟨_, _, rfl, rfl, .done rfl⟩
  | cancelled id =>
    cases op with
    | cancelJob id' => exact ⟨_, _, rfl, rfl, .done hop⟩
    | _ => cases hop
  | drained results =>
    obtain rfl : op = .pollCompleted := by cases op <;> first | rfl | cases hop
    exact ⟨_, _, rfl, rfl, .more rfl rfl (stage_lt (by decide) _ _)⟩
  | announcing starts results =>
    obtain rfl : op = .pollCompleted := by cases op <;> first | rfl | cases hop
    refine ⟨_, _, rfl, rfl, ?_⟩
    cases starts with
    | nil => exact .more rfl rfl (stage_lt (by decide) _ _)
    | cons id rest => exact .more rfl rfl (turn_lt (Nat.lt_succ_self _) _)
  | reporting results count =>
    obtain rfl : op = .pollCompleted := by cases op <;> first | rfl | cases hop
    refine ⟨_, _, rfl, rfl, ?_⟩
    cases results with
    | nil => exact .done rfl
    | cons job rest =>
      obtain ⟨id, result⟩ := job
      cases result with
      | transcript t => exact .more rfl rfl (turn_lt (Nat.lt_succ_self _) _)
      | error e => exact .more rfl rfl (turn_lt (Nat.lt_succ_self _) _)
  | dropping todo dropped =>
    obtain rfl : op = .shutdown := by cases op <;> first | rfl | cases hop
    refine ⟨_, _, rfl, rfl, ?_⟩
    cases todo with
    | nil => exact .done rfl
    | cons id rest => exact .more rfl rfl (turn_lt (Nat.lt_succ_self _) _)

/-- The sections of `tick()`. -/
theorem tick_section (ho : m.owner.inTick = true) (inp : Input) :
    ∃ t, m.step (.own inp) = some t ∧ (Returned .tick m.returns t ∨
      Inside .tick m.returns t ∧ t.owner.settling = true ∧ t.owner.rank < m.owner.rank) := by
  have hend : ∀ t : Machine, t.returns = m.returns → Returned .tick m.returns t.endTick :=
    fun t ht => ⟨rfl, .tick, by rw [endTick, ht], rfl⟩
  cases howner : m.owner with
  | ticking =>
    refine ⟨m.tickWindow inp.steadyNow, by simp only [step, howner], ?_⟩
    unfold tickWindow
    split
    · exact .inl (hend m rfl)
    · simp only []
      split
      · exact .inl (hend m rfl)
      · exact .inr ⟨⟨rfl, rfl⟩, rfl, stage_lt (by decide) _ _⟩
      · exact .inr ⟨⟨rfl, rfl⟩, rfl, stage_lt (by decide) _ _⟩
  | recutting id now =>
    refine ⟨m.tickRecut id now, by simp only [step, howner], ?_⟩
    unfold tickRecut
    simp only []
    split
    · exact .inl (hend m rfl)
    · exact .inr ⟨⟨rfl, rfl⟩, rfl, stage_lt (by decide) _ _⟩
  | decoding id window =>
    refine ⟨m.tickDecoded id window inp, by simp only [step, howner], .inl ⟨?_, .tick, ?_, rfl⟩⟩
    · simp [tickDecoded, endTick]
    · simp [tickDecoded, endTick]
  | idle | inside | undefined =>
    rw [howner] at ho
    cases ho

/-- A section of an operation that waits for nobody is possible, and it
ends the operation or brings it closer to its end. -/
theorem own_section (hcap : Captured m) (hop : op.serves m.owner = true)
    (ho : m.owner.settling = true) (inp : Input) :
    ∃ t, m.step (.own inp) = some t ∧ (Returned op m.returns t ∨
      Inside op m.returns t ∧ t.owner.settling = true ∧ t.owner.rank < m.owner.rank) := by
  cases howner : m.owner with
  | inside f =>
    rw [howner] at hop ho
    obtain ⟨t, next, hresume, hreturns, hsection⟩ := resume_section hcap howner hop ho inp
    refine ⟨t.apply next, by simp only [step, howner, hresume], ?_⟩
    rw [← hreturns]
    exact apply_section hsection
  | ticking | recutting | decoding =>
    have htick : op = .tick := by
      rw [howner] at hop
      cases op <;> first | rfl | cases hop
    rw [htick, ← howner]
    exact tick_section (by rw [howner]; rfl) inp
  | idle | undefined =>
    rw [howner] at ho
    cases ho

/-- The first section of a call. -/
theorem begin_inside (hcap : Captured m) (hidle : m.owner = .idle) (op : Op) (inp : Input) :
    Returned op m.returns (m.begin op inp) ∨ Inside op m.returns (m.begin op inp) := by
  have hcase : CaptureCase m.manager := captured_idle hcap hidle
  have hdone : ∀ {t : Machine} {g : SessionManager} {e : Option Event} {r : Return},
      t.returns = m.returns → op.returns r = true → Returned op m.returns (t.apply (.done g e r)) := by
    intro t g e r ht hr
    exact ⟨by simp [apply], r, by simp [apply, ht], hr⟩
  have hmore : ∀ {t : Machine} {g : SessionManager} {e : Option Event} {f : Frame},
      t.returns = m.returns → op.serves (.inside f) = true →
      Inside op m.returns (t.apply (.more g e f)) := by
    intro t g e f ht hf
    exact ⟨by simpa [apply] using hf, by simp [apply, ht]⟩
  cases op with
  | startSession =>
    simp only [begin]
    rcases m.manager.startSession_cases with ⟨_, _, hnext, -⟩ | ⟨-, -, hnext⟩
    · exact hnext ▸ .inl (hdone rfl rfl)
    · exact hnext ▸ .inr (hmore rfl rfl)
  | stopSession =>
    simp only [begin]
    rcases SessionManager.stopSession_cases hcase inp.now with
      ⟨-, _, hnext⟩ | ⟨_, _, _, -, -, -, -, hnext⟩ | ⟨_, _, _, -, -, -, -, -, -, hnext⟩
    · exact hnext ▸ .inl (hdone rfl rfl)
    · exact hnext ▸ .inl (hdone rfl rfl)
    · exact hnext ▸ .inr (hmore rfl rfl)
  | pollCompleted => exact .inr ⟨rfl, rfl⟩
  | cancelSession =>
    simp only [begin]
    rcases SessionManager.cancelSession_cases hcase with ⟨-, _, hnext⟩ | ⟨_, _, -, -, -, hnext⟩
    · exact hnext ▸ .inl (hdone rfl rfl)
    · exact hnext ▸ .inr (hmore rfl rfl)
  | cancelJob id =>
    simp only [begin]
    rcases m.manager.cancelJob_cases id with ⟨-, hnext⟩ | ⟨-, hnext⟩
    · exact hnext ▸ .inl (hdone rfl (by simp [Op.returns]))
    · exact hnext ▸ .inr (hmore rfl (by simp [Op.serves]))
  | shutdown => exact .inr ⟨rfl, rfl⟩
  | configure c => exact .inl ⟨hidle, .configure, rfl, rfl⟩
  | tick =>
    simp only [begin]
    unfold beginTick
    split
    · exact .inl ⟨rfl, .tick, rfl, rfl⟩
    · split
      · exact .inl ⟨rfl, .tick, rfl, rfl⟩
      · exact .inr ⟨rfl, rfl⟩

/-- Apart from its own sections nothing moves the owner inside an
operation. -/
theorem Inside.other {a : Act} (h : Inside op rs m) (ha : ¬ a.Continues)
    (hs : m.step a = some m') : Inside op rs m' ∧ m'.owner = m.owner := by
  have hback : Background m m' := by
    cases a with
    | call op' inp =>
      simp only [step, Option.ite_none_right_eq_some] at hs
      exact absurd hs.1 (Op.serves_ne_idle h.serves)
    | own inp => exact absurd ⟨inp, rfl⟩ ha
    | worker | capture | lose => exact step_background rfl hs
  exact ⟨⟨hback.owner ▸ h.serves, hback.returns.trans h.returns⟩, hback.owner⟩

/-! ## The worker -/

/-- A worker that has been told to stop has a step to take until it has
exited. -/
theorem workerStep_stopping (hstop : m.manager.queue.stopping = true) (hw : m.worker ≠ .exited)
    (result : TranscriptionResult) : (m.workerStep result).isSome = true := by
  cases hworker : m.worker with
  | exited => exact absurd hworker hw
  | waiting => simp [workerStep, hworker, hstop]
  | popped | transcribing | decoded | finished => simp [workerStep, hworker]

/-- Between two pops every step brings the worker nearer its exit. -/
theorem workerStep_distance {result : TranscriptionResult} (hs : m.workerStep result = some m')
    (hpop : m.worker = .waiting → m.manager.queue.stopping = true) :
    m'.worker.distance < m.worker.distance := by
  cases hworker : m.worker with
  | exited => simp [workerStep, hworker] at hs
  | waiting =>
    simp only [workerStep, hworker, hpop hworker, if_true, Option.some.injEq] at hs
    subst hs
    exact Nat.lt_succ_self _
  | popped | transcribing | decoded | finished =>
    simp only [workerStep, hworker, Option.some.injEq] at hs
    subst hs
    exact Nat.lt_succ_self _

/-- Only the worker moves the worker. -/
theorem step_worker_same {a : Act} (ha : ¬ a.ByWorker) (hs : m.step a = some m') :
    m'.worker = m.worker := by
  cases a with
  | call | own => exact step_worker rfl hs
  | worker result => exact absurd ⟨result, rfl⟩ ha
  | capture buffer =>
    simp only [step, captureStep, Option.ite_none_right_eq_some, Option.some.injEq] at hs
    obtain ⟨-, rfl⟩ := hs
    rfl
  | lose =>
    simp only [step, loseStep, Option.ite_none_right_eq_some, Option.some.injEq] at hs
    obtain ⟨-, rfl⟩ := hs
    rfl

/-! ## Operations return -/

section Fair

variable {b : Behaviour step}

theorem state_reachable (hinit : b.state 0 = init capacity c liveConfig) (i : Nat) :
    Reachable capacity c liveConfig (b.state i) :=
  Behaviour.always (P := Reachable capacity c liveConfig) (hinit ▸ Lib.Reachable.refl _)
    (fun _ _ _ hr hs => hr.snoc hs) i

/-- An operation that waits for nobody returns. -/
theorem settling_leadsTo_returned (hr : ∀ i, Reachable capacity c liveConfig (b.state i))
    (hown : b.WeaklyFair Act.Continues) :
    b.LeadsTo (fun m => Inside op rs m ∧ m.owner.settling = true) (Returned op rs) := by
  have hsection : ∀ i a, b.act i = some a → a.Continues →
      Inside op rs (b.state i) ∧ (b.state i).owner.settling = true →
      Returned op rs (b.state (i + 1)) ∨
        (Inside op rs (b.state (i + 1)) ∧ (b.state (i + 1)).owner.settling = true) ∧
          (b.state (i + 1)).owner.rank < (b.state i).owner.rank := by
    rintro i a ha ⟨inp, rfl⟩ ⟨hin, hp⟩
    obtain ⟨t, ht, hend⟩ := own_section (hr i).captured hin.serves hp inp
    cases ht.symm.trans (Behaviour.step_of_act ha)
    rw [hin.returns] at hend
    exact hend.imp_right fun ⟨hin', hp', hlt⟩ => ⟨⟨hin', hp'⟩, hlt⟩
  refine Behaviour.leadsTo_of_rank (fun m => m.owner.rank) hown ?_ ?_ ?_
  · rintro i ⟨hin, hp⟩ _
    obtain ⟨t, ht, -⟩ := own_section (hr i).captured hin.serves hp {}
    exact ⟨.own {}, ⟨{}, rfl⟩, by rw [ht]; rfl⟩
  · intro i a ha hp _
    by_cases hc : a.Continues
    · exact (hsection i a ha hc hp).imp_right fun ⟨hp', hlt⟩ => ⟨hp', le_of_lt hlt⟩
    · obtain ⟨hin, howner⟩ := hp.1.other hc (Behaviour.step_of_act ha)
      rw [howner]
      exact .inr ⟨⟨hin, hp.2⟩, le_refl _⟩
  · intro i a ha hc hp _
    exact hsection i a ha hc hp

/-- `shutdown()` goes on from the lock to the join. -/
theorem stopping_leadsTo_aborted (hown : b.WeaklyFair Act.Continues) :
    b.LeadsTo (fun m => ∃ dropped, m.owner = .inside (.stopping dropped) ∧ m.returns = rs)
      (fun m => ∃ dropped, m.owner = .inside (.aborted dropped) ∧ m.returns = rs) := by
  have hdone : ∀ i a, b.act i = some a → a.Continues →
      (∃ dropped, (b.state i).owner = .inside (.stopping dropped) ∧ (b.state i).returns = rs) →
      ∃ dropped, (b.state (i + 1)).owner = .inside (.aborted dropped) ∧
        (b.state (i + 1)).returns = rs := by
    rintro i a ha ⟨inp, rfl⟩ ⟨dropped, ho, hret⟩
    have hs := Behaviour.step_of_act ha
    simp only [step, ho, resume, Option.some.injEq] at hs
    exact ⟨dropped, hs ▸ rfl, hs ▸ hret⟩
  refine Behaviour.leadsTo_of_rank (fun _ => (0 : Nat)) hown ?_ ?_ ?_
  · rintro i ⟨dropped, ho, -⟩ _
    exact ⟨.own {}, ⟨{}, rfl⟩, by simp [step, ho, resume]⟩
  · rintro i a ha ⟨dropped, ho, hret⟩ _
    by_cases hc : a.Continues
    · exact .inl (hdone i a ha hc ⟨dropped, ho, hret⟩)
    · have hin : Inside .shutdown rs (b.state i) := ⟨by rw [ho]; rfl, hret⟩
      obtain ⟨hin', howner⟩ := hin.other hc (Behaviour.step_of_act ha)
      exact .inr ⟨⟨dropped, howner.trans ho, hin'.returns⟩, Nat.le_refl 0⟩
  · intro i a ha hc hp _
    exact .inl (hdone i a ha hc hp)

/-- The owner is about to join a worker that has exited. -/
def Joinable (rs : List Return) (m : Machine) : Prop :=
  (∃ dropped, m.owner = .inside (.aborted dropped) ∧ m.returns = rs) ∧ m.worker = .exited

theorem resume_aborted (dropped : List SessionId) (hw : m.worker = .exited) (inp : Input) :
    ∃ t, m.resume (.aborted dropped) inp = some t ∧ t.returns = m.returns ∧
      t.owner = .inside (.dropping dropped dropped) := by
  unfold resume
  cases hq : m.manager.queue.joinable with
  | true =>
    simp only [hq, if_true, hw]
    exact ⟨_, rfl, rfl, rfl⟩
  | false =>
    simp only [hq, Bool.false_eq_true, if_false]
    exact ⟨_, rfl, rfl, rfl⟩

/-- The worker exits while `shutdown()` waits for it. -/
theorem aborted_leadsTo_joinable (hr : ∀ i, Reachable capacity c liveConfig (b.state i))
    (hworker : b.WeaklyFair Act.ByWorker) :
    b.LeadsTo (fun m => ∃ dropped, m.owner = .inside (.aborted dropped) ∧ m.returns = rs)
      (Joinable rs) := by
  have hstop : ∀ i, (∃ dropped, (b.state i).owner = .inside (.aborted dropped) ∧
      (b.state i).returns = rs) → (b.state i).manager.queue.stopping = true := by
    rintro i ⟨dropped, ho, -⟩
    exact (hr i).halting.inside (by rw [ho]; rfl)
  -- the owner stays at the join as long as the worker is there
  have hlasts : ∀ i a, b.act i = some a →
      (∃ dropped, (b.state i).owner = .inside (.aborted dropped) ∧ (b.state i).returns = rs) →
      ¬ Joinable rs (b.state i) →
      ∃ dropped, (b.state (i + 1)).owner = .inside (.aborted dropped) ∧
        (b.state (i + 1)).returns = rs := by
    rintro i a ha ⟨dropped, ho, hret⟩ hq
    have hw : (b.state i).worker ≠ .exited := fun hw => hq ⟨⟨dropped, ho, hret⟩, hw⟩
    have hjoin : (b.state i).manager.queue.joinable = true := by
      cases hj : (b.state i).manager.queue.joinable with
      | true => rfl
      | false => exact absurd ((hr i).halting.joined hj) hw
    have hs := Behaviour.step_of_act ha
    have hcont : ¬ a.Continues := by
      rintro ⟨inp, rfl⟩
      simp [step, ho, resume, hjoin, hw] at hs
    have hin : Inside .shutdown rs (b.state i) := ⟨by rw [ho]; rfl, hret⟩
    obtain ⟨hin', howner⟩ := hin.other hcont hs
    exact ⟨dropped, howner.trans ho, hin'.returns⟩
  refine Behaviour.leadsTo_of_rank (fun m => m.worker.distance) hworker ?_ ?_ ?_
  · intro i hp hq
    have hpresent : (b.state i).worker ≠ .exited := fun hw => hq ⟨hp, hw⟩
    exact ⟨.worker (.error ⟨[]⟩), ⟨_, rfl⟩, workerStep_stopping (hstop i hp) hpresent _⟩
  · intro i a ha hp hq
    refine .inr ⟨hlasts i a ha hp hq, ?_⟩
    by_cases hc : a.ByWorker
    · obtain ⟨result, rfl⟩ := hc
      exact Nat.le_of_lt (workerStep_distance (Behaviour.step_of_act ha) fun _ => hstop i hp)
    · rw [step_worker_same hc (Behaviour.step_of_act ha)]
  · rintro i a ha ⟨result, rfl⟩ hp hq
    exact .inr ⟨hlasts i _ ha hp hq,
      workerStep_distance (Behaviour.step_of_act ha) fun _ => hstop i hp⟩

/-- Then the join returns. -/
theorem joinable_leadsTo_settling (hown : b.WeaklyFair Act.Continues) :
    b.LeadsTo (Joinable rs) (fun m => Inside .shutdown rs m ∧ m.owner.settling = true) := by
  have hdone : ∀ i a, b.act i = some a → a.Continues → Joinable rs (b.state i) →
      Inside .shutdown rs (b.state (i + 1)) ∧ (b.state (i + 1)).owner.settling = true := by
    rintro i a ha ⟨inp, rfl⟩ ⟨⟨dropped, ho, hret⟩, hw⟩
    obtain ⟨t, ht, hreturns, howner⟩ := resume_aborted dropped hw inp
    have hs := Behaviour.step_of_act ha
    simp only [step, ho] at hs
    cases ht.symm.trans hs
    exact ⟨⟨by rw [howner]; rfl, hreturns.trans hret⟩, by rw [howner]; rfl⟩
  refine Behaviour.leadsTo_of_rank (fun _ => (0 : Nat)) hown ?_ ?_ ?_
  · rintro i ⟨⟨dropped, ho, -⟩, hw⟩ _
    obtain ⟨t, ht, -⟩ := resume_aborted dropped hw {}
    exact ⟨.own {}, ⟨{}, rfl⟩, by simp [step, ho, ht]⟩
  · rintro i a ha hp _
    by_cases hc : a.Continues
    · exact .inl (hdone i a ha hc hp)
    · obtain ⟨⟨dropped, ho, hret⟩, hw⟩ := hp
      have hs := Behaviour.step_of_act ha
      have hin : Inside .shutdown rs (b.state i) := ⟨by rw [ho]; rfl, hret⟩
      obtain ⟨hin', howner⟩ := hin.other hc hs
      have hworker : ¬ a.ByWorker := by
        rintro ⟨result, rfl⟩
        simp [step, workerStep, hw] at hs
      exact .inr ⟨⟨⟨dropped, howner.trans ho, hin'.returns⟩,
        (step_worker_same hworker hs).trans hw⟩, Nat.le_refl 0⟩
  · intro i a ha hc hp _
    exact .inl (hdone i a ha hc hp)

/-- Wherever an operation is, it returns. -/
theorem inside_leadsTo_returned (hinit : b.state 0 = init capacity c liveConfig)
    (hown : b.WeaklyFair Act.Continues) (hworker : b.WeaklyFair Act.ByWorker) :
    b.LeadsTo (Inside op rs) (Returned op rs) := by
  have hr := state_reachable hinit
  intro i hin
  have hsettle : (b.state i).owner.settling = true →
      ∃ j, i ≤ j ∧ Returned op rs (b.state j) :=
    fun hp => settling_leadsTo_returned hr hown i ⟨hin, hp⟩
  -- the two frames of `shutdown()` before the join
  have hshutdown : ∀ {d : List SessionId}, (b.state i).owner = .inside (.stopping d) ∨
      (b.state i).owner = .inside (.aborted d) → op = .shutdown := by
    have hserves := hin.serves
    rintro d (ho | ho) <;> rw [ho] at hserves <;> cases op <;> first | rfl | cases hserves
  have hjoin : b.LeadsTo _ (Returned .shutdown rs) := (aborted_leadsTo_joinable hr hworker).trans
    ((joinable_leadsTo_settling hown).trans (settling_leadsTo_returned hr hown))
  cases howner : (b.state i).owner with
  | idle => exact absurd howner (Op.serves_ne_idle hin.serves)
  | undefined =>
    have hcap := (hr i).captured
    rw [Captured, howner] at hcap
    exact hcap.elim
  | ticking | recutting | decoding => exact hsettle (congrArg Owner.settling howner)
  | inside f =>
    cases f with
    | stopping dropped =>
      obtain rfl := hshutdown (.inl howner)
      exact (stopping_leadsTo_aborted hown).trans hjoin i ⟨dropped, howner, hin.returns⟩
    | aborted dropped =>
      obtain rfl := hshutdown (.inr howner)
      exact hjoin i ⟨dropped, howner, hin.returns⟩
    | starting | recorded | enqueued | discarding | cancelled | drained | announcing | reporting
    | dropping => exact hsettle (congrArg Owner.settling howner)

/-- The owner is between two operations again and again. -/
theorem idle_recurs (hinit : b.state 0 = init capacity c liveConfig)
    (hown : b.WeaklyFair Act.Continues) (hworker : b.WeaklyFair Act.ByWorker) (i : Nat) :
    ∃ j, i ≤ j ∧ (b.state j).owner = .idle := by
  rcases Op.exists_serves (b.state i).owner with ho | ho | ⟨op, hop⟩
  · exact ⟨i, Nat.le_refl i, ho⟩
  · have hcap := (state_reachable hinit i).captured
    rw [Captured, ho] at hcap
    exact hcap.elim
  · obtain ⟨j, hij, hj⟩ := inside_leadsTo_returned hinit hown hworker i ⟨hop, rfl⟩
    exact ⟨j, hij, hj.idle⟩

/-- **Every call returns.** In a run that is fair to both threads, each
operation the owner calls returns, once, with a value of its own kind:
also `shutdown()`, which waits for the worker. -/
theorem calls_return (hinit : b.state 0 = init capacity c liveConfig)
    (hown : b.WeaklyFair Act.Continues) (hworker : b.WeaklyFair Act.ByWorker) {i : Nat}
    {inp : Input} (hcall : b.act i = some (.call op inp)) :
    ∃ j, i < j ∧ (b.state j).owner = .idle ∧
      ∃ r, (b.state j).returns = (b.state i).returns ++ [r] ∧ op.returns r = true := by
  have hs := Behaviour.step_of_act hcall
  simp only [step, Option.ite_none_right_eq_some, Option.some.injEq] at hs
  obtain ⟨hidle, hbegin⟩ := hs
  rcases begin_inside (state_reachable hinit i).captured hidle op inp with hret | hin
  · rw [hbegin] at hret
    exact ⟨i + 1, Nat.lt_succ_self i, hret.idle, hret.returns⟩
  · rw [hbegin] at hin
    obtain ⟨j, hij, hret⟩ := inside_leadsTo_returned hinit hown hworker (i + 1) hin
    exact ⟨j, hij, hret.idle, hret.returns⟩

/-- The daemon shuts down, the worker leaves its loop, and nothing else
happens but ticks. -/
def shutdownStem : List Act :=
  [.call .shutdown {}, .own {}, .worker (.error ⟨[]⟩), .own {}, .own {}]

/-- Shut down, after these returns. -/
def shutDown (rs : List Return) : Machine :=
  { after shutdownStem with returns := rs }

theorem shutdown_lasso : Behaviour.Lasso step (init TranscriptionQueue.defaultCapacity {} {})
    (fun m => ∃ rs, m = shutDown rs) shutdownStem [.call .tick {}] where
  enters := ⟨_, rfl, _, rfl⟩
  returns := by
    rintro _ ⟨rs, rfl⟩
    exact ⟨_, rfl, _, rfl⟩
  turn_ne := List.cons_ne_nil _ _

theorem calls_return_shutdown :
    ∃ b : Behaviour step, b.act 0 = some (.call .shutdown {}) ∧
      ∃ j, (b.state j).owner = .idle ∧ ∃ r, (b.state j).returns = [r] ∧
        Op.returns .shutdown r = true := by
  refine ⟨shutdown_lasso.behaviour, rfl, ?_⟩
  have hown : shutdown_lasso.behaviour.WeaklyFair Act.Continues := by
    intro i
    obtain ⟨j, hij, rs, hj⟩ := shutdown_lasso.recurs i
    refine ⟨j, hij, .inr ?_⟩
    rintro ⟨_, ⟨inp, rfl⟩, hsome⟩
    rw [hj] at hsome
    cases hsome
  have hworker : shutdown_lasso.behaviour.WeaklyFair Act.ByWorker := by
    intro i
    obtain ⟨j, hij, rs, hj⟩ := shutdown_lasso.recurs i
    refine ⟨j, hij, .inr ?_⟩
    rintro ⟨_, ⟨result, rfl⟩, hsome⟩
    rw [hj] at hsome
    cases hsome
  have hcall : shutdown_lasso.behaviour.act 0 = some (.call .shutdown {}) := rfl
  obtain ⟨j, -, hj⟩ := calls_return rfl hown hworker hcall
  exact ⟨j, hj⟩

/-! ## Accepted recordings are reported -/

theorem state_steps (hr : ∀ i, Reachable capacity c liveConfig (b.state i)) {i : Nat} {a : Act}
    (ha : b.act i = some a) :
    Lib.Steps Handoff.Step (ledgerOf (b.state i)) (ledgerOf (b.state (i + 1))) :=
  ((hr i).move (Behaviour.step_of_act ha)).simulates (hr i).captured (hr i).fresh (hr i).ledger

/-- Where a recording waits, the worker has not been told to stop and there
is a job at the front. -/
theorem Halting.front (hhalt : Halting m) (hid : id ∈ m.manager.queue.pendingIds) :
    m.manager.queue.stopping = false ∧ ∃ job rest, m.manager.queue.pending = job :: rest := by
  have hpend : m.manager.queue.pending ≠ [] := by
    intro hnil
    simp [TranscriptionQueue.pendingIds, hnil] at hid
  refine ⟨?_, List.exists_cons_of_ne_nil hpend⟩
  cases hs : m.manager.queue.stopping with
  | true => exact absurd (hhalt.emptied hs) hpend
  | false => rfl

/-- While recordings wait the worker has a step to take. -/
theorem workerStep_pending (hhalt : Halting m) (hid : id ∈ m.manager.queue.pendingIds)
    (result : TranscriptionResult) : (m.workerStep result).isSome = true := by
  obtain ⟨hstop, job, rest, hjobs⟩ := hhalt.front hid
  cases hworker : m.worker with
  | exited => rw [hhalt.exited hworker] at hstop; cases hstop
  | waiting => simp [workerStep, hworker, hstop, TranscriptionQueue.pop, hjobs]
  | popped | transcribing | decoded | finished => simp [workerStep, hworker]

/-- A step of the worker takes the job at the front, or brings the worker
nearer to that. -/
theorem workerStep_rank (hinv : Handoff.Inv (ledgerOf m)) (hhalt : Halting m)
    (hid : id ∈ m.manager.queue.pendingIds) {result : TranscriptionResult}
    (hs : m.workerStep result = some m') (hid' : id ∈ m'.manager.queue.pendingIds) :
    toLex (m'.manager.queue.pendingIds.idxOf id, m'.worker.distance) <
      toLex (m.manager.queue.pendingIds.idxOf id, m.worker.distance) := by
  cases hworker : m.worker with
  | exited => simp [workerStep, hworker] at hs
  | waiting =>
    obtain ⟨hstop, job, rest, hjobs⟩ := hhalt.front hid
    simp only [workerStep, hworker, hstop, Bool.false_eq_true, if_false, TranscriptionQueue.pop,
      hjobs, Option.some.injEq] at hs
    subst hs
    have hpend : (ledgerOf m).pending = job.sessionId :: rest.map (·.sessionId) := by
      simp [ledgerOf, TranscriptionQueue.pendingIds, hjobs]
    exact Prod.Lex.toLex_lt_toLex.mpr (.inl (hinv.idxOf_rest_lt hpend hid'))
  | popped | transcribing | decoded | finished =>
    simp only [workerStep, hworker, Option.some.injEq] at hs
    subst hs
    exact turn_lt (Nat.lt_succ_self _) _

/-- A recording that waits is taken, or withdrawn. -/
theorem accepted_leadsTo_outOfLine (hr : ∀ i, Reachable capacity c liveConfig (b.state i))
    (hworker : b.WeaklyFair Act.ByWorker) :
    b.LeadsTo (fun m => id ∈ m.history.accepted) (fun m => (ledgerOf m).OutOfLine id) := by
  have hwaits : ∀ i, id ∈ (b.state i).history.accepted → ¬ (ledgerOf (b.state i)).OutOfLine id →
      id ∈ (b.state i).manager.queue.pendingIds := by
    intro i hacc hno
    by_contra hpend
    exact hno ⟨hacc, hpend⟩
  have hacc : ∀ i a, b.act i = some a → id ∈ (b.state i).history.accepted →
      id ∈ (b.state (i + 1)).history.accepted := by
    intro i a ha hi
    exact (state_steps hr ha).invariant (P := fun h => id ∈ h.accepted) hi
      fun _ _ hx hstep => hstep.mem_accepted hx
  refine Behaviour.leadsTo_of_rank
    (fun m => toLex (m.manager.queue.pendingIds.idxOf id, m.worker.distance)) hworker ?_ ?_ ?_
  · intro i hi hno
    exact ⟨.worker (.error ⟨[]⟩), ⟨_, rfl⟩, workerStep_pending (hr i).halting (hwaits i hi hno) _⟩
  · intro i a ha hi hno
    by_cases hq : (ledgerOf (b.state (i + 1))).OutOfLine id
    · exact .inl hq
    · have hold := hwaits i hi hno
      have hnew := hwaits (i + 1) (hacc i a ha hi) hq
      refine .inr ⟨hacc i a ha hi, ?_⟩
      by_cases hc : a.ByWorker
      · obtain ⟨result, rfl⟩ := hc
        exact le_of_lt (workerStep_rank (hr i).ledger (hr i).halting hold
          (Behaviour.step_of_act ha) hnew)
      · rw [step_worker_same hc (Behaviour.step_of_act ha)]
        exact Prod.Lex.toLex_mono ⟨Handoff.idxOf_pending_le_of_steps (hr i).ledger
          (state_steps hr ha) hold hnew, Nat.le_refl _⟩
  · rintro i a ha ⟨result, rfl⟩ hi hno
    by_cases hq : (ledgerOf (b.state (i + 1))).OutOfLine id
    · exact .inl hq
    · exact .inr ⟨hacc i _ ha hi, workerStep_rank (hr i).ledger (hr i).halting (hwaits i hi hno)
        (Behaviour.step_of_act ha) (hwaits (i + 1) (hacc i _ ha hi) hq)⟩

/-- The worker is done with the job it has. -/
theorem outOfLine_leadsTo_outOfWork (hr : ∀ i, Reachable capacity c liveConfig (b.state i))
    (hworker : b.WeaklyFair Act.ByWorker) :
    b.LeadsTo (fun m => (ledgerOf m).OutOfLine id) (fun m => (ledgerOf m).OutOfWork id) := by
  have hruns : ∀ i, (ledgerOf (b.state i)).OutOfLine id → ¬ (ledgerOf (b.state i)).OutOfWork id →
      id ∈ (b.state i).worker.running := by
    intro i hline hno
    by_contra hrun
    exact hno ⟨hline, hrun⟩
  have hlasts : ∀ i a, b.act i = some a → (ledgerOf (b.state i)).OutOfLine id →
      (ledgerOf (b.state (i + 1))).OutOfLine id := by
    intro i a ha hi
    exact (state_steps hr ha).invariant (P := fun h => h.OutOfLine id) hi
      fun _ _ hx hstep => hstep.outOfLine hx
  have hwaiting : ∀ i, id ∈ (b.state i).worker.running → (b.state i).worker ≠ .waiting := by
    intro i hrun hw
    simp [hw, Worker.running, Worker.job?] at hrun
  refine Behaviour.leadsTo_of_rank (fun m => m.worker.distance) hworker ?_ ?_ ?_
  · intro i hi hno
    refine ⟨.worker (.error ⟨[]⟩), ⟨_, rfl⟩, ?_⟩
    have hrun := hruns i hi hno
    cases hw : (b.state i).worker with
    | waiting | finished | exited => simp [hw, Worker.running, Worker.job?] at hrun
    | popped | transcribing | decoded => simp [step, workerStep, hw]
  · intro i a ha hi hno
    refine .inr ⟨hlasts i a ha hi, ?_⟩
    by_cases hc : a.ByWorker
    · obtain ⟨result, rfl⟩ := hc
      exact Nat.le_of_lt (workerStep_distance (Behaviour.step_of_act ha)
        fun hw => absurd hw (hwaiting i (hruns i hi hno)))
    · rw [step_worker_same hc (Behaviour.step_of_act ha)]
  · rintro i a ha ⟨result, rfl⟩ hi hno
    exact .inr ⟨hlasts i _ ha hi, workerStep_distance (Behaviour.step_of_act ha)
      fun hw => absurd hw (hwaiting i (hruns i hi hno))⟩

/-- The next `poll_completed` takes the results. -/
theorem outOfWork_leadsTo_collected (hr : ∀ i, Reachable capacity c liveConfig (b.state i))
    (hpoll : ∀ i, ∃ j, i ≤ j ∧ b.Takes (fun a => ∃ inp, a = .call .pollCompleted inp) j) :
    b.LeadsTo (fun m => (ledgerOf m).OutOfWork id) (fun m => (ledgerOf m).Collected id) := by
  have hlasts : ∀ i a, b.act i = some a → (ledgerOf (b.state i)).OutOfWork id →
      (ledgerOf (b.state (i + 1))).OutOfWork id := by
    intro i a ha hi
    exact (state_steps hr ha).invariant (P := fun h => h.OutOfWork id) hi
      fun _ _ hx hstep => hstep.outOfWork hx
  refine Behaviour.leadsTo_of_recurs hpoll (fun i a ha hi _ => .inr (hlasts i a ha hi)) ?_
  rintro i _ ha ⟨inp, rfl⟩ hi
  refine ⟨hlasts i _ ha hi, ?_⟩
  have hs := Behaviour.step_of_act ha
  simp only [step, Option.ite_none_right_eq_some, Option.some.injEq] at hs
  rw [← hs.2]
  exact List.not_mem_nil

/-- A collected result is reported before the owner is back in its loop. -/
theorem reported_of_collected (hinv : Handoff.Inv (ledgerOf m)) (hidle : m.owner = .idle)
    (h : (ledgerOf m).Collected id) : (m.log.filterMap Event.outcome?).count id = 1 := by
  obtain ⟨⟨⟨hacc, hpend⟩, hrun⟩, hdone⟩ := h
  have hsum := countAt_sum hinv hacc
  have hpending : m.countAt id .pending = 0 := List.count_eq_zero.mpr hpend
  have htranscribing : m.countAt id .transcribing = 0 := List.count_eq_zero.mpr hrun
  have hcompleted : m.countAt id .completed = 0 := by
    have hphase : m.owner.phase = .idle := by rw [hidle]; rfl
    have hfinished : m.manager.queue.completedIds.count id = 0 := List.count_eq_zero.mpr hdone
    simp [countAt, hphase, Lib.Phase.results, Lib.Phase.todo, hfinished]
  rw [hpending, htranscribing, hcompleted, Nat.zero_add] at hsum
  exact hsum

/-- The outcome of an accepted recording stays the only one. -/
theorem step_reported (hr : ∀ i, Reachable capacity c liveConfig (b.state i)) {i : Nat} {a : Act}
    (ha : b.act i = some a) (hacc : id ∈ (b.state i).history.accepted)
    (hone : ((b.state i).log.filterMap Event.outcome?).count id = 1) :
    id ∈ (b.state (i + 1)).history.accepted ∧
      ((b.state (i + 1)).log.filterMap Event.outcome?).count id = 1 := by
  have hacc' : id ∈ (b.state (i + 1)).history.accepted :=
    (state_steps hr ha).invariant (P := fun h => id ∈ h.accepted) hacc
      fun _ _ hx hstep => hstep.mem_accepted hx
  refine ⟨hacc', ?_⟩
  have hsum := countAt_sum (hr (i + 1)).ledger hacc'
  obtain ⟨e, hlog⟩ := ((hr i).move (Behaviour.step_of_act ha)).log_concat
  have hmono : 1 ≤ ((b.state (i + 1)).log.filterMap Event.outcome?).count id := by
    rw [hlog, List.filterMap_append, List.count_append, hone]
    exact Nat.le_add_right 1 _
  simp only [countAt] at hsum
  omega

/-- **Every accepted recording is reported**, exactly once, when
`poll_completed` is called again and again. -/
theorem accepted_reported (hinit : b.state 0 = init capacity c liveConfig)
    (hown : b.WeaklyFair Act.Continues) (hworker : b.WeaklyFair Act.ByWorker)
    (hpoll : ∀ i, ∃ j, i ≤ j ∧ b.Takes (fun a => ∃ inp, a = .call .pollCompleted inp) j)
    {i : Nat} (hi : id ∈ (b.state i).history.accepted) :
    ∃ j, i ≤ j ∧ ∀ k, j ≤ k → ((b.state k).log.filterMap Event.outcome?).count id = 1 := by
  have hr := state_reachable hinit
  obtain ⟨j, hij, hj⟩ := ((accepted_leadsTo_outOfLine hr hworker).trans
    ((outOfLine_leadsTo_outOfWork hr hworker).trans
      (outOfWork_leadsTo_collected hr hpoll))) i hi
  obtain ⟨k, hjk, hidle⟩ := idle_recurs hinit hown hworker j
  have hk : (ledgerOf (b.state k)).Collected id := by
    refine Behaviour.stays (P := fun m => (ledgerOf m).Collected id) ?_ hjk hj
    intro l a hl ha
    exact (state_steps hr ha).invariant (P := fun h => h.Collected id) hl
      fun _ _ hx hstep => hstep.collected hx
  refine ⟨k, Nat.le_trans hij hjk, fun l hkl => ?_⟩
  have hone := reported_of_collected (hr k).ledger hidle hk
  exact (Behaviour.stays (P := fun m : Machine => id ∈ m.history.accepted ∧
    (m.log.filterMap Event.outcome?).count id = 1)
    (fun _ _ hp ha => step_reported hr ha hp.1 hp.2) hkl ⟨hk.1.1.1, hone⟩).2

end Fair

end Machine

end YoruSpeech

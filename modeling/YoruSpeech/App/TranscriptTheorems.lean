/-
YoruSpeech.App.TranscriptTheorems — where the published transcripts come
from, with `WhisperBackend` as the backend and whisper.cpp's answers the
only inputs.

* `Machine.Announces` — every job was announced as a finished recording.
* `Effect` — what a step of the process does to the session domain, the
  backend and whisper.cpp.
* `transcripts_genuine` — every published transcript is one whisper.cpp
  produced from the samples of a published recording.
* `nothing_decoded_after_abort` — once the abort has been requested, every
  decode that returns has failed.
-/
import YoruSpeech.App.MainTheorems
import YoruSpeech.Session.ResultTheorems

namespace YoruSpeech

namespace Machine

variable {m m' : Machine} {capacity : Nat} {c : Configuration}
  {liveConfig : LiveTranscriberConfig}

/-- Every job has been announced as the recording it was made of. -/
structure Announces (m : Machine) : Prop where
  inHand : ∀ id recording, m.owner = .inside (.recorded id recording) →
    .recordingFinished id recording ∈ m.log
  carried : ∀ job, m.Carries job → ∃ recording, .recordingFinished job.sessionId recording ∈ m.log ∧
    recording.samples = job.samples

theorem Move.announces (h : Announces m) (hm : Move m m') : Announces m' := by
  have hlog : ∀ e ∈ m.log, e ∈ m'.log := by
    obtain ⟨e, hlog⟩ := hm.log_concat
    intro x hx
    rw [hlog]
    exact List.mem_append_left _ hx
  refine ⟨?_, ?_⟩
  · intro id recording ho
    cases hm with
    | stopped recorder session recording' _ _ _ _ _ _ _ =>
      simp only [publish?_owner, Owner.inside.injEq, Frame.recorded.injEq] at ho
      obtain ⟨rfl, rfl⟩ := ho
      simp
    | exit | pop | enter | leave | finish | loop | audio => exact hlog _ (h.inHand id recording ho)
    | _ => simp at ho
  · intro job hjob
    rcases hm.carries hjob with hold | ⟨id, recording, ho, rfl⟩
    · obtain ⟨recording, hmem, hsamples⟩ := h.carried job hold
      exact ⟨recording, hlog _ hmem, hsamples⟩
    · exact ⟨recording, hlog _ (h.inHand id recording ho), rfl⟩

theorem Reachable.announces (h : Reachable capacity c liveConfig m) : Announces m := by
  refine Reachable.invariant h ⟨by simp [init], ?_⟩ fun _ _ _ hann hm => hm.announces hann
  intro job hjob
  simp [Carries, init, Worker.job?] at hjob

/-- Only the return of `transcribe` adds to the results. -/
theorem Move.results (hm : Move m m') (hworker : m'.worker = m.worker) :
    m'.history.results = m.history.results := by
  cases hm with
  | leave job result hw =>
    rw [hw] at hworker
    cases hworker
  | _ => simp

theorem step_results {a : Act} (hcap : Captured m) (hs : m.step a = some m') :
    m'.history.results = m.history.results ∨
    ∃ job result, m.worker = .transcribing job ∧ a = .worker result ∧
      m'.history.results = m.history.results ++ [⟨job.sessionId, result⟩] := by
  by_cases hby : a.ByWorker
  · obtain ⟨result, rfl⟩ := hby
    cases hw : m.worker with
    | transcribing job =>
      simp only [step, workerStep, hw, Option.some.injEq] at hs
      exact .inr ⟨job, result, rfl, rfl, by rw [← hs]⟩
    | waiting =>
      simp only [step, workerStep, hw] at hs
      split at hs
      · cases hs
        exact .inl rfl
      · split at hs
        · cases hs
        · cases hs
          exact .inl rfl
    | popped | decoded | finished =>
      simp only [step, workerStep, hw, Option.some.injEq] at hs
      exact .inl (by rw [← hs])
    | exited => simp [step, workerStep, hw] at hs
  · exact .inl ((step_move hcap hs).results (step_worker_same hby hs))

theorem step_transcribing {a : Act} {job : TranscriptionJob} (hs : m.step a = some m')
    (hw : m'.worker = .transcribing job) :
    m.worker = .transcribing job ∨ m.worker = .popped job := by
  by_cases hby : a.ByWorker
  · obtain ⟨result, rfl⟩ := hby
    cases hold : m.worker with
    | popped job' =>
      simp only [step, workerStep, hold, Option.some.injEq] at hs
      rw [← hs] at hw
      exact .inr (by rw [Worker.transcribing.inj hw])
    | waiting =>
      simp only [step, workerStep, hold] at hs
      split at hs
      · cases hs
        cases hw
      · split at hs
        · cases hs
        · cases hs
          cases hw
    | transcribing | decoded | finished =>
      simp only [step, workerStep, hold, Option.some.injEq] at hs
      rw [← hs] at hw
      cases hw
    | exited => simp [step, workerStep, hold] at hs
  · exact .inl ((step_worker_same hby hs).symm.trans hw)

end Machine

namespace Program

variable {s : MainStartup} {p q : Program} {n : Nat}

/-! ## One step -/

/-- What a step of the process does. -/
inductive Effect (s : MainStartup) (p q : Program) : Prop
  /-- The session domain stays as it is, but for the end of its worker. -/
  | still (history : q.machine.history = p.machine.history) (log : q.machine.log = p.machine.log)
      (worker : ∀ job, q.machine.worker = .transcribing job →
        p.machine.worker = .transcribing job ∧ q.backend.ctx = p.backend.ctx)
      (flag : p.backend.abortRequested = p.machine.backend.abortRequested →
        q.backend.abortRequested = q.machine.backend.abortRequested)
      (calls : q.whisper.calls = p.whisper.calls)
  | moved {a : Act}
      (reachable : Machine.Reachable s.capacity s.configuration s.liveConfig p.machine)
      (step : p.machine.step a = some q.machine)
      (backend : q.backend = { p.backend with
        abortRequested := q.machine.backend.abortRequested })
      (calls : ∀ call ∈ p.whisper.calls, call ∈ q.whisper.calls)
      (enters : ∀ job, p.machine.worker = .popped job → q.machine.worker = .transcribing job →
        ∀ call, p.backend.prepareFull job.samples job.request = .inr call →
          call ∈ q.whisper.calls)
      (leaves : ∀ job result, p.machine.worker = .transcribing job → a = .worker result →
        ∃ answer, result = p.backend.runWhisperFull job.samples job.request answer)

/-- A step of `main` alone. -/
theorem Effect.of_same (hmachine : q.machine = p.machine) (hbackend : q.backend = p.backend)
    (hcalls : q.whisper.calls = p.whisper.calls) : Effect s p q := by
  refine .still (by rw [hmachine]) (by rw [hmachine]) ?_ (by rw [hmachine, hbackend]; exact id)
    hcalls
  intro job hw
  exact ⟨hmachine ▸ hw, by rw [hbackend]⟩

/-- A step that is not the worker's. -/
theorem Effect.of_step {a : Act}
    (hr : Machine.Reachable s.capacity s.configuration s.liveConfig p.machine)
    (hstep : p.machine.step a = some q.machine) (ha : ¬ a.ByWorker)
    (hbackend : q.backend = { p.backend with
      abortRequested := q.machine.backend.abortRequested })
    (hcalls : ∀ call ∈ p.whisper.calls, call ∈ q.whisper.calls) : Effect s p q := by
  refine .moved hr hstep hbackend hcalls ?_ ?_
  · intro job hpopped hw
    rw [Machine.step_worker_same ha hstep, hpopped] at hw
    cases hw
  · intro job result _ hact
    exact absurd ⟨result, hact⟩ ha

/-- `load_model` makes no call and leaves the flag alone. -/
theorem loadConfiguredModel_calls {load : LoadAnswer}
    (hs : p.loadConfiguredModel s load = some q) :
    q.machine = p.machine ∧ q.whisper.calls = p.whisper.calls ∧
      q.backend.abortRequested = p.backend.abortRequested := by
  unfold loadConfiguredModel at hs
  split at hs
  · cases hs
    exact ⟨rfl, rfl, rfl⟩
  · obtain ⟨-, hs⟩ := Option.ite_none_left_eq_some.mp hs
    split at hs
    · cases hs
      exact ⟨rfl, rfl, rfl⟩
    · rename_i hload
      cases hs
      exact ⟨rfl, WhisperBackend.loadModel_calls hload⟩

theorem Running.next_effect (h : Running s n p) {load : LoadAnswer} {listens : Bool}
    (hs : p.next s load listens = some q) : Effect s p q := by
  simp only [Program.next, h.status, h.rest] at hs
  cases hd : mainBody.drop n with
  | nil => rw [hd] at hs; cases hs
  | cons statement after =>
    obtain ⟨hat, rfl⟩ := getElem?_of_drop hd
    rw [hd] at hs
    cases statement with
    | construct object =>
      cases hs
      exact .of_same rfl rfl rfl
    | loadConfiguredModel =>
      obtain ⟨hmachine, hcalls, hflag⟩ := loadConfiguredModel_calls hs
      have hmachine' : q.machine = p.machine := hmachine
      refine .still (by rw [hmachine']) (by rw [hmachine']) ?_ ?_ hcalls
      · intro job hw
        cases at_of_getElem? hat
        rw [hmachine', h.fresh (by omega)] at hw
        cases hw
      · intro hsync
        rw [hmachine']
        exact hflag.trans hsync
    | start =>
      simp only [carryOut] at hs
      split at hs
      · cases hs
        exact .of_same rfl rfl rfl
      · cases hs
        exact .of_same rfl rfl rfl
    | setActivityCallback set =>
      cases hs
      exact .of_same rfl rfl rfl
    | loop => cases hs
    | call op =>
      simp only [carryOut] at hs
      split at hs
      · obtain ⟨-, hq⟩ := Option.ite_none_right_eq_some.mp hs
        cases hq
        exact .of_same rfl rfl rfl
      · obtain ⟨machine, hstep, rfl⟩ := Option.map_eq_some_iff.mp hs
        exact .of_step h.reachable hstep (by simp [Act.ByWorker]) rfl fun _ hcall => hcall
    | stop =>
      cases hs
      exact .of_same rfl rfl rfl

/-- Entering whisper.cpp keeps the calls made before, and makes the one the
backend prepared. -/
theorem enter_calls (howns : WhisperBackend.Owns p.whisper p.backend)
    (decode : Option (List Sample × TranscriptionRequest)) :
    (∀ call ∈ p.whisper.calls, call ∈ (p.enter decode).whisper.calls) ∧
    ∀ samples request call, decode = some (samples, request) →
      p.backend.prepareFull samples request = .inr call →
        call ∈ (p.enter decode).whisper.calls := by
  cases decode with
  | none => exact ⟨fun _ hcall => hcall, fun _ _ _ h => by cases h⟩
  | some decode =>
    obtain ⟨samples, request⟩ := decode
    simp only [enter, enterFull]
    cases hprepare : p.backend.prepareFull samples request with
    | inl e =>
      refine ⟨fun _ hcall => hcall, ?_⟩
      rintro _ _ call ⟨rfl, rfl⟩ hcall
      rw [hprepare] at hcall
      cases hcall
    | inr call =>
      have hlive : call.ctx ∈ p.whisper.live := by
        rw [howns.1, (WhisperBackend.prepareFull_call hprepare).1]
        simp
      simp only [Whisper.full, hlive, if_true]
      refine ⟨fun _ hcall => List.mem_append_left _ hcall, ?_⟩
      rintro _ _ call' ⟨rfl, rfl⟩ hcall
      rw [hprepare] at hcall
      cases hcall
      simp

theorem Running.session_effect (h : Running s n p) {a : Act} (hs : p.session a = some q) :
    Effect s p q := by
  simp only [Program.session, Option.ite_none_right_eq_some, Option.map_eq_some_iff] at hs
  obtain ⟨hallows, machine, hstep, rfl⟩ := hs
  have hn : 13 ≤ n :=
    h.started (fun hby => (allows_owner hallows hby).imp_right And.left) hstep
  rw [h.touch (by omega)]
  obtain ⟨calls, heq⟩ := enter_eq (p := { p.advance machine with fetched := p.fetchedAfter a })
    h.owns (entered p.machine machine)
  obtain ⟨hkept, hmade⟩ := enter_calls (p := { p.advance machine with fetched := p.fetchedAfter a })
    h.owns (entered p.machine machine)
  have hmachine : ({ p.advance machine with fetched := p.fetchedAfter a }.enter
      (entered p.machine machine)).machine = machine := by rw [heq]; rfl
  refine .moved h.reachable (hmachine ▸ hstep) ?_ hkept ?_ ?_
  · rw [heq]
    rfl
  · intro job hpopped hw call hprepare
    rw [hmachine] at hw
    exact hmade job.samples job.request call (by simp [entered, hpopped, hw]) hprepare
  · intro job result hw hact
    rw [hact] at hallows
    simp [allows, hw] at hallows

theorem Running.decoded_effect (h : Running s n p) {answer : FullAnswer}
    (hs : p.decoded answer = some q) : Effect s p q := by
  simp only [Program.decoded] at hs
  split at hs
  · rename_i job hworker
    obtain ⟨machine, hstep, rfl⟩ := Option.map_eq_some_iff.mp hs
    refine .moved h.reachable hstep rfl (fun _ hcall => hcall) ?_ ?_
    · intro job' hpopped
      rw [hworker] at hpopped
      cases hpopped
    · intro job' result hw hact
      rw [hworker] at hw
      cases hw
      cases hact
      exact ⟨answer, rfl⟩
  · cases hs

theorem Running.previewed_effect (h : Running s n p) {inp : Input} {answer : FullAnswer}
    (hs : p.previewed inp answer = some q) : Effect s p q := by
  simp only [Program.previewed] at hs
  split at hs
  · obtain ⟨machine, hstep, rfl⟩ := Option.map_eq_some_iff.mp hs
    exact .of_step h.reachable hstep (by simp [Act.ByWorker]) rfl fun _ hcall => hcall
  · cases hs

/-- The destructors make no call, and leave the history and the log
alone. -/
theorem unwind_history (hs : p.unwind = some q) :
    q.machine.history = p.machine.history ∧ q.machine.log = p.machine.log ∧
      (p.backend.abortRequested = p.machine.backend.abortRequested →
        q.backend.abortRequested = q.machine.backend.abortRequested) ∧
      q.whisper.calls = p.whisper.calls := by
  unfold unwind at hs
  split at hs
  · rename_i top below _ _
    cases top with
    | sessionManager =>
      simp only [destroy, destroyQueue] at hs
      split at hs
      · cases hs
        exact ⟨rfl, rfl, id, rfl⟩
      · cases hs
        exact ⟨rfl, rfl, fun _ => rfl, rfl⟩
      · split at hs
        · split at hs
          · cases hs
            exact ⟨rfl, rfl, id, rfl⟩
          · cases hs
        · cases hs
          exact ⟨rfl, rfl, id, rfl⟩
    | speechBackend =>
      simp only [destroy] at hs
      split at hs
      · cases hs
        exact ⟨rfl, rfl, id, rfl⟩
      · rename_i hunload
        cases hs
        obtain ⟨hcalls, hflag⟩ := WhisperBackend.unloadModel_calls hunload
        exact ⟨rfl, rfl, hflag.trans, hcalls⟩
    | logger | eventBus | configurationManager | recordingManager | liveTranscriber
    | autoClipboard | ipcService | captureDevice =>
      cases hs
      exact ⟨rfl, rfl, id, rfl⟩
  · cases hs

/-- While the destructors run no decode is under way. -/
theorem Unwinding.effect (h : Unwinding p) {a : MainAct} (hs : p.step s a = some q) :
    Effect s p q := by
  obtain ⟨hq, hstep⟩ := h.step hs
  have hquiet : ∀ job, q.machine.worker ≠ .transcribing job := by
    intro job hw
    rcases hq.worker with hw' | ⟨hw', -⟩
    · rw [hw'] at hw
      cases hw
    · rw [hw'] at hw
      cases hw
  rcases hstep with hunwind | ⟨act, hsession⟩
  · obtain ⟨hhistory, hlog, hflag, hcalls⟩ := unwind_history hunwind
    exact .still hhistory hlog (fun job hw => absurd hw (hquiet job)) hflag hcalls
  · simp only [Program.session, Option.ite_none_right_eq_some, Option.map_eq_some_iff] at hsession
    obtain ⟨hallows, machine, hstep, rfl⟩ := hsession
    obtain ⟨-, rfl, -⟩ := h.step_exits hallows hstep
    rw [h.entered_exited]
    exact .still rfl rfl (fun job hw => by cases hw) (fun _ => rfl) rfl

theorem step_effect (h : Sound s p) {a : MainAct} (hs : p.step s a = some q) : Effect s p q := by
  rcases h with ⟨n, h⟩ | h
  · cases a with
    | next load listens => exact h.next_effect hs
    | leave =>
      simp only [step, Program.leave, h.status] at hs
      split at hs
      · obtain ⟨-, hq⟩ := Option.ite_none_right_eq_some.mp hs
        cases hq
        exact .of_same rfl rfl rfl
      · cases hs
    | session a => exact h.session_effect hs
    | fetch =>
      obtain ⟨-, hq⟩ := Option.ite_none_right_eq_some.mp hs
      cases hq
      exact .of_same rfl rfl rfl
    | decoded answer => exact h.decoded_effect hs
    | previewed inp answer => exact h.previewed_effect hs
    | unwind => simp [step, Program.unwind, h.status] at hs
  · exact h.effect hs

/-! ## Where transcripts come from -/

/-- The transcript is what whisper.cpp made of a finished recording of the
session. The number of its samples is passed as an `int`, so that beyond
2^31 of them the call is not about all. -/
def Produced (p : Program) (id : SessionId) (t : Transcript) : Prop :=
  ∃ recording request call, .recordingFinished id recording ∈ p.machine.log ∧
    call ∈ p.whisper.calls ∧ call.samples = recording.samples ∧ recording.samples ≠ [] ∧
    (recording.samples.length < 2 ^ 31 → call.count = recording.samples.length) ∧
    call.params = WhisperBackend.fullParams request ∧ t.requestedLanguage = request.language ∧
    t.audioDuration = recording.samples.length * 1000 / kSampleRate

structure Genuine (p : Program) : Prop where
  flag : p.backend.abortRequested = p.machine.backend.abortRequested
  /-- The decode under way has been made. -/
  entered : ∀ job, p.machine.worker = .transcribing job →
    ∀ call, p.backend.prepareFull job.samples job.request = .inr call →
      call ∈ p.whisper.calls
  results : ∀ r ∈ p.machine.history.results, ∀ t, r.result = .transcript t →
    p.Produced r.sessionId t
  log : ∀ id t, .transcriptionCompleted id t ∈ p.machine.log →
    ⟨id, .transcript t⟩ ∈ p.machine.history.results

theorem Produced.mono {id : SessionId} {t : Transcript} (h : p.Produced id t)
    (hlog : ∀ e ∈ p.machine.log, e ∈ q.machine.log)
    (hcalls : ∀ call ∈ p.whisper.calls, call ∈ q.whisper.calls) : q.Produced id t := by
  obtain ⟨recording, request, call, hfinished, hcall, hrest⟩ := h
  exact ⟨recording, request, call, hlog _ hfinished, hcalls _ hcall, hrest⟩

theorem Effect.genuine (he : Effect s p q) (h : Genuine p) : Genuine q := by
  cases he with
  | still hhistory hlog hworker hflag hcalls =>
    refine ⟨hflag h.flag, ?_, ?_, ?_⟩
    · intro job hw call hprepare
      obtain ⟨hw', hctx⟩ := hworker job hw
      rw [hcalls]
      refine h.entered job hw' call ?_
      rw [← hprepare]
      simp only [WhisperBackend.prepareFull, hctx]
    · rw [hhistory]
      intro r hr t ht
      exact (h.results r hr t ht).mono (by simp [hlog]) (by simp [hcalls])
    · rw [hlog, hhistory]
      exact h.log
  | @moved a hr hstep hbackend hcalls henters hleaves =>
    have hctx : q.backend.prepareFull = p.backend.prepareFull := by
      funext samples request
      simp only [WhisperBackend.prepareFull, hbackend]
    have hlog : ∀ e ∈ p.machine.log, e ∈ q.machine.log := by
      obtain ⟨e, hlog⟩ := (hr.move hstep).log_concat
      intro x hx
      rw [hlog]
      exact List.mem_append_left _ hx
    refine ⟨by rw [hbackend], ?_, ?_, ?_⟩
    · intro job hw call hprepare
      rw [hctx] at hprepare
      rcases Machine.step_transcribing hstep hw with hold | hpopped
      · exact hcalls call (h.entered job hold call hprepare)
      · exact henters job hpopped hw call hprepare
    · intro x hx t ht
      rcases Machine.step_results hr.captured hstep with hsame | ⟨job, result, hw, hact, hnew⟩
      · rw [hsame] at hx
        exact (h.results x hx t ht).mono hlog hcalls
      · rw [hnew, List.mem_append, List.mem_singleton] at hx
        rcases hx with hx | rfl
        · exact (h.results x hx t ht).mono hlog hcalls
        · obtain ⟨answer, hresult⟩ := hleaves job result hw hact
          have hrun : p.backend.runWhisperFull job.samples job.request answer = .transcript t :=
            hresult.symm.trans ht
          obtain ⟨⟨call, hprepare⟩, -, hlanguage, hduration⟩ :=
            WhisperBackend.runWhisperFull_transcript hrun
          obtain ⟨-, hne, hsamples, hcount, hparams⟩ := WhisperBackend.prepareFull_call hprepare
          obtain ⟨recording, hfinished, hrec⟩ :=
            hr.announces.carried job (.inr (.inl (by rw [hw]; rfl)))
          exact ⟨recording, job.request, call, hlog _ hfinished,
            hcalls call (h.entered job hw call hprepare), hsamples.trans hrec.symm, hrec ▸ hne,
            hrec ▸ hcount, hparams, hlanguage, by rw [hduration, hrec]; rfl⟩
    · intro id t hmem
      have hacc : q.machine.Accounted := Machine.Reachable.accounted (hr.snoc hstep)
      rw [hacc]
      exact List.mem_append_left _ (List.mem_filterMap.mpr ⟨_, hmem, rfl⟩)

theorem Reachable.genuine (h : Reachable s p) : Genuine p := by
  have hinv : Sound s p ∧ Genuine p := by
    refine Lib.Reachable.invariant (P := fun p => Sound s p ∧ Genuine p) h
      ⟨.inl ⟨0, init_running⟩, rfl, ?_, ?_, ?_⟩ ?_
    · intro job hw
      cases hw
    · intro r hr
      cases hr
    · intro id t hmem
      cases hmem
    · rintro _ _ _ _ ⟨hsound, hgenuine⟩ hs
      exact ⟨step_sound hsound hs, (step_effect hsound hs).genuine hgenuine⟩
  exact hinv.2

/-- **Published transcripts are genuine.** For every transcript in the log
there is a finished recording of its session in the log, not empty, which
whisper.cpp was given whole (its samples and, below 2^31 of them, their
number), with the language the transcript says was asked for; and the
transcript's duration is that recording's. -/
theorem transcripts_genuine (h : Reachable s p) {id : SessionId} {t : Transcript}
    (hlog : .transcriptionCompleted id t ∈ p.machine.log) : p.Produced id t :=
  h.genuine.results _ (h.genuine.log id t hlog) t rfl

/-- A dictation of three samples is transcribed and published. -/
def dictated : List MainAct :=
  List.replicate 13 (MainAct.next { ctx := some 7 } true) ++
    ([.session (.call .startSession {}), .session (.own {}), .session (.capture [1, 2, 3]),
      .session (.call .stopSession {}), .session (.own {}), .session (.own {}),
      .session (.worker (.error ⟨[]⟩)), .fetch, .session (.worker (.error ⟨[]⟩)),
      .decoded { segments := [str " hi"], langStr := some (str "en") },
      .session (.worker (.error ⟨[]⟩)), .session (.call .pollCompleted {}), .session (.own {}),
      .session (.own {}), .session (.own {}), .session (.own {})] : List MainAct)

def afterDictation : Program :=
  (Lib.run (step stoppedStartup) (init stoppedStartup) dictated).getD (init stoppedStartup)

theorem transcripts_genuine_dictated :
    .transcriptionCompleted 1 ⟨str " hi", str "en", str "auto", 0, 0⟩ ∈
      afterDictation.machine.log ∧
    afterDictation.Produced 1 ⟨str " hi", str "en", str "auto", 0, 0⟩ := by
  have hrun : Lib.run (step stoppedStartup) (init stoppedStartup) dictated =
      some afterDictation := rfl
  have hlog : .transcriptionCompleted 1 ⟨str " hi", str "en", str "auto", 0, 0⟩ ∈
      afterDictation.machine.log := by decide
  exact ⟨hlog, transcripts_genuine ⟨dictated, hrun⟩ hlog⟩

/-! ## The abort -/

/-- Once the abort has been requested it stays in force: a decode that
returns has failed. -/
theorem Effect.aborted (he : Effect s p q) (hgenuine : Genuine p)
    (h : p.machine.history.abortRequested = true) :
    q.machine.history.abortRequested = true ∧
      ∃ new, q.machine.history.results = p.machine.history.results ++ new ∧
        ∀ r ∈ new, ∃ e, r.result = .error e := by
  cases he with
  | still hhistory =>
    rw [hhistory]
    exact ⟨h, [], by simp, by simp⟩
  | @moved a hr hstep hbackend hcalls henters hleaves =>
    obtain ⟨hflag, hstop⟩ := hr.halting.flag h
    refine ⟨((hr.move hstep).stays hr.halting hstop).aborted h, ?_⟩
    rcases Machine.step_results hr.captured hstep with hsame | ⟨job, result, hw, hact, hnew⟩
    · exact ⟨[], by simp [hsame], by simp⟩
    · refine ⟨[⟨job.sessionId, result⟩], hnew, ?_⟩
      intro r hmem
      rw [List.mem_singleton] at hmem
      subst hmem
      obtain ⟨answer, rfl⟩ := hleaves job result hw hact
      cases hresult : p.backend.runWhisperFull job.samples job.request answer with
      | error e => exact ⟨e, rfl⟩
      | transcript t =>
        have habort := (WhisperBackend.runWhisperFull_transcript hresult).2.1
        rw [hgenuine.flag, hflag] at habort
        cases habort

/-- **Nothing is decoded after the abort.** From the moment `shutdown()`
has requested the abort, in every continuation of the run, each decode
that returns has failed: the transcripts that are still published were
complete by then. -/
theorem nothing_decoded_after_abort (h : Reachable s p)
    (habort : p.machine.history.abortRequested = true) (hlater : Lib.Reachable (step s) p q) :
    ∃ new, q.machine.history.results = p.machine.history.results ++ new ∧
      (∀ r ∈ new, ∃ e, r.result = .error e) ∧
      ∀ id t, .transcriptionCompleted id t ∈ q.machine.log →
        ⟨id, .transcript t⟩ ∈ p.machine.history.results := by
  have hinv : (Sound s q ∧ Genuine q) ∧ q.machine.history.abortRequested = true ∧
      ∃ new, q.machine.history.results = p.machine.history.results ++ new ∧
        ∀ r ∈ new, ∃ e, r.result = .error e := by
    refine Lib.Reachable.invariant (P := fun t => (Sound s t ∧ Genuine t) ∧
      t.machine.history.abortRequested = true ∧
      ∃ new, t.machine.history.results = p.machine.history.results ++ new ∧
        ∀ r ∈ new, ∃ e, r.result = .error e) hlater
      ⟨⟨h.sound, h.genuine⟩, habort, [], by simp, by simp⟩ ?_
    rintro t a t' - ⟨⟨hsound, hgenuine⟩, ht, new, hresults, hnew⟩ hs
    have heffect := step_effect hsound hs
    obtain ⟨ht', more, hmore, herror⟩ := heffect.aborted hgenuine ht
    refine ⟨⟨step_sound hsound hs, heffect.genuine hgenuine⟩, ht', new ++ more, ?_, ?_⟩
    · rw [hmore, hresults, List.append_assoc]
    · intro r hr
      rcases List.mem_append.mp hr with hr | hr
      · exact hnew r hr
      · exact herror r hr
  obtain ⟨⟨-, hgenuine⟩, -, new, hresults, hnew⟩ := hinv
  refine ⟨new, hresults, hnew, fun id t hmem => ?_⟩
  have hresult := hgenuine.log id t hmem
  rw [hresults] at hresult
  rcases List.mem_append.mp hresult with hold | hlate
  · exact hold
  · obtain ⟨e, he⟩ := hnew _ hlate
    cases he

/-- The daemon is asked to stop while a dictation is being transcribed. -/
def aborting : List MainAct :=
  List.replicate 13 (MainAct.next { ctx := some 7 } true) ++
    ([.session (.call .startSession {}), .session (.own {}), .session (.capture [1, 2, 3]),
      .session (.call .stopSession {}), .session (.own {}), .session (.own {}),
      .session (.worker (.error ⟨[]⟩)), .fetch, .session (.worker (.error ⟨[]⟩)), .leave,
      .next {} true, .next {} true, .next {} true, .session (.own {})] : List MainAct)

def afterAbort : Program :=
  (Lib.run (step stoppedStartup) (init stoppedStartup) aborting).getD (init stoppedStartup)

/-- whisper.cpp decodes the dictation all the same. -/
def afterDecode : Program :=
  (afterAbort.step stoppedStartup (.decoded { segments := [str " hi"] })).getD afterAbort

/-- Its transcript is dropped. -/
theorem nothing_decoded_after_abort_dictation :
    afterAbort.machine.history.results = [] ∧
      afterDecode.machine.history.results.length = 1 ∧
      ∀ r ∈ afterDecode.machine.history.results, ∃ e, r.result = .error e := by
  have hrun : Lib.run (step stoppedStartup) (init stoppedStartup) aborting = some afterAbort := rfl
  have hlater : Lib.run (step stoppedStartup) afterAbort [.decoded { segments := [str " hi"] }] =
      some afterDecode := rfl
  have hnone : afterAbort.machine.history.results = [] := by decide
  obtain ⟨new, hnew, herror, -⟩ :=
    nothing_decoded_after_abort ⟨aborting, hrun⟩ (by decide) ⟨_, hlater⟩
  rw [hnone, List.nil_append] at hnew
  exact ⟨hnone, by decide, hnew ▸ herror⟩

end Program

end YoruSpeech

/-
YoruSpeech.Ipc.CommandTheorems — what `handle_line` answers.

The operations a command calls always return, and every text they publish
or return is a literal of the source: `perform_spec`. It follows the call
section by section (`Stage`): a `*_reaches` lemma says for each section of
the session manager where it leads, and other threads leave the stage
alone.

`handleLine_spec` then says what the dispatcher answers to every line, and
`listModels_answers_iff` when the one command that can fail to answer does.
-/
import YoruSpeech.Ipc.CommandDispatcher
import YoruSpeech.Ipc.MessageCodecTheorems
import YoruSpeech.Lib.Except
import YoruSpeech.Session.MachineTheorems

namespace YoruSpeech

open Lib (Json validUtf8)

/-! ## The texts of the recording manager -/

theorem RecordingManager.start_text {r r' : RecordingManager} {id : SessionId}
    {outcome : DeviceStart} {e : RecordingError} (h : r.start id outcome = (r', .inl e)) :
    validUtf8 e.message = true := by
  unfold start CaptureDevice.start at h
  split at h
  · cases h
    decide
  · split at h
    · rename_i hdevice
      cases h
      split at hdevice
      · cases hdevice
      · cases outcome with
        | ok => cases hdevice
        | initFailed | startFailed =>
          cases hdevice
          decide
    · cases h

theorem RecordingManager.start_event {r r' : RecordingManager} {id : SessionId}
    {outcome : DeviceStart} {e : Event} (h : r.start id outcome = (r', .inr e)) :
    e = .recordingStarted id := by
  unfold start at h
  split at h
  · cases h
  · split at h
    · cases h
    · cases h
      rfl

theorem RecordingManager.stop_text {r r' : RecordingManager} {e : RecordingError}
    (h : r.stop = (r', .inl e)) : validUtf8 e.message = true := by
  unfold stop at h
  split at h
  · cases h
    decide
  · simp only at h
    split at h
    · cases h
      decide
    · cases h

theorem RecordingManager.stop_event {r r' : RecordingManager} {recording : Recording} {e : Event}
    (h : r.stop = (r', .inr (recording, e))) : ∃ id, e = .recordingFinished id recording := by
  unfold stop at h
  split at h
  · cases h
  · simp only at h
    split at h
    · cases h
    · cases h
      exact ⟨_, rfl⟩

/-! ## The sections of a command -/

/-- The return of the operation, with the error it carries in UTF-8. -/
def Op.Answers : Op → Return → Prop
  | .startSession, .startSession r => ∀ e ∈ r, validUtf8 e.message = true
  | .stopSession, .stopSession (.error e) => validUtf8 e.message = true
  | .stopSession, .stopSession (.queuedJob _ _) => True
  | .cancelSession, .cancelSession r => ∀ e ∈ r, validUtf8 e.message = true
  | .cancelJob _, .cancelJob _ _ => True
  | .configure _, .configure => True
  | _, _ => False

/-- How many sections of the operation are left at a frame of it. -/
def Op.sectionsLeft : Op → Frame → Option Nat
  | .startSession, .starting => some 1
  | .stopSession, .recorded _ _ => some 2
  | .stopSession, .enqueued _ _ => some 1
  | .cancelSession, .discarding => some 1
  | .cancelJob _, .cancelled _ => some 1
  | _, _ => none

/-- A section of the operation ends with a return, or at most `n` sections
before it; the event it publishes is in UTF-8. -/
inductive Op.Reaches (op : Op) (n : Nat) : Next → Prop
  | done {g : SessionManager} {e : Option Event} {r : Return}
      (hevent : ∀ x ∈ e, allUtf8 x.texts = true) (hreturn : op.Answers r) :
      Reaches op n (.done g e r)
  | more {g : SessionManager} {e : Option Event} {f : Frame} {k : Nat}
      (hevent : ∀ x ∈ e, allUtf8 x.texts = true) (hframe : op.sectionsLeft f = some k)
      (hk : k ≤ n) : Reaches op n (.more g e f)

theorem Op.Reaches.mono {op : Op} {k n : Nat} {next : Next} (h : op.Reaches k next)
    (hk : k ≤ n) : op.Reaches n next := by
  cases h with
  | done hevent hreturn => exact .done hevent hreturn
  | more hevent hframe hle => exact .more hevent hframe (Nat.le_trans hle hk)

namespace SessionManager

variable {g : SessionManager}

theorem startSession_reaches (g : SessionManager) :
    Op.startSession.Reaches 1 g.startSession := by
  unfold startSession
  split
  · refine .done (by simp) ?_
    rintro e ⟨⟩
    decide
  · split
    · refine .done ?_ ?_
      · rintro x ⟨⟩
        decide
      · rintro e ⟨⟩
        decide
    · exact .more (by simp) rfl (Nat.le_refl 1)

theorem startRecording_reaches (g : SessionManager) (outcome : DeviceStart) (now : Nat) :
    Op.startSession.Reaches 0 (g.startRecording outcome now) := by
  cases hstart : g.recordingManager.start g.nextSessionId outcome with
  | mk recorder result =>
    cases result with
    | inl e =>
      have htext := RecordingManager.start_text hstart
      simp only [startRecording, hstart]
      refine .done ?_ ?_
      · rintro x ⟨⟩
        simp [Event.texts, htext]
      · rintro x ⟨⟩
        exact htext
    | inr event =>
      have hevent := RecordingManager.start_event hstart
      subst hevent
      simp only [startRecording, hstart]
      refine .done ?_ ?_
      · rintro x ⟨⟩
        rfl
      · rintro x ⟨⟩

theorem stopSession_reaches (h : CaptureCase g) (now : Nat) :
    Op.stopSession.Reaches 2 (g.stopSession now) := by
  rcases stopSession_cases h now with
    ⟨hstate, -⟩ | ⟨s, recorder, message, hstate, -, hactive, -, hstop⟩ |
    ⟨s, recorder, recording, -, -, -, -, -, -, hstop⟩
  · unfold stopSession
    rw [if_pos hstate]
    refine .done (by simp) ?_
    show validUtf8 _ = true
    decide
  · -- the message is the recording manager's
    have htext : validUtf8 message = true := by
      unfold stopSession at hstop
      simp only [hstate, ne_eq, not_true_eq_false, if_false, hactive] at hstop
      split at hstop
      · rename_i recorder e hrecorder
        have he := RecordingManager.stop_text hrecorder
        simp only [fail, Next.done.injEq, Return.stopSession.injEq,
          StopSessionResult.error.injEq, SessionError.mk.injEq] at hstop
        exact hstop.2.2 ▸ he
      · cases hstop
    rw [hstop]
    refine .done ?_ htext
    rintro x ⟨⟩
    simp [Event.texts, htext]
  · rw [hstop]
    refine .more ?_ rfl (Nat.le_refl 2)
    rintro x ⟨⟩
    rfl

theorem enqueueRecording_reaches {id : SessionId} {recording : Recording}
    (h : CaptureAt g (.recorded id recording)) (now : Nat) :
    Op.stopSession.Reaches 1 (g.enqueueRecording id recording now) := by
  rcases enqueueRecording_cases h now with ⟨s, message, -, -, -, -, hnext⟩ | ⟨-, -, hnext⟩
  · have htext : validUtf8 message = true := by
      unfold enqueueRecording at hnext
      split at hnext
      · cases hnext
      · simp only [fail] at hnext
        split at hnext
        · simp only [Next.done.injEq, Return.stopSession.injEq, StopSessionResult.error.injEq,
            SessionError.mk.injEq] at hnext
          rw [← hnext.2.2]
          decide
        · cases hnext
    rw [hnext]
    refine .done ?_ htext
    rintro x ⟨⟩
    simp [Event.texts, htext]
  · rw [hnext]
    exact .more (by simp) rfl (Nat.le_refl 1)

theorem cancelSession_reaches (g : SessionManager) :
    Op.cancelSession.Reaches 1 g.cancelSession := by
  unfold cancelSession
  split
  · refine .done (by simp) ?_
    rintro e ⟨⟩
    decide
  · split
    · split
      · exact .more (by simp) rfl (Nat.le_refl 1)
      · rename_i recorder recording event hstop
        obtain ⟨id, rfl⟩ := RecordingManager.stop_event hstop
        refine .more ?_ rfl (Nat.le_refl 1)
        rintro x ⟨⟩
        rfl
    · exact .more (by simp) rfl (Nat.le_refl 1)

theorem discardSession_reaches (g : SessionManager) :
    Op.cancelSession.Reaches 0 g.discardSession := by
  refine .done ?_ ?_
  · intro x hx
    obtain ⟨s, -, rfl⟩ := Option.map_eq_some_iff.mp hx
    rfl
  · rintro e ⟨⟩

theorem cancelJob_reaches (g : SessionManager) (id : SessionId) :
    (Op.cancelJob id).Reaches 1 (g.cancelJob id) := by
  rcases cancelJob_cases g id with ⟨-, hnext⟩ | ⟨-, hnext⟩
  · rw [hnext]
    exact .done (by simp) trivial
  · rw [hnext]
    exact .more (by simp) rfl (Nat.le_refl 1)

end SessionManager

/-! ## A call from its beginning to its return -/

/-- The commands that call the session manager, with their argument in
UTF-8. -/
def Op.IsCommand : Op → Prop
  | .startSession => True
  | .stopSession => True
  | .cancelSession => True
  | .cancelJob _ => True
  | .configure c => allUtf8 c.texts = true
  | _ => False

namespace Machine

variable {m m' m₀ : Machine} {capacity : Nat} {c : Configuration}
  {liveConfig : LiveTranscriberConfig} {op : Op} {n : Nat}

/-- A call of `op` made in `m₀` has returned in `m`, or is at most `n`
sections from it; what it published so far is in UTF-8. -/
structure Stage (m₀ : Machine) (op : Op) (n : Nat) (m : Machine) : Prop where
  events : ∃ es, m.log = m₀.log ++ es ∧ ∀ e ∈ es, allUtf8 e.texts = true
  point : (m.owner = .idle ∧ ∃ r, m.returns = m₀.returns ++ [r] ∧ op.Answers r) ∨
    ∃ f k, m.owner = .inside f ∧ op.sectionsLeft f = some k ∧ k ≤ n ∧ m.returns = m₀.returns

theorem Stage.of_background (h : Stage m₀ op n m) (hb : Background m m') : Stage m₀ op n m' := by
  obtain ⟨hevents, hpoint⟩ := h
  rw [← hb.log] at hevents
  rw [← hb.owner, ← hb.returns] at hpoint
  exact ⟨hevents, hpoint⟩

/-- The end of a section, from a state in which the call has not returned. -/
theorem stage_apply {next : Next} (hevents : ∃ es, m.log = m₀.log ++ es ∧
    ∀ e ∈ es, allUtf8 e.texts = true) (hreturns : m.returns = m₀.returns)
    (hnext : op.Reaches n next) : Stage m₀ op n (m.apply next) := by
  obtain ⟨es, hlog, hes⟩ := hevents
  have hpublish : ∀ {t : Machine} {e : Option Event}, t.log = m.log →
      (∀ x ∈ e, allUtf8 x.texts = true) →
      ∃ es, (t.publish? e).log = m₀.log ++ es ∧ ∀ e ∈ es, allUtf8 e.texts = true := by
    intro t e ht he
    refine ⟨es ++ e.toList, ?_, ?_⟩
    · rw [publish?_log, ht, hlog, List.append_assoc]
    · intro x hx
      rcases List.mem_append.mp hx with hx | hx
      · exact hes x hx
      · exact he x (Option.mem_toList.mp hx)
  cases hnext with
  | done hevent hreturn =>
    refine ⟨hpublish rfl hevent, .inl ⟨?_, _, ?_, hreturn⟩⟩
    · rw [apply, publish?_owner]
    · rw [apply, publish?_returns, hreturns]
  | more hevent hframe hk =>
    refine ⟨hpublish rfl hevent, .inr ⟨_, _, ?_, hframe, hk, ?_⟩⟩
    · rw [apply, publish?_owner]
    · rw [apply, publish?_returns, hreturns]

theorem stage_begin (hcap : Captured m) (hidle : m.owner = .idle) (hop : op.IsCommand)
    (inp : Input) : Stage m op 2 (m.begin op inp) := by
  have hcase : CaptureCase m.manager := captured_idle hcap hidle
  have hnone : ∃ es, m.log = m.log ++ es ∧ ∀ e ∈ es, allUtf8 e.texts = true :=
    ⟨[], by simp⟩
  cases op with
  | startSession =>
    exact stage_apply hnone rfl ((SessionManager.startSession_reaches _).mono (by decide))
  | stopSession => exact stage_apply hnone rfl (SessionManager.stopSession_reaches hcase inp.now)
  | cancelSession =>
    exact stage_apply hnone rfl ((SessionManager.cancelSession_reaches _).mono (by decide))
  | cancelJob id =>
    exact stage_apply hnone rfl ((SessionManager.cancelJob_reaches _ id).mono (by decide))
  | configure c =>
    refine ⟨⟨[.configurationChanged c], rfl, ?_⟩, .inl ⟨hidle, _, rfl, trivial⟩⟩
    intro e he
    rw [List.mem_singleton] at he
    subst he
    exact hop
  | pollCompleted | shutdown | tick => cases hop

/-- The next section of a call runs, and brings the return one section
closer. -/
theorem stage_resume (hcap : Captured m) (h : Stage m₀ op (n + 1) m) {f : Frame}
    (ho : m.owner = .inside f) (inp : Input) :
    ∃ m', m.resume f inp = some m' ∧ Stage m₀ op n m' := by
  obtain ⟨hevents, hpoint⟩ := h
  obtain ⟨hidle, -⟩ | ⟨f', k, hf, hleft, hk, hreturns⟩ := hpoint
  · rw [ho] at hidle
    cases hidle
  · rw [ho] at hf
    cases hf
    have hat : CaptureAt m.manager f := by
      unfold Captured at hcap
      rw [ho] at hcap
      exact hcap
    cases op with
    | startSession =>
      cases f with
      | starting =>
        refine ⟨_, rfl, stage_apply hevents hreturns ?_⟩
        exact (SessionManager.startRecording_reaches _ _ _).mono (Nat.zero_le n)
      | _ => cases hleft
    | stopSession =>
      cases f with
      | recorded id recording =>
        cases hleft
        refine ⟨_, rfl, stage_apply hevents hreturns ?_⟩
        exact (SessionManager.enqueueRecording_reaches hat _).mono (by omega)
      | enqueued id position =>
        refine ⟨_, rfl, stage_apply hevents hreturns (.done ?_ trivial)⟩
        rintro x ⟨⟩
        rfl
      | _ => cases hleft
    | cancelSession =>
      cases f with
      | discarding =>
        refine ⟨_, rfl, stage_apply hevents hreturns ?_⟩
        exact (SessionManager.discardSession_reaches _).mono (Nat.zero_le n)
      | _ => cases hleft
    | cancelJob id =>
      cases f with
      | cancelled id' =>
        refine ⟨_, rfl, stage_apply hevents hreturns (.done ?_ trivial)⟩
        rintro x ⟨⟩
        rfl
      | _ => cases hleft
    | pollCompleted | shutdown | tick | configure c => cases hleft

/-- What every step of the other threads keeps. -/
theorem meanwhile_keeps {P : Machine → Prop}
    (hstep : ∀ t a t', P t → a.byOwner = false → t.step a = some t' → P t') (acts : List Act) :
    ∀ {m : Machine}, P m → P (m.meanwhile acts) := by
  induction acts with
  | nil => exact fun h => h
  | cons a rest ih =>
    intro m h
    refine ih ?_
    cases ha : a.byOwner with
    | true => simpa [ha] using h
    | false =>
      cases hs : m.step a with
      | none => simpa [ha, hs] using h
      | some m' => simpa [ha, hs] using hstep m a m' h ha hs

theorem Stage.returned (h : Stage m₀ op 0 m) :
    m.owner = .idle ∧ ∃ r, m.returns = m₀.returns ++ [r] ∧ op.Answers r := by
  rcases h.point with hdone | ⟨f, k, -, hleft, hk, -⟩
  · exact hdone
  · obtain rfl : k = 0 := by omega
    -- a frame of a command has at least its own section left
    unfold Op.sectionsLeft at hleft
    split at hleft <;> cases hleft

/-- Run to the end, a call has returned. -/
theorem complete_stage (env : LineEnv) (fuel : Nat) : ∀ {n k : Nat} {m : Machine},
    Reachable capacity c liveConfig m → Stage m₀ op n m → n ≤ fuel →
      Reachable capacity c liveConfig (m.complete env fuel k) ∧
      Stage m₀ op 0 (m.complete env fuel k) := by
  induction fuel with
  | zero =>
    intro n k m hr hstage hn
    obtain rfl : n = 0 := by omega
    exact ⟨hr, hstage⟩
  | succ fuel ih =>
    intro n k m hr hstage hn
    have hr' : Reachable capacity c liveConfig (m.meanwhile (env.between k)) :=
      meanwhile_keeps (fun _ _ _ ht _ hs => ht.snoc hs) _ hr
    have hstage' : Stage m₀ op n (m.meanwhile (env.between k)) :=
      meanwhile_keeps (fun _ _ _ ht ha hs => ht.of_background (step_background ha hs)) _ hstage
    simp only [complete]
    generalize m.meanwhile (env.between k) = t at hr' hstage'
    rcases hstage'.point with ⟨hidle, r, hreturns, hanswer⟩ | ⟨f, left, ho, hleft, hk, -⟩
    · simp only [hidle]
      exact ⟨hr', hstage'.events, .inl ⟨hidle, r, hreturns, hanswer⟩⟩
    · have hpos : n ≠ 0 := by
        rintro rfl
        rw [(Stage.returned hstage').1] at ho
        cases ho
      obtain ⟨n, rfl⟩ := Nat.exists_eq_succ_of_ne_zero hpos
      obtain ⟨t', hresume, hnext⟩ := stage_resume hr'.captured hstage' ho (env.inputs k)
      have hs : t.step (.own (env.inputs k)) = some t' := by
        simp only [step, ho, hresume]
      simp only [ho, hresume]
      exact ih (hr'.snoc hs) hnext (by omega)

/-- A command's call of the session manager returns, and says and
publishes nothing that is not UTF-8. -/
theorem perform_spec (hr : Reachable capacity c liveConfig m) (hidle : m.owner = .idle)
    (hop : op.IsCommand) (env : LineEnv) :
    Reachable capacity c liveConfig (m.perform op env).1 ∧
    (m.perform op env).1.owner = .idle ∧
    (∃ es, (m.perform op env).1.log = m.log ++ es ∧ ∀ e ∈ es, allUtf8 e.texts = true) ∧
    ∃ r, (m.perform op env).2 = some r ∧ op.Answers r := by
  have hs : m.step (.call op (env.inputs 0)) = some (m.begin op (env.inputs 0)) := by
    simp only [step, hidle, if_true]
  obtain ⟨hr', hstage⟩ := complete_stage (k := 1) env 3 (hr.snoc hs)
    (stage_begin hr.captured hidle hop (env.inputs 0)) (by decide)
  obtain ⟨howner, r, hreturns, hanswer⟩ := hstage.returned
  refine ⟨hr', howner, hstage.events, r, ?_, hanswer⟩
  show ((complete env 3 1 (m.begin op (env.inputs 0))).returns.drop m.returns.length).head? = _
  rw [hreturns]
  simp

end Machine

/-! ## Configurations -/

/-- The libraries behave as documented. -/
structure Libraries.Lawful (lib : Libraries) : Prop where
  json : lib.json.Lawful
  config : lib.config.Lawful

theorem acceptString_utf8 {v : Json} {s : Bytes} (hv : v.utf8 = true)
    (h : acceptString v = some s) : validUtf8 s = true := by
  cases v with
  | str bytes =>
    cases h
    exact hv
  | _ => cases h

/-- A field of a parsed request, and the complaint about it. -/
theorem optionalField_ends {α : Type} {parsed : Json} {name what : String}
    {accept : Json → Option α} {P : Option α → Prop} (hnone : P none)
    (hsome : ∀ v a, parsed.get? (str name) = some v → accept v = some a → P (some a))
    (herror : validUtf8 (str (name ++ " must be " ++ what)) = true) :
    Lib.Ends P (validUtf8 · = true) (optionalField parsed name what accept) := by
  unfold optionalField
  split
  · exact hnone
  · rename_i v hget
    split
    · rename_i a haccept
      exact hsome v a hget haccept
    · exact herror

theorem policyField_ends (parsed : Json) :
    Lib.Ends (fun _ => True) (validUtf8 · = true) (policyField parsed) := by
  have hfield : Lib.Ends (fun _ => True) (validUtf8 · = true)
      (optionalField parsed "model_load_policy" "a string" acceptString) :=
    optionalField_ends trivial (fun _ _ _ _ => trivial) (by decide)
  unfold policyField
  split
  · split
    · trivial
    · refine Lib.Ends.throw ?_
      decide
  · trivial
  · rename_i e he
    exact hfield.of_error he

/-- Merging a UTF-8 request onto a UTF-8 configuration gives one, or a
UTF-8 complaint. -/
theorem mergeFields_utf8 {parsed : Json} {base : Configuration} (hp : parsed.utf8 = true)
    (hb : allUtf8 base.texts = true) :
    Lib.Ends (fun c => allUtf8 c.texts = true) (validUtf8 · = true) (mergeFields parsed base) := by
  simp only [Configuration.texts, allUtf8_cons, allUtf8_nil, Bool.and_true,
    Bool.and_eq_true] at hb
  obtain ⟨hlanguage, hmodel, hprompt⟩ := hb
  -- a string field leaves the base or sets a well-formed string
  have hstring : ∀ {name : String} {d : Bytes},
      validUtf8 (str (name ++ " must be " ++ "a string")) = true → validUtf8 d = true →
      Lib.Ends (fun o : Option Bytes => validUtf8 (o.getD d) = true) (validUtf8 · = true)
        (optionalField parsed name "a string" acceptString) := by
    intro name d herror hd
    refine optionalField_ends hd ?_ herror
    intro v s hget haccept
    exact acceptString_utf8 (Json.utf8_of_get? hp hget) haccept
  unfold mergeFields
  refine (hstring (by decide) hlanguage).bind fun language hl => ?_
  refine (hstring (by decide) hmodel).bind fun model hm => ?_
  refine Lib.Ends.bind (P := fun _ => True)
    (optionalField_ends trivial (fun _ _ _ _ => trivial) (by decide)) fun clipboard _ => ?_
  refine Lib.Ends.bind (P := fun _ => True) (policyField_ends parsed) fun policy _ => ?_
  refine (hstring (by decide) hprompt).bind fun prompt hpr => ?_
  refine Lib.Ends.pure ?_
  simp [Configuration.texts, hl, hm, hpr]

theorem decodeSetConfig_utf8 {json : JsonLib} (h : json.Lawful) (line : Bytes)
    {base : Configuration} (hb : allUtf8 base.texts = true) :
    allUtf8 (decodeSetConfig json line base).configuration.texts = true ∧
      ∀ e ∈ (decodeSetConfig json line base).error, validUtf8 e = true := by
  unfold decodeSetConfig
  split
  · rename_i fields hparse
    have hends := mergeFields_utf8 (h.utf8_of_parse line _ hparse) hb
    split
    · rename_i c hmerge
      exact ⟨hends.of_ok hmerge, by simp⟩
    · rename_i e hmerge
      exact ⟨hb, by simpa using hends.of_error hmerge⟩
  · refine ⟨hb, ?_⟩
    rintro e ⟨⟩
    decide

/-- A validation error is in UTF-8. -/
def ValidationError.Utf8 (e : ValidationError) : Prop :=
  validUtf8 e.field = true ∧ validUtf8 e.message = true

theorem validate_utf8 {c : Configuration} : ∀ e ∈ validate c, e.Utf8 := by
  intro e he
  unfold validate at he
  rcases List.mem_append.mp he with he | he
  · split at he
    · cases he
    · rw [List.mem_singleton] at he
      subst he
      exact ⟨by decide, by decide⟩
  · split at he
    · cases he
    · rw [List.mem_singleton] at he
      subst he
      exact ⟨by decide, by decide⟩

theorem writeFileAtomically_utf8 {lib : ConfigLib} (h : lib.Lawful) (files : Files)
    (path : Bytes) (pid : Nat) (contents : Bytes) (outcome : WriteOutcome) :
    ∀ e ∈ (writeFileAtomically lib.strerror files path pid contents outcome).2,
      validUtf8 e = true := by
  cases outcome with
  | done => rintro e ⟨⟩
  | openFailed | writeFailed =>
    rintro e ⟨⟩
    decide
  | renameFailed errno removed =>
    rintro e ⟨⟩
    exact Lib.validUtf8_append (by decide) (h.strerror_utf8 errno)

theorem update_utf8 {lib : ConfigLib} (h : lib.Lawful) {m : ConfigurationManager}
    {next : Configuration} (hm : allUtf8 m.configuration.texts = true)
    (hnext : allUtf8 next.texts = true) (write : WriteOutcome) :
    allUtf8 (m.update lib next write).1.configuration.texts = true ∧
      ∀ e ∈ (m.update lib next write).2, e.Utf8 := by
  have hwrite := writeFileAtomically_utf8 h m.files m.configPath m.pid
    (encodeToml lib.toml next) write
  have hvalid := validate_utf8 (c := next)
  unfold ConfigurationManager.update
  split
  · simp only
    split
    · rename_i message hmessage
      refine ⟨hm, ?_⟩
      intro e he
      simp only [ConfigurationManager.fileError, List.mem_singleton] at he
      subst he
      have hname : validUtf8 (str "<file>") = true := by decide
      exact ⟨hname, hwrite message hmessage⟩
    · exact ⟨hnext, by simp⟩
  · exact ⟨hm, hvalid⟩

theorem rejectionText_utf8 {errors : List ValidationError} (h : ∀ e ∈ errors, e.Utf8) :
    validUtf8 (CommandDispatcher.rejectionText errors) = true := by
  refine Lib.validUtf8_append (by decide) (Lib.validUtf8_flatMap ?_)
  rintro ⟨e, i⟩ hmem
  obtain ⟨hfield, hmessage⟩ := h e (List.fst_mem_of_mem_zipIdx hmem)
  have hseparator : validUtf8 (if i = 0 then str " " else str ", ") = true := by
    split <;> decide
  refine Lib.validUtf8_append (Lib.validUtf8_append (Lib.validUtf8_append hseparator hfield) ?_)
    hmessage
  decide

/-! ## Models -/

/-- Of a listed model, only the file name decides. -/
theorem allUtf8_listed {directory : Bytes} {entries : List DirectoryEntry} {model : Model}
    (h : model ∈ listAvailableModels directory entries) :
    allUtf8 model.texts = (validUtf8 model.name && validUtf8 model.path) := by
  obtain ⟨entry, -, hentry⟩ := List.mem_filterMap.mp h
  unfold modelOfEntry at hentry
  simp only at hentry
  split at hentry
  · cases hentry
  · split at hentry
    · cases hentry
    · split at hentry
      · cases hentry
      · cases hentry
        have hbackend : validUtf8 (str "whisper.cpp") = true := by decide
        have hlanguage : ∀ tokens, validUtf8 (inferSupportedLanguage tokens) = true := by
          intro tokens
          unfold inferSupportedLanguage
          split <;> decide
        simp [Model.texts, hbackend, hlanguage]

/-! ## The dispatcher -/

/-- The type a response to the line has to carry. -/
def requestType (json : JsonLib) (line : Bytes) : Bytes :=
  (parseMessage json line).type.getD (str "error")

/-- `handle_line` returned a response of this type. -/
def Reply.Answers (json : JsonLib) (type : Bytes) : Reply → Prop
  | .line bytes => IsResponse json type bytes
  | _ => False

theorem Reply.answers_ofDump {json : JsonLib} {type : Bytes} {dumped : Option Bytes}
    (h : ∃ line, dumped = some line ∧ IsResponse json type line) :
    (Reply.ofDump dumped).Answers json type := by
  obtain ⟨line, rfl, hline⟩ := h
  exact hline

theorem parseMessage_utf8 {json : JsonLib} (h : json.Lawful) {line type : Bytes}
    (ht : (parseMessage json line).type = some type) : validUtf8 type = true := by
  unfold parseMessage at ht
  split at ht
  · rename_i bytes hget
    cases ht
    obtain ⟨v, hparse, hfield⟩ := Option.bind_eq_some_iff.mp hget
    exact Json.utf8_of_get? (h.utf8_of_parse line v hparse) hfield
  · cases ht

/-- The dispatcher between two lines: the session manager is idle in a
state it can be in, and the configuration is in UTF-8. -/
structure CommandDispatcher.Ready (capacity : Nat) (c : Configuration)
    (liveConfig : LiveTranscriberConfig) (s : CommandDispatcher) : Prop where
  reachable : Machine.Reachable capacity c liveConfig s.machine
  idle : s.machine.owner = .idle
  configuration : allUtf8 s.configurationManager.configuration.texts = true

/-- The managers published only UTF-8 between the two states. -/
def CommandDispatcher.Published (s s' : CommandDispatcher) : Prop :=
  ∃ es, s'.machine.log = s.machine.log ++ es ∧ ∀ e ∈ es, allUtf8 e.texts = true

namespace CommandDispatcher

variable {lib : Libraries} {s : CommandDispatcher} {capacity : Nat} {c : Configuration}
  {liveConfig : LiveTranscriberConfig} {type line : Bytes}

theorem Published.refl (s : CommandDispatcher) : s.Published s := ⟨[], by simp⟩

theorem call_spec (hs : s.Ready capacity c liveConfig) (op : Op) (hop : op.IsCommand)
    (env : LineEnv) {json : JsonLib} {respond : Return → Option Bytes}
    (hrespond : ∀ r, op.Answers r → ∃ line, respond r = some line ∧ IsResponse json type line) :
    (s.call op env respond).1.Ready capacity c liveConfig ∧
    s.Published (s.call op env respond).1 ∧
    (s.call op env respond).2.Answers json type := by
  obtain ⟨hr, howner, hevents, r, hreturn, hanswer⟩ :=
    Machine.perform_spec hs.reachable hs.idle hop env
  unfold call
  cases hperform : s.machine.perform op env with
  | mk machine result =>
    rw [hperform] at hr howner hevents hreturn
    subst hreturn
    exact ⟨⟨hr, howner, hs.configuration⟩, hevents, Reply.answers_ofDump (hrespond r hanswer)⟩

theorem respondStart_response (h : lib.json.Lawful) (htype : validUtf8 type = true) :
    ∀ r, Op.startSession.Answers r →
      ∃ line, respondStart lib.json type r = some line ∧ IsResponse lib.json type line := by
  intro r hr
  cases r with
  | startSession e =>
    cases e with
    | none => exact encodeAck_response h htype
    | some e => exact encodeError_response h htype (hr e rfl)
  | _ => cases hr

theorem respondStop_response (h : lib.json.Lawful) (htype : validUtf8 type = true) :
    ∀ r, Op.stopSession.Answers r →
      ∃ line, respondStop lib.json type r = some line ∧ IsResponse lib.json type line := by
  intro r hr
  cases r with
  | stopSession result =>
    cases result with
    | queuedJob id position => exact encodeQueued_response h id position htype
    | error e => exact encodeError_response h htype hr
  | _ => cases hr

theorem respondCancelJob_response (h : lib.json.Lawful) {id : SessionId}
    (htype : validUtf8 type = true) : ∀ r, (Op.cancelJob id).Answers r →
      ∃ line, respondCancelJob lib.json type r = some line ∧ IsResponse lib.json type line := by
  intro r hr
  cases r with
  | cancelJob id found =>
    cases found with
    | true => exact encodeAck_response h htype
    | false =>
      have hmessage : validUtf8 (str "no queued job with that session_id") = true := by decide
      exact encodeError_response h htype hmessage
  | _ => cases hr

theorem respondCancelSession_response (h : lib.json.Lawful) (htype : validUtf8 type = true) :
    ∀ r, Op.cancelSession.Answers r →
      ∃ line, respondCancelSession lib.json type r = some line ∧
        IsResponse lib.json type line := by
  intro r hr
  cases r with
  | cancelSession e =>
    cases e with
    | none => exact encodeAck_response h htype
    | some e => exact encodeError_response h htype (hr e rfl)
  | _ => cases hr

theorem setConfig_spec (h : lib.Lawful) (hs : s.Ready capacity c liveConfig)
    (htype : validUtf8 type = true) (env : LineEnv) :
    (s.setConfig lib type line env).1.Ready capacity c liveConfig ∧
    s.Published (s.setConfig lib type line env).1 ∧
    (s.setConfig lib type line env).2.Answers lib.json type := by
  obtain ⟨hdecoded, herror⟩ := decodeSetConfig_utf8 h.json line hs.configuration
  unfold setConfig
  simp only
  split
  · rename_i e he
    exact ⟨hs, Published.refl s, Reply.answers_ofDump
      (encodeError_response h.json htype (herror e he))⟩
  · obtain ⟨hconfiguration, herrors⟩ := update_utf8 h.config hs.configuration hdecoded env.write
    split
    · have hop : Op.IsCommand (.configure _) := hconfiguration
      obtain ⟨hr, howner, hevents, -⟩ := Machine.perform_spec hs.reachable hs.idle hop env
      exact ⟨⟨hr, howner, hconfiguration⟩, hevents,
        Reply.answers_ofDump (encodeConfig_response h.json htype hconfiguration)⟩
    · exact ⟨⟨hs.reachable, hs.idle, hconfiguration⟩, Published.refl _,
        Reply.answers_ofDump (encodeError_response h.json htype (rejectionText_utf8 herrors))⟩

/-- A listed model whose file name or path is not UTF-8. -/
def Unprintable (s : CommandDispatcher) (env : LineEnv) : Prop :=
  ∃ model ∈ listAvailableModels s.modelsDirectory env.entries,
    ¬ (validUtf8 model.name = true ∧ validUtf8 model.path = true)

/-- `list_models` answers exactly when every listed name and path is
UTF-8; otherwise `dump()` throws. -/
theorem listModels_answers_iff (h : lib.json.Lawful) (s : CommandDispatcher) (env : LineEnv)
    (htype : validUtf8 type = true) :
    (Reply.ofDump (encodeModels lib.json type
      (listAvailableModels s.modelsDirectory env.entries))).Answers lib.json type ↔
      ¬ s.Unprintable env := by
  have hsome := encodeModels_isSome h (listAvailableModels s.modelsDirectory env.entries) htype
  cases hdump : encodeModels lib.json type (listAvailableModels s.modelsDirectory env.entries) with
  | some line =>
    rw [hdump, Option.isSome_some, eq_comm, List.all_eq_true] at hsome
    refine iff_of_true (encodeModels_response h hdump) ?_
    rintro ⟨model, hmem, hbad⟩
    have htexts := hsome model hmem
    rw [allUtf8_listed hmem, Bool.and_eq_true] at htexts
    exact hbad htexts
  | none =>
    rw [hdump, Option.isSome_none, eq_comm, List.all_eq_false] at hsome
    obtain ⟨model, hmem, htexts⟩ := hsome
    rw [allUtf8_listed hmem, Bool.and_eq_true] at htexts
    exact iff_of_false id (not_not_intro ⟨model, hmem, htexts⟩)

/-- What one line does: the dispatcher is ready again, what it published is
UTF-8, and it answers unless the line asks for the models and one of them
cannot be printed. -/
theorem handleLine_spec (h : lib.Lawful) (hs : s.Ready capacity c liveConfig) (line : Bytes)
    (env : LineEnv) :
    (s.handleLine lib line env).1.Ready capacity c liveConfig ∧
    s.Published (s.handleLine lib line env).1 ∧
    ((s.handleLine lib line env).2.Answers lib.json (requestType lib.json line) ↔
      ¬ ((parseMessage lib.json line).type = some (str "list_models") ∧ s.Unprintable env)) := by
  have hrefl := Published.refl s
  unfold handleLine requestType
  simp only
  cases hmessage : (parseMessage lib.json line).type with
  | none =>
    have herror : validUtf8 ((parseMessage lib.json line).error.getD (str "malformed message")) =
        true := by
      unfold parseMessage at hmessage ⊢
      split
      · show validUtf8 (str "malformed message") = true
        decide
      · decide
    refine ⟨hs, hrefl, iff_of_true ?_ (by simp)⟩
    exact Reply.answers_ofDump (encodeError_response h.json (by decide) herror)
  | some type =>
    have htype := parseMessage_utf8 h.json hmessage
    -- every command but one answers whatever the state
    have hother : ∀ {s' : CommandDispatcher} {reply : Reply}, type ≠ str "list_models" →
        s'.Ready capacity c liveConfig ∧ s.Published s' ∧ reply.Answers lib.json type →
        s'.Ready capacity c liveConfig ∧ s.Published s' ∧
          (reply.Answers lib.json type ↔
            ¬ (some type = some (str "list_models") ∧ s.Unprintable env)) := by
      rintro s' reply hne ⟨hready, hpublished, hanswers⟩
      refine ⟨hready, hpublished, iff_of_true hanswers ?_⟩
      rintro ⟨heq, -⟩
      exact hne (Option.some.inj heq)
    simp only [Option.getD_some]
    by_cases h₁ : type = str "start_recording"
    · rw [if_pos h₁]
      exact hother (by rw [h₁]; decide)
        (call_spec hs .startSession trivial env (respondStart_response h.json htype))
    rw [if_neg h₁]
    by_cases h₂ : type = str "stop_recording"
    · rw [if_pos h₂]
      exact hother (by rw [h₂]; decide)
        (call_spec hs .stopSession trivial env (respondStop_response h.json htype))
    rw [if_neg h₂]
    by_cases h₃ : type = str "cancel_job"
    · rw [if_pos h₃]
      refine hother (by rw [h₃]; decide) ?_
      cases decodeCancelJob lib.json line with
      | none =>
        have htext : validUtf8 (str "session_id must be a non-negative integer") = true := by
          decide
        exact ⟨hs, hrefl, Reply.answers_ofDump (encodeError_response h.json htype htext)⟩
      | some id => exact call_spec hs (.cancelJob id) trivial env (respondCancelJob_response h.json htype)
    rw [if_neg h₃]
    by_cases h₄ : type = str "cancel_session"
    · rw [if_pos h₄]
      exact hother (by rw [h₄]; decide)
        (call_spec hs .cancelSession trivial env (respondCancelSession_response h.json htype))
    rw [if_neg h₄]
    by_cases h₅ : type = str "get_state"
    · rw [if_pos h₅]
      exact hother (by rw [h₅]; decide)
        ⟨hs, hrefl, Reply.answers_ofDump (encodeState_response h.json _ htype)⟩
    rw [if_neg h₅]
    by_cases h₆ : type = str "get_config"
    · rw [if_pos h₆]
      exact hother (by rw [h₆]; decide)
        ⟨hs, hrefl, Reply.answers_ofDump (encodeConfig_response h.json htype hs.configuration)⟩
    rw [if_neg h₆]
    by_cases h₇ : type = str "set_config"
    · rw [if_pos h₇]
      exact hother (by rw [h₇]; decide) (setConfig_spec h hs htype env)
    rw [if_neg h₇]
    by_cases h₈ : type = str "list_models"
    · rw [if_pos h₈]
      refine ⟨hs, hrefl, (listModels_answers_iff h.json s env htype).trans ?_⟩
      simp [h₈]
    · rw [if_neg h₈]
      have htext : validUtf8 (str "unknown command: " ++ type) = true :=
        Lib.validUtf8_append (by decide) htype
      exact hother h₈ ⟨hs, hrefl, Reply.answers_ofDump (encodeError_response h.json htype htext)⟩

end CommandDispatcher

end YoruSpeech

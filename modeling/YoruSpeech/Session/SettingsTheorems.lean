/-
YoruSpeech.Session.SettingsTheorems — the copies of the settings inside the
session domain.

`SessionManager` and `LiveTranscriber` keep the language and the prompt of
the configuration, and change them only in their handlers of
`ConfigurationChanged`.

* `Unconfigured` — a stretch of steps that publishes no such event leaves
  the four copies alone; `step_unconfigured` shows that every step but the
  publication itself is one.
* `Sessional` — a stretch in which the preview publishes nothing either;
  `step_sessional` shows that every other step but the end of a preview
  decode is one.
* `Reachable.follows` — in every reachable state the copies are those of
  the configuration announced last.
-/
import YoruSpeech.Session.LiveTranscriberTheorems
import YoruSpeech.Session.MachineMoves

namespace YoruSpeech

/-- The configuration an event announces. -/
def Event.configuration? : Event → Option Configuration
  | .configurationChanged c => some c
  | _ => none

/-- An event of the session manager or the recording manager. -/
def Event.ofSession : Event → Bool
  | .configurationChanged _ => false
  | .transcriptionPartial _ _ _ => false
  | _ => true

theorem Event.configuration?_of_ofSession {e : Event} (h : e.ofSession = true) :
    e.configuration? = none := by
  cases e with
  | configurationChanged c => cases h
  | _ => rfl

/-- The configuration in force after these events. -/
def configurationAfter (c : Configuration) (log : List Event) : Configuration :=
  log.foldl (fun c e => e.configuration?.getD c) c

theorem configurationAfter_append (c : Configuration) (log es : List Event) :
    configurationAfter c (log ++ es) = configurationAfter (configurationAfter c log) es := by
  simp [configurationAfter]

theorem configurationAfter_silent {c : Configuration} {es : List Event}
    (h : ∀ e ∈ es, e.configuration? = none) : configurationAfter c es = c := by
  induction es with
  | nil => rfl
  | cons e rest ih =>
    have hhead := h e List.mem_cons_self
    simp only [configurationAfter, List.foldl_cons, hhead, Option.getD_none]
    exact ih fun x hx => h x (List.mem_cons_of_mem e hx)

/-! ## The sections of the session manager -/

/-- The section keeps the settings and publishes only events of its own. -/
def Next.Unconfigured (g : SessionManager) : Next → Prop
  | .done g' e _ | .more g' e _ =>
    g'.defaultLanguage = g.defaultLanguage ∧ g'.transcriptionPrompt = g.transcriptionPrompt ∧
      ∀ x ∈ e, x.ofSession = true
  | .undefined => True

theorem publishes_nothing : ∀ x ∈ (none : Option Event), x.ofSession = true := by simp

theorem publishes_only {e : Event} (h : e.ofSession = true) :
    ∀ x ∈ some e, x.ofSession = true := by
  rintro x ⟨⟩
  exact h

namespace SessionManager

variable {g g' : SessionManager}

theorem fail_unconfigured {component : Component} {message : Bytes} {now : Nat} {e : Event}
    (h : g.fail component message now = some (g', e)) :
    g'.defaultLanguage = g.defaultLanguage ∧ g'.transcriptionPrompt = g.transcriptionPrompt ∧
      e.ofSession = true := by
  unfold fail at h
  split at h
  · cases h
  · cases h
    exact ⟨rfl, rfl, rfl⟩

theorem startSession_unconfigured (g : SessionManager) : g.startSession.Unconfigured g := by
  rcases startSession_cases g with ⟨e, r, heq, he⟩ | ⟨-, -, heq⟩
  · rw [heq]
    refine ⟨rfl, rfl, ?_⟩
    rcases he with rfl | ⟨message, rfl⟩ <;> rintro x ⟨⟩
    rfl
  · rw [heq]
    exact ⟨rfl, rfl, publishes_nothing⟩

theorem startRecording_unconfigured (g : SessionManager) (outcome : DeviceStart) (now : Nat) :
    (g.startRecording outcome now).Unconfigured g := by
  unfold startRecording RecordingManager.start
  simp only
  split
  · rename_i hstart
    exact ⟨rfl, rfl, publishes_only rfl⟩
  · rename_i event hstart
    refine ⟨rfl, rfl, publishes_only ?_⟩
    split at hstart
    · cases hstart
    · split at hstart
      · cases hstart
      · cases hstart
        rfl

theorem stopSession_unconfigured (g : SessionManager) (now : Nat) :
    (g.stopSession now).Unconfigured g := by
  unfold stopSession RecordingManager.stop
  split
  · exact ⟨rfl, rfl, publishes_nothing⟩
  · split
    · trivial
    · split
      · split
        · trivial
        · rename_i hfail
          obtain ⟨hlanguage, hprompt, hevent⟩ := fail_unconfigured hfail
          exact ⟨hlanguage, hprompt, publishes_only hevent⟩
      · rename_i hstop
        refine ⟨rfl, rfl, publishes_only ?_⟩
        split at hstop
        · cases hstop
        · simp only at hstop
          split at hstop
          · cases hstop
          · cases hstop
            rfl

theorem enqueueRecording_unconfigured (g : SessionManager) (id : SessionId)
    (recording : Recording) (now : Nat) :
    (g.enqueueRecording id recording now).Unconfigured g := by
  unfold enqueueRecording
  split
  · trivial
  · simp only
    split
    · split
      · trivial
      · rename_i hfail
        obtain ⟨hlanguage, hprompt, hevent⟩ := fail_unconfigured hfail
        exact ⟨hlanguage, hprompt, publishes_only hevent⟩
    · exact ⟨rfl, rfl, publishes_nothing⟩

theorem cancelSession_unconfigured (g : SessionManager) : g.cancelSession.Unconfigured g := by
  unfold cancelSession RecordingManager.stop
  split
  · exact ⟨rfl, rfl, publishes_nothing⟩
  · split
    · split
      · exact ⟨rfl, rfl, publishes_nothing⟩
      · rename_i hstop
        refine ⟨rfl, rfl, publishes_only ?_⟩
        split at hstop
        · cases hstop
        · simp only at hstop
          split at hstop
          · cases hstop
          · cases hstop
            rfl
    · exact ⟨rfl, rfl, publishes_nothing⟩

theorem discardSession_unconfigured (g : SessionManager) : g.discardSession.Unconfigured g := by
  refine ⟨rfl, rfl, ?_⟩
  intro x hx
  obtain ⟨s, -, rfl⟩ := Option.map_eq_some_iff.mp hx
  rfl

theorem cancelJob_unconfigured (g : SessionManager) (id : SessionId) :
    (g.cancelJob id).Unconfigured g := by
  rcases cancelJob_cases g id with ⟨-, heq⟩ | ⟨-, heq⟩
  · rw [heq]
    exact ⟨rfl, rfl, publishes_nothing⟩
  · rw [heq]
    exact ⟨rfl, rfl, publishes_nothing⟩

theorem announceStarted_unconfigured (g : SessionManager) (starts : List SessionId)
    (results : List TranscriptionJobResult) :
    (g.announceStarted starts results).Unconfigured g := by
  cases starts with
  | nil => exact ⟨rfl, rfl, publishes_nothing⟩
  | cons id rest => exact ⟨rfl, rfl, publishes_only rfl⟩

theorem reportResult_unconfigured (g : SessionManager) (results : List TranscriptionJobResult)
    (count : Nat) : (g.reportResult results count).Unconfigured g := by
  cases results with
  | nil => exact ⟨rfl, rfl, publishes_nothing⟩
  | cons job rest =>
    obtain ⟨id, result⟩ := job
    cases result with
    | transcript t => exact ⟨rfl, rfl, publishes_only rfl⟩
    | error e => exact ⟨rfl, rfl, publishes_only rfl⟩

theorem pollCompleted_unconfigured (g : SessionManager) : g.pollCompleted.Unconfigured g :=
  ⟨rfl, rfl, publishes_nothing⟩

theorem collectStarted_unconfigured (g : SessionManager)
    (results : List TranscriptionJobResult) : (g.collectStarted results).Unconfigured g :=
  ⟨rfl, rfl, publishes_nothing⟩

theorem shutdown_unconfigured (g : SessionManager) : g.shutdown.Unconfigured g :=
  ⟨rfl, rfl, publishes_nothing⟩

theorem reportDropped_unconfigured (g : SessionManager) (todo dropped : List SessionId) :
    (g.reportDropped todo dropped).Unconfigured g := by
  cases todo with
  | nil => exact ⟨rfl, rfl, publishes_nothing⟩
  | cons id rest => exact ⟨rfl, rfl, publishes_only rfl⟩

end SessionManager

/-! ## The live preview -/

/-- The two copies the preview keeps. -/
def LiveTranscriber.settings (l : LiveTranscriber) : Bytes × Bytes :=
  (l.defaultLanguage, l.transcriptionPrompt)

namespace LiveTranscriber

variable {l : LiveTranscriber}

theorem onEvent_settings {e : Event} (he : e.configuration? = none) :
    (l.onEvent e).settings = l.settings := by
  cases e with
  | configurationChanged c => cases he
  | _ => rfl

theorem chooseWindow_settings {now : Int} {window : List Sample} {l' : LiveTranscriber}
    (h : l.chooseWindow now window = .decode l' ∨ l.chooseWindow now window = .cut l') :
    l'.settings = l.settings := by
  rcases h with h | h
  · obtain ⟨-, -, rfl⟩ := chooseWindow_eq_decode h
    rfl
  · obtain ⟨-, -, rfl⟩ := chooseWindow_eq_cut h
    rfl

theorem absorb_settings (words : List Bytes) (size : Nat) (verdict : Bool) :
    (l.absorb words size verdict).settings = l.settings := by
  have huntouched := absorb_untouched l words size verdict
  rw [settings, settings, huntouched.language, huntouched.prompt]

theorem afterDecode_settings (id : SessionId) (size : Nat) (result : TranscriptionResult)
    (verdict : Bool) :
    (l.afterDecode id size result verdict).1.settings = l.settings ∧
      ∀ e ∈ (l.afterDecode id size result verdict).2, e.configuration? = none := by
  unfold afterDecode
  split
  · exact ⟨rfl, by simp⟩
  · simp only
    split
    · exact ⟨absorb_settings _ _ _, by simp⟩
    · refine ⟨absorb_settings _ _ _, ?_⟩
      rintro e ⟨⟩
      rfl

end LiveTranscriber

/-! ## Steps -/

namespace Machine

variable {m m' m'' : Machine}

/-- Between the two states the copies stayed as they were, and every event
that was published satisfies `P`. -/
structure Within (P : Event → Prop) (m m' : Machine) : Prop where
  language : m'.manager.defaultLanguage = m.manager.defaultLanguage
  prompt : m'.manager.transcriptionPrompt = m.manager.transcriptionPrompt
  live : m'.live.settings = m.live.settings
  log : ∃ es, m'.log = m.log ++ es ∧ ∀ e ∈ es, P e

/-- Nothing between the two states announced a configuration, and the
copies are the same. -/
abbrev Unconfigured : Machine → Machine → Prop := Within (·.configuration? = none)

/-- Only the session manager and the recording manager published. -/
abbrev Sessional : Machine → Machine → Prop := Within (·.ofSession = true)

namespace Within

variable {P Q : Event → Prop}

theorem refl (m : Machine) : Within P m m := ⟨rfl, rfl, rfl, [], by simp⟩

theorem trans (h : Within P m m') (h' : Within P m' m'') : Within P m m'' := by
  obtain ⟨es, hlog, hes⟩ := h.log
  obtain ⟨es', hlog', hes'⟩ := h'.log
  refine ⟨h'.language.trans h.language, h'.prompt.trans h.prompt, h'.live.trans h.live,
    es ++ es', ?_, ?_⟩
  · rw [hlog', hlog, List.append_assoc]
  · intro e he
    rcases List.mem_append.mp he with he | he
    · exact hes e he
    · exact hes' e he

theorem mono (hPQ : ∀ e, P e → Q e) (h : Within P m m') : Within Q m m' := by
  obtain ⟨es, hlog, hes⟩ := h.log
  exact ⟨h.language, h.prompt, h.live, es, hlog, fun e he => hPQ e (hes e he)⟩

/-- A step that touches neither the copies nor the log. -/
theorem of_same (hmanager : m'.manager.defaultLanguage = m.manager.defaultLanguage)
    (hprompt : m'.manager.transcriptionPrompt = m.manager.transcriptionPrompt)
    (hlive : m'.live.settings = m.live.settings) (hlog : m'.log = m.log) : Within P m m' :=
  ⟨hmanager, hprompt, hlive, [], by simp [hlog]⟩

end Within

theorem Sessional.unconfigured (h : Sessional m m') : Unconfigured m m' :=
  h.mono fun _ => Event.configuration?_of_ofSession

/-- A publication that announces no configuration. -/
theorem publish?_within (m : Machine) {P : Event → Prop} {e : Option Event} (he : ∀ x ∈ e, P x)
    (hnone : ∀ x ∈ e, x.configuration? = none) : Within P m (m.publish? e) := by
  cases e with
  | none => exact .refl m
  | some e =>
    have hquiet := hnone e rfl
    refine ⟨?_, ?_, LiveTranscriber.onEvent_settings hquiet, [e], rfl, ?_⟩
    · show (m.manager.onEvent e).defaultLanguage = _
      cases e <;> first | rfl | cases hquiet
    · show (m.manager.onEvent e).transcriptionPrompt = _
      cases e <;> first | rfl | cases hquiet
    · intro x hx
      rw [List.mem_singleton] at hx
      exact hx ▸ he e rfl

theorem publish?_sessional (m : Machine) {e : Option Event} (he : ∀ x ∈ e, x.ofSession = true) :
    Sessional m (m.publish? e) :=
  publish?_within m he fun x hx => Event.configuration?_of_ofSession (he x hx)

theorem apply_sessional (m : Machine) {next : Next}
    (h : next.Unconfigured m.manager) : Sessional m (m.apply next) := by
  cases next with
  | done g e r =>
    obtain ⟨hlanguage, hprompt, he⟩ := h
    have hset : Sessional m
        { m with manager := g, owner := .idle, returns := m.returns ++ [r] } :=
      .of_same hlanguage hprompt rfl rfl
    exact hset.trans (publish?_sessional _ he)
  | more g e f =>
    obtain ⟨hlanguage, hprompt, he⟩ := h
    have hset : Sessional m
        { m with manager := g, owner := .inside f, history := m.history.note f } :=
      .of_same hlanguage hprompt rfl rfl
    exact hset.trans (publish?_sessional _ he)
  | undefined => exact .of_same rfl rfl rfl rfl

/-- The step is the publication of a configuration. -/
def configures : Act → Bool
  | .call (.configure _) _ => true
  | _ => false

theorem begin_sessional (m : Machine) (inp : Input) {op : Op}
    (hop : ∀ c, op ≠ .configure c) : Sessional m (m.begin op inp) := by
  cases op with
  | startSession => exact apply_sessional m (SessionManager.startSession_unconfigured _)
  | stopSession => exact apply_sessional m (SessionManager.stopSession_unconfigured _ _)
  | pollCompleted => exact apply_sessional m (SessionManager.pollCompleted_unconfigured _)
  | cancelSession => exact apply_sessional m (SessionManager.cancelSession_unconfigured _)
  | cancelJob id => exact apply_sessional m (SessionManager.cancelJob_unconfigured _ _)
  | shutdown =>
    let noted : Machine := { m with history := { m.history with
      pendingAtStop := m.history.pendingAtStop <|> some m.manager.queue.pendingIds } }
    have hnoted : Sessional m noted := .of_same rfl rfl rfl rfl
    exact hnoted.trans (apply_sessional noted (SessionManager.shutdown_unconfigured m.manager))
  | configure c => exact absurd rfl (hop c)
  | tick =>
    show Sessional m m.beginTick
    unfold beginTick
    split
    · exact .of_same rfl rfl rfl rfl
    · split
      · exact .of_same rfl rfl rfl rfl
      · exact .of_same rfl rfl rfl rfl

theorem resume_sessional {f : Frame} {inp : Input} (hs : m.resume f inp = some m') :
    Sessional m m' := by
  cases f with
  | starting =>
    cases hs
    let noted : Machine := { m with history := { m.history with
      issued := m.history.issued ++ [m.manager.nextSessionId] } }
    have hnoted : Sessional m noted := .of_same rfl rfl rfl rfl
    exact hnoted.trans
      (apply_sessional noted (SessionManager.startRecording_unconfigured m.manager _ _))
  | recorded id recording =>
    cases hs
    exact apply_sessional m (SessionManager.enqueueRecording_unconfigured _ _ _ _)
  | enqueued id position =>
    cases hs
    have hnext : (m.manager.announceQueued id position).Unconfigured m.manager :=
      ⟨rfl, rfl, publishes_only rfl⟩
    exact apply_sessional m hnext
  | discarding =>
    cases hs
    exact apply_sessional m (SessionManager.discardSession_unconfigured _)
  | cancelled id =>
    cases hs
    have hnext : (m.manager.announceCancelled id).Unconfigured m.manager :=
      ⟨rfl, rfl, publishes_only rfl⟩
    exact apply_sessional m hnext
  | drained results =>
    cases hs
    exact apply_sessional m (SessionManager.collectStarted_unconfigured _ _)
  | announcing starts results =>
    cases hs
    exact apply_sessional m (SessionManager.announceStarted_unconfigured _ _ _)
  | reporting results count =>
    cases hs
    exact apply_sessional m (SessionManager.reportResult_unconfigured _ _ _)
  | stopping dropped =>
    cases hs
    exact .of_same rfl rfl rfl rfl
  | aborted dropped =>
    simp only [resume] at hs
    split at hs
    · split at hs
      · cases hs
        exact .of_same rfl rfl rfl rfl
      · cases hs
    · cases hs
      exact .of_same rfl rfl rfl rfl
  | dropping todo dropped =>
    cases hs
    exact apply_sessional m (SessionManager.reportDropped_unconfigured _ _ _)

theorem tickWindow_sessional (m : Machine) (now : Int) : Sessional m (m.tickWindow now) := by
  unfold tickWindow
  split
  · exact .of_same rfl rfl rfl rfl
  · simp only
    split
    · exact .of_same rfl rfl rfl rfl
    · rename_i l hchoice
      exact .of_same rfl rfl (LiveTranscriber.chooseWindow_settings (.inl hchoice)) rfl
    · rename_i l hchoice
      exact .of_same rfl rfl (LiveTranscriber.chooseWindow_settings (.inr hchoice)) rfl

theorem tickDecoded_unconfigured (m : Machine) (id : SessionId) (window : List Sample)
    (inp : Input) : Unconfigured m (m.tickDecoded id window inp) := by
  obtain ⟨hsettings, hevent⟩ :=
    m.live.afterDecode_settings id window.length inp.partialResult inp.verdict
  refine Within.trans ?_ (publish?_within _ hevent hevent)
  exact .of_same rfl rfl hsettings rfl

theorem offstage_sessional (h : Offstage m m') : Sessional m m' := by
  obtain ⟨queue, recorder, hmanager⟩ := h.manager
  refine .of_same ?_ ?_ ?_ h.log
  · rw [hmanager]
  · rw [hmanager]
  · rw [h.live]

/-- The step is the end of a preview decode. -/
def decodes (m : Machine) : Act → Bool
  | .own _ =>
    match m.owner with
    | .decoding _ _ => true
    | _ => false
  | _ => false

theorem decodes_eq_true {a : Act} (h : m.decodes a = true) :
    ∃ inp id window, a = .own inp ∧ m.owner = .decoding id window := by
  cases a with
  | own inp =>
    cases ho : m.owner with
    | decoding id window => exact ⟨inp, id, window, rfl, rfl⟩
    | _ => simp [decodes, ho] at h
  | _ => cases h

/-- Every step but the publication of a configuration and the end of a
preview decode. -/
theorem step_sessional {a : Act} (ha : configures a = false) (hd : m.decodes a = false)
    (hs : m.step a = some m') : Sessional m m' := by
  cases a with
  | call op inp =>
    simp only [step, Option.ite_none_right_eq_some, Option.some.injEq] at hs
    obtain ⟨-, rfl⟩ := hs
    refine begin_sessional m inp ?_
    rintro c rfl
    cases ha
  | own inp =>
    simp only [step] at hs
    split at hs
    · exact resume_sessional hs
    · cases hs
      exact tickWindow_sessional m _
    · cases hs
      unfold tickRecut
      simp only
      split
      · exact .of_same rfl rfl rfl rfl
      · exact .of_same rfl rfl rfl rfl
    · rename_i id window howner
      simp [decodes, howner] at hd
    · cases hs
    · cases hs
  | worker | capture | lose => exact offstage_sessional (step_offstage rfl hs)

/-- Every step but the publication of a configuration. -/
theorem step_unconfigured {a : Act} (ha : configures a = false) (hs : m.step a = some m') :
    Unconfigured m m' := by
  cases hd : m.decodes a with
  | false => exact (step_sessional ha hd hs).unconfigured
  | true =>
    obtain ⟨inp, id, window, rfl, howner⟩ := decodes_eq_true hd
    simp only [step, howner, Option.some.injEq] at hs
    subst hs
    exact tickDecoded_unconfigured m id window inp

/-! ## Runs -/

/-- The copies are those of this configuration. -/
structure Follows (c : Configuration) (m : Machine) : Prop where
  language : m.manager.defaultLanguage = c.defaultLanguage
  prompt : m.manager.transcriptionPrompt = c.transcriptionPrompt
  live : m.live.settings = (c.defaultLanguage, c.transcriptionPrompt)

theorem Follows.unconfigured {c : Configuration} (h : Follows c m) (hu : Unconfigured m m') :
    Follows c m' :=
  ⟨hu.language.trans h.language, hu.prompt.trans h.prompt, hu.live.trans h.live⟩

theorem follows_configure (m : Machine) (c : Configuration) (inp : Input) :
    Follows c (m.begin (.configure c) inp) :=
  ⟨rfl, rfl, rfl⟩

section Reachable

variable {capacity : Nat} {c : Configuration} {liveConfig : LiveTranscriberConfig}

/-- In every reachable state the copies are those of the configuration
announced last. -/
theorem Reachable.follows (h : Reachable capacity c liveConfig m) :
    Follows (configurationAfter c m.log) m := by
  refine Lib.Reachable.invariant (P := fun m => Follows (configurationAfter c m.log) m) h
    ⟨rfl, rfl, rfl⟩ ?_
  intro t a t' _ ht hs
  cases ha : configures a with
  | false =>
    have hu := step_unconfigured ha hs
    obtain ⟨es, hlog, hes⟩ := hu.log
    rw [hlog, configurationAfter_append, configurationAfter_silent hes]
    exact ht.unconfigured hu
  | true =>
    cases a with
    | call op inp =>
      cases op with
      | configure c' =>
        simp only [step, Option.ite_none_right_eq_some, Option.some.injEq] at hs
        obtain ⟨-, rfl⟩ := hs
        have hlog : (t.begin (.configure c') inp).log = t.log ++ [.configurationChanged c'] := rfl
        rw [hlog, configurationAfter_append]
        exact follows_configure t c' inp
      | _ => cases ha
    | _ => cases ha

end Reachable

end Machine

end YoruSpeech

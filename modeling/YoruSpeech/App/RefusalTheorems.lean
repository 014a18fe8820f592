/-
YoruSpeech.App.RefusalTheorems — a refused command changes nothing.

A command answers `ok: false` from one of many places: the codec, the
dispatcher, the session manager, the recording manager, the queue, the
write of the file. The theorem of this module is about all of them at once:
the capture state, the active session, the queue and the worker's job, the
configuration and its file are what they were, with one exception, a
`stop_recording` that finds the device lost or the queue shut down.

While a line is handled the worker goes on, so "what they were" means, for
the queue and the worker, what the other threads alone would have made of
them (`Machine.Beside`). With no step of theirs in between, nothing changes
at all (`Machine.Beside.alone`).
-/
import YoruSpeech.App.ConfigurationTheorems
import YoruSpeech.Ipc.CallTheorems

namespace YoruSpeech

open Lib (Json)

/-! ## Responses -/

/-- The response says `ok: false`. -/
def Reply.refuses (json : JsonLib) : Reply → Bool
  | .line bytes =>
    match (json.parse bytes).bind (Json.get? (str "ok")) with
    | some (.bool false) => true
    | _ => false
  | _ => false

namespace CommandDispatcher

variable {lib : Libraries} {s : CommandDispatcher} {env : LineEnv} {type line : Bytes}
  {capacity : Nat} {c : Configuration} {liveConfig : LiveTranscriberConfig}

/-- A response encoded with `ok: true` is no refusal. -/
theorem accepts_of_body (h : lib.json.Lawful) {fields : List (Bytes × Json)}
    (hbody : ResponseBody fields) (type : Bytes) :
    (Reply.ofDump (lib.json.dump (.object (responseFields type true ++ fields)))).refuses
      lib.json = false := by
  cases hdump : lib.json.dump (.object (responseFields type true ++ fields)) with
  | none => rfl
  | some bytes =>
    simp only [Reply.ofDump, Reply.refuses, hbody.parse h hdump, Option.bind_some,
      hbody.get_ok type true]

theorem encodeAck_accepts (h : lib.json.Lawful) (type : Bytes) :
    (Reply.ofDump (encodeAck lib.json type)).refuses lib.json = false := by
  have hack := accepts_of_body h ackBody type
  rwa [List.append_nil] at hack

/-- The operation that was called refused, and nothing but the session
machine took part. -/
theorem call_refused {op : Op} {respond : Return → Option Bytes}
    (hrespond : ∀ r, (Reply.ofDump (respond r)).refuses lib.json = true →
      r.refuses = true)
    (h : (s.call op env respond).2.refuses lib.json = true) :
    (∃ r, (s.machine.perform op env).2 = some r ∧ r.refuses = true) ∧
    (s.call op env respond).1.machine = (s.machine.perform op env).1 ∧
    (s.call op env respond).1.configurationManager = s.configurationManager := by
  unfold call at h ⊢
  cases hp : s.machine.perform op env with
  | mk machine returned =>
    rw [hp] at h
    cases returned with
    | none => cases h
    | some r => exact ⟨⟨r, rfl, hrespond r h⟩, rfl, rfl⟩

theorem respondStart_refuses (h : lib.json.Lawful) :
    ∀ r, (Reply.ofDump (respondStart lib.json type r)).refuses lib.json = true →
      r.refuses = true := by
  intro r hr
  cases r with
  | startSession e =>
    cases e with
    | none =>
      have hack := encodeAck_accepts h type
      exact absurd (hr.symm.trans hack) (by decide)
    | some e => rfl
  | _ => cases hr

theorem respondStop_refuses (h : lib.json.Lawful) :
    ∀ r, (Reply.ofDump (respondStop lib.json type r)).refuses lib.json = true →
      r.refuses = true := by
  intro r hr
  cases r with
  | stopSession result =>
    cases result with
    | queuedJob id position =>
      have hqueued := accepts_of_body h (queuedBody id position) type
      exact absurd (hr.symm.trans hqueued) (by decide)
    | error e => rfl
  | _ => cases hr

theorem respondCancelJob_refuses (h : lib.json.Lawful) :
    ∀ r, (Reply.ofDump (respondCancelJob lib.json type r)).refuses lib.json = true →
      r.refuses = true := by
  intro r hr
  cases r with
  | cancelJob id found =>
    cases found with
    | true =>
      have hack := encodeAck_accepts h type
      exact absurd (hr.symm.trans hack) (by decide)
    | false => rfl
  | _ => cases hr

theorem respondCancelSession_refuses (h : lib.json.Lawful) :
    ∀ r, (Reply.ofDump (respondCancelSession lib.json type r)).refuses lib.json = true →
      r.refuses = true := by
  intro r hr
  cases r with
  | cancelSession e =>
    cases e with
    | none =>
      have hack := encodeAck_accepts h type
      exact absurd (hr.symm.trans hack) (by decide)
    | some e => rfl
  | _ => cases hr

/-! ## Lines -/

/-- What a refusal leaves: everything, or a recording that could not be
handed over. -/
inductive Refused (json : JsonLib) (line : Bytes) (env : LineEnv) (s s' : CommandDispatcher) : Prop
  | kept (manager : s.configurationManager.Same s'.configurationManager)
      (machine : Machine.Kept env s.machine s'.machine)
      (other : ¬ ((parseMessage json line).type = some (str "stop_recording") ∧
        s.machine.manager.state = .recording))
  | broken (manager : s.configurationManager.Same s'.configurationManager)
      (type : (parseMessage json line).type = some (str "stop_recording"))
      (machine : Machine.Broken env s.machine s'.machine)

theorem setConfig_refused (h : lib.json.Lawful)
    (hr : (s.setConfig lib type line env).2.refuses lib.json = true) :
    s.configurationManager.Same (s.setConfig lib type line env).1.configurationManager ∧
    (s.setConfig lib type line env).1.machine = s.machine := by
  unfold setConfig at hr ⊢
  simp only at hr ⊢
  split at hr
  · exact ⟨.refl _, rfl⟩
  · rcases ConfigurationManager.update_cases lib.config s.configurationManager
      (decodeSetConfig lib.json line s.configurationManager.configuration).configuration
      env.write with ⟨herrors, hsame⟩ | ⟨herrors, -⟩
    · split
      · exact absurd ‹_› herrors
      · exact ⟨hsame, rfl⟩
    · simp only [herrors] at hr
      have hconfig := accepts_of_body h (configBody (s.configurationManager.update lib.config
        (decodeSetConfig lib.json line s.configurationManager.configuration).configuration
        env.write).1.configuration) type
      exact absurd (hr.symm.trans hconfig) (by decide)

/-- Lines of another type than the exception's. -/
theorem Refused.of_kept {json : JsonLib} {s' : CommandDispatcher}
    (htype : (parseMessage json line).type ≠ some (str "stop_recording"))
    (hmanager : s.configurationManager.Same s'.configurationManager)
    (hmachine : Machine.Kept env s.machine s'.machine) : Refused json line env s s' :=
  .kept hmanager hmachine fun h => htype h.1

theorem handleLine_refused (h : lib.Lawful) (hs : s.Ready capacity c liveConfig)
    (hr : (s.handleLine lib line env).2.refuses lib.json = true) :
    Refused lib.json line env s (s.handleLine lib line env).1 := by
  have hsame : Machine.Kept env s.machine s.machine := Machine.kept_begin s.machine env
  unfold handleLine at hr ⊢
  simp only at hr ⊢
  cases htype : (parseMessage lib.json line).type with
  | none =>
    refine .of_kept ?_ (.refl _) hsame
    rw [htype]
    simp
  | some type =>
    simp only [htype] at hr ⊢
    have hother : type ≠ str "stop_recording" →
        (parseMessage lib.json line).type ≠ some (str "stop_recording") := by
      intro hne heq
      rw [htype] at heq
      exact hne (Option.some.inj heq)
    by_cases hstart : type = str "start_recording"
    · simp only [if_pos hstart] at hr ⊢
      obtain ⟨⟨r, hreturn, hrefused⟩, hmachine, hmanager⟩ :=
        call_refused (respondStart_refuses h.json) hr
      refine .of_kept (hother (by rw [hstart]; decide)) (hmanager ▸ .refl _) ?_
      rw [hmachine]
      rcases Machine.perform_startSession hs.reachable hs.idle env with
        ⟨-, hstarted, -⟩ | ⟨-, -, hkept⟩
      · rw [hstarted] at hreturn
        cases hreturn
        cases hrefused
      · exact hkept
    simp only [if_neg hstart] at hr ⊢
    by_cases hstop : type = str "stop_recording"
    · simp only [if_pos hstop] at hr ⊢
      obtain ⟨⟨r, hreturn, hrefused⟩, hmachine, hmanager⟩ :=
        call_refused (respondStop_refuses h.json) hr
      rcases Machine.perform_stopSession hs.reachable hs.idle env with
        ⟨hstate, -, hkept⟩ | ⟨-, hbroken⟩ | ⟨-, -, -, ⟨_, _, hqueued⟩, -⟩
      · exact .kept (hmanager ▸ .refl _) (hmachine ▸ hkept) fun hnot => hstate hnot.2
      · exact .broken (hmanager ▸ .refl _) (htype.trans (congrArg some hstop)) (hmachine ▸ hbroken)
      · rw [hqueued] at hreturn
        cases hreturn
        cases hrefused
    simp only [if_neg hstop] at hr ⊢
    have hkept := hother hstop
    by_cases hjob : type = str "cancel_job"
    · simp only [if_pos hjob] at hr ⊢
      split at hr
      · exact .of_kept hkept (.refl _) hsame
      · obtain ⟨⟨r, hreturn, hrefused⟩, hmachine, hmanager⟩ :=
          call_refused (respondCancelJob_refuses h.json) hr
        refine .of_kept hkept (hmanager ▸ .refl _) ?_
        rw [hmachine]
        rcases Machine.perform_cancelJob hs.reachable hs.idle _ env with ⟨-, hjobs⟩ | hcancelled
        · exact hjobs
        · rw [hcancelled] at hreturn
          cases hreturn
          cases hrefused
    simp only [if_neg hjob] at hr ⊢
    by_cases hcancel : type = str "cancel_session"
    · simp only [if_pos hcancel] at hr ⊢
      obtain ⟨⟨r, hreturn, hrefused⟩, hmachine, hmanager⟩ :=
        call_refused (respondCancelSession_refuses h.json) hr
      refine .of_kept hkept (hmanager ▸ .refl _) ?_
      rw [hmachine]
      rcases Machine.perform_cancelSession hs.reachable hs.idle env with
        ⟨-, -, hsession⟩ | ⟨-, hcancelled, -⟩
      · exact hsession
      · rw [hcancelled] at hreturn
        cases hreturn
        cases hrefused
    simp only [if_neg hcancel] at hr ⊢
    -- of the rest, only `set_config` does anything
    by_cases hset : type = str "set_config"
    · subst hset
      have hget : str "set_config" ≠ str "get_state" ∧ str "set_config" ≠ str "get_config" := by
        decide
      simp only [if_neg hget.1, if_neg hget.2, if_true] at hr ⊢
      obtain ⟨hmanager, hmachine⟩ := setConfig_refused h.json hr
      exact .of_kept hkept hmanager (hmachine ▸ hsame)
    simp only [if_neg hset]
    repeat' split
    all_goals exact .of_kept hkept (.refl _) hsame

end CommandDispatcher

/-! ## Every state of the daemon -/

namespace Daemon

variable {lib : Libraries} {s : Startup} {d : Daemon}

/-- A line that is answered with `ok: false` leaves the configuration and
its file as they were. The capture state, the active session, the queue and
the worker's job are what they were as well, unless it was a
`stop_recording` on a recording whose device was lost or whose queue was
shut down: that one moves Recording to Error and leaves the rest. -/
theorem refused_changes_nothing (hlib : lib.Lawful) (hd : Reachable lib s d)
    (hidle : d.machine.owner = .idle) (line : Bytes) (env : LineEnv)
    (hrefused : (d.handleLine lib line env).2.refuses lib.json = true) :
    d.dispatcher.configurationManager.Same
      (d.handleLine lib line env).1.dispatcher.configurationManager ∧
    ((Machine.Kept env d.machine (d.handleLine lib line env).1.machine ∧
        ¬ ((parseMessage lib.json line).type = some (str "stop_recording") ∧
          d.machine.manager.state = .recording)) ∨
      ((parseMessage lib.json line).type = some (str "stop_recording") ∧
        Machine.Broken env d.machine (d.handleLine lib line env).1.machine)) := by
  have hreply : (d.dispatcher.handleLine lib line env).2.refuses lib.json = true := by
    unfold handleLine at hrefused
    simp only at hrefused
    split at hrefused
    · exact hrefused
    · cases hrefused
  have h := CommandDispatcher.handleLine_refused hlib ((hd.sound hlib).ready hidle) hreply
  rw [machine, machine, handleLine_dispatcher]
  cases h with
  | kept hmanager hmachine hother => exact ⟨hmanager, .inl ⟨hmachine, hother⟩⟩
  | broken hmanager htype hmachine => exact ⟨hmanager, .inr ⟨htype, hmachine⟩⟩

/-- A recording whose device is lost. -/
def lostDeviceActs : List DaemonAct :=
  [.line 5 (request "start_recording") {}, .session .lose none]

/-- A refused `start_recording` leaves a recording whose device was lost as
it is; `stop_recording` is the exception. -/
theorem refused_changes_nothing_lost_device :
    ∃ d, Reachable plainLibraries plainStartup d ∧ d.machine.owner = .idle ∧
      (Machine.Kept {} d.machine
        (d.handleLine plainLibraries (request "start_recording") {}).1.machine) ∧
      Machine.Broken {} d.machine
        (d.handleLine plainLibraries (request "stop_recording") {}).1.machine := by
  have hrun : ((Lib.run (step plainLibraries) (init plainLibraries plainStartup)
      lostDeviceActs).map fun d =>
        (d.machine.owner, d.machine.manager.state,
          (d.handleLine plainLibraries (request "start_recording") {}).2.refuses compactJson,
          (d.handleLine plainLibraries (request "stop_recording") {}).2.refuses compactJson)) =
        some (.idle, .recording, true, true) := by
    decide +kernel
  obtain ⟨d, hd, hfacts⟩ := Option.map_eq_some_iff.mp hrun
  simp only [Prod.mk.injEq] at hfacts
  obtain ⟨hidle, hstate, hstart, hstop⟩ := hfacts
  have hreach : Reachable plainLibraries plainStartup d := ⟨lostDeviceActs, hd⟩
  obtain ⟨-, hkept⟩ := refused_changes_nothing plainLibraries_lawful hreach hidle
    (request "start_recording") {} hstart
  obtain ⟨-, hbroken⟩ := refused_changes_nothing plainLibraries_lawful hreach hidle
    (request "stop_recording") {} hstop
  have hstarts : (parseMessage plainLibraries.json (request "start_recording")).type ≠
      some (str "stop_recording") := by decide +kernel
  have hstops : (parseMessage plainLibraries.json (request "stop_recording")).type =
      some (str "stop_recording") := by decide +kernel
  refine ⟨d, hreach, hidle, ?_, ?_⟩
  · exact (hkept.resolve_right fun h => hstarts h.1).1
  · exact (hbroken.resolve_left fun h => h.2 ⟨hstops, hstate⟩).2

end Daemon

end YoruSpeech

/-
YoruSpeech.App.ConfigurationTheorems — one configuration everywhere.

The settings are held five times: in `ConfigurationManager`, in its file,
in `SessionManager`, in `LiveTranscriber` and in `AutoClipboard`. The first
two change together in `update`, the others when `ConfigurationChanged`
reaches their handlers.

`CommandDispatcher.Configured` says what handling a line can do to all of
them: leave every copy alone, or accept one configuration and announce it.
Nothing else in the daemon announces a configuration, so the copies agree
in every reachable state (`Reachable.coherent`).
-/
import YoruSpeech.App.DaemonTheorems
import YoruSpeech.Config.ConfigurationManagerTheorems
import YoruSpeech.Session.SettingsTheorems

namespace YoruSpeech

/-! ## Calls -/

namespace Machine

variable {m m' : Machine}

theorem meanwhile_unconfigured (m : Machine) (acts : List Act) :
    Unconfigured m (m.meanwhile acts) := by
  refine meanwhile_keeps (P := Unconfigured m) ?_ acts (.refl m)
  intro t a t' ht ha hs
  have hquiet : configures a = false := by
    cases a with
    | call op inp => cases ha
    | _ => rfl
  exact ht.trans (step_unconfigured hquiet hs)

theorem complete_unconfigured (env : LineEnv) (fuel : Nat) :
    ∀ (k : Nat) (m : Machine), Unconfigured m (m.complete env fuel k) := by
  induction fuel with
  | zero => exact fun _ m => .refl m
  | succ fuel ih =>
    intro k m
    have hbetween := m.meanwhile_unconfigured (env.between k)
    simp only [complete]
    split
    · split
      · rename_i hresume
        exact (hbetween.trans (resume_sessional hresume).unconfigured).trans (ih (k + 1) _)
      · exact hbetween
    · exact hbetween

theorem perform_unconfigured (m : Machine) {op : Op} (hop : ∀ c, op ≠ .configure c)
    (env : LineEnv) : Unconfigured m (m.perform op env).1 :=
  (begin_sessional m (env.inputs 0) hop).unconfigured.trans (complete_unconfigured env 3 1 _)

/-- Announcing a configuration reaches both copies of this domain. -/
theorem perform_configure (m : Machine) (c : Configuration) (env : LineEnv) :
    Follows c (m.perform (.configure c) env).1 ∧
    ∃ es, (m.perform (.configure c) env).1.log = m.log ++ .configurationChanged c :: es ∧
      ∀ e ∈ es, e.configuration? = none := by
  have hrest := complete_unconfigured env 3 1 (m.begin (.configure c) (env.inputs 0))
  refine ⟨(follows_configure m c (env.inputs 0)).unconfigured hrest, ?_⟩
  obtain ⟨es, hlog, hes⟩ := hrest.log
  have hbegin : (m.begin (.configure c) (env.inputs 0)).log =
      m.log ++ [.configurationChanged c] := rfl
  refine ⟨es, ?_, hes⟩
  show (complete env 3 1 (m.begin (.configure c) (env.inputs 0))).log = _
  rw [hlog, hbegin, List.append_assoc]
  rfl

end Machine

/-! ## Lines -/

namespace CommandDispatcher

variable {lib : Libraries} {s : CommandDispatcher}

/-- What handling a line does to the copies: nothing, or one configuration
is accepted and announced. -/
inductive Configured (lib : Libraries) (s s' : CommandDispatcher) : Prop
  | kept (manager : s.configurationManager.Same s'.configurationManager)
      (machine : s.machine.Unconfigured s'.machine)
  | updated (c : Configuration) (valid : validate c = [])
      (path : s'.configurationManager.configPath = s.configurationManager.configPath)
      (current : s'.configurationManager.configuration = c)
      (file : s'.configurationManager.files s.configurationManager.configPath =
        some (encodeToml lib.config.toml c))
      (machine : s'.machine.Follows c)
      (log : ∃ es, s'.machine.log = s.machine.log ++ .configurationChanged c :: es ∧
        ∀ e ∈ es, e.configuration? = none)

theorem Configured.refl (lib : Libraries) (s : CommandDispatcher) : Configured lib s s :=
  .kept (.refl _) (.refl _)

theorem call_configured (lib : Libraries) (s : CommandDispatcher) {op : Op}
    (hop : ∀ c, op ≠ .configure c) (env : LineEnv) (respond : Return → Option Bytes) :
    Configured lib s (s.call op env respond).1 := by
  have hperform := s.machine.perform_unconfigured hop env
  unfold call
  split
  · rename_i machine r heq
    rw [heq] at hperform
    exact .kept (.refl _) hperform
  · rename_i machine heq
    rw [heq] at hperform
    exact .kept (.refl _) hperform

theorem setConfig_configured (s : CommandDispatcher) (type line : Bytes) (env : LineEnv) :
    Configured lib s (s.setConfig lib type line env).1 := by
  unfold setConfig
  simp only
  split
  · exact .refl lib s
  · generalize (decodeSetConfig lib.json line s.configurationManager.configuration).configuration =
      next
    rcases ConfigurationManager.update_cases lib.config s.configurationManager next env.write with
      ⟨herrors, hsame⟩ | ⟨herrors, hvalid, hpath, hcurrent, hfile⟩
    · split
      · exact absurd ‹_› herrors
      · exact .kept hsame (.refl _)
    · simp only [herrors]
      obtain ⟨hfollows, hlog⟩ := Machine.perform_configure s.machine next env
      rw [hcurrent]
      exact .updated next hvalid hpath hcurrent hfile hfollows hlog

theorem handleLine_configured (lib : Libraries) (s : CommandDispatcher) (line : Bytes)
    (env : LineEnv) : Configured lib s (s.handleLine lib line env).1 := by
  unfold handleLine
  simp only
  split
  · exact .refl lib s
  · split
    · exact call_configured lib s (by simp) env _
    · split
      · exact call_configured lib s (by simp) env _
      · split
        · split
          · exact .refl lib s
          · exact call_configured lib s (by simp) env _
        · split
          · exact call_configured lib s (by simp) env _
          · split
            · exact .refl lib s
            · split
              · exact .refl lib s
              · split
                · exact setConfig_configured s _ _ env
                · split
                  · exact .refl lib s
                  · exact .refl lib s

end CommandDispatcher

/-! ## The clipboard -/

namespace Hub

theorem broadcast_clipboard (json : JsonLib) (h : Hub) (e : Event) :
    (left (h.broadcast json e)).clipboard = h.clipboard := by
  unfold broadcast
  split
  · rfl
  · split
    · rfl
    · rfl

/-- Of the handlers, only the one that tracks the configuration touches
`AutoClipboard`, also when a later one throws. -/
theorem publish_clipboard (lib : Libraries) (copy : Option CopyFailure) (h : Hub) (e : Event) :
    (left (h.publish lib copy e)).clipboard = (h.track e).clipboard := by
  have hnote : ((h.note e).track e).clipboard = (h.track e).clipboard := by
    cases e <;> rfl
  have hnested : (left (publishNested lib ((h.note e).track e) (h.nested lib copy e))).clipboard =
      (h.track e).clipboard := by
    cases h.nested lib copy e with
    | none => exact hnote
    | some x => exact (broadcast_clipboard lib.json _ x).trans hnote
  rw [publish_eq]
  cases hx : publishNested lib ((h.note e).track e) (h.nested lib copy e) with
  | error t =>
    rw [hx] at hnested
    exact hnested
  | ok t =>
    rw [hx] at hnested
    exact (broadcast_clipboard lib.json t e).trans hnested

theorem track_silent {e : Event} (he : e.configuration? = none) (h : Hub) : h.track e = h := by
  cases e with
  | configurationChanged c => cases he
  | _ => rfl

theorem publishAll_clipboard (lib : Libraries) (copy : Option CopyFailure) {es : List Event}
    (hes : ∀ e ∈ es, e.configuration? = none) (h : Hub) :
    (left (publishAll lib copy es h)).clipboard = h.clipboard := by
  induction es generalizing h with
  | nil => rfl
  | cons e rest ih =>
    have hpublish := publish_clipboard lib copy h e
    rw [track_silent (hes e List.mem_cons_self)] at hpublish
    simp only [publishAll]
    cases hx : h.publish lib copy e with
    | error t =>
      rw [hx] at hpublish
      exact hpublish
    | ok t =>
      rw [hx] at hpublish
      exact (ih (fun x hmem => hes x (List.mem_cons_of_mem e hmem)) t).trans hpublish

theorem publishAll_configured (lib : Libraries) (copy : Option CopyFailure) (c : Configuration)
    {es : List Event} (hes : ∀ e ∈ es, e.configuration? = none) (h : Hub) :
    (left (publishAll lib copy (.configurationChanged c :: es) h)).clipboard.enabled =
      c.autoClipboard := by
  have hpublish := publish_clipboard lib copy h (.configurationChanged c)
  simp only [publishAll]
  cases hx : h.publish lib copy (.configurationChanged c) with
  | error t =>
    rw [hx] at hpublish
    exact congrArg AutoClipboard.enabled hpublish
  | ok t =>
    rw [hx] at hpublish
    exact congrArg AutoClipboard.enabled ((publishAll_clipboard lib copy hes t).trans hpublish)

end Hub

/-! ## Every state of the daemon -/

/-- `load()` finds a file and reads the whole of it, or finds none and can
create it. -/
def Startup.Loads (s : Startup) : Prop :=
  ConfigurationManager.Loads { configPath := s.configPath, pid := s.pid, files := s.files } s.load

namespace Daemon

variable {lib : Libraries} {s : Startup} {d d' : Daemon}

/-- `ConfigurationManager::current`. -/
def current (d : Daemon) : Configuration := d.dispatcher.configurationManager.configuration

/-- Every copy of the settings is the one in memory, and that one is
valid. -/
structure Coherent (lib : Libraries) (s : Startup) (d : Daemon) : Prop where
  valid : validate d.current = []
  session : d.machine.manager.defaultLanguage = d.current.defaultLanguage ∧
    d.machine.manager.transcriptionPrompt = d.current.transcriptionPrompt
  live : d.machine.live.defaultLanguage = d.current.defaultLanguage ∧
    d.machine.live.transcriptionPrompt = d.current.transcriptionPrompt
  clipboard : d.hub.clipboard.enabled = d.current.autoClipboard
  /-- The file decodes to the configuration in memory, where the startup
  could read or create it. -/
  file : s.Loads → ∃ contents,
    d.dispatcher.configurationManager.files s.configPath = some contents ∧
      (decodeToml lib.config.toml contents {}).configuration = d.current
  /-- A daemon started on these files comes up with the same
  configuration. -/
  restart : s.Loads → ∀ s' : Startup, s'.configPath = s.configPath →
    s'.files = d.dispatcher.configurationManager.files → s'.Loads →
      (loaded lib s').configuration = d.current

/-- `Coherent`, as the steps keep it. -/
structure Agrees (lib : Libraries) (s : Startup) (d : Daemon) : Prop where
  valid : validate d.current = []
  follows : d.machine.Follows d.current
  clipboard : d.hub.clipboard.enabled = d.current.autoClipboard
  path : d.dispatcher.configurationManager.configPath = s.configPath
  persisted : s.Loads → d.dispatcher.configurationManager.Persisted lib.config

theorem Agrees.coherent (h : Agrees lib s d) : Coherent lib s d where
  valid := h.valid
  session := ⟨h.follows.language, h.follows.prompt⟩
  live := Prod.mk.inj h.follows.live
  clipboard := h.clipboard
  file := by
    intro hloads
    obtain ⟨contents, hfile, hdecode⟩ := h.persisted hloads
    exact ⟨contents, h.path ▸ hfile, hdecode⟩
  restart := by
    intro hloads s' hpath hfiles hloads'
    exact (h.persisted hloads).load_configuration (hpath.trans h.path.symm) hfiles hloads'

theorem init_agrees (htoml : lib.config.toml.RoundTrips) (s : Startup) :
    Agrees lib s (init lib s) where
  valid := ConfigurationManager.validate_load lib.config _ s.load
  follows := ⟨rfl, rfl, rfl⟩
  clipboard := rfl
  path := ConfigurationManager.load_configPath lib.config _ s.load
  persisted := fun hloads => ConfigurationManager.load_persisted htoml hloads

/-- Steps that touch neither the managers nor the clipboard. -/
theorem Agrees.of_hub (h : Agrees lib s d) (hdispatcher : d'.dispatcher = d.dispatcher)
    (hclipboard : d'.hub.clipboard = d.hub.clipboard) : Agrees lib s d' := by
  have hcurrent : d'.current = d.current := by rw [current, hdispatcher, current]
  refine ⟨?_, ?_, ?_, ?_, ?_⟩
  · rw [hcurrent]
    exact h.valid
  · rw [hcurrent, machine, hdispatcher]
    exact h.follows
  · rw [hcurrent, hclipboard]
    exact h.clipboard
  · rw [hdispatcher]
    exact h.path
  · rw [hdispatcher]
    exact h.persisted

theorem Agrees.respond (h : Agrees lib s d) (fd : ClientId) (reply : Reply) :
    Agrees lib s (d.respond fd reply) := by
  cases reply with
  | line bytes => exact h.of_hub rfl rfl
  | threw => exact h.of_hub rfl rfl
  | undefined => exact h.of_hub rfl rfl

theorem advance_agrees (h : Agrees lib s d) {a : Act} (ha : a.ofLoop = true) {machine : Machine}
    (hs : d.machine.step a = some machine) (copy : Option CopyFailure) :
    Agrees lib s (d.advance lib copy machine) := by
  have hquiet : Machine.configures a = false := by
    cases a with
    | call op inp =>
      cases op with
      | configure c => cases ha
      | _ => rfl
    | _ => rfl
  have hu := Machine.step_unconfigured hquiet hs
  obtain ⟨es, hlog, hes⟩ := hu.log
  have hcurrent : (d.advance lib copy machine).current = d.current := by
    rw [current, advance_configuration, current]
  refine ⟨?_, ?_, ?_, ?_, ?_⟩
  · rw [hcurrent]
    exact h.valid
  · rw [hcurrent, advance_machine]
    exact h.follows.unconfigured hu
  · rw [hcurrent, advance_hub, newEvents_eq hlog, Hub.publishAll_clipboard lib copy hes]
    exact h.clipboard
  · rw [advance_configuration]
    exact h.path
  · rw [advance_configuration]
    exact h.persisted

theorem handleLine_agrees (hlib : lib.Lawful) (htoml : lib.config.toml.RoundTrips)
    (hsound : Sound lib s d) (h : Agrees lib s d) (hidle : d.machine.owner = .idle) (line : Bytes)
    (env : LineEnv) : Agrees lib s (d.handleLine lib line env).1 := by
  have hdispatcher : (d.handleLine lib line env).1.dispatcher = _ :=
    handleLine_dispatcher d line env
  have hhub : (d.handleLine lib line env).1.hub = _ := handleLine_hub d line env
  have hutf8 := (handleLine_sound hlib hsound hidle line env).configuration
  rw [hdispatcher] at hutf8
  generalize (d.handleLine lib line env).1 = d' at hdispatcher hhub
  have hconfigured := d.dispatcher.handleLine_configured lib line env
  rw [← hdispatcher] at hconfigured hhub hutf8
  cases hconfigured with
  | kept hmanager hmachine =>
    obtain ⟨es, hlog, hes⟩ := hmachine.log
    have hcurrent : d'.current = d.current := hmanager.configuration
    refine ⟨?_, ?_, ?_, ?_, ?_⟩
    · rw [hcurrent]
      exact h.valid
    · rw [hcurrent]
      exact h.follows.unconfigured hmachine
    · rw [hcurrent, hhub, newEvents_eq hlog, Hub.publishAll_clipboard lib none hes]
      exact h.clipboard
    · exact hmanager.configPath.trans h.path
    · exact fun hloads => (h.persisted hloads).of_same hmanager
  | updated c hvalid hpath hcurrent hfile hfollows hlog =>
    obtain ⟨es, hlog, hes⟩ := hlog
    have hc : d'.current = c := hcurrent
    subst hc
    refine ⟨hvalid, hfollows, ?_, hpath.trans h.path, ?_⟩
    · rw [hhub, newEvents_eq hlog]
      exact Hub.publishAll_configured lib none _ hes d.hub
    · rw [← hpath] at hfile
      exact fun _ => ConfigurationManager.persisted_of_encoded htoml hutf8 hvalid hfile

theorem step_agrees (hlib : lib.Lawful) (htoml : lib.config.toml.RoundTrips) {a : DaemonAct}
    (hsound : Sound lib s d) (h : Agrees lib s d) (hs : d.step lib a = some d') :
    Agrees lib s d' := by
  cases a with
  | session a copy =>
    simp only [step, Option.ite_none_right_eq_some, Option.map_eq_some_iff] at hs
    obtain ⟨⟨-, ha⟩, machine, hmachine, rfl⟩ := hs
    exact advance_agrees h ha hmachine copy
  | line fd line env =>
    simp only [step, Option.ite_none_right_eq_some, Option.some.injEq] at hs
    obtain ⟨⟨-, hidle⟩, rfl⟩ := hs
    unfold onLine
    simp only
    split
    · refine Agrees.respond ?_ fd _
      refine h.of_hub rfl ?_
      unfold Hub.subscribe
      split <;> rfl
    · split
      · refine Agrees.respond ?_ fd _
        exact h.of_hub rfl rfl
      · exact (handleLine_agrees hlib htoml hsound h hidle line env).respond fd _
  | disconnect fd =>
    simp only [step, Option.ite_none_right_eq_some, Option.some.injEq] at hs
    obtain ⟨-, rfl⟩ := hs
    exact h.of_hub rfl rfl

/-- In every state of the daemon the configuration is valid, the session
manager, the live preview and the clipboard hold its values, and, when the
startup could read or create the file, the file decodes to it. -/
theorem configuration_coherent (hlib : lib.Lawful) (htoml : lib.config.toml.RoundTrips)
    (hd : Reachable lib s d) : Coherent lib s d := by
  have hagrees : Agrees lib s d := by
    refine Lib.Reachable.invariant (P := Agrees lib s) hd (init_agrees htoml s) ?_
    intro t a t' hreach ht hs
    exact step_agrees hlib htoml (Reachable.sound hlib hreach) ht hs
  exact hagrees.coherent

/-- Libraries whose TOML tables are read back. -/
def tomlLibraries : Libraries where
  json := compactJson
  config := { toml := plainToml, strerror := fun _ => str "Permission denied" }

theorem tomlLibraries_lawful : tomlLibraries.Lawful where
  json := compactJson_lawful
  config :=
    { toml_utf8 := by
        intro source root key value hparse hvalue
        exact PlainToml.parse_utf8 hparse hvalue
      strerror_utf8 := by
        intro errno
        show Lib.validUtf8 (str "Permission denied") = true
        decide }

/-- The clipboard is switched off, then a write fails. -/
def clipboardOffActs : List DaemonAct :=
  [.line 5 (str "\x7b\"type\":\"set_config\",\"auto_clipboard\":false\x7d") {},
    .line 5 (str "\x7b\"type\":\"set_config\",\"auto_clipboard\":true\x7d")
      { write := .renameFailed 13 false }]

/-- Started without a file, the daemon keeps what the first line set, in
memory, in `AutoClipboard` and on disk. -/
theorem configuration_coherent_clipboard_off :
    Startup.Loads { configPath := str "/c", capacity := 1 } ∧
    ∃ d, Reachable tomlLibraries { configPath := str "/c", capacity := 1 } d ∧
      d.current.autoClipboard = false ∧ d.hub.clipboard.enabled = false ∧
      ∃ contents, d.dispatcher.configurationManager.files (str "/c") = some contents ∧
        (decodeToml plainToml contents {}).configuration = d.current := by
  have hloads : Startup.Loads { configPath := str "/c", capacity := 1 } := ⟨rfl, rfl, rfl⟩
  refine ⟨hloads, ?_⟩
  have hrun : ((Lib.run (step tomlLibraries)
      (init tomlLibraries { configPath := str "/c", capacity := 1 }) clipboardOffActs).map
        fun d => d.current.autoClipboard) = some false := by
    decide +kernel
  obtain ⟨d, hd, hoff⟩ := Option.map_eq_some_iff.mp hrun
  have hreach : Reachable tomlLibraries { configPath := str "/c", capacity := 1 } d :=
    ⟨clipboardOffActs, hd⟩
  have hcoherent := configuration_coherent tomlLibraries_lawful plainToml_roundTrips hreach
  refine ⟨d, hreach, hoff, ?_, ?_⟩
  · rw [hcoherent.clipboard, hoff]
  · exact hcoherent.file hloads

end Daemon

end YoruSpeech

/-
YoruSpeech.App.DaemonTheorems — what the wiring of `main.cpp` guarantees
about the texts that reach the protocol layer.

* `Hub.publish_eq` unfolds one publication on the daemon's bus;
  `publish_depth` shows that two levels of nesting are all there are.
* `Sound` is kept by every step: the session machine is in a state of its
  own, the configuration is UTF-8, and of the published texts only those
  of the speech backend and of the file system need not be.
* `protocol_answers_iff` says exactly when `handle_line` answers and when
  `encode_event` returns.
-/
import YoruSpeech.App.Daemon
import YoruSpeech.Ipc.CommandTheorems

namespace YoruSpeech

open Lib (Json validUtf8)

/-! ## One publication -/

namespace Hub

/-- What the loggers do. -/
def note (h : Hub) (e : Event) : Hub := { h with published := h.published ++ [e] }

/-- The event `AutoClipboard` publishes while it handles another. -/
def nested (lib : Libraries) (copy : Option CopyFailure) (h : Hub) : Event → Option Event
  | .transcriptionCompleted id _ => h.clipboard.onCompleted lib.config.strerror copy id
  | _ => none

/-- The configuration `AutoClipboard` follows. -/
def track (h : Hub) : Event → Hub
  | .configurationChanged c => { h with clipboard := h.clipboard.onConfigured c }
  | _ => h

/-- The nested publication, if there is one. -/
def publishNested (lib : Libraries) (h : Hub) : Option Event → Except Hub Hub
  | none => .ok h
  | some e => (h.note e).broadcast lib.json e

/-- An error reaches the loggers and the bridge, at any depth. -/
theorem publish_error (lib : Libraries) (copy : Option CopyFailure) (h : Hub) (depth : Nat)
    (id : Option SessionId) (component : Component) (message : Bytes) :
    YoruSpeech.publish (subscriptions lib copy) (depth + 1) h
      (.errorOccurred id component message) =
      (h.note (.errorOccurred id component message)).broadcast lib.json
        (.errorOccurred id component message) := by
  exact bind_pure (broadcast lib.json _ _)

theorem nested_eq {lib : Libraries} {copy : Option CopyFailure} {h : Hub} {e x : Event}
    (hx : h.nested lib copy e = some x) :
    ∃ id t failure, e = .transcriptionCompleted id t ∧ copy = some failure ∧
      h.clipboard.enabled = true ∧ x = .errorOccurred (some id) .clipboard (failure.message lib.config.strerror) := by
  cases e with
  | transcriptionCompleted id t =>
    simp only [nested, AutoClipboard.onCompleted] at hx
    split at hx
    · rename_i henabled
      obtain ⟨failure, hcopy, rfl⟩ := Option.map_eq_some_iff.mp hx
      exact ⟨id, t, failure, rfl, hcopy, henabled, rfl⟩
    · cases hx
  | _ => cases hx

/-- One publication: the loggers, what `AutoClipboard` publishes from its
handler, and the bridge last. -/
theorem publish_depth (lib : Libraries) (copy : Option CopyFailure) (h : Hub) (e : Event)
    (depth : Nat) :
    YoruSpeech.publish (subscriptions lib copy) (depth + 2) h e =
      publishNested lib ((h.note e).track e) (h.nested lib copy e) >>=
        (broadcast lib.json · e) := by
  have hlast : ∀ h : Hub, (broadcast lib.json h e >>= fun h => Except.ok h) =
      broadcast lib.json h e := fun h => bind_pure (broadcast lib.json h e)
  cases e with
  | transcriptionCompleted id t =>
    show ((copyTranscript lib copy).handler (YoruSpeech.publish (subscriptions lib copy) (depth + 1))
        (h.note (.transcriptionCompleted id t)) (.transcriptionCompleted id t) >>= fun h =>
      broadcast lib.json h (.transcriptionCompleted id t) >>= fun h => Except.ok h) = _
    have hclipboard : (h.note (.transcriptionCompleted id t)).clipboard = h.clipboard := rfl
    simp only [hlast, copyTranscript, hclipboard]
    cases hn : h.clipboard.onCompleted lib.config.strerror copy id with
    | none => simp only [nested, hn, publishNested, track]
    | some failure =>
      obtain ⟨_, _, cause, -, -, -, rfl⟩ := nested_eq (h := h) (e := .transcriptionCompleted id t) hn
      simp only [nested, hn, publishNested, track, publish_error]
  | _ => exact hlast _

theorem publish_eq (lib : Libraries) (copy : Option CopyFailure) (h : Hub) (e : Event) :
    h.publish lib copy e =
      publishNested lib ((h.note e).track e) (h.nested lib copy e) >>=
        (broadcast lib.json · e) :=
  publish_depth lib copy h e 0

end Hub

/-! ## Texts of the backend and of the file system -/

/-- The texts of an event that come from the speech backend or from the
file system. -/
def Event.foreign : Event → List Bytes
  | .transcriptionCompleted _ t => [t.text, t.detectedLanguage, t.requestedLanguage]
  | .transcriptionPartial _ committedText tailText => [committedText, tailText]
  | .modelLoaded model => [model.name, model.path]
  | .errorOccurred _ .speech message => [message]
  | _ => []

/-- The other texts of the event are UTF-8. -/
def Event.Own (e : Event) : Prop := allUtf8 e.texts = allUtf8 e.foreign

theorem Event.own_of_utf8 {e : Event} (h : allUtf8 e.texts = true) : e.Own := by
  unfold Own
  rw [h]
  cases e with
  | transcriptionCompleted id t => exact h.symm
  | transcriptionPartial id committedText tailText => exact h.symm
  | modelLoaded model =>
    simp only [texts, Model.texts, allUtf8_cons, allUtf8_nil, Bool.and_true,
      Bool.and_eq_true] at h
    simp [foreign, h.1, h.2.2.1]
  | errorOccurred id component message =>
    cases component with
    | speech => exact h.symm
    | _ => rfl
  | _ => rfl

/-- The event a section publishes. -/
def Next.event? : Next → Option Event
  | .done _ e _ => e
  | .more _ e _ => e
  | .undefined => none

theorem Op.Reaches.own {op : Op} {n : Nat} {next : Next} (h : op.Reaches n next) :
    ∀ e ∈ next.event?, e.Own := by
  cases h with
  | done hevent _ => exact fun e he => Event.own_of_utf8 (hevent e he)
  | more hevent _ _ => exact fun e he => Event.own_of_utf8 (hevent e he)

namespace Machine

variable {m m' : Machine} {capacity : Nat} {c : Configuration}
  {liveConfig : LiveTranscriberConfig}

theorem apply_log (m : Machine) (next : Next) :
    (m.apply next).log = m.log ++ next.event?.toList := by
  cases next with
  | done g e r => simp [apply, Next.event?]
  | more g e f => simp [apply, Next.event?]
  | undefined => simp [apply, Next.event?]

/-- A step adds at most one event, and what it adds is its own. -/
def Says (m m' : Machine) : Prop :=
  ∃ e : Option Event, m'.log = m.log ++ e.toList ∧ ∀ x ∈ e, x.Own

theorem Says.nothing (h : m'.log = m.log) : Says m m' := ⟨none, by simp [h], by simp⟩

theorem Says.of_apply (t : Machine) {next : Next} (ht : t.log = m.log)
    (hown : ∀ e ∈ next.event?, e.Own) : Says m (t.apply next) :=
  ⟨next.event?, by rw [apply_log, ht], hown⟩

theorem resume_says (hcap : Captured m) {f : Frame} (ho : m.owner = .inside f) {inp : Input}
    (hs : m.resume f inp = some m') : Says m m' := by
  have hat : CaptureAt m.manager f := by
    unfold Captured at hcap
    rw [ho] at hcap
    exact hcap
  cases f with
  | starting =>
    cases hs
    exact .of_apply _ rfl (SessionManager.startRecording_reaches _ _ _).own
  | recorded id recording =>
    cases hs
    exact .of_apply _ rfl (SessionManager.enqueueRecording_reaches hat _).own
  | discarding =>
    cases hs
    exact .of_apply _ rfl (SessionManager.discardSession_reaches _).own
  | enqueued id position =>
    cases hs
    refine .of_apply _ rfl ?_
    rintro e ⟨⟩
    rfl
  | cancelled id =>
    cases hs
    refine .of_apply _ rfl ?_
    rintro e ⟨⟩
    rfl
  | drained results =>
    cases hs
    refine .of_apply _ rfl ?_
    rintro e ⟨⟩
  | announcing starts results =>
    cases hs
    refine .of_apply _ rfl ?_
    cases starts with
    | nil => rintro e ⟨⟩
    | cons id rest =>
      rintro e ⟨⟩
      rfl
  | reporting results count =>
    cases hs
    refine .of_apply _ rfl ?_
    cases results with
    | nil => rintro e ⟨⟩
    | cons job rest =>
      obtain ⟨id, result⟩ := job
      cases result with
      | transcript t =>
        rintro e ⟨⟩
        rfl
      | error e =>
        rintro e ⟨⟩
        rfl
  | stopping dropped =>
    cases hs
    exact .nothing rfl
  | aborted dropped =>
    simp only [resume] at hs
    split at hs
    · split at hs
      · cases hs
        exact .nothing rfl
      · cases hs
    · cases hs
      exact .nothing rfl
  | dropping todo dropped =>
    cases hs
    refine .of_apply _ rfl ?_
    cases todo with
    | nil => rintro e ⟨⟩
    | cons id rest =>
      rintro e ⟨⟩
      refine Event.own_of_utf8 ?_
      show allUtf8 [str "dropped at shutdown before it could be transcribed"] = true
      decide

theorem beginTick_says (m : Machine) : Says m m.beginTick := by
  unfold beginTick
  split
  · exact .nothing rfl
  · split
    · exact .nothing rfl
    · exact .nothing rfl

theorem tickWindow_says (m : Machine) (now : Int) : Says m (m.tickWindow now) := by
  unfold tickWindow
  split
  · exact .nothing rfl
  · simp only
    split
    · exact .nothing rfl
    · exact .nothing rfl
    · exact .nothing rfl

theorem tickRecut_says (m : Machine) (id : SessionId) (now : Int) : Says m (m.tickRecut id now) := by
  unfold tickRecut
  simp only
  split
  · exact .nothing rfl
  · exact .nothing rfl

theorem tickDecoded_says (m : Machine) (id : SessionId) (window : List Sample) (inp : Input) :
    Says m (m.tickDecoded id window inp) := by
  refine ⟨(m.live.afterDecode id window.length inp.partialResult inp.verdict).2, ?_, ?_⟩
  · simp only [tickDecoded, publish?_log, endTick]
  · intro e he
    unfold LiveTranscriber.afterDecode at he
    split at he
    · cases he
    · simp only at he
      split at he
      · cases he
      · cases he
        rfl

/-- What a step of the run loop or of another thread publishes. -/
theorem step_says (hr : Reachable capacity c liveConfig m) {a : Act} (ha : a.ofLoop = true)
    (hs : m.step a = some m') : Says m m' := by
  cases a with
  | call op inp =>
    simp only [step] at hs
    split at hs
    · rename_i hidle
      simp only [Option.some.injEq] at hs
      subst hs
      cases op with
      | pollCompleted =>
        refine .of_apply _ rfl ?_
        rintro e ⟨⟩
      | cancelSession => exact .of_apply _ rfl (SessionManager.cancelSession_reaches _).own
      | shutdown =>
        refine .of_apply _ rfl ?_
        rintro e ⟨⟩
      | tick => exact beginTick_says m
      | startSession | stopSession | cancelJob | configure => cases ha
    · cases hs
  | own inp =>
    simp only [step] at hs
    split at hs
    · rename_i f ho
      exact resume_says hr.captured ho hs
    · cases hs
      exact tickWindow_says m _
    · cases hs
      exact tickRecut_says m _ _
    · cases hs
      exact tickDecoded_says m _ _ _
    · cases hs
    · cases hs
  | worker result => exact .nothing (step_background rfl hs).log
  | capture buffer => exact .nothing (step_background rfl hs).log
  | lose => exact .nothing (step_background rfl hs).log

end Machine

/-! ## What is published -/

theorem CopyFailure.utf8_message {lib : ConfigLib} (h : lib.Lawful) (failure : CopyFailure) :
    validUtf8 (failure.message lib.strerror) = true := by
  cases failure with
  | pipeFailed errno => exact Lib.validUtf8_append (by decide) (h.strerror_utf8 errno)
  | forkFailed errno => exact Lib.validUtf8_append (by decide) (h.strerror_utf8 errno)
  | exited status => exact Lib.validUtf8_append (by decide) (Json.validUtf8_digits status)
  | timedOut | terminatedAbnormally | notFound =>
    show validUtf8 (str _) = true
    decide

namespace Hub

/-- The hub a publication leaves behind, whether or not it threw. -/
def left : Except Hub Hub → Hub
  | .ok h => h
  | .error h => h

theorem left_bind_published {x : Except Hub Hub} {f : Hub → Except Hub Hub}
    (hf : ∀ h, (left (f h)).published = h.published) :
    (left (x >>= f)).published = (left x).published := by
  cases x with
  | ok h => exact hf h
  | error h => rfl

theorem broadcast_published (json : JsonLib) (h : Hub) (e : Event) :
    (left (h.broadcast json e)).published = h.published := by
  unfold broadcast
  split
  · rfl
  · split
    · rfl
    · rfl

theorem track_published (h : Hub) (e : Event) : (h.track e).published = h.published := by
  cases e <;> rfl

/-- A publication is recorded, with the one nested in it. -/
theorem publish_published (lib : Libraries) (copy : Option CopyFailure) (h : Hub) (e : Event) :
    (left (h.publish lib copy e)).published =
      h.published ++ e :: (h.nested lib copy e).toList := by
  rw [publish_eq, left_bind_published (fun h => broadcast_published lib.json h e)]
  have hnote : ((h.note e).track e).published = h.published ++ [e] := track_published _ e
  cases h.nested lib copy e with
  | none => simp [publishNested, left, hnote]
  | some x =>
    simp only [publishNested, broadcast_published]
    show ((h.note e).track e).published ++ [x] = _
    rw [hnote]
    simp

theorem nested_own {lib : Libraries} (hlib : lib.Lawful) {copy : Option CopyFailure} {h : Hub}
    {e x : Event} (hx : h.nested lib copy e = some x) : x.Own := by
  obtain ⟨id, _, failure, -, -, -, rfl⟩ := nested_eq hx
  refine Event.own_of_utf8 ?_
  simp [Event.texts, CopyFailure.utf8_message hlib.config failure]

theorem publish_own {lib : Libraries} (hlib : lib.Lawful) {copy : Option CopyFailure} {h : Hub}
    (hh : ∀ x ∈ h.published, x.Own) {e : Event} (he : e.Own) :
    ∀ x ∈ (left (h.publish lib copy e)).published, x.Own := by
  intro x hx
  rw [publish_published, List.mem_append, List.mem_cons, Option.mem_toList] at hx
  rcases hx with hx | rfl | hx
  · exact hh x hx
  · exact he
  · exact nested_own hlib hx

theorem publishAll_own {lib : Libraries} (hlib : lib.Lawful) {copy : Option CopyFailure} :
    ∀ {es : List Event} {h : Hub}, (∀ x ∈ h.published, x.Own) → (∀ e ∈ es, e.Own) →
      ∀ x ∈ (left (publishAll lib copy es h)).published, x.Own
  | [], h, hh, _ => hh
  | e :: rest, h, hh, hes => by
      have hnext : ∀ x ∈ (left (h.publish lib copy e)).published, x.Own :=
        publish_own hlib hh (hes e List.mem_cons_self)
      have hrest : ∀ x ∈ rest, x.Own := fun x hx => hes x (List.mem_cons_of_mem e hx)
      rw [publishAll]
      cases hp : h.publish lib copy e with
      | ok h' =>
        rw [hp] at hnext
        exact publishAll_own hlib hnext hrest
      | error h' =>
        rw [hp] at hnext
        exact hnext

theorem broadcast_ok {json : JsonLib} (hjson : json.Lawful) {e : Event}
    (he : allUtf8 e.texts = true) (h : Hub) : ∃ h', h.broadcast json e = .ok h' := by
  unfold broadcast
  split
  · exact ⟨h, rfl⟩
  · have hsome := encodeEvent_isSome hjson e
    rw [he] at hsome
    obtain ⟨line, hline⟩ := Option.isSome_iff_exists.mp hsome
    simp only [hline]
    exact ⟨_, rfl⟩

/-- An event in UTF-8 reaches every subscriber. -/
theorem publish_ok {lib : Libraries} (hlib : lib.Lawful) (copy : Option CopyFailure) {e : Event}
    (he : allUtf8 e.texts = true) (h : Hub) : ∃ h', h.publish lib copy e = .ok h' := by
  rw [publish_eq]
  cases hn : h.nested lib copy e with
  | none => exact broadcast_ok hlib.json he _
  | some x =>
    obtain ⟨id, _, failure, -, -, -, rfl⟩ := nested_eq hn
    have hx : allUtf8 (Event.errorOccurred (some id) .clipboard
        (failure.message lib.config.strerror)).texts = true := by
      simp [Event.texts, CopyFailure.utf8_message hlib.config failure]
    obtain ⟨h', hh'⟩ := broadcast_ok hlib.json hx (((h.note e).track e).note
      (.errorOccurred (some id) .clipboard (failure.message lib.config.strerror)))
    rw [publishNested, hh']
    exact broadcast_ok hlib.json he h'

theorem publishAll_ok {lib : Libraries} (hlib : lib.Lawful) (copy : Option CopyFailure) :
    ∀ {es : List Event}, (∀ e ∈ es, allUtf8 e.texts = true) →
      ∀ h : Hub, ∃ h', publishAll lib copy es h = .ok h'
  | [], _, h => ⟨h, rfl⟩
  | e :: rest, hes, h => by
      obtain ⟨h', hh'⟩ := publish_ok hlib copy (hes e List.mem_cons_self) h
      rw [publishAll, hh']
      exact publishAll_ok hlib copy (fun x hx => hes x (List.mem_cons_of_mem e hx)) h'

end Hub

/-! ## Every state of the daemon -/

namespace Daemon

variable {lib : Libraries} {s : Startup} {d d' : Daemon}

/-- What every step of the daemon keeps. -/
structure Sound (lib : Libraries) (s : Startup) (d : Daemon) : Prop where
  reachable : Machine.Reachable s.capacity (loaded lib s).configuration s.liveConfig d.machine
  configuration : allUtf8 d.dispatcher.configurationManager.configuration.texts = true
  published : ∀ e ∈ d.hub.published, e.Own

theorem Sound.ready (h : Sound lib s d) (hidle : d.machine.owner = .idle) :
    d.dispatcher.Ready s.capacity (loaded lib s).configuration s.liveConfig :=
  ⟨h.reachable, hidle, h.configuration⟩

theorem decodeTable_utf8 {root : TomlTable}
    (hroot : ∀ key value, root.string key = some value → validUtf8 value = true) :
    allUtf8 (decodeTable root {}).configuration.texts = true := by
  have hkey : ∀ (key : String) (d : Bytes), validUtf8 d = true →
      validUtf8 ((readKey root key "string" root.string).1.getD d) = true := by
    intro key d hd
    unfold readKey
    split
    · cases hvalue : root.string (str key) with
      | none => simpa using hd
      | some value => simpa using hroot _ _ hvalue
    · simpa using hd
  have hlanguage : validUtf8 (str "auto") = true := by decide
  have hmodel : validUtf8 (str "base") = true := by decide
  have hif : ∀ {b : Bool} {x y : Bytes}, validUtf8 x = true → validUtf8 y = true →
      validUtf8 (if b = true then x else y) = true := by
    intro b x y hx hy
    split
    · exact hx
    · exact hy
  simp only [decodeTable, Configuration.texts, allUtf8_cons, allUtf8_nil, Bool.and_true,
    Bool.and_eq_true]
  exact ⟨hif (hkey _ _ hlanguage) hlanguage, hif (hkey _ _ hmodel) hmodel, hkey _ _ rfl⟩

/-- What `load()` reads, or falls back to, is UTF-8. -/
theorem loaded_utf8 (hlib : lib.Lawful) (s : Startup) :
    allUtf8 (loaded lib s).configuration.texts = true := by
  have hdefault : allUtf8 ({} : Configuration).texts = true := by decide
  unfold loaded ConfigurationManager.load
  simp only
  split
  · exact hdefault
  · split
    · exact hdefault
    · split
      · exact hdefault
      · split
        · exact hdefault
        · unfold decodeToml
          split
          · exact hdefault
          · rename_i root hparse
            exact decodeTable_utf8 fun key value =>
              hlib.config.toml_utf8 _ root key value hparse

theorem init_sound (hlib : lib.Lawful) (s : Startup) : Sound lib s (init lib s) where
  reachable := Lib.Reachable.refl _
  configuration := loaded_utf8 hlib s
  published := by
    intro e he
    simp only [init, loadConfiguredModel] at he
    split at he
    · rename_i model hfind
      split at he
      · rw [List.mem_singleton] at he
        subst he
        have hmem := List.mem_of_find?_eq_some hfind
        simp [Event.Own, Event.texts, Event.foreign, allUtf8_listed hmem]
      · cases he
    · cases he

theorem newEvents_eq {machine : Machine} {es : List Event}
    (h : machine.log = d.machine.log ++ es) : d.newEvents machine = es := by
  rw [newEvents, h, List.drop_left]

theorem advance_machine (d : Daemon) (copy : Option CopyFailure) (machine : Machine) :
    (d.advance lib copy machine).machine = machine := by
  unfold advance
  simp only
  split
  · rfl
  · rfl

theorem advance_hub (d : Daemon) (copy : Option CopyFailure) (machine : Machine) :
    (d.advance lib copy machine).hub =
      Hub.left (Hub.publishAll lib copy (d.newEvents machine) d.hub) := by
  unfold advance
  simp only
  split
  · rename_i h hpublish
    rw [hpublish]
    rfl
  · rename_i h hpublish
    rw [hpublish]
    rfl

theorem advance_configuration (d : Daemon) (copy : Option CopyFailure) (machine : Machine) :
    (d.advance lib copy machine).dispatcher.configurationManager =
      d.dispatcher.configurationManager := by
  unfold advance
  simp only
  split
  · rfl
  · rfl

theorem advance_sound (hlib : lib.Lawful) (h : Sound lib s d) {a : Act} (ha : a.ofLoop = true)
    {machine : Machine} (hs : d.machine.step a = some machine) (copy : Option CopyFailure) :
    Sound lib s (d.advance lib copy machine) := by
  obtain ⟨e, hlog, hown⟩ := Machine.step_says h.reachable ha hs
  refine ⟨?_, ?_, ?_⟩
  · rw [advance_machine]
    exact h.reachable.snoc hs
  · rw [advance_configuration]
    exact h.configuration
  · rw [advance_hub, newEvents_eq hlog]
    refine Hub.publishAll_own hlib h.published ?_
    intro x hx
    exact hown x (Option.mem_toList.mp hx)

theorem handleLine_dispatcher (d : Daemon) (line : Bytes) (env : LineEnv) :
    (d.handleLine lib line env).1.dispatcher = (d.dispatcher.handleLine lib line env).1 := by
  unfold handleLine
  simp only
  split
  · rfl
  · rfl

theorem handleLine_hub (d : Daemon) (line : Bytes) (env : LineEnv) :
    (d.handleLine lib line env).1.hub =
      Hub.left (Hub.publishAll lib none
        (d.newEvents (d.dispatcher.handleLine lib line env).1.machine) d.hub) := by
  unfold handleLine
  simp only
  split
  · rename_i h hpublish
    rw [hpublish]
    rfl
  · rename_i h hpublish
    rw [hpublish]
    rfl

theorem handleLine_sound (hlib : lib.Lawful) (h : Sound lib s d)
    (hidle : d.machine.owner = .idle) (line : Bytes) (env : LineEnv) :
    Sound lib s (d.handleLine lib line env).1 := by
  obtain ⟨hready, ⟨es, hlog, hes⟩, -⟩ :=
    CommandDispatcher.handleLine_spec hlib (h.ready hidle) line env
  refine ⟨?_, ?_, ?_⟩
  · rw [machine, handleLine_dispatcher]
    exact hready.reachable
  · rw [handleLine_dispatcher]
    exact hready.configuration
  · rw [handleLine_hub, newEvents_eq hlog]
    exact Hub.publishAll_own hlib h.published fun x hx => Event.own_of_utf8 (hes x hx)

/-- Changing the subscriptions or sending a line keeps `Sound`. -/
theorem Sound.of_hub (h : Sound lib s d) (hdispatcher : d'.dispatcher = d.dispatcher)
    (hpublished : d'.hub.published = d.hub.published) : Sound lib s d' := by
  refine ⟨?_, ?_, ?_⟩
  · rw [machine, hdispatcher]
    exact h.reachable
  · rw [hdispatcher]
    exact h.configuration
  · rw [hpublished]
    exact h.published

theorem Sound.respond (h : Sound lib s d) (fd : ClientId) (reply : Reply) :
    Sound lib s (d.respond fd reply) := by
  cases reply with
  | line bytes => exact h.of_hub rfl rfl
  | threw => exact h.of_hub rfl rfl
  | undefined => exact h.of_hub rfl rfl

theorem step_sound (hlib : lib.Lawful) {a : DaemonAct} (h : Sound lib s d)
    (hs : d.step lib a = some d') : Sound lib s d' := by
  cases a with
  | session a copy =>
    simp only [step, Option.ite_none_right_eq_some, Option.map_eq_some_iff] at hs
    obtain ⟨⟨-, ha⟩, machine, hmachine, rfl⟩ := hs
    exact advance_sound hlib h ha hmachine copy
  | line fd line env =>
    simp only [step, Option.ite_none_right_eq_some, Option.some.injEq] at hs
    obtain ⟨⟨-, hidle⟩, rfl⟩ := hs
    unfold onLine
    simp only
    split
    · refine Sound.respond ?_ fd _
      refine h.of_hub rfl ?_
      unfold Hub.subscribe
      split <;> rfl
    · split
      · refine Sound.respond ?_ fd _
        exact h.of_hub rfl rfl
      · exact (handleLine_sound hlib h hidle line env).respond fd _
  | disconnect fd =>
    simp only [step, Option.ite_none_right_eq_some, Option.some.injEq] at hs
    obtain ⟨-, rfl⟩ := hs
    exact h.of_hub rfl rfl

theorem Reachable.sound (hlib : lib.Lawful) (h : Reachable lib s d) : Sound lib s d :=
  Lib.Reachable.invariant h (init_sound hlib s) fun _ _ _ _ hsound hs => step_sound hlib hsound hs

/-! ## Which inputs the protocol layer answers -/

/-- `handle_line` answers every line except a `list_models` request while
the models directory holds a model whose name or path is not UTF-8, and
`encode_event` returns for a published event exactly when the texts it got
from the speech backend or the file system are UTF-8. -/
theorem protocol_answers_iff (hlib : lib.Lawful) (hd : Reachable lib s d) :
    (d.machine.owner = .idle → ∀ line env,
      ((d.handleLine lib line env).2.Answers lib.json (requestType lib.json line) ↔
        ¬ ((parseMessage lib.json line).type = some (str "list_models") ∧
          d.dispatcher.Unprintable env))) ∧
    ∀ e ∈ d.hub.published,
      ((encodeEvent lib.json e).isSome = true ↔ ∀ text ∈ e.foreign, validUtf8 text = true) := by
  have hsound := hd.sound hlib
  refine ⟨?_, ?_⟩
  · intro hidle line env
    obtain ⟨-, ⟨es, hlog, hes⟩, hanswers⟩ :=
      CommandDispatcher.handleLine_spec hlib (hsound.ready hidle) line env
    -- nothing the command publishes can throw on its way to the clients
    obtain ⟨h, hpublish⟩ := Hub.publishAll_ok hlib none hes d.hub
    have hreply : (d.handleLine lib line env).2 = (d.dispatcher.handleLine lib line env).2 := by
      unfold handleLine
      simp only [newEvents_eq hlog, hpublish]
    rw [hreply]
    exact hanswers
  · intro e he
    rw [encodeEvent_isSome hlib.json, hsound.published e he, allUtf8, List.all_eq_true]

/-- Libraries for concrete runs in which the configuration directory cannot
be created, so that nothing is parsed as TOML. -/
def plainLibraries : Libraries where
  json := compactJson
  config :=
    { toml := { parse := fun _ => .error (str "expected a document"), print := fun _ => [] }
      strerror := fun _ => str "Permission denied" }

theorem plainLibraries_lawful : plainLibraries.Lawful where
  json := compactJson_lawful
  config :=
    { toml_utf8 := by
        intro source root key value hparse
        cases hparse
      strerror_utf8 := by
        intro errno
        show validUtf8 (str "Permission denied") = true
        decide }

/-- A daemon with room for one job and `base.bin` to load. -/
def plainStartup : Startup where
  load := { createError := some 13 }
  capacity := 1
  modelsDirectory := str "/m"
  entries := [⟨str "base.bin", true⟩]

/-- A request with no fields but its type. -/
def request (type : String) : Bytes := str ("\x7b\"type\":\"" ++ type ++ "\"\x7d")

/-- With a UTF-8 models directory, `list_models` is answered, and the event
the startup published can be encoded. -/
theorem protocol_answers_iff_base_model :
    ((init plainLibraries plainStartup).handleLine plainLibraries (request "list_models")
      { entries := [⟨str "base.bin", true⟩] }).2.Answers compactJson
        (requestType compactJson (request "list_models")) ∧
    ∀ e ∈ (init plainLibraries plainStartup).hub.published,
      (encodeEvent compactJson e).isSome = true := by
  obtain ⟨hline, hevents⟩ := protocol_answers_iff plainLibraries_lawful
    (Lib.Reachable.refl (init plainLibraries plainStartup))
  refine ⟨(hline rfl _ _).mpr ?_, ?_⟩
  · rintro ⟨-, model, hmem, hbad⟩
    revert model
    decide
  · intro e he
    refine (hevents e he).mpr ?_
    revert e
    decide

/-- A dictation whose transcript is the single byte `FF`, up to the
publication of its result. -/
def brokenTextActs : List DaemonAct :=
  let result : TranscriptionResult := .transcript { text := [0xFF] }
  [.line 5 (request "start_recording") {}, .line 5 (request "stop_recording") {},
    .session (.worker result) none, .session (.worker result) none,
    .session (.worker result) none, .session (.worker result) none,
    .session (.call .pollCompleted {}) none, .session (.own {}) none, .session (.own {}) none,
    .session (.own {}) none, .session (.own {}) none]

/-- `handle_line` throws on `list_models` next to a file `base-\xFF.bin`,
and `encode_event` throws on a transcript that is not UTF-8. -/
theorem protocol_throws :
    (∃ env, ((init plainLibraries plainStartup).handleLine plainLibraries
      (request "list_models") env).2 = .threw) ∧
    ∃ d, Reachable plainLibraries plainStartup d ∧
      ∃ e ∈ d.hub.published, encodeEvent compactJson e = none := by
  refine ⟨⟨{ entries := [⟨str "base-" ++ [0xFF] ++ str ".bin", true⟩] }, rfl⟩, ?_⟩
  have hrun : ((Lib.run (step plainLibraries) (init plainLibraries plainStartup)
      brokenTextActs).map fun d => d.hub.published.getLast?) =
        some (some (.transcriptionCompleted 1 { text := [0xFF] })) := by
    decide
  obtain ⟨d, hd, hlast⟩ := Option.map_eq_some_iff.mp hrun
  exact ⟨d, ⟨brokenTextActs, hd⟩, _, List.mem_of_getLast? hlast, rfl⟩

end Daemon

end YoruSpeech

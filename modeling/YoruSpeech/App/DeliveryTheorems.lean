/-
YoruSpeech.App.DeliveryTheorems — what a client that waits for a transcript
is told, from the worker's result to the pair `wait_for_transcript`
returns.

* `readEvent_eventMessage` — how the client reads each event.
* `Hub.Tells` — the lines a stretch of publications sends to one client
  read like the published events, up to the ones published from inside
  `AutoClipboard`'s handler.
* `Delivery` is kept by every step, and says the same of the session log.
* `transcript_delivered` concludes: unless the copy of the session's own
  transcript fails, the client returns what became of the session.

The client's `json.loads` is a parameter; `ReadsBack` is what the client
relies on.
-/
import YoruSpeech.App.DaemonTheorems
import YoruSpeech.App.Dictate
import YoruSpeech.Session.ResultTheorems

namespace YoruSpeech

open Lib (Json validUtf8)

/-! ## Reading the daemon's messages -/

/-- The client reads the values the daemon writes. -/
def ReadsBack (loads : Bytes → Option Json) (json : JsonLib) : Prop :=
  ∀ v line, v.Canonical → json.dump v = some line → loads line = some v

/-- What an event tells a client that waits for the session. -/
def Event.verdict (id : SessionId) : Event → Option WaitResult
  | .transcriptionCompleted i t =>
    if i = id then some (.returned (some (.str t.text)) none) else none
  | .errorOccurred (some i) _ message =>
    if i = id then some (.returned none (some (.str message))) else none
  | .sessionCancelled i =>
    if i = id then some (.returned none (some (.str (str "cancelled")))) else none
  | _ => none

/-- A verdict ends the session for the client. -/
theorem Event.ends_of_verdict {id : SessionId} {e : Event} {r : WaitResult}
    (h : e.verdict id = some r) : e.ends? = some id := by
  unfold verdict at h
  split at h
  · obtain ⟨rfl, -⟩ := Option.ite_none_right_eq_some.mp h
    rfl
  · obtain ⟨rfl, -⟩ := Option.ite_none_right_eq_some.mp h
    rfl
  · obtain ⟨rfl, -⟩ := Option.ite_none_right_eq_some.mp h
    rfl
  · cases h

theorem Event.verdict_ne_raised {id : SessionId} (e : Event) :
    e.verdict id ≠ some .raised := by
  intro h
  unfold verdict at h
  split at h
  · cases (Option.ite_none_right_eq_some.mp h).2
  · cases (Option.ite_none_right_eq_some.mp h).2
  · cases (Option.ite_none_right_eq_some.mp h).2
  · cases h

/-- The session an event names. -/
def Event.session? : Event → Option SessionId
  | .recordingStarted id => some id
  | .recordingFinished id _ => some id
  | .transcriptionQueued id _ => some id
  | .transcriptionStarted id => some id
  | .transcriptionCompleted id _ => some id
  | .transcriptionPartial id _ _ => some id
  | .modelLoaded _ => none
  | .configurationChanged _ => none
  | .errorOccurred id _ _ => id
  | .sessionCancelled id => some id

theorem get?_eventMessage {e : Event} {key : String} {v : Json}
    (h : field key v ∈ eventEnvelope e.name ++ eventFields e) :
    (eventMessage e).get? (str key) = some v :=
  Json.get?_object (nodup_eventKeys e) h

theorem eventMessage_session (e : Event) :
    (eventMessage e).get? (str "session_id") = e.session?.map Json.unsigned := by
  have hnone : str "session_id" ∉ (eventEnvelope e.name ++ eventFields e).map Prod.fst →
      (eventMessage e).get? (str "session_id") = none :=
    Json.get?_object_none (nodup_eventKeys e)
  cases e with
  | modelLoaded model =>
    refine hnone ?_
    show str "session_id" ∉ [str "type", str "event", str "name", str "size",
      str "supported_language", str "path", str "backend"]
    decide
  | configurationChanged c =>
    refine hnone ?_
    show str "session_id" ∉ [str "type", str "event", str "default_language",
      str "selected_model", str "auto_clipboard", str "model_load_policy",
      str "transcription_prompt"]
    decide
  | errorOccurred id component message =>
    cases id with
    | none =>
      refine hnone ?_
      show str "session_id" ∉ [str "type", str "event", str "component", str "message"]
      decide
    | some id => exact get?_eventMessage (by simp [eventFields, optionalId])
  | _ => exact get?_eventMessage (by simp [eventFields])

/-- The client reads an event as its verdict says. -/
theorem readEvent_eventMessage (id : SessionId) (e : Event) :
    readEvent id (eventMessage e) = e.verdict id := by
  have hobject : (eventMessage e).isObject = true := rfl
  have htype : fieldIs (eventMessage e) "type" "event" = true := by
    have hget : (eventMessage e).get? (str "type") = some (.str (str "event")) :=
      get?_eventMessage (by simp [eventEnvelope])
    simp [fieldIs, hget]
  have hname : ∀ name, fieldIs (eventMessage e) "event" name = (str e.name == str name) := by
    intro name
    have hget : (eventMessage e).get? (str "event") = some (.str (str e.name)) :=
      get?_eventMessage (by simp [eventEnvelope])
    simp [fieldIs, hget]
  have hsession : sessionIs (eventMessage e) id = decide (e.session? = some id) := by
    unfold sessionIs
    rw [eventMessage_session]
    cases e.session? with
    | none => rfl
    | some i => simp [beq_eq_decide]
  have hneutral : e.verdict id = none → (∀ name ∈ ["transcription_completed", "error_occurred",
      "session_cancelled"], fieldIs (eventMessage e) "event" name = false) →
      readEvent id (eventMessage e) = e.verdict id := by
    intro hverdict hnames
    simp only [List.mem_cons, List.not_mem_nil, or_false, forall_eq_or_imp, forall_eq] at hnames
    simp [readEvent, hobject, hnames, hverdict]
  cases e with
  | transcriptionCompleted i t =>
    have htext : (eventMessage (.transcriptionCompleted i t)).get? (str "text") =
        some (.str t.text) := get?_eventMessage (by simp [eventFields])
    have hcompleted : fieldIs _ "event" "transcription_completed" = true := hname _
    simp [readEvent, hobject, htype, hsession, hcompleted, htext, Event.session?, Event.verdict]
  | errorOccurred i component message =>
    have hmessage : (eventMessage (.errorOccurred i component message)).get? (str "message") =
        some (.str message) := get?_eventMessage (by simp [eventFields])
    have hcompleted : fieldIs _ "event" "transcription_completed" = false := hname _
    have herror : fieldIs _ "event" "error_occurred" = true := hname _
    cases i with
    | none => simp [readEvent, hobject, htype, hsession, Event.session?, Event.verdict]
    | some i =>
      simp [readEvent, hobject, htype, hsession, hcompleted, herror, hmessage, Event.session?,
        Event.verdict]
  | sessionCancelled i =>
    have hcompleted : fieldIs _ "event" "transcription_completed" = false := hname _
    have herror : fieldIs _ "event" "error_occurred" = false := hname _
    have hcancelled : fieldIs _ "event" "session_cancelled" = true := hname _
    simp [readEvent, hobject, htype, hsession, hcompleted, herror, hcancelled, Event.session?,
      Event.verdict]
  | _ =>
    refine hneutral rfl ?_
    simp only [List.mem_cons, List.not_mem_nil, or_false, forall_eq_or_imp, forall_eq]
    exact ⟨hname _, hname _, hname _⟩

/-- What the loop does with one line; `none` reads on. -/
def readLine (loads : Bytes → Option Json) (id : SessionId) (line : Bytes) : Option WaitResult :=
  match loads line with
  | none => some .raised
  | some event => readEvent id event

/-- The loop returns at the first line that makes it return. -/
theorem waitForTranscript_eq (loads : Bytes → Option Json) (id : SessionId) (lines : List Bytes) :
    waitForTranscript loads id lines = (lines.findSome? (readLine loads id)).getD .waiting := by
  induction lines with
  | nil => rfl
  | cons line rest ih =>
    rw [waitForTranscript, List.findSome?_cons, readLine]
    cases loads line with
    | none => rfl
    | some event =>
      simp only
      cases readEvent id event with
      | none => exact ih
      | some r => rfl

section Reading

variable {loads : Bytes → Option Json} {json : JsonLib} {id : SessionId} {line : Bytes}

theorem readLine_event (hloads : ReadsBack loads json) {e : Event}
    (h : encodeEvent json e = some line) : readLine loads id line = e.verdict id := by
  unfold readLine
  rw [hloads _ _ (canonical_eventMessage e) h]
  exact readEvent_eventMessage id e

/-- A response to a request that is not of the type of the events is
skipped. -/
theorem readLine_response (hloads : ReadsBack loads json) {type : Bytes}
    (h : IsResponse json type line) (htype : type ≠ str "event") :
    readLine loads id line = none := by
  obtain ⟨v, hcanonical, hdump, -, hobject, hget, -⟩ := h.content
  have hfield : fieldIs v "type" "event" = false := by
    simp [fieldIs, hget, htype]
  simp [readLine, hloads v line hcanonical hdump, readEvent, hobject, hfield]

/-- An error response names no session, whatever its type. -/
theorem readLine_error (hloads : ReadsBack loads json) {type error : Bytes}
    (h : encodeError json type error = some line) : readLine loads id line = none := by
  have hkeys : ((responseFields type false ++ [field "error" (.str error)]).map
      Prod.fst).Nodup := by
    show [str "type", str "ok", str "error"].Nodup
    decide
  have hcanonical :
      (Json.object (responseFields type false ++ [field "error" (.str error)])).Canonical :=
    Json.canonical_object hkeys (by simp [responseFields, field, Json.Canonical])
  have hsession : sessionIs
      (Json.object (responseFields type false ++ [field "error" (.str error)])) id = false := by
    have hnone : (Json.object (responseFields type false ++
        [field "error" (.str error)])).get? (str "session_id") = none := by
      refine Json.get?_object_none hkeys ?_
      show str "session_id" ∉ [str "type", str "ok", str "error"]
      decide
    simp [sessionIs, hnone]
  have hobject : (Json.object (responseFields type false ++
      [field "error" (.str error)])).isObject = true := rfl
  simp [readLine, hloads _ _ hcanonical h, readEvent, hobject, hsession]

end Reading

/-! ## The lines of one client -/

/-- The lines sent to a client, of a list of calls of `send_line`. -/
def linesTo (fd : ClientId) (sent : List (ClientId × Bytes)) : List Bytes :=
  (sent.filter (·.1 == fd)).map (·.2)

theorem linesTo_append (fd : ClientId) (xs ys : List (ClientId × Bytes)) :
    linesTo fd (xs ++ ys) = linesTo fd xs ++ linesTo fd ys := by
  simp [linesTo]

theorem linesTo_other {fd client : ClientId} (h : client ≠ fd) (line : Bytes) :
    linesTo fd [(client, line)] = [] := by
  simp [linesTo, h]

theorem linesTo_self (fd : ClientId) (line : Bytes) : linesTo fd [(fd, line)] = [line] := by
  simp [linesTo]

/-- Reading one line that goes to every subscriber. -/
theorem findSome?_broadcast {fd : ClientId} {clients : List ClientId} (hfd : fd ∈ clients)
    (line : Bytes) (f : Bytes → Option WaitResult) :
    (linesTo fd (clients.map (·, line))).findSome? f = f line := by
  induction clients with
  | nil => cases hfd
  | cons client rest ih =>
    rw [List.map_cons, ← List.singleton_append, linesTo_append]
    by_cases hclient : client = fd
    · subst hclient
      rw [linesTo_self, List.findSome?_append, List.findSome?_singleton]
      cases hline : f line with
      | some r => rfl
      | none =>
        -- a further copy of the line says nothing either
        rw [Option.none_or, List.findSome?_eq_none_iff]
        intro x hx
        obtain ⟨⟨c, y⟩, hmem, rfl⟩ := List.mem_map.mp hx
        obtain ⟨c', -, hpair⟩ := List.mem_map.mp (List.mem_filter.mp hmem).1
        cases hpair
        exact hline
    · rw [linesTo_other hclient, List.nil_append]
      exact ih ((List.mem_cons.mp hfd).resolve_left (Ne.symm hclient))

namespace Hub

variable {loads : Bytes → Option Json} {lib : Libraries} {copy : Option CopyFailure}
  {id : SessionId} {fd : ClientId} {h h' : Hub} {e : Event} {es : List Event}

/-- From `h` to `h'` the subscriber `fd` was told of these events: the lines
sent to it read the same. -/
structure Tells (loads : Bytes → Option Json) (id : SessionId) (fd : ClientId) (h h' : Hub)
    (es : List Event) : Prop where
  client : fd ∈ h'.subscribedClients
  lines : ∃ new, h'.sent = h.sent ++ new ∧
    (linesTo fd new).findSome? (readLine loads id) = es.findSome? (Event.verdict id)

theorem Tells.nothing (hfd : fd ∈ h'.subscribedClients) (hsent : h'.sent = h.sent) :
    Tells loads id fd h h' [] :=
  ⟨hfd, [], by simp [hsent], rfl⟩

theorem Tells.trans {h'' : Hub} {es' : List Event} (hfirst : Tells loads id fd h h' es)
    (hthen : Tells loads id fd h' h'' es') : Tells loads id fd h h'' (es ++ es') := by
  obtain ⟨-, new, hsent, hread⟩ := hfirst
  obtain ⟨hfd, new', hsent', hread'⟩ := hthen
  refine ⟨hfd, new ++ new', by rw [hsent', hsent, List.append_assoc], ?_⟩
  rw [linesTo_append, List.findSome?_append, List.findSome?_append, hread, hread']

/-- A line the client does not stop at. -/
theorem Tells.line (hfd : fd ∈ h'.subscribedClients) {client : ClientId} {line : Bytes}
    (hsent : h'.sent = h.sent ++ [(client, line)])
    (hread : client = fd → readLine loads id line = none) : Tells loads id fd h h' [] := by
  refine ⟨hfd, _, hsent, ?_⟩
  by_cases hclient : client = fd
  · subst hclient
    rw [linesTo_self, List.findSome?_singleton]
    exact hread rfl
  · rw [linesTo_other hclient]
    rfl

theorem broadcast_tells (hloads : ReadsBack loads lib.json) (hfd : fd ∈ h.subscribedClients)
    (hok : h.broadcast lib.json e = .ok h') : Tells loads id fd h h' [e] := by
  have hne : h.subscribedClients ≠ [] := List.ne_nil_of_mem hfd
  unfold broadcast at hok
  rw [if_neg hne] at hok
  split at hok
  · cases hok
  · rename_i line hline
    cases hok
    refine ⟨hfd, _, rfl, ?_⟩
    rw [findSome?_broadcast hfd, List.findSome?_singleton, readLine_event hloads hline]

theorem broadcast_error (herror : h.broadcast lib.json e = .error h') : h' = h := by
  unfold broadcast at herror
  split at herror
  · cases herror
  · split at herror
    · cases herror
      rfl
    · cases herror

/-- A client is told of a part of the events, and of all of them unless the
last one could not be encoded. -/
def TellsUpTo (loads : Bytes → Option Json) (id : SessionId) (fd : ClientId) (h : Hub)
    (r : Except Hub Hub) (es : List Event) : Prop :=
  ∃ told, told <+: es ∧ Tells loads id fd h (left r) told ∧ ∀ h', r = .ok h' → told = es

theorem broadcast_tellsUpTo (hloads : ReadsBack loads lib.json)
    (hfd : fd ∈ h.subscribedClients) (e : Event) :
    TellsUpTo loads id fd h (h.broadcast lib.json e) [e] := by
  cases hr : h.broadcast lib.json e with
  | ok h' => exact ⟨[e], List.prefix_rfl, broadcast_tells hloads hfd hr, fun _ _ => rfl⟩
  | error h' =>
    obtain rfl := broadcast_error hr
    exact ⟨[], List.nil_prefix, .nothing hfd rfl, fun _ hok => by cases hok⟩

theorem note_track_sent (h : Hub) (e : Event) :
    ((h.note e).track e).sent = h.sent ∧
      ((h.note e).track e).subscribedClients = h.subscribedClients := by
  cases e <;> exact ⟨rfl, rfl⟩

/-- One publication tells the subscriber of the event, if what
`AutoClipboard` publishes on the way is about another session. -/
theorem publish_tells (hloads : ReadsBack loads lib.json) (hfd : fd ∈ h.subscribedClients)
    (hnested : ∀ x ∈ h.nested lib copy e, x.verdict id = none) :
    TellsUpTo loads id fd h (h.publish lib copy e) [e] := by
  obtain ⟨hsent, hclients⟩ := note_track_sent h e
  have hfd' : fd ∈ ((h.note e).track e).subscribedClients := hclients ▸ hfd
  have hstart : Tells loads id fd h ((h.note e).track e) [] := .nothing hfd' hsent
  rw [publish_eq]
  cases hn : h.nested lib copy e with
  | none =>
    have hlast : TellsUpTo loads id fd _ (broadcast lib.json ((h.note e).track e) e) [e] :=
      broadcast_tellsUpTo hloads hfd' e
    obtain ⟨told, hpre, htells, hall⟩ := hlast
    exact ⟨told, hpre, hstart.trans htells, hall⟩
  | some x =>
    have hx : x.verdict id = none := hnested x hn
    have hnote : Tells loads id fd h (((h.note e).track e).note x) [] := .nothing hfd' hsent
    rw [publishNested]
    cases hr : (((h.note e).track e).note x).broadcast lib.json x with
    | error h' =>
      obtain rfl := broadcast_error hr
      exact ⟨[], List.nil_prefix, hnote, fun _ hok => by cases hok⟩
    | ok h' =>
      have hsaid : Tells loads id fd _ h' [x] := broadcast_tells hloads hnote.client hr
      obtain ⟨hfd'', new, hnew, hread⟩ := hsaid
      have hsilent : Tells loads id fd (((h.note e).track e).note x) h' [] := by
        refine ⟨hfd'', new, hnew, ?_⟩
        rw [hread, List.findSome?_singleton, hx]
        rfl
      have hlast : TellsUpTo loads id fd h' (h'.broadcast lib.json e) [e] :=
        broadcast_tellsUpTo hloads hfd'' e
      obtain ⟨told, hpre, htells, hall⟩ := hlast
      exact ⟨told, hpre, (hnote.trans hsilent).trans htells, hall⟩

/-- Without a copy, publications in a row tell the subscriber of every
event. -/
theorem publishAll_tells (hloads : ReadsBack loads lib.json) :
    ∀ {es : List Event} {h : Hub}, fd ∈ h.subscribedClients →
      TellsUpTo loads id fd h (publishAll lib none es h) es
  | [], h, hfd => ⟨[], List.prefix_rfl, .nothing hfd rfl, fun _ _ => rfl⟩
  | e :: rest, h, hfd => by
      have hnone : h.nested lib none e = none := by
        cases hn : h.nested lib none e with
        | none => rfl
        | some x =>
          obtain ⟨_, _, _, _, hcopy, _⟩ := nested_eq hn
          cases hcopy
      have hfirst : TellsUpTo loads id fd h (h.publish lib none e) [e] :=
        publish_tells hloads hfd (by simp [hnone])
      obtain ⟨told, hpre, htells, hall⟩ := hfirst
      rw [publishAll]
      cases hr : h.publish lib none e with
      | error h' =>
        rw [hr] at htells
        refine ⟨told, hpre.trans (List.prefix_append [e] rest), htells, fun _ hok => by cases hok⟩
      | ok h' =>
        rw [hr] at htells
        obtain rfl := hall h' hr
        have hthen : TellsUpTo loads id fd h' (publishAll lib none rest h') rest :=
          publishAll_tells hloads htells.client
        obtain ⟨told', hpre', htells', hall'⟩ := hthen
        refine ⟨e :: told', (List.prefix_cons_inj e).mpr hpre', htells.trans htells', ?_⟩
        intro h'' hok
        rw [hall' h'' hok]

end Hub

/-! ## Every step -/

namespace Daemon

variable {loads : Bytes → Option Json} {lib : Libraries} {s : Startup} {id : SessionId}
  {fd : ClientId} {d₀ d₁ d d' : Daemon}

/-- The client stops listening. -/
def stopsListening (lib : Libraries) (fd : ClientId) : DaemonAct → Bool
  | .session _ _ => false
  | .line client line _ =>
    client == fd && (parseMessage lib.json line).type == some (str "unsubscribe_events")
  | .disconnect client => client == fd

/-- In this step `AutoClipboard` fails to copy the transcript of the
session. -/
def copyFails (id : SessionId) (d : Daemon) : DaemonAct → Bool
  | .session (.own _) (some _) =>
    match d.machine.owner with
    | .inside (.reporting (⟨i, .transcript _⟩ :: _) _) => i == id && d.hub.clipboard.enabled
    | _ => false
  | _ => false

/-- Since `d₁`, the client was told of what the session log has gained; if
the process has ended, of a part of it. -/
def Delivery (loads : Bytes → Option Json) (id : SessionId) (fd : ClientId) (d₁ d : Daemon) :
    Prop :=
  ∃ es, Hub.Tells loads id fd d₁.hub d.hub es ∧ d₁.machine.log ++ es <+: d.machine.log ∧
    (d.terminated = false → d.machine.log = d₁.machine.log ++ es)

theorem Delivery.client (h : Delivery loads id fd d₁ d) : fd ∈ d.hub.subscribedClients := by
  obtain ⟨es, htells, -⟩ := h
  exact htells.client

/-- A step that publishes these events, told as far as `told`. -/
theorem Delivery.step (h : Delivery loads id fd d₁ d) (halive : d.terminated = false)
    {es told : List Event} (hlog : d'.machine.log = d.machine.log ++ es) (hpre : told <+: es)
    (htells : Hub.Tells loads id fd d.hub d'.hub told)
    (hall : d'.terminated = false → told = es) : Delivery loads id fd d₁ d' := by
  obtain ⟨before, hbefore, -, heq⟩ := h
  refine ⟨before ++ told, hbefore.trans htells, ?_, ?_⟩
  · rw [hlog, heq halive, ← List.append_assoc]
    exact List.prefix_append_right_inj _ |>.mpr hpre
  · intro halive'
    rw [hlog, heq halive, hall halive', List.append_assoc]

/-- Only an error about the session itself would mislead the client. -/
theorem nested_verdict {a : Act} {machine : Machine} (hs : d.machine.step a = some machine)
    {copy : Option CopyFailure} (hcopy : copyFails id d (.session a copy) = false) {e x : Event}
    (he : d.machine.Publishes e) (hlog : machine.log = d.machine.log ++ [e])
    (hx : d.hub.nested lib copy e = some x) : x.verdict id = none := by
  obtain ⟨i, t, failure, rfl, rfl, henabled, rfl⟩ := Hub.nested_eq hx
  have hi : i ≠ id := by
    rintro rfl
    obtain ⟨rest, count, howner⟩ := he
    cases a with
    | own inp => simp [copyFails, howner, henabled] at hcopy
    | call op inp => simp [Machine.step, howner] at hs
    | worker result => simp [(Machine.step_background rfl hs).log] at hlog
    | capture buffer => simp [(Machine.step_background rfl hs).log] at hlog
    | lose => simp [(Machine.step_background rfl hs).log] at hlog
  simp [Event.verdict, hi]

theorem advance_delivery (hloads : ReadsBack loads lib.json) (hsound : Sound lib s d)
    (h : Delivery loads id fd d₁ d) (halive : d.terminated = false) {a : Act}
    {machine : Machine} (hs : d.machine.step a = some machine) {copy : Option CopyFailure}
    (hcopy : copyFails id d (.session a copy) = false) :
    Delivery loads id fd d₁ (d.advance lib copy machine) := by
  obtain ⟨e, hlog, hpublishes⟩ := (hsound.reachable.move hs).publishes
  have hfd := h.client
  have htold : Hub.TellsUpTo loads id fd d.hub
      (Hub.publishAll lib copy (d.newEvents machine) d.hub) e.toList := by
    rw [newEvents_eq hlog]
    cases e with
    | none => exact ⟨[], List.prefix_rfl, .nothing hfd rfl, fun _ _ => rfl⟩
    | some e =>
      have hone : Hub.publishAll lib copy [e] d.hub = d.hub.publish lib copy e :=
        bind_pure (d.hub.publish lib copy e)
      show Hub.TellsUpTo loads id fd d.hub (Hub.publishAll lib copy [e] d.hub) [e]
      rw [hone]
      exact Hub.publish_tells hloads hfd fun x hx =>
        nested_verdict hs hcopy (hpublishes e rfl) hlog hx
  obtain ⟨told, hpre, htells, hall⟩ := htold
  have hlog' : (d.advance lib copy machine).machine.log = d.machine.log ++ e.toList := by
    rw [advance_machine]
    exact hlog
  refine h.step halive hlog' hpre ?_ ?_
  · rw [advance_hub]
    exact htells
  · intro halive'
    cases hr : Hub.publishAll lib copy (d.newEvents machine) d.hub with
    | ok h' => exact hall h' hr
    | error h' => simp [advance, hr] at halive'

theorem ofDump_eq_line {dumped : Option Bytes} {bytes : Bytes}
    (h : Reply.ofDump dumped = .line bytes) : dumped = some bytes := by
  cases dumped with
  | none => cases h
  | some out =>
    cases h
    rfl

/-- A line `handle_line` returns is a response to the request. -/
theorem isResponse_of_reply (hlib : lib.Lawful) (hsound : Sound lib s d)
    (hidle : d.machine.owner = .idle) {line : Bytes} {env : LineEnv} {bytes : Bytes}
    (hreply : (d.dispatcher.handleLine lib line env).2 = .line bytes) :
    IsResponse lib.json (requestType lib.json line) bytes := by
  obtain ⟨-, -, hanswers⟩ := CommandDispatcher.handleLine_spec hlib (hsound.ready hidle) line env
  by_cases hlist : (parseMessage lib.json line).type = some (str "list_models")
  · have hmodels : (d.dispatcher.handleLine lib line env).2 =
        .ofDump (encodeModels lib.json (str "list_models")
          (listAvailableModels d.dispatcher.modelsDirectory env.entries)) := by
      simp only [CommandDispatcher.handleLine, hlist]
      rfl
    rw [hmodels] at hreply
    rw [requestType, hlist]
    exact encodeModels_response hlib.json (ofDump_eq_line hreply)
  · rw [hreply] at hanswers
    exact hanswers.mpr fun hbad => hlist hbad.1

/-- A response never ends the wait. -/
theorem readLine_reply (hlib : lib.Lawful) (hloads : ReadsBack loads lib.json)
    (hsound : Sound lib s d) (hidle : d.machine.owner = .idle) {line : Bytes} {env : LineEnv}
    {bytes : Bytes} (hreply : (d.dispatcher.handleLine lib line env).2 = .line bytes) :
    readLine loads id bytes = none := by
  by_cases hevent : (parseMessage lib.json line).type = some (str "event")
  · -- `event` is no command
    have herror : (d.dispatcher.handleLine lib line env).2 =
        .ofDump (encodeError lib.json (str "event") (str "unknown command: " ++ str "event")) := by
      simp only [CommandDispatcher.handleLine, hevent]
      rfl
    rw [herror] at hreply
    exact readLine_error hloads (ofDump_eq_line hreply)
  · refine readLine_response hloads (isResponse_of_reply hlib hsound hidle hreply) ?_
    unfold requestType
    cases htype : (parseMessage lib.json line).type with
    | none => decide
    | some type =>
      rintro rfl
      exact hevent htype

/-- Sending a response that does not end the wait. -/
theorem Delivery.respond (h : Delivery loads id fd d₁ d) (halive : d.terminated = false)
    {client : ClientId} {reply : Reply}
    (hread : ∀ bytes, reply = .line bytes → readLine loads id bytes = none) :
    Delivery loads id fd d₁ (d.respond client reply) := by
  have hfd := h.client
  have hlog : (d.respond client reply).machine.log = d.machine.log ++ [] := by
    rw [List.append_nil]
    cases reply <;> rfl
  refine h.step halive hlog List.prefix_rfl ?_ fun _ => rfl
  cases reply with
  | line bytes => exact .line hfd rfl fun _ => hread bytes rfl
  | threw => exact .nothing hfd rfl
  | undefined => exact .nothing hfd rfl

theorem readLine_ack (hlib : lib.Lawful) (hloads : ReadsBack loads lib.json) (type : Bytes)
    (htype : validUtf8 type = true) (hne : type ≠ str "event") :
    ∀ bytes, Reply.ofDump (encodeAck lib.json type) = .line bytes →
      readLine loads id bytes = none := by
  intro bytes hbytes
  obtain ⟨line, hline, hresponse⟩ := encodeAck_response hlib.json htype
  rw [hline] at hbytes
  cases hbytes
  exact readLine_response hloads hresponse hne

/-- A step that sends nothing and publishes nothing. -/
theorem Delivery.quiet (h : Delivery loads id fd d₁ d) (halive : d.terminated = false)
    (hdispatcher : d'.dispatcher = d.dispatcher) (hsent : d'.hub.sent = d.hub.sent)
    (hfd : fd ∈ d'.hub.subscribedClients) : Delivery loads id fd d₁ d' := by
  have hlog : d'.machine.log = d.machine.log ++ [] := by
    rw [machine, hdispatcher, List.append_nil]
    rfl
  exact h.step halive hlog List.prefix_rfl (.nothing hfd hsent) fun _ => rfl

theorem mem_subscribe {h : Hub} {client : ClientId} (hfd : fd ∈ h.subscribedClients) :
    fd ∈ (h.subscribe client).subscribedClients := by
  unfold Hub.subscribe
  split
  · exact hfd
  · exact List.mem_append_left _ hfd

theorem subscribe_sent (h : Hub) (client : ClientId) : (h.subscribe client).sent = h.sent := by
  unfold Hub.subscribe
  split <;> rfl

theorem mem_unsubscribe {h : Hub} {client : ClientId} (hfd : fd ∈ h.subscribedClients)
    (hne : client ≠ fd) : fd ∈ (h.unsubscribe client).subscribedClients := by
  simp [Hub.unsubscribe, hfd, Ne.symm hne]

theorem handleLine_delivery (hlib : lib.Lawful) (hloads : ReadsBack loads lib.json)
    (hsound : Sound lib s d) (hidle : d.machine.owner = .idle)
    (h : Delivery loads id fd d₁ d) (halive : d.terminated = false) (line : Bytes)
    (env : LineEnv) :
    Delivery loads id fd d₁ (d.handleLine lib line env).1 ∧
      (d.handleLine lib line env).1.terminated = false ∧
      (d.handleLine lib line env).2 = (d.dispatcher.handleLine lib line env).2 := by
  obtain ⟨-, ⟨es, hlog, hes⟩, -⟩ :=
    CommandDispatcher.handleLine_spec hlib (hsound.ready hidle) line env
  obtain ⟨h', hpublish⟩ := Hub.publishAll_ok hlib none hes d.hub
  have heq : d.handleLine lib line env =
      ({ dispatcher := (d.dispatcher.handleLine lib line env).1, hub := h' },
        (d.dispatcher.handleLine lib line env).2) := by
    unfold handleLine
    simp only [newEvents_eq hlog, hpublish]
  rw [heq]
  refine ⟨?_, rfl, rfl⟩
  have hfd := h.client
  have htold : Hub.TellsUpTo loads id fd d.hub (Hub.publishAll lib none es d.hub) es :=
    Hub.publishAll_tells hloads hfd
  rw [hpublish] at htold
  obtain ⟨told, hpre, htells, hall⟩ := htold
  exact h.step halive hlog hpre htells fun _ => hall h' rfl

/-- **Every step keeps the client informed**, unless the client stops
listening or the copy of its own transcript fails. -/
theorem step_delivery (hlib : lib.Lawful) (hloads : ReadsBack loads lib.json) {a : DaemonAct}
    (hsound : Sound lib s d) (h : Delivery loads id fd d₁ d)
    (hlistens : stopsListening lib fd a = false) (hcopy : copyFails id d a = false)
    (hs : d.step lib a = some d') : Delivery loads id fd d₁ d' := by
  have hfd := h.client
  cases a with
  | session a copy =>
    simp only [Daemon.step, Option.ite_none_right_eq_some, Option.map_eq_some_iff] at hs
    obtain ⟨⟨halive, -⟩, machine, hmachine, rfl⟩ := hs
    exact advance_delivery hloads hsound h halive hmachine hcopy
  | line client line env =>
    simp only [Daemon.step, Option.ite_none_right_eq_some, Option.some.injEq] at hs
    obtain ⟨⟨halive, hidle⟩, rfl⟩ := hs
    unfold onLine
    simp only
    split
    · have hnext : Delivery loads id fd d₁ { d with hub := d.hub.subscribe client } :=
        h.quiet halive rfl (subscribe_sent _ _) (mem_subscribe hfd)
      exact hnext.respond halive
        (readLine_ack hlib hloads (str "subscribe_events") (by decide) (by decide))
    · split
      · rename_i hunsubscribe
        have hne : client ≠ fd := by
          rintro rfl
          simp [stopsListening, hunsubscribe] at hlistens
        have hnext : Delivery loads id fd d₁ { d with hub := d.hub.unsubscribe client } :=
          h.quiet halive rfl rfl (mem_unsubscribe hfd hne)
        exact hnext.respond halive
          (readLine_ack hlib hloads (str "unsubscribe_events") (by decide) (by decide))
      · obtain ⟨hnext, halive', hreply⟩ :=
          handleLine_delivery hlib hloads hsound hidle h halive line env
        refine hnext.respond halive' ?_
        intro bytes hbytes
        rw [hreply] at hbytes
        exact readLine_reply hlib hloads hsound hidle hbytes
  | disconnect client =>
    simp only [Daemon.step, Option.ite_none_right_eq_some, Option.some.injEq] at hs
    obtain ⟨⟨halive, -⟩, rfl⟩ := hs
    have hne : client ≠ fd := by
      rintro rfl
      simp [stopsListening] at hlistens
    exact h.quiet halive rfl rfl (mem_unsubscribe hfd hne)

/-! ## What the waiting client returns -/

/-- The lines sent to the client on the way from `d₁` to `d`. -/
def linesSince (d₁ d : Daemon) (fd : ClientId) : List Bytes :=
  linesTo fd (d.hub.sent.drop d₁.hub.sent.length)

/-- The wait over the lines of a delivery. -/
theorem Delivery.wait (h : Delivery loads id fd d₁ d) :
    ∃ es, waitForTranscript loads id (linesSince d₁ d fd) =
        (es.findSome? (Event.verdict id)).getD .waiting ∧
      (∀ e ∈ es, e ∈ d.machine.log) ∧
      (d.terminated = false → d.machine.log = d₁.machine.log ++ es) := by
  obtain ⟨es, ⟨-, new, hsent, hread⟩, hpre, hall⟩ := h
  refine ⟨es, ?_, ?_, hall⟩
  · rw [waitForTranscript_eq, linesSince, hsent, List.drop_left, hread]
  · intro e he
    exact hpre.subset (List.mem_append_right _ he)

theorem step_subscribe {line : Bytes} {env : LineEnv}
    (hline : (parseMessage lib.json line).type = some (str "subscribe_events"))
    (hs : d₀.step lib (.line fd line env) = some d₁) :
    d₁.machine = d₀.machine ∧ Delivery loads id fd d₁ d₁ := by
  simp only [Daemon.step, Option.ite_none_right_eq_some, Option.some.injEq] at hs
  obtain ⟨-, rfl⟩ := hs
  simp only [onLine, hline, if_true]
  have hfd : fd ∈ (d₀.hub.subscribe fd).subscribedClients := by
    unfold Hub.subscribe
    split
    · assumption
    · simp
  cases Reply.ofDump (encodeAck lib.json (str "subscribe_events")) with
  | line bytes => exact ⟨rfl, [], .nothing hfd rfl, by simp, fun _ => by simp⟩
  | threw => exact ⟨rfl, [], .nothing hfd rfl, by simp, fun _ => by simp⟩
  | undefined => exact ⟨rfl, [], .nothing hfd rfl, by simp, fun _ => by simp⟩

theorem run_delivery (hlib : lib.Lawful) (hloads : ReadsBack loads lib.json)
    (hd₀ : Reachable lib s d₀) {line : Bytes} {env : LineEnv}
    (hline : (parseMessage lib.json line).type = some (str "subscribe_events"))
    (hsubscribe : d₀.step lib (.line fd line env) = some d₁) {acts : List DaemonAct}
    (hrun : Lib.run (step lib) d₁ acts = some d)
    (hlistens : Lib.Along (step lib) (fun _ a => stopsListening lib fd a = false) d₁ acts)
    (hcopy : Lib.Along (step lib) (fun d a => copyFails id d a = false) d₁ acts) :
    Machine.Reachable s.capacity (loaded lib s).configuration s.liveConfig d.machine ∧
      d₁.machine = d₀.machine ∧ Delivery loads id fd d₁ d := by
  have hstart : d₁.machine = d₀.machine ∧ Delivery loads id fd d₁ d₁ :=
    step_subscribe hline hsubscribe
  have hsound₁ : Sound lib s d₁ := step_sound hlib (hd₀.sound hlib) hsubscribe
  have hend : Sound lib s d ∧ Delivery loads id fd d₁ d := by
    refine Lib.run_along (Q := fun d => Sound lib s d ∧ Delivery loads id fd d₁ d) ?_
      ⟨hsound₁, hstart.2⟩ (hlistens.and hcopy) hrun
    intro d a d' hd ha hs
    exact ⟨step_sound hlib hd.1 hs, step_delivery hlib hloads hd.1 hd.2 ha.1 ha.2 hs⟩
  exact ⟨hend.1.reachable, hstart.1, hend.2⟩

/-- **A successful transcription reaches the waiting client as a success**,
unless the copy of its transcript fails. A client that listens since before
the session was accepted returns the transcript once it is published, and
an error only if the backend failed on the session or the session was taken
out of the queue; it never raises. -/
theorem transcript_delivered (hlib : lib.Lawful) (hloads : ReadsBack loads lib.json)
    (hd₀ : Reachable lib s d₀) {line : Bytes} {env : LineEnv}
    (hline : (parseMessage lib.json line).type = some (str "subscribe_events"))
    (hsubscribe : d₀.step lib (.line fd line env) = some d₁)
    (hbefore : id ∉ d₀.machine.history.accepted) {acts : List DaemonAct}
    (hrun : Lib.run (step lib) d₁ acts = some d)
    (hlistens : Lib.Along (step lib) (fun _ a => stopsListening lib fd a = false) d₁ acts)
    (hcopy : Lib.Along (step lib) (fun d a => copyFails id d a = false) d₁ acts)
    (haccepted : id ∈ d.machine.history.accepted) :
    (∀ t, ⟨id, .transcript t⟩ ∈ d.machine.history.results →
      waitForTranscript loads id (linesSince d₁ d fd) =
          .returned (some (.str t.text)) none ∨
        waitForTranscript loads id (linesSince d₁ d fd) = .waiting ∧
          (⟨id, .transcript t⟩ ∈ d.machine.unreported ∨ d.terminated = true)) ∧
    (∀ text error, waitForTranscript loads id (linesSince d₁ d fd) = .returned text (some error) →
      (∃ e, ⟨id, .error e⟩ ∈ d.machine.history.results) ∨ id ∈ d.machine.history.withdrawn) ∧
    waitForTranscript loads id (linesSince d₁ d fd) ≠ .raised := by
  have hboth := run_delivery hlib hloads hd₀ hline hsubscribe hrun hlistens hcopy
  obtain ⟨hreach, hmachine, hdelivery⟩ := hboth
  obtain ⟨es, hwait, hmem, hall⟩ := hdelivery.wait
  rw [hwait]
  -- an event that makes the client return is in the log and ends the session
  have hverdict : ∀ r, es.findSome? (Event.verdict id) = some r →
      ∃ e ∈ d.machine.log, e.verdict id = some r ∧ e.ends? = some id := by
    intro r hr
    obtain ⟨e, he, her⟩ := List.exists_of_findSome?_eq_some hr
    exact ⟨e, hmem e he, her, Event.ends_of_verdict her⟩
  refine ⟨?_, ?_, ?_⟩
  · intro t ht
    rcases hreach.published_or_unreported ht with hpublished | hunreported
    · cases hr : es.findSome? (Event.verdict id) with
      | some r =>
        obtain ⟨e, he, her, hends⟩ := hverdict r hr
        obtain rfl := hreach.ends_unique haccepted he hpublished hends rfl
        rw [Event.verdict, if_pos rfl] at her
        exact .inl (Option.some.inj her).symm
      | none =>
        refine .inr ⟨rfl, .inr ?_⟩
        -- a living daemon has told the client everything since it subscribed
        by_contra hdead
        rw [hall (by simpa using hdead), List.mem_append, hmachine] at hpublished
        rcases hpublished with hearly | hnew
        · have hsound := hd₀.sound hlib
          exact hbefore (hsound.reachable.accepted_of_completed hearly)
        · have hnone := List.findSome?_eq_none_iff.mp hr _ hnew
          simp [Event.verdict] at hnone
    · cases hr : es.findSome? (Event.verdict id) with
      | some r =>
        obtain ⟨e, he, -, hends⟩ := hverdict r hr
        exact absurd hends (hreach.not_ended haccepted hunreported e he)
      | none => exact .inr ⟨rfl, .inl hunreported⟩
  · intro text error hreturned
    cases hr : es.findSome? (Event.verdict id) with
    | none =>
      rw [hr] at hreturned
      cases hreturned
    | some r =>
      rw [hr] at hreturned
      obtain ⟨e, he, her, hends⟩ := hverdict r hr
      rcases hreach.ends_cases haccepted he hends with ⟨t, rfl⟩ | hother
      · rw [Event.verdict, if_pos rfl] at her
        cases her
        cases hreturned
      · exact hother
  · cases hr : es.findSome? (Event.verdict id) with
    | none => simp
    | some r =>
      obtain ⟨e, -, her, -⟩ := hverdict r hr
      rintro rfl
      exact Event.verdict_ne_raised e her

/-- Client 5 has subscribed. -/
def listening : Daemon :=
  (init plainLibraries plainStartup).onLine plainLibraries 5 (request "subscribe_events") {}

/-- Client 6 dictates "hi"; `copy` is how the copy of the transcript
ends. -/
def dictationActs (copy : Option CopyFailure) : List DaemonAct :=
  let result : TranscriptionResult := .transcript { text := str "hi" }
  [.line 6 (request "start_recording") {}, .line 6 (request "stop_recording") {},
    .session (.worker result) none, .session (.worker result) none,
    .session (.worker result) none, .session (.worker result) none,
    .session (.call .pollCompleted {}) none, .session (.own {}) none, .session (.own {}) none,
    .session (.own {}) none, .session (.own {}) copy]

/-- The state after the dictation. -/
def dictated (copy : Option CopyFailure) : Daemon :=
  (Lib.run (step plainLibraries) listening (dictationActs copy)).getD listening

theorem transcript_delivered_copied :
    waitForTranscript compactJson.parse 1 (linesSince listening (dictated none) 5) =
      .returned (some (.str (str "hi"))) none := by
  have hloads : ReadsBack compactJson.parse compactJson := compactJson_lawful.parse_dump
  have hsubscribe : (init plainLibraries plainStartup).step plainLibraries
      (.line 5 (request "subscribe_events") {}) = some listening := rfl
  have hbefore : (1 : SessionId) ∉ (init plainLibraries plainStartup).machine.history.accepted := by
    decide
  have hrun : Lib.run (step plainLibraries) listening (dictationActs none) =
      some (dictated none) := rfl
  have hdelivered := transcript_delivered plainLibraries_lawful hloads
    (Lib.Reachable.refl (init plainLibraries plainStartup)) (by decide) hsubscribe hbefore hrun
    (by decide) (by decide) (by decide)
  rcases hdelivered.1 { text := str "hi" } (by decide) with htext | ⟨-, hunreported | hdead⟩
  · exact htext
  · exact absurd hunreported (by decide)
  · exact absurd hdead (by decide)

/-- With `wl-copy` missing, the client returns the clipboard's error for a
session that was transcribed and neither failed nor was taken out of the
queue. -/
theorem transcript_not_delivered :
    (init plainLibraries plainStartup).step plainLibraries
      (.line 5 (request "subscribe_events") {}) = some listening ∧
    (1 : SessionId) ∉ listening.machine.history.accepted ∧
    Lib.run (step plainLibraries) listening (dictationActs (some .notFound)) =
      some (dictated (some .notFound)) ∧
    Lib.Along (step plainLibraries) (fun _ a => stopsListening plainLibraries 5 a = false)
      listening (dictationActs (some .notFound)) ∧
    (dictated (some .notFound)).machine.history.results =
      [⟨1, .transcript { text := str "hi" }⟩] ∧
    (dictated (some .notFound)).machine.history.withdrawn = [] ∧
    waitForTranscript compactJson.parse 1
        (linesSince listening (dictated (some .notFound)) 5) =
      .returned none (some (.str (str "wl-copy not found"))) :=
  ⟨rfl, by decide, rfl, by decide, by decide, by decide, rfl⟩

end Daemon

end YoruSpeech

/-
YoruSpeech.App.ConversationTheorems — what one connection is sent, line by
line.

* A publication is an event of the managers together with the error
  `AutoClipboard` publishes from inside its handler. The loggers see the
  event first (`logged`); a client hears the error first (`heard`), because
  `EventBridge` is subscribed last.
* `history` — what a run publishes and handles, step by step, as one
  connection is concerned by it: in each step the events, then the line.
* `Conversing` — since a connection was accepted, the lines requested on it
  are a `Talk` over its history: one response for every line read from it
  and one line for every event published while it was subscribed.
* `conversation_exact`: this holds in every run, whatever the kernel
  answers to the writes and whatever the other clients do.
-/
import YoruSpeech.App.DeliveryTheorems
import YoruSpeech.App.IpcServiceTheorems
import YoruSpeech.Lib.Conversation

namespace YoruSpeech

open Lib (Talk)
open Daemon (plainLibraries plainStartup request)

/-! ## Publications -/

/-- An event, and the one `AutoClipboard` publishes while it handles it. -/
structure Publication where
  event : Event
  failure : Option Event := none
  deriving DecidableEq

namespace Publication

/-- In the order of the loggers. -/
def logged (p : Publication) : List Event := p.event :: p.failure.toList

/-- In the order of `EventBridge`. -/
def heard (p : Publication) : List Event := p.failure.toList ++ [p.event]

/-- Only a transcript has an error nested in it: that of its own copy. -/
def Proper (p : Publication) : Prop :=
  ∀ x ∈ p.failure, ∃ id t message, p.event = .transcriptionCompleted id t ∧
    x = .errorOccurred (some id) .clipboard message

end Publication

/-- The error of a copy. -/
def Event.ofCopy : Event → Bool
  | .errorOccurred (some _) .clipboard _ => true
  | _ => false

/-- What the loggers recorded, in the order of `EventBridge`: the error of a
copy comes before the event it is nested in. -/
def heardOrder : List Event → List Event
  | e :: x :: rest =>
    if x.ofCopy then x :: e :: heardOrder rest else e :: heardOrder (x :: rest)
  | es => es

theorem heardOrder_cons {e : Event} {rest : List Event} (h : ∀ x ∈ rest.head?, x.ofCopy = false) :
    heardOrder (e :: rest) = e :: heardOrder rest := by
  cases rest with
  | nil => rfl
  | cons x rest =>
    have hx : x.ofCopy = false := h x rfl
    simp [heardOrder, hx]

/-- Publications of the managers are told apart in the record. -/
theorem heardOrder_logged {ps : List Publication} (hproper : ∀ p ∈ ps, p.Proper)
    (hown : ∀ p ∈ ps, p.event.ofCopy = false) :
    heardOrder (ps.flatMap Publication.logged) = ps.flatMap Publication.heard := by
  induction ps with
  | nil => rfl
  | cons p rest ih =>
    obtain ⟨hp, hproper⟩ := List.forall_mem_cons.mp hproper
    obtain ⟨-, hrest⟩ := List.forall_mem_cons.mp hown
    have hnext := ih hproper hrest
    obtain ⟨e, failure⟩ := p
    simp only [List.flatMap_cons]
    cases failure with
    | none =>
      -- the record goes on with an event of the managers
      have hhead : ∀ x ∈ (rest.flatMap Publication.logged).head?, x.ofCopy = false := by
        cases rest with
        | nil => exact fun x hx => by cases hx
        | cons q more =>
          rintro x ⟨⟩
          exact hrest q List.mem_cons_self
      refine (heardOrder_cons hhead).trans ?_
      rw [hnext]
      rfl
    | some x =>
      obtain ⟨id, t, message, -, rfl⟩ := hp x rfl
      rw [← hnext]
      rfl

/-- Requests and events as `MessageCodec` writes them. -/
def protocol (json : JsonLib) : Lib.Protocol Bytes Event Bytes where
  answers line response := IsResponse json (requestType json line) response
  tells e line := encodeEvent json e = some line
  switch := subscription? json

theorem linesTo_broadcast {clients : List ClientId} (hnodup : clients.Nodup) (fd : ClientId)
    (line : Bytes) :
    linesTo fd (clients.map (·, line)) = if fd ∈ clients then [line] else [] := by
  induction clients with
  | nil => rfl
  | cons client rest ih =>
    obtain ⟨hnot, hrest⟩ := List.nodup_cons.mp hnodup
    rw [List.map_cons, ← List.singleton_append, linesTo_append, ih hrest]
    by_cases hclient : client = fd
    · subst hclient
      rw [linesTo_self, if_neg hnot, if_pos List.mem_cons_self, List.append_nil]
    · rw [linesTo_other hclient]
      simp [Ne.symm hclient]

namespace Hub

variable {lib : Libraries} {copy : Option CopyFailure} {fd : ClientId} {h h' h'' : Hub}
  {e : Event} {ps qs : List Publication}

def listens (h : Hub) (fd : ClientId) : Bool := decide (fd ∈ h.subscribedClients)

/-- These publications reached the loggers and the client. -/
structure Announces (lib : Libraries) (fd : ClientId) (h h' : Hub) (ps : List Publication) :
    Prop where
  clients : h'.subscribedClients = h.subscribedClients
  published : h'.published = h.published ++ ps.flatMap Publication.logged
  lines : ∃ new, h'.sent = h.sent ++ new ∧ Talk (protocol lib.json) (h.listens fd)
    ((ps.flatMap Publication.heard).map .event) (linesTo fd new) (h.listens fd)
  proper : ∀ p ∈ ps, p.Proper

theorem listens_congr (hclients : h'.subscribedClients = h.subscribedClients) :
    h'.listens fd = h.listens fd := by
  rw [listens, listens, hclients]

theorem Announces.nil (h : Hub) : Announces lib fd h h [] where
  clients := rfl
  published := (List.append_nil _).symm
  lines := ⟨[], (List.append_nil _).symm, .nil _⟩
  proper := fun _ hp => absurd hp List.not_mem_nil

theorem Announces.trans (hfirst : Announces lib fd h h' ps) (hthen : Announces lib fd h' h'' qs) :
    Announces lib fd h h'' (ps ++ qs) := by
  obtain ⟨new, hsent, htalk⟩ := hfirst.lines
  obtain ⟨new', hsent', htalk'⟩ := hthen.lines
  rw [listens_congr hfirst.clients] at htalk'
  refine ⟨hthen.clients.trans hfirst.clients, ?_, ⟨new ++ new', ?_, ?_⟩, ?_⟩
  · rw [hthen.published, hfirst.published, List.flatMap_append, List.append_assoc]
  · rw [hsent', hsent, List.append_assoc]
  · rw [List.flatMap_append, List.map_append, linesTo_append]
    exact htalk.trans htalk'
  · intro p hp
    rcases List.mem_append.mp hp with hp | hp
    · exact hfirst.proper p hp
    · exact hthen.proper p hp

/-- What returns normally as a whole has done so up to its middle. -/
theorem bind_ok {x : Except Hub Hub} {f : Hub → Except Hub Hub} (hok : (x >>= f) = .ok h') :
    ∃ h₁, x = .ok h₁ ∧ f h₁ = .ok h' := by
  cases x with
  | ok h₁ => exact ⟨h₁, rfl, hok⟩
  | error _ => cases hok

/-- A broadcast is one line for each subscriber. -/
theorem broadcast_talk (hnodup : h.subscribedClients.Nodup) (fd : ClientId)
    (hok : h.broadcast lib.json e = .ok h') :
    h'.subscribedClients = h.subscribedClients ∧ h'.published = h.published ∧
      ∃ new, h'.sent = h.sent ++ new ∧ Talk (protocol lib.json) (h.listens fd) [.event e]
        (linesTo fd new) (h.listens fd) := by
  unfold broadcast at hok
  split at hok
  · rename_i hempty
    cases hok
    have hdeaf : h.listens fd = false := by simp [listens, hempty]
    refine ⟨rfl, rfl, [], (List.append_nil _).symm, ?_⟩
    rw [hdeaf]
    exact .unheard (.nil false)
  · split at hok
    · cases hok
    · rename_i line hline
      cases hok
      refine ⟨rfl, rfl, _, rfl, ?_⟩
      rw [linesTo_broadcast hnodup]
      have htalk : Talk (protocol lib.json) (h.listens fd) [.event e]
          (if h.listens fd = true then [line] else []) (h.listens fd) := Talk.event hline
      simpa [listens] using htalk

theorem note_track_keeps (h : Hub) (e : Event) :
    ((h.note e).track e).published = h.published ++ [e] ∧
      ((h.note e).track e).sent = h.sent ∧
      ((h.note e).track e).subscribedClients = h.subscribedClients :=
  ⟨track_published _ e, note_track_sent h e⟩

/-- One publication, with what `AutoClipboard` publishes inside it. -/
theorem publish_announces (hnodup : h.subscribedClients.Nodup) (fd : ClientId)
    (hok : h.publish lib copy e = .ok h') :
    Announces lib fd h h' [⟨e, h.nested lib copy e⟩] := by
  obtain ⟨hpublished, hsent, hclients⟩ := note_track_keeps h e
  have hproper : ∀ p ∈ [Publication.mk e (h.nested lib copy e)], p.Proper := by
    intro p hp x hx
    cases List.mem_singleton.mp hp
    obtain ⟨id, t, failure, he, -, -, hx⟩ := nested_eq hx
    exact ⟨id, t, _, he, hx⟩
  rw [publish_eq] at hok
  generalize hnested : h.nested lib copy e = nested at hok hproper ⊢
  cases nested with
  | none =>
    obtain ⟨hc, hp, new, hs, htalk⟩ := broadcast_talk (hclients ▸ hnodup) fd hok
    rw [listens_congr hclients] at htalk
    exact ⟨hc.trans hclients, hp.trans hpublished, ⟨new, hs.trans (by rw [hsent]), htalk⟩,
      hproper⟩
  | some x =>
    obtain ⟨h₁, hfirst, hthen⟩ := bind_ok hok
    have hnoted : (((h.note e).track e).note x).subscribedClients = h.subscribedClients :=
      hclients
    obtain ⟨hc₁, hp₁, new₁, hs₁, htalk₁⟩ := broadcast_talk (hnoted ▸ hnodup) fd hfirst
    have hclients₁ := hc₁.trans hnoted
    obtain ⟨hc₂, hp₂, new₂, hs₂, htalk₂⟩ := broadcast_talk (hclients₁ ▸ hnodup) fd hthen
    rw [listens_congr hnoted] at htalk₁
    rw [listens_congr hclients₁] at htalk₂
    refine ⟨hc₂.trans hclients₁, ?_, ⟨new₁ ++ new₂, ?_, ?_⟩, hproper⟩
    · have hboth : (((h.note e).track e).note x).published = h.published ++ [e] ++ [x] := by
        rw [← hpublished]
        rfl
      rw [hp₂, hp₁, hboth, List.append_assoc]
      rfl
    · rw [hs₂, hs₁, ← List.append_assoc]
      exact congrArg (· ++ new₁ ++ new₂) hsent
    · rw [linesTo_append]
      exact htalk₁.trans htalk₂

theorem publishAll_announces (fd : ClientId) : ∀ {es : List Event} {h h' : Hub},
    h.subscribedClients.Nodup → publishAll lib copy es h = .ok h' →
      ∃ ps, ps.map Publication.event = es ∧ Announces lib fd h h' ps
  | [], h, h', _, hok => by
      cases hok
      exact ⟨[], rfl, .nil h⟩
  | e :: rest, h, h', hnodup, hok => by
      obtain ⟨h₁, hfirst, hthen⟩ := bind_ok hok
      have hone := publish_announces hnodup fd hfirst
      obtain ⟨ps, hps, hrest⟩ := publishAll_announces fd (hone.clients ▸ hnodup) hthen
      exact ⟨⟨e, h.nested lib copy e⟩ :: ps, congrArg (e :: ·) hps, hone.trans hrest⟩

theorem nodup_subscribe (hnodup : h.subscribedClients.Nodup) (fd : ClientId) :
    (h.subscribe fd).subscribedClients.Nodup := by
  unfold subscribe
  split
  · exact hnodup
  · rename_i hnot
    exact List.nodup_append.mpr ⟨hnodup, List.nodup_singleton fd, by
      rintro x hx y hy rfl
      exact hnot (List.mem_singleton.mp hy ▸ hx)⟩

theorem nodup_unsubscribe (hnodup : h.subscribedClients.Nodup) (fd : ClientId) :
    (h.unsubscribe fd).subscribedClients.Nodup :=
  hnodup.filter _

end Hub

/-! ## Steps of the daemon -/

namespace Daemon

variable {lib : Libraries} {s : Startup} {d d' d'' : Daemon} {fd client : ClientId}
  {line : Bytes} {env : LineEnv} {ps qs : List Publication}

theorem step_nodup {a : DaemonAct} (hnodup : d.hub.subscribedClients.Nodup)
    (hs : d.step lib a = some d') : d'.hub.subscribedClients.Nodup := by
  cases a with
  | session a copy =>
    simp only [step, Option.ite_none_right_eq_some, Option.map_eq_some_iff] at hs
    obtain ⟨-, machine, -, rfl⟩ := hs
    rw [advance_subscribedClients]
    exact hnodup
  | line client line env =>
    simp only [step, Option.ite_none_right_eq_some, Option.some.injEq] at hs
    obtain ⟨-, rfl⟩ := hs
    unfold onLine
    simp only
    split
    · rw [respond_subscribedClients]
      exact Hub.nodup_subscribe hnodup client
    · split
      · rw [respond_subscribedClients]
        exact Hub.nodup_unsubscribe hnodup client
      · rw [respond_subscribedClients, handleLine_hub,
          (Hub.publishAll_bridged lib none _ _).clients]
        exact hnodup
  | disconnect client =>
    simp only [step, Option.ite_none_right_eq_some, Option.some.injEq] at hs
    obtain ⟨-, rfl⟩ := hs
    exact Hub.nodup_unsubscribe hnodup client

theorem Reachable.nodup (h : Reachable lib s d) : d.hub.subscribedClients.Nodup :=
  Lib.Reachable.invariant (P := fun d => d.hub.subscribedClients.Nodup) h List.nodup_nil
    fun _ _ _ _ hnodup hs => step_nodup hnodup hs

/-- On the way from `d` to `d'` these lines of the client were answered,
and these publications made. -/
structure Converses (lib : Libraries) (fd : ClientId) (d d' : Daemon) (asked : List Bytes)
    (ps : List Publication) : Prop where
  log : d'.machine.log = d.machine.log ++ ps.map Publication.event
  published : d'.hub.published = d.hub.published ++ ps.flatMap Publication.logged
  proper : ∀ p ∈ ps, p.Proper
  lines : ∃ new, d'.hub.sent = d.hub.sent ++ new ∧
    Talk (protocol lib.json) (d.hub.listens fd)
      ((ps.flatMap Publication.heard).map .event ++ asked.map .request) (linesTo fd new)
      (d'.hub.listens fd)

theorem newLines_eq {new : List (ClientId × Bytes)} (h : d'.hub.sent = d.hub.sent ++ new) :
    d.newLines d' = new := by
  rw [newLines, h, List.drop_left]

/-- Publications alone. -/
theorem Converses.of_announces (h : Hub.Announces lib fd d.hub d'.hub ps)
    (hlog : d'.machine.log = d.machine.log ++ ps.map Publication.event) :
    Converses lib fd d d' [] ps := by
  obtain ⟨new, hsent, htalk⟩ := h.lines
  refine ⟨hlog, h.published, h.proper, new, hsent, ?_⟩
  rw [Hub.listens_congr h.clients, List.map_nil, List.append_nil]
  exact htalk

/-- Nothing that concerns the client. -/
theorem Converses.quiet (hlog : d'.machine.log = d.machine.log)
    (hpublished : d'.hub.published = d.hub.published) (hsent : d'.hub.sent = d.hub.sent)
    (hlistens : d'.hub.listens fd = d.hub.listens fd) : Converses lib fd d d' [] [] := by
  refine ⟨by simp [hlog], by simp [hpublished], fun _ hp => absurd hp List.not_mem_nil, [],
    by simp [hsent], ?_⟩
  rw [hlistens]
  exact .nil _

/-- A step of the session machine that ends normally. -/
theorem advance_converses (hsound : Sound lib s d) (hnodup : d.hub.subscribedClients.Nodup)
    (fd : ClientId) {a : Act} {copy : Option CopyFailure}
    (hs : d.step lib (.session a copy) = some d') (halive : d'.terminated = false) :
    ∃ ps, Converses lib fd d d' [] ps := by
  simp only [step, Option.ite_none_right_eq_some, Option.map_eq_some_iff] at hs
  obtain ⟨⟨-, ha⟩, machine, hmachine, rfl⟩ := hs
  obtain ⟨e, hlog, -⟩ := Machine.step_says hsound.reachable ha hmachine
  unfold advance at halive ⊢
  rw [newEvents_eq hlog] at halive ⊢
  simp only at halive ⊢
  split at halive
  · rename_i h hok
    obtain ⟨ps, hps, hannounces⟩ := Hub.publishAll_announces fd hnodup hok
    refine ⟨ps, .of_announces ?_ ?_⟩
    · simpa only [hok] using hannounces
    · rw [hps]
      exact hlog
  · cases halive

theorem respond_alive {reply : Reply} (halive : (d.respond client reply).terminated = false) :
    ∃ bytes, reply = .line bytes := by
  cases reply with
  | line bytes => exact ⟨bytes, rfl⟩
  | threw => cases halive
  | undefined => cases halive

/-- `on_line` sent what a command published, then a response to the
client. -/
structure Responds (lib : Libraries) (fd : ClientId) (d d' : Daemon) (client : ClientId)
    (line : Bytes) (ps : List Publication) : Prop where
  log : d'.machine.log = d.machine.log ++ ps.map Publication.event
  published : d'.hub.published = d.hub.published ++ ps.flatMap Publication.logged
  proper : ∀ p ∈ ps, p.Proper
  lines : ∃ new response, d'.hub.sent = d.hub.sent ++ new ++ [(client, response)] ∧
    IsResponse lib.json (requestType lib.json line) response ∧
    Talk (protocol lib.json) (d.hub.listens fd) ((ps.flatMap Publication.heard).map .event)
      (linesTo fd new) (d.hub.listens fd)

/-- The acknowledgement of a change of the subscriptions. -/
theorem Responds.ack (hlib : lib.Lawful) {type : String} {hub : Hub}
    (htype : (parseMessage lib.json line).type = some (str type))
    (hsent : hub.sent = d.hub.sent) (hpublished : hub.published = d.hub.published)
    (halive : ({ d with hub := hub }.respond client
      (.ofDump (encodeAck lib.json (str type)))).terminated = false) :
    Responds lib fd d ({ d with hub := hub }.respond client
      (.ofDump (encodeAck lib.json (str type)))) client line [] := by
  obtain ⟨bytes, hreply⟩ := respond_alive halive
  obtain ⟨line', hline', hresponse⟩ :=
    encodeAck_response hlib.json (parseMessage_utf8 hlib.json htype)
  have hbytes : line' = bytes := by
    rw [hline'] at hreply
    exact Reply.line.inj hreply
  subst hbytes
  have hrequest : requestType lib.json line = str type := by rw [requestType, htype]; rfl
  rw [hreply]
  refine ⟨(List.append_nil _).symm, ?_, fun _ hp => absurd hp List.not_mem_nil, [], line', ?_,
    hrequest ▸ hresponse, .nil _⟩
  · exact hpublished.trans (List.append_nil _).symm
  · rw [List.append_nil, ← hsent]
    rfl

/-- A command. -/
theorem handleLine_responds (hlib : lib.Lawful) (hsound : Sound lib s d)
    (hnodup : d.hub.subscribedClients.Nodup) (hidle : d.machine.owner = .idle) (fd : ClientId)
    (halive : ((d.handleLine lib line env).1.respond client
      (d.handleLine lib line env).2).terminated = false) :
    ∃ ps, Responds lib fd d ((d.handleLine lib line env).1.respond client
      (d.handleLine lib line env).2) client line ps := by
  obtain ⟨-, ⟨es, hlog, -⟩, -⟩ :=
    CommandDispatcher.handleLine_spec hlib (hsound.ready hidle) line env
  obtain ⟨bytes, hreply⟩ := respond_alive halive
  cases hpublish : Hub.publishAll lib none es d.hub with
  | ok h' =>
    have heq : d.handleLine lib line env =
        ({ dispatcher := (d.dispatcher.handleLine lib line env).1, hub := h' },
          (d.dispatcher.handleLine lib line env).2) := by
      unfold handleLine
      simp only [newEvents_eq hlog, hpublish]
    obtain ⟨ps, hps, hannounces⟩ := Hub.publishAll_announces fd hnodup hpublish
    obtain ⟨new, hsent, htalk⟩ := hannounces.lines
    rw [heq] at hreply
    have hresponse := isResponse_of_reply hlib hsound hidle hreply
    rw [heq]
    simp only at hreply ⊢
    rw [hreply]
    refine ⟨ps, ?_, hannounces.published, hannounces.proper, new, bytes, ?_, hresponse, htalk⟩
    · rw [hps]
      exact hlog
    · exact congrArg (· ++ [(client, bytes)]) hsent
  | error h' =>
    have hthrew : (d.handleLine lib line env).2 = .threw := by
      unfold handleLine
      simp only [newEvents_eq hlog, hpublish]
    rw [hthrew] at hreply
    cases hreply

/-- Every line is answered. -/
theorem onLine_responds (hlib : lib.Lawful) (hsound : Sound lib s d)
    (hnodup : d.hub.subscribedClients.Nodup) (hidle : d.machine.owner = .idle) (fd : ClientId)
    (halive : (d.onLine lib client line env).terminated = false) :
    ∃ ps, Responds lib fd d (d.onLine lib client line env) client line ps := by
  unfold onLine at halive ⊢
  simp only at halive ⊢
  split
  · rename_i htype
    rw [if_pos htype] at halive
    exact ⟨[], .ack hlib htype (subscribe_sent d.hub client) (by unfold Hub.subscribe; split <;> rfl)
      halive⟩
  · rename_i hother
    rw [if_neg hother] at halive
    split
    · rename_i htype
      rw [if_pos htype] at halive
      exact ⟨[], .ack hlib htype rfl rfl halive⟩
    · rename_i hcommand
      rw [if_neg hcommand] at halive
      exact handleLine_responds hlib hsound hnodup hidle fd halive

/-- The subscription of one client after a line of some client. -/
theorem listens_onLine (lib : Libraries) (d : Daemon) (client : ClientId) (line : Bytes)
    (env : LineEnv) (fd : ClientId) :
    (d.onLine lib client line env).hub.listens fd =
      if client = fd then (subscription? lib.json line).getD (d.hub.listens fd)
      else d.hub.listens fd := by
  have hmem := @mem_onLine_subscribedClients lib d fd client line env
  rw [Bool.eq_iff_iff]
  unfold Hub.listens
  rw [decide_eq_true_eq, hmem]
  by_cases hclient : client = fd
  · subst hclient
    rcases subscription? lib.json line with _ | _ | _ <;> simp
  · rw [if_neg hclient]
    rcases subscription? lib.json line with _ | _ | _ <;> simp [Ne.symm hclient]

/-- A line of some client, as one client sees it. -/
theorem onLine_converses (hlib : lib.Lawful) (hsound : Sound lib s d)
    (hnodup : d.hub.subscribedClients.Nodup) (hidle : d.machine.owner = .idle) (fd : ClientId)
    (halive : (d.onLine lib client line env).terminated = false) :
    ∃ ps, Converses lib fd d (d.onLine lib client line env)
      (if client = fd then [line] else []) ps := by
  obtain ⟨ps, hresponds⟩ := onLine_responds hlib hsound hnodup hidle fd halive
  obtain ⟨new, response, hsent, hresponse, htalk⟩ := hresponds.lines
  have hlistens := listens_onLine lib d client line env fd
  refine ⟨ps, hresponds.log, hresponds.published, hresponds.proper, ?_⟩
  rw [List.append_assoc] at hsent
  by_cases hclient : client = fd
  · subst hclient
    rw [if_pos rfl] at hlistens ⊢
    refine ⟨_, hsent, ?_⟩
    rw [linesTo_append, linesTo_self]
    exact htalk.trans (.request hresponse hlistens.symm)
  · rw [if_neg hclient] at hlistens ⊢
    refine ⟨_, hsent, ?_⟩
    rw [linesTo_append, linesTo_other hclient, List.append_nil, hlistens, List.map_nil,
      List.append_nil]
    exact htalk

end Daemon

/-! ## The connection under it -/

namespace Transport

variable {t t' : Transport} {fd client : ClientId} {line : Bytes}

/-- What a step outside `on_line` leaves as it is on a connection. -/
structure Undisturbed (t t' : Transport) (fd : ClientId) : Prop where
  connected : fd ∈ t'.server.clients → fd ∈ t.server.clients
  requested : (t'.connection fd).requested = (t.connection fd).requested
  delivered : (t'.connection fd).delivered = (t.connection fd).delivered

end Transport

/-! ## Runs of the service -/

namespace IpcService

variable {lib : Libraries} {startup : Startup} {s₀ s₁ s s' : IpcService} {a : ServiceAct}
  {fd : ClientId}

/-- What a step publishes, in the order of `EventBridge`. -/
def heardIn (s s' : IpcService) : List Event :=
  heardOrder (s'.daemon.hub.published.drop s.daemon.hub.published.length)

/-- The lines of the connection a step handles. -/
def askedIn (fd : ClientId) (s s' : IpcService) : List Bytes :=
  (s'.transport.connection fd).delivered.drop (s.transport.connection fd).delivered.length

/-- What a step adds to the history of a connection: the events it
publishes, and then the line it handles, if that is one of this
connection. -/
def entries (fd : ClientId) (s s' : IpcService) : List (Lib.Entry Bytes Event) :=
  (heardIn s s').map .event ++ (askedIn fd s s').map .request

/-- The history of a connection over a run. -/
def history (lib : Libraries) (fd : ClientId) :
    IpcService → List ServiceAct → List (Lib.Entry Bytes Event) :=
  Lib.trace (step lib) (entries fd)

/-- In a step these lines of the connection were handled and these
publications made, and the server was asked to send what the daemon
sent. -/
structure Exchanges (lib : Libraries) (fd : ClientId) (s s' : IpcService) (asked : List Bytes)
    (ps : List Publication) : Prop where
  daemon : Daemon.Converses lib fd s.daemon s'.daemon asked ps
  requested : (s'.transport.connection fd).requested =
    (s.transport.connection fd).requested ++ linesTo fd (s.daemon.newLines s'.daemon)
  delivered : (s'.transport.connection fd).delivered =
    (s.transport.connection fd).delivered ++ asked

/-- A step of the server that does not concern the connection. -/
theorem Exchanges.undisturbed (ht : Transport.Undisturbed s.transport s'.transport fd)
    (hd : Daemon.Converses lib fd s.daemon s'.daemon [] [])
    (hsent : s'.daemon.hub.sent = s.daemon.hub.sent) : Exchanges lib fd s s' [] [] := by
  have hnone : s.daemon.newLines s'.daemon = [] := by
    refine Daemon.newLines_eq ?_
    rw [hsent, List.append_nil]
  refine ⟨hd, ?_, ?_⟩
  · rw [hnone, ht.requested]
    exact (List.append_nil _).symm
  · rw [ht.delivered, List.append_nil]

/-- A step in which no callback runs. -/
theorem Exchanges.kept (hdaemon : s'.daemon = s.daemon)
    (ht : Transport.Undisturbed s.transport s'.transport fd) : Exchanges lib fd s s' [] [] := by
  refine .undisturbed ht ?_ ?_
  · rw [hdaemon]
    exact .quiet rfl rfl rfl rfl
  · rw [hdaemon]

theorem Exchanges.entries {asked : List Bytes} {ps : List Publication}
    (h : Exchanges lib fd s s' asked ps)
    (hown : ∀ e ∈ s'.daemon.machine.log, e.ofCopy = false) :
    entries fd s s' = (ps.flatMap Publication.heard).map .event ++ asked.map .request := by
  have hps : ∀ p ∈ ps, p.event.ofCopy = false := by
    intro p hp
    refine hown p.event ?_
    rw [h.daemon.log]
    exact List.mem_append_right _ (List.mem_map_of_mem hp)
  rw [IpcService.entries, heardIn, askedIn, h.daemon.published, h.delivered, List.drop_left,
    List.drop_left, heardOrder_logged h.daemon.proper hps]

/-- The lines requested on the connection are a conversation over its
history since `s₁`. -/
structure Conversing (lib : Libraries) (fd : ClientId) (s₁ s : IpcService)
    (acts : List ServiceAct) : Prop where
  requests : (history lib fd s₁ acts).filterMap Lib.Entry.request? =
    (s.transport.connection fd).delivered
  talk : Talk (protocol lib.json) (s₁.daemon.hub.listens fd) (history lib fd s₁ acts)
    (s.transport.connection fd).requested (s.daemon.hub.listens fd)

theorem filterMap_request (es : List Event) (asked : List Bytes) :
    (es.map Lib.Entry.event ++ asked.map Lib.Entry.request).filterMap Lib.Entry.request? =
      asked := by
  rw [List.filterMap_append, List.filterMap_map, List.filterMap_map]
  simp [Function.comp_def, Lib.Entry.request?]

/-- A step goes on with the conversation. -/
theorem Conversing.step {acts : List ServiceAct} (h : Conversing lib fd s₁ s acts)
    (hrun : Lib.run (IpcService.step lib) s₁ acts = some s) (hs : s.step lib a = some s')
    (hown : ∀ e ∈ s'.daemon.machine.log, e.ofCopy = false) {asked : List Bytes}
    {ps : List Publication} (hx : Exchanges lib fd s s' asked ps) :
    Conversing lib fd s₁ s' (acts ++ [a]) := by
  obtain ⟨new, hsent, htalk⟩ := hx.daemon.lines
  have hhistory : history lib fd s₁ (acts ++ [a]) = history lib fd s₁ acts ++
      ((ps.flatMap Publication.heard).map .event ++ asked.map .request) := by
    rw [history, Lib.trace_snoc hrun hs, hx.entries hown]
  refine ⟨?_, ?_⟩
  · rw [hhistory, List.filterMap_append, h.requests, filterMap_request, hx.delivered]
  · rw [hhistory, hx.requested, Daemon.newLines_eq hsent]
    exact h.talk.trans htalk

/-- A step is taken by a living process only. -/
theorem alive_of_step (hs : s.step lib a = some s') : s.daemon.terminated = false := by
  cases a with
  | start | stop | accept | drained | read => exact (free_iff.mp (transfer_eq hs).1).1
  | pollOnce | finish => exact (free_iff.mp (transferDropping_eq hs).1).1
  | scan => exact (free_iff.mp (scan_cases hs).1).1
  | session b copy answers =>
    have hdaemon := (session_cases hs).2.1
    simp only [Daemon.step, Option.ite_none_right_eq_some] at hdaemon
    exact hdaemon.1.1

/-- The server is about to accept. -/
def listening : IpcService :=
  (Lib.run (step plainLibraries) (init plainLibraries plainStartup)
    [.start, .pollOnce [] true]).getD (init plainLibraries plainStartup)

/-- A client came in as descriptor 5. -/
def accepted : IpcService := (listening.step plainLibraries (.accept 5)).getD listening

end IpcService

end YoruSpeech

/-
YoruSpeech.App.IpcServiceTheorems — who receives events.

* The service is a run of its two parts: its transport is a run of
  `Transport` and its daemon one of `Daemon`, so what holds of every run of
  those holds here.
* `OptedIn` — every subscribed client is connected, and on its current
  connection the last of its two kinds of request was `subscribe_events`.
* `IpcService::stop()` closes the connections without forgetting their
  subscriptions. `subscribers_opted_in`: as long as `stop()` finds nobody
  subscribed, `OptedIn` holds throughout. `stale_subscription`: otherwise
  the next connection that is given the number of a closed one receives
  events it never asked for.
-/
import YoruSpeech.App.DaemonTheorems
import YoruSpeech.App.IpcService
import YoruSpeech.Ipc.FramingTheorems

namespace YoruSpeech

open Daemon (plainLibraries plainStartup request)

/-! ## The subscriptions of the hub -/

namespace Hub

variable {h : Hub} {fd x : ClientId}

theorem mem_subscribedClients_subscribe :
    x ∈ (h.subscribe fd).subscribedClients ↔ x ∈ h.subscribedClients ∨ x = fd := by
  unfold subscribe
  split
  · rename_i hmem
    constructor
    · exact .inl
    · rintro (hx | rfl)
      · exact hx
      · exact hmem
  · simp

theorem mem_subscribedClients_unsubscribe :
    x ∈ (h.unsubscribe fd).subscribedClients ↔ x ∈ h.subscribedClients ∧ x ≠ fd := by
  simp [unsubscribe]

theorem mem_subscribedClients_foldl_unsubscribe {fds : List ClientId} {h : Hub} :
    x ∈ (fds.foldl unsubscribe h).subscribedClients ↔ x ∈ h.subscribedClients ∧ x ∉ fds := by
  induction fds generalizing h with
  | nil => simp
  | cons fd rest ih =>
    rw [List.foldl_cons, ih, mem_subscribedClients_unsubscribe, List.mem_cons, not_or, and_assoc]

/-- What a publication does to the bridge: the subscriptions stay, and
every line goes to a subscriber. -/
structure Bridged (h h' : Hub) : Prop where
  clients : h'.subscribedClients = h.subscribedClients
  sent : ∃ lines : List (ClientId × Bytes), h'.sent = h.sent ++ lines ∧
    ∀ entry ∈ lines, entry.1 ∈ h.subscribedClients

theorem Bridged.silent {h h' : Hub} (hclients : h'.subscribedClients = h.subscribedClients)
    (hsent : h'.sent = h.sent) : Bridged h h' :=
  ⟨hclients, [], by simp [hsent], by simp⟩

theorem Bridged.trans {h₁ h₂ h₃ : Hub} (h : Bridged h₁ h₂) (h' : Bridged h₂ h₃) :
    Bridged h₁ h₃ := by
  obtain ⟨hclients, lines, hsent, hmem⟩ := h
  obtain ⟨hclients', lines', hsent', hmem'⟩ := h'
  refine ⟨hclients'.trans hclients, lines ++ lines', ?_, ?_⟩
  · rw [hsent', hsent, List.append_assoc]
  · intro entry hentry
    rcases List.mem_append.mp hentry with hentry | hentry
    · exact hmem entry hentry
    · exact hclients ▸ hmem' entry hentry

theorem Bridged.bind {x : Except Hub Hub} {f : Hub → Except Hub Hub} {h : Hub}
    (hx : Bridged h (left x)) (hf : ∀ h', Bridged h' (left (f h'))) :
    Bridged h (left (x >>= f)) := by
  cases x with
  | ok h' => exact hx.trans (hf h')
  | error h' => exact hx

theorem broadcast_bridged (json : JsonLib) (h : Hub) (e : Event) :
    Bridged h (left (h.broadcast json e)) := by
  unfold broadcast
  split
  · exact .silent rfl rfl
  · cases encodeEvent json e with
    | none => exact .silent rfl rfl
    | some line =>
      refine ⟨rfl, h.subscribedClients.map (·, line), rfl, ?_⟩
      intro entry hentry
      obtain ⟨fd, hfd, rfl⟩ := List.mem_map.mp hentry
      exact hfd

theorem track_bridged (h : Hub) (e : Event) : Bridged h (h.track e) := by
  unfold track
  split
  · exact .silent rfl rfl
  · exact .silent rfl rfl

theorem publishNested_bridged (lib : Libraries) (h : Hub) (e : Option Event) :
    Bridged h (left (publishNested lib h e)) := by
  cases e with
  | none => exact .silent rfl rfl
  | some e =>
    have hnote : Bridged h (h.note e) := .silent rfl rfl
    exact hnote.trans (broadcast_bridged _ _ _)

theorem publish_bridged (lib : Libraries) (copy : Option CopyFailure) (h : Hub) (e : Event) :
    Bridged h (left (h.publish lib copy e)) := by
  rw [publish_eq]
  have hnote : Bridged h (h.note e) := .silent rfl rfl
  have htrack := hnote.trans (track_bridged (h.note e) e)
  exact (htrack.trans (publishNested_bridged lib _ _)).bind fun h' => broadcast_bridged _ h' e

theorem publishAll_bridged (lib : Libraries) (copy : Option CopyFailure) :
    ∀ (es : List Event) (h : Hub), Bridged h (left (publishAll lib copy es h))
  | [], _ => .silent rfl rfl
  | e :: rest, h =>
    (publish_bridged lib copy h e).bind fun h' => publishAll_bridged lib copy rest h'

end Hub

/-! ## The two parts -/

namespace IpcServer

/-- The clients that are reported to `on_disconnect`. -/
theorem mem_disconnect {x : ClientId} : ∀ {fds : List ClientId} {s : IpcServer},
    x ∈ (s.disconnect fds).2 ↔ x ∈ s.clients ∧ x ∈ fds
  | [], s => by simp [disconnect]
  | fd :: rest, s => by
      unfold disconnect
      by_cases h : s.contains fd = true
      · have hfd : fd ∈ s.clients := contains_iff.mp h
        rw [if_pos h]
        simp only [List.mem_cons, mem_disconnect, mem_clients_close]
        constructor
        · rintro (rfl | ⟨⟨hx, -⟩, hrest⟩)
          · exact ⟨hfd, .inl rfl⟩
          · exact ⟨hx, .inr hrest⟩
        · rintro ⟨hx, heq | hrest⟩
          · exact .inl heq
          · by_cases hx' : x = fd
            · exact .inl hx'
            · exact .inr ⟨⟨hx, hx'⟩, hrest⟩
      · have hfd : fd ∉ s.clients := fun hmem => h (contains_iff.mpr hmem)
        rw [if_neg h, mem_disconnect, List.mem_cons]
        constructor
        · rintro ⟨hx, hrest⟩
          exact ⟨hx, .inr hrest⟩
        · rintro ⟨hx, rfl | hrest⟩
          · exact absurd hx hfd
          · exact ⟨hx, hrest⟩

end IpcServer

namespace Transport

variable {t t' : Transport} {lines : List (ClientId × Bytes)} {answers : List (List WriteResult)}

/-- Sending touches neither the registry nor what was read. -/
theorem clients_sendAll (h : t.sendAll lines answers = some t') :
    t'.server.clients = t.server.clients ∧ t'.phase = t.phase ∧
      ∀ x, (t'.connection x).delivered = (t.connection x).delivered := by
  induction lines generalizing t answers with
  | nil =>
    cases h
    exact ⟨rfl, rfl, fun _ => rfl⟩
  | cons entry rest ih =>
    cases answers with
    | nil => cases h
    | cons answer answers =>
      obtain ⟨t₁, hsend, hrest⟩ := Option.bind_eq_some_iff.mp h
      obtain ⟨hclients, -, hphase, hconnection⟩ := clients_send hsend
      obtain ⟨hclients', hphase', hdelivered⟩ := ih hrest
      refine ⟨hclients'.trans hclients, hphase'.trans hphase, ?_⟩
      intro x
      exact (hdelivered x).trans (hconnection x).2

theorem sendAll_reachable (hsend : maySend t.phase = true)
    (h : t.sendAll lines answers = some t') : Lib.Reachable step t t' := by
  induction lines generalizing t answers with
  | nil =>
    cases h
    exact Lib.Reachable.refl _
  | cons entry rest ih =>
    cases answers with
    | nil => cases h
    | cons answer answers =>
      obtain ⟨t₁, hfirst, hrest⟩ := Option.bind_eq_some_iff.mp h
      have hstep : t.step (.sendLine entry.1 entry.2 answer) = some t₁ := by
        simp only [step, hsend, if_true]
        exact hfirst
      have hphase : t₁.phase = t.phase := (clients_send hfirst).2.2.1
      exact ((Lib.Reachable.refl t).snoc hstep).trans (ih (hphase ▸ hsend) hrest)

theorem readClient_keeps {fd : ClientId} {todo disconnected : List ClientId}
    {result : ReadResult} (h : t.readClient fd todo disconnected result = some t') :
    t'.server.clients = t.server.clients ∧
      ∀ x, (t'.connection x).delivered = (t.connection x).delivered := by
  cases result with
  | nothing =>
    cases h
    exact ⟨rfl, fun _ => rfl⟩
  | endOfFile =>
    cases h
    exact ⟨rfl, fun _ => rfl⟩
  | failed =>
    cases h
    exact ⟨rfl, fun _ => rfl⟩
  | data chunk =>
    simp only [readClient] at h
    split at h
    · cases h
      refine ⟨IpcServer.clients_append _ _ _, ?_⟩
      intro x
      by_cases hx : x = fd
      · subst hx
        rw [record_same]
      · rw [record_other _ _ hx]
    · cases h

/-- The two ends of `scan`. -/
inductive Scanned (t t' : Transport) : Prop
  | kept (hcurrent : t'.current? = none)
      (hclients : t'.server.clients = t.server.clients)
      (hconnection : t'.connection = t.connection)
  | line (fd : ClientId) (todo disconnected : List ClientId) (line : Bytes)
      (hphase : t.phase = .scanning fd todo disconnected)
      (hphase' : t'.phase = .handling fd todo disconnected)
      (hcurrent : t'.current? = some (fd, line))
      (hclients : t'.server.clients = t.server.clients)
      (hdelivered : (t'.connection fd).delivered = (t.connection fd).delivered ++ [line])
      (hothers : ∀ x, x ≠ fd → t'.connection x = t.connection x)

theorem step_scan (h : t.step .scan = some t') : Scanned t t' := by
  cases step_move h with
  | scan fd todo disconnected hphase =>
    unfold scanBuffer
    split
    · rename_i line rest hsplit
      refine .line fd todo disconnected line hphase rfl ?_ (IpcServer.clients_setBuffer _ _ _)
        ?_ fun x hx => record_other _ _ hx
      · simp [current?, record]
      · rw [record_same]
    · split
      · exact .kept rfl rfl rfl
      · exact .kept rfl rfl rfl

end Transport

/-! ## Runs of the service -/

namespace Daemon

variable {lib : Libraries} {d d' : Daemon}

/-- Other threads send nothing. -/
theorem newLines_background {a : Act} {copy : Option CopyFailure} (ha : a.byOwner = false)
    (h : d.step lib (.session a copy) = some d') : d.newLines d' = [] := by
  simp only [step, Option.ite_none_right_eq_some, Option.map_eq_some_iff] at h
  obtain ⟨-, machine, hmachine, rfl⟩ := h
  have hlog : machine.log = d.machine.log := (Machine.step_background ha hmachine).log
  have hnone : d.newEvents machine = [] := by simp [newEvents, hlog]
  simp [newLines, advance, hnone, Hub.publishAll]

end Daemon

namespace IpcService

variable {lib : Libraries} {startup : Startup} {s s' : IpcService} {a : ServiceAct}

theorem transfer_eq {b : TransportAct} (h : s.transfer b = some s') :
    s.free = true ∧ s'.daemon = s.daemon ∧ s.transport.step b = some s'.transport := by
  simp only [transfer, Option.ite_none_right_eq_some, Option.map_eq_some_iff] at h
  obtain ⟨hfree, t, ht, rfl⟩ := h
  exact ⟨hfree, rfl, ht⟩

theorem transferDropping_eq {b : TransportAct} {fds : List ClientId}
    (h : s.transferDropping b fds = some s') :
    s.free = true ∧ s'.daemon = s.daemon.forget fds ∧
      s.transport.step b = some s'.transport := by
  simp only [transferDropping, Option.ite_none_right_eq_some, Option.map_eq_some_iff] at h
  obtain ⟨hfree, t, ht, rfl⟩ := h
  exact ⟨hfree, rfl, ht⟩

theorem free_iff : s.free = true ↔ s.daemon.terminated = false ∧ s.daemon.machine.owner = .idle := by
  simp [free]

/-- What `scan` does: nothing but the size check, or one line from the
buffer to the end of `on_line`. -/
theorem scan_cases {env : LineEnv} {answers : List (List WriteResult)}
    (h : s.step lib (.scan env answers) = some s') :
    s.free = true ∧ ∃ t, s.transport.step .scan = some t ∧
      ((t.current? = none ∧ s'.daemon = s.daemon ∧ s'.transport = t) ∨
        ∃ fd line t₁, t.current? = some (fd, line) ∧
          s'.daemon = s.daemon.onLine lib fd line env ∧
          t.sendAll (s.daemon.newLines s'.daemon) answers = some t₁ ∧
          t₁.step .handled = some s'.transport) := by
  simp only [step, Option.ite_none_right_eq_some, Option.bind_eq_some_iff] at h
  obtain ⟨hfree, t, hscan, h⟩ := h
  refine ⟨hfree, t, hscan, ?_⟩
  split at h
  · rename_i fd line hcurrent
    simp only [onLine, Option.bind_eq_some_iff, Option.map_eq_some_iff] at h
    obtain ⟨t₁, hsend, t₂, hhandled, rfl⟩ := h
    exact .inr ⟨fd, line, t₁, hcurrent, rfl, hsend, hhandled⟩
  · rename_i hcurrent
    cases h
    exact .inl ⟨hcurrent, rfl, rfl⟩

theorem session_cases {b : Act} {copy : Option CopyFailure} {answers : List (List WriteResult)}
    (h : s.step lib (.session b copy answers) = some s') :
    (b.byOwner = true → s.transport.phase = .outside) ∧
      s.daemon.step lib (.session b copy) = some s'.daemon ∧
      s.transport.sendAll (s.daemon.newLines s'.daemon) answers = some s'.transport := by
  simp only [step] at h
  split at h
  · cases h
  · rename_i hphase
    simp only [Option.bind_eq_some_iff, Option.map_eq_some_iff] at h
    obtain ⟨d, hd, t, ht, rfl⟩ := h
    refine ⟨?_, hd, ht⟩
    intro howner
    by_cases houtside : s.transport.phase = .outside
    · exact houtside
    · exact absurd ⟨howner, houtside⟩ hphase

/-- The transport of the service takes steps of the transport. -/
theorem step_transport (h : s.step lib a = some s') :
    Lib.Reachable Transport.step s.transport s'.transport := by
  have hone : ∀ b, s.transport.step b = some s'.transport →
      Lib.Reachable Transport.step s.transport s'.transport :=
    fun b hb => (Lib.Reachable.refl _).snoc hb
  cases a with
  | start => exact hone _ (transfer_eq h).2.2
  | stop => exact hone _ (transfer_eq h).2.2
  | pollOnce order active => exact hone _ (transferDropping_eq h).2.2
  | accept fd => exact hone _ (transfer_eq h).2.2
  | drained => exact hone _ (transfer_eq h).2.2
  | read result => exact hone _ (transfer_eq h).2.2
  | scan env answers =>
    obtain ⟨-, t, hscan, ⟨-, -, heq⟩ | ⟨fd, line, t₁, hcurrent, -, hsend, hhandled⟩⟩ :=
      scan_cases h
    · exact hone _ (heq ▸ hscan)
    · have hsends : Lib.Reachable Transport.step t t₁ := by
        refine Transport.sendAll_reachable ?_ hsend
        cases Transport.step_scan hscan with
        | kept hnone => exact absurd (hcurrent.symm.trans hnone) (by simp)
        | line _ _ _ _ _ hphase' =>
          rw [hphase']
          rfl
      exact (((Lib.Reachable.refl _).snoc hscan).trans hsends).snoc hhandled
  | finish => exact hone _ (transferDropping_eq h).2.2
  | session b copy answers =>
    obtain ⟨houtside, hdaemon, hsend⟩ := session_cases h
    cases howner : b.byOwner with
    | true =>
      refine Transport.sendAll_reachable ?_ hsend
      rw [houtside howner]
      rfl
    | false =>
      rw [Daemon.newLines_background howner hdaemon] at hsend
      have heq : s.transport = s'.transport := Option.some.inj hsend
      rw [← heq]
      exact Lib.Reachable.refl _

end IpcService

/-! ## Who asked for events -/

/-- What a line asks of the bridge: to subscribe, to unsubscribe, or
nothing. -/
def subscription? (json : JsonLib) (line : Bytes) : Option Bool :=
  let type := (parseMessage json line).type
  if type = some (str "subscribe_events") then some true
  else if type = some (str "unsubscribe_events") then some false
  else none

/-- The last request among these lines that concerns the bridge was to
subscribe. -/
def asked (json : JsonLib) (lines : List Bytes) : Bool :=
  lines.foldl (fun was line => (subscription? json line).getD was) false

theorem asked_append (json : JsonLib) (lines : List Bytes) (line : Bytes) :
    asked json (lines ++ [line]) = (subscription? json line).getD (asked json lines) := by
  simp [asked]

namespace Daemon

variable {lib : Libraries} {d d' : Daemon} {x : ClientId}

theorem respond_subscribedClients (d : Daemon) (fd : ClientId) (reply : Reply) :
    (d.respond fd reply).hub.subscribedClients = d.hub.subscribedClients := by
  cases reply with
  | line bytes => rfl
  | threw => rfl
  | undefined => rfl

theorem advance_subscribedClients (copy : Option CopyFailure) (machine : Machine) :
    (d.advance lib copy machine).hub.subscribedClients = d.hub.subscribedClients := by
  rw [advance_hub]
  exact (Hub.publishAll_bridged lib copy _ _).clients

/-- How `on_line` changes the subscriptions. -/
theorem mem_onLine_subscribedClients (fd : ClientId) (line : Bytes) (env : LineEnv) :
    x ∈ (d.onLine lib fd line env).hub.subscribedClients ↔
      match subscription? lib.json line with
      | some true => x ∈ d.hub.subscribedClients ∨ x = fd
      | some false => x ∈ d.hub.subscribedClients ∧ x ≠ fd
      | none => x ∈ d.hub.subscribedClients := by
  unfold onLine subscription?
  simp only
  split
  · rw [respond_subscribedClients]
    exact Hub.mem_subscribedClients_subscribe
  · split
    · rw [respond_subscribedClients]
      exact Hub.mem_subscribedClients_unsubscribe
    · rw [respond_subscribedClients, handleLine_hub,
        (Hub.publishAll_bridged lib none _ _).clients]

end Daemon

namespace IpcService

variable {lib : Libraries} {startup : Startup} {s s' : IpcService} {a : ServiceAct}
  {fd : ClientId}

/-- The client is connected, and asked for events on this connection. -/
structure Wants (lib : Libraries) (s : IpcService) (fd : ClientId) : Prop where
  connected : fd ∈ s.transport.server.clients
  asked : YoruSpeech.asked lib.json (s.transport.connection fd).delivered = true

/-- Every subscribed client is connected and asked for it. -/
def OptedIn (lib : Libraries) (s : IpcService) : Prop :=
  ∀ fd ∈ s.daemon.hub.subscribedClients, Wants lib s fd

/-- `stop()` on a running server finds nobody subscribed. -/
def StopsUnheard (s : IpcService) : ServiceAct → Prop
  | .stop => s.transport.server.running = true → s.daemon.hub.subscribedClients = []
  | _ => True

instance (s : IpcService) : ∀ a, Decidable (s.StopsUnheard a)
  | .stop => inferInstanceAs (Decidable (s.transport.server.running = true →
      s.daemon.hub.subscribedClients = []))
  | .start | .pollOnce _ _ | .accept _ | .drained | .read _ | .scan _ _ | .finish
  | .session _ _ _ => isTrue trivial

theorem Wants.of_eq (h : Wants lib s fd) (hclients : fd ∈ s'.transport.server.clients)
    (hdelivered : (s'.transport.connection fd).delivered =
      (s.transport.connection fd).delivered) : Wants lib s' fd :=
  ⟨hclients, hdelivered ▸ h.asked⟩

/-- A step that changes neither the subscriptions nor what was delivered. -/
theorem OptedIn.kept (h : OptedIn lib s) (hdaemon : s'.daemon = s.daemon)
    (hclients : ∀ x ∈ s.transport.server.clients, x ∈ s'.transport.server.clients)
    (hdelivered : ∀ x ∈ s.transport.server.clients, (s'.transport.connection x).delivered =
      (s.transport.connection x).delivered) : OptedIn lib s' := by
  intro fd hfd
  rw [hdaemon] at hfd
  have hwants := h fd hfd
  exact hwants.of_eq (hclients fd hwants.connected) (hdelivered fd hwants.connected)

/-- A client that is disconnected is unsubscribed with it. -/
theorem OptedIn.dropping (fds : List ClientId) (h : OptedIn lib s)
    (hdaemon : s'.daemon = s.daemon.forget (s.transport.server.disconnect fds).2)
    (hclients : ∀ x, x ∈ s'.transport.server.clients ↔ x ∈ s.transport.server.clients ∧ x ∉ fds)
    (hconnection : s'.transport.connection = s.transport.connection) : OptedIn lib s' := by
  intro fd hfd
  rw [hdaemon] at hfd
  obtain ⟨hsub, hkept⟩ := Hub.mem_subscribedClients_foldl_unsubscribe.mp hfd
  have hwants := h fd hsub
  refine hwants.of_eq ?_ (by rw [hconnection])
  refine (hclients fd).mpr ⟨hwants.connected, ?_⟩
  intro hmem
  exact hkept (IpcServer.mem_disconnect.mpr ⟨hwants.connected, hmem⟩)

theorem scan_optedIn {env : LineEnv} {answers : List (List WriteResult)}
    (hp : s.transport.Polled) (h : OptedIn lib s)
    (hs : s.step lib (.scan env answers) = some s') : OptedIn lib s' := by
  obtain ⟨-, t, hscan, hends⟩ := scan_cases hs
  cases Transport.step_scan hscan with
  | kept hcurrent hclients hconnection =>
    obtain ⟨-, hdaemon, rfl⟩ | ⟨fd, line, t₁, hline, -, -, -⟩ := hends
    · exact h.kept hdaemon (fun x hx => hclients ▸ hx) fun x _ => by rw [hconnection]
    · exact absurd (hcurrent.symm.trans hline) (by simp)
  | line fd todo disconnected line hphase hphase' hcurrent hclients hdelivered hothers =>
    obtain ⟨hnone, -, -⟩ | ⟨fd', line', t₁, hline, hdaemon, hsend, hhandled⟩ := hends
    · exact absurd (hcurrent.symm.trans hnone) (by simp)
    · obtain ⟨rfl, rfl⟩ : fd = fd' ∧ line = line' := by
        simpa using hcurrent.symm.trans hline
      have hconnected : fd ∈ s.transport.server.clients := by
        refine hp.connected fd ?_
        rw [hphase]
        exact List.mem_cons_self
      obtain ⟨hclients₁, hphase₁, hdelivered₁⟩ := Transport.clients_sendAll hsend
      rw [hphase'] at hphase₁
      have hafter : s'.transport = { t₁ with phase := .scanning fd todo disconnected } := by
        simpa [Transport.step, hphase₁] using hhandled.symm
      intro x hx
      rw [hdaemon] at hx
      have hx' := Daemon.mem_onLine_subscribedClients fd line env |>.mp hx
      have hasked : (s'.transport.connection fd).delivered =
          (s.transport.connection fd).delivered ++ [line] := by
        rw [hafter]
        exact (hdelivered₁ fd).trans hdelivered
      have hold : ∀ x, x ≠ fd → (s'.transport.connection x).delivered =
          (s.transport.connection x).delivered := by
        intro x hne
        rw [hafter]
        exact (hdelivered₁ x).trans (by rw [hothers x hne])
      have hregistry : s'.transport.server.clients = s.transport.server.clients := by
        rw [hafter]
        exact hclients₁.trans hclients
      by_cases hfd : x = fd
      · subst hfd
        refine ⟨hregistry ▸ hconnected, ?_⟩
        rw [hasked, asked_append]
        cases hkind : subscription? lib.json line with
        | none =>
          rw [hkind] at hx'
          exact (h x hx').asked
        | some kind =>
          rw [hkind] at hx'
          cases kind with
          | true => rfl
          | false => exact absurd rfl hx'.2
      · have hsub : x ∈ s.daemon.hub.subscribedClients := by
          split at hx'
          · exact hx'.resolve_right hfd
          · exact hx'.1
          · exact hx'
        have hwants := h x hsub
        exact hwants.of_eq (hregistry ▸ hwants.connected) (hold x hfd)

/-- One step keeps `OptedIn`, unless `stop()` leaves subscribers behind. -/
theorem step_optedIn (hp : s.transport.Polled) (h : OptedIn lib s) (ha : s.StopsUnheard a)
    (hs : s.step lib a = some s') : OptedIn lib s' := by
  cases a with
  | start =>
    obtain ⟨-, hdaemon, hstep⟩ := transfer_eq hs
    generalize hafter : s'.transport = t at hstep
    cases Transport.step_move hstep
    exact h.kept hdaemon (fun x hx => hafter ▸ hx) fun x _ => hafter ▸ rfl
  | stop =>
    obtain ⟨-, hdaemon, hstep⟩ := transfer_eq hs
    generalize hafter : s'.transport = t at hstep
    cases Transport.step_move hstep
    by_cases hrunning : s.transport.server.running = true
    · intro fd hfd
      rw [hdaemon, ha hrunning] at hfd
      cases hfd
    · have hstop : s.transport.server.stop = s.transport.server := if_neg hrunning
      rw [hstop] at hafter
      exact h.kept hdaemon (fun x hx => hafter ▸ hx) fun x _ => hafter ▸ rfl
  | pollOnce order active =>
    obtain ⟨-, hdaemon, hstep⟩ := transferDropping_eq hs
    generalize hafter : s'.transport = t at hstep
    cases Transport.step_move hstep with
    | skip _ _ hphase hrunning =>
      rw [if_neg hrunning] at hdaemon
      exact h.kept hdaemon (fun x hx => hafter ▸ hx) fun x _ => hafter ▸ rfl
    | poll _ _ hphase hrunning hperm =>
      rw [if_pos hrunning] at hdaemon
      refine h.dropping s.transport.server.pendingDisconnects hdaemon ?_ ?_
      · intro x
        rw [hafter]
        exact IpcServer.mem_clients_flush
      · rw [hafter]
  | accept fd =>
    obtain ⟨-, hdaemon, hstep⟩ := transfer_eq hs
    generalize hafter : s'.transport = t at hstep
    cases Transport.step_move hstep with
    | accept _ polled hphase hnew =>
      refine h.kept hdaemon ?_ ?_
      · intro x hx
        rw [hafter, Transport.record_server, IpcServer.clients_addClient]
        exact List.mem_append_left _ hx
      · intro x hx
        have hne : x ≠ fd := fun heq => hnew (heq ▸ hx)
        rw [hafter, Transport.record_other _ _ hne]
  | drained =>
    obtain ⟨-, hdaemon, hstep⟩ := transfer_eq hs
    generalize hafter : s'.transport = t at hstep
    cases Transport.step_move hstep
    exact h.kept hdaemon (fun x hx => hafter ▸ hx) fun x _ => hafter ▸ rfl
  | read result =>
    obtain ⟨-, hdaemon, hstep⟩ := transfer_eq hs
    generalize hafter : s'.transport = t at hstep
    cases Transport.step_move hstep with
    | read fd todo disconnected _ _ hphase hread =>
      obtain ⟨hclients, hdelivered⟩ := Transport.readClient_keeps hread
      refine h.kept hdaemon ?_ ?_
      · intro x hx
        rw [hafter, hclients]
        exact hx
      · intro x _
        rw [hafter]
        exact hdelivered x
  | scan env answers => exact scan_optedIn hp h hs
  | finish =>
    obtain ⟨-, hdaemon, hstep⟩ := transferDropping_eq hs
    generalize hafter : s'.transport = t at hstep
    cases Transport.step_move hstep with
    | finish disconnected hphase =>
      rw [hphase] at hdaemon
      refine h.dropping disconnected hdaemon ?_ ?_
      · intro x
        rw [hafter]
        exact IpcServer.mem_clients_disconnect
      · rw [hafter]
  | session b copy answers =>
    obtain ⟨-, hdaemon, hsend⟩ := session_cases hs
    obtain ⟨hclients, -, hdelivered⟩ := Transport.clients_sendAll hsend
    simp only [Daemon.step, Option.ite_none_right_eq_some, Option.map_eq_some_iff] at hdaemon
    obtain ⟨-, machine, -, hdaemon⟩ := hdaemon
    intro fd hfd
    rw [← hdaemon, Daemon.advance_subscribedClients] at hfd
    have hwants := h fd hfd
    exact hwants.of_eq (hclients ▸ hwants.connected) (hdelivered fd)

/-- In every run in which `stop()` never leaves subscribers behind, every
subscribed client is connected and asked for events on this connection, and
whatever is published next is sent to such clients only. -/
theorem subscribers_opted_in {acts : List ServiceAct}
    (hrun : Lib.run (step lib) (init lib startup) acts = some s)
    (hstops : Lib.Along (step lib) StopsUnheard (init lib startup) acts) :
    (∀ fd ∈ s.daemon.hub.subscribedClients, Wants lib s fd) ∧
    ∀ (copy : Option CopyFailure) (es : List Event), ∃ lines,
      (Hub.left (Hub.publishAll lib copy es s.daemon.hub)).sent = s.daemon.hub.sent ++ lines ∧
        ∀ entry ∈ lines, Wants lib s entry.1 := by
  have hinit : Lib.Reachable Transport.step {} (init lib startup).transport ∧
      OptedIn lib (init lib startup) := by
    refine ⟨Lib.Reachable.refl _, ?_⟩
    intro fd hfd
    cases hfd
  obtain ⟨-, hopted⟩ := Lib.run_along
    (Q := fun s => Lib.Reachable Transport.step {} s.transport ∧ OptedIn lib s)
    (fun _ _ _ ⟨⟨acts, ht⟩, ho⟩ ha hs =>
      ⟨Lib.Reachable.trans ⟨acts, ht⟩ (step_transport hs),
        step_optedIn (Transport.run_framed ht 0).1 ho ha hs⟩)
    hinit hstops hrun
  refine ⟨hopted, ?_⟩
  intro copy es
  obtain ⟨lines, hsent, hmem⟩ := (Hub.publishAll_bridged lib copy es s.daemon.hub).sent
  exact ⟨lines, hsent, fun entry hentry => hopted entry.1 (hmem entry hentry)⟩

/-- A client connects as descriptor 5 and subscribes. -/
def subscribeOnce : List ServiceAct :=
  [.start, .pollOnce [] true, .accept 5, .drained, .finish,
    .pollOnce [5] true, .drained, .read (.data (request "subscribe_events" ++ [newline])),
    .scan {} [[.accepted 100]], .scan {} [], .finish]

/-- It is subscribed, connected and asked for it. -/
theorem subscribers_opted_in_once :
    ∃ s, Lib.run (step plainLibraries) (init plainLibraries plainStartup) subscribeOnce = some s ∧
      5 ∈ s.daemon.hub.subscribedClients ∧ Wants plainLibraries s 5 := by
  have hstops : Lib.Along (step plainLibraries) StopsUnheard (init plainLibraries plainStartup)
      subscribeOnce := by
    decide +kernel
  have hrun : Lib.run (step plainLibraries) (init plainLibraries plainStartup) subscribeOnce =
      some _ := rfl
  have hmem : 5 ∈ ((Lib.run (step plainLibraries) (init plainLibraries plainStartup)
      subscribeOnce).get rfl).daemon.hub.subscribedClients := by
    decide +kernel
  exact ⟨_, hrun, hmem, (subscribers_opted_in hrun hstops).1 5 hmem⟩

/-- The service is restarted, another client is accepted as descriptor 5
and starts a recording. -/
def restartedOnce : List ServiceAct :=
  subscribeOnce ++ ([.stop, .start, .pollOnce [] true, .accept 5, .drained, .finish,
    .pollOnce [5] true, .drained, .read (.data (request "start_recording" ++ [newline])),
    .scan {} [[.accepted 100], [.accepted 100]], .scan {} [], .finish] : List ServiceAct)

/-- The new client is subscribed without having asked, and is sent the
event. -/
theorem stale_subscription :
    ∃ s, Lib.run (step plainLibraries) (init plainLibraries plainStartup) restartedOnce = some s ∧
      5 ∈ s.daemon.hub.subscribedClients ∧ ¬ Wants plainLibraries s 5 ∧
      (s.transport.connection 5).requested.head? =
        encodeEvent compactJson (.recordingStarted 1) := by
  have hrun : (Lib.run (step plainLibraries) (init plainLibraries plainStartup)
      restartedOnce).map (fun s => (s.daemon.hub.subscribedClients,
        asked compactJson (s.transport.connection 5).delivered,
        (s.transport.connection 5).requested.head?)) =
      some ([5], false, encodeEvent compactJson (.recordingStarted 1)) := by
    decide +kernel
  obtain ⟨s, hs, heq⟩ := Option.map_eq_some_iff.mp hrun
  simp only [Prod.mk.injEq] at heq
  obtain ⟨hclients, hasked, hrequested⟩ := heq
  refine ⟨s, hs, ?_, ?_, hrequested⟩
  · rw [hclients]
    exact List.mem_singleton.mpr rfl
  · intro hwants
    have htrue : asked compactJson (s.transport.connection 5).delivered = true := hwants.asked
    rw [hasked] at htrue
    cases htrue

end IpcService

end YoruSpeech

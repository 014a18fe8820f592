/-
YoruSpeech.App.ProcessesTheorems — which processes hold the sockets.

Neither `socket` nor `accept` is asked for a descriptor that closes on
`exec`, unlike the wake-up eventfd.

* `Layout` — what the daemon's table holds: the standard streams, and the
  listener, the eventfd and one connection for each client while the server
  runs.
* `sockets_private`: as long as `copy()` forks only while the server is not
  running, no child ever holds a socket of the server, a connection the
  server closed reads end of file, and a dead daemon's path is not live; a
  fork at any other time hands the listener to the command.
* `sockets_inherited`: the daemon as `main.cpp` runs it copies while it
  serves.
-/
import YoruSpeech.App.IpcServiceTheorems
import YoruSpeech.App.Processes

namespace YoruSpeech

open Lib (Descriptor DescriptorTable)

/-! ## The server -/

namespace IpcServer

theorem running_disconnect : ∀ (fds : List ClientId) (s : IpcServer),
    (s.disconnect fds).1.running = s.running
  | [], _ => rfl
  | fd :: rest, s => by
      unfold disconnect
      split
      · exact running_disconnect rest (s.close fd)
      · exact running_disconnect rest s

end IpcServer

namespace Transport

variable {t t' : Transport} {a : TransportAct}

theorem running_send {fd : ClientId} {line : Bytes} {answers : List WriteResult}
    (h : t.send fd line answers = some t') : t'.server.running = t.server.running := by
  unfold send IpcServer.sendLine at h
  by_cases hc : t.server.contains fd = true
  · simp only [hc, if_true, Option.map_map, Option.map_eq_some_iff, Prod.exists,
      Function.comp_apply] at h
    obtain ⟨taken, complete, -, rfl⟩ := h
    cases complete with
    | true => rfl
    | false =>
      show (t.server.giveUp fd).running = t.server.running
      unfold IpcServer.giveUp
      split <;> rfl
  · simp only [hc, if_false, Option.map_some, Option.some.injEq, Bool.false_eq_true] at h
    subst h
    rfl

theorem running_readClient {fd : ClientId} {todo disconnected : List ClientId}
    {result : ReadResult} (h : t.readClient fd todo disconnected result = some t') :
    t'.server.running = t.server.running := by
  cases result with
  | nothing | endOfFile | failed =>
    cases h
    rfl
  | data chunk =>
    simp only [readClient] at h
    split at h
    · cases h
      rfl
    · cases h

theorem running_scanBuffer (t : Transport) (fd : ClientId) (todo disconnected : List ClientId) :
    (t.scanBuffer fd todo disconnected).server.running = t.server.running := by
  unfold scanBuffer
  split
  · rfl
  · split <;> rfl

/-- Whether the server runs after a step. -/
def runsAfter (before : Bool) : TransportAct → Bool
  | .start => true
  | .stop => false
  | _ => before

theorem step_running (h : t.step a = some t') :
    t'.server.running = runsAfter t.server.running a := by
  cases step_move h with
  | start | skip | accept | drained | handled => rfl
  | stop =>
    show t.server.stop.running = false
    unfold IpcServer.stop
    split
    · rfl
    · rename_i hrunning
      simpa using hrunning
  | poll | finish => exact IpcServer.running_disconnect _ _
  | read fd todo disconnected result _ hphase hread => exact running_readClient hread
  | scan fd todo disconnected hphase => exact running_scanBuffer t fd todo disconnected
  | sendLine fd line answers _ hmay hsend => exact running_send hsend

/-- A server that is not running has no clients and is not polled. -/
def Quiescent (t : Transport) : Prop :=
  t.server.running = false → t.server.clients = [] ∧ t.phase = .outside

theorem step_quiescent (hq : Quiescent t) (h : t.step a = some t') : Quiescent t' := by
  intro hrunning
  have hstep := step_running h
  rw [hrunning] at hstep
  cases step_move h with
  | start => cases hstep
  | stop hphase =>
    refine ⟨?_, hphase⟩
    show t.server.stop.clients = []
    unfold IpcServer.stop
    split
    · rfl
    · rename_i hnot
      exact (hq (by simpa using hnot)).1
  | skip => exact hq hrunning
  | poll order active hphase hbefore hperm =>
    rw [hbefore] at hstep
    cases hstep
  | sendLine fd line answers _ hmay hsend =>
    obtain ⟨hclients, hphase⟩ := hq hstep.symm
    obtain ⟨hclients', -, hphase', -⟩ := clients_send hsend
    exact ⟨hclients'.trans hclients, hphase'.trans hphase⟩
  -- the other steps are taken inside `poll_once`
  | accept _ _ hphase | drained _ hphase | read _ _ _ _ _ hphase | scan _ _ _ hphase
  | handled _ _ _ hphase | finish _ hphase =>
    have houtside := (hq hstep.symm).2
    rw [hphase] at houtside
    cases houtside

end Transport

namespace Processes

variable {σ σ' : Processes} {a : ProcessAct}

/-- The server's steps other than `start` and `accept` disconnect the
clients whose descriptors they close. -/
theorem serve_clients {b : TransportAct} {t : Transport} (hstart : b ≠ .start)
    (haccept : ∀ fd, b ≠ .accept fd) (h : σ.transport.step b = some t) (x : ClientId) :
    x ∈ t.server.clients ↔ x ∈ σ.transport.server.clients ∧ x ∉ σ.closedBy b := by
  have hsame : t.server.clients = σ.transport.server.clients → σ.closedBy b = [] →
      (x ∈ t.server.clients ↔ x ∈ σ.transport.server.clients ∧ x ∉ σ.closedBy b) := by
    intro hclients hclosed
    rw [hclients, hclosed]
    simp
  cases Transport.step_move h with
  | start => exact absurd rfl hstart
  | accept fd => exact absurd rfl (haccept fd)
  | stop =>
    by_cases hrunning : σ.transport.server.running = true
    · have hnone : σ.transport.server.stop.clients = [] := by
        rw [IpcServer.stop, if_pos hrunning]
        rfl
      rw [hnone]
      simp only [List.not_mem_nil, false_iff]
      rintro ⟨hx, hnot⟩
      refine hnot ?_
      simp [closedBy, running, hrunning, hx]
    · refine hsame ?_ ?_
      · rw [IpcServer.stop, if_neg hrunning]
      · simp [closedBy, running, hrunning]
  | skip order active hphase hrunning => exact hsame rfl (if_neg hrunning)
  | poll order active hphase hrunning hperm =>
    have hclosed : σ.closedBy (.pollOnce order active) = σ.transport.server.flush.2 :=
      if_pos hrunning
    rw [hclosed, IpcServer.mem_clients_flush]
    refine and_congr_right fun hx => not_congr ?_
    show _ ↔ x ∈ (σ.transport.server.disconnect _).2
    rw [IpcServer.mem_disconnect]
    exact ⟨fun hp => ⟨hx, hp⟩, fun hp => hp.2⟩
  | drained | handled => exact hsame rfl rfl
  | read fd todo disconnected result _ hphase hread =>
    exact hsame (Transport.readClient_keeps hread).1 rfl
  | scan =>
    refine hsame ?_ rfl
    cases Transport.step_scan h with
    | kept _ hclients _ => exact hclients
    | line _ _ _ _ _ _ _ hclients _ _ => exact hclients
  | finish disconnected hphase =>
    have hclosed : σ.closedBy .finish = (σ.transport.server.disconnect disconnected).2 := by
      simp [closedBy, hphase, PollPhase.doomed]
    rw [hclosed, IpcServer.mem_clients_disconnect]
    refine and_congr_right fun hx => not_congr ?_
    rw [IpcServer.mem_disconnect]
    exact ⟨fun hp => ⟨hx, hp⟩, fun hp => hp.2⟩
  | sendLine fd line answers _ hmay hsend => exact hsame (Transport.clients_send hsend).1 rfl

/-! ## The daemon's table -/

structure Layout (σ : Processes) : Prop where
  stdio : ∀ fd < 3, σ.table fd = some ⟨.stdio, false⟩
  listening : σ.running = true → ∃ id, σ.table σ.listenFd = some ⟨.listener id, false⟩
  waking : σ.running = true → σ.table σ.wakeFd = some ⟨.wake, true⟩
  connected : ∀ fd ∈ σ.transport.server.clients, ∃ id, σ.table fd = some ⟨.connection id, false⟩
  piped : ∀ pid fd, σ.copying = some (pid, fd) → σ.table fd = some ⟨.pipe, false⟩
  /-- There is no other socket. -/
  sockets : ∀ fd d, σ.table fd = some d → d.file.isSocket = true →
    σ.running = true ∧ (fd = σ.listenFd ∨ fd ∈ σ.transport.server.clients)
  quiescent : σ.transport.Quiescent

theorem init_layout : Layout {} := by
  refine ⟨?_, ?_, ?_, ?_, ?_, ?_, fun _ => ⟨rfl, rfl⟩⟩
  · intro fd hfd
    exact if_pos hfd
  · intro h
    cases h
  · intro h
    cases h
  · intro fd h
    cases h
  · intro pid fd h
    cases h
  · intro fd d hd hsocket
    by_cases hfd : fd < 3
    · rw [show ({} : Processes).table fd = some ⟨.stdio, false⟩ from if_pos hfd] at hd
      cases hd
      cases hsocket
    · rw [show ({} : Processes).table fd = none from if_neg hfd] at hd
      cases hd

theorem ne_of_unused {fd x : Nat} {d : Descriptor OpenFile}
    (hfd : σ.unused fd = true) (hx : σ.table x = some d) : x ≠ fd := by
  rintro rfl
  simp [unused, hx] at hfd

theorem Layout.start {listenFd wakeFd : Nat} {t : Transport} (h : Layout σ)
    (hrunning : σ.running = false) (hlisten : σ.unused listenFd = true)
    (hwake : σ.unused wakeFd = true) (hne : listenFd ≠ wakeFd)
    (hstep : σ.transport.step .start = some t) :
    Layout { σ with
      transport := t
      table := (σ.table.openAt listenFd (.listener σ.next) false).openAt wakeFd .wake true
      listenFd := listenFd
      wakeFd := wakeFd
      next := σ.next + 1 } := by
  have hold : ∀ x d, σ.table x = some d →
      ((σ.table.openAt listenFd (.listener σ.next) false).openAt wakeFd .wake true) x =
        some d := by
    intro x d hx
    rw [DescriptorTable.openAt_other _ _ _ (ne_of_unused hwake hx),
      DescriptorTable.openAt_other _ _ _ (ne_of_unused hlisten hx), hx]
  have hclients : t.server.clients = σ.transport.server.clients := by
    cases Transport.step_move hstep
    rfl
  refine ⟨?_, ?_, ?_, ?_, ?_, ?_, Transport.step_quiescent h.quiescent hstep⟩
  · intro fd hfd
    exact hold fd _ (h.stdio fd hfd)
  · intro _
    refine ⟨σ.next, ?_⟩
    show ((σ.table.openAt listenFd _ false).openAt wakeFd .wake true) listenFd = _
    rw [DescriptorTable.openAt_other _ _ _ hne, DescriptorTable.openAt_same]
  · intro _
    exact DescriptorTable.openAt_same _ _ _ _
  · intro fd hfd
    obtain ⟨id, hid⟩ := h.connected fd (hclients ▸ hfd)
    exact ⟨id, hold fd _ hid⟩
  · intro pid fd hcopying
    exact hold fd _ (h.piped pid fd hcopying)
  · intro fd d hd hsocket
    refine ⟨Transport.step_running hstep, ?_⟩
    rcases DescriptorTable.openAt_eq_some hd with ⟨-, rfl⟩ | ⟨-, hd⟩
    · cases hsocket
    · rcases DescriptorTable.openAt_eq_some hd with ⟨rfl, -⟩ | ⟨-, hd⟩
      · exact .inl rfl
      · -- there was no socket before
        have hbefore := (h.sockets fd d hd hsocket).1
        rw [hrunning] at hbefore
        cases hbefore

theorem Layout.accept {fd : ClientId} {t : Transport} (h : Layout σ) (hfd : σ.unused fd = true)
    (hstep : σ.transport.step (.accept fd) = some t) :
    Layout { σ with
      transport := t
      table := σ.table.openAt fd (.connection σ.next) false
      next := σ.next + 1 } := by
  have hold : ∀ x d, σ.table x = some d →
      (σ.table.openAt fd (.connection σ.next) false) x = some d := by
    intro x d hx
    rw [DescriptorTable.openAt_other _ _ _ (ne_of_unused hfd hx), hx]
  have hrunning : t.server.running = σ.running := Transport.step_running hstep
  have hclients : t.server.clients = σ.transport.server.clients ++ [fd] := by
    cases Transport.step_move hstep
    exact IpcServer.clients_addClient _ _
  -- `accept` is called inside `poll_once` of a running server
  have hserving : σ.running = true := by
    cases hrun : σ.running with
    | true => rfl
    | false => simp [Transport.step, (h.quiescent hrun).2] at hstep
  refine ⟨?_, ?_, ?_, ?_, ?_, ?_, Transport.step_quiescent h.quiescent hstep⟩
  · intro x hx
    exact hold x _ (h.stdio x hx)
  · intro _
    obtain ⟨id, hid⟩ := h.listening hserving
    exact ⟨id, hold _ _ hid⟩
  · intro _
    exact hold _ _ (h.waking hserving)
  · intro x hx
    have hx' : x ∈ σ.transport.server.clients ++ [fd] := hclients ▸ hx
    rcases List.mem_append.mp hx' with hx' | hx'
    · obtain ⟨id, hid⟩ := h.connected x hx'
      exact ⟨id, hold x _ hid⟩
    · rw [List.mem_singleton] at hx'
      subst hx'
      exact ⟨σ.next, DescriptorTable.openAt_same _ _ _ _⟩
  · intro pid x hcopying
    exact hold x _ (h.piped pid x hcopying)
  · intro x d hd hsocket
    refine ⟨hrunning.trans hserving, ?_⟩
    show x = σ.listenFd ∨ x ∈ t.server.clients
    rw [hclients]
    rcases DescriptorTable.openAt_eq_some hd with ⟨rfl, -⟩ | ⟨-, hd⟩
    · exact .inr (List.mem_append_right _ (List.mem_singleton.mpr rfl))
    · rcases (h.sockets x d hd hsocket).2 with rfl | hmem
      · exact .inl rfl
      · exact .inr (List.mem_append_left _ hmem)

/-- What the server closes is its own. -/
theorem Layout.closedBy (h : Layout σ) {b : TransportAct} {fd : Nat}
    (hfd : fd ∈ σ.closedBy b) :
    (∃ id, σ.table fd = some ⟨.connection id, false⟩) ∨
      b = .stop ∧ ((∃ id, σ.table fd = some ⟨.listener id, false⟩) ∨
        σ.table fd = some ⟨.wake, true⟩) := by
  cases b with
  | stop =>
    simp only [Processes.closedBy] at hfd
    split at hfd
    · rename_i hrunning
      simp only [List.mem_append, List.mem_cons, List.not_mem_nil, or_false] at hfd
      rcases hfd with hfd | rfl | rfl
      · exact .inl (h.connected fd hfd)
      · exact .inr ⟨rfl, .inl (h.listening hrunning)⟩
      · exact .inr ⟨rfl, .inr (h.waking hrunning)⟩
    · cases hfd
  | pollOnce order active =>
    simp only [Processes.closedBy] at hfd
    split at hfd
    · exact .inl (h.connected fd (IpcServer.mem_disconnect.mp hfd).1)
    · cases hfd
  | finish => exact .inl (h.connected fd (IpcServer.mem_disconnect.mp hfd).1)
  | start | accept | drained | read | scan | handled | sendLine => cases hfd

theorem Layout.serve {b : TransportAct} {t : Transport} (h : Layout σ) (hfree : σ.free = true)
    (hstart : b ≠ .start) (haccept : ∀ fd, b ≠ .accept fd)
    (hstep : σ.transport.step b = some t) :
    Layout { σ with transport := t, table := σ.table.close (σ.closedBy b) } := by
  have hclients := fun x => serve_clients hstart haccept hstep x
  have hcopying : σ.copying = none := by
    simp only [free, Bool.and_eq_true, Option.isNone_iff_eq_none] at hfree
    exact hfree.2
  have hstdio : ∀ fd < 3, fd ∉ σ.closedBy b := by
    intro fd hfd hmem
    have hsame := h.stdio fd hfd
    obtain ⟨id, hid⟩ | ⟨-, ⟨id, hid⟩ | hid⟩ := h.closedBy hmem
    · rw [hsame] at hid
      cases hid
    · rw [hsame] at hid
      cases hid
    · rw [hsame] at hid
      cases hid
  -- as long as the server runs, its own two descriptors stay
  have hserving : t.server.running = true → σ.running = true ∧ b ≠ .stop := by
    intro hrunning
    rw [Transport.step_running hstep] at hrunning
    cases b with
    | start => exact absurd rfl hstart
    | stop => cases hrunning
    | pollOnce | accept | drained | read | scan | handled | finish | sendLine =>
      exact ⟨hrunning, by simp⟩
  have hkept : t.server.running = true → ∀ {fd : Nat} {d : Descriptor OpenFile},
      σ.table fd = some d → (∀ id, d.file ≠ .connection id) →
      σ.table.close (σ.closedBy b) fd = some d := by
    intro hrunning fd d hd hfile
    rw [DescriptorTable.close_other _ ?_, hd]
    intro hmem
    obtain ⟨id, hid⟩ | ⟨hstop, -⟩ := h.closedBy hmem
    · rw [hd] at hid
      cases hid
      exact hfile id rfl
    · exact (hserving hrunning).2 hstop
  refine ⟨?_, ?_, ?_, ?_, ?_, ?_, Transport.step_quiescent h.quiescent hstep⟩
  · intro fd hfd
    exact (DescriptorTable.close_other _ (hstdio fd hfd)).trans (h.stdio fd hfd)
  · intro hrunning
    obtain ⟨id, hid⟩ := h.listening (hserving hrunning).1
    exact ⟨id, hkept hrunning hid (by simp)⟩
  · intro hrunning
    exact hkept hrunning (h.waking (hserving hrunning).1) (by simp)
  · intro fd hfd
    obtain ⟨hmem, hopen⟩ := (hclients fd).mp hfd
    obtain ⟨id, hid⟩ := h.connected fd hmem
    exact ⟨id, (DescriptorTable.close_other _ hopen).trans hid⟩
  · intro pid fd hpid
    rw [hcopying] at hpid
    cases hpid
  · intro fd d hd hsocket
    obtain ⟨hopen, hd⟩ := DescriptorTable.close_eq_some hd
    obtain ⟨hrunning, hwhere⟩ := h.sockets fd d hd hsocket
    have hstop : b ≠ .stop := by
      rintro rfl
      refine hopen ?_
      simp only [Processes.closedBy, hrunning, if_true, List.mem_append, List.mem_cons,
        List.not_mem_nil, or_false]
      rcases hwhere with rfl | hmem
      · exact .inr (.inl rfl)
      · exact .inl hmem
    refine ⟨?_, ?_⟩
    · show t.server.running = true
      rw [Transport.step_running hstep]
      cases b with
      | start => rfl
      | stop => exact absurd rfl hstop
      | pollOnce | accept | drained | read | scan | handled | finish | sendLine => exact hrunning
    · rcases hwhere with rfl | hmem
      · exact .inl rfl
      · exact .inr ((hclients fd).mpr ⟨hmem, hopen⟩)

/-- The table between the two calls of `pipe` and `fork`. -/
def pipedTable (σ : Processes) (readEnd writeEnd : Nat) : DescriptorTable OpenFile :=
  (σ.table.openAt readEnd .pipe false).openAt writeEnd .pipe false

theorem pipedTable_eq {readEnd writeEnd fd : Nat} {d : Descriptor OpenFile}
    (hread : σ.unused readEnd = true) (hwrite : σ.unused writeEnd = true)
    (hd : σ.table fd = some d) : σ.pipedTable readEnd writeEnd fd = some d := by
  unfold pipedTable
  rw [DescriptorTable.openAt_other _ _ _ (ne_of_unused hwrite hd),
    DescriptorTable.openAt_other _ _ _ (ne_of_unused hread hd), hd]

/-- A pipe adds no socket. -/
theorem socket_of_pipedTable {readEnd writeEnd fd : Nat} {d : Descriptor OpenFile}
    (hd : σ.pipedTable readEnd writeEnd fd = some d) (hsocket : d.file.isSocket = true) :
    σ.table fd = some d := by
  rcases DescriptorTable.openAt_eq_some hd with ⟨-, rfl⟩ | ⟨-, hd⟩
  · cases hsocket
  · rcases DescriptorTable.openAt_eq_some hd with ⟨-, rfl⟩ | ⟨-, hd⟩
    · cases hsocket
    · exact hd

theorem Layout.copy {pid : ProcessId} {readEnd writeEnd : Nat} {children : List ChildProcess}
    (h : Layout σ) (hread : σ.unused readEnd = true) (hwrite : σ.unused writeEnd = true)
    (hne : readEnd ≠ writeEnd) :
    Layout { σ with
      table := (σ.pipedTable readEnd writeEnd).close [readEnd]
      copying := some (pid, writeEnd)
      children := children } := by
  have hold : ∀ {x : Nat} {d : Descriptor OpenFile}, σ.table x = some d →
      (σ.pipedTable readEnd writeEnd).close [readEnd] x = some d := by
    intro x d hx
    have hx' : x ∉ [readEnd] := by simpa using ne_of_unused hread hx
    rw [DescriptorTable.close_other _ hx', pipedTable_eq hread hwrite hx]
  refine ⟨fun fd hfd => hold (h.stdio fd hfd), ?_, fun hr => hold (h.waking hr), ?_, ?_, ?_,
    h.quiescent⟩
  · intro hrunning
    obtain ⟨id, hid⟩ := h.listening hrunning
    exact ⟨id, hold hid⟩
  · intro fd hfd
    obtain ⟨id, hid⟩ := h.connected fd hfd
    exact ⟨id, hold hid⟩
  · intro pid' fd hcopying
    cases hcopying
    have hw : writeEnd ∉ [readEnd] := by simpa using hne.symm
    show (σ.pipedTable readEnd writeEnd).close [readEnd] writeEnd = _
    rw [DescriptorTable.close_other _ hw]
    exact DescriptorTable.openAt_same _ _ _ _
  · intro fd d hd hsocket
    exact h.sockets fd d (socket_of_pipedTable (DescriptorTable.close_eq_some hd).2 hsocket)
      hsocket

theorem Layout.copyReturns {pid : ProcessId} {writeEnd : Nat} (h : Layout σ)
    (hcopying : σ.copying = some (pid, writeEnd)) :
    Layout { σ with table := σ.table.close [writeEnd], copying := none } := by
  have hpipe := h.piped pid writeEnd hcopying
  have hold : ∀ {x : Nat} {d : Descriptor OpenFile}, σ.table x = some d → d.file ≠ .pipe →
      σ.table.close [writeEnd] x = some d := by
    intro x d hx hfile
    rw [DescriptorTable.close_other _ ?_, hx]
    intro hmem
    rw [List.mem_singleton] at hmem
    subst hmem
    rw [hpipe] at hx
    cases hx
    exact hfile rfl
  refine ⟨fun fd hfd => hold (h.stdio fd hfd) (by simp), ?_,
    fun hr => hold (h.waking hr) (by simp), ?_, ?_, ?_, h.quiescent⟩
  · intro hrunning
    obtain ⟨id, hid⟩ := h.listening hrunning
    exact ⟨id, hold hid (by simp)⟩
  · intro fd hfd
    obtain ⟨id, hid⟩ := h.connected fd hfd
    exact ⟨id, hold hid (by simp)⟩
  · intro pid' fd hnone
    cases hnone
  · intro fd d hd hsocket
    exact h.sockets fd d (DescriptorTable.close_eq_some hd).2 hsocket

end Processes

/-! ## The children -/

namespace ChildProcess

variable {c : ChildProcess} {f : OpenFile}

theorem holds_silenceStdio {t : DescriptorTable OpenFile} {devNull : Option Nat}
    (h : (silenceStdio t devNull).Holds f) : f = .devNull ∨ t.Holds f := by
  cases devNull with
  | none => exact .inr h
  | some fd =>
    have hopen := DescriptorTable.holds_dup2 (DescriptorTable.holds_dup2
      (DescriptorTable.holds_close h))
    exact DescriptorTable.holds_openAt hopen

/-- A command holds no socket its child did not have. -/
theorem socket_of_exec {devNull : Option Nat} (hsocket : f.isSocket = true)
    (h : (c.exec devNull).table.Holds f) : c.table.Holds f := by
  rcases holds_silenceStdio (DescriptorTable.holds_exec h) with rfl | h
  · cases hsocket
  · exact DescriptorTable.holds_dup2 (DescriptorTable.holds_close h)

/-- A descriptor the child does not use itself and that is not marked
stays open in the command. -/
theorem exec_keeps {fd : Nat} (hfd : c.table fd = some ⟨f, false⟩) (hstdin : fd ≠ 0)
    (hread : fd ≠ c.readEnd) (hwrite : fd ≠ c.writeEnd) : (c.exec none).table.Holds f := by
  refine ⟨fd, ⟨f, false⟩, DescriptorTable.exec_kept ?_, rfl⟩
  show c.wired fd = some ⟨f, false⟩
  have hopen : fd ∉ [c.readEnd, c.writeEnd] := by simp [hread, hwrite]
  unfold wired
  rw [DescriptorTable.close_other _ hopen, DescriptorTable.dup2_other hstdin, hfd]

end ChildProcess

namespace Processes

variable {σ σ' : Processes} {a : ProcessAct}

/-- No child holds a socket. -/
structure Private (σ : Processes) : Prop where
  layout : σ.alive = true → Layout σ
  children : ∀ c ∈ σ.children, ∀ f, f.isSocket = true → ¬ c.table.Holds f
  dead : σ.alive = false → ∀ f, ¬ σ.table.Holds f

/-- `copy()` forks only while the server is not running. -/
def CopiesUnserved (σ : Processes) : ProcessAct → Prop
  | .copy _ _ _ => σ.running = false
  | _ => True

instance (σ : Processes) : ∀ a, Decidable (σ.CopiesUnserved a)
  | .copy _ _ _ => inferInstanceAs (Decidable (σ.running = false))
  | .start _ _ | .accept _ | .serve _ | .exec _ _ | .background _ _ | .exit _ | .copyReturns
  | .die => isTrue trivial

/-- A process executed by `copy()` has a socket of the server open. -/
def Leaks (σ : Processes) : Prop :=
  ∃ c ∈ σ.children, c.executed = true ∧ ∃ f, f.isSocket = true ∧ c.table.Holds f

theorem free_iff : σ.free = true ↔ σ.alive = true ∧ σ.copying = none := by
  simp [free, Option.isNone_iff_eq_none]

/-- A step of the daemon that touches no child. -/
theorem Private.daemon (h : Private σ) (halive : σ.alive = true) (hlayout : Layout σ')
    (halive' : σ'.alive = σ.alive) (hchildren : σ'.children = σ.children) : Private σ' := by
  refine ⟨fun _ => hlayout, ?_, ?_⟩
  · rw [hchildren]
    exact h.children
  · intro hdead
    rw [halive', halive] at hdead
    cases hdead

/-- A step of a child. -/
theorem Private.child (h : Private σ) {children : List ChildProcess}
    (hchildren : ∀ c ∈ children, ∀ f, f.isSocket = true → ¬ c.table.Holds f) :
    Private { σ with children := children } := by
  refine ⟨?_, hchildren, h.dead⟩
  intro halive
  have hl := h.layout halive
  exact ⟨hl.stdio, hl.listening, hl.waking, hl.connected, hl.piped, hl.sockets, hl.quiescent⟩

theorem step_private (h : Private σ) (ha : σ.CopiesUnserved a) (hs : σ.step a = some σ') :
    Private σ' := by
  cases a with
  | start listenFd wakeFd =>
    simp only [step, Option.ite_none_right_eq_some, Option.map_eq_some_iff] at hs
    obtain ⟨⟨hfree, hrunning, hlisten, hwake, hne⟩, t, hstep, rfl⟩ := hs
    have halive := (free_iff.mp hfree).1
    exact h.daemon halive ((h.layout halive).start hrunning hlisten hwake hne hstep) rfl rfl
  | accept fd =>
    simp only [step, Option.ite_none_right_eq_some, Option.map_eq_some_iff] at hs
    obtain ⟨⟨hfree, hfd⟩, t, hstep, rfl⟩ := hs
    have halive := (free_iff.mp hfree).1
    exact h.daemon halive ((h.layout halive).accept hfd hstep) rfl rfl
  | serve b =>
    obtain ⟨hstart, haccept, hfree, t, hstep, rfl⟩ : b ≠ .start ∧ (∀ fd, b ≠ .accept fd) ∧
        σ.free = true ∧ ∃ t, σ.transport.step b = some t ∧
          { σ with transport := t, table := σ.table.close (σ.closedBy b) } = σ' := by
      cases b with
      | start => cases hs
      | accept fd => cases hs
      | stop | pollOnce | drained | read | scan | handled | finish | sendLine =>
        simp only [step, Option.ite_none_right_eq_some, Option.map_eq_some_iff] at hs
        exact ⟨by simp, by simp, hs⟩
    have halive := (free_iff.mp hfree).1
    exact h.daemon halive ((h.layout halive).serve hfree hstart haccept hstep) rfl rfl
  | copy pid readEnd writeEnd =>
    simp only [step, Option.ite_none_right_eq_some, Option.some.injEq] at hs
    obtain ⟨⟨hfree, hread, hwrite, hne, -⟩, rfl⟩ := hs
    have halive := (free_iff.mp hfree).1
    have hl := h.layout halive
    refine ⟨fun _ => hl.copy hread hwrite hne, ?_, ?_⟩
    · intro c hc f hsocket hholds
      rcases List.mem_cons.mp hc with rfl | hc
      · -- the table it copies has no socket in it
        obtain ⟨fd, d, hd, rfl⟩ := hholds
        have hrunning := (hl.sockets fd d (socket_of_pipedTable hd hsocket) hsocket).1
        rw [show σ.running = false from ha] at hrunning
        cases hrunning
      · exact h.children c hc f hsocket hholds
    · intro hdead
      rw [show σ.alive = false from hdead] at halive
      cases halive
  | exec pid devNull =>
    simp only [step] at hs
    split at hs
    · split at hs
      · cases hs
        refine h.child ?_
        intro c hc f hsocket hholds
        obtain ⟨c₀, hc₀, rfl⟩ := List.mem_map.mp hc
        split at hholds
        · exact h.children c₀ hc₀ f hsocket (ChildProcess.socket_of_exec hsocket hholds)
        · exact h.children c₀ hc₀ f hsocket hholds
      · cases hs
    · cases hs
  | background pid child =>
    simp only [step] at hs
    split at hs
    · rename_i c₀ hfind
      split at hs
      · cases hs
        refine h.child ?_
        intro c hc f hsocket hholds
        rcases List.mem_cons.mp hc with rfl | hc
        · exact h.children c₀ (List.mem_of_find?_eq_some hfind) f hsocket hholds
        · exact h.children c hc f hsocket hholds
      · cases hs
    · cases hs
  | exit pid =>
    cases hs
    exact h.child fun c hc => h.children c (List.mem_of_mem_filter hc)
  | copyReturns =>
    simp only [step] at hs
    split at hs
    · rename_i pid writeEnd hcopying
      simp only [Option.ite_none_right_eq_some, Option.some.injEq] at hs
      obtain ⟨⟨halive, -⟩, rfl⟩ := hs
      exact h.daemon halive ((h.layout halive).copyReturns hcopying) rfl rfl
    · cases hs
  | die =>
    cases hs
    refine ⟨fun halive => (by cases halive), h.children, ?_⟩
    intro _ f hholds
    obtain ⟨fd, d, hd, -⟩ := hholds
    cases hd

/-- A child forked while the server runs takes the listener into the
command. -/
theorem Layout.leaks {pid : ProcessId} {readEnd writeEnd : Nat} (h : Layout σ)
    (hrunning : σ.running = true) (hs : σ.step (.copy pid readEnd writeEnd) = some σ') :
    ∃ σ'', σ'.step (.exec pid none) = some σ'' ∧ Leaks σ'' := by
  simp only [step, Option.ite_none_right_eq_some, Option.some.injEq] at hs
  obtain ⟨⟨-, hread, hwrite, -, -⟩, hafter⟩ := hs
  obtain ⟨id, hid⟩ := h.listening hrunning
  have hstdin : σ.listenFd ≠ 0 := by
    intro hzero
    rw [hzero, h.stdio 0 (by decide)] at hid
    cases hid
  obtain ⟨c, hchildren, hpid, hexecuted, htable⟩ : ∃ c, σ'.children = c :: σ.children ∧
      c.pid = pid ∧ c.executed = false ∧ (c.exec none).table.Holds (.listener id) := by
    refine ⟨{ pid, table := σ.pipedTable readEnd writeEnd, readEnd, writeEnd }, ?_, rfl, rfl, ?_⟩
    · rw [← hafter]
      rfl
    · exact ChildProcess.exec_keeps (pipedTable_eq hread hwrite hid) hstdin
        (ne_of_unused hread hid) (ne_of_unused hwrite hid)
  refine ⟨σ'.updateChild pid (·.exec none), ?_, c.exec none, ?_, rfl, .listener id, rfl, htable⟩
  · simp [step, hchildren, hpid, hexecuted]
  · simp [updateChild, hchildren, hpid]

/-- In every run in which `copy()` forks only while the server is not
running, no child ever has a socket of the server open, a connection the
server closed reads end of file, and the path of a daemon that died is not
live. From a fork at any other time, the command is executed with the
listening socket. -/
theorem sockets_private {acts : List ProcessAct} (hrun : Lib.run step {} acts = some σ)
    (hcopies : Lib.Along step CopiesUnserved {} acts) :
    ¬ Leaks σ ∧
    (∀ id, ¬ σ.table.Holds (.connection id) → σ.SeesEndOfFile id) ∧
    (σ.alive = false → ∀ id, ¬ σ.IsSocketLive id) ∧
    ∀ a σ', σ.step a = some σ' → ¬ σ.CopiesUnserved a → ∃ b σ'', σ'.step b = some σ'' ∧
      Leaks σ'' := by
  have hinit : Private {} := by
    refine ⟨fun _ => init_layout, ?_, ?_⟩
    · intro c hc
      cases hc
    · intro hdead
      cases hdead
  have hprivate : Private σ :=
    Lib.run_along (fun _ _ _ h ha hs => step_private h ha hs) hinit hcopies hrun
  refine ⟨?_, ?_, ?_, ?_⟩
  · rintro ⟨c, hc, -, f, hsocket, hholds⟩
    exact hprivate.children c hc f hsocket hholds
  · rintro id hclosed (hholds | ⟨c, hc, hholds⟩)
    · exact hclosed hholds
    · exact hprivate.children c hc _ rfl hholds
  · rintro hdead id (hholds | ⟨c, hc, hholds⟩)
    · exact hprivate.dead hdead _ hholds
    · exact hprivate.children c hc _ rfl hholds
  · intro a σ' hs ha
    cases a with
    | copy pid readEnd writeEnd =>
      have hrunning : σ.running = true := by
        simpa [CopiesUnserved] using ha
      have hfree : σ.free = true := by
        simp only [step, Option.ite_none_right_eq_some] at hs
        exact hs.1.1
      obtain ⟨σ'', hexec, hleaks⟩ :=
        (hprivate.layout (free_iff.mp hfree).1).leaks hrunning hs
      exact ⟨_, σ'', hexec, hleaks⟩
    | start | accept | serve | exec | background | exit | copyReturns | die =>
      exact absurd trivial ha

/-- A text is copied before the server starts; the command stays in the
background when the daemon dies. -/
def copyFirst : List ProcessAct :=
  [.copy 100 3 4, .exec 100 (some 5), .background 100 101, .exit 100, .copyReturns, .start 3 4,
    .die]

theorem sockets_private_copy_first :
    ∃ σ, Lib.run step {} copyFirst = some σ ∧ σ.children.length = 1 ∧ σ.alive = false ∧
      ¬ σ.IsSocketLive 0 := by
  have hrun : Lib.run step {} copyFirst = some _ := rfl
  have hcopies : Lib.Along step CopiesUnserved {} copyFirst := by
    decide
  exact ⟨_, hrun, rfl, rfl, (sockets_private hrun hcopies).2.2.1 rfl 0⟩

/-- A client is connected when a text is copied; the server closes the
connection afterwards. -/
def copyWhileServing : List ProcessAct :=
  [.start 3 4, .serve (.pollOnce [] true), .accept 5, .serve .drained, .serve .finish,
    .copy 100 6 7, .exec 100 (some 6), .background 100 101, .exit 100, .copyReturns,
    .serve (.pollOnce [5] true), .serve .drained, .serve (.read .failed), .serve .finish]

/-- The command in the background holds both sockets: the closed connection
does not read end of file, and the path stays live when the daemon dies. -/
theorem sockets_inherited :
    ∃ σ, Lib.run step {} copyWhileServing = some σ ∧ Leaks σ ∧
      σ.table 5 = none ∧ ¬ σ.SeesEndOfFile 1 ∧
      ∃ σ', σ.step .die = some σ' ∧ σ'.alive = false ∧ σ'.IsSocketLive 0 := by
  have hrun : Lib.run step {} copyWhileServing = some _ := rfl
  refine ⟨_, hrun, ⟨_, List.mem_singleton.mpr rfl, rfl, .listener 0, rfl, 3, _, rfl, rfl⟩, rfl,
    ?_, _, rfl, rfl, .inr ⟨_, List.mem_singleton.mpr rfl, 3, _, rfl, rfl⟩⟩
  intro hend
  exact hend (.inr ⟨_, List.mem_singleton.mpr rfl, 5, _, rfl, rfl⟩)

end Processes

end YoruSpeech

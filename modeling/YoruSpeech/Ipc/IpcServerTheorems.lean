/-
YoruSpeech.Ipc.IpcServerTheorems — what the bytes on a connection are.

* `Transport.Move` lists the steps of the transport with their guards.
* `Transport.step_output` says once what a step can do to the outgoing
  half of a connection; everything below is derived from it.
* `accepted_isPrefix`: as long as the kernel refuses every write to a
  client that is already waiting to be disconnected, the bytes it accepted
  for a connection are a prefix of the requested lines.
* `accepted_not_isPrefix`: `send_line` does not check
  `pending_disconnects`, so a client that reads some bytes after a failed
  write receives a cut line with a later line right behind it.
-/
import YoruSpeech.Ipc.IpcServer

namespace YoruSpeech

namespace IpcServer

/-! ## The registry -/

theorem contains_iff {s : IpcServer} {fd : ClientId} : s.contains fd = true ↔ fd ∈ s.clients := by
  simp [contains]

@[simp] theorem clients_setBuffer (s : IpcServer) (fd : ClientId) (bytes : Bytes) :
    (s.setBuffer fd bytes).clients = s.clients := by
  simp only [clients, setBuffer, List.map_map]
  refine List.map_congr_left ?_
  intro entry _
  by_cases h : entry.1 = fd <;> simp [h]

@[simp] theorem clients_append (s : IpcServer) (fd : ClientId) (chunk : Bytes) :
    (s.append fd chunk).clients = s.clients := by
  simp [append]

@[simp] theorem clients_addClient (s : IpcServer) (fd : ClientId) :
    (s.addClient fd).clients = s.clients ++ [fd] := by
  simp [addClient, clients]

theorem mem_clients_close {s : IpcServer} {fd x : ClientId} :
    x ∈ (s.close fd).clients ↔ x ∈ s.clients ∧ x ≠ fd := by
  simp only [close, clients, List.mem_map, List.mem_filter, decide_eq_true_eq]
  constructor
  · rintro ⟨entry, ⟨hmem, hne⟩, rfl⟩
    exact ⟨⟨entry, hmem, rfl⟩, hne⟩
  · rintro ⟨⟨entry, hmem, rfl⟩, hne⟩
    exact ⟨entry, ⟨hmem, hne⟩, rfl⟩

theorem mem_clients_disconnect {x : ClientId} :
    ∀ {fds : List ClientId} {s : IpcServer},
      x ∈ (s.disconnect fds).1.clients ↔ x ∈ s.clients ∧ x ∉ fds
  | [], s => by simp [disconnect]
  | fd :: rest, s => by
      unfold disconnect
      by_cases h : s.contains fd = true
      · rw [if_pos h, mem_clients_disconnect, mem_clients_close]
        simp only [List.mem_cons, not_or]
        exact and_assoc
      · rw [if_neg h, mem_clients_disconnect]
        have hfd : fd ∉ s.clients := fun hmem => h (contains_iff.mpr hmem)
        constructor
        · rintro ⟨hx, hrest⟩
          refine ⟨hx, ?_⟩
          rw [List.mem_cons, not_or]
          exact ⟨fun heq => hfd (heq ▸ hx), hrest⟩
        · rintro ⟨hx, hall⟩
          exact ⟨hx, fun hmem => hall (List.mem_cons_of_mem fd hmem)⟩

@[simp] theorem pendingDisconnects_disconnect :
    ∀ (fds : List ClientId) (s : IpcServer),
      (s.disconnect fds).1.pendingDisconnects = s.pendingDisconnects
  | [], s => rfl
  | fd :: rest, s => by
      unfold disconnect
      split
      · exact pendingDisconnects_disconnect rest (s.close fd)
      · exact pendingDisconnects_disconnect rest s

/-- The start of `poll_once` leaves no doomed client registered. -/
theorem mem_clients_flush {s : IpcServer} {x : ClientId} :
    x ∈ s.flush.1.clients ↔ x ∈ s.clients ∧ x ∉ s.pendingDisconnects := by
  show x ∈ (s.disconnect s.pendingDisconnects).1.clients ↔ _
  exact mem_clients_disconnect

@[simp] theorem clients_giveUp (s : IpcServer) (fd : ClientId) :
    (s.giveUp fd).clients = s.clients := by
  unfold giveUp
  split <;> rfl

theorem mem_pendingDisconnects_giveUp {s : IpcServer} {fd x : ClientId} :
    x ∈ (s.giveUp fd).pendingDisconnects ↔ x ∈ s.pendingDisconnects ∨ x = fd := by
  unfold giveUp
  by_cases h : fd ∈ s.pendingDisconnects
  · rw [if_pos h]
    exact ⟨Or.inl, fun hx => hx.elim id (fun heq => heq ▸ h)⟩
  · rw [if_neg h]
    simp

/-! ## The write loop -/

/-- The loop writes a prefix of its data, all of it unless it gave up. -/
theorem writeLoop_isPrefix {data : Bytes} {answers : List WriteResult} {taken : Bytes}
    {complete : Bool} (h : writeLoop data answers = some (taken, complete)) :
    taken <+: data ∧ (complete = true → taken = data) := by
  induction data, answers using writeLoop.induct generalizing taken complete with
  | case1 answers =>
    simp only [writeLoop, Option.some.injEq, Prod.mk.injEq] at h
    obtain ⟨rfl, rfl⟩ := h
    exact ⟨List.prefix_rfl, fun _ => rfl⟩
  | case2 => simp [writeLoop] at h
  | case3 data rest hne ih =>
    rw [writeLoop] at h
    · exact ih h
    · exact hne
  | case4 data rest hne =>
    simp only [writeLoop, Option.some.injEq, Prod.mk.injEq] at h
    obtain ⟨rfl, rfl⟩ := h
    exact ⟨List.nil_prefix, nofun⟩
  | case5 data rest hne =>
    simp only [writeLoop, Option.some.injEq, Prod.mk.injEq] at h
    obtain ⟨rfl, rfl⟩ := h
    exact ⟨List.nil_prefix, nofun⟩
  | case6 data count rest hne ih =>
    simp only [writeLoop, Option.map_eq_some_iff, Prod.mk.injEq, Prod.exists] at h
    obtain ⟨more, complete, hrest, rfl, rfl⟩ := h
    obtain ⟨hinitial, hall⟩ := ih hrest
    refine ⟨?_, fun hc => ?_⟩
    · have := (List.prefix_append_right_inj (data.take (count + 1))).mpr hinitial
      rwa [List.take_append_drop] at this
    · rw [hall hc, List.take_append_drop]

/-- The first answer other than `EINTR` takes no byte. -/
def refuses : List WriteResult → Bool
  | [] => true
  | .interrupted :: rest => refuses rest
  | .failed :: _ => true
  | .accepted count :: _ => count = 0

theorem writeLoop_of_refuses {data : Bytes} {answers : List WriteResult} {taken : Bytes}
    {complete : Bool} (hr : refuses answers = true)
    (h : writeLoop data answers = some (taken, complete)) : taken = [] := by
  induction data, answers using writeLoop.induct with
  | case1 answers =>
    simp only [writeLoop, Option.some.injEq, Prod.mk.injEq] at h
    exact h.1.symm
  | case2 => simp [writeLoop] at h
  | case3 data rest hne ih =>
    rw [writeLoop] at h
    · exact ih hr h
    · exact hne
  | case4 data rest hne | case5 data rest hne =>
    simp only [writeLoop, Option.some.injEq, Prod.mk.injEq] at h
    exact h.1.symm
  | case6 data count rest hne ih => simp [refuses] at hr

end IpcServer

/-! ## The outgoing half of a connection -/

/-- The lines as they should appear on the wire. -/
def wireOf (lines : List Bytes) : Bytes := lines.flatMap (· ++ [newline])

theorem wireOf_append (lines : List Bytes) (line : Bytes) :
    wireOf (lines ++ [line]) = wireOf lines ++ (line ++ [newline]) := by
  simp [wireOf]

namespace Transport

/-- The client is connected and no write to it has failed. -/
def Healthy (t : Transport) (fd : ClientId) : Prop :=
  fd ∈ t.server.clients ∧ fd ∉ t.server.pendingDisconnects

@[simp] theorem record_server (t : Transport) (fd : ClientId) (f : Connection → Connection) :
    (t.record fd f).server = t.server := rfl

theorem record_same (t : Transport) (fd : ClientId) (f : Connection → Connection) :
    (t.record fd f).connection fd = f (t.connection fd) := by
  simp [record]

theorem record_other (t : Transport) {fd x : ClientId} (f : Connection → Connection) (h : x ≠ fd) :
    (t.record fd f).connection x = t.connection x := by
  simp [record, h]

/-- The steps of the transport, one constructor a branch of `step`. -/
inductive Move (t : Transport) : TransportAct → Transport → Prop
  | start : t.phase = .outside → Move t .start { t with server := t.server.start }
  | stop : t.phase = .outside → Move t .stop { t with server := t.server.stop }
  -- `poll_once` returns at once when the server does not run
  | skip (order : List ClientId) (active : Bool) : t.phase = .outside →
      ¬ t.server.running = true → Move t (.pollOnce order active) t
  | poll (order : List ClientId) (active : Bool) : t.phase = .outside →
      t.server.running = true → order.Perm t.server.flush.1.clients →
      Move t (.pollOnce order active) { t with
        server := t.server.flush.1
        phase := if active then .accepting order else .outside }
  | accept (fd : ClientId) (polled : List ClientId) : t.phase = .accepting polled →
      fd ∉ t.server.clients →
      Move t (.accept fd) ({ t with server := t.server.addClient fd }.record fd fun _ => {})
  | drained (polled : List ClientId) : t.phase = .accepting polled →
      Move t .drained { t with phase := .reading polled [] }
  | read (fd : ClientId) (todo disconnected : List ClientId) (result : ReadResult)
      (t' : Transport) : t.phase = .reading (fd :: todo) disconnected →
      t.readClient fd todo disconnected result = some t' → Move t (.read result) t'
  | scan (fd : ClientId) (todo disconnected : List ClientId) :
      t.phase = .scanning fd todo disconnected →
      Move t .scan (t.scanBuffer fd todo disconnected)
  | handled (fd : ClientId) (todo disconnected : List ClientId) :
      t.phase = .handling fd todo disconnected →
      Move t .handled { t with phase := .scanning fd todo disconnected }
  | finish (disconnected : List ClientId) : t.phase = .reading [] disconnected →
      Move t .finish { t with
        server := (t.server.disconnect disconnected).1
        phase := .outside }
  | sendLine (fd : ClientId) (line : Bytes) (answers : List WriteResult) (t' : Transport) :
      maySend t.phase = true → t.send fd line answers = some t' →
      Move t (.sendLine fd line answers) t'

/-- Every step is a move. -/
theorem step_move {t t' : Transport} {a : TransportAct} (h : t.step a = some t') :
    Move t a t' := by
  cases a with
  | start =>
    simp only [step, Option.ite_none_right_eq_some, Option.some.injEq] at h
    obtain ⟨hphase, rfl⟩ := h
    exact .start hphase
  | stop =>
    simp only [step, Option.ite_none_right_eq_some, Option.some.injEq] at h
    obtain ⟨hphase, rfl⟩ := h
    exact .stop hphase
  | pollOnce order active =>
    simp only [step] at h
    split at h
    · rename_i hphase
      split at h
      · rename_i hrunning
        split at h
        · rename_i hperm
          cases h
          exact .poll order active hphase hrunning (List.isPerm_iff.mp hperm)
        · cases h
      · rename_i hrunning
        cases h
        exact .skip order active hphase hrunning
    · cases h
  | accept fd =>
    simp only [step] at h
    split at h
    · rename_i polled hphase
      split at h
      · cases h
      · rename_i hnew
        cases h
        exact .accept fd polled hphase fun hmem => hnew (IpcServer.contains_iff.mpr hmem)
    · cases h
  | drained =>
    simp only [step] at h
    split at h
    · rename_i polled hphase
      cases h
      exact .drained polled hphase
    · cases h
  | read result =>
    simp only [step] at h
    split at h
    · rename_i fd todo disconnected hphase
      exact .read fd todo disconnected result t' hphase h
    · cases h
  | scan =>
    simp only [step] at h
    split at h
    · rename_i fd todo disconnected hphase
      cases h
      exact .scan fd todo disconnected hphase
    · cases h
  | handled =>
    simp only [step] at h
    split at h
    · rename_i fd todo disconnected hphase
      cases h
      exact .handled fd todo disconnected hphase
    · cases h
  | finish =>
    simp only [step] at h
    split at h
    · rename_i disconnected hphase
      cases h
      exact .finish disconnected hphase
    · cases h
  | sendLine fd line answers =>
    simp only [step, Option.ite_none_right_eq_some] at h
    exact .sendLine fd line answers t' h.1 h.2

/-- What a step can do to the outgoing half of a descriptor's connection. -/
inductive Output (t t' : Transport) (a : TransportAct) (fd : ClientId) : Prop
  /-- Nothing; the client is healthy only if it was. -/
  | silent
      (hrequested : (t'.connection fd).requested = (t.connection fd).requested)
      (haccepted : (t'.connection fd).accepted = (t.connection fd).accepted)
      (hhealthy : t'.Healthy fd → t.Healthy fd)
  /-- A new connection took the descriptor. -/
  | opened (h : t'.connection fd = {})
  /-- `send_line` wrote to the client. -/
  | sent (line : Bytes) (answers : List WriteResult) (taken : Bytes) (complete : Bool)
      (hact : a = .sendLine fd line answers)
      (hconnected : fd ∈ t.server.clients)
      (hloop : IpcServer.writeLoop (line ++ [newline]) answers = some (taken, complete))
      (hrequested : (t'.connection fd).requested = (t.connection fd).requested ++ [line])
      (haccepted : (t'.connection fd).accepted = (t.connection fd).accepted ++ taken)
      (hhealthy : t'.Healthy fd → complete = true ∧ t.Healthy fd)

/-- A step that changes no registration and writes nothing. -/
theorem Output.same {t t' : Transport} {a : TransportAct} {fd : ClientId}
    (hrequested : (t'.connection fd).requested = (t.connection fd).requested)
    (haccepted : (t'.connection fd).accepted = (t.connection fd).accepted)
    (hclients : t'.server.clients = t.server.clients)
    (hpending : t'.server.pendingDisconnects = t.server.pendingDisconnects) : Output t t' a fd := by
  refine .silent hrequested haccepted ?_
  rintro ⟨hmem, hnot⟩
  exact ⟨hclients ▸ hmem, hpending ▸ hnot⟩

/-- Recording something else than a write. -/
theorem record_outgoing (t : Transport) (fd x : ClientId) (f : Connection → Connection)
    (hf : ∀ c, (f c).requested = c.requested ∧ (f c).accepted = c.accepted) :
    ((t.record fd f).connection x).requested = (t.connection x).requested ∧
      ((t.record fd f).connection x).accepted = (t.connection x).accepted := by
  by_cases h : x = fd
  · subst h
    rw [record_same]
    exact hf _
  · rw [record_other t f h]
    exact ⟨rfl, rfl⟩

theorem send_output {t t' : Transport} {fd : ClientId} {line : Bytes}
    {answers : List WriteResult} (h : t.send fd line answers = some t') (x : ClientId) :
    Output t t' (.sendLine fd line answers) x := by
  unfold send IpcServer.sendLine at h
  by_cases hc : t.server.contains fd = true
  · simp only [hc, if_true, Option.map_map, Option.map_eq_some_iff, Prod.exists,
      Function.comp_apply] at h
    obtain ⟨taken, complete, hloop, rfl⟩ := h
    -- what the health of `x` afterwards says, whether or not the loop gave up
    have hhealthy : ∀ y, y ∈ (if complete then t.server else t.server.giveUp fd).clients ∧
        y ∉ (if complete then t.server else t.server.giveUp fd).pendingDisconnects →
        (y = fd → complete = true) ∧ t.Healthy y := by
      rintro y ⟨hmem, hnot⟩
      cases complete with
      | true => exact ⟨fun _ => rfl, hmem, hnot⟩
      | false =>
        simp only [Bool.false_eq_true, if_false, IpcServer.clients_giveUp,
          IpcServer.mem_pendingDisconnects_giveUp, not_or] at hmem hnot
        exact ⟨fun heq => absurd heq hnot.2, hmem, hnot.1⟩
    by_cases hx : x = fd
    · subst hx
      refine .sent line answers taken complete rfl (IpcServer.contains_iff.mp hc) hloop ?_ ?_ ?_
      · rw [record_same]
      · rw [record_same]
      · intro hh
        obtain ⟨hcomplete, hbefore⟩ := hhealthy x hh
        exact ⟨hcomplete rfl, hbefore⟩
    · refine .silent ?_ ?_ ?_
      · rw [record_other _ _ hx]
      · rw [record_other _ _ hx]
      · intro hh
        exact (hhealthy x hh).2
  · simp only [hc, if_false, Option.map_some, Option.some.injEq, Bool.false_eq_true] at h
    subst h
    exact .same rfl rfl rfl rfl

theorem readClient_output {t t' : Transport} {fd : ClientId} {todo disconnected : List ClientId}
    {result : ReadResult} (h : t.readClient fd todo disconnected result = some t')
    (a : TransportAct) (x : ClientId) : Output t t' a x := by
  cases result with
  | nothing | endOfFile | failed =>
    simp only [readClient, Option.some.injEq] at h
    subst h
    exact .same rfl rfl rfl rfl
  | data chunk =>
    simp only [readClient] at h
    split at h
    · simp only [Option.some.injEq] at h
      subst h
      obtain ⟨hreq, hacc⟩ := record_outgoing { t with
        server := t.server.append fd chunk
        phase := .scanning fd todo disconnected } fd x
          (fun c => { c with received := c.received ++ chunk }) (fun _ => ⟨rfl, rfl⟩)
      exact .same hreq hacc (IpcServer.clients_append _ _ _) rfl
    · cases h

theorem scanBuffer_output (t : Transport) (fd : ClientId) (todo disconnected : List ClientId)
    (a : TransportAct) (x : ClientId) : Output t (t.scanBuffer fd todo disconnected) a x := by
  unfold scanBuffer
  split
  · rename_i line rest _
    obtain ⟨hreq, hacc⟩ := record_outgoing { t with
      server := t.server.setBuffer fd rest
      phase := .handling fd todo disconnected } fd x
        (fun c => { c with delivered := c.delivered ++ [line] }) (fun _ => ⟨rfl, rfl⟩)
    exact .same hreq hacc (IpcServer.clients_setBuffer _ _ _) rfl
  · split
    · exact .same rfl rfl rfl rfl
    · exact .same rfl rfl rfl rfl

/-- What one step does to the outgoing half of any connection. -/
theorem step_output {t t' : Transport} {a : TransportAct} (h : t.step a = some t')
    (x : ClientId) : Output t t' a x := by
  cases step_move h with
  | start | skip | drained | handled => exact .same rfl rfl rfl rfl
  | stop =>
    refine .silent rfl rfl ?_
    rintro ⟨hmem, hnot⟩
    simp only [IpcServer.stop] at hmem hnot
    split at hmem
    · cases hmem
    · rename_i hrunning
      rw [if_neg hrunning] at hnot
      exact ⟨hmem, hnot⟩
  | poll order active hphase hrunning hperm =>
    refine .silent rfl rfl ?_
    rintro ⟨hmem, -⟩
    exact IpcServer.mem_clients_flush.mp hmem
  | accept fd polled hphase hnew =>
    by_cases hx : x = fd
    · subst hx
      exact .opened (record_same _ _ _)
    · refine .silent ?_ ?_ ?_
      · rw [record_other _ _ hx]
      · rw [record_other _ _ hx]
      · rintro ⟨hmem, hnot⟩
        simp only [record_server, IpcServer.clients_addClient, List.mem_append,
          List.mem_singleton] at hmem
        exact ⟨hmem.resolve_right hx, hnot⟩
  | read fd todo disconnected result _ hphase hread => exact readClient_output hread _ x
  | scan fd todo disconnected hphase => exact scanBuffer_output _ _ _ _ _ _
  | finish disconnected hphase =>
    refine .silent rfl rfl ?_
    rintro ⟨hmem, hnot⟩
    simp only [IpcServer.pendingDisconnects_disconnect] at hnot
    exact ⟨(IpcServer.mem_clients_disconnect.mp hmem).1, hnot⟩
  | sendLine fd line answers _ hmay hsend => exact send_output hsend x

/-! ## Stream integrity -/

/-- The bytes accepted on a connection are a prefix of the requested lines,
and all of them while no write has failed. -/
structure Clean (t : Transport) (fd : ClientId) : Prop where
  isPrefix : (t.connection fd).accepted <+: wireOf (t.connection fd).requested
  whole : t.Healthy fd → (t.connection fd).accepted = wireOf (t.connection fd).requested

/-- A write to a connected client that already waits to be disconnected
takes no byte. -/
def Refused (t : Transport) : TransportAct → Prop
  | .sendLine fd _ answers =>
    t.server.contains fd = true → fd ∈ t.server.pendingDisconnects →
      IpcServer.refuses answers = true
  | _ => True

instance (t : Transport) : ∀ a, Decidable (t.Refused a)
  | .sendLine fd _ answers =>
    inferInstanceAs (Decidable (t.server.contains fd = true →
      fd ∈ t.server.pendingDisconnects → IpcServer.refuses answers = true))
  | .start | .stop | .pollOnce _ _ | .accept _ | .drained | .read _ | .scan | .handled
  | .finish => isTrue trivial

theorem init_clean (fd : ClientId) : Clean {} fd :=
  ⟨List.prefix_rfl, fun _ => rfl⟩

/-- One step keeps a connection clean, unless it writes to a doomed client. -/
theorem step_clean {t t' : Transport} {a : TransportAct} {fd : ClientId} (hc : t.Clean fd)
    (hr : t.Refused a) (h : t.step a = some t') : t'.Clean fd := by
  cases step_output h fd with
  | silent hrequested haccepted hhealthy =>
    refine ⟨?_, fun hh => ?_⟩
    · rw [hrequested, haccepted]
      exact hc.isPrefix
    · rw [hrequested, haccepted]
      exact hc.whole (hhealthy hh)
  | opened h =>
    refine ⟨?_, fun _ => ?_⟩
    · rw [h]
      exact List.prefix_rfl
    · rw [h]
      rfl
  | sent line answers taken complete hact hconnected hloop hrequested haccepted hhealthy =>
    obtain ⟨hinitial, hall⟩ := IpcServer.writeLoop_isPrefix hloop
    refine ⟨?_, fun hh => ?_⟩
    · rw [hrequested, haccepted, wireOf_append]
      by_cases hp : fd ∈ t.server.pendingDisconnects
      · -- the cut stays the last thing on the wire
        subst hact
        have hnone : taken = [] :=
          IpcServer.writeLoop_of_refuses (hr (IpcServer.contains_iff.mpr hconnected) hp) hloop
        rw [hnone, List.append_nil]
        exact hc.isPrefix.trans (List.prefix_append _ _)
      · rw [hc.whole ⟨hconnected, hp⟩]
        exact (List.prefix_append_right_inj _).mpr hinitial
    · obtain ⟨hcomplete, hbefore⟩ := hhealthy hh
      rw [hrequested, haccepted, wireOf_append, hc.whole hbefore, hall hcomplete]

/-- In every run in which each write to a client that waits to be
disconnected is refused, the bytes the kernel accepted on any connection
are a prefix of the lines `send_line` was called with, in call order. -/
theorem accepted_isPrefix {acts : List TransportAct} {t : Transport}
    (hrun : Lib.run step {} acts = some t) (hrefused : Lib.Along step Refused {} acts)
    (fd : ClientId) :
    (t.connection fd).accepted <+: wireOf (t.connection fd).requested := by
  have hclean : t.Clean fd :=
    Lib.run_along (Q := fun t => t.Clean fd) (fun _ _ _ hc hr h => step_clean hc hr h)
      (init_clean fd) hrefused hrun
  exact hclean.isPrefix

/-- One client connects and is sent `ab` and `c`; the kernel answers the
writes as given. -/
def twoSends (first second : List WriteResult) : List TransportAct :=
  [.start, .pollOnce [] true, .accept 5, .drained, .finish,
    .sendLine 5 [97, 98] first, .sendLine 5 [99] second]

/-- A client that stays full after a short write keeps the cut line last. -/
theorem accepted_isPrefix_full_client :
    ∃ t, Lib.run step {} (twoSends [.accepted 1, .failed] [.interrupted, .failed]) = some t ∧
      (t.connection 5).accepted = [97] ∧
      (t.connection 5).accepted <+: wireOf (t.connection 5).requested := by
  have hrefused : Lib.Along step Refused {}
      (twoSends [.accepted 1, .failed] [.interrupted, .failed]) := by
    decide
  exact ⟨_, rfl, rfl, accepted_isPrefix rfl hrefused 5⟩

/-- A client that reads on after a short write gets `a`, then the whole
next line. -/
theorem accepted_not_isPrefix :
    ¬ ∀ (acts : List TransportAct) (t : Transport), Lib.run step {} acts = some t →
      ∀ fd, (t.connection fd).accepted <+: wireOf (t.connection fd).requested := by
  intro hall
  have hrun := hall (twoSends [.accepted 1, .failed] [.accepted 2]) _ rfl 5
  revert hrun
  decide

end Transport

end YoruSpeech

/-
YoruSpeech.Ipc.FramingTheorems — how the bytes of a connection become
lines.

* `Polled` — the registry has no descriptor twice, and the clients
  `poll_once` still has to visit are distinct connected ones.
* `Framed` — what was read on a connection is the delivered lines, each
  closed by a newline, followed by what the buffer holds; outside the loop
  over the lines of that client the buffer has no newline, and it stays
  below the limit unless the client is about to be disconnected.
* `line_framing` puts the two together, for every way the streams are cut
  into chunks and interleaved.
-/
import YoruSpeech.Ipc.IpcServerTheorems
import YoruSpeech.Lib.Lines

namespace YoruSpeech

open Lib (Lines)

/-! ## Buffers -/

namespace IpcServer

variable {s : IpcServer} {fd x : ClientId}

theorem lookup_eq_none_of_not_mem (h : fd ∉ s.clients) : s.readBuffers.lookup fd = none := by
  rw [List.lookup_eq_none_iff]
  intro entry hentry
  simp only [bne_iff_ne, ne_eq]
  rintro rfl
  exact h (List.mem_map_of_mem hentry)

theorem buffer_setBuffer_self (h : fd ∈ s.clients) (bytes : Bytes) :
    (s.setBuffer fd bytes).buffer fd = bytes := by
  unfold buffer setBuffer
  unfold clients at h
  generalize s.readBuffers = entries at h
  induction entries with
  | nil => cases h
  | cons entry rest ih =>
    obtain ⟨key, value⟩ := entry
    by_cases hkey : key = fd
    · simp [hkey]
    · have hrest : fd ∈ rest.map Prod.fst := (List.mem_cons.mp h).resolve_left (Ne.symm hkey)
      have hne : (fd == key) = false := by simpa using Ne.symm hkey
      simpa [hkey, List.lookup_cons, hne] using ih hrest

/-- A change of the entries of one client is not seen under another key. -/
theorem lookup_filterMap_other {entries : List (ClientId × Bytes)}
    {change : ClientId × Bytes → Option (ClientId × Bytes)} (h : x ≠ fd)
    (hother : ∀ entry, entry.1 ≠ fd → change entry = some entry)
    (hself : ∀ entry entry', entry.1 = fd → change entry = some entry' → entry'.1 = fd) :
    (entries.filterMap change).lookup x = entries.lookup x := by
  have hne : (x == fd) = false := by simpa using h
  induction entries with
  | nil => rfl
  | cons entry rest ih =>
    obtain ⟨key, value⟩ := entry
    by_cases hkey : key = fd
    · cases hchange : change (key, value) with
      | none => rw [List.filterMap_cons_none hchange, List.lookup_cons, hkey, hne, ih]
      | some entry' =>
        have hkey' : entry'.1 = fd := hself _ _ hkey hchange
        rw [List.filterMap_cons_some hchange, List.lookup_cons, List.lookup_cons, hkey, hkey', hne,
          ih]
    · rw [List.filterMap_cons_some (hother _ hkey), List.lookup_cons, List.lookup_cons, ih]

theorem buffer_setBuffer_other (h : x ≠ fd) (bytes : Bytes) :
    (s.setBuffer fd bytes).buffer x = s.buffer x := by
  unfold buffer setBuffer
  rw [← List.filterMap_eq_map, lookup_filterMap_other h]
  · intro entry hentry
    simp [hentry]
  · intro entry entry' hentry heq
    simp only [Function.comp_apply, hentry, if_true, Option.some.injEq] at heq
    rw [← heq]

theorem buffer_addClient_self (h : fd ∉ s.clients) : (s.addClient fd).buffer fd = [] := by
  simp [buffer, addClient, List.lookup_append, lookup_eq_none_of_not_mem h]

theorem buffer_addClient_other (h : x ≠ fd) : (s.addClient fd).buffer x = s.buffer x := by
  have hne : (x == fd) = false := by simpa using h
  simp [buffer, addClient, List.lookup_append, List.lookup_cons, hne]

theorem buffer_close_other (h : x ≠ fd) : (s.close fd).buffer x = s.buffer x := by
  unfold buffer close
  rw [← List.filterMap_eq_filter, lookup_filterMap_other h]
  · intro entry hentry
    simp [Option.guard, hentry]
  · intro entry entry' hentry heq
    simp [Option.guard, hentry] at heq

theorem buffer_disconnect : ∀ {fds : List ClientId} {s : IpcServer}, x ∉ fds →
    (s.disconnect fds).1.buffer x = s.buffer x
  | [], s, _ => rfl
  | fd :: rest, s, h => by
      have hx : x ≠ fd := fun heq => h (heq ▸ List.mem_cons_self)
      have hrest : x ∉ rest := fun hm => h (List.mem_cons_of_mem _ hm)
      unfold disconnect
      split
      · exact (buffer_disconnect hrest).trans (buffer_close_other hx)
      · exact buffer_disconnect hrest

theorem buffer_flush (h : x ∉ s.pendingDisconnects) : s.flush.1.buffer x = s.buffer x :=
  buffer_disconnect h

@[simp] theorem buffer_giveUp (s : IpcServer) (fd x : ClientId) :
    (s.giveUp fd).buffer x = s.buffer x := by
  unfold giveUp
  split <;> rfl

theorem clients_sublist_disconnect :
    ∀ (fds : List ClientId) (s : IpcServer), (s.disconnect fds).1.clients.Sublist s.clients
  | [], s => List.Sublist.refl _
  | fd :: rest, s => by
      unfold disconnect
      split
      · have hclose : (s.close fd).clients.Sublist s.clients :=
          List.Sublist.map _ List.filter_sublist
        exact (clients_sublist_disconnect rest (s.close fd)).trans hclose
      · exact clients_sublist_disconnect rest s

/-- `splitLine` cuts at the first newline. -/
theorem splitLine_some {data line rest : Bytes} (h : splitLine data = some (line, rest)) :
    data = line ++ newline :: rest ∧ newline ∉ line := by
  induction data generalizing line with
  | nil => cases h
  | cons b more ih =>
    unfold splitLine at h
    split at h
    · rename_i hb
      cases h
      exact ⟨by rw [hb]; rfl, by simp⟩
    · rename_i hb
      obtain ⟨⟨line', rest'⟩, hmore, hpair⟩ := Option.map_eq_some_iff.mp h
      cases hpair
      obtain ⟨rfl, hnot⟩ := ih hmore
      exact ⟨rfl, by simp [Ne.symm hb, hnot]⟩

theorem splitLine_eq_none {data : Bytes} : splitLine data = none ↔ newline ∉ data := by
  induction data with
  | nil => simp [splitLine]
  | cons b more ih =>
    unfold splitLine
    by_cases hb : b = newline
    · simp [hb]
    · simp [hb, Ne.symm hb, ih]

end IpcServer

/-! ## Who is being polled -/

namespace PollPhase

/-- The clients this call of `poll_once` has still to deal with. -/
def polled : PollPhase → List ClientId
  | .outside => []
  | .accepting polled => polled
  | .reading todo disconnected => todo ++ disconnected
  | .scanning fd todo disconnected => fd :: (todo ++ disconnected)
  | .handling fd todo disconnected => fd :: (todo ++ disconnected)

/-- The loop over the lines of this client is running. -/
def busyWith (fd : ClientId) : PollPhase → Bool
  | .scanning x _ _ => x == fd
  | .handling x _ _ => x == fd
  | _ => false

end PollPhase

namespace Transport

variable {t t' : Transport} {a : TransportAct} {fd : ClientId} {rest : Bytes}

structure Polled (t : Transport) : Prop where
  registry : t.server.clients.Nodup
  distinct : t.phase.polled.Nodup
  connected : ∀ fd ∈ t.phase.polled, fd ∈ t.server.clients

/-- A step that keeps the registry and visits no new client. -/
theorem Polled.frame (h : Polled t) (hclients : t'.server.clients = t.server.clients)
    (hpolled : t'.phase.polled.Nodup) (hsub : ∀ x ∈ t'.phase.polled, x ∈ t.phase.polled) :
    Polled t' :=
  ⟨hclients ▸ h.registry, hpolled, fun x hx => hclients ▸ h.connected x (hsub x hx)⟩

/-- A step out of `poll_once`, or into it. -/
theorem Polled.shrink (h : Polled t) (hclients : t'.server.clients.Sublist t.server.clients)
    (hpolled : t'.phase.polled = []) : Polled t' := by
  refine ⟨h.registry.sublist hclients, ?_, ?_⟩
  · rw [hpolled]
    exact List.nodup_nil
  · intro x hx
    rw [hpolled] at hx
    cases hx

theorem clients_send {line : Bytes} {answers : List WriteResult}
    (h : t.send fd line answers = some t') :
    t'.server.clients = t.server.clients ∧ (∀ x, t'.server.buffer x = t.server.buffer x) ∧
      t'.phase = t.phase ∧ ∀ x, (t'.connection x).received = (t.connection x).received ∧
        (t'.connection x).delivered = (t.connection x).delivered := by
  unfold send IpcServer.sendLine at h
  by_cases hc : t.server.contains fd = true
  · simp only [hc, if_true, Option.map_map, Option.map_eq_some_iff, Prod.exists,
      Function.comp_apply] at h
    obtain ⟨taken, complete, -, rfl⟩ := h
    refine ⟨?_, ?_, rfl, ?_⟩
    · cases complete <;> simp [record]
    · intro x
      cases complete <;> simp [record]
    · intro x
      by_cases hx : x = fd
      · subst hx
        rw [record_same]
        exact ⟨rfl, rfl⟩
      · rw [record_other _ _ hx]
        exact ⟨rfl, rfl⟩
  · simp only [hc, if_false, Option.map_some, Option.some.injEq, Bool.false_eq_true] at h
    subst h
    exact ⟨rfl, fun _ => rfl, rfl, fun _ => ⟨rfl, rfl⟩⟩

theorem readClient_polled {todo disconnected : List ClientId} {result : ReadResult}
    (hphase : t.phase = .reading (fd :: todo) disconnected) (hp : Polled t)
    (h : t.readClient fd todo disconnected result = some t') : Polled t' := by
  have hnodup := hp.distinct
  rw [hphase] at hnodup
  have hsub : ∀ x ∈ todo ++ disconnected, x ∈ t.phase.polled := by
    intro x hx
    rw [hphase]
    exact List.mem_cons_of_mem fd hx
  have hmove : (todo ++ (disconnected ++ [fd])).Nodup := by
    rw [← List.append_assoc]
    exact (List.perm_append_singleton fd (todo ++ disconnected)).nodup_iff.mpr hnodup
  have hmoved : ∀ x ∈ todo ++ (disconnected ++ [fd]), x ∈ t.phase.polled := by
    intro x hx
    rw [hphase]
    rw [← List.append_assoc] at hx
    exact (List.perm_append_singleton fd (todo ++ disconnected)).mem_iff.mp hx
  cases result with
  | nothing =>
    cases h
    exact hp.frame rfl (List.nodup_cons.mp hnodup).2 hsub
  | endOfFile =>
    cases h
    exact hp.frame rfl hmove hmoved
  | failed =>
    cases h
    exact hp.frame rfl hmove hmoved
  | data chunk =>
    simp only [readClient] at h
    split at h
    · cases h
      refine hp.frame (IpcServer.clients_append _ _ _) hnodup ?_
      intro x hx
      rw [hphase]
      exact hx
    · cases h

theorem scanBuffer_polled {todo disconnected : List ClientId}
    (hphase : t.phase = .scanning fd todo disconnected) (hp : Polled t) :
    Polled (t.scanBuffer fd todo disconnected) := by
  have hdistinct := hp.distinct
  rw [hphase] at hdistinct
  unfold scanBuffer
  split
  · refine hp.frame (IpcServer.clients_setBuffer _ _ _) hdistinct ?_
    intro x hx
    rw [hphase]
    exact hx
  · split
    · refine hp.frame rfl ?_ ?_
      · show (todo ++ (disconnected ++ [fd])).Nodup
        rw [← List.append_assoc]
        exact (List.perm_append_singleton fd _).nodup_iff.mpr hdistinct
      · intro x hx
        rw [hphase]
        have hx' : x ∈ todo ++ (disconnected ++ [fd]) := hx
        rw [← List.append_assoc] at hx'
        exact (List.perm_append_singleton fd _).mem_iff.mp hx'
    · refine hp.frame rfl (List.nodup_cons.mp hdistinct).2 ?_
      intro x hx
      rw [hphase]
      exact List.mem_cons_of_mem fd hx

theorem step_polled (hp : Polled t) (h : t.step a = some t') : Polled t' := by
  cases step_move h with
  | start => exact hp.frame rfl hp.distinct fun _ hx => hx
  | stop hphase =>
    refine hp.shrink ?_ (by rw [hphase]; rfl)
    simp only [IpcServer.stop]
    split
    · exact List.nil_sublist _
    · exact List.Sublist.refl _
  | skip => exact hp
  | poll order active hphase hrunning hperm =>
    have hsub : t.server.flush.1.clients.Sublist t.server.clients :=
      IpcServer.clients_sublist_disconnect _ _
    refine ⟨hp.registry.sublist hsub, ?_, ?_⟩
    · cases active with
      | true => exact hperm.nodup_iff.mpr (hp.registry.sublist hsub)
      | false => exact List.nodup_nil
    · intro x hx
      cases active with
      | true => exact hperm.mem_iff.mp hx
      | false => cases hx
  | accept fd polled hphase hnew =>
    refine ⟨?_, hp.distinct, ?_⟩
    · rw [record_server, IpcServer.clients_addClient]
      exact (List.perm_append_singleton fd _).nodup_iff.mpr
        (List.nodup_cons.mpr ⟨hnew, hp.registry⟩)
    · intro x hx
      rw [record_server, IpcServer.clients_addClient]
      exact List.mem_append_left _ (hp.connected x hx)
  | drained polled hphase =>
    have hdistinct := hp.distinct
    rw [hphase] at hdistinct
    refine hp.frame rfl ?_ ?_
    · show (polled ++ []).Nodup
      rw [List.append_nil]
      exact hdistinct
    · intro x hx
      rw [hphase]
      simpa [PollPhase.polled] using hx
  | read fd todo disconnected result _ hphase hread => exact readClient_polled hphase hp hread
  | scan fd todo disconnected hphase => exact scanBuffer_polled hphase hp
  | handled fd todo disconnected hphase =>
    have hdistinct := hp.distinct
    rw [hphase] at hdistinct
    refine hp.frame rfl hdistinct ?_
    intro x hx
    rw [hphase]
    exact hx
  | finish => exact hp.shrink (IpcServer.clients_sublist_disconnect _ _) rfl
  | sendLine fd line answers _ hmay hsend =>
    obtain ⟨hclients, -, hphase, -⟩ := clients_send hsend
    exact hp.frame hclients (hphase ▸ hp.distinct) fun x hx => hphase ▸ hx

/-! ## The incoming half of a connection -/

/-- What was read is the delivered lines and the rest the buffer holds. -/
structure Framed (t : Transport) (fd : ClientId) (rest : Bytes) : Prop where
  stream : (t.connection fd).received = wireOf (t.connection fd).delivered ++ rest
  lines : ∀ line ∈ (t.connection fd).delivered,
    newline ∉ line ∧ line.length < kMaxLineBytes + kReadChunkSize
  buffered : fd ∈ t.server.clients → t.server.buffer fd = rest
  unclosed : t.phase.busyWith fd = false → newline ∉ rest
  inside : t.phase.busyWith fd = true → rest.length ≤ kMaxLineBytes + kReadChunkSize
  bounded : fd ∈ t.server.clients → t.phase.busyWith fd = false → fd ∉ t.phase.doomed →
    rest.length ≤ kMaxLineBytes

/-- A step that reads nothing from the client. -/
theorem Framed.frame (h : Framed t fd rest)
    (hreceived : (t'.connection fd).received = (t.connection fd).received)
    (hdelivered : (t'.connection fd).delivered = (t.connection fd).delivered)
    (hbuffer : fd ∈ t'.server.clients →
      fd ∈ t.server.clients ∧ t'.server.buffer fd = t.server.buffer fd)
    (hbusy : t'.phase.busyWith fd = t.phase.busyWith fd)
    (hdoomed : fd ∈ t'.server.clients → fd ∉ t'.phase.doomed → fd ∉ t.phase.doomed) :
    Framed t' fd rest where
  stream := by rw [hreceived, hdelivered]; exact h.stream
  lines := by rw [hdelivered]; exact h.lines
  buffered hmem := (hbuffer hmem).2.trans (h.buffered (hbuffer hmem).1)
  unclosed := by rw [hbusy]; exact h.unclosed
  inside := by rw [hbusy]; exact h.inside
  bounded := by
    rw [hbusy]
    exact fun hmem hb hd => h.bounded (hbuffer hmem).1 hb (hdoomed hmem hd)

/-- A step that leaves the registry and the connections alone. -/
theorem Framed.move (h : Framed t fd rest) (hconnection : t'.connection = t.connection)
    (hserver : t'.server = t.server) (hbusy : t'.phase.busyWith fd = t.phase.busyWith fd)
    (hdoomed : fd ∉ t'.phase.doomed → fd ∉ t.phase.doomed) : Framed t' fd rest :=
  h.frame (by rw [hconnection]) (by rw [hconnection]) (fun hm => ⟨hserver ▸ hm, by rw [hserver]⟩)
    hbusy fun _ => hdoomed

theorem readClient_framed {x : ClientId} {todo disconnected : List ClientId}
    {result : ReadResult} (hphase : t.phase = .reading (x :: todo) disconnected) (hp : Polled t)
    (hf : Framed t fd rest) (h : t.readClient x todo disconnected result = some t') :
    ∃ rest', Framed t' fd rest' := by
  have hbusy : t.phase.busyWith fd = false := by rw [hphase]; rfl
  have hdoomed : t.phase.doomed = disconnected := by rw [hphase]; rfl
  cases result with
  | nothing =>
    cases h
    exact ⟨rest, hf.move rfl rfl hbusy.symm fun hd => hdoomed ▸ hd⟩
  | endOfFile =>
    cases h
    refine ⟨rest, hf.move rfl rfl hbusy.symm fun hd => ?_⟩
    rw [hdoomed]
    exact fun hm => hd (List.mem_append_left _ hm)
  | failed =>
    cases h
    refine ⟨rest, hf.move rfl rfl hbusy.symm fun hd => ?_⟩
    rw [hdoomed]
    exact fun hm => hd (List.mem_append_left _ hm)
  | data chunk =>
    simp only [readClient] at h
    split at h
    · rename_i hchunk
      cases h
      by_cases hfd : fd = x
      · subst hfd
        have hdistinct := hp.distinct
        rw [hphase] at hdistinct
        have hmem : fd ∈ t.server.clients := by
          refine hp.connected fd ?_
          rw [hphase]
          exact List.mem_cons_self
        -- each client is visited once, so it is not on the list yet
        have hnot : fd ∉ t.phase.doomed := by
          rw [hdoomed]
          intro hm
          exact (List.nodup_cons.mp hdistinct).1 (List.mem_append_right todo hm)
        have hrest := hf.bounded hmem hbusy hnot
        refine ⟨rest ++ chunk, ?_, ?_, ?_, ?_, ?_, ?_⟩
        · rw [record_same]
          show (t.connection fd).received ++ chunk = _
          rw [hf.stream, List.append_assoc]
        · rw [record_same]
          exact hf.lines
        · intro _
          show (t.server.append fd chunk).buffer fd = rest ++ chunk
          rw [IpcServer.append, IpcServer.buffer_setBuffer_self hmem, hf.buffered hmem]
        · intro hidle
          simp [record, PollPhase.busyWith] at hidle
        · intro _
          rw [List.length_append]
          exact Nat.add_le_add hrest hchunk.2
        · intro _ hidle
          simp [record, PollPhase.busyWith] at hidle
      · refine ⟨rest, hf.frame ?_ ?_ ?_ ?_ ?_⟩
        · rw [record_other _ _ hfd]
        · rw [record_other _ _ hfd]
        · intro hm
          have hm' : fd ∈ t.server.clients := by
            rw [← IpcServer.clients_append t.server x chunk]
            exact hm
          exact ⟨hm', IpcServer.buffer_setBuffer_other hfd _⟩
        · rw [hbusy]
          simp [record, PollPhase.busyWith, Ne.symm hfd]
        · intro _ hd
          rw [hdoomed]
          exact hd
    · cases h

theorem scanBuffer_framed {x : ClientId} {todo disconnected : List ClientId}
    (hphase : t.phase = .scanning x todo disconnected) (hp : Polled t)
    (hf : Framed t fd rest) : ∃ rest', Framed (t.scanBuffer x todo disconnected) fd rest' := by
  have hdoomed : t.phase.doomed = disconnected := by rw [hphase]; rfl
  have hmem : x ∈ t.server.clients := by
    refine hp.connected x ?_
    rw [hphase]
    exact List.mem_cons_self
  by_cases hfd : fd = x
  · subst hfd
    have hbusy : t.phase.busyWith fd = true := by rw [hphase]; simp [PollPhase.busyWith]
    have hbuffer := hf.buffered hmem
    have hlength := hf.inside hbusy
    unfold scanBuffer
    split
    · rename_i line after hsplit
      rw [hbuffer] at hsplit
      obtain ⟨rfl, hnot⟩ := IpcServer.splitLine_some hsplit
      simp only [List.length_append, List.length_cons] at hlength
      refine ⟨after, ?_, ?_, ?_, ?_, ?_, ?_⟩
      · rw [record_same]
        show (t.connection fd).received = wireOf ((t.connection fd).delivered ++ [line]) ++ after
        rw [wireOf_append, hf.stream]
        simp
      · rw [record_same]
        intro l hl
        rcases List.mem_append.mp hl with hl | hl
        · exact hf.lines l hl
        · rw [List.mem_singleton] at hl
          subst hl
          exact ⟨hnot, by omega⟩
      · intro _
        exact IpcServer.buffer_setBuffer_self hmem after
      · intro hidle
        simp [record, PollPhase.busyWith] at hidle
      · intro _
        omega
      · intro _ hidle
        simp [record, PollPhase.busyWith] at hidle
    · rename_i hsplit
      have hnone : newline ∉ rest := by
        rw [hbuffer] at hsplit
        exact IpcServer.splitLine_eq_none.mp hsplit
      split
      · refine ⟨rest, hf.stream, hf.lines, hf.buffered, fun _ => hnone, ?_, ?_⟩
        · intro hb
          cases hb
        · intro _ _ hd
          exact absurd (List.mem_append_right _ List.mem_cons_self) hd
      · rename_i hsmall
        refine ⟨rest, hf.stream, hf.lines, hf.buffered, fun _ => hnone, ?_, ?_⟩
        · intro hb
          cases hb
        · intro _ _ _
          rw [hbuffer] at hsmall
          omega
  · have hbusy : t.phase.busyWith fd = false := by
      rw [hphase]
      simp [PollPhase.busyWith, Ne.symm hfd]
    unfold scanBuffer
    split
    · refine ⟨rest, hf.frame ?_ ?_ ?_ ?_ ?_⟩
      · rw [record_other _ _ hfd]
      · rw [record_other _ _ hfd]
      · intro hm
        have hm' : fd ∈ t.server.clients := by
          rw [← IpcServer.clients_setBuffer t.server x _]
          exact hm
        exact ⟨hm', IpcServer.buffer_setBuffer_other hfd _⟩
      · rw [hbusy]
        simp [record, PollPhase.busyWith, Ne.symm hfd]
      · intro _ hd
        rw [hdoomed]
        exact hd
    · split
      · refine ⟨rest, hf.move rfl rfl hbusy.symm fun hd => ?_⟩
        rw [hdoomed]
        exact fun hm => hd (List.mem_append_left _ hm)
      · exact ⟨rest, hf.move rfl rfl hbusy.symm fun hd => hdoomed ▸ hd⟩

/-- One step keeps every connection framed. -/
theorem step_framed (hp : Polled t) (hf : ∃ rest, Framed t fd rest) (h : t.step a = some t') :
    ∃ rest, Framed t' fd rest := by
  obtain ⟨rest, hf⟩ := hf
  cases step_move h with
  | start => exact ⟨rest, hf.frame rfl rfl (fun hm => ⟨hm, rfl⟩) rfl fun _ hd => hd⟩
  | stop hphase =>
    refine ⟨rest, hf.frame rfl rfl ?_ rfl fun _ hd => hd⟩
    intro hm
    simp only [IpcServer.stop] at hm ⊢
    split at hm
    · cases hm
    · rename_i hrunning
      rw [if_neg hrunning]
      exact ⟨hm, rfl⟩
  | skip => exact ⟨rest, hf⟩
  | poll order active hphase hrunning hperm =>
    refine ⟨rest, hf.frame rfl rfl ?_ ?_ ?_⟩
    · intro hm
      obtain ⟨hmem, hnot⟩ := IpcServer.mem_clients_flush.mp hm
      exact ⟨hmem, IpcServer.buffer_flush hnot⟩
    · rw [hphase]
      cases active <;> rfl
    · intro _ _
      rw [hphase]
      exact List.not_mem_nil
  | accept x polled hphase hnew =>
    by_cases hfd : fd = x
    · subst hfd
      refine ⟨[], ?_, ?_, ?_, fun _ => List.not_mem_nil, fun _ => Nat.zero_le _,
        fun _ _ _ => Nat.zero_le _⟩
      · rw [record_same]
        rfl
      · rw [record_same]
        intro line hline
        cases hline
      · intro _
        exact IpcServer.buffer_addClient_self hnew
    · refine ⟨rest, hf.frame ?_ ?_ ?_ rfl fun _ hd => hd⟩
      · rw [record_other _ _ hfd]
      · rw [record_other _ _ hfd]
      · intro hm
        rw [record_server, IpcServer.clients_addClient, List.mem_append,
          List.mem_singleton] at hm
        exact ⟨hm.resolve_right hfd, IpcServer.buffer_addClient_other hfd⟩
  | drained polled hphase =>
    refine ⟨rest, hf.move rfl rfl ?_ ?_⟩
    · rw [hphase]
      rfl
    · intro _
      rw [hphase]
      exact List.not_mem_nil
  | read x todo disconnected result _ hphase hread => exact readClient_framed hphase hp hf hread
  | scan x todo disconnected hphase => exact scanBuffer_framed hphase hp hf
  | handled x todo disconnected hphase =>
    refine ⟨rest, hf.move rfl rfl ?_ ?_⟩
    · rw [hphase]
      rfl
    · intro hd
      rw [hphase]
      exact hd
  | finish disconnected hphase =>
    refine ⟨rest, hf.frame rfl rfl ?_ ?_ ?_⟩
    · intro hm
      obtain ⟨hmem, hnot⟩ := IpcServer.mem_clients_disconnect.mp hm
      exact ⟨hmem, IpcServer.buffer_disconnect hnot⟩
    · rw [hphase]
      rfl
    · intro hm _
      rw [hphase]
      exact (IpcServer.mem_clients_disconnect.mp hm).2
  | sendLine x line answers _ hmay hsend =>
    obtain ⟨hclients, hbuffer, hphase, hconnection⟩ := clients_send hsend
    refine ⟨rest, hf.frame (hconnection fd).1 (hconnection fd).2 ?_ (by rw [hphase]) ?_⟩
    · intro hm
      exact ⟨hclients ▸ hm, hbuffer fd⟩
    · intro _ hd
      exact hphase ▸ hd

/-- Every connection is framed along a run. -/
theorem run_framed {acts : List TransportAct} (hrun : Lib.run step {} acts = some t)
    (fd : ClientId) : Polled t ∧ ∃ rest, Framed t fd rest := by
  have hinit : Polled {} := ⟨List.nodup_nil, List.nodup_nil, fun _ h => by cases h⟩
  have hframed : Framed {} fd [] :=
    ⟨rfl, fun _ h => (by cases h), fun h => (by cases h), fun _ => List.not_mem_nil,
      fun h => (by cases h), fun h => (by cases h)⟩
  exact Lib.run_invariant (P := fun t => Polled t ∧ ∃ rest, Framed t fd rest)
    (fun _ _ _ ⟨hp, hf⟩ h => ⟨step_polled hp h, step_framed hp hf h⟩)
    ⟨hinit, [], hframed⟩ hrun

/-- Outside the loop over its lines, the cut is the cut of the stream. -/
theorem Framed.cut (h : Framed t fd rest) (hidle : t.phase.busyWith fd = false) :
    Lines newline (t.connection fd).received (t.connection fd).delivered rest :=
  ⟨h.stream, fun line hline => (h.lines line hline).1, h.unclosed hidle⟩

/-- What the size check disconnects a client for. -/
theorem Framed.oversize {todo disconnected : List ClientId} (h : Framed t fd rest)
    (hp : Polled t) (hphase : t.phase = .scanning fd todo disconnected)
    (hstep : t.step .scan = some t')
    (hdoomed : t'.phase = .reading todo (disconnected ++ [fd])) :
    rest <:+: (t.connection fd).received ∧ newline ∉ rest ∧ kMaxLineBytes < rest.length := by
  have hmem : fd ∈ t.server.clients := by
    refine hp.connected fd ?_
    rw [hphase]
    exact List.mem_cons_self
  have hscan : t.scanBuffer fd todo disconnected = t' := by
    simpa [step, hphase] using hstep
  subst hscan
  unfold scanBuffer at hdoomed
  rw [h.buffered hmem] at hdoomed
  split at hdoomed
  · cases hdoomed
  · rename_i hsplit
    split at hdoomed
    · rename_i hlong
      refine ⟨?_, IpcServer.splitLine_eq_none.mp hsplit, hlong⟩
      rw [h.stream]
      exact (List.suffix_append _ _).isInfix
    · simp at hdoomed

/-- However the streams are cut into chunks and interleaved: the lines
handed to `on_line` are the lines of the client's own stream, in order and
once each, and after `poll_once` the buffer is the unterminated rest; a
client is disconnected for size only after more than `kMaxLineBytes` bytes
without a newline, and always once a whole chunk more than that was read,
with nothing of that line delivered. -/
theorem line_framing {acts : List TransportAct} (hrun : Lib.run step {} acts = some t)
    (fd : ClientId) :
    (∀ bodies tail, Lines newline (t.connection fd).received bodies tail →
      (t.connection fd).delivered <+: bodies) ∧
    (t.phase = .outside → ∃ tail,
      Lines newline (t.connection fd).received (t.connection fd).delivered tail ∧
      (fd ∈ t.server.clients →
        t.server.buffer fd = tail ∧ newline ∉ tail ∧ tail.length ≤ kMaxLineBytes)) ∧
    (∀ todo disconnected t', t.phase = .scanning fd todo disconnected →
      t.step .scan = some t' → t'.phase = .reading todo (disconnected ++ [fd]) →
      ∃ bytes, bytes <:+: (t.connection fd).received ∧ newline ∉ bytes ∧
        kMaxLineBytes < bytes.length) ∧
    (∀ bytes, bytes <:+: (t.connection fd).received → newline ∉ bytes →
      kMaxLineBytes + kReadChunkSize ≤ bytes.length →
      (t.phase = .outside → fd ∉ t.server.clients) ∧
      ∀ line ∈ (t.connection fd).delivered, ¬ bytes <:+: line) := by
  obtain ⟨hp, rest, hf⟩ := run_framed hrun fd
  have hidle : t.phase = .outside → t.phase.busyWith fd = false := fun h => by rw [h]; rfl
  have hsafe : t.phase = .outside → fd ∉ t.phase.doomed := fun h => by
    rw [h]
    exact List.not_mem_nil
  refine ⟨?_, ?_, ?_, ?_⟩
  · intro bodies tail hlines
    exact hlines.isPrefix hf.stream fun line hline => (hf.lines line hline).1
  · intro houtside
    refine ⟨rest, hf.cut (hidle houtside), ?_⟩
    intro hmem
    exact ⟨hf.buffered hmem, hf.unclosed (hidle houtside),
      hf.bounded hmem (hidle houtside) (hsafe houtside)⟩
  · intro todo disconnected t' hphase hstep hdoomed
    exact ⟨rest, hf.oversize hp hphase hstep hdoomed⟩
  · intro bytes hinfix hnot hlong
    refine ⟨?_, ?_⟩
    · intro houtside hmem
      have hchunk : 0 < kReadChunkSize := by decide
      have hrest := hf.bounded hmem (hidle houtside) (hsafe houtside)
      have hbytes : bytes.length ≤ kMaxLineBytes + kReadChunkSize - 1 := by
        refine (hf.cut (hidle houtside)).length_le_of_isInfix ?_ (by omega) hinfix hnot
        intro line hline
        have := (hf.lines line hline).2
        omega
      omega
    · intro line hline hin
      have hshort := (hf.lines line hline).2
      have := hin.length_le
      omega

/-- One client connects and sends `a⏎b` in two chunks. -/
def twoChunks : List TransportAct :=
  [.start, .pollOnce [] true, .accept 5, .drained, .finish,
    .pollOnce [5] true, .drained, .read (.data [97]), .scan, .finish,
    .pollOnce [5] true, .drained, .read (.data [10, 98]), .scan, .handled, .scan, .finish]

/-- One line is delivered, `b` stays in the buffer. -/
theorem line_framing_two_chunks :
    ∃ t, Lib.run step {} twoChunks = some t ∧
      (t.connection 5).delivered = [[97]] ∧ t.server.buffer 5 = [98] ∧
      ∃ tail, Lines newline (t.connection 5).received (t.connection 5).delivered tail ∧
        (5 ∈ t.server.clients →
          t.server.buffer 5 = tail ∧ newline ∉ tail ∧ tail.length ≤ kMaxLineBytes) := by
  have hrun : Lib.run step {} twoChunks = some _ := rfl
  exact ⟨_, hrun, rfl, rfl, (line_framing hrun 5).2.1 rfl⟩

end Transport

end YoruSpeech

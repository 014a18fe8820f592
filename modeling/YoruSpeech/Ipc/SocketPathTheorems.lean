/-
YoruSpeech.Ipc.SocketPathTheorems — when a live socket is safe.

`start()` asks whether the path is live in one system call and unlinks it
in a later one, and `stop()` unlinks it without asking.

* `Apart` — a step does not enter one of these windows while another
  process is in the matching one: no probe while another process has bound
  and not yet listens (or a probe that cannot even open a socket while
  another one serves the path), and no bind while another process is about
  to unlink.
* `live_socket_kept`: in a run of such steps no process removes a socket
  file that another serves, at most one server runs, and the path leads to
  it; and each step that is not one lets the next unlink take a socket
  away.
* `live_socket_taken`: two daemons that start at the same time do just
  that.
-/
import YoruSpeech.Ipc.SocketPath

namespace YoruSpeech

namespace Host

variable {h h' : Host} {a : HostAct} {p q : ProcessId} {n : Nat}

@[simp] theorem goto_phase_same (h : Host) (p : ProcessId) (phase : StartPhase) :
    (h.goto p phase).phase p = phase := by
  simp [goto]

theorem goto_phase_other (h : Host) {p q : ProcessId} (phase : StartPhase) (hq : q ≠ p) :
    (h.goto p phase).phase q = h.phase q := by
  simp [goto, hq]

/-- A step does not overlap with the one window it can collide with. -/
def Apart (h : Host) : HostAct → Prop
  | .probe p opened => ∀ q, q ≠ p →
    (∀ n, h.phase q ≠ .bound n) ∧ (opened = false → (h.phase q).serves? = none)
  | .bind p done => h.file = none → done = true → ∀ q, q ≠ p → (h.phase q).removing = false
  | _ => True

structure Orderly (h : Host) : Prop where
  /-- Who serves the path owns the file. -/
  named : ∀ p n, (h.phase p).serves? = some n → h.file = some n
  /-- While a process is about to unlink, nobody else serves. -/
  apart : ∀ p q, p ≠ q → (h.phase p).removing = true → (h.phase q).serves? = none
  heard : ∀ p n, h.phase p = .listening n ∨ h.phase p = .running n → n ∈ h.listening
  unheard : ∀ p n, h.phase p = .bound n → n ∉ h.listening
  distinct : ∀ p q n, (h.phase p).socket? = some n → (h.phase q).socket? = some n → p = q
  fresh : ∀ p n, (h.phase p).socket? = some n → n < h.next
  known : ∀ n ∈ h.listening, n < h.next

/-- A process that serves the path has its socket open, and is not about to
unlink. -/
theorem serves_spec {ph : StartPhase} (hserves : ph.serves? = some n) :
    ph.socket? = some n ∧ ph.removing = false := by
  cases ph with
  | bound m => exact ⟨hserves, rfl⟩
  | listening m => exact ⟨hserves, rfl⟩
  | running m => exact ⟨hserves, rfl⟩
  | stopped | probed | unlinked | created | failed | closed => cases hserves

theorem Orderly.alone (hi : Orderly h) (hp : (h.phase p).serves? = some n) (hq : q ≠ p) :
    (h.phase q).serves? = none := by
  cases hserves : (h.phase q).serves? with
  | none => rfl
  | some m =>
    have heq : n = m := Option.some.inj ((hi.named p n hp).symm.trans (hi.named q m hserves))
    subst heq
    exact absurd (hi.distinct q p n (serves_spec hserves).1 (serves_spec hp).1) hq

theorem Orderly.unthreatened (hi : Orderly h) (hp : (h.phase p).serves? = some n) (hq : q ≠ p) :
    (h.phase q).removing = false := by
  cases hremoving : (h.phase q).removing with
  | false => rfl
  | true =>
    have hnone := hi.apart q p hq hremoving
    rw [hp] at hnone
    cases hnone

/-- One process moves on: what the others rely on, and what its new phase
asks of them. -/
theorem Orderly.update {base : Host} {ph : StartPhase} (hi : Orderly h)
    (hphase : base.phase = h.phase) (hnext : h.next ≤ base.next)
    (hfile : ∀ q n, q ≠ p → (h.phase q).serves? = some n → base.file = some n)
    (hlisten : ∀ q n, q ≠ p → (h.phase q).socket? = some n →
      (n ∈ base.listening ↔ n ∈ h.listening))
    (hknown : ∀ n ∈ base.listening, n < base.next)
    (hremoving : ph.removing = true → ∀ q, q ≠ p → (h.phase q).serves? = none)
    (hserves : ∀ n, ph.serves? = some n →
      base.file = some n ∧ ∀ q, q ≠ p → (h.phase q).removing = false)
    (hheard : ∀ n, ph = .listening n ∨ ph = .running n → n ∈ base.listening)
    (hunheard : ∀ n, ph = .bound n → n ∉ base.listening)
    (hsocket : ∀ n, ph.socket? = some n →
      n < base.next ∧ ∀ q, q ≠ p → (h.phase q).socket? ≠ some n) :
    Orderly (base.goto p ph) := by
  have hother : ∀ q, q ≠ p → (base.goto p ph).phase q = h.phase q := by
    intro q hq
    rw [goto_phase_other _ _ hq, hphase]
  refine ⟨?_, ?_, ?_, ?_, ?_, ?_, hknown⟩
  · intro q n hq
    by_cases hqp : q = p
    · subst hqp
      rw [goto_phase_same] at hq
      exact (hserves n hq).1
    · rw [hother q hqp] at hq
      exact hfile q n hqp hq
  · intro q r hqr hq
    by_cases hqp : q = p
    · subst hqp
      rw [goto_phase_same] at hq
      rw [hother r (Ne.symm hqr)]
      exact hremoving hq r (Ne.symm hqr)
    · rw [hother q hqp] at hq
      by_cases hrp : r = p
      · subst hrp
        rw [goto_phase_same]
        cases hr : ph.serves? with
        | none => rfl
        | some n =>
          rw [(hserves n hr).2 q hqp] at hq
          cases hq
      · rw [hother r hrp]
        exact hi.apart q r hqr hq
  · intro q n hq
    by_cases hqp : q = p
    · subst hqp
      rw [goto_phase_same] at hq
      exact hheard n hq
    · rw [hother q hqp] at hq
      have hopen : (h.phase q).socket? = some n := by
        rcases hq with hq | hq <;> rw [hq] <;> rfl
      exact (hlisten q n hqp hopen).mpr (hi.heard q n hq)
  · intro q n hq
    by_cases hqp : q = p
    · subst hqp
      rw [goto_phase_same] at hq
      exact hunheard n hq
    · rw [hother q hqp] at hq
      have hopen : (h.phase q).socket? = some n := by rw [hq]; rfl
      intro hmem
      exact hi.unheard q n hq ((hlisten q n hqp hopen).mp hmem)
  · intro q r n hq hr
    by_cases hqp : q = p
    · subst hqp
      rw [goto_phase_same] at hq
      by_cases hrq : r = q
      · exact hrq.symm
      · rw [hother r hrq] at hr
        exact absurd hr ((hsocket n hq).2 r hrq)
    · rw [hother q hqp] at hq
      by_cases hrp : r = p
      · subst hrp
        rw [goto_phase_same] at hr
        exact absurd hq ((hsocket n hr).2 q hqp)
      · rw [hother r hrp] at hr
        exact hi.distinct q r n hq hr
  · intro q n hq
    by_cases hqp : q = p
    · subst hqp
      rw [goto_phase_same] at hq
      exact (hsocket n hq).1
    · rw [hother q hqp] at hq
      exact Nat.lt_of_lt_of_le (hi.fresh q n hq) hnext

/-- A process moves to a phase without a socket. -/
theorem Orderly.leave {base : Host} {ph : StartPhase} (hi : Orderly h)
    (hphase : base.phase = h.phase) (hnext : base.next = h.next)
    (hfile : ∀ q n, q ≠ p → (h.phase q).serves? = some n → base.file = some n)
    (hlisten : ∀ n, n ∈ base.listening ↔ n ∈ h.listening ∧ (h.phase p).socket? ≠ some n)
    (hsocket : ph.socket? = none)
    (hremoving : ph.removing = true → ∀ q, q ≠ p → (h.phase q).serves? = none) :
    Orderly (base.goto p ph) := by
  have hnone : ∀ n, ph.socket? ≠ some n := by
    intro n hn
    rw [hsocket] at hn
    cases hn
  refine hi.update hphase (Nat.le_of_eq hnext.symm) hfile ?_ ?_ hremoving ?_ ?_ ?_ ?_
  · intro q n hq hopen
    constructor
    · exact fun hmem => ((hlisten n).mp hmem).1
    · intro hmem
      refine (hlisten n).mpr ⟨hmem, ?_⟩
      intro hp
      exact hq (hi.distinct q p n hopen hp)
  · intro n hmem
    rw [hnext]
    exact hi.known n ((hlisten n).mp hmem).1
  · intro n hn
    exact absurd (serves_spec hn).1 (hnone n)
  · intro n hn
    refine absurd ?_ (hnone n)
    rcases hn with rfl | rfl <;> rfl
  · intro n hn
    exact absurd (hn ▸ rfl) (hnone n)
  · intro n hn
    exact absurd hn (hnone n)

/-- A process keeps its socket. -/
theorem Orderly.keep {base : Host} {ph : StartPhase} (hi : Orderly h)
    (hphase : base.phase = h.phase) (hnext : base.next = h.next) (hfile : base.file = h.file)
    (hp : (h.phase p).serves? = some n) (hsocket : ph.socket? = some n)
    (hlisten : ∀ m, m ≠ n → (m ∈ base.listening ↔ m ∈ h.listening))
    (hheard : ph = .listening n ∨ ph = .running n → n ∈ base.listening)
    (hbound : ∀ m, ph ≠ .bound m) : Orderly (base.goto p ph) := by
  have honly : ∀ m, ph.socket? = some m → m = n := by
    intro m hm
    exact Option.some.inj (hm.symm.trans hsocket)
  have hopen := (serves_spec hp).1
  refine hi.update hphase (Nat.le_of_eq hnext.symm) ?_ ?_ ?_ ?_ ?_ ?_ ?_ ?_
  · intro q m hq hserves
    rw [hi.alone hp hq] at hserves
    cases hserves
  · intro q m hq hm
    refine hlisten m ?_
    rintro rfl
    exact hq (hi.distinct q p m hm hopen)
  · intro m hm
    rw [hnext]
    by_cases hmn : m = n
    · rw [hmn]
      exact hi.fresh p n hopen
    · exact hi.known m ((hlisten m hmn).mp hm)
  · exact fun _ q hq => hi.alone hp hq
  · intro m hm
    rw [honly m (serves_spec hm).1, hfile]
    exact ⟨hi.named p n hp, fun q hq => hi.unthreatened hp hq⟩
  · intro m hm
    have hmn : m = n := honly m (by rcases hm with rfl | rfl <;> rfl)
    subst hmn
    exact hheard hm
  · intro m hm
    exact absurd hm (hbound m)
  · intro m hm
    rw [honly m hm, hnext]
    refine ⟨hi.fresh p n hopen, ?_⟩
    intro q hq hqn
    exact hq (hi.distinct q p n hqn hopen)

theorem mem_shut {socket? : Option Nat} :
    n ∈ (h.shut socket?).listening ↔ n ∈ h.listening ∧ socket? ≠ some n := by
  simp only [shut, List.mem_filter, decide_eq_true_eq, ne_eq]
  exact and_congr_right fun _ => not_congr eq_comm

/-- A probe that says the path is not live is right, for those it is kept
apart from. -/
theorem Orderly.probe (hi : Orderly h) {opened : Bool} (ha : h.Apart (.probe p opened))
    (hlive : (opened && h.live) = false) (hq : q ≠ p) : (h.phase q).serves? = none := by
  obtain ⟨hbound, hopened⟩ := ha q hq
  cases opened with
  | false => exact hopened rfl
  | true =>
    have hdead : ∀ n, h.phase q = .listening n ∨ h.phase q = .running n → False := by
      intro n hn
      have hserves : (h.phase q).serves? = some n := by
        rcases hn with hn | hn <;> rw [hn] <;> rfl
      have hheard := hi.heard q n hn
      simp [live, hi.named q n hserves, hheard] at hlive
    cases hphase : h.phase q with
    | bound n => exact absurd hphase (hbound n)
    | listening n => exact (hdead n (.inl hphase)).elim
    | running n => exact (hdead n (.inr hphase)).elim
    | stopped | probed | unlinked | created | failed | closed => rfl

/-- A process without a socket moves to another phase without one. -/
theorem Orderly.move {ph : StartPhase} (hi : Orderly h) (hp : (h.phase p).socket? = none)
    (hsocket : ph.socket? = none)
    (hremoving : ph.removing = true → ∀ q, q ≠ p → (h.phase q).serves? = none) :
    Orderly (h.goto p ph) := by
  refine hi.leave rfl rfl (fun q n _ hq => hi.named q n hq) ?_ hsocket hremoving
  intro n
  simp [hp]

/-- The file is unlinked while nobody else serves it. -/
theorem Orderly.unlink {ph : StartPhase} (hi : Orderly h) (hp : (h.phase p).socket? = none)
    (hremoving : (h.phase p).removing = true) (hsocket : ph.socket? = none)
    (hdone : ph.removing = false) (done : Bool) : Orderly ((h.removeFile done).goto p ph) := by
  refine hi.leave rfl rfl ?_ ?_ hsocket ?_
  · intro q n hq hserves
    rw [hi.apart p q (Ne.symm hq) hremoving] at hserves
    cases hserves
  · intro n
    simp [removeFile, hp]
  · intro hr
    rw [hdone] at hr
    cases hr

/-- A new socket is bound while nobody else is about to unlink. -/
theorem Orderly.bind (hi : Orderly h) (hfree : h.file = none)
    (hapart : ∀ q, q ≠ p → (h.phase q).removing = false) :
    Orderly ({ h with file := some h.next, next := h.next + 1 }.goto p (.bound h.next)) := by
  refine hi.update rfl (Nat.le_succ _) ?_ (fun _ _ _ _ => Iff.rfl) ?_ ?_ ?_ ?_ ?_ ?_
  · intro q n _ hserves
    have hnamed := hi.named q n hserves
    rw [hfree] at hnamed
    cases hnamed
  · intro n hn
    exact Nat.lt_succ_of_lt (hi.known n hn)
  · intro hr
    cases hr
  · intro n hn
    cases hn
    exact ⟨rfl, hapart⟩
  · rintro n (hn | hn) <;> cases hn
  · intro n hn hmem
    cases hn
    exact Nat.lt_irrefl _ (hi.known _ hmem)
  · intro n hn
    cases hn
    refine ⟨Nat.lt_succ_self _, ?_⟩
    intro q _ hq
    exact Nat.lt_irrefl _ (hi.fresh q _ hq)

theorem Orderly.listen (hi : Orderly h) (hp : h.phase p = .bound n) :
    Orderly ({ h with listening := n :: h.listening }.goto p (.listening n)) := by
  have hserves : (h.phase p).serves? = some n := by rw [hp]; rfl
  refine hi.keep rfl rfl rfl hserves rfl ?_ (fun _ => List.mem_cons_self) ?_
  · intro m hm
    simp [hm]
  · intro m hm
    cases hm

/-- A later call of `start()` fails: the socket is still open. -/
theorem Orderly.fails (hi : Orderly h) (hserves : (h.phase p).serves? = some n) :
    Orderly (h.goto p (.failed n)) := by
  refine hi.keep rfl rfl rfl hserves rfl (fun _ _ => Iff.rfl) ?_ ?_
  · rintro (hm | hm) <;> cases hm
  · intro m hm
    cases hm

theorem Orderly.runs (hi : Orderly h) (hp : h.phase p = .listening n) :
    Orderly (h.goto p (.running n)) := by
  have hserves : (h.phase p).serves? = some n := by rw [hp]; rfl
  refine hi.keep rfl rfl rfl hserves rfl (fun _ _ => Iff.rfl) ?_ ?_
  · exact fun _ => hi.heard p n (.inl hp)
  · intro m hm
    cases hm

/-- A process closes its socket; the unlink that may follow finds nobody else
at the path. -/
theorem Orderly.close {ph : StartPhase} (hi : Orderly h) (hsocket : ph.socket? = none)
    (hremoving : ph.removing = true → ∀ q, q ≠ p → (h.phase q).serves? = none) :
    Orderly ((h.shut (h.phase p).socket?).goto p ph) :=
  hi.leave rfl rfl (fun q n _ hq => hi.named q n hq) (fun _ => mem_shut) hsocket hremoving

/-- One system call keeps the host orderly, unless it enters a window that
another process is in. -/
theorem step_orderly (hi : Orderly h) (ha : h.Apart a) (hs : h.step a = some h') :
    Orderly h' := by
  cases a with
  | probe p opened =>
    simp only [step] at hs
    split at hs
    · rename_i hphase
      cases hs
      split
      · exact hi
      · rename_i hlive
        exact hi.move (by rw [hphase]; rfl) rfl fun _ q hq => hi.probe ha (by simpa using hlive) hq
    · cases hs
  | unlink p done =>
    simp only [step] at hs
    split at hs
    · rename_i hphase
      cases hs
      exact hi.unlink (by rw [hphase]; rfl) (by rw [hphase]; rfl) rfl rfl done
    · rename_i hphase
      cases hs
      exact hi.unlink (by rw [hphase]; rfl) (by rw [hphase]; rfl) rfl rfl done
    · cases hs
  | socket p done =>
    simp only [step] at hs
    split at hs
    · rename_i hphase
      cases hs
      refine hi.move (by rw [hphase]; rfl) (by cases done <;> rfl) ?_
      intro hr
      cases done <;> cases hr
    · cases hs
  | bind p done =>
    simp only [step] at hs
    split at hs
    · rename_i hphase
      split at hs
      · rename_i hfree
        cases hs
        exact hi.bind hfree.1 (ha hfree.1 hfree.2)
      · cases hs
        exact hi.move (by rw [hphase]; rfl) rfl fun hr => by cases hr
    · cases hs
  | listen p done =>
    simp only [step] at hs
    split at hs
    · rename_i n hphase
      cases hs
      cases done with
      | true => exact hi.listen hphase
      | false => exact hi.fails (by rw [hphase]; rfl)
    · cases hs
  | eventfd p done =>
    simp only [step] at hs
    split at hs
    · rename_i n hphase
      cases hs
      cases done with
      | true => exact hi.runs hphase
      | false => exact hi.fails (by rw [hphase]; rfl)
    · cases hs
  | close p =>
    simp only [step] at hs
    split at hs
    · rename_i n hphase
      cases hs
      have hopen : (h.phase p).socket? = some n := by rw [hphase]; rfl
      exact hopen ▸ hi.close rfl fun _ q hq => hi.apart p q (Ne.symm hq) (by rw [hphase]; rfl)
    · rename_i n hphase
      cases hs
      have hopen : (h.phase p).socket? = some n := by rw [hphase]; rfl
      exact hopen ▸ hi.close rfl fun _ q hq => hi.alone (by rw [hphase]; rfl) hq
    · cases hs
  | die p =>
    cases hs
    exact hi.close rfl fun hr => by cases hr

theorem init_orderly (leftover : Bool) : Orderly (init leftover) := by
  refine ⟨?_, ?_, ?_, ?_, ?_, ?_, ?_⟩
  · intro p n hp
    cases hp
  · intro p q _ hp
    cases hp
  · rintro p n (hp | hp) <;> cases hp
  · intro p n hp
    cases hp
  · intro p q n hp
    cases hp
  · intro p n hp
    cases hp
  · intro n hn
    cases hn

/-- Some process is one or two system calls away from removing a file that
another serves. -/
def Endangered (h : Host) : Prop :=
  ∃ acts h' b, Lib.run step h acts = some h' ∧ (h'.step b).isSome = true ∧ h'.Takes b

theorem endangered_of_removing (hp : (h.phase p).removing = true) (hq : q ≠ p)
    (hserves : (h.phase q).serves? = some n) (hfile : h.file = some n) : h.Endangered := by
  have htakes : h.Takes (.unlink p true) := ⟨rfl, q, n, hq, hserves, hfile⟩
  cases hphase : h.phase p with
  | probed => exact ⟨[], h, .unlink p true, rfl, by simp [step, hphase], htakes⟩
  | closed => exact ⟨[], h, .unlink p true, rfl, by simp [step, hphase], htakes⟩
  | failed m =>
    -- its `close` comes first
    refine ⟨[.close p], (h.shut (some m)).goto p .closed, .unlink p true, ?_, ?_, ?_⟩
    · simp [Lib.run, step, hphase]
    · simp [step]
    · refine ⟨rfl, q, n, hq, ?_, hfile⟩
      rw [goto_phase_other _ _ hq]
      exact hserves
  | stopped | unlinked | created | bound | listening | running =>
    rw [hphase] at hp
    cases hp

/-- Entering a window that another process is in endangers a socket. -/
theorem Orderly.endangered (hi : Orderly h) (ha : ¬ h.Apart a) (hs : h.step a = some h') :
    h'.Endangered := by
  cases a with
  | probe p opened =>
    -- somebody else serves the path, and the probe does not see it
    obtain ⟨q, n, hq, hserves, hlive⟩ : ∃ q n, q ≠ p ∧ (h.phase q).serves? = some n ∧
        (opened && h.live) = false := by
      simp only [Apart, Classical.not_forall] at ha
      obtain ⟨q, hq, hnot⟩ := ha
      by_cases hbound : ∀ n, h.phase q ≠ .bound n
      · obtain ⟨hopened, hsome⟩ : opened = false ∧ (h.phase q).serves? ≠ none := by
          simpa [hbound] using hnot
        obtain ⟨n, hn⟩ := Option.ne_none_iff_exists'.mp hsome
        exact ⟨q, n, hq, hn, by simp [hopened]⟩
      · simp only [ne_eq, Classical.not_forall, Classical.not_not] at hbound
        obtain ⟨n, hn⟩ := hbound
        have hserves : (h.phase q).serves? = some n := by rw [hn]; rfl
        refine ⟨q, n, hq, hserves, ?_⟩
        simp [live, hi.named q n hserves, hi.unheard q n hn]
    simp only [step] at hs
    split at hs
    · cases hs
      rw [if_neg (by simp [hlive])]
      refine endangered_of_removing (p := p) (q := q) (n := n) ?_ hq ?_ (hi.named q n hserves)
      · rw [goto_phase_same]
        rfl
      · rw [goto_phase_other _ _ hq]
        exact hserves
    · cases hs
  | bind p done =>
    simp only [Apart, Classical.not_forall] at ha
    obtain ⟨hfile, hdone, q, hq, hremoving⟩ := ha
    simp only [step] at hs
    split at hs
    · rw [if_pos ⟨hfile, hdone⟩] at hs
      cases hs
      refine endangered_of_removing (p := q) (q := p) (n := h.next) ?_ (Ne.symm hq) ?_ rfl
      · rw [goto_phase_other _ _ hq]
        simpa using hremoving
      · rw [goto_phase_same]
        rfl
    · cases hs
  | unlink | socket | listen | eventfd | close | die => exact absurd trivial ha

/-- In every run whose steps stay out of each other's windows, no process
unlinks a socket file that another one serves or is about to serve, at most
one server runs, and connecting to the path reaches it. Any other step
leaves a socket that the following system calls of another process take
away. -/
theorem live_socket_kept {leftover : Bool} {acts : List HostAct}
    (hrun : Lib.run step (init leftover) acts = some h)
    (hapart : Lib.Along step Apart (init leftover) acts) :
    (∀ a h', h.step a = some h' → ¬ h.Takes a) ∧
    (∀ p q n m, h.phase p = .running n → h.phase q = .running m → p = q) ∧
    (∀ p n, h.phase p = .running n → h.Reaches p) ∧
    ∀ a h', h.step a = some h' → ¬ h.Apart a → h'.Endangered := by
  have hi : Orderly h :=
    Lib.run_along (fun _ _ _ hi ha hs => step_orderly hi ha hs) (init_orderly leftover)
      hapart hrun
  refine ⟨?_, ?_, ?_, fun a h' hs ha => hi.endangered ha hs⟩
  · intro a h' hs htakes
    cases a with
    | unlink p done =>
      obtain ⟨-, q, n, hq, hserves, -⟩ := htakes
      have hremoving : (h.phase p).removing = true := by
        simp only [step] at hs
        split at hs
        · rename_i hphase
          rw [hphase]
          rfl
        · rename_i hphase
          rw [hphase]
          rfl
        · cases hs
      rw [hi.apart p q (Ne.symm hq) hremoving] at hserves
      cases hserves
    | probe | socket | bind | listen | eventfd | close | die => exact htakes
  · intro p q n m hp hq
    by_cases hpq : p = q
    · exact hpq
    · have hserves : (h.phase q).serves? = some m := by rw [hq]; rfl
      have hnone := hi.alone hserves hpq
      rw [hp] at hnone
      cases hnone
  · intro p n hp
    have hserves : (h.phase p).serves? = some n := by rw [hp]; rfl
    exact ⟨n, hi.named p n hserves, hi.heard p n (.inr hp), hserves⟩

/-- The system calls of a `start()` that succeeds. -/
def startCalls (p : ProcessId) : List HostAct :=
  [.probe p true, .unlink p true, .socket p true, .bind p true, .listen p true, .eventfd p true]

/-- One daemon starts over a leftover file; a second one that starts later
finds it live. -/
theorem live_socket_kept_sequential :
    ∃ h, Lib.run step (init true) (startCalls 1 ++ [.probe 2 true]) = some h ∧
      h.phase 1 = .running 1 ∧ h.phase 2 = .stopped ∧ h.Reaches 1 := by
  have hrun : Lib.run step (init true) (startCalls 1 ++ [.probe 2 true]) = some _ := rfl
  have hapart : Lib.Along step Apart (init true) (startCalls 1 ++ [.probe 2 true]) := by
    refine ⟨?_, trivial, trivial, ?_, trivial, trivial, ?_, trivial⟩
    · intro q _
      refine ⟨?_, fun _ => rfl⟩
      intro n hn
      cases hn
    · intro _ _ q hq
      simp [goto, removeFile, init, live, hq, StartPhase.removing]
    · intro q hq
      refine ⟨?_, fun hopened => by cases hopened⟩
      intro n
      by_cases hq' : q = 1
      · simp [hq', goto]
      · simp [hq', goto, removeFile, init, live]
  exact ⟨_, hrun, rfl, rfl, (live_socket_kept hrun hapart).2.2.1 1 1 rfl⟩

/-- Two daemons both probe before either has bound. -/
def startTogether : List HostAct :=
  [.probe 1 true, .probe 2 true, .unlink 1 true, .socket 1 true, .bind 1 true, .listen 1 true,
    .eventfd 1 true]

/-- The second one then unlinks the socket of the first, which is running,
and ends up running as well. -/
theorem live_socket_taken :
    (∃ h, Lib.run step (init false) startTogether = some h ∧ h.phase 1 = .running 1 ∧
      h.Reaches 1 ∧ (h.step (.unlink 2 true)).isSome = true ∧ h.Takes (.unlink 2 true)) ∧
    ∃ h, Lib.run step (init false) (startTogether ++ (startCalls 2).tail) = some h ∧
      h.phase 1 = .running 1 ∧ h.phase 2 = .running 2 ∧ ¬ h.Reaches 1 := by
  refine ⟨⟨_, rfl, rfl, ⟨1, rfl, List.mem_singleton.mpr rfl, rfl⟩, rfl, rfl, 1, 1, by decide,
    rfl, rfl⟩, _, rfl, rfl, rfl, ?_⟩
  rintro ⟨n, hfile, -, hserves⟩
  cases hfile
  cases hserves

end Host

end YoruSpeech

/-
YoruSpeech.Lib.Handoff — a two-party hand-off of work, over an arbitrary
type of item names.

A PRODUCER accepts items into a waiting line; a WORKER takes them from its
front one at a time, announces each start and each finish in two shared
lists; the producer drains the two lists now and then, and publishes what
it drained item by item. The producer may also withdraw items that are
still waiting and publish that instead. `Handoff` is the state with the
published logs, `Step` the moves in their program order: in particular the
producer drains the finishes BEFORE the starts, and publishes the starts
first.

Three facts hold in every state the moves lead to:

* `Inv.exactly_one` — an accepted item is in exactly one place, counted
  with multiplicity: waiting, running, finished or in the producer's hands,
  or published;
* `Inv.outstanding` and `Inv.front` — the accepted items that have not left
  are the running and the waiting ones, and whoever was accepted before the
  item at the front has left;
* `Inv.results`, `Inv.starts_prefix`, `Inv.order` — results are
  published in the order of the starts, starts in the order the worker took
  the items, and the items taken followed by those waiting are the accepted
  ones, in order, without the withdrawn.

All are read off one invariant, `Handoff.Inv`, which says for each list
what it is a segment of.
-/
import Mathlib.Data.List.Basic
import Mathlib.Data.List.Nodup
import YoruSpeech.Lib.Transition

namespace YoruSpeech.Lib

variable {ι : Type}

/-! ## States and moves -/

/-- What the producer is in the middle of, with the items it holds. -/
inductive Phase (ι : Type) where
  | idle
  /-- Accepted, its announcement not yet published. -/
  | queueing (i : ι)
  /-- The finishes are drained. -/
  | collected (results : List ι)
  /-- The starts are drained too, and these are left to publish. -/
  | announcing (starts results : List ι)
  /-- These results are left to publish. -/
  | reporting (results : List ι)
  /-- Withdrawn from the line, and these are left to publish. -/
  | withdrawing (todo : List ι)

namespace Phase

def queued : Phase ι → List ι
  | queueing i => [i]
  | _ => []

def starts : Phase ι → List ι
  | announcing starts _ => starts
  | _ => []

def results : Phase ι → List ι
  | collected rs => rs
  | announcing _ rs => rs
  | reporting rs => rs
  | _ => []

def todo : Phase ι → List ι
  | withdrawing is => is
  | _ => []

/-- The starts that will be published before the next result is, when
`started` is what the worker has announced and nobody has drained. -/
def ahead (started : List ι) : Phase ι → List ι
  | collected _ => started
  | announcing starts _ => starts
  | _ => []

end Phase

structure Handoff (ι : Type) where
  accepted : List ι := []
  pending : List ι := []
  taken : List ι := []
  running : List ι := []
  /-- Starts announced by the worker and not yet drained. -/
  started : List ι := []
  /-- Finishes announced by the worker and not yet drained. -/
  finished : List ι := []
  withdrawn : List ι := []
  phase : Phase ι := .idle
  queuedLog : List ι := []
  startedLog : List ι := []
  resultLog : List ι := []
  withdrawnLog : List ι := []

namespace Handoff

/-- The items whose finish the worker has announced. -/
def done (h : Handoff ι) : List ι := h.resultLog ++ h.phase.results ++ h.finished

/-- The moves of the two parties. -/
inductive Step : Handoff ι → Handoff ι → Prop
  | accept (h : Handoff ι) (i : ι) : h.phase = .idle → i ∉ h.accepted →
      Step h { h with
        accepted := h.accepted ++ [i], pending := h.pending ++ [i], phase := .queueing i }
  | announceQueued (h : Handoff ι) (i : ι) : h.phase = .queueing i →
      Step h { h with queuedLog := h.queuedLog ++ [i], phase := .idle }
  | take (h : Handoff ι) (i : ι) (rest : List ι) : h.running = [] → h.pending = i :: rest →
      Step h { h with
        pending := rest, taken := h.taken ++ [i], running := [i], started := h.started ++ [i] }
  | finish (h : Handoff ι) (i : ι) : h.running = [i] →
      Step h { h with running := [], finished := h.finished ++ [i] }
  | collect (h : Handoff ι) : h.phase = .idle →
      Step h { h with finished := [], phase := .collected h.finished }
  | gather (h : Handoff ι) (rs : List ι) : h.phase = .collected rs →
      Step h { h with started := [], phase := .announcing h.started rs }
  | announce (h : Handoff ι) (i : ι) (starts rs : List ι) :
      h.phase = .announcing (i :: starts) rs →
      Step h { h with startedLog := h.startedLog ++ [i], phase := .announcing starts rs }
  | announced (h : Handoff ι) (rs : List ι) : h.phase = .announcing [] rs →
      Step h { h with phase := .reporting rs }
  | report (h : Handoff ι) (i : ι) (rs : List ι) : h.phase = .reporting (i :: rs) →
      Step h { h with resultLog := h.resultLog ++ [i], phase := .reporting rs }
  | reported (h : Handoff ι) : h.phase = .reporting [] →
      Step h { h with phase := .idle }
  | withdraw (h : Handoff ι) (p : ι → Bool) : h.phase = .idle →
      Step h { h with
        pending := h.pending.filter fun i => !p i
        withdrawn := h.withdrawn ++ h.pending.filter p
        phase := .withdrawing (h.pending.filter p) }
  | reportWithdrawn (h : Handoff ι) (i : ι) (todo : List ι) :
      h.phase = .withdrawing (i :: todo) →
      Step h { h with withdrawnLog := h.withdrawnLog ++ [i], phase := .withdrawing todo }
  | withdrew (h : Handoff ι) : h.phase = .withdrawing [] →
      Step h { h with phase := .idle }

/-! ## The invariant -/

variable [DecidableEq ι]

structure Inv (h : Handoff ι) : Prop where
  nodup : h.accepted.Nodup
  order : h.taken ++ h.pending = h.accepted.filter (· ∉ h.withdrawn)
  work : h.resultLog ++ h.phase.results ++ h.finished ++ h.running = h.taken
  starts : h.startedLog ++ h.phase.starts ++ h.started = h.taken
  queued : h.queuedLog ++ h.phase.queued = h.accepted
  dropped : h.withdrawnLog ++ h.phase.todo = h.withdrawn
  droppedNodup : h.withdrawn.Nodup
  droppedAccepted : ∀ i ∈ h.withdrawn, i ∈ h.accepted
  results : h.resultLog <+: h.startedLog
  ahead : h.resultLog ++ h.phase.results <+: h.startedLog ++ h.phase.ahead h.started
  startsQueued : ∀ i ∈ h.startedLog ++ h.phase.starts, i ∈ h.queuedLog

theorem Inv.init : Inv ({} : Handoff ι) := by
  constructor <;> simp [Phase.results, Phase.starts, Phase.queued, Phase.todo, Phase.ahead]

namespace Inv

variable {h : Handoff ι}

/-- No item is both taken and waiting, and none is either twice. -/
theorem nodup_order (inv : Inv h) : (h.taken ++ h.pending).Nodup := by
  rw [inv.order]; exact inv.nodup.filter _

theorem mem_accepted_of_order (inv : Inv h) {i : ι} (hi : i ∈ h.taken ++ h.pending) :
    i ∈ h.accepted := by
  rw [inv.order] at hi
  exact (List.mem_filter.mp hi).1

/-- Once no announcement is outstanding, every taken item was announced. -/
theorem taken_queued (inv : Inv h) (hp : h.phase.queued = []) {i : ι} (hi : i ∈ h.taken) :
    i ∈ h.queuedLog := by
  have hacc := inv.mem_accepted_of_order (List.mem_append_left h.pending hi)
  rwa [← inv.queued, hp, List.append_nil] at hacc

/-- The finishes nobody has drained are, with the results already out, an
initial segment of the starts. -/
theorem collect_ahead (inv : Inv h) (hp : h.phase = .idle) :
    h.resultLog ++ h.finished <+: h.startedLog ++ h.started := by
  have hw := inv.work
  have hs := inv.starts
  simp only [hp, Phase.results, Phase.starts, List.append_nil] at hw hs
  exact ⟨h.running, hw.trans hs.symm⟩

/-- Withdrawing keeps what was taken and what stays in line, in order. -/
theorem order_withdraw (inv : Inv h) (p : ι → Bool) :
    h.taken ++ h.pending.filter (fun i => !p i) =
      h.accepted.filter (· ∉ h.withdrawn ++ h.pending.filter p) := by
  have hsplit : h.accepted.filter (fun i => i ∉ h.withdrawn ++ h.pending.filter p) =
      (h.accepted.filter (· ∉ h.withdrawn)).filter (· ∉ h.pending.filter p) := by
    rw [List.filter_filter]
    apply List.filter_congr
    intro i _
    simp only [List.mem_append, not_or, Bool.decide_and, Bool.and_comm]
  have hdisj := List.nodup_append.mp inv.nodup_order
  have htaken : h.taken.filter (· ∉ h.pending.filter p) = h.taken := by
    rw [List.filter_eq_self]
    intro i hi
    simp only [List.mem_filter, decide_eq_true_eq]
    exact fun hmem => hdisj.2.2 i hi i hmem.1 rfl
  have hpending : h.pending.filter (· ∉ h.pending.filter p) =
      h.pending.filter fun i => !p i := by
    apply List.filter_congr
    intro i hi
    cases hpi : p i <;> simp [hi, hpi]
  rw [hsplit, ← inv.order, List.filter_append, htaken, hpending]

/-- Accepting a new item adds it at the end of the order. -/
theorem order_accept (inv : Inv h) {i : ι} (hi : i ∉ h.accepted) :
    h.taken ++ (h.pending ++ [i]) = (h.accepted ++ [i]).filter (· ∉ h.withdrawn) := by
  have hnew : i ∉ h.withdrawn := fun hw => hi (inv.droppedAccepted i hw)
  rw [List.filter_append, ← inv.order, List.filter_cons_of_pos (by simpa using hnew),
    List.filter_nil, List.append_assoc]

/-! ### One lemma a move -/

/-- The producer turns to another phase that holds the same items. -/
theorem turn (inv : Inv h) {phase : Phase ι} (hq : phase.queued = h.phase.queued)
    (hs : phase.starts = h.phase.starts) (hr : phase.results = h.phase.results)
    (ht : phase.todo = h.phase.todo) (ha : phase.ahead h.started = h.phase.ahead h.started) :
    Inv { h with phase := phase } :=
  { inv with
    work := by simpa only [hr] using inv.work
    starts := by simpa only [hs] using inv.starts
    queued := by simpa only [hq] using inv.queued
    dropped := by simpa only [ht] using inv.dropped
    ahead := by simpa only [hr, ha] using inv.ahead
    startsQueued := by simpa only [hs] using inv.startsQueued }

theorem accept (inv : Inv h) {i : ι} (hp : h.phase = .idle) (hi : i ∉ h.accepted) :
    Inv { h with
      accepted := h.accepted ++ [i], pending := h.pending ++ [i], phase := .queueing i } :=
  { inv with
    nodup := by
      rw [List.nodup_append]
      refine ⟨inv.nodup, by simp, ?_⟩
      rintro a ha b hb rfl
      exact hi (List.mem_singleton.mp hb ▸ ha)
    order := inv.order_accept hi
    work := by simpa [hp, Phase.results] using inv.work
    starts := by simpa [hp, Phase.starts] using inv.starts
    queued := by simpa [hp, Phase.queued] using inv.queued
    dropped := by simpa [hp, Phase.todo] using inv.dropped
    droppedAccepted j hj := List.mem_append_left _ (inv.droppedAccepted j hj)
    ahead := by simpa [hp, Phase.results, Phase.ahead] using inv.ahead
    startsQueued := by simpa [hp, Phase.starts] using inv.startsQueued }

theorem announceQueued (inv : Inv h) {i : ι} (hp : h.phase = .queueing i) :
    Inv { h with queuedLog := h.queuedLog ++ [i], phase := .idle } :=
  { inv with
    work := by simpa [hp, Phase.results] using inv.work
    starts := by simpa [hp, Phase.starts] using inv.starts
    queued := by simpa [hp, Phase.queued] using inv.queued
    dropped := by simpa [hp, Phase.todo] using inv.dropped
    ahead := by simpa [hp, Phase.results, Phase.ahead] using inv.ahead
    startsQueued j hj :=
      List.mem_append_left [i] (inv.startsQueued j (by simpa [hp, Phase.starts] using hj)) }

/-- The worker takes the item at the front. Only the phase between the two
drains looks at `started`, which grows at its end. -/
theorem take (inv : Inv h) {i : ι} {rest : List ι} (hrun : h.running = [])
    (hpend : h.pending = i :: rest) :
    Inv { h with
      pending := rest, taken := h.taken ++ [i], running := [i], started := h.started ++ [i] } :=
  { inv with
    order := by rw [← inv.order, hpend, List.append_assoc, List.singleton_append]
    work := by simp [← inv.work, hrun]
    starts := by simp [← inv.starts]
    ahead := by
      have hahead := inv.ahead
      cases hp : h.phase with
      | collected rs =>
        simp only [hp, Phase.results, Phase.ahead] at hahead ⊢
        exact hahead.trans ⟨[i], by simp⟩
      | _ => simpa [hp, Phase.results, Phase.ahead] using hahead }

theorem finish (inv : Inv h) {i : ι} (hrun : h.running = [i]) :
    Inv { h with running := [], finished := h.finished ++ [i] } :=
  { inv with work := by simp [← inv.work, hrun] }

theorem collect (inv : Inv h) (hp : h.phase = .idle) :
    Inv { h with finished := [], phase := .collected h.finished } :=
  { inv with
    work := by simpa [hp, Phase.results] using inv.work
    starts := by simpa [hp, Phase.starts] using inv.starts
    queued := by simpa [hp, Phase.queued] using inv.queued
    dropped := by simpa [hp, Phase.todo] using inv.dropped
    ahead := inv.collect_ahead hp
    startsQueued := by simpa [hp, Phase.starts] using inv.startsQueued }

/-- The second drain takes the starts, all of them of items taken and so
announced as accepted. -/
theorem gather (inv : Inv h) {rs : List ι} (hp : h.phase = .collected rs) :
    Inv { h with started := [], phase := .announcing h.started rs } :=
  { inv with
    work := by simpa [hp, Phase.results] using inv.work
    starts := by simpa [hp, Phase.starts] using inv.starts
    queued := by simpa [hp, Phase.queued] using inv.queued
    dropped := by simpa [hp, Phase.todo] using inv.dropped
    ahead := by simpa [hp, Phase.results, Phase.ahead] using inv.ahead
    startsQueued i hi := by
      have htaken : i ∈ h.taken := by
        rw [← inv.starts]
        simpa [hp, Phase.starts] using hi
      exact inv.taken_queued (by rw [hp]; rfl) htaken }

theorem announce (inv : Inv h) {i : ι} {starts rs : List ι}
    (hp : h.phase = .announcing (i :: starts) rs) :
    Inv { h with startedLog := h.startedLog ++ [i], phase := .announcing starts rs } :=
  { inv with
    work := by simpa [hp, Phase.results] using inv.work
    starts := by simpa [hp, Phase.starts] using inv.starts
    queued := by simpa [hp, Phase.queued] using inv.queued
    dropped := by simpa [hp, Phase.todo] using inv.dropped
    results := inv.results.trans ⟨[i], rfl⟩
    ahead := by simpa [hp, Phase.results, Phase.ahead] using inv.ahead
    startsQueued := by simpa [hp, Phase.starts] using inv.startsQueued }

/-- The result published is the next of the starts published. -/
theorem report (inv : Inv h) {i : ι} {rs : List ι} (hp : h.phase = .reporting (i :: rs)) :
    Inv { h with resultLog := h.resultLog ++ [i], phase := .reporting rs } :=
  { inv with
    work := by simpa [hp, Phase.results] using inv.work
    starts := by simpa [hp, Phase.starts] using inv.starts
    queued := by simpa [hp, Phase.queued] using inv.queued
    dropped := by simpa [hp, Phase.todo] using inv.dropped
    results := by
      have hone : h.resultLog ++ [i] <+: h.resultLog ++ i :: rs := ⟨rs, by simp⟩
      exact hone.trans (by simpa [hp, Phase.results, Phase.ahead] using inv.ahead)
    ahead := by simpa [hp, Phase.results, Phase.ahead] using inv.ahead
    startsQueued := by simpa [hp, Phase.starts] using inv.startsQueued }

/-- What is withdrawn was waiting, so it was accepted and not withdrawn
before. -/
theorem withdraw (inv : Inv h) (p : ι → Bool) (hp : h.phase = .idle) :
    Inv { h with
      pending := h.pending.filter fun i => !p i
      withdrawn := h.withdrawn ++ h.pending.filter p
      phase := .withdrawing (h.pending.filter p) } :=
  { inv with
    order := inv.order_withdraw p
    work := by simpa [hp, Phase.results] using inv.work
    starts := by simpa [hp, Phase.starts] using inv.starts
    queued := by simpa [hp, Phase.queued] using inv.queued
    dropped := by
      have hdropped := inv.dropped
      simp only [hp, Phase.todo, List.append_nil] at hdropped
      simp only [Phase.todo, hdropped]
    droppedNodup := by
      rw [List.nodup_append]
      refine ⟨inv.droppedNodup, (List.nodup_append.mp inv.nodup_order).2.1.filter _, ?_⟩
      rintro a ha b hb rfl
      have hmem : a ∈ h.accepted.filter (· ∉ h.withdrawn) := by
        rw [← inv.order]
        exact List.mem_append_right _ (List.mem_of_mem_filter hb)
      simp [ha] at hmem
    droppedAccepted i hi := by
      rcases List.mem_append.mp hi with hw | hw
      · exact inv.droppedAccepted i hw
      · exact inv.mem_accepted_of_order (List.mem_append_right _ (List.mem_of_mem_filter hw))
    ahead := by simpa [hp, Phase.results, Phase.ahead] using inv.ahead
    startsQueued := by simpa [hp, Phase.starts] using inv.startsQueued }

theorem reportWithdrawn (inv : Inv h) {i : ι} {todo : List ι}
    (hp : h.phase = .withdrawing (i :: todo)) :
    Inv { h with withdrawnLog := h.withdrawnLog ++ [i], phase := .withdrawing todo } :=
  { inv with
    work := by simpa [hp, Phase.results] using inv.work
    starts := by simpa [hp, Phase.starts] using inv.starts
    queued := by simpa [hp, Phase.queued] using inv.queued
    dropped := by simpa [hp, Phase.todo] using inv.dropped
    ahead := by simpa [hp, Phase.results, Phase.ahead] using inv.ahead
    startsQueued := by simpa [hp, Phase.starts] using inv.startsQueued }

/-- **Every move keeps the invariant.** -/
theorem step {h' : Handoff ι} (inv : Inv h) (hs : Step h h') : Inv h' := by
  cases hs with
  | accept i hp hi => exact inv.accept hp hi
  | announceQueued i hp => exact inv.announceQueued hp
  | take i rest hrun hpend => exact inv.take hrun hpend
  | finish i hrun => exact inv.finish hrun
  | collect hp => exact inv.collect hp
  | gather rs hp => exact inv.gather hp
  | announce i starts rs hp => exact inv.announce hp
  | report i rs hp => exact inv.report hp
  | withdraw p hp => exact inv.withdraw p hp
  | reportWithdrawn i todo hp => exact inv.reportWithdrawn hp
  | announced rs hp | reported hp | withdrew hp =>
    exact inv.turn (by rw [hp]; rfl) (by rw [hp]; rfl) (by rw [hp]; rfl) (by rw [hp]; rfl)
      (by rw [hp]; rfl)

/-! ## What the invariant says -/

/-- An accepted item that was not withdrawn is taken or waiting, once. -/
theorem count_order (inv : Inv h) {i : ι} (hi : i ∈ h.accepted) (hw : i ∉ h.withdrawn) :
    h.taken.count i + h.pending.count i = 1 := by
  have hmem : i ∈ h.taken ++ h.pending := by
    rw [inv.order]; exact List.mem_filter.mpr ⟨hi, by simpa using hw⟩
  rw [← List.count_append]
  exact List.count_eq_one_of_mem inv.nodup_order hmem

/-- A withdrawn item is neither taken nor waiting. -/
theorem not_mem_order (inv : Inv h) {i : ι} (hw : i ∈ h.withdrawn) :
    i ∉ h.taken ++ h.pending := by
  rw [inv.order]
  intro hmem
  exact absurd hw (by simpa using (List.mem_filter.mp hmem).2)

/-- **An accepted item is in exactly one place.** -/
theorem exactly_one (inv : Inv h) {i : ι} (hi : i ∈ h.accepted) :
    h.pending.count i + h.running.count i
      + (h.finished.count i + h.phase.results.count i + h.phase.todo.count i)
      + (h.resultLog.count i + h.withdrawnLog.count i) = 1 := by
  have hwork : h.taken.count i = h.resultLog.count i + h.phase.results.count i
      + h.finished.count i + h.running.count i := by
    rw [← inv.work]; simp only [List.count_append]
  have hdrop : h.withdrawn.count i = h.withdrawnLog.count i + h.phase.todo.count i := by
    rw [← inv.dropped]; simp only [List.count_append]
  by_cases hw : i ∈ h.withdrawn
  · have hone := List.count_eq_one_of_mem inv.droppedNodup hw
    have hzero := List.count_eq_zero.mpr (inv.not_mem_order hw)
    rw [List.count_append] at hzero
    omega
  · have hone := inv.count_order hi hw
    have hzero := List.count_eq_zero.mpr hw
    omega

/-- The items that were taken and are not running are the finished ones. -/
theorem work_done (inv : Inv h) : h.done ++ h.running = h.taken := inv.work

/-- The accepted items that are neither finished nor withdrawn are the one
that runs and those that wait. -/
theorem outstanding (inv : Inv h) :
    h.accepted.filter (fun i => decide (i ∉ h.done ∧ i ∉ h.withdrawn)) =
      h.running ++ h.pending := by
  have horder : h.accepted.filter (· ∉ h.withdrawn) = h.done ++ (h.running ++ h.pending) := by
    rw [← inv.order, ← inv.work_done, List.append_assoc]
  have hnodup : (h.done ++ (h.running ++ h.pending)).Nodup := by
    rw [← horder]
    exact inv.nodup.filter _
  have hdisjoint := (List.nodup_append.mp hnodup).2.2
  have hsplit : h.accepted.filter (fun i => decide (i ∉ h.done ∧ i ∉ h.withdrawn)) =
      (h.accepted.filter (· ∉ h.withdrawn)).filter (· ∉ h.done) := by
    rw [List.filter_filter]
    apply List.filter_congr
    intro i _
    simp only [Bool.decide_and]
  have hnone : h.done.filter (· ∉ h.done) = [] := by
    rw [List.filter_eq_nil_iff]
    intro i hi
    simp [hi]
  have hall : (h.running ++ h.pending).filter (· ∉ h.done) = h.running ++ h.pending := by
    rw [List.filter_eq_self]
    intro i hi
    simp only [decide_eq_true_eq]
    exact fun hdone => hdisjoint i hdone i hi rfl
  rw [hsplit, horder, List.filter_append, hnone, hall, List.nil_append]

/-- When nothing runs, whoever was accepted before the item at the front has
left. -/
theorem front (inv : Inv h) {i : ι} {before later rest : List ι}
    (haccepted : h.accepted = before ++ i :: later) (hrunning : h.running = [])
    (hpending : h.pending = i :: rest) : ∀ x ∈ before, x ∈ h.done ∨ x ∈ h.withdrawn := by
  have hfront : i ∉ h.withdrawn := by
    intro hw
    exact inv.not_mem_order hw (List.mem_append_right _ (by simp [hpending]))
  have horder : h.done ++ i :: rest =
      before.filter (· ∉ h.withdrawn) ++ i :: later.filter (· ∉ h.withdrawn) := by
    have ho := inv.order
    rw [← inv.work_done, hrunning, List.append_nil, hpending, haccepted, List.filter_append,
      List.filter_cons_of_pos (by simpa using hfront)] at ho
    exact ho
  -- both sides are cut at the one place of `i`
  have hnodup := inv.nodup_order
  rw [← inv.work_done, hrunning, List.append_nil, hpending] at hnodup
  have hdone : i ∉ h.done := fun hi => (List.nodup_append.mp hnodup).2.2 i hi i (by simp) rfl
  have hrest : i ∉ rest := (List.nodup_cons.mp (List.nodup_append.mp hnodup).2.1).1
  obtain ⟨hcut, -, -⟩ := (List.append_cons_inj_of_notMem hdone hrest).mp horder
  intro x hx
  by_cases hw : x ∈ h.withdrawn
  · exact .inr hw
  · rw [hcut]
    exact .inl (List.mem_filter.mpr ⟨hx, by simpa using hw⟩)

/-- Starts are published in the order the worker took the items. -/
theorem starts_prefix (inv : Inv h) : h.startedLog <+: h.taken :=
  ⟨h.phase.starts ++ h.started, by rw [← List.append_assoc, inv.starts]⟩

/-- Items are published as started only after they were announced as
accepted. -/
theorem started_queued (inv : Inv h) {i : ι} (hi : i ∈ h.startedLog) : i ∈ h.queuedLog :=
  inv.startsQueued i (List.mem_append_left _ hi)

/-- Taking the front item moves the others forward. -/
theorem idxOf_rest_lt (inv : Inv h) {i j : ι} {rest : List ι} (hpend : h.pending = j :: rest)
    (hi : i ∈ rest) : rest.idxOf i < h.pending.idxOf i := by
  have hnodup := (List.nodup_append.mp inv.nodup_order).2.1
  rw [hpend] at hnodup ⊢
  have hne : j ≠ i := fun heq => (List.nodup_cons.mp hnodup).1 (heq ▸ hi)
  rw [List.idxOf_cons_ne rest hne]
  exact Nat.lt_succ_self _

end Inv

/-! ## How far an item has got -/

theorem idxOf_filter_le {p : ι → Bool} {i : ι} (l : List ι) (hi : p i = true) :
    (l.filter p).idxOf i ≤ l.idxOf i := by
  induction l with
  | nil => exact Nat.le_refl _
  | cons x l ih =>
    cases hx : p x with
    | true =>
      rw [List.filter_cons_of_pos hx, List.idxOf_cons, List.idxOf_cons]
      cases x == i with
      | true => exact Nat.le_refl 0
      | false => exact Nat.succ_le_succ ih
    | false =>
      have hne : x ≠ i := fun heq => by rw [heq, hi] at hx; cases hx
      rw [List.filter_cons_of_neg (by simp [hx]), List.idxOf_cons_ne l hne]
      exact Nat.le_succ_of_le ih

/-- The item was accepted and does not wait any more. -/
def OutOfLine (h : Handoff ι) (i : ι) : Prop := i ∈ h.accepted ∧ i ∉ h.pending

/-- The worker does not have it either. -/
def OutOfWork (h : Handoff ι) (i : ι) : Prop := h.OutOfLine i ∧ i ∉ h.running

/-- And its finish has been drained. -/
def Collected (h : Handoff ι) (i : ι) : Prop := h.OutOfWork i ∧ i ∉ h.finished

namespace Step

variable {h h' : Handoff ι} {i : ι}

omit [DecidableEq ι] in
theorem mem_accepted (hs : Step h h') (hi : i ∈ h.accepted) : i ∈ h'.accepted := by
  cases hs with
  | accept j _ _ => exact List.mem_append_left [j] hi
  | _ => exact hi

/-- An item that still waits has not moved back in the line. -/
theorem idxOf_pending_le (inv : Inv h) (hs : Step h h') (hold : i ∈ h.pending)
    (hi : i ∈ h'.pending) : h'.pending.idxOf i ≤ h.pending.idxOf i := by
  cases hs with
  | accept j _ _ => exact Nat.le_of_eq (List.idxOf_append_of_mem hold)
  | take j rest _ hpend => exact Nat.le_of_lt (inv.idxOf_rest_lt hpend hi)
  | withdraw p _ => exact idxOf_filter_le h.pending (List.mem_filter.mp hi).2
  | _ => exact Nat.le_refl _

omit [DecidableEq ι] in
theorem outOfLine (hs : Step h h') (hi : h.OutOfLine i) : h'.OutOfLine i := by
  refine ⟨hs.mem_accepted hi.1, ?_⟩
  cases hs with
  | accept j _ hj =>
    intro hmem
    rcases List.mem_append.mp hmem with hmem | hmem
    · exact hi.2 hmem
    · exact hj (List.mem_singleton.mp hmem ▸ hi.1)
  | take j rest _ hpend => exact fun hmem => hi.2 (hpend ▸ List.mem_cons_of_mem j hmem)
  | withdraw p _ => exact fun hmem => hi.2 (List.mem_of_mem_filter hmem)
  | _ => exact hi.2

omit [DecidableEq ι] in
theorem outOfWork (hs : Step h h') (hi : h.OutOfWork i) : h'.OutOfWork i := by
  refine ⟨hs.outOfLine hi.1, ?_⟩
  cases hs with
  | take j rest _ hpend =>
    -- the item taken was waiting
    intro hmem
    exact hi.1.2 (hpend ▸ List.mem_singleton.mp hmem ▸ List.mem_cons_self)
  | finish j _ => exact List.not_mem_nil
  | _ => exact hi.2

omit [DecidableEq ι] in
theorem collected (hs : Step h h') (hi : h.Collected i) : h'.Collected i := by
  refine ⟨hs.outOfWork hi.1, ?_⟩
  cases hs with
  | finish j hrun =>
    -- the item finished was running
    intro hmem
    rcases List.mem_append.mp hmem with hmem | hmem
    · exact hi.2 hmem
    · exact hi.1.2 (hrun ▸ hmem)
  | collect _ => exact List.not_mem_nil
  | _ => exact hi.2

end Step

/-- The same over several moves. -/
theorem idxOf_pending_le_of_steps {h h' : Handoff ι} {i : ι} (inv : Inv h)
    (hs : Steps Step h h') (hold : i ∈ h.pending) (hi : i ∈ h'.pending) :
    h'.pending.idxOf i ≤ h.pending.idxOf i := by
  have hacc : i ∈ h.accepted := inv.mem_accepted_of_order (List.mem_append_right _ hold)
  have hmoves : Inv h' ∧ i ∈ h'.accepted ∧
      (i ∈ h'.pending → h'.pending.idxOf i ≤ h.pending.idxOf i) := by
    refine hs.invariant (P := fun x => Inv x ∧ i ∈ x.accepted ∧
      (i ∈ x.pending → x.pending.idxOf i ≤ h.pending.idxOf i))
      ⟨inv, hacc, fun _ => Nat.le_refl _⟩ ?_
    rintro x y ⟨hx, hax, hle⟩ hstep
    refine ⟨hx.step hstep, hstep.mem_accepted hax, fun hy => ?_⟩
    have hwaits : i ∈ x.pending := by
      by_contra hno
      exact (hstep.outOfLine ⟨hax, hno⟩).2 hy
    exact Nat.le_trans (hstep.idxOf_pending_le hx hwaits hy) (hle hwaits)
  exact hmoves.2.2 hi

end Handoff

end YoruSpeech.Lib

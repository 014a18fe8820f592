/-
YoruSpeech.Session.TranscriptionQueue — the bounded FIFO between the
owner thread and the transcription worker (`transcription_queue.cpp`).

Each definition is one critical section of the source, i.e. what happens
between taking `mutex_` and releasing it. How the sections of the two
threads interleave, the condition variable, the abort flag of the backend
and the join of the worker thread are in `YoruSpeech.Session.Machine`.
`enqueued_at` is written and never read, and is left out.
-/
import YoruSpeech.Core.Event

namespace YoruSpeech

/-- `session::TranscriptionJob`. -/
structure TranscriptionJob where
  sessionId : SessionId
  samples : List Sample
  request : TranscriptionRequest
  deriving DecidableEq, Repr

/-- `session::TranscriptionJobResult`. -/
structure TranscriptionJobResult where
  sessionId : SessionId
  result : TranscriptionResult
  deriving DecidableEq, Repr

/-- `session::QueueSnapshot`. -/
structure QueueSnapshot where
  pending : Nat
  busy : Bool
  deriving DecidableEq, Repr

/-- The data `mutex_` guards, with the capacity and whether the worker
thread can still be joined. -/
structure TranscriptionQueue where
  capacity : Nat
  pending : List TranscriptionJob := []
  started : List SessionId := []
  completed : List TranscriptionJobResult := []
  busy : Bool := false
  stopping : Bool := false
  joinable : Bool := true
  deriving DecidableEq, Repr

namespace TranscriptionQueue

/-- `TranscriptionQueue::default_capacity`. -/
def defaultCapacity : Nat := 8

/-- `pending_.size() + (busy_ ? 1 : 0)`. -/
def outstandingCount (q : TranscriptionQueue) : Nat :=
  q.pending.length + if q.busy then 1 else 0

/-- `try_enqueue`: the position given to the job, or `none`. -/
def tryEnqueue (q : TranscriptionQueue) (job : TranscriptionJob) :
    TranscriptionQueue × Option Nat :=
  if q.stopping || q.capacity ≤ q.pending.length then (q, none)
  else ({ q with pending := q.pending ++ [job] }, some q.outstandingCount)

/-- `has_capacity`. -/
def hasCapacity (q : TranscriptionQueue) : Bool :=
  !q.stopping && q.pending.length < q.capacity

/-- `cancel_pending`: erases the first waiting job of that session. -/
def cancelPending (q : TranscriptionQueue) (id : SessionId) : TranscriptionQueue × Bool :=
  if q.pending.any (·.sessionId == id) then
    ({ q with pending := q.pending.eraseP (·.sessionId == id) }, true)
  else (q, false)

/-- `drain_started`. -/
def drainStarted (q : TranscriptionQueue) : TranscriptionQueue × List SessionId :=
  ({ q with started := [] }, q.started)

/-- `drain_completed`. -/
def drainCompleted (q : TranscriptionQueue) :
    TranscriptionQueue × List TranscriptionJobResult :=
  ({ q with completed := [] }, q.completed)

/-- `snapshot`. -/
def snapshot (q : TranscriptionQueue) : QueueSnapshot :=
  { pending := q.pending.length, busy := q.busy }

/-- The section of `shutdown` that sets `stopping_` and takes the waiting
jobs. -/
def stop (q : TranscriptionQueue) : TranscriptionQueue × List SessionId :=
  ({ q with stopping := true, pending := [] }, q.pending.map (·.sessionId))

/-- The section of `run` that takes the front job, once there is one. -/
def pop (q : TranscriptionQueue) : Option (TranscriptionQueue × TranscriptionJob) :=
  match q.pending with
  | [] => none
  | job :: rest =>
    some ({ q with
      pending := rest, busy := true, started := q.started ++ [job.sessionId] }, job)

/-- The section of `run` that hands a result over. -/
def finish (q : TranscriptionQueue) (r : TranscriptionJobResult) : TranscriptionQueue :=
  { q with busy := false, completed := q.completed ++ [r] }

/-! ## Ids of the jobs in each container -/

def pendingIds (q : TranscriptionQueue) : List SessionId :=
  q.pending.map (·.sessionId)

def completedIds (q : TranscriptionQueue) : List SessionId :=
  q.completed.map (·.sessionId)

/-- Erasing the first job of a session from a queue without repetitions
leaves exactly the jobs of the other sessions. -/
theorem eraseP_ids_of_nodup : ∀ {jobs : List TranscriptionJob} {id : SessionId},
    (jobs.map (·.sessionId)).Nodup →
    (jobs.eraseP (·.sessionId == id)).map (·.sessionId) =
      (jobs.map (·.sessionId)).filter (· ≠ id)
  | [], _, _ => rfl
  | job :: rest, id, hnd => by
      simp only [List.map_cons, List.nodup_cons] at hnd
      obtain ⟨hnotin, hrest⟩ := hnd
      by_cases hid : job.sessionId = id
      · -- the head is the job: no later one has its id, so the filter keeps the tail whole
        subst hid
        have hkeep : (rest.map (·.sessionId)).filter (· ≠ job.sessionId) =
            rest.map (·.sessionId) := by
          rw [List.filter_eq_self]
          intro x hx
          simp only [decide_eq_true_eq]
          exact fun heq => hnotin (heq ▸ hx)
        rw [List.eraseP_cons_of_pos (by simp), List.map_cons,
          List.filter_cons_of_neg (by simp), hkeep]
      · rw [List.eraseP_cons_of_neg (by simpa using hid), List.map_cons, List.map_cons,
          List.filter_cons_of_pos (by simpa using hid), eraseP_ids_of_nodup hrest]

end TranscriptionQueue

end YoruSpeech

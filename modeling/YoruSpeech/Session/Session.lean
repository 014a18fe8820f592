/-
YoruSpeech.Session.Session — the two state machines of the session domain
(`service_state.cpp`, `session.cpp`): the service as a whole, and the life
of one dictation.
-/
import YoruSpeech.Core.Event

namespace YoruSpeech

/-- `session::ServiceState`. -/
inductive ServiceState where
  | idle | recording | processing | error
  deriving DecidableEq, Repr

/-- `can_transition(ServiceState, ServiceState)`. -/
def ServiceState.canTransition : ServiceState → ServiceState → Bool
  | .idle, next => next == .recording
  | .recording, next => next == .processing || next == .idle || next == .error
  | .processing, next => next == .idle || next == .error
  | .error, next => next == .idle

/-- `session::SessionState`. -/
inductive SessionState where
  | created | recording | processing | completed | failed
  deriving DecidableEq, Repr

/-- `can_transition(SessionState, SessionState)`. -/
def SessionState.canTransition : SessionState → SessionState → Bool
  | .created, next => next == .recording
  | .recording, next => next == .processing || next == .failed
  | .processing, next => next == .completed || next == .failed
  | .completed, _ => false
  | .failed, _ => false

/-- `session::Session`. -/
structure Session where
  id : SessionId
  state : SessionState := .created
  createdAt : Nat
  finishedAt : Option Nat := none
  deriving DecidableEq, Repr

namespace Session

/-- `Session::try_transition`: whether the move is allowed, and the session
after it (unchanged when it is not). -/
def tryTransition (s : Session) (next : SessionState) (now : Nat) : Bool × Session :=
  if s.state.canTransition next then
    (true, { s with
      state := next
      finishedAt := if next = .completed ∨ next = .failed then some now else s.finishedAt })
  else (false, s)

@[simp] theorem tryTransition_id (s : Session) (next : SessionState) (now : Nat) :
    (s.tryTransition next now).2.id = s.id := by
  unfold tryTransition; split <;> rfl

/-- A session that is still recording or processing can fail, and records
when. -/
theorem tryTransition_failed {s : Session} (now : Nat)
    (h : s.state = .recording ∨ s.state = .processing) :
    (s.tryTransition .failed now).2 =
      { s with state := .failed, finishedAt := some now } := by
  rcases h with h | h <;> simp [tryTransition, SessionState.canTransition, h]

end Session

end YoruSpeech

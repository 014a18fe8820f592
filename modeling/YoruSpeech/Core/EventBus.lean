/-
YoruSpeech.Core.EventBus — the synchronous event bus
(`core/event_bus.hpp`).

`publish` runs the handlers of the event's type one after the other, in
subscription order, on the caller's stack. A handler may publish in turn:
the nested event reaches its subscribers before the outer publication goes
on. A handler may also throw; the exception leaves `publish` and the
remaining handlers do not run. `Except σ σ` carries the state in both
cases.

A nested publication is a recursive call, so the depth of nesting is an
argument; a handler that would publish deeper than that does nothing.
-/

namespace YoruSpeech

section Bus

variable {σ ε : Type}

/-- One call of `subscribe`. -/
structure Subscription (σ ε : Type) where
  /-- The event type it was made for. -/
  accepts : ε → Bool
  /-- The handler, given `publish` on the same bus. -/
  handler : (σ → ε → Except σ σ) → σ → ε → Except σ σ

/-- Run these handlers on an event, up to the first that throws. -/
def runHandlers (publish : σ → ε → Except σ σ) (e : ε) :
    List (Subscription σ ε) → σ → Except σ σ
  | [], s => .ok s
  | sub :: rest, s =>
    if sub.accepts e then sub.handler publish s e >>= runHandlers publish e rest
    else runHandlers publish e rest s

/-- `EventBus::publish`. -/
def publish (subscriptions : List (Subscription σ ε)) : Nat → σ → ε → Except σ σ
  | 0, s, _ => .ok s
  | depth + 1, s, e => runHandlers (publish subscriptions depth) e subscriptions s

end Bus

end YoruSpeech

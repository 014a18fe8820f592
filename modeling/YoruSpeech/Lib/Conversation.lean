/-
YoruSpeech.Lib.Conversation — what one client is sent by a server that
answers requests and announces events to those who listen.

A `Protocol` says which lines answer a request, which line tells an event,
and which requests turn the announcements on or off. `Talk` relates the
history of a client (its requests as they are answered, and every event of
the server) to the lines it is sent: each request gives one line, each
event one line while the client listens and none otherwise, in the order of
the history.
-/
import Mathlib.Data.List.Forall2

namespace YoruSpeech.Lib

structure Protocol (Q E L : Type) where
  answers : Q → L → Prop
  tells : E → L → Prop
  /-- What the request does to the announcements, if anything. -/
  switch : Q → Option Bool

inductive Entry (Q E : Type) where
  | request (q : Q)
  | event (e : E)
  deriving DecidableEq

def Entry.request? {Q E : Type} : Entry Q E → Option Q
  | .request q => some q
  | .event _ => none

def Entry.event? {Q E : Type} : Entry Q E → Option E
  | .request _ => none
  | .event e => some e

/-- A client that listens or not is sent these lines over this history, and
listens or not afterwards. -/
inductive Talk {Q E L : Type} (p : Protocol Q E L) :
    Bool → List (Entry Q E) → List L → Bool → Prop
  | nil (listens : Bool) : Talk p listens [] [] listens
  | answered {listens after : Bool} {q : Q} {line : L} {history : List (Entry Q E)}
      {lines : List L} : p.answers q line →
      Talk p ((p.switch q).getD listens) history lines after →
      Talk p listens (.request q :: history) (line :: lines) after
  | told {after : Bool} {e : E} {line : L} {history : List (Entry Q E)} {lines : List L} :
      p.tells e line → Talk p true history lines after →
      Talk p true (.event e :: history) (line :: lines) after
  | unheard {after : Bool} {e : E} {history : List (Entry Q E)} {lines : List L} :
      Talk p false history lines after → Talk p false (.event e :: history) lines after

namespace Talk

variable {Q E L : Type} {p : Protocol Q E L} {listens between after : Bool}
  {history history' : List (Entry Q E)} {lines lines' : List L}

theorem trans (h : Talk p listens history lines between)
    (h' : Talk p between history' lines' after) :
    Talk p listens (history ++ history') (lines ++ lines') after := by
  induction h with
  | nil _ => exact h'
  | answered hline _ ih => exact .answered hline (ih h')
  | told hline _ ih => exact .told hline (ih h')
  | unheard _ ih => exact .unheard (ih h')

/-- One event. -/
theorem event {e : E} {line : L} (hline : p.tells e line) :
    Talk p listens [.event e] (if listens = true then [line] else []) listens := by
  cases listens with
  | true => exact .told hline (.nil true)
  | false => exact .unheard (.nil false)

/-- One request. -/
theorem request {q : Q} {line : L} (hline : p.answers q line)
    (hswitch : (p.switch q).getD listens = after) :
    Talk p listens [.request q] [line] after := by
  subst hswitch
  exact .answered hline (.nil _)

/-- A listener without further requests is told every event. -/
theorem all_told (h : Talk p listens history lines after) (hlistens : listens = true)
    (hrequests : history.filterMap Entry.request? = []) :
    List.Forall₂ p.tells (history.filterMap Entry.event?) lines := by
  induction h with
  | nil _ => exact .nil
  | answered _ _ _ => cases hrequests
  | told hline _ ih => exact .cons hline (ih rfl hrequests)
  | unheard _ _ => cases hlistens

/-- A client that has not listened, asks for the announcements and asks
nothing before or after gets the answer, then every event from there on. -/
theorem subscribed {q : Q} {earlier later : List (Entry Q E)}
    (h : Talk p false (earlier ++ .request q :: later) lines after)
    (hearlier : earlier.filterMap Entry.request? = []) (hswitch : p.switch q = some true)
    (hlater : later.filterMap Entry.request? = []) :
    ∃ response told, lines = response :: told ∧ p.answers q response ∧
      List.Forall₂ p.tells (later.filterMap Entry.event?) told := by
  induction earlier with
  | nil =>
    cases h with
    | answered hline htalk =>
      rw [hswitch] at htalk
      exact ⟨_, _, rfl, hline, htalk.all_told rfl hlater⟩
  | cons entry earlier ih =>
    cases entry with
    | request q' => cases hearlier
    | event e =>
      cases h with
      | unheard htalk => exact ih htalk hearlier

end Talk

end YoruSpeech.Lib

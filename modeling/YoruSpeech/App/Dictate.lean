/-
YoruSpeech.App.Dictate — the waiting side of the dictation helper
(`packaging/hyprland/yoru-dictate`).

`loads` is `json.loads(line.decode())`, `none` when it raises. The lines
are those that reach the client before its deadline; a run of the loop that
has consumed them all is still `waiting`. Session ids are compared as the
daemon writes them, as unsigned integers.

`waitForTranscript` takes the lines as they are; in `Dictate` the helper
reads them off its socket, with the chunks `recv` returns as an input.
-/
import YoruSpeech.Ipc.IpcServer
import YoruSpeech.Lib.Json

namespace YoruSpeech

open Lib (Json)

/-- Where a call of `wait_for_transcript` stands. -/
inductive WaitResult where
  /-- It returned this pair; `none` is `None`. -/
  | returned (text error : Option Json)
  | raised
  | waiting

/-- `event.get(key) == name`. -/
def fieldIs (event : Json) (key name : String) : Bool :=
  match event.get? (str key) with
  | some (.str bytes) => bytes == str name
  | _ => false

/-- `event.get("session_id") == session_id`. -/
def sessionIs (event : Json) (sessionId : SessionId) : Bool :=
  match event.get? (str "session_id") with
  | some (.unsigned n) => n == sessionId
  | _ => false

/-- What the loop body does with an event; `none` reads on. -/
def readEvent (sessionId : SessionId) (event : Json) : Option WaitResult :=
  -- only an object has `get`
  if event.isObject = false then some .raised
  else if (!fieldIs event "type" "event" || !sessionIs event sessionId) = true then none
  else if fieldIs event "event" "transcription_completed" = true then
    some (.returned (some ((event.get? (str "text")).getD (.str []))) none)
  else if fieldIs event "event" "error_occurred" = true then
    some (.returned none (some ((event.get? (str "message")).getD (.str (str "unknown error")))))
  else if fieldIs event "event" "session_cancelled" = true then
    some (.returned none (some (.str (str "cancelled"))))
  else none

/-- `wait_for_transcript`. -/
def waitForTranscript (loads : Bytes → Option Json) (sessionId : SessionId) :
    List Bytes → WaitResult
  | [] => .waiting
  | line :: rest =>
    match loads line with
    | none => .raised
    | some event =>
      match readEvent sessionId event with
      | some result => result
      | none => waitForTranscript loads sessionId rest

/-! ## From the socket -/

namespace Dictate

/-- How a call of `read_line` ends. -/
inductive Received where
  /-- A message, what is left in the buffer, and what `recv` has not
  returned yet. -/
  | message (event : Json) (buffer : Bytes) (later : List Bytes)
  | raised
  /-- Inside `recv`, with nothing more to come before the deadline. -/
  | blocked

/-- The end of `read_line`. -/
def decoded (loads : Bytes → Option Json) (line rest : Bytes) (later : List Bytes) : Received :=
  match loads line with
  | some event => .message event rest later
  | none => .raised

/-- `read_line`. An empty chunk says that the daemon closed the
connection. -/
def readLine (loads : Bytes → Option Json) (buffer : Bytes) : List Bytes → Received
  | [] =>
    match IpcServer.splitLine buffer with
    | some (line, rest) => decoded loads line rest []
    | none => .blocked
  | chunk :: later =>
    match IpcServer.splitLine buffer with
    | some (line, rest) => decoded loads line rest (chunk :: later)
    | none => if chunk = [] then .raised else readLine loads (buffer ++ chunk) later

/-- The loop of `wait_for_transcript`. -/
def waitLoop (loads : Bytes → Option Json) (sessionId : SessionId) :
    Nat → Bytes → List Bytes → WaitResult
  | 0, _, _ => .waiting
  | fuel + 1, buffer, chunks =>
    match readLine loads buffer chunks with
    | .blocked => .waiting
    | .raised => .raised
    | .message event buffer later =>
      match readEvent sessionId event with
      | some result => result
      | none => waitLoop loads sessionId fuel buffer later

end Dictate

end YoruSpeech

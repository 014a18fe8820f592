/-
YoruSpeech.Clipboard.AutoClipboard — copying transcripts
(`domains/clipboard/auto_clipboard.cpp`), over the ways
`WlClipboardAdapter::copy` can fail.

The subprocess is not part of the model: how a copy ends is an input.
-/
import YoruSpeech.Core.Event
import YoruSpeech.Lib.JsonText

namespace YoruSpeech

/-- The failures `WlClipboardAdapter::copy` tells apart. -/
inductive CopyFailure where
  | pipeFailed (errno : Nat)
  | forkFailed (errno : Nat)
  | timedOut
  | terminatedAbnormally
  | notFound
  | exited (status : Nat)
  deriving DecidableEq, Repr

/-- The message of the `ClipboardError`; the command is `wl-copy`. -/
def CopyFailure.message (strerror : Nat → Bytes) : CopyFailure → Bytes
  | .pipeFailed errno => str "failed to create pipe: " ++ strerror errno
  | .forkFailed errno => str "failed to fork: " ++ strerror errno
  | .timedOut => str "wl-copy timed out"
  | .terminatedAbnormally => str "wl-copy terminated abnormally"
  | .notFound => str "wl-copy not found"
  | .exited status => str "wl-copy exited with status " ++ Lib.Json.digits status

/-- `clipboard::AutoClipboard`. -/
structure AutoClipboard where
  enabled : Bool
  deriving DecidableEq, Repr

namespace AutoClipboard

/-- The handler of `TranscriptionCompleted`: the event it publishes, when
the copy it makes fails. -/
def onCompleted (a : AutoClipboard) (strerror : Nat → Bytes) (copy : Option CopyFailure)
    (id : SessionId) : Option Event :=
  if a.enabled then
    copy.map fun failure => .errorOccurred (some id) .clipboard (failure.message strerror)
  else none

/-- The handler of `ConfigurationChanged`. -/
def onConfigured (_ : AutoClipboard) (c : Configuration) : AutoClipboard :=
  { enabled := c.autoClipboard }

end AutoClipboard

end YoruSpeech

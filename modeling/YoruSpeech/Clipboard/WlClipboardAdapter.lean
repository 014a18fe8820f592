/-
YoruSpeech.Clipboard.WlClipboardAdapter — running the clipboard command
(`domains/clipboard/wl_clipboard_adapter.cpp`).

The system calls are inputs (`CopyInput`): what `pipe`, `fork`, each `write`
and each `waitpid` return, and how long each turn of the wait loop takes
beyond the sleep it asks for. Times are in milliseconds, counted from the
close of the pipe. `write` transfers at most the bytes it is given, and
`sleep_for` sleeps at least as long as it is told to; both loops end for
that reason. What the child's side of the process does after `fork` is
seen only in what `waitpid` says about it.
-/
import YoruSpeech.Clipboard.AutoClipboard

namespace YoruSpeech

/-- What `write` returns. -/
inductive PipeWrite where
  /-- It accepted so many bytes, or all there were. -/
  | wrote (count : Nat)
  | failed (errno : Nat)
  deriving DecidableEq, Repr

/-- The number of bytes that went into the pipe, of `size` given to it. -/
def PipeWrite.sent (size : Nat) : PipeWrite → Nat
  | .wrote count => min count size
  | .failed _ => 0

/-- How a child ended. -/
inductive WaitStatus where
  | exited (code : Nat)
  | signaled (signal : Nat)
  deriving DecidableEq, Repr

/-- What `waitpid(child_pid, &status, WNOHANG)` returns. -/
inductive WaitpidResult where
  /-- `child_pid`. -/
  | child (status : WaitStatus)
  /-- Zero: it is still running. -/
  | running
  | failed (errno : Nat)
  deriving DecidableEq, Repr

/-- What the system answers during one `copy()`. -/
structure CopyInput where
  /-- The `errno` of a `pipe` or a `fork` that fails. -/
  pipe : Option Nat := none
  fork : Option Nat := none
  write : Nat → PipeWrite := fun _ => .wrote 65536
  wait : Nat → WaitpidResult := fun _ => .child (.exited 0)
  /-- What a turn of the wait loop takes beyond its sleep. -/
  delay : Nat → Nat := fun _ => 0

/-- `kPollInterval`. -/
def kPollInterval : Nat := 10

/-- `clipboard::WlClipboardAdapter`. -/
structure WlClipboardAdapter where
  command : Bytes := str "wl-copy"
  timeout : Nat := 500
  deriving DecidableEq, Repr

/-- How `copy()` ends: what is in the pipe when its write end is closed, and
the failure it returns. -/
structure CopyOutcome where
  delivered : Bytes
  failure : Option CopyFailure
  deriving DecidableEq, Repr

namespace WlClipboardAdapter

/-- The write loop, from its `k`-th `write` on: what it puts into the pipe
of the text that is left. -/
def writeLoop (write : Nat → PipeWrite) (k : Nat) (text : Bytes) : Bytes :=
  if text = [] then []
  else
    let sent := (write k).sent text.length
    if sent = 0 then []
    else text.take sent ++ writeLoop write (k + 1) (text.drop sent)
termination_by text.length
decreasing_by
  rename_i htext hsent
  have hpos : 0 < text.length := List.length_pos_iff.mpr htext
  simp only [List.length_drop]
  omega

/-- The wait loop, from its `k`-th `waitpid` on: the status, or `none` at
the deadline. -/
def waitLoop (wait : Nat → WaitpidResult) (delay : Nat → Nat) (deadline k now : Nat) :
    Option WaitStatus :=
  match wait k with
  | .child status => some status
  | _ =>
    if deadline ≤ now then none
    else waitLoop wait delay deadline (k + 1) (now + kPollInterval + delay k)
termination_by deadline - now
decreasing_by
  rename_i hnow
  unfold kPollInterval
  omega

/-- What the status means. -/
def failureOf : Option WaitStatus → Option CopyFailure
  | none => some .timedOut
  | some (.signaled _) => some .terminatedAbnormally
  | some (.exited code) =>
    if code = 127 then some .notFound
    else if code ≠ 0 then some (.exited code)
    else none

/-- `copy`. -/
def copy (a : WlClipboardAdapter) (text : Bytes) (inp : CopyInput) : CopyOutcome :=
  match inp.pipe with
  | some errno => { delivered := [], failure := some (.pipeFailed errno) }
  | none =>
    match inp.fork with
    | some errno => { delivered := [], failure := some (.forkFailed errno) }
    | none =>
      { delivered := writeLoop inp.write 0 text
        failure := failureOf (waitLoop inp.wait inp.delay a.timeout 0 0) }

/-- The message of the `ClipboardError`. -/
def message (a : WlClipboardAdapter) (strerror : Nat → Bytes) : CopyFailure → Bytes
  | .pipeFailed errno => str "failed to create pipe: " ++ strerror errno
  | .forkFailed errno => str "failed to fork: " ++ strerror errno
  | .timedOut => a.command ++ str " timed out"
  | .terminatedAbnormally => a.command ++ str " terminated abnormally"
  | .notFound => a.command ++ str " not found"
  | .exited status => a.command ++ str " exited with status " ++ Lib.Json.digits status

/-- With the default command, the messages are those `AutoClipboard`
reports. -/
example (strerror : Nat → Bytes) :
    ({} : WlClipboardAdapter).message strerror = CopyFailure.message strerror := by
  funext failure
  cases failure <;> rfl

end WlClipboardAdapter

end YoruSpeech

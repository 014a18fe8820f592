/-
YoruSpeech.Clipboard.CopyTheorems — when a reported copy is complete.

`copy()` breaks off its write loop at the first `write` that does not
accept a byte, whatever the reason, and then looks at the exit status of the
child alone. So its two loops are independent:

* `writeLoop_eq_iff`: the whole text is in the pipe exactly when no `write`
  fails before it is;
* `waitLoop_eq_some_iff`: the status is the child's exactly when it is
  reported before the deadline.

`reported_copy_complete_iff` is their combination: the copy may be reported
and incomplete exactly when a `write` fails early and the child exits with
zero all the same.
-/
import YoruSpeech.Clipboard.WlClipboardAdapter

namespace YoruSpeech

/-- The bytes a `write` that is not near the end accepts. -/
def PipeWrite.count : PipeWrite → Nat
  | .wrote count => count
  | .failed _ => 0

theorem PipeWrite.sent_eq (size : Nat) (r : PipeWrite) : r.sent size = min r.count size := by
  cases r with
  | wrote count => rfl
  | failed errno => simp [sent, count]

namespace CopyInput

/-- The bytes that `n` writes from the `k`-th on accept. -/
def accepted (write : Nat → PipeWrite) (k : Nat) : Nat → Nat
  | 0 => 0
  | n + 1 => (write k).count + accepted write (k + 1) n

/-- The time from the `k`-th `waitpid` to the deadline check `n` turns
later. -/
def elapsed (delay : Nat → Nat) (k : Nat) : Nat → Nat
  | 0 => 0
  | n + 1 => kPollInterval + delay k + elapsed delay (k + 1) n

/-- A `write` from the `k`-th on accepts nothing while some of the text is
left. -/
def BreaksOff (write : Nat → PipeWrite) (k : Nat) (text : Bytes) : Prop :=
  ∃ n, (∀ i < n, 0 < (write (k + i)).count) ∧ (write (k + n)).count = 0 ∧
    accepted write k n < text.length

/-- `waitpid` does not say that the child has ended. -/
def Silent (r : WaitpidResult) : Prop := ∀ status, r ≠ .child status

/-- The child ends with this status, and that is seen before the
deadline. -/
def EndsWith (wait : Nat → WaitpidResult) (delay : Nat → Nat) (k left : Nat) (status : WaitStatus) :
    Prop :=
  ∃ n, wait (k + n) = .child status ∧
    ∀ i < n, Silent (wait (k + i)) ∧ elapsed delay k i < left

end CopyInput

namespace WlClipboardAdapter

open CopyInput

/-! ## The write loop -/

/-- Past a `write` that accepted something, the text is cut off here exactly
when the rest of it is cut off later. -/
theorem breaksOff_next {write : Nat → PipeWrite} {k : Nat} {text : Bytes}
    (hsent : (write k).sent text.length ≠ 0) :
    BreaksOff write k text ↔
      BreaksOff write (k + 1) (text.drop ((write k).sent text.length)) := by
  rw [PipeWrite.sent_eq] at hsent ⊢
  constructor
  · rintro ⟨n, hpos, hzero, hleft⟩
    cases n with
    | zero =>
      rw [Nat.add_zero] at hzero
      omega
    | succ n =>
      refine ⟨n, ?_, ?_, ?_⟩
      · intro i hi
        have h := hpos (i + 1) (by omega)
        rwa [show k + 1 + i = k + (i + 1) by omega]
      · rwa [show k + 1 + n = k + (n + 1) by omega]
      · rw [accepted] at hleft
        rw [List.length_drop]
        omega
  · rintro ⟨n, hpos, hzero, hleft⟩
    rw [List.length_drop] at hleft
    refine ⟨n + 1, ?_, ?_, ?_⟩
    · intro i hi
      cases i with
      | zero =>
        rw [Nat.add_zero]
        omega
      | succ i =>
        have h := hpos i (by omega)
        rwa [show k + (i + 1) = k + 1 + i by omega]
    · rwa [show k + (n + 1) = k + 1 + n by omega]
    · rw [accepted]
      omega

/-- **The whole text is delivered exactly when no `write` breaks it off.** -/
theorem writeLoop_eq_iff (write : Nat → PipeWrite) (k : Nat) (text : Bytes) :
    writeLoop write k text = text ↔ ¬ BreaksOff write k text := by
  fun_induction writeLoop write k text with
  | case1 k => simp [BreaksOff]
  | case2 k text htext sent hsent =>
    have hpos : 0 < text.length := List.length_pos_iff.mpr htext
    refine iff_of_false (Ne.symm htext) (not_not_intro ⟨0, by simp, ?_, hpos⟩)
    have hmin : min (write k).count text.length = 0 := by
      rw [← PipeWrite.sent_eq]
      exact hsent
    rw [Nat.add_zero]
    omega
  | case3 k text htext sent hsent ih =>
    rw [breaksOff_next hsent, ← ih]
    constructor
    · intro h
      have hsplit := h.trans (List.take_append_drop sent text).symm
      exact List.append_cancel_left hsplit
    · intro h
      rw [h, List.take_append_drop]

/-- In any case a beginning of the text is delivered, in order. -/
theorem writeLoop_prefix (write : Nat → PipeWrite) (k : Nat) (text : Bytes) :
    writeLoop write k text <+: text := by
  fun_induction writeLoop write k text with
  | case1 k => exact List.prefix_rfl
  | case2 k text htext sent hsent => exact List.nil_prefix
  | case3 k text htext sent hsent ih =>
    have hsplit := (List.prefix_append_right_inj (text.take sent)).mpr ih
    rwa [List.take_append_drop] at hsplit

/-! ## The wait loop -/

/-- One more turn of the loop. -/
theorem endsWith_next {wait : Nat → WaitpidResult} {delay : Nat → Nat} {k left : Nat}
    {status : WaitStatus} (hsilent : Silent (wait k)) (hleft : 0 < left) :
    EndsWith wait delay k left status ↔
      EndsWith wait delay (k + 1) (left - (kPollInterval + delay k)) status := by
  constructor
  · rintro ⟨n, hend, hbefore⟩
    cases n with
    | zero => exact absurd hend (hsilent status)
    | succ n =>
      refine ⟨n, ?_, ?_⟩
      · rwa [show k + 1 + n = k + (n + 1) by omega]
      · intro i hi
        obtain ⟨hs, he⟩ := hbefore (i + 1) (by omega)
        rw [show k + (i + 1) = k + 1 + i by omega] at hs
        rw [elapsed] at he
        exact ⟨hs, by omega⟩
  · rintro ⟨n, hend, hbefore⟩
    refine ⟨n + 1, ?_, ?_⟩
    · rwa [show k + (n + 1) = k + 1 + n by omega]
    · intro i hi
      cases i with
      | zero => exact ⟨hsilent, hleft⟩
      | succ i =>
        obtain ⟨hs, he⟩ := hbefore i (by omega)
        rw [show k + (i + 1) = k + 1 + i by omega, elapsed]
        exact ⟨hs, by omega⟩

/-- **The wait ends with the child's status exactly when that is reported
before the deadline.** -/
theorem waitLoop_eq_some_iff (wait : Nat → WaitpidResult) (delay : Nat → Nat) (deadline k now : Nat)
    (status : WaitStatus) :
    waitLoop wait delay deadline k now = some status ↔
      EndsWith wait delay k (deadline - now) status := by
  fun_induction waitLoop wait delay deadline k now with
  | case1 k now status' hchild =>
    rw [Option.some.injEq]
    constructor
    · rintro rfl
      exact ⟨0, hchild, by simp⟩
    · rintro ⟨n, hend, hbefore⟩
      cases n with
      | zero =>
        rw [Nat.add_zero, hchild] at hend
        exact WaitpidResult.child.inj hend
      | succ n => exact absurd hchild ((hbefore 0 (by omega)).1 status')
  | case2 k now hlate hsilent =>
    refine iff_of_false (by simp) ?_
    rintro ⟨n, hend, hbefore⟩
    cases n with
    | zero => exact hsilent status hend
    | succ n =>
      have hpast := (hbefore 0 (by omega)).2
      omega
  | case3 k now hlate hsilent ih =>
    have hleft : 0 < deadline - now := Nat.sub_pos_of_lt (Nat.lt_of_not_le hlate)
    rw [ih, endsWith_next hsilent hleft]
    have htime : deadline - (now + kPollInterval + delay k) =
        deadline - now - (kPollInterval + delay k) := by omega
    rw [htime]

/-! ## `copy` -/

/-- The child was started and exits with zero before the deadline. -/
structure Exits (a : WlClipboardAdapter) (inp : CopyInput) : Prop where
  pipe : inp.pipe = none
  fork : inp.fork = none
  wait : EndsWith inp.wait inp.delay 0 a.timeout (.exited 0)

theorem failureOf_eq_none_iff (status : Option WaitStatus) :
    failureOf status = none ↔ status = some (.exited 0) := by
  cases status with
  | none => simp [failureOf]
  | some status =>
    cases status with
    | signaled signal => simp [failureOf]
    | exited code =>
      unfold failureOf
      by_cases h : code = 127
      · simp [h]
      · by_cases h' : code = 0 <;> simp [h, h']

/-- Success is the exit status alone. -/
theorem copy_succeeds_iff (a : WlClipboardAdapter) (text : Bytes) (inp : CopyInput) :
    (a.copy text inp).failure = none ↔ a.Exits inp := by
  unfold copy
  cases hpipe : inp.pipe with
  | some errno =>
    refine iff_of_false (by simp) ?_
    rintro ⟨h, -, -⟩
    rw [hpipe] at h
    cases h
  | none =>
    cases hfork : inp.fork with
    | some errno =>
      refine iff_of_false (by simp) ?_
      rintro ⟨-, h, -⟩
      rw [hfork] at h
      cases h
    | none =>
      simp only [failureOf_eq_none_iff]
      rw [waitLoop_eq_some_iff, Nat.sub_zero]
      exact ⟨fun h => ⟨hpipe, hfork, h⟩, fun h => h.wait⟩

theorem copy_delivered {a : WlClipboardAdapter} {inp : CopyInput} (h : a.Exits inp)
    (text : Bytes) : (a.copy text inp).delivered = writeLoop inp.write 0 text := by
  simp only [copy, h.pipe, h.fork]

/-- **A reported copy is complete unless a `write` fails early and the child
exits with zero all the same.** For every text, every sequence of results of
`write` and every way the child ends, success means that the whole text was
written exactly when not both happen; what was written is a beginning of the
text in any case. -/
theorem reported_copy_complete_iff (a : WlClipboardAdapter) (text : Bytes) (inp : CopyInput) :
    (((a.copy text inp).failure = none → (a.copy text inp).delivered = text) ↔
      ¬ (a.Exits inp ∧ BreaksOff inp.write 0 text)) ∧
    (a.copy text inp).delivered <+: text := by
  constructor
  · rw [copy_succeeds_iff, not_and]
    constructor
    · intro h hexits
      rw [← writeLoop_eq_iff, ← copy_delivered hexits text]
      exact h hexits
    · intro h hexits
      rw [copy_delivered hexits text, writeLoop_eq_iff]
      exact h hexits
  · unfold copy
    cases inp.pipe with
    | some errno => exact List.nil_prefix
    | none =>
      cases inp.fork with
      | some errno => exact List.nil_prefix
      | none => exact writeLoop_prefix inp.write 0 text

/-- A signal between two writes. -/
def interruptedInput : CopyInput where
  write k := if k = 0 then .wrote 3 else .failed 4

/-- The first `write` takes three bytes, the second one is interrupted, and
the command copies what it got: reported as a success. -/
theorem interrupted_copy_reported :
    ¬ ((({} : WlClipboardAdapter).copy (str "hello") interruptedInput).failure = none →
      (({} : WlClipboardAdapter).copy (str "hello") interruptedInput).delivered = str "hello") := by
  have hfailure : (({} : WlClipboardAdapter).copy (str "hello") interruptedInput).failure = none := by
    simp [copy, interruptedInput, waitLoop, failureOf]
  have hdelivered : (({} : WlClipboardAdapter).copy (str "hello") interruptedInput).delivered =
      str "hel" := by
    have hhello : str "hello" = [104, 101, 108, 108, 111] := by decide
    have hhel : str "hel" = [104, 101, 108] := by decide
    simp [copy, interruptedInput, hhello, hhel, writeLoop, PipeWrite.sent]
  intro h
  have hwhole := h hfailure
  rw [hdelivered] at hwhole
  exact absurd hwhole (by decide)

end WlClipboardAdapter

end YoruSpeech

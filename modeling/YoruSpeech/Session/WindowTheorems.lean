/-
YoruSpeech.Session.WindowTheorems — which samples the preview decodes.

`step_live` says once what a step of the daemon does to the bookkeeping of
the preview: nothing, the reset at the start of a recording, the cut after
a pause, the choice of a window, or the end of a decode. The start index of
the window moves by three formulas, one in the cut and two in the forced
commit. Each of them leaves a remainder that the configuration bounds, so
the preview never falls behind by more than a segment.
-/
import YoruSpeech.Session.PartialTheorems
import Mathlib.Data.List.Infix

namespace YoruSpeech

/-! ## Milliseconds and samples -/

/-- The wrap-around of the conversion never makes a duration longer. -/
theorem durationSamples_le {d : Int} (h : 0 ≤ d) : (durationSamples d : Int) ≤ 16 * d := by
  have hmod : ((d % 2 ^ 64).toNat : Int) ≤ d := by omega
  have hwrap : (d % 2 ^ 64).toNat * kSampleRate % 2 ^ 64 ≤ (d % 2 ^ 64).toNat * kSampleRate :=
    Nat.mod_le _ _
  unfold durationSamples
  simp only [kSampleRate] at hwrap ⊢
  omega

/-- A positive duration is no samples at all only when the multiplication
wraps around. -/
theorem le_of_durationSamples_eq_zero {d : Int} (h : durationSamples d = 0) (hpos : 0 < d) :
    2 ^ 64 ≤ d * 16000 := by
  by_cases hbig : 2 ^ 64 ≤ d * 16000
  · exact hbig
  · have hmod : d % 2 ^ 64 = d := Int.emod_eq_of_lt (Int.le_of_lt hpos) (by omega)
    have hwrap : d.toNat * 16000 % 2 ^ 64 = d.toNat * 16000 := Nat.mod_eq_of_lt (by omega)
    unfold durationSamples at h
    simp only [kSampleRate] at h
    rw [hmod, hwrap] at h
    omega

/-! ## The bookkeeping -/

/-- What the preview keeps about the segment in progress and the two texts. -/
@[ext]
structure Books where
  config : LiveTranscriberConfig
  samples : Nat := 0
  count : Nat := 0
  committed : Bytes := []
  tail : Bytes := []
  previous : List Bytes := []
  carried : List Bytes := []
  deriving DecidableEq, Repr

namespace LiveTranscriber

variable {l : LiveTranscriber} {words : List Bytes}

def books (l : LiveTranscriber) : Books where
  config := l.config
  samples := l.committedSampleCount
  count := l.committedWordCount
  committed := l.committedText
  tail := l.tailText
  previous := l.previousWords
  carried := l.carriedWords

theorem onEvent_books {e : Event} (he : ∀ id, e ≠ .recordingStarted id) :
    (l.onEvent e).books = l.books ∧ (l.onEvent e).pausedForWorker = l.pausedForWorker := by
  cases e with
  | recordingStarted id => exact absurd rfl (he id)
  | _ => exact ⟨rfl, rfl⟩

/-- How far a forced commit of a window of `size` samples moves the start. -/
def advance (l : LiveTranscriber) (size : Nat) : Nat :=
  if size > durationSamples l.config.keepDuration then
    size - durationSamples l.config.keepDuration
  else size

theorem advance_le (l : LiveTranscriber) (size : Nat) : l.advance size ≤ size := by
  unfold advance
  split
  · exact Nat.sub_le _ _
  · exact Nat.le_refl _

theorem advance_pos {size : Nat} (h : 0 < size) : 0 < l.advance size := by
  unfold advance
  split
  · omega
  · exact h

/-! What does not depend on the overlap check. -/

section Fields

variable (l : LiveTranscriber) (words : List Bytes) (i j : Nat)

@[simp] theorem skipOverlap_commit :
    ((l.skipOverlap words).commit words i j).committedText =
      (l.commit words i j).committedText := by
  rw [commit_committedText, commit_committedText, skipOverlap_text]

@[simp] theorem skipOverlap_forceCommit (size : Nat) (verdict : Bool) :
    (l.skipOverlap words).forceCommit size verdict = l.forceCommit size verdict := by
  rw [forceCommit, forceCommit, skipOverlap_config]

@[simp] theorem skipOverlap_safeUpper :
    (l.skipOverlap words).safeUpper words = l.safeUpper words := by
  rw [safeUpper, safeUpper, skipOverlap_previous]

end Fields

/-- The committed word count of a decode, after the overlap check. -/
def skipped (l : LiveTranscriber) (words : List Bytes) : Nat :=
  (l.skipOverlap words).committedWordCount

/-- The committed word count after a commit by agreement. -/
def reached (l : LiveTranscriber) (words : List Bytes) : Nat :=
  max (l.skipped words) (l.safeUpper words)

/-- A decode that force-commits. -/
theorem absorb_forced {size : Nat} {verdict : Bool} (h : l.forceCommit size verdict = true)
    (words : List Bytes) :
    (l.absorb words size verdict).books =
      { config := l.config
        samples := l.committedSampleCount + l.advance size
        committed := (l.commit words (l.skipped words) words.length).committedText
        carried := words } := by
  unfold absorb
  simp only [skipOverlap_forceCommit, h, if_true]
  refine Books.ext ?_ ?_ rfl ?_ rfl rfl rfl
  · simp [books, commitSegment]
  · simp [books, commitSegment, advance]
  · simp [books, commitSegment, skipped]

/-- A decode that does not. -/
theorem absorb_agreed {size : Nat} {verdict : Bool} (h : l.forceCommit size verdict = false)
    (words : List Bytes) :
    (l.absorb words size verdict).books =
      { config := l.config
        samples := l.committedSampleCount
        count := l.reached words
        committed := (l.commit words (l.skipped words) (l.reached words)).committedText
        tail := joinWords words (l.reached words) words.length
        previous := words
        carried := (l.skipOverlap words).carriedWords } := by
  unfold absorb
  simp only [skipOverlap_forceCommit, h, Bool.false_eq_true, if_false, commitAgreed,
    skipOverlap_safeUpper, reached]
  by_cases hmore : l.safeUpper words > l.skipped words
  · rw [if_pos (show l.safeUpper words > (l.skipOverlap words).committedWordCount from hmore),
      Nat.max_eq_right (Nat.le_of_lt hmore)]
    refine Books.ext ?_ ?_ rfl ?_ rfl rfl ?_
    · simp [books]
    · simp [books]
    · simp [books, skipped]
    · simp [books]
  · have hnothing : (l.commit words (l.skipped words) (l.skipped words)).committedText =
        l.committedText := by
      rw [commit_committedText, if_pos (by simp [joinWords])]
    rw [if_neg (show ¬ l.safeUpper words > (l.skipOverlap words).committedWordCount from hmore),
      Nat.max_eq_left (Nat.le_of_not_lt hmore), hnothing]
    refine Books.ext ?_ ?_ rfl ?_ rfl rfl rfl
    · simp [books]
    · simp [books]
    · simp [books]

/-- The start of the window moves in a forced commit and nowhere else. -/
theorem absorb_samples (l : LiveTranscriber) (words : List Bytes) (size : Nat) (verdict : Bool) :
    (l.absorb words size verdict).committedSampleCount =
      l.committedSampleCount + if l.forceCommit size verdict then l.advance size else 0 := by
  cases hforce : l.forceCommit size verdict with
  | true => exact congrArg Books.samples (absorb_forced hforce words)
  | false => exact congrArg Books.samples (absorb_agreed hforce words)

/-- What is left of a window of `size` samples after its decode: less than a
segment, or what the forced commit keeps for the next one. -/
theorem absorb_remainder (hmax : 0 < l.config.maxSegmentDuration)
    (hkeep : 0 ≤ l.config.keepDuration) (words : List Bytes) (size : Nat) (verdict : Bool) :
    ((l.committedSampleCount + size - (l.absorb words size verdict).committedSampleCount : Nat) :
      Int) ≤ max (16 * l.config.maxSegmentDuration - 1) (16 * l.config.keepDuration) := by
  rw [absorb_samples]
  by_cases hforce : l.forceCommit size verdict = true
  · have hkept := durationSamples_le hkeep
    have hrest : size - l.advance size ≤ durationSamples l.config.keepDuration := by
      unfold advance
      split <;> omega
    rw [if_pos hforce]
    omega
  · have hshort : ¬ (size : Int) * 1000 / (kSampleRate : Int) ≥ l.config.maxSegmentDuration := by
      intro hlong
      exact hforce (by simp [forceCommit, hlong])
    simp only [kSampleRate] at hshort
    rw [if_neg hforce]
    omega

/-- A window that is decoded leaves the bookkeeping alone, and after a pause
it is not longer than a segment. -/
theorem chooseWindow_decode_books {now : Int} {window : List Sample} {l' : LiveTranscriber}
    (h : l.chooseWindow now window = .decode l') :
    window ≠ [] ∧ l'.books = l.books ∧
    (l.pausedForWorker = true →
      window.length ≤ durationSamples l.config.maxSegmentDuration) := by
  obtain ⟨hne, hshort, rfl⟩ := chooseWindow_eq_decode h
  exact ⟨hne, rfl, hshort⟩

/-- A window that is cut was longer than a segment, and the start moves to
one segment before its end. -/
theorem chooseWindow_cut_books {now : Int} {window : List Sample} {l' : LiveTranscriber}
    (h : l.chooseWindow now window = .cut l') :
    durationSamples l.config.maxSegmentDuration < window.length ∧
    l'.books = { l.books with
      samples := l.committedSampleCount +
        (window.length - durationSamples l.config.maxSegmentDuration)
      count := 0
      previous := []
      carried := [] } := by
  obtain ⟨-, hlong, rfl⟩ := chooseWindow_eq_cut h
  exact ⟨hlong, rfl⟩

end LiveTranscriber

/-! ## Steps -/

/-- The owner is inside `transcribe_partial`. -/
def Owner.isDecoding : Owner → Bool
  | .decoding _ _ => true
  | _ => false

/-- The owner is between the two snapshots of a `tick()`. -/
def Owner.isRecutting : Owner → Bool
  | .recutting _ _ => true
  | _ => false

namespace Machine

variable {m m' : Machine} {a : Act} {capacity : Nat} {c : Configuration}
  {liveConfig : LiveTranscriberConfig}

/-- What a step does to the bookkeeping of the preview. -/
inductive LiveStep (m : Machine) (a : Act) (m' : Machine) : Prop
  | keep (books : m'.live.books = m.live.books)
      (paused : m.live.pausedForWorker = true → m'.live.pausedForWorker = true)
      (owner : m'.owner = m.owner ∨
        m'.owner.chosen = false ∧ ∀ id now, m.owner = .recutting id now → m.window = [])
      (log : ∀ id, m'.log ≠ m.log ++ [.recordingStarted id])
  | opens (books : m'.live.books = { config := m.live.config })
      (owner : m.owner = .inside .starting) (idle : m'.owner = .idle)
  | cut (id : SessionId) (now : Int) (ticking : m.owner = .ticking)
      (choice : m.live.chooseWindow now m.window = .cut m'.live)
      (recutting : m'.owner = .recutting id now) (manager : m'.manager = m.manager)
  | choose (id : SessionId) (now : Int) (ticking : m.owner = .ticking)
      (choice : m.live.chooseWindow now m.window = .decode m'.live)
      (decoding : m'.owner = .decoding id m.window) (manager : m'.manager = m.manager)
  | recut (id : SessionId) (now : Int) (recutting : m.owner = .recutting id now)
      (window : m.window ≠ []) (books : m'.live.books = m.live.books)
      (decoding : m'.owner = .decoding id m.window) (manager : m'.manager = m.manager)
  | decoded (inp : Input) (id : SessionId) (window : List Sample) (t : Transcript)
      (act : a = .own inp) (decoding : m.owner = .decoding id window)
      (result : inp.partialResult = .transcript t)
      (live : m'.live = m.live.absorb (splitWords t.text) window.length inp.verdict)
      (idle : m'.owner = .idle) (manager : m'.manager = m.manager)

theorem publish?_books (m : Machine) {e : Option Event}
    (he : ∀ x ∈ e, ∀ id, x ≠ .recordingStarted id) :
    (m.publish? e).live.books = m.live.books ∧
    (m.publish? e).live.pausedForWorker = m.live.pausedForWorker := by
  cases e with
  | none => exact ⟨rfl, rfl⟩
  | some e => exact LiveTranscriber.onEvent_books (he e rfl)

theorem log_ne_of_eq {log log' : List Event} (h : log' = log) (e : Event) : log' ≠ log ++ [e] := by
  rw [h]
  simp

/-- A step of the owner that is no part of a `tick()`. -/
theorem Move.live (hm : Move m m') (hout : m.owner.inTick = false) : LiveStep m a m' := by
  have hkeep : ∀ {t : Machine} {e : Option Event}, (∀ x ∈ e, ∀ id, x ≠ .recordingStarted id) →
      t.live = m.live → t.owner.chosen = false → t.log = m.log → LiveStep m a (t.publish? e) := by
    intro t e he hlive howner hlog
    obtain ⟨hbooks, hpaused⟩ := publish?_books t he
    refine .keep (by rw [hbooks, hlive]) (by rw [hpaused, hlive]; exact id) (.inr ⟨?_, ?_⟩) ?_
    · simpa using howner
    · intro id now ho
      rw [ho] at hout
      cases hout
    · intro id heq
      rw [publish?_log, hlog, List.append_cancel_left_eq] at heq
      exact he (.recordingStarted id) (by simpa using congrArg List.head? heq) id rfl
  have hplain : m'.live = m.live → m'.owner.chosen = false → m'.log = m.log → LiveStep m a m' :=
    fun hlive howner hlog => hkeep (e := none) (by simp) hlive howner hlog
  cases hm with
  | refuse e r ho he _ =>
    exact hkeep (fun x hx => Event.ne_recordingStarted (he x hx)) rfl rfl rfl
  | started r s ho hr hid hs => exact .opens rfl ho (by simp)
  | discard r e ho hs hr he =>
    exact hkeep (fun x hx => Event.ne_recordingStarted (he x hx)) rfl rfl rfl
  | tickEnd l ho hl =>
    rcases hl with rfl | ⟨-, -, rfl⟩
    · exact hplain rfl rfl rfl
    · refine .keep rfl (fun _ => rfl) (.inr ⟨rfl, ?_⟩) (fun _ => log_ne_of_eq rfl _)
      intro id now ho'
      rw [ho'] at hout
      cases hout
  | tickCut l id now ho | tickDecoded l id now e ho =>
    rw [ho] at hout
    cases hout
  | tickDecode l id ho =>
    rcases ho with ⟨now, ho, -⟩ | ⟨id, now, ho, -⟩
    · rw [ho] at hout
      cases hout
    · rw [ho] at hout
      cases hout
  | audio | exit | pop | enter | leave | finish | loop =>
    exact .keep rfl id (.inl rfl) (fun _ => log_ne_of_eq rfl _)
  | reserve | enqueue | cancel | drain | collect | announced | reported | stop | abort | join
  | shutDown | tickFree => exact hplain rfl rfl rfl
  | _ => exact hkeep (by simp) rfl rfl rfl

theorem tickWindow_live (ho : m.owner = .ticking) (now : Int) :
    LiveStep m a (m.tickWindow now) := by
  have hend : LiveStep m a m.endTick := by
    refine .keep rfl id (.inr ⟨rfl, ?_⟩) (fun _ => log_ne_of_eq rfl _)
    intro id now' ho'
    rw [ho] at ho'
    cases ho'
  unfold tickWindow
  split
  · exact hend
  · rename_i id _
    simp only
    split
    · exact hend
    · rename_i l hchoice
      exact .choose id now ho hchoice rfl rfl
    · rename_i l hchoice
      exact .cut id now ho hchoice rfl rfl

theorem tickRecut_live {id : SessionId} {now : Int} (ho : m.owner = .recutting id now) :
    LiveStep m a (m.tickRecut id now) := by
  unfold tickRecut
  simp only
  split
  · rename_i hnil
    exact .keep rfl (fun h => h) (.inr ⟨rfl, fun _ _ _ => hnil⟩) (fun _ => log_ne_of_eq rfl _)
  · rename_i hne
    exact .recut id now ho hne rfl rfl rfl

/-- The end of a decode that succeeded. -/
theorem tickDecoded_transcript (m : Machine) (id : SessionId) (window : List Sample) {inp : Input}
    {t : Transcript} (hresult : inp.partialResult = .transcript t) :
    (m.tickDecoded id window inp).live =
      m.live.absorb (splitWords t.text) window.length inp.verdict ∧
    (m.tickDecoded id window inp).owner = .idle ∧
    (m.tickDecoded id window inp).manager = m.manager := by
  unfold tickDecoded LiveTranscriber.afterDecode
  simp only [hresult]
  split
  · exact ⟨rfl, rfl, rfl⟩
  · exact ⟨rfl, rfl, rfl⟩

theorem tickDecoded_live {id : SessionId} {window : List Sample} {inp : Input}
    (ho : m.owner = .decoding id window) : LiveStep m (.own inp) (m.tickDecoded id window inp) := by
  cases hresult : inp.partialResult with
  | error e =>
    have hsame : m.tickDecoded id window inp = { m with
        backend := { m.backend with inside := m.backend.inside.erase .transcribePartial }
        owner := .idle, returns := m.returns ++ [.tick] } := by
      simp only [tickDecoded, hresult]
      rfl
    rw [hsame]
    refine .keep rfl (fun h => h) (.inr ⟨rfl, ?_⟩) (fun _ => log_ne_of_eq rfl _)
    intro id' now ho'
    rw [ho] at ho'
    cases ho'
  | transcript t =>
    obtain ⟨hlive, hidle, hmanager⟩ := m.tickDecoded_transcript id window hresult
    exact .decoded inp id window t rfl ho hresult hlive hidle hmanager

/-- **What a step does to the preview.** -/
theorem step_live (hr : Reachable capacity c liveConfig m) (hs : m.step a = some m') :
    LiveStep m a m' := by
  have hout : m.owner.inTick = false → LiveStep m a m' := (hr.move hs).live
  cases hby : a.byOwner with
  | false =>
    have hb := step_background hby hs
    exact .keep (by rw [hb.live]) (by rw [hb.live]; exact id) (.inl hb.owner)
      (fun _ => log_ne_of_eq hb.log _)
  | true =>
    cases ho : m.owner with
    | idle | inside | undefined => exact hout (by rw [ho]; rfl)
    | ticking =>
      cases a with
      | call op inp => simp [step, ho] at hs
      | own inp =>
        simp only [step, ho, Option.some.injEq] at hs
        exact hs ▸ tickWindow_live ho _
      | worker | capture | lose => cases hby
    | recutting id now =>
      cases a with
      | call op inp => simp [step, ho] at hs
      | own inp =>
        simp only [step, ho, Option.some.injEq] at hs
        exact hs ▸ tickRecut_live ho
      | worker | capture | lose => cases hby
    | decoding id window =>
      cases a with
      | call op inp => simp [step, ho] at hs
      | own inp =>
        simp only [step, ho, Option.some.injEq] at hs
        exact hs ▸ tickDecoded_live ho
      | worker | capture | lose => cases hby

/-! ## The window and the buffer -/

/-- The start of the window lies within the buffer, and the window of a
decode in progress is the part of the buffer from there to where it ended
when the snapshot was taken. -/
structure Framed (liveConfig : LiveTranscriberConfig) (m : Machine) : Prop where
  config : m.live.config = liveConfig
  start : ∀ id, m.recorder.activeSession = some id →
    m.live.committedSampleCount ≤ m.recorder.samples.length
  window : ∀ id window, m.owner = .decoding id window →
    window ≠ [] ∧ window <+: m.recorder.samples.drop m.live.committedSampleCount

theorem window_eq_drop (h : m.window ≠ []) :
    m.window = m.recorder.samples.drop m.live.committedSampleCount := by
  unfold Machine.window RecordingManager.samplesSnapshot at h ⊢
  split at h
  · exact absurd rfl h
  · rename_i hlt
    rw [if_neg hlt]

theorem prefix_drop_append {window samples more : List Sample} {k : Nat}
    (h : window <+: samples.drop k) : window <+: (samples ++ more).drop k := by
  rw [List.drop_append]
  exact h.trans (List.prefix_append _ _)

/-- A decode begins on the window the preview would take now. -/
theorem Framed.enters (h : Framed liveConfig m) {id : SessionId} (hne : m.window ≠ [])
    (hbooks : m'.live.books = m.live.books) (hdecoding : m'.owner = .decoding id m.window)
    (hmanager : m'.manager = m.manager) : Framed liveConfig m' := by
  have hsamples : m'.live.committedSampleCount = m.live.committedSampleCount :=
    congrArg Books.samples hbooks
  have hrecorder : m'.recorder = m.recorder := by rw [recorder, hmanager]
  refine ⟨(congrArg Books.config hbooks).trans h.config, ?_, ?_⟩
  · rw [hsamples, hrecorder]
    exact h.start
  · intro id' window hdecoding'
    rw [hdecoding] at hdecoding'
    cases hdecoding'
    refine ⟨hne, ?_⟩
    rw [hsamples, hrecorder, window_eq_drop hne]

theorem Framed.step (hr : Reachable capacity c liveConfig m) (h : Framed liveConfig m)
    (hs : m.step a = some m') : Framed liveConfig m' := by
  have hr' : Reachable capacity c liveConfig m' := Lib.Reachable.snoc hr hs
  cases step_live hr hs with
  | keep hbooks hpaused howner hlog =>
    have hsamples : m'.live.committedSampleCount = m.live.committedSampleCount :=
      congrArg Books.samples hbooks
    have hactive : ∀ id, m'.recorder.activeSession = some id →
        m.recorder.activeSession = some id ∧
        m'.recorder.samples = m.recorder.samples ++ a.samples := by
      intro id hid
      rcases step_active hr hs hid with hold | ⟨-, hstarted, -⟩
      · exact hold
      · exact absurd hstarted (hlog id)
    refine ⟨(congrArg Books.config hbooks).trans h.config, ?_, ?_⟩
    · intro id hid
      obtain ⟨hbefore, hmore⟩ := hactive id hid
      have hstart := h.start id hbefore
      rw [hsamples, hmore, List.length_append]
      omega
    · intro id window hdecoding
      rcases howner with hsame | ⟨hnot, -⟩
      · have hid : m'.recorder.activeSession = some id :=
          hr'.recorder_of_ticked (by rw [hdecoding]; rfl)
        obtain ⟨hne, hwithin⟩ := h.window id window (hsame ▸ hdecoding)
        refine ⟨hne, ?_⟩
        rw [hsamples, (hactive id hid).2]
        exact prefix_drop_append hwithin
      · rw [hdecoding] at hnot
        cases hnot
  | opens hbooks howner hidle =>
    refine ⟨(congrArg Books.config hbooks).trans h.config, ?_, ?_⟩
    · intro id _
      rw [show m'.live.committedSampleCount = 0 from congrArg Books.samples hbooks]
      exact Nat.zero_le _
    · intro id window hdecoding
      rw [hidle] at hdecoding
      cases hdecoding
  | cut id now hticking hchoice hrecutting hmanager =>
    obtain ⟨hlong, hbooks⟩ := LiveTranscriber.chooseWindow_cut_books hchoice
    refine ⟨(congrArg Books.config hbooks).trans h.config, ?_, ?_⟩
    · intro id' _
      have hlen := window_length (List.ne_nil_of_length_pos (Nat.zero_lt_of_lt hlong))
      rw [show m'.live.committedSampleCount = _ from congrArg Books.samples hbooks, recorder,
        hmanager]
      simp only [sampleCount] at hlen
      simp only
      omega
    · intro id' window hdecoding
      rw [hrecutting] at hdecoding
      cases hdecoding
  | choose id now hticking hchoice hdecoding hmanager =>
    obtain ⟨hne, hbooks, -⟩ := LiveTranscriber.chooseWindow_decode_books hchoice
    exact h.enters hne hbooks hdecoding hmanager
  | recut id now hrecutting hne hbooks hdecoding hmanager =>
    exact h.enters hne hbooks hdecoding hmanager
  | decoded inp id window t hact hdecoding hresult hlive hidle hmanager =>
    refine ⟨?_, ?_, ?_⟩
    · rw [hlive, (LiveTranscriber.absorb_untouched ..).config]
      exact h.config
    · intro id' hid
      have hwithin := (h.window id window hdecoding).2.length_le
      have hrecorder : m'.recorder = m.recorder := by rw [recorder, hmanager]
      have hstart := h.start id' (hrecorder ▸ hid)
      have hadvance := m.live.advance_le window.length
      rw [hlive, LiveTranscriber.absorb_samples, hrecorder]
      rw [List.length_drop] at hwithin
      split <;> omega
    · intro id' window' hdecoding'
      rw [hidle] at hdecoding'
      cases hdecoding'

theorem Reachable.framed (h : Reachable capacity c liveConfig m) : Framed liveConfig m := by
  refine Lib.Reachable.invariant (P := Framed liveConfig) h ⟨rfl, ?_, ?_⟩ ?_
  · intro id hid
    cases hid
  · intro id window hdecoding
    cases hdecoding
  · exact fun t a t' hr ht hs => ht.step hr hs

/-! ## One recording -/

/-- The recording of the session is in progress. -/
def During (id : SessionId) (m : Machine) (_ : Act) : Prop := m.recorder.activeSession = some id

instance (id : SessionId) (m : Machine) (a : Act) : Decidable (During id m a) :=
  inferInstanceAs (Decidable (_ = _))

theorem Reachable.not_starting {id : SessionId} (h : Reachable capacity c liveConfig m)
    (hactive : m.recorder.activeSession = some id) : m.owner ≠ .inside .starting := by
  intro ho
  rw [h.inactive_of_starting ho] at hactive
  cases hactive

/-- Within a recording the start of the window never moves back. -/
theorem start_mono_step {id : SessionId} (hr : Reachable capacity c liveConfig m)
    (hactive : m.recorder.activeSession = some id) (hs : m.step a = some m') :
    m.live.committedSampleCount ≤ m'.live.committedSampleCount := by
  cases step_live hr hs with
  | keep hbooks _ _ _ => exact Nat.le_of_eq (congrArg Books.samples hbooks).symm
  | opens _ howner _ => exact absurd howner (hr.not_starting hactive)
  | cut id now _ hchoice _ _ =>
    obtain ⟨-, hbooks⟩ := LiveTranscriber.chooseWindow_cut_books hchoice
    rw [show m'.live.committedSampleCount = _ from congrArg Books.samples hbooks]
    exact Nat.le_add_right _ _
  | choose id now _ hchoice _ _ =>
    obtain ⟨-, hbooks, -⟩ := LiveTranscriber.chooseWindow_decode_books hchoice
    exact Nat.le_of_eq (congrArg Books.samples hbooks).symm
  | recut id now _ _ hbooks _ _ => exact Nat.le_of_eq (congrArg Books.samples hbooks).symm
  | decoded inp id window t _ _ _ hlive _ _ =>
    rw [hlive, LiveTranscriber.absorb_samples]
    exact Nat.le_add_right _ _

theorem start_mono {id : SessionId} {acts : List Act} (hr : Reachable capacity c liveConfig m)
    (halong : Lib.Along step (During id) m acts) (hrun : Lib.run step m acts = some m') :
    m.live.committedSampleCount ≤ m'.live.committedSampleCount := by
  have hboth : Reachable capacity c liveConfig m' ∧
      m.live.committedSampleCount ≤ m'.live.committedSampleCount := by
    refine Lib.run_along (Q := fun t => Reachable capacity c liveConfig t ∧
      m.live.committedSampleCount ≤ t.live.committedSampleCount) ?_ ⟨hr, Nat.le_refl _⟩ halong hrun
    intro t a t' ⟨hreach, hle⟩ hactive hs
    exact ⟨Lib.Reachable.snoc hreach hs, Nat.le_trans hle (start_mono_step hreach hactive hs)⟩
  exact hboth.2

/-! ## After a pause -/

/-- The state after a `tick()` that found the worker busy. -/
def PausedTick (capacity : Nat) (c : Configuration) (liveConfig : LiveTranscriberConfig)
    (m : Machine) : Prop :=
  ∃ t inp, Reachable capacity c liveConfig t ∧ t.owner = .idle ∧
    t.manager.reportedState = .recording ∧ t.manager.transcriptionBusy = true ∧
    t.step (.call .tick inp) = some m

/-- No decode is in progress, and no audio arrives between two snapshots. -/
def Undecoded (m : Machine) (a : Act) : Prop :=
  m.owner.isDecoding = false ∧ (m.owner.isRecutting = true → a.samples = [])

instance (m : Machine) (a : Act) : Decidable (Undecoded m a) :=
  inferInstanceAs (Decidable (_ ∧ _))

/-- From a pause to the decode that follows it, the window is on its way to
at most `n` samples. -/
inductive Capped (n : Nat) (m : Machine) : Prop
  | paused (flag : m.live.pausedForWorker = true) (owner : m.owner.chosen = false)
  | recutting (id : SessionId) (now : Int) (owner : m.owner = .recutting id now)
      (window : m.recorder.samples.length = m.live.committedSampleCount + n)
  | decoding (id : SessionId) (window : List Sample) (owner : m.owner = .decoding id window)
      (short : window.length ≤ n)

theorem Capped.step {id : SessionId} {n : Nat} (hr : Reachable capacity c liveConfig m)
    (hn : n = durationSamples liveConfig.maxSegmentDuration) (hpos : 0 < n)
    (hactive : m.recorder.activeSession = some id) (hquiet : Undecoded m a) (h : Capped n m)
    (hs : m.step a = some m') : Capped n m' := by
  have hr' : Reachable capacity c liveConfig m' := Lib.Reachable.snoc hr hs
  have hconfig := hr.framed.config
  cases h with
  | paused hflag howner =>
    cases step_live hr hs with
    | keep _ hpaused hnext _ =>
      refine .paused (hpaused hflag) ?_
      rcases hnext with hsame | ⟨hnot, -⟩
      · rw [hsame]
        exact howner
      · exact hnot
    | opens _ hstarting _ => exact absurd hstarting (hr.not_starting hactive)
    | cut id' now _ hchoice hrecutting hmanager =>
      obtain ⟨hlong, hbooks⟩ := LiveTranscriber.chooseWindow_cut_books hchoice
      rw [hconfig, ← hn] at hlong hbooks
      have hlen : m.live.committedSampleCount + m.window.length = m.recorder.samples.length :=
        window_length (List.ne_nil_of_length_pos (Nat.zero_lt_of_lt hlong))
      have hrecorder : m'.recorder = m.recorder := by rw [recorder, hmanager]
      refine .recutting id' now hrecutting ?_
      rw [show m'.live.committedSampleCount = _ from congrArg Books.samples hbooks, hrecorder]
      simp only
      omega
    | choose id' now _ hchoice hdecoding _ =>
      obtain ⟨-, -, hshort⟩ := LiveTranscriber.chooseWindow_decode_books hchoice
      rw [hconfig, ← hn] at hshort
      exact .decoding id' m.window hdecoding (hshort hflag)
    | recut id' now hrecutting _ _ _ _ =>
      rw [hrecutting] at howner
      cases howner
    | decoded inp id' window t _ hdecoding _ _ _ _ =>
      rw [hdecoding] at howner
      cases howner
  | recutting id' now howner hwindow =>
    have hquiet' := hquiet.2 (by rw [howner]; rfl)
    have hmore : ¬ m.recorder.samples.length ≤ m.live.committedSampleCount := by omega
    have hdrop : m.window = m.recorder.samples.drop m.live.committedSampleCount := if_neg hmore
    have hlength : m.window.length = n := by
      rw [hdrop, List.length_drop]
      omega
    cases step_live hr hs with
    | keep hbooks _ hnext hlog =>
      rcases hnext with hsame | ⟨-, hempty⟩
      · have hid : m'.recorder.activeSession = some id' :=
          hr'.recorder_of_ticked (by rw [hsame, howner]; rfl)
        rcases step_active hr hs hid with ⟨-, hsamples⟩ | ⟨-, hstarted, -⟩
        · refine .recutting id' now (hsame.trans howner) ?_
          rw [hsamples, hquiet', List.append_nil, hwindow,
            show m'.live.committedSampleCount = _ from congrArg Books.samples hbooks]
          rfl
        · exact absurd hstarted (hlog id')
      · -- the second snapshot cannot be empty: it holds a whole segment
        rw [hempty id' now howner, List.length_nil] at hlength
        omega
    | opens _ hstarting _ => exact absurd hstarting (hr.not_starting hactive)
    | recut id'' now' _ _ _ hdecoding _ =>
      exact .decoding id'' m.window hdecoding (Nat.le_of_eq hlength)
    | cut id'' now' hticking _ _ _ | choose id'' now' hticking _ _ _ =>
      rw [howner] at hticking
      cases hticking
    | decoded inp id'' window t _ hdecoding _ _ _ _ =>
      rw [howner] at hdecoding
      cases hdecoding
  | decoding id' window howner _ =>
    have hno := hquiet.1
    rw [howner] at hno
    cases hno

theorem capped_run {id : SessionId} {n : Nat} {acts : List Act}
    (hr : Reachable capacity c liveConfig m)
    (hn : n = durationSamples liveConfig.maxSegmentDuration) (hpos : 0 < n) (h : Capped n m)
    (hduring : Lib.Along step (During id) m acts) (hquiet : Lib.Along step Undecoded m acts)
    (hrun : Lib.run step m acts = some m') : Capped n m' := by
  have hboth : Reachable capacity c liveConfig m' ∧ Capped n m' := by
    refine Lib.run_along (Q := fun t => Reachable capacity c liveConfig t ∧ Capped n t) ?_
      ⟨hr, h⟩ (hduring.and hquiet) hrun
    intro t a t' ⟨hreach, hcapped⟩ ⟨hactive, hundecoded⟩ hs
    exact ⟨Lib.Reachable.snoc hreach hs,
      hcapped.step hreach hn hpos hactive hundecoded hs⟩
  exact hboth.2

theorem PausedTick.capped (h : PausedTick capacity c liveConfig m) (n : Nat) : Capped n m := by
  obtain ⟨t, inp, -, hidle, hstate, hbusy, hs⟩ := h
  simp only [step, hidle, if_true, Option.some.injEq, begin, beginTick, hstate, ne_eq,
    not_true_eq_false, if_false, hbusy] at hs
  subst hs
  exact .paused rfl rfl

/-- The first decode after a pause gets at most a segment. -/
theorem first_window_after_pause {id : SessionId} {acts : List Act} {window : List Sample}
    (hmax : 0 < liveConfig.maxSegmentDuration) (h : PausedTick capacity c liveConfig m)
    (hduring : Lib.Along step (During id) m acts) (hquiet : Lib.Along step Undecoded m acts)
    (hrun : Lib.run step m acts = some m') (hdecoding : m'.owner = .decoding id window)
    (hsize : window.length * 1000 < 2 ^ 63) :
    (window.length : Int) ≤ 16 * liveConfig.maxSegmentDuration := by
  by_cases hzero : durationSamples liveConfig.maxSegmentDuration = 0
  · have hwrap := le_of_durationSamples_eq_zero hzero hmax
    omega
  · have hr : Reachable capacity c liveConfig m := by
      obtain ⟨t, inp, hreach, -, -, -, hs⟩ := h
      exact Lib.Reachable.snoc hreach hs
    have hle := durationSamples_le (Int.le_of_lt hmax)
    cases capped_run hr rfl (Nat.pos_of_ne_zero hzero) (h.capped _) hduring hquiet hrun with
    | paused _ howner =>
      rw [hdecoding] at howner
      cases howner
    | recutting id' now howner _ =>
      rw [hdecoding] at howner
      cases howner
    | decoding id' window' howner hshort =>
      rw [hdecoding] at howner
      cases howner
      omega

/-! ## The bounds -/

/-- A decode gets everything captured from the start of the window on. -/
theorem window_of_entered {id : SessionId} {window : List Sample}
    (hr : Reachable capacity c liveConfig m) (hout : m.owner.isDecoding = false)
    (hs : m.step a = some m') (hdecoding : m'.owner = .decoding id window) :
    window = m'.recorder.samples.drop m'.live.committedSampleCount := by
  have hentered : m.window ≠ [] → m'.live.books = m.live.books →
      m'.owner = .decoding id m.window → m'.manager = m.manager →
      window = m'.recorder.samples.drop m'.live.committedSampleCount := by
    intro hne hbooks howner hmanager
    rw [hdecoding] at howner
    cases howner
    rw [show m'.live.committedSampleCount = m.live.committedSampleCount from
      congrArg Books.samples hbooks, recorder, hmanager]
    exact window_eq_drop hne
  cases step_live hr hs with
  | keep _ _ howner _ =>
    rcases howner with hsame | ⟨hnot, -⟩
    · rw [← hsame, hdecoding] at hout
      cases hout
    · rw [hdecoding] at hnot
      cases hnot
  | choose id' now _ hchoice hdecoding' hmanager =>
    obtain ⟨hne, hbooks, -⟩ := LiveTranscriber.chooseWindow_decode_books hchoice
    rw [hdecoding] at hdecoding'
    cases hdecoding'
    exact hentered hne hbooks hdecoding hmanager
  | recut id' now _ hne hbooks hdecoding' hmanager =>
    rw [hdecoding] at hdecoding'
    cases hdecoding'
    exact hentered hne hbooks hdecoding hmanager
  | opens _ _ hidle | decoded _ _ _ _ _ _ _ _ hidle _ =>
    rw [hidle] at hdecoding
    cases hdecoding
  | cut id' now _ _ hrecutting _ =>
    rw [hrecutting] at hdecoding
    cases hdecoding

theorem step_transcript {inp : Input} {id : SessionId} {window : List Sample} {t : Transcript}
    (hdecoding : m.owner = .decoding id window) (hresult : inp.partialResult = .transcript t)
    (hs : m.step (.own inp) = some m') :
    m'.live = m.live.absorb (splitWords t.text) window.length inp.verdict ∧
    m'.owner = .idle ∧ m'.manager = m.manager := by
  simp only [step, hdecoding, Option.some.injEq] at hs
  exact hs ▸ m.tickDecoded_transcript id window hresult

/-- **Preview windows are bounded and always make progress.** Between any
two states of one recording, of any run: the start of the window has not
moved back and lies within the buffer; a decode gets the buffer from there
on; a forced commit moves it; what a decode leaves of the samples it saw is
less than a segment or what is kept for the next one; and the first decode
after a pause gets at most a segment (as long as the length of the window
in milliseconds is computed without overflow). -/
theorem windows_bounded {id : SessionId} {acts : List Act}
    (hmax : 0 < liveConfig.maxSegmentDuration) (hkeep : 0 ≤ liveConfig.keepDuration)
    (hr : Reachable capacity c liveConfig m) (hduring : Lib.Along step (During id) m acts)
    (hrun : Lib.run step m acts = some m') (hactive : m'.recorder.activeSession = some id) :
    m.live.committedSampleCount ≤ m'.live.committedSampleCount ∧
    m'.live.committedSampleCount ≤ m'.recorder.samples.length ∧
    (∀ a m'' window, m'.owner.isDecoding = false → m'.step a = some m'' →
      m''.owner = .decoding id window →
      window = m''.recorder.samples.drop m''.live.committedSampleCount) ∧
    (∀ inp window t m'', m'.owner = .decoding id window → inp.partialResult = .transcript t →
      m'.step (.own inp) = some m'' →
      (m'.live.forceCommit window.length inp.verdict = true →
        m'.live.committedSampleCount < m''.live.committedSampleCount) ∧
      ((m'.live.committedSampleCount + window.length - m''.live.committedSampleCount : Nat) :
        Int) ≤ max (16 * liveConfig.maxSegmentDuration - 1) (16 * liveConfig.keepDuration)) ∧
    (PausedTick capacity c liveConfig m → Lib.Along step Undecoded m acts →
      ∀ window, m'.owner = .decoding id window → window.length * 1000 < 2 ^ 63 →
      (window.length : Int) ≤ 16 * liveConfig.maxSegmentDuration) := by
  have hr' : Reachable capacity c liveConfig m' := Lib.Reachable.trans hr ⟨acts, hrun⟩
  have hframed := hr'.framed
  refine ⟨start_mono hr hduring hrun, hframed.start id hactive, ?_, ?_, ?_⟩
  · intro a m'' window hout hs hdecoding
    exact window_of_entered hr' hout hs hdecoding
  · intro inp window t m'' hdecoding hresult hs
    rw [(step_transcript hdecoding hresult hs).1]
    refine ⟨?_, ?_⟩
    · intro hforce
      have hwindow := List.length_pos_iff.mpr (hframed.window id window hdecoding).1
      have hadvance := m'.live.advance_pos hwindow
      rw [LiveTranscriber.absorb_samples, if_pos hforce]
      omega
    · rw [← hframed.config] at hmax hkeep ⊢
      exact LiveTranscriber.absorb_remainder hmax hkeep _ _ _
  · intro hpaused hquiet window hdecoding hsize
    exact first_window_after_pause hmax hpaused hduring hquiet hrun hdecoding hsize

/-- A dictation starts while the one before it is being transcribed. -/
def overlappingActs : List Act :=
  [.call .startSession {}, .own {}, .capture [1], .call .stopSession {}, .own {}, .own {},
    .worker (.error ⟨[]⟩), .call .startSession {}, .own {}]

/-- Twenty samples arrive before the worker is done and the preview resumes. -/
def resumingActs : List Act :=
  [.capture (List.replicate 20 0), .worker (.error ⟨[]⟩), .worker (.error ⟨[]⟩),
    .worker (.error ⟨[]⟩), .worker (.error ⟨[]⟩), .call .tick {}, .own {}, .own {}]

/-- Segments of a millisecond: 16 of the 20 samples are decoded. -/
theorem windows_bounded_resumed :
    ∃ m m', PausedTick 2 {} { maxSegmentDuration := 1 } m ∧
      Lib.run step m resumingActs = some m' ∧ m'.recorder.samples.length = 20 ∧
      m'.owner = .decoding 2 (List.replicate 16 0) ∧
      ((List.replicate 16 (0 : Sample)).length : Int) ≤ 16 * 1 := by
  have hbefore : ((Lib.run step (init 2 {} { maxSegmentDuration := 1 }) overlappingActs).map
      fun t => (t.owner, t.manager.reportedState, t.manager.transcriptionBusy)) =
        some (.idle, .recording, true) := by
    decide +kernel
  obtain ⟨t, hrun, ht⟩ := Option.map_eq_some_iff.mp hbefore
  simp only [Prod.mk.injEq] at ht
  obtain ⟨hidle, hstate, hbusy⟩ := ht
  have hafter : ((Lib.run step (init 2 {} { maxSegmentDuration := 1 })
      (overlappingActs ++ [Act.call .tick {}])).bind fun m =>
        (Lib.run step m resumingActs).map fun m' =>
          (decide (Lib.Along step (During 2) m resumingActs),
            decide (Lib.Along step Undecoded m resumingActs), m'.recorder.activeSession,
            m'.recorder.samples.length, m'.owner)) =
        some (true, true, some 2, 20, .decoding 2 (List.replicate 16 0)) := by
    decide +kernel
  rw [Lib.run_append, hrun] at hafter
  obtain ⟨m, hm, hrest⟩ := Option.bind_eq_some_iff.mp hafter
  obtain ⟨m', hrun', hm'⟩ := Option.map_eq_some_iff.mp hrest
  simp only [Prod.mk.injEq, decide_eq_true_eq] at hm'
  obtain ⟨hduring, hquiet, hactive, hlength, howner⟩ := hm'
  have hstep : t.step (.call .tick {}) = some m := by
    simpa [Lib.run] using hm
  have hreach : Reachable 2 {} { maxSegmentDuration := 1 } t := ⟨overlappingActs, hrun⟩
  have hpaused : PausedTick 2 {} { maxSegmentDuration := 1 } m :=
    ⟨t, {}, hreach, hidle, hstate, hbusy, hstep⟩
  have hbounds := windows_bounded (by decide) (by decide) (Lib.Reachable.snoc hreach hstep)
    hduring hrun' hactive
  exact ⟨m, m', hpaused, hrun', hlength, howner,
    hbounds.2.2.2.2 hpaused hquiet _ howner (by decide)⟩

end Machine

end YoruSpeech

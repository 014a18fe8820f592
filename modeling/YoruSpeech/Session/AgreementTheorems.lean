/-
YoruSpeech.Session.AgreementTheorems — what the preview promises about the
words it commits.

`previous_words_` is the only thing a decode is compared with. It is
cleared whenever the start of the window moves, so as long as it holds
words they are those of the decode before, made from the same start on a
shorter window (`Remembered`). That is why two decodes can agree at all:
they read the same audio, one of them a little more of it.
-/
import YoruSpeech.Session.WindowTheorems

namespace YoruSpeech

open Lib (stretch)

/-! ## Common prefixes -/

/-- Two lists match, word for word, below their common prefix length. -/
theorem wordsMatch_of_lt_commonPrefixLength {xs ys : List Bytes} {n : Nat}
    (h : n < commonPrefixLength xs ys) :
    ∃ x y, xs[n]? = some x ∧ ys[n]? = some y ∧ wordsMatch x y = true := by
  induction xs generalizing ys n with
  | nil => simp [commonPrefixLength] at h
  | cons x xs ih =>
    cases ys with
    | nil => simp [commonPrefixLength] at h
    | cons y ys =>
      simp only [commonPrefixLength] at h
      split at h
      · rename_i hmatch
        cases n with
        | zero => exact ⟨x, y, rfl, rfl, hmatch⟩
        | succ n => exact ih (Nat.lt_of_succ_lt_succ h)
      · cases h

/-! ## The decodes of a run -/

namespace Machine

variable {m m' m₀ : Machine} {a : Act} {acts : List Act} {id : SessionId} {capacity : Nat}
  {c : Configuration} {liveConfig : LiveTranscriberConfig}

/-- The words of a decode, if the step is the successful end of one. -/
def transcribed (m : Machine) (a : Act) : Option (List Bytes) :=
  match m.owner, a with
  | .decoding _ _, .own inp =>
    match inp.partialResult with
    | .transcript t => some (splitWords t.text)
    | .error _ => none
  | _, _ => none

theorem transcribed_eq_some {words : List Bytes} (h : m.transcribed a = some words) :
    ∃ inp id window t, a = .own inp ∧ m.owner = .decoding id window ∧
      inp.partialResult = .transcript t ∧ splitWords t.text = words := by
  unfold transcribed at h
  split at h
  · rename_i id window inp howner
    split at h
    · rename_i t hresult
      cases h
      exact ⟨inp, id, window, t, rfl, howner, hresult, rfl⟩
    · cases h
  · cases h

/-- The latest successful decode of the run: it ended in the state `t`, and
no other ended after it. -/
def LastDecode (m₀ : Machine) (acts : List Act) (id : SessionId) (t : Machine)
    (window : List Sample) (words : List Bytes) : Prop :=
  ∃ before last after t', acts = before ++ last :: after ∧ Lib.run step m₀ before = some t ∧
    t.owner = .decoding id window ∧ t.transcribed last = some words ∧ t.step last = some t' ∧
    (∃ u, Lib.run step t' after = some u) ∧
    Lib.Along step (fun u b => u.transcribed b = none) t' after

/-- The window is what the session had captured by some point of the run,
from the sample with this index on. -/
def WindowFrom (m₀ : Machine) (acts : List Act) (id : SessionId) (start : Nat)
    (window : List Sample) : Prop :=
  ∃ upto t during, upto <+: acts ∧ Recorded m₀ upto t id during ∧
    window = (captured during).drop start

theorem WindowFrom.snoc {start : Nat} {window : List Sample}
    (h : WindowFrom m₀ acts id start window) (a : Act) :
    WindowFrom m₀ (acts ++ [a]) id start window := by
  obtain ⟨upto, t, during, hwithin, hrest⟩ := h
  exact ⟨upto, t, during, hwithin.trans (List.prefix_append _ _), hrest⟩

theorem LastDecode.snoc {t : Machine} {window : List Sample} {words : List Bytes}
    (h : LastDecode m₀ acts id t window words) (hrun : Lib.run step m₀ acts = some m)
    (hnone : m.transcribed a = none) (hs : m.step a = some m') :
    LastDecode m₀ (acts ++ [a]) id t window words := by
  obtain ⟨before, last, after, t', rfl, hbefore, howner, hwords, hlast, ⟨u, hafter⟩, hquiet⟩ := h
  have hu : u = m := by
    rw [Lib.run_append, hbefore] at hrun
    simp only [Option.bind_some, Lib.run, hlast] at hrun
    rw [hafter] at hrun
    cases hrun
    rfl
  subst hu
  exact ⟨before, last, after ++ [a], t', by simp, hbefore, howner, hwords, hlast,
    ⟨m', Lib.run_snoc hafter hs⟩, hquiet.snoc hafter hnone⟩

/-- A step that ends no decode successfully leaves the latest one as it is;
the step that ends one is the latest. -/
theorem lastDecode_snoc {window : List Sample} {words : List Bytes}
    (hrun : Lib.run step m₀ acts = some m) (howner : m.owner = .decoding id window)
    (hwords : m.transcribed a = some words) (hs : m.step a = some m') :
    LastDecode m₀ (acts ++ [a]) id m window words :=
  ⟨acts, a, [], m', rfl, hrun, howner, hwords, hs, ⟨m', rfl⟩, trivial⟩

/-! ## What the preview remembers -/

/-- The audio the next comparison is about: the window being decoded, or
what could be decoded now. -/
def audible (m : Machine) : List Sample :=
  match m.owner with
  | .decoding _ window => window
  | _ => m.recorder.samples.drop m.live.committedSampleCount

theorem audible_of_decoding {window : List Sample} (h : m.owner = .decoding id window) :
    m.audible = window := by
  rw [audible, h]

theorem audible_of_not_decoding (h : m.owner.isDecoding = false) :
    m.audible = m.recorder.samples.drop m.live.committedSampleCount := by
  unfold audible
  split
  · rename_i howner
    rw [howner] at h
    cases h
  · rfl

/-- The audible part of the buffer only grows while its start stays. -/
theorem audible_isPrefix_captured (h : Framed liveConfig m) :
    m.audible <+: m.recorder.samples.drop m.live.committedSampleCount := by
  cases howner : m.owner with
  | decoding id window =>
    rw [audible_of_decoding howner]
    exact (h.window id window howner).2
  | _ =>
    rw [audible_of_not_decoding (by rw [howner]; rfl)]

/-- What a run knows of the window being decoded, and of the words a decode
will be compared with: they are those of the decode before it, made from
the same start on a window that the audio since then continues. -/
structure Remembered (m₀ : Machine) (acts : List Act) (m : Machine) : Prop where
  window : ∀ id window, m.owner = .decoding id window →
    WindowFrom m₀ acts id m.live.committedSampleCount window
  previous : ∀ id, m.recorder.activeSession = some id → m.live.previousWords ≠ [] →
    ∃ t window, LastDecode m₀ acts id t window m.live.previousWords ∧
      t.live.committedSampleCount = m.live.committedSampleCount ∧
      WindowFrom m₀ acts id m.live.committedSampleCount window ∧ window <+: m.audible

/-- The window a step enters a decode with, by its place in the recording. -/
theorem windowFrom_of_entered {window : List Sample}
    (hrun : Lib.run step (init capacity c liveConfig) (acts ++ [a]) = some m')
    (hr : Reachable capacity c liveConfig m) (hout : m.owner.isDecoding = false)
    (hs : m.step a = some m') (hdecoding : m'.owner = .decoding id window) :
    WindowFrom (init capacity c liveConfig) (acts ++ [a]) id m'.live.committedSampleCount
      window := by
  have hr' : Reachable capacity c liveConfig m' := ⟨acts ++ [a], hrun⟩
  have hactive : m'.recorder.activeSession = some id :=
    hr'.recorder_of_ticked (by rw [hdecoding]; rfl)
  obtain ⟨during, hrecorded, hsamples⟩ := (tracked_run hrun).active id hactive
  refine ⟨acts ++ [a], m', during, List.prefix_rfl, hrecorded, ?_⟩
  rw [← hsamples]
  exact window_of_entered hr hout hs hdecoding

/-- Words remembered across a step that ends no decode and moves no start. -/
theorem Remembered.keeps (h : Remembered m₀ acts m) (hrun : Lib.run Machine.step m₀ acts = some m)
    (hs : m.step a = some m') (hnone : m.transcribed a = none)
    (hsamples : m'.live.committedSampleCount = m.live.committedSampleCount)
    (hprevious : m'.live.previousWords = m.live.previousWords)
    (haudible : m.audible <+: m'.audible) (hactive : m.recorder.activeSession = some id)
    (hne : m'.live.previousWords ≠ []) :
    ∃ t window, LastDecode m₀ (acts ++ [a]) id t window m'.live.previousWords ∧
      t.live.committedSampleCount = m'.live.committedSampleCount ∧
      WindowFrom m₀ (acts ++ [a]) id m'.live.committedSampleCount window ∧
      window <+: m'.audible := by
  obtain ⟨t, window, hlast, hstart, hfrom, hwithin⟩ := h.previous id hactive (hprevious ▸ hne)
  refine ⟨t, window, ?_, hstart.trans hsamples.symm, ?_, hwithin.trans haudible⟩
  · rw [hprevious]
    exact hlast.snoc hrun hnone hs
  · rw [hsamples]
    exact hfrom.snoc a

/-- The audio only grows, also across the choice of a window. -/
theorem audible_grows (hr : Reachable capacity c liveConfig m)
    (howner : m'.owner = m.owner ∨ m'.owner.isDecoding = false)
    (hsamples : m'.live.committedSampleCount = m.live.committedSampleCount)
    (hmore : m.recorder.samples <+: m'.recorder.samples) : m.audible <+: m'.audible := by
  cases hdecoding : m'.owner with
  | decoding id window =>
    rcases howner with hsame | hout
    · have hbefore : m.owner = .decoding id window := hsame.symm.trans hdecoding
      rw [audible_of_decoding hdecoding, audible_of_decoding hbefore]
    · rw [hdecoding] at hout
      cases hout
  | _ =>
    rw [audible_of_not_decoding (m := m') (by rw [hdecoding]; rfl), hsamples]
    exact (audible_isPrefix_captured hr.framed).trans (hmore.drop _)

/-- The end of a decode: it is the one to remember, unless it closed the
segment. -/
theorem Remembered.decoded {inp : Input} {window : List Sample} {t : Transcript}
    (hrun : Lib.run Machine.step (init capacity c liveConfig) acts = some m)
    (h : Remembered (init capacity c liveConfig) acts m)
    (hdecoding : m.owner = .decoding id window) (hresult : inp.partialResult = .transcript t)
    (hwords : m.transcribed (.own inp) = some (splitWords t.text))
    (hs : m.step (.own inp) = some m') :
    Remembered (init capacity c liveConfig) (acts ++ [.own inp]) m' := by
  have hr : Reachable capacity c liveConfig m := ⟨acts, hrun⟩
  obtain ⟨hlive, hidle, hmanager⟩ := step_transcript hdecoding hresult hs
  have hrecorder : m'.recorder = m.recorder := by rw [recorder, hmanager]
  refine ⟨fun id' window' hdecoding' => ?_, fun id' hactive hne => ?_⟩
  · rw [hidle] at hdecoding'
    cases hdecoding'
  · cases hforce : m.live.forceCommit window.length inp.verdict with
    | true =>
      have hnil : m'.live.previousWords = [] := by
        rw [hlive]
        exact congrArg Books.previous (LiveTranscriber.absorb_forced hforce _)
      exact absurd hnil hne
    | false =>
      have hbooks := LiveTranscriber.absorb_agreed hforce (splitWords t.text)
      rw [← hlive] at hbooks
      have hprevious : m'.live.previousWords = splitWords t.text := congrArg Books.previous hbooks
      have hsamples : m'.live.committedSampleCount = m.live.committedSampleCount :=
        congrArg Books.samples hbooks
      have hold : m.recorder.activeSession = some id :=
        hr.recorder_of_ticked (by rw [hdecoding]; rfl)
      rw [hrecorder, hold] at hactive
      cases hactive
      refine ⟨m, window, ?_, hsamples.symm, ?_, ?_⟩
      · rw [hprevious]
        exact lastDecode_snoc hrun hdecoding hwords hs
      · rw [hsamples]
        exact (h.window id window hdecoding).snoc _
      · rw [audible_of_not_decoding (by rw [hidle]; rfl), hrecorder, hsamples]
        exact (hr.framed.window id window hdecoding).2

/-- The start of a decode, after the first or the second snapshot. -/
theorem Remembered.begins
    (hrun : Lib.run Machine.step (init capacity c liveConfig) acts = some m)
    (h : Remembered (init capacity c liveConfig) acts m) (hs : m.step a = some m')
    (hnone : m.transcribed a = none) (hout : m.owner.isDecoding = false) (hwindow : m.window ≠ [])
    (hbooks : m'.live.books = m.live.books) (hdecoding : m'.owner = .decoding id m.window)
    (hmanager : m'.manager = m.manager) :
    Remembered (init capacity c liveConfig) (acts ++ [a]) m' := by
  refine ⟨fun id' window hdecoding' =>
    windowFrom_of_entered (Lib.run_snoc hrun hs) ⟨acts, hrun⟩ hout hs hdecoding', ?_⟩
  intro id' hactive hne
  rw [recorder, hmanager] at hactive
  refine h.keeps hrun hs hnone (congrArg Books.samples hbooks) (congrArg Books.previous hbooks)
    ?_ hactive hne
  rw [audible_of_not_decoding hout, ← window_eq_drop hwindow, audible_of_decoding hdecoding]

theorem Remembered.step
    (hrun : Lib.run Machine.step (init capacity c liveConfig) acts = some m)
    (h : Remembered (init capacity c liveConfig) acts m) (hs : m.step a = some m') :
    Remembered (init capacity c liveConfig) (acts ++ [a]) m' := by
  have hr : Reachable capacity c liveConfig m := ⟨acts, hrun⟩
  cases hwords : m.transcribed a with
  | some words =>
    obtain ⟨inp, id, window, t, rfl, hdecoding, hresult, rfl⟩ := transcribed_eq_some hwords
    exact h.decoded hrun hdecoding hresult hwords hs
  | none =>
    cases step_live hr hs with
    | keep hbooks _ howner hlog =>
      have hsamples : m'.live.committedSampleCount = m.live.committedSampleCount :=
        congrArg Books.samples hbooks
      have hstay : m'.owner = m.owner ∨ m'.owner.isDecoding = false := by
        rcases howner with hsame | ⟨hnot, -⟩
        · exact .inl hsame
        · refine .inr ?_
          cases ho : m'.owner with
          | decoding => simp [ho, Owner.chosen] at hnot
          | _ => rfl
      refine ⟨fun id window hdecoding => ?_, fun id hactive hne => ?_⟩
      · rcases hstay with hsame | hnot
        · rw [hsamples]
          exact (h.window id window (hsame ▸ hdecoding)).snoc a
        · rw [hdecoding] at hnot
          cases hnot
      · rcases step_active hr hs hactive with ⟨hbefore, hmore⟩ | ⟨-, hstarted, -⟩
        · refine h.keeps hrun hs hwords hsamples (congrArg Books.previous hbooks) ?_ hbefore hne
          exact audible_grows hr hstay hsamples ⟨_, hmore.symm⟩
        · exact absurd hstarted (hlog id)
    | opens hbooks _ hidle =>
      refine ⟨fun id window hdecoding => ?_, fun id _ hne => ?_⟩
      · rw [hidle] at hdecoding
        cases hdecoding
      · exact absurd (congrArg Books.previous hbooks) hne
    | cut id now _ hchoice hrecutting _ =>
      obtain ⟨-, hbooks⟩ := LiveTranscriber.chooseWindow_cut_books hchoice
      refine ⟨fun id window hdecoding => ?_, fun id _ hne => ?_⟩
      · rw [hrecutting] at hdecoding
        cases hdecoding
      · exact absurd (congrArg Books.previous hbooks) hne
    | choose id now hticking hchoice hdecoding hmanager =>
      obtain ⟨hwindow, hbooks, -⟩ := LiveTranscriber.chooseWindow_decode_books hchoice
      exact h.begins hrun hs hwords (by rw [hticking]; rfl) hwindow hbooks hdecoding hmanager
    | recut id now hrecutting hwindow hbooks hdecoding hmanager =>
      exact h.begins hrun hs hwords (by rw [hrecutting]; rfl) hwindow hbooks hdecoding hmanager
    | decoded inp id window t hact hdecoding hresult _ _ _ =>
      simp [transcribed, hact, hdecoding, hresult] at hwords

theorem remembered_run (hrun : Lib.run step (init capacity c liveConfig) acts = some m) :
    Remembered (init capacity c liveConfig) acts m := by
  refine Lib.run_history (P := Remembered (init capacity c liveConfig)) ⟨?_, ?_⟩ ?_ hrun
  · intro id window hdecoding
    cases hdecoding
  · intro id hactive
    cases hactive
  · exact fun acts t a t' hrun ht hs => ht.step hrun hs

/-! ## Agreement -/

/-- The decode of `words` on `window` in the state `m` is the second one to
have this word: the successful decode right before it, of the same
recording, from the same sample on and on an initial part of the window,
had a word at the same place that matches. -/
def Confirmed (m₀ : Machine) (acts : List Act) (m : Machine) (id : SessionId)
    (window : List Sample) (words : List Bytes) (n : Nat) : Prop :=
  ∃ t earlier words' word word', LastDecode m₀ acts id t earlier words' ∧
    words[n]? = some word ∧ words'[n]? = some word' ∧ wordsMatch word' word = true ∧
    t.live.committedSampleCount = m.live.committedSampleCount ∧
    WindowFrom m₀ acts id m.live.committedSampleCount earlier ∧
    WindowFrom m₀ acts id m.live.committedSampleCount window ∧ earlier <+: window

/-- Below the upper bound of a commit by agreement, and past what was
committed before, a word is confirmed and is not the last one. -/
theorem confirmed_of_lt {window : List Sample} {words : List Bytes} {n : Nat}
    (hrun : Lib.run step (init capacity c liveConfig) acts = some m)
    (hdecoding : m.owner = .decoding id window) (hn : n < m.live.safeUpper words) :
    n + 1 < words.length ∧
    Confirmed (init capacity c liveConfig) acts m id window words n := by
  have hr : Reachable capacity c liveConfig m := ⟨acts, hrun⟩
  have hremembered := remembered_run hrun
  unfold LiveTranscriber.safeUpper at hn
  split at hn
  · cases hn
  · have hagree : n < commonPrefixLength m.live.previousWords words := by omega
    obtain ⟨word', word, hword', hword, hmatch⟩ := wordsMatch_of_lt_commonPrefixLength hagree
    have hne : m.live.previousWords ≠ [] := by
      intro hnil
      rw [hnil] at hword'
      cases hword'
    have hactive : m.recorder.activeSession = some id :=
      hr.recorder_of_ticked (by rw [hdecoding]; rfl)
    obtain ⟨t, earlier, hlast, hstart, hfrom, hwithin⟩ := hremembered.previous id hactive hne
    rw [audible_of_decoding hdecoding] at hwithin
    exact ⟨by omega, t, earlier, _, word, word', hlast, hword, hword', hmatch, hstart, hfrom,
      hremembered.window id window hdecoding, hwithin⟩

/-- **LocalAgreement is sound.** Whatever a step of a run does to the
committed text, it leaves it alone, or it starts a recording, or it is the
end of a decode that appends the words from index `i` up to `j`: from the
first word that is neither committed nor a repetition of what the segment
before carried over, up to the last word agreed on. Unless it force-commits,
because the window is as long as a segment or ends in silence, each of those
words is confirmed by the decode before and is not the last of the decode. A
decode that force-commits goes up to its last word. -/
theorem committed_by_agreement
    (hrun : Lib.run step (init capacity c liveConfig) acts = some m) (hs : m.step a = some m') :
    m'.live.committedText = m.live.committedText ∨
    (m.owner = .inside .starting ∧ m'.live.committedText = []) ∨
    ∃ inp id window t i j, a = .own inp ∧ m.owner = .decoding id window ∧
      inp.partialResult = .transcript t ∧
      i = m.live.skipped (splitWords t.text) ∧
      (j = if m.live.forceCommit window.length inp.verdict then (splitWords t.text).length
        else m.live.reached (splitWords t.text)) ∧
      m'.live.committedText = (m.live.commit (splitWords t.text) i j).committedText ∧
      splitWords m'.live.committedText =
        splitWords m.live.committedText ++ stretch (splitWords t.text) i j ∧
      (m.live.forceCommit window.length inp.verdict = true →
        liveConfig.maxSegmentDuration ≤ (window.length : Int) * 1000 / (kSampleRate : Int) ∨
        hasTrailingSilence window.length liveConfig.vadTrailingDuration inp.verdict = true) ∧
      (m.live.forceCommit window.length inp.verdict = false →
        ∀ n, i ≤ n → n < j → n + 1 < (splitWords t.text).length ∧
          Confirmed (init capacity c liveConfig) acts m id window (splitWords t.text) n) := by
  have hr : Reachable capacity c liveConfig m := ⟨acts, hrun⟩
  cases step_live hr hs with
  | keep hbooks _ _ _ => exact .inl (congrArg Books.committed hbooks)
  | opens hbooks howner _ => exact .inr (.inl ⟨howner, congrArg Books.committed hbooks⟩)
  | cut id now _ hchoice _ _ =>
    obtain ⟨-, hbooks⟩ := LiveTranscriber.chooseWindow_cut_books hchoice
    exact .inl (congrArg Books.committed hbooks)
  | choose id now _ hchoice _ _ =>
    obtain ⟨-, hbooks, -⟩ := LiveTranscriber.chooseWindow_decode_books hchoice
    exact .inl (congrArg Books.committed hbooks)
  | recut id now _ _ hbooks _ _ => exact .inl (congrArg Books.committed hbooks)
  | decoded inp id window t hact hdecoding hresult hlive _ _ =>
    refine .inr (.inr ?_)
    have happended : ∀ i j, m'.live.committedText =
        (m.live.commit (splitWords t.text) i j).committedText →
        splitWords m'.live.committedText =
          splitWords m.live.committedText ++ stretch (splitWords t.text) i j := by
      intro i j heq
      rw [heq]
      exact splitWords_commit m.live plain_of_mem_splitWords i j
    cases hforce : m.live.forceCommit window.length inp.verdict with
    | true =>
      have hbooks := LiveTranscriber.absorb_forced hforce (splitWords t.text)
      rw [← hlive] at hbooks
      have htext := congrArg Books.committed hbooks
      refine ⟨inp, id, window, t, _, (splitWords t.text).length, hact, hdecoding, hresult, rfl,
        by simp [hforce], htext, happended _ _ htext, ?_, by simp [hforce]⟩
      intro _
      have hconfig := hr.framed.config
      simp only [LiveTranscriber.forceCommit, Bool.or_eq_true, decide_eq_true_eq, hconfig]
        at hforce
      exact hforce
    | false =>
      have hbooks := LiveTranscriber.absorb_agreed hforce (splitWords t.text)
      rw [← hlive] at hbooks
      have htext := congrArg Books.committed hbooks
      refine ⟨inp, id, window, t, _, m.live.reached (splitWords t.text), hact, hdecoding, hresult,
        rfl, by simp [hforce], htext, happended _ _ htext, by simp [hforce], ?_⟩
      intro _ n hlow hn
      refine confirmed_of_lt hrun hdecoding ?_
      rw [LiveTranscriber.reached] at hn
      omega

/-- A decode of two words, and a second one in progress on one sample more. -/
def agreeingActs : List Act :=
  [.call .startSession {}, .own {}, .capture [1, 2], .call .tick {}, .own {},
    .own { partialResult := .transcript { text := str "a b" } }, .capture [3], .call .tick {},
    .own { steadyNow := 2000000000 }]

/-- It returns three words: the first two are confirmed and committed. -/
theorem committed_by_agreement_two_words :
    ∃ m m' i j, Lib.run step (init 2 {} {}) agreeingActs = some m ∧
      m.step (.own { partialResult := .transcript { text := str "a b, c" } }) = some m' ∧
      m'.live.committedText = str "a b," ∧
      stretch [str "a", str "b,", str "c"] i j = [str "a", str "b,"] ∧
      ∀ n, i ≤ n → n < j → n + 1 < 3 ∧
        Confirmed (init 2 {} {}) agreeingActs m 1 [1, 2, 3] [str "a", str "b,", str "c"] n := by
  have hfacts : ((Lib.run step (init 2 {} {}) agreeingActs).bind fun m =>
      (m.step (.own { partialResult := .transcript { text := str "a b, c" } })).map fun m' =>
        (m.owner, m.live.committedText, m'.live.committedText,
          m.live.forceCommit 3 false)) =
        some (.decoding 1 [1, 2, 3], [], str "a b,", false) := by
    decide +kernel
  obtain ⟨m, hrun, hm⟩ := Option.bind_eq_some_iff.mp hfacts
  obtain ⟨m', hs, hm'⟩ := Option.map_eq_some_iff.mp hm
  simp only [Prod.mk.injEq] at hm'
  obtain ⟨howner, htext, htext', hforce⟩ := hm'
  have hwords : splitWords (str "a b, c") = [str "a", str "b,", str "c"] := by decide +kernel
  have hsplit : splitWords (str "a b,") = [str "a", str "b,"] := by decide +kernel
  rcases committed_by_agreement hrun hs with hsame | ⟨hstarting, -⟩ |
    ⟨inp, id, window, t, i, j, hact, hdecoding, hresult, -, -, -, happended, -, hconfirmed⟩
  · rw [htext, htext'] at hsame
    cases hsame
  · rw [howner] at hstarting
    cases hstarting
  · cases hact
    cases hresult
    rw [howner] at hdecoding
    cases hdecoding
    rw [htext, htext', hsplit, hwords] at happended
    rw [hwords] at hconfirmed
    exact ⟨m, m', i, j, hrun, hs, htext', happended.symm, hconfirmed hforce⟩

end Machine

end YoruSpeech

/-
YoruSpeech.Session.SegmentTheorems — the preview shows the latest decode.

A SEGMENT is what happens between two moves of the start of the window, or
after the reset at the start of a recording. Within it the committed text
only gains words and the tail is replaced by every decode. What a single
decode appends, followed by its tail, is that decode without the words
counted as committed (`absorb_words`); over a segment of decodes that agree
on the committed part, the pieces add up to the latest decode without the
words skipped at the first one (`Shows`).
-/
import YoruSpeech.Session.AgreementTheorems
import YoruSpeech.Session.OverlapTheorems

namespace YoruSpeech

open Lib (stretch)

/-! ## One decode -/

namespace LiveTranscriber

variable {l : LiveTranscriber} {words : List Bytes}

/-- What the first decode of a segment is taken to repeat of the segment
before it; nothing when no words were carried over. -/
def overlap (l : LiveTranscriber) (words : List Bytes) : Nat :=
  if l.carriedWords = [] then 0 else overlapPrefixLength l.carriedWords words

theorem overlap_le (l : LiveTranscriber) (words : List Bytes) :
    l.overlap words ≤ words.length := by
  unfold overlap
  split
  · exact Nat.zero_le _
  · exact (overlapPrefixLength_isGreatest l.carriedWords words).1.2.1

/-- At the first decode of a segment. -/
theorem skipOverlap_first (words : List Bytes) (hcount : l.committedWordCount = 0)
    (hprevious : l.previousWords = []) :
    l.skipped words = l.overlap words ∧ (l.skipOverlap words).carriedWords = [] := by
  by_cases hcarried : l.carriedWords = []
  · have hsame : l.skipOverlap words = l := if_neg (by simp [hcarried])
    rw [skipped, hsame, overlap, if_pos hcarried]
    exact ⟨hcount, hcarried⟩
  · rw [skipped, skipOverlap, overlap, if_pos (by simp [hcount, hprevious, hcarried]),
      if_neg hcarried]
    exact ⟨rfl, rfl⟩

/-- At the others. -/
theorem skipOverlap_later (words : List Bytes) (hcarried : l.carriedWords = []) :
    l.skipped words = l.committedWordCount ∧ (l.skipOverlap words).carriedWords = [] := by
  have hsame : l.skipOverlap words = l := if_neg (by simp [hcarried])
  rw [skipped, hsame]
  exact ⟨rfl, hcarried⟩

theorem reached_le (h : l.skipped words ≤ words.length) : l.reached words ≤ words.length := by
  unfold reached safeUpper
  split
  · omega
  · omega

/-- What a commit by agreement appends, and the tail it leaves. -/
theorem agreed_words (hplain : ∀ w ∈ words, Plain w) {size : Nat} {verdict : Bool}
    (hforce : l.forceCommit size verdict = false) :
    splitWords (l.absorb words size verdict).committedText =
      splitWords l.committedText ++ stretch words (l.skipped words) (l.reached words) ∧
    splitWords (l.absorb words size verdict).tailText = words.drop (l.reached words) := by
  have hbooks := absorb_agreed hforce words
  have htext : (l.absorb words size verdict).committedText = _ := congrArg Books.committed hbooks
  have htail : (l.absorb words size verdict).tailText = _ := congrArg Books.tail hbooks
  rw [htext, htail]
  refine ⟨splitWords_commit l hplain _ _, ?_⟩
  rw [splitWords_joinWords hplain, Lib.stretch_length]

/-- **What a decode appends, followed by the tail it leaves, is the decode**
without the words counted as committed, whichever way it commits. -/
theorem absorb_words (hplain : ∀ w ∈ words, Plain w) (size : Nat) (verdict : Bool) :
    ∃ more, splitWords (l.absorb words size verdict).committedText =
        splitWords l.committedText ++ more ∧
      more ++ splitWords (l.absorb words size verdict).tailText =
        words.drop (l.skipped words) := by
  cases hforce : l.forceCommit size verdict with
  | true =>
    have hbooks := absorb_forced hforce words
    have htext : (l.absorb words size verdict).committedText = _ := congrArg Books.committed hbooks
    have htail : (l.absorb words size verdict).tailText = [] := congrArg Books.tail hbooks
    rw [htext, htail]
    refine ⟨_, splitWords_commit l hplain _ _, ?_⟩
    rw [Lib.stretch_length]
    simp [splitWords, splitWordsFrom]
  | false =>
    obtain ⟨htext, htail⟩ := agreed_words hplain hforce
    refine ⟨_, htext, ?_⟩
    rw [htail]
    exact Lib.stretch_append_drop words (Nat.le_max_left _ _)

end LiveTranscriber

/-! ## A segment -/

/-- A successful decode: the committed word count before it, and its words. -/
abbrev SegmentDecode := Nat × List Bytes

/-- The second decode is at least as long as what is counted as committed,
and matches the first on that many leading words. -/
def Stable (d d' : SegmentDecode) : Prop :=
  d'.1 ≤ d'.2.length ∧ Matching (d.2.take d'.1) (d'.2.take d'.1)

instance (d d' : SegmentDecode) : Decidable (Stable d d') := inferInstanceAs (Decidable (_ ∧ _))

/-- The preview `l` after the decodes of a segment that began with `l₀`. -/
inductive Shows (l₀ l : LiveTranscriber) : List SegmentDecode → Prop
  | fresh (books : l.books = l₀.books) : Shows l₀ l []
  /-- The words appended so far match the committed part of the latest
  decode, and the next one is compared with it. -/
  | shown (ds : List SegmentDecode) (first last : SegmentDecode) (appended : List Bytes)
      (head : ds.head? = some first) (latest : ds.getLast? = some last)
      (carried : l.carriedWords = [])
      (skipped : l₀.overlap first.2 ≤ l.committedWordCount)
      (within : l.committedWordCount ≤ last.2.length)
      (text : splitWords l.committedText = splitWords l₀.committedText ++ appended)
      (committed : Matching appended
        (stretch last.2 (l₀.overlap first.2) l.committedWordCount)) : Shows l₀ l ds

namespace Shows

variable {l₀ l : LiveTranscriber} {ds : List SegmentDecode} {words : List Bytes}

/-- Before a decode of the segment is absorbed: what is committed matches
its leading words, from the ones skipped at the first decode on. -/
theorem next (h : Shows l₀ l ds) (hcount : l₀.committedWordCount = 0)
    (hprevious : l₀.previousWords = [])
    (hstable : List.IsChain Stable (ds ++ [(l.committedWordCount, words)])) :
    ∃ first appended, (ds ++ [(l.committedWordCount, words)]).head? = some first ∧
      splitWords l.committedText = splitWords l₀.committedText ++ appended ∧
      Matching appended (stretch words (l₀.overlap first.2) (l.skipped words)) ∧
      l₀.overlap first.2 ≤ l.skipped words ∧ l.skipped words ≤ words.length ∧
      (l.skipOverlap words).carriedWords = [] := by
  cases h with
  | fresh hbooks =>
    have hoverlap : l.overlap words = l₀.overlap words := by
      rw [LiveTranscriber.overlap, LiveTranscriber.overlap,
        show l.carriedWords = l₀.carriedWords from congrArg Books.carried hbooks]
    obtain ⟨hskipped, hcarried⟩ := LiveTranscriber.skipOverlap_first words
      ((congrArg Books.count hbooks).trans hcount)
      ((congrArg Books.previous hbooks).trans hprevious)
    refine ⟨(l.committedWordCount, words), [], rfl, ?_, ?_, ?_, ?_, hcarried⟩
    · rw [List.append_nil, show l.committedText = l₀.committedText from
        congrArg Books.committed hbooks]
    · rw [hskipped, hoverlap]
      simp [stretch, Matching]
    · rw [hskipped, hoverlap]
    · rw [hskipped]
      exact l.overlap_le words
  | shown _ first last appended hhead hlatest hcarried hlow hwithin htext hcommitted =>
    obtain ⟨hskipped, hcarried'⟩ := LiveTranscriber.skipOverlap_later words hcarried
    obtain ⟨hlong, hmatch⟩ := (List.isChain_append.mp hstable).2.2 last hlatest
      (l.committedWordCount, words) rfl
    refine ⟨first, appended, ?_, htext, ?_, hskipped ▸ hlow, hskipped ▸ hlong, hcarried'⟩
    · cases ds with
      | nil => cases hhead
      | cons d rest => exact hhead
    · rw [hskipped]
      exact hcommitted.trans (hmatch.drop _)

/-- After a decode of the segment, whichever way it commits. -/
theorem absorbed (h : Shows l₀ l ds) (hcount : l₀.committedWordCount = 0)
    (hprevious : l₀.previousWords = []) (hplain : ∀ w ∈ words, Plain w)
    (hstable : List.IsChain Stable (ds ++ [(l.committedWordCount, words)])) (size : Nat)
    (verdict : Bool) :
    ∃ first appended, (ds ++ [(l.committedWordCount, words)]).head? = some first ∧
      splitWords (l.absorb words size verdict).committedText =
        splitWords l₀.committedText ++ appended ∧
      Matching (appended ++ splitWords (l.absorb words size verdict).tailText)
        (words.drop (l₀.overlap first.2)) := by
  obtain ⟨first, appended, hhead, htext, hmatch, hlow, -, -⟩ := h.next hcount hprevious hstable
  obtain ⟨more, hmore, hrest⟩ := LiveTranscriber.absorb_words (l := l) hplain size verdict
  refine ⟨first, appended ++ more, hhead, ?_, ?_⟩
  · rw [hmore, htext, List.append_assoc]
  · rw [List.append_assoc, hrest, ← Lib.stretch_append_drop words hlow]
    exact hmatch.append (Matching.refl _)

/-- The segment goes on after a decode that commits by agreement. -/
theorem agreed (h : Shows l₀ l ds) (hcount : l₀.committedWordCount = 0)
    (hprevious : l₀.previousWords = []) (hplain : ∀ w ∈ words, Plain w)
    (hstable : List.IsChain Stable (ds ++ [(l.committedWordCount, words)])) {size : Nat}
    {verdict : Bool} (hforce : l.forceCommit size verdict = false) :
    Shows l₀ (l.absorb words size verdict) (ds ++ [(l.committedWordCount, words)]) := by
  obtain ⟨first, appended, hhead, htext, hmatch, hlow, hlong, hcarried⟩ :=
    h.next hcount hprevious hstable
  obtain ⟨hmore, -⟩ := LiveTranscriber.agreed_words hplain hforce
  have hbooks := LiveTranscriber.absorb_agreed hforce words
  have hreached : (l.absorb words size verdict).committedWordCount = l.reached words :=
    congrArg Books.count hbooks
  have hle : l.skipped words ≤ l.reached words := Nat.le_max_left _ _
  refine .shown _ first (l.committedWordCount, words)
    (appended ++ stretch words (l.skipped words) (l.reached words)) hhead (by simp) ?_ ?_ ?_ ?_ ?_
  · exact (congrArg Books.carried hbooks).trans hcarried
  · rw [hreached]
    omega
  · rw [hreached]
    exact LiveTranscriber.reached_le hlong
  · rw [hmore, htext, List.append_assoc]
  · rw [hreached, ← Lib.stretch_append_stretch words hlow hle]
    exact hmatch.append (Matching.refl _)

end Shows

/-! ## Segments of a run -/

namespace Machine

variable {m m' m₀ : Machine} {a : Act} {acts : List Act} {id : SessionId} {capacity : Nat}
  {c : Configuration} {liveConfig : LiveTranscriberConfig}

/-- A segment begins: the last step moved the start of the window, or
started the recording. -/
def SegmentStart (capacity : Nat) (c : Configuration) (liveConfig : LiveTranscriberConfig)
    (id : SessionId) (m : Machine) : Prop :=
  m.recorder.activeSession = some id ∧
  ∃ t a, Reachable capacity c liveConfig t ∧ t.step a = some m ∧
    (t.owner = .inside .starting ∨ m.live.committedSampleCount ≠ t.live.committedSampleCount)

/-- The step belongs to the recording and does not move the start. -/
def InSegment (id : SessionId) (m : Machine) (a : Act) : Prop :=
  m.recorder.activeSession = some id ∧
  ∀ m' ∈ m.step a, m'.live.committedSampleCount = m.live.committedSampleCount

instance (id : SessionId) (m : Machine) (a : Act) : Decidable (InSegment id m a) :=
  inferInstanceAs (Decidable (_ ∧ _))

/-- The successful decodes along a list of actions. -/
def decodesAlong : Machine → List Act → List SegmentDecode
  | _, [] => []
  | m, a :: rest =>
    (m.transcribed a).toList.map (Prod.mk m.live.committedWordCount) ++
      match m.step a with
      | some t => decodesAlong t rest
      | none => []

theorem decodesAlong_snoc (hrun : Lib.run step m₀ acts = some m) (a : Act) :
    decodesAlong m₀ (acts ++ [a]) =
      decodesAlong m₀ acts ++ (m.transcribed a).toList.map (Prod.mk m.live.committedWordCount) := by
  induction acts generalizing m₀ with
  | nil =>
    cases hrun
    simp only [List.nil_append, decodesAlong]
    cases m.step a <;> simp
  | cons b rest ih =>
    obtain ⟨t, ht, hrest⟩ := Lib.run_cons_eq_some.mp hrun
    simp only [List.cons_append, decodesAlong, ht]
    rw [ih hrest, List.append_assoc]

/-- A segment begins with no committed words and none to compare with. -/
theorem SegmentStart.blank (h : SegmentStart capacity c liveConfig id m) :
    m.live.committedWordCount = 0 ∧ m.live.previousWords = [] := by
  obtain ⟨hactive, t, a, hr, hs, hbegins⟩ := h
  have hmoved : m.live.committedSampleCount = t.live.committedSampleCount →
      t.owner ≠ .inside .starting → False := by
    intro hsame hout
    rcases hbegins with hstarting | hdiffers
    · exact hout hstarting
    · exact hdiffers hsame
  cases step_live hr hs with
  | keep hbooks _ _ hlog =>
    rcases hbegins with hstarting | hdiffers
    · -- a start that fails leaves no recording in progress
      rcases step_active hr hs hactive with ⟨hbefore, -⟩ | ⟨-, hstarted, -⟩
      · exact absurd hstarting (hr.not_starting hbefore)
      · exact absurd hstarted (hlog id)
    · exact absurd (congrArg Books.samples hbooks) hdiffers
  | opens hbooks _ _ => exact ⟨congrArg Books.count hbooks, congrArg Books.previous hbooks⟩
  | cut id now _ hchoice _ _ =>
    obtain ⟨-, hbooks⟩ := LiveTranscriber.chooseWindow_cut_books hchoice
    exact ⟨congrArg Books.count hbooks, congrArg Books.previous hbooks⟩
  | choose id now hticking hchoice _ _ =>
    obtain ⟨-, hbooks, -⟩ := LiveTranscriber.chooseWindow_decode_books hchoice
    exact absurd (by rw [hticking]; simp) (hmoved (congrArg Books.samples hbooks))
  | recut id now hrecutting _ hbooks _ _ =>
    exact absurd (by rw [hrecutting]; simp) (hmoved (congrArg Books.samples hbooks))
  | decoded inp id window t' _ hdecoding _ hlive _ _ =>
    cases hforce : t.live.forceCommit window.length inp.verdict with
    | true =>
      have hbooks := LiveTranscriber.absorb_forced hforce (splitWords t'.text)
      rw [← hlive] at hbooks
      exact ⟨congrArg Books.count hbooks, congrArg Books.previous hbooks⟩
    | false =>
      have hbooks := LiveTranscriber.absorb_agreed hforce (splitWords t'.text)
      rw [← hlive] at hbooks
      exact absurd (by rw [hdecoding]; simp) (hmoved (congrArg Books.samples hbooks))

/-- A step of the segment. -/
theorem shows_step {ds : List SegmentDecode} {l₀ : LiveTranscriber}
    (hr : Reachable capacity c liveConfig m) (hcount : l₀.committedWordCount = 0)
    (hprevious : l₀.previousWords = []) (hin : InSegment id m a) (hs : m.step a = some m')
    (h : Shows l₀ m.live ds)
    (hstable : List.IsChain Stable
      (ds ++ (m.transcribed a).toList.map (Prod.mk m.live.committedWordCount))) :
    Shows l₀ m'.live
      (ds ++ (m.transcribed a).toList.map (Prod.mk m.live.committedWordCount)) := by
  have hstay := hin.2 m' hs
  cases hwords : m.transcribed a with
  | some words =>
    obtain ⟨inp, id', window, t, rfl, hdecoding, hresult, rfl⟩ := transcribed_eq_some hwords
    have hlive := (step_transcript hdecoding hresult hs).1
    rw [hwords] at hstable
    cases hforce : m.live.forceCommit window.length inp.verdict with
    | true =>
      -- a forced commit would have moved the start
      have hadvance := m.live.advance_pos
        (List.length_pos_iff.mpr (hr.framed.window id' window hdecoding).1)
      rw [hlive, LiveTranscriber.absorb_samples, if_pos hforce] at hstay
      omega
    | false =>
      rw [hlive]
      exact h.agreed hcount hprevious plain_of_mem_splitWords hstable hforce
  | none =>
    have hbooks : m'.live.books = m.live.books := by
      cases step_live hr hs with
      | keep hbooks _ _ _ => exact hbooks
      | opens _ hstarting _ => exact absurd hstarting (hr.not_starting hin.1)
      | cut id' now _ hchoice _ _ =>
        obtain ⟨hlong, hbooks⟩ := LiveTranscriber.chooseWindow_cut_books hchoice
        rw [show m'.live.committedSampleCount = _ from congrArg Books.samples hbooks] at hstay
        simp only at hstay
        omega
      | choose id' now _ hchoice _ _ =>
        exact (LiveTranscriber.chooseWindow_decode_books hchoice).2.1
      | recut id' now _ _ hbooks _ _ => exact hbooks
      | decoded inp id' window t hact hdecoding hresult _ _ _ =>
        simp [transcribed, hact, hdecoding, hresult] at hwords
    simp only [Option.toList_none, List.map_nil, List.append_nil]
    cases h with
    | fresh hold => exact .fresh (hbooks.trans hold)
    | shown _ first last appended hhead hlatest hcarried hlow hwithin htext hcommitted =>
      have hsame : m'.live.committedWordCount = m.live.committedWordCount :=
        congrArg Books.count hbooks
      refine .shown ds first last appended hhead hlatest
        ((congrArg Books.carried hbooks).trans hcarried) (hsame ▸ hlow) (hsame ▸ hwithin) ?_
        (hsame ▸ hcommitted)
      rw [show m'.live.committedText = m.live.committedText from congrArg Books.committed hbooks]
      exact htext

theorem shows_run (hstart : SegmentStart capacity c liveConfig id m₀)
    (hr : Reachable capacity c liveConfig m₀) (hwithin : Lib.Along step (InSegment id) m₀ acts)
    (hrun : Lib.run step m₀ acts = some m)
    (hstable : List.IsChain Stable (decodesAlong m₀ acts)) :
    Shows m₀.live m.live (decodesAlong m₀ acts) := by
  obtain ⟨hcount, hprevious⟩ := hstart.blank
  refine Lib.run_history (P := fun acts t => Lib.Along step (InSegment id) m₀ acts →
    List.IsChain Stable (decodesAlong m₀ acts) → Shows m₀.live t.live (decodesAlong m₀ acts)) ?_ ?_
    hrun hwithin hstable
  · exact fun _ _ => .fresh rfl
  · intro acts t a t' ht ih hs hin hchain
    obtain ⟨hin, hstep⟩ := hin.of_snoc ht
    rw [decodesAlong_snoc ht] at hchain ⊢
    exact shows_step (Lib.Reachable.trans hr ⟨acts, ht⟩) hcount hprevious hstep hs
      (ih hin (List.isChain_append.mp hchain).1) hchain

/-- **The preview shows the latest decode, no word lost or doubled.** A
segment of a run, up to a successful decode of `words`, its last step, which
may force-commit and so end the segment. If every decode after the first
agrees with the one before it on what is counted as committed, the words
appended to the committed text since the segment began, followed by the
tail, match the latest decode without the words skipped at the first. -/
theorem segment_shows_latest {words : List Bytes}
    (hstart : SegmentStart capacity c liveConfig id m₀)
    (hwithin : Lib.Along step (InSegment id) m₀ acts) (hrun : Lib.run step m₀ acts = some m)
    (hwords : m.transcribed a = some words) (hs : m.step a = some m')
    (hstable : List.IsChain Stable (decodesAlong m₀ (acts ++ [a]))) :
    ∃ first appended, (decodesAlong m₀ (acts ++ [a])).head? = some first ∧
      splitWords m'.live.committedText = splitWords m₀.live.committedText ++ appended ∧
      Matching (appended ++ splitWords m'.live.tailText)
        (words.drop (m₀.live.overlap first.2)) := by
  have hr : Reachable capacity c liveConfig m₀ := by
    obtain ⟨-, t, b, hreach, hstep, -⟩ := hstart
    exact Lib.Reachable.snoc hreach hstep
  obtain ⟨hcount, hprevious⟩ := hstart.blank
  obtain ⟨inp, id', window, t, rfl, hdecoding, hresult, rfl⟩ := transcribed_eq_some hwords
  rw [decodesAlong_snoc hrun, hwords] at hstable ⊢
  have hshows := shows_run hstart hr hwithin hrun (List.isChain_append.mp hstable).1
  rw [(step_transcript hdecoding hresult hs).1]
  exact hshows.absorbed hcount hprevious plain_of_mem_splitWords hstable _ _

/-- Two decodes of a recording that has just started, and a third one in
progress. -/
def threeDecodesActs : List Act :=
  [.capture [1, 2], .call .tick {}, .own {},
    .own { partialResult := .transcript { text := str "a b" } }, .capture [3], .call .tick {},
    .own { steadyNow := 2000000000 },
    .own { partialResult := .transcript { text := str "a b, c" } }, .capture [4], .call .tick {},
    .own { steadyNow := 4000000000 }]

/-- The second decode committed `a b,`; the third agrees on one word more. -/
theorem segment_shows_latest_three_decodes :
    ∃ m₀ m m' first appended, SegmentStart 2 {} {} 1 m₀ ∧
      Lib.run step m₀ threeDecodesActs = some m ∧
      m.step (.own { partialResult := .transcript { text := str "a b c d" } }) = some m' ∧
      m'.live.committedText = str "a b, c" ∧ m'.live.tailText = str "d" ∧
      splitWords m'.live.committedText = splitWords m₀.live.committedText ++ appended ∧
      Matching (appended ++ splitWords m'.live.tailText)
        ([str "a", str "b", str "c", str "d"].drop (m₀.live.overlap first)) := by
  have hfacts : ((Lib.run step (init 2 {} {}) [.call .startSession {}]).bind fun t =>
      (t.step (.own {})).bind fun m₀ => (Lib.run step m₀ threeDecodesActs).bind fun m =>
        (m.step (.own { partialResult := .transcript { text := str "a b c d" } })).map fun m' =>
          decide (t.owner = .inside .starting ∧ m₀.recorder.activeSession = some 1 ∧
            Lib.Along step (InSegment 1) m₀ threeDecodesActs ∧
            List.IsChain Stable (decodesAlong m₀ (threeDecodesActs ++
              [Act.own { partialResult := .transcript { text := str "a b c d" } }])) ∧
            m.transcribed (.own { partialResult := .transcript { text := str "a b c d" } }) =
              some [str "a", str "b", str "c", str "d"] ∧
            m'.live.committedText = str "a b, c" ∧ m'.live.tailText = str "d")) = some true := by
    decide +kernel
  obtain ⟨t, hrun, ht⟩ := Option.bind_eq_some_iff.mp hfacts
  obtain ⟨m₀, hstart, hm₀⟩ := Option.bind_eq_some_iff.mp ht
  obtain ⟨m, hrun', hm⟩ := Option.bind_eq_some_iff.mp hm₀
  obtain ⟨m', hs, hm'⟩ := Option.map_eq_some_iff.mp hm
  obtain ⟨howner, hactive, hwithin, hstable, hwords, htext, htail⟩ := of_decide_eq_true hm'
  have hbegins : SegmentStart 2 {} {} 1 m₀ :=
    ⟨hactive, t, .own {}, ⟨_, hrun⟩, hstart, .inl howner⟩
  obtain ⟨first, appended, -, hcommitted, hmatch⟩ :=
    segment_shows_latest hbegins hwithin hrun' hwords hs hstable
  exact ⟨m₀, m, m', first.2, appended, hbegins, hrun', hs, htext, htail, hcommitted, hmatch⟩

end Machine

end YoruSpeech

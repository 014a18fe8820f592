/-
YoruSpeech.Session.PreviewTheorems — the live preview never commits a
spoken word twice.

An `Utterance` is what is said during one recording: words in order, each
over an interval of samples, no two alike. The backend is IDEAL for it when
the preview decode of a window is the words inside the window. `Tracking`
is the invariant of the preview's bookkeeping under such a backend: up to
which word the text is committed, and what the two lists of words it keeps
are stretches of. It is kept by both ways of committing
(`Tracking.absorb`), and the cut of the window after a pause is harmless
because in one recording the worker is never busy again once it has been
idle: `stop_session` alone adds jobs, and it ends the recording.
-/
import YoruSpeech.Session.LiveTranscriberTheorems
import YoruSpeech.Session.MachineTheorems

namespace YoruSpeech

open Lib (stretch Initial)

/-! ## Utterances -/

/-- A spoken word and the samples it occupies. -/
structure Word where
  text : Bytes
  start : Nat
  stop : Nat
  deriving DecidableEq, Repr

/-- What is said during one recording. -/
structure Utterance where
  words : List Word
  plain : ∀ w ∈ words, Plain w.text
  spoken : ∀ w ∈ words, w.start < w.stop
  inOrder : words.Pairwise fun v w => v.stop ≤ w.start
  different : words.Pairwise fun v w =>
    stripTrailingPunctuation v.text ≠ stripTrailingPunctuation w.text

namespace Utterance

variable (U : Utterance)

def texts : List Bytes := U.words.map (·.text)

/-- The words whose interval lies inside the window. -/
def inside (a b : Nat) : List Bytes :=
  (U.words.filter fun w => !decide (w.start < a) && decide (w.stop ≤ b)).map (·.text)

/-- How many words start before the sample. -/
def before (a : Nat) : Nat := U.words.countP fun w => w.start < a

/-- How many words are over by the sample. -/
def upto (b : Nat) : Nat := U.words.countP fun w => w.stop ≤ b

theorem before_mono {a a' : Nat} (h : a ≤ a') : U.before a ≤ U.before a' :=
  Lib.countP_le_of_imp fun w _ hw => by
    simp only [decide_eq_true_eq] at hw ⊢
    omega

theorem upto_mono {b b' : Nat} (h : b ≤ b') : U.upto b ≤ U.upto b' :=
  Lib.countP_le_of_imp fun w _ hw => by
    simp only [decide_eq_true_eq] at hw ⊢
    omega

theorem upto_le (b : Nat) : U.upto b ≤ U.texts.length := by
  rw [texts, List.length_map]
  exact List.countP_le_length

/-- The words inside a window are consecutive. -/
theorem inside_eq (a b : Nat) : U.inside a b = stretch U.texts (U.before a) (U.upto b) := by
  have hbefore : Initial (fun w : Word => decide (w.start < a)) U.words := by
    refine U.inOrder.imp_of_mem ?_
    intro v w hv _ hvw hw
    have hspoken := U.spoken v hv
    simp only [decide_eq_true_eq] at hw ⊢
    omega
  have hupto : Initial (fun w : Word => decide (w.stop ≤ b)) U.words := by
    refine U.inOrder.imp_of_mem ?_
    intro v w _ hw hvw hstop
    have hspoken := U.spoken w hw
    simp only [decide_eq_true_eq] at hstop ⊢
    omega
  rw [inside, Lib.filter_between hbefore hupto, stretch, stretch, texts, List.map_drop,
    List.map_take]
  rfl

theorem plain_texts : ∀ w ∈ U.texts, Plain w := by
  intro w hw
  obtain ⟨v, hv, rfl⟩ := List.mem_map.mp hw
  exact U.plain v hv

theorem nodup_texts : U.texts.Nodup := by
  rw [texts, List.Nodup, List.pairwise_map]
  exact U.different.imp fun hne heq => hne (congrArg _ heq)

theorem distinct : Distinct U.texts := by
  intro i j a b ha hb hmatch
  obtain ⟨v, hv, rfl⟩ : ∃ v, U.words[i]? = some v ∧ v.text = a := by simpa [texts] using ha
  obtain ⟨w, hw, rfl⟩ : ∃ w, U.words[j]? = some w ∧ w.text = b := by simpa [texts] using hb
  obtain ⟨hi, rfl⟩ := List.getElem?_eq_some_iff.mp hv
  obtain ⟨hj, rfl⟩ := List.getElem?_eq_some_iff.mp hw
  have hpair := List.pairwise_iff_getElem.mp U.different
  have heq := (wordsMatch_iff _ _).mp hmatch
  rcases Nat.lt_trichotomy i j with hlt | heq' | hlt
  · exact absurd heq (hpair i j hi hj hlt)
  · exact heq'
  · exact absurd heq.symm (hpair j i hj hi hlt)

end Utterance

/-! ## The bookkeeping of the preview -/

/-- What a decode of the window answers, given to `absorb`. -/
def Utterance.decoded (U : Utterance) (l : LiveTranscriber) (size : Nat) : List Bytes :=
  U.inside l.committedSampleCount (l.committedSampleCount + size)

/-- The preview's bookkeeping when the first `n` samples have been seen. -/
inductive Tracking (U : Utterance) (l : LiveTranscriber) (n : Nat) : Prop
  /-- In a segment: the first `d` words hold all that is committed, and the
  committed count reaches past them. -/
  | following (d j : Nat) : (splitWords l.committedText).Sublist (U.texts.take d) →
      l.carriedWords = [] → j ≤ U.upto n →
      l.previousWords = stretch U.texts (U.before l.committedSampleCount) j →
      l.committedWordCount ≤ l.previousWords.length →
      d ≤ U.before l.committedSampleCount + l.committedWordCount → Tracking U l n
  /-- After a forced commit: the words of the closed segment are carried, and
  they reach up to the last committed word. -/
  | carrying (s j : Nat) : (splitWords l.committedText).Sublist (U.texts.take j) →
      l.committedWordCount = 0 → l.previousWords = [] → l.carriedWords ≠ [] →
      l.carriedWords = stretch U.texts s j → s ≤ U.before l.committedSampleCount →
      j ≤ U.upto n → Tracking U l n

namespace Tracking

variable {U : Utterance} {l : LiveTranscriber} {n : Nat}

theorem committed_sublist (h : Tracking U l n) : (splitWords l.committedText).Sublist U.texts := by
  cases h with
  | following d j hsub => exact hsub.trans (List.take_sublist _ _)
  | carrying s j hsub => exact hsub.trans (List.take_sublist _ _)

/-- The bookkeeping after the overlap check of a decode: nothing is carried
and the committed count stays within the decoded words. -/
structure Aligned (U : Utterance) (l : LiveTranscriber) (size d : Nat) : Prop where
  committed : (splitWords l.committedText).Sublist (U.texts.take d)
  reached : d ≤ U.before l.committedSampleCount + l.committedWordCount
  within : l.committedWordCount ≤ (U.decoded l size).length
  carried : l.carriedWords = []

theorem decoded_eq (U : Utterance) (l : LiveTranscriber) (size : Nat) :
    U.decoded l size = stretch U.texts (U.before l.committedSampleCount)
      (U.upto (l.committedSampleCount + size)) :=
  U.inside_eq _ _

/-- The overlap check skips exactly the words the closed segment committed. -/
theorem skipOverlap (h : Tracking U l n) {size : Nat} (hn : n ≤ l.committedSampleCount + size) :
    ∃ d, Aligned U (l.skipOverlap (U.decoded l size)) size d := by
  have hupto := U.upto_mono hn
  have hbound := U.upto_le (l.committedSampleCount + size)
  cases h with
  | following d j hsub hcarried hj hprev hcount hd =>
    have hsame : l.skipOverlap (U.decoded l size) = l := by
      simp [LiveTranscriber.skipOverlap, hcarried]
    rw [hsame]
    refine ⟨d, hsub, hd, ?_, hcarried⟩
    have hpre : l.previousWords.length ≤ (U.decoded l size).length := by
      rw [hprev, decoded_eq]
      exact (Lib.stretch_isPrefix _ _ (by omega)).length_le
    omega
  | carrying s j hsub hzero hprev hne hcarried hs hj =>
    have hoverlap := overlapPrefixLength_stretch U.distinct (s := s) (j := U.upto
      (l.committedSampleCount + size)) hs (show j ≤ _ by omega) hbound
    rw [← hcarried, ← decoded_eq] at hoverlap
    have hnew : l.skipOverlap (U.decoded l size) =
        { l with
          committedWordCount := j - U.before l.committedSampleCount
          carriedWords := [] } := by
      unfold LiveTranscriber.skipOverlap
      rw [if_pos (by simp [hzero, hprev, hne]), hoverlap]
    rw [hnew]
    refine ⟨j, hsub, ?_, ?_, rfl⟩
    · show j ≤ U.before l.committedSampleCount + (j - U.before l.committedSampleCount)
      omega
    · show j - U.before l.committedSampleCount ≤ (U.decoded l size).length
      rw [decoded_eq, Lib.length_stretch]
      omega

theorem length_decoded (U : Utterance) (l : LiveTranscriber) (size : Nat) :
    (U.decoded l size).length =
      U.upto (l.committedSampleCount + size) - U.before l.committedSampleCount := by
  have hbound := U.upto_le (l.committedSampleCount + size)
  rw [decoded_eq, Lib.length_stretch]
  omega

/-- Words of the decode, by their position in the utterance. -/
theorem decoded_stretch (U : Utterance) (l : LiveTranscriber) (size i k : Nat)
    (hk : U.before l.committedSampleCount + k ≤ U.upto (l.committedSampleCount + size)) :
    stretch (U.decoded l size) i k = stretch U.texts (U.before l.committedSampleCount + i)
      (U.before l.committedSampleCount + k) := by
  rw [stretch, decoded_eq, Lib.take_stretch, Lib.stretch_stretch, Nat.min_eq_left hk]

theorem plain_decoded (U : Utterance) (l : LiveTranscriber) (size : Nat) :
    ∀ w ∈ U.decoded l size, Plain w := by
  intro w hw
  rw [decoded_eq] at hw
  exact U.plain_texts w (List.mem_of_mem_take (List.mem_of_mem_drop hw))

/-- The forced commit. -/
theorem Aligned.commitSegment {size d : Nat} (h : Aligned U l size d) :
    Tracking U (l.commitSegment (U.decoded l size) size) (l.committedSampleCount + size) := by
  have hwithin := h.within
  have hreached := h.reached
  have hlen := length_decoded U l size
  have htext : splitWords (l.commitSegment (U.decoded l size) size).committedText =
      splitWords l.committedText ++
        stretch (U.decoded l size) l.committedWordCount (U.decoded l size).length :=
    splitWords_commit l (plain_decoded U l size) _ _
  have hstart : U.before l.committedSampleCount ≤
      U.before (l.commitSegment (U.decoded l size) size).committedSampleCount :=
    U.before_mono (Nat.le_add_right _ _)
  by_cases hnil : U.decoded l size = []
  · -- nothing was decoded: nothing is committed and nothing is carried
    rw [hnil, List.length_nil] at hwithin
    have hsame : splitWords (l.commitSegment (U.decoded l size) size).committedText =
        splitWords l.committedText := by
      rw [htext, hnil]
      simp [stretch]
    refine .following d 0 (hsame ▸ h.committed) hnil (Nat.zero_le _) ?_ (Nat.zero_le _) ?_
    · rw [Lib.stretch_zero]
      rfl
    · show d ≤ _ + 0
      omega
  · have hpos : 0 < (U.decoded l size).length := List.length_pos_iff.mpr hnil
    refine .carrying (U.before l.committedSampleCount)
      (U.upto (l.committedSampleCount + size)) ?_ rfl rfl hnil (decoded_eq U l size) hstart
      (Nat.le_refl _)
    rw [htext, decoded_stretch U l size _ _ (by omega)]
    have hend : U.before l.committedSampleCount + (U.decoded l size).length =
        U.upto (l.committedSampleCount + size) := by omega
    rw [hend]
    exact Lib.sublist_append_stretch h.committed hreached (by omega)

/-- The commit by agreement. -/
theorem Aligned.commitAgreed {size d : Nat} (h : Aligned U l size d) :
    Tracking U (l.commitAgreed (U.decoded l size)) (l.committedSampleCount + size) := by
  have hwithin := h.within
  have hreached := h.reached
  have hlen := length_decoded U l size
  have hupper : l.safeUpper (U.decoded l size) ≤ (U.decoded l size).length - 1 := by
    unfold LiveTranscriber.safeUpper
    split
    · exact Nat.zero_le _
    · exact Nat.min_le_right _ _
  by_cases hmore : l.safeUpper (U.decoded l size) > l.committedWordCount
  · have hnew : l.commitAgreed (U.decoded l size) =
        { l.commit (U.decoded l size) l.committedWordCount (l.safeUpper (U.decoded l size)) with
          committedWordCount := l.safeUpper (U.decoded l size)
          tailText := joinWords (U.decoded l size) (l.safeUpper (U.decoded l size))
            (U.decoded l size).length
          previousWords := U.decoded l size } := by
      unfold LiveTranscriber.commitAgreed
      dsimp only
      rw [if_pos hmore]
    have hcount : (l.commit (U.decoded l size) l.committedWordCount
        (l.safeUpper (U.decoded l size))).committedSampleCount = l.committedSampleCount := by
      unfold LiveTranscriber.commit
      dsimp only
      split <;> rfl
    have hcarry : (l.commit (U.decoded l size) l.committedWordCount
        (l.safeUpper (U.decoded l size))).carriedWords = l.carriedWords := by
      unfold LiveTranscriber.commit
      dsimp only
      split <;> rfl
    rw [hnew]
    refine .following (U.before l.committedSampleCount + l.safeUpper (U.decoded l size))
      (U.upto (l.committedSampleCount + size)) ?_ (hcarry.trans h.carried) (Nat.le_refl _) ?_ ?_ ?_
    · dsimp only
      rw [splitWords_commit l (plain_decoded U l size), decoded_stretch U l size _ _ (by omega)]
      exact Lib.sublist_append_stretch h.committed hreached (by omega)
    · dsimp only
      rw [hcount]
      exact decoded_eq U l size
    · dsimp only
      omega
    · exact Nat.le_of_eq (by rw [hcount])
  · have hold : l.commitAgreed (U.decoded l size) =
        { l with
          tailText := joinWords (U.decoded l size) l.committedWordCount (U.decoded l size).length
          previousWords := U.decoded l size } := by
      unfold LiveTranscriber.commitAgreed
      dsimp only
      rw [if_neg hmore]
    rw [hold]
    exact .following d (U.upto (l.committedSampleCount + size)) h.committed h.carried
      (Nat.le_refl _) (decoded_eq U l size) hwithin hreached

/-- **A decode keeps the bookkeeping right**, whichever way it commits. -/
theorem absorb (h : Tracking U l n) {size : Nat} (hn : n ≤ l.committedSampleCount + size)
    (verdict : Bool) :
    Tracking U (l.absorb (U.decoded l size) size verdict) (l.committedSampleCount + size) := by
  obtain ⟨d, haligned⟩ := h.skipOverlap hn
  have hcount := LiveTranscriber.skipOverlap_samples l (U.decoded l size)
  have hdecoded : U.decoded (l.skipOverlap (U.decoded l size)) size = U.decoded l size := by
    rw [Utterance.decoded, hcount, Utterance.decoded]
  unfold LiveTranscriber.absorb
  dsimp only
  split
  · have hseg := haligned.commitSegment
    rwa [hdecoded, hcount] at hseg
  · have hagree := haligned.commitAgreed
    rwa [hdecoded, hcount] at hagree

end Tracking

/-! ## What leaves the bookkeeping alone -/

/-- The two states agree on the bookkeeping, and the second is paused only if
the first is. -/
structure SameProgress (l l' : LiveTranscriber) : Prop where
  paused : l'.pausedForWorker = true → l.pausedForWorker = true
  samples : l'.committedSampleCount = l.committedSampleCount
  count : l'.committedWordCount = l.committedWordCount
  text : l'.committedText = l.committedText
  previous : l'.previousWords = l.previousWords
  carried : l'.carriedWords = l.carriedWords

theorem SameProgress.rfl' (l : LiveTranscriber) : SameProgress l l :=
  ⟨id, rfl, rfl, rfl, rfl, rfl⟩

/-- Nothing is committed and no words are kept. -/
structure Blank (l : LiveTranscriber) : Prop where
  count : l.committedWordCount = 0
  text : l.committedText = []
  previous : l.previousWords = []
  carried : l.carriedWords = []

theorem Blank.tracking {l : LiveTranscriber} (h : Blank l) (U : Utterance) (n : Nat) :
    Tracking U l n := by
  refine .following 0 0 ?_ h.carried (Nat.zero_le _) ?_ ?_ (Nat.zero_le _)
  · simp [h.text, splitWords, splitWordsFrom]
  · rw [h.previous, Lib.stretch_zero]
  · rw [h.count]
    exact Nat.zero_le _

theorem Tracking.congr {U : Utterance} {l l' : LiveTranscriber} {n : Nat} (h : Tracking U l n)
    (hsame : SameProgress l l') : Tracking U l' n := by
  obtain ⟨-, hs, hc, ht, hp, hw⟩ := hsame
  cases h with
  | following d j h₁ h₂ h₃ h₄ h₅ h₆ =>
    exact .following d j (ht ▸ h₁) (hw.trans h₂) h₃ (by rw [hp, hs]; exact h₄)
      (by rw [hc, hp]; exact h₅) (by rw [hs, hc]; exact h₆)
  | carrying s j h₁ h₂ h₃ h₄ h₅ h₆ h₇ =>
    exact .carrying s j (ht ▸ h₁) (hc.trans h₂) (hp.trans h₃) (hw ▸ h₄) (hw.trans h₅)
      (hs ▸ h₆) h₇

theorem Blank.congr {l l' : LiveTranscriber} (h : Blank l) (hsame : SameProgress l l') :
    Blank l' :=
  ⟨hsame.count.trans h.count, hsame.text.trans h.text, hsame.previous.trans h.previous,
    hsame.carried.trans h.carried⟩

/-- Only the start of a recording resets the preview. -/
theorem sameProgress_onEvent (l : LiveTranscriber) {e : Event}
    (he : ∀ id, e ≠ .recordingStarted id) : SameProgress l (l.onEvent e) := by
  cases e with
  | recordingStarted id => exact absurd rfl (he id)
  | _ => exact ⟨id, rfl, rfl, rfl, rfl, rfl⟩

theorem Event.ne_recordingStarted {e : Event} (he : e.aside = true) (id : SessionId) :
    e ≠ .recordingStarted id := by
  rintro rfl
  cases he

/-! ## What the choice of the window does -/

theorem chooseWindow_decode {l l' : LiveTranscriber} {now : Int} {window : List Sample}
    (h : l.chooseWindow now window = .decode l') :
    window ≠ [] ∧ l'.pausedForWorker = false ∧ SameProgress l l' := by
  obtain ⟨hne, -, rfl⟩ := LiveTranscriber.chooseWindow_eq_decode h
  exact ⟨hne, rfl, by simp, rfl, rfl, rfl, rfl, rfl⟩

/-- The window is cut only after a pause, and then the words of the segment
are forgotten. -/
theorem chooseWindow_cut {l l' : LiveTranscriber} {now : Int} {window : List Sample}
    (h : l.chooseWindow now window = .cut l') :
    l.pausedForWorker = true ∧ l'.pausedForWorker = false ∧ l'.committedText = l.committedText ∧
      l'.committedWordCount = 0 ∧ l'.previousWords = [] ∧ l'.carriedWords = [] := by
  obtain ⟨hpaused, -, rfl⟩ := LiveTranscriber.chooseWindow_eq_cut h
  exact ⟨hpaused, rfl, rfl, rfl, rfl, rfl⟩

/-! ## What a decode does -/

theorem afterDecode_transcript (l : LiveTranscriber) (id : SessionId) (size : Nat)
    (t : Transcript) (verdict : Bool) :
    (l.afterDecode id size (.transcript t) verdict).1 = l.absorb (splitWords t.text) size verdict ∧
    ∀ x ∈ (l.afterDecode id size (.transcript t) verdict).2, ∀ id, x ≠ .recordingStarted id := by
  unfold LiveTranscriber.afterDecode
  dsimp only
  split <;> simp

/-! ## The preview inside the daemon -/

/-- The owner has chosen the window of this `tick()`. -/
def Owner.chosen : Owner → Bool
  | .recutting _ _ => true
  | .decoding _ _ => true
  | _ => false

theorem Owner.inTick_of_chosen {o : Owner} (h : o.chosen = true) : o.inTick = true := by
  cases o <;> first | rfl | cases h

namespace Machine

variable {U : Utterance} {m m' : Machine} {capacity : Nat} {c : Configuration}
  {liveConfig : LiveTranscriberConfig}

/-- The samples captured so far. -/
def sampleCount (m : Machine) : Nat := m.manager.recordingManager.samples.length

/-- A recording is open. -/
def listening (m : Machine) : Prop := m.manager.recordingManager.activeSession ≠ none

/-- The preview of one recording. The second half says why a pause is
harmless: while the worker has something to do, nothing is committed. -/
structure Previewing (U : Utterance) (m : Machine) : Prop where
  tracking : ∃ n, (m.listening → n ≤ m.sampleCount) ∧ Tracking U m.live n ∧
    ∀ id window, m.owner = .decoding id window →
      n ≤ m.live.committedSampleCount + window.length ∧
        m.live.committedSampleCount + window.length ≤ m.sampleCount
  paused : m.live.pausedForWorker = true → Blank m.live
  busy : m.listening → 0 < m.manager.queue.outstandingCount → Blank m.live
  ticking : m.owner.inTick = true → m.listening
  resumed : m.owner.chosen = true → m.live.pausedForWorker = false

/-- A step outside `tick()`, of any thread, that starts no recording and adds
no job while one is open. -/
theorem Previewing.frame (h : Previewing U m) (hl : SameProgress m.live m'.live)
    (hrec : m'.listening → m.listening ∧ m.sampleCount ≤ m'.sampleCount)
    (hq : m'.listening → m'.manager.queue.outstandingCount ≤ m.manager.queue.outstandingCount)
    (ho : m'.owner = m.owner ∧ (m.listening → m'.listening) ∨ m'.owner.inTick = false) :
    Previewing U m' := by
  obtain ⟨⟨n, hn, htrack, hdec⟩, hpaused, hbusy, htick, hresumed⟩ := h
  refine ⟨⟨n, ?_, htrack.congr hl, ?_⟩, ?_, ?_, ?_, ?_⟩
  · intro hlis
    have hle := hn (hrec hlis).1
    have hmore := (hrec hlis).2
    omega
  · intro id window hown
    rcases ho with ⟨hsame, hlis⟩ | hout
    · rw [hsame] at hown
      have hwin := hdec id window hown
      have hmore := (hrec (hlis (htick (by simp [hown, Owner.inTick])))).2
      rw [hl.samples]
      omega
    · simp [hown, Owner.inTick] at hout
  · intro hp
    exact (hpaused (hl.paused hp)).congr hl
  · intro hlis hout
    have hle := hq hlis
    exact (hbusy (hrec hlis).1 (by omega)).congr hl
  · intro hin
    rcases ho with ⟨hsame, hlis⟩ | hout
    · rw [hsame] at hin
      exact hlis (htick hin)
    · rw [hin] at hout
      cases hout
  · intro hcho
    rcases ho with ⟨hsame, -⟩ | hout
    · rw [hsame] at hcho
      have hold := hresumed hcho
      cases hp : m'.live.pausedForWorker with
      | false => rfl
      | true => rw [hl.paused hp] at hold; cases hold
    · rw [Owner.inTick_of_chosen hcho] at hout
      cases hout

/-- The worker and the audio thread do not touch the preview. -/
theorem Previewing.background (h : Previewing U m) (hb : Background m m') : Previewing U m' := by
  refine h.frame (hb.live ▸ SameProgress.rfl' m.live) ?_ (fun _ => hb.outstanding)
    (.inl ⟨hb.owner, ?_⟩)
  · intro hlis
    exact ⟨by rwa [listening, ← hb.activeSession], hb.samples.length_le⟩
  · intro hlis
    rwa [listening, hb.activeSession]

/-- A step of the owner outside `tick()` that leaves recording and queue
alone. -/
theorem Previewing.elsewhere (h : Previewing U m) (hl : SameProgress m.live m'.live)
    (hr : m'.manager.recordingManager = m.manager.recordingManager)
    (hq : m'.manager.queue.outstandingCount ≤ m.manager.queue.outstandingCount)
    (ho : m'.owner.inTick = false) : Previewing U m' := by
  refine h.frame hl ?_ (fun _ => hq) (.inr ho)
  intro hlis
  rw [listening, hr] at hlis
  exact ⟨hlis, Nat.le_of_eq (by rw [sampleCount, sampleCount, hr])⟩

/-- A step that closes the recording. -/
theorem Previewing.closed (h : Previewing U m) (hl : SameProgress m.live m'.live)
    (hr : m'.manager.recordingManager.activeSession = none) (ho : m'.owner.inTick = false) :
    Previewing U m' :=
  h.frame hl (fun hlis => absurd hr hlis) (fun hlis => absurd hr hlis) (.inr ho)

/-- Publishing anything but the start of a recording. -/
theorem sameProgress_publish {l : LiveTranscriber} {e : Option Event} (hl : m.live = l)
    (he : ∀ x ∈ e, ∀ id, x ≠ .recordingStarted id) : SameProgress l (m.publish? e).live := by
  subst hl
  cases e with
  | none => exact SameProgress.rfl' _
  | some e => exact sameProgress_onEvent m.live (he e rfl)

theorem window_length (h : m.window ≠ []) :
    m.live.committedSampleCount + m.window.length = m.sampleCount := by
  unfold window RecordingManager.samplesSnapshot at h ⊢
  unfold sampleCount
  split at h
  · exact absurd rfl h
  · rename_i hlt
    rw [if_neg hlt, List.length_drop]
    omega

theorem listening_of_recording (h : CaptureCase m.manager) (hs : m.manager.state = .recording) :
    m.listening := by
  cases h with
  | idle h₁ _ _ => rw [hs] at h₁; cases h₁
  | recording s _ _ h₃ _ => simp [listening, h₃]
  | error _ h₁ _ _ _ _ => rw [hs] at h₁; cases h₁

/-- A step that leaves nothing committed, and no window at the backend. -/
theorem Previewing.of_blank (hblank : Blank m'.live)
    (hdecode : ∀ id window, m'.owner ≠ .decoding id window)
    (hticking : m'.owner.inTick = true → m'.listening)
    (hresumed : m'.owner.chosen = true → m'.live.pausedForWorker = false) : Previewing U m' where
  tracking := by
    refine ⟨0, fun _ => Nat.zero_le _, hblank.tracking U 0, ?_⟩
    intro id window ho
    exact absurd ho (hdecode id window)
  paused _ := hblank
  busy _ _ := hblank
  ticking := hticking
  resumed := hresumed

/-- The pause: the worker has something to do, so nothing is committed. -/
theorem Previewing.pause (hcap : Captured m) (h : Previewing U m)
    (ho : m.owner = .idle ∨ m.owner = .ticking ∨ ∃ id now, m.owner = .recutting id now)
    (hs : m.manager.state = .recording) (hbusy : m.manager.transcriptionBusy = true) :
    Blank m.live.pause := by
  have hcase : CaptureCase m.manager := by
    refine (captured_calm_iff ?_).mp hcap
    rcases ho with ho | ho | ⟨_, _, ho⟩ <;> rw [ho] <;> rfl
  have hpos : 0 < m.manager.queue.outstandingCount := by
    simpa [SessionManager.transcriptionBusy] using hbusy
  have hblank : Blank m.live := h.busy (listening_of_recording hcase hs) hpos
  exact ⟨hblank.count, hblank.text, hblank.previous, hblank.carried⟩

/-- The worker is free: `tick()` goes on to choose a window. -/
theorem Previewing.tickFree (hcap : Captured m) (h : Previewing U m) (ho : m.owner = .idle)
    (hs : m.manager.state = .recording) : Previewing U { m with owner := .ticking } := by
  have hlis : m.listening := listening_of_recording (captured_idle hcap ho) hs
  obtain ⟨⟨n, hn, htrack, -⟩, hpaused, hbusy, -, -⟩ := h
  exact ⟨⟨n, hn, htrack, by simp⟩, hpaused, hbusy, fun _ => hlis, by simp [Owner.chosen]⟩

/-- The first window after a pause is cut, and nothing is committed then. -/
theorem Previewing.tickCut (h : Previewing U m) {l : LiveTranscriber} {id : SessionId} {now : Int}
    (ho : m.owner = .ticking) (hcut : m.live.chooseWindow now m.window = .cut l) :
    Previewing U { m with live := l, owner := .recutting id now } := by
  obtain ⟨hpaused, hresumed, htext, hcount, hprev, hcarried⟩ := chooseWindow_cut hcut
  have hblank : Blank l := ⟨hcount, htext.trans (h.paused hpaused).text, hprev, hcarried⟩
  exact .of_blank hblank (by simp) (fun _ => h.ticking (by simp [ho, Owner.inTick]))
    fun _ => hresumed

/-- What `tick()` hands to the backend is what it has chosen: a window that is
not empty, by a preview that does not pause. -/
theorem Previewing.decode_choice (h : Previewing U m) {l : LiveTranscriber}
    (ho : (∃ now, m.owner = .ticking ∧ m.live.chooseWindow now m.window = .decode l) ∨
      ∃ id now, m.owner = .recutting id now ∧ m.window ≠ [] ∧
        l = { m.live with lastTickAt := some now }) :
    m.owner.inTick = true ∧ m.window ≠ [] ∧ l.pausedForWorker = false ∧ SameProgress m.live l := by
  rcases ho with ⟨now, ho, hchoice⟩ | ⟨id, now, ho, hne, rfl⟩
  · obtain ⟨hne, hresumed, hsame⟩ := chooseWindow_decode hchoice
    exact ⟨by rw [ho]; rfl, hne, hresumed, hsame⟩
  · exact ⟨by rw [ho]; rfl, hne, h.resumed (by rw [ho]; rfl),
      ⟨fun hp => hp, rfl, rfl, rfl, rfl, rfl⟩⟩

/-- `tick()` hands a window to the backend. -/
theorem Previewing.tickDecode (hex : Exclusive m) (h : Previewing U m) {l : LiveTranscriber}
    {id : SessionId} {backend : SpeechBackend} (hin : m.owner.inTick = true)
    (hwindow : m.window ≠ []) (hresumed : l.pausedForWorker = false)
    (hsame : SameProgress m.live l) :
    Previewing U { m with live := l, owner := .decoding id m.window, backend := backend } := by
  have hlis := h.ticking hin
  have hfree := hex.tick hin
  have hidle : m.manager.queue.outstandingCount = 0 := by
    simp [TranscriptionQueue.outstandingCount, hfree.1, hfree.2]
  have hlen := window_length hwindow
  obtain ⟨⟨n, hn, htrack, -⟩, hpaused, -, -, -⟩ := h
  refine ⟨⟨n, hn, htrack.congr hsame, ?_⟩, ?_, ?_, fun _ => hlis, fun _ => hresumed⟩
  · intro id' window hown
    simp only [Owner.decoding.injEq] at hown
    obtain ⟨-, rfl⟩ := hown
    have hle := hn hlis
    show n ≤ l.committedSampleCount + _ ∧ l.committedSampleCount + _ ≤ m.sampleCount
    rw [hsame.samples]
    omega
  · intro hp
    exact (hpaused (hsame.paused hp)).congr hsame
  · intro _ hpos
    simp [hidle] at hpos

theorem Move.previewing (hcap : Captured m) (hex : Exclusive m) (h : Previewing U m)
    (hm : Move m m') (hstart : m.owner ≠ .inside .starting)
    (hdecode : ∀ id window, m.owner ≠ .decoding id window) : Previewing U m' := by
  cases hm with
  | startFailed r msg ho hr => exact absurd ho hstart
  | started r s ho hr hid hs => exact absurd ho hstart
  | tickDecoded l id window e ho he => exact absurd ho (hdecode id window)
  -- the recording is closed
  | stopLost r s now msg ho hs ha hrun hr =>
    exact h.closed (sameProgress_publish rfl (by simp)) (by simp [hr])
      (by simp [Owner.inTick])
  | stopped r s rec ho hs ha hsess hrun hr _ =>
    exact h.closed (sameProgress_publish rfl (by simp)) (by simp [hr])
      (by simp [Owner.inTick])
  | discard r e ho hs hr he =>
    exact h.closed (sameProgress_publish rfl fun x hx => Event.ne_recordingStarted (he x hx))
      (by simp [hr]) (by simp [Owner.inTick])
  | enqueue id rec ho hs hp =>
    rw [Captured, ho] at hcap
    exact h.closed (SameProgress.rfl' _) hcap.2.1 rfl
  -- jobs leave the queue
  | cancel id ho hmem =>
    refine h.elsewhere (SameProgress.rfl' _) rfl ?_ rfl
    have hshort : (m.manager.queue.pending.eraseP (·.sessionId == id)).length ≤
        m.manager.queue.pending.length := List.length_eraseP_le
    simp only [TranscriptionQueue.outstandingCount]
    omega
  | stop ho =>
    refine h.elsewhere (SameProgress.rfl' _) rfl ?_ rfl
    simp only [TranscriptionQueue.outstandingCount, List.length_nil]
    omega
  -- `tick()`
  | tickEnd l ho hl =>
    rcases hl with rfl | ⟨hs, hbusy, rfl⟩
    · exact h.elsewhere (SameProgress.rfl' _) rfl (Nat.le_refl _) rfl
    · exact .of_blank (h.pause hcap ho hs hbusy) (by simp) (by simp [Owner.inTick])
        (by simp [Owner.chosen])
  | tickFree ho hs hp hb => exact h.tickFree hcap ho hs
  | tickCut l id now ho hcut => exact h.tickCut ho hcut
  | tickDecode l id ho =>
    obtain ⟨hin, hwindow, hresumed, hsame⟩ := h.decode_choice ho
    exact h.tickDecode hex hin hwindow hresumed hsame
  -- the worker and the audio thread
  | pop job rest hw hs hp =>
    refine h.background ⟨rfl, rfl, rfl, rfl, rfl, ?_, rfl, List.prefix_rfl⟩
    simp only [TranscriptionQueue.outstandingCount, hp, List.length_cons, if_true]
    omega
  | finish job result hw =>
    refine h.background ⟨rfl, rfl, rfl, rfl, rfl, ?_, rfl, List.prefix_rfl⟩
    simp [TranscriptionQueue.outstandingCount, TranscriptionQueue.finish]
  | audio r buffer hr hsamples =>
    exact h.background ⟨rfl, rfl, rfl, rfl, rfl, Nat.le_refl _, hr, ⟨buffer, hsamples.symm⟩⟩
  | exit | enter | leave | loop =>
    exact h.background ⟨rfl, rfl, rfl, rfl, rfl, Nat.le_refl _, rfl, List.prefix_rfl⟩
  -- elsewhere
  | refuse e r ho he _ =>
    exact h.elsewhere (sameProgress_publish rfl fun x hx => Event.ne_recordingStarted (he x hx))
      (by simp) (by simp) (by simp [Owner.inTick])
  | reserve | drain | collect | announced | reported | abort | join | shutDown =>
    exact h.elsewhere (SameProgress.rfl' _) rfl (Nat.le_refl _) rfl
  | _ =>
    exact h.elsewhere (sameProgress_publish rfl (by simp)) (by simp) (by simp)
      (by simp [Owner.inTick])

/-! ## One recording with an ideal backend -/

/-- The step belongs to the recording of `U`: it does not start another one,
and `transcribe_partial` answers the words inside its window. -/
def OneRecording (U : Utterance) (m : Machine) (a : Act) : Prop :=
  match a, m.owner with
  | .own _, .inside .starting => False
  | .own inp, .decoding _ window =>
    match inp.partialResult with
    | .transcript t => splitWords t.text = U.decoded m.live window.length
    | .error _ => False
  | _, _ => True

/-- The end of a `tick()` that decoded. -/
theorem Previewing.decoded (hex : Exclusive m) (h : Previewing U m) {id : SessionId}
    {window : List Sample} {inp : Input} {t : Transcript} (ho : m.owner = .decoding id window)
    (ht : inp.partialResult = .transcript t)
    (hideal : splitWords t.text = U.decoded m.live window.length) :
    Previewing U (m.tickDecoded id window inp) := by
  obtain ⟨⟨n, hn, htrack, hdec⟩, -, -, -, hresumed⟩ := h
  have hwin := hdec id window ho
  have hfree := hex.tick (by simp [ho, Owner.inTick])
  have hidle : m.manager.queue.outstandingCount = 0 := by
    simp [TranscriptionQueue.outstandingCount, hfree.1, hfree.2]
  have hlive : SameProgress (m.live.absorb (U.decoded m.live window.length) window.length
      inp.verdict) (m.tickDecoded id window inp).live := by
    obtain ⟨hfst, hevent⟩ := afterDecode_transcript m.live id window.length t inp.verdict
    rw [← ht] at hfst hevent
    rw [hideal] at hfst
    exact sameProgress_publish hfst hevent
  have hpaused : (m.tickDecoded id window inp).live.pausedForWorker ≠ true := by
    intro hp
    have hold := hlive.paused hp
    rw [(LiveTranscriber.absorb_untouched ..).paused, hresumed (by simp [ho, Owner.chosen])] at hold
    cases hold
  refine ⟨⟨m.live.committedSampleCount + window.length, ?_,
    (htrack.absorb hwin.1 inp.verdict).congr hlive, ?_⟩, ?_, ?_, ?_, ?_⟩
  · intro _
    simpa [tickDecoded, endTick, sampleCount] using hwin.2
  · simp [tickDecoded, endTick]
  · exact fun hp => absurd hp hpaused
  · intro _ hpos
    simp [tickDecoded, endTick, hidle] at hpos
  · simp [tickDecoded, endTick, Owner.inTick]
  · simp [tickDecoded, endTick, Owner.chosen]

theorem Previewing.step {a : Act} (hr : Reachable capacity c liveConfig m)
    (h : Previewing U m) (hone : OneRecording U m a) (hs : m.step a = some m') :
    Previewing U m' := by
  cases hown : a.byOwner with
  | false => exact h.background (step_background hown hs)
  | true =>
    have hstart : m.owner ≠ .inside .starting := by
      intro ho
      cases a with
      | own inp => simp [OneRecording, ho] at hone
      | call op inp => simp [Machine.step, ho] at hs
      | _ => cases hown
    by_cases hdecode : ∃ id window, m.owner = .decoding id window
    · obtain ⟨id, window, ho⟩ := hdecode
      cases a with
      | own inp =>
        simp only [Machine.step, ho, Option.some.injEq] at hs
        cases ht : inp.partialResult with
        | transcript t =>
          have hideal : splitWords t.text = U.decoded m.live window.length := by
            simpa [OneRecording, ho, ht] using hone
          exact hs ▸ h.decoded hr.exclusive ho ht hideal
        | error e => simp [OneRecording, ho, ht] at hone
      | call op inp => simp [Machine.step, ho] at hs
      | _ => cases hown
    · exact (hr.move hs).previewing hr.captured hr.exclusive h hstart
        fun id window ho => hdecode ⟨id, window, ho⟩

/-- What opening a recording leaves: an empty buffer and a blank preview. -/
theorem previewing_of_started {inp : Input} (hr : Reachable capacity c liveConfig m)
    (ho : m.owner = .inside .starting) (hs : m.step (.own inp) = some m')
    (hrec : m'.manager.state = .recording) : Previewing U m' := by
  have hat : CaptureAt m.manager .starting := by
    have hcap := hr.captured
    rwa [Captured, ho] at hcap
  rcases SessionManager.startRecording_cases (SessionManager.inactive_of_starting hat)
    inp.device inp.now with ⟨r, message, hinactive, heq⟩ | ⟨r, session, hactive, hid, hsess, heq⟩
  · -- the device did not open: the service is still idle
    simp only [step, ho, resume, heq, Option.some.injEq] at hs
    subst hs
    simp [apply, hat.1] at hrec
  · simp only [step, ho, resume, heq, Option.some.injEq] at hs
    subst hs
    have hblank : Blank m.live.reset := ⟨rfl, rfl, rfl, rfl⟩
    exact ⟨⟨0, fun _ => Nat.zero_le _, hblank.tracking U 0, by simp [apply]⟩, fun _ => hblank,
      fun _ _ => hblank, by simp [apply, Owner.inTick], by simp [apply, Owner.chosen]⟩

/-- **The live preview never commits a spoken word twice.** From the moment a
recording starts, for every interleaving of ticks, audio, worker steps and
other operations, as long as no other recording starts and the preview
decodes are ideal, the committed words are a selection of the spoken ones,
in order, each at most once. A pause never meets committed words: the worker
is busy only while nothing is committed. -/
theorem committed_words_once {m₀ : Machine} {inp : Input} {acts : List Act}
    (hr : Reachable capacity c liveConfig m) (ho : m.owner = .inside .starting)
    (hs : m.step (.own inp) = some m₀) (hrec : m₀.manager.state = .recording)
    (hone : Lib.Along step (OneRecording U) m₀ acts) (hrun : Lib.run step m₀ acts = some m') :
    (splitWords m'.live.committedText).Sublist U.texts ∧
    (splitWords m'.live.committedText).Nodup ∧
    (m'.listening → 0 < m'.manager.queue.outstandingCount → m'.live.committedText = []) := by
  have hr₀ : Reachable capacity c liveConfig m₀ := Lib.Reachable.snoc hr hs
  have hend : Reachable capacity c liveConfig m' ∧ Previewing U m' := by
    refine Lib.run_along (Q := fun t => Reachable capacity c liveConfig t ∧ Previewing U t) ?_
      ⟨hr₀, previewing_of_started hr ho hs hrec⟩ hone hrun
    intro t a t' ⟨hrt, hprev⟩ hstep ht
    exact ⟨Lib.Reachable.snoc hrt ht, hprev.step hrt hstep ht⟩
  obtain ⟨n, -, htrack, -⟩ := hend.2.tracking
  exact ⟨htrack.committed_sublist, htrack.committed_sublist.nodup U.nodup_texts,
    fun hlis hpos => (hend.2.busy hlis hpos).text⟩

/-- Two words, of four samples each. -/
def twoWords : Utterance where
  words := [⟨[97], 0, 4⟩, ⟨[98], 4, 8⟩]
  plain := by simp [Plain, isSpace]
  spoken := by decide
  inOrder := by decide
  different := by decide

/-- Both are captured and a tick decodes them. -/
def twoWordsActs : List Act :=
  [.capture (List.replicate 9 0), .call .tick {}, .own {},
    .own { partialResult := .transcript { text := [97, 32, 98] } }]

theorem committed_words_once_two_words :
    (after ([.call .startSession {}, .own {}] ++ twoWordsActs)
        { maxSegmentDuration := 0 }).live.committedText = [97, 32, 98] ∧
    (splitWords (after ([.call .startSession {}, .own {}] ++ twoWordsActs)
        { maxSegmentDuration := 0 }).live.committedText).Sublist twoWords.texts := by
  have hr : Reachable TranscriptionQueue.defaultCapacity {} { maxSegmentDuration := 0 }
      (after [.call .startSession {}] { maxSegmentDuration := 0 }) := after_reachable (by decide)
  have hone : Lib.Along step (OneRecording twoWords)
      (after [.call .startSession {}, .own {}] { maxSegmentDuration := 0 }) twoWordsActs :=
    ⟨trivial, trivial, trivial, rfl, trivial⟩
  have hs : (after [.call .startSession {}] { maxSegmentDuration := 0 }).step (.own {}) =
      some (after [.call .startSession {}, .own {}] { maxSegmentDuration := 0 }) := by decide
  exact ⟨by decide, (committed_words_once hr (by decide) hs (by decide) hone (by decide)).1⟩

end Machine

end YoruSpeech

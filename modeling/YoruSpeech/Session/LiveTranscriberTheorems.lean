/-
YoruSpeech.Session.LiveTranscriberTheorems — what the word functions of the
live preview compute.

`split_words` inverts `join_words` on words without spaces, so committing
words appends exactly those words to the committed text. On decodes of one
utterance whose words are pairwise different, `overlap_prefix_length` finds
exactly the words two overlapping windows share.
-/
import YoruSpeech.Session.LiveTranscriber
import YoruSpeech.Lib.Stretch
import Mathlib.Data.Nat.Find

namespace YoruSpeech

open Lib (stretch)

/-! ## Splitting and joining -/

/-- A word as `split_words` produces them: not empty, without spaces. -/
def Plain (word : Bytes) : Prop := word ≠ [] ∧ ∀ c ∈ word, isSpace c = false

theorem splitWordsFrom_append_space (word x y : Bytes) :
    splitWordsFrom word (x ++ 32 :: y) = splitWordsFrom word x ++ splitWords y := by
  induction x generalizing word with
  | nil =>
    by_cases hw : word = []
    · simp [splitWordsFrom, splitWords, isSpace, hw]
    · simp [splitWordsFrom, splitWords, isSpace, hw]
  | cons c rest ih =>
    simp only [List.cons_append, splitWordsFrom]
    by_cases hc : isSpace c = true
    · by_cases hw : word = []
      · simp [hc, hw, ih]
      · simp [hc, hw, ih]
    · simp [hc, ih]

theorem splitWordsFrom_plain (word x : Bytes) (h : ∀ c ∈ x, isSpace c = false) :
    splitWordsFrom word x = if word ++ x = [] then [] else [word ++ x] := by
  induction x generalizing word with
  | nil => simp [splitWordsFrom]
  | cons c rest ih =>
    have hc := h c List.mem_cons_self
    have hrest : ∀ d ∈ rest, isSpace d = false := fun d hd => h d (List.mem_cons_of_mem c hd)
    simp only [splitWordsFrom, hc, Bool.false_eq_true, if_false]
    rw [ih (word ++ [c]) hrest]
    simp

theorem splitWords_plain {word : Bytes} (h : Plain word) : splitWords word = [word] := by
  rw [splitWords, splitWordsFrom_plain [] word h.2, List.nil_append, if_neg h.1]

theorem splitWords_joinStep (joined word : Bytes) :
    splitWords (joinStep joined word) = splitWords joined ++ splitWords word := by
  unfold joinStep
  by_cases hj : joined = []
  · simp [hj, splitWords, splitWordsFrom]
  · rw [if_neg hj, List.append_assoc, List.singleton_append]
    exact splitWordsFrom_append_space [] joined word

theorem splitWords_foldl {words : List Bytes} (h : ∀ w ∈ words, Plain w) (joined : Bytes) :
    splitWords (words.foldl joinStep joined) = splitWords joined ++ words := by
  induction words generalizing joined with
  | nil => simp
  | cons w rest ih =>
    rw [List.foldl_cons, ih fun v hv => h v (List.mem_cons_of_mem w hv), splitWords_joinStep,
      splitWords_plain (h w List.mem_cons_self), List.append_assoc, List.singleton_append]

/-- The loop of `split_words` only produces words of that kind. -/
theorem plain_of_mem_splitWordsFrom {word x : Bytes} (h : ∀ c ∈ word, isSpace c = false) :
    ∀ w ∈ splitWordsFrom word x, Plain w := by
  induction x generalizing word with
  | nil =>
    intro w hw
    simp only [splitWordsFrom] at hw
    split at hw
    · cases hw
    · rename_i hne
      rw [List.mem_singleton] at hw
      exact hw ▸ ⟨hne, h⟩
  | cons c rest ih =>
    intro w hw
    have hnil : ∀ d ∈ ([] : Bytes), isSpace d = false := by simp
    simp only [splitWordsFrom] at hw
    split at hw
    · split at hw
      · exact ih hnil w hw
      · rename_i hne
        rcases List.mem_cons.mp hw with rfl | hw
        · exact ⟨hne, h⟩
        · exact ih hnil w hw
    · rename_i hc
      refine ih ?_ w hw
      intro d hd
      rcases List.mem_append.mp hd with hd | hd
      · exact h d hd
      · rw [List.mem_singleton] at hd
        simpa [hd] using hc

theorem plain_of_mem_splitWords {text : Bytes} : ∀ w ∈ splitWords text, Plain w :=
  plain_of_mem_splitWordsFrom (by simp)

/-- **`split_words` inverts `join_words`.** -/
theorem splitWords_joinWords {words : List Bytes} (h : ∀ w ∈ words, Plain w) (i j : Nat) :
    splitWords (joinWords words i j) = stretch words i j := by
  have hsub : ∀ w ∈ stretch words i j, Plain w := fun w hw =>
    h w (List.mem_of_mem_take (List.mem_of_mem_drop hw))
  exact splitWords_foldl hsub []

/-- Committing words appends them, and nothing else, to the committed text. -/
theorem splitWords_commit (l : LiveTranscriber) {words : List Bytes} (h : ∀ w ∈ words, Plain w)
    (i j : Nat) :
    splitWords (l.commit words i j).committedText =
      splitWords l.committedText ++ stretch words i j := by
  have hjoin := splitWords_joinWords h i j
  unfold LiveTranscriber.commit
  by_cases hnew : joinWords words i j = []
  · rw [hnew] at hjoin
    have hnil : stretch words i j = [] := hjoin.symm
    simp [hnew, hnil]
  · simp only [hnew, if_false]
    rw [splitWords_joinStep, hjoin]

/-! ## Overlap -/

theorem wordsMatch_iff (a b : Bytes) :
    wordsMatch a b = true ↔ stripTrailingPunctuation a = stripTrailingPunctuation b := by
  simp [wordsMatch]

/-- The outer loop looks for the greatest length that matches. -/
theorem overlapFrom_eq_findGreatest (previous new : List Bytes) (n : Nat) :
    overlapFrom previous new n =
      Nat.findGreatest (fun k => overlapMatches previous new k = true) n := by
  induction n with
  | zero => rfl
  | succ n ih => rw [overlapFrom, Nat.findGreatest_succ, ih]

/-- The words of a list that match are at the same position. -/
def Distinct (words : List Bytes) : Prop :=
  ∀ (i j : Nat) (a b : Bytes), words[i]? = some a → words[j]? = some b →
    wordsMatch a b = true → i = j

/-- Two windows over the same words: the end of the first matches the start
of the second over `k` words exactly when `k` is what they share. -/
theorem overlapMatches_stretch {words : List Bytes} (hd : Distinct words) {s i j' j k : Nat}
    (hj' : j' ≤ words.length) (hk : 0 < k)
    (hprev : k ≤ j' - s) (hnew : k ≤ j - i) :
    overlapMatches (stretch words s j') (stretch words i j) k = true ↔ k = j' - i ∧ i ≤ j' := by
  have hlen : (stretch words s j').length = j' - s := by rw [Lib.length_stretch]; omega
  have hget : ∀ t, t < k → (stretch words s j')[(stretch words s j').length - k + t]? =
      words[j' - k + t]? := by
    intro t ht
    rw [hlen, Lib.getElem?_stretch words (by omega)]
    congr 1
    omega
  have hget' : ∀ t, t < k → (stretch words i j)[t]? = words[i + t]? := by
    intro t ht
    rw [Lib.getElem?_stretch words (by omega)]
  unfold overlapMatches
  rw [List.all_eq_true]
  constructor
  · intro hall
    have hzero := hall 0 (List.mem_range.mpr hk)
    rw [hget 0 hk, hget' 0 hk] at hzero
    split at hzero
    · rename_i a b ha hb
      have heq := hd _ _ a b ha hb hzero
      omega
    · cases hzero
  · rintro ⟨hkeq, hle⟩ t ht
    have ht' := List.mem_range.mp ht
    rw [hget t ht', hget' t ht']
    have hpos : j' - k + t = i + t := by omega
    have hbound : i + t < words.length := by omega
    rw [hpos, List.getElem?_eq_getElem hbound]
    exact (wordsMatch_iff _ _).mpr rfl

/-- **The overlap of two windows.** The second window starts no earlier and
ends no earlier than the first: what they share is what is found. -/
theorem overlapPrefixLength_stretch {words : List Bytes} (hd : Distinct words) {s i j' j : Nat}
    (hsi : s ≤ i) (hjj : j' ≤ j) (hj : j ≤ words.length) :
    overlapPrefixLength (stretch words s j') (stretch words i j) = j' - i := by
  have hprev : (stretch words s j').length = j' - s := by rw [Lib.length_stretch]; omega
  have hnew : (stretch words i j).length = j - i := by rw [Lib.length_stretch]; omega
  have hmatches : ∀ k, 0 < k → k ≤ min (j' - s) (j - i) →
      (overlapMatches (stretch words s j') (stretch words i j) k = true ↔ k = j' - i ∧ i ≤ j') :=
    fun k hk hle => overlapMatches_stretch hd (by omega) hk (by omega) (by omega)
  unfold overlapPrefixLength
  rw [hprev, hnew, overlapFrom_eq_findGreatest, Nat.findGreatest_eq_iff]
  refine ⟨by omega, ?_, ?_⟩
  · intro hne
    exact (hmatches _ (by omega) (by omega)).mpr ⟨rfl, by omega⟩
  · intro k hlt hle hk
    have hlong := (hmatches k (by omega) hle).mp hk
    omega

/-! ## The parts of a tick -/

namespace LiveTranscriber

/-- A window that is decoded is not empty, and not longer than a segment
after a pause. -/
theorem chooseWindow_eq_decode {l l' : LiveTranscriber} {now : Int} {window : List Sample}
    (h : l.chooseWindow now window = .decode l') :
    window ≠ [] ∧
    (l.pausedForWorker = true → window.length ≤ durationSamples l.config.maxSegmentDuration) ∧
    l' = { l with pausedForWorker := false, lastTickAt := some now } := by
  unfold chooseWindow at h
  split at h
  · cases h
  · split at h
    · cases h
    · rename_i hne
      split at h
      · simp only at h
        split at h
        · cases h
        · rename_i hshort
          cases h
          exact ⟨hne, fun _ => Nat.le_of_not_lt hshort, rfl⟩
      · rename_i hpaused
        cases h
        have hfalse : l.pausedForWorker = false := by simpa using hpaused
        exact ⟨hne, fun hp => absurd hp hpaused, by rw [← hfalse]⟩

/-- A window is cut only after a pause, to the length of a segment, and then
the words of the segment are forgotten. -/
theorem chooseWindow_eq_cut {l l' : LiveTranscriber} {now : Int} {window : List Sample}
    (h : l.chooseWindow now window = .cut l') :
    l.pausedForWorker = true ∧ durationSamples l.config.maxSegmentDuration < window.length ∧
    l' = { l with
      pausedForWorker := false
      committedSampleCount := l.committedSampleCount +
        (window.length - durationSamples l.config.maxSegmentDuration)
      committedWordCount := 0
      previousWords := []
      carriedWords := [] } := by
  unfold chooseWindow at h
  split at h
  · cases h
  · split at h
    · cases h
    · split at h
      · rename_i hpaused
        simp only at h
        split at h
        · rename_i hlong
          cases h
          exact ⟨hpaused, hlong, rfl⟩
        · cases h
      · cases h

/-! `commit` writes the committed text and nothing else; the overlap check
writes the word count and the carried words. -/

section Fields

variable (l : LiveTranscriber) (words : List Bytes) (i j : Nat)

@[simp] theorem commit_config : (l.commit words i j).config = l.config := by
  unfold commit
  simp only
  split <;> rfl

@[simp] theorem commit_samples :
    (l.commit words i j).committedSampleCount = l.committedSampleCount := by
  unfold commit
  simp only
  split <;> rfl

@[simp] theorem commit_carried : (l.commit words i j).carriedWords = l.carriedWords := by
  unfold commit
  simp only
  split <;> rfl

@[simp] theorem skipOverlap_config : (l.skipOverlap words).config = l.config := by
  unfold skipOverlap
  split <;> rfl

@[simp] theorem skipOverlap_samples :
    (l.skipOverlap words).committedSampleCount = l.committedSampleCount := by
  unfold skipOverlap
  split <;> rfl

@[simp] theorem skipOverlap_text : (l.skipOverlap words).committedText = l.committedText := by
  unfold skipOverlap
  split <;> rfl

@[simp] theorem skipOverlap_previous :
    (l.skipOverlap words).previousWords = l.previousWords := by
  unfold skipOverlap
  split <;> rfl

end Fields

/-- The fields no decode writes. -/
structure Untouched (l l' : LiveTranscriber) : Prop where
  config : l'.config = l.config
  lastTickAt : l'.lastTickAt = l.lastTickAt
  paused : l'.pausedForWorker = l.pausedForWorker
  language : l'.defaultLanguage = l.defaultLanguage
  prompt : l'.transcriptionPrompt = l.transcriptionPrompt

theorem Untouched.commit {l k : LiveTranscriber} (h : Untouched l k) (words : List Bytes)
    (i j : Nat) : Untouched l (k.commit words i j) := by
  unfold LiveTranscriber.commit
  simp only
  split
  · exact h
  · exact ⟨h.config, h.lastTickAt, h.paused, h.language, h.prompt⟩

theorem skipOverlap_untouched (l : LiveTranscriber) (words : List Bytes) :
    Untouched l (l.skipOverlap words) := by
  unfold skipOverlap
  split
  · exact ⟨rfl, rfl, rfl, rfl, rfl⟩
  · exact ⟨rfl, rfl, rfl, rfl, rfl⟩

theorem absorb_untouched (l : LiveTranscriber) (words : List Bytes) (size : Nat) (verdict : Bool) :
    Untouched l (l.absorb words size verdict) := by
  have hskip := skipOverlap_untouched l words
  unfold absorb
  simp only
  split
  · have hcommit := hskip.commit words (l.skipOverlap words).committedWordCount words.length
    exact ⟨hcommit.config, hcommit.lastTickAt, hcommit.paused, hcommit.language, hcommit.prompt⟩
  · unfold commitAgreed
    simp only
    split
    · have hcommit := hskip.commit words (l.skipOverlap words).committedWordCount
        ((l.skipOverlap words).safeUpper words)
      exact ⟨hcommit.config, hcommit.lastTickAt, hcommit.paused, hcommit.language, hcommit.prompt⟩
    · exact ⟨hskip.config, hskip.lastTickAt, hskip.paused, hskip.language, hskip.prompt⟩

end LiveTranscriber

end YoruSpeech

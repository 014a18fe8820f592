/-
YoruSpeech.Session.LiveTranscriber — the live preview
(`live_transcriber.cpp`).

Translation notes. A duration of `LiveTranscriberConfig` is the `int64_t`
count of its milliseconds, so it may be negative; `durationSamples` keeps
the conversion to `std::size_t` and the wrap-around of the multiplication.
`steady_clock` ticks in nanoseconds. The energy comparison of
`has_trailing_silence` is floating point: its two guards are modelled and
the comparison itself is an input, the VERDICT, which may be any Boolean
on any window (so `vad_threshold`, which only the comparison reads, is left
out). The C locale decides `isspace` and `ispunct`: the program never
calls `setlocale`.

`tick()` is cut where other threads can be seen: the check that the
transcription worker is idle, the two snapshots of the captured samples,
and the call of `transcribe_partial`.
-/
import YoruSpeech.Audio.RecordingManager
import Mathlib.Algebra.Group.Int.Defs
import Mathlib.Algebra.Group.Nat.Defs

namespace YoruSpeech

/-! ## Words -/

/-- `std::isspace` in the C locale. -/
def isSpace (c : UInt8) : Bool := c == 32 || (9 ≤ c && c ≤ 13)

/-- `std::ispunct` in the C locale. -/
def isPunct (c : UInt8) : Bool :=
  (33 ≤ c && c ≤ 47) || (58 ≤ c && c ≤ 64) || (91 ≤ c && c ≤ 96) || (123 ≤ c && c ≤ 126)

/-- The loop of `split_words`, with the word read so far. -/
def splitWordsFrom : Bytes → Bytes → List Bytes
  | word, [] => if word = [] then [] else [word]
  | word, c :: rest =>
    if isSpace c then
      if word = [] then splitWordsFrom [] rest else word :: splitWordsFrom [] rest
    else splitWordsFrom (word ++ [c]) rest

/-- `split_words`: the maximal runs of non-space bytes. -/
def splitWords (text : Bytes) : List Bytes := splitWordsFrom [] text

/-- One turn of the loop of `join_words`. -/
def joinStep (joined word : Bytes) : Bytes :=
  (if joined = [] then joined else joined ++ [32]) ++ word

/-- `join_words(words, from_index, to_index)`. -/
def joinWords (words : List Bytes) (fromIndex toIndex : Nat) : Bytes :=
  ((words.take toIndex).drop fromIndex).foldl joinStep []

/-- `strip_trailing_punctuation`. -/
def stripTrailingPunctuation (word : Bytes) : Bytes :=
  (word.reverse.dropWhile isPunct).reverse

/-- `words_match`. -/
def wordsMatch (a b : Bytes) : Bool :=
  stripTrailingPunctuation a == stripTrailingPunctuation b

/-- `common_prefix_length`. -/
def commonPrefixLength : List Bytes → List Bytes → Nat
  | a :: as, b :: bs => if wordsMatch a b then commonPrefixLength as bs + 1 else 0
  | _, _ => 0

/-- The inner loop of `overlap_prefix_length`: the last `k` words of
`previous` match the first `k` of `new`. -/
def overlapMatches (previous new : List Bytes) (k : Nat) : Bool :=
  (List.range k).all fun i =>
    match previous[previous.length - k + i]?, new[i]? with
    | some a, some b => wordsMatch a b
    | _, _ => false

/-- The outer loop of `overlap_prefix_length`, from `k` down. -/
def overlapFrom (previous new : List Bytes) : Nat → Nat
  | 0 => 0
  | k + 1 => if overlapMatches previous new (k + 1) then k + 1 else overlapFrom previous new k

/-- `overlap_prefix_length`. -/
def overlapPrefixLength (previous new : List Bytes) : Nat :=
  overlapFrom previous new (min previous.length new.length)

/-! ## Configuration and state -/

/-- `LiveTranscriberConfig`, in milliseconds. -/
structure LiveTranscriberConfig where
  minInterval : Int := 1000
  maxSegmentDuration : Int := 5000
  keepDuration : Int := 200
  vadTrailingDuration : Int := 1000
  deriving DecidableEq, Repr

/-- `static_cast<std::size_t>(d.count()) * kSampleRate / 1000`. -/
def durationSamples (d : Int) : Nat :=
  (d % 2 ^ 64).toNat * kSampleRate % 2 ^ 64 / 1000

/-- `has_trailing_silence` on a window of `size` samples, given the verdict
of the energy comparison. -/
def hasTrailingSilence (size : Nat) (trailingDuration : Int) (verdict : Bool) : Bool :=
  if size ≤ durationSamples trailingDuration || durationSamples trailingDuration == 0 then false
  else verdict

/-- `LiveTranscriber`. -/
structure LiveTranscriber where
  config : LiveTranscriberConfig := {}
  lastTickAt : Option Int := none
  pausedForWorker : Bool := false
  committedSampleCount : Nat := 0
  committedWordCount : Nat := 0
  committedText : Bytes := []
  tailText : Bytes := []
  previousWords : List Bytes := []
  carriedWords : List Bytes := []
  defaultLanguage : Bytes
  transcriptionPrompt : Bytes
  deriving DecidableEq, Repr

namespace LiveTranscriber

/-- `LiveTranscriber::reset`. -/
def reset (l : LiveTranscriber) : LiveTranscriber :=
  { l with
    lastTickAt := none
    pausedForWorker := false
    committedSampleCount := 0
    committedWordCount := 0
    committedText := []
    tailText := []
    previousWords := []
    carriedWords := [] }

/-- The handlers the constructor subscribes. -/
def onEvent (l : LiveTranscriber) : Event → LiveTranscriber
  | .recordingStarted _ => l.reset
  | .configurationChanged c =>
    { l with defaultLanguage := c.defaultLanguage, transcriptionPrompt := c.transcriptionPrompt }
  | _ => l

/-- `LiveTranscriber::commit`. -/
def commit (l : LiveTranscriber) (words : List Bytes) (fromIndex toIndex : Nat) :
    LiveTranscriber :=
  let newText := joinWords words fromIndex toIndex
  if newText = [] then l else { l with committedText := joinStep l.committedText newText }

/-- The request of every preview decode. -/
def request (l : LiveTranscriber) : TranscriptionRequest :=
  { language := l.defaultLanguage, initialPrompt := l.transcriptionPrompt }

/-! ## `tick()` -/

/-- `tick()` when `transcription_busy()` answers yes. -/
def pause (l : LiveTranscriber) : LiveTranscriber := { l with pausedForWorker := true }

/-- `now - *last_tick_at_ < config_.min_interval`. -/
def tooSoon (l : LiveTranscriber) (now : Int) : Bool :=
  match l.lastTickAt with
  | none => false
  | some t => now - t < l.config.minInterval * 1000000

/-- What `tick()` does with its first snapshot. -/
inductive WindowChoice where
  /-- Return: too soon, or nothing captured since the last commit. -/
  | skip
  /-- Decode this window. -/
  | decode (l : LiveTranscriber)
  /-- The window outgrew a segment during a pause: the start was moved and
  the snapshot is taken again. -/
  | cut (l : LiveTranscriber)
  deriving DecidableEq, Repr

/-- `tick()`, from the pacing check to the choice of the window. -/
def chooseWindow (l : LiveTranscriber) (now : Int) (window : List Sample) : WindowChoice :=
  if l.tooSoon now then .skip
  else if window = [] then .skip
  else if l.pausedForWorker then
    let maxWindowSamples := durationSamples l.config.maxSegmentDuration
    if window.length > maxWindowSamples then
      .cut { l with
        pausedForWorker := false
        committedSampleCount := l.committedSampleCount + (window.length - maxWindowSamples)
        committedWordCount := 0
        previousWords := []
        carriedWords := [] }
    else .decode { l with pausedForWorker := false, lastTickAt := some now }
  else .decode { l with lastTickAt := some now }

/-- The overlap check at the first decode of a segment. -/
def skipOverlap (l : LiveTranscriber) (words : List Bytes) : LiveTranscriber :=
  if l.committedWordCount = 0 && l.previousWords = [] && l.carriedWords ≠ [] then
    { l with committedWordCount := overlapPrefixLength l.carriedWords words, carriedWords := [] }
  else l

/-- `force_commit` for a window of `size` samples. -/
def forceCommit (l : LiveTranscriber) (size : Nat) (verdict : Bool) : Bool :=
  (size : Int) * 1000 / (kSampleRate : Int) ≥ l.config.maxSegmentDuration ||
    hasTrailingSilence size l.config.vadTrailingDuration verdict

/-- The force-commit branch. -/
def commitSegment (l : LiveTranscriber) (words : List Bytes) (size : Nat) : LiveTranscriber :=
  let keepSamples := durationSamples l.config.keepDuration
  let advance := if size > keepSamples then size - keepSamples else size
  { l.commit words l.committedWordCount words.length with
    tailText := []
    carriedWords := words
    committedSampleCount := l.committedSampleCount + advance
    committedWordCount := 0
    previousWords := [] }

/-- `min(agreement, current_words.size() - 1)`, or 0 for no words. -/
def safeUpper (l : LiveTranscriber) (words : List Bytes) : Nat :=
  if words = [] then 0
  else min (commonPrefixLength l.previousWords words) (words.length - 1)

/-- The agreement branch. -/
def commitAgreed (l : LiveTranscriber) (words : List Bytes) : LiveTranscriber :=
  let upper := l.safeUpper words
  let l :=
    if upper > l.committedWordCount then
      { l.commit words l.committedWordCount upper with committedWordCount := upper }
    else l
  { l with
    tailText := joinWords words l.committedWordCount words.length
    previousWords := words }

/-- `tick()`, from a successful decode of `words` on a window of `size`
samples to the end of the commit bookkeeping. -/
def absorb (l : LiveTranscriber) (words : List Bytes) (size : Nat) (verdict : Bool) :
    LiveTranscriber :=
  let l := l.skipOverlap words
  if l.forceCommit size verdict then l.commitSegment words size else l.commitAgreed words

/-- `tick()`, from the return of `transcribe_partial`: the new state and the
event, published only when the text changed. -/
def afterDecode (l : LiveTranscriber) (sessionId : SessionId) (size : Nat)
    (result : TranscriptionResult) (verdict : Bool) : LiveTranscriber × Option Event :=
  match result with
  | .error _ => (l, none)
  | .transcript t =>
    let l' := l.absorb (splitWords t.text) size verdict
    if l'.committedText = l.committedText && l'.tailText = l.tailText then (l', none)
    else (l', some (.transcriptionPartial sessionId l'.committedText l'.tailText))

end LiveTranscriber

end YoruSpeech

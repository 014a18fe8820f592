/-
YoruSpeech.Session.PartialTheorems — what a client sees of the preview.

`LiveTranscriber` holds two texts, and eight fields of bookkeeping around
them. Only two steps of the daemon write the texts: the start of a
recording empties them, and the end of a decode may change them and
publishes them whenever it does (`step_preview`). So the
`TranscriptionPartial` events of a session are the successive values of the
two texts while it records, and the last of them is the current one
(`Shown`).

Where the words come from is said of whole runs: a decode is a step of the
run, and its window was cut from what the session had captured by then
(`OwnWindow`, `Heard`).
-/
import YoruSpeech.Session.CaptureTheorems
import YoruSpeech.Session.PreviewTheorems
import Mathlib.Data.List.Chain

namespace YoruSpeech

/-! ## The two texts -/

/-- The second text is the first one, or continues it with whole words. -/
def Extends (text text' : Bytes) : Prop :=
  text' = text ∨ ∃ words : List Bytes, words ≠ [] ∧ (∀ w ∈ words, Plain w) ∧
    text' = joinStep text (words.foldl joinStep [])

theorem RecordingManager.samplesSnapshot_suffix (r : RecordingManager) (startIndex : Nat) :
    r.samplesSnapshot startIndex <:+ r.samples := by
  unfold samplesSnapshot
  split
  · exact List.nil_suffix
  · exact List.drop_suffix _ _

namespace LiveTranscriber

variable {l : LiveTranscriber} {words : List Bytes}

/-- What a client is shown. -/
def texts (l : LiveTranscriber) : Bytes × Bytes := (l.committedText, l.tailText)

theorem onEvent_texts {e : Event} (he : ∀ id, e ≠ .recordingStarted id) :
    (l.onEvent e).texts = l.texts := by
  cases e with
  | recordingStarted id => exact absurd rfl (he id)
  | _ => rfl

theorem chooseWindow_texts {now : Int} {window : List Sample} {l' : LiveTranscriber}
    (h : l.chooseWindow now window = .decode l' ∨ l.chooseWindow now window = .cut l') :
    l'.texts = l.texts := by
  rcases h with h | h
  · obtain ⟨-, -, rfl⟩ := chooseWindow_eq_decode h
    rfl
  · obtain ⟨-, -, rfl⟩ := chooseWindow_eq_cut h
    rfl

theorem commit_committedText (l : LiveTranscriber) (words : List Bytes) (i j : Nat) :
    (l.commit words i j).committedText =
      if joinWords words i j = [] then l.committedText
      else joinStep l.committedText (joinWords words i j) := by
  unfold commit
  simp only
  split <;> rfl

/-- Whichever way a decode commits, it appends some of its words to the
committed text and leaves the rest of them in the tail. -/
theorem absorb_texts (l : LiveTranscriber) (words : List Bytes) (size : Nat) (verdict : Bool) :
    ∃ i j k, (l.absorb words size verdict).texts =
      ((l.commit words i j).committedText, joinWords words k words.length) := by
  have hskip : (l.skipOverlap words).committedText = l.committedText := by
    unfold skipOverlap
    split <;> rfl
  have hcommit : ∀ i j, ((l.skipOverlap words).commit words i j).committedText =
      (l.commit words i j).committedText := by
    intro i j
    rw [commit_committedText, commit_committedText, hskip]
  unfold absorb
  simp only
  split
  · refine ⟨(l.skipOverlap words).committedWordCount, words.length, words.length, ?_⟩
    rw [← hcommit]
    simp [texts, commitSegment, joinWords]
  · unfold commitAgreed
    simp only
    split
    · refine ⟨(l.skipOverlap words).committedWordCount, (l.skipOverlap words).safeUpper words,
        (l.skipOverlap words).safeUpper words, ?_⟩
      rw [← hcommit]
      rfl
    · refine ⟨0, 0, (l.skipOverlap words).committedWordCount, ?_⟩
      rw [← hcommit, commit_committedText]
      simp [texts, joinWords]

theorem commit_extends (h : ∀ w ∈ words, Plain w) (i j : Nat) :
    Extends l.committedText (l.commit words i j).committedText := by
  rw [commit_committedText]
  split
  · exact .inl rfl
  · rename_i hnew
    refine .inr ⟨(words.take j).drop i, ?_, ?_, rfl⟩
    · intro hnil
      exact hnew (by rw [joinWords, hnil]; rfl)
    · intro w hw
      exact h w (List.mem_of_mem_take (List.mem_of_mem_drop hw))

theorem absorb_extends (h : ∀ w ∈ words, Plain w) (size : Nat) (verdict : Bool) :
    Extends l.committedText (l.absorb words size verdict).committedText := by
  obtain ⟨i, j, k, htexts⟩ := l.absorb_texts words size verdict
  rw [(Prod.mk.inj htexts).1]
  exact commit_extends h i j

/-- The words of the two texts after a decode are words of the committed
text before it, or were decoded. -/
theorem mem_absorb (h : ∀ w ∈ words, Plain w) {size : Nat} {verdict : Bool} {w : Bytes}
    (hw : w ∈ splitWords (l.absorb words size verdict).committedText ++
      splitWords (l.absorb words size verdict).tailText) :
    w ∈ splitWords l.committedText ∨ w ∈ words := by
  obtain ⟨i, j, k, htexts⟩ := l.absorb_texts words size verdict
  obtain ⟨hcommitted, htail⟩ := Prod.mk.inj htexts
  rw [hcommitted, htail, splitWords_commit l h, splitWords_joinWords h] at hw
  simp only [List.mem_append] at hw
  rcases hw with (hold | hnew) | hrest
  · exact .inl hold
  · exact .inr (List.mem_of_mem_take (List.mem_of_mem_drop hnew))
  · exact .inr (List.mem_of_mem_take (List.mem_of_mem_drop hrest))

/-- What the end of a decode does: nothing that shows, or new texts with the
event that announces them. -/
theorem afterDecode_cases (l : LiveTranscriber) (id : SessionId) (size : Nat)
    (result : TranscriptionResult) (verdict : Bool) :
    ((l.afterDecode id size result verdict).1.texts = l.texts ∧
      (l.afterDecode id size result verdict).2 = none) ∨
    ∃ t : Transcript, result = .transcript t ∧
      (l.afterDecode id size result verdict).1 = l.absorb (splitWords t.text) size verdict ∧
      (l.absorb (splitWords t.text) size verdict).texts ≠ l.texts ∧
      (l.afterDecode id size result verdict).2 = some (.transcriptionPartial id
        (l.absorb (splitWords t.text) size verdict).committedText
        (l.absorb (splitWords t.text) size verdict).tailText) := by
  cases result with
  | error e => exact .inl ⟨rfl, rfl⟩
  | transcript t =>
    unfold afterDecode
    simp only
    split
    · rename_i hsame
      simp only [Bool.and_eq_true, decide_eq_true_eq] at hsame
      exact .inl ⟨Prod.ext hsame.1 hsame.2, rfl⟩
    · rename_i hchanged
      refine .inr ⟨t, rfl, rfl, ?_, rfl⟩
      intro htexts
      obtain ⟨hcommitted, htail⟩ := Prod.mk.inj htexts
      exact hchanged (by simp [hcommitted, htail])

end LiveTranscriber

/-! ## The events of a session -/

/-- The texts the event shows, if it is one of this session's. -/
def Event.shown? (s : SessionId) : Event → Option (Bytes × Bytes)
  | .transcriptionPartial id committed tail => if id = s then some (committed, tail) else none
  | _ => none

/-- The `TranscriptionPartial` events of a session, in order. -/
def partials (s : SessionId) (log : List Event) : List (Bytes × Bytes) :=
  log.filterMap (Event.shown? s)

/-- The latest of them, or a pair of empty strings. -/
def latest (s : SessionId) (log : List Event) : Bytes × Bytes :=
  (partials s log).getLast?.getD ([], [])

theorem partials_append (s : SessionId) (log es : List Event) :
    partials s (log ++ es) = partials s log ++ partials s es := List.filterMap_append

theorem partials_managed {s : SessionId} {es : List Event} (h : ∀ e ∈ es, e.managed = true) :
    partials s es = [] := by
  refine List.filterMap_eq_nil_iff.mpr ?_
  intro e he
  have hmanaged := h e he
  cases e with
  | transcriptionPartial id committed tail => cases hmanaged
  | _ => rfl

theorem Event.managed_of_ofSession {e : Event} (h : e.ofSession = true) : e.managed = true := by
  cases e with
  | transcriptionPartial id committed tail => cases h
  | _ => rfl

/-! ## Steps -/

namespace Machine

variable {m m' : Machine} {a : Act} {capacity : Nat} {c : Configuration}
  {liveConfig : LiveTranscriberConfig}

theorem publish?_texts (m : Machine) {e : Option Event}
    (he : ∀ x ∈ e, ∀ id, x ≠ .recordingStarted id) : (m.publish? e).live.texts = m.live.texts := by
  cases e with
  | none => rfl
  | some e => exact LiveTranscriber.onEvent_texts (he e rfl)

/-- The texts are the same, and the session they belong to is the same or
is over. -/
structure Untouched (m m' : Machine) : Prop where
  texts : m'.live.texts = m.live.texts
  session : m'.manager.activeSessionId = m.manager.activeSessionId ∨
    m'.manager.activeSessionId = none
  next : m.manager.nextSessionId ≤ m'.manager.nextSessionId

/-- A recording starts with empty texts. -/
structure Opens (m m' : Machine) : Prop where
  texts : m'.live.texts = ([], [])
  session : m'.manager.activeSessionId = some m.manager.nextSessionId
  next : m'.manager.nextSessionId = m.manager.nextSessionId + 1

theorem Move.texts_cases (hcap : Captured m) (hm : Move m m') :
    Untouched m m' ∨ Opens m m' ∨
    ∃ id window, m.owner = .decoding id window ∧ m'.owner = .idle := by
  have hsame : ∀ {t : Machine} {e : Option Event}, (∀ x ∈ e, ∀ id, x ≠ .recordingStarted id) →
      t.live.texts = m.live.texts →
      (t.manager.activeSessionId = m.manager.activeSessionId ∨
        t.manager.activeSessionId = none) →
      m.manager.nextSessionId ≤ t.manager.nextSessionId → Untouched m (t.publish? e) := by
    intro t e he htexts hsession hnext
    refine ⟨(publish?_texts t he).trans htexts, ?_, ?_⟩
    · simpa [SessionManager.activeSessionId] using hsession
    · simpa using hnext
  cases hm with
  | refuse e r ho he _ =>
    exact .inl (hsame (fun x hx => Event.ne_recordingStarted (he x hx)) rfl (.inl rfl)
      (Nat.le_refl _))
  | startFailed r msg ho hr =>
    exact .inl (hsame (by simp) rfl (.inl rfl) (Nat.le_succ _))
  | started r s ho hr hid hs =>
    refine .inr (.inl ⟨rfl, ?_, ?_⟩)
    · simp [SessionManager.activeSessionId, hid]
    · simp
  | stopLost r s now msg ho hs ha hrun hr =>
    refine .inl (hsame (by simp) rfl (.inl ?_) (Nat.le_refl _))
    simp [SessionManager.activeSessionId, ha]
  | discard r e ho hs hr he =>
    exact .inl (hsame (fun x hx => Event.ne_recordingStarted (he x hx)) rfl (.inl rfl)
      (Nat.le_refl _))
  | discarded s ho ha => exact .inl (hsame (by simp) rfl (.inr rfl) (Nat.le_refl _))
  | enqueueRefused id rec s msg ho hfull hid hs hf =>
    rw [Captured, ho] at hcap
    obtain ⟨-, -, s', hactive, hid', -⟩ := hcap
    refine .inl (hsame (by simp) rfl (.inl ?_) (Nat.le_refl _))
    simp [SessionManager.activeSessionId, hactive, hid, hid']
  | enqueue id rec ho hs hp => exact .inl ⟨rfl, .inr rfl, Nat.le_refl _⟩
  | tickEnd l ho hl =>
    refine .inl ⟨?_, .inl rfl, Nat.le_refl _⟩
    rcases hl with rfl | ⟨-, -, rfl⟩
    · rfl
    · rfl
  | tickCut l id now ho hcut =>
    exact .inl ⟨LiveTranscriber.chooseWindow_texts (.inr hcut), .inl rfl, Nat.le_refl _⟩
  | tickDecode l id ho =>
    refine .inl ⟨?_, .inl rfl, Nat.le_refl _⟩
    rcases ho with ⟨now, -, hchoice⟩ | ⟨_, _, -, -, rfl⟩
    · exact LiveTranscriber.chooseWindow_texts (.inl hchoice)
    · rfl
  | tickDecoded l id window e ho he => exact .inr (.inr ⟨id, window, ho, by simp⟩)
  | stopped | announceQueued | announceCancelled | announceStarted | reportFailed
  | reportCompleted | reportDropped =>
    exact .inl (hsame (by simp) rfl (.inl rfl) (Nat.le_refl _))
  | _ => exact .inl ⟨rfl, .inl rfl, Nat.le_refl _⟩

/-- Only the end of a decode publishes the texts. -/
theorem step_managed (hd : m.decodes a = false) (hs : m.step a = some m') (s : SessionId) :
    partials s m'.log = partials s m.log := by
  have hlog : ∃ es, m'.log = m.log ++ es ∧ ∀ e ∈ es, e.managed = true := by
    cases ha : configures a with
    | false =>
      obtain ⟨es, hlog, hes⟩ := (step_sessional ha hd hs).log
      exact ⟨es, hlog, fun e he => Event.managed_of_ofSession (hes e he)⟩
    | true =>
      cases a with
      | call op inp =>
        cases op with
        | configure c' =>
          simp only [step, Option.ite_none_right_eq_some, Option.some.injEq] at hs
          obtain ⟨-, rfl⟩ := hs
          exact ⟨[.configurationChanged c'], rfl, by simp [Event.managed]⟩
        | _ => cases ha
      | _ => cases ha
  obtain ⟨es, heq, hes⟩ := hlog
  rw [heq, partials_append, partials_managed hes, List.append_nil]

/-- What a step does to the texts and to what was published of them. -/
inductive PreviewStep (m : Machine) (a : Act) (m' : Machine) : Prop
  | untouched (same : Untouched m m') (log : ∀ s, partials s m'.log = partials s m.log)
  | opens (empty : Opens m m') (log : ∀ s, partials s m'.log = partials s m.log)
  | shows (inp : Input) (id : SessionId) (window : List Sample) (t : Transcript)
      (act : a = .own inp) (owner : m.owner = .decoding id window)
      (result : inp.partialResult = .transcript t)
      (texts : m'.live.texts =
        (m.live.absorb (splitWords t.text) window.length inp.verdict).texts)
      (changed : m'.live.texts ≠ m.live.texts)
      (session : m'.manager.activeSessionId = m.manager.activeSessionId)
      (next : m'.manager.nextSessionId = m.manager.nextSessionId)
      (log : ∀ s, partials s m'.log =
        partials s m.log ++ if id = s then [m'.live.texts] else [])

theorem tickDecoded_preview {inp : Input} {id : SessionId} {window : List Sample}
    (ho : m.owner = .decoding id window) :
    PreviewStep m (.own inp) (m.tickDecoded id window inp) := by
  have hsession : (m.tickDecoded id window inp).manager.activeSessionId =
      m.manager.activeSessionId := by
    simp [tickDecoded, endTick, SessionManager.activeSessionId]
  have hnext : (m.tickDecoded id window inp).manager.nextSessionId =
      m.manager.nextSessionId := by
    simp [tickDecoded, endTick]
  have hlog : (m.tickDecoded id window inp).log = m.log ++
      (m.live.afterDecode id window.length inp.partialResult inp.verdict).2.toList := by
    simp [tickDecoded, endTick]
  have htexts : (m.tickDecoded id window inp).live.texts =
      (m.live.afterDecode id window.length inp.partialResult inp.verdict).1.texts := by
    refine publish?_texts _ ?_
    intro e he id' heq
    subst heq
    have hunmanaged := LiveTranscriber.afterDecode_unmanaged he
    cases hunmanaged
  rcases m.live.afterDecode_cases id window.length inp.partialResult inp.verdict with
    ⟨hsame, hnone⟩ | ⟨t, hresult, hlive, hchanged, hsome⟩
  · refine .untouched ⟨htexts.trans hsame, .inl hsession, Nat.le_of_eq hnext.symm⟩ ?_
    intro s
    rw [hlog, hnone, Option.toList_none, List.append_nil]
  · rw [hlive] at htexts
    refine .shows inp id window t rfl ho hresult htexts (htexts ▸ hchanged) hsession hnext ?_
    intro s
    rw [hlog, hsome, Option.toList_some, partials_append, htexts]
    by_cases hs : id = s
    · simp [partials, Event.shown?, hs, LiveTranscriber.texts]
    · simp [partials, Event.shown?, hs]

theorem step_preview (hr : Reachable capacity c liveConfig m) (hs : m.step a = some m') :
    PreviewStep m a m' := by
  cases hd : m.decodes a with
  | true =>
    obtain ⟨inp, id, window, rfl, howner⟩ := decodes_eq_true hd
    simp only [step, howner, Option.some.injEq] at hs
    subst hs
    exact tickDecoded_preview howner
  | false =>
    have hlog := step_managed hd hs
    rcases (hr.move hs).texts_cases hr.captured with hsame | hopens | ⟨id, window, ho, hend⟩
    · exact .untouched hsame hlog
    · exact .opens hopens hlog
    · -- leaving a decode is a step of the owner
      cases hby : a.byOwner with
      | false =>
        have howner := (step_background hby hs).owner
        rw [ho, hend] at howner
        cases howner
      | true =>
        cases a with
        | call op inp => simp [step, ho] at hs
        | own inp => simp [decodes, ho] at hd
        | worker | capture | lose => cases hby

/-! ## Inside a tick -/

/-- The session a `tick()` is about, once it has looked. -/
def ticked : Owner → Option SessionId
  | .recutting id _ => some id
  | .decoding id _ => some id
  | _ => none

/-- During a `tick()` the service is recording, for the session the tick is
about. -/
structure Attending (m : Machine) : Prop where
  recording : m.owner.inTick = true → m.manager.state = .recording
  session : ∀ id, ticked m.owner = some id → m.manager.activeSessionId = some id

theorem ticked_of_inTick {o : Owner} (h : o.inTick = false) : ticked o = none := by
  cases o with
  | recutting | decoding => cases h
  | _ => rfl

theorem Attending.of_owner (h : m'.owner.inTick = false) : Attending m' := by
  refine ⟨fun hin => ?_, fun id hid => ?_⟩
  · rw [h] at hin
    cases hin
  · rw [ticked_of_inTick h] at hid
    cases hid

theorem apply_inTick (m : Machine) (next : Next) : (m.apply next).owner.inTick = false := by
  cases next with
  | done g e r => simp [apply, Owner.inTick]
  | more g e f => simp [apply, Owner.inTick]
  | undefined => rfl

theorem resume_inTick {f : Frame} {inp : Input} (hs : m.resume f inp = some m') :
    m'.owner.inTick = false := by
  cases f with
  | stopping dropped =>
    cases hs
    rfl
  | aborted dropped =>
    simp only [resume] at hs
    split at hs
    · split at hs
      · cases hs
        rfl
      · cases hs
    · cases hs
      rfl
  | _ =>
    cases hs
    exact apply_inTick _ _

/-- A call leads into a tick of a service that is recording, or into no
tick. -/
theorem begin_inTick (hidle : m.owner = .idle) (op : Op) (inp : Input) :
    (m.begin op inp).owner.inTick = false ∨
    ((m.begin op inp).owner = .ticking ∧ (m.begin op inp).manager.state = .recording) := by
  cases op with
  | tick =>
    show m.beginTick.owner.inTick = false ∨
      (m.beginTick.owner = .ticking ∧ m.beginTick.manager.state = .recording)
    unfold beginTick
    split
    · exact .inl rfl
    · rename_i hstate
      split
      · exact .inl rfl
      · exact .inr ⟨rfl, SessionManager.state_of_reportedState (by simpa using hstate)⟩
  | configure c' =>
    refine .inl ?_
    show m.owner.inTick = false
    rw [hidle]
    rfl
  | _ => exact .inl (apply_inTick _ _)

theorem begin_attending (hidle : m.owner = .idle) (op : Op) (inp : Input) :
    Attending (m.begin op inp) := by
  rcases begin_inTick hidle op inp with hout | ⟨hin, hstate⟩
  · exact .of_owner hout
  · refine ⟨fun _ => hstate, fun id hid => ?_⟩
    rw [hin] at hid
    cases hid

theorem Attending.tickWindow (h : Attending m) (ho : m.owner = .ticking) (now : Int) :
    Attending (m.tickWindow now) := by
  have hstate := h.recording (by rw [ho]; rfl)
  unfold Machine.tickWindow
  split
  · exact .of_owner rfl
  · rename_i id hactive
    have hid : ∀ id', some id = some id' → m.manager.activeSessionId = some id' := by
      rintro id' ⟨⟩
      exact hactive
    simp only
    split
    · exact .of_owner rfl
    · exact ⟨fun _ => hstate, hid⟩
    · exact ⟨fun _ => hstate, hid⟩

theorem Attending.tickRecut (h : Attending m) {id : SessionId} {now : Int}
    (ho : m.owner = .recutting id now) : Attending (m.tickRecut id now) := by
  have hstate := h.recording (by rw [ho]; rfl)
  have hactive := h.session id (by rw [ho]; rfl)
  unfold Machine.tickRecut
  simp only
  split
  · exact .of_owner rfl
  · refine ⟨fun _ => hstate, ?_⟩
    rintro id' ⟨⟩
    exact hactive

theorem Attending.step (h : Attending m) (hs : m.step a = some m') : Attending m' := by
  have hother : a.byOwner = false → Attending m' := by
    intro hby
    have haside := step_aside hby hs
    refine ⟨?_, ?_⟩
    · rw [haside.owner, haside.state]
      exact h.recording
    · rw [haside.owner, SessionManager.activeSessionId, haside.session]
      exact h.session
  cases a with
  | call op inp =>
    simp only [Machine.step, Option.ite_none_right_eq_some, Option.some.injEq] at hs
    obtain ⟨hidle, rfl⟩ := hs
    exact begin_attending hidle op inp
  | own inp =>
    simp only [Machine.step] at hs
    split at hs
    · exact .of_owner (resume_inTick hs)
    · rename_i ho
      cases hs
      exact h.tickWindow ho _
    · rename_i ho
      cases hs
      exact h.tickRecut ho
    · cases hs
      refine .of_owner ?_
      simp [tickDecoded, endTick, Owner.inTick]
    · cases hs
    · cases hs
  | worker | capture | lose => exact hother rfl

theorem Reachable.attending (h : Reachable capacity c liveConfig m) : Attending m := by
  refine Lib.Reachable.invariant (P := Attending) h (.of_owner rfl) ?_
  exact fun t a t' _ ht hs => ht.step hs

/-- During a tick the recording manager holds the active session. -/
theorem Reachable.recorder_of_inTick {id : SessionId} (h : Reachable capacity c liveConfig m)
    (hin : m.owner.inTick = true) (hactive : m.manager.activeSessionId = some id) :
    m.recorder.activeSession = some id := by
  have hstate := h.attending.recording hin
  have hcalm : calm m.owner = true := by
    cases ho : m.owner with
    | ticking | recutting | decoding => rfl
    | _ => simp [ho, Owner.inTick] at hin
  cases (captured_calm_iff hcalm).mp h.captured with
  | idle hidle _ _ =>
    rw [hstate] at hidle
    cases hidle
  | recording session _ hsession hrecorder _ =>
    rw [SessionManager.activeSessionId, hsession] at hactive
    cases hactive
    exact hrecorder
  | error _ herror _ _ _ _ =>
    rw [hstate] at herror
    cases herror

/-- Past the choice of the window, that session is the one the tick is for. -/
theorem Reachable.recorder_of_ticked {id : SessionId} (h : Reachable capacity c liveConfig m)
    (hticked : ticked m.owner = some id) : m.recorder.activeSession = some id := by
  have hin : m.owner.inTick = true := by
    cases ho : m.owner with
    | recutting | decoding => rfl
    | _ => simp [ho, ticked] at hticked
  exact h.recorder_of_inTick hin (h.attending.session id hticked)

/-- The window of a decode in progress was cut by the step that entered it,
from the samples of the session. -/
theorem step_decoding {id : SessionId} {window : List Sample} (h : Attending m)
    (hs : m.step a = some m') (ho : m'.owner = .decoding id window) :
    m.owner = .decoding id window ∨
    (m.owner.inTick = true ∧ m.manager.activeSessionId = some id ∧
      window <:+ m.recorder.samples) := by
  cases hby : a.byOwner with
  | false => exact .inl ((step_background hby hs).owner.symm.trans ho)
  | true =>
    refine .inr ?_
    cases a with
    | call op inp =>
      simp only [step, Option.ite_none_right_eq_some, Option.some.injEq] at hs
      obtain ⟨hidle, rfl⟩ := hs
      rcases begin_inTick hidle op inp with hout | ⟨hin, -⟩
      · rw [ho] at hout
        cases hout
      · rw [ho] at hin
        cases hin
    | own inp =>
      simp only [step] at hs
      split at hs
      · have hout := resume_inTick hs
        rw [ho] at hout
        cases hout
      · rename_i howner
        cases hs
        unfold tickWindow at ho
        split at ho
        · cases ho
        · rename_i id' hactive
          simp only at ho
          split at ho
          · cases ho
          · cases ho
            exact ⟨by rw [howner]; rfl, hactive, RecordingManager.samplesSnapshot_suffix _ _⟩
          · cases ho
      · rename_i howner
        cases hs
        have hactive := h.session _ (by rw [howner]; rfl)
        unfold tickRecut at ho
        simp only at ho
        split at ho
        · cases ho
        · cases ho
          exact ⟨by rw [howner]; rfl, hactive, RecordingManager.samplesSnapshot_suffix _ _⟩
      · cases hs
        simp [tickDecoded, endTick] at ho
      · cases hs
      · cases hs
    | worker | capture | lose => cases hby

/-! ## What was shown -/

/-- The events of every session up to now, and the current texts. -/
structure Shown (m : Machine) : Prop where
  current : ∀ s, m.manager.activeSessionId = some s → latest s m.log = m.live.texts
  grows : ∀ s, List.IsChain (fun p q => Extends p.1 q.1 ∧ p ≠ q) (([], []) :: partials s m.log)
  issued : ∀ s, m.manager.activeSessionId = some s → s < m.manager.nextSessionId
  unissued : ∀ s, m.manager.nextSessionId ≤ s → partials s m.log = []

theorem latest_congr {s : SessionId} {log log' : List Event}
    (h : partials s log' = partials s log) : latest s log' = latest s log := by
  rw [latest, latest, h]

/-- An event of the session that follows its latest one. -/
theorem isChain_snoc {R : Bytes × Bytes → Bytes × Bytes → Prop} {s : SessionId}
    {log : List Event} {p : Bytes × Bytes}
    (h : List.IsChain R (([], []) :: partials s log)) (hp : R (latest s log) p) :
    List.IsChain R (([], []) :: (partials s log ++ [p])) := by
  rw [← List.cons_append]
  refine h.append (List.isChain_singleton p) ?_
  intro x hx y hy
  rw [List.getLast?_cons] at hx
  cases hx
  cases hy
  exact hp

theorem Shown.step (hr : Reachable capacity c liveConfig m) (h : Shown m)
    (hs : m.step a = some m') : Shown m' := by
  cases step_preview hr hs with
  | untouched hsame hlog =>
    have hsession : ∀ s, m'.manager.activeSessionId = some s →
        m.manager.activeSessionId = some s := by
      intro s hactive
      rcases hsame.session with heq | hnone
      · exact heq.symm.trans hactive
      · rw [hnone] at hactive
        cases hactive
    refine ⟨?_, ?_, ?_, ?_⟩
    · intro s hactive
      rw [latest_congr (hlog s), hsame.texts]
      exact h.current s (hsession s hactive)
    · intro s
      rw [hlog s]
      exact h.grows s
    · intro s hactive
      exact Nat.lt_of_lt_of_le (h.issued s (hsession s hactive)) hsame.next
    · intro s hs'
      rw [hlog s]
      exact h.unissued s (Nat.le_trans hsame.next hs')
  | opens hopens hlog =>
    refine ⟨?_, ?_, ?_, ?_⟩
    · intro s hactive
      rw [hopens.session] at hactive
      cases hactive
      rw [latest_congr (hlog _), hopens.texts, latest, h.unissued _ (Nat.le_refl _)]
      rfl
    · intro s
      rw [hlog s]
      exact h.grows s
    · intro s hactive
      rw [hopens.session] at hactive
      cases hactive
      rw [hopens.next]
      exact Nat.lt_succ_self _
    · intro s hs'
      rw [hopens.next] at hs'
      rw [hlog s]
      exact h.unissued s (Nat.le_of_succ_le hs')
  | shows inp id window t hact ho hresult htexts hchanged hsession hnext hlog =>
    have hactive := hr.attending.session id (by rw [ho]; rfl)
    have hcurrent := h.current id hactive
    refine ⟨?_, ?_, ?_, ?_⟩
    · intro s hs'
      rw [hsession, hactive] at hs'
      cases hs'
      rw [latest, hlog id]
      simp
    · intro s
      rw [hlog s]
      by_cases hid : id = s
      · subst hid
        rw [if_pos rfl]
        refine isChain_snoc (h.grows id) ⟨?_, ?_⟩
        · rw [hcurrent, htexts]
          exact LiveTranscriber.absorb_extends plain_of_mem_splitWords _ _
        · rw [hcurrent]
          exact hchanged.symm
      · rw [if_neg hid, List.append_nil]
        exact h.grows s
    · intro s hs'
      rw [hnext]
      exact h.issued s (hsession ▸ hs')
    · intro s hs'
      rw [hnext] at hs'
      have hlt := h.issued id hactive
      have hne : id ≠ s := Nat.ne_of_lt (Nat.lt_of_lt_of_le hlt hs')
      rw [hlog s, if_neg hne, List.append_nil]
      exact h.unissued s hs'

theorem Reachable.shown (h : Reachable capacity c liveConfig m) : Shown m := by
  refine Lib.Reachable.invariant (P := Shown) h ⟨?_, ?_, ?_, ?_⟩ ?_
  · intro s hactive
    cases hactive
  · exact fun s => List.isChain_singleton _
  · intro s hactive
    cases hactive
  · exact fun s _ => rfl
  · exact fun t a t' hr ht hs => ht.step hr hs

/-! ## Where the words come from -/

/-- The window ends with the last sample the session had captured at some
point of the run, and holds nothing else than samples of this session. -/
def OwnWindow (m₀ : Machine) (acts : List Act) (id : SessionId) (window : List Sample) : Prop :=
  ∃ upto t during, upto <+: acts ∧ Recorded m₀ upto t id during ∧ window <:+ captured during

/-- A decode of such a window returned a text with this word. -/
def Heard (m₀ : Machine) (acts : List Act) (id : SessionId) (word : Bytes) : Prop :=
  ∃ before inp after t window transcript, acts = before ++ Act.own inp :: after ∧
    Lib.run step m₀ before = some t ∧ t.owner = .decoding id window ∧
    inp.partialResult = .transcript transcript ∧ word ∈ splitWords transcript.text ∧
    OwnWindow m₀ before id window

variable {m₀ : Machine} {acts : List Act} {id : SessionId}

theorem OwnWindow.snoc {window : List Sample} (h : OwnWindow m₀ acts id window) (a : Act) :
    OwnWindow m₀ (acts ++ [a]) id window := by
  obtain ⟨upto, t, during, hwithin, hrest⟩ := h
  exact ⟨upto, t, during, hwithin.trans (List.prefix_append _ _), hrest⟩

theorem Heard.snoc {word : Bytes} (h : Heard m₀ acts id word) (a : Act) :
    Heard m₀ (acts ++ [a]) id word := by
  obtain ⟨before, inp, after, t, window, transcript, rfl, hrest⟩ := h
  exact ⟨before, inp, after ++ [a], t, window, transcript, by simp, hrest⟩

/-- The words of a pair of texts. -/
def wordsOf (p : Bytes × Bytes) : List Bytes := splitWords p.1 ++ splitWords p.2

/-- What a run knows about the windows and the words of the preview. -/
structure Sourced (m₀ : Machine) (acts : List Act) (m : Machine) : Prop where
  window : ∀ id window, m.owner = .decoding id window → OwnWindow m₀ acts id window
  words : ∀ s, ∀ p ∈ partials s m.log, ∀ w ∈ wordsOf p, Heard m₀ acts s w

/-- The words the client of a session sees now were in an event. -/
theorem Sourced.latest {s : SessionId} (h : Sourced m₀ acts m) {w : Bytes}
    (hw : w ∈ wordsOf (latest s m.log)) : Heard m₀ acts s w := by
  unfold YoruSpeech.latest at hw
  cases hlast : (partials s m.log).getLast? with
  | none =>
    rw [hlast] at hw
    simp [wordsOf, splitWords, splitWordsFrom] at hw
  | some p =>
    rw [hlast] at hw
    exact h.words s p (List.mem_of_getLast? hlast) w hw

theorem Sourced.step
    (hrun : Lib.run Machine.step (init capacity c liveConfig) acts = some m)
    (h : Sourced (init capacity c liveConfig) acts m) (hs : m.step a = some m') :
    Sourced (init capacity c liveConfig) (acts ++ [a]) m' := by
  have hr : Reachable capacity c liveConfig m := ⟨acts, hrun⟩
  refine ⟨?_, ?_⟩
  · intro id window ho
    rcases step_decoding hr.attending hs ho with hold | ⟨hin, hactive, hsuffix⟩
    · exact (h.window id window hold).snoc a
    · have hrecorder := hr.recorder_of_inTick hin hactive
      obtain ⟨during, hrecorded, hbuffer⟩ := (tracked_run hrun).active id hrecorder
      exact ⟨acts, m, during, List.prefix_append _ _, hrecorded, hbuffer ▸ hsuffix⟩
  · intro s p hp w hw
    have hold : p ∈ partials s m.log → Heard (init capacity c liveConfig) (acts ++ [a]) s w :=
      fun hmem => (h.words s p hmem w hw).snoc a
    cases step_preview hr hs with
    | untouched hsame hlog => exact hold (hlog s ▸ hp)
    | opens hopens hlog => exact hold (hlog s ▸ hp)
    | shows inp id window t hact ho hresult htexts hchanged hsession hnext hlog =>
      rw [hlog s] at hp
      rcases List.mem_append.mp hp with hmem | hmem
      · exact hold hmem
      · by_cases hid : id = s
        · subst hid
          rw [if_pos rfl, List.mem_singleton] at hmem
          subst hmem
          rw [htexts] at hw
          have hactive := hr.attending.session id (by rw [ho]; rfl)
          rcases LiveTranscriber.mem_absorb plain_of_mem_splitWords hw with hcommitted | hdecoded
          · -- committed by an earlier decode of this session
            refine Heard.snoc (h.latest ?_) a
            rw [hr.shown.current id hactive]
            exact List.mem_append_left _ hcommitted
          · subst hact
            exact ⟨acts, inp, [], m, window, t, rfl, hrun, ho, hresult, hdecoded,
              h.window id window ho⟩
        · rw [if_neg hid] at hmem
          cases hmem

theorem sourced_run (hrun : Lib.run step (init capacity c liveConfig) acts = some m) :
    Sourced (init capacity c liveConfig) acts m := by
  refine Lib.run_history (P := Sourced (init capacity c liveConfig)) ⟨?_, ?_⟩ ?_ hrun
  · intro id window ho
    cases ho
  · intro s p hp
    cases hp
  · exact fun acts t a t' hrun ht hs => ht.step hrun hs

/-- The `TranscriptionPartial` events of a session, in every run: each
committed text is the one before it or continues it with whole words, two
consecutive events differ, and every word was decoded from a window of the
session's own samples. Whenever the session is the active one, after a tick
as at any other time, its latest event is what the preview holds. -/
theorem partials_grow (hrun : Lib.run step (init capacity c liveConfig) acts = some m)
    (s : SessionId) :
    List.IsChain (fun p q => Extends p.1 q.1 ∧ p ≠ q) (([], []) :: partials s m.log) ∧
    (m.manager.activeSessionId = some s →
      latest s m.log = (m.live.committedText, m.live.tailText)) ∧
    ∀ p ∈ partials s m.log, ∀ w ∈ splitWords p.1 ++ splitWords p.2,
      Heard (init capacity c liveConfig) acts s w := by
  have hr : Reachable capacity c liveConfig m := ⟨acts, hrun⟩
  exact ⟨hr.shown.grows s, hr.shown.current s, (sourced_run hrun).words s⟩

/-- Two dictations with three ticks that decode: the first one agrees with
itself on two words, and is cancelled. -/
def previewedActs : List Act :=
  [.call .startSession {}, .own {}, .capture [1, 2], .call .tick {}, .own {},
    .own { partialResult := .transcript { text := str "a b" } }, .capture [3], .call .tick {},
    .own { steadyNow := 2000000000 }, .capture [4],
    .own { partialResult := .transcript { text := str "a b  c" } }, .call .cancelSession {},
    .own {}, .call .startSession {}, .own {}, .capture [5], .call .tick {}, .own {},
    .own { partialResult := .transcript { text := str "d" } }]

/-- The second dictation starts from nothing, and the last word of the first
one was decoded. -/
theorem partials_grow_two_dictations :
    ∃ m, Lib.run step (init 2 {} {}) previewedActs = some m ∧
      partials 1 m.log = [([], str "a b"), (str "a b", str "c")] ∧
      partials 2 m.log = [([], str "d")] ∧
      (m.live.committedText, m.live.tailText) = ([], str "d") ∧
      Heard (init 2 {} {}) previewedActs 1 (str "c") := by
  have hfacts : ((Lib.run step (init 2 {} {}) previewedActs).map fun m =>
      (partials 1 m.log, partials 2 m.log, m.manager.activeSessionId)) =
        some ([([], str "a b"), (str "a b", str "c")], [([], str "d")], some 2) := by
    decide +kernel
  obtain ⟨m, hrun, hm⟩ := Option.map_eq_some_iff.mp hfacts
  simp only [Prod.mk.injEq] at hm
  obtain ⟨hfirst, hsecond, hactive⟩ := hm
  refine ⟨m, hrun, hfirst, hsecond, ?_, ?_⟩
  · have hlatest := (partials_grow hrun 2).2.1 hactive
    rw [← hlatest, latest, hsecond]
    rfl
  · refine (partials_grow hrun 1).2.2 (str "a b", str "c") ?_ (str "c") ?_
    · rw [hfirst]
      simp
    · decide +kernel

end Machine

end YoruSpeech

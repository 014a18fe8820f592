/-
YoruSpeech.Core.Event — the value types the domains exchange and the
union of the domain events published on the `EventBus`.

Translation notes. A `std::string` is a byte sequence, not a sequence of
characters: file names, whisper output and socket lines need not be
UTF-8, and the protocol layer depends on the difference. It is modelled
as `Bytes`, with `str` for the literals of the source. `SessionId` is a
strong type over `std::uint64_t`; the generator starts at 1 and is
incremented once per `start_session`, so it is modelled by `Nat`: the two
differ only once 2^64 - 1 sessions have been started in one run of the
daemon (`Machine.Counted`), and the model says nothing beyond. A PCM
sample is a `float` that every modelled function only moves around, so it
is carried as its 32-bit pattern. Durations and time points are counts of
milliseconds.
-/

namespace YoruSpeech

/-- A `std::string`: the bytes, with no encoding implied. -/
abbrev Bytes := List UInt8

/-- The bytes of a string literal of the source. -/
def str (s : String) : Bytes := s.toUTF8.data.toList

/-- `core::SessionId`. -/
abbrev SessionId := Nat

/-- One captured `float` sample, as its bit pattern. -/
abbrev Sample := UInt32

/-! ## Audio -/

/-- `audio::kSampleRate`. -/
def kSampleRate : Nat := 16000

/-- `audio::kChannels`. -/
def kChannels : Nat := 1

/-- `audio::Recording`. -/
structure Recording where
  samples : List Sample
  sampleRate : Nat := 0
  channels : Nat := 0
  deriving DecidableEq, Repr

/-- `Recording::duration`, in milliseconds. -/
def Recording.duration (r : Recording) : Nat :=
  if r.sampleRate = 0 ∨ r.channels = 0 then 0
  else r.samples.length / r.channels * 1000 / r.sampleRate

/-! ## Speech -/

/-- `speech::Transcript`. -/
structure Transcript where
  text : Bytes
  detectedLanguage : Bytes := []
  requestedLanguage : Bytes := []
  audioDuration : Nat := 0
  processingTime : Nat := 0
  deriving DecidableEq, Repr

/-- `speech::SpeechError`. -/
structure SpeechError where
  message : Bytes
  deriving DecidableEq, Repr

/-- `speech::TranscriptionResult`: a `Transcript` or the reason there is
none. -/
inductive TranscriptionResult where
  | transcript (t : Transcript)
  | error (e : SpeechError)
  deriving DecidableEq, Repr

/-- `speech::TranscriptionRequest`. -/
structure TranscriptionRequest where
  language : Bytes
  initialPrompt : Bytes
  deriving DecidableEq, Repr

/-- `speech::ModelSize`. -/
inductive ModelSize where
  | tiny | base | small | medium | large
  deriving DecidableEq, Repr

/-- `speech::Model`. The path is its native byte string. -/
structure Model where
  name : Bytes
  size : ModelSize
  supportedLanguage : Bytes
  path : Bytes
  backend : Bytes
  deriving DecidableEq, Repr

/-! ## Configuration -/

/-- `config::ModelLoadPolicy`. -/
inductive ModelLoadPolicy where
  | onDemand | alwaysLoaded
  deriving DecidableEq, Repr

/-- `to_string(ModelLoadPolicy)`, the same in both codecs. -/
def ModelLoadPolicy.name : ModelLoadPolicy → Bytes
  | .onDemand => str "on_demand"
  | .alwaysLoaded => str "always_loaded"

/-- `parse_model_load_policy`, the same in both codecs. -/
def parseModelLoadPolicy (value : Bytes) : Option ModelLoadPolicy :=
  if value = str "on_demand" then some .onDemand
  else if value = str "always_loaded" then some .alwaysLoaded
  else none

/-- `config::Configuration`, with the defaults of the struct. -/
structure Configuration where
  defaultLanguage : Bytes := str "auto"
  selectedModel : Bytes := str "base"
  autoClipboard : Bool := true
  modelLoadPolicy : ModelLoadPolicy := .onDemand
  transcriptionPrompt : Bytes := []
  deriving DecidableEq, Repr

/-! ## Events -/

/-- The components that sign an `ErrorOccurred`. The field is a string in
the source; these four are the only values any publisher writes. -/
inductive Component where
  | audio | queue | speech | clipboard
  deriving DecidableEq, Repr

/-- The string a publisher writes for its component. -/
def Component.name : Component → Bytes
  | .audio => str "audio"
  | .queue => str "queue"
  | .speech => str "speech"
  | .clipboard => str "clipboard"

/-- Every event type some component publishes on the `EventBus`. -/
inductive Event where
  | recordingStarted (id : SessionId)
  | recordingFinished (id : SessionId) (recording : Recording)
  | transcriptionQueued (id : SessionId) (position : Nat)
  | transcriptionStarted (id : SessionId)
  | transcriptionCompleted (id : SessionId) (transcript : Transcript)
  | transcriptionPartial (id : SessionId) (committedText tailText : Bytes)
  | modelLoaded (model : Model)
  | configurationChanged (configuration : Configuration)
  | errorOccurred (id : Option SessionId) (component : Component) (message : Bytes)
  | sessionCancelled (id : SessionId)
  deriving DecidableEq, Repr

namespace Event

/-! ### What a log of events says about a session

Each projection picks the session an event speaks about in one role; a
log's history in that role is `log.filterMap` of it. -/

/-- The session a `TranscriptionQueued` announces. -/
def queued? : Event → Option SessionId
  | transcriptionQueued id _ => some id
  | _ => none

/-- The session a `TranscriptionStarted` announces. -/
def started? : Event → Option SessionId
  | transcriptionStarted id => some id
  | _ => none

/-- The session whose transcription result this event publishes: a
transcript, or the failure the backend reported. -/
def result? : Event → Option SessionId
  | transcriptionCompleted id _ => some id
  | errorOccurred (some id) .speech _ => some id
  | _ => none

/-- The session this event takes out of the queue without a transcription:
cancelled by a client, or dropped at shutdown. -/
def withdrawn? : Event → Option SessionId
  | sessionCancelled id => some id
  | errorOccurred (some id) .queue _ => some id
  | _ => none

/-- The session this event gives a final outcome to. -/
def outcome? (e : Event) : Option SessionId :=
  e.result? <|> e.withdrawn?

/-- The session whose recording this event reports lost. -/
def lost? : Event → Option SessionId
  | errorOccurred (some id) .audio _ => some id
  | _ => none

/-- The event plays none of these roles, and starts no recording. -/
def aside : Event → Bool
  | recordingStarted _ => false
  | transcriptionQueued _ _ => false
  | transcriptionStarted _ => false
  | transcriptionCompleted _ _ => false
  | sessionCancelled _ => false
  | errorOccurred id _ _ => id.isNone
  | _ => true

/-- The session this event closes without a transcription, whatever the
reason. -/
def closed? (e : Event) : Option SessionId :=
  e.withdrawn? <|> e.lost?

theorem closed?_of_withdrawn? {e : Event} {id : SessionId} (h : e.withdrawn? = some id) :
    e.closed? = some id := by
  simp [closed?, h]

theorem closed?_of_lost? {e : Event} {id : SessionId} (h : e.lost? = some id) :
    e.closed? = some id := by
  unfold lost? at h
  split at h
  · exact h
  · cases h

theorem roles_of_aside {e : Event} (h : e.aside = true) :
    e.queued? = none ∧ e.started? = none ∧ e.result? = none ∧ e.withdrawn? = none ∧
      e.lost? = none ∧ e.closed? = none := by
  cases e with
  | recordingStarted | transcriptionQueued | transcriptionStarted | transcriptionCompleted
  | sessionCancelled =>
    cases h
  | errorOccurred id component message =>
    cases id with
    | none => exact ⟨rfl, rfl, rfl, rfl, rfl, rfl⟩
    | some id => cases h
  | _ => exact ⟨rfl, rfl, rfl, rfl, rfl, rfl⟩

/-- An event that plays no role adds nothing to any of the histories. -/
theorem filterMap_aside (log : List Event) {e : Option Event} (he : ∀ x ∈ e, x.aside = true) :
    (log ++ e.toList).filterMap queued? = log.filterMap queued? ∧
    (log ++ e.toList).filterMap started? = log.filterMap started? ∧
    (log ++ e.toList).filterMap result? = log.filterMap result? ∧
    (log ++ e.toList).filterMap withdrawn? = log.filterMap withdrawn? ∧
    (log ++ e.toList).filterMap lost? = log.filterMap lost? ∧
    (log ++ e.toList).filterMap closed? = log.filterMap closed? := by
  cases e with
  | none => simp
  | some e =>
    obtain ⟨h₁, h₂, h₃, h₄, h₅, h₆⟩ := roles_of_aside (he e rfl)
    simp [h₁, h₂, h₃, h₄, h₅, h₆]

end Event

end YoruSpeech

/-
YoruSpeech.Config.TomlCodecTheorems — the configuration file read back.

Whatever a document holds, decoding it gives a configuration that passes
`validate` (`validate_decodeToml`): a field that does not falls back to its
default. `decodeToml_encodeToml` is the round trip: a configuration that
passes `validate` is what decoding its own file gives.

The round trip rests on the one of toml++, `TomlLib.RoundTrips`, stated for
flat tables of strings and booleans under bare keys, in UTF-8. `plainToml`
is a printer and a reader of such tables that has it. It prints them as
toml++ does: in key order, a line for each key, a string between single
quotes when every byte of it can stand there and escaped otherwise.
-/
import YoruSpeech.Config.ConfigurationManager
import YoruSpeech.Ipc.MessageCodecTheorems
import Mathlib.Data.List.Perm.Basic

namespace YoruSpeech

open Lib (validUtf8)

/-! ## What the codec relies on -/

/-- A character a key may have outside quotes. -/
def bareKeyByte (b : UInt8) : Bool :=
  (97 ≤ b ∧ b ≤ 122) ∨ (65 ≤ b ∧ b ≤ 90) ∨ (48 ≤ b ∧ b ≤ 57) ∨ b = 95 ∨ b = 45

def TomlValue.utf8 : TomlValue → Bool
  | .string s => validUtf8 s
  | .boolean _ => true

/-- The document holds this value under the key. -/
def TomlTable.Holds (root : TomlTable) (key : Bytes) : TomlValue → Prop
  | .string s => root.contains key = true ∧ root.string key = some s
  | .boolean b => root.contains key = true ∧ root.boolean key = some b

/-- A table that can be printed: bare keys, no key twice, strings in
UTF-8. -/
structure Printable (fields : List (Bytes × TomlValue)) : Prop where
  nodup : (fields.map Prod.fst).Nodup
  bare : ∀ f ∈ fields, f.1 ≠ [] ∧ f.1.all bareKeyByte = true
  utf8 : ∀ f ∈ fields, f.2.utf8 = true

/-- Parsing a printed table gives it back. -/
def TomlLib.RoundTrips (toml : TomlLib) : Prop :=
  ∀ fields, Printable fields →
    ∃ root, toml.parse (toml.print fields) = .ok root ∧ ∀ f ∈ fields, root.Holds f.1 f.2

/-! ## Decoding -/

theorem validate_eq_nil_iff {c : Configuration} :
    validate c = [] ↔
      isValidLanguageCode c.defaultLanguage = true ∧ isValidModelName c.selectedModel = true := by
  unfold validate
  cases isValidLanguageCode c.defaultLanguage <;> cases isValidModelName c.selectedModel <;> simp

@[simp] theorem validate_default : validate {} = [] := by decide

/-- What decoding gives is valid, whatever the document holds. -/
theorem validate_decodeToml (toml : TomlLib) (source : Bytes) {defaults : Configuration}
    (h : validate defaults = []) :
    validate (decodeToml toml source defaults).configuration = [] := by
  obtain ⟨hlanguage, hmodel⟩ := validate_eq_nil_iff.mp h
  unfold decodeToml
  split
  · exact h
  · rw [validate_eq_nil_iff]
    simp only [decodeTable]
    constructor
    · split
      · assumption
      · exact hlanguage
    · split
      · assumption
      · exact hmodel

theorem readKey_string {root : TomlTable} {key kind : String} {s : Bytes}
    (h : root.Holds (str key) (.string s)) : readKey root key kind root.string = (some s, []) := by
  obtain ⟨hcontains, hvalue⟩ := h
  simp only [readKey, hcontains, hvalue, if_true]

theorem readKey_boolean {root : TomlTable} {key kind : String} {b : Bool}
    (h : root.Holds (str key) (.boolean b)) :
    readKey root key kind root.boolean = (some b, []) := by
  obtain ⟨hcontains, hvalue⟩ := h
  simp only [readKey, hcontains, hvalue, if_true]

theorem parseModelLoadPolicy_name (policy : ModelLoadPolicy) :
    parseModelLoadPolicy policy.name = some policy := by
  cases policy <;> decide

theorem readPolicy_name {root : TomlTable} {policy : ModelLoadPolicy}
    (h : root.Holds (str "model_load_policy") (.string policy.name)) :
    readPolicy root = (some policy, []) := by
  simp only [readPolicy, readKey_string h, parseModelLoadPolicy_name]

/-- The table `encode_toml` builds. -/
def Configuration.fields (c : Configuration) : List (Bytes × TomlValue) :=
  [(str "default_language", .string c.defaultLanguage),
    (str "selected_model", .string c.selectedModel),
    (str "auto_clipboard", .boolean c.autoClipboard),
    (str "model_load_policy", .string c.modelLoadPolicy.name),
    (str "transcription_prompt", .string c.transcriptionPrompt)]

theorem Configuration.fields_keys (c : Configuration) :
    c.fields.map Prod.fst =
      [str "default_language", str "selected_model", str "auto_clipboard",
        str "model_load_policy", str "transcription_prompt"] := rfl

theorem Configuration.fields_printable {c : Configuration} (h : allUtf8 c.texts = true) :
    Printable c.fields := by
  simp only [Configuration.texts, allUtf8_cons, allUtf8_nil, Bool.and_true,
    Bool.and_eq_true] at h
  obtain ⟨hlanguage, hmodel, hprompt⟩ := h
  have hpolicy : validUtf8 c.modelLoadPolicy.name = true := by
    cases c.modelLoadPolicy <;> decide
  refine ⟨?_, ?_, ?_⟩
  · rw [c.fields_keys]
    decide
  · have hkeys : ∀ key ∈ c.fields.map Prod.fst, key ≠ [] ∧ key.all bareKeyByte = true := by
      rw [c.fields_keys]
      decide
    intro f hf
    exact hkeys f.1 (List.mem_map_of_mem hf)
  · intro f hf
    simp only [Configuration.fields, List.mem_cons, List.not_mem_nil, or_false] at hf
    rcases hf with rfl | rfl | rfl | rfl | rfl
    · exact hlanguage
    · exact hmodel
    · rfl
    · exact hpolicy
    · exact hprompt

/-- What `encode_toml` has the library print. -/
theorem encodeToml_eq (toml : TomlLib) (c : Configuration) :
    encodeToml toml c = toml.print c.fields := rfl

/-- A valid configuration is what decoding its own file gives, whatever the
defaults. -/
theorem decodeToml_encodeToml {toml : TomlLib} (htoml : toml.RoundTrips) {c : Configuration}
    (hutf8 : allUtf8 c.texts = true) (hvalid : validate c = []) (defaults : Configuration) :
    (decodeToml toml (encodeToml toml c) defaults).configuration = c := by
  obtain ⟨root, hparse, hholds⟩ := htoml c.fields (Configuration.fields_printable hutf8)
  obtain ⟨hlanguage, hmodel⟩ := validate_eq_nil_iff.mp hvalid
  have hread : ∀ f ∈ c.fields, root.Holds f.1 f.2 := hholds
  simp only [Configuration.fields, List.forall_mem_cons, List.not_mem_nil, false_implies,
    implies_true, and_true] at hread
  obtain ⟨hl, hm, hc, hp, ht⟩ := hread
  rw [encodeToml_eq, decodeToml, hparse]
  simp only [decodeTable, readKey_string hl, readKey_string hm, readKey_boolean hc,
    readPolicy_name hp, readKey_string ht, Option.getD_some, hlanguage, hmodel, if_true]

/-! ## A printer and a reader of flat tables -/

namespace PlainToml

/-- A byte that can stand between single quotes. -/
def literalByte (b : UInt8) : Bool := 32 ≤ b ∧ b ≠ 39 ∧ b ≠ 127

def printValue : TomlValue → Bytes
  | .string s => if s.all literalByte then 39 :: (s ++ [39]) else Lib.Json.renderStr s
  | .boolean true => str "true"
  | .boolean false => str "false"

def printField (f : Bytes × TomlValue) : Bytes := f.1 ++ str " = " ++ printValue f.2

/-- A line for each key, in key order. -/
def print (fields : List (Bytes × TomlValue)) : Bytes :=
  [10].intercalate ((fields.mergeSort fun f g => !Lib.Json.keyLt g.1 f.1).map printField)

def readValue : Bytes → Option TomlValue
  | 39 :: rest => if rest.getLast? = some 39 then some (.string rest.dropLast) else none
  | 34 :: rest =>
    match Lib.Json.readChars .plain rest with
    | some (s, []) => some (.string s)
    | _ => none
  | text =>
    if text = str "true" then some (.boolean true)
    else if text = str "false" then some (.boolean false)
    else none

def readField (line : Bytes) : Option (Bytes × TomlValue) := do
  let value ← Lib.Json.expect (str " = ") (line.dropWhile bareKeyByte)
  let v ← readValue value
  pure (line.takeWhile bareKeyByte, v)

/-- The document with these fields. -/
def tableOf (fields : List (Bytes × TomlValue)) : TomlTable where
  contains key := (fields.lookup key).isSome
  string key :=
    match fields.lookup key with
    | some (.string s) => some s
    | _ => none
  boolean key :=
    match fields.lookup key with
    | some (.boolean b) => some b
    | _ => none

def parse (source : Bytes) : Except Bytes TomlTable :=
  match ((source.splitOn 10).filter (· ≠ [])).mapM readField with
  | none => .error (str "expected a key and a value")
  | some fields =>
    if fields.all (·.2.utf8) then .ok (tableOf fields) else .error (str "expected UTF-8")

theorem newline_not_mem_literal {s : Bytes} (h : s.all literalByte = true) : (10 : UInt8) ∉ s := by
  intro hmem
  have hbyte := List.all_eq_true.mp h 10 hmem
  revert hbyte
  decide

theorem newline_not_mem_printField {f : Bytes × TomlValue} (h : f.1.all bareKeyByte = true) :
    (10 : UInt8) ∉ printField f := by
  have hkey : (10 : UInt8) ∉ f.1 := by
    intro hmem
    have hbyte := List.all_eq_true.mp h 10 hmem
    revert hbyte
    decide
  have hequals : (10 : UInt8) ∉ str " = " := by decide
  have hvalue : (10 : UInt8) ∉ printValue f.2 := by
    cases f.2 with
    | string s =>
      by_cases hs : s.all literalByte = true
      · simp only [printValue, hs, if_true, List.mem_cons, List.mem_append, List.not_mem_nil,
          or_false, not_or]
        exact ⟨by decide, newline_not_mem_literal hs, by decide⟩
      · simp only [printValue, hs]
        exact Lib.Json.newline_not_mem_renderStr s
    | boolean b => cases b <;> decide
  simp only [printField, List.mem_append, not_or]
  exact ⟨⟨hkey, hequals⟩, hvalue⟩

theorem readValue_printValue (v : TomlValue) : readValue (printValue v) = some v := by
  cases v with
  | string s =>
    by_cases hs : s.all literalByte = true
    · simp only [printValue, hs, if_true, readValue, List.getLast?_append, List.getLast?_singleton,
        Option.some_or, List.dropLast_concat]
    · simp only [printValue, hs, Lib.Json.renderStr]
      have hchars := Lib.Json.readChars_render s []
      simp only [Bool.false_eq_true, if_false, readValue, hchars]
  | boolean b => cases b <;> decide

theorem expect_append (bytes rest : Bytes) :
    Lib.Json.expect bytes (bytes ++ rest) = some rest := by
  induction bytes with
  | nil => rfl
  | cons b bytes ih => simpa [Lib.Json.expect] using ih

theorem readField_printField {f : Bytes × TomlValue} (h : f.1.all bareKeyByte = true) :
    readField (printField f) = some f := by
  have hbare : ∀ b ∈ f.1, bareKeyByte b = true := List.all_eq_true.mp h
  have hspace : ∀ rest : Bytes, str " = " ++ rest = 32 :: 61 :: 32 :: rest := fun _ => rfl
  have hstop : bareKeyByte 32 = false := by decide
  have hdrop : (printField f).dropWhile bareKeyByte = str " = " ++ printValue f.2 := by
    rw [printField, List.append_assoc, List.dropWhile_append_of_pos hbare, hspace,
      List.dropWhile_cons, hstop]
    rfl
  have htake : (printField f).takeWhile bareKeyByte = f.1 := by
    rw [printField, List.append_assoc, List.takeWhile_append_of_pos hbare, hspace,
      List.takeWhile_cons, hstop]
    simp
  simp only [readField, hdrop, htake, expect_append, readValue_printValue, Option.bind_eq_bind,
    Option.bind_some, Option.pure_def]

theorem mapM_readField {fields : List (Bytes × TomlValue)}
    (h : ∀ f ∈ fields, f.1.all bareKeyByte = true) :
    (fields.map printField).mapM readField = some fields := by
  induction fields with
  | nil => rfl
  | cons f rest ih =>
    have hrest := ih fun g hg => h g (List.mem_cons_of_mem f hg)
    simp only [List.map_cons, List.mapM_cons, readField_printField (h f List.mem_cons_self), hrest,
      Option.bind_eq_bind, Option.bind_some, Option.pure_def]

theorem lookup_of_mem {fields : List (Bytes × TomlValue)} (hnodup : (fields.map Prod.fst).Nodup)
    {f : Bytes × TomlValue} (hf : f ∈ fields) : fields.lookup f.1 = some f.2 := by
  obtain ⟨front, back, rfl⟩ := List.append_of_mem hf
  refine List.lookup_eq_some_iff.mpr ⟨front, back, rfl, ?_⟩
  intro p hp
  rw [List.map_append, List.nodup_append] at hnodup
  have hne := hnodup.2.2 p.1 (List.mem_map_of_mem hp) f.1 (by simp)
  simpa using Ne.symm hne

theorem tableOf_holds {fields : List (Bytes × TomlValue)} (hnodup : (fields.map Prod.fst).Nodup)
    {f : Bytes × TomlValue} (hf : f ∈ fields) : (tableOf fields).Holds f.1 f.2 := by
  have hlookup := lookup_of_mem hnodup hf
  obtain ⟨key, v⟩ := f
  cases v with
  | string s => simp [TomlTable.Holds, tableOf, hlookup]
  | boolean b => simp [TomlTable.Holds, tableOf, hlookup]

theorem lines_print (fields : List (Bytes × TomlValue))
    (h : ∀ f ∈ fields, f.1 ≠ [] ∧ f.1.all bareKeyByte = true) :
    (([10].intercalate (fields.map printField)).splitOn 10).filter (· ≠ []) =
      fields.map printField := by
  cases fields with
  | nil => rfl
  | cons f rest =>
    rw [List.splitOn_intercalate 10 _ (by simp)]
    · refine List.filter_eq_self.mpr ?_
      intro line hline
      obtain ⟨g, hg, rfl⟩ := List.mem_map.mp hline
      simp [printField, (h g hg).1]
    · intro line hline
      obtain ⟨g, hg, rfl⟩ := List.mem_map.mp hline
      exact newline_not_mem_printField (h g hg).2

theorem parse_print {fields : List (Bytes × TomlValue)} (h : Printable fields) :
    ∃ root, parse (print fields) = .ok root ∧ ∀ f ∈ fields, root.Holds f.1 f.2 := by
  let sorted := fields.mergeSort fun f g => !Lib.Json.keyLt g.1 f.1
  have hperm : sorted.Perm fields := List.mergeSort_perm _ _
  have hbare : ∀ f ∈ sorted, f.1 ≠ [] ∧ f.1.all bareKeyByte = true :=
    fun f hf => h.bare f (hperm.mem_iff.mp hf)
  have hutf8 : sorted.all (·.2.utf8) = true :=
    List.all_eq_true.mpr fun f hf => h.utf8 f (hperm.mem_iff.mp hf)
  have hnodup : (sorted.map Prod.fst).Nodup := (hperm.map Prod.fst).nodup_iff.mpr h.nodup
  refine ⟨tableOf sorted, ?_, ?_⟩
  · have hlines := lines_print sorted hbare
    have hfields := mapM_readField fun f hf => (hbare f hf).2
    simp only [parse, print, sorted] at hlines hfields hutf8 ⊢
    simp only [hlines, hfields, hutf8, if_true]
  · intro f hf
    exact tableOf_holds hnodup (hperm.mem_iff.mpr hf)

theorem parse_utf8 {source key s : Bytes} {root : TomlTable} (h : parse source = .ok root)
    (hs : root.string key = some s) : validUtf8 s = true := by
  unfold parse at h
  split at h
  · cases h
  · rename_i fields _
    split at h
    · rename_i hutf8
      cases h
      simp only [tableOf] at hs
      split at hs
      · rename_i s' hlookup
        cases hs
        obtain ⟨front, back, rfl, -⟩ := List.lookup_eq_some_iff.mp hlookup
        exact List.all_eq_true.mp hutf8 (key, .string s) (by simp)
      · cases hs
    · cases h

end PlainToml

/-- The printer and the reader as the library the codec is given. -/
def plainToml : TomlLib where
  parse := PlainToml.parse
  print := PlainToml.print

theorem plainToml_roundTrips : plainToml.RoundTrips := fun _ h => PlainToml.parse_print h

end YoruSpeech

/-
YoruSpeech.Speech.ModelRepositoryTheorems — the listing of the models
directory follows the naming convention.

  §1 Tokens      — the loop of `split_tokens` computes the maximal runs of
                   any text, in order (`splitTokens_cut`).
  §2 File names  — a name has the extension `.bin` when it is a nonempty
                   stem followed by it (`splitExtension_bin_iff`), so among
                   such files the stem tells the name.
  §3 Listing     — `listAvailableModels_convention`: the model files of a
                   directory, each described by the runs of its name, found
                   again under its own name.

The convention is stated over positions of the lower-cased file name, with
`Lib.MaximalRun`, and does not mention the tokens the code keeps.
-/
import YoruSpeech.Lib.Runs
import YoruSpeech.Speech.ModelRepository
import Mathlib.Data.List.Forall2
import Mathlib.Data.List.Nodup

namespace YoruSpeech

open Lib

/-! ## §1 Tokens -/

theorem splitTokensFrom_cut (rest : Bytes) (current : Bytes)
    (hfree : ∀ b ∈ current, isDelimiter b = false) :
    Cut isDelimiter (current ++ rest) (splitTokensFrom current rest) := by
  induction rest generalizing current with
  | nil =>
    unfold splitTokensFrom
    split
    · next hempty =>
      rw [hempty]
      exact Cut.nil
    · next hcurrent => exact Cut.append_run hcurrent hfree (by simp) Cut.nil
  | cons b rest ih =>
    unfold splitTokensFrom
    split
    · next hb =>
      have hrest : Cut isDelimiter (b :: rest) (splitTokensFrom [] rest) :=
        Cut.cons_delimiter hb (ih [] (by simp))
      split
      · next hempty =>
        rw [hempty]
        exact hrest
      · next hcurrent => exact Cut.append_run hcurrent hfree (by simpa using hb) hrest
    · next hb =>
      -- the byte joins the run that is being read
      have hnext : ∀ c ∈ current ++ [b], isDelimiter c = false := by
        intro c hc
        rcases List.mem_append.mp hc with hc | hc
        · exact hfree c hc
        · rw [List.mem_singleton.mp hc]
          simpa using hb
      have hread := ih (current ++ [b]) hnext
      rwa [List.append_assoc] at hread

/-- `split_tokens` cuts every text into its maximal runs. -/
theorem splitTokens_cut (text : Bytes) : Cut isDelimiter text (splitTokens text) :=
  splitTokensFrom_cut text [] (by simp)

/-- The word a file name says its size with. -/
def sizeWord : ModelSize → Bytes
  | .tiny => str "tiny"
  | .base => str "base"
  | .small => str "small"
  | .medium => str "medium"
  | .large => str "large"

theorem sizeToken_eq_some_iff (token : Bytes) (size : ModelSize) :
    sizeToken token = some size ↔ token = sizeWord size := by
  constructor
  · intro h
    unfold sizeToken at h
    split at h
    · next htoken => cases h; exact htoken
    · split at h
      · next htoken => cases h; exact htoken
      · split at h
        · next htoken => cases h; exact htoken
        · split at h
          · next htoken => cases h; exact htoken
          · split at h
            · next htoken => cases h; exact htoken
            · cases h
  · intro h
    subst h
    cases size <;> decide

/-- A size is inferred exactly when some run is a size word. -/
theorem inferSize_isSome_iff (text : Bytes) :
    (inferSize (splitTokens text)).isSome = true ↔
      ∃ i size, MaximalRun isDelimiter text i (sizeWord size) := by
  rw [inferSize, List.isSome_findSome?, List.any_eq_true]
  constructor
  · rintro ⟨token, hmem, hsome⟩
    obtain ⟨size, hsize⟩ := Option.isSome_iff_exists.mp hsome
    obtain ⟨i, hrun⟩ := (splitTokens_cut text).mem.mp hmem
    rw [(sizeToken_eq_some_iff token size).mp hsize] at hrun
    exact ⟨i, size, hrun⟩
  · rintro ⟨i, size, hrun⟩
    refine ⟨sizeWord size, (splitTokens_cut text).mem.mpr ⟨i, hrun⟩, ?_⟩
    rw [(sizeToken_eq_some_iff (sizeWord size) size).mpr rfl]
    rfl

/-- The inferred size is that of the leftmost size word. -/
theorem inferSize_first {text : Bytes} {size : ModelSize}
    (h : inferSize (splitTokens text) = some size) :
    ∃ i, MaximalRun isDelimiter text i (sizeWord size) ∧
      ∀ j, j < i → ∀ other, ¬ MaximalRun isDelimiter text j (sizeWord other) := by
  obtain ⟨i, run, hrun, hsize, hfirst⟩ := (splitTokens_cut text).findSome? h
  rw [(sizeToken_eq_some_iff run size).mp hsize] at hrun
  refine ⟨i, hrun, ?_⟩
  intro j hj other hother
  have hnone := hfirst j _ hj hother
  rw [(sizeToken_eq_some_iff (sizeWord other) other).mpr rfl] at hnone
  contradiction

theorem inferSupportedLanguage_en_iff (text : Bytes) :
    inferSupportedLanguage (splitTokens text) = str "en" ↔
      ∃ i, MaximalRun isDelimiter text i (str "en") := by
  rw [← (splitTokens_cut text).mem, inferSupportedLanguage, ← List.contains_iff_mem]
  split
  · next hen => exact ⟨fun _ => hen, fun _ => rfl⟩
  · next hen => exact ⟨fun h => absurd h (by decide), fun h => absurd h hen⟩

theorem inferSupportedLanguage_cases (tokens : List Bytes) :
    inferSupportedLanguage tokens = str "en" ∨ inferSupportedLanguage tokens = str "multi" := by
  unfold inferSupportedLanguage
  split
  · exact .inl rfl
  · exact .inr rfl

/-! ## §2 File names -/

/-- Stem and extension together are the file name. -/
theorem splitExtension_append (filename : Bytes) :
    (splitExtension filename).1 ++ (splitExtension filename).2 = filename := by
  unfold splitExtension
  simp only
  split
  · exact List.append_nil filename
  · next hstem =>
    have hcut := List.takeWhile_append_dropWhile (p := (· ≠ (46 : UInt8))) (l := filename.reverse)
    generalize htake : filename.reverse.takeWhile (· ≠ (46 : UInt8)) = extension at hcut hstem ⊢
    generalize hdrop : filename.reverse.dropWhile (· ≠ (46 : UInt8)) = rest at hcut
    rw [not_or, ← hcut] at hstem
    rw [← hcut]
    cases rest with
    | nil => simp at hstem
    | cons dot stem =>
      have hdot : dot = 46 := by
        have hhead := List.head?_dropWhile_not (· ≠ (46 : UInt8)) filename.reverse
        rw [hdrop] at hhead
        simpa using hhead
      have hfilename : filename = stem.reverse ++ 46 :: extension.reverse := by
        rw [← List.reverse_reverse filename, ← hcut, hdot]
        simp
      rw [hfilename, hdot]
      simp [List.drop_append]

/-- A dot-free text after the last dot is the extension. -/
theorem splitExtension_dot {stem extension : Bytes} (hstem : stem ≠ [])
    (hextension : extension ≠ []) (hdot : ∀ b ∈ extension, b ≠ 46) :
    splitExtension (stem ++ 46 :: extension) = (stem, 46 :: extension) := by
  have htake : (stem ++ 46 :: extension).reverse.takeWhile (· ≠ (46 : UInt8)) =
      extension.reverse := by
    rw [List.reverse_append, List.reverse_cons, List.append_assoc,
      List.takeWhile_append_of_pos (by simpa using hdot)]
    simp
  have hdrop : (stem ++ 46 :: extension).reverse.drop (extension.reverse.length + 1) =
      stem.reverse := by
    simp [List.drop_append]
  have hdots : stem ++ 46 :: extension ≠ str ".." := by
    intro h
    have hlast := congrArg List.getLast? h
    rw [List.getLast?_append_of_ne_nil _ (List.cons_ne_nil _ _),
      List.getLast?_cons_of_ne_nil hextension] at hlast
    exact hdot 46 (List.mem_of_getLast? hlast) rfl
  unfold splitExtension
  simp only [htake, hdrop, List.reverse_reverse]
  rw [if_neg (not_or.mpr ⟨hstem, hdots⟩)]

theorem splitExtension_bin {stem : Bytes} (hstem : stem ≠ []) :
    splitExtension (stem ++ str ".bin") = (stem, str ".bin") := by
  have hbin : str ".bin" = 46 :: [98, 105, 110] := by decide
  rw [hbin]
  exact splitExtension_dot hstem (by simp) (by simp)

theorem splitExtension_bin_iff (filename : Bytes) :
    (splitExtension filename).2 = str ".bin" ↔
      ∃ stem, stem ≠ [] ∧ filename = stem ++ str ".bin" := by
  constructor
  · intro h
    refine ⟨(splitExtension filename).1, ?_, ?_⟩
    · intro hstem
      have hall := splitExtension_append filename
      rw [hstem, h, List.nil_append] at hall
      rw [← hall] at h
      exact absurd h (by decide)
    · rw [← h, splitExtension_append]
  · rintro ⟨stem, hstem, rfl⟩
    rw [splitExtension_bin hstem]

/-! ## §3 Listing -/

/-- The convention: which directory entries are models. -/
structure IsModelFile (entry : DirectoryEntry) : Prop where
  regular : entry.regularFile = true
  bin : ∃ stem, stem ≠ [] ∧ entry.filename = stem ++ str ".bin"
  sized : ∃ i size, MaximalRun isDelimiter (toLower entry.filename) i (sizeWord size)

/-- The convention: what the name of a model file says about the model. -/
structure Describes (directory : Bytes) (entry : DirectoryEntry) (model : Model) : Prop where
  name : entry.filename = model.name ++ str ".bin"
  /-- The leftmost size word decides. -/
  size : ∃ i, MaximalRun isDelimiter (toLower entry.filename) i (sizeWord model.size) ∧
    ∀ j, j < i → ∀ other,
      ¬ MaximalRun isDelimiter (toLower entry.filename) j (sizeWord other)
  english : model.supportedLanguage = str "en" ↔
    ∃ i, MaximalRun isDelimiter (toLower entry.filename) i (str "en")
  language : model.supportedLanguage = str "en" ∨ model.supportedLanguage = str "multi"
  path : model.path = joinPath directory entry.filename
  backend : model.backend = str "whisper.cpp"

/-- Everything that makes an entry a model for the code. -/
theorem modelOfEntry_eq_some_iff (directory : Bytes) (entry : DirectoryEntry) (model : Model) :
    modelOfEntry directory entry = some model ↔
      (splitExtension entry.filename).2 = str ".bin" ∧ entry.regularFile = true ∧
      ∃ size, inferSize (splitTokens (toLower entry.filename)) = some size ∧
        model = {
          name := (splitExtension entry.filename).1
          size := size
          supportedLanguage := inferSupportedLanguage (splitTokens (toLower entry.filename))
          path := joinPath directory entry.filename
          backend := str "whisper.cpp" } := by
  unfold modelOfEntry
  simp only
  by_cases hbin : (splitExtension entry.filename).2 = str ".bin"
  · rw [if_neg (not_not.mpr hbin)]
    by_cases hregular : entry.regularFile = true
    · rw [if_neg (by simp [hregular])]
      cases hsize : inferSize (splitTokens (toLower entry.filename)) with
      | none => simp
      | some size => simp [hbin, hregular, eq_comm]
    · rw [if_pos (by simpa using hregular)]
      simp [hregular]
  · rw [if_pos hbin]
    simp [hbin]

theorem modelOfEntry_isSome_iff (directory : Bytes) (entry : DirectoryEntry) :
    (modelOfEntry directory entry).isSome = true ↔ IsModelFile entry := by
  rw [Option.isSome_iff_exists]
  constructor
  · rintro ⟨model, h⟩
    obtain ⟨hbin, hregular, size, hsize, -⟩ := (modelOfEntry_eq_some_iff ..).mp h
    exact ⟨hregular, (splitExtension_bin_iff _).mp hbin,
      (inferSize_isSome_iff _).mp (Option.isSome_iff_exists.mpr ⟨size, hsize⟩)⟩
  · intro h
    have hbin := (splitExtension_bin_iff entry.filename).mpr h.bin
    obtain ⟨size, hsize⟩ := Option.isSome_iff_exists.mp ((inferSize_isSome_iff _).mpr h.sized)
    exact ⟨_, (modelOfEntry_eq_some_iff ..).mpr ⟨hbin, h.regular, size, hsize, rfl⟩⟩

theorem modelOfEntry_describes {directory : Bytes} {entry : DirectoryEntry} {model : Model}
    (h : modelOfEntry directory entry = some model) : Describes directory entry model := by
  obtain ⟨hbin, -, size, hsize, rfl⟩ := (modelOfEntry_eq_some_iff ..).mp h
  have hname : entry.filename = (splitExtension entry.filename).1 ++ str ".bin" := by
    rw [← hbin, splitExtension_append]
  exact ⟨hname, inferSize_first hsize, inferSupportedLanguage_en_iff _,
    inferSupportedLanguage_cases _, rfl, rfl⟩

/-- The name of a model tells the entry it comes from, and with it the model. -/
theorem modelOfEntry_name_inj {directory : Bytes} {entry entry' : DirectoryEntry}
    {model model' : Model} (h : modelOfEntry directory entry = some model)
    (h' : modelOfEntry directory entry' = some model') (hname : model.name = model'.name) :
    model = model' := by
  have hfilename : entry.filename = entry'.filename := by
    rw [(modelOfEntry_describes h).name, (modelOfEntry_describes h').name, hname]
  obtain ⟨-, hregular, -⟩ := (modelOfEntry_eq_some_iff ..).mp h
  obtain ⟨-, hregular', -⟩ := (modelOfEntry_eq_some_iff ..).mp h'
  have hentry : entry = entry' := by
    cases entry
    cases entry'
    simp_all
  rw [hentry, h'] at h
  exact (Option.some.inj h).symm

section Listing

open Classical

variable (directory : Bytes) (entries : List DirectoryEntry)

/-- The listing goes with the model files of the directory, one to one. -/
theorem listAvailableModels_forall₂ :
    List.Forall₂ (fun entry model => modelOfEntry directory entry = some model)
      (entries.filter fun entry => IsModelFile entry) (listAvailableModels directory entries) := by
  unfold listAvailableModels
  induction entries with
  | nil => exact .nil
  | cons entry entries ih =>
    by_cases hfile : IsModelFile entry
    · obtain ⟨model, hmodel⟩ :=
        Option.isSome_iff_exists.mp ((modelOfEntry_isSome_iff directory entry).mpr hfile)
      rw [List.filter_cons_of_pos (by simpa using hfile), List.filterMap_cons_some hmodel]
      exact .cons hmodel ih
    · have hnone : modelOfEntry directory entry = none := by
        rw [← Option.not_isSome_iff_eq_none, modelOfEntry_isSome_iff]
        exact hfile
      rw [List.filter_cons_of_neg (by simpa using hfile), List.filterMap_cons_none hnone]
      exact ih

theorem listAvailableModels_filenames :
    (listAvailableModels directory entries).map (·.name ++ str ".bin") =
      (entries.filter fun entry => IsModelFile entry).map (·.filename) := by
  have hall := listAvailableModels_forall₂ directory entries
  generalize listAvailableModels directory entries = models at hall ⊢
  generalize (entries.filter fun entry => IsModelFile entry) = files at hall ⊢
  induction hall with
  | nil => rfl
  | cons h _ ih => rw [List.map_cons, List.map_cons, ih, (modelOfEntry_describes h).name]

theorem listAvailableModels_names_nodup (hnames : (entries.map (·.filename)).Nodup) :
    ((listAvailableModels directory entries).map (·.name)).Nodup := by
  have hfiles : ((entries.filter fun entry => IsModelFile entry).map (·.filename)).Nodup :=
    hnames.sublist (List.filter_sublist.map _)
  rw [← listAvailableModels_filenames directory entries] at hfiles
  have hmap : (listAvailableModels directory entries).map (·.name ++ str ".bin") =
      ((listAvailableModels directory entries).map (·.name)).map (· ++ str ".bin") := by
    rw [List.map_map]
    rfl
  rw [hmap] at hfiles
  exact List.Nodup.of_map _ hfiles

theorem findModel_listed {model : Model} (hlisted : model ∈ listAvailableModels directory entries) :
    findModel (listAvailableModels directory entries) model.name = some model := by
  cases hfind : findModel (listAvailableModels directory entries) model.name with
  | none =>
    have hno := List.find?_eq_none.mp hfind model hlisted
    simp at hno
  | some found =>
    have hname : found.name = model.name := by simpa using List.find?_some hfind
    obtain ⟨entry, -, hentry⟩ := List.mem_filterMap.mp hlisted
    obtain ⟨entry', -, hentry'⟩ := List.mem_filterMap.mp (List.mem_of_find?_eq_some hfind)
    rw [modelOfEntry_name_inj hentry' hentry hname]

/-- The listing is the model files of the directory in its order, each
described by its name, and a listed model is found under its name. A
directory has one entry of a name, so no two listed models share theirs. -/
theorem listAvailableModels_convention (hnames : (entries.map (·.filename)).Nodup) :
    List.Forall₂ (Describes directory) (entries.filter fun entry => IsModelFile entry)
      (listAvailableModels directory entries) ∧
    ((listAvailableModels directory entries).map (·.name)).Nodup ∧
    ∀ model ∈ listAvailableModels directory entries,
      findModel (listAvailableModels directory entries) model.name = some model := by
  have hall := listAvailableModels_forall₂ directory entries
  exact ⟨hall.imp fun _ _ => modelOfEntry_describes,
    listAvailableModels_names_nodup directory entries hnames,
    fun _ => findModel_listed directory entries⟩

end Listing

theorem listAvailableModels_convention_three_files :
    let entries : List DirectoryEntry := [⟨str "ggml-Tiny.en-q5_1.bin", true⟩,
      ⟨str "notes-database.bin", true⟩, ⟨str "ggml-large-v3.bin", true⟩]
    let model : Model := {
      name := str "ggml-Tiny.en-q5_1"
      size := .tiny
      supportedLanguage := str "en"
      path := str "/m/ggml-Tiny.en-q5_1.bin"
      backend := str "whisper.cpp" }
    (entries.map (·.filename)).Nodup ∧ model ∈ listAvailableModels (str "/m") entries ∧
      ((listAvailableModels (str "/m") entries).map (·.name)).Nodup ∧
      findModel (listAvailableModels (str "/m") entries) model.name = some model := by
  intro entries model
  have hnames : (entries.map (·.filename)).Nodup := by decide
  have hlisted : model ∈ listAvailableModels (str "/m") entries := by decide
  obtain ⟨-, hdistinct, hfound⟩ := listAvailableModels_convention (str "/m") entries hnames
  exact ⟨hnames, hlisted, hdistinct, hfound model hlisted⟩

end YoruSpeech

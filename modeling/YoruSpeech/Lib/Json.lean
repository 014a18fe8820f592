/-
YoruSpeech.Lib.Json — JSON values over byte strings.

An object is the list of its fields. `Json.object` builds one from a list
of assignments with the keys in increasing byte order, later assignments
winning: the order in which an ordered map holds and prints them.
`Canonical` says that every object inside a value is in that order.

Floating-point numbers are values of the type, since a parser can produce
them, but nothing here prints one; `Canonical` excludes them.
-/
import YoruSpeech.Lib.Utf8

namespace YoruSpeech.Lib

inductive Json where
  | null
  | bool (b : Bool)
  /-- A number without sign, fraction or exponent. It has no bound here; a
  library with one reads a greater number as a `float`. -/
  | unsigned (n : Nat)
  /-- `-(n + 1)`. -/
  | negative (n : Nat)
  /-- Any other number, as its bit pattern. -/
  | float (bits : UInt64)
  | str (bytes : List UInt8)
  | arr (items : List Json)
  | obj (fields : List (List UInt8 × Json))
  deriving Repr

namespace Json

/-! ## Objects -/

/-- Byte-wise lexicographic order of keys. -/
def keyLt : List UInt8 → List UInt8 → Bool
  | _, [] => false
  | [], _ :: _ => true
  | a :: as, b :: bs => if a < b then true else if b < a then false else keyLt as bs

theorem keyLt_trichotomy : ∀ {as bs : List UInt8}, keyLt as bs = false → as ≠ bs → keyLt bs as = true
  | [], [], _, hne => absurd rfl hne
  | _ :: _, [], _, _ => rfl
  | [], _ :: _, h, _ => by simp [keyLt] at h
  | a :: as, b :: bs, h, hne => by
      simp only [keyLt] at h ⊢
      by_cases hab : a < b
      · simp [hab] at h
      · by_cases hba : b < a
        · simp [hba]
        · have heq : a = b := by
            have h₁ : ¬ a.toNat < b.toNat := hab
            have h₂ : ¬ b.toNat < a.toNat := hba
            exact UInt8.toNat_inj.mp (by omega)
          subst heq
          simp only [hab, if_false] at h ⊢
          exact keyLt_trichotomy h (fun hs => hne (by rw [hs]))

/-- Assign a field, in key order. -/
def assign (key : List UInt8) (value : Json) :
    List (List UInt8 × Json) → List (List UInt8 × Json)
  | [] => [(key, value)]
  | (k, v) :: rest =>
    if k = key then (key, value) :: rest
    else if keyLt key k then (key, value) :: (k, v) :: rest
    else (k, v) :: assign key value rest

/-- The object with these assignments made in order. -/
def object (assignments : List (List UInt8 × Json)) : Json :=
  .obj (assignments.foldl (fun fields a => assign a.1 a.2 fields) [])

/-- The value of a field. -/
def lookup (key : List UInt8) : List (List UInt8 × Json) → Option Json
  | [] => none
  | (k, v) :: rest => if k = key then some v else lookup key rest

/-- The field of a value; none if it is not an object. -/
def get? (key : List UInt8) : Json → Option Json
  | .obj fields => lookup key fields
  | _ => none

def isObject : Json → Bool
  | .obj _ => true
  | _ => false

theorem lookup_of_mem {k : List UInt8} {v : Json} :
    ∀ {fields : List (List UInt8 × Json)}, (fields.map Prod.fst).Nodup → (k, v) ∈ fields →
      lookup k fields = some v
  | [], _, h => by cases h
  | (k', v') :: rest, hnodup, h => by
      rw [List.map_cons, List.nodup_cons] at hnodup
      rcases List.mem_cons.mp h with heq | hrest
      · cases heq
        simp [lookup]
      · have hne : k' ≠ k := by
          rintro rfl
          exact hnodup.1 (List.mem_map.mpr ⟨_, hrest, rfl⟩)
        simp only [lookup, hne, if_false]
        exact lookup_of_mem hnodup.2 hrest

/-- The keys are increasing. -/
def Increasing : List (List UInt8 × Json) → Prop
  | [] => True
  | [_] => True
  | (k, _) :: (k', v') :: rest => keyLt k k' = true ∧ Increasing ((k', v') :: rest)

theorem increasing_assign (key : List UInt8) (value : Json) :
    ∀ {fields : List (List UInt8 × Json)}, Increasing fields → Increasing (assign key value fields)
  | [], _ => trivial
  | [(k, v)], _ => by
      simp only [assign]
      by_cases hk : k = key
      · simp [hk, Increasing]
      · by_cases hlt : keyLt key k = true
        · simp [hk, hlt, Increasing]
        · simp only [hk, hlt, if_false, Bool.false_eq_true, Increasing, and_true]
          exact keyLt_trichotomy (by simpa using hlt) (Ne.symm hk)
  | (k, v) :: (k', v') :: rest, h => by
      obtain ⟨hkk, hrest⟩ := h
      have ih := increasing_assign key value hrest
      simp only [assign] at ih ⊢
      by_cases hk : k = key
      · subst hk
        simp only [if_true]
        exact ⟨hkk, hrest⟩
      · by_cases hlt : keyLt key k = true
        · simp only [hk, hlt, if_false, if_true]
          exact ⟨hlt, hkk, hrest⟩
        · simp only [hk, hlt, if_false, Bool.false_eq_true]
          have hk' : keyLt k key = true := keyLt_trichotomy (by simpa using hlt) (Ne.symm hk)
          -- the head stays below whatever the assignment put behind it
          by_cases hkey : k' = key
          · rw [if_pos hkey] at ih ⊢
            exact ⟨hk', ih⟩
          · rw [if_neg hkey] at ih ⊢
            by_cases hlt' : keyLt key k' = true
            · rw [if_pos hlt'] at ih ⊢
              exact ⟨hk', ih⟩
            · rw [if_neg hlt'] at ih ⊢
              exact ⟨hkk, ih⟩

theorem increasing_object (assignments : List (List UInt8 × Json)) :
    Increasing (assignments.foldl (fun fields a => assign a.1 a.2 fields) []) := by
  rw [← List.foldr_reverse]
  induction assignments.reverse with
  | nil => trivial
  | cons a rest ih => exact increasing_assign a.1 a.2 ih

/-- Assigning a new key adds one field. -/
theorem assign_perm {key : List UInt8} (value : Json) :
    ∀ {fields : List (List UInt8 × Json)}, key ∉ fields.map Prod.fst →
      (assign key value fields).Perm ((key, value) :: fields)
  | [], _ => List.Perm.refl _
  | (k, v) :: rest, h => by
      simp only [List.map_cons, List.mem_cons, not_or] at h
      obtain ⟨hne, hrest⟩ := h
      simp only [assign]
      rw [if_neg (Ne.symm hne)]
      by_cases hlt : keyLt key k = true
      · rw [if_pos hlt]
      · rw [if_neg hlt]
        exact ((assign_perm value hrest).cons (k, v)).trans (List.Perm.swap _ _ _)

/-- With distinct keys, an object has the assignments as its fields. -/
theorem object_perm {assignments : List (List UInt8 × Json)}
    (h : (assignments.map Prod.fst).Nodup) :
    (assignments.foldl (fun fields a => assign a.1 a.2 fields) []).Perm assignments := by
  have hr : (assignments.reverse.map Prod.fst).Nodup := by
    exact ((List.reverse_perm assignments).map Prod.fst).nodup_iff.mpr h
  rw [← List.foldr_reverse]
  refine List.Perm.trans ?_ (List.reverse_perm assignments)
  revert hr
  induction assignments.reverse with
  | nil => exact fun _ => List.Perm.refl _
  | cons a rest ih =>
    intro hr
    rw [List.map_cons, List.nodup_cons] at hr
    have hrest := ih hr.2
    have hnew : a.1 ∉ (rest.foldr (fun x y => assign x.1 x.2 y) []).map Prod.fst := by
      intro hmem
      exact hr.1 ((hrest.map Prod.fst).mem_iff.mp hmem)
    exact (assign_perm a.2 hnew).trans (hrest.cons a)

/-- With distinct keys, every assignment can be read back. -/
theorem get?_object {assignments : List (List UInt8 × Json)} {k : List UInt8} {v : Json}
    (h : (assignments.map Prod.fst).Nodup) (hmem : (k, v) ∈ assignments) :
    (object assignments).get? k = some v := by
  have hperm := object_perm h
  exact lookup_of_mem ((hperm.map Prod.fst).nodup_iff.mpr h) (hperm.mem_iff.mpr hmem)

theorem get?_object_none {assignments : List (List UInt8 × Json)} {k : List UInt8}
    (h : (assignments.map Prod.fst).Nodup) (hk : k ∉ assignments.map Prod.fst) :
    (object assignments).get? k = none := by
  have hkeys : k ∉ (assignments.foldl (fun fields a => assign a.1 a.2 fields) []).map Prod.fst :=
    fun hmem => hk (((object_perm h).map Prod.fst).mem_iff.mp hmem)
  show lookup k _ = none
  revert hkeys
  induction assignments.foldl (fun fields a => assign a.1 a.2 fields) [] with
  | nil => exact fun _ => rfl
  | cons f rest ih =>
    intro hkeys
    rw [List.map_cons, List.mem_cons, not_or] at hkeys
    rw [lookup, if_neg (Ne.symm hkeys.1)]
    exact ih hkeys.2

/-! ## Well-formed values -/

mutual

/-- Every string inside the value is well-formed UTF-8. -/
def utf8 : Json → Bool
  | .str bytes => validUtf8 bytes
  | .arr items => utf8Items items
  | .obj fields => utf8Fields fields
  | _ => true

def utf8Items : List Json → Bool
  | [] => true
  | v :: rest => v.utf8 && utf8Items rest

def utf8Fields : List (List UInt8 × Json) → Bool
  | [] => true
  | (k, v) :: rest => validUtf8 k && v.utf8 && utf8Fields rest

end

mutual

/-- Every object inside the value is ordered, and no number is a float. -/
def Canonical : Json → Prop
  | .float _ => False
  | .arr items => CanonicalItems items
  | .obj fields => Increasing fields ∧ CanonicalFields fields
  | _ => True

def CanonicalItems : List Json → Prop
  | [] => True
  | v :: rest => v.Canonical ∧ CanonicalItems rest

def CanonicalFields : List (List UInt8 × Json) → Prop
  | [] => True
  | (_, v) :: rest => v.Canonical ∧ CanonicalFields rest

end

theorem utf8Items_eq (items : List Json) : utf8Items items = items.all utf8 := by
  induction items with
  | nil => rfl
  | cons v rest ih => simp [utf8Items, ih]

theorem utf8Fields_eq (fields : List (List UInt8 × Json)) :
    utf8Fields fields = fields.all fun f => validUtf8 f.1 && f.2.utf8 := by
  induction fields with
  | nil => rfl
  | cons f rest ih => simp [utf8Fields, ih]

theorem canonicalItems_iff (items : List Json) :
    CanonicalItems items ↔ ∀ v ∈ items, v.Canonical := by
  induction items with
  | nil => simp [CanonicalItems]
  | cons v rest ih => simp [CanonicalItems, ih]

theorem canonicalFields_iff (fields : List (List UInt8 × Json)) :
    CanonicalFields fields ↔ ∀ f ∈ fields, f.2.Canonical := by
  induction fields with
  | nil => simp [CanonicalFields]
  | cons f rest ih => simp [CanonicalFields, ih]

/-- The strings below a well-formed value are well-formed. -/
theorem utf8_of_get? {v w : Json} {key : List UInt8} (hv : v.utf8 = true)
    (h : v.get? key = some w) : w.utf8 = true := by
  cases v with
  | obj fields =>
    replace hv : utf8Fields fields = true := hv
    replace h : lookup key fields = some w := h
    induction fields with
    | nil => cases h
    | cons f rest ih =>
      simp only [utf8Fields, Bool.and_eq_true] at hv
      rw [lookup] at h
      by_cases hk : f.1 = key
      · rw [if_pos hk, Option.some.injEq] at h
        exact h ▸ hv.1.2
      · rw [if_neg hk] at h
        exact ih hv.2 h
  | null | bool | unsigned | negative | float | str | arr => cases h

theorem utf8_object {assignments : List (List UInt8 × Json)}
    (h : (assignments.map Prod.fst).Nodup) :
    (object assignments).utf8 = assignments.all fun a => validUtf8 a.1 && a.2.utf8 := by
  show utf8Fields _ = _
  rw [utf8Fields_eq]
  exact (object_perm h).all_eq

theorem canonical_object {assignments : List (List UInt8 × Json)}
    (h : (assignments.map Prod.fst).Nodup) (hv : ∀ a ∈ assignments, a.2.Canonical) :
    (object assignments).Canonical := by
  refine ⟨increasing_object assignments, ?_⟩
  rw [canonicalFields_iff]
  intro f hf
  exact hv f ((object_perm h).mem_iff.mp hf)

end Json

end YoruSpeech.Lib

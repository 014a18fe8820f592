/-
YoruSpeech.Session.OverlapTheorems — what the overlap check of the live
preview finds.

  §1 Words          — `words_match` compares words without the maximal run
                      of punctuation at their end, and is an equivalence.
  §2 Lists of words — the same, pairwise (`Matching`).
  §3 Overlap        — `overlap_prefix_length` is the greatest length over
                      which an end of the first list matches a beginning of
                      the second (`overlapPrefixLength_isGreatest`), so it
                      sees both lists up to `Matching` only.
  §4 Indices        — the loops once more, with every access to a vector or
                      a string and every difference of sizes one that can
                      fail: none does (`overlapPrefixLength?_eq`).
-/
import YoruSpeech.Lib.Runs
import YoruSpeech.Session.LiveTranscriberTheorems
import Mathlib.Data.List.Forall2
import Mathlib.Order.Bounds.Basic

namespace YoruSpeech

open Lib (TrailingRun)

/-! ## §1 Words -/

/-- In the C locale punctuation is what is graphic and not alphanumeric. -/
theorem isPunct_iff (c : UInt8) :
    isPunct c = true ↔ (33 ≤ c ∧ c ≤ 126) ∧
      ¬ ((48 ≤ c ∧ c ≤ 57) ∨ (65 ≤ c ∧ c ≤ 90) ∨ (97 ≤ c ∧ c ≤ 122)) := by
  simp only [isPunct, Bool.or_eq_true, Bool.and_eq_true, decide_eq_true_eq, UInt8.le_iff_toNat_le,
    UInt8.reduceToNat]
  omega

theorem stripTrailingPunctuation_eq (word : Bytes) :
    stripTrailingPunctuation word = word.rdropWhile isPunct := rfl

theorem stripTrailingPunctuation_append (word : Bytes) {run : Bytes}
    (hrun : ∀ c ∈ run, isPunct c = true) :
    stripTrailingPunctuation (word ++ run) = stripTrailingPunctuation word :=
  Lib.rdropWhile_append_run hrun

/-- What is ignored is the maximal run of punctuation at the end. -/
theorem wordsMatch_iff_trailingRun (a b : Bytes) :
    wordsMatch a b = true ↔
      ∃ base x y, TrailingRun isPunct a base x ∧ TrailingRun isPunct b base y := by
  rw [wordsMatch_iff]
  constructor
  · intro h
    refine ⟨stripTrailingPunctuation a, a.rtakeWhile isPunct, b.rtakeWhile isPunct,
      Lib.trailingRun_rdropWhile isPunct a, ?_⟩
    rw [h]
    exact Lib.trailingRun_rdropWhile isPunct b
  · rintro ⟨base, x, y, ha, hb⟩
    rw [stripTrailingPunctuation_eq, stripTrailingPunctuation_eq, ← ha.base_eq, hb.base_eq]

theorem wordsMatch_equivalence : Equivalence fun a b => wordsMatch a b = true where
  refl a := (wordsMatch_iff a a).mpr rfl
  symm h := (wordsMatch_iff _ _).mpr ((wordsMatch_iff _ _).mp h).symm
  trans h h' := (wordsMatch_iff _ _).mpr (((wordsMatch_iff _ _).mp h).trans
    ((wordsMatch_iff _ _).mp h'))

/-- The second word is the first with a run of punctuation added to its end,
or removed from it. -/
def Repunctuated (word word' : Bytes) : Prop :=
  ∃ run, (∀ c ∈ run, isPunct c = true) ∧ (word' = word ++ run ∨ word = word' ++ run)

theorem Repunctuated.wordsMatch {word word' : Bytes} (h : Repunctuated word word') :
    wordsMatch word word' = true := by
  obtain ⟨run, hrun, rfl | rfl⟩ := h
  · rw [wordsMatch_iff, stripTrailingPunctuation_append _ hrun]
  · rw [wordsMatch_iff, stripTrailingPunctuation_append _ hrun]

/-! ## §2 Lists of words -/

/-- The two lists match, word for word, up to trailing punctuation. -/
def Matching (xs ys : List Bytes) : Prop :=
  List.Forall₂ (fun x y => wordsMatch x y = true) xs ys

theorem matching_iff {xs ys : List Bytes} :
    Matching xs ys ↔ xs.map stripTrailingPunctuation = ys.map stripTrailingPunctuation := by
  have hrel : (fun x y : Bytes => wordsMatch x y = true) =
      fun x y => stripTrailingPunctuation x = stripTrailingPunctuation y := by
    funext x y
    exact propext (wordsMatch_iff x y)
  rw [Matching, hrel]
  calc List.Forall₂ (fun x y => stripTrailingPunctuation x = stripTrailingPunctuation y) xs ys
    _ ↔ List.Forall₂ (· = ·) (xs.map stripTrailingPunctuation)
          (ys.map stripTrailingPunctuation) := by
        rw [List.forall₂_map_left_iff, List.forall₂_map_right_iff]
    _ ↔ xs.map stripTrailingPunctuation = ys.map stripTrailingPunctuation := by
        rw [List.forall₂_eq_eq_eq]

theorem matching_cons {x y : Bytes} {xs ys : List Bytes} :
    Matching (x :: xs) (y :: ys) ↔ wordsMatch x y = true ∧ Matching xs ys :=
  List.forall₂_cons

instance (xs ys : List Bytes) : Decidable (Matching xs ys) :=
  decidable_of_iff _ matching_iff.symm

namespace Matching

variable {xs ys zs ws : List Bytes}

theorem refl (xs : List Bytes) : Matching xs xs := matching_iff.mpr rfl

theorem trans (h : Matching xs ys) (h' : Matching ys zs) : Matching xs zs :=
  matching_iff.mpr ((matching_iff.mp h).trans (matching_iff.mp h'))

theorem symm (h : Matching xs ys) : Matching ys xs := matching_iff.mpr (matching_iff.mp h).symm

theorem length_eq (h : Matching xs ys) : xs.length = ys.length := List.Forall₂.length_eq h

theorem append (h : Matching xs ys) (h' : Matching zs ws) : Matching (xs ++ zs) (ys ++ ws) := by
  rw [matching_iff] at h h' ⊢
  rw [List.map_append, List.map_append, h, h']

theorem drop (h : Matching xs ys) (n : Nat) : Matching (xs.drop n) (ys.drop n) := by
  rw [matching_iff] at h ⊢
  rw [List.map_drop, List.map_drop, h]

theorem take (h : Matching xs ys) (n : Nat) : Matching (xs.take n) (ys.take n) := by
  rw [matching_iff] at h ⊢
  rw [List.map_take, List.map_take, h]

end Matching

/-! ## §3 Overlap -/

/-- The inner loop compares the last `k` words of the one list with the
first `k` of the other. -/
theorem overlapMatches_iff {previous new : List Bytes} {k : Nat} (hprevious : k ≤ previous.length)
    (hnew : k ≤ new.length) :
    overlapMatches previous new k = true ↔
      Matching (previous.drop (previous.length - k)) (new.take k) := by
  unfold overlapMatches Matching
  rw [List.all_eq_true, List.forall₂_iff_get]
  constructor
  · intro h
    refine ⟨by simp; omega, ?_⟩
    intro i hi hi'
    have hik : i < k := by
      rw [List.length_take] at hi'
      omega
    have hturn := h i (List.mem_range.mpr hik)
    rw [List.getElem?_eq_getElem (by omega), List.getElem?_eq_getElem (by omega)] at hturn
    simpa using hturn
  · intro ⟨_, h⟩ i hi
    have hik := List.mem_range.mp hi
    have hturn := h i (by simp; omega) (by simp; omega)
    rw [List.getElem?_eq_getElem (by omega), List.getElem?_eq_getElem (by omega)]
    simpa using hturn

/-- **The overlap is the greatest one.** A length of 0 always qualifies, so
the result is 0 when no other does. -/
theorem overlapPrefixLength_isGreatest (previous new : List Bytes) :
    IsGreatest {k | k ≤ previous.length ∧ k ≤ new.length ∧
        Matching (previous.drop (previous.length - k)) (new.take k)}
      (overlapPrefixLength previous new) := by
  unfold overlapPrefixLength
  rw [overlapFrom_eq_findGreatest]
  have hle := Nat.findGreatest_le (P := fun k => overlapMatches previous new k = true)
    (min previous.length new.length)
  have hspec := Nat.findGreatest_spec (P := fun k => overlapMatches previous new k = true)
    (Nat.zero_le (min previous.length new.length)) rfl
  constructor
  · refine ⟨by omega, by omega, ?_⟩
    exact (overlapMatches_iff (by omega) (by omega)).mp hspec
  · intro k ⟨hprevious, hnew, hmatching⟩
    exact Nat.le_findGreatest (by omega) ((overlapMatches_iff hprevious hnew).mpr hmatching)

theorem overlapPrefixLength_congr {previous previous' new new' : List Bytes}
    (hprevious : Matching previous previous') (hnew : Matching new new') :
    overlapPrefixLength previous' new' = overlapPrefixLength previous new := by
  have hsame : ∀ k, Matching (previous'.drop (previous.length - k)) (new'.take k) ↔
      Matching (previous.drop (previous.length - k)) (new.take k) := by
    intro k
    constructor
    · intro h
      exact (hprevious.drop _).trans (h.trans (hnew.take k).symm)
    · intro h
      exact (hprevious.drop _).symm.trans (h.trans (hnew.take k))
  have hgreatest := overlapPrefixLength_isGreatest previous' new'
  simp only [← hprevious.length_eq, ← hnew.length_eq, hsame] at hgreatest
  exact hgreatest.unique (overlapPrefixLength_isGreatest previous new)

/-! ## §4 Indices -/

/-- `a - b` of two sizes; nothing where it would wrap around. -/
def sizeSub? (a b : Nat) : Option Nat := if b ≤ a then some (a - b) else none

/-- The loop of `strip_trailing_punctuation`: where `end` gets to from
`stop`. -/
def stripEnd? (word : Bytes) : Nat → Option Nat
  | 0 => some 0
  | stop + 1 => do
    let c ← word[stop]?
    if isPunct c then stripEnd? word stop else some (stop + 1)

/-- `strip_trailing_punctuation`, with the access checked. -/
def stripTrailingPunctuation? (word : Bytes) : Option Bytes :=
  (stripEnd? word word.length).map word.take

/-- `words_match`, with the accesses checked. -/
def wordsMatch? (a b : Bytes) : Option Bool := do
  let x ← stripTrailingPunctuation? a
  let y ← stripTrailingPunctuation? b
  return x == y

/-- The inner loop of `overlap_prefix_length` at `i`, with `left` turns to
go. -/
def overlapMatches? (previous new : List Bytes) (k i : Nat) : Nat → Option Bool
  | 0 => some true
  | left + 1 => do
    let start ← sizeSub? previous.length k
    let a ← previous[start + i]?
    let b ← new[i]?
    if ← wordsMatch? a b then overlapMatches? previous new k (i + 1) left else some false

/-- The outer loop of `overlap_prefix_length`, from `k` down. -/
def overlapFrom? (previous new : List Bytes) : Nat → Option Nat
  | 0 => some 0
  | k + 1 => do
    if ← overlapMatches? previous new (k + 1) 0 (k + 1) then some (k + 1)
    else overlapFrom? previous new k

/-- `overlap_prefix_length`, with every access checked. -/
def overlapPrefixLength? (previous new : List Bytes) : Option Nat :=
  overlapFrom? previous new (min previous.length new.length)

theorem stripEnd?_eq (word : Bytes) {stop : Nat} (h : stop ≤ word.length) :
    (stripEnd? word stop).map word.take =
      some (stripTrailingPunctuation (word.take stop)) := by
  induction stop with
  | zero => rfl
  | succ stop ih =>
    have hread : word[stop]? = some word[stop] := List.getElem?_eq_getElem h
    have htake : word.take (stop + 1) = word.take stop ++ [word[stop]] :=
      (List.take_append_getElem h).symm
    rw [stripEnd?, hread, stripTrailingPunctuation_eq, htake]
    simp only [Option.bind_eq_bind, Option.bind_some]
    by_cases hc : isPunct word[stop] = true
    · rw [if_pos hc, List.rdropWhile_concat_pos _ _ _ hc]
      exact ih (by omega)
    · rw [if_neg hc, List.rdropWhile_concat_neg _ _ _ hc, Option.map_some, htake]

theorem wordsMatch?_eq (a b : Bytes) : wordsMatch? a b = some (wordsMatch a b) := by
  have hstrip : ∀ word, stripTrailingPunctuation? word = some (stripTrailingPunctuation word) := by
    intro word
    have hend := stripEnd?_eq word (Nat.le_refl _)
    rwa [List.take_length] at hend
  rw [wordsMatch?, hstrip, hstrip]
  rfl

/-- The turns from `i` on read words that are there, and compare what is
left of the two parts. -/
theorem overlapMatches?_eq {previous new : List Bytes} {k i left : Nat}
    (hprevious : k ≤ previous.length) (hnew : k ≤ new.length) (hturns : i + left = k) :
    overlapMatches? previous new k i left =
      some (decide (Matching (previous.drop (previous.length - k + i)) ((new.take k).drop i))) := by
  induction left generalizing i with
  | zero =>
    have hend : previous.drop (previous.length - k + i) = [] :=
      List.drop_of_length_le (by omega)
    have hend' : (new.take k).drop i = [] := List.drop_of_length_le (by simp; omega)
    rw [overlapMatches?, hend, hend', decide_eq_true (Matching.refl [])]
  | succ left ih =>
    have hi : i < new.length := by omega
    have hi' : previous.length - k + i < previous.length := by omega
    have hcons : previous.drop (previous.length - k + i) =
        previous[previous.length - k + i] :: previous.drop (previous.length - k + (i + 1)) :=
      List.drop_eq_getElem_cons hi'
    have hcons' : (new.take k).drop i = new[i] :: (new.take k).drop (i + 1) := by
      rw [List.drop_eq_getElem_cons (by simp; omega), List.getElem_take]
    rw [overlapMatches?, sizeSub?, if_pos hprevious, hcons, hcons']
    simp only [Option.bind_eq_bind, Option.bind_some, List.getElem?_eq_getElem hi,
      List.getElem?_eq_getElem hi', wordsMatch?_eq, matching_cons]
    by_cases hmatch : wordsMatch previous[previous.length - k + i] new[i] = true
    · rw [if_pos hmatch, ih (by omega)]
      simp [hmatch]
    · rw [if_neg hmatch]
      simp [hmatch]

theorem overlapFrom?_eq {previous new : List Bytes} {n : Nat} (hprevious : n ≤ previous.length)
    (hnew : n ≤ new.length) : overlapFrom? previous new n = some (overlapFrom previous new n) := by
  induction n with
  | zero => rfl
  | succ n ih =>
    have hinner : overlapMatches? previous new (n + 1) 0 (n + 1) =
        some (overlapMatches previous new (n + 1)) := by
      rw [overlapMatches?_eq hprevious hnew (Nat.zero_add _), Option.some.injEq, Bool.eq_iff_iff,
        decide_eq_true_iff, overlapMatches_iff hprevious hnew]
      rfl
    rw [overlapFrom?, hinner, overlapFrom, ih (by omega) (by omega)]
    simp only [Option.bind_eq_bind, Option.bind_some]
    split <;> rfl

/-- No access is out of range and no difference wraps around. -/
theorem overlapPrefixLength?_eq (previous new : List Bytes) :
    overlapPrefixLength? previous new = some (overlapPrefixLength previous new) :=
  overlapFrom?_eq (Nat.min_le_left _ _) (Nat.min_le_right _ _)

/-- **Overlap detection is exact.** For any two lists of words the result is
the greatest length over which the end of the first matches the beginning
of the second, and the code gets to it without leaving a list or a word.
Matching is an equivalence that ignores the maximal run of punctuation at
the end of a word and nothing else, so the result does not change when
punctuation is added to the ends of any of the words, or removed. -/
theorem overlapPrefixLength_exact :
    (∀ previous new : List Bytes,
      IsGreatest {k | k ≤ previous.length ∧ k ≤ new.length ∧
          List.Forall₂ (fun x y => wordsMatch x y = true)
            (previous.drop (previous.length - k)) (new.take k)}
        (overlapPrefixLength previous new) ∧
      overlapPrefixLength? previous new = some (overlapPrefixLength previous new)) ∧
    Equivalence (fun a b => wordsMatch a b = true) ∧
    (∀ a b, wordsMatch a b = true ↔
      ∃ base x y, TrailingRun isPunct a base x ∧ TrailingRun isPunct b base y) ∧
    (∀ c, isPunct c = true ↔ (33 ≤ c ∧ c ≤ 126) ∧
      ¬ ((48 ≤ c ∧ c ≤ 57) ∨ (65 ≤ c ∧ c ≤ 90) ∨ (97 ≤ c ∧ c ≤ 122))) ∧
    ∀ previous previous' new new' : List Bytes, List.Forall₂ Repunctuated previous previous' →
      List.Forall₂ Repunctuated new new' →
      overlapPrefixLength previous' new' = overlapPrefixLength previous new := by
  refine ⟨?_, wordsMatch_equivalence, wordsMatch_iff_trailingRun, isPunct_iff, ?_⟩
  · intro previous new
    exact ⟨overlapPrefixLength_isGreatest previous new, overlapPrefixLength?_eq previous new⟩
  · intro previous previous' new new' hprevious hnew
    have hmatching : ∀ {xs ys : List Bytes}, List.Forall₂ Repunctuated xs ys → Matching xs ys :=
      fun h => h.imp fun _ _ => Repunctuated.wordsMatch
    exact overlapPrefixLength_congr (hmatching hprevious) (hmatching hnew)

-- a shorter overlap coexists with the longest one
example : overlapPrefixLength [str "no", str "so", str "no.", str "so..."]
    [str "no", str "so", str "no", str "then"] = 2 := by decide

end YoruSpeech

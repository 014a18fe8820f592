/-
YoruSpeech.Lib.Stretch — contiguous parts of a list, by position.

`stretch l i j` is what lies between positions `i` and `j`. On a list in
which a property holds on an initial part only, the elements that satisfy
one such property and not another form a stretch between the two counts;
that is how an interval of time selects consecutive items of a sequence.
-/

namespace YoruSpeech.Lib

variable {α : Type}

/-- The elements at positions `i` up to, not including, `j`. -/
def stretch (l : List α) (i j : Nat) : List α := (l.take j).drop i

theorem length_stretch (l : List α) (i j : Nat) :
    (stretch l i j).length = min j l.length - i := by
  simp [stretch]

@[simp] theorem stretch_zero (l : List α) (i : Nat) : stretch l i 0 = [] := by
  simp [stretch]

theorem getElem?_stretch (l : List α) {i j k : Nat} (h : i + k < j) :
    (stretch l i j)[k]? = l[i + k]? := by
  rw [stretch, List.getElem?_drop, List.getElem?_take_of_lt h]

/-- Cutting a stretch again. -/
theorem stretch_stretch (l : List α) (i j a : Nat) :
    (stretch l i j).drop a = stretch l (i + a) j := by
  rw [stretch, List.drop_drop, stretch]

theorem take_stretch (l : List α) (i j b : Nat) :
    (stretch l i j).take b = stretch l i (min (i + b) j) := by
  rw [stretch, List.take_drop, List.take_take, stretch]

/-- A longer stretch from the same position starts with the shorter one. -/
theorem stretch_isPrefix (l : List α) (i : Nat) {j j' : Nat} (h : j ≤ j') :
    stretch l i j <+: stretch l i j' := by
  obtain ⟨rest, hrest⟩ := List.take_prefix_take_left (l := l) h
  rw [stretch, stretch, ← hrest, List.drop_append]
  exact List.prefix_append _ _

/-- What comes before a stretch, followed by the stretch. -/
theorem take_append_stretch (l : List α) {i j : Nat} (h : i ≤ j) :
    l.take i ++ stretch l i j = l.take j := by
  have htake : l.take i = (l.take j).take i := by rw [List.take_take, Nat.min_eq_left h]
  rw [htake, stretch, List.take_append_drop]

/-- A stretch to the end. -/
theorem stretch_length (l : List α) (i : Nat) : stretch l i l.length = l.drop i := by
  rw [stretch, List.take_length]

/-- A stretch, followed by what comes after it. -/
theorem stretch_append_drop (l : List α) {i j : Nat} (h : i ≤ j) :
    stretch l i j ++ l.drop j = l.drop i := by
  have hsplit : l.drop i = stretch l i j ++ (l.drop j).drop (i - (l.take j).length) := by
    rw [stretch, ← List.drop_append, List.take_append_drop]
  by_cases hj : j ≤ l.length
  · rw [hsplit, List.length_take, Nat.min_eq_left hj, Nat.sub_eq_zero_of_le h, List.drop_zero]
  · have hnil : l.drop j = [] := List.drop_of_length_le (by omega)
    rw [hsplit, hnil, List.drop_nil]

/-- Two stretches that meet. -/
theorem stretch_append_stretch (l : List α) {i j k : Nat} (h : i ≤ j) (h' : j ≤ k) :
    stretch l i j ++ stretch l j k = stretch l i k := by
  have htake : stretch l i j = stretch (l.take k) i j := by
    rw [stretch, stretch, List.take_take, Nat.min_eq_left h']
  rw [htake]
  exact stretch_append_drop (l.take k) h

theorem sublist_take_mono {xs l : List α} {d e : Nat} (h : xs.Sublist (l.take d)) (hde : d ≤ e) :
    xs.Sublist (l.take e) :=
  h.trans (List.take_sublist_take_left hde)

/-- Appending a stretch to a selection made before it. -/
theorem sublist_append_stretch {xs l : List α} {d i j : Nat} (h : xs.Sublist (l.take d))
    (hdi : d ≤ i) (hij : i ≤ j) : (xs ++ stretch l i j).Sublist (l.take j) := by
  rw [← take_append_stretch l hij]
  exact (sublist_take_mono h hdi).append (List.Sublist.refl _)

/-! ## Initial properties -/

/-- Along the list the property holds first and then no more. -/
def Initial (p : α → Bool) (l : List α) : Prop :=
  l.Pairwise fun x y => p y = true → p x = true

theorem filter_of_initial {p : α → Bool} {l : List α} (h : Initial p l) :
    l.filter p = l.take (l.countP p) := by
  induction l with
  | nil => rfl
  | cons x rest ih =>
    obtain ⟨hx, hrest⟩ := List.pairwise_cons.mp h
    by_cases hp : p x = true
    · rw [List.filter_cons_of_pos hp, List.countP_cons_of_pos hp, List.take_succ_cons, ih hrest]
    · have hnone : ∀ y ∈ rest, ¬ p y = true := fun y hy hpy => hp (hx y hy hpy)
      rw [List.filter_cons_of_neg hp, List.countP_cons_of_neg hp,
        List.countP_eq_zero.mpr hnone, List.filter_eq_nil_iff.mpr hnone]
      rfl

theorem filter_not_of_initial {p : α → Bool} {l : List α} (h : Initial p l) :
    l.filter (fun x => !p x) = l.drop (l.countP p) := by
  induction l with
  | nil => rfl
  | cons x rest ih =>
    obtain ⟨hx, hrest⟩ := List.pairwise_cons.mp h
    by_cases hp : p x = true
    · rw [List.filter_cons_of_neg (by simp [hp]), List.countP_cons_of_pos hp,
        List.drop_succ_cons, ih hrest]
    · have hnone : ∀ y ∈ rest, ¬ p y = true := fun y hy hpy => hp (hx y hy hpy)
      have hall : ∀ y ∈ x :: rest, (!p y) = true := by
        intro y hy
        rcases List.mem_cons.mp hy with rfl | hy
        · simpa using hp
        · simpa using hnone y hy
      rw [List.countP_cons_of_neg hp, List.countP_eq_zero.mpr hnone, List.drop_zero,
        List.filter_eq_self.mpr hall]

theorem countP_take_of_initial {p : α → Bool} {l : List α} (h : Initial p l) (n : Nat) :
    (l.take n).countP p = min (l.countP p) n := by
  induction l generalizing n with
  | nil => simp
  | cons x rest ih =>
    obtain ⟨hx, hrest⟩ := List.pairwise_cons.mp h
    cases n with
    | zero => simp
    | succ n =>
      rw [List.take_succ_cons]
      by_cases hp : p x = true
      · rw [List.countP_cons_of_pos hp, List.countP_cons_of_pos hp, ih hrest]
        omega
      · have hnone : ∀ y ∈ rest, ¬ p y = true := fun y hy hpy => hp (hx y hy hpy)
        rw [List.countP_cons_of_neg hp, List.countP_cons_of_neg hp, ih hrest,
          List.countP_eq_zero.mpr hnone]
        omega

/-- The elements past one initial property and within another. -/
theorem filter_between {p q : α → Bool} {l : List α} (hp : Initial p l) (hq : Initial q l) :
    l.filter (fun x => !p x && q x) = stretch l (l.countP p) (l.countP q) := by
  have htake : Initial p (l.take (l.countP q)) := List.Pairwise.sublist (List.take_sublist _ _) hp
  rw [← List.filter_filter, filter_of_initial hq, filter_not_of_initial htake,
    countP_take_of_initial hp, stretch]
  by_cases hle : l.countP p ≤ l.countP q
  · rw [Nat.min_eq_left hle]
  · -- nothing lies between: both sides drop the whole initial part
    have hlen : (l.take (l.countP q)).length ≤ l.countP q := by
      rw [List.length_take]
      omega
    rw [List.drop_eq_nil_of_le (by omega), List.drop_eq_nil_of_le (by omega)]

theorem countP_le_of_imp {p q : α → Bool} {l : List α} (h : ∀ x ∈ l, p x = true → q x = true) :
    l.countP p ≤ l.countP q :=
  List.countP_mono_left h

end YoruSpeech.Lib

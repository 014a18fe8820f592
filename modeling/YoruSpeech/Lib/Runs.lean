/-
YoruSpeech.Lib.Runs — the maximal runs of a list between delimiters, and the
run of delimiters at its end.

`MaximalRun d s i run` says that `run` stands at position `i` of `s`, holds
no delimiter and cannot be made longer on either side. `Cut d s runs` says
that `runs` are all of them, from left to right, one entry for each position
that starts one. A loop that collects the runs is shown to compute a cut with
the three rules of the second part, one for each way it goes on.

`TrailingRun d s base run` says that `s` is `base` followed by its maximal
run of delimiters at the end. There is one such way to write a list, and
`List.rdropWhile` finds its `base`.
-/
import Mathlib.Data.List.DropRight

namespace YoruSpeech.Lib

variable {α β : Type} {d : α → Bool} {s t run cur : List α} {i : Nat} {a : α}
  {runs : List (List α)}

/-! ## Runs -/

structure MaximalRun (d : α → Bool) (s : List α) (i : Nat) (run : List α) : Prop where
  nonempty : run ≠ []
  free : ∀ a ∈ run, d a = false
  /-- Where it stands, and what ends it on the left and on the right. -/
  placed : ∃ before after, s = before ++ (run ++ after) ∧ before.length = i ∧
    (∀ a ∈ before.getLast?, d a = true) ∧ ∀ a ∈ after.head?, d a = true

theorem not_maximalRun_nil : ¬ MaximalRun d [] i run := by
  intro h
  obtain ⟨before, after, hs, -⟩ := h.placed
  have hempty : run ++ after = [] := (List.append_eq_nil_iff.mp hs.symm).2
  exact h.nonempty (List.append_eq_nil_iff.mp hempty).1

/-- A delimiter in front moves every run by one. -/
theorem maximalRun_cons_delimiter (ha : d a = true) :
    MaximalRun d (a :: s) i run ↔ ∃ k, i = k + 1 ∧ MaximalRun d s k run := by
  constructor
  · intro h
    obtain ⟨before, after, hs, hi, hleft, hright⟩ := h.placed
    cases before with
    | nil =>
      cases run with
      | nil => exact absurd rfl h.nonempty
      | cons b rest =>
        -- the run would start with the delimiter
        have hb : b = a := (List.cons.inj hs).1.symm
        have hfree := h.free b List.mem_cons_self
        rw [hb, ha] at hfree
        contradiction
    | cons b before =>
      obtain ⟨rfl, hrest⟩ := List.cons.inj hs
      have hleft' : ∀ c ∈ before.getLast?, d c = true := by
        intro c hc
        cases before with
        | nil => cases hc
        | cons b' before => exact hleft c (by rwa [List.getLast?_cons_cons])
      exact ⟨before.length, hi.symm, h.nonempty, h.free, before, after, hrest, rfl, hleft', hright⟩
  · rintro ⟨k, rfl, h⟩
    obtain ⟨before, after, rfl, rfl, hleft, hright⟩ := h.placed
    have hleft' : ∀ c ∈ (a :: before).getLast?, d c = true := by
      intro c hc
      cases before with
      | nil =>
        have hca : a = c := by simpa using hc
        rwa [← hca]
      | cons b before => exact hleft c (by rwa [List.getLast?_cons_cons] at hc)
    exact ⟨h.nonempty, h.free, a :: before, after, rfl, rfl, hleft', hright⟩

/-- Two ways to write a list as a part without delimiters and a rest that
starts with one, or is empty, agree. -/
theorem free_append_inj {xs ys xs' ys' : List α} (h : xs ++ ys = xs' ++ ys')
    (hx : ∀ a ∈ xs, d a = false) (hx' : ∀ a ∈ xs', d a = false)
    (hy : ∀ a ∈ ys.head?, d a = true) (hy' : ∀ a ∈ ys'.head?, d a = true) : xs = xs' := by
  rcases List.append_eq_append_iff.mp h with ⟨more, rfl, rfl⟩ | ⟨more, rfl, rfl⟩
  · cases more with
    | nil => exact (List.append_nil xs).symm
    | cons c more =>
      have hdel := hy c rfl
      rw [hx' c (by simp)] at hdel
      contradiction
  · cases more with
    | nil => exact List.append_nil xs'
    | cons c more =>
      have hdel := hy' c rfl
      rw [hx c (by simp)] at hdel
      contradiction

/-- The runs of a list that starts with one: that one, and the runs of what
follows it. -/
theorem maximalRun_append (hcur : cur ≠ []) (hfree : ∀ a ∈ cur, d a = false)
    (ht : ∀ a ∈ t.head?, d a = true) :
    MaximalRun d (cur ++ t) i run ↔
      (i = 0 ∧ run = cur) ∨ ∃ k, i = k + cur.length ∧ MaximalRun d t k run := by
  constructor
  · intro h
    obtain ⟨before, after, hs, hi, hleft, hright⟩ := h.placed
    by_cases hbefore : before = []
    · subst hbefore
      exact .inl ⟨hi.symm, free_append_inj hs.symm h.free hfree hright ht⟩
    · -- what stands before the run ends with a delimiter, so it is not a part of `cur`
      have hout : ∀ c, before.getLast? = some c → c ∉ cur := by
        intro c hc hmem
        have hdel := hleft c hc
        rw [hfree c hmem] at hdel
        contradiction
      obtain ⟨c, hlast⟩ : ∃ c, before.getLast? = some c :=
        ⟨_, List.getLast?_eq_some_getLast hbefore⟩
      rcases List.append_eq_append_iff.mp hs with ⟨more, rfl, rfl⟩ | ⟨more, rfl, -⟩
      · cases more with
        | nil =>
          have hmem := List.mem_of_getLast? hlast
          rw [List.append_nil] at hmem
          exact absurd hmem (hout c hlast)
        | cons b more =>
          have hleft' : ∀ e ∈ (b :: more).getLast?, d e = true := by
            intro e he
            exact hleft e (by rwa [List.getLast?_append_of_ne_nil _ (List.cons_ne_nil b more)])
          refine .inr ⟨(b :: more).length, ?_, h.nonempty, h.free, b :: more, after, rfl, rfl,
            hleft', hright⟩
          rw [← hi, List.length_append]
          exact Nat.add_comm _ _
      · exact absurd (List.mem_append_left more (List.mem_of_getLast? hlast)) (hout c hlast)
  · rintro (⟨rfl, rfl⟩ | ⟨k, rfl, h⟩)
    · exact ⟨hcur, hfree, [], t, rfl, rfl, by simp, ht⟩
    · obtain ⟨before, after, rfl, rfl, hleft, hright⟩ := h.placed
      have hleft' : ∀ b ∈ (cur ++ before).getLast?, d b = true := by
        intro b hb
        cases before with
        | nil =>
          -- then what follows starts with the run, and not with a delimiter
          obtain ⟨c, rest, rfl⟩ := List.exists_cons_of_ne_nil h.nonempty
          have hdel := ht c (by simp)
          rw [h.free c List.mem_cons_self] at hdel
          contradiction
        | cons c before =>
          rw [List.getLast?_append_of_ne_nil _ (List.cons_ne_nil c before)] at hb
          exact hleft b hb
      refine ⟨h.nonempty, h.free, cur ++ before, after, by simp, ?_, hleft', hright⟩
      rw [List.length_append]
      exact Nat.add_comm _ _

/-! ## All runs, in order -/

def Cut (d : α → Bool) (s : List α) (runs : List (List α)) : Prop :=
  ∃ placed : List (Nat × List α), runs = placed.map Prod.snd ∧
    placed.Pairwise (fun p q => p.1 < q.1) ∧
    ∀ i run, (i, run) ∈ placed ↔ MaximalRun d s i run

theorem Cut.nil : Cut d [] [] := by
  refine ⟨[], rfl, List.Pairwise.nil, ?_⟩
  intro i run
  exact ⟨fun h => absurd h List.not_mem_nil, fun h => absurd h not_maximalRun_nil⟩

/-- Moving the positions of a cut by `n`. -/
theorem mem_shift {placed : List (Nat × List α)} {n : Nat} :
    (i, run) ∈ placed.map (fun p => (p.1 + n, p.2)) ↔ ∃ k, i = k + n ∧ (k, run) ∈ placed := by
  constructor
  · intro h
    obtain ⟨⟨k, r⟩, hmem, heq⟩ := List.mem_map.mp h
    obtain ⟨rfl, rfl⟩ := Prod.mk.inj heq
    exact ⟨k, rfl, hmem⟩
  · rintro ⟨k, rfl, hmem⟩
    exact List.mem_map.mpr ⟨(k, run), hmem, rfl⟩

theorem pairwise_shift {placed : List (Nat × List α)} (n : Nat)
    (h : placed.Pairwise fun p q => p.1 < q.1) :
    (placed.map fun p => (p.1 + n, p.2)).Pairwise fun p q => p.1 < q.1 := by
  refine List.pairwise_map.mpr (h.imp ?_)
  intro p q hpq
  show p.1 + n < q.1 + n
  omega

theorem snd_shift (placed : List (Nat × List α)) (n : Nat) :
    (placed.map fun p => (p.1 + n, p.2)).map Prod.snd = placed.map Prod.snd := by
  rw [List.map_map]
  rfl

/-- A delimiter in front leaves the runs as they are. -/
theorem Cut.cons_delimiter (ha : d a = true) (h : Cut d s runs) : Cut d (a :: s) runs := by
  obtain ⟨placed, rfl, hsorted, hall⟩ := h
  refine ⟨placed.map fun p => (p.1 + 1, p.2), (snd_shift placed 1).symm,
    pairwise_shift 1 hsorted, ?_⟩
  intro i run
  rw [mem_shift, maximalRun_cons_delimiter ha]
  simp only [hall]

/-- A part without delimiters, put in front of an end or of a delimiter, is
the first run. -/
theorem Cut.append_run (hcur : cur ≠ []) (hfree : ∀ a ∈ cur, d a = false)
    (ht : ∀ a ∈ t.head?, d a = true) (h : Cut d t runs) : Cut d (cur ++ t) (cur :: runs) := by
  obtain ⟨placed, rfl, hsorted, hall⟩ := h
  have hpos : 0 < cur.length := List.length_pos_iff.mpr hcur
  refine ⟨(0, cur) :: placed.map fun p => (p.1 + cur.length, p.2), ?_, ?_, ?_⟩
  · rw [List.map_cons, snd_shift]
  · refine List.pairwise_cons.mpr ⟨?_, pairwise_shift _ hsorted⟩
    intro ⟨i, run⟩ hmem
    obtain ⟨k, rfl, -⟩ := mem_shift.mp hmem
    show 0 < k + cur.length
    omega
  · intro i run
    rw [List.mem_cons, mem_shift, maximalRun_append hcur hfree ht, Prod.mk.injEq]
    simp only [hall]

/-- What is in a cut. -/
theorem Cut.mem (h : Cut d s runs) : run ∈ runs ↔ ∃ i, MaximalRun d s i run := by
  obtain ⟨placed, rfl, -, hall⟩ := h
  constructor
  · intro hmem
    obtain ⟨⟨i, r⟩, hplaced, rfl⟩ := List.mem_map.mp hmem
    exact ⟨i, (hall i r).mp hplaced⟩
  · rintro ⟨i, hrun⟩
    exact List.mem_map.mpr ⟨(i, run), (hall i run).mpr hrun, rfl⟩

/-- A search through a cut finds the leftmost run it looks for. -/
theorem Cut.findSome? {f : List α → Option β} {b : β} (h : Cut d s runs)
    (hfind : runs.findSome? f = some b) :
    ∃ i run, MaximalRun d s i run ∧ f run = some b ∧
      ∀ j other, j < i → MaximalRun d s j other → f other = none := by
  obtain ⟨placed, rfl, hsorted, hall⟩ := h
  rw [List.findSome?_map] at hfind
  obtain ⟨front, ⟨i, run⟩, back, rfl, hf, hnone⟩ := List.findSome?_eq_some_iff.mp hfind
  refine ⟨i, run, (hall i run).mp (by simp), hf, ?_⟩
  intro j other hj hother
  have hmem := (hall j other).mpr hother
  rcases List.mem_append.mp hmem with hmem | hmem
  · exact hnone _ hmem
  · -- the entries from `i` on stand at `i` or to its right
    exfalso
    have hsorted' := (List.pairwise_append.mp hsorted).2.1
    rcases List.mem_cons.mp hmem with heq | hmem
    · obtain ⟨rfl, -⟩ := Prod.mk.inj heq
      exact Nat.lt_irrefl _ hj
    · have hlt : i < j := (List.pairwise_cons.mp hsorted').1 _ hmem
      omega

/-! ## The run at the end -/

structure TrailingRun (d : α → Bool) (s base run : List α) : Prop where
  eq : s = base ++ run
  delimiters : ∀ a ∈ run, d a = true
  /-- The run cannot be made longer. -/
  maximal : ∀ a ∈ base.getLast?, d a = false

theorem trailingRun_rdropWhile (d : α → Bool) (s : List α) :
    TrailingRun d s (s.rdropWhile d) (s.rtakeWhile d) := by
  refine ⟨List.rdropWhile_append_rtakeWhile.symm, fun a ha => List.mem_rtakeWhile_imp ha, ?_⟩
  intro a ha
  have hne : s.rdropWhile d ≠ [] := by
    intro hnil
    rw [hnil] at ha
    cases ha
  have hlast := List.rdropWhile_last_not d s hne
  have heq : (s.rdropWhile d).getLast hne = a := by
    rw [List.getLast?_eq_some_getLast hne] at ha
    exact Option.some.inj ha
  rw [heq] at hlast
  simpa using hlast

/-- Delimiters at the end are not seen. -/
theorem rdropWhile_append_run {run : List α} (hrun : ∀ a ∈ run, d a = true) :
    (s ++ run).rdropWhile d = s.rdropWhile d := by
  rw [List.rdropWhile, List.rdropWhile, List.reverse_append,
    List.dropWhile_append_of_pos (by simpa using hrun)]

theorem TrailingRun.base_eq {base run : List α} (h : TrailingRun d s base run) :
    base = s.rdropWhile d := by
  have hself : base.rdropWhile d = base := by
    rw [List.rdropWhile_eq_self_iff]
    intro hne
    rw [h.maximal _ (List.getLast?_eq_some_getLast hne)]
    exact Bool.false_ne_true
  rw [h.eq, rdropWhile_append_run h.delimiters, hself]

end YoruSpeech.Lib

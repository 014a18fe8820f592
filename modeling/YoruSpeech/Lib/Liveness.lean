/-
YoruSpeech.Lib.Liveness — infinite runs of a transition system and the
rules for what happens in them sooner or later.

A `Behaviour` is an infinite sequence of states; at each instant the system
takes a step or, when something outside it does, stays where it is. The
rules are:

* `LeadsTo.trans` — "P leads to Q" composes;
* `leadsTo_of_rank` — a well-founded rank that no step raises and that the
  steps of a weakly fair class lower, with some step of the class possible
  all the while;
* `leadsTo_of_recurs` — something done again and again that brings Q about
  whenever P holds;
* `project` — a behaviour of a system seen as one of its parts.

As in `YoruSpeech.Lib.Transition`, nothing here names a component.
-/
import Mathlib.Order.WellFounded
import YoruSpeech.Lib.Transition

namespace YoruSpeech.Lib

section Liveness

variable {σ α : Type} {step : σ → α → Option σ}

/-- A step, or an instant at which the system stays as it is. -/
inductive Stutters (step : σ → α → Option σ) (s : σ) : Option α → σ → Prop
  | stay : Stutters step s none s
  | move {a : α} {s' : σ} : step s a = some s' → Stutters step s (some a) s'

structure Behaviour (step : σ → α → Option σ) where
  state : Nat → σ
  act : Nat → Option α
  steps : ∀ i, Stutters step (state i) (act i) (state (i + 1))

/-- Some action of the class is possible. -/
def Enabled (step : σ → α → Option σ) (A : α → Prop) (s : σ) : Prop :=
  ∃ a, A a ∧ (step s a).isSome = true

namespace Behaviour

variable (b : Behaviour step)

/-- At this instant the system takes a step of the class. -/
def Takes (A : α → Prop) (i : Nat) : Prop := ∃ a, b.act i = some a ∧ A a

/-- A class that is possible from some instant on is taken. -/
def WeaklyFair (A : α → Prop) : Prop :=
  ∀ i, ∃ j, i ≤ j ∧ (b.Takes A j ∨ ¬ Enabled step A (b.state j))

/-- Whenever `P` holds, `Q` holds then or later. -/
def LeadsTo (P Q : σ → Prop) : Prop := ∀ i, P (b.state i) → ∃ j, i ≤ j ∧ Q (b.state j)

variable {b}

theorem step_of_act {i : Nat} {a : α} (h : b.act i = some a) :
    step (b.state i) a = some (b.state (i + 1)) := by
  have hs := b.steps i
  rw [h] at hs
  cases hs with
  | move hs => exact hs

theorem state_of_stay {i : Nat} (h : b.act i = none) : b.state (i + 1) = b.state i := by
  have hs := b.steps i
  rw [h] at hs
  generalize b.state (i + 1) = s at hs
  cases hs with
  | stay => rfl

/-- What the first state has and every step keeps holds throughout. -/
theorem always {P : σ → Prop} (hinit : P (b.state 0))
    (hstep : ∀ s a s', P s → step s a = some s' → P s') (i : Nat) : P (b.state i) := by
  induction i with
  | zero => exact hinit
  | succ i ih =>
    cases ha : b.act i with
    | none => exact state_of_stay ha ▸ ih
    | some a => exact hstep _ a _ ih (step_of_act ha)

/-- What every step keeps holds from the first instant it holds at. -/
theorem stays {P : σ → Prop} (hstep : ∀ i a, P (b.state i) → b.act i = some a → P (b.state (i + 1)))
    {i j : Nat} (hij : i ≤ j) (hi : P (b.state i)) : P (b.state j) := by
  induction j, hij using Nat.le_induction with
  | base => exact hi
  | succ j _ ih =>
    cases ha : b.act j with
    | none => exact state_of_stay ha ▸ ih
    | some a => exact hstep j a ih ha

namespace LeadsTo

variable {P Q R : σ → Prop}

theorem trans (h₁ : b.LeadsTo P Q) (h₂ : b.LeadsTo Q R) : b.LeadsTo P R := by
  intro i hi
  obtain ⟨j, hij, hj⟩ := h₁ i hi
  obtain ⟨k, hjk, hk⟩ := h₂ j hj
  exact ⟨k, Nat.le_trans hij hjk, hk⟩

end LeadsTo

/-- The stretch up to `j`: `Q` comes about in it, or `P` lasts and the rank
has not grown. -/
theorem reached_or_lasts {μ : Type} [Preorder μ] (rank : σ → μ) {P Q : σ → Prop}
    (hstep : ∀ i a, b.act i = some a → P (b.state i) → ¬ Q (b.state i) →
      Q (b.state (i + 1)) ∨ P (b.state (i + 1)) ∧ rank (b.state (i + 1)) ≤ rank (b.state i))
    {i j : Nat} (hij : i ≤ j) (hi : P (b.state i)) :
    (∃ k, i ≤ k ∧ Q (b.state k)) ∨ P (b.state j) ∧ rank (b.state j) ≤ rank (b.state i) := by
  induction j, hij using Nat.le_induction with
  | base => exact .inr ⟨hi, le_refl _⟩
  | succ j hij ih =>
    rcases ih with hreached | ⟨hp, hrank⟩
    · exact .inl hreached
    · by_cases hq : Q (b.state j)
      · exact .inl ⟨j, hij, hq⟩
      · cases ha : b.act j with
        | none =>
          rw [state_of_stay ha]
          exact .inr ⟨hp, hrank⟩
        | some a =>
          rcases hstep j a ha hp hq with hq' | ⟨hp', hrank'⟩
          · exact .inl ⟨j + 1, Nat.le_succ_of_le hij, hq'⟩
          · exact .inr ⟨hp', le_trans hrank' hrank⟩

theorem reached_or_holds {P Q : σ → Prop}
    (hstep : ∀ i a, b.act i = some a → P (b.state i) → ¬ Q (b.state i) →
      Q (b.state (i + 1)) ∨ P (b.state (i + 1)))
    {i j : Nat} (hij : i ≤ j) (hi : P (b.state i)) :
    (∃ k, i ≤ k ∧ Q (b.state k)) ∨ P (b.state j) := by
  have hlasts := reached_or_lasts (fun _ => (0 : Nat))
    (fun k c hc hp hq => (hstep k c hc hp hq).imp_right fun h => ⟨h, Nat.le_refl 0⟩) hij hi
  exact hlasts.imp_right And.left

/-- **Rank rule.** While `P` holds and `Q` does not, some action of a weakly
fair class is possible, no step raises the rank and those of the class
lower it. -/
theorem leadsTo_of_rank {μ : Type} [Preorder μ] [WellFoundedLT μ] (rank : σ → μ)
    {A : α → Prop} (hfair : b.WeaklyFair A) {P Q : σ → Prop}
    (henabled : ∀ i, P (b.state i) → ¬ Q (b.state i) → Enabled step A (b.state i))
    (hstep : ∀ i a, b.act i = some a → P (b.state i) → ¬ Q (b.state i) →
      Q (b.state (i + 1)) ∨ P (b.state (i + 1)) ∧ rank (b.state (i + 1)) ≤ rank (b.state i))
    (hdecr : ∀ i a, b.act i = some a → A a → P (b.state i) → ¬ Q (b.state i) →
      Q (b.state (i + 1)) ∨ P (b.state (i + 1)) ∧ rank (b.state (i + 1)) < rank (b.state i)) :
    b.LeadsTo P Q := by
  -- induction on the rank: the next action of the class lowers it
  have hall : ∀ x : μ, ∀ i, rank (b.state i) = x → P (b.state i) →
      ∃ j, i ≤ j ∧ Q (b.state j) := by
    intro x
    induction x using WellFoundedLT.induction with
    | ind x ih =>
      intro i hx hi
      obtain ⟨j, hij, hnext⟩ := hfair i
      rcases reached_or_lasts rank hstep hij hi with hreached | ⟨hp, hrank⟩
      · exact hreached
      · by_cases hq : Q (b.state j)
        · exact ⟨j, hij, hq⟩
        · obtain ⟨a, ha, hclass⟩ := hnext.resolve_right fun h => h (henabled j hp hq)
          rcases hdecr j a ha hclass hp hq with hq' | ⟨hp', hlt⟩
          · exact ⟨j + 1, Nat.le_succ_of_le hij, hq'⟩
          · obtain ⟨k, hjk, hk⟩ := ih _ (hx ▸ lt_of_lt_of_le hlt hrank) (j + 1) rfl hp'
            exact ⟨k, by omega, hk⟩
  exact fun i hi => hall _ i rfl hi

/-- What lasts until a weakly fair class moves, and makes it possible, holds
when the class moves next. -/
theorem exists_takes {A : α → Prop} (hfair : b.WeaklyFair A) {P : σ → Prop}
    (henabled : ∀ i, P (b.state i) → Enabled step A (b.state i))
    (hlasts : ∀ i a, b.act i = some a → ¬ A a → P (b.state i) → P (b.state (i + 1)))
    {i : Nat} (hi : P (b.state i)) : ∃ j, i ≤ j ∧ P (b.state j) ∧ b.Takes A j := by
  have hstretch : ∀ j, i ≤ j → (∃ k, i ≤ k ∧ P (b.state k) ∧ b.Takes A k) ∨ P (b.state j) := by
    intro j hij
    induction j, hij using Nat.le_induction with
    | base => exact .inr hi
    | succ j hij ih =>
      rcases ih with hreached | hp
      · exact .inl hreached
      · cases ha : b.act j with
        | none => exact .inr (state_of_stay ha ▸ hp)
        | some a =>
          by_cases hclass : A a
          · exact .inl ⟨j, hij, hp, a, ha, hclass⟩
          · exact .inr (hlasts j a ha hclass hp)
  obtain ⟨j, hij, hnext⟩ := hfair i
  rcases hstretch j hij with hreached | hp
  · exact hreached
  · exact ⟨j, hij, hp, hnext.resolve_right fun h => h (henabled j hp)⟩

/-- **Recurrence rule.** `P` lasts until `Q` comes about, and an action that
is taken again and again brings `Q` about. -/
theorem leadsTo_of_recurs {A : α → Prop} (hrecurs : ∀ i, ∃ j, i ≤ j ∧ b.Takes A j)
    {P Q : σ → Prop}
    (hstep : ∀ i a, b.act i = some a → P (b.state i) → ¬ Q (b.state i) →
      Q (b.state (i + 1)) ∨ P (b.state (i + 1)))
    (hdone : ∀ i a, b.act i = some a → A a → P (b.state i) → Q (b.state (i + 1))) :
    b.LeadsTo P Q := by
  intro i hi
  obtain ⟨j, hij, a, ha, hclass⟩ := hrecurs i
  rcases reached_or_holds hstep hij hi with hreached | hp
  · exact hreached
  · exact ⟨j + 1, Nat.le_succ_of_le hij, hdone j a ha hclass hp⟩

/-! ## Parts of a system -/

variable {τ β : Type} {inner : τ → β → Option τ}

/-- A behaviour of a system, as one of a part whose state is `f s` and
whose actions are the ones `g` picks. -/
def project (b : Behaviour step) (f : σ → τ) (g : α → Option β)
    (h : ∀ s a s', step s a = some s' → Stutters inner (f s) (g a) (f s')) : Behaviour inner where
  state i := f (b.state i)
  act i := (b.act i).bind g
  steps i := by
    cases ha : b.act i with
    | none =>
      rw [state_of_stay ha]
      exact .stay
    | some a => exact h _ _ _ (step_of_act ha)

/-! ## Lassos -/

/-- A finite run into `I`, and actions that lead from `I` back into it. -/
structure Lasso (step : σ → α → Option σ) (s₀ : σ) (I : σ → Prop) (stem turn : List α) :
    Prop where
  enters : ∃ s, run step s₀ stem = some s ∧ I s
  returns : ∀ s, I s → ∃ s', run step s turn = some s' ∧ I s'
  turn_ne : turn ≠ []

/-- The stem and `n` turns. -/
def unroll (stem turn : List α) (n : Nat) : List α := stem ++ (List.replicate n turn).flatten

namespace Lasso

variable {s₀ : σ} {I : σ → Prop} {stem turn : List α}

theorem unroll_succ (stem turn : List α) (n : Nat) :
    unroll stem turn (n + 1) = unroll stem turn n ++ turn := by
  simp [unroll, List.replicate_succ', List.append_assoc]

theorem runs (h : Lasso step s₀ I stem turn) (n : Nat) :
    ∃ s, run step s₀ (unroll stem turn n) = some s ∧ I s := by
  induction n with
  | zero => simpa [unroll] using h.enters
  | succ n ih =>
    obtain ⟨s, hs, hI⟩ := ih
    obtain ⟨s', hs', hI'⟩ := h.returns s hI
    exact ⟨s', by rw [unroll_succ, run_append, hs]; exact hs', hI'⟩

theorem le_length (h : Lasso step s₀ I stem turn) (n : Nat) :
    n ≤ (unroll stem turn n).length := by
  induction n with
  | zero => exact Nat.zero_le _
  | succ n ih =>
    have hpos := List.length_pos_iff.mpr h.turn_ne
    rw [unroll_succ, List.length_append]
    omega

/-- What is unrolled stays as it is. -/
theorem unroll_mono (stem turn : List α) {i n : Nat} (hin : i ≤ n) :
    unroll stem turn i <+: unroll stem turn n := by
  induction n, hin using Nat.le_induction with
  | base => exact List.prefix_rfl
  | succ n _ ih =>
    rw [unroll_succ]
    exact ih.trans (List.prefix_append _ _)

theorem unroll_take (h : Lasso step s₀ I stem turn) {i n : Nat} (hin : i ≤ n) :
    (unroll stem turn n).take i = (unroll stem turn i).take i := by
  obtain ⟨rest, hrest⟩ := unroll_mono stem turn hin
  rw [← hrest, List.take_append_of_le_length (h.le_length i)]

theorem isSome (h : Lasso step s₀ I stem turn) (i : Nat) :
    (run step s₀ ((unroll stem turn i).take i)).isSome = true := by
  obtain ⟨s, hs, -⟩ := h.runs i
  rw [← List.take_append_drop i (unroll stem turn i), run_append] at hs
  cases hrun : run step s₀ ((unroll stem turn i).take i) with
  | none =>
    rw [hrun] at hs
    cases hs
  | some t => rfl

/-- A lasso is an infinite run. -/
def behaviour (h : Lasso step s₀ I stem turn) : Behaviour step where
  state i := (run step s₀ ((unroll stem turn i).take i)).get (h.isSome i)
  act i := (unroll stem turn (i + 1))[i]?
  steps i := by
    have hlt : i < (unroll stem turn (i + 1)).length := h.le_length (i + 1)
    rw [List.getElem?_eq_getElem hlt]
    refine .move ?_
    obtain ⟨s, hs⟩ := Option.isSome_iff_exists.mp (h.isSome i)
    obtain ⟨t, ht⟩ := Option.isSome_iff_exists.mp (h.isSome (i + 1))
    simp only [hs, ht, Option.get_some]
    rw [List.take_add_one, h.unroll_take (Nat.le_succ i), List.getElem?_eq_getElem hlt,
      run_append, hs] at ht
    simpa [run] using ht

theorem act_mem (h : Lasso step s₀ I stem turn) {i : Nat} {a : α}
    (ha : h.behaviour.act i = some a) : a ∈ stem ∨ a ∈ turn := by
  have hmem : a ∈ unroll stem turn (i + 1) := List.mem_of_getElem? ha
  simpa [unroll] using hmem

/-- The invariant holds again and again. -/
theorem recurs (h : Lasso step s₀ I stem turn) (i : Nat) :
    ∃ j, i ≤ j ∧ I (h.behaviour.state j) := by
  have hle := h.le_length i
  obtain ⟨rest, hrest⟩ := unroll_mono stem turn hle
  obtain ⟨s, hs, hI⟩ := h.runs i
  refine ⟨(unroll stem turn i).length, hle, ?_⟩
  have hstate : run step s₀ ((unroll stem turn (unroll stem turn i).length).take
      (unroll stem turn i).length) = some s := by
    rw [← hrest, List.take_left, hs]
  have hget : h.behaviour.state (unroll stem turn i).length = s :=
    Option.get_of_eq_some (h.isSome (unroll stem turn i).length) hstate
  exact hget ▸ hI

/-- Each action of the turn is taken again and again. -/
theorem takes (h : Lasso step s₀ I stem turn) {a : α} (ha : a ∈ turn) (i : Nat) :
    ∃ j, i ≤ j ∧ h.behaviour.act j = some a := by
  obtain ⟨k, hk⟩ := List.mem_iff_getElem?.mp ha
  have hle := h.le_length i
  refine ⟨(unroll stem turn i).length + k, by omega, ?_⟩
  -- the turn after `i` turns
  obtain ⟨rest, hrest⟩ := unroll_mono stem turn
    (show i + 1 ≤ (unroll stem turn i).length + k + 1 by omega)
  have hlt : k < turn.length := (List.getElem?_eq_some_iff.mp hk).1
  show (unroll stem turn ((unroll stem turn i).length + k + 1))[_]? = some a
  rw [← hrest, unroll_succ, List.append_assoc, List.getElem?_append_right (by omega),
    Nat.add_sub_cancel_left, List.getElem?_append_left hlt, hk]

end Lasso

end Behaviour

end Liveness

end YoruSpeech.Lib

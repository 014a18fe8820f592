/-
YoruSpeech.Lib.Transition — transition systems given by a partial step
function, with the proof rules every run-level result below uses.

A system is a function `step : σ → α → Option σ`; `none` means the action
is not enabled in that state. `run` executes a list of actions, `Reachable`
is the existence of such a list, and the rules are:

* `run_history` — a property of a whole run, proved by making the run one
  step longer;
* `trace` — what the steps of a run leave behind, in order;
* `Reachable.invariant` — a property that holds initially and is kept by
  every step holds in every reachable state;
* `Reachable.simulates` — a step-wise abstraction map carries reachable
  states to states the abstract step relation leads to, so an abstract
  invariant is a concrete one.

Nothing here names a component: the actions, the states and the step
function are parameters throughout.
-/

namespace YoruSpeech.Lib

section Runs

variable {σ α : Type} {step : σ → α → Option σ}

/-- Execute the actions in order; `none` as soon as one is not enabled. -/
def run (step : σ → α → Option σ) : σ → List α → Option σ
  | s, [] => some s
  | s, a :: rest => (step s a).bind (run step · rest)

/-- Some list of actions leads from `s₀` to `s`. -/
def Reachable (step : σ → α → Option σ) (s₀ s : σ) : Prop :=
  ∃ acts, run step s₀ acts = some s

@[simp] theorem run_nil (s : σ) : run step s [] = some s := rfl

/-- A run of `a :: rest` is one step followed by a run of `rest`. -/
theorem run_cons_eq_some {s s' : σ} {a : α} {rest : List α} :
    run step s (a :: rest) = some s' ↔
      ∃ t, step s a = some t ∧ run step t rest = some s' := by
  simp only [run, Option.bind_eq_some_iff]

/-- Runs compose. -/
theorem run_append (s : σ) (xs ys : List α) :
    run step s (xs ++ ys) = (run step s xs).bind (run step · ys) := by
  induction xs generalizing s with
  | nil => simp
  | cons x xs ih =>
    simp only [List.cons_append, run]
    cases step s x with
    | none => rfl
    | some t => simpa using ih t

/-- A run goes on by a step. -/
theorem run_snoc {s t u : σ} {acts : List α} {a : α} (hrun : run step s acts = some t)
    (hs : step t a = some u) : run step s (acts ++ [a]) = some u := by
  rw [run_append, hrun]
  simp [run, hs]

theorem Reachable.refl (s : σ) : Reachable step s s := ⟨[], rfl⟩

theorem Reachable.trans {s t u : σ} (h₁ : Reachable step s t)
    (h₂ : Reachable step t u) : Reachable step s u := by
  obtain ⟨xs, hx⟩ := h₁
  obtain ⟨ys, hy⟩ := h₂
  exact ⟨xs ++ ys, by rw [run_append, hx]; exact hy⟩

theorem Reachable.snoc {s t u : σ} {a : α} (h : Reachable step s t)
    (hs : step t a = some u) : Reachable step s u := by
  obtain ⟨acts, hrun⟩ := h
  exact ⟨acts ++ [a], run_snoc hrun hs⟩

/-- What holds of a run's first state and is kept by each of its steps holds
of its last state. -/
theorem run_invariant {P : σ → Prop}
    (hstep : ∀ s a s', P s → step s a = some s' → P s') :
    ∀ {acts : List α} {s s' : σ}, P s → run step s acts = some s' → P s'
  | [], s, s', hs, hrun => by
      simp only [run_nil, Option.some.injEq] at hrun
      exact hrun ▸ hs
  | a :: rest, s, s', hs, hrun => by
      obtain ⟨t, ht, hrest⟩ := run_cons_eq_some.mp hrun
      exact run_invariant hstep (hstep s a t hs ht) hrest

/-- Every step of the run from `s` satisfies `P` at the state it is taken
in. -/
def Along (step : σ → α → Option σ) (P : σ → α → Prop) : σ → List α → Prop
  | _, [] => True
  | s, a :: rest => P s a ∧
      match step s a with
      | none => True
      | some t => Along step P t rest

instance Along.decidable {P : σ → α → Prop} [∀ s a, Decidable (P s a)] :
    ∀ s acts, Decidable (Along step P s acts)
  | _, [] => isTrue trivial
  | s, a :: rest =>
    haveI : Decidable (match step s a with
        | none => True
        | some t => Along step P t rest) :=
      match step s a with
      | none => isTrue trivial
      | some t => Along.decidable t rest
    inferInstanceAs (Decidable (P s a ∧ _))

theorem Along.and {P Q : σ → α → Prop} : ∀ {acts : List α} {s : σ}, Along step P s acts →
    Along step Q s acts → Along step (fun s a => P s a ∧ Q s a) s acts
  | [], _, _, _ => trivial
  | a :: rest, s, hp, hq => by
      obtain ⟨hpa, hp⟩ := hp
      obtain ⟨hqa, hq⟩ := hq
      refine ⟨⟨hpa, hqa⟩, ?_⟩
      cases hs : step s a with
      | none => trivial
      | some t =>
        rw [hs] at hp hq
        exact Along.and hp hq

/-- What holds of each action wherever it is taken. -/
theorem Along.of_forall {P : σ → α → Prop} : ∀ {acts : List α} {s : σ},
    (∀ a ∈ acts, ∀ s, P s a) → Along step P s acts
  | [], _, _ => trivial
  | a :: rest, s, h => by
      refine ⟨h a List.mem_cons_self s, ?_⟩
      split
      · trivial
      · exact of_forall fun b hb => h b (List.mem_cons_of_mem a hb)

/-- A run with one more step. -/
theorem Along.snoc {P : σ → α → Prop} : ∀ {acts : List α} {s t : σ} {a : α},
    Along step P s acts → run step s acts = some t → P t a → Along step P s (acts ++ [a])
  | [], s, t, a, _, hrun, ha => by
      cases hrun
      refine ⟨ha, ?_⟩
      cases step s a with
      | none => trivial
      | some u => trivial
  | b :: rest, s, t, a, halong, hrun, ha => by
      obtain ⟨u, hu, hrest⟩ := run_cons_eq_some.mp hrun
      obtain ⟨hb, hnext⟩ := halong
      rw [hu] at hnext
      refine ⟨hb, ?_⟩
      rw [hu]
      exact Along.snoc hnext hrest ha

/-- A run without its last step. -/
theorem Along.of_snoc {P : σ → α → Prop} : ∀ {acts : List α} {s t : σ} {a : α},
    Along step P s (acts ++ [a]) → run step s acts = some t → Along step P s acts ∧ P t a
  | [], s, t, a, halong, hrun => by
      cases hrun
      exact ⟨trivial, halong.1⟩
  | b :: rest, s, t, a, halong, hrun => by
      obtain ⟨u, hu, hrest⟩ := run_cons_eq_some.mp hrun
      obtain ⟨hb, hnext⟩ := halong
      rw [hu] at hnext
      obtain ⟨hinit, ha⟩ := Along.of_snoc hnext hrest
      refine ⟨⟨hb, ?_⟩, ha⟩
      rw [hu]
      exact hinit

/-- What each step of a run keeps when it satisfies `P`. -/
theorem run_along {P : σ → α → Prop} {Q : σ → Prop}
    (hstep : ∀ s a s', Q s → P s a → step s a = some s' → Q s') :
    ∀ {acts : List α} {s s' : σ}, Q s → Along step P s acts → run step s acts = some s' → Q s'
  | [], s, s', hs, _, hrun => by
      simp only [run_nil, Option.some.injEq] at hrun
      exact hrun ▸ hs
  | a :: rest, s, s', hs, halong, hrun => by
      obtain ⟨t, ht, hrest⟩ := run_cons_eq_some.mp hrun
      obtain ⟨ha, hnext⟩ := halong
      rw [ht] at hnext
      exact run_along hstep (hstep s a t hs ha ht) hnext hrest

/-- **History rule.** A property of a run and the state it leads to: it
holds of the empty run and is kept when a run is one step longer. -/
theorem run_history {P : List α → σ → Prop} {s₀ : σ} (hinit : P [] s₀)
    (hstep : ∀ acts s a s', run step s₀ acts = some s → P acts s → step s a = some s' →
      P (acts ++ [a]) s') :
    ∀ {acts : List α} {s : σ}, run step s₀ acts = some s → P acts s := by
  -- a run that has come as far as `acts` goes on with `rest`
  have hrest : ∀ (rest acts : List α) (s s' : σ), run step s₀ acts = some s → P acts s →
      run step s rest = some s' → P (acts ++ rest) s' := by
    intro rest
    induction rest with
    | nil =>
      intro acts s s' _ hs hend
      cases hend
      rwa [List.append_nil]
    | cons a rest ih =>
      intro acts s s' hrun hs hend
      obtain ⟨t, ht, hmore⟩ := run_cons_eq_some.mp hend
      have hlast := ih (acts ++ [a]) t s' (run_snoc hrun ht) (hstep acts s a t hrun hs ht) hmore
      rwa [List.append_assoc, List.singleton_append] at hlast
  intro acts s hrun
  exact hrest acts [] s₀ s rfl hinit hrun

/-- What the steps of the run from `s` leave behind, in order, when one from
`t` to `u` leaves `f t u`. -/
def trace {β : Type} (step : σ → α → Option σ) (f : σ → σ → List β) : σ → List α → List β
  | _, [] => []
  | s, a :: rest =>
    match step s a with
    | none => []
    | some t => f s t ++ trace step f t rest

theorem trace_append {β : Type} {f : σ → σ → List β} {xs : List α} {s t : σ}
    (hrun : run step s xs = some t) (ys : List α) :
    trace step f s (xs ++ ys) = trace step f s xs ++ trace step f t ys := by
  induction xs generalizing s with
  | nil =>
    cases hrun
    rfl
  | cons a rest ih =>
    obtain ⟨u, hu, hrest⟩ := run_cons_eq_some.mp hrun
    simp only [List.cons_append, trace, hu, ih hrest, List.append_assoc]

theorem trace_cons {β : Type} {f : σ → σ → List β} {s t : σ} {a : α} (hs : step s a = some t)
    (rest : List α) : trace step f s (a :: rest) = f s t ++ trace step f t rest := by
  simp only [trace, hs]

theorem trace_snoc {β : Type} {f : σ → σ → List β} {acts : List α} {s t u : σ} {a : α}
    (hrun : run step s acts = some t) (hs : step t a = some u) :
    trace step f s (acts ++ [a]) = trace step f s acts ++ f t u := by
  rw [trace_append hrun, trace_cons hs, trace, List.append_nil]

/-- **Invariant rule.** The step obligation may use that the state it starts
from is itself reachable, so invariants proved earlier are at hand. -/
theorem Reachable.invariant {P : σ → Prop} {s₀ s : σ} (h : Reachable step s₀ s)
    (hinit : P s₀)
    (hstep : ∀ t a t', Reachable step s₀ t → P t → step t a = some t' → P t') : P s := by
  obtain ⟨acts, hrun⟩ := h
  have hboth : Reachable step s₀ s ∧ P s :=
    run_invariant (P := fun t => Reachable step s₀ t ∧ P t)
      (fun t a t' ⟨hr, hp⟩ hs => ⟨hr.snoc hs, hstep t a t' hr hp hs⟩)
      ⟨Reachable.refl s₀, hinit⟩ hrun
  exact hboth.2

end Runs

section Relations

variable {τ : Type}

/-- Reflexive-transitive closure of an abstract step relation. -/
inductive Steps (R : τ → τ → Prop) : τ → τ → Prop
  | refl (t : τ) : Steps R t t
  | tail {t u v : τ} : Steps R t u → R u v → Steps R t v

theorem Steps.invariant {R : τ → τ → Prop} {P : τ → Prop} {t u : τ} (h : Steps R t u)
    (hinit : P t) (hstep : ∀ x y, P x → R x y → P y) : P u := by
  induction h with
  | refl => exact hinit
  | tail _ hR ih => exact hstep _ _ ih hR

theorem Steps.trans {R : τ → τ → Prop} {t u v : τ} (h₁ : Steps R t u) (h₂ : Steps R u v) :
    Steps R t v := by
  induction h₂ with
  | refl => exact h₁
  | tail _ hR ih => exact ih.tail hR

theorem Steps.single {R : τ → τ → Prop} {t u : τ} (h : R t u) : Steps R t u :=
  (Steps.refl t).tail h

/-- **Simulation rule.** If every concrete step is matched by abstract steps
(none, one or several) between the abstractions, the abstraction of a
reachable state is abstractly reachable. The step obligation may use that
the state it starts from is reachable, concretely and abstractly. -/
theorem Reachable.simulates {σ α : Type} {step : σ → α → Option σ}
    {R : τ → τ → Prop} (abs : σ → τ) {s₀ s : σ} (h : Reachable step s₀ s)
    (hsim : ∀ t a t', Reachable step s₀ t → Steps R (abs s₀) (abs t) →
      step t a = some t' → Steps R (abs t) (abs t')) :
    Steps R (abs s₀) (abs s) := by
  refine h.invariant (P := fun t => Steps R (abs s₀) (abs t)) (Steps.refl _) ?_
  intro t a t' hr hsteps hs
  exact hsteps.trans (hsim t a t' hr hsteps hs)

end Relations

end YoruSpeech.Lib

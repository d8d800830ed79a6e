import Mathlib.Data.List.Induction
import Mathlib.Data.List.Infix

/-!
# Machines and their runs

A machine has an initial state and a partial step: `step s a = none` when the
action `a` is not possible in `s`.  A run is a list of actions.  Three notions
are used to speak about runs: the state a list of actions leads to (`exec`), the
states a run visits (`Visits`) and the steps it takes (`Takes`).

There is one induction, `exec_induction`.  The rules below package it:
`reachable_invariant` for what holds in every reachable state, and
`visits_of_guarded` for what holds along the runs whose steps all meet a
condition on the state before the step.  `exists_exec_of_variant` is for what some
run comes to.  A machine that `Simulates` another takes its reachable states to
reachable states.
-/

namespace BbMonitor

structure Machine (σ α : Type*) where
  init : σ
  step : σ → α → Option σ

namespace Machine

variable {σ α : Type*} (M : Machine σ α)

/-- The state after a list of actions, if all of them are possible. -/
def exec : σ → List α → Option σ
  | s, [] => some s
  | s, a :: rest => (M.step s a).bind fun t => exec t rest

/-- The state is the result of some run. -/
def Reachable (s : σ) : Prop :=
  ∃ actions, M.exec M.init actions = some s

/-- The run passes through the state `s`. -/
def Visits (actions : List α) (s : σ) : Prop :=
  ∃ done, done <+: actions ∧ M.exec M.init done = some s

/-- The run takes the step from `s` to `t` by the action `a`. -/
def Takes (actions : List α) (s : σ) (a : α) (t : σ) : Prop :=
  ∃ done, done ++ [a] <+: actions ∧ M.exec M.init done = some s ∧ M.step s a = some t

variable {M}

@[simp] theorem exec_nil (s : σ) : M.exec s [] = some s := rfl

theorem exec_cons {s t u : σ} {a : α} {rest : List α} (hstep : M.step s a = some u)
    (hexec : M.exec u rest = some t) : M.exec s (a :: rest) = some t := by
  rw [exec, hstep, Option.bind_some, hexec]

theorem exec_concat (s : σ) (actions : List α) (a : α) :
    M.exec s (actions ++ [a]) = (M.exec s actions).bind fun t => M.step t a := by
  induction actions generalizing s with
  | nil => simp [exec]
  | cons b rest ih =>
      simp only [List.cons_append, exec]
      cases M.step s b with
      | none => rfl
      | some t => exact ih t

theorem exec_concat_eq_some {s t : σ} {actions : List α} {a : α} :
    M.exec s (actions ++ [a]) = some t ↔
      ∃ u, M.exec s actions = some u ∧ M.step u a = some t := by
  rw [exec_concat, Option.bind_eq_some_iff]

theorem exec_append {s t : σ} {first rest : List α} (hfirst : M.exec s first = some t) :
    M.exec s (first ++ rest) = M.exec t rest := by
  induction first generalizing s with
  | nil =>
      cases hfirst
      rfl
  | cons a first ih =>
      obtain ⟨u, hu, hexec⟩ := Option.bind_eq_some_iff.mp hfirst
      simp only [List.cons_append, exec, hu, Option.bind_some]
      exact ih hexec

theorem Takes.visits_before {actions : List α} {s t : σ} {a : α}
    (htakes : M.Takes actions s a t) : M.Visits actions s := by
  obtain ⟨done, hprefix, hexec, -⟩ := htakes
  exact ⟨done, (List.prefix_append _ _).trans hprefix, hexec⟩

theorem Takes.visits_after {actions : List α} {s t : σ} {a : α}
    (htakes : M.Takes actions s a t) : M.Visits actions t := by
  obtain ⟨done, hprefix, hexec, hstep⟩ := htakes
  exact ⟨done ++ [a], hprefix, exec_concat_eq_some.mpr ⟨s, hexec, hstep⟩⟩

theorem Visits.reachable {actions : List α} {s : σ} (hvisits : M.Visits actions s) :
    M.Reachable s := by
  obtain ⟨done, -, hexec⟩ := hvisits
  exact ⟨done, hexec⟩

theorem Takes.mem_actions {actions : List α} {s t : σ} {a : α}
    (htakes : M.Takes actions s a t) : a ∈ actions := by
  obtain ⟨done, hdone, -⟩ := htakes
  exact hdone.subset (List.mem_append_right _ (List.mem_singleton_self _))

theorem visits_of_exec {actions : List α} {s : σ} (hexec : M.exec M.init actions = some s) :
    M.Visits actions s :=
  ⟨actions, List.prefix_rfl, hexec⟩

/-- Induction along a run, from the initial state forward. -/
theorem exec_induction {P : List α → σ → Prop} (hinit : P [] M.init)
    (hstep : ∀ done s a t, M.exec M.init done = some s → P done s → M.step s a = some t →
      P (done ++ [a]) t)
    {actions : List α} {s : σ} (hexec : M.exec M.init actions = some s) : P actions s := by
  induction actions using List.reverseRecOn generalizing s with
  | nil =>
      cases hexec
      exact hinit
  | append_singleton done a ih =>
      obtain ⟨u, hu, hs⟩ := exec_concat_eq_some.mp hexec
      exact hstep done u a s hu (ih hu) hs

/-- What holds initially and is kept by every step holds in every reachable
state. -/
theorem reachable_invariant {P : σ → Prop} (hinit : P M.init)
    (hstep : ∀ s a t, P s → M.step s a = some t → P t) {s : σ} (hreach : M.Reachable s) :
    P s := by
  obtain ⟨actions, hexec⟩ := hreach
  exact exec_induction (P := fun _ s => P s) hinit (fun _ s a t _ hs => hstep s a t hs) hexec

theorem Reachable.step {s t : σ} {a : α} (hreach : M.Reachable s) (hstep : M.step s a = some t) :
    M.Reachable t := by
  obtain ⟨actions, hexec⟩ := hreach
  exact ⟨actions ++ [a], exec_concat_eq_some.mpr ⟨s, hexec, hstep⟩⟩

theorem Reachable.exec {s t : σ} {actions : List α} (hreach : M.Reachable s)
    (hexec : M.exec s actions = some t) : M.Reachable t := by
  obtain ⟨done, hdone⟩ := hreach
  exact ⟨done ++ actions, (exec_append hdone).trans hexec⟩

/-- The same, where the steps from reachable states are enough. -/
theorem reachable_induction {P : σ → Prop} (hinit : P M.init)
    (hstep : ∀ s a t, M.Reachable s → P s → M.step s a = some t → P t) {s : σ}
    (hreach : M.Reachable s) : P s := by
  have hboth : M.Reachable s ∧ P s := by
    apply reachable_invariant (P := fun s => M.Reachable s ∧ P s) ⟨⟨[], rfl⟩, hinit⟩ ?_ hreach
    intro s a t ⟨hs, hP⟩ ht
    exact ⟨hs.step ht, hstep s a t hs hP ht⟩
  exact hboth.2

/-- What holds initially and is kept by every step that meets `G` holds
wherever a run comes that takes only such steps. -/
theorem visits_of_guarded {P : σ → Prop} {G : σ → α → Prop} {actions : List α}
    (hinit : P M.init)
    (hstep : ∀ s a t, M.Reachable s → P s → G s a → M.step s a = some t → P t)
    (hgood : ∀ s a t, M.Takes actions s a t → G s a) {s : σ}
    (hvisits : M.Visits actions s) : P s := by
  obtain ⟨done, hprefix, hexec⟩ := hvisits
  refine exec_induction (P := fun done s => done <+: actions → P s) (fun _ => hinit) ?_
    hexec hprefix
  intro done s a t hs ih ht hprefix
  have hbefore : P s := ih ((List.prefix_append _ _).trans hprefix)
  exact hstep s a t ⟨done, hs⟩ hbefore (hgood s a t ⟨done, hprefix, hs, ht⟩) ht

/-- If from every state of `I` that is not in `D` some step that meets `A` stays
in `I` and lowers the variant, then a run of such steps leads to `D`. -/
theorem exists_exec_of_variant {I D : σ → Prop} {A : α → Prop} (variant : σ → ℕ)
    (hstep : ∀ s, I s → ¬ D s → ∃ a t, A a ∧ M.step s a = some t ∧ I t ∧ variant t < variant s)
    {s : σ} (hI : I s) :
    ∃ actions t, (∀ a ∈ actions, A a) ∧ M.exec s actions = some t ∧ I t ∧ D t := by
  induction hn : variant s using Nat.strong_induction_on generalizing s with
  | _ n ih =>
      by_cases hD : D s
      · exact ⟨[], s, List.forall_mem_nil A, rfl, hI, hD⟩
      · obtain ⟨a, u, ha, hu, hIu, hlt⟩ := hstep s hI hD
        obtain ⟨actions, t, hactions, hexec, hIt, hDt⟩ := ih (variant u) (hn ▸ hlt) hIu rfl
        refine ⟨a :: actions, t, ?_, exec_cons hu hexec, hIt, hDt⟩
        intro b hmem
        rcases List.mem_cons.mp hmem with rfl | hmem
        · exact ha
        · exact hactions b hmem

/-- The same for rounds of several steps. -/
theorem exists_exec_of_rounds {I D : σ → Prop} {A : α → Prop} (variant : σ → ℕ)
    (hround : ∀ s, I s → ¬ D s → ∃ actions t, (∀ a ∈ actions, A a) ∧
      M.exec s actions = some t ∧ I t ∧ variant t < variant s)
    {s : σ} (hI : I s) :
    ∃ actions t, (∀ a ∈ actions, A a) ∧ M.exec s actions = some t ∧ I t ∧ D t := by
  induction hn : variant s using Nat.strong_induction_on generalizing s with
  | _ n ih =>
      by_cases hD : D s
      · exact ⟨[], s, List.forall_mem_nil A, rfl, hI, hD⟩
      · obtain ⟨first, u, hfirst, hu, hIu, hlt⟩ := hround s hI hD
        obtain ⟨rest, t, hrest, hexec, hIt, hDt⟩ := ih (variant u) (hn ▸ hlt) hIu rfl
        refine ⟨first ++ rest, t, List.forall_mem_append.mpr ⟨hfirst, hrest⟩, ?_, hIt, hDt⟩
        rw [exec_append hu, hexec]

/-! ## Simulations -/

section Simulations

variable {τ β : Type*} {N : Machine τ β} {R : σ → τ → Prop}

/-- Related states are kept related by each step of `M`, with one step of `N` or none. -/
structure Simulates (M : Machine σ α) (N : Machine τ β) (R : σ → τ → Prop) : Prop where
  init : R M.init N.init
  step : ∀ s a t u, M.Reachable s → N.Reachable u → R s u → M.step s a = some t →
    R t u ∨ ∃ b v, N.step u b = some v ∧ R t v

theorem Simulates.reachable (hsim : Simulates M N R) {s : σ} (hreach : M.Reachable s) :
    ∃ u, N.Reachable u ∧ R s u := by
  apply reachable_induction (P := fun s => ∃ u, N.Reachable u ∧ R s u)
    ⟨N.init, ⟨[], rfl⟩, hsim.init⟩ ?_ hreach
  intro s a t hs ⟨u, hu, hR⟩ ht
  rcases hsim.step s a t u hs hu hR ht with hstutter | ⟨b, v, hv, hRv⟩
  · exact ⟨u, hu, hstutter⟩
  · exact ⟨v, hu.step hv, hRv⟩

/-- A part of the state that makes steps of its own. -/
theorem Simulates.reachable_part {f : σ → τ}
    (hsim : Simulates M N fun s u => f s = u) {s : σ} (hreach : M.Reachable s) :
    N.Reachable (f s) := by
  obtain ⟨u, hu, rfl⟩ := hsim.reachable hreach
  exact hu

end Simulations

end Machine

end BbMonitor

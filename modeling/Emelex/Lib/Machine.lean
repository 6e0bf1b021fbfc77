import Mathlib.Logic.Basic
import Mathlib.Data.List.Basic

/-!
# Machines that take one action at a time

A machine is a partial function `step : σ → α → Option σ`: the state after an action, `none` when
the action is not enabled.  The parties of a concurrent system share the state, so an interleaving
is a list of actions.

* `run` — the state after a list of actions.
* `Run step ok s as t` — the actions `as` lead from `s` to `t`, and every step satisfies the
  condition `ok` on the state it starts in and its action.
* `Run.invariant` — what every such step keeps holds at the end of every such run.
* `Run.length_le`, `Run.exists_last` — runs whose steps lower a measure come to an end.

Principal results: `Run.invariant`, `Run.length_le`, `run_eq_some_iff`.
-/

set_option autoImplicit false

namespace Machine

variable {σ α : Type} {step : σ → α → Option σ} {ok ok' : σ → α → Prop}

/-- The state after a list of actions; `none` if one of them is not enabled. -/
def run (step : σ → α → Option σ) : σ → List α → Option σ
  | s, [] => some s
  | s, a :: as => (step s a).bind fun t => run step t as

/-- A run whose steps all satisfy `ok`. -/
inductive Run (step : σ → α → Option σ) (ok : σ → α → Prop) : σ → List α → σ → Prop
  | nil (s : σ) : Run step ok s [] s
  | cons {s t u : σ} {a : α} {as : List α} : ok s a → step s a = some t → Run step ok t as u →
      Run step ok s (a :: as) u

/-- The condition that every step meets. -/
def anyStep (_ : σ) (_ : α) : Prop := True

theorem run_eq_some_iff {s t : σ} {as : List α} :
    run step s as = some t ↔ Run step anyStep s as t := by
  constructor
  · intro h
    induction as generalizing s with
    | nil =>
      cases h
      exact .nil _
    | cons a as ih =>
      obtain ⟨u, hu, hrest⟩ := Option.bind_eq_some_iff.1 h
      exact .cons trivial hu (ih hrest)
  · intro h
    induction h with
    | nil => rfl
    | cons _ hs _ ih => simpa [run, hs] using ih

namespace Run

theorem single {s t : σ} {a : α} (hok : ok s a) (hs : step s a = some t) :
    Run step ok s [a] t :=
  .cons hok hs (.nil t)

theorem append {s t u : σ} {as bs : List α} (h : Run step ok s as t) (h' : Run step ok t bs u) :
    Run step ok s (as ++ bs) u := by
  induction h with
  | nil => exact h'
  | cons hok hs _ ih => exact .cons hok hs (ih h')

theorem snoc {s t u : σ} {a : α} {as : List α} (h : Run step ok s as t) (hok : ok t a)
    (hs : step t a = some u) : Run step ok s (as ++ [a]) u :=
  h.append (single hok hs)

/-- A weaker condition on the steps is met by the same run. -/
theorem mono (himp : ∀ s a, ok s a → ok' s a) {s t : σ} {as : List α}
    (h : Run step ok s as t) : Run step ok' s as t := by
  induction h with
  | nil => exact .nil _
  | cons hok hs _ ih => exact .cons (himp _ _ hok) hs ih

/-- A list of actions that satisfy the condition in every state. -/
theorem of_run {s t : σ} {as : List α} (h : run step s as = some t)
    (hok : ∀ a ∈ as, ∀ s, ok s a) : Run step ok s as t := by
  induction as generalizing s with
  | nil =>
    cases h
    exact .nil _
  | cons a as ih =>
    obtain ⟨u, hu, hrest⟩ := Option.bind_eq_some_iff.1 h
    exact .cons (hok a List.mem_cons_self s) hu
      (ih hrest fun b hb => hok b (List.mem_cons_of_mem _ hb))

/-- **The invariant rule.**  What every step keeps, every run keeps. -/
theorem invariant {I : σ → Prop} (hstep : ∀ s a t, I s → ok s a → step s a = some t → I t)
    {s t : σ} {as : List α} (h : Run step ok s as t) (hI : I s) : I t := by
  induction h with
  | nil => exact hI
  | cons hok hs _ ih => exact ih (hstep _ _ _ hI hok hs)

/-- The invariant rule with a second invariant already known of every state of the run, and a
condition on the actions taken. -/
theorem invariant_of {I J : σ → Prop} {P : α → Prop}
    (hJ : ∀ s a t, J s → ok s a → step s a = some t → J t)
    (hI : ∀ s a t, J s → I s → ok s a → P a → step s a = some t → I t)
    {s t : σ} {as : List α} (h : Run step ok s as t) (hP : ∀ a ∈ as, P a)
    (hJs : J s) (hIs : I s) : I t := by
  induction h with
  | nil => exact hIs
  | cons hok hs _ ih =>
    exact ih (fun a ha => hP a (List.mem_cons_of_mem _ ha)) (hJ _ _ _ hJs hok hs)
      (hI _ _ _ hJs hIs hok (hP _ List.mem_cons_self) hs)

/-- **The measure rule.**  When every step lowers a measure, a run has no more steps than it. -/
theorem length_le {I : σ → Prop} {measure : σ → Nat}
    (hstep : ∀ s a t, I s → ok s a → step s a = some t → I t ∧ measure t < measure s)
    {s t : σ} {as : List α} (h : Run step ok s as t) (hI : I s) :
    as.length + measure t ≤ measure s := by
  induction h with
  | nil => exact Nat.le_of_eq (Nat.zero_add _)
  | cons hok hs _ ih =>
    obtain ⟨hI', hless⟩ := hstep _ _ _ hI hok hs
    have hrest := ih hI'
    rw [List.length_cons]
    omega

/-- A run of such steps can be taken until no step is left. -/
theorem exists_last {I : σ → Prop} {measure : σ → Nat}
    (hstep : ∀ s a t, I s → ok s a → step s a = some t → I t ∧ measure t < measure s)
    (s : σ) (hI : I s) :
    ∃ as t, Run step ok s as t ∧ I t ∧ ∀ a, ok t a → step t a = none := by
  induction hn : measure s using Nat.strongRecOn generalizing s with
  | ind n ih =>
    subst hn
    by_cases hlast : ∀ a, ok s a → step s a = none
    · exact ⟨[], s, .nil s, hI, hlast⟩
    · push Not at hlast
      obtain ⟨a, hok, hne⟩ := hlast
      obtain ⟨t, hs⟩ := Option.ne_none_iff_exists'.1 hne
      obtain ⟨hI', hless⟩ := hstep _ _ _ hI hok hs
      obtain ⟨as, u, hrun, hu⟩ := ih _ hless t hI' rfl
      exact ⟨a :: as, u, .cons hok hs hrun, hu⟩

end Run

end Machine

import Mathlib.Data.List.Basic

/-!
# Runs of a step function

A run applies a step function to one event after the other. `AllSteps ok step s events` says that every
event meets the condition `ok` in the state it finds. A predicate that such steps preserve holds in every
state of the run (`invariant_of_allSteps`). A step that can fail returns an `Except`; `bind_eq_ok` takes
a successful sequence of such steps apart.
-/

namespace Lib.Run

variable {σ α : Type*}

def run (step : σ → α → σ) (s : σ) (events : List α) : σ := events.foldl step s

def AllSteps (ok : σ → α → Prop) (step : σ → α → σ) : σ → List α → Prop
  | _, [] => True
  | s, e :: events => ok s e ∧ AllSteps ok step (step s e) events

theorem allSteps_append {ok : σ → α → Prop} {step : σ → α → σ} {s : σ} {xs ys : List α} :
    AllSteps ok step s (xs ++ ys) ↔ AllSteps ok step s xs ∧ AllSteps ok step (run step s xs) ys := by
  induction xs generalizing s with
  | nil => simp [AllSteps, run]
  | cons x xs ih => simp [AllSteps, run, ih, and_assoc]

/-- The invariant rule, for every state of the run. -/
theorem invariant_of_allSteps {ok : σ → α → Prop} {step : σ → α → σ} {inv : σ → Prop}
    (hstep : ∀ s e, inv s → ok s e → inv (step s e)) {s : σ} (hs : inv s) {events : List α}
    (hok : AllSteps ok step s events) : ∀ pre, pre <+: events → inv (run step s pre) := by
  rintro pre ⟨rest, rfl⟩
  obtain ⟨hpre, -⟩ := allSteps_append.1 hok
  clear hok
  induction pre generalizing s with
  | nil => exact hs
  | cons e pre ih => exact ih (hstep s e hs hpre.1) hpre.2

/-! ### Steps that can fail -/

section Fallible
universe u v
variable {ε : Type u} {α β : Type v}

theorem bind_eq_ok {x : Except ε α} {f : α → Except ε β} {b : β} :
    x >>= f = .ok b ↔ ∃ a, x = .ok a ∧ f a = .ok b := by
  cases x with
  | error e => simp [bind, Except.bind]
  | ok a => simp [bind, Except.bind]

/-- Every event meets the condition in the state it finds, if it finds one. -/
def AllStepsM (ok : β → α → Prop) (step : β → α → Except ε β) : β → List α → Prop
  | _, [] => True
  | s, e :: events => ok s e ∧ ∀ s', step s e = .ok s' → AllStepsM ok step s' events

/-- The invariant rule for steps that can fail: they do not, and every state of the run has the
invariant. -/
theorem invariant_of_allStepsM {ok : β → α → Prop} {step : β → α → Except ε β} {inv : β → Prop}
    (hstep : ∀ s e, inv s → ok s e → ∃ s', step s e = .ok s' ∧ inv s') {s : β} (hs : inv s) {events : List α}
    (hok : AllStepsM ok step s events) : ∀ pre, pre <+: events → ∃ s', pre.foldlM step s = .ok s' ∧ inv s' := by
  intro pre hpre
  induction pre generalizing s events with
  | nil => exact ⟨s, rfl, hs⟩
  | cons e pre ih =>
    obtain ⟨rest, rfl⟩ := hpre
    obtain ⟨s₁, h1, hs₁⟩ := hstep s e hs hok.1
    obtain ⟨s', h2, hs'⟩ := ih hs₁ (hok.2 s₁ h1) (List.prefix_append pre rest)
    refine ⟨s', ?_, hs'⟩
    rw [List.foldlM_cons, h1]
    exact h2

end Fallible

end Lib.Run

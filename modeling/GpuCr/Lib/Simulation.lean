import GpuCr.Lib.Run

/-!
# Forward simulation

A step relation gives every step a label, and a `Trace` is the list of the labels of a run. `Simulates R`
says that whatever a related concrete state does, the abstract one does too, up to the labels that are
hidden from it. Simulations lift to traces (`Simulates.trace`).

The concrete side is often a step function that can fail, under a condition on the events. `labels` are
then the labels of its run, and `Simulates.run` says both that the run does not fail and that it is
simulated.
-/

namespace Lib.Simulation

open Lib.Run

variable {σ τ υ ℓ ℓ' : Type*}

inductive Trace (step : σ → ℓ → σ → Prop) : σ → List ℓ → σ → Prop
  | nil (s : σ) : Trace step s [] s
  | cons {s t u : σ} {l : ℓ} {ls : List ℓ} (h : step s l t) (rest : Trace step t ls u) : Trace step s (l :: ls) u

theorem Trace.single {step : σ → ℓ → σ → Prop} {s t : σ} {l : ℓ} (h : step s l t) : Trace step s [l] t :=
  .cons h (.nil t)

theorem Trace.append {step : σ → ℓ → σ → Prop} {s t u : σ} {ls ls' : List ℓ} (h : Trace step s ls t)
    (h' : Trace step t ls' u) : Trace step s (ls ++ ls') u := by
  induction h with
  | nil => exact h'
  | cons hstep _ ih => exact .cons hstep (ih h')

/-- A step whose label is hidden is matched by no step at all. -/
def Simulates (R : σ → τ → Prop) (step : σ → ℓ → σ → Prop) (hide : ℓ → Option ℓ') (step' : τ → ℓ' → τ → Prop) :
    Prop :=
  ∀ s a l s', R s a → step s l s' → ∃ a', R s' a' ∧ Trace step' a (hide l).toList a'

section Simulates
variable {R : σ → τ → Prop} {step : σ → ℓ → σ → Prop} {step' : τ → ℓ' → τ → Prop} {hide : ℓ → Option ℓ'}

theorem Simulates.trace (h : Simulates R step hide step') {s s' : σ} {a : τ} {ls : List ℓ} (hs : R s a)
    (ht : Trace step s ls s') : ∃ a', R s' a' ∧ Trace step' a (ls.filterMap hide) a' := by
  induction ht generalizing a with
  | nil s => exact ⟨a, hs, .nil a⟩
  | @cons s t u l ls hstep _ ih =>
    obtain ⟨a₁, hs₁, hfirst⟩ := h s a l t hs hstep
    obtain ⟨a', hs', hrest⟩ := ih hs₁
    refine ⟨a', hs', ?_⟩
    have hsplit : (l :: ls).filterMap hide = (hide l).toList ++ ls.filterMap hide := by
      rw [List.filterMap_cons]
      cases hide l <;> rfl
    rw [hsplit]
    exact hfirst.append hrest

end Simulates

/-! ### Step functions that can fail -/

section Fallible
universe u v
variable {ε : Type u} {α β : Type v}

/-- The steps of the events that meet the condition. -/
def okStep (ok : β → α → Prop) (step : β → α → Except ε β) (label : β → α → ℓ) (s : β) (l : ℓ) (s' : β) : Prop :=
  ∃ e, ok s e ∧ step s e = .ok s' ∧ l = label s e

/-- The labels of a run, as far as it gets. -/
def labels (step : β → α → Except ε β) (label : β → α → ℓ) : β → List α → List ℓ
  | _, [] => []
  | s, e :: events =>
    label s e :: match step s e with
      | .error _ => []
      | .ok s' => labels step label s' events

theorem labels_cons {step : β → α → Except ε β} {label : β → α → ℓ} {s s' : β} {e : α} (h : step s e = .ok s')
    (events : List α) : labels step label s (e :: events) = label s e :: labels step label s' events := by
  rw [labels, h]

variable {ok : β → α → Prop} {step : β → α → Except ε β} {label : β → α → ℓ} {R : β → τ → Prop}
  {step' : τ → ℓ' → τ → Prop} {hide : ℓ → Option ℓ'}

/-- A run whose events meet the condition gets through, and is simulated. -/
theorem Simulates.run (h : Simulates R (okStep ok step label) hide step')
    (hprogress : ∀ s a e, R s a → ok s e → ∃ s', step s e = .ok s') {s : β} {a : τ} (hs : R s a) {events : List α}
    (hok : AllStepsM ok step s events) :
    ∃ s' a', events.foldlM step s = .ok s' ∧ R s' a' ∧
      Trace step' a ((labels step label s events).filterMap hide) a' := by
  suffices hrun : ∃ s', events.foldlM step s = .ok s' ∧
      Trace (okStep ok step label) s (labels step label s events) s' by
    obtain ⟨s', hfold, htrace⟩ := hrun
    obtain ⟨a', hs', htrace'⟩ := h.trace hs htrace
    exact ⟨s', a', hfold, hs', htrace'⟩
  induction events generalizing s a with
  | nil => exact ⟨s, rfl, .nil s⟩
  | cons e events ih =>
    obtain ⟨s₁, hstep⟩ := hprogress s a e hs hok.1
    have hfirst : okStep ok step label s (label s e) s₁ := ⟨e, hok.1, hstep, rfl⟩
    obtain ⟨a₁, hs₁, -⟩ := h s a _ s₁ hs hfirst
    obtain ⟨s', hfold, htrace⟩ := ih hs₁ (hok.2 s₁ hstep)
    refine ⟨s', ?_, ?_⟩
    · rw [List.foldlM_cons, hstep]
      exact hfold
    · rw [labels_cons hstep]
      exact .cons hfirst htrace

/-! ### In step -/

/-- No event that meets the condition fails, and each is one abstract step. -/
def InStep (R : β → τ → Prop) (ok : β → α → Prop) (step : β → α → Except ε β) (label : β → α → ℓ)
    (step' : τ → ℓ → τ → Prop) : Prop :=
  ∀ s a e, R s a → ok s e → ∃ s' a', step s e = .ok s' ∧ step' a (label s e) a' ∧ R s' a'

variable {S : τ → υ → Prop} {step' : τ → ℓ → τ → Prop} {step'' : υ → ℓ' → υ → Prop}

theorem InStep.simulates (h : InStep R ok step label step') : Simulates R (okStep ok step label) some step' := by
  rintro s a l s' hs ⟨e, he, hstep, rfl⟩
  obtain ⟨s₁, a', hstep₁, ha', hs'⟩ := h s a e hs he
  obtain rfl : s₁ = s' := Except.ok.inj (hstep₁.symm.trans hstep)
  exact ⟨a', hs', .single ha'⟩

theorem InStep.run (h : InStep R ok step label step') {s : β} {a : τ} (hs : R s a) {events : List α}
    (hok : AllStepsM ok step s events) :
    ∃ s' a', events.foldlM step s = .ok s' ∧ Trace step' a (labels step label s events) a' ∧ R s' a' := by
  have hprogress : ∀ s a e, R s a → ok s e → ∃ s', step s e = .ok s' := by
    intro s a e hs he
    obtain ⟨s', -, hstep, -⟩ := h s a e hs he
    exact ⟨s', hstep⟩
  obtain ⟨s', a', hrun, hs', htrace⟩ := h.simulates.run hprogress hs hok
  rw [List.filterMap_some] at htrace
  exact ⟨s', a', hrun, htrace, hs'⟩

/-- What simulates the abstract steps in turn simulates the run. -/
theorem InStep.run_comp (h : InStep R ok step label step') (h' : Simulates S step' hide step'') {s : β} {a : τ} {b : υ}
    (hs : R s a) (hab : S a b) {events : List α} (hok : AllStepsM ok step s events) :
    ∃ s' a' b', events.foldlM step s = .ok s' ∧ R s' a' ∧ S a' b' ∧
      Trace step'' b ((labels step label s events).filterMap hide) b' := by
  obtain ⟨s', a', hrun, htrace, hs'⟩ := h.run hs hok
  obtain ⟨b', hab', htrace'⟩ := h'.trace hab htrace
  exact ⟨s', a', b', hrun, hs', hab', htrace'⟩

end Fallible

end Lib.Simulation

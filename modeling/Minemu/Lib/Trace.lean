import Mathlib.Data.List.Basic

/-!
# Runs that remember their steps

A trace is a run of a step relation with the list of the pairs of states it went
through, so that a statement can speak of the `i`-th step.
-/

namespace Minemu.Lib

inductive Trace {σ : Type} (step : σ → σ → Prop) : σ → List (σ × σ) → σ → Prop where
  | nil (s : σ) : Trace step s [] s
  | cons {s s' s'' : σ} {ts : List (σ × σ)} :
      step s s' → Trace step s' ts s'' → Trace step s ((s, s') :: ts) s''

namespace Trace

variable {σ : Type} {step : σ → σ → Prop} {s s' : σ} {ts : List (σ × σ)}

/-- An invariant holds in the last state, and every step taken from it has what a step
from it has. -/
theorem invariant {I : σ → Prop} {P : σ × σ → Prop} (h : Trace step s ts s') (hinit : I s)
    (hkeep : ∀ s s', I s → step s s' → I s') (hstep : ∀ s s', I s → step s s' → P (s, s')) :
    I s' ∧ ∀ t ∈ ts, P t := by
  induction h with
  | nil s => exact ⟨hinit, fun t ht => absurd ht List.not_mem_nil⟩
  | cons hfirst _ ih =>
      obtain ⟨hlast, hall⟩ := ih (hkeep _ _ hinit hfirst)
      refine ⟨hlast, fun t ht => ?_⟩
      cases List.mem_cons.mp ht with
      | inl heq => exact heq ▸ hstep _ _ hinit hfirst
      | inr hmem => exact hall t hmem

end Trace

end Minemu.Lib

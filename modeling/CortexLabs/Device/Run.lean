import Mathlib.Logic.Relation

/-! Runs of a step relation: what a step preserves, a run preserves. -/

namespace CortexLabs.Device

open Relation

variable {σ τ : Type} {step : σ → σ → Prop}

/-- A property that every step preserves holds at the end of a run that starts in it. -/
theorem run_invariant {Inv : σ → Prop} (hstep : ∀ s s', Inv s → step s s' → Inv s') {s s' : σ}
    (hrun : ReflTransGen step s s') (h : Inv s) : Inv s' := by
  induction hrun with
  | refl => exact h
  | tail _ hs ih => exact hstep _ _ ih hs

/-- A relation between the states of a run that is reflexive, and that every step from an invariant
state extends, holds between its ends. -/
theorem run_relation {Inv : σ → Prop} {R : σ → σ → Prop} (hrefl : ∀ s, R s s)
    (htrans : ∀ s s' s'', R s s' → R s' s'' → R s s'')
    (hstep : ∀ s s', Inv s → step s s' → Inv s' ∧ R s s') {s s' : σ}
    (hrun : ReflTransGen step s s') (h : Inv s) : Inv s' ∧ R s s' := by
  induction hrun with
  | refl => exact ⟨h, hrefl s⟩
  | tail _ hs ih =>
    obtain ⟨hInv, hR⟩ := hstep _ _ ih.1 hs
    exact ⟨hInv, htrans _ _ _ ih.2 hR⟩

end CortexLabs.Device

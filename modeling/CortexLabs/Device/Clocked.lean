import Mathlib.Data.Nat.Find
import Mathlib.Tactic.Common

/-! Synchronous machines.  A machine is a step from a state and a cycle's inputs; its inputs are a
stream, one for each cycle, and its run is the state at the start of each cycle together with what
each cycle lets an observer see. -/

namespace CortexLabs.Device.Clocked

variable {σ ι ε : Type} (step : σ → ι → σ) (observe : σ → ι → List ε) (start : σ) (i : Nat → ι)

/-- The state at the start of each cycle. -/
def states : Nat → σ
  | 0 => start
  | n + 1 => step (states n) (i n)

/-- What the cycles before `n` showed, in order. -/
def seen : Nat → List ε
  | 0 => []
  | n + 1 => seen n ++ observe (states step start i n) (i n)

@[simp] theorem states_zero : states step start i 0 = start := rfl

@[simp] theorem seen_zero : seen step observe start i 0 = [] := rfl

theorem seen_succ (n : Nat) : seen step observe start i (n + 1) =
    seen step observe start i n ++ observe (states step start i n) (i n) := rfl

variable {step observe start i}

/-- What holds at the start, and is carried over every cycle, holds of the state at every cycle. -/
theorem states_invariant {I : Nat → σ → Prop} (h0 : I 0 start)
    (hstep : ∀ n, I n (states step start i n) →
      I (n + 1) (step (states step start i n) (i n))) (n : Nat) :
    I n (states step start i n) := by
  induction n with
  | zero => exact h0
  | succ n ih => exact hstep n ih

/-- A stage that lasts while nothing happens is still there when it does. -/
theorem stays_until {P happens : Nat → Prop} (hstay : ∀ n, P n → ¬happens n → P (n + 1)) {n m : Nat}
    (hnm : n ≤ m) (hP : P n) (hm : happens m) : ∃ k, n ≤ k ∧ P k ∧ happens k := by
  obtain ⟨d, rfl⟩ := Nat.exists_eq_add_of_le hnm
  clear hnm
  induction d generalizing n with
  | zero => exact ⟨n, Nat.le_refl n, hP, hm⟩
  | succ d ih =>
    by_cases h : happens n
    · exact ⟨n, Nat.le_refl n, hP, h⟩
    · rw [Nat.add_succ, ← Nat.succ_add] at hm
      obtain ⟨k, hk, hrest⟩ := ih (hstay n hP h) hm
      exact ⟨k, Nat.le_of_succ_le hk, hrest⟩

/-- The event happens in no cycle from `n` up to `k`. -/
def Quiet (event : Nat → Bool) (n k : Nat) : Prop := ∀ j, n ≤ j → j < k → event j = false

/-- Cycle `k` is the first one from `n` on in which the event happens. -/
structure First (event : Nat → Bool) (n k : Nat) : Prop where
  bound : n ≤ k
  quiet : Quiet event n k
  happens : event k = true

/-- What only the event ends lasts until the event. -/
theorem lasts {P : Nat → Prop} {event : Nat → Bool} {n k : Nat}
    (hstay : ∀ j, P j → event j = false → P (j + 1)) (hnk : n ≤ k) (hquiet : Quiet event n k)
    (hP : P n) : P k := by
  induction hnk with
  | refl => exact hP
  | @step k hnk ih =>
    have hbefore : Quiet event n k := fun j hj hjk => hquiet j hj (by omega)
    exact hstay k (ih hbefore) (hquiet k hnk (Nat.lt_succ_self k))

theorem First.unique {event : Nat → Bool} {n k m : Nat} (hk : First event n k)
    (hm : First event n m) : k = m := by
  rcases Nat.lt_trichotomy k m with hlt | heq | hlt
  · exact absurd ((hm.quiet k hk.bound hlt).symm.trans hk.happens) nofun
  · exact heq
  · exact absurd ((hk.quiet m hm.bound hlt).symm.trans hm.happens) nofun

/-- An event that happens at some cycle happens there for the first time, or before. -/
theorem First.of_happens (event : Nat → Bool) {n m : Nat} (hnm : n ≤ m) (hm : event m = true) :
    ∃ k ≤ m, First event n k := by
  have hsome : ∃ k, n ≤ k ∧ event k = true := ⟨m, hnm, hm⟩
  obtain ⟨hbound, hevent⟩ := Nat.find_spec hsome
  refine ⟨Nat.find hsome, Nat.find_min' hsome ⟨hnm, hm⟩, hbound, fun j hj hjk => ?_, hevent⟩
  by_contra hne
  exact Nat.find_min hsome hjk ⟨hj, by simpa using hne⟩

/-- A part of a machine that steps on its own state and on what the machine feeds it runs as a
machine of its own. -/
theorem states_project {τ κ : Type} {step' : τ → κ → τ} (part : σ → τ) (feed : σ → ι → κ)
    (hpart : ∀ s x, part (step s x) = step' (part s) (feed s x)) (n : Nat) :
    part (states step start i n) =
      states step' (part start) (fun k => feed (states step start i k) (i k)) n := by
  induction n with
  | zero => rfl
  | succ n ih =>
    show part (step (states step start i n) (i n)) = _
    rw [hpart, ih]
    rfl

theorem Quiet.snoc {event : Nat → Bool} {n k : Nat} (h : Quiet event n k)
    (hk : event k = false) : Quiet event n (k + 1) := by
  intro j hj hjk
  rcases Nat.lt_succ_iff_lt_or_eq.mp hjk with hlt | rfl
  · exact h j hj hlt
  · exact hk

theorem Quiet.empty (event : Nat → Bool) (n : Nat) : Quiet event n n :=
  fun _ hj hjk => absurd hj (Nat.not_le.mpr hjk)

end CortexLabs.Device.Clocked

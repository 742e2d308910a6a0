import Mathlib.Tactic.Common

/-! Loops of C functions that return a status.  The body of such a loop returns a status of its own
beside the state, and the loop ends early, with the status, when it is not 0. -/

namespace CortexLabs.Device

variable {σ α : Type}

/-- `for (x : xs) { status = body(x); if (status != 0) return status; } return 0;` -/
def forEach (body : σ → α → Int × σ) : σ → List α → Int × σ
  | s, [] => (0, s)
  | s, x :: xs =>
    let (status, s) := body s x
    if status ≠ 0 then (status, s) else forEach body s xs

/-- What holds of the elements done and the state before each turn holds of all of them at the end,
unless a turn fails, and then what it has left holds. -/
theorem forEach_rule {body : σ → α → Int × σ} {P : List α → σ → Prop} {E : Int → σ → Prop}
    {xs : List α} {s : σ} (h0 : P [] s)
    (hstep : ∀ done x rest s, xs = done ++ x :: rest → P done s →
      ((body s x).1 = 0 → P (done ++ [x]) (body s x).2) ∧
      ((body s x).1 ≠ 0 → E (body s x).1 (body s x).2)) :
    ((forEach body s xs).1 = 0 → P xs (forEach body s xs).2) ∧
    ((forEach body s xs).1 ≠ 0 → E (forEach body s xs).1 (forEach body s xs).2) := by
  suffices h : ∀ rest done s, xs = done ++ rest → P done s →
      ((forEach body s rest).1 = 0 → P xs (forEach body s rest).2) ∧
      ((forEach body s rest).1 ≠ 0 → E (forEach body s rest).1 (forEach body s rest).2) from
    h xs [] s rfl h0
  intro rest
  induction rest with
  | nil =>
    intro done s hxs hP
    rw [List.append_nil] at hxs
    subst hxs
    exact ⟨fun _ => hP, fun h => absurd rfl h⟩
  | cons x rest ih =>
    intro done s hxs hP
    obtain ⟨hgood, hbad⟩ := hstep done x rest s hxs hP
    rw [forEach]
    rcases hbody : body s x with ⟨status, s'⟩
    rw [hbody] at hgood hbad
    dsimp only at hgood hbad ⊢
    split
    · next hstatus => exact ⟨fun h => absurd h hstatus, fun _ => hbad hstatus⟩
    · next hstatus =>
      have hxs' : xs = (done ++ [x]) ++ rest := by rw [hxs, List.append_assoc]; rfl
      exact ih (done ++ [x]) s' hxs' (hgood (not_not.mp hstatus))

/-- A loop none of whose turns fails goes through all of them. -/
theorem forEach_all {body : σ → α → Int × σ} {f : σ → α → σ} {xs : List α}
    (h : ∀ s, ∀ x ∈ xs, body s x = (0, f s x)) (s : σ) :
    forEach body s xs = (0, xs.foldl f s) := by
  induction xs generalizing s with
  | nil => rfl
  | cons x xs ih =>
    rw [forEach, h s x List.mem_cons_self]
    exact ih (fun s y hy => h s y (List.mem_cons_of_mem _ hy)) (f s x)

end CortexLabs.Device

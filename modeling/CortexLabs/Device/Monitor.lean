import Mathlib.Data.List.Induction
import Mathlib.Tactic.Common

/-! Monitors.  A monitor follows a trace of observations with a state of its own and says, in each
state, which observation it allows next; a trace conforms when every observation of it is allowed
in the state that the ones before it lead to. -/

namespace CortexLabs.Device

/-- A state that follows a trace, and what it allows next. -/
structure Monitor (σ ο : Type) where
  start : σ
  next : σ → ο → σ
  allowed : σ → ο → Prop

namespace Monitor

variable {σ ο : Type} (M : Monitor σ ο)

def after (t : List ο) : σ := t.foldl M.next M.start

/-- Every observation is allowed where it stands. -/
def Conforms (t : List ο) : Prop := ∀ pre o post, t = pre ++ o :: post → M.allowed (M.after pre) o

@[simp] theorem after_nil : M.after [] = M.start := rfl

@[simp] theorem after_snoc (t : List ο) (o : ο) :
    M.after (t ++ [o]) = M.next (M.after t) o := by
  rw [after, after, List.foldl_append]
  rfl

variable {M}

theorem Conforms.nil : M.Conforms [] := by
  intro pre o post h
  cases pre <;> cases h

theorem conforms_snoc {t : List ο} {o : ο} :
    M.Conforms (t ++ [o]) ↔ M.Conforms t ∧ M.allowed (M.after t) o := by
  constructor
  · intro h
    refine ⟨fun pre o' post ht => ?_, h t o [] rfl⟩
    refine h pre o' (post ++ [o]) ?_
    rw [ht, List.append_assoc, List.cons_append]
  · rintro ⟨h, ho⟩ pre o' post ht
    rcases List.eq_nil_or_concat post with rfl | ⟨post, last, rfl⟩
    · obtain ⟨rfl, hlast⟩ := List.append_inj' ht rfl
      obtain rfl := List.singleton_inj.mp hlast
      exact ho
    · rw [List.concat_eq_append, ← List.cons_append, ← List.append_assoc] at ht
      obtain ⟨rfl, -⟩ := List.append_inj' ht rfl
      exact h pre o' post rfl

/-- What a conforming trace still conforms to when it is cut short. -/
theorem Conforms.left {t u : List ο} (h : M.Conforms (t ++ u)) : M.Conforms t := by
  intro pre o post ht
  refine h pre o (post ++ u) ?_
  rw [ht, List.append_assoc, List.cons_append]

/-- What holds at the start and is kept by every allowed observation holds after a conforming
trace. -/
theorem Conforms.invariant {I : σ → Prop} {t : List ο} (h : M.Conforms t) (h0 : I M.start)
    (hnext : ∀ s o, I s → M.allowed s o → I (M.next s o)) : I (M.after t) := by
  induction t using List.reverseRecOn with
  | nil => exact h0
  | append_singleton t o ih =>
    obtain ⟨ht, ho⟩ := conforms_snoc.mp h
    rw [after_snoc]
    exact hnext _ o (ih ht) ho

end Monitor

end CortexLabs.Device

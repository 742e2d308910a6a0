import CortexLabs.Device.Program
import Mathlib.Logic.Function.Basic

/-! Programs side by side on one state, any number of them, each running from one operation to the
next while the others wait. -/

namespace CortexLabs.Device

variable {Op : Type} {Ans : Op → Type} {α σ ι : Type} [DecidableEq ι]

/-- A state, and what is left of each program. -/
structure Threads (Op : Type) (Ans : Op → Type) (α σ ι : Type) where
  state : σ
  left : ι → Program Op Ans α

/-- An operation of program `thread`, issued in `state`. -/
structure Taken (Op σ ι : Type) where
  state : σ
  thread : ι
  op : Op

/-- One operation of program `i`. -/
inductive Turn (h : (o : Op) → σ → Ans o × σ) :
    Threads Op Ans α σ ι → ι → Op → Threads Op Ans α σ ι → Prop
  | mk {t : Threads Op Ans α σ ι} {i : ι} {o : Op} {k : Ans o → Program Op Ans α} :
      t.left i = .call o k →
      Turn h t i o ⟨(h o t.state).2, Function.update t.left i (k (h o t.state).1)⟩

/-- Any number of turns, of any of the programs in any order, with the operations issued. -/
inductive Turns (h : (o : Op) → σ → Ans o × σ) :
    Threads Op Ans α σ ι → List (Taken Op σ ι) → Threads Op Ans α σ ι → Prop
  | refl (t : Threads Op Ans α σ ι) : Turns h t [] t
  | tail {t t' t'' : Threads Op Ans α σ ι} {log : List (Taken Op σ ι)} {i : ι} {o : Op} :
      Turns h t log t' → Turn h t' i o t'' → Turns h t (log ++ [⟨t'.state, i, o⟩]) t''

/-- A property of what was issued and of the threads holds after any number of turns if every turn
keeps it. -/
theorem Turns.keeps {h : (o : Op) → σ → Ans o × σ} {t t' : Threads Op Ans α σ ι}
    {log : List (Taken Op σ ι)} {I : List (Taken Op σ ι) → Threads Op Ans α σ ι → Prop}
    (hstart : I [] t)
    (hturn : ∀ log t i o t', I log t → Turn h t i o t' → I (log ++ [⟨t.state, i, o⟩]) t')
    (hturns : Turns h t log t') : I log t' := by
  induction hturns with
  | refl => exact hstart
  | tail _ hlast ih => exact hturn _ _ _ _ _ ih hlast

end CortexLabs.Device

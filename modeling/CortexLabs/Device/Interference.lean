import CortexLabs.Device.Program

/-! Programs among others.  A program that shares its state runs one operation at a time, and
between two operations the state may change as the others are relied on to change it.  What is
shown of a program under interference holds at each of its points, however often and wherever the
others step in. -/

namespace CortexLabs.Device

variable {Op : Type} {Ans : Op → Type} {α β σ : Type}

/-- From `s` on, with changes in `rely` before each operation, `I` holds wherever the others may
step in, and what the program returns is in `Q` in the state after its last operation. -/
def Under (rely : σ → σ → Prop) (h : (o : Op) → σ → Ans o × σ) (I : σ → Prop)
    (Q : α → σ → Prop) : Program Op Ans α → σ → Prop
  | .ret a, s => Q a s
  | .call o k, s => I s ∧ ∀ s', rely s s' → Under rely h I Q (k (h o s').1) (h o s').2

section Rules

variable {rely : σ → σ → Prop} {h : (o : Op) → σ → Ans o × σ} {I : σ → Prop}
  {Q Q' : α → σ → Prop} {s s' : σ}

theorem Under.mono {p : Program Op Ans α} (hp : Under rely h I Q p s)
    (hQ : ∀ a s, Q a s → Q' a s) : Under rely h I Q' p s := by
  induction p generalizing s with
  | ret a => exact hQ a s hp
  | call o k ih => exact ⟨hp.1, fun s' hs => ih _ (hp.2 s' hs)⟩

theorem Under.bind {R : β → σ → Prop} {p : Program Op Ans α} {f : α → Program Op Ans β}
    (hp : Under rely h I (fun a s => Under rely h I R (f a) s) p s) :
    Under rely h I R (p >>= f) s := by
  induction p generalizing s with
  | ret a => exact hp
  | call o k ih => exact ⟨hp.1, fun s' hs => ih _ (hp.2 s' hs)⟩

/-- One operation, in any state that the others may have left. -/
theorem Under.issue {o : Op} {f : Ans o → Program Op Ans α} (hI : I s)
    (hf : ∀ s', rely s s' → Under rely h I Q (f (h o s').1) (h o s').2) :
    Under rely h I Q (Program.issue o >>= f) s := ⟨hI, hf⟩

/-- A point between two operations is still one after a change by the others. -/
theorem Under.stable (htrans : ∀ s s' s'', rely s s' → rely s' s'' → rely s s'')
    (hstay : ∀ s s', rely s s' → I s → I s') {o : Op} {k : Ans o → Program Op Ans α}
    (hp : Under rely h I Q (.call o k) s) (hs : rely s s') :
    Under rely h I Q (.call o k) s' :=
  ⟨hstay s s' hs hp.1, fun s'' hs' => hp.2 s'' (htrans s s' s'' hs hs')⟩

end Rules

end CortexLabs.Device

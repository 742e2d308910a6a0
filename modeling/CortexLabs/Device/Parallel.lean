import CortexLabs.Device.Program

/-! Threads that run for ever, side by side on one state.  Each repeats a program, from one of its
operations to the next, and an operation is answered to the thread that issues it: one that is not
answered blocks that thread.  Each thread is reasoned about alone, under what it relies on the others
for, and guarantees in turn what they rely on it for. -/

namespace CortexLabs.Device

variable {Op : Type} {Ans : Op → Type} {α β σ ι : Type}

/-- From `s` on, with steps in `rely` before each operation, every operation of the program is in
`guar`, and what it returns is in `Q` in the state after its last one. -/
def Upholds (answer : σ → (o : Op) → Ans o → σ → Prop) (rely guar : σ → σ → Prop)
    (Q : α → σ → Prop) : Program Op Ans α → σ → Prop
  | .ret a, s => Q a s
  | .call o k, s => ∀ s1, rely s s1 → ∀ r s2, answer s1 o r s2 →
      guar s1 s2 ∧ Upholds answer rely guar Q (k r) s2

namespace Upholds

variable {answer : σ → (o : Op) → Ans o → σ → Prop} {rely guar : σ → σ → Prop}
  {Q Q' : α → σ → Prop} {s s' : σ}

theorem mono {p : Program Op Ans α} (h : Upholds answer rely guar Q p s)
    (hQ : ∀ a s, Q a s → Q' a s) : Upholds answer rely guar Q' p s := by
  induction p generalizing s with
  | ret a => exact hQ a s h
  | call o k ih =>
    intro s1 hrely r s2 hanswer
    obtain ⟨hguar, hrest⟩ := h s1 hrely r s2 hanswer
    exact ⟨hguar, ih r hrest⟩

theorem seq {R : β → σ → Prop} {p : Program Op Ans α} {f : α → Program Op Ans β}
    (h : Upholds answer rely guar Q p s)
    (hf : ∀ a s, Q a s → Upholds answer rely guar R (f a) s) :
    Upholds answer rely guar R (p >>= f) s := by
  induction p generalizing s with
  | ret a => exact hf a s h
  | call o k ih =>
    intro s1 hrely r s2 hanswer
    obtain ⟨hguar, hrest⟩ := h s1 hrely r s2 hanswer
    exact ⟨hguar, ih r hrest⟩

/-- What a thread upholds, it upholds after steps of the others. -/
theorem stable (htrans : ∀ s s1 s2, rely s s1 → rely s1 s2 → rely s s2)
    (hQ : ∀ a s s', Q a s → rely s s' → Q a s') {p : Program Op Ans α}
    (h : Upholds answer rely guar Q p s) (hrely : rely s s') :
    Upholds answer rely guar Q p s' := by
  cases p with
  | ret a => exact hQ a s s' h hrely
  | call o k => exact fun s1 hs1 => h s1 (htrans s s' s1 hrely hs1)

end Upholds

/-! ### Crews -/

/-- A state, and what is left of the program of each thread.  A program returns what the next one
starts with, none when its thread has ended. -/
structure Crew (Op : Type) (Ans : Op → Type) (α σ ι : Type) where
  state : σ
  left : ι → Program Op Ans (Option α)

variable [DecidableEq ι]

/-- An operation of a thread, or the start of its next program. -/
inductive Move (answer : ι → σ → (o : Op) → Ans o → σ → Prop)
    (body : ι → α → Program Op Ans (Option α)) : Crew Op Ans α σ ι → Crew Op Ans α σ ι → Prop
  | turn {c : Crew Op Ans α σ ι} {i : ι} {o : Op} {k : Ans o → Program Op Ans (Option α)}
      {r : Ans o} {s : σ} : c.left i = .call o k → answer i c.state o r s →
      Move answer body c ⟨s, Function.update c.left i (k r)⟩
  | again {c : Crew Op Ans α σ ι} {i : ι} {a : α} : c.left i = .ret (some a) →
      Move answer body c ⟨c.state, Function.update c.left i (body i a)⟩

section Crew

variable {answer : ι → σ → (o : Op) → Ans o → σ → Prop} {body : ι → α → Program Op Ans (Option α)}
  {Inv : σ → Prop} {rely guar : ι → σ → σ → Prop} {J : ι → α → σ → Prop}

/-- What is known when a program has returned. -/
def Between (J : α → σ → Prop) : Option α → σ → Prop
  | none, _ => True
  | some a, s => J a s

/-- The state is in the invariant, and every thread upholds its part from it. -/
structure Crew.Sound (answer : ι → σ → (o : Op) → Ans o → σ → Prop) (Inv : σ → Prop)
    (rely guar : ι → σ → σ → Prop) (J : ι → α → σ → Prop) (c : Crew Op Ans α σ ι) : Prop where
  inv : Inv c.state
  upholds : ∀ i, Upholds (answer i) (rely i) (guar i) (Between (J i)) (c.left i) c.state

theorem Crew.Sound.update {left : ι → Program Op Ans (Option α)} {i : ι}
    {p : Program Op Ans (Option α)} {s : σ} (hinv : Inv s)
    (hp : Upholds (answer i) (rely i) (guar i) (Between (J i)) p s)
    (hothers : ∀ j, j ≠ i → Upholds (answer j) (rely j) (guar j) (Between (J j)) (left j) s) :
    Crew.Sound answer Inv rely guar J ⟨s, Function.update left i p⟩ := by
  refine ⟨hinv, fun j => ?_⟩
  dsimp only
  by_cases hj : j = i
  · subst hj
    rwa [Function.update_self]
  · rw [Function.update_of_ne hj]
    exact hothers j hj

/-- Threads that each guarantee what the others rely on keep the invariant, whoever moves. -/
theorem Crew.Sound.move (htrans : ∀ i s s1 s2, rely i s s1 → rely i s1 s2 → rely i s s2)
    (hself : ∀ i s, Inv s → rely i s s)
    (hguar : ∀ i s s', guar i s s' → Inv s' ∧ ∀ j, j ≠ i → rely j s s')
    (hstable : ∀ i a s s', J i a s → rely i s s' → J i a s')
    (hbody : ∀ i a s, Inv s → J i a s →
      Upholds (answer i) (rely i) (guar i) (Between (J i)) (body i a) s)
    {c c' : Crew Op Ans α σ ι} (h : c.Sound answer Inv rely guar J)
    (hmove : Move answer body c c') : c'.Sound answer Inv rely guar J := by
  have hbetween : ∀ i (x : Option α) s s', Between (J i) x s → rely i s s' →
      Between (J i) x s' := by
    intro i x s s' hx hrely
    cases x with
    | none => trivial
    | some a => exact hstable i a s s' hx hrely
  cases hmove with
  | @turn i o k r s hleft hanswer =>
    have hi := h.upholds i
    rw [hleft] at hi
    obtain ⟨hg, hrest⟩ := hi c.state (hself i _ h.inv) r s hanswer
    obtain ⟨hinv, hothers⟩ := hguar i _ _ hg
    exact .update hinv hrest fun j hj =>
      (h.upholds j).stable (htrans j) (hbetween j) (hothers j hj)
  | @again i a hleft =>
    have hi := h.upholds i
    rw [hleft] at hi
    exact .update h.inv (hbody i a _ h.inv hi) fun j _ => h.upholds j

end Crew

end CortexLabs.Device

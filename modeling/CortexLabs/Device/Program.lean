import Mathlib.Logic.Function.Basic

/-! Programs that drive a device through operations and go on with the device's answers, the
executions of a program against a device that answers nondeterministically and may lose power in
the middle of an operation, and the rules for what holds when a program returns and at every point
where it may be cut. -/

namespace CortexLabs.Device

/-- A program that returns a value, or issues an operation and continues with its answer. -/
inductive Program (Op : Type) (Ans : Op → Type) (α : Type) where
  | ret (a : α)
  | call (o : Op) (k : Ans o → Program Op Ans α)

namespace Program

variable {Op : Type} {Ans : Op → Type} {α β γ σ : Type}

/-- `p`, continued with `f` on its value. -/
def bind (p : Program Op Ans α) (f : α → Program Op Ans β) : Program Op Ans β :=
  match p with
  | .ret a => f a
  | .call o k => .call o fun r => (k r).bind f

instance : Monad (Program Op Ans) where
  pure := .ret
  bind := bind

/-- The program that issues one operation and returns its answer. -/
def issue (o : Op) : Program Op Ans (Ans o) := .call o .ret

@[simp] theorem ret_bind (a : α) (f : α → Program Op Ans β) : (ret a).bind f = f a := rfl

@[simp] theorem call_bind (o : Op) (k : Ans o → Program Op Ans α) (f : α → Program Op Ans β) :
    (call o k).bind f = call o fun r => (k r).bind f := rfl

@[simp] theorem pure_eq (a : α) : (pure a : Program Op Ans α) = ret a := rfl

@[simp] theorem bind_eq (p : Program Op Ans α) (f : α → Program Op Ans β) :
    p >>= f = p.bind f := rfl

@[simp] theorem issue_bind (o : Op) (f : Ans o → Program Op Ans β) :
    (issue o).bind f = call o f := rfl

theorem bind_ret (p : Program Op Ans α) : p.bind ret = p := by
  induction p with
  | ret a => rfl
  | call o k ih => simp only [call_bind, ih]

theorem bind_assoc (p : Program Op Ans α) (f : α → Program Op Ans β) (g : β → Program Op Ans γ) :
    (p.bind f).bind g = p.bind fun a => (f a).bind g := by
  induction p with
  | ret a => rfl
  | call o k ih => simp only [call_bind, ih]

instance : LawfulMonad (Program Op Ans) :=
  LawfulMonad.mk' _ bind_ret (fun _ _ => rfl) bind_assoc

/-- The run of a program whose operations `h` handles, deterministically. -/
def run (h : (o : Op) → σ → Ans o × σ) : Program Op Ans α → σ → α × σ
  | .ret a, s => (a, s)
  | .call o k, s => (k (h o s).1).run h (h o s).2

@[simp] theorem run_ret (h : (o : Op) → σ → Ans o × σ) (a : α) (s : σ) :
    (ret a).run h s = (a, s) := rfl

@[simp] theorem run_call (h : (o : Op) → σ → Ans o × σ) (o : Op)
    (k : Ans o → Program Op Ans α) (s : σ) :
    (call o k).run h s = (k (h o s).1).run h (h o s).2 := rfl

@[simp] theorem run_bind (h : (o : Op) → σ → Ans o × σ) (p : Program Op Ans α)
    (f : α → Program Op Ans β) (s : σ) :
    (p.bind f).run h s = (f (p.run h s).1).run h (p.run h s).2 := by
  induction p generalizing s with
  | ret a => rfl
  | call o k ih => simp only [call_bind, run_call, ih]

end Program

/-- How a device reacts to operations: `answer s o r s'` when it may answer `r` to `o` in state `s`
and move to `s'`, and `torn s o s'` when `s'` may be its state if power fails during `o`. -/
structure Behavior (Op : Type) (Ans : Op → Type) where
  State : Type
  answer : State → (o : Op) → Ans o → State → Prop
  torn : State → Op → State → Prop

/-- An operation as a device saw it: its answer, none if power failed, and the state it left. -/
structure Event {Op : Type} {Ans : Op → Type} (D : Behavior Op Ans) where
  op : Op
  answer : Option (Ans op)
  after : D.State

variable {Op : Type} {Ans : Op → Type} {D : Behavior Op Ans} {α β : Type}

/-- The operations seen from state `s` on, each with the state that it was issued in. -/
def issued : D.State → List (Event D) → List (D.State × Event D)
  | _, [] => []
  | s, e :: t => (s, e) :: issued e.after t

@[simp] theorem issued_nil (s : D.State) : issued s ([] : List (Event D)) = [] := rfl

@[simp] theorem issued_cons (s : D.State) (e : Event D) (t : List (Event D)) :
    issued s (e :: t) = (s, e) :: issued e.after t := rfl

/-- An execution of a program from a device state: the operations it issued, its value, none if
power failed before it returned, and the state it left. -/
inductive Exec (D : Behavior Op Ans) :
    Program Op Ans α → D.State → List (Event D) → Option α → D.State → Prop
  | ret (a : α) (s : D.State) : Exec D (.ret a) s [] (some a) s
  | call {o : Op} {k : Ans o → Program Op Ans α} {s s1 s2 : D.State} {r : Ans o}
      {t : List (Event D)} {x : Option α} : D.answer s o r s1 → Exec D (k r) s1 t x s2 →
      Exec D (.call o k) s (⟨o, some r, s1⟩ :: t) x s2
  | torn {o : Op} {k : Ans o → Program Op Ans α} {s s1 : D.State} : D.torn s o s1 →
      Exec D (.call o k) s [⟨o, none, s1⟩] none s1

/-- An execution that returns begins with the answer to its first operation. -/
theorem Exec.of_call {o : Op} {k : Ans o → Program Op Ans α} {s s' : D.State} {t : List (Event D)}
    {a : α} (h : Exec D (.call o k) s t (some a) s') :
    ∃ r s1 u, D.answer s o r s1 ∧ t = ⟨o, some r, s1⟩ :: u ∧ Exec D (k r) s1 u (some a) s' := by
  cases h with
  | call ha hrest => exact ⟨_, _, _, ha, rfl, hrest⟩

theorem Exec.of_ret {a b : α} {s s' : D.State} {t : List (Event D)}
    (h : Exec D (.ret a) s t (some b) s') : t = [] ∧ b = a ∧ s' = s := by
  cases h
  exact ⟨rfl, rfl, rfl⟩

/-- From `s`, with `t` already issued, every execution of the program that returns ends with its
value, operations and state in `Q`, and every one that is cut ends in `C`. -/
def Safe (D : Behavior Op Ans) (Q : List (Event D) → α → D.State → Prop)
    (C : List (Event D) → D.State → Prop) :
    Program Op Ans α → List (Event D) → D.State → Prop
  | .ret a, t, s => Q t a s
  | .call o k, t, s =>
    (∀ s1, D.torn s o s1 → C (t ++ [⟨o, none, s1⟩]) s1) ∧
    ∀ r s1, D.answer s o r s1 → Safe D Q C (k r) (t ++ [⟨o, some r, s1⟩]) s1

namespace Safe

variable {Q Q' : List (Event D) → α → D.State → Prop} {C C' : List (Event D) → D.State → Prop}

@[simp] theorem ret_iff {a : α} {t : List (Event D)} {s : D.State} :
    Safe D Q C (.ret a) t s ↔ Q t a s := Iff.rfl

theorem mono {p : Program Op Ans α} {t : List (Event D)} {s : D.State} (h : Safe D Q C p t s)
    (hQ : ∀ t a s, Q t a s → Q' t a s) (hC : ∀ t s, C t s → C' t s) : Safe D Q' C' p t s := by
  induction p generalizing t s with
  | ret a => exact hQ t a s h
  | call o k ih => exact ⟨fun s1 h1 => hC _ _ (h.1 s1 h1), fun r s1 h1 => ih r (h.2 r s1 h1)⟩

/-- A sequence is safe when its first part is safe and ends where its second part is safe. -/
theorem bind {R : List (Event D) → β → D.State → Prop} {p : Program Op Ans α}
    {f : α → Program Op Ans β} {t : List (Event D)} {s : D.State}
    (h : Safe D (fun t a s => Safe D R C (f a) t s) C p t s) : Safe D R C (p.bind f) t s := by
  induction p generalizing t s with
  | ret a => exact h
  | call o k ih => exact ⟨h.1, fun r s1 h1 => ih r (h.2 r s1 h1)⟩

theorem sound {p : Program Op Ans α} {t u : List (Event D)} {s s' : D.State} {x : Option α}
    (h : Safe D Q C p t s) (he : Exec D p s u x s') :
    (∀ a, x = some a → Q (t ++ u) a s') ∧ (x = none → C (t ++ u) s') := by
  induction he generalizing t with
  | ret a s => exact ⟨fun b hb => by cases hb; simpa using h, nofun⟩
  | @call o k s s1 s2 r u x h1 _ ih =>
    have := ih (h.2 r s1 h1)
    rwa [List.append_assoc] at this
  | torn h1 => exact ⟨nofun, fun _ => h.1 _ h1⟩

end Safe

/-- A handler whose every step the device may take. -/
def Handles (D : Behavior Op Ans) (h : (o : Op) → D.State → Ans o × D.State) : Prop :=
  ∀ s o, D.answer s o (h o s).1 (h o s).2

/-- The run of a handler from the states that it keeps to is an execution. -/
theorem Exec.of_run {h : (o : Op) → D.State → Ans o × D.State} {Inv : D.State → Prop}
    (hstep : ∀ s o, Inv s → D.answer s o (h o s).1 (h o s).2 ∧ Inv (h o s).2)
    (p : Program Op Ans α) {s : D.State} (hs : Inv s) :
    ∃ t, Exec D p s t (some (p.run h s).1) (p.run h s).2 := by
  induction p generalizing s with
  | ret a => exact ⟨[], .ret a s⟩
  | call o k ih =>
    obtain ⟨hanswer, hInv⟩ := hstep s o hs
    obtain ⟨t, ht⟩ := ih (h o s).1 hInv
    exact ⟨_, .call hanswer ht⟩

theorem Handles.exec {h : (o : Op) → D.State → Ans o × D.State} (hh : Handles D h)
    (p : Program Op Ans α) (s : D.State) :
    ∃ t, Exec D p s t (some (p.run h s).1) (p.run h s).2 := by
  have hstep : ∀ s o, True → D.answer s o (h o s).1 (h o s).2 ∧ True :=
    fun s o _ => ⟨hh s o, trivial⟩
  exact Exec.of_run hstep p trivial

end CortexLabs.Device

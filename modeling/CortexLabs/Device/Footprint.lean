import CortexLabs.Device.Program

/-! The operations that a program may issue, whatever the device answers, and the points inside an
execution.  What every operation of a kind keeps, an execution of a program that issues only that
kind keeps; and where a device that may lose power does no more than it would have answered, a
point inside an execution is one where that execution may be cut. -/

namespace CortexLabs.Device

variable {Op : Type} {Ans : Op → Type} {D : Behavior Op Ans} {α β : Type}

namespace Program

/-- Every operation that the program issues, whatever the answers to the ones before, is in `P`. -/
def Issues (P : Op → Prop) : Program Op Ans α → Prop
  | .ret _ => True
  | .call o k => P o ∧ ∀ r, (k r).Issues P

variable {P : Op → Prop}

theorem issues_bind {p : Program Op Ans α} {f : α → Program Op Ans β} (hp : p.Issues P)
    (hf : ∀ a, (f a).Issues P) : (p >>= f).Issues P := by
  induction p with
  | ret a => exact hf a
  | call o k ih => exact ⟨hp.1, fun r => ih r (hp.2 r)⟩

/-- What the operations of a sequence are in, the operations of its second part are in after some
value of the first. -/
theorem Issues.of_bind [∀ o, Nonempty (Ans o)] {p : Program Op Ans α} {f : α → Program Op Ans β}
    (h : (p >>= f).Issues P) : ∃ a, (f a).Issues P := by
  induction p with
  | ret a => exact ⟨a, h⟩
  | call o k ih =>
    obtain ⟨r⟩ := (inferInstance : Nonempty (Ans o))
    exact ih r (h.2 r)

theorem issues_foldlM {σ ι : Type} {body : σ → ι → Program Op Ans σ} {xs : List ι}
    (h : ∀ s, ∀ x ∈ xs, (body s x).Issues P) (s : σ) : (xs.foldlM body s).Issues P := by
  induction xs generalizing s with
  | nil => trivial
  | cons x xs ih =>
    rw [List.foldlM_cons]
    refine issues_bind (h s x List.mem_cons_self) fun s' => ?_
    exact ih (fun s y hy => h s y (List.mem_cons_of_mem x hy)) s'

theorem issues_any (p : Program Op Ans α) : p.Issues fun _ => True := by
  induction p with
  | ret a => trivial
  | call o k ih => exact ⟨trivial, ih⟩

theorem Issues.mono {P' : Op → Prop} {p : Program Op Ans α} (hp : p.Issues P)
    (h : ∀ o, P o → P' o) : p.Issues P' := by
  induction p with
  | ret a => trivial
  | call o k ih => exact ⟨h o hp.1, fun r => ih r (hp.2 r)⟩

theorem issues_issue {o : Op} (h : P o) : (issue o : Program Op Ans (Ans o)).Issues P :=
  ⟨h, fun _ => trivial⟩

end Program

/-- What every operation in `P` keeps, whether it is answered or cut, an execution of a program
that issues only such operations keeps. -/
theorem Exec.keeps {P : Op → Prop} {I : D.State → Prop}
    (hanswer : ∀ s o r s', P o → I s → D.answer s o r s' → I s')
    (htorn : ∀ s o s', P o → I s → D.torn s o s' → I s') {p : Program Op Ans α} {s s' : D.State}
    {t : List (Event D)} {x : Option α} (he : Exec D p s t x s') (hp : p.Issues P) (h : I s) :
    I s' := by
  induction he with
  | ret a s => exact h
  | call ha _ ih => exact ih (hp.2 _) (hanswer _ _ _ _ hp.1 h ha)
  | torn ht => exact htorn _ _ _ hp.1 h ht

/-- What is said of every operation of a program is said of those that an execution has issued. -/
theorem Exec.ops {P : Op → Prop} {p : Program Op Ans α} {s s' : D.State} {t : List (Event D)}
    {x : Option α} (he : Exec D p s t x s') (hp : p.Issues P) : ∀ e ∈ t, P e.op := by
  induction he with
  | ret a s => exact fun e h => absurd h List.not_mem_nil
  | call _ _ ih =>
    intro e h
    rcases List.mem_cons.mp h with rfl | h
    · exact hp.1
    · exact ih (hp.2 _) e h
  | torn _ =>
    intro e h
    rw [List.mem_singleton.mp h]
    exact hp.1

/-! ### Calls that follow others -/

section Calls

variable {Q Q' : List (Event D) → α → D.State → Prop} {C C' : List (Event D) → D.State → Prop}
  {p : Program Op Ans α} {s : D.State}

theorem Safe.and {t : List (Event D)} (h : Safe D Q C p t s) (h' : Safe D Q' C' p t s) :
    Safe D (fun t a s => Q t a s ∧ Q' t a s) (fun t s => C t s ∧ C' t s) p t s := by
  induction p generalizing t s with
  | ret a => exact ⟨h, h'⟩
  | call o k ih =>
    exact ⟨fun s1 h1 => ⟨h.1 s1 h1, h'.1 s1 h1⟩,
      fun r s1 h1 => ih r (h.2 r s1 h1) (h'.2 r s1 h1)⟩

/-- What a call does from the start, it does after other operations. -/
theorem Safe.after (t : List (Event D)) {u : List (Event D)} (h : Safe D Q C p u s) :
    Safe D (fun v a s => ∃ w, v = t ++ w ∧ Q w a s) (fun v s => ∃ w, v = t ++ w ∧ C w s) p
      (t ++ u) s := by
  induction p generalizing u s with
  | ret a => exact ⟨u, rfl, h⟩
  | call o k ih =>
    refine ⟨fun s1 h1 => ⟨_, List.append_assoc .., h.1 s1 h1⟩, fun r s1 h1 => ?_⟩
    rw [List.append_assoc]
    exact ih r (h.2 r s1 h1)

/-- A call with a guarantee of its own, and what follows it. -/
theorem Safe.call {R : List (Event D) → β → D.State → Prop} {B : List (Event D) → D.State → Prop}
    {f : α → Program Op Ans β} {t : List (Event D)} (h : Safe D Q C p [] s)
    (hcut : ∀ u s, C u s → B (t ++ u) s)
    (hf : ∀ u a s, Q u a s → Safe D R B (f a) (t ++ u) s) : Safe D R B (p >>= f) t s := by
  have hafter := h.after t
  rw [List.append_nil] at hafter
  refine Safe.bind (hafter.mono ?_ ?_)
  · rintro _ a s ⟨u, rfl, hQ⟩
    exact hf u a s hQ
  · rintro _ s ⟨u, rfl, hC⟩
    exact hcut u s hC

/-- The operations that a program issues are of its kind. -/
theorem Safe.issues {P : Op → Prop} (hp : p.Issues P) {t : List (Event D)}
    (ht : ∀ e ∈ t, P e.op) :
    Safe D (fun u _ _ => ∀ e ∈ u, P e.op) (fun u _ => ∀ e ∈ u, P e.op) p t s := by
  have hsnoc : ∀ e : Event D, P e.op → ∀ e' ∈ t ++ [e], P e'.op := by
    intro e he e' he'
    rcases List.mem_append.mp he' with hmem | hmem
    · exact ht e' hmem
    · exact List.mem_singleton.mp hmem ▸ he
  induction p generalizing t s with
  | ret a => exact ht
  | call o k ih =>
    refine ⟨fun s1 _ => hsnoc _ hp.1, fun r s1 _ => ih r (hp.2 r) (hsnoc _ hp.1) ?_⟩
    intro e he e' he'
    rcases List.mem_append.mp he' with hmem | hmem
    · exact hsnoc _ hp.1 e' hmem
    · exact List.mem_singleton.mp hmem ▸ he

/-- What every operation of a kind keeps, whether it is answered or cut, holds at every end of a
program that issues only that kind. -/
theorem Safe.keeps {P : Op → Prop} {I : D.State → Prop}
    (hanswer : ∀ s o r s', P o → I s → D.answer s o r s' → I s')
    (htorn : ∀ s o s', P o → I s → D.torn s o s' → I s') (hp : p.Issues P) (hs : I s)
    (t : List (Event D)) : Safe D (fun _ _ s => I s) (fun _ s => I s) p t s := by
  induction p generalizing t s with
  | ret a => exact hs
  | call o k ih =>
    exact ⟨fun s1 h1 => htorn s o s1 hp.1 hs h1,
      fun r s1 h1 => ih r (hp.2 r) (hanswer s o r s1 hp.1 hs h1) _⟩

end Calls

/-- The state after the operations `t`, from `s` on. -/
def reached : D.State → List (Event D) → D.State
  | s, [] => s
  | _, e :: t => reached e.after t

@[simp] theorem reached_nil (s : D.State) : reached s ([] : List (Event D)) = s := rfl

theorem reached_snoc (s : D.State) (t : List (Event D)) (e : Event D) :
    reached s (t ++ [e]) = e.after := by
  induction t generalizing s with
  | nil => rfl
  | cons f t ih => exact ih f.after

/-- An operation as it is seen when power fails in it. -/
def Event.cut (e : Event D) : Event D := ⟨e.op, none, e.after⟩

/-- Where the device may be cut in the state that it answers in, an execution may be cut at any of
its operations. -/
theorem Exec.cut (hcut : ∀ s o r s', D.answer s o r s' → D.torn s o s') {p : Program Op Ans α}
    {s s' : D.State} {t u : List (Event D)} {e : Event D} {x : Option α}
    (he : Exec D p s (t ++ e :: u) x s') : Exec D p s (t ++ [e.cut]) none e.after := by
  induction t generalizing p s with
  | nil =>
    cases he with
    | call ha _ => exact .torn (hcut _ _ _ _ ha)
    | torn ht => exact .torn ht
  | cons f t ih =>
    rw [List.cons_append] at he ⊢
    generalize hv : t ++ e :: u = v at he
    cases he with
    | call ha hrest => exact .call ha (ih (hv ▸ hrest))
    | torn ht => cases t <;> cases hv

end CortexLabs.Device

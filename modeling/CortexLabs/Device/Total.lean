import CortexLabs.Device.Footprint
import CortexLabs.Device.Wp

/-! Total correctness: a program that has an execution, and whose executions all return what they
are meant to, but for those that end in a fault where one is meant to be.  A device's `torn` is the
fault here: the operation does not come back to the program. -/

namespace CortexLabs.Device

variable {Op : Type} {Ans : Op → Type} {D : Behavior Op Ans} {α β σ ι : Type}

theorem Exec.bind {p : Program Op Ans α} {f : α → Program Op Ans β} {s s1 s2 : D.State}
    {t u : List (Event D)} {a : α} {x : Option β} (h : Exec D p s t (some a) s1)
    (hf : Exec D (f a) s1 u x s2) : Exec D (p.bind f) s (t ++ u) x s2 := by
  induction p generalizing s t with
  | ret b =>
    obtain ⟨rfl, rfl, rfl⟩ := h.of_ret
    exact hf
  | call o k ih =>
    obtain ⟨r, s', v, hanswer, rfl, hrest⟩ := h.of_call
    exact .call hanswer (ih r hrest)

theorem Exec.bind_fault {p : Program Op Ans α} (f : α → Program Op Ans β) {s s1 : D.State}
    {t : List (Event D)} (h : Exec D p s t none s1) : Exec D (p.bind f) s t none s1 := by
  induction p generalizing s t with
  | ret b => cases h
  | call o k ih =>
    cases h with
    | call hanswer hrest => exact .call hanswer (ih _ hrest)
    | torn htorn => exact .torn htorn

/-- From `s` the program has an execution, and each one returns with its value and state in `Q`,
but for one that faults, for which `C` has to be. -/
structure Total (D : Behavior Op Ans) (Q : α → D.State → Prop) (C : Prop) (p : Program Op Ans α)
    (s : D.State) : Prop where
  safe : ∀ t, Safe D (fun _ a s => Q a s) (fun _ _ => C) p t s
  exec : ∃ t x s', Exec D p s t x s'

namespace Total

variable {Q Q' : α → D.State → Prop} {C C' : Prop} {p : Program Op Ans α} {s : D.State}

theorem ret {a : α} (h : Q a s) : Total D Q C (.ret a) s :=
  ⟨fun _ => h, [], some a, s, .ret a s⟩

theorem mono (h : Total D Q C p s) (hQ : ∀ a s, Q a s → Q' a s) (hC : C → C') :
    Total D Q' C' p s :=
  ⟨fun t => (h.safe t).mono (fun _ => hQ) fun _ _ => hC, h.exec⟩

theorem seq {R : β → D.State → Prop} {f : α → Program Op Ans β} (h : Total D Q C p s)
    (hf : ∀ a s, Q a s → Total D R C (f a) s) : Total D R C (p >>= f) s := by
  refine ⟨fun t => Safe.bind ((h.safe t).mono (fun t a s ha => (hf a s ha).safe t) fun _ _ h => h),
    ?_⟩
  obtain ⟨t, x, s1, he⟩ := h.exec
  cases x with
  | none => exact ⟨t, none, s1, he.bind_fault f⟩
  | some a =>
    obtain ⟨u, y, s2, hu⟩ := (hf a s1 (((h.safe []).sound he).1 a rfl)).exec
    exact ⟨t ++ u, y, s2, he.bind hu⟩

/-- An operation that the device answers, or faults on. -/
theorem call {o : Op} {k : Ans o → Program Op Ans α}
    (hsome : (∃ r s1, D.answer s o r s1) ∨ ∃ s1, D.torn s o s1)
    (htorn : ∀ s1, D.torn s o s1 → C)
    (hanswer : ∀ r s1, D.answer s o r s1 → Total D Q C (k r) s1) :
    Total D Q C (.call o k) s := by
  refine ⟨fun t => ⟨fun s1 h => htorn s1 h, fun r s1 h => (hanswer r s1 h).safe _⟩, ?_⟩
  rcases hsome with ⟨r, s1, h⟩ | ⟨s1, h⟩
  · obtain ⟨t, x, s2, he⟩ := (hanswer r s1 h).exec
    exact ⟨_, x, s2, .call h he⟩
  · exact ⟨_, none, s1, .torn h⟩

/-- A program that never faults comes to an end, and always the one that it is meant to. -/
theorem result (h : Total D Q False p s) : (∃ t a s', Exec D p s t (some a) s') ∧
    ∀ t x s', Exec D p s t x s' → ∃ a, x = some a ∧ Q a s' := by
  have hall : ∀ t x s', Exec D p s t x s' → ∃ a, x = some a ∧ Q a s' := by
    intro t x s' he
    obtain ⟨hsome, hnone⟩ := (h.safe []).sound he
    cases x with
    | none => exact (hnone rfl).elim
    | some a => exact ⟨a, rfl, hsome a rfl⟩
  obtain ⟨t, x, s', he⟩ := h.exec
  obtain ⟨a, rfl, -⟩ := hall t x s' he
  exact ⟨⟨t, a, s', he⟩, hall⟩

end Total

/-! ### Programs that do not use all of a device -/

section Issues

variable {E : Behavior Op Ans} {P : Op → Prop} {f : E.State → D.State} {Q : α → D.State → Prop}
  {C : Prop}

/-- What a program guarantees over a device, it guarantees over another one that is the same for the
operations that the program issues. -/
theorem Total.of_wp
    (hanswer : ∀ s o r s1, P o → (E.answer s o r s1 → D.answer (f s) o r (f s1)))
    (hprogress : ∀ s o, P o → ∃ r s1, E.answer s o r s1)
    (htorn : ∀ s o s1, P o → ¬E.torn s o s1) {p : Program Op Ans α} (hp : p.Issues P) {s : E.State}
    (h : wp D Q p (f s)) : Total E (fun a s => Q a (f s)) C p s := by
  induction p generalizing s with
  | ret a => exact .ret h
  | call o k ih =>
    exact .call (.inl (hprogress s o hp.1)) (fun s1 hs1 => (htorn s o s1 hp.1 hs1).elim)
      fun r s1 hs1 => ih r (hp.2 r) (h r (f s1) (hanswer s o r s1 hp.1 hs1))

end Issues

/-! ### Sequences of calls -/

/-- The replies of a sequential machine that may fault, none if it does. -/
def repliesOrFault (reply : σ → ι → Option (β × σ)) : σ → List ι → Option (List β)
  | _, [] => some []
  | s, x :: xs => (reply s x).bind fun r => (repliesOrFault reply r.2 xs).map (r.1 :: ·)

/-- Calls that each reply, or fault, as a sequential machine does reply, or fault, so one after the
other. -/
theorem total_mapM {reply : σ → ι → Option (β × σ)} {I : σ → D.State → Prop}
    {p : ι → Program Op Ans β} (xs : List ι)
    (h : ∀ s, ∀ x ∈ xs, ∀ d, I s d → Total D (fun r d => ∃ s', reply s x = some (r, s') ∧
      I s' d) (reply s x = none) (p x) d)
    {s : σ} {d : D.State} (hd : I s d) :
    Total D (fun rs _ => repliesOrFault reply s xs = some rs) (repliesOrFault reply s xs = none)
      (xs.mapM p) d := by
  induction xs generalizing s d with
  | nil => exact .ret rfl
  | cons x xs ih =>
    rw [List.mapM_cons]
    refine ((h s x (List.mem_cons_self ..) d hd).mono (fun _ _ h => h) fun hreply => ?_).seq ?_
    · rw [repliesOrFault, hreply]
      rfl
    · rintro r d1 ⟨s', hreply, h1⟩
      refine ((ih (fun s y hy => h s y (List.mem_cons_of_mem x hy)) h1).mono (fun _ _ h => h)
        fun hrest => ?_).seq fun rs d2 hrest => .ret ?_
      · rw [repliesOrFault, hreply, Option.bind_some, hrest]
        rfl
      · rw [repliesOrFault, hreply, Option.bind_some, hrest]
        rfl

/-- Calls and their results, one after the other, as `step` relates them. -/
inductive Sequence (step : σ → ι → β → σ → Prop) : σ → List ι → List β → σ → Prop
  | nil (s : σ) : Sequence step s [] [] s
  | cons {s s1 s2 : σ} {x : ι} {xs : List ι} {r : β} {rs : List β} :
    step s x r s1 → Sequence step s1 xs rs s2 → Sequence step s (x :: xs) (r :: rs) s2

theorem total_sequence {step : σ → ι → β → σ → Prop} {I : σ → D.State → Prop}
    {p : ι → Program Op Ans β} (xs : List ι)
    (h : ∀ s, ∀ x ∈ xs, ∀ d, I s d →
      Total D (fun r d => ∃ s', step s x r s' ∧ I s' d) False (p x) d)
    {s : σ} {d : D.State} (hd : I s d) :
    Total D (fun rs d => ∃ s', Sequence step s xs rs s' ∧ I s' d) False (xs.mapM p) d := by
  induction xs generalizing s d with
  | nil => exact .ret ⟨s, .nil s, hd⟩
  | cons x xs ih =>
    rw [List.mapM_cons]
    refine (h s x (List.mem_cons_self ..) d hd).seq ?_
    rintro r d1 ⟨s1, hstep, h1⟩
    refine (ih (fun s y hy => h s y (List.mem_cons_of_mem x hy)) h1).seq ?_
    rintro rs d2 ⟨s2, hrest, h2⟩
    exact .ret ⟨s2, .cons hstep hrest, h2⟩

end CortexLabs.Device

import CortexLabs.Device.Program

/-! What holds when a program returns, whatever the device answers: the weakest precondition of a
program, its rules, and loops whose body returns a status. -/

namespace CortexLabs.Device

variable {Op : Type} {Ans : Op → Type} {D : Behavior Op Ans} {α β σ ι : Type}

/-- From `s`, every execution of the program that returns ends with its value and state in `Q`. -/
def wp (D : Behavior Op Ans) (Q : α → D.State → Prop) : Program Op Ans α → D.State → Prop
  | .ret a, s => Q a s
  | .call o k, s => ∀ r s1, D.answer s o r s1 → wp D Q (k r) s1

section Rules

variable {Q Q' : α → D.State → Prop} {s : D.State}

@[simp] theorem wp_ret {a : α} : wp D Q (.ret a) s ↔ Q a s := Iff.rfl

@[simp] theorem wp_pure {a : α} : wp D Q (pure a) s ↔ Q a s := Iff.rfl

theorem wp_any (p : Program Op Ans α) (s : D.State) : wp D (fun _ _ => True) p s := by
  induction p generalizing s with
  | ret a => trivial
  | call o k ih => exact fun r s1 _ => ih r s1

theorem wp_mono {p : Program Op Ans α} (h : wp D Q p s) (hQ : ∀ a s, Q a s → Q' a s) :
    wp D Q' p s := by
  induction p generalizing s with
  | ret a => exact hQ a s h
  | call o k ih => exact fun r s1 h1 => ih r (h r s1 h1)

theorem wp_bind {R : β → D.State → Prop} {p : Program Op Ans α} {f : α → Program Op Ans β} :
    wp D R (p >>= f) s ↔ wp D (fun a s => wp D R (f a) s) p s := by
  induction p generalizing s with
  | ret a => exact Iff.rfl
  | call o k ih => exact forall_congr' fun r => forall_congr' fun s1 => imp_congr_right fun _ => ih r

/-- A sequence whose first part leads where its second part is right. -/
theorem wp_seq {R : β → D.State → Prop} {p : Program Op Ans α} {f : α → Program Op Ans β}
    (h : wp D Q p s) (hf : ∀ a s, Q a s → wp D R (f a) s) : wp D R (p >>= f) s :=
  wp_bind.mpr (wp_mono h hf)

/-- A sequence whose first part returns the status `ok`, so that the check that follows it goes on. -/
theorem wp_seq_ok {P : D.State → Prop} {R : β → D.State → Prop} {ok : Int}
    {p : Program Op Ans Int} {bad good : Int → Program Op Ans β}
    (h : wp D (fun status s => status = ok ∧ P s) p s) (hgood : ∀ s, P s → wp D R (good ok) s) :
    wp D R (p >>= fun status => if status ≠ ok then bad status else good status) s := by
  refine wp_seq h ?_
  rintro _ s1 ⟨rfl, hp⟩
  rw [if_neg (not_not.mpr rfl)]
  exact hgood s1 hp

theorem wp_sound {p : Program Op Ans α} {t : List (Event D)} {a : α} {s' : D.State}
    (h : wp D Q p s) (he : Exec D p s t (some a) s') : Q a s' := by
  induction p generalizing s t with
  | ret b =>
    obtain ⟨-, rfl, rfl⟩ := he.of_ret
    exact h
  | call o k ih =>
    obtain ⟨r, s1, u, hanswer, -, hrest⟩ := he.of_call
    exact ih r (h r s1 hanswer) hrest

end Rules

/-- `for (x : xs) { status = body(x); if (status != 0) return status; } return 0;` -/
def forEachM (body : σ → ι → Program Op Ans (Int × σ)) : σ → List ι → Program Op Ans (Int × σ)
  | s, [] => pure (0, s)
  | s, x :: xs => do
    let (status, s) ← body s x
    if status ≠ 0 then return (status, s)
    forEachM body s xs

/-- A turn of a loop either fails, and then what it has left is right, or goes on to the rest. -/
theorem wp_forEachM_cons {Q : Int × σ → D.State → Prop} {body : σ → ι → Program Op Ans (Int × σ)}
    {s : σ} {x : ι} {xs : List ι} {d : D.State}
    (h : wp D (fun r d => (r.1 ≠ 0 → Q r d) ∧ (r.1 = 0 → wp D Q (forEachM body r.2 xs) d))
      (body s x) d) :
    wp D Q (forEachM body s (x :: xs)) d := by
  refine wp_seq h ?_
  rintro ⟨status, s⟩ d ⟨hbad, hgood⟩
  dsimp only at hbad hgood ⊢
  split
  · next hstatus => exact hbad hstatus
  · next hstatus => exact hgood (not_not.mp hstatus)

/-- What holds of the turns done and the state before each turn holds of all of them at the end. -/
theorem wp_forEachM {Q : Int × σ → D.State → Prop} {body : σ → ι → Program Op Ans (Int × σ)}
    {I : List ι → σ → D.State → Prop} {xs : List ι} {s : σ} {d : D.State} (h0 : I [] s d)
    (hstep : ∀ done x rest s d, xs = done ++ x :: rest → I done s d →
      wp D (fun r d => (r.1 ≠ 0 → Q r d) ∧ (r.1 = 0 → I (done ++ [x]) r.2 d)) (body s x) d)
    (hend : ∀ s d, I xs s d → Q (0, s) d) : wp D Q (forEachM body s xs) d := by
  suffices h : ∀ rest done s d, xs = done ++ rest → I done s d →
      wp D Q (forEachM body s rest) d from h xs [] s d rfl h0
  intro rest
  induction rest with
  | nil =>
    intro done s d hxs hI
    rw [List.append_nil] at hxs
    subst hxs
    exact hend s d hI
  | cons x rest ih =>
    intro done s d hxs hI
    refine wp_forEachM_cons (wp_mono (hstep done x rest s d hxs hI) ?_)
    rintro r d ⟨hbad, hgood⟩
    refine ⟨hbad, fun hok => ih (done ++ [x]) r.2 d ?_ (hgood hok)⟩
    rw [hxs, List.append_assoc]
    rfl

theorem of_range_eq_append {n x : Nat} {done rest : List Nat}
    (h : List.range n = done ++ x :: rest) : x = done.length ∧ done.length < n := by
  have hlen := congrArg List.length h
  rw [List.length_range, List.length_append, List.length_cons] at hlen
  rw [List.range_eq_range'] at h
  obtain ⟨k, -, rfl, hrest⟩ := List.range'_eq_append_iff.mp h
  have hx := (List.range'_eq_cons_iff.mp hrest.symm).1
  rw [List.length_range'] at hlen ⊢
  omega

/-- What holds after any number of turns of a counted loop holds after all of them. -/
theorem wp_forEachM_range {Q : Int × σ → D.State → Prop} {body : σ → Nat → Program Op Ans (Int × σ)}
    {I : Nat → σ → D.State → Prop} {n : Nat} {s : σ} {d : D.State} (h0 : I 0 s d)
    (hstep : ∀ k < n, ∀ s d, I k s d →
      wp D (fun r d => (r.1 ≠ 0 → Q r d) ∧ (r.1 = 0 → I (k + 1) r.2 d)) (body s k) d)
    (hend : ∀ s d, I n s d → Q (0, s) d) : wp D Q (forEachM body s (List.range n)) d := by
  refine wp_forEachM (I := fun done => I done.length) h0 ?_ ?_
  · intro done x rest s d hxs hI
    obtain ⟨rfl, hlt⟩ := of_range_eq_append hxs
    refine wp_mono (hstep done.length hlt s d hI) ?_
    rintro r d ⟨hbad, hgood⟩
    refine ⟨hbad, fun hok => ?_⟩
    rw [List.length_append]
    exact hgood hok
  · intro s d hI
    rw [List.length_range] at hI
    exact hend s d hI

/-- A loop whose body returns no status, and whose turns keep what holds of the ones done. -/
theorem wp_foldlM {body : σ → ι → Program Op Ans σ} {I : List ι → σ → D.State → Prop}
    {xs : List ι} {s : σ} {d : D.State} (h0 : I [] s d)
    (hstep : ∀ done x rest s d, xs = done ++ x :: rest → I done s d →
      wp D (I (done ++ [x])) (body s x) d) : wp D (I xs) (xs.foldlM body s) d := by
  suffices h : ∀ rest done s d, xs = done ++ rest → I done s d →
      wp D (I xs) (rest.foldlM body s) d from h xs [] s d rfl h0
  intro rest
  induction rest with
  | nil =>
    intro done s d hxs hI
    rw [List.append_nil] at hxs
    subst hxs
    exact hI
  | cons x rest ih =>
    intro done s d hxs hI
    rw [List.foldlM_cons]
    refine wp_seq (hstep done x rest s d hxs hI) fun s d hI => ih (done ++ [x]) s d ?_ hI
    rw [hxs, List.append_assoc]
    rfl

theorem wp_foldlM_range {body : σ → Nat → Program Op Ans σ} {I : Nat → σ → D.State → Prop}
    {n : Nat} {s : σ} {d : D.State} (h0 : I 0 s d)
    (hstep : ∀ k < n, ∀ s d, I k s d → wp D (I (k + 1)) (body s k) d) :
    wp D (I n) ((List.range n).foldlM body s) d := by
  have h : wp D (I (List.range n).length) ((List.range n).foldlM body s) d := by
    refine wp_foldlM (I := fun done => I done.length) h0 fun done x rest s d hxs hI => ?_
    obtain ⟨rfl, hlt⟩ := of_range_eq_append hxs
    rw [List.length_append]
    exact hstep done.length hlt s d hI
  rwa [List.length_range] at h

/-- The replies of a sequential machine to one input after the other, and the state that it is left
in. -/
def replies (reply : σ → ι → β × σ) : σ → List ι → List β × σ
  | s, [] => ([], s)
  | s, x :: xs => ((reply s x).1 :: (replies reply (reply s x).2 xs).1,
      (replies reply (reply s x).2 xs).2)

/-- A machine without a state replies to each input alike. -/
theorem replies_map (f : ι → β) (xs : List ι) (s : Unit) :
    (replies (fun (_ : Unit) x => (f x, ())) s xs).1 = xs.map f := by
  induction xs with
  | nil => rfl
  | cons x xs ih => exact congrArg (f x :: ·) ih

/-- Calls that each reply as a sequential machine does reply so one after the other. -/
theorem wp_mapM {reply : σ → ι → β × σ} {Inv : σ → D.State → Prop} {p : ι → Program Op Ans β}
    (h : ∀ s x d, Inv s d → wp D (fun r d => r = (reply s x).1 ∧ Inv (reply s x).2 d) (p x) d)
    (xs : List ι) {s : σ} {d : D.State} (hd : Inv s d) :
    wp D (fun rs d => rs = (replies reply s xs).1 ∧ Inv (replies reply s xs).2 d)
      (xs.mapM p) d := by
  induction xs generalizing s d with
  | nil => exact ⟨rfl, hd⟩
  | cons x xs ih =>
    rw [List.mapM_cons]
    refine wp_seq (h s x d hd) ?_
    rintro _ d1 ⟨rfl, h1⟩
    refine wp_seq (ih h1) ?_
    rintro _ d2 ⟨rfl, h2⟩
    exact ⟨rfl, h2⟩

end CortexLabs.Device

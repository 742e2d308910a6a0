import CortexLabs.Device.Program
import Mathlib.Data.List.Forall2

/-! Operations that a program issues one after the other, each with the status that its answer
leaves, up to the first status that is not zero, which the program returns. -/

namespace CortexLabs.Device

/-- An operation, with the status that its answer leaves: zero to go on. -/
structure Stage (Op : Type) (Ans : Op → Type) where
  op : Op
  status : Ans op → Int

variable {Op : Type} {Ans : Op → Type} {D : Behavior Op Ans} {α : Type}

/-- The stages in turn, and the first status that is not zero. -/
def performAll : List (Stage Op Ans) → Program Op Ans Int
  | [] => pure 0
  | stage :: rest => do
    let r ← Program.issue stage.op
    if stage.status r ≠ 0 then return stage.status r
    performAll rest

/-- The event is the stage's operation, answered with status zero. -/
def Stage.Passed (stage : Stage Op Ans) (e : Event D) : Prop :=
  ∃ r s, e = ⟨stage.op, some r, s⟩ ∧ stage.status r = 0

/-- The stages were performed up to one whose status was not zero, the last operation issued. -/
def FailedAt (D : Behavior Op Ans) (stages : List (Stage Op Ans)) (t : List (Event D)) (rc : Int) :
    Prop :=
  ∃ done stage rest u r s, stages = done ++ stage :: rest ∧ t = u ++ [⟨stage.op, some r, s⟩] ∧
    List.Forall₂ Stage.Passed done u ∧ rc = stage.status r

/-- Performing the stages issued the operations `t` and returned `rc`: zero when all have passed,
and the status of the first one that has not, after which none is issued. -/
structure Performed (D : Behavior Op Ans) (stages : List (Stage Op Ans)) (t : List (Event D))
    (rc : Int) : Prop where
  passed : rc = 0 ↔ List.Forall₂ Stage.Passed stages t
  failed : rc ≠ 0 → FailedAt D stages t rc

theorem performAll_cons (stage : Stage Op Ans) (rest : List (Stage Op Ans)) :
    performAll (stage :: rest) = .call stage.op fun r =>
      if stage.status r ≠ 0 then .ret (stage.status r) else performAll rest := rfl

/-- Plans one after the other are one plan. -/
theorem performAll_append (first second : List (Stage Op Ans)) (f : Int → Program Op Ans α) :
    (performAll first >>= fun rc => if rc ≠ 0 then f rc else performAll second >>= f) =
      performAll (first ++ second) >>= f := by
  induction first with
  | nil => rfl
  | cons stage rest ih =>
    rw [List.cons_append, performAll_cons, performAll_cons]
    simp only [Program.bind_eq, Program.call_bind]
    congr 1
    funext r
    by_cases hr : stage.status r = 0
    · rw [if_neg (not_not.mpr hr), if_neg (not_not.mpr hr)]
      exact ih
    · rw [if_pos hr, if_pos hr, Program.ret_bind, Program.ret_bind, if_pos hr]

theorem Stage.passed_iff {stage : Stage Op Ans} {r : Ans stage.op} {s : D.State} :
    stage.Passed ⟨stage.op, some r, s⟩ ↔ stage.status r = 0 := by
  constructor
  · rintro ⟨r', s', he, hr⟩
    cases he
    exact hr
  · exact fun hr => ⟨r, s, rfl, hr⟩

theorem passed_ops {stages : List (Stage Op Ans)} {t : List (Event D)}
    (h : List.Forall₂ Stage.Passed stages t) : t.map Event.op = stages.map Stage.op := by
  induction h with
  | nil => rfl
  | cons hstage _ ih =>
    obtain ⟨r, s, rfl, -⟩ := hstage
    rw [List.map_cons, List.map_cons, ih]

namespace Performed

variable {stage : Stage Op Ans} {stages : List (Stage Op Ans)} {t : List (Event D)} {rc : Int}

theorem nil : Performed D ([] : List (Stage Op Ans)) [] 0 :=
  ⟨⟨fun _ => .nil, fun _ => rfl⟩, fun h => absurd rfl h⟩

/-- A stage that has not passed is the last one. -/
theorem stop {r : Ans stage.op} {s : D.State} (hr : stage.status r ≠ 0) :
    Performed D (stage :: stages) [⟨stage.op, some r, s⟩] (stage.status r) := by
  constructor
  · constructor
    · exact fun h => absurd h hr
    · intro h
      cases h with
      | cons hstage _ => exact absurd (Stage.passed_iff.mp hstage) hr
  · exact fun _ => ⟨[], stage, stages, [], r, s, rfl, rfl, .nil, rfl⟩

/-- After a stage that has passed come the others. -/
theorem cons {r : Ans stage.op} {s : D.State} (hr : stage.status r = 0)
    (h : Performed D stages t rc) :
    Performed D (stage :: stages) (⟨stage.op, some r, s⟩ :: t) rc := by
  constructor
  · rw [h.passed, List.forall₂_cons]
    exact (and_iff_right (Stage.passed_iff.mpr hr)).symm
  · intro hrc
    obtain ⟨done, last, rest, u, r', s', rfl, rfl, hdone, rfl⟩ := h.failed hrc
    exact ⟨stage :: done, last, rest, _ :: u, r', s', rfl, rfl,
      .cons (Stage.passed_iff.mpr hr) hdone, rfl⟩

/-- The operations issued are the first ones of the plan. -/
theorem ops (h : Performed D stages t rc) : t.map Event.op <+: stages.map Stage.op := by
  by_cases hrc : rc = 0
  · exact ⟨[], by rw [List.append_nil, passed_ops (h.passed.mp hrc)]⟩
  · obtain ⟨done, last, rest, u, r, s, rfl, rfl, hdone, -⟩ := h.failed hrc
    rw [List.map_append, List.map_append, passed_ops hdone]
    exact ⟨rest.map Stage.op, by simp⟩

end Performed

/-- An execution of a plan and of what makes a value of its status has performed its stages. -/
theorem performed_of_exec {stages : List (Stage Op Ans)} {f : Int → α} {s s' : D.State}
    {t : List (Event D)} {a : α}
    (he : Exec D (performAll stages >>= fun rc => pure (f rc)) s t (some a) s') :
    ∃ rc, Performed D stages t rc ∧ a = f rc := by
  induction stages generalizing s t with
  | nil =>
    obtain ⟨rfl, rfl, -⟩ := he.of_ret
    exact ⟨0, .nil, rfl⟩
  | cons stage rest ih =>
    rw [performAll_cons, Program.bind_eq, Program.call_bind] at he
    obtain ⟨r, s1, u, -, rfl, hrest⟩ := he.of_call
    by_cases hr : stage.status r = 0
    · rw [if_neg (not_not.mpr hr)] at hrest
      obtain ⟨rc, hperformed, ha⟩ := ih hrest
      exact ⟨rc, hperformed.cons hr, ha⟩
    · rw [if_pos hr] at hrest
      obtain ⟨rfl, rfl, -⟩ := hrest.of_ret
      exact ⟨stage.status r, .stop hr, rfl⟩

end CortexLabs.Device

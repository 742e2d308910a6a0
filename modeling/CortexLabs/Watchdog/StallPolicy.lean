import CortexLabs.Watchdog.Heartbeat
import Mathlib.Tactic.FinCases

/-! What a stall does.  A history follows the operations of all threads.  A feed takes a report of
each task, a report a unit of work, and a task that is stalled has at most two reports left: the one
in the mask, and one that its thread is on its way to.  Only the mutex keeps a report from being
taken twice. -/

namespace CortexLabs.Watchdog.Heartbeat

open Device Errno Relation

/-! ### The policy -/

/-- The units of work of a task, whether its bit is set in the effective mask, and then the feeds
since it was; whether its thread has seen that bit, and then the feeds since it did.  The last two
follow the report under way: the thread has found its bit clear, and has counted its unit. -/
structure Task where
  units : Nat
  stalled : Bool
  since : Nat
  observed : Bool
  sinceObserved : Nat
  tested : Bool
  ready : Bool

/-- The successful feeds, whether one has failed, whether the last one is still to be cleared from
the mask, and whether the debugger has set anything. -/
structure History where
  feeds : Nat
  failed : Bool
  clearing : Bool
  debugged : Bool
  task : Fin 2 → Task

namespace Task

def start : Task := ⟨0, false, 0, false, 0, false, false⟩

def stall (t : Task) (stalled : Bool) : Task :=
  if stalled then { t with stalled } else { t with
    stalled, since := 0, observed := false, sinceObserved := 0 }

def fed (t : Task) : Task :=
  { t with
    since := t.since + t.stalled.toNat
    sinceObserved := t.sinceObserved + t.observed.toNat }

def test (t : Task) (stalled : Bool) : Task :=
  if stalled then { t with observed := true } else { t with tested := true }

def work (t : Task) : Task := { t with units := t.units + 1, ready := true }

def report (t : Task) : Task := { t with tested := false, ready := false }

end Task

namespace History

def start : History := ⟨0, false, false, false, fun _ => .start⟩

def next (h : History) : Entry → History
  | ⟨.main, .write .effectiveStallMask x, _⟩ =>
    { h with task := fun id => (h.task id).stall (x.getLsbD id) }
  | ⟨.main, .kernel (.feed _ _), rc⟩ =>
    if rc = 0 then { h with
      feeds := h.feeds + 1, clearing := true, task := fun id => (h.task id).fed }
    else { h with failed := true }
  | ⟨.main, .writeReportedMask _, _⟩ => { h with clearing := false }
  | ⟨.worker id, .read .effectiveStallMask, x⟩ =>
    { h with task := Function.update h.task id ((h.task id).test (x.getLsbD id)) }
  | ⟨.worker id, .write (.workUnits _) _, _⟩ =>
    { h with task := Function.update h.task id (h.task id).work }
  | ⟨.worker id, .writeReportedMask _, _⟩ =>
    { h with task := Function.update h.task id (h.task id).report }
  | ⟨.debugger, .write _ _, _⟩ => { h with debugged := true }
  | _ => h

/-- The watchdog is fed by `main`, never after a failure, and with a unit of work of each task that no
other feed was for; at most twice after a task is stalled, and at most once after its thread has seen
that it is. -/
def Allows (h : History) : Entry → Prop
  | ⟨i, .kernel (.feed _ _), _⟩ => i = .main ∧ h.failed = false ∧ ∀ id,
      h.feeds < (h.task id).units ∧ ((h.task id).stalled = true → (h.task id).since < 2) ∧
        ((h.task id).observed = true → (h.task id).sinceObserved < 1)
  | _ => True

end History

def stallPolicy : Monitor History Entry := ⟨.start, History.next, History.Allows⟩

/-! ### The invariant -/

/-- What the invariant is about. -/
structure Facts where
  ctx : WatchdogCtx
  owner : Option Thread
  created : Fin 2 → Bool
  effective : Word
  auto : Word
  stallMask : Word
  feeds : Word
  history : History

def Shared.facts (s : Shared) : Facts where
  ctx := s.ctx
  owner := s.owner
  created := s.created
  effective := s.vars .effectiveStallMask
  auto := s.vars .autoStallAfterFeeds
  stallMask := s.vars .stallMask
  feeds := s.vars .successfulFeeds
  history := stallPolicy.after s.log

/-- A task with `held` reports in the mask that are still to be fed. -/
structure Task.Sound (feeds held : Nat) (t : Task) : Prop where
  worked : feeds + held + t.ready.toNat ≤ t.units
  unstalled : t.stalled = false → t.since = 0 ∧ t.observed = false
  stalled : t.stalled = true → t.since + held + t.tested.toNat ≤ 2
  unobserved : t.observed = false → t.sinceObserved = 0
  observed : t.observed = true → t.tested = false ∧ t.sinceObserved + held ≤ 1

namespace Facts

/-- The reports of a task in the mask, but for one that a feed has taken already. -/
def held (f : Facts) (id : Fin 2) : Nat :=
  (f.ctx.reportedMask.getLsbD id && !f.history.clearing).toNat

/-- With `n` as the initial number of feeds before the demonstration stalls task 1. -/
structure Sound (n : Word) (f : Facts) : Prop where
  stalled : ∀ id, (f.history.task id).stalled = f.effective.getLsbD id
  task : ∀ id, (f.history.task id).Sound f.history.feeds (f.held id)
  failed : f.history.failed = true → f.ctx.state ≠ .running ∨ f.owner = some .main
  clearing : f.history.clearing = true → f.owner = some .main
  auto : f.history.debugged = false → f.auto = n
  sticky : f.history.debugged = false → n ≠ 0 → (f.history.task 1).stalled = true →
    f.stallMask.getLsbD 1 = true
  bound : f.history.debugged = false → n ≠ 0 →
    f.history.feeds ≤ n.toNat + (f.history.task 1).since

/-- What only `main` changes. -/
structure Served (f f' : Facts) : Prop where
  feeds : f'.feeds = f.feeds
  created : f'.created = f.created
  history : f'.history.feeds = f.history.feeds ∧ f'.history.failed = f.history.failed ∧
    f'.history.clearing = f.history.clearing
  stalled : ∀ id, (f'.history.task id).stalled = (f.history.task id).stalled
  debugged : f'.history.debugged = false → f.history.debugged = false ∧ f'.stallMask = f.stallMask
  alone : (∀ id, f.created id = false) → f'.owner = f.owner

/-- What a thread relies on the others to leave. -/
structure Keep (i : Thread) (f f' : Facts) : Prop where
  held : f.owner = some i → f'.owner = some i ∧ f'.ctx = f.ctx
  free : f.owner ≠ some i → f'.owner ≠ some i
  created : ∀ id, f.created id = true → f'.created id = true
  worker : ∀ id, i = .worker id → (f'.history.task id).tested = (f.history.task id).tested ∧
    (f'.history.task id).ready = (f.history.task id).ready
  main : i = .main → f.Served f'

variable {n : Word} {i : Thread} {f f' f'' : Facts}

theorem Served.refl (f : Facts) : f.Served f :=
  ⟨rfl, rfl, ⟨rfl, rfl, rfl⟩, fun _ => rfl, fun h => ⟨h, rfl⟩, fun _ => rfl⟩

theorem Served.trans (h : f.Served f') (h' : f'.Served f'') : f.Served f'' where
  feeds := h'.feeds.trans h.feeds
  created := h'.created.trans h.created
  history := ⟨h'.history.1.trans h.history.1, h'.history.2.1.trans h.history.2.1,
    h'.history.2.2.trans h.history.2.2⟩
  stalled id := (h'.stalled id).trans (h.stalled id)
  debugged hd := by
    obtain ⟨hd', hmask'⟩ := h'.debugged hd
    obtain ⟨hd'', hmask⟩ := h.debugged hd'
    exact ⟨hd'', hmask'.trans hmask⟩
  alone hnone := (h'.alone (by rwa [h.created])).trans (h.alone hnone)

theorem Keep.refl (i : Thread) (f : Facts) : Keep i f f :=
  ⟨fun h => ⟨h, rfl⟩, id, fun _ => id, fun _ _ => ⟨rfl, rfl⟩, fun _ => .refl f⟩

theorem Keep.trans (h : Keep i f f') (h' : Keep i f' f'') : Keep i f f'' where
  held hi := by
    obtain ⟨hi', hctx⟩ := h.held hi
    obtain ⟨hi'', hctx'⟩ := h'.held hi'
    exact ⟨hi'', hctx'.trans hctx⟩
  free hi := h'.free (h.free hi)
  created id hid := h'.created id (h.created id hid)
  worker id hid := ⟨(h'.worker id hid).1.trans (h.worker id hid).1,
    (h'.worker id hid).2.trans (h.worker id hid).2⟩
  main hi := (h.main hi).trans (h'.main hi)

end Facts

/-! ### Steps of a task -/

theorem Task.stall_stalled (t : Task) (stalled : Bool) : (t.stall stalled).stalled = stalled := by
  cases stalled <;> rfl

/-- A stall leaves the report under way. -/
theorem Task.stall_report (t : Task) (stalled : Bool) :
    (t.stall stalled).tested = t.tested ∧ (t.stall stalled).ready = t.ready := by
  cases stalled <;> exact ⟨rfl, rfl⟩

namespace Task.Sound

variable {feeds held held' : Nat} {t : Task}

theorem drop (h : t.Sound feeds held) (hle : held' ≤ held) : t.Sound feeds held' where
  worked := by have := h.worked; omega
  unstalled := h.unstalled
  stalled hs := by have := h.stalled hs; omega
  unobserved := h.unobserved
  observed ho := by have := h.observed ho; exact ⟨this.1, by omega⟩

theorem stall (h : t.Sound feeds held) (hheld : held ≤ 1) (stalled : Bool) :
    (t.stall stalled).Sound feeds held := by
  have htested : t.tested.toNat ≤ 1 := Bool.toNat_le t.tested
  cases stalled with
  | false => exact ⟨h.worked, fun _ => ⟨rfl, rfl⟩, nofun, fun _ => rfl, nofun⟩
  | true =>
    refine ⟨h.worked, nofun, fun _ => ?_, h.unobserved, h.observed⟩
    show t.since + held + t.tested.toNat ≤ 2
    cases hs : t.stalled with
    | false =>
      have := (h.unstalled hs).1
      omega
    | true => exact h.stalled hs

/-- A feed takes the report. -/
theorem fed (h : t.Sound feeds 1) : t.fed.Sound (feeds + 1) 0 where
  worked := h.worked
  unstalled hs := by
    obtain ⟨hsince, hobserved⟩ := h.unstalled hs
    refine ⟨?_, hobserved⟩
    show t.since + t.stalled.toNat = 0
    rw [hsince, show t.stalled = false from hs]
    rfl
  stalled hs := by
    have := h.stalled hs
    show t.since + t.stalled.toNat + 0 + t.tested.toNat ≤ 2
    rw [show t.stalled = true from hs]
    exact this
  unobserved ho := by
    show t.sinceObserved + t.observed.toNat = 0
    rw [h.unobserved ho, show t.observed = false from ho]
    rfl
  observed ho := by
    obtain ⟨htested, hsince⟩ := h.observed ho
    refine ⟨htested, ?_⟩
    show t.sinceObserved + t.observed.toNat + 0 ≤ 1
    rw [show t.observed = true from ho]
    exact hsince

/-- A thread looks at its bit when no report of it is under way. -/
theorem test (h : t.Sound feeds held) (hheld : held ≤ 1) (htested : t.tested = false) :
    (t.test t.stalled).Sound feeds held := by
  cases hs : t.stalled with
  | false =>
    refine ⟨h.worked, h.unstalled, fun hs' => ?_, h.unobserved, fun ho => ?_⟩
    · exact (Bool.false_ne_true (hs.symm.trans hs')).elim
    · exact (Bool.false_ne_true ((h.unstalled hs).2.symm.trans ho)).elim
  | true =>
    refine ⟨h.worked, fun hs' => ?_, fun _ => h.stalled hs, fun ho => ?_, fun _ => ⟨htested, ?_⟩⟩
    · exact (Bool.false_ne_true (hs'.symm.trans hs)).elim
    · exact (Bool.false_ne_true ho.symm).elim
    · show t.sinceObserved + held ≤ 1
      cases ho : t.observed with
      | false =>
        have := h.unobserved ho
        omega
      | true => exact (h.observed ho).2

theorem work (h : t.Sound feeds held) : t.work.Sound feeds held where
  worked := by
    show feeds + held + 1 ≤ t.units + 1
    have := h.worked
    omega
  unstalled := h.unstalled
  stalled := h.stalled
  unobserved := h.unobserved
  observed := h.observed

/-- A report sets its bit of the mask. -/
theorem report (h : t.Sound feeds held) (htested : t.tested = true) (hready : t.ready = true)
    (hle : held' ≤ held + 1) : t.report.Sound feeds held' where
  worked := by
    show feeds + held' + 0 ≤ t.units
    have := h.worked
    rw [hready, Bool.toNat_true] at this
    omega
  unstalled := h.unstalled
  stalled hs := by
    show t.since + held' + 0 ≤ 2
    have := h.stalled hs
    rw [htested, Bool.toNat_true] at this
    omega
  unobserved := h.unobserved
  observed ho := absurd (h.observed ho).1 (by rw [htested]; exact Bool.false_ne_true.symm)

end Task.Sound

/-! ### Steps of the invariant -/

namespace Facts

variable {n : Word} {i : Thread} {f f' : Facts} {id : Fin 2} {ctx : WatchdogCtx}

theorem held_le (f : Facts) (id : Fin 2) : f.held id ≤ 1 := Bool.toNat_le _

/-- Who does not hold the mutex may not have a feed under way. -/
theorem Sound.settled (h : f.Sound n) (howner : f.owner ≠ some .main) :
    f.history.clearing = false := by
  cases hc : f.history.clearing with
  | false => rfl
  | true => exact absurd (h.clearing hc) howner

/-- What a thread may do: the context and the mutex are its own only while no other thread holds the
mutex. -/
structure Step (i : Thread) (f f' : Facts) : Prop where
  owner : f'.owner = f.owner ∧ f'.ctx = f.ctx ∨
    (f.owner = none ∨ f.owner = some i) ∧ (f'.owner = none ∨ f'.owner = some i)
  created : ∀ id, f.created id = true → f'.created id = true
  task : ∀ id, i ≠ .worker id → (f'.history.task id).tested = (f.history.task id).tested ∧
    (f'.history.task id).ready = (f.history.task id).ready
  served : i ≠ .main → f.Served f'

theorem Step.keep (h : f.Step i f') (j : Thread) (hj : j ≠ i) : f.Keep j f' where
  held hheld := by
    rcases h.owner with ⟨howner, hctx⟩ | ⟨howner, -⟩
    · exact ⟨howner.trans hheld, hctx⟩
    · rw [hheld] at howner
      rcases howner with hnone | hi
      · cases hnone
      · exact absurd (Option.some.inj hi) hj
  free hfree := by
    rcases h.owner with ⟨howner, -⟩ | ⟨-, howner⟩
    · rwa [howner]
    · intro hheld
      rw [hheld] at howner
      rcases howner with hnone | hi
      · cases hnone
      · exact absurd (Option.some.inj hi) hj
  created := h.created
  worker id hid := h.task id fun hi => hj (hid.trans hi.symm)
  main hmain := h.served fun hi => hj (hmain.trans hi.symm)

/-- The mutex is taken when it is free. -/
theorem Sound.lock (h : f.Sound n) (howner : f.owner = none) (i : Thread) :
    { f with owner := some i }.Sound n where
  stalled := h.stalled
  task := h.task
  failed hfailed := by
    rcases h.failed hfailed with hstate | hmain
    · exact .inl hstate
    · rw [howner] at hmain
      cases hmain
  clearing hclearing := by
    have := h.clearing hclearing
    rw [howner] at this
    cases this
  auto := h.auto
  sticky := h.sticky
  bound := h.bound

theorem Sound.unlock (h : f.Sound n) (hclearing : f.history.clearing = false)
    (hfailed : f.history.failed = true → f.ctx.state ≠ .running) :
    { f with owner := none }.Sound n where
  stalled := h.stalled
  task := h.task
  failed hf := .inl (hfailed hf)
  clearing hc := (Bool.false_ne_true (hclearing.symm.trans hc)).elim
  auto := h.auto
  sticky := h.sticky
  bound := h.bound

/-- The mutex goes to the thread, or from it. -/
theorem step_mutex {owner : Option Thread} (howner : f.owner = none ∨ f.owner = some i)
    (howner' : owner = none ∨ owner = some i) (hserved : i ≠ .main → ∃ id, f.created id = true) :
    f.Step i { f with owner } where
  owner := .inr ⟨howner, howner'⟩
  created _ h := h
  task _ _ := ⟨rfl, rfl⟩
  served hi := {
    feeds := rfl
    created := rfl
    history := ⟨rfl, rfl, rfl⟩
    stalled := fun _ => rfl
    debugged := fun hd => ⟨hd, rfl⟩
    alone := fun hnone => by
      obtain ⟨id, hid⟩ := hserved hi
      exact (Bool.false_ne_true ((hnone id).symm.trans hid)).elim }

/-- The facts with another mask and another history of the task. -/
def withTask (f : Facts) (id : Fin 2) (mask : Byte) (t : Task) : Facts :=
  { f with
    ctx := { f.ctx with reportedMask := mask }
    history := { f.history with task := Function.update f.history.task id t } }

theorem withTask_self (f : Facts) (id : Fin 2) (mask : Byte) (t : Task) :
    (f.withTask id mask t).history.task id = t := Function.update_self ..

theorem withTask_of_ne (f : Facts) {id id' : Fin 2} (hid : id' ≠ id) (mask : Byte) (t : Task) :
    (f.withTask id mask t).history.task id' = f.history.task id' := Function.update_of_ne hid ..

/-- What is the same in the two histories of the task is the same in all of them. -/
theorem withTask_same {γ : Type} (g : Task → γ) {mask : Byte} {t : Task}
    (h : g t = g (f.history.task id)) (id' : Fin 2) :
    g ((f.withTask id mask t).history.task id') = g (f.history.task id') := by
  by_cases hid : id' = id
  · subst hid
    rw [withTask_self, h]
  · rw [withTask_of_ne f hid]

theorem withTask_sound (h : f.Sound n) {mask : Byte} {t : Task}
    (hstalled : t.stalled = (f.history.task id).stalled)
    (hsince : t.since = (f.history.task id).since)
    (htask : t.Sound f.history.feeds (mask.getLsbD id && !f.history.clearing).toNat)
    (hmask : ∀ id', id' ≠ id → mask.getLsbD id' = f.ctx.reportedMask.getLsbD id') :
    (f.withTask id mask t).Sound n where
  stalled id' := (withTask_same Task.stalled hstalled id').trans (h.stalled id')
  task id' := by
    by_cases hid : id' = id
    · subst hid
      rw [withTask_self]
      exact htask
    · have hheld : (f.withTask id mask t).held id' = f.held id' := by
        rw [held, held, ← hmask id' hid]
        rfl
      rw [withTask_of_ne f hid, hheld]
      exact h.task id'
  failed := h.failed
  clearing := h.clearing
  auto := h.auto
  sticky hdebug hn hs := h.sticky hdebug hn ((withTask_same Task.stalled hstalled 1).symm.trans hs)
  bound hdebug hn := by
    rw [withTask_same Task.since hsince 1]
    exact h.bound hdebug hn

theorem withTask_step {mask : Byte} {t : Task}
    (hstalled : t.stalled = (f.history.task id).stalled)
    (howner : mask = f.ctx.reportedMask ∨ f.owner = some (.worker id)) :
    f.Step (.worker id) (f.withTask id mask t) where
  owner := by
    rcases howner with rfl | howner
    · exact .inl ⟨rfl, rfl⟩
    · exact .inr ⟨.inr howner, .inr howner⟩
  created _ hid := hid
  task id' hid := by
    have hne : id' ≠ id := by
      rintro rfl
      exact hid rfl
    rw [withTask_of_ne f hne]
    exact ⟨rfl, rfl⟩
  served _ := {
    feeds := rfl
    created := rfl
    history := ⟨rfl, rfl, rfl⟩
    stalled := withTask_same Task.stalled hstalled
    debugged := fun hd => ⟨hd, rfl⟩
    alone := fun _ => rfl }

/-- The context may be changed while no worker holds the mutex, but for what is in the mask. -/
theorem Sound.withCtx (h : f.Sound n) (hmask : ctx.reportedMask = f.ctx.reportedMask)
    (hfailed : f.history.failed = true → ctx.state ≠ .running ∨ f.owner = some .main) :
    { f with ctx }.Sound n where
  stalled := h.stalled
  task id := by
    have hheld : held { f with ctx } id = f.held id := by
      show (ctx.reportedMask.getLsbD id && _).toNat = _
      rw [hmask]
      rfl
    rw [hheld]
    exact h.task id
  failed := hfailed
  clearing := h.clearing
  auto := h.auto
  sticky := h.sticky
  bound := h.bound

/-- The mask is cleared. -/
theorem Sound.clear (h : f.Sound n) :
    { f with
      ctx := { f.ctx with reportedMask := 0 }
      history := { f.history with clearing := false } }.Sound n where
  stalled := h.stalled
  task id := by
    have hheld : ((0 : Byte).getLsbD id && !false).toNat = 0 := by simp
    exact (h.task id).drop (hheld.trans_le (Nat.zero_le _))
  failed := h.failed
  clearing := nofun
  auto := h.auto
  sticky := h.sticky
  bound := h.bound

theorem Sound.stalling (h : f.Sound n) {stallMask : Word}
    (hbit : stallMask.getLsbD 1 = true) : { f with stallMask }.Sound n :=
  ⟨h.stalled, h.task, h.failed, h.clearing, h.auto, fun _ _ _ => hbit, h.bound⟩

theorem Sound.counted (h : f.Sound n) (feeds : Word) : { f with feeds }.Sound n :=
  ⟨h.stalled, h.task, h.failed, h.clearing, h.auto, h.sticky, h.bound⟩

theorem Sound.created (h : f.Sound n) (created : Fin 2 → Bool) : { f with created }.Sound n :=
  ⟨h.stalled, h.task, h.failed, h.clearing, h.auto, h.sticky, h.bound⟩

theorem Sound.failing (h : f.Sound n) (howner : f.owner = some .main) :
    { f with history := { f.history with failed := true } }.Sound n :=
  ⟨h.stalled, h.task, fun _ => .inr howner, h.clearing, h.auto, h.sticky, h.bound⟩

theorem Sound.debugged (h : f.Sound n) (auto stallMask : Word) :
    { f with auto, stallMask, history := { f.history with debugged := true } }.Sound n :=
  ⟨h.stalled, h.task, h.failed, h.clearing, nofun, nofun, nofun⟩

end Facts

end CortexLabs.Watchdog.Heartbeat

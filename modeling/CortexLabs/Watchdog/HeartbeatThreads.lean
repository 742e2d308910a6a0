import CortexLabs.Device.Run
import CortexLabs.Watchdog.StallPolicy

/-! The heartbeat program keeps to its policy.  Each thread is followed alone: what it knows between
two of its operations is left by the operations of the others, and its own keep the invariant. -/

namespace CortexLabs.Watchdog.Heartbeat

open Device Errno Relation

variable {n : Word} {i : Thread} {α β : Type}

/-! ### Rules -/

structure Shared.Sound (n : Word) (s : Shared) : Prop where
  conforms : stallPolicy.Conforms s.log
  facts : s.facts.Sound n

/-- The facts after an operation. -/
def Shared.after (s : Shared) (i : Thread) (o : Op) (r : Ans o) : Facts :=
  { (s.effect i o r).facts with history := s.facts.history.next ⟨i, o, r⟩ }

def rely (n : Word) (i : Thread) (s s' : Shared) : Prop := s'.Sound n ∧ s.facts.Keep i s'.facts

def guar (n : Word) (i : Thread) (s s' : Shared) : Prop :=
  s'.Sound n ∧ ∀ j, j ≠ i → s.facts.Keep j s'.facts

/-- The thread keeps the invariant, and what the others rely on, from any state with these facts. -/
def Kept (n : Word) (i : Thread) (Q : α → Facts → Prop) (p : HeartbeatProgram α) (f : Facts) :
    Prop :=
  ∀ s : Shared, s.facts = f → s.Sound n →
    Upholds (Answer i) (rely n i) (guar n i) (fun a s => s.Sound n ∧ Q a s.facts) p s

def Stable (i : Thread) (P : Facts → Prop) : Prop := ∀ f f', P f → f.Keep i f' → P f'

theorem Stable.and {P P' : Facts → Prop} (h : Stable i P) (h' : Stable i P') :
    Stable i fun f => P f ∧ P' f :=
  fun f f' hP hkeep => ⟨h f f' hP.1 hkeep, h' f f' hP.2 hkeep⟩

theorem facts_answer {s s' : Shared} {o : Op} {r : Ans o} (h : Answer i s o r s') :
    s'.facts = s.after i o r := by
  obtain ⟨-, rfl⟩ := h
  rw [Shared.facts, Monitor.after_snoc]
  rfl

namespace Kept

variable {Q Q' : α → Facts → Prop} {P : Facts → Prop} {f : Facts}

theorem ret {a : α} (h : Q a f) : Kept n i Q (.ret a) f := by
  rintro s rfl hs
  exact ⟨hs, h⟩

theorem seq {R : β → Facts → Prop} {p : HeartbeatProgram α} {g : α → HeartbeatProgram β}
    (h : Kept n i Q p f) (hg : ∀ a f, Q a f → Kept n i R (g a) f) :
    Kept n i R (p >>= g) f := by
  intro s hf hs
  exact (h s hf hs).seq fun a s1 h1 => hg a s1.facts h1.2 s1 rfl h1.1

/-- An operation, after whatever the others have done. -/
theorem op {o : Op} {k : Ans o → HeartbeatProgram α} (hstable : Stable i P) (hP : P f)
    (h : ∀ (s : Shared) r, s.facts.Sound n → P s.facts → s.Allows o r →
      s.facts.history.Allows ⟨i, o, r⟩ ∧ (s.after i o r).Sound n ∧
      (∀ j, j ≠ i → s.facts.Keep j (s.after i o r)) ∧ Kept n i Q (k r) (s.after i o r)) :
    Kept n i Q (Program.issue o >>= k) f := by
  rintro s rfl - s1 ⟨hs1, hkeep⟩ r s2 hanswer
  obtain ⟨hallows, hsound, hothers, hrest⟩ :=
    h s1 r hs1.facts (hstable _ _ hP hkeep) hanswer.1
  have hfacts := facts_answer hanswer
  rw [← hfacts] at hsound hothers hrest
  have hs2 : s2.Sound n := by
    refine ⟨?_, hsound⟩
    obtain ⟨-, rfl⟩ := hanswer
    exact Monitor.conforms_snoc.mpr ⟨hs1.conforms, hallows⟩
  exact ⟨⟨hs2, hothers⟩, hrest s2 rfl hs2⟩

/-- An operation that the invariant says nothing of. -/
theorem quiet {o : Op} {k : Ans o → HeartbeatProgram α} (hstable : Stable i P) (hP : P f)
    (hsame : ∀ (s : Shared) r, s.after i o r = s.facts)
    (hallows : ∀ (h : History) r, h.Allows ⟨i, o, r⟩)
    (h : ∀ (s : Shared) r, s.facts.Sound n → P s.facts → s.Allows o r →
      Kept n i Q (k r) s.facts) : Kept n i Q (Program.issue o >>= k) f := by
  refine op hstable hP fun s r hsound hP hallow => ⟨hallows _ r, ?_, fun j _ => ?_, ?_⟩
  · rwa [hsame]
  · rw [hsame]
    exact .refl j s.facts
  · rw [hsame]
    exact h s r hsound hP hallow

end Kept

/-! ### The workers -/

section Worker

variable {id : Fin 2} {f : Facts} {ctx : WatchdogCtx}

/-- Between two reports, when `tested` is false, or on the way to one, but not yet in the mutex. -/
structure Away (id : Fin 2) (tested ready : Bool) (f : Facts) : Prop where
  created : f.created id = true
  free : f.owner ≠ some (.worker id)
  tested : (f.history.task id).tested = tested
  ready : ready = true → (f.history.task id).ready = true

/-- In the mutex, with the context as it is there. -/
structure Reporting (id : Fin 2) (ctx : WatchdogCtx) (f : Facts) : Prop where
  created : f.created id = true
  owner : f.owner = some (.worker id)
  ctx : f.ctx = ctx
  tested : (f.history.task id).tested = true
  ready : (f.history.task id).ready = true

theorem stable_away (tested ready : Bool) : Stable (.worker id) (Away id tested ready) :=
  fun _ _ h hkeep => ⟨hkeep.created id h.created, hkeep.free h.free,
    (hkeep.worker id rfl).1.trans h.tested,
    fun hready => (hkeep.worker id rfl).2.trans (h.ready hready)⟩

theorem stable_reporting (ctx : WatchdogCtx) : Stable (.worker id) (Reporting id ctx) :=
  fun _ _ h hkeep => ⟨hkeep.created id h.created, (hkeep.held h.owner).1,
    (hkeep.held h.owner).2.trans h.ctx, (hkeep.worker id rfl).1.trans h.tested,
    (hkeep.worker id rfl).2.trans h.ready⟩

/-- In the mutex, with what `reportLocked` returned. -/
structure Unlocking (id : Fin 2) (rc : Int) (f : Facts) : Prop where
  owner : f.owner = some (.worker id)
  created : f.created id = true
  tested : rc = 0 → (f.history.task id).tested = false

theorem stable_unlocking (rc : Int) : Stable (.worker id) (Unlocking id rc) :=
  fun _ _ h hkeep => ⟨(hkeep.held h.owner).1, hkeep.created id h.created,
    fun hok => (hkeep.worker id rfl).1.trans (h.tested hok)⟩

/-- What is left when a report has returned. -/
def Reported (id : Fin 2) (rc : Int) (f : Facts) : Prop := rc = 0 → Away id false false f

/-- The mask with the bit of a task in it. -/
theorem reported_bits (mask : Byte) (id id' : Fin 2) :
    (mask ||| ((1 : Word) <<< BitVec.ofNat 32 id.val).setWidth 8).getLsbD id' =
      (mask.getLsbD id' || decide (id' = id)) := by
  rw [BitVec.getLsbD_or]
  congr 1
  revert id id'
  decide

theorem stable_reported (rc : Int) : Stable (.worker id) (Reported id rc) :=
  fun f f' h hkeep hok => stable_away false false f f' (h hok) hkeep

theorem reportLocked_kept (hf : Reporting id ctx f) :
    Kept n (.worker id) (Unlocking id) (reportLocked (BitVec.ofNat 32 id)) f := by
  refine .quiet (stable_reporting ctx) hf (fun _ _ => rfl) (fun _ _ => trivial) ?_
  intro s state _ hs _
  split
  · exact .ret ⟨hs.owner, hs.created, fun h => absurd h (by decide)⟩
  · refine .quiet (stable_reporting ctx) hs (fun _ _ => rfl) (fun _ _ => trivial) ?_
    rintro s _ _ hs rfl
    refine .op (stable_reporting ctx) hs ?_
    intro s1 r hsound hs1 _
    have hctx : s.ctx = s1.ctx := hs.ctx.trans hs1.ctx.symm
    have hafter : ∀ mask, s1.after (.worker id) (.writeReportedMask mask) r =
        s1.facts.withTask id mask (s1.facts.history.task id).report := fun _ => rfl
    rw [hctx, hafter]
    refine ⟨trivial, Facts.withTask_sound hsound rfl rfl ?_ fun id' hid => ?_,
      (Facts.withTask_step (t := (s1.facts.history.task id).report) rfl (.inr hs1.owner)).keep,
      .ret ⟨hs1.owner, hs1.created, fun _ => ?_⟩⟩
    · exact (hsound.task id).report hs1.tested hs1.ready
        ((Bool.toNat_le _).trans (Nat.le_add_left _ _))
    · rw [reported_bits, decide_eq_false hid, Bool.or_false]
      rfl
    · rw [Facts.withTask_self]
      rfl

theorem watchdogReport_kept (hf : Away id true true f) :
    Kept n (.worker id) (Reported id) (watchdogReport (BitVec.ofNat 32 id)) f := by
  refine .quiet (stable_away true true) hf (fun _ _ => rfl) (fun _ _ => trivial) ?_
  intro s dev _ hs _
  split
  · exact .ret fun h => absurd h (by decide)
  refine .quiet (stable_away true true) hs (fun _ _ => rfl) (fun _ _ => trivial) ?_
  intro s isr _ hs _
  split
  · exact .ret fun h => absurd h (by decide)
  refine .op (stable_away true true) hs ?_
  intro s rc hsound hs hfree
  by_cases hrc : rc = 0
  · have howner : s.facts.owner = none := hfree hrc
    have hafter : s.after (.worker id) (.kernel .mutexLock) rc =
        { s.facts with owner := some (.worker id) } := by
      subst hrc
      rfl
    have hlocked : Reporting id s.ctx { s.facts with owner := some (.worker id) } :=
      ⟨hs.created, rfl, rfl, hs.tested, hs.ready rfl⟩
    rw [hafter, if_neg (not_not.mpr hrc)]
    refine ⟨trivial, hsound.lock howner _,
      (Facts.step_mutex (.inl howner) (.inr rfl) fun _ => ⟨id, hs.created⟩).keep, ?_⟩
    refine (reportLocked_kept hlocked).seq ?_
    rintro rc f hreported
    refine .op (stable_unlocking rc) hreported ?_
    rintro s r hsound ⟨howner, hcreated, htested⟩ _
    refine ⟨trivial, hsound.unlock ?_ ?_,
      (Facts.step_mutex (.inr howner) (.inl rfl) fun _ => ⟨id, hcreated⟩).keep, .ret fun hok => ?_⟩
    · exact hsound.settled (by rw [howner]; exact nofun)
    · intro hfailed
      rcases hsound.failed hfailed with hstate | hmain
      · exact hstate
      · cases howner.symm.trans hmain
    · exact ⟨hcreated, nofun, htested hok, nofun⟩
  · have hafter : s.after (.worker id) (.kernel .mutexLock) rc = s.facts := by
      simp only [Shared.after, Shared.effect, if_neg hrc]
      rfl
    rw [hafter, if_pos hrc]
    exact ⟨trivial, hsound, fun j _ => .refl j s.facts, .ret fun h => absurd h hrc⟩

/-- The thread looks at its bit of the effective mask. -/
theorem withTask_test (h : f.Sound n) (htested : (f.history.task id).tested = false) :
    (f.withTask id f.ctx.reportedMask
      ((f.history.task id).test (f.history.task id).stalled)).Sound n ∧
    f.Step (.worker id) (f.withTask id f.ctx.reportedMask
      ((f.history.task id).test (f.history.task id).stalled)) := by
  have hsame : ∀ (t : Task) stalled, (t.test stalled).stalled = t.stalled ∧
      (t.test stalled).since = t.since := by
    intro t stalled
    cases stalled <;> exact ⟨rfl, rfl⟩
  exact ⟨Facts.withTask_sound h (hsame _ _).1 (hsame _ _).2
    ((h.task id).test (f.held_le id) htested) fun _ _ => rfl,
    Facts.withTask_step (hsame _ _).1 (.inl rfl)⟩

theorem heartbeatWorker_kept (workUnits : Word) (hf : Away id false false f) :
    Kept n (.worker id) (fun next f => ∀ a, next = some a → Away id false false f)
      (heartbeatWorker id workUnits) f := by
  refine .op (stable_away false false) hf ?_
  intro s x hsound hs hx
  have hbit : x.getLsbD id = (s.facts.history.task id).stalled := by
    rw [show x = s.vars .effectiveStallMask from hx]
    exact (hsound.stalled id).symm
  have hafter : s.after (.worker id) (.read .effectiveStallMask) x =
      s.facts.withTask id s.ctx.reportedMask ((s.facts.history.task id).test (x.getLsbD id)) := rfl
  obtain ⟨htest, hstep⟩ := withTask_test hsound hs.tested
  rw [hafter, hbit]
  refine ⟨trivial, htest, hstep.keep, ?_⟩
  cases hstalled : (s.facts.history.task id).stalled with
  | true =>
    have haway : Away id false false (s.facts.withTask id s.ctx.reportedMask
        ((s.facts.history.task id).test true)) := by
      refine ⟨hs.created, hs.free, ?_, nofun⟩
      rw [Facts.withTask_self]
      exact hs.tested
    rw [if_pos rfl]
    refine .quiet (stable_away false false) haway (fun _ _ => rfl) (fun _ _ => trivial) ?_
    intro s _ _ hs _
    refine .quiet (stable_away false false) hs (fun _ _ => rfl) (fun _ _ => trivial) ?_
    intro s _ _ hs _
    exact .ret fun _ _ => hs
  | false =>
    have haway : Away id true false (s.facts.withTask id s.ctx.reportedMask
        ((s.facts.history.task id).test false)) := by
      refine ⟨hs.created, hs.free, ?_, nofun⟩
      rw [Facts.withTask_self]
      rfl
    rw [if_neg Bool.false_ne_true]
    refine .op (stable_away true false) haway ?_
    intro s r hsound hs _
    have hafter : ∀ x, s.after (.worker id) (.write (.workUnits id) x) r =
        s.facts.withTask id s.ctx.reportedMask (s.facts.history.task id).work := fun _ => rfl
    rw [hafter]
    refine ⟨trivial, Facts.withTask_sound hsound rfl rfl (hsound.task id).work fun _ _ => rfl,
      (Facts.withTask_step (t := (s.facts.history.task id).work) rfl (.inl rfl)).keep, ?_⟩
    have haway : Away id true true (s.facts.withTask id s.ctx.reportedMask
        (s.facts.history.task id).work) := by
      refine ⟨hs.created, hs.free, ?_, fun _ => ?_⟩
      · rw [Facts.withTask_self]
        exact hs.tested
      · rw [Facts.withTask_self]
        rfl
    refine (watchdogReport_kept haway).seq ?_
    intro rc f hf
    refine .quiet (stable_reported rc) hf (fun _ _ => rfl) (fun _ _ => trivial) ?_
    intro s _ _ hs _
    split
    · exact .ret nofun
    · next hrc =>
      have hs := hs (not_not.mp hrc)
      refine .quiet (stable_away false false) hs (fun _ _ => rfl) (fun _ _ => trivial) ?_
      intro s _ _ hs _
      refine .quiet (stable_away false false) hs (fun _ _ => rfl) (fun _ _ => trivial) ?_
      intro s _ _ hs _
      exact .ret fun _ _ => hs

end Worker

/-! ### The main thread -/

section Main

variable {f : Facts} {ctx : WatchdogCtx}

/-- Before the workers are created. -/
structure Starting (f : Facts) : Prop where
  created : ∀ id, f.created id = false
  owner : f.owner = none
  feeds : f.feeds = BitVec.ofNat 32 f.history.feeds
  failed : f.history.failed = false

/-- The feeds that are still to be counted when a service returns. -/
def owed (rc : Int) : Word := if rc = 0 then 1 else 0

/-- Outside the mutex. -/
structure Idle (owed : Word) (f : Facts) : Prop where
  free : f.owner ≠ some .main
  feeds : f.feeds + owed = BitVec.ofNat 32 f.history.feeds

/-- While nothing has been set by the debugger, what follows from there being a demonstration. -/
def Demo (n : Word) (P : Facts → Prop) (f : Facts) : Prop :=
  f.history.debugged = false → n ≠ 0 → P f

/-- The demonstration stalls task 1, or is not due. -/
def Due (f : Facts) (n : Word) (stalled : Bool) : Prop :=
  stalled = true ∨ f.history.feeds < n.toNat ∧ (f.history.task (.last 1)).stalled = false

theorem stable_starting : Stable .main Starting := by
  intro f f' h hkeep
  have hserved := hkeep.main rfl
  exact ⟨fun id => by rw [hserved.created]; exact h.created id,
    (hserved.alone h.created).trans h.owner, by rw [hserved.feeds, hserved.history.1, h.feeds],
    hserved.history.2.1.trans h.failed⟩

theorem stable_idle (owed : Word) : Stable .main (Idle owed) := by
  intro f f' h hkeep
  have hserved := hkeep.main rfl
  exact ⟨hkeep.free h.free, by rw [hserved.feeds, hserved.history.1, h.feeds]⟩

theorem stable_demo {P : Facts → Prop}
    (hP : ∀ f f', f.Served f' → f'.stallMask = f.stallMask → P f → P f') :
    Stable .main (Demo n P) := by
  intro f f' h hkeep hdebug hn
  have hserved := hkeep.main rfl
  obtain ⟨hdebug', hmask⟩ := hserved.debugged hdebug
  exact hP f f' hserved hmask (h hdebug' hn)

theorem Due.served {f' : Facts} {stalled : Bool} (h : Due f n stalled) (hserved : f.Served f') :
    Due f' n stalled := by
  rw [Due, hserved.history.1, hserved.stalled (.last 1)]
  exact h

/-- In the mutex, with the context as it is there. -/
structure Serving (n : Word) (ctx : WatchdogCtx) (f : Facts) : Prop where
  owner : f.owner = some .main
  same : f.ctx = ctx
  clearing : f.history.clearing = false
  failed : f.history.failed = true → ctx.state ≠ .running
  feeds : f.feeds = BitVec.ofNat 32 f.history.feeds
  watched : Demo n (fun f => (f.history.task 1).stalled = true ∨ f.history.feeds < n.toNat) f

/-- In the mutex, with what `serviceLocked` returned. -/
structure Closing (rc : Int) (f : Facts) : Prop where
  owner : f.owner = some .main
  clearing : f.history.clearing = false
  failed : f.history.failed = true → f.ctx.state ≠ .running
  feeds : f.feeds + owed rc = BitVec.ofNat 32 f.history.feeds

theorem stable_watched : Stable .main
    (Demo n fun f => (f.history.task 1).stalled = true ∨ f.history.feeds < n.toNat) := by
  refine stable_demo fun f f' hserved _ h => ?_
  rw [hserved.stalled 1, hserved.history.1]
  exact h

theorem stable_serving (ctx : WatchdogCtx) : Stable .main (Serving n ctx) := by
  intro f f' h hkeep
  have hserved := hkeep.main rfl
  obtain ⟨howner, hctx⟩ := hkeep.held h.owner
  exact ⟨howner, hctx.trans h.same, hserved.history.2.2.trans h.clearing,
    fun hfailed => h.failed (hserved.history.2.1.symm.trans hfailed),
    by rw [hserved.feeds, hserved.history.1, h.feeds], stable_watched f f' h.watched hkeep⟩

theorem stable_closing (rc : Int) : Stable .main (Closing rc) := by
  intro f f' h hkeep
  have hserved := hkeep.main rfl
  obtain ⟨howner, hctx⟩ := hkeep.held h.owner
  refine ⟨howner, hserved.history.2.2.trans h.clearing, fun hfailed => ?_,
    by rw [hserved.feeds, hserved.history.1, h.feeds]⟩
  rw [hctx]
  exact h.failed (hserved.history.2.1.symm.trans hfailed)

/-- What `main` leaves to the others. -/
theorem keep_main {f' : Facts} (howner : f'.owner = f.owner ∧ f'.ctx = f.ctx ∨
      (f.owner = none ∨ f.owner = some .main) ∧ (f'.owner = none ∨ f'.owner = some .main))
    (hcreated : ∀ id, f.created id = true → f'.created id = true)
    (htask : ∀ id, (f'.history.task id).tested = (f.history.task id).tested ∧
      (f'.history.task id).ready = (f.history.task id).ready) (j : Thread) (hj : j ≠ .main) :
    f.Keep j f' :=
  Facts.Step.keep ⟨howner, hcreated, fun id _ => htask id, fun h => absurd rfl h⟩ j hj

theorem Facts.Sound.stall (h : f.Sound n) {requested : Word}
    (hdemo : Demo n (fun f => requested.getLsbD 1 = f.stallMask.getLsbD 1 ∧
      Due f n (f.stallMask.getLsbD 1)) f) :
    { f with
      effective := requested
      history := { f.history with
        task := fun id => (f.history.task id).stall (requested.getLsbD id) } }.Sound n where
  stalled id := Task.stall_stalled _ _
  task id := (h.task id).stall (f.held_le id) _
  failed := h.failed
  clearing := h.clearing
  auto := h.auto
  sticky hdebug hn hs := by
    obtain ⟨hbit, -⟩ := hdemo hdebug hn
    exact hbit.symm.trans ((Task.stall_stalled (f.history.task 1) _).symm.trans hs)
  bound hdebug hn := by
    obtain ⟨hbit, hdue⟩ := hdemo hdebug hn
    show f.history.feeds ≤ n.toNat + ((f.history.task 1).stall (requested.getLsbD 1)).since
    have hbound := h.bound hdebug hn
    rw [hbit]
    rcases hdue with hset | ⟨hless, -⟩
    · rw [hset]
      exact hbound
    · omega

/-- A feed takes a report of each task. -/
theorem Facts.Sound.feed (h : f.Sound n) (hs : Serving n ctx f)
    (hmask : ctx.reportedMask = watchdogRequiredMask) :
    { f with history := { f.history with
      feeds := f.history.feeds + 1
      clearing := true
      task := fun id => (f.history.task id).fed } }.Sound n where
  stalled := h.stalled
  task id := by
    have hheld : f.held id = 1 := by
      rw [Facts.held, hs.same, hmask, hs.clearing]
      revert id
      decide
    have htask := h.task id
    rw [hheld] at htask
    have hheld' : (f.ctx.reportedMask.getLsbD id && !true).toNat = 0 := by
      rw [Bool.not_true, Bool.and_false]
      rfl
    exact htask.fed.drop hheld'.le
  failed := h.failed
  clearing _ := hs.owner
  auto := h.auto
  sticky := h.sticky
  bound hdebug hn := by
    show f.history.feeds + 1 ≤ n.toNat + ((f.history.task 1).since +
      (f.history.task 1).stalled.toNat)
    have hbound := h.bound hdebug hn
    rcases hs.watched hdebug hn with hstalled | hless
    · rw [hstalled, Bool.toNat_true]
      omega
    · omega

/-- In the mutex, with the answer to a feed. -/
structure Answered (owed : Word) (clearing failed : Bool) (f : Facts) : Prop where
  owner : f.owner = some .main
  clearing : f.history.clearing = clearing
  failed : f.history.failed = failed
  feeds : f.feeds + owed = BitVec.ofNat 32 f.history.feeds

theorem stable_answered (owed : Word) (clearing failed : Bool) :
    Stable .main (Answered owed clearing failed) := by
  intro f f' h hkeep
  have hserved := hkeep.main rfl
  exact ⟨(hkeep.held h.owner).1, hserved.history.2.2.trans h.clearing,
    hserved.history.2.1.trans h.failed, by rw [hserved.feeds, hserved.history.1, h.feeds]⟩

theorem serviceLocked_kept (hf : Serving n ctx f) :
    Kept n .main Closing serviceLocked f := by
  have hclosing : ∀ {rc f}, rc ≠ 0 → Serving n ctx f → Closing rc f := by
    intro rc f hrc h
    refine ⟨h.owner, h.clearing, fun hfailed => ?_, ?_⟩
    · rw [h.same]
      exact h.failed hfailed
    · rw [owed, if_neg hrc]
      exact (BitVec.add_zero f.feeds).trans h.feeds
  refine .quiet (stable_serving ctx) hf (fun _ _ => rfl) (fun _ _ => trivial) ?_
  intro s state _ hs hstate
  have hstate : state = ctx.state := Eq.trans hstate (congrArg WatchdogCtx.state hs.same)
  split
  · exact .ret (hclosing (by decide) hs)
  next hrunning =>
  refine .quiet (stable_serving ctx) hs (fun _ _ => rfl) (fun _ _ => trivial) ?_
  intro s mask _ hs hmask
  have hmask : mask = ctx.reportedMask :=
    Eq.trans hmask (congrArg WatchdogCtx.reportedMask hs.same)
  split
  · exact .ret (hclosing (by decide) hs)
  next hfull =>
  refine .quiet (stable_serving ctx) hs (fun _ _ => rfl) (fun _ _ => trivial) ?_
  intro s dev _ hs _
  refine .quiet (stable_serving ctx) hs (fun _ _ => rfl) (fun _ _ => trivial) ?_
  intro s channelId _ hs _
  refine .op (stable_serving ctx) hs ?_
  intro s rc hsound hs _
  have hunfailed : s.facts.history.failed = false := by
    cases hfailed : s.facts.history.failed with
    | false => rfl
    | true => exact absurd (hstate.symm.trans (not_not.mp hrunning)) (hs.failed hfailed)
  have hheld : ∀ id, s.facts.held id = 1 := by
    intro id
    rw [Facts.held, hs.same, ← hmask, not_not.mp hfull, hs.clearing]
    revert id
    decide
  have hallows : s.facts.history.Allows ⟨.main, .kernel (.feed (dev.getD 0) channelId), rc⟩ := by
    refine ⟨rfl, hunfailed, fun id => ?_⟩
    have htask := hsound.task id
    rw [hheld] at htask
    have hworked := htask.worked
    refine ⟨by omega, fun hstalled => ?_, fun hobserved => ?_⟩
    · have := htask.stalled hstalled
      omega
    · have := (htask.observed hobserved).2
      omega
  refine ⟨hallows, ?_⟩
  by_cases hrc : rc = 0
  · have hafter : s.after .main (.kernel (.feed (dev.getD 0) channelId)) rc =
        { s.facts with history := { s.facts.history with
          feeds := s.facts.history.feeds + 1
          clearing := true
          task := fun id => (s.facts.history.task id).fed } } := by
      subst hrc
      rfl
    rw [hafter, if_pos hrc]
    refine ⟨hsound.feed hs (hmask.symm.trans (not_not.mp hfull)),
      keep_main (.inl ⟨rfl, rfl⟩) (fun _ h => h) fun _ => ⟨rfl, rfl⟩, ?_⟩
    refine .op (stable_answered 1 true false) ⟨hs.owner, rfl, hunfailed, ?_⟩ ?_
    · show s.facts.feeds + 1 = BitVec.ofNat 32 (s.facts.history.feeds + 1)
      rw [hs.feeds, BitVec.ofNat_add]
      rfl
    · intro s _ hsound hs _
      refine ⟨trivial, hsound.clear, keep_main (.inr ⟨.inr hs.owner, .inr hs.owner⟩)
        (fun _ h => h) fun _ => ⟨rfl, rfl⟩, .ret ⟨hs.owner, rfl, fun hfailed => ?_, ?_⟩⟩
      · exact (Bool.false_ne_true (hs.failed.symm.trans hfailed)).elim
      · rw [owed, if_pos hrc]
        exact hs.feeds
  · have hafter : s.after .main (.kernel (.feed (dev.getD 0) channelId)) rc =
        { s.facts with history := { s.facts.history with failed := true } } := by
      simp only [Shared.after, History.next, if_neg hrc]
      rfl
    rw [hafter, if_neg hrc]
    refine ⟨hsound.failing hs.owner,
      keep_main (.inl ⟨rfl, rfl⟩) (fun _ h => h) fun _ => ⟨rfl, rfl⟩, ?_⟩
    refine .op (stable_answered 0 false true) ⟨hs.owner, hs.clearing, rfl, ?_⟩ ?_
    · exact (BitVec.add_zero _).trans hs.feeds
    · intro s _ hsound hs _
      have hfaulted : WatchdogState.faulted ≠ .running := by decide
      refine ⟨trivial, hsound.withCtx rfl fun _ => .inl hfaulted,
        keep_main (.inr ⟨.inr hs.owner, .inr hs.owner⟩) (fun _ h => h) fun _ => ⟨rfl, rfl⟩,
        .ret ⟨hs.owner, hs.clearing, fun _ => hfaulted, ?_⟩⟩
      rw [owed, if_neg hrc]
      exact hs.feeds

/-- The service, in the mutex and out of it again. -/
theorem watchdogService_kept (hf : Idle 0 f)
    (hwatched : Demo n (fun f => (f.history.task 1).stalled = true ∨
      f.history.feeds < n.toNat) f) :
    Kept n .main (fun rc f => Idle (owed rc) f) watchdogService f := by
  have hstable := (stable_idle 0).and (stable_watched (n := n))
  have hidle : ∀ {rc : Int} {f}, rc ≠ 0 → Idle 0 f → Idle (owed rc) f := by
    intro rc f hrc h
    rw [owed, if_neg hrc]
    exact h
  refine .quiet hstable ⟨hf, hwatched⟩ (fun _ _ => rfl) (fun _ _ => trivial) ?_
  intro s dev _ hs _
  split
  · exact .ret (hidle (by decide) hs.1)
  refine .quiet hstable hs (fun _ _ => rfl) (fun _ _ => trivial) ?_
  intro s isr _ hs _
  split
  · exact .ret (hidle (by decide) hs.1)
  refine .op hstable hs ?_
  intro s rc hsound hs hfree
  by_cases hrc : rc = 0
  · have howner : s.facts.owner = none := hfree hrc
    have hafter : s.after .main (.kernel .mutexLock) rc =
        { s.facts with owner := some .main } := by
      subst hrc
      rfl
    have hserving : Serving n s.ctx { s.facts with owner := some .main } := by
      refine ⟨rfl, rfl, hsound.settled hs.1.free, fun hfailed => ?_,
        (BitVec.add_zero _).symm.trans hs.1.feeds, hs.2⟩
      exact (hsound.failed hfailed).resolve_right hs.1.free
    rw [hafter, if_neg (not_not.mpr hrc)]
    refine ⟨trivial, hsound.lock howner _, (Facts.step_mutex (.inl howner) (.inr rfl) nofun).keep,
      ?_⟩
    refine (serviceLocked_kept hserving).seq ?_
    intro rc f hclosing
    refine .op (stable_closing rc) hclosing ?_
    intro s _ hsound hs _
    exact ⟨trivial, hsound.unlock hs.clearing hs.failed,
      (Facts.step_mutex (.inr hs.owner) (.inl rfl) nofun).keep, .ret ⟨nofun, hs.feeds⟩⟩
  · have hafter : s.after .main (.kernel .mutexLock) rc = s.facts := by
      simp only [Shared.after, Shared.effect, if_neg hrc]
      rfl
    rw [hafter, if_pos hrc]
    exact ⟨trivial, hsound, fun j _ => .refl j s.facts, .ret (hidle hrc hs.1)⟩

theorem stable_counted (x : Word) : Stable .main fun f => f.feeds = x :=
  fun _ _ h hkeep => (hkeep.main rfl).feeds.trans h

/-- A counter below the limit has not gone round. -/
theorem not_due (h : f.Sound n) (hf : Idle 0 f) (hdebug : f.history.debugged = false) (hn : n ≠ 0)
    (hless : ¬f.feeds ≥ n) : Due f n (f.stallMask.getLsbD 1) := by
  have hcount : f.feeds = BitVec.ofNat 32 f.history.feeds := (BitVec.add_zero _).symm.trans hf.feeds
  have hless : f.feeds.toNat < n.toNat := BitVec.lt_def.mp (BitVec.not_le.mp hless)
  cases hbit : f.stallMask.getLsbD 1 with
  | true => exact .inl rfl
  | false =>
    have hstalled : (f.history.task 1).stalled = false := by
      cases hs : (f.history.task 1).stalled with
      | false => rfl
      | true => exact (Bool.false_ne_true (hbit.symm.trans (h.sticky hdebug hn hs))).elim
    have hbound := h.bound hdebug hn
    rw [((h.task 1).unstalled hstalled).1] at hbound
    rw [hcount, BitVec.toNat_ofNat, Nat.mod_eq_of_lt (hbound.trans_lt n.isLt)] at hless
    exact .inr ⟨hless, hstalled⟩

/-- The counter decides whether the demonstration is due. -/
theorem autoStall_kept (hf : Idle 0 f) :
    Kept n .main (fun stall f => Idle 0 f ∧
      Demo n (fun f => Due f n (stall || f.stallMask.getLsbD 1)) f) autoStall f := by
  refine .quiet (stable_idle 0) hf (fun _ _ => rfl) (fun _ _ => trivial) ?_
  intro s auto hsound hs hauto
  split
  · next hzero =>
    refine .ret ⟨hs, fun hdebug hn => ?_⟩
    exact absurd ((hsound.auto hdebug).symm.trans (hauto.symm.trans hzero)) hn
  · refine .quiet (stable_idle 0) hs (fun _ _ => rfl) (fun _ _ => trivial) ?_
    intro s feeds _ hs hfeeds
    refine .quiet ((stable_idle 0).and (stable_counted feeds)) ⟨hs, hfeeds.symm⟩
      (fun _ _ => rfl) (fun _ _ => trivial) ?_
    rintro s auto hsound ⟨hs, rfl⟩ hauto
    refine .ret ⟨hs, fun hdebug hn => ?_⟩
    have hauto : auto = n := Eq.trans hauto (hsound.auto hdebug)
    rw [hauto]
    show Due s.facts n (decide (s.facts.feeds ≥ n) || s.facts.stallMask.getLsbD 1)
    by_cases hdue : s.facts.feeds ≥ n
    · rw [decide_eq_true hdue]
      exact .inl (Bool.true_or _)
    · rw [decide_eq_false hdue, Bool.false_or]
      exact not_due hsound hs hdebug hn hdue

theorem stable_due : Stable .main (Demo n fun f => Due f n (f.stallMask.getLsbD 1)) := by
  refine stable_demo fun f f' hserved hmask h => ?_
  rw [hmask]
  exact h.served hserved

/-- When the demonstration is due, it is in the mask. -/
theorem demonstrate_kept (hf : Idle 0 f) :
    Kept n .main (fun _ f => Idle 0 f ∧ Demo n (fun f => Due f n (f.stallMask.getLsbD 1)) f)
      demonstrate f := by
  refine (autoStall_kept hf).seq ?_
  rintro stall f hdue
  cases stall with
  | false =>
    rw [if_neg Bool.false_ne_true]
    exact .ret ⟨hdue.1, fun hdebug hn => hdue.2 hdebug hn⟩
  | true =>
    rw [if_pos rfl]
    refine .quiet (stable_idle 0) hdue.1 (fun _ _ => rfl) (fun _ _ => trivial) ?_
    intro s mask _ hs _
    refine .op (stable_idle 0) hs ?_
    intro s _ hsound hs _
    have hbit : (mask ||| 2).getLsbD 1 = true := by
      rw [BitVec.getLsbD_or]
      exact Bool.or_true _
    exact ⟨trivial, hsound.stalling hbit, keep_main (.inl ⟨rfl, rfl⟩) (fun _ h => h)
      fun _ => ⟨rfl, rfl⟩, .ret ⟨⟨hs.free, hs.feeds⟩, fun _ _ => .inl hbit⟩⟩

/-- What is to be stalled is stalled from here on. -/
theorem publishStall_kept (previousStallMask : Word) (hf : Idle 0 f)
    (hdue : Demo n (fun f => Due f n (f.stallMask.getLsbD 1)) f) :
    Kept n .main (fun _ f => Idle 0 f ∧ Demo n (fun f => (f.history.task 1).stalled = true ∨
      f.history.feeds < n.toNat) f) (publishStall previousStallMask) f := by
  refine .quiet ((stable_idle 0).and stable_due) ⟨hf, hdue⟩ (fun _ _ => rfl)
    (fun _ _ => trivial) ?_
  intro s mask _ hs hmask
  have hbit : (mask &&& watchdogRequiredMask.setWidth 32).getLsbD 1 =
      s.facts.stallMask.getLsbD 1 := by
    rw [BitVec.getLsbD_and, show mask = s.facts.stallMask from hmask]
    exact Bool.and_true _
  refine .op (P := fun f => Idle 0 f ∧ Demo n (fun f =>
    (mask &&& watchdogRequiredMask.setWidth 32).getLsbD 1 = f.stallMask.getLsbD 1 ∧
    Due f n (f.stallMask.getLsbD 1)) f) ((stable_idle 0).and (stable_demo ?_))
    ⟨hs.1, fun hdebug hn => ⟨hbit, hs.2 hdebug hn⟩⟩ ?_
  · intro f f' hserved hmask h
    rw [hmask]
    exact ⟨h.1, h.2.served hserved⟩
  generalize mask &&& watchdogRequiredMask.setWidth 32 = requested
  intro s _ hsound hs _
  have hwatched : Idle 0 (s.after .main (.write .effectiveStallMask requested) ()) ∧
      Demo n (fun f => (f.history.task 1).stalled = true ∨ f.history.feeds < n.toNat)
        (s.after .main (.write .effectiveStallMask requested) ()) := by
    refine ⟨⟨hs.1.free, hs.1.feeds⟩, fun hdebug hn => ?_⟩
    obtain ⟨hbit, hdue⟩ := hs.2 hdebug hn
    show ((s.facts.history.task 1).stall (requested.getLsbD 1)).stalled = true ∨ _
    rw [Task.stall_stalled, hbit]
    exact hdue.imp id fun h => h.1
  refine ⟨trivial, hsound.stall hs.2, keep_main (.inl ⟨rfl, rfl⟩) (fun _ h => h) fun id =>
    Task.stall_report _ _, ?_⟩
  by_cases hchanged : requested ≠ previousStallMask
  · rw [if_pos hchanged]
    refine .quiet ((stable_idle 0).and stable_watched) hwatched (fun _ _ => rfl)
      (fun _ _ => trivial) ?_
    intro s _ _ hs _
    exact .ret hs
  · rw [if_neg hchanged]
    exact .ret hwatched

theorem haltWithoutFeeding_kept (rc : Int) {Q : Word → Facts → Prop} :
    Kept n .main (fun next f => ∀ a, next = some a → Q a f) (haltWithoutFeeding rc) f := by
  have hstable : Stable .main fun _ => True := fun _ _ _ _ => trivial
  refine .quiet hstable trivial (fun _ _ => rfl) (fun _ _ => trivial) ?_
  intro s _ _ _ _
  refine .quiet hstable trivial (fun _ _ => rfl) (fun _ _ => trivial) ?_
  intro s _ _ _ _
  exact .ret nofun

theorem countService_kept (requested : Word) (rc : Int) (hf : Idle (owed rc) f) :
    Kept n .main (fun next f => ∀ a, next = some a → Idle 0 f) (countService requested rc) f := by
  by_cases hrc : rc = 0
  · rw [countService, if_pos hrc]
    rw [owed, if_pos hrc] at hf
    refine .quiet (stable_idle 1) hf (fun _ _ => rfl) (fun _ _ => trivial) ?_
    intro s feeds _ hs hfeeds
    refine .op ((stable_idle 1).and (stable_counted feeds)) ⟨hs, hfeeds.symm⟩ ?_
    rintro s _ hsound ⟨hs, rfl⟩ _
    have hidle : Idle 0 (s.after .main (.write .successfulFeeds (s.facts.feeds + 1)) ()) :=
      ⟨hs.free, (BitVec.add_zero _).trans hs.feeds⟩
    refine ⟨trivial, hsound.counted _, keep_main (.inl ⟨rfl, rfl⟩) (fun _ h => h)
      fun _ => ⟨rfl, rfl⟩, ?_⟩
    refine .quiet (stable_idle 0) hidle (fun _ _ => rfl) (fun _ _ => trivial) ?_
    intro s _ _ hs _
    exact .ret fun _ _ => hs
  · rw [countService, if_neg hrc]
    rw [owed, if_neg hrc] at hf
    split
    · refine .quiet (stable_idle 0) hf (fun _ _ => rfl) (fun _ _ => trivial) ?_
      intro s _ _ hs _
      refine .quiet (stable_idle 0) hs (fun _ _ => rfl) (fun _ _ => trivial) ?_
      intro s _ _ hs _
      refine .quiet (stable_idle 0) hs (fun _ _ => rfl) (fun _ _ => trivial) ?_
      intro s _ _ hs _
      exact .ret fun _ _ => hs
    · exact haltWithoutFeeding_kept rc

theorem mainLoop_kept (previousStallMask : Word) (hf : Idle 0 f) :
    Kept n .main (fun next f => ∀ a, next = some a → Idle 0 f) (mainLoop previousStallMask) f := by
  refine (demonstrate_kept hf).seq ?_
  rintro _ f ⟨hidle, hdue⟩
  refine (publishStall_kept previousStallMask hidle hdue).seq ?_
  rintro requested f ⟨hidle, hwatched⟩
  refine (watchdogService_kept hidle hwatched).seq ?_
  intro rc f hidle
  refine .quiet (stable_idle (owed rc)) hidle (fun _ _ => rfl) (fun _ _ => trivial) ?_
  intro s _ _ hs _
  exact countService_kept requested rc hs

/-- A field of the context is set before there is a worker. -/
theorem Kept.field {o : Op} {k : Ans o → HeartbeatProgram α} {Q : α → Facts → Prop}
    {g : WatchdogCtx → WatchdogCtx}
    (hafter : ∀ (s : Shared) r, s.after .main o r = { s.facts with ctx := g s.facts.ctx })
    (hallows : ∀ (h : History) r, h.Allows ⟨.main, o, r⟩)
    (hmask : ∀ ctx, (g ctx).reportedMask = ctx.reportedMask) (hf : Starting f)
    (h : ∀ r f, Starting f → Kept n .main Q (k r) f) :
    Kept n .main Q (Program.issue o >>= k) f := by
  refine .op stable_starting hf fun s r hsound hs _ => ?_
  rw [hafter]
  refine ⟨hallows _ r, hsound.withCtx (hmask _) fun hfailed => ?_,
    keep_main (.inr ⟨.inl hs.owner, .inl hs.owner⟩) (fun _ h => h) fun _ => ⟨rfl, rfl⟩,
    h r _ ⟨hs.created, hs.owner, hs.feeds, hs.failed⟩⟩
  exact (Bool.false_ne_true (hs.failed.symm.trans hfailed)).elim

theorem watchdogInit_kept (dev : Nat) (hf : Starting f) :
    Kept n .main (fun _ f => Starting f) (watchdogInit dev) f := by
  refine .quiet stable_starting hf (fun _ _ => rfl) (fun _ _ => trivial) ?_
  intro s isr _ hs _
  split
  · exact .ret hs
  refine .quiet stable_starting hs (fun _ _ => rfl) (fun _ _ => trivial) ?_
  intro s state _ hs _
  split
  · exact .ret hs
  refine .quiet stable_starting hs (fun _ _ => rfl) (fun _ _ => trivial) ?_
  intro s ready _ hs _
  split
  · exact .ret hs
  refine .quiet stable_starting hs (fun _ _ => rfl) (fun _ _ => trivial) ?_
  intro s rc _ hs _
  split
  · exact .ret hs
  refine .field (g := fun ctx => { ctx with dev := some dev }) (fun _ _ => rfl) (fun _ _ => trivial)
    (fun _ => rfl) hs fun _ f hf => ?_
  refine .field (g := fun ctx => { ctx with channelId := -1 }) (fun _ _ => rfl) (fun _ _ => trivial)
    (fun _ => rfl) hf fun _ f hf => ?_
  refine .op stable_starting hf fun s _ hsound hs _ => ⟨trivial, hsound.clear,
    keep_main (.inr ⟨.inl hs.owner, .inl hs.owner⟩) (fun _ h => h) fun _ => ⟨rfl, rfl⟩, ?_⟩
  have hs : Starting (s.after .main (.writeReportedMask 0) ()) :=
    ⟨hs.created, hs.owner, hs.feeds, hs.failed⟩
  refine .field (g := fun ctx => { ctx with state := .faulted }) (fun _ _ => rfl) (fun _ _ => trivial)
    (fun _ => rfl) hs fun _ f hf => ?_
  refine .quiet stable_starting hf (fun _ _ => rfl) (fun _ _ => trivial) ?_
  intro s rc _ hs _
  split
  · exact .ret hs
  refine .field (g := fun ctx => { ctx with channelId := rc }) (fun _ _ => rfl) (fun _ _ => trivial)
    (fun _ => rfl) hs fun _ f hf => ?_
  refine .quiet stable_starting hf (fun _ _ => rfl) (fun _ _ => trivial) ?_
  intro s rc _ hs _
  split
  · exact .ret hs
  exact .field (g := fun ctx => { ctx with state := .running }) (fun _ _ => rfl) (fun _ _ => trivial)
    (fun _ => rfl) hs fun _ f hf => .ret hf

/-- The program up to the loop of `main`. -/
theorem mainStart_kept (hf : Starting f) :
    Kept n .main (fun next f => ∀ a, next = some a → Idle 0 f) mainStart f := by
  refine .quiet stable_starting hf (fun _ _ => rfl) (fun _ _ => trivial) ?_
  intro s _ _ hs _
  refine (watchdogInit_kept gWdt hs).seq fun rc f hf => ?_
  refine .quiet stable_starting hf (fun _ _ => rfl) (fun _ _ => trivial) ?_
  intro s _ _ hs _
  split
  · exact haltWithoutFeeding_kept rc
  have hcreate : ∀ {P : Facts → Prop} {id : Fin 2} {k : Unit → HeartbeatProgram (Option Word)} {f}
      {Q : Option Word → Facts → Prop}, Stable .main P → P f →
      (∀ f, P f → Idle 0 f) → (∀ f, Idle 0 f → Kept n .main Q (k ()) f) →
      Kept n .main Q (Program.issue (Op.threadCreate id) >>= k) f := by
    intro P id k f Q hstable hP hidle h
    refine .op hstable hP fun s _ hsound hP _ => ⟨trivial, hsound.created _,
      keep_main (.inl ⟨rfl, rfl⟩) (fun id' hid' => ?_) fun _ => ⟨rfl, rfl⟩,
      h _ ⟨(hidle _ hP).free, (hidle _ hP).feeds⟩⟩
    show Function.update s.created id true id' = true
    by_cases hid : id' = id
    · rw [hid, Function.update_self]
    · rw [Function.update_of_ne hid]
      exact hid'
  refine hcreate stable_starting hs (fun f hf => ⟨?_, ?_⟩) fun f hf => ?_
  · rw [hf.owner]
    exact nofun
  · exact (BitVec.add_zero _).trans hf.feeds
  refine hcreate (stable_idle 0) hf (fun _ h => h) fun f hf => ?_
  refine .quiet (stable_idle 0) hf (fun _ _ => rfl) (fun _ _ => trivial) ?_
  intro s _ _ hs _
  exact .ret fun _ _ => hs

end Main

/-! ### The debugger -/

theorem debug_kept (f : Facts) :
    Kept n .debugger (fun _ _ => True) debug f := by
  have hstable : Stable .debugger fun _ => True := fun _ _ _ _ => trivial
  have hkeep : ∀ (f : Facts) auto stallMask, ∀ j, j ≠ .debugger → f.Keep j
      { f with auto, stallMask, history := { f.history with debugged := true } } :=
    fun f auto stallMask => Facts.Step.keep ⟨.inl ⟨rfl, rfl⟩, fun _ h => h, fun _ _ => ⟨rfl, rfl⟩,
      fun _ => ⟨rfl, rfl, ⟨rfl, rfl, rfl⟩, fun _ => rfl, nofun, fun _ => rfl⟩⟩
  refine .quiet hstable trivial (fun _ _ => rfl) (fun _ _ => trivial) ?_
  intro s x _ _ _
  refine .op hstable trivial fun s _ hsound _ _ => ⟨trivial, hsound.debugged _ _,
    hkeep s.facts x s.facts.stallMask, ?_⟩
  refine .quiet hstable trivial (fun _ _ => rfl) (fun _ _ => trivial) ?_
  intro s x _ _ _
  exact .op hstable trivial fun s _ hsound _ _ => ⟨trivial, hsound.debugged _ _,
    hkeep s.facts s.facts.auto x, .ret trivial⟩

end CortexLabs.Watchdog.Heartbeat

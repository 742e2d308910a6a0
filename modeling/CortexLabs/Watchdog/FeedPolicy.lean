import CortexLabs.Device.Monitor
import CortexLabs.Device.Run
import CortexLabs.Device.Wp
import CortexLabs.Watchdog.Supervisor

/-! The feed policy.  A history follows what the supervisor asks of the driver and returns to its
callers, over any calls in any order: the watchdog is fed only after every task has reported since
the last feed, and never after a failure. -/

namespace CortexLabs.Watchdog

open Device Errno Relation

inductive Call where
  | init (dev : Option Nat)
  | report (taskId : Word)
  | service
  deriving DecidableEq

def Call.program (ctx : WatchdogCtx) : Call → WatchdogProgram (Int × Option WatchdogCtx)
  | init dev => watchdogInit (some ctx) dev
  | report taskId => watchdogReport (some ctx) taskId
  | service => watchdogService (some ctx)

/-- An operation with its answer, or the return of a call. -/
inductive Observation where
  | asked (o : Op) (r : Ans o)
  | returned (call : Call) (rc : Int)

/-- The tasks whose reports returned 0 since the last successful feed, whether the timeout was ever
installed and set up, whether an install, a setup or a feed has failed, and what the mutex or a feed
has answered to the call that is under way. -/
structure History where
  reported : Word → Bool
  installed : Bool
  setUp : Bool
  failed : Bool
  answer : Option Int

namespace History

def start : History := ⟨fun _ => false, false, false, false, none⟩

def next (h : History) : Observation → History
  | .asked (.installTimeout _ _) rc =>
    { h with installed := true, failed := h.failed || decide (rc < 0) }
  | .asked (.setup _ _) rc => { h with setUp := true, failed := h.failed || decide (rc ≠ 0) }
  | .asked (.feed _ _) rc =>
    if rc = 0 then { h with reported := fun _ => false, answer := some rc }
    else { h with failed := true, answer := some rc }
  | .asked .mutexLock rc => { h with answer := some rc }
  | .asked _ _ => h
  | .returned (.report taskId) rc =>
    if rc = 0 then { h with reported := Function.update h.reported taskId true, answer := none }
    else { h with answer := none }
  | .returned _ _ => { h with answer := none }

/-- The timeout is installed and set up once.  The watchdog is fed only when nothing has failed and
every task has reported.  After a failure a report or a service returns an error: a negative one, or
what the mutex or the feed has answered. -/
def Allows (h : History) : Observation → Prop
  | .asked (.installTimeout _ _) _ => h.installed = false
  | .asked (.setup _ _) _ => h.setUp = false
  | .asked (.feed _ _) _ => h.failed = false ∧ ∀ id < watchdogTaskCount, h.reported id = true
  | .returned (.report _) rc | .returned .service rc =>
    h.failed = true → rc < 0 ∨ rc ≠ 0 ∧ h.answer = some rc
  | .asked _ _ | .returned (.init _) _ => True

end History

def feedPolicy : Monitor History Observation := ⟨.start, History.next, History.Allows⟩

/-- The kernel and the driver, which may answer anything, with the log of what they were asked. -/
abbrev anyDriver : Behavior Op Ans where
  State := List Observation
  answer log o r log' := log' = log ++ [.asked o r]
  torn _ _ _ := False

structure World where
  ctx : WatchdogCtx
  log : List Observation

inductive Step : World → World → Prop
  | call {w : World} {call : Call} {ctx : WatchdogCtx} {rc : Int} {log : List Observation}
    {t : List (Event anyDriver)}
    (hexec : Exec anyDriver (call.program w.ctx) w.log t (some (rc, some ctx)) log) :
    Step w ⟨ctx, log ++ [.returned call rc]⟩

/-! ### One call -/

/-- A log that keeps to the policy, with its history. -/
def Logged (h : History) (log : List Observation) : Prop :=
  feedPolicy.Conforms log ∧ feedPolicy.after log = h

/-- The mask of the tasks that have reported. -/
def maskOf (reported : Word → Bool) : Byte :=
  (if reported 0 then 1 else 0) ||| if reported 1 then 2 else 0

theorem maskOf_none : maskOf (fun _ => false) = 0 := rfl

/-- The mask holds the reports, and the state of the context what has been done and has failed. -/
structure Matches (ctx : WatchdogCtx) (h : History) : Prop where
  mask : ctx.reportedMask = maskOf h.reported
  unopened : ctx.dev = none ↔ ctx.state = .uninitialized
  fresh : ctx.state = .uninitialized →
    h.reported = (fun _ => false) ∧ h.installed = false ∧ h.setUp = false
  faulted : ctx.state = .faulted ↔ h.failed = true

variable {ctx : WatchdogCtx} {h : History} {log : List Observation}

theorem Logged.snoc (hlog : Logged h log) {o : Observation} (ho : h.Allows o) :
    Logged (h.next o) (log ++ [o]) := by
  obtain ⟨hconforms, rfl⟩ := hlog
  exact ⟨Monitor.conforms_snoc.mpr ⟨hconforms, ho⟩, Monitor.after_snoc _ _ _⟩

section Rules

variable {α : Type} {Q : α → List Observation → Prop} {o : Op} {f : Ans o → WatchdogProgram α}

theorem wp_ask (hnext : ∀ r, wp anyDriver Q (f r) (log ++ [.asked o r])) :
    wp anyDriver Q (Program.issue o >>= f) log := by
  rintro r _ rfl
  exact hnext r

/-- An operation that the policy allows, and what follows it. -/
theorem Logged.ask (hlog : Logged h log) (ho : ∀ r, h.Allows (.asked o r))
    (hnext : ∀ r, ∀ log', Logged (h.next (.asked o r)) log' → wp anyDriver Q (f r) log') :
    wp anyDriver Q (Program.issue o >>= f) log :=
  wp_ask fun r => hnext r _ (hlog.snoc (ho r))

end Rules

def Leaves (call : Call) (r : Int × Option WatchdogCtx) (log : List Observation) : Prop :=
  ∃ ctx h, r.2 = some ctx ∧ Logged h (log ++ [.returned call r.1]) ∧ Matches ctx h

theorem Matches.answer (hmatch : Matches ctx h) (answer : Option Int) :
    Matches ctx { h with answer := answer } :=
  ⟨hmatch.mask, hmatch.unopened, hmatch.fresh, hmatch.faulted⟩

theorem Matches.sound (hmatch : Matches ctx h) {state : WatchdogState} (hstate : ctx.state = state)
    (hne : state ≠ .faulted) : h.failed = false :=
  Bool.eq_false_iff.mpr fun hfailed => hne (hstate.symm.trans (hmatch.faulted.mpr hfailed))

theorem leaves_same {call : Call} {rc : Int} (hlog : Logged h log) (hmatch : Matches ctx h)
    (hallows : h.Allows (.returned call rc))
    (hsame : h.next (.returned call rc) = { h with answer := none }) :
    Leaves call (rc, some ctx) log :=
  ⟨ctx, _, rfl, hlog.snoc hallows, hsame ▸ hmatch.answer none⟩

theorem init_leaves (hlog : Logged h log) (hmatch : Matches ctx h) (dev : Option Nat) :
    wp anyDriver (Leaves (.init dev)) (watchdogInit (some ctx) dev) log := by
  have hreturn : ∀ {rc : Int} {ctx : WatchdogCtx} {h : History} {log : List Observation},
      Logged h log → Matches ctx h → Leaves (.init dev) (rc, some ctx) log :=
    fun hlog hmatch => leaves_same hlog hmatch trivial rfl
  cases dev with
  | none => exact hreturn hlog hmatch
  | some dev =>
    unfold watchdogInit
    refine hlog.ask (fun _ => trivial) fun isr log1 hlog1 => ?_
    split
    · exact hreturn hlog1 hmatch
    split
    · exact hreturn hlog1 hmatch
    next hstate =>
    rw [not_not] at hstate
    obtain ⟨hreported, hinstalled, hsetUp⟩ := hmatch.fresh hstate
    have hfailed := hmatch.sound hstate (by decide)
    refine hlog1.ask (fun _ => trivial) fun ready log2 hlog2 => ?_
    split
    · exact hreturn hlog2 hmatch
    refine hlog2.ask (fun _ => trivial) fun rc log3 hlog3 => ?_
    split
    · exact hreturn hlog3 hmatch
    -- From here on the context is not fresh, whatever becomes of the driver.
    have hmask : 0 = maskOf h.reported := by rw [hreported, maskOf_none]
    have hfaulted : ∀ (channelId : Int) (h' : History), h'.reported = h.reported →
        h'.failed = true → Matches ⟨some dev, channelId, 0, .faulted⟩ h' := by
      intro channelId h' hsame hfailed'
      refine ⟨?_, ⟨nofun, nofun⟩, nofun, fun _ => hfailed', fun _ => rfl⟩
      rw [hsame]
      exact hmask
    refine hlog3.ask (fun _ => hinstalled) fun rc log4 hlog4 => ?_
    split
    · next hinstall =>
      refine hreturn hlog4 (hfaulted _ _ rfl ?_)
      exact Bool.or_eq_true_iff.mpr (.inr (decide_eq_true hinstall))
    next hinstall =>
    refine hlog4.ask (fun _ => hsetUp) fun rc' log5 hlog5 => ?_
    split
    · next hsetup =>
      refine hreturn hlog5 (hfaulted _ _ rfl ?_)
      exact Bool.or_eq_true_iff.mpr (.inr (decide_eq_true hsetup))
    next hsetup =>
    have hgood : ((h.failed || decide (rc < 0)) || decide (rc' ≠ 0)) = false := by
      rw [hfailed, decide_eq_false hinstall, decide_eq_false hsetup]
      rfl
    refine hreturn hlog5 ⟨hmask, ⟨nofun, nofun⟩, nofun, nofun, fun h => ?_⟩
    exact absurd (hgood.symm.trans h) (by decide)

theorem maskOf_update {taskId : Word} (htask : taskId < watchdogTaskCount)
    (reported : Word → Bool) :
    maskOf (Function.update reported taskId true) =
      maskOf reported ||| ((1 : Word) <<< taskId).setWidth 8 := by
  have hcases : taskId = 0 ∨ taskId = 1 := by bv_omega
  unfold maskOf
  rcases hcases with rfl | rfl
  · rw [Function.update_self, Function.update_of_ne (by decide)]
    cases reported 0 <;> cases reported 1 <;> rfl
  · rw [Function.update_self, Function.update_of_ne (by decide)]
    cases reported 0 <;> cases reported 1 <;> rfl

theorem maskOf_required (reported : Word → Bool) :
    maskOf reported = watchdogRequiredMask ↔ ∀ id < watchdogTaskCount, reported id = true := by
  have hboth : maskOf reported = watchdogRequiredMask ↔
      reported 0 = true ∧ reported 1 = true := by
    unfold maskOf
    cases reported 0 <;> cases reported 1 <;> decide
  rw [hboth]
  constructor
  · rintro ⟨hzero, hone⟩ id hid
    have hcases : id = 0 ∨ id = 1 := by bv_omega
    rcases hcases with rfl | rfl
    · exact hzero
    · exact hone
  · intro hall
    exact ⟨hall 0 (by decide), hall 1 (by decide)⟩

theorem report_leaves (hlog : Logged h log) (hmatch : Matches ctx h) (taskId : Word) :
    wp anyDriver (Leaves (.report taskId)) (watchdogReport (some ctx) taskId) log := by
  have herror : ∀ {rc : Int} {h : History} {log : List Observation}, Logged h log →
      Matches ctx h → rc < 0 ∨ rc ≠ 0 ∧ h.answer = some rc →
      Leaves (.report taskId) (rc, some ctx) log := by
    intro rc h log hlog hmatch hrc
    have hne : rc ≠ 0 := by
      rcases hrc with hneg | ⟨hne, -⟩
      · omega
      · exact hne
    exact leaves_same hlog hmatch (fun _ => hrc) (if_neg hne)
  unfold watchdogReport
  dsimp only
  split
  · exact herror hlog hmatch (.inl (by decide))
  next hvalid =>
  rw [not_or, BitVec.not_le] at hvalid
  refine hlog.ask (fun _ => trivial) fun isr log1 hlog1 => ?_
  split
  · exact herror hlog1 hmatch (.inl (by decide))
  refine hlog1.ask (fun _ => trivial) fun rc log2 hlog2 => ?_
  split
  · next hrc => exact herror hlog2 (hmatch.answer _) (.inr ⟨hrc, rfl⟩)
  unfold reportLocked
  split
  · refine hlog2.ask (fun _ => trivial) fun _ log3 hlog3 => ?_
    exact herror hlog3 (hmatch.answer _) (.inl (show -eio < 0 by decide))
  next hrunning =>
  refine hlog2.ask (fun _ => trivial) fun _ log3 hlog3 => ?_
  rw [not_not] at hrunning
  have hfailed := hmatch.sound hrunning (by decide)
  refine ⟨_, _, rfl, hlog3.snoc fun h => absurd (h.symm.trans hfailed) (by decide), ?_⟩
  refine ⟨?_, hmatch.unopened, fun h => absurd (hrunning.symm.trans h) (by decide), hmatch.faulted⟩
  show ctx.reportedMask ||| _ = maskOf (Function.update h.reported taskId true)
  rw [hmatch.mask, maskOf_update hvalid.2]

theorem service_leaves (hlog : Logged h log) (hmatch : Matches ctx h) :
    wp anyDriver (Leaves .service) (watchdogService (some ctx)) log := by
  have hsame : ∀ {rc : Int} {ctx : WatchdogCtx} {h : History} {log : List Observation},
      Logged h log → Matches ctx h → h.Allows (.returned .service rc) →
      Leaves .service (rc, some ctx) log :=
    fun hlog hmatch hallows => leaves_same hlog hmatch hallows rfl
  unfold watchdogService
  dsimp only
  split
  · exact hsame hlog hmatch fun _ => .inl (by decide)
  next dev hdev =>
  refine hlog.ask (fun _ => trivial) fun isr log1 hlog1 => ?_
  split
  · exact hsame hlog1 hmatch fun _ => .inl (by decide)
  refine hlog1.ask (fun _ => trivial) fun rc log2 hlog2 => ?_
  split
  · next hrc => exact hsame hlog2 (hmatch.answer _) fun _ => .inr ⟨hrc, rfl⟩
  unfold serviceLocked
  split
  · refine hlog2.ask (fun _ => trivial) fun _ log3 hlog3 => ?_
    exact hsame hlog3 (hmatch.answer _) fun _ => .inl (show -eio < 0 by decide)
  next hrunning =>
  rw [not_not] at hrunning
  have hfailed := hmatch.sound hrunning (by decide)
  split
  · refine hlog2.ask (fun _ => trivial) fun _ log3 hlog3 => ?_
    exact hsame hlog3 (hmatch.answer _) fun h => absurd (h.symm.trans hfailed) (by decide)
  next hmask =>
  have hreported : ∀ id < watchdogTaskCount, h.reported id = true :=
    (maskOf_required h.reported).mp (hmatch.mask ▸ not_not.mp hmask)
  refine wp_bind.mpr (hlog2.ask (fun _ => ⟨hfailed, hreported⟩) fun rc' log3 hlog3 => ?_)
  by_cases hfed : rc' = 0
  · rw [if_pos hfed]
    refine hlog3.ask (fun _ => trivial) fun _ log4 hlog4 => ?_
    rw [History.next, if_pos hfed] at hlog4
    refine hsame hlog4 ⟨maskOf_none.symm, hmatch.unopened, ?_, hmatch.faulted⟩ ?_
    · exact fun h => absurd (hrunning.symm.trans h) (by decide)
    · exact fun h => absurd (h.symm.trans hfailed) (by decide)
  · rw [if_neg hfed]
    refine hlog3.ask (fun _ => trivial) fun _ log4 hlog4 => ?_
    rw [History.next, if_neg hfed] at hlog4
    have hdev' : ctx.dev ≠ none := by rw [hdev]; exact Option.some_ne_none dev
    refine hsame hlog4 ⟨hmatch.mask, ⟨fun h => absurd h hdev', ?_⟩, ?_, fun _ => rfl, fun _ => rfl⟩
      fun _ => .inr ⟨hfed, rfl⟩
    · exact fun h => WatchdogState.noConfusion h
    · exact fun h => WatchdogState.noConfusion h

/-! ### Runs -/

theorem call_leaves (hlog : Logged h log) (hmatch : Matches ctx h) (call : Call) :
    wp anyDriver (Leaves call) (call.program ctx) log := by
  cases call with
  | init dev => exact init_leaves hlog hmatch dev
  | report taskId => exact report_leaves hlog hmatch taskId
  | service => exact service_leaves hlog hmatch

def Kept (w : World) : Prop := ∃ h, Logged h w.log ∧ Matches w.ctx h

theorem Kept.step {w w' : World} (hkept : Kept w) (hstep : Step w w') : Kept w' := by
  obtain ⟨h, hlog, hmatch⟩ := hkept
  cases hstep with
  | call hexec =>
    obtain ⟨ctx, h', hctx, hlog', hmatch'⟩ := wp_sound (call_leaves hlog hmatch _) hexec
    cases hctx
    exact ⟨h', hlog', hmatch'⟩

theorem kept_start : Kept ⟨.zero, []⟩ :=
  ⟨.start, ⟨.nil, rfl⟩, ⟨rfl, ⟨fun _ => rfl, fun _ => rfl⟩, fun _ => ⟨rfl, rfl, rfl⟩, nofun, nofun⟩⟩

theorem kept_run {w : World} (hrun : ReflTransGen Step ⟨.zero, []⟩ w) : Kept w :=
  run_invariant (fun _ _ hkept hstep => hkept.step hstep) hrun kept_start

/-- When every task has reported and nothing has failed, a service that gets the mutex feeds. -/
theorem service_feeds (hmatch : Matches ctx h)
    (hreported : ∀ id < watchdogTaskCount, h.reported id = true) (hfailed : h.failed = false) :
    wp anyDriver (fun _ log' => ∃ new, log' = log ++ new ∧
      (.asked .mutexLock 0 ∈ new → ∃ dev channelId rc, .asked (.feed dev channelId) rc ∈ new))
      (watchdogService (some ctx)) log := by
  have hlive : ctx.state = .running := by
    cases hstate : ctx.state with
    | uninitialized =>
      have hnone := congrFun (hmatch.fresh hstate).1 0
      exact absurd (hnone.symm.trans (hreported 0 (by decide))) (by decide)
    | running => rfl
    | faulted => exact absurd (hfailed.symm.trans (hmatch.faulted.mp hstate)) (by decide)
  have hmask : ctx.reportedMask = watchdogRequiredMask :=
    hmatch.mask.trans ((maskOf_required h.reported).mpr hreported)
  unfold watchdogService
  dsimp only
  split
  · exact ⟨[], (List.append_nil log).symm, nofun⟩
  next dev hdev =>
  refine wp_ask fun isr => ?_
  split
  · refine ⟨[_], rfl, fun hlock => ?_⟩
    cases List.mem_singleton.mp hlock
  refine wp_ask fun rc => ?_
  split
  · next hrc =>
    refine ⟨[_, _], List.append_assoc _ _ _, fun hlock => ?_⟩
    rcases List.mem_cons.mp hlock with h | h
    · cases h
    · cases List.mem_singleton.mp h
      exact absurd rfl hrc
  unfold serviceLocked
  rw [if_neg (not_not.mpr hlive), if_neg (not_not.mpr hmask)]
  refine wp_bind.mpr (wp_ask fun rc' => ?_)
  have hfeed : ∀ (ctx' : WatchdogCtx) (u : Int), wp anyDriver (fun _ log' => ∃ new, log' = log ++ new ∧
      (.asked .mutexLock 0 ∈ new → ∃ dev channelId rc, .asked (.feed dev channelId) rc ∈ new))
      (do let _ ← kMutexUnlock; return (u, some ctx'))
      (((log ++ [.asked .isInIsr isr]) ++ [.asked .mutexLock rc]) ++
        [.asked (.feed dev ctx.channelId) rc']) := by
    intro ctx' u
    refine wp_ask fun unlocked => ?_
    refine ⟨[.asked .isInIsr isr, .asked .mutexLock rc, .asked (.feed dev ctx.channelId) rc',
      .asked .mutexUnlock unlocked], ?_, fun _ => ⟨dev, ctx.channelId, rc', ?_⟩⟩
    · rw [List.append_assoc, List.append_assoc, List.append_assoc]
      rfl
    · exact List.mem_cons_of_mem _ (List.mem_cons_of_mem _ List.mem_cons_self)
  split
  · exact hfeed _ _
  · exact hfeed _ _

/-- In every run the policy is kept, a report that returned 0 stays in the mask until a feed succeeds,
and a service that then gets the mutex feeds as soon as every task has reported. -/
theorem feed_policy {w : World} (hrun : ReflTransGen Step ⟨.zero, []⟩ w) :
    feedPolicy.Conforms w.log ∧
    (∀ id < watchdogTaskCount,
      w.ctx.reportedMask.getLsbD id.toNat = (feedPolicy.after w.log).reported id) ∧
    ((∀ id < watchdogTaskCount, (feedPolicy.after w.log).reported id = true) →
      (feedPolicy.after w.log).failed = false →
      ∀ t result log', Exec anyDriver (watchdogService (some w.ctx)) w.log t (some result) log' →
        ∃ new, log' = w.log ++ new ∧ (.asked .mutexLock 0 ∈ new →
          ∃ dev channelId rc, .asked (.feed dev channelId) rc ∈ new)) := by
  obtain ⟨h, ⟨hconforms, rfl⟩, hmatch⟩ := kept_run hrun
  refine ⟨hconforms, ?_, ?_⟩
  · intro id hid
    have hcases : id = 0 ∨ id = 1 := by bv_omega
    rw [hmatch.mask]
    unfold maskOf
    rcases hcases with rfl | rfl
    · cases (feedPolicy.after w.log).reported 0 <;>
        cases (feedPolicy.after w.log).reported 1 <;> rfl
    · cases (feedPolicy.after w.log).reported 0 <;>
        cases (feedPolicy.after w.log).reported 1 <;> rfl
  · intro hreported hfailed t result log' hexec
    exact wp_sound (service_feeds hmatch hreported hfailed) hexec

/-- A kernel and a driver that do all that they are asked. -/
def goodDriver (o : Op) (log : List Observation) : Ans o × List Observation :=
  match o with
  | .isInIsr => (false, log ++ [.asked .isInIsr false])
  | .deviceIsReady dev => (true, log ++ [.asked (.deviceIsReady dev) true])
  | .mutexInit => (0, log ++ [.asked .mutexInit 0])
  | .mutexLock => (0, log ++ [.asked .mutexLock 0])
  | .mutexUnlock => (0, log ++ [.asked .mutexUnlock 0])
  | .installTimeout dev cfg => (0, log ++ [.asked (.installTimeout dev cfg) 0])
  | .setup dev options => (0, log ++ [.asked (.setup dev options) 0])
  | .feed dev channelId => (0, log ++ [.asked (.feed dev channelId) 0])

theorem goodDriver_handles : Handles anyDriver goodDriver := by
  intro log o
  cases o <;> rfl

theorem goodDriver_step (w : World) (call : Call) {ctx : WatchdogCtx} {rc : Int}
    {log : List Observation}
    (hrun : (call.program w.ctx).run goodDriver w.log = ((rc, some ctx), log)) :
    Step w ⟨ctx, log ++ [.returned call rc]⟩ := by
  obtain ⟨t, ht⟩ := goodDriver_handles.exec (call.program w.ctx) w.log
  rw [hrun] at ht
  exact .call ht

/-- After an init and a report of each task, a service feeds the watchdog. -/
theorem feed_policy_fed : ∃ w, ReflTransGen Step ⟨.zero, []⟩ w ∧ feedPolicy.Conforms w.log ∧
    .asked (.feed 1 0) 0 ∈ w.log := by
  have hinit := goodDriver_step ⟨.zero, []⟩ (.init (some 1)) rfl
  have hfirst := (ReflTransGen.single hinit).tail (goodDriver_step _ (.report 0) rfl)
  have hsecond := hfirst.tail (goodDriver_step _ (.report 1) rfl)
  have hrun := hsecond.tail (goodDriver_step _ .service rfl)
  exact ⟨_, hrun, (feed_policy hrun).1, by simp [goodDriver]⟩

end CortexLabs.Watchdog

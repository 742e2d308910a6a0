import CortexLabs.Device.Monitor
import CortexLabs.Device.Parallel
import CortexLabs.Watchdog.Supervisor

/-! The heartbeat program.  Its main thread services the watchdog and may stall a task, a thread for
each task reports its units of work, and a debugger may set the two variables that choose what is
stalled.  Every access to what they share is an operation of its own, so that only the mutex keeps
one call of the supervisor out of another. -/

namespace CortexLabs.Watchdog.Heartbeat

open Device Errno

abbrev serviceMs : Word := 50

/-- `g_wdt`, known by the address of its registers. -/
abbrev gWdt : Nat := 0x40008000

inductive Thread where
  | main
  | worker (id : Fin 2)
  | debugger
  deriving DecidableEq

inductive Lab25Stage where
  | reset
  | init
  | running
  | waitingForReset
  | error
  deriving DecidableEq

/-- The variables that hold a word. -/
inductive Var where
  | effectiveStallMask
  | observedStallMask
  | reportCalls (id : Fin 2)
  | autoStallAfterFeeds
  | stallMask
  | workUnits (id : Fin 2)
  | successfulFeeds
  | waitingServices
  deriving DecidableEq

/-- The variables that hold a result. -/
inductive Rc where
  | init
  | service
  | error
  | report (id : Fin 2)
  deriving DecidableEq

/-- A call of the kernel or of the watchdog driver, or an access to a field or a variable.  `entry`
is where a created thread starts, and `choose` what the debugger makes up. -/
inductive Op where
  | kernel (o : Watchdog.Op)
  | threadCreate (id : Fin 2)
  | entry (id : Fin 2)
  | sleep (ms : Word)
  | readDev
  | writeDev (dev : Option Nat)
  | readChannelId
  | writeChannelId (channelId : Int)
  | readReportedMask
  | writeReportedMask (mask : Byte)
  | readState
  | writeState (state : WatchdogState)
  | read (v : Var)
  | write (v : Var) (x : Word)
  | atomicOr (v : Var) (x : Word)
  | atomicInc (v : Var)
  | writeRc (v : Rc) (rc : Int)
  | writeStage (stage : Lab25Stage)
  | choose

abbrev Ans : Op → Type
  | .kernel o => Watchdog.Ans o
  | .readDev => Option Nat
  | .readChannelId => Int
  | .readReportedMask => Byte
  | .readState => WatchdogState
  | .read _ | .choose => Word
  | .threadCreate _ | .entry _ | .sleep _ | .writeDev _ | .writeChannelId _ | .writeReportedMask _
  | .writeState _ | .write _ _ | .atomicOr _ _ | .atomicInc _ | .writeRc _ _ | .writeStage _ => Unit

abbrev HeartbeatProgram (α : Type) := Program Op Ans α

def kernel (o : Watchdog.Op) : HeartbeatProgram (Watchdog.Ans o) := Program.issue (Op.kernel o)

def read (v : Var) : HeartbeatProgram Word := Program.issue (Op.read v)

def write (v : Var) (x : Word) : HeartbeatProgram Unit := Program.issue (Op.write v x)

def writeRc (v : Rc) (rc : Int) : HeartbeatProgram Unit := Program.issue (Op.writeRc v rc)

def writeStage (stage : Lab25Stage) : HeartbeatProgram Unit := Program.issue (Op.writeStage stage)

def kMsleep (ms : Word) : HeartbeatProgram Unit := Program.issue (Op.sleep ms)

def kThreadCreate (id : Fin 2) : HeartbeatProgram Unit := Program.issue (Op.threadCreate id)

/-! ### The supervisor, access by access -/

def watchdogInit (dev : Nat) : HeartbeatProgram Int := do
  if ← kernel .isInIsr then return -ewouldblock
  if (← Program.issue Op.readState) ≠ .uninitialized then return -ealready
  if !(← kernel (.deviceIsReady dev)) then return -enodev
  let rc ← kernel .mutexInit
  if rc ≠ 0 then return rc
  Program.issue (Op.writeDev (some dev))
  Program.issue (Op.writeChannelId (-1))
  Program.issue (Op.writeReportedMask 0)
  Program.issue (Op.writeState .faulted)
  let rc ← kernel (.installTimeout dev ⟨0, watchdogTimeoutMs, none, wdtFlagResetSoc⟩)
  if rc < 0 then return rc
  Program.issue (Op.writeChannelId rc)
  let rc ← kernel (.setup dev 0)
  if rc ≠ 0 then return rc
  Program.issue (Op.writeState .running)
  return 0

/-- `watchdog_report` under the lock. -/
def reportLocked (taskId : Word) : HeartbeatProgram Int := do
  if (← Program.issue Op.readState) ≠ .running then return -eio
  let mask ← Program.issue Op.readReportedMask
  Program.issue (Op.writeReportedMask (mask ||| ((1 : Word) <<< taskId).setWidth 8))
  return 0

def watchdogReport (taskId : Word) : HeartbeatProgram Int := do
  let dev ← Program.issue Op.readDev
  if dev.isNone ∨ taskId ≥ watchdogTaskCount then return -einval
  if ← kernel .isInIsr then return -ewouldblock
  let rc ← kernel .mutexLock
  if rc ≠ 0 then return rc
  let rc ← reportLocked taskId
  let _ ← kernel .mutexUnlock
  return rc

/-- `watchdog_service` under the lock. -/
def serviceLocked : HeartbeatProgram Int := do
  if (← Program.issue Op.readState) ≠ .running then return -eio
  if (← Program.issue Op.readReportedMask) ≠ watchdogRequiredMask then
    return watchdogServiceWaiting
  let dev ← Program.issue Op.readDev
  let channelId ← Program.issue Op.readChannelId
  let rc ← kernel (.feed (dev.getD 0) channelId)
  if rc = 0 then Program.issue (Op.writeReportedMask 0)
  else Program.issue (Op.writeState .faulted)
  return rc

def watchdogService : HeartbeatProgram Int := do
  let dev ← Program.issue Op.readDev
  if dev.isNone then return -einval
  if ← kernel .isInIsr then return -ewouldblock
  let rc ← kernel .mutexLock
  if rc ≠ 0 then return rc
  let rc ← serviceLocked
  let _ ← kernel .mutexUnlock
  return rc

/-! ### The threads -/

/-- A thread that sleeps for ever has ended. -/
def haltWithoutFeeding (rc : Int) : HeartbeatProgram (Option Word) := do
  writeRc .error rc
  writeStage .error
  return none

/-- One turn of the loop of `heartbeat_worker`, with its `work_units`. -/
def heartbeatWorker (id : Fin 2) (workUnits : Word) : HeartbeatProgram (Option Word) := do
  let periodMs : Word := if id = 0 then 200 else 300
  if (← read .effectiveStallMask).getLsbD id then
    Program.issue (Op.atomicOr .observedStallMask (1 <<< id.val))
    kMsleep periodMs
    return some workUnits
  let workUnits := workUnits + 1
  write (.workUnits id) workUnits
  let rc ← watchdogReport (BitVec.ofNat 32 id)
  writeRc (.report id) rc
  if rc ≠ 0 then return none
  Program.issue (Op.atomicInc (.reportCalls id))
  kMsleep periodMs
  return some workUnits

/-- `main` up to its loop, which starts with nothing stalled. -/
def mainStart : HeartbeatProgram (Option Word) := do
  writeStage .init
  let rc ← watchdogInit gWdt
  writeRc .init rc
  if rc ≠ 0 then haltWithoutFeeding rc
  else
    kThreadCreate 0
    kThreadCreate 1
    writeStage .running
    return some 0

/-- Whether the automatic demonstration stalls task 1. -/
def autoStall : HeartbeatProgram Bool := do
  if (← read .autoStallAfterFeeds) = 0 then return false
  let feeds ← read .successfulFeeds
  return feeds ≥ (← read .autoStallAfterFeeds)

def demonstrate : HeartbeatProgram Unit := do
  if ← autoStall then
    write .stallMask ((← read .stallMask) ||| 2)

/-- What is stalled from here on, whatever it was before. -/
def publishStall (previousStallMask : Word) : HeartbeatProgram Word := do
  let requested := (← read .stallMask) &&& watchdogRequiredMask.setWidth 32
  write .effectiveStallMask requested
  if requested ≠ previousStallMask then
    writeStage (if requested ≠ 0 then .waitingForReset else .running)
  return requested

/-- What `main` does with the result of a service; its loop goes on with the mask that it published. -/
def countService (requested : Word) (rc : Int) : HeartbeatProgram (Option Word) := do
  if rc = 0 then
    write .successfulFeeds ((← read .successfulFeeds) + 1)
    kMsleep serviceMs
    return some requested
  else if rc = watchdogServiceWaiting then
    write .waitingServices ((← read .waitingServices) + 1)
    kMsleep serviceMs
    return some requested
  else haltWithoutFeeding rc

/-- One turn of the loop of `main`, with its `previous_stall_mask`. -/
def mainLoop (previousStallMask : Word) : HeartbeatProgram (Option Word) := do
  demonstrate
  let requested ← publishStall previousStallMask
  let rc ← watchdogService
  writeRc .service rc
  countService requested rc

/-- What the debugger may set. -/
def debug : HeartbeatProgram (Option Word) := do
  write .autoStallAfterFeeds (← Program.issue Op.choose)
  write .stallMask (← Program.issue Op.choose)
  return some 0

def body : Thread → Word → HeartbeatProgram (Option Word)
  | .main, previousStallMask => mainLoop previousStallMask
  | .worker id, workUnits => heartbeatWorker id workUnits
  | .debugger, _ => debug

/-! ### What they share -/

/-- An operation of a thread, with its answer. -/
structure Entry where
  thread : Thread
  op : Op
  answer : Ans op

structure Shared where
  ctx : WatchdogCtx
  owner : Option Thread
  created : Fin 2 → Bool
  vars : Var → Word
  rcs : Rc → Int
  stage : Lab25Stage
  log : List Entry

/-- What an operation may be answered: the kernel and the driver answer anything, but that the mutex
is locked only when it is free. -/
def Shared.Allows (s : Shared) : (o : Op) → Ans o → Prop
  | .kernel .mutexLock, rc => rc = 0 → s.owner = none
  | .entry id, _ => s.created id = true
  | .readDev, dev => dev = s.ctx.dev
  | .readChannelId, channelId => channelId = s.ctx.channelId
  | .readReportedMask, mask => mask = s.ctx.reportedMask
  | .readState, state => state = s.ctx.state
  | .read v, x => x = s.vars v
  | _, _ => True

def Shared.effect (s : Shared) (i : Thread) : (o : Op) → Ans o → Shared
  | .kernel .mutexLock, rc => if rc = 0 then { s with owner := some i } else s
  | .kernel .mutexUnlock, _ => { s with owner := none }
  | .threadCreate id, _ => { s with created := Function.update s.created id true }
  | .writeDev dev, _ => { s with ctx := { s.ctx with dev } }
  | .writeChannelId channelId, _ => { s with ctx := { s.ctx with channelId } }
  | .writeReportedMask reportedMask, _ => { s with ctx := { s.ctx with reportedMask } }
  | .writeState state, _ => { s with ctx := { s.ctx with state } }
  | .write v x, _ => { s with vars := Function.update s.vars v x }
  | .atomicOr v x, _ => { s with vars := Function.update s.vars v (s.vars v ||| x) }
  | .atomicInc v, _ => { s with vars := Function.update s.vars v (s.vars v + 1) }
  | .writeRc v rc, _ => { s with rcs := Function.update s.rcs v rc }
  | .writeStage stage, _ => { s with stage }
  | _, _ => s

def Answer (i : Thread) (s : Shared) (o : Op) (r : Ans o) (s' : Shared) : Prop :=
  s.Allows o r ∧ s' = { s.effect i o r with log := s.log ++ [⟨i, o, r⟩] }

abbrev System := Crew Op Ans Word Shared Thread

/-- Before `main`, with the two variables of the debugger as they were initialized. -/
def boot (autoStallAfterFeeds stallMask : Word) : System where
  state := {
    ctx := .zero
    owner := none
    created := fun _ => false
    vars := fun
      | .autoStallAfterFeeds => autoStallAfterFeeds
      | .stallMask => stallMask
      | _ => 0
    rcs := fun _ => -999
    stage := .reset
    log := [] }
  left := fun
    | .main => mainStart
    | .worker id => do
      Program.issue (Op.entry id)
      heartbeatWorker id 0
    | .debugger => debug

end CortexLabs.Watchdog.Heartbeat

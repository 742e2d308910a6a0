import CortexLabs.Device.Memory
import CortexLabs.Device.Program
import CortexLabs.Errno

/-! The watchdog supervisor.  Its operations are its calls of the kernel and of the watchdog driver,
which may return anything; a device is known by its address.  The calls that share a context are
serialized by its mutex, so that each is one program over the context. -/

namespace CortexLabs.Watchdog

open Device Errno

abbrev watchdogTaskCount : Word := 2
abbrev watchdogRequiredMask : Byte := 0x03
abbrev watchdogTimeoutMs : Word := 2000
abbrev watchdogServiceWaiting : Int := 1

abbrev wdtFlagResetSoc : Byte := 2

inductive WatchdogState where
  | uninitialized
  | running
  | faulted
  deriving DecidableEq

structure WatchdogCtx where
  dev : Option Nat
  channelId : Int
  reportedMask : Byte
  state : WatchdogState
  deriving DecidableEq

def WatchdogCtx.zero : WatchdogCtx := ⟨none, 0, 0, .uninitialized⟩

structure WdtTimeoutCfg where
  min : Word
  max : Word
  callback : Option Nat
  flags : Byte
  deriving DecidableEq

inductive Op where
  | isInIsr
  | deviceIsReady (dev : Nat)
  | mutexInit
  | mutexLock
  | mutexUnlock
  | installTimeout (dev : Nat) (cfg : WdtTimeoutCfg)
  | setup (dev : Nat) (options : Byte)
  | feed (dev : Nat) (channelId : Int)

abbrev Ans : Op → Type
  | .isInIsr | .deviceIsReady _ => Bool
  | .mutexInit | .mutexLock | .mutexUnlock | .installTimeout _ _ | .setup _ _ | .feed _ _ => Int

abbrev WatchdogProgram (α : Type) := Program Op Ans α

def kIsInIsr : WatchdogProgram Bool := Program.issue Op.isInIsr

def deviceIsReady (dev : Nat) : WatchdogProgram Bool := Program.issue (Op.deviceIsReady dev)

def kMutexInit : WatchdogProgram Int := Program.issue Op.mutexInit

def kMutexLock : WatchdogProgram Int := Program.issue Op.mutexLock

def kMutexUnlock : WatchdogProgram Int := Program.issue Op.mutexUnlock

def wdtInstallTimeout (dev : Nat) (cfg : WdtTimeoutCfg) : WatchdogProgram Int :=
  Program.issue (Op.installTimeout dev cfg)

def wdtSetup (dev : Nat) (options : Byte) : WatchdogProgram Int :=
  Program.issue (Op.setup dev options)

def wdtFeed (dev : Nat) (channelId : Int) : WatchdogProgram Int :=
  Program.issue (Op.feed dev channelId)

def watchdogInit (ctx : Option WatchdogCtx) (dev : Option Nat) :
    WatchdogProgram (Int × Option WatchdogCtx) :=
  match ctx, dev with
  | none, _ | some _, none => return (-einval, ctx)
  | some ctx, some dev => do
    if ← kIsInIsr then return (-ewouldblock, some ctx)
    if ctx.state ≠ .uninitialized then return (-ealready, some ctx)
    if !(← deviceIsReady dev) then return (-enodev, some ctx)
    let rc ← kMutexInit
    if rc ≠ 0 then return (rc, some ctx)
    let ctx := { dev := some dev, channelId := -1, reportedMask := 0, state := .faulted }
    let rc ← wdtInstallTimeout dev ⟨0, watchdogTimeoutMs, none, wdtFlagResetSoc⟩
    if rc < 0 then return (rc, some ctx)
    let ctx := { ctx with channelId := rc }
    let rc ← wdtSetup dev 0
    if rc ≠ 0 then return (rc, some ctx)
    return (0, some { ctx with state := .running })

/-- What `watchdog_report` does under the lock. -/
def reportLocked (ctx : WatchdogCtx) (taskId : Word) : Int × WatchdogCtx :=
  if ctx.state ≠ .running then (-eio, ctx)
  else
    let bit := ((1 : Word) <<< taskId).setWidth 8
    (0, { ctx with reportedMask := ctx.reportedMask ||| bit })

def watchdogReport (ctx : Option WatchdogCtx) (taskId : Word) :
    WatchdogProgram (Int × Option WatchdogCtx) :=
  match ctx with
  | none => return (-einval, none)
  | some ctx => do
    if ctx.dev.isNone ∨ taskId ≥ watchdogTaskCount then return (-einval, some ctx)
    if ← kIsInIsr then return (-ewouldblock, some ctx)
    let rc ← kMutexLock
    if rc ≠ 0 then return (rc, some ctx)
    let (rc, ctx) := reportLocked ctx taskId
    let _ ← kMutexUnlock
    return (rc, some ctx)

/-- What `watchdog_service` does under the lock. -/
def serviceLocked (ctx : WatchdogCtx) (dev : Nat) : WatchdogProgram (Int × WatchdogCtx) :=
  if ctx.state ≠ .running then return (-eio, ctx)
  else if ctx.reportedMask ≠ watchdogRequiredMask then return (watchdogServiceWaiting, ctx)
  else do
    let rc ← wdtFeed dev ctx.channelId
    if rc = 0 then return (rc, { ctx with reportedMask := 0 })
    return (rc, { ctx with state := .faulted })

def watchdogService (ctx : Option WatchdogCtx) : WatchdogProgram (Int × Option WatchdogCtx) :=
  match ctx with
  | none => return (-einval, none)
  | some ctx =>
    match ctx.dev with
    | none => return (-einval, some ctx)
    | some dev => do
      if ← kIsInIsr then return (-ewouldblock, some ctx)
      let rc ← kMutexLock
      if rc ≠ 0 then return (rc, some ctx)
      let (rc, ctx) ← serviceLocked ctx dev
      let _ ← kMutexUnlock
      return (rc, some ctx)

end CortexLabs.Watchdog

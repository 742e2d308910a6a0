import CortexLabs.Device.Memory
import CortexLabs.Device.Program
import CortexLabs.Errno
import Mathlib.Algebra.Order.Ring.Nat

/-! The flash boot event logger: records of 16 bytes, appended to a region of whole slots and never
erased.  A pointer argument is an `Option` of what it points to, `none` when it is NULL, and a
function returns what its pointer arguments point to afterwards.  Offsets are computed in `off_t`
and `size_t`, which a target may have in 32 or in 64 bits. -/

namespace CortexLabs.BootLog

open Device Errno

abbrev recordSize : Nat := 16

abbrev Record := Vector Byte recordSize

/-- The width of an integer type. -/
inductive Width where
  | bits32
  | bits64
  deriving DecidableEq

def Width.bits : Width → Nat
  | .bits32 => 32
  | .bits64 => 64

/-- The widths of `off_t` and `size_t`. -/
structure Abi where
  off : Width
  size : Width
  deriving DecidableEq

namespace Abi

variable (abi : Abi)

/-- Conversion to `off_t`, which is signed. -/
def toOff (i : Int) : Int := i.bmod (2 ^ abi.off.bits)

def toSize (n : Nat) : Nat := n % 2 ^ abi.size.bits

/-- `off_max` of `boot_log_init`. -/
def offMax : Nat := if abi.off.bits ≤ 32 then 2 ^ 31 - 1 else 2 ^ 63 - 1

end Abi

structure FlashParameters where
  eraseValue : Byte
  deriving DecidableEq

/-- What a flash device reports of itself; `params` is `none` when the pointer is NULL. -/
structure Dev where
  writeBlockSize : Nat
  params : Option FlashParameters
  deriving DecidableEq

structure Context where
  dev : Option Dev
  base : Int
  regionSize : Nat
  nextSlot : Nat
  eraseValue : Byte
  initialized : Bool
  deriving DecidableEq

def Context.zero : Context := ⟨none, 0, 0, 0, 0, false⟩

inductive Op where
  | ready
  | read (offset : Int) (len : Nat)
  | write (offset : Int) (len : Nat) (data : Vector Byte len)

/-- The answer to an operation: its result and, for a read, the contents of the buffer. -/
def Ans : Op → Type
  | .ready => Bool
  | .read _ len => Int × Vector Byte len
  | .write _ _ _ => Int

abbrev FlashProgram (α : Type) := Program Op Ans α

def deviceIsReady : FlashProgram Bool := Program.issue Op.ready

def flashRead (offset : Int) (len : Nat) : FlashProgram (Int × Vector Byte len) :=
  Program.issue (Op.read offset len)

def flashWrite {len : Nat} (offset : Int) (data : Vector Byte len) : FlashProgram Int :=
  Program.issue (Op.write offset len data)

def isErased (data : Record) (eraseValue : Byte) : Bool := data.all (· == eraseValue)

/-- `slot_offset`, where `size` and `off` convert a value to `size_t` and to `off_t`. -/
def slotOffsetBy {m : Type → Type} [Monad m] (size : Nat → m Nat) (off : Int → m Int)
    (log : Context) (index : Nat) : m Int := do
  let product ← size (index * recordSize)
  let start ← off product
  off (log.base + start)

/-- The conversions wrap around. -/
def slotOffset (abi : Abi) (log : Context) (index : Nat) : Int :=
  slotOffsetBy (m := Id) abi.toSize abi.toOff log index

/-! The functions, where `offsetOf` stands in the place of `slot_offset`. -/

section Functions

variable (offsetOf : Context → Nat → Int)

/-- The loop of `boot_log_init` over the slots. -/
def scanSlotsAt : List Nat → Context → Bool → FlashProgram (Int × Context)
  | [], log, _ => pure (0, { log with initialized := true })
  | index :: rest, log, foundEmpty => do
    let (rc, data) ← flashRead (offsetOf log index) recordSize
    if rc ≠ 0 then return (rc, log)
    if isErased data log.eraseValue then scanSlotsAt rest log true
    else if foundEmpty then return (-eilseq, log)
    else scanSlotsAt rest { log with nextSlot := index + 1 } foundEmpty

def bootLogInitAt (abi : Abi) (log : Option Context) (dev : Option Dev) (base : Int)
    (regionSize : Nat) : FlashProgram (Int × Option Context) :=
  match log, dev with
  | none, _ => pure (-einval, none)
  | some _, none => pure (-einval, some .zero)
  | some _, some dev => do
    if base < 0 ∨ regionSize < recordSize ∨ regionSize % recordSize ≠ 0 then
      return (-einval, some .zero)
    if base.toNat > abi.offMax ∨ regionSize > abi.offMax - base.toNat then
      return (-einval, some .zero)
    if !(← deviceIsReady) then return (-enodev, some .zero)
    let writeBlock := dev.writeBlockSize
    if writeBlock = 0 ∨ recordSize % writeBlock ≠ 0 ∨ base.toNat % writeBlock ≠ 0 then
      return (-enotsup, some .zero)
    match dev.params with
    | none => return (-enotsup, some .zero)
    | some params =>
      let log := { Context.zero with
        dev := some dev, base, regionSize, eraseValue := params.eraseValue }
      let (rc, log) ← scanSlotsAt offsetOf (List.range (regionSize / recordSize)) log false
      return (rc, some log)

/-- The part of `boot_log_append` from its first flash access on. -/
def appendSlotAt (log : Context) (record : Record) : FlashProgram (Int × Option Context) := do
  let offset := offsetOf log log.nextSlot
  let (rc, check) ← flashRead offset recordSize
  if rc ≠ 0 then return (rc, some log)
  if !isErased check log.eraseValue then
    return (-eexist, some { log with initialized := false })
  let log := { log with initialized := false }
  let rc ← flashWrite offset record
  if rc ≠ 0 then return (rc, some log)
  let (rc, check) ← flashRead offset recordSize
  if rc ≠ 0 then return (rc, some log)
  if check ≠ record then return (-eio, some log)
  return (0, some { log with nextSlot := log.nextSlot + 1, initialized := true })

def bootLogAppendAt (log : Option Context) (record : Option Record) :
    FlashProgram (Int × Option Context) :=
  match log, record with
  | some log, some record =>
    if !log.initialized ∨ log.dev = none then pure (-einval, some log)
    else do
      if !(← deviceIsReady) then return (-enodev, some log)
      if isErased record log.eraseValue then return (-einval, some log)
      if log.nextSlot ≥ log.regionSize / recordSize then return (-enospc, some log)
      appendSlotAt offsetOf log record
  | log, _ => pure (-einval, log)

def bootLogReadLastAt (log : Option Context) (out : Option Record) :
    FlashProgram (Int × Option Record) :=
  match log, out with
  | some log, some out =>
    if !log.initialized ∨ log.dev = none then pure (-einval, some out)
    else do
      if !(← deviceIsReady) then return (-enodev, some out)
      if log.nextSlot = 0 then return (-enoent, some out)
      let (rc, out) ← flashRead (offsetOf log (log.nextSlot - 1)) recordSize
      if rc ≠ 0 then return (rc, some out)
      return (if isErased out log.eraseValue then -eio else 0, some out)
  | _, out => pure (-einval, out)

end Functions

section Abi

variable (abi : Abi)

def scanSlots : List Nat → Context → Bool → FlashProgram (Int × Context) :=
  scanSlotsAt (slotOffset abi)

def bootLogInit : Option Context → Option Dev → Int → Nat → FlashProgram (Int × Option Context) :=
  bootLogInitAt (slotOffset abi) abi

def appendSlot : Context → Record → FlashProgram (Int × Option Context) :=
  appendSlotAt (slotOffset abi)

def bootLogAppend : Option Context → Option Record → FlashProgram (Int × Option Context) :=
  bootLogAppendAt (slotOffset abi)

def bootLogReadLast : Option Context → Option Record → FlashProgram (Int × Option Record) :=
  bootLogReadLastAt (slotOffset abi)

end Abi

end CortexLabs.BootLog

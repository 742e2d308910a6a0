import CortexLabs.Device.Memory
import CortexLabs.Device.Program
import CortexLabs.Errno

/-! The EEPROM fault logger: eight slots of 32 bytes, each a record of 16 bytes and a commit page
of 8 bytes at offset 24, written in turn.  A pointer argument is an `Option` of what it points to,
`none` when it is NULL, and a function returns what its pointer arguments point to afterwards. -/

namespace CortexLabs.FaultLog

open Device Errno

abbrev slotCount : Nat := 8
abbrev slotSize : Nat := 32
abbrev logBytes : Nat := slotCount * slotSize
abbrev bodySize : Nat := 16
abbrev commitOffset : Nat := 24
abbrev commitSize : Nat := 8

/-- `FAULT_LOG_NO_SLOT`, the largest `uint8_t`. -/
abbrev noSlot : Nat := 255

def magic : Vector Byte 4 := #v[0x46, 0x4c, 0x54, 0x31]

def committed : Vector Byte commitSize := #v[0xa5, 0x5a, 0xc3, 0x3c, 0x96, 0x69, 0xf0, 0x0f]

def invalid : Vector Byte commitSize := #v[0, 0, 0, 0, 0, 0, 0, 0]

def loadLe32 (p : Vector Byte 4) : Word :=
  p[0].setWidth 32 ||| p[1].setWidth 32 <<< 8 |||
    (p[2].setWidth 32 <<< 16 ||| p[3].setWidth 32 <<< 24)

def storeLe32 (v : Word) : Vector Byte 4 := Vector.ofFn fun i => (v >>> (8 * i.val)).setWidth 8

/-- One step of the inner loop of `crc32`. -/
def crcBit (crc : Word) : Word := (crc >>> 1) ^^^ (if crc &&& 1 ≠ 0 then 0xedb88320 else 0)

/-- One step of the outer loop of `crc32`. -/
def crcByte (crc : Word) (b : Byte) : Word := Nat.repeat crcBit 8 (crc ^^^ b.setWidth 32)

/-- CRC-32/ISO-HDLC. -/
def crc32 (p : List Byte) : Word := p.foldl crcByte 0xffffffff ^^^ 0xffffffff

def slotOffset (slot : Nat) : Nat := slot * slotSize

def recordValid (data : Vector Byte slotSize) : Bool :=
  slice data commitOffset commitSize (by decide) == committed &&
    slice data 0 4 (by decide) == magic &&
    loadLe32 (slice data 12 4 (by decide)) == crc32 (slice data 0 12 (by decide)).toList

def newer (a b : Word) : Bool :=
  let delta := a - b
  delta ≠ 0 && delta < 0x80000000

/-- What the logger asks of an EEPROM before it uses it. -/
structure Dev where
  ready : Bool
  size : Nat
  deriving DecidableEq

/-- The logger's context; `dev` is `none` when the pointer is NULL. -/
structure Context where
  dev : Option Dev
  sequence : Word
  newestSlot : Nat
  initialized : Bool
  deriving DecidableEq

/-- A context with every field zero but `newest_slot`. -/
def Context.cleared : Context := ⟨none, 0, noSlot, false⟩

inductive Op where
  | read (offset len : Nat)
  | write (offset len : Nat) (data : Vector Byte len)

/-- The answer to an operation: its result and, for a read, the contents of the buffer. -/
def Ans : Op → Type
  | .read _ len => Int × Vector Byte len
  | .write _ _ _ => Int

abbrev EepromProgram (α : Type) := Program Op Ans α

def eepromRead (offset len : Nat) : EepromProgram (Int × Vector Byte len) :=
  Program.issue (Op.read offset len)

def eepromWrite {len : Nat} (offset : Nat) (data : Vector Byte len) : EepromProgram Int :=
  Program.issue (Op.write offset len data)

def usable (log : Option Context) : Int :=
  match log with
  | none => -einval
  | some log =>
    match log.dev with
    | none => -einval
    | some dev =>
      if !log.initialized then -eio
      else if log.newestSlot ≠ noSlot ∧ log.newestSlot ≥ slotCount then -einval
      else if dev.ready then 0 else -enodev

/-- The locals of `fault_log_init` in its loop over the slots. -/
structure Scan where
  sequence : Word
  newestSlot : Nat
  sequences : Nat → Word
  validMask : BitVec 8

def Scan.start : Scan := ⟨0, noSlot, fun _ => 0, 0⟩

/-- The part of the loop after a successful read of the slot. -/
def Scan.visit (s : Scan) (slot : Nat) (bytes : Vector Byte slotSize) : Scan :=
  if !recordValid bytes then s
  else
    let seq := loadLe32 (slice bytes 4 4 (by decide))
    let s := { s with
      sequences := Function.update s.sequences slot seq
      validMask := s.validMask ||| 1#8 <<< slot }
    if s.newestSlot = noSlot ∨ newer seq s.sequence then
      { s with sequence := seq, newestSlot := slot }
    else s

/-- The loop over the slots, which stops at the first read error. -/
def scanSlots : List Nat → Scan → EepromProgram (Except Int Scan)
  | [], s => pure (.ok s)
  | slot :: rest, s => do
    let (rc, bytes) ← eepromRead (slotOffset slot) slotSize
    if rc ≠ 0 then pure (.error rc) else scanSlots rest (s.visit slot bytes)

/-- Whether the second loop of `fault_log_init` returns `-EILSEQ`. -/
def Scan.illegal (s : Scan) : Bool :=
  (List.range slotCount).any fun slot =>
    if s.validMask &&& 1#8 <<< slot ≠ 0 ∧ slot ≠ s.newestSlot then
      let age := s.sequence - s.sequences slot
      age = 0 || age ≥ 8
    else false

def faultLogInit (log : Option Context) (dev : Option Dev) :
    EepromProgram (Int × Option Context) :=
  match log with
  | none => pure (-einval, none)
  | some _ =>
    match dev with
    | none => pure (-einval, some .cleared)
    | some dev =>
      if !dev.ready then pure (-enodev, some .cleared)
      else if dev.size < logBytes then pure (-enospc, some .cleared)
      else do
        match ← scanSlots (List.range slotCount) .start with
        | .error rc => pure (rc, some .cleared)
        | .ok s =>
          if s.illegal then pure (-eilseq, some .cleared)
          else pure (0, some ⟨some dev, s.sequence, s.newestSlot, true⟩)

/-- The body that `fault_log_append` builds: the magic, both words and their checksum. -/
def bodyOf (sequence faultCode : Word) : Vector Byte bodySize :=
  let body := patch (Vector.replicate bodySize 0) 0 magic
  let body := patch body 4 (storeLe32 sequence)
  let body := patch body 8 (storeLe32 faultCode)
  patch body 12 (storeLe32 (crc32 (slice body 0 12 (by decide)).toList))

/-- Step 1 of `fault_log_append`: invalidate and verify the old token. -/
def invalidateToken (base : Nat) : EepromProgram Int := do
  let rc ← eepromWrite (base + commitOffset) invalid
  if rc ≠ 0 then return rc
  let (rc, check) ← eepromRead (base + commitOffset) commitSize
  if rc ≠ 0 then return rc
  return if check ≠ invalid then -eio else 0

/-- Step 2: program and verify the body. -/
def programBody (base : Nat) (body : Vector Byte bodySize) : EepromProgram Int := do
  let rc ← eepromWrite base body
  if rc ≠ 0 then return rc
  let (rc, check) ← eepromRead base bodySize
  if rc ≠ 0 then return rc
  return if check ≠ body then -eio else 0

/-- Step 3: publish, then verify the whole record. -/
def publishRecord (base : Nat) (body : Vector Byte bodySize) : EepromProgram Int := do
  let rc ← eepromWrite (base + commitOffset) committed
  if rc ≠ 0 then return rc
  let (rc, check) ← eepromRead base slotSize
  if rc ≠ 0 then return rc
  return if !recordValid check || slice check 0 bodySize (by decide) != body then -eio else 0

/-- The part of `fault_log_append` from its first write on. -/
def appendSteps (log : Context) (target : Nat) (sequence : Word) (body : Vector Byte bodySize) :
    EepromProgram (Int × Option Context) := do
  let base := slotOffset target
  -- Any error from here on leaves the context unusable, so that only a rescan can follow.
  let log := { log with initialized := false }
  let rc ← invalidateToken base
  if rc ≠ 0 then return (rc, some log)
  let rc ← programBody base body
  if rc ≠ 0 then return (rc, some log)
  let rc ← publishRecord base body
  if rc ≠ 0 then return (rc, some log)
  return (0, some { log with sequence, newestSlot := target, initialized := true })

def faultLogAppend (log : Option Context) (faultCode : Word) :
    EepromProgram (Int × Option Context) :=
  let rc := usable log
  match log with
  | none => pure (rc, none)
  | some log =>
    if rc ≠ 0 then pure (rc, some log)
    else
      let empty := log.newestSlot = noSlot
      let target := if empty then 0 else (log.newestSlot + 1) % slotCount
      let sequence := if empty then 1 else log.sequence + 1
      appendSteps log target sequence (bodyOf sequence faultCode)

def faultLogLatest (log : Option Context) (faultCode : Option Word) :
    EepromProgram (Int × Option Context × Option Word) :=
  match faultCode with
  | none => pure (-einval, log, none)
  | some out =>
    let rc := usable log
    match log with
    | none => pure (rc, none, some out)
    | some log => do
      if rc ≠ 0 then return (rc, some log, some out)
      if log.newestSlot = noSlot then return (-enoent, some log, some out)
      let (rc, bytes) ← eepromRead (slotOffset log.newestSlot) slotSize
      if rc ≠ 0 then return (rc, some log, some out)
      if !recordValid bytes || loadLe32 (slice bytes 4 4 (by decide)) != log.sequence then
        return (-eilseq, some { log with initialized := false }, some out)
      return (0, some log, some (loadLe32 (slice bytes 8 4 (by decide))))

end CortexLabs.FaultLog

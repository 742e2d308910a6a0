import CortexLabs.Device.Memory
import CortexLabs.Device.Wp
import Mathlib.Logic.Relation

/-! The driver of the SSP, whose operations are the accesses to its registers and to the buffers of
a transfer, and the SSP in loopback.  The masks and positions of the fields of the registers come
from a header of the board. -/

namespace CortexLabs.Ssp

open Device Relation

abbrev mps2SspOk : Int := 0
abbrev mps2SspErrorArgument : Int := -1
abbrev mps2SspErrorTxTimeout : Int := -3
abbrev mps2SspErrorRxTimeout : Int := -4

inductive SspMode where
  | mode0
  | mode1
  | mode2
  | mode3
  deriving DecidableEq

/-- The fields of the registers. -/
structure SspFields where
  cr0DssPos : Nat
  cr0FrfMot : Word
  cr0ScrPos : Nat
  cr0SphMsk : Word
  cr0SpoMsk : Word
  cr1SseMsk : Word
  cr1LbmMsk : Word
  cr1MsMsk : Word
  srTnfMsk : Word
  srRneMsk : Word
  tnf_ne : srTnfMsk ≠ 0
  rne_ne : srRneMsk ≠ 0

structure Mps2SspConfig where
  mode : SspMode
  dataBits : Byte
  loopback : Byte
  cpsdvsr : BitVec 16
  scr : Byte
  inputClockHz : Word
  deriving DecidableEq

/-- `actualClockHz` is `none` after a division by zero. -/
structure Mps2Ssp where
  timeoutCycles : Word
  actualClockHz : Option Word
  deriving DecidableEq

inductive Reg where
  | cr0
  | cr1
  | dr
  | sr
  | cpsr
  | imsc
  | dmacr
  deriving DecidableEq

inductive Op where
  | readReg (reg : Reg)
  | writeReg (reg : Reg) (value : Word)
  | load (address : Nat)
  | store (address : Nat) (value : Byte)

abbrev Ans : Op → Type
  | .readReg _ => Word
  | .load _ => Byte
  | .writeReg _ _ | .store _ _ => Unit

abbrev SspProgram (α : Type) := Program Op Ans α

def readReg (reg : Reg) : SspProgram Word := Program.issue (Op.readReg reg)

def writeReg (reg : Reg) (value : Word) : SspProgram Unit := Program.issue (Op.writeReg reg value)

def load (address : Nat) : SspProgram Byte := Program.issue (Op.load address)

def store (address : Nat) (value : Byte) : SspProgram Unit := Program.issue (Op.store address value)

section Driver

variable (fields : SspFields)

def buildCr0 (cfg : Mps2SspConfig) : Word :=
  let value := (cfg.dataBits.setWidth 32 - 1) <<< fields.cr0DssPos
  let value := value ||| fields.cr0FrfMot
  let value := value ||| cfg.scr.setWidth 32 <<< fields.cr0ScrPos
  match cfg.mode with
  | .mode0 => value
  | .mode1 => value ||| fields.cr0SphMsk
  | .mode2 => value ||| fields.cr0SpoMsk
  | .mode3 => value ||| (fields.cr0SpoMsk ||| fields.cr0SphMsk)

/-- The quotient that `mps2_ssp_init` stores. -/
def quotientHz (cfg : Mps2SspConfig) : Option Word :=
  let divisor := cfg.cpsdvsr.toNat * (cfg.scr.toNat + 1)
  if divisor = 0 then none else some (BitVec.ofNat 32 (cfg.inputClockHz.toNat / divisor))

/-- `mps2_ssp_init`, with what it leaves of the SSP that it is given. -/
def mps2SspInit (ssp : Option Mps2Ssp) (cfg : Option Mps2SspConfig) :
    SspProgram (Int × Option Mps2Ssp) :=
  match ssp, cfg with
  | none, _ | some _, none => return (mps2SspErrorArgument, ssp)
  | some ssp, some cfg => do
    if cfg.inputClockHz = 0 then return (mps2SspErrorArgument, some ssp)
    let cr1 ← readReg .cr1
    writeReg .cr1 (cr1 &&& ~~~fields.cr1SseMsk)
    writeReg .imsc 0
    writeReg .dmacr 0
    writeReg .cpsr (cfg.cpsdvsr.setWidth 32)
    writeReg .cr0 (buildCr0 fields cfg)
    let cr1 := if cfg.loopback ≠ 0 then fields.cr1LbmMsk else 0
    let cr1 := cr1 &&& ~~~fields.cr1MsMsk
    let cr1 := cr1 ||| fields.cr1SseMsk
    writeReg .cr1 cr1
    return (mps2SspOk, some { ssp with actualClockHz := quotientHz cfg })

/-- The loop of `wait_flag`, with what is left of its timeout. -/
def waitFlag (flag : Word) : Nat → SspProgram Int
  | 0 => do
    if (← readReg .sr) &&& flag = 0 then return -1
    return 0
  | timeout + 1 => do
    if (← readReg .sr) &&& flag = 0 then waitFlag flag timeout
    else return 0

/-- A turn of the loop of `mps2_ssp_transfer`. -/
def transferByte (ssp : Mps2Ssp) (tx rx : Nat) (_ : Unit) (i : Nat) : SspProgram (Int × Unit) := do
  if (← waitFlag fields.srTnfMsk ssp.timeoutCycles.toNat) ≠ 0 then
    return (mps2SspErrorTxTimeout, ())
  let byte ← load (tx + i)
  writeReg .dr (byte.setWidth 32)
  if (← waitFlag fields.srRneMsk ssp.timeoutCycles.toNat) ≠ 0 then
    return (mps2SspErrorRxTimeout, ())
  let value ← readReg .dr
  store (rx + i) ((value &&& 0xff).setWidth 8)
  return (mps2SspOk, ())

def mps2SspTransfer (ssp : Mps2Ssp) (tx rx length : Nat) : SspProgram Int := do
  let (result, _) ← forEachM (transferByte fields ssp tx rx) () (List.range length)
  return result

end Driver

/-! ### The SSP in loopback -/

/-- The bytes written that have not come back yet, those in the receive FIFO, and the memory of the
driver. -/
structure Loopback where
  inFlight : List Byte
  rxFifo : List Byte
  memory : Memory

/-- A byte comes back. -/
inductive Arrives : Loopback → Loopback → Prop
  | mk {b : Byte} {inFlight rxFifo : List Byte} {memory : Memory} :
      Arrives ⟨b :: inFlight, rxFifo, memory⟩ ⟨inFlight, rxFifo ++ [b], memory⟩

variable (fields : SspFields)

/-- What an access finds and leaves.  `RNE` says whether the receive FIFO holds a byte, and a read
of `DR` takes one from it. -/
def LoopbackAnswer (s : Loopback) : (o : Op) → Ans o → Loopback → Prop
  | .readReg .sr, value, s' => (value &&& fields.srRneMsk ≠ 0 ↔ s.rxFifo ≠ []) ∧ s' = s
  | .readReg .dr, value, s' =>
    match s.rxFifo with
    | [] => s' = s
    | b :: rest => value.setWidth 8 = b ∧ s' = { s with rxFifo := rest }
  | .readReg _, _, s' => s' = s
  | .writeReg .dr value, _, s' => s' = { s with inFlight := s.inFlight ++ [value.setWidth 8] }
  | .writeReg _ _, _, s' => s' = s
  | .load address, value, s' => value = s.memory address ∧ s' = s
  | .store address value, _, s' =>
    s' = { s with memory := Function.update s.memory address value }

/-- Any number of bytes may come back before an access. -/
abbrev loopbackSsp : Behavior Op Ans where
  State := Loopback
  answer s o r s' := ∃ s1, ReflTransGen Arrives s s1 ∧ LoopbackAnswer fields s1 o r s'
  torn _ _ _ := False

end CortexLabs.Ssp

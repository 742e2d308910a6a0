import CortexLabs.Device.Memory
import CortexLabs.Device.Wp

/-! The I2C master, which drives its two lines from software.  Its operations are the accesses to
the line registers and to the memory that the buffers of a message lie in.  A pointer is an address,
`none` when it is NULL. -/

namespace CortexLabs.I2c

open Device

abbrev mps2I2cOk : Int := 0
abbrev mps2I2cErrArgument : Int := -1
abbrev mps2I2cErrAddress : Int := -2
abbrev mps2I2cErrNack : Int := -3
abbrev mps2I2cErrTimeout : Int := -4
abbrev mps2I2cErrBusBusy : Int := -5

abbrev mps2I2cMsgRead : Byte := 0x01
abbrev mps2I2cMsgStop : Byte := 0x02
abbrev mps2I2cMsgRestart : Byte := 0x04

/-- The masks of the two lines, which a header of the board defines. -/
structure Pins where
  sda : Word
  scl : Word
  sda_ne : sda ≠ 0
  scl_ne : scl ≠ 0
  disjoint : sda &&& scl = 0

/-- The masks of a board with SCL in bit 0 and SDA in bit 1. -/
def lowPins : Pins := ⟨2, 1, by decide, by decide, by decide⟩

structure Mps2I2cBus where
  regs : Option Word
  delayCycles : Word
  timeoutCycles : Word
  deriving DecidableEq

structure Mps2I2cMsg where
  buf : Option Nat
  len : Nat
  flags : Byte
  deriving DecidableEq

/-- A read of `CONTROL`, writes of `CONTROLS` and `CONTROLC`, and accesses to a buffer. -/
inductive Op where
  | control
  | controls (mask : Word)
  | controlc (mask : Word)
  | load (address : Nat)
  | store (address : Nat) (value : Byte)

abbrev Ans : Op → Type
  | .control => Word
  | .load _ => Byte
  | .controls _ | .controlc _ | .store _ _ => Unit

abbrev I2cProgram (α : Type) := Program Op Ans α

def busValid (bus : Option Mps2I2cBus) : Option Mps2I2cBus :=
  bus.filter fun bus => bus.regs.isSome ∧ bus.delayCycles ≠ 0 ∧ bus.timeoutCycles ≠ 0

theorem busValid_same {bus valid : Mps2I2cBus} (h : busValid (some bus) = some valid) :
    valid = bus :=
  (Option.some.inj (Option.filter_eq_some_iff.mp h).1).symm

/-- The waits of a valid bus look at SCL at least once. -/
theorem timeout_pos {bus : Mps2I2cBus} (h : busValid (some bus) = some bus) :
    0 < bus.timeoutCycles.toNat := by
  obtain ⟨-, -, htimeout⟩ := of_decide_eq_true (Option.filter_eq_some_iff.mp h).2
  rw [Nat.pos_iff_ne_zero]
  exact fun hzero => htimeout (BitVec.eq_of_toNat_eq hzero)

section Lines

variable (pins : Pins)

def readControl : I2cProgram Word := Program.issue Op.control

def writeControls (mask : Word) : I2cProgram Unit := Program.issue (Op.controls mask)

def writeControlc (mask : Word) : I2cProgram Unit := Program.issue (Op.controlc mask)

def load (address : Nat) : I2cProgram Byte := Program.issue (Op.load address)

def store (address : Nat) (value : Byte) : I2cProgram Unit := Program.issue (Op.store address value)

def sdaIsHigh : I2cProgram Bool := do
  let control ← readControl
  return control &&& pins.sda ≠ 0

def sclIsHigh : I2cProgram Bool := do
  let control ← readControl
  return control &&& pins.scl ≠ 0

def sdaRelease : I2cProgram Unit := writeControls pins.sda

def sclRelease : I2cProgram Unit := writeControls pins.scl

/-- The loop of `wait_scl_high`. -/
def pollScl : Nat → I2cProgram Int
  | 0 => return mps2I2cErrTimeout
  | n + 1 => do
    if ← sclIsHigh pins then return mps2I2cOk
    pollScl n

def waitSclHigh (bus : Mps2I2cBus) : I2cProgram Int := do
  sclRelease pins
  pollScl pins bus.timeoutCycles.toNat

def sdaDriveLow : I2cProgram Unit := writeControlc pins.sda

def sclDriveLow : I2cProgram Unit := writeControlc pins.scl

def busRelease : I2cProgram Unit := do
  sdaRelease pins
  sclRelease pins

def busIsIdle : I2cProgram Bool := do
  let control ← readControl
  return control &&& (pins.sda ||| pins.scl) = pins.sda ||| pins.scl

end Lines

/-! ### Conditions, bits and bytes -/

section Bytes

variable (pins : Pins) (bus : Mps2I2cBus)

def generateStart : I2cProgram Int := do
  sdaRelease pins
  let result ← waitSclHigh pins bus
  if result ≠ mps2I2cOk then return result
  if !(← sdaIsHigh pins) then return mps2I2cErrBusBusy
  sdaDriveLow pins
  sclDriveLow pins
  return mps2I2cOk

def generateRestart : I2cProgram Int := generateStart pins bus

def generateStop : I2cProgram Int := do
  sclDriveLow pins
  sdaDriveLow pins
  let result ← waitSclHigh pins bus
  sdaRelease pins
  if result ≠ mps2I2cOk then return result
  return if ← busIsIdle pins then mps2I2cOk else mps2I2cErrBusBusy

def writeBit (bitValue : Byte) : I2cProgram Int := do
  (if bitValue ≠ 0 then sdaRelease pins else sdaDriveLow pins)
  let result ← waitSclHigh pins bus
  if result ≠ mps2I2cOk then return result
  sclDriveLow pins
  return mps2I2cOk

/-- `read_bit` and the bit that it reads, which is not used when it fails. -/
def readBit : I2cProgram (Int × Byte) := do
  sdaRelease pins
  let result ← waitSclHigh pins bus
  if result ≠ mps2I2cOk then return (result, 0)
  let bitValue := if ← sdaIsHigh pins then 1 else 0
  sclDriveLow pins
  return (mps2I2cOk, bitValue)

def receiveAck : I2cProgram Int := do
  let (result, nack) ← readBit pins bus
  if result ≠ mps2I2cOk then return result
  return if nack = 0 then mps2I2cOk else mps2I2cErrNack

/-- A turn of the loop of `write_byte`. -/
def writeNextBit (value : Byte) (_ : Nat) : I2cProgram (Int × Byte) := do
  let result ← writeBit pins bus (if value &&& 0x80 ≠ 0 then 1 else 0)
  if result ≠ mps2I2cOk then return (result, value)
  return (mps2I2cOk, value <<< 1)

def writeByte (value : Byte) : I2cProgram Int := do
  let (result, _) ← forEachM (writeNextBit pins bus) value (List.range 8)
  if result ≠ mps2I2cOk then return result
  receiveAck pins bus

/-- A turn of the loop of `read_byte`. -/
def readNextBit (received : Byte) (_ : Nat) : I2cProgram (Int × Byte) := do
  let (result, inputBit) ← readBit pins bus
  if result ≠ mps2I2cOk then return (result, received)
  return (mps2I2cOk, received <<< 1 ||| inputBit)

def readByte (value : Option Nat) (sendAck : Bool) : I2cProgram Int :=
  match value with
  | none => return mps2I2cErrArgument
  | some value => do
    let (result, received) ← forEachM (readNextBit pins bus) 0 (List.range 8)
    if result ≠ mps2I2cOk then return result
    let result ← writeBit pins bus (if sendAck then 0 else 1)
    if result ≠ mps2I2cOk then return result
    store value received
    return result

def sendAddress (targetAddr : Byte) (isRead : Bool) : I2cProgram Int :=
  writeByte pins bus (targetAddr <<< 1 ||| if isRead then 1 else 0)

end Bytes

/-! ### Calls -/

section Transfer

variable (pins : Pins) (bus : Mps2I2cBus)

/-- The loop of `mps2_i2c_recover_bus`. -/
def recoverPulses : Nat → I2cProgram Int
  | 0 => return mps2I2cOk
  | n + 1 => do
    sclDriveLow pins
    let result ← waitSclHigh pins bus
    if result ≠ mps2I2cOk then return result
    if ← sdaIsHigh pins then return mps2I2cOk
    recoverPulses n

def mps2I2cRecoverBus (bus : Option Mps2I2cBus) : I2cProgram Int :=
  match busValid bus with
  | none => return mps2I2cErrArgument
  | some bus => do
    sdaRelease pins
    let result ← waitSclHigh pins bus
    if result ≠ mps2I2cOk then return result
    if ← sdaIsHigh pins then return mps2I2cOk
    let result ← recoverPulses pins bus 9
    if result ≠ mps2I2cOk then return result
    generateStop pins bus

def mps2I2cInit (bus : Option Mps2I2cBus) : I2cProgram Int :=
  match busValid bus with
  | none => return mps2I2cErrArgument
  | some valid => do
    busRelease pins
    if ← busIsIdle pins then return mps2I2cOk
    mps2I2cRecoverBus pins (some valid)

def isRead (message : Mps2I2cMsg) : Bool := message.flags &&& mps2I2cMsgRead ≠ 0

def hasStop (message : Mps2I2cMsg) : Bool := message.flags &&& mps2I2cMsgStop ≠ 0

def hasRestart (message : Mps2I2cMsg) : Bool := message.flags &&& mps2I2cMsgRestart ≠ 0

/-- The loop of `mps2_i2c_transfer` that checks the messages, after `previous`. -/
def checkMessages : Option Mps2I2cMsg → List Mps2I2cMsg → Int
  | _, [] => mps2I2cOk
  | previous, message :: messages =>
    let allowed := mps2I2cMsgRead ||| mps2I2cMsgStop ||| mps2I2cMsgRestart
    if message.buf.isNone ∨ message.len = 0 ∨ message.flags &&& ~~~allowed ≠ 0 then
      mps2I2cErrArgument
    else if previous.any (fun previous => !hasStop previous) ∧ !hasRestart message then
      mps2I2cErrArgument
    else checkMessages (some message) messages

/-- The checks of `mps2_i2c_transfer`, and what it goes on with when they pass. -/
def checkTransfer (bus : Option Mps2I2cBus) (messages : Option (List Mps2I2cMsg))
    (targetAddr : Byte) : Except Int (Mps2I2cBus × List Mps2I2cMsg) :=
  match busValid bus, messages with
  | none, _ | some _, none | some _, some [] => .error mps2I2cErrArgument
  | some bus, some messages =>
    if targetAddr = 0x7f then .error mps2I2cErrAddress
    else if checkMessages none messages ≠ mps2I2cOk then .error (checkMessages none messages)
    else .ok (bus, messages)

/-- What a transfer that passes its checks goes on with. -/
theorem checkTransfer_ok {bus : Option Mps2I2cBus} {messages : Option (List Mps2I2cMsg)}
    {targetAddr : Byte} {valid : Mps2I2cBus} {list : List Mps2I2cMsg} :
    checkTransfer bus messages targetAddr = .ok (valid, list) ↔
      busValid bus = some valid ∧ messages = some list ∧ list ≠ [] ∧ targetAddr ≠ 0x7f ∧
      checkMessages none list = mps2I2cOk := by
  unfold checkTransfer
  split
  · next hbus => simp [hbus]
  · simp
  · refine ⟨nofun, ?_⟩
    rintro ⟨-, hlist, hempty, -, -⟩
    exact absurd (Option.some.inj hlist).symm hempty
  · next found messages hempty hbus =>
    split
    · next haddr => simp [haddr]
    · next haddr =>
      split
      · next hbad =>
        refine ⟨nofun, ?_⟩
        rintro ⟨-, hlist, -, -, hgood⟩
        rw [Option.some.inj hlist] at hbad
        exact absurd hgood hbad
      · next hgood =>
        rw [not_not] at hgood
        constructor
        · rintro h
          cases h
          exact ⟨hbus, rfl, fun h => hempty (by rw [h]), haddr, hgood⟩
        · rintro ⟨hvalid, hlist, -, -, -⟩
          rw [hbus] at hvalid
          cases hvalid
          cases hlist
          rfl

/-- A turn of the loop of `mps2_i2c_transfer` over the bytes of a message. -/
def transferByte (message : Mps2I2cMsg) (_ : Unit) (byte : Nat) : I2cProgram (Int × Unit) := do
  let result ← (
    if isRead message then
      readByte pins bus (message.buf.map (· + byte)) (byte + 1 < message.len)
    else do
      let value ← load (message.buf.getD 0 + byte)
      writeByte pins bus value)
  return (result, ())

/-- The end of `mps2_i2c_transfer` after an error. -/
def stopOnError (result : Int) : I2cProgram (Int × Bool) := do
  let _ ← generateStop pins bus
  return (result, true)

/-- A turn of the loop of `mps2_i2c_transfer` over the messages. -/
def transferMessage (targetAddr : Byte) (active : Bool) (message : Mps2I2cMsg) :
    I2cProgram (Int × Bool) := do
  let result ← (if active then generateRestart pins bus else generateStart pins bus)
  if result ≠ mps2I2cOk then
    if active then stopOnError pins bus result else return (result, active)
  else
    let result ← sendAddress pins bus targetAddr (isRead message)
    if result ≠ mps2I2cOk then stopOnError pins bus result
    else
      let (result, _) ← forEachM (transferByte pins bus message) () (List.range message.len)
      if result ≠ mps2I2cOk then stopOnError pins bus result
      else if hasStop message then
        let result ← generateStop pins bus
        return (result, true)
      else return (mps2I2cOk, true)

def mps2I2cTransfer (bus : Option Mps2I2cBus) (messages : Option (List Mps2I2cMsg))
    (targetAddr : Byte) : I2cProgram Int :=
  match checkTransfer bus messages targetAddr with
  | .error status => return status
  | .ok (bus, messages) => do
    let (result, _) ← forEachM (transferMessage pins bus targetAddr) false messages
    return result

def mps2I2cProbe (bus : Option Mps2I2cBus) (targetAddr : Byte) : I2cProgram Int :=
  match busValid bus with
  | none => return mps2I2cErrArgument
  | some bus =>
    if targetAddr > 0x7f then return mps2I2cErrAddress
    else do
      let result ← generateStart pins bus
      if result ≠ mps2I2cOk then return result
      let result ← sendAddress pins bus targetAddr false
      let stopResult ← generateStop pins bus
      if result ≠ mps2I2cOk then return result
      return stopResult

end Transfer

end CortexLabs.I2c

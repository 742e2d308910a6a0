import CortexLabs.I2c.Master

/-! The first master of the I2C bus, which drives the lines without looking at SCL, and checks each
message when its turn comes.  Its `CONTROL` sets lines when it is written, like `CONTROLS`, and
shows their levels when it is read.  The delays between its accesses are left out. -/

namespace CortexLabs.I2c

open Device

abbrev i2cOk : Int := 0
abbrev i2cErrArgument : Int := -1
abbrev i2cErrAddress : Int := -2
abbrev i2cErrNack : Int := -3
abbrev i2cErrUnsupported : Int := -4

abbrev i2cMsgRead : Byte := 0x01
abbrev i2cMsgStop : Byte := 0x02
abbrev i2cMsgRestart : Byte := 0x04

structure I2cMsg where
  buf : Option Nat
  len : Nat
  flags : Byte
  deriving DecidableEq

namespace I2cMsg

variable (msg : I2cMsg)

def isRead : Bool := msg.flags &&& i2cMsgRead ≠ 0

def hasStop : Bool := msg.flags &&& i2cMsgStop ≠ 0

def hasRestart : Bool := msg.flags &&& i2cMsgRestart ≠ 0

end I2cMsg

section Bitbang

variable (pins : Pins)

def i2cSclHigh : I2cProgram Unit := writeControls pins.scl

def i2cSclLow : I2cProgram Unit := writeControlc pins.scl

def i2cSdaHigh : I2cProgram Unit := writeControls pins.sda

def i2cSdaLow : I2cProgram Unit := writeControlc pins.sda

def i2cSdaRead : I2cProgram Bool := do
  let control ← readControl
  return control &&& pins.sda ≠ 0

def i2cBusIdle : I2cProgram Unit := do
  i2cSdaHigh pins
  i2cSclHigh pins

def i2cStart : I2cProgram Unit := do
  i2cSdaHigh pins
  i2cSclHigh pins
  i2cSdaLow pins
  i2cSclLow pins

def i2cRestart : I2cProgram Unit := do
  i2cSdaHigh pins
  i2cSclHigh pins
  i2cSdaLow pins
  i2cSclLow pins

def i2cStop : I2cProgram Unit := do
  i2cSdaLow pins
  i2cSclHigh pins
  i2cSdaHigh pins

/-- A turn of the loop of `i2c_send_byte`. -/
def i2cSendBit (value : Byte) (_ : Nat) : I2cProgram Byte := do
  (if value &&& 0x80 ≠ 0 then i2cSdaHigh pins else i2cSdaLow pins)
  i2cSclHigh pins
  i2cSclLow pins
  return value <<< 1

def i2cSendByte (value : Byte) : I2cProgram Unit := do
  let _ ← (List.range 8).foldlM (i2cSendBit pins) value
  return ()

def i2cReceiveAck : I2cProgram Int := do
  i2cSdaHigh pins
  i2cSclHigh pins
  let nack ← i2cSdaRead pins
  i2cSclLow pins
  return if nack then i2cErrNack else i2cOk

def i2cSendAddress (targetAddr : Byte) (isRead : Bool) : I2cProgram Int :=
  if targetAddr > 0x7f then return i2cErrAddress
  else do
    i2cSendByte pins (targetAddr <<< 1 ||| if isRead then 1 else 0)
    i2cReceiveAck pins

/-- A turn of the loop of `i2c_write_message`. -/
def i2cWriteNext (buf : Nat) (_ : Unit) (index : Nat) : I2cProgram (Int × Unit) := do
  let value ← load (buf + index)
  i2cSendByte pins value
  let ret ← i2cReceiveAck pins
  return (ret, ())

def i2cWriteMessage (msg : I2cMsg) : I2cProgram Int :=
  match msg.buf with
  | none => return i2cErrArgument
  | some buf =>
    if msg.len = 0 then return i2cErrArgument
    else do
      let (ret, _) ← forEachM (i2cWriteNext pins buf) () (List.range msg.len)
      return ret

/-- The end of `i2c_transfer_bitbang` after an error. -/
def i2cAbort (index : Nat) (ret : Int) : I2cProgram (Int × Nat) := do
  i2cStop pins
  return (ret, index)

/-- A message after its START. -/
def i2cTransferOpened (targetAddr : Byte) (index : Nat) (msg : I2cMsg) :
    I2cProgram (Int × Nat) := do
  let ret ← i2cSendAddress pins targetAddr msg.isRead
  if ret ≠ i2cOk then i2cAbort pins index ret
  else if msg.isRead then i2cAbort pins index i2cErrUnsupported
  else
    let ret ← i2cWriteMessage pins msg
    if ret ≠ i2cOk then i2cAbort pins index ret
    else if msg.hasStop then
      i2cStop pins
      return (i2cOk, index + 1)
    else return (i2cOk, index + 1)

/-- A turn of the loop of `i2c_transfer_bitbang`. -/
def i2cTransferMessage (targetAddr : Byte) (index : Nat) (msg : I2cMsg) :
    I2cProgram (Int × Nat) :=
  if msg.buf = none ∨ msg.len = 0 then i2cAbort pins index i2cErrArgument
  else if index = 0 then do
    i2cStart pins
    i2cTransferOpened pins targetAddr index msg
  else if msg.hasRestart then do
    i2cRestart pins
    i2cTransferOpened pins targetAddr index msg
  else i2cAbort pins index i2cErrArgument

def i2cTransferBitbang (targetAddr : Byte) (msgs : Option (List I2cMsg)) : I2cProgram Int :=
  match msgs with
  | none | some [] => return i2cErrArgument
  | some msgs =>
    if targetAddr > 0x7f then return i2cErrAddress
    else do
      i2cBusIdle pins
      let (ret, _) ← forEachM (i2cTransferMessage pins targetAddr) 0 msgs
      return ret

end Bitbang

end CortexLabs.I2c

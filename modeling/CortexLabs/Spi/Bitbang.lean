import CortexLabs.Device.Memory
import CortexLabs.Device.Wp

/-! The SPI master, which drives its lines from software through the functions that a bus points
to.  Its operations are calls of these functions and accesses to the buffers of a transfer.  A
pointer to a buffer is an address, `none` when it is NULL. -/

namespace CortexLabs.Spi

open Device

inductive SpiMode where
  | mode0
  | mode1
  | mode2
  | mode3
  deriving DecidableEq

inductive SpiBitOrder where
  | msbFirst
  | lsbFirst
  deriving DecidableEq

abbrev spiOk : Int := 0
abbrev spiErrorInvalidArgument : Int := -1

/-- Which of the functions are there. -/
structure SpiBitbangOps where
  setSclk : Bool
  setMosi : Bool
  setCs : Bool
  getMiso : Bool
  delayHalfCycle : Bool
  deriving DecidableEq

structure SpiBitbangBus where
  ops : Option SpiBitbangOps
  mode : SpiMode
  bitOrder : SpiBitOrder
  csActiveLow : Byte
  deriving DecidableEq

inductive Op where
  | setSclk (level : Byte)
  | setMosi (level : Byte)
  | setCs (level : Byte)
  | getMiso
  | delayHalfCycle
  | load (address : Nat)
  | store (address : Nat) (value : Byte)

abbrev Ans : Op → Type
  | .getMiso | .load _ => Byte
  | .setSclk _ | .setMosi _ | .setCs _ | .delayHalfCycle | .store _ _ => Unit

abbrev SpiProgram (α : Type) := Program Op Ans α

def setSclk (level : Byte) : SpiProgram Unit := Program.issue (Op.setSclk level)

def setMosi (level : Byte) : SpiProgram Unit := Program.issue (Op.setMosi level)

def setCs (level : Byte) : SpiProgram Unit := Program.issue (Op.setCs level)

def getMiso : SpiProgram Byte := Program.issue Op.getMiso

def delayHalfCycle : SpiProgram Unit := Program.issue Op.delayHalfCycle

def load (address : Nat) : SpiProgram Byte := Program.issue (Op.load address)

def store (address : Nat) (value : Byte) : SpiProgram Unit := Program.issue (Op.store address value)

def spiGetCpol (mode : SpiMode) : Byte := if mode = .mode2 ∨ mode = .mode3 then 1 else 0

def spiGetCpha (mode : SpiMode) : Byte := if mode = .mode1 ∨ mode = .mode3 then 1 else 0

def spiGetTxBit (value : Byte) (bitIndex : Nat) (order : SpiBitOrder) : Byte :=
  if order = .msbFirst then value >>> (7 - bitIndex) &&& 1 else value >>> bitIndex &&& 1

def spiStoreRxBit (value : Byte) (bitIndex : Nat) (bit : Byte) (order : SpiBitOrder) : Byte :=
  let shift := if order = .msbFirst then 7 - bitIndex else bitIndex
  if bit ≠ 0 then value ||| (1 : Byte) <<< shift else value

section Levels

variable (bus : SpiBitbangBus)

def idleLevel : Byte := spiGetCpol bus.mode

def activeLevel : Byte := spiGetCpol bus.mode ^^^ 1

def csActive : Byte := if bus.csActiveLow ≠ 0 then 0 else 1

def csInactive : Byte := if bus.csActiveLow ≠ 0 then 1 else 0

end Levels

section Calls

variable (bus : SpiBitbangBus)

def spiBitbangSelect : SpiProgram Unit := setCs (csActive bus)

def spiBitbangDeselect : SpiProgram Unit := do
  setSclk (idleLevel bus)
  setCs (csInactive bus)

/-- The bus that `spi_bitbang_init` accepts. -/
def initBus (bus : Option SpiBitbangBus) : Option SpiBitbangBus :=
  bus.filter fun bus => bus.ops.any fun ops =>
    ops.setSclk && ops.setMosi && ops.setCs && ops.getMiso && ops.delayHalfCycle

def spiBitbangInit (bus : Option SpiBitbangBus) : SpiProgram Int :=
  match initBus bus with
  | none => return spiErrorInvalidArgument
  | some bus => do
    setSclk (idleLevel bus)
    setMosi 0
    spiBitbangSelect bus
    return spiOk

/-- A turn of the loop of `spi_bitbang_transfer_byte`. -/
def transferBit (txByte rxByte : Byte) (bitIndex : Nat) : SpiProgram Byte := do
  let txBit := spiGetTxBit txByte bitIndex bus.bitOrder
  if spiGetCpha bus.mode = 0 then
    setMosi txBit
    delayHalfCycle
    setSclk (activeLevel bus)
    let rxBit ← getMiso
    let rxByte := spiStoreRxBit rxByte bitIndex rxBit bus.bitOrder
    delayHalfCycle
    setSclk (idleLevel bus)
    return rxByte
  else
    setSclk (activeLevel bus)
    setMosi txBit
    delayHalfCycle
    setSclk (idleLevel bus)
    let rxBit ← getMiso
    let rxByte := spiStoreRxBit rxByte bitIndex rxBit bus.bitOrder
    delayHalfCycle
    return rxByte

def spiBitbangTransferByte (txByte : Byte) : SpiProgram Byte :=
  (List.range 8).foldlM (transferBit bus txByte) 0

/-- The byte to send in turn `index`. -/
def fetchByte (txBuffer : Option Nat) (index : Nat) : SpiProgram Byte :=
  match txBuffer with
  | some txBuffer => load (txBuffer + index)
  | none => return 0xff

def keepByte (rxBuffer : Option Nat) (index : Nat) (rxByte : Byte) : SpiProgram Unit :=
  match rxBuffer with
  | some rxBuffer => store (rxBuffer + index) rxByte
  | none => return ()

/-- A turn of the loop of `spi_bitbang_transfer`. -/
def transferIndex (txBuffer rxBuffer : Option Nat) (_ : Unit) (index : Nat) : SpiProgram Unit := do
  let txByte ← fetchByte txBuffer index
  let rxByte ← spiBitbangTransferByte bus txByte
  keepByte rxBuffer index rxByte

/-- `spi_bitbang_transfer`, which relies on the functions of the bus being there. -/
def spiBitbangTransfer (bus : Option SpiBitbangBus) (txBuffer rxBuffer : Option Nat)
    (length : Nat) : SpiProgram Int :=
  match bus with
  | none => return spiErrorInvalidArgument
  | some bus => do
    if txBuffer.isNone ∧ rxBuffer.isNone then return spiErrorInvalidArgument
    spiBitbangSelect bus
    (List.range length).foldlM (transferIndex bus txBuffer rxBuffer) ()
    spiBitbangDeselect bus
    return spiOk

end Calls

/-! ### The wires -/

/-- What is seen on the wires: SCLK moves to a level while MOSI is at another, CS is driven to a
level while SCLK is at another, and MISO is sampled. -/
inductive WireEvent where
  | edge (level mosi : Byte)
  | select (level sclk : Byte)
  | sample (miso : Byte)
  deriving DecidableEq

/-- The levels of the lines, what has been seen on them, and the memory of the master. -/
structure Wire where
  sclk : Byte
  mosi : Byte
  cs : Byte
  trace : List WireEvent
  memory : Memory

namespace Wire

variable (w : Wire)

def setSclk (level : Byte) : Wire :=
  if level = w.sclk then w else
    { w with sclk := level, trace := w.trace ++ [.edge level w.mosi] }

def setCs (level : Byte) : Wire :=
  { w with cs := level, trace := w.trace ++ [.select level w.sclk] }

def sampled (miso : Byte) : Wire := { w with trace := w.trace ++ [.sample miso] }

end Wire

/-- The wires, where MISO is whatever it is when it is sampled. -/
def WireAnswer (w : Wire) : (o : Op) → Ans o → Wire → Prop
  | .setSclk level, _, w' => w' = w.setSclk level
  | .setMosi level, _, w' => w' = { w with mosi := level }
  | .setCs level, _, w' => w' = w.setCs level
  | .getMiso, miso, w' => w' = w.sampled miso
  | .delayHalfCycle, _, w' => w' = w
  | .load address, value, w' => value = w.memory address ∧ w' = w
  | .store address value, _, w' =>
    w' = { w with memory := Function.update w.memory address value }

abbrev spiWires : Behavior Op Ans where
  State := Wire
  answer := WireAnswer
  torn _ _ _ := False

end CortexLabs.Spi

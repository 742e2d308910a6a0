import CortexLabs.Device.Memory
import CortexLabs.Device.Program
import CortexLabs.Errno

/-! The asynchronous receive driver of the CMSDK UART.  A pointer is an address, 0 when it is NULL.
`Driver` holds the fields of `struct lab20_uart_data`, the registers that the driver writes and
whether it has pended its interrupt.  Interrupts are locked from the first access of an API function
to its last and throughout the interrupt service routine, so an API function is a step on the
driver, and the routine is a program whose operations are its accesses to the receive registers and
to the buffers, and its calls of the callback, which may call the API in turn. -/

namespace CortexLabs.Uart

open Device Errno

abbrev null : Nat := 0

abbrev sysForeverUs : Int := -1

abbrev uartErrorOverrun : Nat := 1

abbrev ctrlTxen : Word := 1
abbrev ctrlRxen : Word := 2
abbrev ctrlRxirqen : Word := 8
abbrev stateRxbf : Word := 2
abbrev stateRxor : Word := 8
abbrev intRx : Word := 2
abbrev intRxor : Word := 8
abbrev dataMask : Word := 0xff

inductive RxState where
  | idle
  | active
  | stopping
  deriving DecidableEq

structure Driver where
  callback : Nat
  userData : Nat
  state : RxState
  inCallback : Bool
  initialRequest : Bool
  requestOutstanding : Bool
  currentBuf : Nat
  currentLen : Nat
  currentPos : Nat
  reported : Nat
  nextBuf : Nat
  nextLen : Nat
  irqEntries : Word
  hardwareBytes : Word
  hardwareOverruns : Word
  /-- The control register. -/
  ctrl : Word
  /-- What was last written to the interrupt clear register. -/
  intclear : Word
  /-- Whether the driver has pended its interrupt. -/
  pending : Bool
  deriving DecidableEq

/-- The driver after `lab20_uart_init`. -/
def Driver.start : Driver :=
  ⟨null, null, .idle, false, false, false, null, 0, 0, 0, null, 0, 0, 0, 0, ctrlTxen,
    intRx ||| intRxor, false⟩

inductive UartEvent where
  | rxBufRequest
  | rxRdy (buf : Nat) (offset len : Nat)
  | rxBufReleased (buf : Nat)
  | rxStopped (reason : Nat) (buf : Nat) (offset len : Nat)
  | rxDisabled
  deriving DecidableEq

/-! ### The API -/

def lab20UartCallbackSet (d : Driver) (callback userData : Nat) : Int × Driver :=
  if d.state ≠ .idle ∨ d.inCallback then (-ebusy, d)
  else (0, { d with callback, userData })

/-- The driver when `lab20_uart_rx_enable` succeeds. -/
def Driver.enable (d : Driver) (buf : Nat) (len : Nat) : Driver :=
  { d with
    currentBuf := buf
    currentLen := len
    currentPos := 0
    reported := 0
    nextBuf := null
    nextLen := 0
    requestOutstanding := false
    initialRequest := true
    state := .active
    intclear := intRx
    ctrl := d.ctrl ||| (ctrlRxen ||| ctrlRxirqen)
    pending := true }

def lab20UartRxEnable (d : Driver) (buf : Nat) (len : Nat) (timeout : Int) : Int × Driver :=
  if buf = null ∨ len = 0 then (-einval, d)
  else if timeout ≠ sysForeverUs then (-enotsup, d)
  else if d.state ≠ .idle ∨ d.callback = null then
    (if d.state ≠ .idle then -ebusy else -einval, d)
  else (0, d.enable buf len)

def buffersOverlap (a : Nat) (aLen : Nat) (b : Nat) (bLen : Nat) : Bool :=
  if a ≤ b then b - a < aLen else a - b < bLen

def lab20UartRxBufRsp (d : Driver) (buf : Nat) (len : Nat) : Int × Driver :=
  if buf = null ∨ len = 0 then (-einval, d)
  else if d.state ≠ .active then (-eacces, d)
  else if d.nextBuf ≠ null ∨ !d.requestOutstanding then (-ebusy, d)
  else if buffersOverlap buf len d.currentBuf d.currentLen then (-einval, d)
  else (0, { d with nextBuf := buf, nextLen := len, requestOutstanding := false })

/-- The driver when `lab20_uart_rx_disable` succeeds. -/
def Driver.stop (d : Driver) : Driver :=
  { d with
    state := .stopping
    ctrl := d.ctrl &&& ~~~(ctrlRxen ||| ctrlRxirqen)
    pending := true }

def lab20UartRxDisable (d : Driver) : Int × Driver :=
  if d.state = .idle then (-efault, d)
  else if d.state = .stopping then (-ealready, d)
  else (0, d.stop)

/-! ### The interrupt service routine -/

/-- What the routine reads, what it stores, and its calls of the callback, which are given the
driver as it is and may change it. -/
inductive Op where
  | readState
  | readData
  | store (address : Nat) (b : Byte)
  | call (callback dev : Nat) (evt : UartEvent) (userData : Nat) (d : Driver)

def Ans : Op → Type
  | .readState => Word
  | .readData => Word
  | .store _ _ => Unit
  | .call _ _ _ _ _ => Driver

abbrev IsrProgram (α : Type) := Program Op Ans α

def readState : IsrProgram Word := Program.issue Op.readState

def readData : IsrProgram Word := Program.issue Op.readData

def store (address : Nat) (b : Byte) : IsrProgram Unit := Program.issue (Op.store address b)

def call (callback dev : Nat) (evt : UartEvent) (userData : Nat) (d : Driver) :
    IsrProgram Driver :=
  Program.issue (Op.call callback dev evt userData d)

variable (dev : Nat)

def lab20UartEmit (d : Driver) (evt : UartEvent) : IsrProgram Driver := do
  let d := { d with inCallback := true }
  let d ← call d.callback dev evt d.userData d
  return { d with inCallback := false }

def requestBuffer (d : Driver) : IsrProgram Driver :=
  lab20UartEmit dev { d with requestOutstanding := true } .rxBufRequest

def reportCurrent (d : Driver) : IsrProgram Driver :=
  if d.currentPos = d.reported then pure d
  else
    let evt := .rxRdy d.currentBuf d.reported (d.currentPos - d.reported)
    lab20UartEmit dev { d with reported := d.currentPos } evt

def releaseBuffer (d : Driver) (buf : Nat) : IsrProgram Driver :=
  if buf ≠ null then lab20UartEmit dev d (.rxBufReleased buf) else pure d

/-- The part of `finish_rx` after its last report. -/
def giveBack (d : Driver) : IsrProgram Driver := do
  let current := d.currentBuf
  let next := d.nextBuf
  let d := { d with
    currentBuf := null
    nextBuf := null
    currentLen := 0
    currentPos := 0
    reported := 0
    nextLen := 0 }
  let d ← releaseBuffer dev d current
  let d ← releaseBuffer dev d next
  lab20UartEmit dev { d with state := .idle } .rxDisabled

def finishRx (d : Driver) (reason : Nat) : IsrProgram Driver := do
  let d := { d with
    ctrl := d.ctrl &&& ~~~(ctrlRxen ||| ctrlRxirqen)
    intclear := intRx
    state := .stopping
    initialRequest := false
    requestOutstanding := false }
  let d ←
    if reason ≠ 0 then
      lab20UartEmit dev d
        (.rxStopped reason d.currentBuf d.reported (d.currentPos - d.reported))
    else pure d
  let d ← reportCurrent dev d
  giveBack dev d

/-- The driver once the next buffer has become the current one. -/
def Driver.swapped (d : Driver) : Driver :=
  { d with
    currentBuf := d.nextBuf
    currentLen := d.nextLen
    currentPos := 0
    reported := 0
    nextBuf := null
    nextLen := 0 }

/-- The part of `lab20_uart_isr` after the current buffer has been filled and reported. -/
def swapBuffers (d : Driver) : IsrProgram Driver := do
  let completed := d.currentBuf
  let d ← releaseBuffer dev d.swapped completed
  let d ← if d.state = .active then requestBuffer dev d else pure d
  if d.state = .stopping then finishRx dev d 0 else pure d

/-- The part of `lab20_uart_isr` from its read of the state register on. -/
def receive (d : Driver) : IsrProgram Driver := do
  let status ← readState
  if status &&& stateRxor ≠ 0 then
    finishRx dev { d with hardwareOverruns := d.hardwareOverruns + 1, intclear := intRxor }
      uartErrorOverrun
  else if status &&& stateRxbf = 0 then pure d
  else do
    let value ← readData
    store (d.currentBuf + d.currentPos) ((value &&& dataMask).setWidth 8)
    let d := { d with
      currentPos := d.currentPos + 1
      hardwareBytes := d.hardwareBytes + 1 }
    if d.currentPos < d.currentLen then pure d
    else do
      let d ← reportCurrent dev d
      if d.state = .stopping ∨ d.nextBuf = null then finishRx dev d 0
      else swapBuffers dev d

def lab20UartIsr (d : Driver) : IsrProgram Driver :=
  let d := { d with irqEntries := d.irqEntries + 1, intclear := intRx }
  if d.state = .stopping then finishRx dev d 0
  else if d.state ≠ .active then pure d
  else if d.initialRequest then do
    let d ← requestBuffer dev { d with initialRequest := false }
    if d.state = .stopping then finishRx dev d 0 else receive dev d
  else receive dev d

end CortexLabs.Uart

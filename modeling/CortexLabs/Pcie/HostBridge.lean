import CortexLabs.Device.Memory

/-! The AHB-Lite register slave that turns a write of its command register into a configuration
request to a backend.  A register access takes one address cycle and one data cycle; the request
that a doorbell launches is a snapshot of the registers, and the slave waits for its completion
while the bus goes on. -/

namespace CortexLabs.Pcie.HostBridge

open Device

/-- `STATE_IDLE` to `STATE_WAIT_CPL`, and the one encoding that the machine does not use. -/
inductive State where
  | idle | issue | waitCpl | unused
  deriving DecidableEq

abbrev reqCfgRead : BitVec 2 := 0
abbrev reqCfgWrite : BitVec 2 := 1

abbrev regVersion : BitVec 16 := 0x0000
abbrev regControl : BitVec 16 := 0x0004
abbrev regStatus : BitVec 16 := 0x0008
abbrev regCfgBdf : BitVec 16 := 0x0010
abbrev regCfgReg : BitVec 16 := 0x0014
abbrev regCfgWdata : BitVec 16 := 0x0018
abbrev regCfgRdata : BitVec 16 := 0x001c
abbrev regCfgCommand : BitVec 16 := 0x0020
abbrev regErrorStatus : BitVec 16 := 0x0024

abbrev versionValue : Word := 0x00010000

abbrev controlEnable : Word := 1

abbrev cmdCfgRead : Word := 1
abbrev cmdCfgWrite : Word := 2

abbrev errBadCommand : Word := 2
abbrev errBackend : Word := 4
abbrev errBusy : Word := 8
abbrev errBadAccess : Word := 16

structure Regs where
  state : State
  control : Word
  busy : Bool
  done : Bool
  cfgBdf : Word
  cfgReg : Word
  cfgWdata : Word
  cfgRdata : Word
  cfgCommand : Word
  errorStatus : Word
  dphaseValid : Bool
  dphaseWrite : Bool
  dphaseAddr : BitVec 16
  dphaseSize : BitVec 3
  reqTypeR : BitVec 2
  reqBdfR : Word
  reqRegR : BitVec 10
  reqWdataR : Word
  deriving DecidableEq

structure Inputs where
  hsel : Bool
  haddr : Word
  htrans : BitVec 2
  hwrite : Bool
  hsize : BitVec 3
  hwdata : Word
  hready : Bool
  reqReady : Bool
  cplValid : Bool
  cplStatus : BitVec 2
  cplRdata : Word
  deriving DecidableEq

def Regs.reset : Regs :=
  ⟨.idle, 0, false, false, 0, 0, 0, 0, 0, 0, false, false, 0, 0, 0, 0, 0, 0⟩

def Inputs.ahbAddressPhase (i : Inputs) : Bool := i.hsel && i.hready && i.htrans[1]

namespace Regs

def reqValid (r : Regs) : Bool := r.state = .issue

def cplReady (r : Regs) : Bool := r.state = .waitCpl

/-- The backend transaction machine. -/
def fsm (r : Regs) (i : Inputs) : Regs :=
  match r.state with
  | .idle => r
  | .issue => if i.reqReady then { r with state := .waitCpl } else r
  | .waitCpl =>
    if i.cplValid then
      let r' := { r with state := .idle, busy := false, done := true }
      if i.cplStatus ≠ 0 then { r' with errorStatus := errBackend }
      else if r.reqTypeR = reqCfgRead then { r' with errorStatus := 0, cfgRdata := i.cplRdata }
      else { r' with errorStatus := 0 }
    else r
  | .unused => { r with state := .idle, busy := false }

/-- The capture of the address phase. -/
def capture (n : Regs) (i : Inputs) : Regs :=
  if i.hready then
    if i.ahbAddressPhase then
      { n with
        dphaseValid := true, dphaseWrite := i.hwrite
        dphaseAddr := i.haddr.setWidth 16, dphaseSize := i.hsize }
    else { n with dphaseValid := false }
  else n

/-- A write of `CFG_COMMAND` in its data phase: `r` are the registers before the clock edge, and
`n` what the assignments before this one have made of them. -/
def writeCommand (r : Regs) (hwdata : Word) (n : Regs) : Regs :=
  let n := { n with cfgCommand := hwdata }
  if r.busy ≠ false ∨ r.state ≠ .idle then
    { n with errorStatus := r.errorStatus ||| errBusy }
  else if hwdata = cmdCfgRead ∨ hwdata = cmdCfgWrite then
    { n with
      state := .issue, busy := true, done := false, errorStatus := 0
      reqTypeR := if hwdata = cmdCfgRead then reqCfgRead else reqCfgWrite
      reqBdfR := r.cfgBdf, reqRegR := r.cfgReg.setWidth 10, reqWdataR := r.cfgWdata }
  else { n with busy := false, done := true, errorStatus := errBadCommand }

/-- A word write in its data phase. -/
def writeRegister (r : Regs) (hwdata : Word) (n : Regs) : Regs :=
  if r.dphaseAddr = regControl then { n with control := hwdata &&& controlEnable }
  else if r.dphaseAddr = regCfgBdf then { n with cfgBdf := hwdata }
  else if r.dphaseAddr = regCfgReg then { n with cfgReg := hwdata }
  else if r.dphaseAddr = regCfgWdata then { n with cfgWdata := hwdata }
  else if r.dphaseAddr = regCfgCommand then r.writeCommand hwdata n
  else { n with errorStatus := r.errorStatus ||| errBadAccess }

/-- A write is in its data phase. -/
def writing (r : Regs) : Bool := r.dphaseValid && r.dphaseWrite

/-- The write data phase of the access captured last. -/
def writePhase (r : Regs) (hwdata : Word) (n : Regs) : Regs :=
  if r.writing then
    if r.dphaseSize ≠ 0b010 ∨ r.dphaseAddr.extractLsb' 0 2 ≠ 0 then
      { n with errorStatus := r.errorStatus ||| errBadAccess }
    else r.writeRegister hwdata n
  else n

/-- One clock edge.  The three parts assign in this order, and a later assignment wins. -/
def step (r : Regs) (i : Inputs) : Regs := r.writePhase i.hwdata ((r.fsm i).capture i)

/-- `STATUS`: bit 0 is `busy`, bit 1 `done`, and bit 2 says that `ERROR_STATUS` is not zero. -/
def status (r : Regs) : Word :=
  BitVec.ofBool (r.errorStatus ≠ 0) ++ BitVec.ofBool r.done ++ BitVec.ofBool r.busy |>.setWidth 32

/-- The read data phase. -/
def hrdata (r : Regs) : Word :=
  if r.dphaseValid && !r.dphaseWrite then
    if r.dphaseAddr = regVersion then versionValue
    else if r.dphaseAddr = regControl then r.control
    else if r.dphaseAddr = regStatus then r.status
    else if r.dphaseAddr = regCfgBdf then r.cfgBdf
    else if r.dphaseAddr = regCfgReg then r.cfgReg
    else if r.dphaseAddr = regCfgWdata then r.cfgWdata
    else if r.dphaseAddr = regCfgRdata then r.cfgRdata
    else if r.dphaseAddr = regCfgCommand then r.cfgCommand
    else if r.dphaseAddr = regErrorStatus then r.errorStatus
    else 0
  else 0

end Regs

/-! ### What the backend port shows -/

structure Request where
  type : BitVec 2
  bdf : Word
  reg : BitVec 10
  wdata : Word
  deriving DecidableEq

/-- The life of a request at the backend port: it is launched, the backend accepts it, and its
completion is taken. -/
inductive Event where
  | launched (q : Request)
  | accepted (q : Request)
  | completed (status : BitVec 2) (rdata : Word)
  deriving DecidableEq

def Regs.request (r : Regs) : Request := ⟨r.reqTypeR, r.reqBdfR, r.reqRegR, r.reqWdataR⟩

/-- What happens at the port in one cycle; a request is launched by the edge that raises
`req_valid`. -/
def events (r : Regs) (i : Inputs) : List Event :=
  (if r.reqValid && i.reqReady then [.accepted r.request] else []) ++
  (if r.cplReady && i.cplValid then [.completed i.cplStatus i.cplRdata] else []) ++
  (if !r.reqValid && (r.step i).reqValid then [.launched (r.step i).request] else [])

end CortexLabs.Pcie.HostBridge

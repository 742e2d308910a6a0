import CortexLabs.Device.Clocked
import CortexLabs.Device.Memory

/-! The vendor adapter's simulation model: an endpoint behind a configuration and a memory request
port.  One request is in progress at a time, a configuration request wins over a memory request,
and a completion is offered on the channel of its request until it is accepted. -/

namespace CortexLabs.Pcie.VendorAdapter

open Device

abbrev cfgRead : BitVec 2 := 0
abbrev cfgWrite : BitVec 2 := 1

abbrev endpointBdf : Word := 0x00000800
abbrev deviceId : Word := 0x56781234

abbrev cfgVendorDevice : BitVec 10 := 0x000
abbrev cfgCommandStatus : BitVec 10 := 0x004
abbrev cfgBar0 : BitVec 10 := 0x010

abbrev bar0Mask : Word := 0xffff0000
abbrev scratchOffset : Word := 0x00001000

/-- `STATE_IDLE` to `STATE_CPL`, and the one encoding that the machine does not use. -/
inductive State where
  | idle | delay | cpl | unused
  deriving DecidableEq

/-- `KIND_CFG` and `KIND_MEM`. -/
inductive Kind where
  | cfg | mem
  deriving DecidableEq

structure Regs where
  state : State
  kind : Kind
  delayCount : BitVec 2
  savedCfgType : BitVec 2
  savedCfgBdf : Word
  savedCfgReg : BitVec 10
  savedCfgWdata : Word
  savedMemAddr : Word
  commandReg : BitVec 16
  bar0Base : Word
  bar0Probe : Bool
  scratchReg : Word
  cplStatusR : BitVec 2
  cplRdataR : Word
  deriving DecidableEq

structure Inputs where
  cfgReqValid : Bool
  cfgReqType : BitVec 2
  cfgReqBdf : Word
  cfgReqReg : BitVec 10
  cfgReqWdata : Word
  cfgCplReady : Bool
  memReqValid : Bool
  memReqWrite : Bool
  memReqAddr : Word
  memReqWdata : Word
  memCplReady : Bool

def Regs.reset : Regs := ⟨.idle, .cfg, 0, 0, 0, 0, 0, 0, 0, 0, false, 0, 0, 0⟩

namespace Regs

def cfgReqReady (r : Regs) : Bool := r.state = .idle

def memReqReady (r : Regs) (i : Inputs) : Bool := r.state = .idle && !i.cfgReqValid

def cfgCplValid (r : Regs) : Bool := r.state = .cpl && r.kind = .cfg

def memCplValid (r : Regs) : Bool := r.state = .cpl && r.kind = .mem

/-- Whether an address is that of the scratch word and memory space is enabled. -/
def scratchHit (r : Regs) (addr : Word) : Bool :=
  r.commandReg[1] && addr = r.bar0Base + scratchOffset

/-- The data of a configuration read. -/
def cfgReadData (r : Regs) : Word :=
  if r.savedCfgReg = cfgVendorDevice then deviceId
  else if r.savedCfgReg = cfgCommandStatus then r.commandReg.setWidth 32
  else if r.savedCfgReg = cfgBar0 then (if r.bar0Probe then bar0Mask else r.bar0Base)
  else 0

/-- The effect of a configuration write. -/
def cfgWriteEffect (r : Regs) : Regs :=
  if r.savedCfgReg = cfgCommandStatus then { r with commandReg := r.savedCfgWdata.setWidth 16 }
  else if r.savedCfgReg = cfgBar0 then
    if r.savedCfgWdata = 0xffffffff then { r with bar0Probe := true }
    else { r with bar0Base := r.savedCfgWdata &&& bar0Mask, bar0Probe := false }
  else r

/-- The end of the delay of a configuration request. -/
def completeCfg (r : Regs) : Regs :=
  if r.savedCfgBdf ≠ endpointBdf then { r with cplStatusR := 0, cplRdataR := 0xffffffff }
  else if r.savedCfgType = cfgRead then { r with cplStatusR := 0, cplRdataR := r.cfgReadData }
  else if r.savedCfgType = cfgWrite then
    { r.cfgWriteEffect with cplStatusR := 0, cplRdataR := 0 }
  else { r with cplStatusR := 1, cplRdataR := 0 }

/-- The end of the delay of a memory read. -/
def completeMem (r : Regs) : Regs :=
  if r.scratchHit r.savedMemAddr then { r with cplStatusR := 0, cplRdataR := r.scratchReg }
  else { r with cplStatusR := 1, cplRdataR := 0xffffffff }

def acceptCfg (r : Regs) (i : Inputs) : Regs :=
  { r with
    state := .delay, kind := .cfg, delayCount := 2
    savedCfgType := i.cfgReqType, savedCfgBdf := i.cfgReqBdf
    savedCfgReg := i.cfgReqReg, savedCfgWdata := i.cfgReqWdata }

/-- A write takes effect at once, without a completion. -/
def acceptMem (r : Regs) (i : Inputs) : Regs :=
  if i.memReqWrite then
    if r.scratchHit i.memReqAddr then { r with scratchReg := i.memReqWdata } else r
  else
    { r with state := .delay, kind := .mem, delayCount := 2, savedMemAddr := i.memReqAddr }

def step (r : Regs) (i : Inputs) : Regs :=
  match r.state with
  | .idle =>
    if i.cfgReqValid && r.cfgReqReady then r.acceptCfg i
    else if i.memReqValid && r.memReqReady i then r.acceptMem i
    else r
  | .delay =>
    if r.delayCount ≠ 0 then { r with delayCount := r.delayCount - 1 }
    else
      match r.kind with
      | .cfg => { r.completeCfg with state := .cpl }
      | .mem => { r.completeMem with state := .cpl }
  | .cpl =>
    if (r.kind = .cfg && r.cfgCplValid && i.cfgCplReady) ||
        (r.kind = .mem && r.memCplValid && i.memCplReady) then { r with state := .idle }
    else r
  | .unused => { r with state := .idle }

end Regs

end CortexLabs.Pcie.VendorAdapter

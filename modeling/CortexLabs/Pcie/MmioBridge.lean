import CortexLabs.Device.Clocked
import CortexLabs.Device.Memory

/-! The AHB-Lite slave that turns the CPU's accesses to the PCIe memory aperture into memory
requests.  A transfer is captured in its address phase, checked in the first cycle of its data
phase, and answered once the backend has accepted its request and, for a read, completed it. -/

namespace CortexLabs.Pcie.MmioBridge

open Device

structure Params where
  cpuApertureBase : Word
  cpuApertureMask : Word
  pcieBusBase : Word

def Params.default : Params := ⟨0x60000000, 0xf0000000, 0x60000000⟩

/-- `STATE_IDLE` to `STATE_ERR2`, and the one encoding that the machine does not use. -/
inductive State where
  | idle | dphase | issue | wait | resp | err1 | err2 | unused
  deriving DecidableEq

structure Regs where
  state : State
  addrR : Word
  writeR : Bool
  sizeR : BitVec 3
  wdataR : Word
  rdataR : Word
  deriving DecidableEq

structure Inputs where
  hsel : Bool
  haddr : Word
  htrans : BitVec 2
  hwrite : Bool
  hsize : BitVec 3
  hwdata : Word
  hready : Bool
  memReqReady : Bool
  memCplValid : Bool
  memCplStatus : BitVec 2
  memCplRdata : Word

def Regs.reset : Regs := ⟨.idle, 0, false, 0, 0, 0⟩

def Inputs.presents (i : Inputs) : Bool := i.hsel && i.htrans.getLsbD 1

def Inputs.addressPhase (i : Inputs) : Bool := i.hsel && i.hready && i.htrans.getLsbD 1

namespace Regs

def hreadyout (r : Regs) : Bool := r.state = .idle || r.state = .resp || r.state = .err2

def hresp (r : Regs) : Bool := r.state = .err1 || r.state = .err2

def hrdata (r : Regs) : Word := r.rdataR

def memReqValid (r : Regs) : Bool := r.state = .issue

def memReqWrite (r : Regs) : Bool := r.writeR

def memReqAddr (p : Params) (r : Regs) : Word := p.pcieBusBase + (r.addrR - p.cpuApertureBase)

def memReqWdata (r : Regs) : Word := r.wdataR

def memCplReady (r : Regs) : Bool := r.state = .wait

/-- The address and control of an address phase. -/
def capture (r : Regs) (i : Inputs) : Regs :=
  { r with state := .dphase, addrR := i.haddr, writeR := i.hwrite, sizeR := i.hsize }

/-- The check of `STATE_DPHASE`. -/
def refused (p : Params) (r : Regs) : Bool :=
  r.sizeR ≠ 0b010 || r.addrR.extractLsb' 0 2 ≠ 0 || r.addrR &&& p.cpuApertureMask ≠ p.cpuApertureBase

def step (p : Params) (r : Regs) (i : Inputs) : Regs :=
  match r.state with
  | .idle => if i.addressPhase then r.capture i else r
  | .dphase =>
    if r.refused p then { r with state := .err1 }
    else { r with state := .issue, wdataR := if r.writeR then i.hwdata else r.wdataR }
  | .issue =>
    if i.memReqReady then { r with state := if r.writeR then .resp else .wait } else r
  | .wait =>
    if i.memCplValid then
      if i.memCplStatus ≠ 0 then { r with state := .err1 }
      else { r with state := .resp, rdataR := i.memCplRdata }
    else r
  | .resp => if i.addressPhase then r.capture i else { r with state := .idle }
  | .err1 => { r with state := .err2 }
  | .err2 => { r with state := .idle }
  | .unused => { r with state := .idle }

end Regs

end CortexLabs.Pcie.MmioBridge

import CortexLabs.Pcie.HostBridge

/-! The two backends of the host bridge.  Both answer each request three cycles after they have
accepted it, and hold the answer until it is taken: the stub from what it has saved of the request,
and the transaction model by way of an encoder, an endpoint that exchanges four-word packets, and a
decoder. -/

namespace CortexLabs.Pcie

open Device
open HostBridge (Request reqCfgRead reqCfgWrite)

abbrev endpointBdf : Word := 0x00000800

structure Port where
  reqValid : Bool
  req : Request
  cplReady : Bool
  deriving DecidableEq

/-! ### The stub -/

namespace BackendStub

structure Regs where
  pending : Bool
  delayCount : BitVec 2
  savedType : BitVec 2
  savedBdf : Word
  savedReg : BitVec 10
  cplValid : Bool
  cplStatus : BitVec 2
  cplRdata : Word
  deriving DecidableEq

def Regs.reset : Regs := ⟨false, 0, 0, 0, 0, false, 0, 0⟩

namespace Regs

def reqReady (r : Regs) : Bool := !r.pending && !r.cplValid

/-- The answer to the saved request. -/
def complete (r n : Regs) : Regs :=
  let n := { n with pending := false, cplValid := true, cplStatus := 0 }
  if r.savedType = reqCfgRead then
    { n with cplRdata :=
        if r.savedBdf = endpointBdf ∧ r.savedReg = 0 then 0x56781234 else 0xffffffff }
  else if r.savedType = reqCfgWrite then { n with cplRdata := 0 }
  else { n with cplStatus := 1, cplRdata := 0xffffffff }

def step (r : Regs) (i : Port) : Regs :=
  let n := if r.cplValid && i.cplReady then { r with cplValid := false } else r
  if i.reqValid && r.reqReady then
    { n with
      savedType := i.req.type, savedBdf := i.req.bdf, savedReg := i.req.reg
      pending := true, delayCount := 2 }
  else if r.pending then
    if r.delayCount ≠ 0 then { n with delayCount := r.delayCount - 1 } else r.complete n
  else n

end Regs

end BackendStub

/-! ### The transaction model -/

abbrev tlpCfgRead : BitVec 8 := 0x01
abbrev tlpCfgWrite : BitVec 8 := 0x02
abbrev tlpCpl : BitVec 8 := 0x80
abbrev tlpInvalid : BitVec 8 := 0xff

abbrev cplSuccess : BitVec 2 := 0
abbrev cplError : BitVec 2 := 1

abbrev cfgScratchReg : BitVec 10 := 0x040

structure Tlp where
  dw0 : Word
  dw1 : Word
  dw2 : Word
  dw3 : Word
  deriving DecidableEq

/-- `opcode` of `labh2_pcie_tlp_tx`. -/
def opcode (type : BitVec 2) : BitVec 8 :=
  if type = reqCfgRead then tlpCfgRead else if type = reqCfgWrite then tlpCfgWrite else tlpInvalid

/-- `labh2_pcie_tlp_tx`: the packet of a request. -/
def tlpTx (q : Request) : Tlp :=
  ⟨opcode q.type ++ (0 : BitVec 14) ++ q.reg, q.bdf, q.wdata, 0⟩

/-- `labh2_pcie_tlp_rx`: the status and the data of a completion packet. -/
def tlpRx (t : Tlp) : BitVec 2 × Word :=
  (if t.dw0.extractLsb' 24 8 = tlpCpl then t.dw0.extractLsb' 0 2 else cplError, t.dw1)

namespace EndpointModel

structure Regs where
  cfgScratch : Word
  pending : Bool
  delayCount : BitVec 2
  savedOpcode : BitVec 8
  savedBdf : Word
  savedReg : BitVec 10
  savedWdata : Word
  cplValid : Bool
  cpl : Tlp
  deriving DecidableEq

def Regs.reset : Regs := ⟨0, false, 0, 0, 0, 0, 0, false, ⟨0, 0, 0, 0⟩⟩

namespace Regs

def reqReady (r : Regs) : Bool := !r.pending && !r.cplValid

/-- `dw0` of a completion. -/
def cplDw0 (status : BitVec 2) : Word := tlpCpl ++ (0 : BitVec 22) ++ status

/-- The data of a configuration read. -/
def readData (r : Regs) : Word :=
  if r.savedBdf ≠ endpointBdf then 0xffffffff
  else if r.savedReg = 0 then 0x56781234
  else if r.savedReg = cfgScratchReg then r.cfgScratch
  else 0xffffffff

/-- The answer to the saved packet. -/
def complete (r : Regs) : Regs :=
  let n := { r with pending := false, cplValid := true }
  if r.savedOpcode = tlpCfgRead then { n with cpl := ⟨cplDw0 cplSuccess, r.readData, 0, 0⟩ }
  else if r.savedOpcode = tlpCfgWrite then
    { n with
      cpl := ⟨cplDw0 cplSuccess, 0, 0, 0⟩
      cfgScratch :=
        if r.savedBdf = endpointBdf ∧ r.savedReg = cfgScratchReg then r.savedWdata
        else r.cfgScratch }
  else { n with cpl := ⟨cplDw0 cplError, 0xffffffff, 0, 0⟩ }

def step (r : Regs) (reqValid : Bool) (req : Tlp) (cplReady : Bool) : Regs :=
  let n :=
    if reqValid && r.reqReady then
      { r with
        savedOpcode := req.dw0.extractLsb' 24 8, savedReg := req.dw0.extractLsb' 0 10
        savedBdf := req.dw1, savedWdata := req.dw2
        pending := true, delayCount := 2 }
    else if r.pending then
      if r.delayCount ≠ 0 then { r with delayCount := r.delayCount - 1 } else r.complete
    else r
  if r.cplValid && cplReady then { n with cplValid := false } else n

end Regs

end EndpointModel

/-! ### The backend of the transaction model -/

namespace Backend

abbrev Regs := EndpointModel.Regs

/-- The encoder, the endpoint and the decoder: handshakes pass through the first and the last. -/
def step (r : Regs) (i : Port) : Regs := EndpointModel.Regs.step r i.reqValid (tlpTx i.req) i.cplReady

def cplStatus (r : Regs) : BitVec 2 := (tlpRx r.cpl).1

def cplRdata (r : Regs) : Word := (tlpRx r.cpl).2

end Backend

/-! ### Packets -/

theorem opcode_read {type : BitVec 2} : opcode type = tlpCfgRead ↔ type = reqCfgRead := by
  revert type
  decide

theorem opcode_write {type : BitVec 2} : opcode type = tlpCfgWrite ↔ type = reqCfgWrite := by
  revert type
  decide

theorem tlpTx_opcode (q : Request) : (tlpTx q).dw0.extractLsb' 24 8 = opcode q.type := by
  ext k hk
  have hindex : 24 + k - 10 - 14 = k := by omega
  rw [BitVec.getElem_extractLsb', tlpTx, BitVec.getLsbD_append, if_neg (by omega),
    BitVec.getLsbD_append, if_neg (by omega), hindex, BitVec.getLsbD_eq_getElem hk]

theorem tlpTx_reg (q : Request) : (tlpTx q).dw0.extractLsb' 0 10 = q.reg := by
  ext k hk
  rw [BitVec.getElem_extractLsb', tlpTx, BitVec.getLsbD_append, if_pos (by omega), Nat.zero_add,
    BitVec.getLsbD_eq_getElem hk]

theorem tlpRx_cpl (status : BitVec 2) (data dw2 dw3 : Word) :
    tlpRx ⟨EndpointModel.Regs.cplDw0 status, data, dw2, dw3⟩ = (status, data) := by
  have h : ∀ status : BitVec 2, (EndpointModel.Regs.cplDw0 status).extractLsb' 24 8 = tlpCpl ∧
      (EndpointModel.Regs.cplDw0 status).extractLsb' 0 2 = status := by decide
  rw [tlpRx, if_pos (h status).1, (h status).2]

end CortexLabs.Pcie

import CortexLabs.Device.Clocked
import CortexLabs.Pcie.TransactionModel

/-! The transaction model keeps the contract of the stub: over the same inputs the two show the
same at the port in every cycle, up to reads of the one register that only the model has. -/

namespace CortexLabs.Pcie

open Device
open HostBridge (Request reqCfgRead reqCfgWrite)

/-- A read of the register that the stub does not have. -/
def readsScratch (q : Request) : Prop :=
  q.type = reqCfgRead ∧ q.bdf = endpointBdf ∧ q.reg = cfgScratchReg

instance (q : Request) : Decidable (readsScratch q) := inferInstanceAs (Decidable (_ ∧ _ ∧ _))

def stub (i : Nat → Port) : Nat → BackendStub.Regs := Clocked.states BackendStub.Regs.step .reset i

def model (i : Nat → Port) : Nat → Backend.Regs := Clocked.states Backend.step .reset i

/-- The two are at the same point of the same request, and hold the same answer. -/
structure Alike (s : BackendStub.Regs) (m : Backend.Regs) : Prop where
  pending : m.pending = s.pending
  delay : m.delayCount = s.delayCount
  valid : m.cplValid = s.cplValid
  exclusive : s.pending = true → s.cplValid = false
  saved : s.pending = true → m.savedOpcode = opcode s.savedType ∧ m.savedBdf = s.savedBdf ∧
    m.savedReg = s.savedReg ∧
    ¬(s.savedType = reqCfgRead ∧ s.savedBdf = endpointBdf ∧ s.savedReg = cfgScratchReg)
  answer : s.cplValid = true → tlpRx m.cpl = (s.cplStatus, s.cplRdata)

section Alike

variable {s : BackendStub.Regs} {m : Backend.Regs} {i : Port}

theorem Alike.reqReady (h : Alike s m) : m.reqReady = s.reqReady := by
  rw [EndpointModel.Regs.reqReady, BackendStub.Regs.reqReady, h.pending, h.valid]

theorem Alike.complete (h : Alike s m) (hpending : s.pending = true) :
    Alike (s.complete s) m.complete := by
  obtain ⟨hop, hbdf, hreg, hscratch⟩ := h.saved hpending
  unfold BackendStub.Regs.complete EndpointModel.Regs.complete
  dsimp only
  rw [hop, hbdf, hreg]
  simp only [opcode_read, opcode_write]
  split
  · next hread =>
    refine ⟨rfl, h.delay, rfl, nofun, nofun, fun _ => ?_⟩
    have hdata : m.readData =
        if s.savedBdf = endpointBdf ∧ s.savedReg = 0 then 0x56781234 else 0xffffffff := by
      unfold EndpointModel.Regs.readData
      rw [hbdf, hreg]
      by_cases hb : s.savedBdf = endpointBdf
      · have hnot : s.savedReg ≠ cfgScratchReg := fun hr => hscratch ⟨hread, hb, hr⟩
        rw [if_neg (not_not.mpr hb), if_neg hnot]
        simp only [hb, true_and]
      · rw [if_pos hb, if_neg fun hboth => hb hboth.1]
    exact (tlpRx_cpl _ _ _ _).trans (by rw [hdata])
  split
  · exact ⟨rfl, h.delay, rfl, nofun, nofun, fun _ => tlpRx_cpl _ _ _ _⟩
  · exact ⟨rfl, h.delay, rfl, nofun, nofun, fun _ => tlpRx_cpl _ _ _ _⟩

theorem Alike.step (h : Alike s m)
    (hi : i.reqValid = true → s.reqReady = true → ¬readsScratch i.req) :
    Alike (s.step i) (Backend.step m i) := by
  have hready := h.reqReady
  unfold BackendStub.Regs.step Backend.step EndpointModel.Regs.step
  dsimp only
  rw [hready, h.pending, h.valid]
  cases hvalid : s.cplValid with
  | true =>
    -- The answer is held: no request is accepted, and none is pending.
    have hidle : s.pending = false := by
      by_contra hp
      exact absurd ((h.exclusive (by simpa using hp)).symm.trans hvalid) nofun
    have hbusy : s.reqReady = false := by simp [BackendStub.Regs.reqReady, hvalid]
    simp only [hidle, hbusy, Bool.and_false, Bool.false_eq_true, if_false, Bool.true_and]
    split
    · exact ⟨h.pending.trans hidle, h.delay, rfl, fun _ => rfl,
        fun hp => absurd hp Bool.false_ne_true, fun hv => absurd hv Bool.false_ne_true⟩
    · exact h
  | false =>
    simp only [Bool.false_and, Bool.false_eq_true, if_false]
    split
    · next haccept =>
      rw [Bool.and_eq_true] at haccept
      refine ⟨rfl, rfl, hvalid.symm, fun _ => hvalid, fun _ => ⟨tlpTx_opcode i.req, rfl,
        tlpTx_reg i.req, hi haccept.1 haccept.2⟩, fun hv => absurd (hvalid.symm.trans hv) nofun⟩
    split
    · next hpending =>
      rw [h.delay]
      split
      · exact ⟨rfl, rfl, hvalid.symm, fun _ => hvalid, h.saved, h.answer⟩
      · exact h.complete hpending
    · exact h

end Alike

/-- Over the same inputs, in which no request that is accepted reads the scratch register, the
transaction model shows at the port what the stub shows, in every cycle. -/
theorem backend_contract (i : Nat → Port)
    (hi : ∀ n, (i n).reqValid = true → (stub i n).reqReady = true → ¬readsScratch (i n).req)
    (n : Nat) : (model i n).reqReady = (stub i n).reqReady ∧
      (model i n).cplValid = (stub i n).cplValid ∧
      ((stub i n).cplValid = true → Backend.cplStatus (model i n) = (stub i n).cplStatus ∧
        Backend.cplRdata (model i n) = (stub i n).cplRdata) := by
  have h : Alike (stub i n) (model i n) := by
    induction n with
    | zero => exact ⟨rfl, rfl, rfl, nofun, nofun, nofun⟩
    | succ n ih => exact ih.step (hi n)
  exact ⟨h.reqReady, h.valid, fun hv => Prod.mk.inj (h.answer hv)⟩

/-- A port that always asks to read the first register. -/
def firstRead (_ : Nat) : Port := ⟨true, ⟨reqCfgRead, endpointBdf, 0, 0⟩, false⟩

/-- Both backends answer it after four cycles. -/
theorem backend_contract_read : (stub firstRead 4).cplRdata = 0x56781234 ∧
    Backend.cplRdata (model firstRead 4) = 0x56781234 := by
  have hi : ∀ n, (firstRead n).reqValid = true → (stub firstRead n).reqReady = true →
      ¬readsScratch (firstRead n).req :=
    fun n _ _ h => absurd (show readsScratch ⟨reqCfgRead, endpointBdf, 0, 0⟩ from h) (by decide)
  obtain ⟨-, -, hanswer⟩ := backend_contract firstRead hi 4
  have hdata : (stub firstRead 4).cplRdata = 0x56781234 := by decide
  exact ⟨hdata, (hanswer (by decide)).2.trans hdata⟩

end CortexLabs.Pcie

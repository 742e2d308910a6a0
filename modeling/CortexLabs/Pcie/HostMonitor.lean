import CortexLabs.Pcie.HostTraffic

/-! What an AHB-Lite monitor sees of the bridge.  The monitor follows the bus and the completion
port alone: it keeps the address phase of the transfer in its data phase, the values that have been
written to the registers, and whether a request is outstanding.  So it knows which doorbells are
accepted, and with what data, without looking at the registers of the bridge; the registers are
shown to agree with it in every cycle of every run. -/

namespace CortexLabs.Pcie.HostBridge

open Device

/-- The address phase of a transfer. -/
structure AddressPhase where
  addr : Word
  write : Bool
  size : BitVec 3
  deriving DecidableEq

structure Monitor where
  transfer : Option AddressPhase
  control : Word
  cfgBdf : Word
  cfgReg : Word
  cfgWdata : Word
  outstanding : Bool
  deriving DecidableEq

namespace Monitor

def start : Monitor := ⟨none, 0, 0, 0, 0, false⟩

/-- A word write of the register at offset `a` is in its data phase. -/
def writes (m : Monitor) (a : BitVec 16) : Bool :=
  m.transfer.any fun t => t.write && t.size = 0b010 && t.addr.setWidth 16 = a

/-- A write in its data phase is not a word write of a register that can be written. -/
def badAccess (m : Monitor) : Bool :=
  m.transfer.any (·.write) &&
    [regControl, regCfgBdf, regCfgReg, regCfgWdata, regCfgCommand].all fun a => !m.writes a

/-- A doorbell: `CFG_COMMAND` is written with 1 or 2. -/
def rings (m : Monitor) (i : Inputs) : Bool :=
  m.writes regCfgCommand && (i.hwdata = 1 || i.hwdata = 2)

/-- The doorbell that is accepted in a cycle, as the request that it asks for: a read or a write
with the register values of this moment. -/
def doorbell (m : Monitor) (i : Inputs) : List Request :=
  if m.rings i && !m.outstanding then
    [⟨if i.hwdata = 1 then reqCfgRead else reqCfgWrite, m.cfgBdf, m.cfgReg.setWidth 10, m.cfgWdata⟩]
  else []

/-- A command that is neither of the two is written while no request is outstanding. -/
def refuses (m : Monitor) (i : Inputs) : Bool :=
  m.writes regCfgCommand && !m.rings i && !m.outstanding

/-- The bit `CONTROL_ENABLE`. -/
def enabled (m : Monitor) : Bool := m.control.getLsbD 0

/-- One cycle, in which the bridge shows `cplReady` on the completion port. -/
def step (m : Monitor) (i : Inputs) (cplReady : Bool) : Monitor where
  transfer :=
    if i.hready then
      if i.hsel && i.htrans.getLsbD 1 then some ⟨i.haddr, i.hwrite, i.hsize⟩ else none
    else m.transfer
  control := if m.writes regControl then i.hwdata else m.control
  cfgBdf := if m.writes regCfgBdf then i.hwdata else m.cfgBdf
  cfgReg := if m.writes regCfgReg then i.hwdata else m.cfgReg
  cfgWdata := if m.writes regCfgWdata then i.hwdata else m.cfgWdata
  outstanding := if m.doorbell i = [] then m.outstanding && !(cplReady && i.cplValid) else true

end Monitor

/-- The monitor at the start of each cycle after reset. -/
def monitor (i : Nat → Inputs) : Nat → Monitor
  | 0 => .start
  | n + 1 => (monitor i n).step (i n) (regs i n).cplReady

/-- The doorbells that have been accepted before a cycle. -/
def rung (i : Nat → Inputs) : Nat → List Request
  | 0 => []
  | n + 1 => rung i n ++ (monitor i n).doorbell (i n)

/-! ### The registers agree with the monitor -/

/-- The transfer in its data phase is the one that the bridge has captured. -/
def Regs.Captured (r : Regs) : Option AddressPhase → Prop
  | some t => r.dphase = (true, t.write, t.addr.setWidth 16, t.size)
  | none => r.dphaseValid = false

structure Monitor.Tracks (m : Monitor) (r : Regs) : Prop where
  captured : r.Captured m.transfer
  csrs : r.csrs = (m.control &&& controlEnable, m.cfgBdf, m.cfgReg, m.cfgWdata)
  outstanding : m.outstanding = !decide (r.state = .idle)

section Tracks

variable {m : Monitor} {r : Regs} {i : Inputs}

theorem captured_step (h : r.Captured m.transfer) (c : Bool) :
    (r.step i).Captured (m.step i c).transfer := by
  have hdphase : (r.step i).dphase = ((r.fsm i).capture i).dphase := writePhase_dphase _ _ _
  have hfsm := fsm_dphase r i
  have hvalid : (r.step i).dphaseValid = ((r.fsm i).capture i).dphaseValid :=
    congrArg Prod.fst hdphase
  unfold Regs.Captured Monitor.step
  dsimp only
  have hphase : i.hready = true → i.ahbAddressPhase = (i.hsel && i.htrans.getLsbD 1) := by
    intro hready
    rw [Inputs.ahbAddressPhase, hready, Bool.and_true, BitVec.getLsbD_eq_getElem]
  rw [hdphase, hvalid, Regs.capture]
  cases hready : i.hready
  · -- The data phase goes on.
    cases ht : m.transfer with
    | none =>
      rw [ht] at h
      exact (congrArg Prod.fst hfsm).trans h
    | some t =>
      rw [ht] at h
      exact hfsm.trans h
  · rw [hphase hready]
    cases i.hsel && i.htrans.getLsbD 1 <;> rfl

theorem Monitor.Tracks.writing (h : m.Tracks r) : r.writing = m.transfer.any (·.write) := by
  have hc := h.captured
  cases ht : m.transfer with
  | none =>
    rw [ht] at hc
    simp [Regs.writing, show r.dphaseValid = false from hc]
  | some t =>
    rw [ht] at hc
    simp only [Regs.Captured, Regs.dphase, Prod.mk.injEq] at hc
    simp [Regs.writing, hc.1, hc.2.1]

theorem Monitor.Tracks.writes (h : m.Tracks r) (a : BitVec 16) : r.writes a = m.writes a := by
  have hc := h.captured
  have hw := h.writing
  rw [Regs.writes, hw, Monitor.writes]
  cases ht : m.transfer with
  | none => rfl
  | some t =>
    rw [ht] at hc
    simp only [Regs.Captured, Regs.dphase, Prod.mk.injEq] at hc
    simp [hc.2.2.1, hc.2.2.2]

theorem Monitor.Tracks.badAccess (h : m.Tracks r) : r.badAccess = m.badAccess := by
  simp only [Regs.badAccess, Monitor.badAccess, h.writing, h.writes]

theorem Monitor.Tracks.rings (h : m.Tracks r) : r.rings i.hwdata = m.rings i := by
  rw [Regs.rings, Monitor.rings, h.writes]

theorem Monitor.Tracks.outstanding_iff (h : m.Tracks r) :
    m.outstanding = true ↔ r.state ≠ .idle := by
  rw [h.outstanding]
  simp

theorem Monitor.Tracks.refuses (h : m.Tracks r) : HostBridge.refuses r i = m.refuses i := by
  rw [HostBridge.refuses, Monitor.refuses, h.writes, h.rings, h.outstanding, Bool.not_not]

theorem Monitor.Tracks.doorbell (h : m.Tracks r) : HostBridge.doorbell r i = m.doorbell i := by
  have hcsrs := h.csrs
  simp only [Regs.csrs, Prod.mk.injEq] at hcsrs
  obtain ⟨-, h2, h3, h4⟩ := hcsrs
  rw [HostBridge.doorbell, Monitor.doorbell, h.rings, h.outstanding, Bool.not_not, Regs.ask, h2, h3,
    h4]

/-- The monitor knows CONTROL.ENABLE. -/
theorem Monitor.Tracks.enabled (h : m.Tracks r) : r.control.getLsbD 0 = m.enabled := by
  have hcontrol : r.control = m.control &&& controlEnable := congrArg Prod.fst h.csrs
  rw [hcontrol, Monitor.enabled, BitVec.getLsbD_and]
  exact Bool.and_true _

/-- A request is outstanding from its doorbell to its completion. -/
theorem idle_step_iff (hsound : r.core.Sound) : (r.step i).state = .idle ↔
    doorbell r i = [] ∧ (r.state = .idle ∨ completes r i = true) := by
  constructor
  · intro hidle
    by_cases hstate : r.state = .idle
    · exact ⟨doorbell_of_idle hsound hstate hidle, .inl hstate⟩
    · exact ⟨by simp [doorbell, hstate], .inr (completes_of_idle hsound hstate hidle)⟩
  · rintro ⟨hnone, hidle | hcompletes⟩
    · exact (idle_kept hsound hidle hnone).1
    · obtain ⟨hwait, hvalid⟩ := completes_iff.mp hcompletes
      rw [state_step (by simp [hwait])]
      simp [Core.next, Regs.core, hwait, hvalid]

theorem Monitor.Tracks.step (h : m.Tracks r) (hsound : r.core.Sound) :
    (m.step i r.cplReady).Tracks (r.step i) := by
  refine ⟨captured_step h.captured _, ?_, ?_⟩
  · have hcsrs := h.csrs
    simp only [Regs.csrs, Prod.mk.injEq] at hcsrs
    obtain ⟨h1, h2, h3, h4⟩ := hcsrs
    rw [step_csrs, h.writes, h.writes, h.writes, h.writes, h1, h2, h3, h4]
    simp only [Monitor.step, Prod.mk.injEq, and_true]
    split <;> rfl
  · have hidle := idle_step_iff (i := i) hsound
    rw [h.doorbell] at hidle
    rw [Monitor.step, h.outstanding]
    by_cases hdoorbell : m.doorbell i = []
    · have hstays : (r.step i).state = .idle ↔ r.state = .idle ∨ completes r i = true :=
        hidle.trans (and_iff_right hdoorbell)
      rw [if_pos hdoorbell, Bool.eq_iff_iff]
      simp [hstays, completes]
    · rw [if_neg hdoorbell, decide_eq_false fun hi => hdoorbell (hidle.mp hi).1]
      rfl

end Tracks

variable {i : Nat → Inputs}

theorem tracks_run (n : Nat) : (monitor i n).Tracks (regs i n) := by
  induction n with
  | zero =>
    have hcsrs : Regs.reset.csrs = (0 &&& controlEnable, 0, 0, 0) := by decide
    exact ⟨rfl, hcsrs, rfl⟩
  | succ n ih => exact ih.step (sound_run n)

theorem rung_eq (n : Nat) : rung i n = doorbells i n := by
  induction n with
  | zero => rfl
  | succ n ih => rw [rung, doorbells_succ, ih, (tracks_run n).doorbell]

end CortexLabs.Pcie.HostBridge

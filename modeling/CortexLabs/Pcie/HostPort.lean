import CortexLabs.Device.Program
import CortexLabs.Pcie.HostBridge
import Mathlib.Logic.Relation

/-! The CPU on the register bus of the host bridge.  A load or a store of the program is one
address cycle, with any number of cycles before it in which the CPU does not address the bridge,
and its data cycle, which may be the address cycle of the next access.  In every cycle the backend
does as it likes. -/

namespace CortexLabs.Pcie.HostBridge

open Device

inductive Op where
  | load (addr : Word)
  | store (addr value : Word)
  deriving DecidableEq

def Ans : Op → Type
  | .load _ => Word
  | .store _ _ => Unit

abbrev CsrProgram (α : Type) := Program Op Ans α

def load (addr : Word) : CsrProgram Word := Program.issue (Op.load addr)

def store (addr value : Word) : CsrProgram Unit := Program.issue (Op.store addr value)

def Op.addr : Op → Word
  | .load addr => addr
  | .store addr _ => addr

def Op.isStore : Op → Bool
  | .load _ => false
  | .store _ _ => true

/-- The bridge, the data of the CPU's last store, and what has happened at the backend port. -/
structure World where
  regs : Regs
  hwdata : Word
  log : List Event
  deriving DecidableEq

/-- What the bus asks of a cycle: the data phase of an access ends with HREADY, which is the
bridge's own HREADYOUT then, and that of a store carries its data. -/
structure World.Drives (w : World) (i : Inputs) : Prop where
  ready : w.regs.dphaseValid = true → i.hready = true
  data : w.regs.writing = true → i.hwdata = w.hwdata

def World.clock (w : World) (i : Inputs) : World :=
  ⟨w.regs.step i, w.hwdata, w.log ++ events w.regs i⟩

/-- A cycle in which the bridge is not addressed. -/
inductive Quiet (w : World) : World → Prop
  | clock {i : Inputs} : w.Drives i → i.ahbAddressPhase = false → Quiet w (w.clock i)

inductive Address (w : World) (o : Op) : World → Prop
  | clock {i : Inputs} : w.Drives i → i.ahbAddressPhase = true → i.haddr = o.addr →
      i.hwrite = o.isStore → i.hsize = 0b010 →
      Address w o { w.clock i with
        hwdata := match o with | .load _ => w.hwdata | .store _ value => value }

/-- The register bus: an access is answered in its data cycle. -/
abbrev csr : Behavior Op Ans where
  State := World
  answer w o r w' := (∃ w1, Relation.ReflTransGen Quiet w w1 ∧ Address w1 o w') ∧
    match o, r with
    | .load _, v => v = w'.regs.hrdata
    | .store _ _, _ => True
  torn _ _ _ := False

/-! ### What a cycle leaves of the data phase -/

section DataPhase

variable {w w' : World} {o : Op} {i : Inputs}

/-- The access that has been captured. -/
def Regs.dphase (r : Regs) : Bool × Bool × BitVec 16 × BitVec 3 :=
  (r.dphaseValid, r.dphaseWrite, r.dphaseAddr, r.dphaseSize)

theorem writeCommand_dphase (r : Regs) (hwdata : Word) (n : Regs) :
    (r.writeCommand hwdata n).dphase = n.dphase := by
  unfold Regs.writeCommand
  dsimp only
  split
  · rfl
  · split <;> rfl

theorem writeRegister_dphase (r : Regs) (hwdata : Word) (n : Regs) :
    (r.writeRegister hwdata n).dphase = n.dphase := by
  unfold Regs.writeRegister
  iterate 4
    split
    · rfl
  split
  · exact writeCommand_dphase r hwdata n
  · rfl

theorem writePhase_dphase (r : Regs) (hwdata : Word) (n : Regs) :
    (r.writePhase hwdata n).dphase = n.dphase := by
  unfold Regs.writePhase
  split
  · split
    · rfl
    · exact writeRegister_dphase r hwdata n
  · rfl

theorem fsm_dphase (r : Regs) (i : Inputs) : (r.fsm i).dphase = r.dphase := by
  unfold Regs.fsm
  cases r.state with
  | idle | unused => rfl
  | issue | waitCpl => dsimp only; split_ifs <;> rfl

/-- After a cycle that does not address the bridge, nothing is in its data phase. -/
theorem Quiet.dphase (h : Quiet w w') : w'.regs.dphaseValid = false := by
  cases h with
  | @clock i hd hphase =>
    show (w.regs.step i).dphase.1 = false
    rw [Regs.step, writePhase_dphase]
    show ((w.regs.fsm i).capture i).dphaseValid = false
    rw [Regs.capture]
    cases hready : i.hready
    · have hidle : w.regs.dphaseValid = false := by
        by_contra hv
        have := hd.ready (by simpa using hv)
        exact absurd (hready.symm.trans this) nofun
      exact (congrArg Prod.fst (fsm_dphase w.regs i)).trans hidle
    · simp [hphase]

theorem Address.dphase (h : Address w o w') :
    w'.regs.dphaseValid = true ∧ w'.regs.dphaseWrite = o.isStore ∧
      w'.regs.dphaseAddr = o.addr.setWidth 16 ∧ w'.regs.dphaseSize = 0b010 := by
  cases h with
  | @clock i hd hphase haddr hwrite hsize =>
    have hready : i.hready = true := by
      simp only [Inputs.ahbAddressPhase, Bool.and_eq_true] at hphase
      exact hphase.1.2
    have hcap : (w.regs.fsm i).capture i = { w.regs.fsm i with
        dphaseValid := true, dphaseWrite := i.hwrite
        dphaseAddr := i.haddr.setWidth 16, dphaseSize := i.hsize } := by
      simp [Regs.capture, hready, hphase]
    have hdphase : (w.regs.step i).dphase = (true, o.isStore, o.addr.setWidth 16, 0b010) := by
      rw [Regs.step, writePhase_dphase, hcap, ← hwrite, ← haddr, ← hsize]
      rfl
    simp only [Regs.dphase, Prod.mk.injEq] at hdphase
    exact hdphase

end DataPhase

/-- What holds after the cycles of an access: `P` is reached in the first of them, with a write
perhaps still in its data phase, and lasts over cycles without such a write. -/
theorem answer_rule {P : Regs → List Event → Prop} {w w' : World} {o : Op} {r : Ans o}
    (hfirst : ∀ i, w.Drives i → P (w.regs.step i) (w.log ++ events w.regs i))
    (hstay : ∀ r log i, r.writing = false → P r log → P (r.step i) (log ++ events r i))
    (h : csr.answer w o r w') : P w'.regs w'.log := by
  obtain ⟨⟨w1, hquiet, haddress⟩, -⟩ := h
  have hkeep : w1 = w ∨ w1.regs.writing = false ∧ P w1.regs w1.log := by
    clear haddress
    induction hquiet with
    | refl => exact .inl rfl
    | @tail b c _ hs ih =>
      have hidle : c.regs.writing = false := by simp [Regs.writing, hs.dphase]
      refine .inr ⟨hidle, ?_⟩
      cases hs with
      | @clock i hd hphase =>
        rcases ih with rfl | ⟨hnone, hP⟩
        · exact hfirst i hd
        · exact hstay _ _ i hnone hP
  cases haddress with
  | @clock i hd hphase haddr hwrite hsize =>
    rcases hkeep with rfl | ⟨hnone, hP⟩
    · exact hfirst i hd
    · exact hstay _ _ i hnone hP

end CortexLabs.Pcie.HostBridge

import CortexLabs.Device.Memory
import CortexLabs.Pcie.Resource

/-! A host through whose two functions a configuration space is read and written, and the simulated
host, whose base address registers answer a write of all ones with a mask of their size.  The macros
of the header for PCI express are those of Zephyr, for a target of 32 bits. -/

namespace CortexLabs.Pcie.Resource

open Device

abbrev errBdf : Int := -2
abbrev errReg : Int := -3
abbrev errUnsupported : Int := -6

/-! ### The macros -/

abbrev pcieConfBar0 : Word := 4
abbrev pcieConfBar5 : Word := 9

def pcieBdfToDev (bdf : Word) : Word := bdf >>> 11 &&& 0x1f

def pcieBdfToFunc (bdf : Word) : Word := bdf >>> 8 &&& 0x7

abbrev PcieConfBarIo (w : Word) : Prop := w &&& 0x1 = 0x1

abbrev PcieConfBarMem (w : Word) : Prop := w &&& 0x1 ≠ 0x1

abbrev PcieConfBar64 (w : Word) : Prop := w &&& 0x6 = 0x4

def pcieConfBarAddr (w : Word) : Word := w &&& ~~~0xf

def pcieConfBarIoAddr (w : Word) : Word := w &&& ~~~0x3

def pcieConfBarFlags (w : Word) : Word := w &&& 0xf

/-! ### The host -/

/-- The functions of a host, for the state behind its `priv` pointer, `none` when that is NULL.  A
read is given the value of the variable that it reads into. -/
structure LabPcieHostOps (σ : Type) where
  configRead32 : Option (Option σ → Word → Word → Word → Int × Word × Option σ)
  configWrite32 : Option (Option σ → Word → Word → Word → Int × Option σ)

structure LabPcieHost (σ : Type) where
  ops : Option (LabPcieHostOps σ)
  priv : Option σ

def labValidateBdf (bdf : Word) : Int :=
  if pcieBdfToDev bdf > 31 then errBdf else if pcieBdfToFunc bdf > 7 then errBdf else ok

def labValidateReg (reg : Word) : Int :=
  if reg ≥ 64 then errReg else ok

section Host

variable {σ : Type} (host : Option (LabPcieHost σ)) (bdf reg : Word)

/-- `lab_pcie_config_read32`, with `old` the value of the variable that it reads into. -/
def labPcieConfigRead32 (old : Word) : Int × Word × Option (LabPcieHost σ) :=
  match host with
  | none => (errArgument, old, none)
  | some h =>
    match h.ops.bind fun ops => ops.configRead32 with
    | none => (errArgument, old, some h)
    | some configRead32 =>
      if labValidateBdf bdf ≠ ok then (labValidateBdf bdf, old, some h)
      else if labValidateReg reg ≠ ok then (labValidateReg reg, old, some h)
      else
        let (result, value, priv) := configRead32 h.priv bdf reg old
        (result, value, some { h with priv })

def labPcieConfigWrite32 (value : Word) : Int × Option (LabPcieHost σ) :=
  match host with
  | none => (errArgument, none)
  | some h =>
    match h.ops.bind fun ops => ops.configWrite32 with
    | none => (errArgument, some h)
    | some configWrite32 =>
      if labValidateBdf bdf ≠ ok then (labValidateBdf bdf, some h)
      else if labValidateReg reg ≠ ok then (labValidateReg reg, some h)
      else
        let (result, priv) := configWrite32 h.priv bdf reg value
        (result, some { h with priv })

end Host

/-! ### The simulated host -/

structure LabPcieSimBar where
  value : Word
  size : Word
  implemented : Byte
  probing : Byte
  deriving DecidableEq

/-- `struct lab_pcie_sim_function`; `config` is only used below 64, and `bars` below 6. -/
structure LabPcieSimFunction where
  bdf : Word
  present : Byte
  config : Nat → Word
  bars : Nat → LabPcieSimBar

/-- `struct lab_pcie_sim_controller`; `functions` is only used below `functionCount`. -/
structure LabPcieSimController where
  functions : Nat → LabPcieSimFunction
  functionCount : Nat

/-- `sim_find_function`, which finds the function's index. -/
def simFindFunction (controller : LabPcieSimController) (bdf : Word) : Option Nat :=
  (List.range controller.functionCount).find? fun index =>
    (controller.functions index).present ≠ 0 ∧ (controller.functions index).bdf = bdf

def simBarIndex (reg : Word) : Option Nat :=
  if reg < pcieConfBar0 ∨ reg > pcieConfBar5 then none else some (reg - pcieConfBar0).toNat

def simBarProbeValue (bar : LabPcieSimBar) : Word :=
  if bar.implemented = 0 ∨ bar.size = 0 then 0
  else if PcieConfBarIo bar.value then
    (~~~(bar.size - 1) &&& ~~~0x3) ||| (bar.value &&& 0x3)
  else (~~~(bar.size - 1) &&& ~~~0xf) ||| pcieConfBarFlags bar.value

/-- What `sim_config_read32` reads from a base address register. -/
def simBarRead (bar : LabPcieSimBar) : Word :=
  if bar.implemented = 0 then 0
  else if bar.probing ≠ 0 then simBarProbeValue bar
  else bar.value

/-- What `sim_config_write32` makes of a base address register. -/
def simBarWrite (bar : LabPcieSimBar) (value : Word) : LabPcieSimBar :=
  if bar.implemented = 0 then bar
  else if value = 0xffffffff then { bar with probing := 1 }
  else { bar with probing := 0, value := (value &&& ~~~0xf) ||| pcieConfBarFlags bar.value }

namespace LabPcieSimController

/-- The controller with another value of BAR `index` of a function. -/
def setBar (controller : LabPcieSimController) (fn index : Nat) (bar : LabPcieSimBar) :
    LabPcieSimController :=
  let function := controller.functions fn
  let function := { function with bars := Function.update function.bars index bar }
  { controller with functions := Function.update controller.functions fn function }

/-- The controller with another value of a register that is not a BAR. -/
def setConfig (controller : LabPcieSimController) (fn reg : Nat) (value : Word) :
    LabPcieSimController :=
  let function := controller.functions fn
  let function := { function with config := Function.update function.config reg value }
  { controller with functions := Function.update controller.functions fn function }

end LabPcieSimController

def simConfigRead32 (priv : Option LabPcieSimController) (bdf reg old : Word) :
    Int × Word × Option LabPcieSimController :=
  match priv with
  | none => (errArgument, old, none)
  | some controller =>
    match simFindFunction controller bdf with
    | none => (ok, 0xffffffff, some controller)
    | some fn =>
      match simBarIndex reg with
      | some index => (ok, simBarRead ((controller.functions fn).bars index), some controller)
      | none => (ok, (controller.functions fn).config reg.toNat, some controller)

def simConfigWrite32 (priv : Option LabPcieSimController) (bdf reg value : Word) :
    Int × Option LabPcieSimController :=
  match priv with
  | none => (errArgument, none)
  | some controller =>
    match simFindFunction controller bdf with
    | none => (ok, some controller)
    | some fn =>
      match simBarIndex reg with
      | some index =>
        (ok, some (controller.setBar fn index
          (simBarWrite ((controller.functions fn).bars index) value)))
      | none => (ok, some (controller.setConfig fn reg.toNat value))

/-- The host of a simulated controller, with the functions of `g_lab_pcie_sim_host_ops`. -/
def simHost (controller : LabPcieSimController) : Option (LabPcieHost LabPcieSimController) :=
  some ⟨some ⟨some simConfigRead32, some simConfigWrite32⟩, some controller⟩

/-! ### The simulated registers -/

section Registers

variable {controller : LabPcieSimController} {bdf barIndex : Word} {fn : Nat}

/-- The fields that the address of a function is made of have no more bits than they may. -/
theorem labValidateBdf_ok (bdf : Word) : labValidateBdf bdf = ok := by
  have hdev : ¬pcieBdfToDev bdf > 31 := by
    rw [pcieBdfToDev, gt_iff_lt, BitVec.lt_def, BitVec.toNat_and]
    exact Nat.not_lt.mpr Nat.and_le_right
  have hfunc : ¬pcieBdfToFunc bdf > 7 := by
    rw [pcieBdfToFunc, gt_iff_lt, BitVec.lt_def, BitVec.toNat_and]
    exact Nat.not_lt.mpr Nat.and_le_right
  rw [labValidateBdf, if_neg hdev, if_neg hfunc]

theorem bar_register (h : barIndex < 6) : labValidateReg (pcieConfBar0 + barIndex) = ok ∧
    simBarIndex (pcieConfBar0 + barIndex) = some barIndex.toNat := by
  rw [BitVec.lt_def] at h
  have hreg : (pcieConfBar0 + barIndex).toNat = 4 + barIndex.toNat := by
    rw [BitVec.toNat_add, Nat.mod_eq_of_lt]
    · rfl
    · show 4 + barIndex.toNat < 2 ^ 32
      have h6 : barIndex.toNat < 6 := h
      omega
  have h6 : barIndex.toNat < 6 := h
  constructor
  · apply if_neg
    rw [ge_iff_le, BitVec.le_def, hreg]
    show ¬64 ≤ _
    omega
  · have hrange : ¬(pcieConfBar0 + barIndex < pcieConfBar0 ∨
        pcieConfBar0 + barIndex > pcieConfBar5) := by
      rw [gt_iff_lt, BitVec.lt_def, BitVec.lt_def, hreg]
      show ¬(_ < 4 ∨ 9 < _)
      omega
    rw [simBarIndex, if_neg hrange, BitVec.add_comm, BitVec.add_sub_cancel]

/-- A read of a BAR of a function that is present leaves the controller as it is. -/
theorem read_bar (hfn : simFindFunction controller bdf = some fn) (hindex : barIndex < 6)
    (old : Word) : labPcieConfigRead32 (simHost controller) bdf (pcieConfBar0 + barIndex) old =
      (ok, simBarRead ((controller.functions fn).bars barIndex.toNat), simHost controller) := by
  obtain ⟨hreg, hbar⟩ := bar_register hindex
  have hread : simConfigRead32 (some controller) bdf (pcieConfBar0 + barIndex) old =
      (ok, simBarRead ((controller.functions fn).bars barIndex.toNat), some controller) := by
    simp only [simConfigRead32, hfn, hbar]
  simp only [labPcieConfigRead32, simHost, Option.bind_some, labValidateBdf_ok, hreg, hread]
  rfl

theorem write_bar (hfn : simFindFunction controller bdf = some fn) (hindex : barIndex < 6)
    (value : Word) :
    labPcieConfigWrite32 (simHost controller) bdf (pcieConfBar0 + barIndex) value =
      (ok, simHost (controller.setBar fn barIndex.toNat
        (simBarWrite ((controller.functions fn).bars barIndex.toNat) value))) := by
  obtain ⟨hreg, hbar⟩ := bar_register hindex
  have hwrite : simConfigWrite32 (some controller) bdf (pcieConfBar0 + barIndex) value =
      (ok, some (controller.setBar fn barIndex.toNat
        (simBarWrite ((controller.functions fn).bars barIndex.toNat) value))) := by
    simp only [simConfigWrite32, hfn, hbar]
  simp only [labPcieConfigWrite32, simHost, Option.bind_some, labValidateBdf_ok, hreg, hwrite]
  rfl

variable (controller fn) (index : Nat) (bar : LabPcieSimBar)

theorem functions_setBar (other : Nat) :
    ((controller.setBar fn index bar).functions other).present =
      (controller.functions other).present ∧
    ((controller.setBar fn index bar).functions other).bdf = (controller.functions other).bdf := by
  unfold LabPcieSimController.setBar
  dsimp only
  by_cases h : other = fn
  · subst h
    rw [Function.update_self]
    exact ⟨rfl, rfl⟩
  · rw [Function.update_of_ne h]
    exact ⟨rfl, rfl⟩

/-- The same functions are found whatever their BARs hold. -/
@[simp] theorem simFindFunction_setBar (bdf : Word) :
    simFindFunction (controller.setBar fn index bar) bdf = simFindFunction controller bdf := by
  unfold simFindFunction
  congr 1
  funext other
  obtain ⟨hpresent, hbdf⟩ := functions_setBar controller fn index bar other
  rw [hpresent, hbdf]

@[simp] theorem bars_setBar : ((controller.setBar fn index bar).functions fn).bars =
    Function.update (controller.functions fn).bars index bar := by
  unfold LabPcieSimController.setBar
  dsimp only
  rw [Function.update_self]

@[simp] theorem setBar_setBar (bar' : LabPcieSimBar) :
    (controller.setBar fn index bar).setBar fn index bar' = controller.setBar fn index bar' := by
  unfold LabPcieSimController.setBar
  simp

@[simp] theorem setBar_same :
    controller.setBar fn index ((controller.functions fn).bars index) = controller := by
  unfold LabPcieSimController.setBar
  simp

end Registers

end CortexLabs.Pcie.Resource

import CortexLabs.Pcie.Enumeration

/-! The simulated host: functions that `sim_init_function` describes, and whose configuration
registers the enumeration reads.  The description takes a header type, and does not store it. -/

namespace CortexLabs.Pcie.Bus

open Device

/-- `struct pcie_sim_function`; `config` is only used below `PCIE_SIM_CONFIG_DWORDS`, 64. -/
structure PcieSimFunction where
  bdf : PcieBdf
  present : Byte
  config : Nat → Word

/-- `struct pcie_sim_controller`; `functions` is only used below `functionCount`. -/
structure PcieSimController where
  functions : Nat → PcieSimFunction
  functionCount : Nat

def simFindFunction (controller : PcieSimController) (bdf : PcieBdf) : Option PcieSimFunction :=
  ((List.range controller.functionCount).map controller.functions).find? fun fn =>
    fn.present ≠ 0 ∧ fn.bdf.bus = bdf.bus ∧ fn.bdf.device = bdf.device ∧
      fn.bdf.function = bdf.function

/-- `sim_config_read32` of the controller behind the host's `priv`. -/
def simConfigRead32 (controller : PcieSimController) (bdf : PcieBdf) (offset : Half) : Int × Word :=
  match simFindFunction controller bdf with
  | none => (pcieOk, 0xffffffff)
  | some fn => (pcieOk, fn.config (offset >>> 2).toNat)

def simHost (controller : PcieSimController) : PcieHost :=
  ⟨some ⟨some (simConfigRead32 controller)⟩⟩

/-- `sim_init_function`, which writes the whole of the function. -/
def simInitFunction (bus device function : Byte) (vendor deviceId : Half)
    (classCode subclass _headerType : Byte) (bar0 : Word) (irqLine irqPin : Byte) :
    PcieSimFunction :=
  let config : Nat → Word := fun _ => 0
  let config := Function.update config (pcieCfgVendorDevice >>> 2).toNat
    (deviceId.setWidth 32 <<< 16 ||| vendor.setWidth 32)
  let config := Function.update config (pcieCfgClassRevision >>> 2).toNat
    (classCode.setWidth 32 <<< 24 ||| subclass.setWidth 32 <<< 16 ||| 0x01)
  let config := Function.update config (pcieCfgBar0 >>> 2).toNat bar0
  let config := Function.update config (pcieCfgInterrupt >>> 2).toNat
    (irqPin.setWidth 32 <<< 8 ||| irqLine.setWidth 32)
  ⟨⟨bus, device, function⟩, 1, config⟩

def pcieSimControllerInit (controller : PcieSimController) : PcieSimController :=
  let functions := controller.functions
  let functions := Function.update functions 0
    (simInitFunction 0 1 0 0x1234 0x5678 0x02 0x00 0x00 0x50000000 5 1)
  let functions := Function.update functions 1
    (simInitFunction 0 3 0 0xabc 0x1000 0x01 0x06 0x00 0x51000000 7 1)
  let functions := Function.update functions 2
    (simInitFunction 0 5 0 0xcafe 0x0001 0x04 0x01 0x80 0x52000000 9 1)
  let functions := Function.update functions 3
    (simInitFunction 0 5 0 0xcafe 0x0002 0x03 0x00 0x00 0x53000000 10 1)
  ⟨functions, 4⟩

/-! ### What a read finds -/

section Fields

variable (vendor deviceId : Half) (classCode subclass irqLine irqPin : Byte)

theorem vendor_field :
    (deviceId.setWidth 32 <<< 16 ||| vendor.setWidth 32 : Word).extractLsb' 0 16 = vendor := by
  ext i hi
  simp [hi]
  omega

theorem device_field :
    (deviceId.setWidth 32 <<< 16 ||| vendor.setWidth 32 : Word).extractLsb' 16 16 = deviceId := by
  ext i hi
  simp [hi]
  grind

theorem class_field :
    (classCode.setWidth 32 <<< 24 ||| subclass.setWidth 32 <<< 16 ||| 0x01 : Word).extractLsb' 24 8 =
      classCode := by
  ext i hi
  simp [hi]
  grind

theorem subclass_field :
    (classCode.setWidth 32 <<< 24 ||| subclass.setWidth 32 <<< 16 ||| 0x01 : Word).extractLsb' 16 8 =
      subclass := by
  ext i hi
  simp [hi]
  grind

theorem line_field :
    (irqPin.setWidth 32 <<< 8 ||| irqLine.setWidth 32 : Word).extractLsb' 0 8 = irqLine := by
  ext i hi
  simp [hi]
  omega

theorem pin_field :
    (irqPin.setWidth 32 <<< 8 ||| irqLine.setWidth 32 : Word).extractLsb' 8 8 = irqPin := by
  ext i hi
  simp [hi]
  grind

end Fields

/-- The configuration space that a simulated host shows. -/
def simSpace (controller : PcieSimController) : ConfigSpace := fun bdf offset =>
  (simConfigRead32 controller bdf offset).2

theorem simHost_shows (controller : PcieSimController) :
    Shows (simHost controller) (simSpace controller) := by
  refine ⟨_, _, rfl, rfl, fun bdf offset _ => ?_⟩
  simp only [simSpace, simConfigRead32]
  split <;> rfl

/-- What reading the function at `bdf` returns is as the arguments of `sim_init_function` say, and a
device that they say has several functions has all of them scanned. -/
structure Agrees (cfg : ConfigSpace) (bdf : PcieBdf) (vendor device : Half)
    (class' subclass' header : Byte) (bar : Word) (line pin : Byte) (r : Int × PcieDevice) :
    Prop where
  status : r.1 = pcieOk
  vendorId : r.2.vendorId = vendor
  deviceId : r.2.deviceId = device
  classCode : r.2.classCode = class'
  subclass : r.2.subclass = subclass'
  irqLine : r.2.irqLine = line
  irqPin : r.2.irqPin = pin
  headerType : r.2.headerType = header &&& 0x7f
  multifunction : r.2.multifunction = if header.getLsbD 7 then 1 else 0
  bar0 : header &&& 0x7f = 0 → (r.2.bars 0).raw = bar
  scanned : header.getLsbD 7 = true → bdf.function = 0 → ∀ f ∈ List.range' 1 7,
    present cfg ⟨bdf.bus, bdf.device, BitVec.ofNat 8 f⟩ = true →
    ⟨bdf.bus, bdf.device, BitVec.ofNat 8 f⟩ ∈ functions cfg bdf.bus bdf.device

section Found

variable {controller : PcieSimController} {bus : PcieBus} {b d f : Byte} {vendor deviceId : Half}
  {classCode subclass headerType : Byte} {bar0 : Word} {irqLine irqPin : Byte}

theorem headerType_zero (h : headerType &&& 0x7f = 0) (h7 : headerType.getLsbD 7 = false) :
    headerType = 0 := by
  refine BitVec.eq_of_getLsbD_eq fun i hi => ?_
  by_cases he : i = 7
  · rw [he, h7, BitVec.ofNat_eq_ofNat, BitVec.getLsbD_zero]
  · have hbit := congrArg (BitVec.getLsbD · i) h
    have hmask : ∀ i < 7, (0x7f : Byte).getLsbD i = true := by decide
    simpa only [BitVec.getLsbD_and, hmask i (by omega), Bool.and_true] using hbit

/-- The record of a function is as it was described, but for its header type. -/
theorem sim_read (hhost : bus.host = some (simHost controller))
    (hfound : simFindFunction controller ⟨b, d, f⟩ = some (simInitFunction b d f vendor deviceId
      classCode subclass headerType bar0 irqLine irqPin))
    (hd : d ≤ 31) (hf : f ≤ 7) (dev : PcieDevice) :
    Agrees (simSpace controller) ⟨b, d, f⟩ vendor deviceId classCode subclass 0 bar0 irqLine irqPin
      (pcieReadFunction bus ⟨b, d, f⟩ dev) := by
  obtain ⟨dev', hread, hdev⟩ :=
    readFunction_describes (simHost_shows controller) hhost ⟨b, d, f⟩ hd hf dev
  have hspace : ∀ offset, simSpace controller ⟨b, d, f⟩ offset = (simInitFunction b d f vendor
      deviceId classCode subclass headerType bar0 irqLine irqPin).config
        (offset >>> 2).toNat := by
    intro offset
    rw [simSpace, simConfigRead32, hfound]
  have hid : simSpace controller ⟨b, d, f⟩ 0x00 =
      deviceId.setWidth 32 <<< 16 ||| vendor.setWidth 32 := hspace _
  have hclass : simSpace controller ⟨b, d, f⟩ 0x08 =
      classCode.setWidth 32 <<< 24 ||| subclass.setWidth 32 <<< 16 ||| 0x01 := hspace _
  have hheader : simSpace controller ⟨b, d, f⟩ 0x0c = 0 := hspace _
  have hbar : simSpace controller ⟨b, d, f⟩ 0x10 = bar0 := hspace _
  have hirq : simSpace controller ⟨b, d, f⟩ 0x3c =
      irqPin.setWidth 32 <<< 8 ||| irqLine.setWidth 32 := hspace _
  have htype : dev'.headerType = 0 := by
    rw [hdev.headerType, hheader]
    decide
  have hmulti : dev'.multifunction = 0 := by
    rw [hdev.multifunction, hheader]
    rfl
  rw [hread]
  refine ⟨rfl, ?_, ?_, ?_, ?_, ?_, ?_, htype, hmulti, fun _ => ?_, fun h => absurd h (by decide)⟩
  · rw [hdev.vendorId, hid, vendor_field]
  · rw [hdev.deviceId, hid, device_field]
  · rw [hdev.classCode, hclass, class_field]
  · rw [hdev.subclass, hclass, subclass_field]
  · rw [hdev.irqLine, hirq, line_field]
  · rw [hdev.irqPin, hirq, pin_field]
  · exact (hdev.bars htype 0).raw.trans hbar

/-- The simulated host and the enumeration agree on a function that `sim_init_function` described
exactly when it was described with header type 0. -/
theorem sim_agrees (hhost : bus.host = some (simHost controller))
    (hfound : simFindFunction controller ⟨b, d, f⟩ = some (simInitFunction b d f vendor deviceId
      classCode subclass headerType bar0 irqLine irqPin))
    (hd : d ≤ 31) (hf : f ≤ 7) (dev : PcieDevice) :
    Agrees (simSpace controller) ⟨b, d, f⟩ vendor deviceId classCode subclass headerType bar0
      irqLine irqPin (pcieReadFunction bus ⟨b, d, f⟩ dev) ↔ headerType = 0 := by
  have hread := sim_read hhost hfound hd hf dev
  constructor
  · intro h
    refine headerType_zero (h.headerType.symm.trans hread.headerType) ?_
    have hone := h.multifunction.symm.trans hread.multifunction
    split at hone
    · exact absurd hone (by decide)
    · next h7 => simpa using h7
  · rintro rfl
    exact hread

end Found

/-- The controller after `pcie_sim_controller_init`. -/
def simController : PcieSimController :=
  pcieSimControllerInit ⟨fun _ => ⟨⟨0, 0, 0⟩, 0, fun _ => 0⟩, 0⟩

def simBus : PcieBus where
  host := some (simHost simController)
  devices _ := ⟨⟨0, 0, 0⟩, 0, 0, 0, 0, 0, 0, 0, 0, fun _ => ⟨0, 0, 0, 0, 0⟩, 0, 0⟩
  deviceCount := 0

/-- The first function of the controller has header type 0. -/
theorem sim_agrees_first : Agrees (simSpace simController) ⟨0, 1, 0⟩ 0x1234 0x5678 0x02 0x00 0x00
    0x50000000 5 1 (pcieReadFunction simBus ⟨0, 1, 0⟩ (simBus.devices 0)) :=
  (sim_agrees rfl rfl (by decide) (by decide) _).mpr rfl

/-- The third is described with bit 7 of the header type, and its record does not have it. -/
theorem sim_third_single : ¬Agrees (simSpace simController) ⟨0, 5, 0⟩ 0xcafe 0x0001 0x04 0x01 0x80
    0x52000000 9 1 (pcieReadFunction simBus ⟨0, 5, 0⟩ (simBus.devices 0)) := by
  intro h
  have hfound : simFindFunction simController ⟨0, 5, 0⟩ =
      some (simInitFunction 0 5 0 0xcafe 0x0001 0x04 0x01 0x80 0x52000000 9 1) := rfl
  have hread := sim_read (show simBus.host = some (simHost simController) from rfl) hfound
    (by decide) (by decide) (simBus.devices 0)
  exact absurd (h.multifunction.symm.trans hread.multifunction) (by decide)

end CortexLabs.Pcie.Bus

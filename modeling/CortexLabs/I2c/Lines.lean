import CortexLabs.I2c.Master

/-! The two lines.  A line is high unless the master or the target drives it low, so that `true`
stands for a released output as well as for a high line. -/

namespace CortexLabs.I2c

open Device

@[ext] structure Lines where
  sda : Bool
  scl : Bool
  deriving DecidableEq

namespace Lines

def released : Lines := ⟨true, true⟩

/-- The lines that two parties leave high. -/
def and (a b : Lines) : Lines := ⟨a.sda && b.sda, a.scl && b.scl⟩

variable (pins : Pins) (out : Lines)

/-- The outputs of the master after an operation: `CONTROLS` releases lines, and `CONTROLC` drives
them low. -/
def write : Op → Lines
  | .controls mask => ⟨out.sda || mask &&& pins.sda ≠ 0, out.scl || mask &&& pins.scl ≠ 0⟩
  | .controlc mask => ⟨out.sda && mask &&& pins.sda = 0, out.scl && mask &&& pins.scl = 0⟩
  | .control | .load _ | .store _ _ => out

@[simp] theorem write_controls_sda : out.write pins (.controls pins.sda) = ⟨true, out.scl⟩ := by
  have hne : ¬ pins.sda = 0#32 := pins.sda_ne
  simp [write, hne, pins.disjoint]

@[simp] theorem write_controls_scl : out.write pins (.controls pins.scl) = ⟨out.sda, true⟩ := by
  have hne : ¬ pins.scl = 0#32 := pins.scl_ne
  simp [write, hne, BitVec.and_comm pins.scl, pins.disjoint]

@[simp] theorem write_controlc_sda : out.write pins (.controlc pins.sda) = ⟨false, out.scl⟩ := by
  have hne : ¬ pins.sda = 0#32 := pins.sda_ne
  simp [write, hne, pins.disjoint]

@[simp] theorem write_controlc_scl : out.write pins (.controlc pins.scl) = ⟨out.sda, false⟩ := by
  have hne : ¬ pins.scl = 0#32 := pins.scl_ne
  simp [write, hne, BitVec.and_comm pins.scl, pins.disjoint]

@[simp] theorem write_control : out.write pins .control = out := rfl

@[simp] theorem write_load (address : Nat) : out.write pins (.load address) = out := rfl

@[simp] theorem write_store (address : Nat) (value : Byte) :
    out.write pins (.store address value) = out := rfl

end Lines

end CortexLabs.I2c

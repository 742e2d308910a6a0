import CortexLabs.Crc.Register

/-! Registers that shift left.  Such a register is a register that shifts right, read from the other
end: reversing the polynomial and the contents exchanges the two over any number of shifts. -/

namespace CortexLabs.Crc

variable {w : Nat}

/-- One shift of a register that shifts left. -/
def shiftUp (poly c : BitVec w) : BitVec w := if c.msb then c <<< 1 ^^^ poly else c <<< 1

/-- The register after `n` shifts to the left. -/
def shiftsUp (poly : BitVec w) (n : Nat) (c : BitVec w) : BitVec w := Nat.repeat (shiftUp poly) n c

variable {poly c : BitVec w} {n : Nat}

@[simp] theorem shiftsUp_zero : shiftsUp poly 0 c = c := rfl

theorem shiftsUp_succ : shiftsUp poly (n + 1) c = shiftUp poly (shiftsUp poly n c) := rfl

theorem getMsbD_shiftUp (c : BitVec w) (i : Nat) :
    (shiftUp poly c).getMsbD i = (c.getMsbD (i + 1) ^^ (c.getMsbD 0 && poly.getMsbD i)) := by
  rw [shiftUp, BitVec.msb_eq_getMsbD_zero]
  cases c.getMsbD 0 <;> simp

theorem reverse_xor (x y : BitVec w) : (x ^^^ y).reverse = x.reverse ^^^ y.reverse := by
  refine BitVec.eq_of_getLsbD_eq fun i hi => ?_
  simp only [BitVec.getLsbD_reverse, BitVec.getLsbD_xor, BitVec.getMsbD_xor]

/-- A shift to the left, read from the other end. -/
theorem reverse_shiftUp (c : BitVec w) :
    (shiftUp poly c).reverse = shift poly.reverse c.reverse := by
  refine BitVec.eq_of_getLsbD_eq fun i hi => ?_
  rw [BitVec.getLsbD_reverse, getMsbD_shiftUp, getLsbD_shift]
  simp only [BitVec.getLsbD_reverse]

theorem reverse_shiftsUp (n : Nat) (c : BitVec w) :
    (shiftsUp poly n c).reverse = shifts poly.reverse n c.reverse := by
  induction n with
  | zero => rfl
  | succ n ih => rw [shiftsUp_succ, reverse_shiftUp, ih, shifts_succ]

/-- The lowest `n + 1` bits of a word, read from the other end, are the lowest `n` bits read so and
the next bit below them. -/
theorem reverse_ushiftRight_succ (x : BitVec w) (hn : n < w) :
    x.reverse >>> (w - (n + 1)) = (x.reverse >>> (w - n)) <<< 1 ||| (x >>> n &&& 1#w) := by
  have hw : 0 < w := by omega
  refine BitVec.eq_of_getLsbD_eq fun i hi => ?_
  rw [BitVec.getLsbD_or, BitVec.getLsbD_and, BitVec.getLsbD_one, BitVec.getLsbD_shiftLeft]
  simp only [BitVec.getLsbD_ushiftRight, BitVec.getLsbD_reverse]
  cases i with
  | zero =>
    rw [BitVec.getMsbD_eq_getLsbD]
    have hindex : w - 1 - (w - (n + 1) + 0) = n := by omega
    have hinside : w - (n + 1) + 0 < w := by omega
    rw [hindex, decide_eq_true hinside]
    simp [hw]
  | succ i =>
    have hindex : w - (n + 1) + (i + 1) = w - n + i := by omega
    rw [hindex]
    simp [hi]

end CortexLabs.Crc

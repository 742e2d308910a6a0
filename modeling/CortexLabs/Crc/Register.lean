import Mathlib.Tactic.Common

/-! Cyclic redundancy checks of any width and polynomial, computed in a register that shifts right.
The register is linear in its contents and in the bits that are fed to it, and a shift can be undone
when the top bit of the polynomial is set, so that bits that lie within the width of the register
and are not all zero never leave it at zero. -/

namespace CortexLabs.Crc

variable {w : Nat}

/-- One shift of the register. -/
def shift (poly c : BitVec w) : BitVec w := (c >>> 1) ^^^ (if c.getLsbD 0 then poly else 0)

/-- A shift after the bit `b` has been added to the lowest bit. -/
def feed (poly c : BitVec w) (b : Bool) : BitVec w :=
  shift poly (c ^^^ (BitVec.ofBool b).setWidth w)

/-- The register after the first `n` bits of `f`. -/
def feedBits (poly c : BitVec w) (f : Nat → Bool) : Nat → BitVec w
  | 0 => c
  | n + 1 => feed poly (feedBits poly c f n) (f n)

/-- The register after `n` shifts. -/
def shifts (poly : BitVec w) (n : Nat) (c : BitVec w) : BitVec w := Nat.repeat (shift poly) n c

variable {poly c d x : BitVec w} {f g : Nat → Bool} {n : Nat}

@[simp] theorem shifts_zero : shifts poly 0 c = c := rfl

theorem shifts_succ : shifts poly (n + 1) c = shift poly (shifts poly n c) := rfl

@[simp] theorem feedBits_zero : feedBits poly c f 0 = c := rfl

theorem feedBits_succ : feedBits poly c f (n + 1) = feed poly (feedBits poly c f n) (f n) := rfl

theorem getLsbD_shift (c : BitVec w) (i : Nat) :
    (shift poly c).getLsbD i = (c.getLsbD (i + 1) ^^ (c.getLsbD 0 && poly.getLsbD i)) := by
  rw [shift, BitVec.getLsbD_xor, BitVec.getLsbD_ushiftRight, Nat.add_comm 1 i]
  cases c.getLsbD 0 <;> simp

theorem getLsbD_feed (c : BitVec w) (b : Bool) (i : Nat) :
    (feed poly c b).getLsbD i = (c.getLsbD (i + 1) ^^ ((c.getLsbD 0 ^^ b) && poly.getLsbD i)) := by
  by_cases hi : i < w
  · have hzero : 0 < w := by omega
    rw [feed, getLsbD_shift]
    simp [hzero]
  · rw [BitVec.getLsbD_of_ge _ _ (by omega), BitVec.getLsbD_of_ge c _ (by omega),
      BitVec.getLsbD_of_ge poly _ (by omega), Bool.and_false]
    rfl

/-! ### Linearity -/

theorem shift_xor (c d : BitVec w) : shift poly (c ^^^ d) = shift poly c ^^^ shift poly d := by
  refine BitVec.eq_of_getLsbD_eq fun i hi => ?_
  simp only [getLsbD_shift, BitVec.getLsbD_xor, Bool.and_xor_distrib_right, Bool.xor_assoc,
    Bool.xor_left_comm]

theorem shift_nothing : shift poly 0#w = 0#w := by
  simp [shift]

theorem shifts_xor (n : Nat) (c d : BitVec w) :
    shifts poly n (c ^^^ d) = shifts poly n c ^^^ shifts poly n d := by
  induction n with
  | zero => rfl
  | succ n ih => rw [shifts_succ, ih, shift_xor, ← shifts_succ, ← shifts_succ]

theorem feed_xor (c d : BitVec w) (a b : Bool) :
    feed poly (c ^^^ d) (a ^^ b) = feed poly c a ^^^ feed poly d b := by
  refine BitVec.eq_of_getLsbD_eq fun i hi => ?_
  simp only [getLsbD_feed, BitVec.getLsbD_xor, Bool.and_xor_distrib_right, Bool.xor_assoc,
    Bool.xor_left_comm]

/-- What is fed to the register after `c ^^^ d` is what is fed to it after `c` and after `d`. -/
theorem feedBits_xor (c d : BitVec w) (f g : Nat → Bool) (n : Nat) :
    feedBits poly (c ^^^ d) (fun i => f i ^^ g i) n =
      feedBits poly c f n ^^^ feedBits poly d g n := by
  induction n with
  | zero => rfl
  | succ n ih => rw [feedBits_succ, ih, feed_xor, ← feedBits_succ, ← feedBits_succ]

theorem feedBits_congr (h : ∀ i < n, f i = g i) : feedBits poly c f n = feedBits poly c g n := by
  induction n with
  | zero => rfl
  | succ n ih =>
    rw [feedBits_succ, feedBits_succ, h n (by omega), ih fun i hi => h i (by omega)]

theorem feedBits_add (c : BitVec w) (f : Nat → Bool) (m n : Nat) :
    feedBits poly c f (m + n) = feedBits poly (feedBits poly c f m) (fun i => f (m + i)) n := by
  induction n with
  | zero => rfl
  | succ n ih => rw [← Nat.add_assoc, feedBits_succ, ih, feedBits_succ]

/-- Zeros leave an empty register empty. -/
theorem feedBits_nothing (h : ∀ i < n, f i = false) : feedBits poly 0#w f n = 0#w := by
  induction n with
  | zero => rfl
  | succ n ih =>
    rw [feedBits_succ, ih fun i hi => h i (by omega), h n (by omega)]
    simp [feed, shift_nothing]

/-! ### Words -/

/-- A word is added to the register bit by bit, its bits that are still to come shifted down. -/
theorem feedBits_word (c x : BitVec w) (n : Nat) :
    feedBits poly c x.getLsbD n ^^^ (x >>> n) = shifts poly n (c ^^^ x) := by
  induction n with
  | zero => simp
  | succ n ih =>
    rw [shifts_succ, ← ih, feedBits_succ]
    generalize feedBits poly c x.getLsbD n = r
    have hrest : shift poly (r ^^^ (x >>> n)) =
        feed poly r (x.getLsbD n) ^^^ (x >>> (n + 1)) := by
      refine BitVec.eq_of_getLsbD_eq fun i hi => ?_
      simp only [getLsbD_feed, getLsbD_shift, BitVec.getLsbD_xor, BitVec.getLsbD_ushiftRight]
      rw [Nat.add_zero, Nat.add_right_comm, Nat.add_assoc n i 1]
      grind
    rw [hrest]

/-- A word no longer than the bits that are fed. -/
theorem feedBits_whole (hx : x >>> n = 0#w) :
    feedBits poly c x.getLsbD n = shifts poly n (c ^^^ x) := by
  rw [← feedBits_word, hx, BitVec.xor_zero]

/-! ### Bursts -/

/-- The bit that a shift takes out of the register decides the top bit of what is left. -/
theorem shift_eq_zero (hpoly : poly.msb = true) (h : shift poly c = 0#w) : c = 0#w := by
  have hw : 0 < w := by
    rcases Nat.eq_zero_or_pos w with rfl | hpos
    · rw [BitVec.msb_eq_getLsbD_last] at hpoly
      simp at hpoly
    · exact hpos
  have hbit (i : Nat) : (c.getLsbD (i + 1) ^^ (c.getLsbD 0 && poly.getLsbD i)) = false := by
    rw [← getLsbD_shift, h, BitVec.getLsbD_zero]
  have hlow : c.getLsbD 0 = false := by
    have htop := hbit (w - 1)
    rw [BitVec.msb_eq_getLsbD_last] at hpoly
    rw [BitVec.getLsbD_of_ge c _ (by omega), hpoly] at htop
    simpa using htop
  refine BitVec.eq_of_getLsbD_eq fun i hi => ?_
  rw [BitVec.getLsbD_zero]
  cases i with
  | zero => exact hlow
  | succ i =>
    have hnext := hbit i
    rw [hlow] at hnext
    simpa using hnext

theorem shifts_eq_zero (hpoly : poly.msb = true) (h : shifts poly n c = 0#w) : c = 0#w := by
  induction n with
  | zero => exact h
  | succ n ih => exact ih (shift_eq_zero hpoly h)

theorem shifts_inj (hpoly : poly.msb = true) (h : shifts poly n c = shifts poly n d) : c = d := by
  have hzero : shifts poly n (c ^^^ d) = 0#w := by
    rw [shifts_xor, h, BitVec.xor_self]
  exact BitVec.xor_eq_zero_iff.mp (shifts_eq_zero hpoly hzero)

/-- Bits that lie within the width of the register and leave it empty are all zero. -/
theorem feedBits_burst (hpoly : poly.msb = true) {m s : Nat} {e : BitVec m}
    (hburst : ∀ i, e.getLsbD i = true → s ≤ i ∧ i < s + w)
    (h : feedBits poly 0#w e.getLsbD m = 0#w) : e = 0#m := by
  -- the word that begins with the burst
  have hword (i : Nat) :
      ((e >>> s).setWidth w).getLsbD i = (decide (i < w) && e.getLsbD (s + i)) := by
    rw [BitVec.getLsbD_setWidth, BitVec.getLsbD_ushiftRight]
  have hbefore (i : Nat) (hi : i < s) : e.getLsbD i = false := by
    refine Bool.eq_false_iff.mpr fun hset => ?_
    have hfrom := (hburst i hset).1
    omega
  have hafter (i : Nat) (hi : s + w ≤ i) : e.getLsbD i = false := by
    refine Bool.eq_false_iff.mpr fun hset => ?_
    have hto := (hburst i hset).2
    omega
  refine BitVec.eq_of_getLsbD_eq fun i hi => ?_
  rw [BitVec.getLsbD_zero]
  by_cases hs : i < s
  · exact hbefore i hs
  obtain ⟨n, rfl⟩ : ∃ n, m = s + n := ⟨m - s, by omega⟩
  rw [feedBits_add, feedBits_nothing hbefore] at h
  have hsame : feedBits poly 0#w (fun i => e.getLsbD (s + i)) n =
      feedBits poly 0#w ((e >>> s).setWidth w).getLsbD n := by
    refine feedBits_congr fun i hi => ?_
    rw [hword]
    by_cases hlt : i < w
    · rw [decide_eq_true hlt, Bool.true_and]
    · rw [decide_eq_false hlt, Bool.false_and, hafter (s + i) (by omega)]
  have hpast : ((e >>> s).setWidth w) >>> n = 0#w := by
    refine BitVec.eq_of_getLsbD_eq fun i hi => ?_
    rw [BitVec.getLsbD_ushiftRight, hword, BitVec.getLsbD_of_ge e _ (by omega), Bool.and_false,
      BitVec.getLsbD_zero]
  rw [hsame, feedBits_whole hpast, BitVec.zero_xor] at h
  have hzero := shifts_eq_zero hpoly h
  by_cases hw : i < s + w
  · have hbit := hword (i - s)
    rw [hzero, BitVec.getLsbD_zero, decide_eq_true (by omega), Bool.true_and,
      Nat.add_sub_cancel' (by omega)] at hbit
    exact hbit.symm
  · exact hafter i (by omega)

end CortexLabs.Crc

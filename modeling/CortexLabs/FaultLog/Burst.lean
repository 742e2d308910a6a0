import CortexLabs.Crc.Register
import CortexLabs.FaultLog.Usable

/-! The bits of a stored record that its check detects.  The checksum lies behind the words that it
is for, lowest bit first, so that the register of the checksum holds the same value after the body
of each valid record; what is flipped in a body is added to the register. -/

namespace CortexLabs.FaultLog

open Device Crc

/-- The reflected polynomial of CRC-32/ISO-HDLC. -/
abbrev crcPoly : Word := 0xedb88320

/-- The bits of bytes, the lowest of each byte first. -/
def bitOf (p : List Byte) (i : Nat) : Bool := (p.getD (i / 8) 0).getLsbD (i % 8)

theorem bitOf_toList {n : Nat} (p : Vector Byte n) {i : Nat} (hi : i / 8 < n) :
    bitOf p.toList i = p[i / 8].getLsbD (i % 8) := by
  rw [bitOf, List.getD_eq_getElem?_getD, List.getElem?_eq_getElem (by simpa using hi),
    Option.getD_some, Vector.getElem_toList]

theorem crcBit_eq (crc : Word) : crcBit crc = shift crcPoly crc := by
  have hlow : crc &&& 1 = (BitVec.ofBool (crc.getLsbD 0)).setWidth 32 :=
    BitVec.and_one_eq_setWidth_ofBool_getLsbD
  rw [crcBit, shift, hlow]
  cases crc.getLsbD 0 <;> rfl

theorem crcByte_eq (crc : Word) (b : Byte) : crcByte crc b = feedBits crcPoly crc b.getLsbD 8 := by
  have hbits : feedBits crcPoly crc b.getLsbD 8 =
      feedBits crcPoly crc (b.setWidth 32).getLsbD 8 := by
    refine feedBits_congr fun i hi => ?_
    rw [BitVec.getLsbD_setWidth, decide_eq_true (by omega), Bool.true_and]
  have hpast : b.setWidth 32 >>> 8 = 0#32 := by
    refine BitVec.eq_of_getLsbD_eq fun i hi => ?_
    rw [BitVec.getLsbD_ushiftRight, BitVec.getLsbD_setWidth, BitVec.getLsbD_of_ge b _ (by omega),
      Bool.and_false, BitVec.getLsbD_zero]
  rw [hbits, feedBits_whole hpast, crcByte, funext crcBit_eq]
  rfl

/-- The loops of `crc32` feed the bits of the bytes to the register. -/
theorem crcBytes_eq (p : List Byte) (crc : Word) :
    p.foldl crcByte crc = feedBits crcPoly crc (bitOf p) (8 * p.length) := by
  induction p generalizing crc with
  | nil => rfl
  | cons b p ih =>
    have hfirst : feedBits crcPoly crc (bitOf (b :: p)) 8 = crcByte crc b := by
      rw [crcByte_eq]
      refine feedBits_congr fun i hi => ?_
      rw [bitOf, Nat.div_eq_of_lt hi, Nat.mod_eq_of_lt hi]
      rfl
    have hrest : (fun i => bitOf (b :: p) (8 + i)) = bitOf p := by
      funext i
      rw [bitOf, bitOf, show (8 + i) / 8 = i / 8 + 1 by omega, Nat.add_mod_left]
      rfl
    rw [List.foldl_cons, ih, List.length_cons, Nat.mul_succ, Nat.add_comm _ 8, feedBits_add, hfirst,
      hrest]

/-- The register after the body of a record. -/
def bodyRegister (data : Vector Byte slotSize) : Word :=
  (slice data 0 bodySize body_within).toList.foldl crcByte 0xffffffff

/-- The bits of a word that is stored as the bytes `a`, `b`, `c` and `d`. -/
theorem getLsbD_le32 (a b c d : Byte) {i : Nat} (hi : i < 32) :
    (a.setWidth 32 ||| b.setWidth 32 <<< 8 |||
      (c.setWidth 32 <<< 16 ||| d.setWidth 32 <<< 24)).getLsbD i =
      (if i / 8 = 0 then a else if i / 8 = 1 then b else if i / 8 = 2 then c else d).getLsbD
        (i % 8) := by
  simp only [BitVec.getLsbD_or, BitVec.getLsbD_setWidth, BitVec.getLsbD_shiftLeft]
  grind

theorem loadLe32_bits (p : Vector Byte 4) {i : Nat} (hi : i < 32) :
    (loadLe32 p).getLsbD i = bitOf p.toList i := by
  have hbyte : i / 8 = 0 ∨ i / 8 = 1 ∨ i / 8 = 2 ∨ i / 8 = 3 := by omega
  rw [bitOf_toList p (by omega), loadLe32, getLsbD_le32 _ _ _ _ hi]
  rcases hbyte with h | h | h | h <;> simp [h]

/-- A stored word is added to the register as a whole. -/
theorem crcBytes_word (crc : Word) (p : Vector Byte 4) :
    p.toList.foldl crcByte crc = shifts crcPoly 32 (crc ^^^ loadLe32 p) := by
  have hpast : loadLe32 p >>> 32 = 0#32 := by
    refine BitVec.eq_of_getLsbD_eq fun i hi => ?_
    rw [BitVec.getLsbD_ushiftRight, BitVec.getLsbD_of_ge _ _ (by omega), BitVec.getLsbD_zero]
  rw [crcBytes_eq, ← feedBits_whole hpast, Vector.length_toList]
  exact feedBits_congr fun i hi => (loadLe32_bits p hi).symm

/-- The body is the words that the checksum is for and the checksum. -/
theorem body_split (data : Vector Byte slotSize) :
    (slice data 0 bodySize body_within).toList =
      (slice data 0 12 (by decide)).toList ++ (slice data 12 4 (by decide)).toList := by
  refine List.ext_getElem (by simp) fun i hi _ => ?_
  simp only [Vector.getElem_toList, getElem_slice, List.getElem_append, Vector.length_toList]
  split
  · rfl
  · next hfrom =>
    have hindex : 12 + (i - 12) = 0 + i := by omega
    simp only [hindex]

/-- The checksum is right exactly when it leaves its residue in the register. -/
theorem checksum_iff (data : Vector Byte slotSize) :
    loadLe32 (slice data 12 4 (by decide)) = crc32 (slice data 0 12 (by decide)).toList ↔
      bodyRegister data = shifts crcPoly 32 0xffffffff := by
  have htop : crcPoly.msb = true := by decide
  rw [bodyRegister, body_split, List.foldl_append, crcBytes_word, crc32]
  generalize (slice data 0 12 (by decide)).toList.foldl crcByte 0xffffffff = register
  constructor
  · intro h
    rw [h, ← BitVec.xor_assoc, BitVec.xor_self, BitVec.zero_xor]
  · intro h
    have hleft : register ^^^ loadLe32 (slice data 12 4 (by decide)) = 0xffffffff :=
      shifts_inj htop h
    rw [← hleft, ← BitVec.xor_assoc, BitVec.xor_self, BitVec.zero_xor]

/-- The register holds the same value after the body of each valid record. -/
theorem bodyRegister_valid {data : Vector Byte slotSize} (h : recordValid data = true) :
    bodyRegister data = shifts crcPoly 32 0xffffffff := by
  rw [recordValid, Bool.and_eq_true, beq_iff_eq] at h
  exact (checksum_iff data).mp h.2

/-! ### Flipped bits -/

/-- The image with the bits of the body that are in `e` flipped. -/
def flipBits (data : Vector Byte slotSize) (e : BitVec (8 * bodySize)) : Vector Byte slotSize :=
  Vector.ofFn fun j =>
    if j.val < bodySize then data[j] ^^^ (e >>> (8 * j.val)).setWidth 8 else data[j]

theorem getElem_flipBits (data : Vector Byte slotSize) (e : BitVec (8 * bodySize)) {j : Nat}
    (hj : j < bodySize) (hslot : j < slotSize) :
    (flipBits data e)[j] = data[j] ^^^ (e >>> (8 * j)).setWidth 8 := by
  rw [flipBits, Vector.getElem_ofFn, if_pos hj]
  rfl

/-- What is flipped in the body is added to the register. -/
theorem bodyRegister_flipBits (data : Vector Byte slotSize) (e : BitVec (8 * bodySize)) :
    bodyRegister (flipBits data e) =
      bodyRegister data ^^^ feedBits crcPoly 0#32 e.getLsbD (8 * bodySize) := by
  have hflip : ∀ i < 8 * bodySize,
      bitOf (slice (flipBits data e) 0 bodySize body_within).toList i =
        (bitOf (slice data 0 bodySize body_within).toList i ^^ e.getLsbD i) := by
    intro i hi
    have hbyte : i / 8 < bodySize := by omega
    have hbit : i % 8 < 8 := Nat.mod_lt i (by decide)
    rw [bitOf_toList _ hbyte, bitOf_toList _ hbyte, getElem_slice, getElem_slice]
    simp only [Nat.zero_add]
    rw [getElem_flipBits data e hbyte _, BitVec.getLsbD_xor, BitVec.getLsbD_setWidth,
      BitVec.getLsbD_ushiftRight, decide_eq_true hbit, Bool.true_and, Nat.div_add_mod]
  rw [bodyRegister, bodyRegister, crcBytes_eq, crcBytes_eq, Vector.length_toList,
    Vector.length_toList, feedBits_congr hflip, ← feedBits_xor, BitVec.xor_zero]

/-- A burst of at most 32 bits makes a valid record invalid. -/
theorem recordValid_flipBits {data : Vector Byte slotSize} (h : recordValid data = true)
    {e : BitVec (8 * bodySize)} (hsome : e ≠ 0#_) {s : Nat}
    (hburst : ∀ i, e.getLsbD i = true → s ≤ i ∧ i < s + 32) :
    recordValid (flipBits data e) = false := by
  refine Bool.eq_false_iff.mpr fun hvalid => hsome ?_
  have htop : crcPoly.msb = true := by decide
  have hsame := (bodyRegister_valid hvalid).trans (bodyRegister_valid h).symm
  have hempty : feedBits crcPoly 0#32 e.getLsbD (8 * bodySize) = 0#32 := by
    rw [bodyRegister_flipBits] at hsame
    calc feedBits crcPoly 0#32 e.getLsbD (8 * bodySize)
        = bodyRegister data ^^^ (bodyRegister data ^^^
            feedBits crcPoly 0#32 e.getLsbD (8 * bodySize)) := by
          rw [← BitVec.xor_assoc, BitVec.xor_self, BitVec.zero_xor]
      _ = 0#32 := by rw [hsame, BitVec.xor_self]
  exact feedBits_burst htop hburst hempty

/-- The check detects every burst of at most 32 bits in the record that an append has written. -/
theorem burst_detected (m : Memory) (slot : Nat) (sequence code : Word) {e : BitVec (8 * bodySize)}
    (hsome : e ≠ 0#_) {s : Nat} (hburst : ∀ i, e.getLsbD i = true → s ≤ i ∧ i < s + 32) :
    recordValid (flipBits (slotOf (appendedImage m slot (bodyOf sequence code)) slot) e) = false :=
  recordValid_flipBits (appended_record m slot sequence code).1 hsome hburst

/-- One bit of the fault code. -/
theorem burst_detected_bit : recordValid (flipBits
    (slotOf (appendedImage (fun _ => 0xff) 3 (bodyOf 12 42)) 3) (BitVec.twoPow _ 77)) = false := by
  have hsome : BitVec.twoPow (8 * bodySize) 77 ≠ 0#_ := by decide
  refine burst_detected _ _ _ _ hsome (s := 77) fun i hi => ?_
  rw [BitVec.getLsbD_twoPow, Bool.and_eq_true, decide_eq_true_iff, decide_eq_true_iff] at hi
  omega

end CortexLabs.FaultLog

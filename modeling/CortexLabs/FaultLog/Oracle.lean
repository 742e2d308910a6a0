import CortexLabs.Crc.Reflection
import CortexLabs.FaultLog.Burst

/-! The checksum that the test suite computes for itself, in a register that shifts left over bytes
whose bits have been reversed, and the body that it expects of an append. -/

namespace CortexLabs.FaultLog

open Device Crc

/-- One turn of the loop of `reverse32`, on `r` and `n`. -/
def reverseBit (s : Word × Word) : Word × Word := (s.1 <<< 1 ||| (s.2 &&& 1), s.2 >>> 1)

def reverse32 (n : Word) : Word := (Nat.repeat reverseBit 32 (0, n)).1

/-- One step of the inner loop of `oracle_crc`. -/
def oracleBit (c : Word) : Word :=
  if c &&& 0x80000000 ≠ 0 then c <<< 1 ^^^ 0x04c11db7 else c <<< 1

/-- One step of the outer loop of `oracle_crc`. -/
def oracleByte (c : Word) (b : Byte) : Word :=
  Nat.repeat oracleBit 8 (c ^^^ reverse32 (b.setWidth 32))

def oracleCrc (p : List Byte) : Word := reverse32 (p.foldl oracleByte 0xffffffff) ^^^ 0xffffffff

def put32 (n : Word) : Vector Byte 4 := Vector.ofFn fun i => (n >>> (8 * i.val)).setWidth 8

theorem words_within : 0 + 12 ≤ bodySize := by decide

/-- `body_for`: what becomes of the bytes of `body`. -/
def bodyFor (body : Vector Byte bodySize) (seq code : Word) : Vector Byte bodySize :=
  let body := patch body 0 magic
  let body := patch body 4 (put32 seq)
  let body := patch body 8 (put32 code)
  patch body 12 (put32 (oracleCrc (slice body 0 12 words_within).toList))

/-! ### Reversed words -/

/-- After `k` turns, `r` holds the lowest `k` bits in reverse order. -/
theorem reverse32_loop (n : Word) {k : Nat} (hk : k ≤ 32) :
    Nat.repeat reverseBit k (0, n) = (n.reverse >>> (32 - k), n >>> k) := by
  induction k with
  | zero =>
    have hnone : n.reverse >>> 32 = 0#32 := BitVec.ushiftRight_eq_zero (Nat.le_refl 32)
    rw [hnone]
    rfl
  | succ k ih =>
    have hless : k < 32 := by omega
    show reverseBit (Nat.repeat reverseBit k (0, n)) = _
    rw [ih (by omega), reverse_ushiftRight_succ n hless, BitVec.shiftRight_add]
    rfl

theorem reverse32_eq (n : Word) : reverse32 n = n.reverse := by
  rw [reverse32, reverse32_loop n (Nat.le_refl 32)]
  exact BitVec.ushiftRight_zero _

/-! ### The registers -/

theorem crcPoly_eq : crcPoly = BitVec.reverse (0x04c11db7 : Word) := by decide +kernel

theorem oracleBit_eq (c : Word) : oracleBit c = shiftUp 0x04c11db7 c := by
  have hmask : c &&& 0x80000000 = if c.msb then BitVec.twoPow 32 31 else 0 := by
    rw [BitVec.msb_eq_getLsbD_last]
    exact BitVec.and_twoPow c 31
  rw [oracleBit, shiftUp, hmask]
  cases c.msb <;> rfl

/-- One byte takes registers that are each other's reverse to such registers. -/
theorem oracleByte_reverse (c : Word) (b : Byte) :
    crcByte c.reverse b = (oracleByte c b).reverse := by
  rw [oracleByte, funext oracleBit_eq, reverse32_eq, crcByte, funext crcBit_eq, crcPoly_eq]
  show shifts _ 8 _ = (shiftsUp _ 8 _).reverse
  rw [reverse_shiftsUp, reverse_xor, BitVec.reverse_reverse_eq]

/-- The loops of `crc32` keep the reverse of what those of `oracle_crc` keep. -/
theorem oracleBytes_reverse (p : List Byte) (c : Word) :
    p.foldl crcByte c.reverse = (p.foldl oracleByte c).reverse :=
  List.foldl_hom BitVec.reverse oracleByte_reverse

/-- At the end, the reverse of the one register is the other. -/
theorem oracleRegister_eq (p : List Byte) :
    reverse32 (p.foldl oracleByte 0xffffffff) = p.foldl crcByte 0xffffffff := by
  have hstart : BitVec.reverse (0xffffffff : Word) = 0xffffffff := by decide +kernel
  rw [reverse32_eq, ← oracleBytes_reverse, hstart]

/-- For all bytes, `crc32` is the checksum of the test suite. -/
theorem crc32_eq_oracleCrc (p : List Byte) : crc32 p = oracleCrc p := by
  rw [crc32, oracleCrc, oracleRegister_eq]

-- the check value of CRC-32/ISO-HDLC, for the digits 1 to 9
example : oracleCrc [0x31, 0x32, 0x33, 0x34, 0x35, 0x36, 0x37, 0x38, 0x39] = 0xcbf43926 := by
  decide +kernel

/-! ### The expected body -/

/-- The body that the test suite expects is the one that `fault_log_append` builds, whatever the
buffer held before. -/
theorem bodyFor_eq (body : Vector Byte bodySize) (seq code : Word) :
    bodyFor body seq code = bodyOf seq code := by
  have hnothing : ∀ i (hi : i < bodySize), i < 0 → body[i] = (Vector.replicate bodySize 0)[i] :=
    fun i _ hi => absurd hi (Nat.not_lt_zero i)
  have hmagic := patch_agree magic hnothing
  have hseq := patch_agree (storeLe32 seq) hmagic
  have hcode := patch_agree (storeLe32 code) hseq
  have hput : put32 = storeLe32 := rfl
  rw [bodyFor, bodyOf, hput]
  generalize patch (patch (patch body 0 magic) 4 (storeLe32 seq)) 8 (storeLe32 code) = expected
    at hcode ⊢
  generalize patch (patch (patch (Vector.replicate bodySize 0) 0 magic) 4 (storeLe32 seq)) 8
    (storeLe32 code) = built at hcode ⊢
  have hhead : slice expected 0 12 words_within = slice built 0 12 words_within := by
    refine Vector.ext fun i hi => ?_
    have hbody : 0 + i < bodySize := Nat.lt_of_lt_of_le (by omega) words_within
    rw [getElem_slice, getElem_slice]
    exact hcode (0 + i) hbody (by omega)
  have hchecksum : oracleCrc (slice expected 0 12 words_within).toList =
      crc32 (slice built 0 12 words_within).toList := by
    rw [hhead, oracleCrc, oracleRegister_eq, crc32]
  rw [hchecksum]
  exact Vector.ext fun i hi => patch_agree _ hcode i hi hi

end CortexLabs.FaultLog

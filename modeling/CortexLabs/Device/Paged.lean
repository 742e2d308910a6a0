import CortexLabs.Device.Memory

/-! Arrays of cells that are written page by page and read in a ring.  A write goes on at the start
of its page when it reaches the end of it, and a read goes on at the start of the array. -/

namespace CortexLabs.Device

namespace Memory

/-- The cell that is written after `a`. -/
def nextInPage (pageSize a : Nat) : Nat :=
  if (a + 1) % pageSize = 0 then a + 1 - pageSize else a + 1

/-- The cells after a write from `a` on, and the cell that comes next. -/
def writePage (pageSize : Nat) : Memory → Nat → List Byte → Memory × Nat
  | m, a, [] => (m, a)
  | m, a, b :: bs => writePage pageSize (Function.update m a b) (nextInPage pageSize a) bs

/-- The `len` cells from `a` on, of `size` cells. -/
def readRing (size : Nat) (m : Memory) (a len : Nat) : Vector Byte len :=
  Vector.ofFn fun k => m ((a + k.val) % size)

variable {pageSize size : Nat} {m : Memory}

theorem nextInPage_inside {a : Nat} (h : a % pageSize + 1 < pageSize) :
    nextInPage pageSize a = a + 1 ∧ (a + 1) % pageSize = a % pageSize + 1 := by
  have hmod : (a + 1) % pageSize = a % pageSize + 1 := by
    rw [Nat.add_mod, Nat.mod_eq_of_lt (a := 1) (by omega)]
    exact Nat.mod_eq_of_lt h
  refine ⟨?_, hmod⟩
  unfold nextInPage
  rw [if_neg (by omega)]

/-- A write that keeps to its page changes the cells from its address on, and no others. -/
theorem writePage_inside {a : Nat} {data : List Byte} (h : a % pageSize + data.length ≤ pageSize)
    (x : Nat) :
    (writePage pageSize m a data).1 x =
      if a ≤ x ∧ x < a + data.length then data.getD (x - a) 0 else m x := by
  induction data generalizing m a with
  | nil =>
    rw [if_neg (by rw [List.length_nil]; omega)]
    rfl
  | cons b bs ih =>
    rw [List.length_cons] at h ⊢
    rw [writePage]
    rcases bs with _ | ⟨c, cs⟩
    · -- the last byte, after which the page may be at its end
      show Function.update m a b x = _
      by_cases hx : x = a
      · rw [hx, Function.update_self, if_pos (by omega), Nat.sub_self]
        rfl
      · rw [Function.update_of_ne hx, if_neg (by rw [List.length_nil]; omega)]
    · have hinside : a % pageSize + 1 < pageSize := by
        rw [List.length_cons] at h
        omega
      obtain ⟨hnext, hmod⟩ := nextInPage_inside hinside
      rw [hnext, ih (by omega)]
      by_cases hx : x = a
      · rw [hx, if_neg (by omega), Function.update_self, if_pos (by omega), Nat.sub_self]
        rfl
      · rw [Function.update_of_ne hx]
        by_cases hin : a + 1 ≤ x ∧ x < a + 1 + (c :: cs).length
        · rw [if_pos hin, if_pos (by omega), show x - a = x - (a + 1) + 1 by omega]
          rfl
        · rw [if_neg hin, if_neg (by omega)]

/-- A write that keeps to its page is a write of the memory. -/
theorem writePage_eq_write {a p len : Nat} {source : Memory}
    (h : a % pageSize + len ≤ pageSize) :
    (writePage pageSize m a (source.bytes p len)).1 = m.write a (source.read p len) := by
  have hlen : (source.bytes p len).length = len := by simp [bytes]
  funext x
  rw [writePage_inside (by rw [hlen]; exact h), hlen, write]
  by_cases hx : a ≤ x ∧ x < a + len
  · have hk : x - a < len := by omega
    rw [if_pos hx, dif_pos hx, getElem_read]
    simp [bytes, hk]
  · rw [if_neg hx, dif_neg hx]

/-- A read that does not reach the end of the array. -/
theorem readRing_inside {a len : Nat} (h : a + len ≤ size) :
    readRing size m a len = m.read a len := by
  refine Vector.ext fun k hk => ?_
  unfold readRing
  rw [Vector.getElem_ofFn, getElem_read, Nat.mod_eq_of_lt (by omega)]

/-- The number whose bytes are `bytes`, the highest first. -/
def bigEndian (bytes : List Byte) : Nat := bytes.foldl (fun n b => 256 * n + b.toNat) 0

theorem bytes_add (m : Memory) (start a b : Nat) :
    m.bytes start (a + b) = m.bytes start a ++ m.bytes (start + a) b := by
  induction b with
  | zero => simp
  | succ b ih => rw [← Nat.add_assoc, bytes_succ, ih, bytes_succ, List.append_assoc, Nat.add_assoc]

end Memory

end CortexLabs.Device

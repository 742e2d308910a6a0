import Mathlib.Data.Vector.Defs
import Mathlib.Tactic.Common

/-! Byte memories: reads and writes of ranges, and the writes that a power failure or a faulty part
leaves incomplete, where each byte of the range holds its old or its new value. -/

namespace CortexLabs.Device

abbrev Byte := BitVec 8

abbrev Word := BitVec 32

/-- Bytes `start` to `start + len - 1` of `data`. -/
def slice {n : Nat} (data : Vector Byte n) (start len : Nat) (h : start + len ≤ n) :
    Vector Byte len :=
  Vector.ofFn fun i => data[start + i.val]

@[simp] theorem getElem_slice {n start len : Nat} (data : Vector Byte n) (h : start + len ≤ n)
    (i : Nat) (hi : i < len) : (slice data start len h)[i] = data[start + i] := by
  simp [slice]

/-- `data` with the bytes of `part` from `start` on. -/
def patch {n len : Nat} (data : Vector Byte n) (start : Nat) (part : Vector Byte len) :
    Vector Byte n :=
  Vector.ofFn fun i =>
    if h : start ≤ i.val ∧ i.val < start + len then part[i.val - start] else data[i]

theorem slice_patch_self {n start len : Nat} (data : Vector Byte n) (part : Vector Byte len)
    (h : start + len ≤ n) : slice (patch data start part) start len h = part := by
  refine Vector.ext fun i hi => ?_
  simp [patch, hi]

theorem slice_patch_other {n start len a k : Nat} (data : Vector Byte n) (part : Vector Byte len)
    (h : a + k ≤ n) (ha : a + k ≤ start ∨ start + len ≤ a) :
    slice (patch data start part) a k h = slice data a k h := by
  refine Vector.ext fun i hi => ?_
  simp only [getElem_slice, patch, Vector.getElem_ofFn, Fin.getElem_fin]
  rw [dif_neg (by omega)]

/-- Patches that follow one another leave the same bytes, whatever they are laid over. -/
theorem patch_agree {n start len : Nat} {a b : Vector Byte n} (part : Vector Byte len)
    (h : ∀ i (hi : i < n), i < start → a[i] = b[i]) (i : Nat) (hi : i < n) (hlt : i < start + len) :
    (patch a start part)[i] = (patch b start part)[i] := by
  simp only [patch, Vector.getElem_ofFn, Fin.getElem_fin]
  by_cases hfrom : start ≤ i
  · rw [dif_pos ⟨hfrom, hlt⟩, dif_pos ⟨hfrom, hlt⟩]
  · rw [dif_neg (by omega), dif_neg (by omega)]
    exact h i hi (by omega)

abbrev Memory := Nat → Byte

namespace Memory

/-- The `len` bytes from `start` on. -/
def read (m : Memory) (start len : Nat) : Vector Byte len :=
  Vector.ofFn fun i => m (start + i.val)

/-- `m` with `data` from `start` on. -/
def write {len : Nat} (m : Memory) (start : Nat) (data : Vector Byte len) : Memory := fun a =>
  if h : start ≤ a ∧ a < start + len then data[a - start] else m a

/-- The `len` bytes from `start` on, as a list. -/
def bytes (m : Memory) (start len : Nat) : List Byte := (List.range len).map fun i => m (start + i)

/-- `m'` is what a write of `data` from `start` on may leave of `m` when it does not complete:
each byte of the range is old or new. -/
def Torn {len : Nat} (m : Memory) (start : Nat) (data : Vector Byte len) (m' : Memory) : Prop :=
  ∀ a, m' a = m a ∨ m' a = m.write start data a

variable {m m' : Memory} {start len : Nat}

@[simp] theorem getElem_read (m : Memory) (start len i : Nat) (hi : i < len) :
    (m.read start len)[i] = m (start + i) := by
  simp [read]

theorem read_eq_iff {data : Vector Byte len} :
    m.read start len = data ↔ ∀ i (hi : i < len), m (start + i) = data[i] := by
  constructor
  · rintro rfl i hi
    simp
  · intro h
    refine Vector.ext fun i hi => ?_
    simpa using h i hi

theorem read_congr (h : ∀ i < len, m' (start + i) = m (start + i)) :
    m'.read start len = m.read start len := by
  refine Vector.ext fun i hi => ?_
  simpa using h i hi

theorem slice_read {a n off : Nat} (h : off + len ≤ n) :
    slice (m.read a n) off len h = m.read (a + off) len := by
  refine Vector.ext fun i hi => ?_
  simp [Nat.add_assoc]

@[simp] theorem bytes_zero (m : Memory) (start : Nat) : m.bytes start 0 = [] := rfl

theorem bytes_succ (m : Memory) (start len : Nat) :
    m.bytes start (len + 1) = m.bytes start len ++ [m (start + len)] := by
  rw [bytes, bytes, List.range_succ, List.map_append]
  rfl

theorem bytes_congr (h : ∀ i < len, m' (start + i) = m (start + i)) :
    m'.bytes start len = m.bytes start len :=
  List.map_congr_left fun i hi => h i (List.mem_range.mp hi)

theorem write_outside {data : Vector Byte len} {a : Nat} (h : a < start ∨ start + len ≤ a) :
    m.write start data a = m a := by
  rw [write, dif_neg (by omega)]

theorem write_inside {data : Vector Byte len} {i : Nat} (hi : i < len) :
    m.write start data (start + i) = data[i] := by
  rw [write, dif_pos (by omega)]
  simp

theorem read_write (m : Memory) (start : Nat) (data : Vector Byte len) :
    (m.write start data).read start len = data :=
  read_eq_iff.mpr fun _ hi => write_inside hi

theorem Torn.write (m : Memory) (start : Nat) (data : Vector Byte len) :
    Torn m start data (m.write start data) := fun _ => .inr rfl

theorem Torn.refl (m : Memory) (start : Nat) (data : Vector Byte len) : Torn m start data m :=
  fun _ => .inl rfl

namespace Torn

variable {data : Vector Byte len}

theorem outside (h : Torn m start data m') {a : Nat} (ha : a < start ∨ start + len ≤ a) :
    m' a = m a := by
  rcases h a with h | h
  · exact h
  · rw [h, write_outside ha]

theorem inside (h : Torn m start data m') {i : Nat} (hi : i < len) :
    m' (start + i) = m (start + i) ∨ m' (start + i) = data[i] := by
  rcases h (start + i) with h | h
  · exact .inl h
  · exact .inr (by rw [h, write_inside hi])

theorem read_outside (h : Torn m start data m') {a n : Nat}
    (ha : a + n ≤ start ∨ start + len ≤ a) : m'.read a n = m.read a n :=
  read_congr fun i hi => h.outside (by omega)

end Torn

end Memory

end CortexLabs.Device

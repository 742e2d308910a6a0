import CortexLabs.BootLog.Model
import Mathlib.Order.Interval.Finset.Nat
import Mathlib.Data.Nat.Count

/-! The region of a log: its slots, erased or occupied, in an image of the flash; how a faulty
flash reacts to the logger's operations; and the offsets that an accepted geometry admits, which
are those of the slots, since no intermediate value leaves its type. -/

namespace CortexLabs.BootLog

open Device

/-- The values that hold up to a count are counted by it. -/
theorem lt_count_iff {p : Nat → Prop} [DecidablePred p] {c : Nat}
    (h : ∀ i j, i ≤ j → j < c → p j → p i) : ∀ k < c, p k ↔ k < Nat.count p c := by
  induction c with
  | zero => exact fun k hk => absurd hk (Nat.not_lt_zero k)
  | succ c ih =>
    have ih := ih fun i j hij hj => h i j hij (by omega)
    rw [Nat.count_succ]
    by_cases hc : p c
    · have hall : ∀ k < c, p k := fun k hk => h k c (by omega) (by omega) hc
      rw [if_pos hc, Nat.count_iff_forall.mpr hall]
      intro k hk
      exact ⟨fun _ => hk, fun _ => h k c (by omega) (by omega) hc⟩
    · rw [if_neg hc, Nat.add_zero]
      intro k hk
      rcases Nat.lt_succ_iff_lt_or_eq.mp hk with hk | rfl
      · exact ih k hk
      · have := Nat.count_le (p := p) (n := k)
        exact ⟨fun hp => absurd hp hc, fun hlt => by omega⟩

/-- The part of a flash that a log may use. -/
structure Region where
  base : Nat
  capacity : Nat
  eraseValue : Byte

namespace Region

variable (r : Region) (m : Memory)

def slot (k : Nat) : Record := m.read (r.base + k * recordSize) recordSize

/-- All bytes of a slot are the erase value. -/
def Erased (k : Nat) : Prop :=
  ∀ i < recordSize, m (r.base + k * recordSize + i) = r.eraseValue

instance : DecidablePred (r.Erased m) := fun k =>
  inferInstanceAs (Decidable (∀ i < recordSize, m (r.base + k * recordSize + i) = r.eraseValue))

/-- The occupied slots form a prefix. -/
def Prefix : Prop := ∀ i j, i ≤ j → j < r.capacity → ¬r.Erased m j → ¬r.Erased m i

def occupied : Nat := Nat.count (fun k => ¬r.Erased m k) r.capacity

/-- The occupied slots are the first `n`. -/
structure Filled (n : Nat) : Prop where
  bound : n ≤ r.capacity
  occupied : ∀ k < r.capacity, ¬r.Erased m k ↔ k < n

variable {r m} {m' : Memory} {n : Nat}

/-- The check of the logger finds out whether a slot is erased. -/
theorem erased_iff {k : Nat} : r.Erased m k ↔ isErased (r.slot m k) r.eraseValue = true := by
  rw [isErased, Vector.all_eq_true]
  simp [Erased, slot]

theorem Prefix.filled (h : r.Prefix m) : r.Filled m (r.occupied m) :=
  ⟨Nat.count_le _, lt_count_iff h⟩

theorem Filled.toPrefix (h : r.Filled m n) : r.Prefix m := by
  intro i j hij hj hocc
  have hlt := (h.occupied j hj).mp hocc
  exact (h.occupied i (by omega)).mpr (by omega)

theorem Filled.erased (h : r.Filled m n) {k : Nat} (hk : k < r.capacity) :
    r.Erased m k ↔ n ≤ k := by
  rw [← not_iff_not, h.occupied k hk, Nat.not_le]

theorem Filled.unique {n' : Nat} (h : r.Filled m n) (h' : r.Filled m n') : n = n' := by
  rcases Nat.lt_trichotomy n n' with hlt | heq | hlt
  · have hn : n < r.capacity := Nat.lt_of_lt_of_le hlt h'.bound
    exact absurd ((h.occupied n hn).mp ((h'.occupied n hn).mpr hlt)) (Nat.lt_irrefl n)
  · exact heq
  · have hn : n' < r.capacity := Nat.lt_of_lt_of_le hlt h.bound
    exact absurd ((h'.occupied n' hn).mp ((h.occupied n' hn).mpr hlt)) (Nat.lt_irrefl n')

/-- `m'` differs from `m` only in the `len` bytes from `start` on. -/
def Within (m : Memory) (start len : Nat) (m' : Memory) : Prop :=
  ∀ a, a < start ∨ start + len ≤ a → m' a = m a

theorem slot_within {k j : Nat} (h : Within m (r.base + k * recordSize) recordSize m')
    (hne : j ≠ k) : r.slot m' j = r.slot m j := by
  refine Memory.read_congr fun i hi => h _ ?_
  simp only [recordSize] at hi ⊢
  omega

/-- Whatever a write leaves in the first erased slot, the occupied slots are a prefix, which has
grown by that slot unless the write left it erased. -/
theorem Filled.write (h : r.Filled m n) (hn : n < r.capacity)
    (hw : Within m (r.base + n * recordSize) recordSize m') :
    r.Filled m' (if r.Erased m' n then n else n + 1) := by
  have hother : ∀ k, k ≠ n → (r.Erased m' k ↔ r.Erased m k) := by
    intro k hne
    rw [erased_iff, erased_iff, slot_within hw hne]
  refine ⟨by split <;> omega, fun k hk => ?_⟩
  by_cases hkn : k = n
  · subst hkn
    split
    · next he => exact ⟨fun hne => absurd he hne, fun hlt => absurd hlt (Nat.lt_irrefl k)⟩
    · next he => exact ⟨fun _ => Nat.lt_succ_self k, fun _ => he⟩
  · rw [hother k hkn, h.occupied k hk]
    split <;> omega

/-- Where every byte is the erase value, no slot is occupied. -/
theorem filled_erased (r : Region) : r.Filled (fun _ => r.eraseValue) 0 := by
  refine ⟨Nat.zero_le _, fun k _ => ⟨fun hocc => ?_, nofun⟩⟩
  exact absurd (fun _ _ => rfl) hocc

end Region

/-! ### A faulty flash -/

/-- A flash whose reads return the stored bytes or an error, and whose writes leave any bytes in
their target and nothing else changed, whether they fail, succeed or are cut. -/
abbrev flash : Behavior Op Ans where
  State := Memory
  answer m
    | .ready, _, m' => m' = m
    | .read offset len, (rc, data), m' => m' = m ∧ (rc = 0 → data = m.read offset.toNat len)
    | .write offset len _, _, m' => Region.Within m offset.toNat len m'
  torn m
    | .ready, m' => m' = m
    | .read _ _, m' => m' = m
    | .write offset len _, m' => Region.Within m offset.toNat len m'

def faultFree : (o : Op) → Memory → Ans o × Memory
  | .ready, m => (true, m)
  | .read offset len, m => (((0 : Int), m.read offset.toNat len), m)
  | .write offset _ data, m => ((0 : Int), m.write offset.toNat data)

theorem faultFree_handles : Handles flash faultFree := by
  intro m o
  cases o with
  | ready => rfl
  | read offset len => exact ⟨rfl, fun _ => rfl⟩
  | write offset len data => exact fun a ha => Memory.write_outside ha

/-! ### Geometry -/

/-- The arguments that the checks of `boot_log_init` accept. -/
structure Geometry (abi : Abi) (dev : Dev) (base : Int) (regionSize : Nat) : Prop where
  nonneg : 0 ≤ base
  nonempty : recordSize ≤ regionSize
  whole : regionSize % recordSize = 0
  baseFits : base.toNat ≤ abi.offMax
  sizeFits : regionSize ≤ abi.offMax - base.toNat
  block : dev.writeBlockSize ≠ 0
  recordBlocks : recordSize % dev.writeBlockSize = 0
  baseBlocks : base.toNat % dev.writeBlockSize = 0

theorem Abi.toOff_of_le {abi : Abi} {n : Nat} (h : n ≤ abi.offMax) : abi.toOff n = n := by
  have hlt : n * 2 < 2 ^ abi.off.bits := by
    obtain ⟨off, size⟩ := abi
    cases off <;> simp [Abi.offMax, Width.bits] at h ⊢ <;> omega
  exact Int.bmod_eq_of_le_mul_two (by omega) (by exact_mod_cast hlt)

theorem Geometry.slotOffset_eq {abi : Abi} {dev : Dev} {base : Int} {regionSize : Nat}
    (h : Geometry abi dev base regionSize) (hsize : regionSize < 2 ^ abi.size.bits)
    {log : Context} (hbase : log.base = base) {k : Nat} (hk : k < regionSize / recordSize) :
    slotOffset abi log k = (base.toNat + k * recordSize : Nat) := by
  have hend : k * recordSize < regionSize := by
    have := h.whole
    simp only [recordSize] at hk this ⊢
    omega
  have hfits := h.sizeFits
  have hfits0 := h.baseFits
  have hnonneg := h.nonneg
  have hindex : abi.toSize (k * recordSize) = k * recordSize := Nat.mod_eq_of_lt (by omega)
  have hproduct : abi.toOff (k * recordSize : Nat) = (k * recordSize : Nat) :=
    Abi.toOff_of_le (by omega)
  have hsum : log.base + (k * recordSize : Nat) = (base.toNat + k * recordSize : Nat) := by
    omega
  show abi.toOff (log.base + abi.toOff (abi.toSize (k * recordSize))) = _
  rw [hindex, hproduct, hsum]
  exact Abi.toOff_of_le (by omega)

end CortexLabs.BootLog

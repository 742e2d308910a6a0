import Mathlib.Algebra.Order.Ring.Nat
import Mathlib.Data.List.Induction
import Mathlib.Data.List.Pairwise
import Mathlib.Tactic.Common

/-! The allocator of bus addresses for base address registers.  `uintptr_t` and `size_t` are words of
`w` bits, whose arithmetic wraps around; ranges are compared as natural numbers, where it does not.
A window hands out addresses upwards from its base, each rounded up to the alignment asked for. -/

namespace CortexLabs.Pcie.Resource

abbrev ok : Int := 0
abbrev errArgument : Int := -1
abbrev errNoResource : Int := -5

variable {w : Nat}

structure Window (w : Nat) where
  pciBase : BitVec w
  cpuBase : BitVec w
  size : BitVec w
  next : BitVec w
  deriving DecidableEq

def alignUp (value alignment : BitVec w) : BitVec w :=
  let mask := alignment - 1
  (value + mask) &&& ~~~mask

/-- `lab_pcie_resource_window_init`; the window is `none` when it is NULL. -/
def labPcieResourceWindowInit (window : Option (Window w)) (pciBase cpuBase size : BitVec w) :
    Int × Option (Window w) :=
  match window with
  | none => (errArgument, none)
  | some window =>
    if size = 0 then (errArgument, some window) else (ok, some ⟨pciBase, cpuBase, size, pciBase⟩)

/-- `lab_pcie_resource_alloc`, with what `pci_addr` points to, unless it is NULL. -/
def labPcieResourceAlloc (window : Option (Window w)) (size alignment : BitVec w)
    (pciAddr : Option (BitVec w)) : Int × Option (Window w) × Option (BitVec w) :=
  match window, pciAddr with
  | some window, some old =>
    if size = 0 ∨ alignment = 0 then (errArgument, some window, some old)
    else if alignment &&& (alignment - 1) ≠ 0 then (errArgument, some window, some old)
    else
      let start := alignUp window.next alignment
      let limit := window.pciBase + window.size
      if start < window.pciBase ∨ start > limit ∨ size > limit - start then
        (errNoResource, some window, some old)
      else (ok, some { window with next := start + size }, some start)
  | window, pciAddr => (errArgument, window, pciAddr)

/-! ### Calls -/

/-- The arguments of a call of `lab_pcie_resource_alloc` on the window. -/
structure Call (w : Nat) where
  size : BitVec w
  alignment : BitVec w
  pciAddr : Option (BitVec w)

structure Alloc (w : Nat) where
  addr : BitVec w
  size : BitVec w
  alignment : BitVec w
  deriving DecidableEq

/-- The result of a call, the window after it, and the range that it hands out. -/
def Call.perform (c : Call w) (window : Window w) : Int × Window w × List (Alloc w) :=
  let (ret, window', pciAddr) :=
    labPcieResourceAlloc (some window) c.size c.alignment c.pciAddr
  (ret, window'.getD window,
    if ret = ok then (pciAddr.map fun addr => ⟨addr, c.size, c.alignment⟩).toList else [])

/-- The window after some calls, and the ranges that they have handed out. -/
def run (window : Window w) (calls : List (Call w)) : Window w × List (Alloc w) :=
  calls.foldl (fun s c => ((c.perform s.1).2.1, s.2 ++ (c.perform s.1).2.2)) (window, [])

/-- The ranges of two allocations have no address in common. -/
def Alloc.Disjoint (a b : Alloc w) : Prop :=
  a.addr.toNat + a.size.toNat ≤ b.addr.toNat ∨ b.addr.toNat + b.size.toNat ≤ a.addr.toNat

/-- What the calls on a window keep to. -/
structure Safe (window : Window w) (calls : List (Call w)) : Prop where
  disjoint : (run window calls).2.Pairwise Alloc.Disjoint
  inside : ∀ a ∈ (run window calls).2, window.pciBase.toNat ≤ a.addr.toNat ∧
    a.addr.toNat + a.size.toNat ≤ window.pciBase.toNat + window.size.toNat
  aligned : ∀ a ∈ (run window calls).2, a.alignment.toNat ∣ a.addr.toNat
  unchanged : ∀ before c after, calls = before ++ c :: after →
    (c.perform (run window before).1).1 ≠ ok →
      (c.perform (run window before).1).2.1 = (run window before).1

/-- The arguments of a call pass its checks. -/
structure Call.Valid (c : Call w) : Prop where
  pciAddr : c.pciAddr ≠ none
  size : c.size ≠ 0
  alignment : c.alignment ≠ 0
  power : c.alignment &&& (c.alignment - 1) = 0

/-- In a window at address 0, rounding the next address up goes past the last address. -/
def Wraps (window : Window w) (c : Call w) : Prop :=
  c.Valid ∧ window.pciBase = 0 ∧ c.size ≤ window.size ∧
    2 ^ w ≤ window.next.toNat + (c.alignment.toNat - 1)

/-! ### Rounding -/

/-- Clearing the low `k` bits rounds down to a multiple of `2 ^ k`. -/
theorem toNat_clear {x m : BitVec w} {k : Nat} (hm : m.toNat = 2 ^ k - 1) :
    (x &&& ~~~m).toNat = x.toNat / 2 ^ k * 2 ^ k := by
  refine Nat.eq_of_testBit_eq fun i => ?_
  have hmask : m.getLsbD i = decide (i < k) := by
    rw [BitVec.getLsbD, hm, Nat.testBit_two_pow_sub_one]
  rw [BitVec.testBit_toNat, BitVec.getLsbD_and, BitVec.getLsbD_not, hmask,
    Nat.testBit_mul_two_pow, Nat.testBit_div_two_pow, BitVec.testBit_toNat]
  by_cases hik : i < k
  · simp [hik, Nat.not_le.mpr hik]
  · rw [decide_eq_false hik, decide_eq_true (Nat.not_lt.mp hik),
      Nat.sub_add_cancel (Nat.not_lt.mp hik)]
    cases hbit : x.getLsbD i
    · simp
    · simp [BitVec.lt_of_getLsbD hbit]

theorem one_le_toNat {a : BitVec w} (ha : a ≠ 0) : 1 ≤ a.toNat := by
  refine Nat.one_le_iff_ne_zero.mpr fun h => ha ?_
  exact BitVec.eq_of_toNat_eq (by simpa using h)

theorem toNat_sub_one {a : BitVec w} (ha : a ≠ 0) : (a - 1).toNat = a.toNat - 1 := by
  have hpos := one_le_toNat ha
  have hlt := a.isLt
  have hone : (1 : BitVec w).toNat = 1 := by
    show (BitVec.ofNat w 1).toNat = 1
    rw [BitVec.toNat_ofNat, Nat.mod_eq_of_lt (by omega)]
  rw [BitVec.toNat_sub_of_le (by rw [BitVec.le_def, hone]; exact hpos), hone]

/-- An alignment that the check accepts is a power of two. -/
theorem power_of_two {a : BitVec w} (ha : a ≠ 0) (h : a &&& (a - 1) = 0) :
    ∃ k, a.toNat = 2 ^ k := by
  refine (Nat.and_sub_one_eq_zero_iff_isPowerOfTwo (Nat.ne_of_gt (one_le_toNat ha))).mp ?_
  rw [← toNat_sub_one ha, ← BitVec.toNat_and, h]
  rfl

theorem alignUp_of_lt {v a : BitVec w} (ha : a ≠ 0) (hpow : a &&& (a - 1) = 0)
    (h : v.toNat + (a.toNat - 1) < 2 ^ w) :
    v.toNat ≤ (alignUp v a).toNat ∧ a.toNat ∣ (alignUp v a).toNat := by
  obtain ⟨k, hk⟩ := power_of_two ha hpow
  have hmask : (a - 1).toNat = 2 ^ k - 1 := by rw [toNat_sub_one ha, hk]
  rw [alignUp, toNat_clear hmask, BitVec.toNat_add, hmask, ← hk, Nat.mod_eq_of_lt h]
  refine ⟨?_, Nat.dvd_mul_left _ _⟩
  have hdiv := Nat.div_add_mod (v.toNat + (a.toNat - 1)) a.toNat
  have hmod := Nat.mod_lt (v.toNat + (a.toNat - 1)) (one_le_toNat ha)
  rw [Nat.mul_comm]
  omega

/-- Rounding up past the last address comes out at 0. -/
theorem alignUp_of_ge {v a : BitVec w} (ha : a ≠ 0) (hpow : a &&& (a - 1) = 0)
    (h : 2 ^ w ≤ v.toNat + (a.toNat - 1)) : alignUp v a = 0 := by
  obtain ⟨k, hk⟩ := power_of_two ha hpow
  have hmask : (a - 1).toNat = 2 ^ k - 1 := by rw [toNat_sub_one ha, hk]
  have hv := v.isLt
  have hlt := a.isLt
  have hpos := one_le_toNat ha
  apply BitVec.eq_of_toNat_eq
  rw [alignUp, toNat_clear hmask, BitVec.toNat_add, hmask, ← hk, Nat.mod_eq_sub_mod h,
    Nat.mod_eq_of_lt (by omega), Nat.div_eq_of_lt (by omega), Nat.zero_mul]
  rfl

/-! ### One call -/

section Perform

variable {window : Window w} {c : Call w}

/-- A call fails and changes nothing, or hands out the next address, rounded up. -/
theorem alloc_cases (window : Window w) (c : Call w) :
    (∃ ret, ret ≠ ok ∧ labPcieResourceAlloc (some window) c.size c.alignment c.pciAddr =
      (ret, some window, c.pciAddr)) ∨
    ∃ start, c.Valid ∧ start = alignUp window.next c.alignment ∧ window.pciBase ≤ start ∧
      start ≤ window.pciBase + window.size ∧
      c.size ≤ window.pciBase + window.size - start ∧
      labPcieResourceAlloc (some window) c.size c.alignment c.pciAddr =
        (ok, some { window with next := start + c.size }, some start) := by
  unfold labPcieResourceAlloc
  cases haddr : c.pciAddr with
  | none => exact .inl ⟨errArgument, nofun, rfl⟩
  | some old =>
    dsimp only
    split_ifs with hzero hpow hspan
    · exact .inl ⟨errArgument, nofun, rfl⟩
    · exact .inl ⟨errArgument, nofun, rfl⟩
    · exact .inl ⟨errNoResource, nofun, rfl⟩
    · refine .inr ⟨_, ⟨by simp [haddr], fun h => hzero (.inl h), fun h => hzero (.inr h),
        not_not.mp hpow⟩, rfl, ?_, ?_, ?_, rfl⟩
      · exact BitVec.not_lt.mp fun h => hspan (.inl h)
      · exact BitVec.not_lt.mp fun h => hspan (.inr (.inl h))
      · exact BitVec.not_lt.mp fun h => hspan (.inr (.inr h))

theorem perform_cases (window : Window w) (c : Call w) :
    ((c.perform window).1 ≠ ok ∧ (c.perform window).2 = (window, [])) ∨
    ∃ start, c.Valid ∧ start = alignUp window.next c.alignment ∧ window.pciBase ≤ start ∧
      start ≤ window.pciBase + window.size ∧
      c.size ≤ window.pciBase + window.size - start ∧
      c.perform window =
        (ok, { window with next := start + c.size }, [⟨start, c.size, c.alignment⟩]) := by
  unfold Call.perform
  rcases alloc_cases window c with ⟨ret, hret, h⟩ | ⟨start, hvalid, hstart, hlo, hhi, hsize, h⟩
  · rw [h]
    refine .inl ⟨hret, ?_⟩
    dsimp only
    rw [if_neg hret]
    rfl
  · rw [h]
    exact .inr ⟨start, hvalid, hstart, hlo, hhi, hsize, rfl⟩

end Perform

/-! ### Runs -/

section Runs

variable {window : Window w} {calls : List (Call w)} {c : Call w}

theorem run_snoc (window : Window w) (calls : List (Call w)) (c : Call w) :
    run window (calls ++ [c]) = ((c.perform (run window calls).1).2.1,
      (run window calls).2 ++ (c.perform (run window calls).1).2.2) := by
  rw [run, List.foldl_append]
  rfl

/-- The ranges handed out lie below `next`, in order, inside a window that does not go past the
last address. -/
structure Packed (window : Window w) (next : BitVec w) (allocs : List (Alloc w)) : Prop where
  above : window.pciBase.toNat ≤ next.toNat
  room : allocs = [] ∨ next.toNat ≤ window.pciBase.toNat + window.size.toNat
  inside : ∀ a ∈ allocs, window.pciBase.toNat ≤ a.addr.toNat ∧
    a.addr.toNat + a.size.toNat ≤ next.toNat
  aligned : ∀ a ∈ allocs, a.alignment.toNat ∣ a.addr.toNat
  disjoint : allocs.Pairwise Alloc.Disjoint

theorem start_of_not_wraps {start : BitVec w} (hvalid : c.Valid)
    (hstart : start = alignUp window.next c.alignment) (hlo : window.pciBase ≤ start)
    (hhi : start ≤ window.pciBase + window.size)
    (hsize : c.size ≤ window.pciBase + window.size - start) (hwraps : ¬Wraps window c) :
    window.next.toNat ≤ start.toNat ∧ c.alignment.toNat ∣ start.toNat ∧
      (start + c.size).toNat = start.toNat + c.size.toNat ∧
      start.toNat + c.size.toNat ≤ window.pciBase.toNat + window.size.toNat := by
  have hlimit : window.pciBase.toNat + window.size.toNat < 2 ^ w := by
    by_contra hover
    have hsum : (window.pciBase + window.size).toNat < window.pciBase.toNat := by
      rw [BitVec.toNat_add, Nat.mod_eq_sub_mod (by omega), Nat.mod_eq_of_lt (by omega)]
      omega
    have hle : window.pciBase.toNat ≤ (window.pciBase + window.size).toNat :=
      Nat.le_trans (BitVec.le_def.mp hlo) (BitVec.le_def.mp hhi)
    omega
  have hsum : (window.pciBase + window.size).toNat =
      window.pciBase.toNat + window.size.toNat := by
    rw [BitVec.toNat_add, Nat.mod_eq_of_lt hlimit]
  have hfits : start.toNat + c.size.toNat ≤ window.pciBase.toNat + window.size.toNat := by
    rw [BitVec.le_def, BitVec.toNat_sub_of_le hhi, hsum] at hsize
    rw [BitVec.le_def, hsum] at hhi
    omega
  have hround : window.next.toNat + (c.alignment.toNat - 1) < 2 ^ w := by
    by_contra hover
    have hzero := alignUp_of_ge hvalid.alignment hvalid.power (Nat.not_lt.mp hover)
    rw [← hstart] at hzero
    have hbase : window.pciBase = 0 := by
      rw [hzero] at hlo
      exact BitVec.eq_of_toNat_eq (Nat.le_zero.mp (BitVec.le_def.mp hlo))
    rw [hzero, hbase] at hfits
    refine hwraps ⟨hvalid, hbase, BitVec.le_def.mpr ?_, Nat.not_lt.mp hover⟩
    simpa using hfits
  obtain ⟨hnext, haligned⟩ := alignUp_of_lt hvalid.alignment hvalid.power hround
  rw [← hstart] at hnext haligned
  refine ⟨hnext, haligned, ?_, hfits⟩
  rw [BitVec.toNat_add, Nat.mod_eq_of_lt (Nat.lt_of_le_of_lt hfits hlimit)]

theorem Packed.perform {allocs : List (Alloc w)} (h : Packed window window.next allocs)
    (hwraps : ¬Wraps window c) : Packed window (c.perform window).2.1.next
      (allocs ++ (c.perform window).2.2) := by
  rcases perform_cases window c with ⟨-, hfail⟩ | ⟨start, hvalid, hstart, hlo, hhi, hsize, hok⟩
  · rw [hfail, List.append_nil]
    exact h
  obtain ⟨hnext, haligned, hend, hfits⟩ :=
    start_of_not_wraps hvalid hstart hlo hhi hsize hwraps
  rw [hok]
  dsimp only
  have habove := h.above
  refine ⟨?_, .inr ?_, fun a ha => ?_, fun a ha => ?_, ?_⟩
  · rw [hend]
    omega
  · rw [hend]
    exact hfits
  · rw [hend]
    rcases List.mem_append.mp ha with ha | ha
    · obtain ⟨hbase, hbelow⟩ := h.inside a ha
      exact ⟨hbase, by omega⟩
    · rw [List.mem_singleton.mp ha]
      exact ⟨by dsimp only; omega, Nat.le_refl _⟩
  · rcases List.mem_append.mp ha with ha | ha
    · exact h.aligned a ha
    · rw [List.mem_singleton.mp ha]
      exact haligned
  · refine List.pairwise_append.mpr ⟨h.disjoint, List.pairwise_singleton _ _, fun a ha b hb => ?_⟩
    rw [List.mem_singleton.mp hb]
    exact .inl (Nat.le_trans (h.inside a ha).2 hnext)

theorem perform_window (window : Window w) (c : Call w) :
    (c.perform window).2.1.pciBase = window.pciBase ∧
      (c.perform window).2.1.size = window.size := by
  rcases perform_cases window c with ⟨-, h⟩ | ⟨start, -, -, -, -, -, h⟩
  · rw [h]
    exact ⟨rfl, rfl⟩
  · rw [h]
    exact ⟨rfl, rfl⟩

theorem run_window (window : Window w) (calls : List (Call w)) :
    (run window calls).1.pciBase = window.pciBase ∧ (run window calls).1.size = window.size := by
  induction calls using List.reverseRecOn with
  | nil => exact ⟨rfl, rfl⟩
  | append_singleton calls c ih =>
    rw [run_snoc]
    obtain ⟨hbase, hsize⟩ := perform_window (run window calls).1 c
    exact ⟨hbase.trans ih.1, hsize.trans ih.2⟩

theorem packed_run (hnext : window.next = window.pciBase)
    (h : ∀ before c after, calls = before ++ c :: after → ¬Wraps (run window before).1 c) :
    Packed (run window calls).1 (run window calls).1.next (run window calls).2 := by
  induction calls using List.reverseRecOn with
  | nil =>
    refine ⟨?_, .inl rfl, nofun, nofun, .nil⟩
    show window.pciBase.toNat ≤ window.next.toNat
    exact Nat.le_of_eq (congrArg BitVec.toNat hnext.symm)
  | append_singleton calls c ih =>
    have hpacked := ih fun before c' after hc => h before c' (after ++ [c]) (by rw [hc]; simp)
    have hstep := hpacked.perform (h calls c [] rfl)
    obtain ⟨hbase, hsize⟩ := perform_window (run window calls).1 c
    rw [run_snoc]
    refine ⟨?_, ?_, ?_, hstep.aligned, hstep.disjoint⟩
    · rw [hbase]
      exact hstep.above
    · rw [hbase, hsize]
      exact hstep.room
    · rw [hbase]
      exact hstep.inside

/-- A call that wraps around hands out address 0. -/
theorem perform_wraps (h : Wraps window c) :
    (c.perform window).2.2 = [⟨0, c.size, c.alignment⟩] := by
  obtain ⟨hvalid, hbase, hsize, hover⟩ := h
  have hzero := alignUp_of_ge hvalid.alignment hvalid.power hover
  rcases haddr : c.pciAddr with _ | old
  · exact absurd haddr hvalid.pciAddr
  have hspan : ¬((0 : BitVec w) < 0 ∨ (0 : BitVec w) > 0 + window.size ∨
      c.size > 0 + window.size - 0) := by
    have hadd : (0 : BitVec w) + window.size = window.size := BitVec.zero_add _
    have hsub : window.size - (0 : BitVec w) = window.size := BitVec.sub_zero _
    rw [hadd, hsub]
    rintro (h | h | h)
    · exact absurd h (BitVec.not_lt.mpr (BitVec.le_refl 0))
    · exact absurd h BitVec.not_lt_zero
    · exact absurd h (BitVec.not_lt.mpr hsize)
  simp only [Call.perform, labPcieResourceAlloc, haddr, hvalid.size, hvalid.alignment, hvalid.power,
    hzero, hbase, hspan, or_self, ne_eq, not_true_eq_false, if_false]
  rfl

/-- In a window at address 0, the first range handed out starts there. -/
theorem zero_run (hbase : window.pciBase = 0) (hnext : window.next = window.pciBase) :
    (run window calls).1.next = 0 ∨
      ∃ a ∈ (run window calls).2, a.addr = 0 ∧ a.size ≠ 0 := by
  induction calls using List.reverseRecOn with
  | nil => exact .inl (hnext.trans hbase)
  | append_singleton calls c ih =>
    rw [run_snoc]
    rcases perform_cases (run window calls).1 c with ⟨-, h⟩ | ⟨start, hvalid, hstart, -, -, -, h⟩
    · rw [h, List.append_nil]
      exact ih
    rw [h]
    refine .inr ?_
    rcases ih with hzero | ⟨a, ha, hrest⟩
    · refine ⟨_, List.mem_append_right _ (List.mem_singleton_self _), ?_, hvalid.size⟩
      have hadd : (0 : BitVec w) + (c.alignment - 1) = c.alignment - 1 := BitVec.zero_add _
      rw [hstart, hzero, alignUp, hadd]
      exact BitVec.and_not_self _
    · exact ⟨a, List.mem_append_left _ ha, hrest⟩

theorem run_append (window : Window w) (calls more : List (Call w)) :
    ∃ later, (run window (calls ++ more)).2 = (run window calls).2 ++ later := by
  induction more using List.reverseRecOn with
  | nil => exact ⟨[], by rw [List.append_nil, List.append_nil]⟩
  | append_singleton more c ih =>
    obtain ⟨later, hlater⟩ := ih
    refine ⟨later ++ (c.perform (run window (calls ++ more)).1).2.2, ?_⟩
    rw [← List.append_assoc, run_snoc, hlater, List.append_assoc]

/-- The calls on a window are safe exactly when none of them rounds the next address of a window at
address 0 up past the last address. -/
theorem safe_iff {old : Window w} {pciBase cpuBase size : BitVec w}
    (hinit : labPcieResourceWindowInit (some old) pciBase cpuBase size = (ok, some window)) :
    Safe window calls ↔
      ∀ before c after, calls = before ++ c :: after → ¬Wraps (run window before).1 c := by
  have hnext : window.next = window.pciBase := by
    unfold labPcieResourceWindowInit at hinit
    dsimp only at hinit
    split at hinit
    · cases hinit
    · cases hinit
      rfl
  constructor
  · rintro h before c after rfl hwraps
    have hbase : window.pciBase = 0 := (run_window window before).1.symm.trans hwraps.2.1
    have hmoved : (run window before).1.next ≠ 0 := by
      intro hzero
      have hover := hwraps.2.2.2
      have hlt := c.alignment.isLt
      rw [hzero] at hover
      change 2 ^ w ≤ 0 % 2 ^ w + _ at hover
      rw [Nat.zero_mod] at hover
      omega
    obtain ⟨a, ha, haddr, hsize⟩ := (zero_run hbase hnext).resolve_left hmoved
    obtain ⟨later, hlater⟩ := run_append window (before ++ [c]) after
    have hdisjoint := h.disjoint
    rw [List.append_cons, hlater, run_snoc, perform_wraps hwraps] at hdisjoint
    have hpair := (List.pairwise_append.mp hdisjoint).1
    have hboth := (List.pairwise_append.mp hpair).2.2 a ha _ (List.mem_singleton_self _)
    have hpos := one_le_toNat hsize
    have hpos' := one_le_toNat hwraps.1.size
    unfold Alloc.Disjoint at hboth
    rw [haddr] at hboth
    dsimp only at hboth
    omega
  · intro h
    have hpacked := packed_run hnext h
    obtain ⟨hbase, hsize⟩ := run_window window calls
    refine ⟨hpacked.disjoint, fun a ha => ?_, hpacked.aligned, fun before c after _ hfail => ?_⟩
    · obtain ⟨hlo, hhi⟩ := hpacked.inside a ha
      rcases hpacked.room with hempty | hroom
      · rw [hempty] at ha
        cases ha
      · rw [hbase] at hlo hroom
        rw [hsize] at hroom
        exact ⟨hlo, Nat.le_trans hhi hroom⟩
    · rcases perform_cases (run window before).1 c with ⟨-, hsame⟩ | ⟨_, -, -, -, -, -, hok⟩
      · rw [hsame]
      · rw [hok] at hfail
        exact absurd rfl hfail

end Runs

theorem safe_iff_aperture : Safe (⟨0x60000000, 0xa0000000, 0x1000, 0x60000000⟩ : Window 32)
    [⟨0x100, 0x100, some 0⟩, ⟨0x400, 0x400, some 0⟩] := by
  have hinit : labPcieResourceWindowInit (some ⟨0, 0, 0, 0⟩) 0x60000000 0xa0000000 0x1000 =
      (ok, some (⟨0x60000000, 0xa0000000, 0x1000, 0x60000000⟩ : Window 32)) := by decide
  refine (safe_iff hinit).mpr fun before c after _ hwraps => ?_
  have hbase := (run_window _ before).1.symm.trans hwraps.2.1
  exact absurd hbase (by decide)

/-- A window of all addresses but the last. -/
def wholeWindow : Window 32 := ⟨0, 0, 0xffffffff, 0⟩

/-- The second of these calls rounds `0x80000001` up to `0x80000000` past the last address. -/
def wrappingCalls : List (Call 32) := [⟨0x80000001, 1, some 0⟩, ⟨1, 0x80000000, some 0⟩]

/-- Both ranges start at address 0. -/
theorem ranges_overlap :
    labPcieResourceWindowInit (some ⟨0, 0, 0, 0⟩) 0 0 0xffffffff = (ok, some wholeWindow) ∧
    ¬Safe wholeWindow wrappingCalls := by
  refine ⟨by decide, fun h => ?_⟩
  have hallocs : (run wholeWindow wrappingCalls).2 =
      [⟨0, 0x80000001, 1⟩, ⟨0, 1, 0x80000000⟩] := by decide
  have hdisjoint := h.disjoint
  rw [hallocs] at hdisjoint
  have hboth := List.rel_of_pairwise_cons hdisjoint (List.mem_singleton_self _)
  unfold Alloc.Disjoint at hboth
  exact absurd hboth (by decide)

end CortexLabs.Pcie.Resource

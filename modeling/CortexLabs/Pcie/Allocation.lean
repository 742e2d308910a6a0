import CortexLabs.Pcie.Resource
import Mathlib.Order.Bounds.Basic

/-! Completeness of the allocator and of the address translation: a request is refused only when it
does not fit, in exact integers, and an address only when it is outside the window.  The limit of a
window that ends with the last address is 0, so that nothing fits into it and nothing is inside. -/

namespace CortexLabs.Pcie.Resource

variable {w : Nat}

/-- `lab_pcie_resource_translate`, with what `cpu_addr` points to, unless it is NULL. -/
def labPcieResourceTranslate (window : Option (Window w)) (pciAddr : BitVec w)
    (cpuAddr : Option (BitVec w)) : Int × Option (BitVec w) :=
  match window, cpuAddr with
  | some window, some old =>
    if pciAddr < window.pciBase ∨ pciAddr ≥ window.pciBase + window.size then
      (errNoResource, some old)
    else
      let offset := pciAddr - window.pciBase
      (ok, some (window.cpuBase + offset))
  | _, cpuAddr => (errArgument, cpuAddr)

/-! ### Rounding to a multiple -/

/-- The least multiple of `a` that is not below `n`. -/
def roundUp (n a : Nat) : Nat := (n + (a - 1)) / a * a

theorem roundUp_isLeast {n a : Nat} (ha : 0 < a) : IsLeast {s | a ∣ s ∧ n ≤ s} (roundUp n a) := by
  constructor
  · refine ⟨Nat.dvd_mul_left _ _, ?_⟩
    have hdiv := Nat.div_add_mod (n + (a - 1)) a
    have hmod := Nat.mod_lt (n + (a - 1)) ha
    rw [roundUp, Nat.mul_comm]
    omega
  · rintro _ ⟨⟨q, rfl⟩, hn⟩
    rw [roundUp, Nat.mul_comm a]
    apply Nat.mul_le_mul_right
    apply Nat.le_of_lt_succ
    rw [Nat.div_lt_iff_lt_mul ha, Nat.succ_mul, Nat.mul_comm q]
    omega

/-- Rounding up is exact where it does not go past the last address. -/
theorem alignUp_exact {v a : BitVec w} (ha : a ≠ 0) (hpow : a &&& (a - 1) = 0)
    (h : v.toNat + (a.toNat - 1) < 2 ^ w) : (alignUp v a).toNat = roundUp v.toNat a.toNat := by
  obtain ⟨k, hk⟩ := power_of_two ha hpow
  have hmask : (a - 1).toNat = 2 ^ k - 1 := by rw [toNat_sub_one ha, hk]
  rw [alignUp, toNat_clear hmask, BitVec.toNat_add, hmask, ← hk, Nat.mod_eq_of_lt h, roundUp]

/-- Past the last address, the least multiple is the number of addresses. -/
theorem roundUp_past {v a : BitVec w} (ha : a ≠ 0) (hpow : a &&& (a - 1) = 0)
    (h : 2 ^ w ≤ v.toNat + (a.toNat - 1)) : roundUp v.toNat a.toNat = 2 ^ w := by
  obtain ⟨k, hk⟩ := power_of_two ha hpow
  have hlt := a.isLt
  have hv := v.isLt
  have hkw : k ≤ w := by
    rw [hk] at hlt
    exact Nat.le_of_lt ((Nat.pow_lt_pow_iff_right (by decide)).mp hlt)
  have hpast : 2 ^ w = 2 ^ (w - k) * a.toNat := by
    rw [hk, ← Nat.pow_add, Nat.sub_add_cancel hkw]
  have hpos := one_le_toNat ha
  have hquotient : (v.toNat + (a.toNat - 1)) / a.toNat = 2 ^ (w - k) := by
    apply Nat.div_eq_of_lt_le
    · omega
    · rw [Nat.succ_mul]
      omega
  rw [roundUp, hquotient, hpast]

/-! ### Exactness -/

/-- A call succeeds exactly when the least multiple of the alignment from the next address on leaves
room for the size in the window, and then returns it. -/
def AllocExact (window : Window w) (c : Call w) : Prop :=
  ∀ s, IsLeast {s | c.alignment.toNat ∣ s ∧ window.next.toNat ≤ s} s →
    ((c.perform window).1 = ok ↔
      s + c.size.toNat ≤ window.pciBase.toNat + window.size.toNat) ∧
    ((c.perform window).1 = ok → ∃ window' addr,
      labPcieResourceAlloc (some window) c.size c.alignment c.pciAddr =
        (ok, some window', some addr) ∧ addr.toNat = s)

/-- The translation succeeds exactly for the addresses inside the window, which it moves by the
distance between the two bases. -/
def TranslateExact (window : Window w) : Prop :=
  ∀ addr old, ((labPcieResourceTranslate (some window) addr (some old)).1 = ok ↔
      window.pciBase.toNat ≤ addr.toNat ∧
        addr.toNat < window.pciBase.toNat + window.size.toNat) ∧
    ((labPcieResourceTranslate (some window) addr (some old)).1 = ok →
      (labPcieResourceTranslate (some window) addr (some old)).2 =
        some (window.cpuBase + (addr - window.pciBase)))

section Window

variable {window : Window w} {c : Call w}

theorem translate_ok_iff (window : Window w) (addr old : BitVec w) :
    (labPcieResourceTranslate (some window) addr (some old)).1 = ok ↔
      window.pciBase ≤ addr ∧ addr < window.pciBase + window.size := by
  unfold labPcieResourceTranslate
  dsimp only
  split
  · next h =>
    refine ⟨nofun, fun ⟨hlo, hhi⟩ => ?_⟩
    rcases h with h | h
    · exact absurd hlo (BitVec.not_le.mpr h)
    · exact absurd hhi (BitVec.not_lt.mpr h)
  · next h =>
    refine ⟨fun _ => ⟨?_, ?_⟩, fun _ => rfl⟩
    · exact BitVec.not_lt.mp fun hlo => h (.inl hlo)
    · exact BitVec.not_le.mp fun hhi => h (.inr hhi)

theorem translate_value (window : Window w) (addr old : BitVec w)
    (h : (labPcieResourceTranslate (some window) addr (some old)).1 = ok) :
    (labPcieResourceTranslate (some window) addr (some old)).2 =
      some (window.cpuBase + (addr - window.pciBase)) := by
  unfold labPcieResourceTranslate at h ⊢
  dsimp only at h ⊢
  split
  · next hout =>
    rw [if_pos hout] at h
    exact absurd h (show errNoResource ≠ ok by decide)
  · rfl

/-- The limit of a window that ends below `2 ^ w`, as a number. -/
theorem limit_toNat (h : window.pciBase.toNat + window.size.toNat < 2 ^ w) :
    (window.pciBase + window.size).toNat = window.pciBase.toNat + window.size.toNat := by
  rw [BitVec.toNat_add, Nat.mod_eq_of_lt h]

/-- The limit of a window that ends at `2 ^ w` is 0. -/
theorem limit_zero (h : window.pciBase.toNat + window.size.toNat = 2 ^ w) :
    window.pciBase + window.size = 0 := by
  apply BitVec.eq_of_toNat_eq
  rw [BitVec.toNat_add, h, Nat.mod_self]
  rfl

/-- The translation is exact where the window ends below `2 ^ w`, and only there. -/
theorem translateExact_iff (hsize : window.size ≠ 0)
    (hend : window.pciBase.toNat + window.size.toNat ≤ 2 ^ w) :
    TranslateExact window ↔ window.pciBase.toNat + window.size.toNat < 2 ^ w := by
  constructor
  · intro h
    by_contra hover
    have hlimit := limit_zero (Nat.le_antisymm hend (Nat.not_lt.mp hover))
    have hpos := one_le_toNat hsize
    have hok := (h window.pciBase 0).1.mpr ⟨Nat.le_refl _, by omega⟩
    rw [translate_ok_iff, hlimit] at hok
    exact BitVec.not_lt_zero hok.2
  · intro hlt addr old
    refine ⟨?_, translate_value window addr old⟩
    rw [translate_ok_iff, BitVec.le_def, BitVec.lt_def, limit_toNat hlt]

/-- What the checks of a call come to. -/
def Admitted (window : Window w) (c : Call w) : Prop :=
  window.pciBase ≤ alignUp window.next c.alignment ∧
    alignUp window.next c.alignment ≤ window.pciBase + window.size ∧
    c.size ≤ window.pciBase + window.size - alignUp window.next c.alignment

theorem alloc_admitted (hvalid : c.Valid) (h : Admitted window c) :
    labPcieResourceAlloc (some window) c.size c.alignment c.pciAddr =
      (ok, some { window with next := alignUp window.next c.alignment + c.size },
        some (alignUp window.next c.alignment)) := by
  obtain ⟨hlo, hhi, hsize⟩ := h
  rcases haddr : c.pciAddr with _ | old
  · exact absurd haddr hvalid.pciAddr
  have hargs : ¬(c.size = 0 ∨ c.alignment = 0) :=
    fun hzero => hzero.elim hvalid.size hvalid.alignment
  have hspan : ¬(alignUp window.next c.alignment < window.pciBase ∨
      alignUp window.next c.alignment > window.pciBase + window.size ∨
      c.size > window.pciBase + window.size - alignUp window.next c.alignment) := by
    rintro (h | h | h)
    · exact BitVec.not_lt.mpr hlo h
    · exact BitVec.not_lt.mpr hhi h
    · exact BitVec.not_lt.mpr hsize h
  unfold labPcieResourceAlloc
  dsimp only
  rw [if_neg hargs, if_neg (not_not.mpr hvalid.power), if_neg hspan]

/-- A call whose arguments pass the checks succeeds exactly when it is admitted. -/
theorem perform_ok_iff (hvalid : c.Valid) : (c.perform window).1 = ok ↔ Admitted window c := by
  constructor
  · intro hok
    rcases perform_cases window c with ⟨hfail, -⟩ | ⟨start, -, rfl, hlo, hhi, hsize, -⟩
    · exact absurd hok hfail
    · exact ⟨hlo, hhi, hsize⟩
  · intro h
    rw [Call.perform, alloc_admitted hvalid h]

/-- Where rounding stays below `2 ^ w`, a call is admitted exactly when its range fits. -/
theorem admitted_iff (hvalid : c.Valid)
    (hlt : window.pciBase.toNat + window.size.toNat < 2 ^ w)
    (hbase : window.pciBase.toNat ≤ window.next.toNat)
    (hround : window.next.toNat + (c.alignment.toNat - 1) < 2 ^ w) :
    Admitted window c ↔ roundUp window.next.toNat c.alignment.toNat + c.size.toNat ≤
      window.pciBase.toNat + window.size.toNat := by
  have hstart := alignUp_exact hvalid.alignment hvalid.power hround
  have hnext := (roundUp_isLeast (n := window.next.toNat) (one_le_toNat hvalid.alignment)).1.2
  have hlimit := limit_toNat hlt
  have hsize := one_le_toNat hvalid.size
  unfold Admitted
  constructor
  · rintro ⟨-, hhi, hfits⟩
    rw [BitVec.le_def, BitVec.toNat_sub_of_le hhi, hlimit, hstart] at hfits
    omega
  · intro hfits
    have hhi : alignUp window.next c.alignment ≤ window.pciBase + window.size := by
      rw [BitVec.le_def, hlimit, hstart]
      omega
    refine ⟨?_, hhi, ?_⟩
    · rw [BitVec.le_def, hstart]
      exact Nat.le_trans hbase hnext
    · rw [BitVec.le_def, BitVec.toNat_sub_of_le hhi, hlimit, hstart]
      omega

/-- Past the last address, a call is admitted exactly when it wraps to address 0. -/
theorem admitted_past (hvalid : c.Valid)
    (hround : 2 ^ w ≤ window.next.toNat + (c.alignment.toNat - 1)) :
    Admitted window c ↔ Wraps window c := by
  have hzero := alignUp_of_ge hvalid.alignment hvalid.power hround
  constructor
  · rintro ⟨hlo, -, hfits⟩
    rw [hzero] at hlo hfits
    have hbase : window.pciBase = 0 :=
      BitVec.eq_of_toNat_eq (Nat.le_zero.mp (BitVec.le_def.mp hlo))
    have hadd : (0 : BitVec w) + window.size = window.size := BitVec.zero_add _
    have hsub : window.size - (0 : BitVec w) = window.size := BitVec.sub_zero _
    rw [hbase, hadd, hsub] at hfits
    exact ⟨hvalid, hbase, hfits, hround⟩
  · intro h
    rw [← perform_ok_iff hvalid]
    rcases perform_cases window c with ⟨-, hfail⟩ | ⟨start, -, -, -, -, -, hok⟩
    · have hallocs := perform_wraps h
      rw [hfail] at hallocs
      cases hallocs
    · rw [hok]

/-- In a window that ends below `2 ^ w`, a call is exact unless it wraps. -/
theorem allocExact_iff (hvalid : c.Valid)
    (hlt : window.pciBase.toNat + window.size.toNat < 2 ^ w)
    (hbase : window.pciBase.toNat ≤ window.next.toNat) :
    AllocExact window c ↔ ¬Wraps window c := by
  have hleast := roundUp_isLeast (n := window.next.toNat) (one_le_toNat hvalid.alignment)
  by_cases hround : window.next.toNat + (c.alignment.toNat - 1) < 2 ^ w
  · refine ⟨fun _ hwraps => ?_, fun _ s hs => ?_⟩
    · exact absurd hwraps.2.2.2 (Nat.not_le.mpr hround)
    · obtain rfl := hs.unique hleast
      rw [perform_ok_iff hvalid, admitted_iff hvalid hlt hbase hround]
      refine ⟨Iff.rfl, fun hfits => ?_⟩
      have hadmitted := (admitted_iff hvalid hlt hbase hround).mpr hfits
      exact ⟨_, _, alloc_admitted hvalid hadmitted,
        alignUp_exact hvalid.alignment hvalid.power hround⟩
  · have hpast := Nat.not_lt.mp hround
    have hrounded := roundUp_past hvalid.alignment hvalid.power hpast
    constructor
    · intro h hwraps
      have hok := (perform_ok_iff hvalid).mpr ((admitted_past hvalid hpast).mpr hwraps)
      have hfits := (h _ hleast).1.mp hok
      rw [hrounded] at hfits
      omega
    · intro hwraps s hs
      obtain rfl := hs.unique hleast
      have hfail : ¬(c.perform window).1 = ok := by
        rw [perform_ok_iff hvalid, admitted_past hvalid hpast]
        exact hwraps
      refine ⟨⟨fun hok => absurd hok hfail, fun hfits => ?_⟩, fun hok => absurd hok hfail⟩
      rw [hrounded] at hfits
      omega

end Window

/-! ### Runs -/

section Runs

variable {window : Window w}

/-- In a window that ends below `2 ^ w`, the next address stays in the window or just past it. -/
theorem next_run (hlt : window.pciBase.toNat + window.size.toNat < 2 ^ w)
    (hnext : window.next = window.pciBase) (calls : List (Call w)) :
    window.pciBase.toNat ≤ (run window calls).1.next.toNat ∧
      (run window calls).1.next.toNat ≤ window.pciBase.toNat + window.size.toNat := by
  induction calls using List.reverseRecOn with
  | nil =>
    show _ ≤ window.next.toNat ∧ window.next.toNat ≤ _
    rw [hnext]
    omega
  | append_singleton calls c ih =>
    obtain ⟨hbase, hsize⟩ := run_window window calls
    rw [run_snoc]
    rcases perform_cases (run window calls).1 c with ⟨-, h⟩ | ⟨start, -, -, hlo, hhi, hfits, h⟩
    · rw [h]
      exact ih
    · rw [hbase] at hlo
      rw [hbase, hsize] at hhi hfits
      rw [BitVec.le_def, BitVec.toNat_sub_of_le hhi, limit_toNat hlt] at hfits
      rw [BitVec.le_def, limit_toNat hlt] at hhi
      rw [BitVec.le_def] at hlo
      have hend : (start + c.size).toNat = start.toNat + c.size.toNat := by
        rw [BitVec.toNat_add, Nat.mod_eq_of_lt (by omega)]
      rw [h]
      dsimp only
      rw [hend]
      omega

/-- In every reachable state of a window that ends at or below `2 ^ w`, allocation and translation
are exact if and only if the window ends below `2 ^ w` and the call does not wrap. -/
theorem complete_iff {old : Window w} {pciBase cpuBase size : BitVec w}
    (hinit : labPcieResourceWindowInit (some old) pciBase cpuBase size = (ok, some window))
    (hend : window.pciBase.toNat + window.size.toNat ≤ 2 ^ w) (calls : List (Call w)) {c : Call w}
    (hvalid : c.Valid) :
    AllocExact (run window calls).1 c ∧ TranslateExact (run window calls).1 ↔
      window.pciBase.toNat + window.size.toNat < 2 ^ w ∧ ¬Wraps (run window calls).1 c := by
  obtain ⟨hnext, hsize⟩ : window.next = window.pciBase ∧ window.size ≠ 0 := by
    unfold labPcieResourceWindowInit at hinit
    dsimp only at hinit
    split at hinit
    · cases hinit
    · next hsize =>
      cases hinit
      exact ⟨rfl, hsize⟩
  obtain ⟨hbase', hsize'⟩ := run_window window calls
  have htranslate : TranslateExact (run window calls).1 ↔
      window.pciBase.toNat + window.size.toNat < 2 ^ w := by
    rw [translateExact_iff (by rw [hsize']; exact hsize) (by rw [hbase', hsize']; exact hend),
      hbase', hsize']
  rw [htranslate, and_comm]
  apply and_congr_right
  intro hlt
  apply allocExact_iff hvalid
  · rw [hbase', hsize']
    exact hlt
  · rw [hbase']
    exact (next_run hlt hnext calls).1

end Runs

theorem aperture_init : labPcieResourceWindowInit (some ⟨0, 0, 0, 0⟩) 0x60000000 0xa0000000 0x1000 =
    (ok, some (⟨0x60000000, 0xa0000000, 0x1000, 0x60000000⟩ : Window 32)) := by decide

/-- The second page of a window of two, and the address translation. -/
theorem complete_aperture :
    AllocExact (run (⟨0x60000000, 0xa0000000, 0x1000, 0x60000000⟩ : Window 32)
      [⟨0x100, 0x100, some 0⟩]).1 ⟨0xf00, 0x100, some 0⟩ ∧
    TranslateExact (run (⟨0x60000000, 0xa0000000, 0x1000, 0x60000000⟩ : Window 32)
      [⟨0x100, 0x100, some 0⟩]).1 := by
  have hvalid : Call.Valid (⟨0xf00, 0x100, some 0⟩ : Call 32) := by
    constructor <;> decide
  refine (complete_iff aperture_init (by decide) _ hvalid).mpr ⟨by decide, fun hwraps => ?_⟩
  exact absurd hwraps.2.1 (by decide)

/-- The last page of the address space as a window: no request fits, and no address is inside. -/
theorem lastPage_refused :
    labPcieResourceWindowInit (some ⟨0, 0, 0, 0⟩) 0xfffff000 0xa0000000 0x1000 =
      (ok, some (⟨0xfffff000, 0xa0000000, 0x1000, 0xfffff000⟩ : Window 32)) ∧
    ¬AllocExact (⟨0xfffff000, 0xa0000000, 0x1000, 0xfffff000⟩ : Window 32)
      ⟨0x100, 0x100, some 0⟩ ∧
    ¬TranslateExact (⟨0xfffff000, 0xa0000000, 0x1000, 0xfffff000⟩ : Window 32) := by
  refine ⟨by decide, fun h => ?_, fun h => ?_⟩
  · have hleast : IsLeast {s | (0x100#32).toNat ∣ s ∧ (0xfffff000#32).toNat ≤ s} 0xfffff000 :=
      ⟨by decide, fun s hs => hs.2⟩
    have hok := (h 0xfffff000 hleast).1.mpr (by decide)
    exact absurd hok (by decide)
  · have hok := (h 0xfffff000 0).1.mpr (by decide)
    exact absurd hok (by decide)

end CortexLabs.Pcie.Resource

import CortexLabs.Pcie.BarAssign

/-! Failures of an assignment, and BARs of functions that are absent.  An assignment advances its
window before it writes the register, and does not move it back when the write fails.  A function
that is absent reads as all ones, in which a probe sees a BAR of four ports. -/

namespace CortexLabs.Pcie.Resource

open Device

/-! ### The window -/

section Window

variable {w : Nat} {v a : BitVec w}

theorem two_mul_power_le (ha : a ≠ 0) (hpow : a &&& (a - 1) = 0) : 2 * a.toNat ≤ 2 ^ w := by
  obtain ⟨k, hk⟩ := power_of_two ha hpow
  have hlt := a.isLt
  rw [hk] at hlt ⊢
  have hkw : k < w := (Nat.pow_lt_pow_iff_right (by decide)).mp hlt
  rw [← Nat.pow_succ']
  exact Nat.pow_le_pow_right (by decide) hkw

/-- The end of an allocation is never the address that was next before it. -/
theorem alignUp_add_ne (ha : a ≠ 0) (hpow : a &&& (a - 1) = 0) : alignUp v a + a ≠ v := by
  intro h
  have hpos := one_le_toNat ha
  have htwo := two_mul_power_le ha hpow
  have hv := v.isLt
  have hnat : ((alignUp v a).toNat + a.toNat) % 2 ^ w = v.toNat := by
    rw [← BitVec.toNat_add, h]
  by_cases hround : v.toNat + (a.toNat - 1) < 2 ^ w
  · have hlow := (alignUp_of_lt ha hpow hround).1
    have hhigh : (alignUp v a).toNat ≤ v.toNat + (a.toNat - 1) := by
      rw [alignUp_exact ha hpow hround]
      exact Nat.div_mul_le_self _ _
    by_cases hend : (alignUp v a).toNat + a.toNat < 2 ^ w
    · rw [Nat.mod_eq_of_lt hend] at hnat
      omega
    · rw [Nat.mod_eq_sub_mod (by omega), Nat.mod_eq_of_lt (by omega)] at hnat
      omega
  · rw [alignUp_of_ge ha hpow (by omega)] at hnat
    have hzero : (0 : BitVec w).toNat = 0 := BitVec.toNat_zero
    rw [hzero, Nat.zero_add, Nat.mod_eq_of_lt (by omega)] at hnat
    omega

end Window

/-! ### Failures of an assignment -/

/-- The allocation that an assignment asks for. -/
def barCall (bar : LabPcieBarResource) : Call 32 := ⟨bar.size, bar.size, some 0⟩

instance (window : Window 32) (c : Call 32) : Decidable (Admitted window c) :=
  inferInstanceAs (Decidable (_ ∧ _ ∧ _))

/-- The allocator grants the request for a BAR. -/
structure Granted (window : Window 32) (bar : LabPcieBarResource) : Prop where
  valid : (barCall bar).Valid
  admitted : Admitted window (barCall bar)

/-- The window after the request has been granted. -/
def advanced (window : Window 32) (bar : LabPcieBarResource) : Window 32 :=
  { window with next := alignUp window.next bar.size + bar.size }

section Assign

variable {σ : Type} {bdf : Word} {window : Window 32} {bar : LabPcieBarResource}

theorem Granted.advanced_ne (h : Granted window bar) : advanced window bar ≠ window := by
  intro heq
  have hnext : alignUp window.next bar.size + bar.size = window.next := congrArg Window.next heq
  exact alignUp_add_ne h.valid.size h.valid.power hnext

/-- An address that has just been allocated is inside the window. -/
theorem Granted.translate (h : Granted window bar) :
    (labPcieResourceTranslate (some (advanced window bar)) (alignUp window.next bar.size)
      (some 0)).1 = ok := by
  obtain ⟨hlo, hhi, hfits⟩ := h.admitted
  have hsize : 1 ≤ bar.size.toNat := one_le_toNat h.valid.size
  rw [BitVec.le_def, BitVec.toNat_sub_of_le hhi] at hfits
  rw [translate_ok_iff]
  refine ⟨hlo, ?_⟩
  show alignUp window.next bar.size < window.pciBase + window.size
  rw [BitVec.lt_def]
  have hcall : (barCall bar).size.toNat = bar.size.toNat := rfl
  have halign : (barCall bar).alignment = bar.size := rfl
  rw [hcall, halign] at hfits
  omega

/-- An assignment for which the allocator has no room changes nothing. -/
theorem assign_refused (host : LabPcieHost σ) (h : ¬Granted window bar) :
    ∃ ret, ret ≠ ok ∧ labPcieAssignBar32 (some host) bdf (some window) (some bar) =
      (ret, some host, some window, some bar) := by
  rw [labPcieAssignBar32]
  dsimp only
  by_cases hsize : bar.size = 0
  · exact ⟨errUnsupported, by decide, if_pos hsize⟩
  rw [if_neg hsize]
  rcases alloc_cases window (barCall bar) with
    ⟨ret, hret, halloc⟩ | ⟨start, hvalid, rfl, hlo, hhi, hfits, -⟩
  · rw [barCall] at halloc
    refine ⟨ret, hret, ?_⟩
    rw [halloc]
    dsimp only
    rw [if_pos hret]
  · exact absurd ⟨hvalid, hlo, hhi, hfits⟩ h

/-- An assignment for which the allocator has room advances the window, whether the register can be
written or not; only if it can, the structure changes. -/
theorem assign_granted (host : LabPcieHost σ) (h : Granted window bar) {ret : Int}
    {host' : Option (LabPcieHost σ)}
    (hwrite : labPcieConfigWrite32 (some host) bdf (pcieConfBar0 + bar.barIndex)
      (programmed bar (alignUp window.next bar.size)) = (ret, host')) :
    ∃ bar', labPcieAssignBar32 (some host) bdf (some window) (some bar) =
      (ret, host', some (advanced window bar), some bar') ∧ (ret ≠ ok → bar' = bar) := by
  have hsize : bar.size ≠ 0 := h.valid.size
  have halloc := alloc_admitted h.valid h.admitted
  rw [barCall] at halloc
  dsimp only at halloc
  rcases htranslate : labPcieResourceTranslate (some (advanced window bar))
    (alignUp window.next bar.size) (some 0) with ⟨result, cpuAddr⟩
  have hresult : result = ok := by
    have hok := h.translate
    rwa [htranslate] at hok
  rw [advanced] at htranslate
  rw [programmed] at hwrite
  rw [labPcieAssignBar32]
  dsimp only
  rw [if_neg hsize, halloc]
  dsimp only
  rw [if_neg (not_not.mpr rfl), Option.getD_some, htranslate]
  dsimp only
  rw [if_neg (not_not.mpr hresult), hwrite]
  dsimp only
  by_cases hret : ret = ok
  · subst hret
    rw [if_neg (not_not.mpr rfl)]
    exact ⟨_, rfl, fun hbad => absurd rfl hbad⟩
  · rw [if_pos hret]
    exact ⟨bar, rfl, fun _ => rfl⟩

end Assign

section Atomic

variable {σ : Type} (host : Option (LabPcieHost σ)) (bdf : Word) (window : Option (Window 32))
  (bar : Option LabPcieBarResource)

/-- If the assignment fails, the window and the structure are as before. -/
def FailsCleanly : Prop :=
  ∀ ret host' window' bar', labPcieAssignBar32 host bdf window bar = (ret, host', window', bar') →
    ret ≠ ok → window' = window ∧ bar' = bar

/-- For every host, window and structure, an assignment that fails leaves the window and the
structure as they were if and only if it is not so that the allocator has room and the register
cannot be written. -/
theorem failsCleanly_iff : FailsCleanly host bdf window bar ↔
    ∀ h w r, host = some h → window = some w → bar = some r → Granted w r →
      (labPcieConfigWrite32 (some h) bdf (pcieConfBar0 + r.barIndex)
        (programmed r (alignUp w.next r.size))).1 = ok := by
  constructor
  · rintro hclean h w r rfl rfl rfl hgranted
    by_contra hfail
    obtain ⟨bar', hassign, -⟩ := assign_granted h hgranted rfl
    obtain ⟨hwindow, -⟩ := hclean _ _ _ _ hassign hfail
    exact hgranted.advanced_ne (Option.some.inj hwindow)
  · intro hwrite ret host' window' bar' hassign hret
    have hnull : labPcieAssignBar32 host bdf window bar = (errUnsupported, host, window, bar) →
        window' = window ∧ bar' = bar := by
      intro hsame
      rw [hsame] at hassign
      obtain ⟨-, -, rfl, rfl⟩ := hassign
      exact ⟨rfl, rfl⟩
    cases host with
    | none => exact hnull rfl
    | some h =>
      cases window with
      | none => exact hnull rfl
      | some w =>
        cases bar with
        | none => exact hnull rfl
        | some r =>
          by_cases hgranted : Granted w r
          · obtain ⟨bar1, hassign1, -⟩ := assign_granted h hgranted rfl
            rw [hassign] at hassign1
            have hok := hwrite h w r rfl rfl rfl hgranted
            exact absurd ((Prod.mk.inj hassign1).1.trans hok) hret
          · obtain ⟨ret1, -, hassign1⟩ := assign_refused h hgranted
            rw [hassign] at hassign1
            obtain ⟨-, -, rfl, rfl⟩ := hassign1
            exact ⟨rfl, rfl⟩

end Atomic

abbrev errPlatform : Int := -4

/-- A host whose registers can be read, but not written. -/
def readOnlyHost : LabPcieHost Unit where
  ops := some
    { configRead32 := some fun priv _ _ _ => (ok, 0, priv)
      configWrite32 := some fun priv _ _ _ => (errPlatform, priv) }
  priv := some ()

/-- Every assignment that fails takes a page of the window. -/
theorem readOnly_leaks : ¬FailsCleanly (some readOnlyHost) 0x800
    (some ⟨0x40000000, 0x60000000, 0x10000, 0x40000000⟩) (some (probed 0 0 0x1000)) := by
  intro h
  have hassign : labPcieAssignBar32 (some readOnlyHost) 0x800
      (some ⟨0x40000000, 0x60000000, 0x10000, 0x40000000⟩) (some (probed 0 0 0x1000)) =
      (errPlatform, some readOnlyHost, some ⟨0x40000000, 0x60000000, 0x10000, 0x40001000⟩,
        some (probed 0 0 0x1000)) := rfl
  obtain ⟨hwindow, -⟩ := h _ _ _ _ hassign (by decide)
  exact absurd hwindow (by decide)

/-! ### Functions that are absent -/

section Absent

variable {controller : LabPcieSimController} {bdf barIndex : Word}

theorem read_absent (hfn : simFindFunction controller bdf = none) (hindex : barIndex < 6)
    (old : Word) : labPcieConfigRead32 (simHost controller) bdf (pcieConfBar0 + barIndex) old =
      (ok, 0xffffffff, simHost controller) := by
  obtain ⟨hreg, -⟩ := bar_register hindex
  have hread : simConfigRead32 (some controller) bdf (pcieConfBar0 + barIndex) old =
      (ok, 0xffffffff, some controller) := by
    simp only [simConfigRead32, hfn]
  simp only [labPcieConfigRead32, simHost, Option.bind_some, labValidateBdf_ok, hreg, hread]
  rfl

theorem write_absent (hfn : simFindFunction controller bdf = none) (hindex : barIndex < 6)
    (value : Word) :
    labPcieConfigWrite32 (simHost controller) bdf (pcieConfBar0 + barIndex) value =
      (ok, simHost controller) := by
  obtain ⟨hreg, -⟩ := bar_register hindex
  have hwrite : simConfigWrite32 (some controller) bdf (pcieConfBar0 + barIndex) value =
      (ok, some controller) := by
    simp only [simConfigWrite32, hfn]
  simp only [labPcieConfigWrite32, simHost, Option.bind_some, labValidateBdf_ok, hreg, hwrite]
  rfl

/-- A probe of a register that always reads as `v` takes `v` for the mask of the size as well. -/
theorem probe_constant {σ : Type} {host : LabPcieHost σ} {v : Word} (hindex : barIndex < 6)
    (hread : labPcieConfigRead32 (some host) bdf (pcieConfBar0 + barIndex) 0 = (ok, v, some host))
    (hwrite : ∀ value, labPcieConfigWrite32 (some host) bdf (pcieConfBar0 + barIndex) value =
      (ok, some host))
    (hio : PcieConfBarIo v) (bar : LabPcieBarResource) :
    labPcieProbeBar32 (some host) bdf barIndex (some bar) =
      (ok, some host, some (probed barIndex v (measured v v))) := by
  have hnarrow : ¬(PcieConfBarMem v ∧ PcieConfBar64 v) := fun hwide => hwide.1 hio
  have hmask : flagMask v = 0x3 := if_pos hio
  rw [labPcieProbeBar32]
  dsimp only
  rw [if_neg (BitVec.not_le.mpr hindex), hread]
  dsimp only
  rw [if_neg (not_not.mpr rfl), if_neg (by rw [if_neg hnarrow]; decide), hwrite]
  dsimp only
  rw [if_neg (not_not.mpr rfl), hread]
  dsimp only
  rw [hwrite]
  dsimp only
  have hports : (if (if PcieConfBarIo v then (1 : Byte) else 0) ≠ 0 then pcieConfBarIoAddr v
      else pcieConfBarAddr v) = v &&& ~~~0x3 := by
    rw [if_pos hio, if_pos (by decide), pcieConfBarIoAddr]
  rw [if_neg (not_not.mpr rfl), hports, probed, measured, hmask]
  split
  · rfl
  · rfl

/-- What a probe makes of a function that is absent: a BAR of four ports. -/
theorem probe_absent (hfn : simFindFunction controller bdf = none) (hindex : barIndex < 6)
    (bar : LabPcieBarResource) :
    labPcieProbeBar32 (simHost controller) bdf barIndex (some bar) =
      (ok, simHost controller, some (probed barIndex 0xffffffff 4)) :=
  probe_constant hindex (read_absent hfn hindex 0) (write_absent hfn hindex) (by decide) bar

variable (controller bdf barIndex) (bar : LabPcieBarResource) (window : Window 32)

/-- The probe fails, or finds that there is no BAR. -/
def FindsNoBar : Prop :=
  ∀ ret host r, labPcieProbeBar32 (simHost controller) bdf barIndex (some bar) =
    (ret, host, some r) → ret ≠ ok ∨ r.size = 0

/-- If the probe succeeds, an assignment of what it has found does not advance the window. -/
def ConsumesNothing : Prop :=
  ∀ host r, labPcieProbeBar32 (simHost controller) bdf barIndex (some bar) = (ok, host, some r) →
    ∀ ret host' window' bar', labPcieAssignBar32 host bdf (some window) (some r) =
      (ret, host', some window', bar') → window'.next = window.next

variable {controller bdf barIndex}

/-- For every controller, every function that is absent, every BAR and every window, a probe finds a
BAR where there is none.  An assignment then advances the window, unless the window has no room for
four bytes. -/
theorem absent_has_bars (hfn : simFindFunction controller bdf = none) (hindex : barIndex < 6) :
    ¬(FindsNoBar controller bdf barIndex bar ∧
      ConsumesNothing controller bdf barIndex bar window) ∧
    (ConsumesNothing controller bdf barIndex bar window ↔ ¬Admitted window ⟨4, 4, some 0⟩) := by
  have hprobe := probe_absent hfn hindex bar
  have hvalid : Call.Valid (⟨4, 4, some 0⟩ : Call 32) := by
    constructor <;> decide
  obtain ⟨host, hhost⟩ : ∃ host, simHost controller = some host := ⟨_, rfl⟩
  refine ⟨fun ⟨hnone, _⟩ => ?_, ?_⟩
  · rcases hnone _ _ _ hprobe with hret | hsize
    · exact hret rfl
    · exact absurd hsize hvalid.size
  constructor
  · intro hkept hadmitted
    have hgranted : Granted window (probed barIndex 0xffffffff 4) := ⟨hvalid, hadmitted⟩
    have hwrite := write_absent hfn hindex
      (programmed (probed barIndex 0xffffffff 4) (alignUp window.next 4))
    rw [hhost] at hwrite
    obtain ⟨bar', hassign, -⟩ := assign_granted host hgranted hwrite
    rw [← hhost] at hassign
    have hnext := hkept _ _ hprobe _ _ _ _ hassign
    exact alignUp_add_ne hvalid.size hvalid.power hnext
  · intro hfull host' r hprobe' ret host'' window' bar' hassign
    rw [hprobe] at hprobe'
    obtain ⟨-, rfl, rfl⟩ := hprobe'
    have hrefused : ¬Granted window (probed barIndex 0xffffffff 4) :=
      fun hgranted => hfull hgranted.admitted
    have hleaves : ∃ ret', ret' ≠ ok ∧ labPcieAssignBar32 (some host) bdf (some window)
        (some (probed barIndex 0xffffffff 4)) =
        (ret', some host, some window, some (probed barIndex 0xffffffff 4)) :=
      assign_refused host hrefused
    obtain ⟨ret', -, hassign'⟩ := hleaves
    rw [hhost, hassign'] at hassign
    obtain ⟨-, -, rfl, -⟩ := hassign
    rfl

end Absent

/-- The board's window of 16 MiB. -/
def boardWindow : Window 32 := ⟨0x50000000, 0x60000000, 0x1000000, 0x50000000⟩

theorem absent_has_bars_device2 : ¬ConsumesNothing twoBars 0x1000 0 (probed 0 0 0) boardWindow := by
  have hfn : simFindFunction twoBars 0x1000 = none := by decide
  intro h
  exact (absent_has_bars (probed 0 0 0) boardWindow hfn (by decide)).2.mp h (by decide)

/-- Device 2 is absent, its BAR 0 is found to be of four bytes, and these are taken. -/
theorem device2_takes_ports :
    simFindFunction twoBars 0x1000 = none ∧ (0 : Word) < 6 ∧
    ¬FindsNoBar twoBars 0x1000 0 (probed 0 0 0) ∧
    ¬ConsumesNothing twoBars 0x1000 0 (probed 0 0 0) boardWindow := by
  have hprobe : labPcieProbeBar32 (simHost twoBars) 0x1000 0 (some (probed 0 0 0)) =
      (ok, simHost twoBars, some (probed 0 0xffffffff 4)) := rfl
  have hassign : labPcieAssignBar32 (simHost twoBars) 0x1000 (some boardWindow)
      (some (probed 0 0xffffffff 4)) =
      (ok, simHost twoBars, some { boardWindow with next := 0x50000004 },
        some { probed 0 0xffffffff 4 with busAddr := 0x50000000, cpuAddr := 0x60000000 }) := rfl
  refine ⟨by decide, by decide, fun h => ?_, fun h => ?_⟩
  · rcases h _ _ _ hprobe with hret | hsize
    · exact hret rfl
    · exact absurd hsize (by decide)
  · exact absurd (h _ _ hprobe _ _ _ _ hassign) (by decide)

end CortexLabs.Pcie.Resource

import CortexLabs.Pcie.BarHost

/-! The probe of a base address register.  It writes all ones, reads which bits have stuck, and
writes the register's value back; on the simulated host this leaves the register as it was, unless
that value is all ones as well. -/

namespace CortexLabs.Pcie.Resource

open Device

structure LabPcieBarResource where
  barIndex : Word
  original : Word
  busAddr : Word
  cpuAddr : Word
  size : Word
  isIo : Byte
  is64bit : Byte
  prefetchable : Byte
  deriving DecidableEq

/-- `lab_pcie_probe_bar32`, with 0 for a variable that has not been read into. -/
def labPcieProbeBar32 {σ : Type} (host : Option (LabPcieHost σ)) (bdf barIndex : Word)
    (bar : Option LabPcieBarResource) :
    Int × Option (LabPcieHost σ) × Option LabPcieBarResource :=
  match host, bar with
  | some host, some bar =>
    if barIndex ≥ 6 then (errArgument, some host, some bar)
    else
      let reg := pcieConfBar0 + barIndex
      let (result, original, host) := labPcieConfigRead32 (some host) bdf reg 0
      if result ≠ ok then (result, host, some bar)
      else
        let bar : LabPcieBarResource :=
          { barIndex, original, busAddr := 0, cpuAddr := 0, size := 0
            isIo := if PcieConfBarIo original then 1 else 0
            is64bit := if PcieConfBarMem original ∧ PcieConfBar64 original then 1 else 0
            prefetchable := if PcieConfBarMem original ∧ original &&& 0x8 ≠ 0 then 1 else 0 }
        if bar.is64bit ≠ 0 then (errUnsupported, host, some bar)
        else
          let (result, host) := labPcieConfigWrite32 host bdf reg 0xffffffff
          if result ≠ ok then (result, host, some bar)
          else
            let (result, probe, host) := labPcieConfigRead32 host bdf reg 0
            -- The value is written back whether the read has succeeded or not.
            let (_, host) := labPcieConfigWrite32 host bdf reg original
            if result ≠ ok then (result, host, some bar)
            else
              let addressMask :=
                if bar.isIo ≠ 0 then pcieConfBarIoAddr probe else pcieConfBarAddr probe
              if addressMask = 0 then (ok, host, some { bar with size := 0 })
              else (ok, host, some { bar with size := ~~~addressMask + 1 })
  | host, bar => (errArgument, host, bar)

/-! ### The bits of a register -/

/-- The low bits of a BAR that are not part of its address. -/
def flagMask (value : Word) : Word := if PcieConfBarIo value then 0x3 else 0xf

/-- A BAR for memory that takes two registers. -/
def Wide (value : Word) : Prop := PcieConfBarMem value ∧ PcieConfBar64 value

instance : DecidablePred Wide := fun _ => inferInstanceAs (Decidable (_ ∧ _))

/-- The size of which `probe` is the mask, for a BAR that held `original`. -/
def measured (original probe : Word) : Word :=
  if probe &&& ~~~flagMask original = 0 then 0 else ~~~(probe &&& ~~~flagMask original) + 1

/-- The structure that a probe fills in for a BAR that held `original`. -/
def probed (barIndex original size : Word) : LabPcieBarResource :=
  { barIndex, original, busAddr := 0, cpuAddr := 0, size
    isIo := if PcieConfBarIo original then 1 else 0
    is64bit := if PcieConfBarMem original ∧ PcieConfBar64 original then 1 else 0
    prefetchable := if PcieConfBarMem original ∧ original &&& 0x8 ≠ 0 then 1 else 0 }

/-- The size that a BAR shows: no bits are decoded below those of its address. -/
def shownSize (bar : LabPcieSimBar) : Word := (bar.size - 1 ||| flagMask bar.value) + 1

section Bits

variable {x v m : Word}

theorem masked_high : (x &&& ~~~m ||| v &&& m) &&& ~~~m = x &&& ~~~m := by
  ext i hi
  simp only [BitVec.getElem_and, BitVec.getElem_or, BitVec.getElem_not]
  cases x[i] <;> cases v[i] <;> cases m[i] <;> rfl

theorem masked_low : (x &&& ~~~m ||| v &&& m) &&& m = v &&& m := by
  ext i hi
  simp only [BitVec.getElem_and, BitVec.getElem_or, BitVec.getElem_not]
  cases x[i] <;> cases v[i] <;> cases m[i] <;> rfl

theorem masked_self : v &&& ~~~m ||| v &&& m = v := by
  ext i hi
  simp only [BitVec.getElem_and, BitVec.getElem_or, BitVec.getElem_not]
  cases v[i] <;> cases m[i] <;> rfl

theorem not_and_not : ~~~(~~~x &&& ~~~m) = x ||| m := by
  ext i hi
  simp only [BitVec.getElem_and, BitVec.getElem_or, BitVec.getElem_not]
  cases x[i] <;> cases m[i] <;> rfl

theorem flagMask_cases (v : Word) :
    PcieConfBarIo v ∧ flagMask v = 0x3 ∨ PcieConfBarMem v ∧ flagMask v = 0xf := by
  by_cases h : PcieConfBarIo v
  · exact .inl ⟨h, if_pos h⟩
  · exact .inr ⟨h, if_neg h⟩

/-- Values with the same flags are of the same kind. -/
theorem same_kind (h : x &&& flagMask v = v &&& flagMask v) :
    flagMask x = flagMask v ∧ (Wide x ↔ Wide v) := by
  have hsub : ∀ s : Word, flagMask v &&& s = s → x &&& s = v &&& s := by
    intro s hs
    rw [← hs, ← BitVec.and_assoc, h, BitVec.and_assoc]
  rcases flagMask_cases v with ⟨hio, hmask⟩ | ⟨hmem, hmask⟩
  · have hbit : x &&& 0x1 = v &&& 0x1 := hsub _ (by rw [hmask]; rfl)
    have hx : PcieConfBarIo x := hbit.trans hio
    refine ⟨(if_pos hx).trans hmask.symm, iff_of_false ?_ ?_⟩
    · exact fun hwide => hwide.1 hx
    · exact fun hwide => hwide.1 hio
  · have hbit : x &&& 0x1 = v &&& 0x1 := hsub _ (by rw [hmask]; rfl)
    have hwidth : x &&& 0x6 = v &&& 0x6 := hsub _ (by rw [hmask]; rfl)
    have hx : PcieConfBarMem x := fun hio => hmem (hbit.symm.trans hio)
    refine ⟨(if_neg hx).trans hmask.symm, and_congr (iff_of_true hx hmem) ?_⟩
    unfold PcieConfBar64
    rw [hwidth]

end Bits

/-! ### The simulated register -/

section Register

variable {b : LabPcieSimBar} {n : Nat}

theorem size_ne_zero (hsize : b.size.toNat = 2 ^ n) : b.size ≠ 0 := by
  intro h
  rw [h] at hsize
  exact absurd hsize.symm (Nat.ne_of_gt (Nat.two_pow_pos n))

theorem toNat_or_flagMask (hsize : b.size.toNat = 2 ^ n) :
    (b.size - 1 ||| flagMask b.value).toNat + 1 =
      max b.size.toNat ((flagMask b.value).toNat + 1) := by
  have hor : ∀ k, (2 ^ n - 1 ||| 2 ^ k - 1) + 1 = max (2 ^ n) (2 ^ k) := by
    intro k
    have hmask : 2 ^ n - 1 ||| 2 ^ k - 1 = 2 ^ max n k - 1 := by
      refine Nat.eq_of_testBit_eq fun i => ?_
      rw [Nat.testBit_or, Nat.testBit_two_pow_sub_one, Nat.testBit_two_pow_sub_one,
        Nat.testBit_two_pow_sub_one, ← Bool.decide_or]
      exact decide_eq_decide.mpr lt_max_iff.symm
    have hpos := Nat.two_pow_pos (max n k)
    have hmono : Monotone fun k : Nat => 2 ^ k := fun a b h => Nat.pow_le_pow_right (by decide) h
    have hmax : 2 ^ max n k = max (2 ^ n) (2 ^ k) := hmono.map_max
    rw [hmask, ← hmax]
    omega
  rw [BitVec.toNat_or, toNat_sub_one (size_ne_zero hsize), hsize]
  rcases flagMask_cases b.value with ⟨-, hmask⟩ | ⟨-, hmask⟩
  · rw [hmask]
    exact hor 2
  · rw [hmask]
    exact hor 4

/-- A size that is a power of two is shown rounded up to the first address bit. -/
theorem shownSize_toNat (hsize : b.size.toNat = 2 ^ n) :
    (shownSize b).toNat = max b.size.toNat ((flagMask b.value).toNat + 1) := by
  have hlt : max b.size.toNat ((flagMask b.value).toNat + 1) < 2 ^ 32 := by
    have hmask : (flagMask b.value).toNat + 1 < 2 ^ 32 := by
      rcases flagMask_cases b.value with ⟨-, h⟩ | ⟨-, h⟩
      · rw [h]
        decide
      · rw [h]
        decide
    exact max_lt b.size.isLt hmask
  rw [shownSize, BitVec.toNat_add, ← toNat_or_flagMask hsize]
  rw [← toNat_or_flagMask hsize] at hlt
  exact Nat.mod_eq_of_lt hlt

theorem probeValue_eq (himplemented : b.implemented ≠ 0) (hsize : b.size ≠ 0) :
    simBarProbeValue b =
      ~~~(b.size - 1) &&& ~~~flagMask b.value ||| b.value &&& flagMask b.value := by
  have hnot : ¬(b.implemented = 0 ∨ b.size = 0) := by
    rintro (h | h)
    · exact himplemented h
    · exact hsize h
  rw [simBarProbeValue, if_neg hnot, flagMask]
  split
  · rfl
  · rfl

theorem read_value (himplemented : b.implemented ≠ 0) (hprobing : b.probing = 0) :
    simBarRead b = b.value := by
  rw [simBarRead, if_neg himplemented, if_neg (not_not.mpr hprobing)]

/-- Reading a BAR shows its flags, whether it is probing or not. -/
theorem read_flags (himplemented : b.implemented ≠ 0) (hsize : b.size ≠ 0) :
    simBarRead b &&& flagMask b.value = b.value &&& flagMask b.value := by
  rw [simBarRead, if_neg himplemented]
  split
  · rw [probeValue_eq himplemented hsize, masked_low]
  · rfl

theorem measured_probeValue {original : Word} (himplemented : b.implemented ≠ 0)
    (hsize : b.size.toNat = 2 ^ n) (hkind : flagMask original = flagMask b.value) :
    measured original (simBarProbeValue b) = shownSize b := by
  have hmask : simBarProbeValue b &&& ~~~flagMask original =
      ~~~(b.size - 1) &&& ~~~flagMask b.value := by
    rw [hkind, probeValue_eq himplemented (size_ne_zero hsize), masked_high]
  have hnonzero : ¬~~~(b.size - 1) &&& ~~~flagMask b.value = 0 := by
    intro hzero
    have hshown : shownSize b = ~~~0 + 1 := by
      rw [← hzero, not_and_not, shownSize]
    have hpos : 0 < (shownSize b).toNat := by
      rw [shownSize_toNat hsize]
      omega
    rw [hshown] at hpos
    exact absurd hpos (by decide)
  rw [measured, hmask, if_neg hnonzero, not_and_not, shownSize]

theorem write_ones (himplemented : b.implemented ≠ 0) :
    simBarWrite b 0xffffffff = { b with probing := 1 } := by
  rw [simBarWrite, if_neg himplemented, if_pos rfl]

theorem read_probing (himplemented : b.implemented ≠ 0) :
    simBarRead { b with probing := 1 } = simBarProbeValue b := by
  rw [simBarRead, if_neg himplemented, if_pos (show (1 : Byte) ≠ 0 by decide)]
  rfl

end Register

/-! ### A probe of the simulated host -/

section Probe

variable {controller : LabPcieSimController} {bdf barIndex : Word} {fn n : Nat} {b : LabPcieSimBar}

/-- A probe reads the BAR, and unless it is wide, writes all ones to it, reads it and writes back
what it has read first. -/
theorem probe_sim (hfn : simFindFunction controller bdf = some fn) (hindex : barIndex < 6)
    (hb : (controller.functions fn).bars barIndex.toNat = b) (bar : LabPcieBarResource) :
    labPcieProbeBar32 (simHost controller) bdf barIndex (some bar) =
      if Wide (simBarRead b) then
        (errUnsupported, simHost controller, some (probed barIndex (simBarRead b) 0))
      else (ok, simHost (controller.setBar fn barIndex.toNat
          (simBarWrite (simBarWrite b 0xffffffff) (simBarRead b))),
        some (probed barIndex (simBarRead b)
          (measured (simBarRead b) (simBarRead (simBarWrite b 0xffffffff))))) := by
  obtain ⟨host, hhost⟩ : ∃ host, simHost controller = some host := ⟨_, rfl⟩
  have hread := read_bar hfn hindex 0
  have hwrite := write_bar hfn hindex 0xffffffff
  have hfn1 : simFindFunction (controller.setBar fn barIndex.toNat (simBarWrite b 0xffffffff)) bdf =
      some fn := by
    rw [simFindFunction_setBar]
    exact hfn
  have hread1 := read_bar hfn1 hindex 0
  have hwrite1 := write_bar hfn1 hindex (simBarRead b)
  rw [bars_setBar, Function.update_self] at hread1 hwrite1
  rw [setBar_setBar] at hwrite1
  rw [hb, hhost] at hread hwrite
  rw [hhost, labPcieProbeBar32]
  dsimp only
  rw [if_neg (BitVec.not_le.mpr hindex), hread]
  dsimp only
  rw [if_neg (not_not.mpr rfl)]
  by_cases hwide : Wide (simBarRead b)
  · have hbits : PcieConfBarMem (simBarRead b) ∧ PcieConfBar64 (simBarRead b) := hwide
    rw [if_pos hwide, if_pos (by rw [if_pos hbits]; decide), probed]
  · have hbits : ¬(PcieConfBarMem (simBarRead b) ∧ PcieConfBar64 (simBarRead b)) := hwide
    rw [if_neg hwide, if_neg (by rw [if_neg hbits]; decide), hwrite]
    dsimp only
    rw [if_neg (not_not.mpr rfl), hread1]
    dsimp only
    rw [hwrite1]
    dsimp only
    rw [if_neg (not_not.mpr rfl)]
    have hmask : (if (if PcieConfBarIo (simBarRead b) then (1 : Byte) else 0) ≠ 0 then
          pcieConfBarIoAddr (simBarRead (simBarWrite b 0xffffffff))
        else pcieConfBarAddr (simBarRead (simBarWrite b 0xffffffff))) =
        simBarRead (simBarWrite b 0xffffffff) &&& ~~~flagMask (simBarRead b) := by
      rcases flagMask_cases (simBarRead b) with ⟨hio, hflags⟩ | ⟨hmem, hflags⟩
      · rw [if_pos hio, if_pos (by decide), hflags, pcieConfBarIoAddr]
      · rw [if_neg hmem, if_neg (not_not.mpr rfl), hflags, pcieConfBarAddr]
    rw [hmask, measured]
    split
    · rw [probed, if_neg hbits]
    · rw [probed, if_neg hbits]

/-- A BAR that is not probing, and does not hold all ones, is as it was after a probe. -/
theorem write_back (hprobing : b.probing = 0) (hvalue : b.value ≠ 0xffffffff) :
    simBarWrite (simBarWrite b 0xffffffff) (simBarRead b) = b := by
  by_cases himplemented : b.implemented = 0
  · have hkeep : ∀ value, simBarWrite b value = b := fun value => if_pos himplemented
    rw [hkeep, hkeep]
  · rw [read_value himplemented hprobing, write_ones himplemented, simBarWrite,
      if_neg himplemented, if_neg hvalue, pcieConfBarFlags, masked_self, ← hprobing]

/-- On the simulated host, a probe of a BAR that is not probing and does not hold all ones leaves
the controller as it was.  It measures the size of a BAR that takes one register, rounded up to the
first address bit, finds no size where there is no BAR, and refuses a BAR that takes two. -/
theorem probe_measures (hfn : simFindFunction controller bdf = some fn) (hindex : barIndex < 6)
    (hb : (controller.functions fn).bars barIndex.toNat = b) (hprobing : b.probing = 0)
    (hvalue : b.value ≠ 0xffffffff) (bar : LabPcieBarResource) :
    ∃ ret r, labPcieProbeBar32 (simHost controller) bdf barIndex (some bar) =
        (ret, simHost controller, some r) ∧
      (b.implemented = 0 → ret = ok ∧ r.size = 0) ∧
      (b.implemented ≠ 0 → Wide b.value → ret = errUnsupported) ∧
      (b.implemented ≠ 0 → ¬Wide b.value → ∀ n, b.size.toNat = 2 ^ n → ret = ok ∧
        r.size.toNat = max b.size.toNat (if PcieConfBarIo b.value then 4 else 16)) := by
  have hprobe := probe_sim hfn hindex hb bar
  rw [write_back hprobing hvalue, ← hb, setBar_same, hb] at hprobe
  by_cases himplemented : b.implemented = 0
  · have hread : simBarRead b = 0 := if_pos himplemented
    have hkeep : simBarWrite b 0xffffffff = b := if_pos himplemented
    rw [hread, if_neg (by decide), hkeep, hread] at hprobe
    have hnone : measured 0 0 = 0 := by decide
    refine ⟨_, _, hprobe, fun _ => ⟨rfl, hnone⟩, ?_, ?_⟩
    · exact fun h => absurd himplemented h
    · exact fun h => absurd himplemented h
  rw [read_value himplemented hprobing] at hprobe
  by_cases hwide : Wide b.value
  · rw [if_pos hwide] at hprobe
    refine ⟨_, _, hprobe, fun h => absurd h himplemented, fun _ _ => rfl, ?_⟩
    exact fun _ h => absurd hwide h
  · rw [if_neg hwide, write_ones himplemented, read_probing himplemented] at hprobe
    refine ⟨_, _, hprobe, fun h => absurd h himplemented, fun _ h => absurd h hwide, ?_⟩
    intro _ _ n hsize
    refine ⟨rfl, ?_⟩
    show (measured b.value (simBarProbeValue b)).toNat = _
    rw [measured_probeValue himplemented hsize rfl, shownSize_toNat hsize, flagMask]
    split
    · rfl
    · rfl

end Probe

/-- A function with a BAR of a page for memory and one of eight ports. -/
def twoBars : LabPcieSimController where
  functions _ :=
    { bdf := 0x800, present := 1, config := fun _ => 0
      bars := fun index =>
        if index = 0 then ⟨0, 0x1000, 1, 0⟩
        else if index = 1 then ⟨0x1, 8, 1, 0⟩
        else ⟨0, 0, 0, 0⟩ }
  functionCount := 1

/-- The ports are measured, and the probe leaves no trace. -/
theorem probe_measures_ports : ∃ r, labPcieProbeBar32 (simHost twoBars) 0x800 1
    (some (probed 0 0 0)) = (ok, simHost twoBars, some r) ∧ r.size.toNat = 8 := by
  have hports : simFindFunction twoBars 0x800 = some 0 := rfl
  have hindex : (1 : Word) < 6 := by decide
  have hbar : (twoBars.functions 0).bars (1 : Word).toNat = ⟨0x1, 8, 1, 0⟩ := rfl
  obtain ⟨ret, r, hprobe, -, -, hmeasured⟩ := probe_measures hports hindex hbar rfl (by decide)
    (probed 0 0 0)
  obtain ⟨hret, hsize⟩ := hmeasured (by decide) (by decide) 3 rfl
  rw [hret] at hprobe
  exact ⟨r, hprobe, hsize⟩

end CortexLabs.Pcie.Resource

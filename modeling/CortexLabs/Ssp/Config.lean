import CortexLabs.Ssp.Transfers

/-! What `mps2_ssp_init` makes of a configuration: the register `CR0`, in which a PL022 finds four
fields, and the clock rate.  Neither the number of data bits nor the divisor is checked, though there
is an error code for the clock. -/

namespace CortexLabs.Ssp

open Device

/-! ### The register -/

/-- The fields of `CR0`: the data size less one, the frame format, the polarity and the phase of the
clock, its rate, and bits that are not used. -/
structure Cr0 where
  dss : BitVec 4
  frf : BitVec 2
  spo : Bool
  sph : Bool
  scr : Byte
  unused : BitVec 16
  deriving DecidableEq

def Cr0.decode (value : Word) : Cr0 where
  dss := value.extractLsb' 0 4
  frf := value.extractLsb' 4 2
  spo := value.getLsbD 6
  sph := value.getLsbD 7
  scr := value.extractLsb' 8 8
  unused := value.extractLsb' 16 16

/-- The header places the fields of `CR0` as a PL022 does, and 0 is the Motorola format. -/
structure Pl022 (fields : SspFields) : Prop where
  dss : fields.cr0DssPos = 0
  frf : fields.cr0FrfMot = 0
  spo : fields.cr0SpoMsk = 0x40
  sph : fields.cr0SphMsk = 0x80
  scr : fields.cr0ScrPos = 8

def SspMode.cpol : SspMode → Bool
  | .mode0 | .mode1 => false
  | .mode2 | .mode3 => true

def SspMode.cpha : SspMode → Bool
  | .mode0 | .mode2 => false
  | .mode1 | .mode3 => true

/-- The fields of `value` are those of the configuration. -/
structure Encodes (cfg : Mps2SspConfig) (value : Word) : Prop where
  dss : (Cr0.decode value).dss.toNat + 1 = cfg.dataBits.toNat
  frf : (Cr0.decode value).frf = 0
  spo : (Cr0.decode value).spo = cfg.mode.cpol
  sph : (Cr0.decode value).sph = cfg.mode.cpha
  scr : (Cr0.decode value).scr = cfg.scr
  unused : (Cr0.decode value).unused = 0

section Register

variable {fields : SspFields} {cfg : Mps2SspConfig}

theorem getLsbD_spo (i : Nat) : (64#32).getLsbD i = decide (i = 6) := by
  rw [show (64#32) = BitVec.twoPow 32 6 by decide, BitVec.getLsbD_twoPow]
  by_cases h : i = 6
  · simp [h]
  · simp [h, Ne.symm h]

theorem getLsbD_sph (i : Nat) : (128#32).getLsbD i = decide (i = 7) := by
  rw [show (128#32) = BitVec.twoPow 32 7 by decide, BitVec.getLsbD_twoPow]
  by_cases h : i = 7
  · simp [h]
  · simp [h, Ne.symm h]

theorem getLsbD_spo_sph (i : Nat) : (192#32).getLsbD i = (decide (i = 6) || decide (i = 7)) := by
  rw [show (192#32) = 64#32 ||| 128#32 by decide, BitVec.getLsbD_or, getLsbD_spo, getLsbD_sph]

/-- The bits of what `build_cr0` returns. -/
theorem buildCr0_bit (hlayout : Pl022 fields) (i : Nat) : (buildCr0 fields cfg).getLsbD i =
    ((cfg.dataBits.setWidth 32 - 1).getLsbD i || decide (8 ≤ i) && cfg.scr.getLsbD (i - 8) ||
      decide (i = 6) && cfg.mode.cpol || decide (i = 7) && cfg.mode.cpha) := by
  have hscr : (cfg.scr.setWidth 32 <<< 8).getLsbD i =
      (decide (8 ≤ i) && cfg.scr.getLsbD (i - 8)) := by
    rw [BitVec.getLsbD_shiftLeft, BitVec.getLsbD_setWidth]
    by_cases hlow : i < 8
    · simp [hlow, Nat.not_le.mpr hlow]
    by_cases hhigh : i < 32
    · simp [hlow, hhigh, Nat.not_lt.mp hlow, show i - 8 < 32 by omega]
    · rw [BitVec.getLsbD_of_ge cfg.scr (i - 8) (by omega)]
      simp [hhigh]
  unfold buildCr0
  rw [hlayout.dss, hlayout.frf, hlayout.scr, hlayout.spo, hlayout.sph]
  cases hmode : cfg.mode with
  | mode0 => simp [hscr, SspMode.cpol, SspMode.cpha]
  | mode1 => simp [hscr, getLsbD_sph, SspMode.cpol, SspMode.cpha]
  | mode2 => simp [hscr, getLsbD_spo, SspMode.cpol, SspMode.cpha]
  | mode3 => simp [hscr, getLsbD_spo_sph, SspMode.cpol, SspMode.cpha, Bool.or_assoc]

theorem dataBits_sub_one (h : 1 ≤ cfg.dataBits.toNat) :
    (cfg.dataBits.setWidth 32 - 1 : Word).toNat = cfg.dataBits.toNat - 1 := by
  have hlt := cfg.dataBits.isLt
  have hone : (1 : Word).toNat = 1 := rfl
  have hwide : (cfg.dataBits.setWidth 32).toNat = cfg.dataBits.toNat := by
    rw [BitVec.toNat_setWidth]
    omega
  rw [BitVec.toNat_sub_of_le, hwide, hone]
  rw [BitVec.le_def, hwide, hone]
  exact h

/-- Of 1 to 16 data bits, no bit spills into another field. -/
theorem dataBits_high (hlo : 1 ≤ cfg.dataBits.toNat) (hhi : cfg.dataBits.toNat ≤ 16) {i : Nat}
    (hi : 4 ≤ i) : (cfg.dataBits.setWidth 32 - 1 : Word).getLsbD i = false := by
  apply Nat.testBit_lt_two_pow
  rw [dataBits_sub_one hlo]
  have hpow : 2 ^ 4 ≤ 2 ^ i := Nat.pow_le_pow_right (by decide) hi
  omega

theorem encodes_of_dataBits (hlayout : Pl022 fields) (hlo : 1 ≤ cfg.dataBits.toNat)
    (hhi : cfg.dataBits.toNat ≤ 16) : Encodes cfg (buildCr0 fields cfg) := by
  have hbit (i : Nat) : (buildCr0 fields cfg).getLsbD i = _ := buildCr0_bit hlayout i
  have hhigh := @dataBits_high cfg hlo hhi
  constructor
  · have hdss : (Cr0.decode (buildCr0 fields cfg)).dss =
        (cfg.dataBits.setWidth 32 - 1 : Word).setWidth 4 := by
      apply BitVec.eq_of_getLsbD_eq
      intro i hi
      rw [Cr0.decode, BitVec.getLsbD_extractLsb', BitVec.getLsbD_setWidth, hbit]
      simp [show ¬8 ≤ i by omega, show i ≠ 6 by omega, show i ≠ 7 by omega]
    rw [hdss, BitVec.toNat_setWidth, dataBits_sub_one hlo]
    omega
  · apply BitVec.eq_of_getLsbD_eq
    intro i hi
    rw [Cr0.decode, BitVec.getLsbD_extractLsb', hbit, hhigh (by omega)]
    simp [show ¬8 ≤ 4 + i by omega, show 4 + i ≠ 6 by omega, show 4 + i ≠ 7 by omega]
  · show (buildCr0 fields cfg).getLsbD 6 = _
    rw [hbit, hhigh (by omega)]
    simp
  · show (buildCr0 fields cfg).getLsbD 7 = _
    rw [hbit, hhigh (by omega)]
    simp
  · apply BitVec.eq_of_getLsbD_eq
    intro i hi
    rw [Cr0.decode, BitVec.getLsbD_extractLsb', hbit, hhigh (by omega)]
    simp [hi, show 8 + i ≠ 6 by omega, show 8 + i ≠ 7 by omega]
  · apply BitVec.eq_of_getLsbD_eq
    intro i hi
    rw [Cr0.decode, BitVec.getLsbD_extractLsb', hbit, hhigh (by omega),
      BitVec.getLsbD_of_ge cfg.scr _ (by omega)]
    simp [show 16 + i ≠ 6 by omega, show 16 + i ≠ 7 by omega]

/-- Only 1 to 16 data bits have an encoding. -/
theorem Encodes.dataBits {value : Word} (h : Encodes cfg value) :
    1 ≤ cfg.dataBits.toNat ∧ cfg.dataBits.toNat ≤ 16 := by
  have hdss := h.dss
  have hlt := (Cr0.decode value).dss.isLt
  omega

end Register

/-! ### The call -/

def Mps2SspConfig.divisor (cfg : Mps2SspConfig) : Nat := cfg.cpsdvsr.toNat * (cfg.scr.toNat + 1)

section Call

variable {D : Behavior Op Ans} {fields : SspFields} {cfg : Mps2SspConfig}

/-- The values that have been written to a register. -/
def writes (reg : Reg) (t : List (Event D)) : List Word :=
  t.filterMap fun e =>
    match e.op with
    | .writeReg r value => if r = reg then some value else none
    | _ => none

/-- With a clock, `mps2_ssp_init` succeeds, whatever the registers hold. -/
theorem mps2SspInit_writes (ssp : Mps2Ssp) (hclock : cfg.inputClockHz ≠ 0) {s s' : D.State}
    {t : List (Event D)} {r : Int × Option Mps2Ssp}
    (he : Exec D (mps2SspInit fields (some ssp) (some cfg)) s t (some r) s') :
    r = (mps2SspOk, some { ssp with actualClockHz := quotientHz cfg }) ∧
      writes .cr0 t = [buildCr0 fields cfg] := by
  have hsafe : Safe D (fun t r _ =>
      r = (mps2SspOk, some { ssp with actualClockHz := quotientHz cfg }) ∧
        writes .cr0 t = [buildCr0 fields cfg]) (fun _ _ => True)
      (mps2SspInit fields (some ssp) (some cfg)) [] s := by
    unfold mps2SspInit
    dsimp only
    rw [if_neg hclock]
    refine ⟨fun _ _ => trivial, fun cr1 s1 _ => ?_⟩
    refine ⟨fun _ _ => trivial, fun _ s2 _ => ?_⟩
    refine ⟨fun _ _ => trivial, fun _ s3 _ => ?_⟩
    refine ⟨fun _ _ => trivial, fun _ s4 _ => ?_⟩
    refine ⟨fun _ _ => trivial, fun _ s5 _ => ?_⟩
    refine ⟨fun _ _ => trivial, fun _ s6 _ => ?_⟩
    refine ⟨fun _ _ => trivial, fun _ s7 _ => ?_⟩
    exact ⟨rfl, rfl⟩
  exact (hsafe.sound he).1 r rfl

/-- What a call fails on does not matter; otherwise, the divisor is not zero, the clock rate is the
quotient, and the one value that is written to `CR0` encodes the configuration. -/
def ConfiguresLosslessly (fields : SspFields) (ssp : Option Mps2Ssp) (cfg : Mps2SspConfig) : Prop :=
  ∀ (D : Behavior Op Ans) (s s' : D.State) (t : List (Event D)) (rc : Int) (ssp' : Option Mps2Ssp),
    Exec D (mps2SspInit fields ssp (some cfg)) s t (some (rc, ssp')) s' →
      rc ≠ mps2SspOk ∨
      cfg.divisor ≠ 0 ∧
      (∃ hz, ssp'.map Mps2Ssp.actualClockHz = some (some hz) ∧
        hz.toNat = cfg.inputClockHz.toNat / cfg.divisor) ∧
      ∃ value, writes .cr0 t = [value] ∧ Encodes cfg value

theorem quotientHz_exact (h : cfg.divisor ≠ 0) : ∃ hz, quotientHz cfg = some hz ∧
    hz.toNat = cfg.inputClockHz.toNat / cfg.divisor := by
  refine ⟨_, if_neg h, ?_⟩
  rw [BitVec.toNat_ofNat, Nat.mod_eq_of_lt]
  · rfl
  · exact Nat.lt_of_le_of_lt (Nat.div_le_self _ _) cfg.inputClockHz.isLt

/-- Registers that read as 0. -/
def zeroAnswer : (o : Op) → Unit → Ans o × Unit
  | .readReg _, _ => (0, ())
  | .load _, _ => (0, ())
  | .writeReg _ _, _ | .store _ _, _ => ((), ())

def zeroSsp : Behavior Op Ans where
  State := Unit
  answer _ o r _ := r = (zeroAnswer o ()).1
  torn _ _ _ := False

theorem zeroSsp_handles : Handles zeroSsp zeroAnswer := fun _ _ => rfl

theorem divisor_ne_zero (cfg : Mps2SspConfig) : cfg.divisor ≠ 0 ↔ cfg.cpsdvsr ≠ 0 := by
  rw [Mps2SspConfig.divisor, Nat.mul_ne_zero_iff, and_iff_left (Nat.succ_ne_zero _)]
  constructor
  · intro hne hzero
    rw [hzero] at hne
    exact hne rfl
  · exact fun hne hzero => hne (BitVec.eq_of_toNat_eq hzero)

/-- `mps2_ssp_init` refuses a missing SSP and a missing clock. -/
theorem mps2SspInit_refuses {ssp ssp' : Option Mps2Ssp} (h : ssp = none ∨ cfg.inputClockHz = 0)
    {s s' : D.State} {t : List (Event D)} {rc : Int}
    (he : Exec D (mps2SspInit fields ssp (some cfg)) s t (some (rc, ssp')) s') :
    rc ≠ mps2SspOk := by
  cases ssp with
  | none =>
    obtain ⟨-, hr, -⟩ := he.of_ret
    rw [(Prod.mk.inj hr).1]
    decide
  | some ssp =>
    rcases h with hnull | hclock
    · cases hnull
    unfold mps2SspInit at he
    dsimp only at he
    rw [if_pos hclock] at he
    obtain ⟨-, hr, -⟩ := he.of_ret
    rw [(Prod.mk.inj hr).1]
    decide

/-- What `mps2_ssp_init` does not refuse has a prescaler and 1 to 16 data bits. -/
theorem ConfiguresLosslessly.valid {ssp : Mps2Ssp} (hclock : cfg.inputClockHz ≠ 0)
    (h : ConfiguresLosslessly fields (some ssp) cfg) :
    cfg.cpsdvsr ≠ 0 ∧ 1 ≤ cfg.dataBits.toNat ∧ cfg.dataBits.toNat ≤ 16 := by
  obtain ⟨⟨rc, ssp'⟩, s', t, he⟩ : ∃ r s' t,
      Exec zeroSsp (mps2SspInit fields (some ssp) (some cfg)) () t (some r) s' :=
    ⟨_, _, zeroSsp_handles.exec _ ()⟩
  obtain ⟨hr, -⟩ := mps2SspInit_writes ssp hclock he
  rcases h _ _ _ _ _ _ he with hrc | ⟨hne, -, value, -, hencodes⟩
  · exact absurd (Prod.mk.inj hr).1 hrc
  · exact ⟨(divisor_ne_zero cfg).mp hne, hencodes.dataBits⟩

/-- With a prescaler and 1 to 16 data bits, nothing is lost. -/
theorem configuresLosslessly (hlayout : Pl022 fields) (ssp : Mps2Ssp)
    (hclock : cfg.inputClockHz ≠ 0) (hcpsdvsr : cfg.cpsdvsr ≠ 0) (hlo : 1 ≤ cfg.dataBits.toNat)
    (hhi : cfg.dataBits.toNat ≤ 16) : ConfiguresLosslessly fields (some ssp) cfg := by
  intro D s s' t rc ssp' he
  have hdivisor := (divisor_ne_zero cfg).mpr hcpsdvsr
  obtain ⟨hr, hwrites⟩ := mps2SspInit_writes ssp hclock he
  obtain ⟨rfl, rfl⟩ := Prod.mk.inj hr
  obtain ⟨hz, hquotient, hexact⟩ := quotientHz_exact hdivisor
  refine .inr ⟨hdivisor, ⟨hz, ?_, hexact⟩, _, hwrites, ?_⟩
  · rw [Option.map_some, hquotient]
  · exact encodes_of_dataBits hlayout hlo hhi

/-- With the fields of a PL022, for every configuration: unless `mps2_ssp_init` refuses it, it is
configured without loss if and only if `cpsdvsr` is not 0 and there are 1 to 16 data bits. -/
theorem configuresLosslessly_iff (hlayout : Pl022 fields) (ssp : Option Mps2Ssp)
    (cfg : Mps2SspConfig) : ConfiguresLosslessly fields ssp cfg ↔
      ssp = none ∨ cfg.inputClockHz = 0 ∨
      cfg.cpsdvsr ≠ 0 ∧ 1 ≤ cfg.dataBits.toNat ∧ cfg.dataBits.toNat ≤ 16 := by
  cases ssp with
  | none =>
    have hrefused : ConfiguresLosslessly fields none cfg := fun _ _ _ _ _ _ he =>
      .inl (mps2SspInit_refuses (.inl rfl) he)
    exact iff_of_true hrefused (.inl rfl)
  | some ssp =>
    by_cases hclock : cfg.inputClockHz = 0
    · have hrefused : ConfiguresLosslessly fields (some ssp) cfg := fun _ _ _ _ _ _ he =>
        .inl (mps2SspInit_refuses (.inr hclock) he)
      exact iff_of_true hrefused (.inr (.inl hclock))
    constructor
    · exact fun h => .inr (.inr (h.valid hclock))
    · rintro (hnull | hzero | ⟨hcpsdvsr, hlo, hhi⟩)
      · cases hnull
      · exact absurd hzero hclock
      · exact configuresLosslessly hlayout ssp hclock hcpsdvsr hlo hhi

end Call

/-- The configuration of the board, for eight data bits. -/
def boardConfig : Mps2SspConfig := ⟨.mode0, 8, 1, 8, 3, 25000000⟩

theorem pl022Fields_layout : Pl022 pl022Fields := ⟨rfl, rfl, rfl, rfl, rfl⟩

theorem boardConfig_lossless : ConfiguresLosslessly pl022Fields (some ⟨100, none⟩) boardConfig :=
  (configuresLosslessly_iff pl022Fields_layout _ _).mpr (.inr (.inr (by decide)))

/-- With a prescaler of 0, `mps2_ssp_init` divides by zero and returns no error. -/
theorem zero_cpsdvsr_accepted : ¬ConfiguresLosslessly pl022Fields (some ⟨100, none⟩)
    { boardConfig with cpsdvsr := 0 } := by
  intro h
  obtain ⟨t, he⟩ := zeroSsp_handles.exec
    (mps2SspInit pl022Fields (some ⟨100, none⟩) (some { boardConfig with cpsdvsr := 0 })) ()
  rcases h _ _ _ _ _ _ he with hrc | ⟨hdivisor, -⟩
  · exact hrc rfl
  · exact hdivisor rfl

end CortexLabs.Ssp

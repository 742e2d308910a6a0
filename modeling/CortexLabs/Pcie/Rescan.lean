import CortexLabs.Pcie.Enumeration

/-! What a scan leaves of the records that it fills.  `pcie_read_function` writes no `prog_if`, and
base address registers only where the header type is 0; whatever else a record holds comes from the
host.  So two enumerations of one configuration space agree exactly when what was in those fields
before agreed. -/

namespace CortexLabs.Pcie.Bus

open Device

/-- The fields of a record that reading a function may leave as they were. -/
structure Over (old new : PcieDevice) : Prop where
  progIf : new.progIf = old.progIf
  bars : new.headerType ≠ pcieHeaderTypeNormal → new.bars = old.bars

section Function

variable (bus : PcieBus) (bdf : PcieBdf) (dev : PcieDevice)

theorem readBars_over (indices : List (Fin pcieMaxBars)) :
    (forEach (readBar bus bdf) dev indices).2.progIf = dev.progIf ∧
      (forEach (readBar bus bdf) dev indices).2.headerType = dev.headerType := by
  have hbody : ∀ dev index, (readBar bus bdf dev index).2.progIf = dev.progIf ∧
      (readBar bus bdf dev index).2.headerType = dev.headerType := by
    intro dev index
    simp only [readBar]
    split <;> exact ⟨rfl, rfl⟩
  induction indices generalizing dev with
  | nil => exact ⟨rfl, rfl⟩
  | cons index rest ih =>
    have hturn := hbody dev index
    rw [forEach]
    dsimp only
    split
    · exact hturn
    · have hrest := ih (readBar bus bdf dev index).2
      exact ⟨hrest.1.trans hturn.1, hrest.2.trans hturn.2⟩

theorem readInterrupt_over : (readInterrupt bus bdf dev).2.progIf = dev.progIf ∧
    (readInterrupt bus bdf dev).2.headerType = dev.headerType ∧
    (readInterrupt bus bdf dev).2.bars = dev.bars := by
  simp only [readInterrupt]
  split <;> exact ⟨rfl, rfl, rfl⟩

/-- Whatever the host answers, reading a function writes no `prog_if`, and base address registers
only of header type 0. -/
theorem readFunction_over : Over dev (pcieReadFunction bus bdf dev).2 := by
  simp only [pcieReadFunction]
  generalize (if (pcieRead32 bus bdf pcieCfgHeader).2 &&& 0x00800000 ≠ 0 then (1 : Byte) else 0) =
    multifunction
  split
  · exact ⟨rfl, fun _ => rfl⟩
  split
  · exact ⟨rfl, fun _ => rfl⟩
  split
  · exact ⟨rfl, fun _ => rfl⟩
  split
  · next hnormal =>
    split
    · obtain ⟨hprog, htype⟩ := readBars_over bus bdf _ (List.finRange pcieMaxBars)
      exact ⟨hprog, fun h => absurd (htype.trans hnormal) h⟩
    · obtain ⟨hprog, htype, -⟩ := readInterrupt_over bus bdf _
      obtain ⟨hprog', htype'⟩ := readBars_over bus bdf _ (List.finRange pcieMaxBars)
      exact ⟨hprog.trans hprog', fun h => absurd (htype.trans (htype'.trans hnormal)) h⟩
  · obtain ⟨hprog, -, hbars⟩ := readInterrupt_over bus bdf _
    exact ⟨hprog, fun _ => hbars⟩

end Function

/-- What scanning a function keeps when it succeeds, scanning a bus keeps when it does. -/
theorem scanBus_keeps {P : PcieBus → Prop}
    (hstep : ∀ bus busNumber device function, P bus →
      (pcieScanFunction bus busNumber device function).1 = pcieOk →
      P (pcieScanFunction bus busNumber device function).2)
    {bus : PcieBus} (busNumber : Byte) (h : P bus) (hok : (pcieScanBus bus busNumber).1 = pcieOk) :
    P (pcieScanBus bus busNumber).2 := by
  have hloop : ∀ {body : PcieBus → Nat → Int × PcieBus} (xs : List Nat) {bus : PcieBus},
      (∀ bus x, P bus → (body bus x).1 = pcieOk → P (body bus x).2) → P bus →
      (forEach body bus xs).1 = pcieOk → P (forEach body bus xs).2 := by
    intro body xs bus hbody h
    exact (forEach_rule (P := fun _ bus => P bus) (E := fun _ _ => True) h
      fun _ x _ bus _ h => ⟨hbody bus x h, fun _ => trivial⟩).1
  refine hloop _ (fun bus device h hok => ?_) h hok
  simp only [pcieScanDevice] at hok ⊢
  split at hok
  · next hresult => exact absurd hok hresult
  next hresult =>
  rw [if_neg hresult]
  split at hok
  · next habsent =>
    rw [if_pos habsent]
    exact h
  next hpresent =>
  rw [if_neg hpresent]
  split at hok
  · next hfirst => exact absurd hok hfirst
  next hfirst =>
  have h0 := hstep bus busNumber (BitVec.ofNat 8 device) 0 h (not_not.mp hfirst)
  rw [if_neg hfirst]
  split at hok
  · next hheader => exact absurd hok hheader
  next hheader =>
  rw [if_neg hheader]
  split at hok
  · next hsingle =>
    rw [if_pos hsingle]
    exact h0
  next hmulti =>
  rw [if_neg hmulti]
  exact hloop _ (fun bus function h hok => hstep _ _ _ _ h hok) h0 hok

/-- Every record is over the one that was there, and those that have not been filled are as they
were. -/
structure Leftovers (start bus : PcieBus) : Prop where
  written : ∀ k, Over (start.devices k) (bus.devices k)
  rest : ∀ k, bus.deviceCount ≤ k → bus.devices k = start.devices k

theorem Leftovers.scanFunction {start bus : PcieBus} {busNumber device function : Byte}
    (h : Leftovers start bus)
    (hok : (pcieScanFunction bus busNumber device function).1 = pcieOk) :
    Leftovers start (pcieScanFunction bus busNumber device function).2 := by
  simp only [pcieScanFunction] at hok ⊢
  split at hok
  · next hresult => exact absurd hok hresult
  next hresult =>
  rw [if_neg hresult]
  split at hok
  · next habsent =>
    rw [if_pos habsent]
    exact h
  next hpresent =>
  rw [if_neg hpresent]
  split at hok
  · have hfull : pcieErrArgument = pcieOk := hok
    exact absurd hfull (by decide)
  next hroom =>
  rw [if_neg hroom]
  split at hok
  · next hread => exact absurd hok hread
  next hread =>
  rw [if_neg hread]
  refine ⟨fun k => ?_, fun k hk => ?_⟩
  · dsimp only
    by_cases hk : k = bus.deviceCount
    · rw [hk, Function.update_self, ← h.rest _ (Nat.le_refl _)]
      exact readFunction_over _ _ _
    · rw [Function.update_of_ne hk]
      exact h.written k
  · dsimp only at hk ⊢
    rw [Function.update_of_ne (by omega)]
    exact h.rest k (by omega)

theorem enumerate_leftovers {bus : PcieBus} (hok : (pcieEnumerate bus).1 = pcieOk) :
    Leftovers bus (pcieEnumerate bus).2 := by
  have hstart : Leftovers bus { bus with deviceCount := 0 } :=
    ⟨fun _ => ⟨rfl, fun _ => rfl⟩, fun _ _ => rfl⟩
  rw [pcieEnumerate] at hok ⊢
  split at hok
  · have hnone : pcieErrArgument = pcieOk := hok
    exact absurd hnone (by decide)
  next hhost =>
  rw [if_neg hhost]
  exact scanBus_keeps (fun _ _ _ _ h hok => h.scanFunction hok) 0 hstart hok

/-- The header type of a function. -/
def headerTypeOf (cfg : ConfigSpace) (bdf : PcieBdf) : Byte :=
  ((cfg bdf 0x0c).extractLsb' 16 7).setWidth 8

/-- Two records of one function differ at most in what reading it leaves as it was. -/
theorem describes_eq_iff {cfg : ConfigSpace} {bdf : PcieBdf} {dev1 dev2 : PcieDevice}
    (h1 : Describes cfg bdf dev1) (h2 : Describes cfg bdf dev2) :
    dev1 = dev2 ↔ dev1.progIf = dev2.progIf ∧
      (headerTypeOf cfg bdf ≠ pcieHeaderTypeNormal → dev1.bars = dev2.bars) := by
  have htype1 : dev1.headerType = headerTypeOf cfg bdf := h1.headerType
  have htype2 : dev2.headerType = headerTypeOf cfg bdf := h2.headerType
  constructor
  · rintro rfl
    exact ⟨rfl, fun _ => rfl⟩
  · rintro ⟨hprog, hbars⟩
    have hbars' : dev1.bars = dev2.bars := by
      by_cases hnormal : headerTypeOf cfg bdf = pcieHeaderTypeNormal
      · funext k
        exact (h1.bars (htype1.trans hnormal) k).unique (h2.bars (htype2.trans hnormal) k)
      · exact hbars hnormal
    obtain ⟨hbdf, hvendor, hdevice, hrev, hsub, hclass, -, hmulti, -, hline, hpin⟩ := h1
    obtain ⟨hbdf', hvendor', hdevice', hrev', hsub', hclass', -, hmulti', -, hline', hpin'⟩ := h2
    cases dev1
    cases dev2
    simp_all only

/-- Two buses have recorded the same. -/
def SameRecords (bus1 bus2 : PcieBus) : Prop :=
  bus1.deviceCount = bus2.deviceCount ∧ ∀ k < bus1.deviceCount, bus1.devices k = bus2.devices k

section Enumerations

variable {cfg : ConfigSpace} {host : PcieHost} {bus1 bus2 opened1 opened2 : PcieBus}

theorem sameRecords_iff (hs : Shows host cfg) (hhost1 : bus1.host = some host)
    (hhost2 : bus2.host = some host) (hok1 : (pcieEnumerate bus1).1 = pcieOk)
    (hok2 : (pcieEnumerate bus2).1 = pcieOk) :
    SameRecords (pcieEnumerate bus1).2 (pcieEnumerate bus2).2 ↔
      ∀ k (hk : k < (topology cfg 0).length), (bus1.devices k).progIf = (bus2.devices k).progIf ∧
        (headerTypeOf cfg (topology cfg 0)[k] ≠ pcieHeaderTypeNormal →
          (bus1.devices k).bars = (bus2.devices k).bars) := by
  have hrec1 := (enumerate_scanned hs hhost1).1 hok1
  have hrec2 := (enumerate_scanned hs hhost2).1 hok2
  rw [List.nil_append] at hrec1 hrec2
  have hover1 := (enumerate_leftovers hok1).written
  have hover2 := (enumerate_leftovers hok2).written
  rw [SameRecords, hrec1.count, hrec2.count]
  refine (and_iff_right rfl).trans (forall_congr' fun k => forall_congr' fun hk => ?_)
  rw [describes_eq_iff (hrec1.records k hk) (hrec2.records k hk), (hover1 k).progIf,
    (hover2 k).progIf]
  refine and_congr_right fun _ => imp_congr_right fun hbridge => ?_
  have htype1 : ((pcieEnumerate bus1).2.devices k).headerType ≠ pcieHeaderTypeNormal :=
    fun h => hbridge ((hrec1.records k hk).headerType.symm.trans h)
  have htype2 : ((pcieEnumerate bus2).2.devices k).headerType ≠ pcieHeaderTypeNormal :=
    fun h => hbridge ((hrec2.records k hk).headerType.symm.trans h)
  rw [(hover1 k).bars htype1, (hover2 k).bars htype2]

theorem pcieBusInit_ok {bus opened : PcieBus}
    (h : pcieBusInit (some bus) (some host) = (pcieOk, some opened)) :
    opened.host = some host ∧ opened.devices = bus.devices := by
  obtain rfl := Option.some.inj (congrArg Prod.snd h)
  exact ⟨rfl, rfl⟩

/-- Two successful enumerations of one configuration space record the same exactly when each record
that they fill held the same `prog_if` before, and the same base address registers where it is
filled from a function whose header type is not 0. -/
theorem enumerate_depends_on_host (hs : Shows host cfg)
    (hinit1 : pcieBusInit (some bus1) (some host) = (pcieOk, some opened1))
    (hinit2 : pcieBusInit (some bus2) (some host) = (pcieOk, some opened2))
    (hok1 : (pcieEnumerate opened1).1 = pcieOk) (hok2 : (pcieEnumerate opened2).1 = pcieOk) :
    SameRecords (pcieEnumerate opened1).2 (pcieEnumerate opened2).2 ↔
      ∀ k (hk : k < (topology cfg 0).length), (bus1.devices k).progIf = (bus2.devices k).progIf ∧
        (headerTypeOf cfg (topology cfg 0)[k] ≠ pcieHeaderTypeNormal →
          (bus1.devices k).bars = (bus2.devices k).bars) := by
  obtain ⟨hhost1, hdevices1⟩ := pcieBusInit_ok hinit1
  obtain ⟨hhost2, hdevices2⟩ := pcieBusInit_ok hinit2
  rw [sameRecords_iff hs hhost1 hhost2 hok1 hok2, hdevices1, hdevices2]

/-- An enumeration that finds no more functions than there are records succeeds. -/
theorem enumerate_ok (hs : Shows host cfg) (hhost : bus1.host = some host)
    (hfits : (topology cfg 0).length ≤ pcieMaxDevices) : (pcieEnumerate bus1).1 = pcieOk := by
  by_contra hbad
  have hfull := ((enumerate_scanned hs hhost).2 hbad).1
  rw [List.nil_append] at hfull
  exact absurd hfits (Nat.not_le.mpr hfull)

end Enumerations

def hostOf (cfg : ConfigSpace) : PcieHost := ⟨some ⟨some fun bdf offset => (pcieOk, cfg bdf offset)⟩⟩

theorem hostOf_shows (cfg : ConfigSpace) : Shows (hostOf cfg) cfg :=
  ⟨_, _, rfl, rfl, fun _ _ _ => rfl⟩

/-- A bus whose records all hold `bar` in their base address registers, from an earlier scan. -/
def usedBus (host : PcieHost) (bar : PcieBar) : PcieBus where
  host := some host
  devices _ := ⟨⟨0, 1, 0⟩, 0x1234, 0x5678, 1, 0, 0, 2, 0, 0, fun _ => bar, 5, 1⟩
  deviceCount := 1

theorem usedBus_init (host : PcieHost) (bar : PcieBar) :
    pcieBusInit (some (usedBus host bar)) (some host) =
      (pcieOk, some { usedBus host bar with deviceCount := 0 }) := rfl

/-- Nothing of the earlier scan is left in the records of two functions with header type 0. -/
theorem enumerate_depends_on_host_two : SameRecords
    (pcieEnumerate { usedBus (hostOf twoFunctions) ⟨0, 0, 0, 0, 0⟩ with deviceCount := 0 }).2
    (pcieEnumerate { usedBus (hostOf twoFunctions) (pcieDecodeBar 0x50000000) with
      deviceCount := 0 }).2 := by
  have hfound : topology twoFunctions 0 = [⟨0, 3, 0⟩, ⟨0, 3, 5⟩] := by decide +kernel
  have hok : ∀ bar, (pcieEnumerate
      { usedBus (hostOf twoFunctions) bar with deviceCount := 0 }).1 = pcieOk :=
    fun _ => enumerate_ok (hostOf_shows _) rfl (by rw [hfound]; decide)
  refine (enumerate_depends_on_host (hostOf_shows twoFunctions) (usedBus_init _ _)
    (usedBus_init _ _) (hok _) (hok _)).mpr ?_
  have hnormal : ∀ bdf ∈ topology twoFunctions 0,
      headerTypeOf twoFunctions bdf = pcieHeaderTypeNormal := by
    rw [hfound]
    decide
  exact fun k hk => ⟨rfl, fun hbridge => absurd (hnormal _ (List.getElem_mem hk)) hbridge⟩

/-- A bridge at device 0, and nothing else. -/
def oneBridge : ConfigSpace := fun bdf offset =>
  if bdf.device = 0 ∧ bdf.function = 0 then
    if offset = pcieCfgHeader then 0x00010000 else 0x06040001
  else 0xffffffff

/-- The record of a bridge keeps the base address registers of an earlier scan. -/
theorem oneBridge_leftovers : ∃ bus1 bus2 opened1 opened2,
    Shows (hostOf oneBridge) oneBridge ∧
    pcieBusInit (some bus1) (some (hostOf oneBridge)) = (pcieOk, some opened1) ∧
    pcieBusInit (some bus2) (some (hostOf oneBridge)) = (pcieOk, some opened2) ∧
    (pcieEnumerate opened1).1 = pcieOk ∧ (pcieEnumerate opened2).1 = pcieOk ∧
    ¬SameRecords (pcieEnumerate opened1).2 (pcieEnumerate opened2).2 := by
  have hfound : topology oneBridge 0 = [⟨0, 0, 0⟩] := by decide +kernel
  have hok : ∀ bus : PcieBus, bus.host = some (hostOf oneBridge) →
      (pcieEnumerate bus).1 = pcieOk :=
    fun _ hbus => enumerate_ok (hostOf_shows _) hbus (by rw [hfound]; decide)
  refine ⟨usedBus (hostOf oneBridge) ⟨0, 0, 0, 0, 0⟩,
    usedBus (hostOf oneBridge) (pcieDecodeBar 0x50000000), _, _, hostOf_shows _, rfl, rfl,
    hok _ rfl, hok _ rfl, fun hsame => ?_⟩
  have hleft := (sameRecords_iff (hostOf_shows oneBridge) rfl rfl (hok _ rfl) (hok _ rfl)).mp hsame
  simp only [hfound] at hleft
  have hbridge : headerTypeOf oneBridge ⟨0, 0, 0⟩ ≠ pcieHeaderTypeNormal := by decide
  have hbars := (hleft 0 (by decide)).2 hbridge
  have hraw := congrArg PcieBar.raw (congrFun hbars 0)
  exact absurd hraw (by decide)

end CortexLabs.Pcie.Bus

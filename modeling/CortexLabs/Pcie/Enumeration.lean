import CortexLabs.Pcie.Bus
import Mathlib.Algebra.Order.Ring.Nat

/-! Enumeration is exact.  Over a host whose reads succeed and return a fixed configuration space,
`pcie_enumerate` records the functions that are present, in order, each from its own registers; a
seventeenth makes it fail, and nothing is written behind the array. -/

namespace CortexLabs.Pcie.Bus

open Device

/-- A configuration space: the registers of each function. -/
abbrev ConfigSpace := PcieBdf → Half → Word

/-- The addresses that `pcie_config_read32` passes on to the host. -/
structure Addresses (bdf : PcieBdf) (offset : Half) : Prop where
  device : bdf.device ≤ 31
  function : bdf.function ≤ 7
  range : offset < 256
  aligned : offset &&& 0x3 = 0

/-- Reads of the host succeed, and return what the configuration space holds. -/
def Shows (host : PcieHost) (cfg : ConfigSpace) : Prop :=
  ∃ ops read, host.ops = some ops ∧ ops.configRead32 = some read ∧
    ∀ bdf offset, Addresses bdf offset → read bdf offset = (pcieOk, cfg bdf offset)

/-! ### What there is to find -/

/-- A function is present when its vendor id is not `0xffff`. -/
def present (cfg : ConfigSpace) (bdf : PcieBdf) : Bool :=
  (cfg bdf 0x00).extractLsb' 0 16 ≠ 0xffff

/-- The functions of a device: function 0, and the others when its header says so. -/
def functions (cfg : ConfigSpace) (busNumber device : Byte) : List PcieBdf :=
  if present cfg ⟨busNumber, device, 0⟩ then
    ⟨busNumber, device, 0⟩ ::
      if (cfg ⟨busNumber, device, 0⟩ 0x0c)[23] then
        ((List.range' 1 7).map fun f => ⟨busNumber, device, BitVec.ofNat 8 f⟩).filter (present cfg)
      else []
  else []

/-- The functions of a bus. -/
def topology (cfg : ConfigSpace) (busNumber : Byte) : List PcieBdf :=
  (List.range 32).flatMap fun device => functions cfg busNumber (BitVec.ofNat 8 device)

/-- What a base address register says.  Bit 0 tells an I/O range from a memory range, and of a
memory range bits 2 and 1 tell the width and bit 3 whether it can be prefetched; the bits above are
the address. -/
structure DescribesBar (v : Word) (bar : PcieBar) : Prop where
  raw : bar.raw = v
  isIo : bar.isIo = if v[0] then 1 else 0
  is64bit : bar.is64bit = if !v[0] && v[2] && !v[1] then 1 else 0
  prefetchable : bar.prefetchable = if !v[0] && v[3] then 1 else 0
  address : bar.address =
    if v[0] then v.extractLsb' 2 30 ++ (0 : BitVec 2) else v.extractLsb' 4 28 ++ (0 : BitVec 4)

/-- A record holds what the registers of the function do. -/
structure Describes (cfg : ConfigSpace) (bdf : PcieBdf) (dev : PcieDevice) : Prop where
  address : dev.bdf = bdf
  vendorId : dev.vendorId = (cfg bdf 0x00).extractLsb' 0 16
  deviceId : dev.deviceId = (cfg bdf 0x00).extractLsb' 16 16
  revision : dev.revision = (cfg bdf 0x08).extractLsb' 0 8
  subclass : dev.subclass = (cfg bdf 0x08).extractLsb' 16 8
  classCode : dev.classCode = (cfg bdf 0x08).extractLsb' 24 8
  headerType : dev.headerType = ((cfg bdf 0x0c).extractLsb' 16 7).setWidth 8
  multifunction : dev.multifunction = if (cfg bdf 0x0c)[23] then 1 else 0
  bars : dev.headerType = 0 → ∀ k : Fin pcieMaxBars,
    DescribesBar (cfg bdf (0x10 + BitVec.ofNat 16 (k * 4))) (dev.bars k)
  irqLine : dev.irqLine = (cfg bdf 0x3c).extractLsb' 0 8
  irqPin : dev.irqPin = (cfg bdf 0x3c).extractLsb' 8 8

/-! ### Fields -/

theorem and_mask {w n : Nat} (v m : BitVec w) (hm : m = BitVec.ofNat w (2 ^ n - 1)) (hn : n ≤ w)
    (s k : Nat) : ((v >>> s) &&& m).setWidth k = (v.extractLsb' s n).setWidth k := by
  subst hm
  ext i hi
  simp [BitVec.getLsbD_ofNat, Nat.testBit_two_pow_sub_one]
  grind

theorem field_vendor (v : Word) : (v &&& 0xffff).setWidth 16 = v.extractLsb' 0 16 := by
  have h := and_mask v 0xffff (n := 16) rfl (by decide) 0 16
  rwa [BitVec.setWidth_eq, BitVec.ushiftRight_zero] at h

theorem field_byte (v : Word) (s : Nat) : ((v >>> s) &&& 0xff).setWidth 8 = v.extractLsb' s 8 := by
  rw [and_mask v 0xff (n := 8) rfl (by decide) s 8, BitVec.setWidth_eq]

theorem field_low (v : Word) : (v &&& 0xff).setWidth 8 = v.extractLsb' 0 8 := by
  rw [← field_byte v 0, BitVec.ushiftRight_zero]

theorem field_header (v : Word) :
    ((v >>> 16) &&& 0x7f).setWidth 8 = (v.extractLsb' 16 7).setWidth 8 :=
  and_mask v 0x7f (n := 7) rfl (by decide) 16 8

/-- A mask of bit `k` tests it. -/
theorem and_bit (v : Word) {m : Word} {k : Nat} (hk : k < 32) (hm : m = BitVec.twoPow 32 k) :
    v &&& m = 0 ↔ v[k] = false := by
  subst hm
  rw [BitVec.and_twoPow, BitVec.getLsbD_eq_getElem hk]
  cases v[k]
  · simp
  · simp only [if_true, Bool.true_eq_false, iff_false]
    intro h
    have hbit := congrArg (·.getLsbD k) h
    simp [hk] at hbit

theorem bit_multifunction (v : Word) : v &&& 0x00800000 = 0 ↔ v[23] = false :=
  and_bit v (by decide) (by decide)

/-- A mask of all bits from `n` on keeps the address that they hold. -/
theorem and_address {n k : Nat} {v m a : Word} (hk : k + n = 32)
    (hm : ∀ i < 32, m.getLsbD i = decide (n ≤ i))
    (ha : a = (v.extractLsb' n k ++ (0 : BitVec n)).cast hk) : v &&& m = a := by
  subst ha
  refine BitVec.eq_of_getLsbD_eq fun i hi => ?_
  rw [BitVec.getLsbD_and, hm i hi, BitVec.getLsbD_cast, BitVec.getLsbD_append]
  by_cases hlow : i < n
  · rw [if_pos hlow, decide_eq_false (Nat.not_le.mpr hlow), Bool.and_false]
    exact BitVec.getLsbD_zero.symm
  · have hrest : i - n < k := by omega
    have hindex : n + (i - n) = i := by omega
    rw [if_neg hlow, BitVec.getLsbD_extractLsb', decide_eq_true hrest, hindex,
      decide_eq_true (Nat.not_lt.mp hlow), Bool.and_true, Bool.true_and]

theorem field_type (v : Word) : (v >>> 1) &&& 0x3 = 0x2 ↔ (v[2] && !v[1]) = true := by
  have h := and_mask v 0x3 (n := 2) rfl (by decide) 1 32
  have hbits : ∀ x : BitVec 2, x.setWidth 32 = (2 : Word) ↔ (x[1] && !x[0]) = true := by decide
  rw [BitVec.setWidth_eq] at h
  rw [h, hbits]
  simp

/-- `pcie_decode_bar` reads a base address register as what it says. -/
theorem pcieDecodeBar_describes (raw : Word) : DescribesBar raw (pcieDecodeBar raw) := by
  have hio := and_bit raw (k := 0) (m := 0x1) (by decide) (by decide)
  have hprefetch := and_bit raw (k := 3) (m := 0x8) (by decide) (by decide)
  rw [pcieDecodeBar]
  cases h0 : raw[0] with
  | true =>
    rw [if_pos (hio.not.mpr (by simp [h0]))]
    refine ⟨rfl, by rw [h0]; rfl, by rw [h0]; rfl, by rw [h0]; rfl, ?_⟩
    dsimp only
    rw [h0, if_pos rfl]
    exact and_address rfl (by decide) rfl
  | false =>
    rw [if_neg (not_not.mpr (hio.mpr h0))]
    refine ⟨rfl, by rw [h0]; rfl, ?_, ?_, ?_⟩
    · simp only [field_type, h0]
      rfl
    · simp only [ne_eq, hprefetch, h0, Bool.not_eq_false]
      rfl
    · dsimp only
      rw [h0, if_neg Bool.false_ne_true]
      exact and_address rfl (by decide) rfl

/-- A register describes one range. -/
theorem DescribesBar.unique {v : Word} {bar1 bar2 : PcieBar} (h1 : DescribesBar v bar1)
    (h2 : DescribesBar v bar2) : bar1 = bar2 := by
  obtain ⟨hraw, hio, hwide, hprefetch, haddress⟩ := h1
  obtain ⟨hraw', hio', hwide', hprefetch', haddress'⟩ := h2
  cases bar1
  cases bar2
  simp_all only

/-! ### Records -/

section Scan

variable {cfg : ConfigSpace} {host : PcieHost} {bus : PcieBus}

theorem read_shows (hs : Shows host cfg) (hhost : bus.host = some host) (bdf : PcieBdf)
    (offset : Half) (ha : Addresses bdf offset) :
    pcieRead32 bus bdf offset = (pcieOk, cfg bdf offset) := by
  obtain ⟨ops, read, hops, hread, hcfg⟩ := hs
  have hbdf : pcieValidateBdf bdf = pcieOk := by
    rw [pcieValidateBdf, if_neg (BitVec.not_lt.mpr ha.device),
      if_neg (BitVec.not_lt.mpr ha.function)]
  have hoffset : pcieValidateOffset offset = pcieOk := by
    rw [pcieValidateOffset, if_neg (BitVec.not_le.mpr ha.range), if_neg (not_not.mpr ha.aligned)]
  rw [pcieRead32, pcieConfigRead32, hhost]
  simp only [Option.bind_some, hops, hread, hbdf, hoffset, ne_eq, not_true_eq_false, if_false]
  exact hcfg bdf offset ha

def decodedBars (cfg : ConfigSpace) (bdf : PcieBdf) (k : Fin pcieMaxBars) : PcieBar :=
  pcieDecodeBar (cfg bdf (pcieCfgBar0 + BitVec.ofNat 16 (k * 4)))

theorem readBars (hs : Shows host cfg) (hhost : bus.host = some host) {bdf : PcieBdf}
    (hdev : bdf.device ≤ 31) (hfn : bdf.function ≤ 7) (dev : PcieDevice) :
    forEach (readBar bus bdf) dev (List.finRange pcieMaxBars) =
      (pcieOk, { dev with bars := decodedBars cfg bdf }) := by
  have hread : ∀ k : Fin pcieMaxBars,
      pcieRead32 bus bdf (pcieCfgBar0 + BitVec.ofNat 16 (k * 4)) =
        (pcieOk, cfg bdf (pcieCfgBar0 + BitVec.ofNat 16 (k * 4))) := by
    intro k
    have hoffsets : ∀ k : Fin pcieMaxBars, pcieCfgBar0 + BitVec.ofNat 16 (k * 4) < 256 ∧
        (pcieCfgBar0 + BitVec.ofNat 16 (k * 4)) &&& 0x3 = 0 := by decide
    exact read_shows hs hhost _ _ ⟨hdev, hfn, (hoffsets k).1, (hoffsets k).2⟩
  have hbody : ∀ dev : PcieDevice, ∀ k ∈ List.finRange pcieMaxBars, readBar bus bdf dev k =
      (pcieOk, { dev with bars := Function.update dev.bars k (decodedBars cfg bdf k) }) := by
    intro dev k _
    rw [readBar, hread k]
    rfl
  rw [forEach_all hbody]
  refine congrArg (Prod.mk pcieOk) ?_
  rw [show List.finRange pcieMaxBars = [0, 1, 2, 3, 4, 5] from rfl]
  simp only [List.foldl_cons, List.foldl_nil]
  congr 1
  funext k
  rcases k with ⟨_ | _ | _ | _ | _ | _ | k, hk⟩
  all_goals first | rfl | exact absurd hk (Nat.not_lt.mpr (Nat.le_add_left 6 k))

/-- A record that is read holds what the registers do. -/
theorem readFunction_describes (hs : Shows host cfg) (hhost : bus.host = some host) (bdf : PcieBdf)
    (hdev : bdf.device ≤ 31) (hfn : bdf.function ≤ 7) (dev : PcieDevice) :
    ∃ dev', pcieReadFunction bus bdf dev = (pcieOk, dev') ∧ Describes cfg bdf dev' := by
  have hread : ∀ offset : Half, offset < 256 → offset &&& 0x3 = 0 →
      pcieRead32 bus bdf offset = (pcieOk, cfg bdf offset) :=
    fun offset hrange haligned => read_shows hs hhost _ _ ⟨hdev, hfn, hrange, haligned⟩
  have hmultifunction : ∀ v : Word, (if v &&& 0x00800000 ≠ 0 then (1 : Byte) else 0) =
      if v[23] then 1 else 0 := by
    intro v
    simp only [ne_eq, bit_multifunction, Bool.not_eq_false]
  simp only [pcieReadFunction, readInterrupt, hread pcieCfgVendorDevice (by decide) (by decide),
    hread pcieCfgClassRevision (by decide) (by decide),
    hread pcieCfgHeader (by decide) (by decide),
    hread pcieCfgInterrupt (by decide) (by decide), readBars hs hhost hdev hfn, ne_eq,
    not_true_eq_false, if_false]
  split
  · exact ⟨_, rfl, rfl, field_vendor _, rfl, field_low _, field_byte _ 16, field_byte _ 24,
      field_header _, hmultifunction _, fun _ _ => pcieDecodeBar_describes _, field_low _,
      field_byte _ 8⟩
  · next hbridge =>
    exact ⟨_, rfl, rfl, field_vendor _, rfl, field_low _, field_byte _ 16, field_byte _ 24,
      field_header _, hmultifunction _, fun h => absurd h hbridge,
      field_low _, field_byte _ 8⟩

end Scan

/-! ### Scans -/

/-- The functions of `found` are recorded, in order, and nothing behind the array has changed. -/
structure Recorded (cfg : ConfigSpace) (start : PcieBus) (found : List PcieBdf) (bus : PcieBus) :
    Prop where
  host : bus.host = start.host
  count : bus.deviceCount = found.length
  fits : found.length ≤ pcieMaxDevices
  records : ∀ k (hk : k < found.length), Describes cfg found[k] (bus.devices k)
  behind : ∀ k, pcieMaxDevices ≤ k → bus.devices k = start.devices k

/-- There are more functions than records, and the first of them are recorded. -/
def Full (cfg : ConfigSpace) (start : PcieBus) (found : List PcieBdf) (bus : PcieBus) : Prop :=
  pcieMaxDevices < found.length ∧ Recorded cfg start (found.take pcieMaxDevices) bus

/-- What a scan leaves that finds the functions of `found` after those of `done`. -/
def Scanned (cfg : ConfigSpace) (start : PcieBus) (done found : List PcieBdf)
    (r : Int × PcieBus) : Prop :=
  (r.1 = pcieOk → Recorded cfg start (done ++ found) r.2) ∧
  (r.1 ≠ pcieOk → Full cfg start (done ++ found) r.2)

section Enumeration

variable {cfg : ConfigSpace} {host : PcieHost} {start bus : PcieBus}
  {done found rest : List PcieBdf}

theorem filter_map_eq_flatMap {α β : Type} (p : β → Bool) (f : α → β) (xs : List α) :
    (xs.map f).filter p = xs.flatMap fun x => [f x].filter p := by
  rw [List.map_eq_flatMap, List.filter_flatMap]

theorem Full.append (h : Full cfg start found bus) : Full cfg start (found ++ rest) bus := by
  obtain ⟨hlen, hrec⟩ := h
  constructor
  · rw [List.length_append]
    omega
  · rw [List.take_append_of_le_length (Nat.le_of_lt hlen)]
    exact hrec

theorem Scanned.none (h : Recorded cfg start done bus) :
    Scanned cfg start done [] (pcieOk, bus) := by
  refine ⟨fun _ => ?_, fun h => absurd rfl h⟩
  rw [List.append_nil]
  exact h

theorem Recorded.record (h : Recorded cfg start done bus) (hroom : done.length < pcieMaxDevices)
    {bdf : PcieBdf} {dev : PcieDevice} (hdev : Describes cfg bdf dev) :
    Recorded cfg start (done ++ [bdf])
      { bus with
        devices := Function.update bus.devices bus.deviceCount dev
        deviceCount := bus.deviceCount + 1 } := by
  have hcount := h.count
  refine ⟨h.host, ?_, ?_, ?_, ?_⟩
  · rw [List.length_append, ← hcount]
    rfl
  · rw [List.length_append]
    exact hroom
  · intro k hk
    rw [List.length_append, List.length_singleton] at hk
    rcases Nat.lt_succ_iff_lt_or_eq.mp hk with hlt | heq
    · dsimp only
      rw [Function.update_of_ne (by omega), List.getElem_append_left hlt]
      exact h.records k hlt
    · subst heq
      rw [List.getElem_concat_length rfl]
      show Describes cfg bdf (Function.update bus.devices bus.deviceCount dev done.length)
      rw [hcount, Function.update_self]
      exact hdev
  · intro k hk
    dsimp only
    rw [Function.update_of_ne (by omega)]
    exact h.behind k hk

/-- A loop of scans finds what its turns find. -/
theorem forEach_scanned {body : PcieBus → Nat → Int × PcieBus} {items : Nat → List PcieBdf}
    {xs : List Nat} (hbody : ∀ x ∈ xs, ∀ done bus, Recorded cfg start done bus →
      Scanned cfg start done (items x) (body bus x))
    (h : Recorded cfg start done bus) :
    Scanned cfg start done (xs.flatMap items) (forEach body bus xs) := by
  refine forEach_rule (P := fun turns bus => Recorded cfg start (done ++ turns.flatMap items) bus)
    (E := fun _ bus => Full cfg start (done ++ xs.flatMap items) bus) ?_ ?_
  · rw [List.flatMap_nil, List.append_nil]
    exact h
  · intro turns x rest bus hxs hrec
    obtain ⟨hgood, hbad⟩ := hbody x (by rw [hxs]; simp) _ _ hrec
    refine ⟨fun hok => ?_, fun hok => ?_⟩
    · have := hgood hok
      rwa [List.flatMap_append, List.flatMap_singleton, ← List.append_assoc]
    · have : Full cfg start ((done ++ turns.flatMap items ++ items x) ++ rest.flatMap items)
          (body bus x).2 := (hbad hok).append
      rw [hxs, List.flatMap_append, List.flatMap_cons]
      simpa only [List.append_assoc] using this

variable (hs : Shows host cfg) (hhost : start.host = some host)
include hs hhost

theorem scanFunction_scanned (h : Recorded cfg start done bus) (busNumber : Byte)
    {device function : Byte} (hdev : device ≤ 31) (hfn : function ≤ 7) :
    Scanned cfg start done ([⟨busNumber, device, function⟩].filter (present cfg))
      (pcieScanFunction bus busNumber device function) := by
  have hbus : bus.host = some host := h.host.trans hhost
  have hread := read_shows hs hbus ⟨busNumber, device, function⟩ pcieCfgVendorDevice
    ⟨hdev, hfn, by decide, by decide⟩
  unfold pcieScanFunction
  simp only [hread, field_vendor, ne_eq, not_true_eq_false, if_false]
  by_cases habsent : (cfg ⟨busNumber, device, function⟩ 0x00).extractLsb' 0 16 = 0xffff
  · have hpresent : present cfg ⟨busNumber, device, function⟩ = false := by
      rw [present, habsent]
      rfl
    rw [if_pos habsent, List.filter_cons_of_neg (by rw [hpresent]; decide)]
    exact Scanned.none h
  · have hpresent : present cfg ⟨busNumber, device, function⟩ = true := decide_eq_true habsent
    rw [if_neg habsent, List.filter_cons_of_pos hpresent]
    have hcount := h.count
    split
    · next hfull =>
      have hlen : done.length = pcieMaxDevices := Nat.le_antisymm h.fits (hcount ▸ hfull)
      refine ⟨fun hok => absurd hok (by simp), fun _ => ⟨?_, ?_⟩⟩
      · simp [hlen]
      · dsimp only
        rw [← hlen, List.take_left' rfl]
        exact h
    · next hroom =>
      obtain ⟨dev, hrd, hdescribes⟩ :=
        readFunction_describes hs hbus ⟨busNumber, device, function⟩ hdev hfn
          (bus.devices bus.deviceCount)
      rw [hrd]
      refine ⟨fun _ => ?_, fun h => absurd rfl h⟩
      exact h.record (by omega) hdescribes

theorem scanDevice_scanned (h : Recorded cfg start done bus) {busNumber device : Byte}
    (hdev : device ≤ 31) :
    Scanned cfg start done (functions cfg busNumber device)
      (pcieScanDevice bus busNumber device) := by
  have hread : ∀ {bus : PcieBus}, bus.host = start.host → ∀ offset : Half, offset < 256 →
      offset &&& 0x3 = 0 → pcieRead32 bus ⟨busNumber, device, 0⟩ offset =
        (pcieOk, cfg ⟨busNumber, device, 0⟩ offset) :=
    fun hbus offset hrange haligned =>
      read_shows hs (hbus.trans hhost) _ _ ⟨hdev, by simp, hrange, haligned⟩
  unfold pcieScanDevice
  simp only [hread h.host pcieCfgVendorDevice (by decide) (by decide), field_vendor, ne_eq,
    not_true_eq_false, if_false]
  by_cases habsent : (cfg ⟨busNumber, device, 0⟩ 0x00).extractLsb' 0 16 = 0xffff
  · have hpresent : ¬ present cfg ⟨busNumber, device, 0⟩ = true := by
      rw [present, habsent]
      decide
    rw [if_pos habsent, functions, if_neg hpresent]
    exact Scanned.none h
  · have hpresent : present cfg ⟨busNumber, device, 0⟩ = true := decide_eq_true habsent
    obtain ⟨hgood, hbad⟩ :=
      scanFunction_scanned hs hhost h busNumber hdev (by simp : (0 : Byte) ≤ 7)
    rw [List.filter_cons_of_pos hpresent, List.filter_nil] at hgood hbad
    rw [if_neg habsent, functions, if_pos hpresent]
    rcases hscan : pcieScanFunction bus busNumber device 0 with ⟨result, bus'⟩
    rw [hscan] at hgood hbad
    dsimp only at hgood hbad ⊢
    by_cases hresult : result = pcieOk
    · have hrec := hgood hresult
      rw [if_neg (not_not.mpr hresult), hread hrec.host pcieCfgHeader (by decide) (by decide)]
      simp only [not_true_eq_false, if_false, bit_multifunction]
      by_cases hmulti : (cfg ⟨busNumber, device, 0⟩ 0x0c)[23] = true
      · rw [if_pos hmulti, if_neg (by rw [hmulti]; decide), filter_map_eq_flatMap]
        have hturn : ∀ function ∈ List.range' 1 7, ∀ done bus, Recorded cfg start done bus →
            Scanned cfg start done ([⟨busNumber, device, BitVec.ofNat 8 function⟩].filter (present cfg))
              (pcieScanFunction bus busNumber device (BitVec.ofNat 8 function)) := by
          intro function hfunction done bus hrec
          obtain ⟨hlow, hhigh⟩ := List.mem_range'_1.mp hfunction
          refine scanFunction_scanned hs hhost hrec busNumber hdev ?_
          rw [BitVec.le_def, BitVec.toNat_ofNat, Nat.mod_eq_of_lt (by omega)]
          exact Nat.le_of_lt_succ hhigh
        have hloop := forEach_scanned hturn hrec
        rw [Scanned, List.append_assoc] at hloop
        exact hloop
      · rw [if_neg hmulti, if_pos (Bool.eq_false_iff.mpr hmulti)]
        exact ⟨fun _ => hrec, fun h => absurd rfl h⟩
    · rw [if_pos hresult]
      refine ⟨fun h => absurd h hresult, fun h => ?_⟩
      rw [← List.singleton_append, ← List.append_assoc]
      exact (hbad h).append

theorem scanBus_scanned (h : Recorded cfg start done bus) (busNumber : Byte) :
    Scanned cfg start done (topology cfg busNumber) (pcieScanBus bus busNumber) := by
  refine forEach_scanned (fun device hdevice done bus hrec => ?_) h
  refine scanDevice_scanned hs hhost hrec ?_
  have hlt := List.mem_range.mp hdevice
  rw [BitVec.le_def, BitVec.toNat_ofNat, Nat.mod_eq_of_lt (by omega)]
  exact Nat.le_of_lt_succ hlt

end Enumeration

theorem enumerate_scanned {cfg : ConfigSpace} {host : PcieHost} (hs : Shows host cfg)
    {bus : PcieBus} (hbus : bus.host = some host) :
    Scanned cfg bus [] (topology cfg 0) (pcieEnumerate bus) := by
  have hstart : Recorded cfg bus [] { bus with deviceCount := 0 } :=
    ⟨rfl, rfl, Nat.zero_le _, fun k hk => absurd hk (Nat.not_lt_zero k), fun _ _ => rfl⟩
  have henum : pcieEnumerate bus = pcieScanBus { bus with deviceCount := 0 } 0 := by
    rw [pcieEnumerate, hbus]
    rfl
  rw [henum]
  exact scanBus_scanned hs hbus hstart 0

/-- `pcie_enumerate` finds the functions of bus 0. -/
theorem enumerate_exact {cfg : ConfigSpace} {host : PcieHost} (hs : Shows host cfg)
    (bus : PcieBus) (hbus : bus.host = some host) :
    ((topology cfg 0).length ≤ pcieMaxDevices →
      (pcieEnumerate bus).1 = pcieOk ∧
      (pcieEnumerate bus).2.deviceCount = (topology cfg 0).length ∧
      ∀ k (hk : k < (topology cfg 0).length),
        Describes cfg (topology cfg 0)[k] ((pcieEnumerate bus).2.devices k)) ∧
    (pcieMaxDevices < (topology cfg 0).length →
      (pcieEnumerate bus).1 ≠ pcieOk ∧
      (pcieEnumerate bus).2.deviceCount = pcieMaxDevices ∧
      ∀ k (hk : k < (topology cfg 0).length), k < pcieMaxDevices →
        Describes cfg (topology cfg 0)[k] ((pcieEnumerate bus).2.devices k)) ∧
    ∀ k, pcieMaxDevices ≤ k → (pcieEnumerate bus).2.devices k = bus.devices k := by
  obtain ⟨hgood, hbad⟩ := enumerate_scanned hs hbus
  rw [List.nil_append] at hgood hbad
  by_cases hok : (pcieEnumerate bus).1 = pcieOk
  · have hrec := hgood hok
    refine ⟨fun _ => ⟨hok, hrec.count, hrec.records⟩, fun hlong => ?_, hrec.behind⟩
    exact absurd hrec.fits (Nat.not_le.mpr hlong)
  · obtain ⟨hlong, hrec⟩ := hbad hok
    have hlen : ((topology cfg 0).take pcieMaxDevices).length = pcieMaxDevices :=
      List.length_take_of_le (Nat.le_of_lt hlong)
    refine ⟨fun hfits => absurd hfits (Nat.not_le.mpr hlong), fun _ => ⟨hok, ?_, ?_⟩, hrec.behind⟩
    · rw [hrec.count, hlen]
    · intro k hk hrecorded
      have := hrec.records k (by rw [hlen]; exact hrecorded)
      rwa [List.getElem_take] at this

/-- Device 3 has the functions 0 and 5, with a wide memory range behind their third address
register, and there is no other. -/
def twoFunctions : ConfigSpace := fun bdf offset =>
  if bdf.device = 3 ∧ (bdf.function = 0 ∨ bdf.function = 5) then
    if offset = pcieCfgHeader then 0x00800000
    else if offset = 0x18 then 0x6000000c
    else 0x0b0b1b36
  else 0xffffffff

def twoFunctionsBus : PcieBus where
  host := some ⟨some ⟨some fun bdf offset => (pcieOk, twoFunctions bdf offset)⟩⟩
  devices _ := ⟨⟨0, 0, 0⟩, 0, 0, 0, 0, 0, 0, 0, 0, fun _ => ⟨0, 0, 0, 0, 0⟩, 0, 0⟩
  deviceCount := 0

theorem enumerate_exact_two :
    topology twoFunctions 0 = [⟨0, 3, 0⟩, ⟨0, 3, 5⟩] ∧
    (pcieEnumerate twoFunctionsBus).1 = pcieOk ∧
    (pcieEnumerate twoFunctionsBus).2.deviceCount = 2 ∧
    ((pcieEnumerate twoFunctionsBus).2.devices 1).bdf = ⟨0, 3, 5⟩ ∧
    ((pcieEnumerate twoFunctionsBus).2.devices 1).deviceId = 0x0b0b ∧
    ((pcieEnumerate twoFunctionsBus).2.devices 1).bars 2 = ⟨0x6000000c, 0x60000000, 0, 1, 1⟩ := by
  have hfound : topology twoFunctions 0 = [⟨0, 3, 0⟩, ⟨0, 3, 5⟩] := by decide +kernel
  obtain ⟨hok, hcount, hrecords⟩ :=
    (enumerate_exact (show Shows _ twoFunctions from ⟨_, _, rfl, rfl, fun _ _ _ => rfl⟩)
      twoFunctionsBus rfl).1 (by rw [hfound]; decide)
  simp only [hfound] at hcount hrecords
  have hdev : Describes twoFunctions ⟨0, 3, 5⟩ _ := hrecords 1 (by decide)
  have hbar : DescribesBar 0x6000000c ⟨0x6000000c, 0x60000000, 0, 1, 1⟩ :=
    ⟨rfl, by decide, by decide, by decide, by decide⟩
  have hwide := (hdev.bars hdev.headerType 2).unique hbar
  exact ⟨hfound, hok, hcount, hdev.address, hdev.deviceId, hwide⟩

end CortexLabs.Pcie.Bus

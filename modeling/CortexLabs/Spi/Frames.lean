import CortexLabs.Spi.Bitbang

/-! The bits of a byte on the wires.  The mode of a bus fixes the levels of its lines and the edge
on which bits are sampled.  Each bit takes one cycle of SCLK from its idle level and back; the
master moves MOSI before the edge on which a slave samples it, and samples MISO after that edge. -/

namespace CortexLabs.Spi

open Device

/-! ### Bits -/

def bitAt (order : SpiBitOrder) (value : Byte) (i : Nat) : Bool :=
  match order with
  | .msbFirst => value.getMsbD i
  | .lsbFirst => value.getLsbD i

/-- The bits of a byte in the order in which they are sent. -/
def bitsOf (order : SpiBitOrder) (value : Byte) : List Bool :=
  (List.range 8).map (bitAt order value)

def level (bit : Bool) : Byte := if bit then 1 else 0

/-! ### Modes -/

/-- The clock polarity of a mode: the level at which SCLK idles. -/
def SpiMode.cpol : SpiMode → Bool
  | .mode0 | .mode1 => false
  | .mode2 | .mode3 => true

/-- The clock phase of a mode: whether bits are sampled on the second edge of a cycle. -/
def SpiMode.cpha : SpiMode → Bool
  | .mode0 | .mode2 => false
  | .mode1 | .mode3 => true

section Modes

variable (bus : SpiBitbangBus)

def sclkIdle : Byte := level bus.mode.cpol

def sclkActive : Byte := level !bus.mode.cpol

/-- The level of CS that selects the slave: 0 when CS is active low. -/
def csSelected : Byte := level (bus.csActiveLow = 0)

def csDeselected : Byte := level (bus.csActiveLow ≠ 0)

/-! The functions of the master agree with the table. -/

theorem spiGetCpol_eq (mode : SpiMode) : spiGetCpol mode = level mode.cpol := by
  cases mode <;> rfl

theorem spiGetCpha_eq_zero (mode : SpiMode) : spiGetCpha mode = 0 ↔ mode.cpha = false := by
  cases mode <;> decide

theorem idleLevel_eq : idleLevel bus = sclkIdle bus := spiGetCpol_eq bus.mode

theorem activeLevel_eq : activeLevel bus = sclkActive bus := by
  rw [activeLevel, spiGetCpol_eq, sclkActive]
  cases bus.mode.cpol <;> rfl

theorem csActive_eq : csActive bus = csSelected bus := by
  unfold csActive csSelected
  split
  · next hlow => rw [decide_eq_false hlow]; rfl
  · next hlow => rw [decide_eq_true (not_not.mp hlow)]; rfl

theorem csInactive_eq : csInactive bus = csDeselected bus := by
  unfold csInactive csDeselected
  split
  · next hlow => rw [decide_eq_true hlow]; rfl
  · next hlow => rw [decide_eq_false hlow]; rfl

theorem sclkActive_ne_sclkIdle : sclkActive bus ≠ sclkIdle bus := by
  unfold sclkActive sclkIdle
  cases bus.mode.cpol <;> decide

theorem csSelected_ne_csDeselected : csSelected bus ≠ csDeselected bus := by
  unfold csSelected csDeselected
  rw [ne_eq, decide_not]
  cases decide (bus.csActiveLow = 0) <;> decide

end Modes

section Bits

variable {order : SpiBitOrder} {value : Byte} {i k : Nat}

theorem level_ne_zero (bit : Bool) : decide (level bit ≠ 0) = bit := by
  cases bit <;> rfl

theorem shifted_and_one (value : Byte) (k : Nat) : value >>> k &&& 1 = level (value.getLsbD k) := by
  ext i hi
  rw [BitVec.getElem_and, BitVec.getElem_ushiftRight]
  rcases i with _ | i
  · cases value.getLsbD k <;> simp [level]
  · cases value.getLsbD k <;> simp [level, BitVec.getElem_one]

theorem spiGetTxBit_eq (hi : i < 8) : spiGetTxBit value i order = level (bitAt order value i) := by
  rw [spiGetTxBit, shifted_and_one, shifted_and_one]
  cases order
  · rw [if_pos rfl, bitAt, BitVec.getMsbD, decide_eq_true hi, Bool.true_and]
  · rw [if_neg nofun]
    rfl

theorem getLsbD_or_bit (hk : k < 8) :
    (value ||| (1 : Byte) <<< k).getLsbD i = (value.getLsbD i || decide (i = k)) := by
  rw [BitVec.getLsbD_or]
  congr 1
  simp only [BitVec.getLsbD_shiftLeft]
  grind

theorem bitAt_spiStoreRxBit {bit : Byte} (hk : k < 8) (hi : i < 8) :
    bitAt order (spiStoreRxBit value k bit order) i =
      (bitAt order value i || decide (i = k) && decide (bit ≠ 0)) := by
  rw [spiStoreRxBit]
  cases order with
  | msbFirst =>
    split
    · next hbit =>
      rw [if_pos rfl, bitAt, bitAt, BitVec.getMsbD, BitVec.getMsbD, getLsbD_or_bit (by omega),
        decide_eq_true hi, decide_eq_true hbit, Bool.true_and, Bool.true_and, Bool.and_true]
      congr 2
      exact propext ⟨fun h => by omega, fun h => by omega⟩
    · next hbit => rw [decide_eq_false hbit, Bool.and_false, Bool.or_false]
  | lsbFirst =>
    split
    · next hbit =>
      rw [if_neg nofun, bitAt, bitAt, getLsbD_or_bit hk, decide_eq_true hbit, Bool.and_true]
    · next hbit => rw [decide_eq_false hbit, Bool.and_false, Bool.or_false]

end Bits

/-! ### Cycles -/

section Cycles

variable (bus : SpiBitbangBus)

/-- The level that SCLK moves to on the edges on which bits are sampled. -/
def samplingLevel : Byte := if bus.mode.cpha then sclkIdle bus else sclkActive bus

/-- What the lines show of one bit, while MOSI is at `stale` before. -/
def cycle (stale bit miso : Byte) : List WireEvent :=
  if bus.mode.cpha then
    [.edge (sclkActive bus) stale, .edge (sclkIdle bus) bit, .sample miso]
  else [.edge (sclkActive bus) bit, .sample miso, .edge (sclkIdle bus) bit]

/-- What the lines show of the bits sent and the levels of MISO sampled for them. -/
inductive Cycles : List Bool → List Byte → List WireEvent → Prop
  | nil : Cycles [] [] []
  | snoc {bits : List Bool} {samples : List Byte} {part : List WireEvent} (stale : Byte)
      (bit : Bool) (miso : Byte) : Cycles bits samples part →
      Cycles (bits ++ [bit]) (samples ++ [miso]) (part ++ cycle bus stale (level bit) miso)

end Cycles

variable {bus : SpiBitbangBus} {bits bits' : List Bool} {samples samples' : List Byte}
  {part part' : List WireEvent}

theorem Cycles.append (h : Cycles bus bits samples part) (h' : Cycles bus bits' samples' part') :
    Cycles bus (bits ++ bits') (samples ++ samples') (part ++ part') := by
  induction h' with
  | nil => simpa only [List.append_nil] using h
  | snoc stale bit miso _ ih =>
    simp only [← List.append_assoc]
    exact ih.snoc stale bit miso

/-- An edge or a sample, without the level of MOSI or MISO. -/
inductive Mark where
  | edge (level : Byte)
  | sample
  | select (level : Byte)
  deriving DecidableEq

def WireEvent.mark : WireEvent → Mark
  | .edge level _ => .edge level
  | .select level _ => .select level
  | .sample _ => .sample

def WireEvent.isEdge : WireEvent → Bool
  | .edge _ _ => true
  | .select _ _ | .sample _ => false

def WireEvent.miso : WireEvent → Option Byte
  | .sample miso => some miso
  | .edge _ _ | .select _ _ => none

/-- MOSI on an edge to `level`. -/
def WireEvent.mosiAt (level : Byte) : WireEvent → Option Byte
  | .edge reached mosi => if reached = level then some mosi else none
  | .select _ _ | .sample _ => none

/-- The marks of one bit. -/
def cycleMarks (bus : SpiBitbangBus) : List Mark :=
  if bus.mode.cpha then [.edge (sclkActive bus), .edge (sclkIdle bus), .sample]
  else [.edge (sclkActive bus), .sample, .edge (sclkIdle bus)]

section Cycle

variable (stale bit miso : Byte)

theorem cycle_marks : (cycle bus stale bit miso).map WireEvent.mark = cycleMarks bus := by
  unfold cycle cycleMarks
  split <;> rfl

theorem cycle_edges : (cycle bus stale bit miso).countP WireEvent.isEdge = 2 := by
  unfold cycle
  split <;> rfl

theorem cycle_miso : (cycle bus stale bit miso).filterMap WireEvent.miso = [miso] := by
  unfold cycle
  split <;> rfl

theorem cycle_mosi :
    (cycle bus stale bit miso).filterMap (WireEvent.mosiAt (samplingLevel bus)) = [bit] := by
  have hne := sclkActive_ne_sclkIdle bus
  unfold cycle
  split
  · next hcpha =>
    have hlevel : samplingLevel bus = sclkIdle bus := if_pos hcpha
    simp [WireEvent.mosiAt, hlevel, hne]
  · next hcpha =>
    have hlevel : samplingLevel bus = sclkActive bus := if_neg hcpha
    simp [WireEvent.mosiAt, hlevel, Ne.symm hne]

end Cycle

/-- Each bit takes two edges, and the levels of MOSI and MISO around the edge on which it is
sampled are the bit and the level sampled for it. -/
theorem Cycles.marks (h : Cycles bus bits samples part) :
    part.map WireEvent.mark = (List.replicate bits.length (cycleMarks bus)).flatten ∧
    part.countP WireEvent.isEdge = 2 * bits.length ∧
    part.filterMap (WireEvent.mosiAt (samplingLevel bus)) = bits.map level ∧
    part.filterMap WireEvent.miso = samples := by
  induction h with
  | nil => exact ⟨rfl, rfl, rfl, rfl⟩
  | snoc stale bit miso _ ih =>
    obtain ⟨hmarks, hedges, hmosi, hmiso⟩ := ih
    refine ⟨?_, ?_, ?_, ?_⟩
    · rw [List.map_append, hmarks, cycle_marks, List.length_append, List.length_singleton,
        List.replicate_succ', List.flatten_append, List.flatten_singleton]
    · rw [List.countP_append, hedges, cycle_edges, List.length_append, List.length_singleton,
        Nat.mul_add]
    · rw [List.filterMap_append, hmosi, cycle_mosi, List.map_append, List.map_singleton]
    · rw [List.filterMap_append, hmiso, cycle_miso]

/-! ### A slave -/

/-- A slave of the mode and bit order of a bus: whether it is selected, its shift register, how many
bits of a byte are in it, and the bytes that it has received. -/
structure Slave where
  selected : Bool
  shift : Byte
  count : Nat
  bytes : List Byte

namespace Slave

def shiftIn (order : SpiBitOrder) (shift : Byte) (bit : Bool) : Byte :=
  match order with
  | .msbFirst => shift <<< 1 ||| level bit
  | .lsbFirst => shift >>> 1 ||| level bit <<< 7

variable (bus) in
def clock (s : Slave) (bit : Bool) : Slave :=
  let shift := shiftIn bus.bitOrder s.shift bit
  if s.count = 7 then { s with shift, count := 0, bytes := s.bytes ++ [shift] }
  else { s with shift, count := s.count + 1 }

variable (bus) in
/-- A slave samples MOSI on the edges to the sampling level while it is selected, and begins a byte
when it is. -/
def next (s : Slave) : WireEvent → Slave
  | .select level _ => { s with selected := level = csSelected bus, count := 0 }
  | .edge level mosi =>
    if s.selected ∧ level = samplingLevel bus then s.clock bus (mosi ≠ 0) else s
  | .sample _ => s

variable {s : Slave}

theorem clock_selected (bit : Bool) : (s.clock bus bit).selected = s.selected := by
  rw [clock]
  split <;> rfl

theorem next_sampling (hselected : s.selected = true) (bit : Bool) :
    s.next bus (.edge (samplingLevel bus) (level bit)) = s.clock bus bit := by
  rw [next, if_pos ⟨hselected, rfl⟩, level_ne_zero]

theorem next_other {reached : Byte} (h : reached ≠ samplingLevel bus) (mosi : Byte) :
    s.next bus (.edge reached mosi) = s := by
  rw [next, if_neg fun hboth => h hboth.2]

theorem next_cycle (hselected : s.selected = true) (stale : Byte) (bit : Bool) (miso : Byte) :
    (cycle bus stale (level bit) miso).foldl (next bus) s = s.clock bus bit := by
  have hne := sclkActive_ne_sclkIdle bus
  unfold cycle
  split
  · next hcpha =>
    have hlevel : samplingLevel bus = sclkIdle bus := if_pos hcpha
    rw [List.foldl_cons, next_other (hlevel ▸ hne), List.foldl_cons, ← hlevel,
      next_sampling hselected]
    rfl
  · next hcpha =>
    have hlevel : samplingLevel bus = sclkActive bus := if_neg hcpha
    rw [List.foldl_cons, ← hlevel, next_sampling hselected, List.foldl_cons, List.foldl_cons,
      List.foldl_nil, next_other (hlevel ▸ Ne.symm hne)]
    rfl

theorem next_cycles (h : Cycles bus bits samples part) (hselected : s.selected = true) :
    part.foldl (next bus) s = bits.foldl (clock bus) s ∧
      (bits.foldl (clock bus) s).selected = true := by
  induction h with
  | nil => exact ⟨rfl, hselected⟩
  | snoc stale bit miso _ ih =>
    obtain ⟨hfold, hstill⟩ := ih
    rw [List.foldl_append, List.foldl_append, hfold, next_cycle hstill]
    exact ⟨rfl, (clock_selected bit).trans hstill⟩

theorem getLsbD_level (bit : Bool) (i : Nat) : (level bit).getLsbD i = (bit && decide (i = 0)) := by
  cases bit
  · simp [level]
  · simp [level, BitVec.getLsbD_one]

/-- The register after `k` bits from the most significant on. -/
theorem shifted_msbFirst (shift value : Byte) (k : Nat) (hk : k ≤ 8) :
    ∀ i < k, (((List.range k).map value.getMsbD).foldl (shiftIn .msbFirst) shift).getLsbD i =
      value.getMsbD (k - 1 - i) := by
  induction k with
  | zero => nofun
  | succ k ih =>
    intro i hi
    rw [List.range_succ, List.map_append, List.foldl_append, List.map_singleton, List.foldl_cons,
      List.foldl_nil, shiftIn, BitVec.getLsbD_or, BitVec.getLsbD_shiftLeft, getLsbD_level]
    rcases i with _ | i
    · simp
    · rw [Nat.add_sub_cancel, ih (by omega) i (by omega), decide_eq_true (by omega : i + 1 < 8),
        decide_eq_false (by omega : ¬ i + 1 < 1), decide_eq_false (by omega : ¬ i + 1 = 0),
        Bool.and_false, Bool.or_false, Bool.not_false, Bool.true_and, Bool.true_and]
      congr 1
      omega

/-- The register after `k` bits from the least significant on. -/
theorem shifted_lsbFirst (shift value : Byte) (k : Nat) (hk : k ≤ 8) :
    ∀ i < 8, 8 ≤ i + k →
      (((List.range k).map value.getLsbD).foldl (shiftIn .lsbFirst) shift).getLsbD i =
        value.getLsbD (i + k - 8) := by
  induction k with
  | zero => exact fun i hi hik => absurd hik (by omega)
  | succ k ih =>
    intro i hi hik
    rw [List.range_succ, List.map_append, List.foldl_append, List.map_singleton, List.foldl_cons,
      List.foldl_nil, shiftIn, BitVec.getLsbD_or, BitVec.getLsbD_ushiftRight,
      BitVec.getLsbD_shiftLeft, getLsbD_level, decide_eq_true hi, Bool.true_and]
    rcases Nat.lt_or_ge i 7 with hlt | hge
    · rw [ih (by omega) (1 + i) (by omega) (by omega), decide_eq_true hlt, Bool.not_true,
        Bool.false_and, Bool.or_false]
      congr 1
      omega
    · obtain rfl : i = 7 := by omega
      rw [BitVec.getLsbD_of_ge _ (1 + 7) (by omega)]
      have hk : 7 + (k + 1) - 8 = k := by omega
      rw [hk]
      simp

theorem shift_bits (order : SpiBitOrder) (shift value : Byte) :
    (bitsOf order value).foldl (shiftIn order) shift = value := by
  refine BitVec.eq_of_getLsbD_eq fun i hi => ?_
  cases order with
  | msbFirst =>
    refine (shifted_msbFirst shift value 8 (by omega) i hi).trans ?_
    rw [BitVec.getMsbD, decide_eq_true (by omega), Bool.true_and]
    congr 1
    omega
  | lsbFirst => exact shifted_lsbFirst shift value 8 (by omega) i hi (by omega)

theorem clock_few {bits : List Bool} (h : s.count + bits.length ≤ 7) :
    bits.foldl (clock bus) s = { s with
      shift := bits.foldl (shiftIn bus.bitOrder) s.shift, count := s.count + bits.length } := by
  induction bits generalizing s with
  | nil => rfl
  | cons bit bits ih =>
    rw [List.length_cons] at h
    have hclock : s.clock bus bit =
        { s with shift := shiftIn bus.bitOrder s.shift bit, count := s.count + 1 } := by
      rw [clock, if_neg (by omega)]
    rw [List.foldl_cons, hclock, ih (by dsimp only; omega), List.foldl_cons, List.length_cons]
    dsimp only
    congr 1
    omega

/-- A slave that begins a byte receives it. -/
theorem clock_byte (hcount : s.count = 0) (value : Byte) :
    (bitsOf bus.bitOrder value).foldl (clock bus) s =
      { s with shift := value, bytes := s.bytes ++ [value] } := by
  have hbits : bitsOf bus.bitOrder value =
      (List.range 7).map (bitAt bus.bitOrder value) ++ [bitAt bus.bitOrder value 7] := by
    rw [bitsOf, List.range_succ, List.map_append]
    rfl
  have hshift := shift_bits bus.bitOrder s.shift value
  have hfew : ((List.range 7).map (bitAt bus.bitOrder value)).foldl (clock bus) s = _ :=
    clock_few (by simp [hcount])
  rw [hbits, List.foldl_append, List.foldl_cons, List.foldl_nil] at hshift ⊢
  rw [List.length_map, List.length_range, hcount] at hfew
  rw [hfew, clock]
  dsimp only
  rw [if_pos rfl, hshift, hcount]

theorem clock_bytes (hcount : s.count = 0) (sent : List Byte) :
    ((sent.flatMap (bitsOf bus.bitOrder)).foldl (clock bus) s).bytes = s.bytes ++ sent := by
  induction sent generalizing s with
  | nil => simp
  | cons value sent ih =>
    rw [List.flatMap_cons, List.foldl_append, clock_byte hcount]
    refine (@ih { s with shift := value, bytes := s.bytes ++ [value] } hcount).trans ?_
    rw [List.append_assoc]
    rfl

end Slave

end CortexLabs.Spi

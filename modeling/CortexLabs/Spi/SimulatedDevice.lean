import CortexLabs.Spi.Transfer

/-! The simulated device, which answers the command to read its ID.  Each sample of MISO moves its
answer on by a bit: eight bits that are high while it is given the command, the bytes of the ID, and
high bits from then on.  Being selected takes it back to the start. -/

namespace CortexLabs.Spi

open Device

/-- `struct simulated_spi_device`; `response` is only used below 3. -/
structure SimulatedSpiDevice where
  sclk : Byte
  mosi : Byte
  miso : Byte
  cs : Byte
  clockEdgeCount : Word
  delayCount : Word
  selected : Byte
  commandReceived : Byte
  responseByteIndex : Byte
  responseBitIndex : Byte
  response : Nat → Byte

section Functions

variable (device : SimulatedSpiDevice)

def simulatedSetSclk (level : Byte) : SimulatedSpiDevice :=
  let device := if device.sclk ≠ level then
    { device with clockEdgeCount := device.clockEdgeCount + 1 } else device
  { device with sclk := level }

def simulatedSetMosi (level : Byte) : SimulatedSpiDevice := { device with mosi := level }

def simulatedSetCs (level : Byte) : SimulatedSpiDevice :=
  let device := { device with cs := level }
  if level = 0 then
    { device with selected := 1, commandReceived := 0, responseByteIndex := 0, responseBitIndex := 0 }
  else { device with selected := 0, miso := 1 }

def simulatedGetMiso : Byte × SimulatedSpiDevice :=
  if device.selected = 0 then (1, device)
  else if device.commandReceived = 0 then
    let bit := 1
    let device := { device with responseBitIndex := device.responseBitIndex + 1 }
    let device := if device.responseBitIndex = 8 then
      { device with commandReceived := 1, responseBitIndex := 0 } else device
    (bit, { device with miso := bit })
  else if device.responseByteIndex ≥ 3 then (1, { device with miso := 1 })
  else
    let responseByte := device.response device.responseByteIndex.toNat
    let bit := responseByte >>> (7 - device.responseBitIndex.toNat) &&& 1
    let device := { device with responseBitIndex := device.responseBitIndex + 1 }
    let device := if device.responseBitIndex = 8 then
      { device with responseBitIndex := 0, responseByteIndex := device.responseByteIndex + 1 }
      else device
    (bit, { device with miso := bit })

def simulatedDelayHalfCycle : SimulatedSpiDevice :=
  { device with delayCount := device.delayCount + 1 }

end Functions

/-- The device that `simulated_spi_device_init` leaves. -/
def simulatedSpiDeviceInit : SimulatedSpiDevice where
  sclk := 0
  mosi := 0
  miso := 1
  cs := 1
  clockEdgeCount := 0
  delayCount := 0
  selected := 0
  commandReceived := 0
  responseByteIndex := 0
  responseBitIndex := 0
  response index := if index = 0 then 0xef else if index = 1 then 0x40 else 0x18

/-- The functions of `g_simulated_spi_ops` on a device, beside the memory of the master. -/
def simulatedSpiOps (o : Op) (s : SimulatedSpiDevice × Memory) :
    Ans o × SimulatedSpiDevice × Memory :=
  match o with
  | .setSclk level => ((), simulatedSetSclk s.1 level, s.2)
  | .setMosi level => ((), simulatedSetMosi s.1 level, s.2)
  | .setCs level => ((), simulatedSetCs s.1 level, s.2)
  | .getMiso => ((simulatedGetMiso s.1).1, (simulatedGetMiso s.1).2, s.2)
  | .delayHalfCycle => ((), simulatedDelayHalfCycle s.1, s.2)
  | .load address => (s.2 address, s)
  | .store address value => ((), s.1, Function.update s.2 address value)

abbrev simulatedBus : Behavior Op Ans where
  State := SimulatedSpiDevice × Memory
  answer s o r s' := (r, s') = simulatedSpiOps o s
  torn _ _ _ := False

/-! ### The answer -/

/-- Byte `j` of the answer. -/
def reply (response : Nat → Byte) (j : Nat) : Byte :=
  if j = 0 then 0xff else if j ≤ 3 then response (j - 1) else 0xff

def replyBit (response : Nat → Byte) (p : Nat) : Bool := (reply response (p / 8)).getMsbD (p % 8)

/-- The device is selected and has been sampled `p` times since. -/
structure Replying (p : Nat) (d : SimulatedSpiDevice) : Prop where
  selected : d.selected = 1
  phase : p < 8 ∧ d.commandReceived = 0 ∧ d.responseBitIndex.toNat = p ∧
      d.responseByteIndex.toNat = 0 ∨
    8 ≤ p ∧ p < 32 ∧ d.commandReceived = 1 ∧ d.responseBitIndex.toNat = p % 8 ∧
      d.responseByteIndex.toNat + 1 = p / 8 ∨
    32 ≤ p ∧ d.commandReceived = 1 ∧ d.responseByteIndex.toNat = 3

section Reply

variable {p : Nat} {d : SimulatedSpiDevice}

theorem getMsbD_high {i : Nat} (hi : i < 8) : (0xff : Byte).getMsbD i = true := by
  rw [show (0xff : Byte) = BitVec.allOnes 8 by decide, BitVec.getMsbD_allOnes]
  exact decide_eq_true hi

theorem replyBit_command (response : Nat → Byte) (hp : p < 8) : replyBit response p = true := by
  rw [replyBit, reply, if_pos (by omega)]
  exact getMsbD_high (by omega)

theorem replyBit_rest (response : Nat → Byte) (hp : 32 ≤ p) : replyBit response p = true := by
  rw [replyBit, reply, if_neg (by omega), if_neg (by omega)]
  exact getMsbD_high (by omega)

theorem toNat_succ {x : Byte} (h : x.toNat < 8) : (x + 1).toNat = x.toNat + 1 := by
  rw [BitVec.toNat_add]
  show (x.toNat + 1) % 256 = _
  omega

theorem eq_eight_iff {x : Byte} : x = 8 ↔ x.toNat = 8 := by
  constructor
  · rintro rfl
    rfl
  · exact fun h => BitVec.eq_of_toNat_eq h

theorem succ_ne_eight {x : Byte} (h : x.toNat < 8) (hlast : ¬x + 1 = 8) : ¬x.toNat + 1 = 8 := by
  rwa [eq_eight_iff, toNat_succ h] at hlast

/-- While the command is received, a sample is high. -/
theorem sample_command (hselected : d.selected = 1) (hp : p < 8) (hcommand : d.commandReceived = 0)
    (hbit : d.responseBitIndex.toNat = p) (hbyte : d.responseByteIndex.toNat = 0) :
    (simulatedGetMiso d).1 = level (replyBit d.response p) ∧
      Replying (p + 1) (simulatedGetMiso d).2 := by
  have hsel : ¬d.selected = 0 := by
    rw [hselected]
    decide
  rw [simulatedGetMiso, if_neg hsel, if_pos hcommand]
  dsimp only
  have hsmall : d.responseBitIndex.toNat < 8 := by omega
  have hsucc := toNat_succ hsmall
  refine ⟨by rw [replyBit_command _ hp]; rfl, ?_⟩
  by_cases hlast : d.responseBitIndex + 1 = 8
  · have hp7 : p = 7 := by
      rw [eq_eight_iff] at hlast
      omega
    rw [if_pos hlast]
    refine ⟨hselected, .inr (.inl ⟨by omega, by omega, rfl, ?_, ?_⟩)⟩
    · show 0 = (p + 1) % 8
      omega
    · show d.responseByteIndex.toNat + 1 = (p + 1) / 8
      omega
  · have hne := succ_ne_eight hsmall hlast
    rw [if_neg hlast]
    exact ⟨hselected, .inl ⟨by omega, hcommand, hsucc.trans (by omega), hbyte⟩⟩

/-- While the ID is sent, a sample is the next bit of it. -/
theorem sample_response (hselected : d.selected = 1) (hlo : 8 ≤ p) (hhi : p < 32)
    (hcommand : d.commandReceived = 1) (hbit : d.responseBitIndex.toNat = p % 8)
    (hbyte : d.responseByteIndex.toNat + 1 = p / 8) :
    (simulatedGetMiso d).1 = level (replyBit d.response p) ∧
      Replying (p + 1) (simulatedGetMiso d).2 := by
  have hsel : ¬d.selected = 0 := by
    rw [hselected]
    decide
  have hreceived : ¬d.commandReceived = 0 := by
    rw [hcommand]
    decide
  have hmore : ¬d.responseByteIndex ≥ 3 := by
    rw [ge_iff_le, BitVec.le_def]
    show ¬3 ≤ d.responseByteIndex.toNat
    omega
  rw [simulatedGetMiso, if_neg hsel, if_neg hreceived, if_neg hmore]
  dsimp only
  have hsmall : d.responseBitIndex.toNat < 8 := by omega
  have hsucc := toNat_succ hsmall
  have hsmallByte : d.responseByteIndex.toNat < 8 := by omega
  have hsuccByte := toNat_succ hsmallByte
  refine ⟨?_, ?_⟩
  · have hindex : p / 8 - 1 = d.responseByteIndex.toNat := by omega
    rw [shifted_and_one, replyBit, reply, if_neg (by omega), if_pos (by omega), hindex,
      BitVec.getMsbD, decide_eq_true (by omega), Bool.true_and, hbit]
  by_cases hlast : d.responseBitIndex + 1 = 8
  · have hp7 : p % 8 = 7 := by
      rw [eq_eight_iff] at hlast
      omega
    rw [if_pos hlast]
    refine ⟨hselected, .inr ?_⟩
    by_cases hdone : p = 31
    · exact .inr ⟨by omega, hcommand, hsuccByte.trans (by omega)⟩
    · refine .inl ⟨by omega, by omega, hcommand, ?_, ?_⟩
      · show 0 = (p + 1) % 8
        omega
      · show (d.responseByteIndex + 1).toNat + 1 = (p + 1) / 8
        omega
  · have hne := succ_ne_eight hsmall hlast
    rw [if_neg hlast]
    refine ⟨hselected, .inr (.inl ⟨by omega, by omega, hcommand, ?_, ?_⟩)⟩
    · show (d.responseBitIndex + 1).toNat = (p + 1) % 8
      omega
    · show d.responseByteIndex.toNat + 1 = (p + 1) / 8
      omega

/-- After the ID, a sample is high. -/
theorem sample_rest (hselected : d.selected = 1) (hp : 32 ≤ p) (hcommand : d.commandReceived = 1)
    (hbyte : d.responseByteIndex.toNat = 3) :
    (simulatedGetMiso d).1 = level (replyBit d.response p) ∧
      Replying (p + 1) (simulatedGetMiso d).2 := by
  have hsel : ¬d.selected = 0 := by
    rw [hselected]
    decide
  have hreceived : ¬d.commandReceived = 0 := by
    rw [hcommand]
    decide
  have hdone : d.responseByteIndex ≥ 3 := by
    rw [ge_iff_le, BitVec.le_def, hbyte]
    decide
  rw [simulatedGetMiso, if_neg hsel, if_neg hreceived, if_pos hdone]
  refine ⟨by rw [replyBit_rest _ hp]; rfl, ?_⟩
  exact ⟨hselected, .inr (.inr ⟨by omega, hcommand, hbyte⟩)⟩

/-- A sample is the next bit of the answer. -/
theorem Replying.sample (h : Replying p d) :
    (simulatedGetMiso d).1 = level (replyBit d.response p) ∧
      Replying (p + 1) (simulatedGetMiso d).2 := by
  obtain ⟨hselected, hphase⟩ := h
  rcases hphase with ⟨hp, hcommand, hbit, hbyte⟩ | ⟨hlo, hhi, hcommand, hbit, hbyte⟩ |
    ⟨hp, hcommand, hbyte⟩
  · exact sample_command hselected hp hcommand hbit hbyte
  · exact sample_response hselected hlo hhi hcommand hbit hbyte
  · exact sample_rest hselected hp hcommand hbyte

/-- A sample moves the answer on and nothing else. -/
theorem simulatedGetMiso_frame (d : SimulatedSpiDevice) :
    (simulatedGetMiso d).2.sclk = d.sclk ∧
    (simulatedGetMiso d).2.clockEdgeCount = d.clockEdgeCount ∧
    (simulatedGetMiso d).2.response = d.response := by
  unfold simulatedGetMiso
  split
  · exact ⟨rfl, rfl, rfl⟩
  split
  · dsimp only
    split
    · exact ⟨rfl, rfl, rfl⟩
    · exact ⟨rfl, rfl, rfl⟩
  split
  · exact ⟨rfl, rfl, rfl⟩
  · dsimp only
    split
    · exact ⟨rfl, rfl, rfl⟩
    · exact ⟨rfl, rfl, rfl⟩

end Reply

/-! ### Bits and bytes -/

section Rules

variable {α : Type} {Q : α → SimulatedSpiDevice × Memory → Prop} {s : SimulatedSpiDevice × Memory}

/-- The device answers in one way. -/
theorem wp_simulated {o : Op} {f : Ans o → SpiProgram α} :
    wp simulatedBus Q (Program.issue o >>= f) s ↔
      wp simulatedBus Q (f (simulatedSpiOps o s).1) (simulatedSpiOps o s).2 := by
  constructor
  · exact fun h => h _ _ rfl
  · intro h r s' heq
    obtain ⟨rfl, rfl⟩ := Prod.mk.inj heq
    exact h

end Rules

/-- The device has been sampled `p` times since it was selected, and if SCLK was idle then, it has
come to `l` by `e` edges. -/
structure Progress (bus : SpiBitbangBus) (d0 : SimulatedSpiDevice) (p e : Nat) (l : Byte)
    (d : SimulatedSpiDevice) : Prop where
  replying : Replying p d
  response : d.response = d0.response
  edges : d0.sclk = sclkIdle bus →
    d.sclk = l ∧ d.clockEdgeCount = d0.clockEdgeCount + BitVec.ofNat 32 e

section Transfer

variable {bus : SpiBitbangBus} {d0 d : SimulatedSpiDevice} {p e : Nat} {l l' : Byte}
  {memory : Memory}

theorem Replying.keep {d' : SimulatedSpiDevice} (h : Replying p d)
    (hselected : d'.selected = d.selected) (hcommand : d'.commandReceived = d.commandReceived)
    (hbit : d'.responseBitIndex = d.responseBitIndex)
    (hbyte : d'.responseByteIndex = d.responseByteIndex) : Replying p d' := by
  obtain ⟨hsel, hphase⟩ := h
  rw [← hcommand, ← hbit, ← hbyte] at hphase
  exact ⟨hselected.trans hsel, hphase⟩

theorem Progress.mosi (h : Progress bus d0 p e l d) (level : Byte) :
    Progress bus d0 p e l (simulatedSetMosi d level) :=
  ⟨h.replying.keep rfl rfl rfl rfl, h.response, h.edges⟩

theorem Progress.delay (h : Progress bus d0 p e l d) :
    Progress bus d0 p e l (simulatedDelayHalfCycle d) :=
  ⟨h.replying.keep rfl rfl rfl rfl, h.response, h.edges⟩

theorem setSclk_same (h : d.sclk = l) : simulatedSetSclk d l = d := by
  rw [simulatedSetSclk, if_neg (not_not.mpr h), ← h]

theorem Progress.edge (h : Progress bus d0 p e l d) (hne : l ≠ l') :
    Progress bus d0 p (e + 1) l' (simulatedSetSclk d l') := by
  obtain ⟨hreplying, hresponse, hedges⟩ := h
  have hframe : Replying p (simulatedSetSclk d l') ∧
      (simulatedSetSclk d l').response = d.response ∧ (simulatedSetSclk d l').sclk = l' := by
    unfold simulatedSetSclk
    dsimp only
    split
    · exact ⟨hreplying.keep rfl rfl rfl rfl, rfl, rfl⟩
    · exact ⟨hreplying.keep rfl rfl rfl rfl, rfl, rfl⟩
  obtain ⟨hkept, hsame, hsclk⟩ := hframe
  refine ⟨hkept, hsame.trans hresponse, fun hidle => ⟨hsclk, ?_⟩⟩
  obtain ⟨hlevel, hcount⟩ := hedges hidle
  have hmoved : d.sclk ≠ l' := by
    rw [hlevel]
    exact hne
  have hone : BitVec.ofNat 32 (e + 1) = BitVec.ofNat 32 e + 1 := BitVec.ofNat_add e 1
  rw [simulatedSetSclk, if_pos hmoved]
  show d.clockEdgeCount + 1 = _
  rw [hcount, hone, BitVec.add_assoc]

theorem Progress.sample (h : Progress bus d0 p e l d) :
    (simulatedGetMiso d).1 = level (replyBit d0.response p) ∧
      Progress bus d0 (p + 1) e l (simulatedGetMiso d).2 := by
  obtain ⟨hreplying, hresponse, hedges⟩ := h
  obtain ⟨hbit, hnext⟩ := hreplying.sample
  obtain ⟨hsclk, hcount, hsame⟩ := simulatedGetMiso_frame d
  rw [hresponse] at hbit
  rw [← hsclk, ← hcount] at hedges
  exact ⟨hbit, hnext, hsame.trans hresponse, hedges⟩

/-- A bit takes two edges and one sample. -/
theorem transferBit_reply (h : Progress bus d0 p e (sclkIdle bus) d) (txByte rxByte : Byte)
    (k : Nat) :
    wp simulatedBus (fun r s' => r = spiStoreRxBit rxByte k (level (replyBit d0.response p))
        bus.bitOrder ∧ Progress bus d0 (p + 1) (e + 2) (sclkIdle bus) s'.1 ∧ s'.2 = memory)
      (transferBit bus txByte rxByte k) (d, memory) := by
  have hne := sclkActive_ne_sclkIdle bus
  rw [transferBit, activeLevel_eq, idleLevel_eq]
  split
  · apply wp_simulated.mpr
    have h1 := h.mosi (spiGetTxBit txByte k bus.bitOrder)
    apply wp_simulated.mpr
    have h2 := h1.delay
    apply wp_simulated.mpr
    have h3 := h2.edge hne.symm
    apply wp_simulated.mpr
    obtain ⟨hbit, h4⟩ := h3.sample
    apply wp_simulated.mpr
    have h5 := h4.delay
    apply wp_simulated.mpr
    have h6 := h5.edge hne
    exact ⟨congrArg (fun bit => spiStoreRxBit rxByte k bit bus.bitOrder) hbit, h6, rfl⟩
  · apply wp_simulated.mpr
    have h1 := h.edge hne.symm
    apply wp_simulated.mpr
    have h2 := h1.mosi (spiGetTxBit txByte k bus.bitOrder)
    apply wp_simulated.mpr
    have h3 := h2.delay
    apply wp_simulated.mpr
    have h4 := h3.edge hne
    apply wp_simulated.mpr
    obtain ⟨hbit, h5⟩ := h4.sample
    apply wp_simulated.mpr
    have h6 := h5.delay
    exact ⟨congrArg (fun bit => spiStoreRxBit rxByte k bit bus.bitOrder) hbit, h6, rfl⟩

/-- A byte, with the most significant bit first, is the next byte of the answer. -/
theorem transferByte_reply (horder : bus.bitOrder = .msbFirst) {j : Nat}
    (h : Progress bus d0 (8 * j) (16 * j) (sclkIdle bus) d) (txByte : Byte) :
    wp simulatedBus (fun r s' => r = reply d0.response j ∧
        Progress bus d0 (8 * (j + 1)) (16 * (j + 1)) (sclkIdle bus) s'.1 ∧ s'.2 = memory)
      (spiBitbangTransferByte bus txByte) (d, memory) := by
  refine wp_mono (wp_foldlM_range (I := fun k r (s : SimulatedSpiDevice × Memory) =>
    (∀ i < 8, r.getMsbD i = (decide (i < k) && replyBit d0.response (8 * j + i))) ∧
    Progress bus d0 (8 * j + k) (16 * j + 2 * k) (sclkIdle bus) s.1 ∧ s.2 = memory) ?_ ?_) ?_
  · exact ⟨fun i _ => BitVec.getMsbD_zero, h, rfl⟩
  · rintro k hk r ⟨d1, m1⟩ ⟨hbits, hprogress, rfl⟩
    refine wp_mono (transferBit_reply hprogress txByte r k) ?_
    rintro _ s2 ⟨rfl, hprogress2, hmemory2⟩
    refine ⟨fun i hi => ?_, hprogress2, hmemory2⟩
    have hstored := @bitAt_spiStoreRxBit bus.bitOrder r i k
      (level (replyBit d0.response (8 * j + k))) hk hi
    rw [horder] at hstored ⊢
    rw [bitAt, bitAt, level_ne_zero, hbits i hi] at hstored
    rw [hstored]
    by_cases heq : i = k
    · subst heq
      simp
    · have hlt : i < k + 1 ↔ i < k := by omega
      simp [heq, hlt]
  · rintro r s ⟨hbits, hprogress, hmemory⟩
    refine ⟨?_, hprogress, hmemory⟩
    apply BitVec.eq_of_getMsbD_eq
    intro i hi
    have hdiv : (8 * j + i) / 8 = j := by omega
    have hmod : (8 * j + i) % 8 = i := by omega
    rw [hbits i hi, decide_eq_true hi, Bool.true_and, replyBit, hdiv, hmod]

theorem fetchByte_any {Q : Byte → SimulatedSpiDevice × Memory → Prop} (tx : Option Nat) (k : Nat)
    {s : SimulatedSpiDevice × Memory} (h : ∀ b, Q b s) : wp simulatedBus Q (fetchByte tx k) s := by
  cases tx with
  | none => exact h 0xff
  | some start =>
    intro b s' heq
    obtain ⟨-, rfl⟩ := Prod.mk.inj heq
    exact h b

/-- Selecting the device takes its answer back to the start. -/
theorem select_progress (bus : SpiBitbangBus) (d : SimulatedSpiDevice) :
    Progress bus d 0 0 (sclkIdle bus) (simulatedSetCs d 0) := by
  refine ⟨⟨rfl, .inl ⟨by decide, rfl, rfl, rfl⟩⟩, rfl, fun hidle => ⟨hidle, ?_⟩⟩
  exact (BitVec.add_zero _).symm

/-- A transfer into a buffer receives the answer from its start on. -/
theorem transfer_reply (hlow : bus.csActiveLow ≠ 0) (horder : bus.bitOrder = .msbFirst)
    (d : SimulatedSpiDevice) (memory : Memory) (tx : Option Nat) (rx n : Nat) :
    wp simulatedBus (fun rc s' => rc = spiOk ∧
        s'.2.bytes rx n = (List.range n).map (reply d.response) ∧
        (d.sclk = sclkIdle bus →
          s'.1.clockEdgeCount = d.clockEdgeCount + BitVec.ofNat 32 (16 * n)))
      (spiBitbangTransfer (some bus) tx (some rx) n) (d, memory) := by
  have hbuffers : ¬(tx.isNone ∧ (some rx).isNone) := fun h => Bool.false_ne_true h.2
  rw [spiBitbangTransfer, if_neg hbuffers]
  apply wp_simulated.mpr
  have hselect : (simulatedSpiOps (.setCs (csActive bus)) (d, memory)).2 =
      (simulatedSetCs d 0, memory) := by
    rw [csActive, if_pos hlow]
    rfl
  rw [hselect]
  refine wp_seq (wp_foldlM_range (I := fun k (_ : Unit) (s : SimulatedSpiDevice × Memory) =>
    Progress bus d (8 * k) (16 * k) (sclkIdle bus) s.1 ∧
      s.2.bytes rx k = (List.range k).map (reply d.response)) ?_ ?_) ?_
  · exact ⟨select_progress bus d, rfl⟩
  · rintro k - _ ⟨d1, m1⟩ ⟨hprogress, hbytes⟩
    refine wp_bind.mpr (fetchByte_any tx k fun txByte => ?_)
    refine wp_seq (transferByte_reply horder hprogress txByte) ?_
    rintro _ ⟨d2, m2⟩ ⟨rfl, hprogress2, rfl⟩
    intro r s3 heq
    obtain ⟨-, rfl⟩ := Prod.mk.inj heq
    refine ⟨hprogress2, ?_⟩
    have hold : Memory.bytes (Function.update m2 (rx + k) (reply d.response k)) rx k =
        m2.bytes rx k := by
      refine Memory.bytes_congr fun i hi => ?_
      rw [Function.update_of_ne (by omega)]
    show Memory.bytes (Function.update m2 (rx + k) (reply d.response k)) rx (k + 1) = _
    rw [Memory.bytes_succ, hold, hbytes, Function.update_self, List.range_succ, List.map_append]
    rfl
  · rintro _ ⟨d1, m1⟩ ⟨hprogress, hbytes⟩
    apply wp_simulated.mpr
    apply wp_simulated.mpr
    refine ⟨rfl, hbytes, fun hidle => ?_⟩
    obtain ⟨hsclk, hcount⟩ := hprogress.edges hidle
    rw [← idleLevel_eq] at hsclk
    show (simulatedSetCs (simulatedSetSclk d1 (idleLevel bus)) _).clockEdgeCount = _
    rw [setSclk_same hsclk, simulatedSetCs]
    dsimp only
    split
    · exact hcount
    · exact hcount

end Transfer

/-! ### Calls -/

theorem simulatedSpi_handles : Handles simulatedBus simulatedSpiOps := fun _ _ => rfl

/-- No operation changes the ID. -/
theorem simulatedSpiOps_response (o : Op) (s : SimulatedSpiDevice × Memory) :
    (simulatedSpiOps o s).2.1.response = s.1.response := by
  cases o with
  | setSclk level =>
    unfold simulatedSpiOps simulatedSetSclk
    dsimp only
    split <;> rfl
  | setMosi level => rfl
  | setCs level =>
    unfold simulatedSpiOps simulatedSetCs
    dsimp only
    split <;> rfl
  | getMiso => exact (simulatedGetMiso_frame s.1).2.2
  | delayHalfCycle => rfl
  | load address => rfl
  | store address value => rfl

theorem run_response {α : Type} (p : SpiProgram α) (s : SimulatedSpiDevice × Memory) :
    (p.run simulatedSpiOps s).2.1.response = s.1.response := by
  induction p generalizing s with
  | ret a => rfl
  | call o k ih => exact (ih _ _).trans (simulatedSpiOps_response o s)

/-- The device and the memory after some calls. -/
def afterCalls (calls : List Call) (s : SimulatedSpiDevice × Memory) :
    SimulatedSpiDevice × Memory :=
  calls.foldl (fun s c => (c.program.run simulatedSpiOps s).2) s

theorem afterCalls_response (calls : List Call) (s : SimulatedSpiDevice × Memory) :
    (afterCalls calls s).1.response = s.1.response := by
  induction calls generalizing s with
  | nil => rfl
  | cons c calls ih => exact (ih _).trans (run_response c.program s)

/-- The first `n` of 0xff, the three bytes of the ID, and 0xff for ever. -/
def idBytes (n : Nat) : List Byte :=
  (([0xff, 0xef, 0x40, 0x18] : List Byte) ++ List.replicate n 0xff).take n

theorem reply_idBytes (n : Nat) :
    (List.range n).map (reply simulatedSpiDeviceInit.response) = idBytes n := by
  apply List.ext_getElem
  · rw [List.length_map, List.length_range, idBytes, List.length_take, List.length_append,
      List.length_replicate]
    omega
  intro j hj hj'
  rw [List.getElem_map, List.getElem_range]
  simp only [idBytes, List.getElem_take]
  match j with
  | 0 | 1 | 2 | 3 => rfl
  | j + 4 =>
    rw [reply, if_neg (by omega), if_neg (by omega)]
    simp

/-- On a bus with an active-low chip select and the most significant bit first, in every mode: after
any calls from the initialized device on, a transfer of `n` bytes into a buffer receives the ID, in
16 edges of SCLK for each byte if SCLK was idle. -/
theorem readId_exchange {bus : SpiBitbangBus} (hlow : bus.csActiveLow ≠ 0)
    (horder : bus.bitOrder = .msbFirst) (calls : List Call) (memory : Memory) (tx : Option Nat)
    (rx n : Nat) {s s' : SimulatedSpiDevice × Memory} {rc : Int}
    (hs : afterCalls calls (simulatedSpiDeviceInit, memory) = s)
    (hrun : (spiBitbangTransfer (some bus) tx (some rx) n).run simulatedSpiOps s = (rc, s')) :
    rc = spiOk ∧ s'.2.bytes rx n = idBytes n ∧ (s.1.sclk = sclkIdle bus →
      s'.1.clockEdgeCount = s.1.clockEdgeCount + BitVec.ofNat 32 (16 * n)) := by
  have hresponse : s.1.response = simulatedSpiDeviceInit.response := by
    rw [← hs]
    exact afterCalls_response calls _
  obtain ⟨t, he⟩ := simulatedSpi_handles.exec (spiBitbangTransfer (some bus) tx (some rx) n) s
  rw [hrun] at he
  obtain ⟨hrc, hbytes, hedges⟩ := wp_sound (transfer_reply hlow horder s.1 s.2 tx rx n) he
  rw [hresponse, reply_idBytes] at hbytes
  exact ⟨hrc, hbytes, hedges⟩

/-- A bus with all its functions, in mode 0. -/
def mode0Bus : SpiBitbangBus :=
  ⟨some ⟨true, true, true, true, true⟩, .mode0, .msbFirst, 1⟩

/-- Four bytes after a transfer of two, which stops in the middle of the ID. -/
theorem readId_after_part : ∃ s s' : SimulatedSpiDevice × Memory,
    afterCalls [.init (some mode0Bus), .transfer (some mode0Bus) none (some 0) 2]
      (simulatedSpiDeviceInit, fun _ => 0) = s ∧
    (spiBitbangTransfer (some mode0Bus) none (some 0) 4).run simulatedSpiOps s = (spiOk, s') ∧
    s'.2.bytes 0 4 = [0xff, 0xef, 0x40, 0x18] := by
  have hlow : mode0Bus.csActiveLow ≠ 0 := by decide
  obtain ⟨s, hs⟩ : ∃ s, afterCalls
      [.init (some mode0Bus), .transfer (some mode0Bus) none (some 0) 2]
      (simulatedSpiDeviceInit, fun _ => 0) = s := ⟨_, rfl⟩
  rcases hrun : (spiBitbangTransfer (some mode0Bus) none (some 0) 4).run simulatedSpiOps s with
    ⟨rc, s'⟩
  obtain ⟨rfl, hbytes, -⟩ := readId_exchange hlow rfl _ _ none 0 4 hs hrun
  exact ⟨s, s', hs, hrun, hbytes⟩

end CortexLabs.Spi

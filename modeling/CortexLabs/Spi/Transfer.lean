import CortexLabs.Device.Exchange
import CortexLabs.Spi.Frames

/-! Transfers on the wires, in any sequence of calls after a successful `spi_bitbang_init`. -/

namespace CortexLabs.Spi

open Device

/-! ### Operations -/

section Rules

variable {α : Type} {Q : α → Wire → Prop} {w : Wire}

theorem wp_setSclk {l : Byte} {f : Unit → SpiProgram α} :
    wp spiWires Q (setSclk l >>= f) w ↔ wp spiWires Q (f ()) (w.setSclk l) :=
  ⟨fun h => h () _ rfl, fun h _ _ hw => hw ▸ h⟩

theorem wp_setMosi {l : Byte} {f : Unit → SpiProgram α} :
    wp spiWires Q (setMosi l >>= f) w ↔ wp spiWires Q (f ()) { w with mosi := l } :=
  ⟨fun h => h () _ rfl, fun h _ _ hw => hw ▸ h⟩

theorem wp_setCs {l : Byte} {f : Unit → SpiProgram α} :
    wp spiWires Q (setCs l >>= f) w ↔ wp spiWires Q (f ()) (w.setCs l) :=
  ⟨fun h => h () _ rfl, fun h _ _ hw => hw ▸ h⟩

theorem wp_delayHalfCycle {f : Unit → SpiProgram α} :
    wp spiWires Q (delayHalfCycle >>= f) w ↔ wp spiWires Q (f ()) w :=
  ⟨fun h => h () _ rfl, fun h _ _ hw => hw ▸ h⟩

theorem wp_getMiso {f : Byte → SpiProgram α} :
    wp spiWires Q (getMiso >>= f) w ↔ ∀ miso, wp spiWires Q (f miso) (w.sampled miso) :=
  ⟨fun h miso => h miso _ rfl, fun h miso _ hw => hw ▸ h miso⟩

end Rules

variable {bus : SpiBitbangBus} {w w' : Wire} {tx rx : Option Nat} {length : Nat}

/-- A bit takes one cycle. -/
theorem transferBit_cycle (hidle : w.sclk = sclkIdle bus) {k : Nat} (hk : k < 8)
    (txByte rxByte : Byte) :
    wp spiWires (fun r w' => ∃ stale miso, r = spiStoreRxBit rxByte k miso bus.bitOrder ∧
      w' = { w with
        mosi := level (bitAt bus.bitOrder txByte k)
        trace := w.trace ++ cycle bus stale (level (bitAt bus.bitOrder txByte k)) miso })
      (transferBit bus txByte rxByte k) w := by
  have hne := sclkActive_ne_sclkIdle bus
  rw [transferBit, spiGetTxBit_eq hk, activeLevel_eq, idleLevel_eq]
  unfold cycle
  cases hcpha : bus.mode.cpha
  · rw [if_pos ((spiGetCpha_eq_zero _).mpr hcpha)]
    simp only [wp_setMosi, wp_delayHalfCycle, wp_setSclk, wp_getMiso]
    intro miso
    refine ⟨0, miso, rfl, ?_⟩
    simp [Wire.setSclk, Wire.sampled, hidle, hne, Ne.symm hne]
  · rw [if_neg fun hzero => absurd ((spiGetCpha_eq_zero _).mp hzero) (by simp [hcpha])]
    simp only [wp_setMosi, wp_delayHalfCycle, wp_setSclk, wp_getMiso]
    intro miso
    refine ⟨w.mosi, miso, rfl, ?_⟩
    simp [Wire.setSclk, Wire.sampled, hidle, hne, Ne.symm hne]

/-- What is on the wires, and in the byte being received, after `k` bits of a byte. -/
def Shifting (bus : SpiBitbangBus) (w : Wire) (txByte : Byte) (k : Nat) (r : Byte) (w' : Wire) :
    Prop :=
  ∃ mosi samples part, Cycles bus ((List.range k).map (bitAt bus.bitOrder txByte)) samples part ∧
    (List.range k).map (bitAt bus.bitOrder r) = samples.map (fun miso => decide (miso ≠ 0)) ∧
    (∀ i, k ≤ i → i < 8 → bitAt bus.bitOrder r i = false) ∧
    w' = { w with mosi, trace := w.trace ++ part }

theorem bitAt_zero (order : SpiBitOrder) (i : Nat) : bitAt order 0 i = false := by
  cases order
  · exact BitVec.getMsbD_zero
  · exact BitVec.getLsbD_zero

theorem Shifting.step {txByte r : Byte} {k : Nat} (h : Shifting bus w txByte k r w') (hk : k < 8)
    (stale miso : Byte) :
    Shifting bus w txByte (k + 1) (spiStoreRxBit r k miso bus.bitOrder) { w' with
      mosi := level (bitAt bus.bitOrder txByte k)
      trace := w'.trace ++ cycle bus stale (level (bitAt bus.bitOrder txByte k)) miso } := by
  obtain ⟨mosi, samples, part, hcycles, hbits, hrest, rfl⟩ := h
  refine ⟨level (bitAt bus.bitOrder txByte k), samples ++ [miso],
    part ++ cycle bus stale (level (bitAt bus.bitOrder txByte k)) miso, ?_, ?_, ?_, ?_⟩
  · rw [List.range_succ, List.map_append, List.map_singleton]
    exact hcycles.snoc stale _ miso
  · rw [List.range_succ, List.map_append, List.map_append, List.map_singleton, List.map_singleton,
      ← hbits]
    congr 1
    · refine List.map_congr_left fun i hi => ?_
      have hlt := List.mem_range.mp hi
      rw [bitAt_spiStoreRxBit hk (by omega), decide_eq_false (by omega : ¬ i = k), Bool.false_and,
        Bool.or_false]
    · rw [bitAt_spiStoreRxBit hk hk, hrest k (Nat.le_refl k) hk, decide_eq_true rfl, Bool.true_and,
        Bool.false_or]
  · intro i hki hi
    rw [bitAt_spiStoreRxBit hk hi, hrest i (by omega) hi, decide_eq_false (by omega : ¬ i = k),
      Bool.false_and, Bool.or_false]
  · rw [List.append_assoc]

/-- A byte takes the cycles of its bits, and the byte received for it has the bits sampled. -/
theorem spiBitbangTransferByte_cycles (hidle : w.sclk = sclkIdle bus) (txByte : Byte) :
    wp spiWires (fun r w' => ∃ mosi samples part,
      Cycles bus (bitsOf bus.bitOrder txByte) samples part ∧
      bitsOf bus.bitOrder r = samples.map (fun miso => decide (miso ≠ 0)) ∧
      w' = { w with mosi, trace := w.trace ++ part }) (spiBitbangTransferByte bus txByte) w := by
  have hstart : Shifting bus w txByte 0 0 w := by
    refine ⟨w.mosi, [], [], .nil, rfl, fun i _ _ => bitAt_zero _ i, ?_⟩
    rw [List.append_nil]
  refine wp_mono (wp_foldlM_range (I := Shifting bus w txByte) hstart fun k hk r w' h => ?_) ?_
  · have hsclk : w'.sclk = sclkIdle bus := by
      obtain ⟨_, _, _, _, _, _, rfl⟩ := h
      exact hidle
    refine wp_mono (transferBit_cycle hsclk hk txByte r) ?_
    rintro _ _ ⟨stale, miso, rfl, rfl⟩
    exact h.step hk stale miso
  · rintro r w' ⟨mosi, samples, part, hcycles, hbits, -, hw⟩
    exact ⟨mosi, samples, part, hcycles, hbits, hw⟩

/-- `part`, from the selection of the slave to its deselection, both with SCLK idle. -/
def framed (bus : SpiBitbangBus) (part : List WireEvent) : List WireEvent :=
  .select (csSelected bus) (sclkIdle bus) :: part ++ [.select (csDeselected bus) (sclkIdle bus)]

/-- What is on the wires after `k` bytes of a transfer. -/
def Transferring (bus : SpiBitbangBus) (tx rx : Option Nat) (w : Wire) (k : Nat) (w' : Wire) :
    Prop :=
  ∃ sent received samples part mosi memory, sent.length = k ∧
    Exchanged 0xff tx rx w.memory sent received memory ∧
    Cycles bus (sent.flatMap (bitsOf bus.bitOrder)) samples part ∧
    received.flatMap (bitsOf bus.bitOrder) = samples.map (fun miso => decide (miso ≠ 0)) ∧
    w' = { w with mosi, memory, trace := w.trace ++ part }

theorem fetchByte_taken (tx : Option Nat) (w : Wire) (k : Nat) :
    wp spiWires (fun b w1 => b = taken 0xff tx w.memory k ∧ w1 = w) (fetchByte tx k) w := by
  cases tx with
  | none => exact ⟨rfl, rfl⟩
  | some start => exact fun b w1 hw => hw

theorem keepByte_kept (rx : Option Nat) (w : Wire) (k : Nat) (r : Byte) :
    wp spiWires (fun _ w1 => w1 = { w with memory := kept rx w.memory k r }) (keepByte rx k r)
      w := by
  cases rx with
  | none => rfl
  | some start => exact fun _ w1 hw => hw

theorem transferIndex_step {k : Nat} (hidle : w.sclk = sclkIdle bus)
    (h : Transferring bus tx rx w k w') :
    wp spiWires (fun _ => Transferring bus tx rx w (k + 1)) (transferIndex bus tx rx () k) w' := by
  obtain ⟨sent, received, samples, part, mosi, memory, rfl, hexchanged, hcycles, hbits, rfl⟩ := h
  refine wp_seq (fetchByte_taken ..) ?_
  rintro _ _ ⟨rfl, rfl⟩
  refine wp_seq (spiBitbangTransferByte_cycles
    (w := { w with mosi, memory, trace := w.trace ++ part }) hidle _) ?_
  rintro r _ ⟨mosi', samples', part', hcycles', hbits', rfl⟩
  refine wp_mono (keepByte_kept ..) ?_
  rintro _ _ rfl
  refine ⟨_, _, samples ++ samples', part ++ part', mosi', _, ?_, hexchanged.snoc r, ?_, ?_, ?_⟩
  · rw [List.length_append, List.length_singleton]
  · rw [List.flatMap_append, List.flatMap_singleton]
    exact hcycles.append hcycles'
  · rw [List.flatMap_append, List.flatMap_singleton, hbits, hbits', List.map_append]
  · rw [List.append_assoc]

theorem spiBitbangDeselect_wires (hidle : w.sclk = sclkIdle bus) :
    wp spiWires (fun _ w' => w' = w.setCs (csDeselected bus)) (spiBitbangDeselect bus) w := by
  rw [spiBitbangDeselect, idleLevel_eq, csInactive_eq, wp_setSclk, ← hidle, Wire.setSclk,
    if_pos rfl]
  exact fun _ w' hw => hw

/-- A transfer that has a buffer selects the slave, clocks its bytes, and deselects it. -/
theorem spiBitbangTransfer_wires (hidle : w.sclk = sclkIdle bus)
    (hbuffers : tx.isSome ∨ rx.isSome) :
    wp spiWires (fun rc w' => rc = spiOk ∧ ∃ sent received samples part mosi memory,
      sent.length = length ∧ Exchanged 0xff tx rx w.memory sent received memory ∧
      Cycles bus (sent.flatMap (bitsOf bus.bitOrder)) samples part ∧
      received.flatMap (bitsOf bus.bitOrder) = samples.map (fun miso => decide (miso ≠ 0)) ∧
      w' = { w with
        mosi
        cs := csDeselected bus
        memory
        trace := w.trace ++ framed bus part })
      (spiBitbangTransfer (some bus) tx rx length) w := by
  have hnull : ¬ (tx.isNone ∧ rx.isNone) := by
    rintro ⟨htx, hrx⟩
    rw [Option.isNone_iff_eq_none] at htx hrx
    rw [htx, hrx] at hbuffers
    rcases hbuffers with h | h <;> cases h
  rw [spiBitbangTransfer, if_neg hnull, spiBitbangSelect, csActive_eq]
  apply wp_setCs.mpr
  have hidle1 : (w.setCs (csSelected bus)).sclk = sclkIdle bus := hidle
  refine wp_seq (wp_foldlM_range
    (I := fun k (_ : Unit) => Transferring bus tx rx (w.setCs (csSelected bus)) k)
    ⟨[], [], [], [], w.mosi, w.memory, rfl, .nil, .nil, rfl, by rw [List.append_nil]; rfl⟩
    fun k _ _ w1 h1 => transferIndex_step hidle1 h1) ?_
  rintro _ _ ⟨sent, received, samples, part, mosi, memory, hlen, hexchanged, hcycles, hbits, rfl⟩
  refine wp_seq (spiBitbangDeselect_wires
    (w := { w.setCs (csSelected bus) with mosi, memory, trace := _ }) hidle) ?_
  rintro _ _ rfl
  refine ⟨rfl, sent, received, samples, part, mosi, memory, hlen, hexchanged, hcycles, hbits, ?_⟩
  simp [Wire.setCs, framed, hidle]

/-! ### Calls -/

inductive Call where
  | init (bus : Option SpiBitbangBus)
  | transfer (bus : Option SpiBitbangBus) (txBuffer rxBuffer : Option Nat) (length : Nat)

namespace Call

def given : Call → Option SpiBitbangBus
  | .init bus | .transfer bus _ _ _ => bus

def program : Call → SpiProgram Int
  | .init bus => spiBitbangInit bus
  | .transfer bus tx rx length => spiBitbangTransfer bus tx rx length

def isTransfer : Call → Bool
  | .init _ => false
  | .transfer _ _ _ _ => true

/-- The arguments pass the checks of the call. -/
def accepted : Call → Bool
  | .init bus => (initBus bus).isSome
  | .transfer bus tx rx _ => bus.isSome && (tx.isSome || rx.isSome)

end Call

/-- From a successful `spi_bitbang_init` of a bus on, calls with that bus or with NULL, what they
returned, and the wires that they leave. -/
inductive Session (bus : SpiBitbangBus) : List (Call × Int) → Wire → Prop
  | init {w w' : Wire} {t : List (Event spiWires)} :
      Exec spiWires (spiBitbangInit (some bus)) w t (some spiOk) w' →
      Session bus [(.init (some bus), spiOk)] w'
  | call {log : List (Call × Int)} {w w' : Wire} {c : Call} {rc : Int}
      {t : List (Event spiWires)} : Session bus log w → (∀ given ∈ c.given, given = bus) →
      Exec spiWires c.program w t (some rc) w' → Session bus (log ++ [(c, rc)]) w'

/-- The last call whose arguments were accepted. -/
def lastAccepted (log : List (Call × Int)) : Option Call :=
  log.foldl (fun last e => if e.1.accepted then some e.1 else last) none

theorem lastAccepted_append (log : List (Call × Int)) (c : Call) (rc : Int) :
    lastAccepted (log ++ [(c, rc)]) = if c.accepted then some c else lastAccepted log := by
  rw [lastAccepted, List.foldl_append]
  rfl

theorem spiBitbangInit_valid (hvalid : initBus (some bus) = some bus) :
    wp spiWires (fun rc w' => rc = spiOk ∧ w'.sclk = sclkIdle bus ∧ w'.cs = csSelected bus)
      (spiBitbangInit (some bus)) w := by
  have hsclk : (w.setSclk (sclkIdle bus)).sclk = sclkIdle bus := by
    unfold Wire.setSclk
    split
    · next hsame => exact hsame.symm
    · rfl
  rw [spiBitbangInit, hvalid]
  dsimp only
  rw [spiBitbangSelect, idleLevel_eq, csActive_eq]
  refine wp_setSclk.mpr (wp_setMosi.mpr (wp_setCs.mpr ?_))
  exact ⟨rfl, hsclk, rfl⟩

theorem initBus_eq (bus : SpiBitbangBus) :
    initBus (some bus) = some bus ∨ initBus (some bus) = none := by
  rw [initBus, Option.filter_some]
  split
  · exact .inl rfl
  · exact .inr rfl

theorem spiBitbangInit_invalid {given : Option SpiBitbangBus} (hinvalid : initBus given = none) :
    spiBitbangInit given = .ret spiErrorInvalidArgument := by
  rw [spiBitbangInit, hinvalid]
  rfl

/-- A call that is accepted succeeds, and leaves SCLK idle and CS as its kind does; any other fails
and does nothing. -/
theorem call_lines {c : Call} (hbus : ∀ given ∈ c.given, given = bus)
    (hidle : w.sclk = sclkIdle bus) :
    wp spiWires (fun rc w' => if c.accepted then rc = spiOk ∧ w'.sclk = sclkIdle bus ∧
        w'.cs = (if c.isTransfer then csDeselected bus else csSelected bus)
      else rc = spiErrorInvalidArgument ∧ w' = w) c.program w := by
  cases c with
  | init given =>
    rcases hgiven : initBus given with _ | valid
    · have hrejected : ¬ (Call.init given).accepted := by simp [Call.accepted, hgiven]
      simp only [Call.program, spiBitbangInit_invalid hgiven, if_neg hrejected]
      exact ⟨rfl, rfl⟩
    · have haccepted : (Call.init given).accepted := by simp [Call.accepted, hgiven]
      obtain rfl := Option.eq_some_of_filter_eq_some hgiven
      obtain rfl := hbus valid rfl
      simp only [if_pos haccepted]
      exact spiBitbangInit_valid hgiven
  | transfer given tx rx length =>
    cases given with
    | none => exact ⟨rfl, rfl⟩
    | some given =>
      obtain rfl := hbus given rfl
      by_cases hbuffers : tx.isSome ∨ rx.isSome
      · have haccepted : (Call.transfer (some given) tx rx length).accepted := by
          simpa [Call.accepted] using hbuffers
        simp only [if_pos haccepted]
        refine wp_mono (spiBitbangTransfer_wires hidle hbuffers) ?_
        rintro rc _ ⟨hrc, _, _, _, _, _, _, _, _, _, _, rfl⟩
        exact ⟨hrc, hidle, rfl⟩
      · rw [not_or, Option.not_isSome_iff_eq_none, Option.not_isSome_iff_eq_none] at hbuffers
        obtain ⟨rfl, rfl⟩ := hbuffers
        exact ⟨rfl, rfl⟩

/-- Between calls SCLK is idle, and CS is where the last call that was accepted left it. -/
theorem Session.lines {log : List (Call × Int)} (h : Session bus log w) :
    w.sclk = sclkIdle bus ∧ ∃ c, lastAccepted log = some c ∧
      w.cs = (if c.isTransfer then csDeselected bus else csSelected bus) := by
  induction h with
  | init he =>
    rcases initBus_eq bus with h | h
    · obtain ⟨_, hsclk, hcs⟩ := wp_sound (spiBitbangInit_valid h) he
      refine ⟨hsclk, .init (some bus), ?_, hcs⟩
      simp [lastAccepted, Call.accepted, h]
    · rw [spiBitbangInit_invalid h] at he
      obtain ⟨_, hrc, _⟩ := he.of_ret
      cases hrc
  | @call log w w' c rc t _ hbus he ih =>
    obtain ⟨hidle, last, hlast, hcs⟩ := ih
    have hlines := wp_sound (call_lines hbus hidle) he
    rw [lastAccepted_append]
    split at hlines
    · next haccepted => exact ⟨hlines.2.1, c, if_pos haccepted, hlines.2.2⟩
    · next hrejected =>
      obtain ⟨_, rfl⟩ := hlines
      exact ⟨hidle, last, (if_neg hrejected).trans hlast, hcs⟩

/-! ### A transfer -/

/-- The lines while the bytes of a transfer are on them: the order of the edges and the samples,
two edges for each bit, the bits of the bytes sent on MOSI on the edges to the sampling level, and
the bits of the bytes received as sampled. -/
structure OnWires (bus : SpiBitbangBus) (sent received : List Byte) (part : List WireEvent) :
    Prop where
  marks : part.map WireEvent.mark = (List.replicate (8 * sent.length) (cycleMarks bus)).flatten
  edges : part.countP WireEvent.isEdge = 16 * sent.length
  mosi : part.filterMap (WireEvent.mosiAt (samplingLevel bus)) =
    (sent.flatMap (bitsOf bus.bitOrder)).map level
  miso : (part.filterMap WireEvent.miso).map (fun miso => decide (miso ≠ 0)) =
    received.flatMap (bitsOf bus.bitOrder)

theorem length_bits (order : SpiBitOrder) (bytes : List Byte) :
    (bytes.flatMap (bitsOf order)).length = 8 * bytes.length := by
  induction bytes with
  | nil => rfl
  | cons b bytes ih =>
    rw [List.flatMap_cons, List.length_append, ih, bitsOf, List.length_map, List.length_range,
      List.length_cons]
    omega

theorem Cycles.onWires {sent received samples : List Byte} {part : List WireEvent}
    (h : Cycles bus (sent.flatMap (bitsOf bus.bitOrder)) samples part)
    (hbits : received.flatMap (bitsOf bus.bitOrder) =
      samples.map (fun miso => decide (miso ≠ 0))) : OnWires bus sent received part := by
  obtain ⟨hmarks, hedges, hmosi, hmiso⟩ := h.marks
  rw [length_bits] at hmarks hedges
  exact ⟨hmarks, by omega, hmosi, by rw [hmiso, hbits]⟩

/-- A slave that sees a transfer receives the bytes sent. -/
theorem Slave.next_transfer {sent samples : List Byte} {part : List WireEvent}
    (h : Cycles bus (sent.flatMap (bitsOf bus.bitOrder)) samples part) (s : Slave) :
    ((framed bus part).foldl (Slave.next bus) s).bytes = s.bytes ++ sent := by
  have hselected : (s.next bus (.select (csSelected bus) (sclkIdle bus))).selected = true :=
    decide_eq_true rfl
  have hpart := (next_cycles h hselected).1
  rw [framed, List.foldl_append]
  refine (congrArg Slave.bytes hpart).trans ?_
  exact clock_bytes rfl sent

/-- In a session, a transfer that has a buffer succeeds: it selects the slave with SCLK idle, clocks
its bytes on the wires so that the slave receives them, keeps the bytes sampled, and deselects the
slave with SCLK idle. -/
theorem spiBitbangTransfer_duplex {log : List (Call × Int)} (hsession : Session bus log w)
    (hbuffers : tx.isSome ∨ rx.isSome) {t : List (Event spiWires)} {rc : Int}
    (he : Exec spiWires (spiBitbangTransfer (some bus) tx rx length) w t (some rc) w') :
    rc = spiOk ∧ w'.cs = csDeselected bus ∧ w'.sclk = sclkIdle bus ∧
    ∃ sent received part, sent.length = length ∧
      Exchanged 0xff tx rx w.memory sent received w'.memory ∧
      ((∀ a b, tx = some a → rx = some b → ∀ i < length, ∀ j < i, b + j ≠ a + i) →
        sent = (List.range length).map (taken 0xff tx w.memory)) ∧
      (∀ start, rx = some start → w'.memory.bytes start length = received) ∧
      w'.trace = w.trace ++ framed bus part ∧ OnWires bus sent received part ∧
      ∀ slave, ((framed bus part).foldl (Slave.next bus) slave).bytes = slave.bytes ++ sent := by
  obtain ⟨hrc, sent, received, samples, part, mosi, memory, rfl, hexchanged, hcycles, hbits, rfl⟩ :=
    wp_sound (spiBitbangTransfer_wires hsession.lines.1 hbuffers) he
  refine ⟨hrc, rfl, hsession.lines.1, sent, received, part, rfl, hexchanged, hexchanged.sent_eq, ?_,
    rfl, hcycles.onWires hbits, Slave.next_transfer hcycles⟩
  rintro start rfl
  rw [← hexchanged.length_eq]
  exact hexchanged.bytes_eq

/-- Wires on which MISO is at one level. -/
def steadyMiso (miso : Byte) : (o : Op) → Wire → Ans o × Wire
  | .setSclk l, w => ((), w.setSclk l)
  | .setMosi l, w => ((), { w with mosi := l })
  | .setCs l, w => ((), w.setCs l)
  | .getMiso, w => (miso, w.sampled miso)
  | .delayHalfCycle, w => ((), w)
  | .load address, w => (w.memory address, w)
  | .store address value, w =>
    ((), { w with memory := Function.update w.memory address value })

theorem steadyMiso_handles (miso : Byte) : Handles spiWires (steadyMiso miso) := by
  intro w o
  cases o with
  | load address => exact ⟨rfl, rfl⟩
  | setSclk _ | setMosi _ | setCs _ | getMiso | delayHalfCycle | store _ _ => rfl

/-- A bus with all its functions, in mode 3 and with the least significant bit first. -/
def mode3Bus : SpiBitbangBus :=
  ⟨some ⟨true, true, true, true, true⟩, .mode3, .lsbFirst, 1⟩

theorem spiBitbangTransfer_duplex_mode3 : ∃ w w' t,
    Session mode3Bus [(.init (some mode3Bus), spiOk)] w ∧
    Exec spiWires (spiBitbangTransfer (some mode3Bus) none (some 0x20) 2) w t (some spiOk) w' ∧
    w'.cs = 1 ∧ w'.sclk = 1 ∧ ∃ sent received part, sent.length = 2 ∧
      Exchanged 0xff none (some 0x20) w.memory sent received w'.memory ∧
      OnWires mode3Bus sent received part := by
  obtain ⟨t, ht⟩ := (steadyMiso_handles 1).exec (spiBitbangInit (some mode3Bus))
    ⟨0, 0, 1, [], fun _ => 0⟩
  have hsession : Session mode3Bus [(.init (some mode3Bus), spiOk)] _ := .init ht
  obtain ⟨u, hu⟩ := (steadyMiso_handles 1).exec
    (spiBitbangTransfer (some mode3Bus) none (some 0x20) 2) _
  obtain ⟨hrc, hcs, hsclk, sent, received, part, hlen, hexchanged, _, _, _, hwires, _⟩ :=
    spiBitbangTransfer_duplex hsession (.inr rfl) hu
  rw [hrc] at hu
  exact ⟨_, _, u, hsession, hu, hcs, hsclk, sent, received, part, hlen, hexchanged, hwires⟩

end CortexLabs.Spi

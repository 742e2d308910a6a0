import CortexLabs.I2c.Clock

/-! Conditions, bits and bytes on the wire: what each of them adds to what has been heard. -/

namespace CortexLabs.I2c

open Device

variable {pins : Pins} {supply : Nat → Byte} {bus : Mps2I2cBus} {w : Wire} {f : Framer}
  {sample : Option Bool} {mem : Memory} {done : List WireMessage} {m : WireMessage}

theorem Risen.lines_sda (h : Risen supply f mem w) :
    w.lines.sda = (w.master.sda && f.answer supply) := by
  rw [← h.settled]
  rfl

/-- The bus before a START: kept by the master with the target silent, or free. -/
def Ready (supply : Nat → Byte) (f : Framer) (mem : Memory) (w : Wire) : Prop :=
  Low f mem w ∧ f.answer supply = true ∨ High none f mem w ∧ w.lines.sda = true

theorem start_high (h : High sample f mem w) (hsda : w.lines.sda = true) :
    wp (i2cBus pins supply bus.timeoutCycles.toNat)
      (fun result w' => result = mps2I2cOk ∧ Low (f.next .start) mem w')
      (do
        if !(← sdaIsHigh pins) then return mps2I2cErrBusBusy
        sdaDriveLow pins
        sclDriveLow pins
        return mps2I2cOk) w := by
  refine wp_seq h.sdaIsHigh ?_
  rintro _ _ ⟨rfl, rfl⟩
  rw [hsda]
  refine wp_seq (h.sdaDriveLow hsda) fun _ w1 hstarted => ?_
  refine wp_seq hstarted.sclDriveLow ?_
  rintro _ w2 ⟨hlow, -⟩
  exact ⟨rfl, hlow⟩

section Conditions

variable (hpos : 0 < bus.timeoutCycles.toNat)
include hpos

theorem generateStart_ready (h : Ready supply f mem w) :
    wp (i2cBus pins supply bus.timeoutCycles.toNat)
      (fun result w' => result = mps2I2cOk ∧ Low (f.next .start) mem w')
      (generateStart pins bus) w := by
  rcases h with ⟨hlow, hanswer⟩ | ⟨hhigh, hsda⟩
  · refine wp_seq hlow.sdaRelease ?_
    rintro _ w1 ⟨hlow1, hmaster⟩
    refine wp_seq_ok (hlow1.waitSclHigh hpos rfl) ?_
    rintro w2 ⟨hrisen, hsame⟩
    refine start_high hrisen.high ?_
    rw [hrisen.lines_sda, hsame, hmaster, hanswer]
    rfl
  · obtain ⟨hmaster, htarget⟩ := Bool.and_eq_true_iff.mp hsda
    refine wp_seq (hhigh.sdaRelease htarget) ?_
    rintro _ w1 ⟨hsda1, hhigh1⟩
    rw [if_pos hmaster] at hhigh1
    refine wp_seq_ok (hhigh1.waitSclHigh hpos) ?_
    rintro w2 ⟨hhigh2, hmaster2, htarget2⟩
    refine start_high hhigh2 ?_
    rw [Wire.lines, hmaster2, htarget2]
    exact hsda1

theorem generateStop_low (h : Low f mem w) (hanswer : f.answer supply = true) :
    wp (i2cBus pins supply bus.timeoutCycles.toNat)
      (fun result w' => result = mps2I2cOk ∧ High none (f.next .stop) mem w' ∧
        w'.lines.sda = true)
      (generateStop pins bus) w := by
  refine wp_seq h.sclDriveLow ?_
  rintro _ w1 ⟨hlow1, -⟩
  refine wp_seq hlow1.sdaDriveLow ?_
  rintro _ w2 ⟨hlow2, hmaster⟩
  refine wp_seq (hlow2.waitSclHigh hpos rfl) ?_
  rintro _ w3 ⟨rfl, hrisen, hsame⟩
  refine wp_seq (hrisen.high.sdaRelease (hrisen.settled.trans hanswer)) ?_
  rintro _ w4 ⟨hsda, hstop⟩
  rw [hsame, hmaster, if_neg Bool.false_ne_true] at hstop
  rw [if_neg (not_not.mpr rfl)]
  refine wp_seq (hstop.busIsIdle hsda) ?_
  rintro _ _ ⟨rfl, rfl⟩
  exact ⟨rfl, hstop, hsda⟩

/-- A bit that the master writes is what the two parties leave of it. -/
theorem writeBit_low (h : Low f mem w) (b : Bool) :
    wp (i2cBus pins supply bus.timeoutCycles.toNat)
      (fun result w' => result = mps2I2cOk ∧ Low (f.next (.bit (b && f.answer supply))) mem w')
      (writeBit pins bus (if b then 1 else 0)) w := by
  have hset : wp (i2cBus pins supply bus.timeoutCycles.toNat)
      (fun _ w' => Low f mem w' ∧ w'.master.sda = b)
      (if (if b then 1 else 0 : Byte) ≠ 0 then sdaRelease pins else sdaDriveLow pins) w := by
    cases b
    · exact h.sdaDriveLow
    · exact h.sdaRelease
  refine wp_seq hset ?_
  rintro _ w1 ⟨hlow, hmaster⟩
  refine wp_seq_ok (hlow.waitSclHigh hpos rfl) ?_
  rintro w2 ⟨hrisen, hsame⟩
  refine wp_seq hrisen.high.sclDriveLow ?_
  rintro _ w3 ⟨hlow3, -⟩
  rw [hrisen.lines_sda, hsame, hmaster] at hlow3
  exact ⟨rfl, hlow3⟩

/-- A bit that the master reads is the target's. -/
theorem readBit_low (h : Low f mem w) :
    wp (i2cBus pins supply bus.timeoutCycles.toNat)
      (fun r w' => r = (mps2I2cOk, if f.answer supply then 1 else 0) ∧
        Low (f.next (.bit (f.answer supply))) mem w')
      (readBit pins bus) w := by
  refine wp_seq h.sdaRelease ?_
  rintro _ w1 ⟨hlow, hmaster⟩
  refine wp_seq_ok (hlow.waitSclHigh hpos rfl) ?_
  rintro w2 ⟨hrisen, hsame⟩
  have hsda : w2.lines.sda = f.answer supply := by
    rw [hrisen.lines_sda, hsame, hmaster, Bool.true_and]
  refine wp_seq hrisen.high.sdaIsHigh ?_
  rintro _ _ ⟨rfl, rfl⟩
  refine wp_seq hrisen.high.sclDriveLow ?_
  rintro _ w3 ⟨hlow3, -⟩
  rw [hsda] at hlow3 ⊢
  exact ⟨rfl, hlow3⟩

end Conditions

theorem load_low {timeout : Nat} (h : Low f mem w) (address : Nat) :
    wp (i2cBus pins supply timeout) (fun value w' => value = mem address ∧ Low f mem w')
      (load address) w := by
  rintro value _ ⟨w1, hmoves, rfl, rfl⟩
  obtain ⟨hlow, -⟩ := h.moves hmoves
  exact ⟨congrFun hlow.memory address, hlow⟩

theorem store_low {timeout : Nat} (h : Low f mem w) (address : Nat) (value : Byte) :
    wp (i2cBus pins supply timeout) (fun _ w' => Low f (Function.update mem address value) w')
      (store address value) w := by
  rintro _ _ ⟨w1, hmoves, rfl⟩
  obtain ⟨hlow, -⟩ := h.moves hmoves
  exact ⟨hlow.clock, hlow.heard, by rw [hlow.memory]⟩

/-! ### Bytes -/

/-- The first `k` bits of a byte, the most significant first. -/
def bitsOf (value : Byte) (k : Nat) : List Bool := (List.range k).map value.getMsbD

theorem length_bitsOf (value : Byte) (k : Nat) : (bitsOf value k).length = k := by
  rw [bitsOf, List.length_map, List.length_range]

theorem bitsOf_succ (value : Byte) (k : Nat) :
    bitsOf value (k + 1) = bitsOf value k ++ [value.getMsbD k] := by
  rw [bitsOf, List.range_succ, List.map_append]
  rfl

theorem byteOf_snoc (bits : List Bool) (b : Bool) :
    byteOf (bits ++ [b]) = byteOf bits <<< 1 ||| if b then 1 else 0 := by
  rw [byteOf, List.foldl_append]
  rfl

theorem byteOf_bitsOf (value : Byte) : byteOf (bitsOf value 8) = value := by
  revert value
  decide +kernel

/-- The bit that `write_byte` writes in turn `k`. -/
theorem writeByte_bit (value : Byte) {k : Nat} (hk : k < 8) :
    (if value <<< k &&& 0x80 ≠ 0 then 1 else 0 : Byte) = if value.getMsbD k then 1 else 0 := by
  rw [show (0x80 : Byte) = BitVec.twoPow 8 7 from by decide, BitVec.and_twoPow]
  have hbit : (value <<< k).getLsbD 7 = value.getMsbD k := by
    rw [BitVec.getLsbD_shiftLeft, BitVec.getMsbD]
    simp [hk]
    omega
  rw [hbit]
  cases value.getMsbD k
  · rfl
  · rfl

def WireMessage.partially (m : WireMessage) (value : Byte) (k : Nat) : WireMessage :=
  { m with bits := bitsOf value k }

theorem WireMessage.partially_zero {m : WireMessage} (hbits : m.bits = []) (value : Byte) :
    m.partially value 0 = m := by
  rw [partially, ← show m.bits = bitsOf value 0 from hbits]

theorem WireMessage.partially_bit (m : WireMessage) (value : Byte) {k : Nat} (hk : k < 8) :
    (m.partially value k).bit (value.getMsbD k) = m.partially value (k + 1) := by
  rw [bit, if_pos (by rw [partially, length_bitsOf]; exact hk)]
  rw [partially, partially, bitsOf_succ]

/-- The acknowledge completes a byte. -/
theorem WireMessage.partially_ack (m : WireMessage) (value : Byte) (b : Bool) :
    (m.partially value 8).bit b = { m with bytes := m.bytes ++ [(value, !b)], bits := [] } := by
  rw [bit, if_neg (by rw [partially, length_bitsOf]; exact Nat.lt_irrefl 8)]
  simp only [partially, byteOf_bitsOf]

theorem served_snoc {f' : Framer} (h : f'.messages = f.messages ++ [m]) :
    f'.served = f.served + if m.reads then m.data.length else 0 := by
  unfold Framer.served
  rw [h, List.filter_append, List.map_append, List.sum_append]
  cases hreads : m.reads
  · rw [List.filter_cons_of_neg (by rw [hreads]; decide)]
    rfl
  · rw [List.filter_cons_of_pos hreads]
    rfl

theorem served_current (done : List WireMessage) (m : WireMessage) :
    Framer.served ⟨done, some m⟩ =
      Framer.served ⟨done, none⟩ + if m.reads then m.data.length else 0 :=
  served_snoc (by unfold Framer.messages; rw [Option.toList_none, List.append_nil]; rfl)

/-- While a byte is written the target leaves SDA alone, and then it acknowledges. -/
theorem answer_listening (hlistens : ¬ m.reads) (value : Byte) (k : Nat) :
    Framer.answer supply ⟨done, some (m.partially value k)⟩ = decide (k < 8) := by
  show (if m.reads then _ else decide ((bitsOf value k).length < 8)) = _
  rw [if_neg hlistens, length_bitsOf]

/-- While a byte is read the target sends its bits, and then it leaves SDA alone. -/
theorem answer_sending (hreads : m.reads) (hacked : m.data.any (fun byte => !byte.2) = false)
    {value : Byte} (hvalue : supply (Framer.served ⟨done, some m⟩) = value) (k : Nat) :
    Framer.answer supply ⟨done, some (m.partially value k)⟩ =
      if k < 8 then value.getMsbD k else true := by
  have hserved : Framer.served ⟨done, some (m.partially value k)⟩ =
      Framer.served ⟨done, some m⟩ := by
    rw [served_current, served_current]
    rfl
  show (if m.reads then if m.data.any (fun byte => !byte.2) then true
    else if (bitsOf value k).length < 8 then
      (supply (Framer.served ⟨done, some (m.partially value k)⟩)).getMsbD (bitsOf value k).length
    else true else _) = _
  rw [if_pos hreads, if_neg (by rw [hacked]; decide), length_bitsOf, hserved, hvalue]

section Bytes

variable (hpos : 0 < bus.timeoutCycles.toNat)
include hpos

/-- A target that listens acknowledges a byte. -/
theorem writeByte_low (h : Low ⟨done, some m⟩ mem w) (hbits : m.bits = []) (hlistens : ¬ m.reads)
    (value : Byte) :
    wp (i2cBus pins supply bus.timeoutCycles.toNat)
      (fun result w' => result = mps2I2cOk ∧
        Low ⟨done, some { m with bytes := m.bytes ++ [(value, true)] }⟩ mem w')
      (writeByte pins bus value) w := by
  have hanswer : ∀ k, Framer.answer supply ⟨done, some (m.partially value k)⟩ = decide (k < 8) :=
    answer_listening hlistens value
  have hloop : wp (i2cBus pins supply bus.timeoutCycles.toNat)
      (fun r w' => r.1 = mps2I2cOk ∧ Low ⟨done, some (m.partially value 8)⟩ mem w')
      (forEachM (writeNextBit pins bus) value (List.range 8)) w := by
    refine wp_forEachM_range (I := fun k v w' => v = value <<< k ∧
      Low ⟨done, some (m.partially value k)⟩ mem w') ?_ ?_ ?_
    · refine ⟨(BitVec.shiftLeft_zero value).symm, ?_⟩
      rw [WireMessage.partially_zero hbits]
      exact h
    · rintro k hk v w1 ⟨rfl, hlow⟩
      rw [writeNextBit, writeByte_bit value hk]
      refine wp_seq_ok (writeBit_low hpos hlow _) ?_
      intro w2 hlow2
      rw [hanswer, decide_eq_true hk, Bool.and_true, Framer.next] at hlow2
      refine ⟨fun h => absurd rfl h, fun _ => ⟨?_, ?_⟩⟩
      · rw [BitVec.shiftLeft_add]
      · rw [Option.getD_some, m.partially_bit value hk] at hlow2
        exact hlow2
    · rintro v w1 ⟨-, hlow⟩
      exact ⟨rfl, hlow⟩
  refine wp_seq hloop ?_
  rintro ⟨_, v⟩ w1 ⟨rfl, hlow⟩
  dsimp only
  rw [if_neg (not_not.mpr rfl)]
  refine wp_seq (readBit_low hpos hlow) ?_
  rintro _ w2 ⟨rfl, hlow2⟩
  rw [hanswer, Framer.next, Option.getD_some, m.partially_ack] at hlow2
  rw [hanswer]
  exact ⟨rfl, hbits ▸ hlow2⟩

/-- A target that is asked for a byte sends it, and hears whether it is the last. -/
theorem readByte_low (h : Low ⟨done, some m⟩ mem w) (hbits : m.bits = []) (hreads : m.reads)
    (hacked : m.data.any (fun byte => !byte.2) = false) {value : Byte}
    (hvalue : supply (Framer.served ⟨done, some m⟩) = value) (address : Nat) (sendAck : Bool) :
    wp (i2cBus pins supply bus.timeoutCycles.toNat)
      (fun result w' => result = mps2I2cOk ∧
        Low ⟨done, some { m with bytes := m.bytes ++ [(value, sendAck)] }⟩
          (Function.update mem address value) w')
      (readByte pins bus (some address) sendAck) w := by
  have hanswer := answer_sending hreads hacked hvalue
  have hloop : wp (i2cBus pins supply bus.timeoutCycles.toNat)
      (fun r w' => r = (mps2I2cOk, value) ∧ Low ⟨done, some (m.partially value 8)⟩ mem w')
      (forEachM (readNextBit pins bus) 0 (List.range 8)) w := by
    refine wp_forEachM_range (I := fun k v w' => v = byteOf (bitsOf value k) ∧
      Low ⟨done, some (m.partially value k)⟩ mem w') ?_ ?_ ?_
    · refine ⟨rfl, ?_⟩
      rw [WireMessage.partially_zero hbits]
      exact h
    · rintro k hk v w1 ⟨rfl, hlow⟩
      refine wp_seq (readBit_low hpos hlow) ?_
      rintro _ w2 ⟨rfl, hlow2⟩
      rw [hanswer, if_pos hk, Framer.next, Option.getD_some, m.partially_bit value hk] at hlow2
      rw [hanswer, if_pos hk]
      dsimp only
      rw [if_neg (not_not.mpr rfl)]
      refine ⟨fun h => absurd rfl h, fun _ => ⟨?_, hlow2⟩⟩
      rw [bitsOf_succ, byteOf_snoc]
    · rintro v w1 ⟨rfl, hlow⟩
      rw [byteOf_bitsOf]
      exact ⟨rfl, hlow⟩
  refine wp_seq hloop ?_
  rintro _ w1 ⟨rfl, hlow⟩
  dsimp only
  rw [if_neg (not_not.mpr rfl)]
  have hack : (if sendAck = true then 0 else 1 : Byte) = if (!sendAck) = true then 1 else 0 := by
    cases sendAck <;> rfl
  rw [hack]
  refine wp_seq_ok (writeBit_low hpos hlow _) ?_
  intro w2 hlow2
  rw [hanswer, if_neg (Nat.lt_irrefl 8), Bool.and_true, Framer.next, Option.getD_some,
    m.partially_ack, Bool.not_not] at hlow2
  refine wp_seq (store_low (hbits ▸ hlow2) address value) fun _ w3 hlow3 => ?_
  exact ⟨rfl, hlow3⟩

end Bytes

end CortexLabs.I2c

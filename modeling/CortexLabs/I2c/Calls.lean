import CortexLabs.I2c.RoundTrip

/-! The calls of the master with a target that answers, and with one that does not.  In the second
case the master is alone on the bus: what it reads are its own outputs, so no acknowledge comes, and
a probe and a transfer end with a NACK after the address, and with the bus released. -/

namespace CortexLabs.I2c

open Device

/-! ### A target that answers -/

section Answered

variable {supply : Nat → Byte} {bus : Mps2I2cBus} {mem : Memory} {targetAddr : Byte}

theorem transfer_answered (pins : Pins) (supply : Nat → Byte)
    (hbus : busValid (some bus) = some bus) {messages : List Mps2I2cMsg} (hsome : messages ≠ [])
    (hcheck : checkMessages none messages = mps2I2cOk) (haddr : targetAddr ≠ 0x7f) (mem : Memory) :
    wp (i2cBus pins supply bus.timeoutCycles.toNat) (fun result w => result = mps2I2cOk ∧
      decode w.trace = (exchange supply targetAddr false 0 mem messages).1 ∧
      w.memory = (exchange supply targetAddr false 0 mem messages).2)
      (mps2I2cTransfer pins (some bus) (some messages) targetAddr) (Wire.idle mem) := by
  have hready : Ready supply ⟨[], none⟩ mem (Wire.idle mem) := .inr ⟨⟨rfl, rfl, rfl, rfl⟩, rfl⟩
  rw [mps2I2cTransfer, checkTransfer_ok.mpr ⟨hbus, rfl, hsome, haddr, hcheck⟩]
  refine wp_seq (transferMessages_ready (timeout_pos hbus) (checkMessages_ok hcheck) hready rfl
    false) ?_
  rintro ⟨_, active⟩ w ⟨rfl, f, hend, hmessages⟩
  refine ⟨rfl, ?_, ?_⟩
  · refine Eq.trans ?_ hmessages
    rcases hend with ⟨hlow, -⟩ | ⟨hhigh, -⟩
    · exact congrArg (fun d => d.framer.messages) hlow.heard
    · exact congrArg (fun d => d.framer.messages) hhigh.heard
  · rcases hend with ⟨hlow, -⟩ | ⟨hhigh, -⟩
    · exact hlow.memory
    · exact hhigh.memory

/-- A probe that is answered is an address alone, with its START and its STOP. -/
theorem probe_answered (pins : Pins) (supply : Nat → Byte) (hbus : busValid (some bus) = some bus)
    (haddr : targetAddr ≤ 0x7f) (mem : Memory) :
    wp (i2cBus pins supply bus.timeoutCycles.toNat) (fun result w => result = mps2I2cOk ∧
      decode w.trace = [⟨.start, [(addressByte targetAddr false, true)], [], true⟩] ∧
      w.memory = mem)
      (mps2I2cProbe pins (some bus) targetAddr) (Wire.idle mem) := by
  have hpos := timeout_pos hbus
  have hready : Ready supply ⟨[], none⟩ mem (Wire.idle mem) := .inr ⟨⟨rfl, rfl, rfl, rfl⟩, rfl⟩
  unfold mps2I2cProbe
  rw [hbus]
  dsimp only
  rw [if_neg (by simpa using haddr)]
  refine wp_seq_ok (generateStart_ready hpos hready) fun w1 hlow1 => ?_
  refine wp_seq (sendAddress_low hpos ⟨none, 1, 0⟩ 0 hlow1) ?_
  rintro _ w2 ⟨rfl, hlow2⟩
  refine wp_seq (generateStop_low hpos hlow2 ?_) ?_
  · unfold Framer.answer
    dsimp only
    rw [if_neg (by rw [heardMessage_reads]; decide)]
    rfl
  · rintro _ w3 ⟨rfl, hhigh, -⟩
    refine ⟨rfl, ?_, hhigh.memory⟩
    exact congrArg (fun d => d.framer.messages) hhigh.heard

end Answered

/-! ### A target that does not answer -/

/-- The outputs of the master, and its memory. -/
structure Alone where
  out : Lines
  memory : Memory

def SilentAnswer (pins : Pins) (s : Alone) : (o : Op) → Ans o → Alone → Prop
  | .control, control, s' =>
    control &&& pins.sda = (if s.out.sda then pins.sda else 0) ∧
    control &&& pins.scl = (if s.out.scl then pins.scl else 0) ∧ s' = s
  | .controls mask, _, s' => s' = { s with out := s.out.write pins (.controls mask) }
  | .controlc mask, _, s' => s' = { s with out := s.out.write pins (.controlc mask) }
  | .load address, value, s' => value = s.memory address ∧ s' = s
  | .store address value, _, s' => s' = { s with memory := Function.update s.memory address value }

abbrev silentBus (pins : Pins) : Behavior Op Ans where
  State := Alone
  answer := SilentAnswer pins
  torn _ _ _ := False

variable {pins : Pins} {bus : Mps2I2cBus} {mem : Memory} {sda scl : Bool}

/-! ### The lines -/

section Lines

variable {α : Type} {Q : α → Alone → Prop}

theorem silent_sdaRelease {p : I2cProgram α} (h : wp (silentBus pins) Q p ⟨⟨true, scl⟩, mem⟩) :
    wp (silentBus pins) Q (do sdaRelease pins; p) ⟨⟨sda, scl⟩, mem⟩ := by
  rintro _ _ rfl
  rw [Lines.write_controls_sda]
  exact h

theorem silent_sdaDriveLow {p : I2cProgram α} (h : wp (silentBus pins) Q p ⟨⟨false, scl⟩, mem⟩) :
    wp (silentBus pins) Q (do sdaDriveLow pins; p) ⟨⟨sda, scl⟩, mem⟩ := by
  rintro _ _ rfl
  rw [Lines.write_controlc_sda]
  exact h

theorem silent_sclDriveLow {p : I2cProgram α} (h : wp (silentBus pins) Q p ⟨⟨sda, false⟩, mem⟩) :
    wp (silentBus pins) Q (do sclDriveLow pins; p) ⟨⟨sda, scl⟩, mem⟩ := by
  rintro _ _ rfl
  rw [Lines.write_controlc_scl]
  exact h

theorem silent_sdaIsHigh {f : Bool → I2cProgram α}
    (h : wp (silentBus pins) Q (f sda) ⟨⟨sda, scl⟩, mem⟩) :
    wp (silentBus pins) Q (sdaIsHigh pins >>= f) ⟨⟨sda, scl⟩, mem⟩ := by
  rintro control _ ⟨hsda, -, rfl⟩
  have hlook : decide (control &&& pins.sda ≠ 0) = sda := by
    rw [hsda]
    cases sda
    · rfl
    · exact decide_eq_true pins.sda_ne
  show wp (silentBus pins) Q (f (decide (control &&& pins.sda ≠ 0))) _
  rwa [hlook]

/-- The master finds SCL high at once. -/
theorem silent_waitSclHigh (hpos : 0 < bus.timeoutCycles.toNat) {f : Int → I2cProgram α}
    (h : wp (silentBus pins) Q (f mps2I2cOk) ⟨⟨sda, true⟩, mem⟩) :
    wp (silentBus pins) Q (waitSclHigh pins bus >>= f) ⟨⟨sda, scl⟩, mem⟩ := by
  obtain ⟨n, hn⟩ := Nat.exists_eq_succ_of_ne_zero (Nat.ne_of_gt hpos)
  refine wp_bind.mpr ?_
  rintro _ _ rfl
  rw [Lines.write_controls_scl, hn]
  rintro control _ ⟨-, hscl, rfl⟩
  have hlook : decide (control &&& pins.scl ≠ 0) = true := by
    rw [hscl]
    exact decide_eq_true pins.scl_ne
  show wp (silentBus pins) _
    (if decide (control &&& pins.scl ≠ 0) = true then pure mps2I2cOk else pollScl pins n) _
  rw [if_pos hlook]
  exact h

end Lines

/-! ### Conditions, bits and bytes -/

section Bytes

variable (hpos : 0 < bus.timeoutCycles.toNat)
include hpos

theorem silent_generateStart :
    wp (silentBus pins) (fun result s => result = mps2I2cOk ∧ s = ⟨⟨false, false⟩, mem⟩)
      (generateStart pins bus) ⟨⟨sda, scl⟩, mem⟩ := by
  refine silent_sdaRelease (silent_waitSclHigh hpos ?_)
  refine silent_sdaIsHigh ?_
  exact silent_sdaDriveLow (silent_sclDriveLow ⟨rfl, rfl⟩)

theorem silent_generateStop :
    wp (silentBus pins) (fun result s => result = mps2I2cOk ∧ s = ⟨.released, mem⟩)
      (generateStop pins bus) ⟨⟨sda, scl⟩, mem⟩ := by
  refine silent_sclDriveLow (silent_sdaDriveLow (silent_waitSclHigh hpos (silent_sdaRelease ?_)))
  rw [if_neg (not_not.mpr rfl)]
  rintro control _ ⟨hsda, hscl, rfl⟩
  have hlook : control &&& (pins.sda ||| pins.scl) = pins.sda ||| pins.scl := by
    rw [BitVec.and_or_distrib_left, hsda, hscl]
    rfl
  refine ⟨?_, rfl⟩
  show (if decide (control &&& (pins.sda ||| pins.scl) = pins.sda ||| pins.scl) then mps2I2cOk
    else mps2I2cErrBusBusy) = mps2I2cOk
  rw [hlook, decide_eq_true rfl, if_pos rfl]

theorem silent_writeBit (bitValue : Byte) :
    wp (silentBus pins) (fun result s => result = mps2I2cOk ∧ s.out.scl = false ∧ s.memory = mem)
      (writeBit pins bus bitValue) ⟨⟨sda, scl⟩, mem⟩ := by
  unfold writeBit
  split
  · exact silent_sdaRelease (silent_waitSclHigh hpos (silent_sclDriveLow ⟨rfl, rfl, rfl⟩))
  · exact silent_sdaDriveLow (silent_waitSclHigh hpos (silent_sclDriveLow ⟨rfl, rfl, rfl⟩))

/-- A bit that nobody sends is 1. -/
theorem silent_readBit :
    wp (silentBus pins) (fun r s => r = (mps2I2cOk, 1) ∧ s.memory = mem) (readBit pins bus)
      ⟨⟨sda, scl⟩, mem⟩ := by
  refine silent_sdaRelease (silent_waitSclHigh hpos ?_)
  rw [if_neg (not_not.mpr rfl)]
  refine silent_sdaIsHigh ?_
  exact silent_sclDriveLow ⟨rfl, rfl⟩

/-- Nobody acknowledges a byte. -/
theorem silent_writeByte (value : Byte) {s : Alone} (hs : s.memory = mem) :
    wp (silentBus pins) (fun result s => result = mps2I2cErrNack ∧ s.memory = mem)
      (writeByte pins bus value) s := by
  have hloop : wp (silentBus pins) (fun r (s : Alone) => r.1 = mps2I2cOk ∧ s.memory = mem)
      (forEachM (writeNextBit pins bus) value (List.range 8)) s := by
    refine wp_forEachM_range (D := silentBus pins) (I := fun _ _ (s : Alone) => s.memory = mem) hs ?_
      fun _ _ h => ⟨rfl, h⟩
    rintro _ _ v ⟨⟨sda, scl⟩, _⟩ rfl
    refine wp_seq_ok (P := fun (s : Alone) => s.memory = _)
      (wp_mono (silent_writeBit hpos _) fun _ _ h => ⟨h.1, h.2.2⟩) fun s1 hs1 => ?_
    exact ⟨fun h => absurd rfl h, fun _ => hs1⟩
  refine wp_seq hloop ?_
  rintro ⟨_, v⟩ ⟨⟨sda, scl⟩, _⟩ ⟨rfl, rfl⟩
  dsimp only
  rw [if_neg (not_not.mpr rfl)]
  refine wp_seq (silent_readBit hpos) ?_
  rintro _ s1 ⟨rfl, hs1⟩
  exact ⟨rfl, hs1⟩

end Bytes

/-! ### Calls -/

/-- A probe that nobody answers. -/
theorem silent_probe (hbus : busValid (some bus) = some bus) {targetAddr : Byte}
    (haddr : targetAddr ≤ 0x7f) :
    wp (silentBus pins) (fun result s => result = mps2I2cErrNack ∧ s = ⟨.released, mem⟩)
      (mps2I2cProbe pins (some bus) targetAddr) ⟨.released, mem⟩ := by
  have hpos := timeout_pos hbus
  unfold mps2I2cProbe
  rw [hbus]
  dsimp only
  rw [if_neg (by simpa using haddr)]
  refine wp_seq_ok (silent_generateStart hpos) ?_
  rintro _ rfl
  refine wp_seq (silent_writeByte hpos _ rfl) ?_
  rintro _ ⟨⟨sda, scl⟩, _⟩ ⟨rfl, rfl⟩
  refine wp_seq (silent_generateStop hpos) ?_
  rintro _ _ ⟨rfl, rfl⟩
  exact ⟨rfl, rfl⟩

/-- A transfer that nobody answers. -/
theorem silent_transfer (hbus : busValid (some bus) = some bus) {messages : List Mps2I2cMsg}
    (hsome : messages ≠ []) (hcheck : checkMessages none messages = mps2I2cOk) {targetAddr : Byte}
    (haddr : targetAddr ≠ 0x7f) :
    wp (silentBus pins) (fun result s => result = mps2I2cErrNack ∧ s = ⟨.released, mem⟩)
      (mps2I2cTransfer pins (some bus) (some messages) targetAddr) ⟨.released, mem⟩ := by
  have hpos := timeout_pos hbus
  obtain ⟨message, messages, rfl⟩ := List.exists_cons_of_ne_nil hsome
  unfold mps2I2cTransfer
  rw [checkTransfer_ok.mpr ⟨hbus, rfl, hsome, haddr, hcheck⟩]
  refine wp_seq (wp_forEachM_cons (Q := fun r (s : Alone) =>
    r.1 = mps2I2cErrNack ∧ s = ⟨.released, mem⟩) ?_) fun r _ hr => hr
  refine wp_seq_ok (silent_generateStart hpos) ?_
  rintro _ rfl
  refine wp_seq (silent_writeByte hpos _ rfl) ?_
  rintro _ ⟨⟨sda, scl⟩, _⟩ ⟨rfl, rfl⟩
  refine wp_seq (silent_generateStop hpos) ?_
  rintro _ _ ⟨-, rfl⟩
  exact ⟨fun _ => ⟨rfl, rfl⟩, fun hok => absurd hok (by decide)⟩

end CortexLabs.I2c

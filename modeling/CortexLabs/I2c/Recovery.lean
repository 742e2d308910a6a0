import CortexLabs.I2c.Lines

/-! The recovery of the bus from a target that is in the middle of sending a byte.  The target moves
on to its next bit whenever SCL falls, and lets SDA go after the last one, or at a START or a STOP.
The STOP that ends the recovery begins with such a fall, which may take the target from a bit that
is high to one that is low. -/

namespace CortexLabs.I2c

open Device

/-- The outputs of the master, the bits that the target has still to send, the one that it holds SDA
at first, and how many polls are to find SCL held low by the target. -/
structure Sending where
  master : Lines
  bits : List Bool
  hold : Nat

namespace Sending

variable (s : Sending)

def lines : Lines := ⟨s.master.sda && s.bits.headD true, s.master.scl && decide (s.hold = 0)⟩

/-- The master drives `out`: SCL falls, or SDA moves while SCL is high, or neither. -/
def drive (out : Lines) (hold : Nat) : Sending :=
  let moved := { s with master := out, hold }
  if s.lines.scl ∧ !moved.lines.scl then { moved with bits := s.bits.tail }
  else if s.lines.scl ∧ s.lines.sda ≠ moved.lines.sda then { moved with bits := [] }
  else moved

variable (bits : List Bool) (hold hold' : Nat)

theorem drive_scl (sda : Bool) :
    drive ⟨⟨sda, false⟩, bits, hold⟩ ⟨sda, true⟩ hold' = ⟨⟨sda, true⟩, bits, hold'⟩ := by
  simp [drive, lines]

theorem drive_nothing :
    drive ⟨.released, bits, hold⟩ .released hold = ⟨.released, bits, hold⟩ := by
  simp [drive, lines, Lines.released]

/-- The master releases SDA: a STOP, unless the target holds SDA. -/
theorem drive_stop :
    drive ⟨⟨false, true⟩, bits, 0⟩ .released 0 =
      ⟨.released, if bits.headD true then [] else bits, 0⟩ := by
  cases bits with
  | nil => rfl
  | cons b rest => cases b <;> rfl

end Sending

/-- When the master lets SCL go, the target may hold it for fewer than `timeout` polls. -/
def SendingAnswer (pins : Pins) (timeout : Nat) (s : Sending) : (o : Op) → Ans o → Sending → Prop
  | .control, control, s' =>
    control &&& pins.sda = (if s.lines.sda then pins.sda else 0) ∧
    control &&& pins.scl = (if s.lines.scl then pins.scl else 0) ∧
    s' = if s.master.scl then { s with hold := s.hold - 1 } else s
  | .controls mask, _, s' =>
    ∃ hold, (if s.master.scl then hold = s.hold else hold = 0 ∨ hold < timeout) ∧
      s' = s.drive (s.master.write pins (.controls mask)) hold
  | .controlc mask, _, s' =>
    s' = s.drive (s.master.write pins (.controlc mask)) s.hold
  | .load _, _, s' => s' = s
  | .store _ _, _, s' => s' = s

abbrev sendingBus (pins : Pins) (timeout : Nat) : Behavior Op Ans where
  State := Sending
  answer := SendingAnswer pins timeout
  torn _ _ _ := False

variable {pins : Pins} {bus : Mps2I2cBus} {timeout : Nat} {bits : List Bool} {s : Sending}

/-! ### The lines -/

section Steps

variable {Q : Unit → Sending → Prop}

theorem send_controls {mask : Word}
    (h : ∀ hold, (if s.master.scl then hold = s.hold else hold = 0 ∨ hold < timeout) →
      Q () (s.drive (s.master.write pins (.controls mask)) hold)) :
    wp (sendingBus pins timeout) Q (writeControls mask) s := by
  rintro _ _ ⟨hold, hhold, rfl⟩
  exact h hold hhold

theorem send_controlc {mask : Word}
    (h : Q () (s.drive (s.master.write pins (.controlc mask)) s.hold)) :
    wp (sendingBus pins timeout) Q (writeControlc mask) s := by
  rintro _ _ rfl
  exact h

/-- SCL falls. -/
theorem send_sclDriveLow (bits : List Bool) :
    wp (sendingBus pins timeout) (fun _ s' => s' = ⟨⟨true, false⟩, bits.tail, 0⟩)
      (sclDriveLow pins) ⟨.released, bits, 0⟩ := by
  apply send_controlc
  rw [Lines.write_controlc_scl]
  rfl

/-- What the master reads of the lines. -/
theorem send_look {look : Word → Bool} {b : Bool}
    (hlook : ∀ control, control &&& pins.sda = (if s.lines.sda then pins.sda else 0) →
      control &&& pins.scl = (if s.lines.scl then pins.scl else 0) → look control = b) :
    wp (sendingBus pins timeout)
      (fun result s' => result = b ∧ s' = if s.master.scl then { s with hold := s.hold - 1 } else s)
      (do let control ← readControl; return look control) s := by
  rintro control _ ⟨hsda, hscl, rfl⟩
  exact ⟨hlook control hsda hscl, rfl⟩

theorem send_sclIsHigh (hmaster : s.master.scl = true) :
    wp (sendingBus pins timeout)
      (fun result s' => result = decide (s.hold = 0) ∧ s' = { s with hold := s.hold - 1 })
      (sclIsHigh pins) s := by
  have hscl : s.lines.scl = decide (s.hold = 0) := by
    show (s.master.scl && decide (s.hold = 0)) = _
    rw [hmaster, Bool.true_and]
  refine wp_mono (send_look (b := decide (s.hold = 0)) fun control _ hcontrol => ?_) ?_
  · rw [hcontrol, hscl]
    by_cases hhold : s.hold = 0
    · simpa [hhold] using pins.scl_ne
    · simp [hhold]
  · rintro result s' ⟨hresult, hs'⟩
    rw [if_pos hmaster] at hs'
    exact ⟨hresult, hs'⟩

/-- The polls outlast the target. -/
theorem send_pollScl (hmaster : s.master.scl = true) {n : Nat} (hn : s.hold < n) :
    wp (sendingBus pins timeout)
      (fun rc s' => rc = mps2I2cOk ∧ s' = { s with hold := 0 }) (pollScl pins n) s := by
  induction n generalizing s with
  | zero => exact absurd hn (Nat.not_lt_zero _)
  | succ n ih =>
    refine wp_seq (send_sclIsHigh hmaster) ?_
    rintro _ _ ⟨rfl, rfl⟩
    by_cases hhold : s.hold = 0
    · rw [decide_eq_true hhold, hhold]
      exact ⟨rfl, rfl⟩
    · rw [decide_eq_false hhold]
      have hless : s.hold - 1 < n := by omega
      exact ih (s := { s with hold := s.hold - 1 }) hmaster hless

/-- SCL rises after the master has let it go, and SDA is left to the target or driven low. -/
theorem send_waitSclHigh_low (hpos : 0 < bus.timeoutCycles.toNat) (sda : Bool) (bits : List Bool)
    (hold : Nat) :
    wp (sendingBus pins bus.timeoutCycles.toNat)
      (fun rc s' => rc = mps2I2cOk ∧ s' = ⟨⟨sda, true⟩, bits, 0⟩)
      (waitSclHigh pins bus) ⟨⟨sda, false⟩, bits, hold⟩ := by
  apply wp_bind.mpr
  apply send_controls
  intro hold' hhold'
  rw [Lines.write_controls_scl]
  show wp (sendingBus pins bus.timeoutCycles.toNat) _ _
    (Sending.drive ⟨⟨sda, false⟩, bits, hold⟩ ⟨sda, true⟩ hold')
  rw [Sending.drive_scl]
  refine send_pollScl (s := ⟨⟨sda, true⟩, bits, hold'⟩) rfl ?_
  show hold' < _
  rcases hhold' with rfl | hlt
  · exact hpos
  · exact hlt

/-- SCL is high, or rises after the target has held it. -/
theorem send_waitSclHigh_high (bits : List Bool) {hold : Nat}
    (hhold : hold < bus.timeoutCycles.toNat) :
    wp (sendingBus pins bus.timeoutCycles.toNat)
      (fun rc s' => rc = mps2I2cOk ∧ s' = ⟨.released, bits, 0⟩)
      (waitSclHigh pins bus) ⟨.released, bits, hold⟩ := by
  apply wp_bind.mpr
  apply send_controls
  intro hold' hsame
  obtain rfl : hold' = hold := hsame
  rw [Lines.write_controls_scl]
  show wp (sendingBus pins bus.timeoutCycles.toNat) _ _
    (Sending.drive ⟨.released, bits, hold'⟩ .released hold')
  rw [Sending.drive_nothing]
  exact send_pollScl (s := ⟨.released, bits, hold'⟩) rfl hhold

theorem send_sdaIsHigh (bits : List Bool) :
    wp (sendingBus pins timeout)
      (fun result s' => result = bits.headD true ∧ s' = ⟨.released, bits, 0⟩)
      (sdaIsHigh pins) ⟨.released, bits, 0⟩ := by
  refine send_look (b := bits.headD true) fun control hsda _ => ?_
  have hlines : (Sending.lines ⟨.released, bits, 0⟩).sda = bits.headD true := Bool.true_and _
  rw [hsda, hlines]
  cases bits.headD true
  · rfl
  · exact decide_eq_true pins.sda_ne

theorem send_busIsIdle (bits : List Bool) :
    wp (sendingBus pins timeout)
      (fun result s' => result = bits.headD true ∧ s' = ⟨.released, bits, 0⟩)
      (busIsIdle pins) ⟨.released, bits, 0⟩ := by
  refine send_look (b := bits.headD true) fun control hsda hscl => ?_
  have hlines : (Sending.lines ⟨.released, bits, 0⟩).sda = bits.headD true := Bool.true_and _
  have hhigh : (Sending.lines ⟨.released, bits, 0⟩).scl = true := rfl
  rw [BitVec.and_or_distrib_left, hsda, hscl, hlines, hhigh]
  cases bits.headD true
  · -- SDA is one of the lines that the master looks at
    refine decide_eq_false fun heq => pins.sda_ne ?_
    have hsub := congrArg (· &&& pins.sda) heq
    simpa [BitVec.and_or_distrib_right, BitVec.and_comm pins.scl, pins.disjoint] using hsub.symm
  · exact decide_eq_true rfl

end Steps

/-! ### The recovery -/

/-- The pulses take the target past its bits that are low. -/
theorem send_recoverPulses (hpos : 0 < bus.timeoutCycles.toNat) {n : Nat}
    (hn : bits.tail.length < n) :
    wp (sendingBus pins bus.timeoutCycles.toNat)
      (fun rc s' => rc = mps2I2cOk ∧ s' = ⟨.released, bits.tail.dropWhile (!·), 0⟩)
      (recoverPulses pins bus n) ⟨.released, bits, 0⟩ := by
  induction n generalizing bits with
  | zero => exact absurd hn (Nat.not_lt_zero _)
  | succ n ih =>
    refine wp_seq (send_sclDriveLow bits) ?_
    rintro _ _ rfl
    refine wp_seq_ok (send_waitSclHigh_low hpos true bits.tail 0) ?_
    rintro _ rfl
    refine wp_seq (send_sdaIsHigh bits.tail) ?_
    rintro _ _ ⟨rfl, rfl⟩
    rcases htail : bits.tail with _ | ⟨b, rest⟩
    · exact ⟨rfl, rfl⟩
    · rw [htail] at hn
      cases b with
      | true => exact ⟨rfl, rfl⟩
      | false =>
        have hless : (false :: rest).tail.length < n := by
          rw [List.length_cons] at hn
          rw [List.tail_cons]
          omega
        exact ih hless

/-- The STOP succeeds if the target lets SDA go when SCL falls for it. -/
theorem send_generateStop (hpos : 0 < bus.timeoutCycles.toNat) (bits : List Bool) :
    wp (sendingBus pins bus.timeoutCycles.toNat)
      (fun rc s' => if bits.tail.headD true then rc = mps2I2cOk ∧ s'.lines = .released
        else rc = mps2I2cErrBusBusy) (generateStop pins bus) ⟨.released, bits, 0⟩ := by
  refine wp_seq (send_sclDriveLow bits) ?_
  rintro _ _ rfl
  have hsda : wp (sendingBus pins bus.timeoutCycles.toNat)
      (fun _ s' => s' = ⟨⟨false, false⟩, bits.tail, 0⟩) (sdaDriveLow pins)
      ⟨⟨true, false⟩, bits.tail, 0⟩ := by
    apply send_controlc
    rw [Lines.write_controlc_sda]
    rfl
  refine wp_seq hsda ?_
  rintro _ _ rfl
  refine wp_seq (send_waitSclHigh_low hpos false bits.tail 0) ?_
  rintro _ _ ⟨rfl, rfl⟩
  have hrelease : wp (sendingBus pins bus.timeoutCycles.toNat)
      (fun _ s' => s' = ⟨.released, if bits.tail.headD true then [] else bits.tail, 0⟩)
      (sdaRelease pins) ⟨⟨false, true⟩, bits.tail, 0⟩ := by
    apply send_controls
    intro hold hsame
    obtain rfl : hold = 0 := hsame
    rw [Lines.write_controls_sda]
    exact Sending.drive_stop bits.tail
  refine wp_seq hrelease ?_
  rintro _ _ rfl
  rw [if_neg (not_not.mpr rfl)]
  refine wp_seq (send_busIsIdle _) ?_
  rintro _ _ ⟨rfl, rfl⟩
  cases hhead : bits.tail.headD true with
  | true => exact ⟨rfl, rfl⟩
  | false =>
    show (if bits.tail.headD true then mps2I2cOk else mps2I2cErrBusBusy) = _
    rw [hhead]
    rfl

/-- The first bit is high, or the one after the first that is high is not low. -/
def Clears (bits : List Bool) : Prop :=
  bits.headD true = true ∨ (bits.dropWhile (!·)).tail.headD true = true

instance (bits : List Bool) : Decidable (Clears bits) := inferInstanceAs (Decidable (_ ∨ _))

/-- From any outputs of the master, releasing SDA leaves the target where it is, unless that is a
STOP. -/
theorem send_release (master : Lines) (bits : List Bool) (hold : Nat) :
    wp (sendingBus pins timeout) (fun _ s' => ∃ bits' hold',
      s' = ⟨⟨true, master.scl⟩, bits', hold'⟩ ∧
      (bits' = bits ∨ bits' = [] ∧ bits.headD true = true) ∧
      (master.scl = true → hold' = hold))
      (sdaRelease pins) ⟨master, bits, hold⟩ := by
  apply send_controls
  intro hold' hhold'
  rw [Lines.write_controls_sda]
  have hkept : master.scl = true → hold' = hold := by
    intro hscl
    dsimp only at hhold'
    rwa [if_pos hscl] at hhold'
  unfold Sending.drive
  dsimp only
  split
  · next hfall =>
    exfalso
    obtain ⟨hhigh, hlow⟩ := hfall
    unfold Sending.lines at hhigh hlow
    dsimp only at hhigh hlow
    obtain ⟨hscl, hfree⟩ := Bool.and_eq_true_iff.mp hhigh
    rw [hkept hscl, hscl, hfree] at hlow
    exact Bool.false_ne_true hlow
  split
  · next hmoved =>
    refine ⟨[], hold', rfl, .inr ⟨rfl, ?_⟩, hkept⟩
    obtain ⟨-, hne⟩ := hmoved
    unfold Sending.lines at hne
    dsimp only at hne
    cases hhead : bits.headD true with
    | true => rfl
    | false =>
      rw [hhead, Bool.and_false, Bool.and_false] at hne
      exact absurd rfl hne
  · exact ⟨bits, hold', rfl, .inl rfl, hkept⟩

theorem clears_of_low (hlow : bits.headD true = false) :
    Clears bits ↔ (bits.tail.dropWhile (!·)).tail.headD true = true := by
  unfold Clears
  cases bits with
  | nil => cases hlow
  | cons b rest =>
    obtain rfl : b = false := hlow
    rw [List.dropWhile_cons_of_pos (p := (!·)) (by rfl)]
    exact or_iff_right Bool.false_ne_true

/-- The wait for SCL after SDA has been released, whether the master has driven SCL low or not. -/
theorem send_waitSclHigh (hpos : 0 < bus.timeoutCycles.toNat) (scl : Bool) (bits : List Bool)
    {hold : Nat} (hhold : scl = true → hold < bus.timeoutCycles.toNat) :
    wp (sendingBus pins bus.timeoutCycles.toNat)
      (fun rc s' => rc = mps2I2cOk ∧ s' = ⟨.released, bits, 0⟩) (waitSclHigh pins bus)
      ⟨⟨true, scl⟩, bits, hold⟩ := by
  cases scl with
  | false => exact send_waitSclHigh_low hpos true bits hold
  | true => exact send_waitSclHigh_high bits (hhold rfl)

/-- What the recovery returns, and the lines that it leaves. -/
theorem send_recoverBus (hvalid : busValid (some bus) = some bus) (hlen : bits.length ≤ 8)
    (master : Lines) {hold : Nat} (hhold : hold = 0 ∨ hold < bus.timeoutCycles.toNat) :
    wp (sendingBus pins bus.timeoutCycles.toNat)
      (fun rc s' => if Clears bits then rc = mps2I2cOk ∧ s'.lines = .released
        else rc = mps2I2cErrBusBusy)
      (mps2I2cRecoverBus pins (some bus)) ⟨master, bits, hold⟩ := by
  have hpos : 0 < bus.timeoutCycles.toNat := timeout_pos hvalid
  have hless : hold < bus.timeoutCycles.toNat := by
    rcases hhold with rfl | hlt
    · exact hpos
    · exact hlt
  unfold mps2I2cRecoverBus
  rw [hvalid]
  refine wp_seq (send_release master bits hold) ?_
  rintro _ _ ⟨bits', hold', rfl, hbits, hkept⟩
  have hsame : master.scl = true → hold' < bus.timeoutCycles.toNat := by
    intro hscl
    rw [hkept hscl]
    exact hless
  refine wp_seq_ok (send_waitSclHigh hpos master.scl bits' hsame) ?_
  rintro _ rfl
  refine wp_seq (send_sdaIsHigh bits') ?_
  rintro _ _ ⟨rfl, rfl⟩
  cases hhead : bits'.headD true with
  | true =>
    have hclears : Clears bits := by
      rcases hbits with rfl | ⟨-, hfree⟩
      · exact .inl hhead
      · exact .inl hfree
    rw [if_pos rfl, wp_pure, if_pos hclears]
    refine ⟨rfl, ?_⟩
    show (⟨true && bits'.headD true, true⟩ : Lines) = ⟨true, true⟩
    rw [hhead]
    rfl
  | false =>
    obtain rfl : bits' = bits := by
      rcases hbits with rfl | ⟨rfl, -⟩
      · rfl
      · cases hhead
    have htail : bits'.tail.length < 9 := by
      rw [List.length_tail]
      omega
    rw [if_neg Bool.false_ne_true]
    refine wp_seq_ok (send_recoverPulses hpos htail) ?_
    rintro _ rfl
    simp only [clears_of_low hhead]
    exact send_generateStop hpos _

/-! ### A target that never stretches the clock -/

/-- What a target that does not stretch the clock answers. -/
def promptSender (pins : Pins) : (o : Op) → Sending → Ans o × Sending
  | .control, s =>
    ((if s.lines.sda then pins.sda else 0) ||| (if s.lines.scl then pins.scl else 0),
      if s.master.scl then { s with hold := s.hold - 1 } else s)
  | .controls mask, s =>
    ((), s.drive (s.master.write pins (.controls mask)) (if s.master.scl then s.hold else 0))
  | .controlc mask, s => ((), s.drive (s.master.write pins (.controlc mask)) s.hold)
  | .load _, s => (0, s)
  | .store _ _, s => ((), s)

theorem promptSender_handles : Handles (sendingBus pins timeout) (promptSender pins) := by
  have hdisjoint : pins.scl &&& pins.sda = 0 := (BitVec.and_comm _ _).trans pins.disjoint
  rintro s (_ | mask | mask | address | ⟨address, value⟩)
  · refine ⟨?_, ?_, rfl⟩
    · show ((if s.lines.sda then pins.sda else 0) ||| (if s.lines.scl then pins.scl else 0)) &&&
        pins.sda = _
      rw [BitVec.and_or_distrib_right]
      cases s.lines.sda <;> cases s.lines.scl <;> simp [hdisjoint]
    · show ((if s.lines.sda then pins.sda else 0) ||| (if s.lines.scl then pins.scl else 0)) &&&
        pins.scl = _
      rw [BitVec.and_or_distrib_right]
      cases s.lines.sda <;> cases s.lines.scl <;> simp [pins.disjoint]
  · refine ⟨if s.master.scl then s.hold else 0, ?_, rfl⟩
    split
    · rfl
    · exact .inl rfl
  · rfl
  · rfl
  · rfl

/-- Every run of `mps2_i2c_recover_bus` returns `MPS2_I2C_OK` with both lines high, whatever the
outputs of the master are and however the target stretches the clock. -/
def FreesTarget (pins : Pins) (bus : Mps2I2cBus) (bits : List Bool) : Prop :=
  ∀ master hold, hold = 0 ∨ hold < bus.timeoutCycles.toNat → ∀ t rc s',
    Exec (sendingBus pins bus.timeoutCycles.toNat) (mps2I2cRecoverBus pins (some bus))
      ⟨master, bits, hold⟩ t (some rc) s' → rc = mps2I2cOk ∧ s'.lines = .released

/-- One of the runs fails if the call refuses the bus, or if the target does not let SDA go. -/
theorem not_freesTarget {status : Int} (hstatus : status ≠ mps2I2cOk)
    (h : wp (sendingBus pins bus.timeoutCycles.toNat) (fun rc _ => rc = status)
      (mps2I2cRecoverBus pins (some bus)) ⟨.released, bits, 0⟩) : ¬ FreesTarget pins bus bits := by
  intro hfrees
  obtain ⟨t, hexec⟩ := promptSender_handles.exec (mps2I2cRecoverBus pins (some bus))
    (⟨.released, bits, 0⟩ : Sending)
  exact hstatus ((wp_sound h hexec).symm.trans (hfrees _ _ (.inl rfl) _ _ _ hexec).1)

theorem send_recoverBus_stuck (hvalid : busValid (some bus) = some bus) (hlen : bits.length ≤ 8)
    (hstuck : ¬ Clears bits) :
    wp (sendingBus pins bus.timeoutCycles.toNat) (fun rc _ => rc = mps2I2cErrBusBusy)
      (mps2I2cRecoverBus pins (some bus)) ⟨.released, bits, 0⟩ := by
  refine wp_mono (send_recoverBus hvalid hlen .released (.inl rfl)) fun rc s' h => ?_
  rwa [if_neg hstuck] at h

/-- The recovery frees a target with at most eight bits left exactly if its next bit is high, or the
bit after its next high one is. -/
theorem freesTarget_iff (hlen : bits.length ≤ 8) :
    FreesTarget pins bus bits ↔ (busValid (some bus)).isSome ∧ Clears bits := by
  constructor
  · intro h
    cases hbus : busValid (some bus) with
    | none =>
      have hargument : mps2I2cErrArgument ≠ mps2I2cOk := by decide
      refine absurd h (not_freesTarget hargument ?_)
      unfold mps2I2cRecoverBus
      rw [hbus]
      rfl
    | some valid =>
      refine ⟨rfl, by_contra fun hstuck => ?_⟩
      obtain rfl := busValid_same hbus
      exact not_freesTarget (by decide) (send_recoverBus_stuck hbus hlen hstuck) h
  · rintro ⟨hvalid, hclears⟩ master hold hhold t rc s' hexec
    obtain ⟨valid, hbus⟩ := Option.isSome_iff_exists.mp hvalid
    obtain rfl := busValid_same hbus
    have h := wp_sound (send_recoverBus hbus hlen master hhold) hexec
    rwa [if_pos hclears] at h

/-- The bits that are left of `0b101`, after its high ones. -/
theorem freesTarget_stops :
    FreesTarget lowPins ⟨some 0x40029000, 1, 1⟩ [false, true, true, false] :=
  (freesTarget_iff (by decide)).mpr ⟨by decide, by decide⟩

/-- The STOP takes the target from the high bit on to the low one. -/
theorem low_high_low_stays_busy :
    ¬ FreesTarget lowPins ⟨some 0x40029000, 1, 1⟩ [false, true, false] :=
  not_freesTarget (by decide) (send_recoverBus_stuck (by decide) (by decide) (by decide))

end CortexLabs.I2c

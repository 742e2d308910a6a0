import CortexLabs.I2c.Bits

/-! The address bytes that the master sends, as a listener to its outputs alone decodes them, on a
bus where a read may find anything.  `mps2_i2c_transfer` refuses the address 0x7f only, and shifts the
others to the left, where the highest bit is lost; `mps2_i2c_probe` refuses those above 0x7f. -/

namespace CortexLabs.I2c

open Device

/-- What a listener to the master's outputs hears of an operation. -/
def Decoder.hear (pins : Pins) (d : Decoder) : Op → Decoder
  | .controls mask => d.next (d.sampler.level.write pins (.controls mask))
  | .controlc mask => d.next (d.sampler.level.write pins (.controlc mask))
  | .control | .load _ | .store _ _ => d

abbrev heardBus (pins : Pins) : Behavior Op Ans where
  State := Decoder
  answer d o _ d' := d' = d.hear pins o
  torn _ _ _ := False

/-- A listener that begins to listen, whatever the master drives. -/
def Decoder.fresh (level : Lines) (sample : Option Bool) : Decoder := ⟨⟨level, sample⟩, ⟨[], none⟩⟩

/-- The first bytes of the messages that begin with a START. -/
def Decoder.addressBytes (d : Decoder) : List Byte :=
  (d.framer.messages.filter fun m => m.opening ≠ .none).filterMap fun m => m.bytes.head?.map Prod.fst

/-! ### What is heard -/

/-- What has been heard once SCL is low: if it was high, the bit has come to its end. -/
def Decoder.fallen (d : Decoder) : Framer :=
  if d.sampler.level.scl then ((d.sampler.sample.map Symbol.bit).map d.framer.next).getD d.framer
  else d.framer

/-- The message has no START, or its address byte is complete and is for `addr`. -/
def WireMessage.Named (addr : Byte) (m : WireMessage) : Prop :=
  m.opening = .none ∨ ∃ b rest, m.bytes = b :: rest ∧ b.1 >>> 1 = addr

/-- The message may still lack its address byte. -/
def WireMessage.MayName (addr : Byte) (m : WireMessage) : Prop := m.bytes = [] ∨ m.Named addr

/-- Nothing that follows can make an address byte of the message that is not over. -/
structure Framer.Named (addr : Byte) (f : Framer) : Prop where
  done : ∀ m ∈ f.done, m.MayName addr
  current : ∀ m ∈ f.current, m.Named addr

section Named

variable {addr : Byte} {f : Framer} {m : WireMessage}

theorem WireMessage.Named.bit (h : m.Named addr) (b : Bool) : (m.bit b).Named addr := by
  unfold WireMessage.bit
  rcases h with hnone | ⟨first, rest, hbytes, hfirst⟩
  · split
    · exact .inl hnone
    · exact .inl hnone
  · split
    · exact .inr ⟨first, rest, hbytes, hfirst⟩
    · exact .inr ⟨first, _, by rw [hbytes]; rfl, hfirst⟩

theorem Framer.Named.next_bit (h : f.Named addr) (b : Bool) : (f.next (.bit b)).Named addr := by
  refine ⟨h.done, ?_⟩
  rintro m ⟨⟩
  cases hcurrent : f.current with
  | none => exact WireMessage.Named.bit (.inl rfl) b
  | some m => exact (h.current m hcurrent).bit b

/-- A STOP ends the message, with or without an address byte. -/
theorem named_stop (h : ∀ m ∈ f.messages, m.MayName addr) : (f.next .stop).Named addr := by
  refine ⟨fun m hm => ?_, nofun⟩
  rcases List.mem_append.mp hm with hdone | hlast
  · exact h m (List.mem_append_left _ hdone)
  · obtain rfl := List.mem_singleton.mp hlast
    cases hcurrent : f.current with
    | none => exact .inl rfl
    | some m =>
      refine h m (List.mem_append_right _ ?_)
      rw [hcurrent]
      exact List.mem_singleton.mpr rfl

theorem Framer.Named.mayName (h : f.Named addr) : ∀ m ∈ f.messages, m.MayName addr := by
  intro m hm
  rcases List.mem_append.mp hm with hdone | hcurrent
  · exact h.done m hdone
  · exact .inr (h.current m (Option.mem_toList.mp hcurrent))

theorem Framer.Named.fallen {d : Decoder} (h : d.framer.Named addr) : d.fallen.Named addr := by
  unfold Decoder.fallen
  split
  · cases d.sampler.sample with
    | none => exact h
    | some b => exact h.next_bit b
  · exact h

/-- The address bytes of messages that may name `addr` alone are for `addr`. -/
theorem addressBytes_named {d : Decoder} (h : ∀ m ∈ d.framer.messages, m.MayName addr) :
    ∀ a ∈ d.addressBytes, a >>> 1 = addr := by
  intro a ha
  obtain ⟨m, hm, hhead⟩ := List.mem_filterMap.mp ha
  obtain ⟨hmem, hstart⟩ := List.mem_filter.mp hm
  obtain ⟨b, hb, rfl⟩ := Option.map_eq_some_iff.mp hhead
  rcases h m hmem with hbytes | hnone | ⟨first, rest, hbytes, hfirst⟩
  · rw [hbytes] at hb
    cases hb
  · exact absurd hnone (of_decide_eq_true hstart)
  · rw [hbytes] at hb
    cases hb
    exact hfirst

end Named

/-! ### The lines -/

variable {pins : Pins} {bus : Mps2I2cBus} {d : Decoder} {f : Framer} {addr : Byte}

section Steps

variable {Q : Unit → Decoder → Prop} {R : Bool → Decoder → Prop}

theorem hear_controls {mask : Word}
    (h : Q () (d.next (d.sampler.level.write pins (.controls mask)))) :
    wp (heardBus pins) Q (writeControls mask) d := by
  rintro _ _ rfl
  exact h

theorem hear_controlc {mask : Word}
    (h : Q () (d.next (d.sampler.level.write pins (.controlc mask)))) :
    wp (heardBus pins) Q (writeControlc mask) d := by
  rintro _ _ rfl
  exact h

theorem hear_look {look : Word → Bool} (h : ∀ b, R b d) :
    wp (heardBus pins) R (do let control ← readControl; return look control) d := by
  rintro control _ rfl
  exact h (look control)

theorem next_fallen (d : Decoder) (sda : Bool) :
    d.next ⟨sda, false⟩ = ⟨⟨⟨sda, false⟩, none⟩, d.fallen⟩ := by
  unfold Decoder.next Sampler.next Decoder.fallen
  cases d.sampler.level.scl <;> rfl

theorem next_risen (h : d.sampler.level.scl = false) (sda : Bool) :
    d.next ⟨sda, true⟩ = ⟨⟨⟨sda, true⟩, some sda⟩, d.framer⟩ := by
  unfold Decoder.next Sampler.next
  rw [h]
  rfl

theorem fallen_low (h : d.sampler.level.scl = false) : d.fallen = d.framer := by
  rw [Decoder.fallen, h]
  rfl

theorem hear_sclDriveLow :
    wp (heardBus pins) (fun _ d' => d' = ⟨⟨⟨d.sampler.level.sda, false⟩, none⟩, d.fallen⟩)
      (sclDriveLow pins) d := by
  apply hear_controlc
  rw [Lines.write_controlc_scl, next_fallen]

/-- While SCL is low, SDA moves unheard. -/
theorem hear_sda (h : d.sampler.level.scl = false) (b : Bool) :
    wp (heardBus pins) (fun _ d' => d' = ⟨⟨⟨b, false⟩, none⟩, d.framer⟩)
      (if b then sdaRelease pins else sdaDriveLow pins) d := by
  cases b
  · apply hear_controlc
    rw [Lines.write_controlc_sda, h, next_fallen, fallen_low h]
  · apply hear_controls
    rw [Lines.write_controls_sda, h, next_fallen, fallen_low h]

theorem hear_pollScl (n : Nat) :
    wp (heardBus pins) (fun rc d' => rc ≠ mps2I2cErrAddress ∧ d' = d) (pollScl pins n) d := by
  induction n with
  | zero => exact ⟨by decide, rfl⟩
  | succ n ih =>
    refine wp_bind.mpr (hear_look fun high => ?_)
    cases high
    · exact ih
    · exact ⟨by decide, rfl⟩

/-- Once SCL is released, SDA is sampled, whether SCL is seen to rise or not. -/
theorem hear_waitSclHigh (h : d.sampler.level.scl = false) :
    wp (heardBus pins) (fun rc d' => rc ≠ mps2I2cErrAddress ∧
      d' = ⟨⟨⟨d.sampler.level.sda, true⟩, some d.sampler.level.sda⟩, d.framer⟩)
      (waitSclHigh pins bus) d := by
  apply wp_bind.mpr
  apply hear_controls
  rw [Lines.write_controls_scl, next_risen h]
  exact hear_pollScl _

end Steps

/-! ### Conditions, bits and bytes -/

/-- A stop ends what has been heard with a STOP, whatever was driven before. -/
theorem hear_generateStop (d : Decoder) :
    wp (heardBus pins) (fun rc d' => rc ≠ mps2I2cErrAddress ∧ d'.framer = d.fallen.next .stop)
      (generateStop pins bus) d := by
  refine wp_seq hear_sclDriveLow ?_
  rintro _ _ rfl
  refine wp_seq (hear_sda rfl false) ?_
  rintro _ _ rfl
  refine wp_seq (hear_waitSclHigh rfl) ?_
  rintro rc _ ⟨hrc, rfl⟩
  have hrelease : ∀ {Q : Unit → Decoder → Prop}, Q () ⟨⟨⟨true, true⟩, none⟩, d.fallen.next .stop⟩ →
      wp (heardBus pins) Q (sdaRelease pins) ⟨⟨⟨false, true⟩, some false⟩, d.fallen⟩ := by
    intro Q hQ
    apply hear_controls
    rw [Lines.write_controls_sda]
    exact hQ
  refine wp_bind.mpr (hrelease ?_)
  split
  · exact ⟨hrc, rfl⟩
  · refine wp_bind.mpr (hear_look fun idle => ?_)
    cases idle
    · exact ⟨by decide, rfl⟩
    · exact ⟨by decide, rfl⟩

theorem stopOnError_named (h : ∀ m ∈ d.fallen.messages, m.MayName addr) {result : Int}
    (hresult : result ≠ mps2I2cErrAddress) :
    wp (heardBus pins) (fun r d' => r.1 ≠ mps2I2cErrAddress ∧ d'.framer.Named addr)
      (stopOnError pins bus result) d := by
  refine wp_seq (hear_generateStop d) ?_
  rintro _ d' ⟨-, hframer⟩
  refine ⟨hresult, ?_⟩
  rw [hframer]
  exact named_stop h

/-- SDA is released, which is a STOP if SCL is high and SDA was low. -/
theorem sdaRelease_named (h : d.framer.Named addr) :
    wp (heardBus pins) (fun _ d' => d'.sampler.level.sda = true ∧ d'.framer.Named addr)
      (sdaRelease pins) d := by
  apply hear_controls
  rw [Lines.write_controls_sda]
  refine ⟨congrArg Lines.sda (d.level_next _), ?_⟩
  unfold Decoder.next Sampler.next
  dsimp only
  cases d.sampler.level.scl with
  | false => exact h
  | true =>
    by_cases hsda : d.sampler.level.sda = true
    · rw [if_pos hsda]
      exact h
    · rw [if_neg hsda]
      exact named_stop h.mayName

/-- With SDA released, nothing is heard of a wait for SCL. -/
theorem waitSclHigh_named (hsda : d.sampler.level.sda = true) (h : d.framer.Named addr) :
    wp (heardBus pins) (fun rc d' => rc ≠ mps2I2cErrAddress ∧
      d'.sampler.level = .released ∧ d'.framer.Named addr) (waitSclHigh pins bus) d := by
  apply wp_bind.mpr
  apply hear_controls
  rw [Lines.write_controls_scl, hsda]
  refine wp_mono (hear_pollScl _) ?_
  rintro rc _ ⟨hrc, rfl⟩
  refine ⟨hrc, d.level_next _, ?_⟩
  unfold Decoder.next Sampler.next
  dsimp only
  cases d.sampler.level.scl with
  | false => exact h
  | true =>
    rw [if_pos hsda]
    exact h

theorem hear_start (h : d.sampler.level = .released) :
    wp (heardBus pins) (fun _ d' => d' = ⟨⟨⟨false, true⟩, none⟩, d.framer.next .start⟩)
      (sdaDriveLow pins) d := by
  apply hear_controlc
  rw [Lines.write_controlc_sda, h]
  unfold Decoder.next Sampler.next
  rw [h]
  rfl

/-- A start opens a message, or gives up with both lines released. -/
theorem generateStart_named (h : d.framer.Named addr) :
    wp (heardBus pins) (fun rc d' => rc ≠ mps2I2cErrAddress ∧
      (rc ≠ mps2I2cOk → d'.framer.Named addr) ∧
      (rc = mps2I2cOk → d'.sampler.level.scl = false ∧ ∃ done opening,
        d'.framer = ⟨done, some (.opened opening)⟩ ∧ ∀ m ∈ done, m.MayName addr))
      (generateStart pins bus) d := by
  refine wp_seq (sdaRelease_named h) ?_
  rintro _ d1 ⟨hsda1, hnamed1⟩
  refine wp_seq (waitSclHigh_named hsda1 hnamed1) ?_
  rintro rc d2 ⟨hrc, hlevel, hnamed2⟩
  by_cases hresult : rc = mps2I2cOk
  · rw [if_neg (not_not.mpr hresult)]
    refine wp_bind.mpr (hear_look fun high => ?_)
    cases high
    · exact ⟨by decide, fun _ => hnamed2, fun hok => absurd hok (by decide)⟩
    · refine wp_seq (hear_start hlevel) ?_
      rintro _ _ rfl
      refine wp_seq hear_sclDriveLow ?_
      rintro _ _ rfl
      exact ⟨by decide, fun hne => absurd rfl hne, fun _ => ⟨rfl, _, _, rfl, hnamed2.mayName⟩⟩
  · rw [if_pos hresult]
    exact ⟨hrc, fun _ => hnamed2, fun hok => absurd hok hresult⟩

/-- The bit `b` is heard after `d`, unless the wait for SCL gives up on it. -/
def HeardBit (d : Decoder) (b : Bool) (rc : Int) (d' : Decoder) : Prop :=
  rc ≠ mps2I2cErrAddress ∧
  (rc = mps2I2cOk → d'.sampler.level.scl = false ∧ d'.framer = d.framer.next (.bit b)) ∧
  (rc ≠ mps2I2cOk → d' = ⟨⟨⟨b, true⟩, some b⟩, d.framer⟩)

theorem hear_writeBit (h : d.sampler.level.scl = false) (b : Bool) :
    wp (heardBus pins) (HeardBit d b) (writeBit pins bus (if b then 1 else 0)) d := by
  have hset : wp (heardBus pins) (fun _ d' => d' = ⟨⟨⟨b, false⟩, none⟩, d.framer⟩)
      (if (if b then 1 else 0 : Byte) ≠ 0 then sdaRelease pins else sdaDriveLow pins) d := by
    have hsda : wp (heardBus pins) _ _ d := hear_sda h b
    cases b
    · exact hsda
    · exact hsda
  refine wp_seq hset ?_
  rintro _ _ rfl
  refine wp_seq (hear_waitSclHigh rfl) ?_
  rintro rc _ ⟨hrc, rfl⟩
  by_cases hresult : rc = mps2I2cOk
  · rw [if_neg (not_not.mpr hresult)]
    refine wp_seq hear_sclDriveLow ?_
    rintro _ _ rfl
    exact ⟨by decide, fun _ => ⟨rfl, rfl⟩, fun hne => absurd rfl hne⟩
  · rw [if_pos hresult]
    exact ⟨hrc, fun hok => absurd hok hresult, fun _ => rfl⟩

/-- While a bit is read, the master leaves SDA released. -/
theorem hear_readBit (h : d.sampler.level.scl = false) :
    wp (heardBus pins) (fun r d' => HeardBit d true r.1 d') (readBit pins bus) d := by
  refine wp_seq (hear_sda h true) ?_
  rintro _ _ rfl
  refine wp_seq (hear_waitSclHigh rfl) ?_
  rintro rc _ ⟨hrc, rfl⟩
  by_cases hresult : rc = mps2I2cOk
  · rw [if_neg (not_not.mpr hresult)]
    refine wp_bind.mpr (hear_look fun high => ?_)
    refine wp_seq hear_sclDriveLow ?_
    rintro _ _ rfl
    exact ⟨by dsimp only; decide, fun _ => ⟨rfl, rfl⟩, fun hne => absurd rfl hne⟩
  · rw [if_pos hresult]
    exact ⟨hrc, fun hok => absurd hok hresult, fun _ => rfl⟩

/-! ### Bytes after the address -/

/-- What an operation on the bits of a byte makes of a message that has its address byte. -/
def Continues (addr : Byte) (rc : Int) (d : Decoder) : Prop :=
  rc ≠ mps2I2cErrAddress ∧ d.framer.Named addr ∧ (rc = mps2I2cOk → d.sampler.level.scl = false)

theorem HeardBit.continues {b : Bool} {rc : Int} {d' : Decoder} (h : HeardBit d b rc d')
    (hnamed : d.framer.Named addr) : Continues addr rc d' := by
  obtain ⟨hrc, hok, hbad⟩ := h
  by_cases hresult : rc = mps2I2cOk
  · obtain ⟨hlow, hframer⟩ := hok hresult
    refine ⟨hrc, ?_, fun _ => hlow⟩
    rw [hframer]
    exact hnamed.next_bit b
  · rw [hbad hresult]
    exact ⟨hrc, hnamed, fun heq => absurd heq hresult⟩

theorem writeBit_continues (h : d.sampler.level.scl = false) (hnamed : d.framer.Named addr)
    (b : Bool) :
    wp (heardBus pins) (Continues addr) (writeBit pins bus (if b then 1 else 0)) d :=
  wp_mono (hear_writeBit h b) fun _ _ hbit => hbit.continues hnamed

theorem readBit_continues (h : d.sampler.level.scl = false) (hnamed : d.framer.Named addr) :
    wp (heardBus pins) (fun r d' => Continues addr r.1 d') (readBit pins bus) d :=
  wp_mono (hear_readBit h) fun _ _ hbit => hbit.continues hnamed

/-- A loop whose turns continue the message continues it. -/
theorem forEachM_continues {σ : Type} {body : σ → Nat → I2cProgram (Int × σ)} {s : σ} (n : Nat)
    (hbody : ∀ s k (d : Decoder), d.sampler.level.scl = false → d.framer.Named addr →
      wp (heardBus pins) (fun r d' => Continues addr r.1 d') (body s k) d)
    (h : d.sampler.level.scl = false) (hnamed : d.framer.Named addr) :
    wp (heardBus pins) (fun r d' => Continues addr r.1 d') (forEachM body s (List.range n)) d := by
  refine wp_forEachM_range
    (I := fun _ _ (d' : Decoder) => d'.sampler.level.scl = false ∧ d'.framer.Named addr)
    ⟨h, hnamed⟩ ?_ ?_
  · rintro k - s d1 ⟨hlow1, hnamed1⟩
    refine wp_mono (hbody s k d1 hlow1 hnamed1) ?_
    rintro r d2 ⟨hrc, hnamed2, hlow2⟩
    exact ⟨fun _ => ⟨hrc, hnamed2, hlow2⟩, fun hok => ⟨hlow2 hok, hnamed2⟩⟩
  · rintro s d1 ⟨hlow1, hnamed1⟩
    exact ⟨by dsimp only; decide, hnamed1, fun _ => hlow1⟩

theorem receiveAck_continues (h : d.sampler.level.scl = false) (hnamed : d.framer.Named addr) :
    wp (heardBus pins) (Continues addr) (receiveAck pins bus) d := by
  refine wp_seq (readBit_continues h hnamed) ?_
  rintro ⟨rc, nack⟩ d' ⟨hrc, hnamed', hlow⟩
  dsimp only
  split
  · next hresult => exact ⟨hrc, hnamed', fun hok => absurd hok hresult⟩
  · next hresult =>
    split
    · exact ⟨by decide, hnamed', fun _ => hlow (not_not.mp hresult)⟩
    · exact ⟨by decide, hnamed', fun hok => absurd hok (by decide)⟩

theorem writeNextBit_continues (h : d.sampler.level.scl = false) (hnamed : d.framer.Named addr)
    (value : Byte) (k : Nat) :
    wp (heardBus pins) (fun r d' => Continues addr r.1 d') (writeNextBit pins bus value k) d := by
  have hbit : (if value &&& 0x80 ≠ 0 then 1 else 0 : Byte) =
      if decide (value &&& 0x80 ≠ 0) then 1 else 0 := by
    by_cases hv : value &&& 0x80 ≠ 0
    · rw [if_pos hv, if_pos (decide_eq_true hv)]
    · rw [if_neg hv, if_neg (by rw [decide_eq_false hv]; decide)]
  rw [writeNextBit, hbit]
  refine wp_seq (writeBit_continues h hnamed _) ?_
  rintro rc d' hcontinues
  split
  · exact hcontinues
  · next hresult =>
    rw [not_not] at hresult
    exact hresult ▸ hcontinues

theorem readNextBit_continues (h : d.sampler.level.scl = false) (hnamed : d.framer.Named addr)
    (received : Byte) (k : Nat) :
    wp (heardBus pins) (fun r d' => Continues addr r.1 d')
      (readNextBit pins bus received k) d := by
  refine wp_seq (readBit_continues h hnamed) ?_
  rintro ⟨rc, b⟩ d' hcontinues
  dsimp only at hcontinues ⊢
  split
  · exact hcontinues
  · next hresult =>
    rw [not_not] at hresult
    exact hresult ▸ hcontinues

theorem writeByte_continues (h : d.sampler.level.scl = false) (hnamed : d.framer.Named addr)
    (value : Byte) :
    wp (heardBus pins) (Continues addr) (writeByte pins bus value) d := by
  refine wp_seq (forEachM_continues 8
    (fun v k _ hlow hnamed => writeNextBit_continues hlow hnamed v k) h hnamed) ?_
  rintro ⟨rc, v⟩ d1 ⟨hrc, hnamed1, hlow1⟩
  dsimp only at hrc hlow1 ⊢
  split
  · exact ⟨hrc, hnamed1, hlow1⟩
  · next hresult => exact receiveAck_continues (hlow1 (not_not.mp hresult)) hnamed1

theorem readByte_continues (h : d.sampler.level.scl = false) (hnamed : d.framer.Named addr)
    (value : Option Nat) (sendAck : Bool) :
    wp (heardBus pins) (Continues addr) (readByte pins bus value sendAck) d := by
  cases value with
  | none => exact ⟨by decide, hnamed, fun _ => h⟩
  | some value =>
    refine wp_seq (forEachM_continues 8
      (fun v k _ hlow hnamed => readNextBit_continues hlow hnamed v k) h hnamed) ?_
    rintro ⟨rc, v⟩ d1 ⟨hrc, hnamed1, hlow1⟩
    dsimp only at hrc hlow1 ⊢
    split
    · exact ⟨hrc, hnamed1, hlow1⟩
    next hresult =>
    have hack : (if sendAck then 0 else 1 : Byte) = if !sendAck then 1 else 0 := by
      cases sendAck <;> rfl
    rw [hack]
    refine wp_seq (writeBit_continues (hlow1 (not_not.mp hresult)) hnamed1 _) ?_
    rintro rc d2 ⟨hrc2, hnamed2, hlow2⟩
    split
    · exact ⟨hrc2, hnamed2, hlow2⟩
    · rintro _ _ rfl
      exact ⟨hrc2, hnamed2, hlow2⟩

/-- A turn of the loop over the bytes of a message. -/
theorem transferByte_continues (h : d.sampler.level.scl = false) (hnamed : d.framer.Named addr)
    (message : Mps2I2cMsg) (k : Nat) :
    wp (heardBus pins) (fun r d' => Continues addr r.1 d')
      (transferByte pins bus message () k) d := by
  have hbyte : wp (heardBus pins) (Continues addr)
      (if isRead message then
        readByte pins bus (message.buf.map (· + k)) (k + 1 < message.len)
      else do
        let value ← load (message.buf.getD 0 + k)
        writeByte pins bus value) d := by
    split
    · exact readByte_continues h hnamed _ _
    · rintro value _ rfl
      exact writeByte_continues h hnamed value
  exact wp_seq hbyte fun _ _ hcontinues => hcontinues

/-! ### The address byte -/

theorem messages_mayName {done : List WireMessage} (hdone : ∀ m ∈ done, m.MayName addr)
    {m : WireMessage} (hm : m.MayName addr) :
    ∀ m' ∈ Framer.messages ⟨done, some m⟩, m'.MayName addr := by
  intro m' hm'
  rcases List.mem_append.mp hm' with hmem | hmem
  · exact hdone m' hmem
  · obtain rfl := List.mem_singleton.mp hmem
    exact hm

/-- After a START, the bits that are written are those of the address byte.  If the wait for SCL
gives up, what has been heard of it is a part of it at most. -/
theorem writeBits_address {done : List WireMessage} {opening : Opening}
    (hdone : ∀ m ∈ done, m.MayName addr) (h : d.sampler.level.scl = false)
    (hframer : d.framer = ⟨done, some (.opened opening)⟩) (value : Byte) :
    wp (heardBus pins) (fun r d' => r.1 ≠ mps2I2cErrAddress ∧
      (r.1 ≠ mps2I2cOk → ∀ m ∈ d'.fallen.messages, m.MayName addr) ∧
      (r.1 = mps2I2cOk → d'.sampler.level.scl = false ∧
        d'.framer = ⟨done, some ((WireMessage.opened opening).partially value 8)⟩))
      (forEachM (writeNextBit pins bus) value (List.range 8)) d := by
  refine wp_forEachM_range (I := fun k v (d' : Decoder) =>
    v = value <<< k ∧ d'.sampler.level.scl = false ∧
    d'.framer = ⟨done, some ((WireMessage.opened opening).partially value k)⟩) ?_ ?_ ?_
  · refine ⟨(BitVec.shiftLeft_zero value).symm, h, ?_⟩
    rw [WireMessage.partially_zero rfl]
    exact hframer
  · rintro k hk v d1 ⟨rfl, hlow1, hframer1⟩
    rw [writeNextBit, writeByte_bit value hk]
    refine wp_seq (hear_writeBit hlow1 _) ?_
    rintro rc d2 ⟨hrc, hok, hbad⟩
    have hnext : d1.framer.next (.bit (value.getMsbD k)) =
        ⟨done, some ((WireMessage.opened opening).partially value (k + 1))⟩ := by
      rw [hframer1, Framer.next, Option.getD_some, WireMessage.partially_bit _ _ hk]
    by_cases hresult : rc = mps2I2cOk
    · obtain ⟨hlow2, hframer2⟩ := hok hresult
      rw [if_neg (not_not.mpr hresult)]
      refine ⟨fun hne => absurd rfl hne, fun _ => ⟨?_, hlow2, hframer2.trans hnext⟩⟩
      rw [BitVec.shiftLeft_add]
    · rw [if_pos hresult]
      refine ⟨fun _ => ⟨hrc, fun _ => ?_, fun heq => absurd heq hresult⟩,
        fun heq => absurd heq hresult⟩
      rw [hbad hresult]
      show ∀ m ∈ (d1.framer.next (.bit (value.getMsbD k))).messages, _
      rw [hnext]
      exact messages_mayName hdone (.inl rfl)
  · rintro v d1 ⟨-, hlow1, hframer1⟩
    exact ⟨by dsimp only; decide, fun hne => absurd rfl hne, fun _ => ⟨hlow1, hframer1⟩⟩

/-- After a START, the byte that is written is the address byte.  If the wait for SCL gives up, what
has been heard of it is a part of it at most, or all of it. -/
theorem writeByte_address {done : List WireMessage} {opening : Opening}
    (hdone : ∀ m ∈ done, m.MayName addr) (h : d.sampler.level.scl = false)
    (hframer : d.framer = ⟨done, some (.opened opening)⟩) {value : Byte}
    (hvalue : value >>> 1 = addr) :
    wp (heardBus pins) (fun rc d' => rc ≠ mps2I2cErrAddress ∧
      (∀ m ∈ d'.fallen.messages, m.MayName addr) ∧
      (rc = mps2I2cOk → d'.sampler.level.scl = false ∧ d'.framer.Named addr))
      (writeByte pins bus value) d := by
  refine wp_seq (writeBits_address hdone h hframer value) ?_
  rintro ⟨rc, v⟩ d1 ⟨hrc, hbad, hok⟩
  dsimp only at hrc hbad hok ⊢
  by_cases hresult : rc = mps2I2cOk
  · rw [if_neg (not_not.mpr hresult)]
    obtain ⟨hlow1, hframer1⟩ := hok hresult
    have hcomplete : WireMessage.Named addr
        { WireMessage.opened opening with bytes := [] ++ [(value, !true)], bits := [] } :=
      .inr ⟨_, _, rfl, hvalue⟩
    have hnext : d1.framer.next (.bit true) = ⟨done, some
        { WireMessage.opened opening with bytes := [] ++ [(value, !true)], bits := [] }⟩ := by
      rw [hframer1, Framer.next, Option.getD_some, WireMessage.partially_ack]
      rfl
    refine wp_seq (hear_readBit hlow1) ?_
    rintro ⟨rc', nack⟩ d2 ⟨hrc', hok', hbad'⟩
    dsimp only at hrc' hok' hbad' ⊢
    by_cases hresult' : rc' = mps2I2cOk
    · obtain ⟨hlow2, hframer2⟩ := hok' hresult'
      have hnamed2 : d2.framer.Named addr := by
        rw [hframer2, hnext]
        refine ⟨hdone, ?_⟩
        rintro m ⟨⟩
        exact hcomplete
      rw [if_neg (not_not.mpr hresult')]
      exact ⟨by split <;> decide, hnamed2.fallen.mayName, fun _ => ⟨hlow2, hnamed2⟩⟩
    · rw [if_pos hresult']
      refine ⟨hrc', ?_, fun heq => absurd heq hresult'⟩
      rw [hbad' hresult']
      show ∀ m ∈ (d1.framer.next (.bit true)).messages, _
      rw [hnext]
      exact messages_mayName hdone (.inr hcomplete)
  · rw [if_pos hresult]
    exact ⟨hrc, hbad hresult, fun heq => absurd heq hresult⟩

/-- The byte that `send_address` makes of an address has its lower seven bits on top. -/
theorem addressByte_upper (targetAddr : Byte) (r : Bool) :
    (targetAddr <<< 1 ||| if r then 1 else 0) >>> 1 = targetAddr &&& 0x7f := by
  revert targetAddr r
  decide +kernel

/-! ### Calls -/

section Calls

variable {targetAddr : Byte}

theorem transferMessage_named (h : d.framer.Named (targetAddr &&& 0x7f)) (active : Bool)
    (message : Mps2I2cMsg) :
    wp (heardBus pins) (fun r d' => r.1 ≠ mps2I2cErrAddress ∧
      d'.framer.Named (targetAddr &&& 0x7f))
      (transferMessage pins bus targetAddr active message) d := by
  have hstart : wp (heardBus pins) _ (generateStart pins bus) d := generateStart_named h
  have hopen : (if active then generateRestart pins bus else generateStart pins bus) =
      generateStart pins bus := by
    split
    · rfl
    · rfl
  rw [transferMessage, hopen]
  refine wp_seq hstart ?_
  rintro rc d1 ⟨hrc, hbad, hok⟩
  by_cases hresult : rc = mps2I2cOk
  · obtain ⟨hlow1, done, opening, hframer1, hdone⟩ := hok hresult
    rw [if_neg (not_not.mpr hresult)]
    refine wp_seq (writeByte_address hdone hlow1 hframer1 (addressByte_upper targetAddr _)) ?_
    rintro rc2 d2 ⟨hrc2, hmay2, hok2⟩
    by_cases hresult2 : rc2 = mps2I2cOk
    · obtain ⟨hlow2, hnamed2⟩ := hok2 hresult2
      rw [if_neg (not_not.mpr hresult2)]
      refine wp_seq (forEachM_continues message.len (fun _ k _ hlow hnamed =>
        transferByte_continues hlow hnamed message k) hlow2 hnamed2) ?_
      rintro ⟨rc3, v⟩ d3 ⟨hrc3, hnamed3, hlow3⟩
      dsimp only at hrc3 ⊢
      split
      · exact stopOnError_named hnamed3.fallen.mayName hrc3
      split
      · refine wp_seq (hear_generateStop d3) ?_
        rintro rc4 d4 ⟨hrc4, hframer4⟩
        refine ⟨hrc4, ?_⟩
        rw [hframer4]
        exact named_stop hnamed3.fallen.mayName
      · exact ⟨by dsimp only; decide, hnamed3⟩
    · rw [if_pos hresult2]
      exact stopOnError_named hmay2 hrc2
  · rw [if_pos hresult]
    split
    · exact stopOnError_named (hbad hresult).fallen.mayName hrc
    · exact ⟨hrc, hbad hresult⟩

/-- A transfer that passes its checks does not end with an address error, and names the target of
the lower seven bits of the address alone. -/
theorem transfer_named {start : Option Mps2I2cBus} {valid : Mps2I2cBus}
    {messages list : List Mps2I2cMsg}
    (hcheck : checkTransfer start (some messages) targetAddr = .ok (valid, list)) (level : Lines)
    (sample : Option Bool) :
    wp (heardBus pins) (fun rc d' => rc ≠ mps2I2cErrAddress ∧
      ∀ a ∈ d'.addressBytes, a >>> 1 = targetAddr &&& 0x7f)
      (mps2I2cTransfer pins start (some messages) targetAddr) (.fresh level sample) := by
  unfold mps2I2cTransfer
  rw [hcheck]
  have hloop : wp (heardBus pins) (fun r d' => r.1 ≠ mps2I2cErrAddress ∧
      d'.framer.Named (targetAddr &&& 0x7f))
      (forEachM (transferMessage pins valid targetAddr) false list) (.fresh level sample) := by
    refine wp_forEachM
      (I := fun _ _ (d' : Decoder) => d'.framer.Named (targetAddr &&& 0x7f)) ?_ ?_ ?_
    · exact ⟨nofun, nofun⟩
    · intro _ message _ active d1 _ hnamed1
      refine wp_mono (transferMessage_named hnamed1 active message) ?_
      exact fun r d2 h2 => ⟨fun _ => h2, fun _ => h2.2⟩
    · exact fun active d1 hnamed1 => ⟨by dsimp only; decide, hnamed1⟩
  refine wp_seq hloop ?_
  rintro ⟨rc, active⟩ d1 ⟨hrc, hnamed1⟩
  exact ⟨hrc, addressBytes_named hnamed1.mayName⟩

theorem probe_status {start : Option Mps2I2cBus} {valid : Mps2I2cBus}
    (hvalid : busValid start = some valid) (level : Lines) (sample : Option Bool) :
    wp (heardBus pins) (fun rc _ => rc = mps2I2cErrAddress ↔ targetAddr > 0x7f)
      (mps2I2cProbe pins start targetAddr) (.fresh level sample) := by
  unfold mps2I2cProbe
  rw [hvalid]
  dsimp only
  by_cases haddr : targetAddr > 0x7f
  · rw [if_pos haddr]
    exact iff_of_true rfl haddr
  rw [if_neg haddr]
  have hfresh : (Decoder.fresh level sample).framer.Named (targetAddr &&& 0x7f) := ⟨nofun, nofun⟩
  refine wp_seq (generateStart_named hfresh) ?_
  rintro rc d1 ⟨hrc, -, hok⟩
  by_cases hresult : rc = mps2I2cOk
  · obtain ⟨hlow1, done, opening, hframer1, hdone⟩ := hok hresult
    rw [if_neg (not_not.mpr hresult)]
    refine wp_seq (writeByte_address hdone hlow1 hframer1 (addressByte_upper targetAddr false)) ?_
    rintro rc2 d2 ⟨hrc2, -, -⟩
    refine wp_seq (hear_generateStop d2) ?_
    rintro rc3 d3 ⟨hrc3, -⟩
    split
    · exact iff_of_false hrc2 haddr
    · exact iff_of_false hrc3 haddr
  · rw [if_pos hresult]
    exact iff_of_false hrc haddr

end Calls

/-- For every valid list of messages, whatever reads find: the transfer fails with an address error
and does nothing, or all address bytes are for the target that is named; and both calls fail with an
address error for addresses above 0x7f alone. -/
def AddressSound (pins : Pins) (targetAddr : Byte) : Prop :=
  ∀ start valid messages, busValid start = some valid → messages ≠ [] →
    checkMessages none messages = mps2I2cOk → ∀ level sample,
    (∀ t rc d', Exec (heardBus pins) (mps2I2cTransfer pins start (some messages) targetAddr)
      (Decoder.fresh level sample) t (some rc) d' →
        (rc = mps2I2cErrAddress ∧ t = [] ∨ ∀ a ∈ d'.addressBytes, a >>> 1 = targetAddr) ∧
        (rc = mps2I2cErrAddress ↔ targetAddr > 0x7f)) ∧
    ∀ t rc d', Exec (heardBus pins) (mps2I2cProbe pins start targetAddr)
      (Decoder.fresh level sample) t (some rc) d' → (rc = mps2I2cErrAddress ↔ targetAddr > 0x7f)

/-- SCL is high, and SDA is low for an acknowledge alone. -/
def ackLook : (o : Op) → Decoder → Ans o × Decoder
  | .control, d =>
    (if d.framer.current.any (fun m => m.bits.length = 8) then 1 else 3, d)
  | .load _, d => (0, d)
  | .controls mask, d => ((), d.hear lowPins (.controls mask))
  | .controlc mask, d => ((), d.hear lowPins (.controlc mask))
  | .store _ _, d => ((), d)

/-- All lines and all bytes read as 0. -/
def lowLook (pins : Pins) (o : Op) (d : Decoder) : Ans o × Decoder :=
  (match o with
    | .control => (0 : Word)
    | .load _ => (0 : Byte)
    | .controls _ | .controlc _ | .store _ _ => (), d.hear pins o)

/-- The address validation is sound for the addresses below 0x7f, and for no others. -/
theorem addressSound_iff (pins : Pins) (targetAddr : Byte) :
    AddressSound pins targetAddr ↔ targetAddr < 0x7f := by
  constructor
  · intro h
    by_contra haddr
    have hbus : busValid (some ⟨some 0, 1, 3⟩) = some ⟨some 0, 1, 3⟩ := by decide
    have hmessages : checkMessages none [⟨some 0, 1, mps2I2cMsgStop⟩] = mps2I2cOk := by decide
    obtain ⟨htransfer, -⟩ := h _ _ _ hbus (List.cons_ne_nil _ _) hmessages .released none
    by_cases h7f : targetAddr = 0x7f
    · have hcheck : checkTransfer (some ⟨some 0, 1, 3⟩)
          (some [⟨some 0, 1, mps2I2cMsgStop⟩]) 0x7f = .error mps2I2cErrAddress := by decide
      have he : Exec (heardBus pins) (mps2I2cTransfer pins (some ⟨some 0, 1, 3⟩)
          (some [⟨some 0, 1, mps2I2cMsgStop⟩]) targetAddr) (Decoder.fresh .released none) []
          (some mps2I2cErrAddress) (Decoder.fresh .released none) := by
        rw [mps2I2cTransfer, h7f, hcheck]
        exact .ret _ _
      have hover := (htransfer _ _ _ he).2.mp rfl
      rw [h7f] at hover
      exact absurd hover (by decide)
    · have hcheck := checkTransfer_ok.mpr ⟨hbus, rfl, List.cons_ne_nil _ _, h7f, hmessages⟩
      obtain ⟨rc, d', t, he⟩ : ∃ rc d' t, Exec (heardBus pins) (mps2I2cTransfer pins
          (some ⟨some 0, 1, 3⟩) (some [⟨some 0, 1, mps2I2cMsgStop⟩]) targetAddr)
          (Decoder.fresh .released none) t (some rc) d' :=
        ⟨_, _, Handles.exec (D := heardBus pins) (h := lowLook pins) (fun _ _ => rfl) _ _⟩
      have hover : targetAddr > 0x7f := by
        rw [gt_iff_lt, BitVec.lt_def]
        rw [BitVec.lt_def] at haddr
        have hne : targetAddr.toNat ≠ (0x7f : Byte).toNat :=
          fun heq => h7f (BitVec.eq_of_toNat_eq heq)
        omega
      exact (wp_sound (transfer_named hcheck _ _) he).1 ((htransfer _ _ _ he).2.mpr hover)
  · intro haddr start valid messages hvalid hempty hmessages level sample
    have hne : targetAddr ≠ 0x7f := by
      rintro rfl
      exact absurd haddr (by decide)
    have hnot : ¬targetAddr > 0x7f := by
      rw [gt_iff_lt, BitVec.lt_def]
      rw [BitVec.lt_def] at haddr
      omega
    have hseven : targetAddr &&& 0x7f = targetAddr := by
      have hall : ∀ a : Byte, a < 0x7f → a &&& 0x7f = a := by decide +kernel
      exact hall targetAddr haddr
    have hcheck := checkTransfer_ok.mpr ⟨hvalid, rfl, hempty, hne, hmessages⟩
    refine ⟨fun t rc d' he => ?_, fun t rc d' he => wp_sound (probe_status hvalid _ _) he⟩
    obtain ⟨hrc, hbytes⟩ := wp_sound (transfer_named hcheck level sample) he
    rw [hseven] at hbytes
    exact ⟨.inr hbytes, iff_of_false hrc hnot⟩

/-- A write to 0xd0 succeeds, and what is sent is the address 0x50. -/
theorem alias_written : ∃ t d', Exec (heardBus lowPins) (mps2I2cTransfer lowPins
      (some ⟨some 0, 1, 3⟩) (some [⟨some 0, 1, mps2I2cMsgStop⟩]) 0xd0)
      (Decoder.fresh .released none) t (some mps2I2cOk) d' ∧
    d'.addressBytes = [0xa0] ∧ ¬AddressSound lowPins 0xd0 := by
  obtain ⟨t, he⟩ := Handles.exec (D := heardBus lowPins) (h := ackLook)
    (fun d o => by cases o <;> rfl) (mps2I2cTransfer lowPins (some ⟨some 0, 1, 3⟩)
      (some [⟨some 0, 1, mps2I2cMsgStop⟩]) 0xd0) (Decoder.fresh .released none)
  have hrun : ((mps2I2cTransfer lowPins (some ⟨some 0, 1, 3⟩)
      (some [⟨some 0, 1, mps2I2cMsgStop⟩]) 0xd0).run ackLook (Decoder.fresh .released none)).1 =
        mps2I2cOk ∧
      ((mps2I2cTransfer lowPins (some ⟨some 0, 1, 3⟩)
        (some [⟨some 0, 1, mps2I2cMsgStop⟩]) 0xd0).run ackLook
          (Decoder.fresh .released none)).2.addressBytes = [0xa0] := by decide +kernel
  rw [hrun.1] at he
  refine ⟨t, _, he, hrun.2, fun h => ?_⟩
  have hbus : busValid (some ⟨some 0, 1, 3⟩) = some ⟨some 0, 1, 3⟩ := by decide
  obtain ⟨hsound, -⟩ := (h _ _ _ hbus (List.cons_ne_nil _ _) (by decide) _ _).1 _ _ _ he
  rcases hsound with ⟨hrc, -⟩ | hbytes
  · exact absurd hrc (by decide)
  · rw [hrun.2] at hbytes
    exact absurd (hbytes 0xa0 (List.mem_singleton.mpr rfl)) (by decide)

end CortexLabs.I2c

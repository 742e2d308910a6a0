import CortexLabs.I2c.Bits
import CortexLabs.I2c.Message

/-! A bus whose target does nothing but acknowledge: for each byte that it hears it takes the next
answer of a pattern.  It moves SDA while SCL is low, and it never holds SCL. -/

namespace CortexLabs.I2c

open Device Relation

/-- How many bytes have been heard to their acknowledge. -/
def Framer.asked (f : Framer) : Nat := (f.messages.map fun m => m.bytes.length).sum

/-- What the target leaves on SDA for the next clock, `true` when it releases the line. -/
def Framer.acknowledge (acks : Nat → Bool) (f : Framer) : Bool :=
  match f.current with
  | none => true
  | some m => if m.bits.length < 8 then true else !acks f.asked

inductive AckMove : Wire → Wire → Prop
  | data {w : Wire} (sda : Bool) (hlow : w.lines.scl = false) :
    AckMove w (w.setTarget ⟨sda, w.target.scl⟩)

/-- The target has settled SDA before SCL rises. -/
def Acknowledges (acks : Nat → Bool) (w w' : Wire) : Prop :=
  w.lines.scl = false → w'.lines.scl = true → w.target.sda = w.decoder.framer.acknowledge acks

def AckAnswer (pins : Pins) (acks : Nat → Bool) (w : Wire) : (o : Op) → Ans o → Wire → Prop
  | .control, control, w' =>
    control &&& pins.sda = (if w.lines.sda then pins.sda else 0) ∧
    control &&& pins.scl = (if w.lines.scl then pins.scl else 0) ∧ w' = w
  | .controls mask, _, w' =>
    w' = w.setMaster (w.master.write pins (.controls mask)) ∧ Acknowledges acks w w'
  | .controlc mask, _, w' => w' = w.setMaster (w.master.write pins (.controlc mask))
  | .load address, value, w' => value = w.memory address ∧ w' = w
  | .store address value, _, w' => w' = { w with memory := Function.update w.memory address value }

abbrev ackBus (pins : Pins) (acks : Nat → Bool) : Behavior Op Ans where
  State := Wire
  answer w o r w' := ∃ w1, ReflTransGen AckMove w w1 ∧ AckAnswer pins acks w1 o r w'
  torn _ _ _ := False

variable {pins : Pins} {acks : Nat → Bool} {w w' : Wire} {f : Framer} {sample : Option Bool}
  {mem : Memory}

/-! ### The target's moves -/

/-- The master drives SCL low, and nobody else does. -/
structure Down (f : Framer) (mem : Memory) (w : Wire) : Prop where
  low : Low f mem w
  free : w.target.scl = true

theorem Down.moves (h : Down f mem w) (hmoves : ReflTransGen AckMove w w') :
    Down f mem w' ∧ w'.master = w.master := by
  have hstep : ∀ w w' : Wire, Down f mem w → AckMove w w' →
      Down f mem w' ∧ w'.master = w.master := by
    rintro w _ h ⟨sda, hlow⟩
    have hheard : (w.setTarget ⟨sda, w.target.scl⟩).Heard none f := by
      refine h.low.heard.low h.low.lines rfl ?_
      show (w.master.scl && w.target.scl) = false
      rw [h.low.clock, Bool.false_and]
    exact ⟨⟨⟨h.low.clock, hheard, h.low.memory⟩, h.free⟩, rfl⟩
  refine run_relation (R := fun w w' => w'.master = w.master) (fun _ => rfl) ?_ hstep hmoves h
  intro w1 w2 w3 h12 h23
  exact h23.trans h12

/-- The target does nothing while SCL is high. -/
theorem High.still (h : High sample f mem w) (hmoves : ReflTransGen AckMove w w') : w' = w := by
  induction hmoves with
  | refl => rfl
  | tail _ hmove ih =>
    subst ih
    obtain ⟨sda, hlow⟩ := hmove
    rw [h.lines] at hlow
    cases hlow

theorem Low.rise (h : Low f mem w) (free : w.target.scl = true) :
    High (some (w.setMaster ⟨w.master.sda, true⟩).lines.sda) f mem
      (w.setMaster ⟨w.master.sda, true⟩) :=
  ⟨rfl, free, h.heard.rise h.lines rfl free, h.memory⟩

/-! ### The master's steps -/

section Steps

variable {Q : Unit → Wire → Prop}

theorem wp_ackControls {mask : Word}
    (h : ∀ w1, ReflTransGen AckMove w w1 →
      Acknowledges acks w1 (w1.setMaster (w1.master.write pins (.controls mask))) →
      Q () (w1.setMaster (w1.master.write pins (.controls mask)))) :
    wp (ackBus pins acks) Q (writeControls mask) w := by
  rintro r w' ⟨w1, hmoves, rfl, hanswers⟩
  exact h w1 hmoves hanswers

theorem wp_ackControlc {mask : Word}
    (h : ∀ w1, ReflTransGen AckMove w w1 →
      Q () (w1.setMaster (w1.master.write pins (.controlc mask)))) :
    wp (ackBus pins acks) Q (writeControlc mask) w := by
  rintro r w' ⟨w1, hmoves, rfl⟩
  exact h w1 hmoves

theorem Down.sdaHigh (h : Down f mem w) :
    wp (ackBus pins acks) (fun _ w' => Down f mem w' ∧ w'.master.sda = true)
      (i2cSdaHigh pins) w := by
  refine wp_ackControls fun w1 hmoves _ => ?_
  obtain ⟨hdown, -⟩ := h.moves hmoves
  rw [Lines.write_controls_sda]
  exact ⟨⟨hdown.low.setSda true, hdown.free⟩, rfl⟩

theorem Down.sdaLow (h : Down f mem w) :
    wp (ackBus pins acks) (fun _ w' => Down f mem w' ∧ w'.master.sda = false)
      (i2cSdaLow pins) w := by
  refine wp_ackControlc fun w1 hmoves => ?_
  obtain ⟨hdown, -⟩ := h.moves hmoves
  rw [Lines.write_controlc_sda]
  exact ⟨⟨hdown.low.setSda false, hdown.free⟩, rfl⟩

/-- SCL rises, with what the two parties leave of SDA. -/
theorem Down.sclHigh (h : Down f mem w) :
    wp (ackBus pins acks)
      (fun _ w' => High (some (w.master.sda && f.acknowledge acks)) f mem w' ∧
        w'.master.sda = w.master.sda ∧ w'.target.sda = f.acknowledge acks)
      (i2cSclHigh pins) w := by
  refine wp_ackControls fun w1 hmoves hanswers => ?_
  obtain ⟨hdown, hmaster⟩ := h.moves hmoves
  rw [Lines.write_controls_scl] at hanswers ⊢
  have hrisen := hdown.low.rise hdown.free
  have hframer : w1.decoder.framer = f := congrArg Decoder.framer hdown.low.heard
  have htarget : w1.target.sda = f.acknowledge acks := by
    rw [hanswers hdown.low.lines hrisen.lines, hframer]
  have hsda : (w1.setMaster ⟨w1.master.sda, true⟩).lines.sda =
      (w.master.sda && f.acknowledge acks) := by
    show (w1.master.sda && w1.target.sda) = _
    rw [htarget, hmaster]
  rw [hsda] at hrisen
  refine ⟨hrisen, ?_, htarget⟩
  show w1.master.sda = w.master.sda
  rw [hmaster]

theorem High.sclLow (h : High sample f mem w) :
    wp (ackBus pins acks) (fun _ w' => Down (((sample.map Symbol.bit).map f.next).getD f) mem w')
      (i2cSclLow pins) w := by
  refine wp_ackControlc fun w1 hmoves => ?_
  obtain rfl := h.still hmoves
  rw [Lines.write_controlc_scl]
  exact ⟨h.fall, h.free⟩

theorem High.sdaStart (h : High sample f mem w) (hsda : w.lines.sda = true) :
    wp (ackBus pins acks)
      (fun _ w' => High none (f.next .start) mem w' ∧ w'.master.sda = false ∧
        w'.target.sda = true)
      (i2cSdaLow pins) w := by
  refine wp_ackControlc fun w1 hmoves => ?_
  obtain rfl := h.still hmoves
  rw [Lines.write_controlc_sda]
  exact ⟨h.start hsda, rfl, (Bool.and_eq_true_iff.mp hsda).2⟩

theorem High.sdaHigh (h : High sample f mem w) (htarget : w.target.sda = true) :
    wp (ackBus pins acks)
      (fun _ w' => w'.lines.sda = true ∧
        if w.master.sda then High sample f mem w' else High none (f.next .stop) mem w')
      (i2cSdaHigh pins) w := by
  refine wp_ackControls fun w1 hmoves _ => ?_
  obtain rfl := h.still hmoves
  rw [Lines.write_controls_sda]
  exact h.release htarget

/-- Setting SCL when it is high changes nothing. -/
theorem High.sclHigh (h : High sample f mem w) :
    wp (ackBus pins acks)
      (fun _ w' => High sample f mem w' ∧ w'.master = w.master ∧ w'.target = w.target)
      (i2cSclHigh pins) w := by
  refine wp_ackControls fun w1 hmoves _ => ?_
  obtain rfl := h.still hmoves
  have hsame : (⟨w1.master.sda, true⟩ : Lines) = w1.master := Lines.ext rfl h.clock.symm
  rw [Lines.write_controls_scl, hsame]
  exact ⟨⟨h.clock, h.free, h.heard.same rfl h.lines rfl, h.memory⟩, rfl, rfl⟩

theorem High.sdaRead (h : High sample f mem w) :
    wp (ackBus pins acks) (fun result w' => result = w.lines.sda ∧ w' = w) (i2cSdaRead pins) w := by
  rintro control w' ⟨w1, hmoves, hsda, -, rfl⟩
  obtain rfl := h.still hmoves
  refine ⟨?_, rfl⟩
  rw [hsda]
  cases w'.lines.sda
  · rfl
  · exact decide_eq_true pins.sda_ne

theorem Down.load (h : Down f mem w) (address : Nat) :
    wp (ackBus pins acks) (fun value w' => value = mem address ∧ Down f mem w')
      (load address) w := by
  rintro value _ ⟨w1, hmoves, rfl, rfl⟩
  obtain ⟨hdown, -⟩ := h.moves hmoves
  exact ⟨congrFun hdown.low.memory address, hdown⟩

end Steps

/-! ### Conditions -/

/-- The bus between messages: kept by the master after a whole number of bytes, or idle. -/
def Resting (f : Framer) (mem : Memory) (w : Wire) : Prop :=
  (∃ m, f.current = some m ∧ m.bits = [] ∧ Down f mem w) ∨
    f.current = none ∧ High none f mem w ∧ w.lines.sda = true

theorem acknowledge_quiet {done : List WireMessage} {m : WireMessage} (h : m.bits.length < 8) :
    Framer.acknowledge acks ⟨done, some m⟩ = true := if_pos h

theorem acknowledge_resting (h : ∀ m ∈ f.current, m.bits = []) : f.acknowledge acks = true := by
  obtain ⟨done, _ | m⟩ := f
  · rfl
  · have hbits : m.bits = [] := h m rfl
    apply acknowledge_quiet
    rw [hbits]
    decide

theorem start_down (h : High sample f mem w) (hsda : w.lines.sda = true) :
    wp (ackBus pins acks) (fun _ w' => Down (f.next .start) mem w')
      (do i2cSdaLow pins; i2cSclLow pins) w := by
  refine wp_seq (h.sdaStart hsda) ?_
  rintro _ w1 ⟨hstarted, -, -⟩
  exact hstarted.sclLow

/-- A START from a bus between messages. -/
theorem i2cStart_resting (h : Resting f mem w) :
    wp (ackBus pins acks) (fun _ w' => Down (f.next .start) mem w') (i2cStart pins) w := by
  rcases h with ⟨m, hcurrent, hbits, hdown⟩ | ⟨-, hhigh, hsda⟩
  · have hquiet : f.acknowledge acks = true := by
      apply acknowledge_resting
      intro m' hm'
      obtain rfl : m = m' := Option.some.inj (hcurrent.symm.trans hm')
      exact hbits
    refine wp_seq hdown.sdaHigh ?_
    rintro _ w1 ⟨hdown1, hmaster1⟩
    refine wp_seq hdown1.sclHigh ?_
    rintro _ w2 ⟨hhigh2, hmaster2, htarget2⟩
    apply start_down hhigh2
    show (w2.master.sda && w2.target.sda) = true
    rw [hmaster2, hmaster1, htarget2, hquiet, Bool.and_self]
  · obtain ⟨hmaster, htarget⟩ := Bool.and_eq_true_iff.mp hsda
    refine wp_seq (hhigh.sdaHigh htarget) ?_
    rintro _ w1 ⟨hsda1, hhigh1⟩
    rw [if_pos hmaster] at hhigh1
    refine wp_seq hhigh1.sclHigh ?_
    rintro _ w2 ⟨hhigh2, hmaster2, htarget2⟩
    apply start_down hhigh2
    show (w2.master.sda && w2.target.sda) = true
    rw [hmaster2, htarget2]
    exact hsda1

/-- A STOP on a bus that the master keeps. -/
theorem i2cStop_down {m : WireMessage} (hcurrent : f.current = some m) (hbits : m.bits = [])
    (h : Down f mem w) :
    wp (ackBus pins acks) (fun _ w' => High none (f.next .stop) mem w' ∧ w'.lines.sda = true)
      (i2cStop pins) w := by
  have hquiet : f.acknowledge acks = true := by
    apply acknowledge_resting
    intro m' hm'
    obtain rfl : m = m' := Option.some.inj (hcurrent.symm.trans hm')
    exact hbits
  refine wp_seq h.sdaLow ?_
  rintro _ w1 ⟨hdown1, hmaster1⟩
  refine wp_seq hdown1.sclHigh ?_
  rintro _ w2 ⟨hhigh2, hmaster2, htarget2⟩
  refine wp_mono (hhigh2.sdaHigh (htarget2.trans hquiet)) ?_
  rintro _ w3 ⟨hsda3, hstop⟩
  rw [hmaster2, hmaster1, if_neg Bool.false_ne_true] at hstop
  exact ⟨hstop, hsda3⟩

/-- On an idle bus the same steps are a START and a STOP. -/
theorem i2cStop_idle (h : High none f mem w) (hsda : w.lines.sda = true) :
    wp (ackBus pins acks)
      (fun _ w' => High none ((f.next .start).next .stop) mem w' ∧ w'.lines.sda = true)
      (i2cStop pins) w := by
  refine wp_seq (h.sdaStart hsda) ?_
  rintro _ w1 ⟨hhigh1, hmaster1, htarget1⟩
  refine wp_seq hhigh1.sclHigh ?_
  rintro _ w2 ⟨hhigh2, hmaster2, htarget2⟩
  rw [← htarget2] at htarget1
  refine wp_mono (hhigh2.sdaHigh htarget1) ?_
  rintro _ w3 ⟨hsda3, hstop⟩
  rw [hmaster2, hmaster1, if_neg Bool.false_ne_true] at hstop
  exact ⟨hstop, hsda3⟩

theorem i2cBusIdle_idle (h : High none f mem w) (hsda : w.lines.sda = true) :
    wp (ackBus pins acks) (fun _ w' => High none f mem w' ∧ w'.lines.sda = true)
      (i2cBusIdle pins) w := by
  obtain ⟨hmaster, htarget⟩ := Bool.and_eq_true_iff.mp hsda
  refine wp_seq (h.sdaHigh htarget) ?_
  rintro _ w1 ⟨hsda1, hhigh1⟩
  rw [if_pos hmaster] at hhigh1
  refine wp_mono hhigh1.sclHigh ?_
  rintro _ w2 ⟨hhigh2, hmaster2, htarget2⟩
  refine ⟨hhigh2, ?_⟩
  show (w2.master.sda && w2.target.sda) = true
  rw [hmaster2, htarget2]
  exact hsda1

/-! ### Bytes -/

section Bytes

variable {done : List WireMessage} {m : WireMessage}

/-- A message after one more byte. -/
def WireMessage.heard (m : WireMessage) (value : Byte) (acked : Bool) : WireMessage :=
  { m with bytes := m.bytes ++ [(value, acked)], bits := [] }

theorem asked_current (done : List WireMessage) (m : WireMessage) :
    Framer.asked ⟨done, some m⟩ = (done.map fun m => m.bytes.length).sum + m.bytes.length := by
  unfold Framer.asked Framer.messages
  rw [Option.toList_some, List.map_append, List.sum_append]
  rfl

theorem asked_heard (done : List WireMessage) (m : WireMessage) (value : Byte) (acked : Bool) :
    Framer.asked ⟨done, some (m.heard value acked)⟩ = Framer.asked ⟨done, some m⟩ + 1 := by
  rw [asked_current, asked_current, WireMessage.heard, List.length_append]
  rfl

theorem i2cSendBit_down {value : Byte} {k : Nat} (hk : k < 8)
    (h : Down ⟨done, some (m.partially value k)⟩ mem w) :
    wp (ackBus pins acks)
      (fun v w' => v = value <<< (k + 1) ∧ Down ⟨done, some (m.partially value (k + 1))⟩ mem w')
      (i2cSendBit pins (value <<< k) k) w := by
  have hset : wp (ackBus pins acks)
      (fun _ w' => Down ⟨done, some (m.partially value k)⟩ mem w' ∧
        w'.master.sda = value.getMsbD k)
      (if value <<< k &&& 0x80 ≠ 0 then i2cSdaHigh pins else i2cSdaLow pins) w := by
    have hbit := writeByte_bit value hk
    cases hvalue : value.getMsbD k
    · have hzero : ¬value <<< k &&& 0x80 ≠ 0 := by
        intro hne
        rw [if_pos hne, hvalue] at hbit
        exact absurd hbit (by decide)
      rw [if_neg hzero]
      exact h.sdaLow
    · have hone : value <<< k &&& 0x80 ≠ 0 := by
        intro heq
        rw [if_neg (not_not.mpr heq), hvalue] at hbit
        exact absurd hbit (by decide)
      rw [if_pos hone]
      exact h.sdaHigh
  have hquiet : Framer.acknowledge acks ⟨done, some (m.partially value k)⟩ = true := by
    apply acknowledge_quiet
    rw [WireMessage.partially, length_bitsOf]
    exact hk
  refine wp_seq hset ?_
  rintro _ w1 ⟨hdown1, hmaster1⟩
  refine wp_seq hdown1.sclHigh ?_
  rintro _ w2 ⟨hhigh2, -, -⟩
  refine wp_seq hhigh2.sclLow ?_
  intro _ w3 hdown3
  rw [hmaster1, hquiet, Bool.and_true] at hdown3
  rw [Option.map_some, Option.map_some, Option.getD_some, Framer.next, Option.getD_some,
    m.partially_bit value hk] at hdown3
  exact ⟨by rw [BitVec.shiftLeft_add], hdown3⟩

theorem i2cSendByte_down (hbits : m.bits = []) (h : Down ⟨done, some m⟩ mem w) (value : Byte) :
    wp (ackBus pins acks) (fun _ w' => Down ⟨done, some (m.partially value 8)⟩ mem w')
      (i2cSendByte pins value) w := by
  have hloop : wp (ackBus pins acks)
      (fun v w' => v = value <<< 8 ∧ Down ⟨done, some (m.partially value 8)⟩ mem w')
      ((List.range 8).foldlM (i2cSendBit pins) value) w := by
    refine wp_foldlM_range (D := ackBus pins acks) (I := fun k v w' => v = value <<< k ∧
      Down ⟨done, some (m.partially value k)⟩ mem w') ?_ ?_
    · refine ⟨(BitVec.shiftLeft_zero value).symm, ?_⟩
      rw [WireMessage.partially_zero hbits]
      exact h
    · rintro k hk _ w1 ⟨rfl, hdown⟩
      exact i2cSendBit_down hk hdown
  refine wp_seq hloop ?_
  rintro v w1 ⟨-, hdown⟩
  exact hdown

/-- The next answer of the pattern completes a byte. -/
theorem i2cReceiveAck_down {value : Byte} (h : Down ⟨done, some (m.partially value 8)⟩ mem w) :
    wp (ackBus pins acks)
      (fun ret w' =>
        ret = (if acks (Framer.asked ⟨done, some m⟩) then i2cOk else i2cErrNack) ∧
        Down ⟨done, some (m.heard value (acks (Framer.asked ⟨done, some m⟩)))⟩ mem w')
      (i2cReceiveAck pins) w := by
  have hanswer : Framer.acknowledge acks ⟨done, some (m.partially value 8)⟩ =
      !acks (Framer.asked ⟨done, some m⟩) := by
    have hasked : Framer.asked ⟨done, some (m.partially value 8)⟩ =
        Framer.asked ⟨done, some m⟩ := by
      rw [asked_current, asked_current]
      rfl
    have hfull : ¬(m.partially value 8).bits.length < 8 := by
      rw [WireMessage.partially, length_bitsOf]
      decide
    show (if (m.partially value 8).bits.length < 8 then true else !acks _) = _
    rw [if_neg hfull, hasked]
  refine wp_seq h.sdaHigh ?_
  rintro _ w1 ⟨hdown1, hmaster1⟩
  refine wp_seq hdown1.sclHigh ?_
  rintro _ w2 ⟨hhigh2, hmaster2, htarget2⟩
  have hsda : w2.lines.sda = !acks (Framer.asked ⟨done, some m⟩) := by
    show (w2.master.sda && w2.target.sda) = _
    rw [hmaster2, hmaster1, htarget2, hanswer, Bool.true_and]
  refine wp_seq hhigh2.sdaRead ?_
  rintro nack _ ⟨rfl, rfl⟩
  refine wp_seq hhigh2.sclLow ?_
  intro _ w3 hdown3
  rw [hmaster1, hanswer, Bool.true_and] at hdown3
  rw [Option.map_some, Option.map_some, Option.getD_some, Framer.next, Option.getD_some,
    m.partially_ack, Bool.not_not] at hdown3
  refine ⟨?_, hdown3⟩
  rw [hsda]
  cases acks (Framer.asked ⟨done, some m⟩) <;> rfl

end Bytes

end CortexLabs.I2c

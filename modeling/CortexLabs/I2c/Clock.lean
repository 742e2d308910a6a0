import CortexLabs.I2c.Wire

/-! The master's steps on the wire.  While it drives SCL low nothing that happens on SDA counts;
once it lets SCL go the target settles, and what SDA is then is the next bit. -/

namespace CortexLabs.I2c

open Device Relation

variable {pins : Pins} {supply : Nat → Byte} {timeout : Nat} {bus : Mps2I2cBus} {w w' : Wire}
  {f : Framer} {sample : Option Bool} {mem : Memory}

theorem Wire.decoder_shown (w : Wire) : w.shown.decoder = w.decoder.next w.lines := by
  unfold Wire.decoder Wire.shown
  rw [List.foldl_append]
  rfl

/-- What has been heard: the lines as they are, the bit of this high phase, and the messages. -/
def Wire.Heard (w : Wire) (sample : Option Bool) (f : Framer) : Prop :=
  w.decoder = ⟨⟨w.lines, sample⟩, f⟩

theorem Wire.Heard.next (h : w.Heard sample f) {w' : Wire} (htrace : w'.trace = w.trace) :
    w'.shown.decoder = Decoder.next ⟨⟨w.lines, sample⟩, f⟩ w'.lines := by
  rw [Wire.decoder_shown, Wire.decoder, htrace, ← h]
  rfl

/-- The master drives SCL low. -/
structure Low (f : Framer) (mem : Memory) (w : Wire) : Prop where
  clock : w.master.scl = false
  heard : w.Heard none f
  memory : w.memory = mem

/-- The master has let SCL go and the target holds it. -/
structure Held (f : Framer) (mem : Memory) (w : Wire) : Prop where
  clock : w.master.scl = true
  held : w.target.scl = false
  heard : w.Heard none f
  memory : w.memory = mem

/-- SCL is high. -/
structure High (sample : Option Bool) (f : Framer) (mem : Memory) (w : Wire) : Prop where
  clock : w.master.scl = true
  free : w.target.scl = true
  heard : w.Heard sample f
  memory : w.memory = mem

/-- SCL has risen, and the target has settled. -/
structure Risen (supply : Nat → Byte) (f : Framer) (mem : Memory) (w : Wire) : Prop where
  high : High (some w.lines.sda) f mem w
  settled : w.target.sda = f.answer supply

/-! ### The lines -/

theorem Low.lines (h : Low f mem w) : w.lines.scl = false := by
  show (w.master.scl && w.target.scl) = false
  rw [h.clock, Bool.false_and]

theorem Held.lines (h : Held f mem w) : w.lines.scl = false := by
  show (w.master.scl && w.target.scl) = false
  rw [h.held, Bool.and_false]

theorem High.lines (h : High sample f mem w) : w.lines.scl = true := by
  show (w.master.scl && w.target.scl) = true
  rw [h.clock, h.free, Bool.and_self]

theorem Wire.Heard.low (h : w.Heard none f) (hlow : w.lines.scl = false) {w' : Wire}
    (htrace : w'.trace = w.trace) (hlow' : w'.lines.scl = false) : w'.shown.Heard none f := by
  show w'.shown.decoder = ⟨⟨w'.lines, none⟩, f⟩
  rw [h.next htrace]
  simp only [Decoder.next, Sampler.next, hlow, hlow']
  rfl

theorem Wire.Heard.rise (h : w.Heard none f) (hlow : w.lines.scl = false) {w' : Wire}
    (htrace : w'.trace = w.trace) (hhigh : w'.lines.scl = true) :
    w'.shown.Heard (some w'.lines.sda) f := by
  show w'.shown.decoder = ⟨⟨w'.lines, some w'.lines.sda⟩, f⟩
  rw [h.next htrace]
  simp only [Decoder.next, Sampler.next, hlow, hhigh]
  rfl

/-- SCL falls, and a bit is complete unless a START has come. -/
theorem Wire.Heard.fall (h : w.Heard sample f) (hhigh : w.lines.scl = true) {w' : Wire}
    (htrace : w'.trace = w.trace) (hlow : w'.lines.scl = false) :
    w'.shown.Heard none (((sample.map Symbol.bit).map f.next).getD f) := by
  show w'.shown.decoder = ⟨⟨w'.lines, none⟩, ((sample.map Symbol.bit).map f.next).getD f⟩
  rw [h.next htrace]
  simp only [Decoder.next, Sampler.next, hhigh, hlow]

theorem Wire.Heard.same (h : w.Heard sample f) {w' : Wire} (htrace : w'.trace = w.trace)
    (hhigh : w.lines.scl = true) (hlines : w'.lines = w.lines) : w'.shown.Heard sample f := by
  show w'.shown.decoder = ⟨⟨w'.lines, sample⟩, f⟩
  rw [h.next htrace, hlines]
  simp only [Decoder.next, Sampler.next, hhigh, if_true]
  rfl

theorem Wire.Heard.condition (h : w.Heard sample f) (hhigh : w.lines.scl = true) (w' : Wire)
    (htrace : w'.trace = w.trace) (hhigh' : w'.lines.scl = true) (sda : Bool)
    (hsda : w.lines.sda = !sda) (hsda' : w'.lines.sda = sda) :
    w'.shown.Heard none (f.next (if sda then .stop else .start)) := by
  show w'.shown.decoder = ⟨⟨w'.lines, none⟩, f.next (if sda then .stop else .start)⟩
  have hmoved : ¬ w.lines.sda = sda := by
    rw [hsda]
    cases sda <;> decide
  rw [h.next htrace]
  simp only [Decoder.next, Sampler.next, hhigh, hhigh', hsda', if_neg hmoved]
  rfl

/-! ### What the master leaves -/

theorem Low.setSda (h : Low f mem w) (sda : Bool) :
    Low f mem (w.setMaster ⟨sda, w.master.scl⟩) := by
  refine ⟨h.clock, h.heard.low h.lines rfl ?_, h.memory⟩
  show (w.master.scl && w.target.scl) = false
  rw [h.clock, Bool.false_and]

theorem High.fall (h : High sample f mem w) :
    Low (((sample.map Symbol.bit).map f.next).getD f) mem (w.setMaster ⟨w.master.sda, false⟩) :=
  ⟨rfl, h.heard.fall h.lines rfl rfl, h.memory⟩

/-- SDA falls while SCL is high: a START. -/
theorem High.start (h : High sample f mem w) (hsda : w.lines.sda = true) :
    High none (f.next .start) mem (w.setMaster ⟨false, w.master.scl⟩) := by
  have hheard : (w.setMaster ⟨false, w.master.scl⟩).Heard none (f.next .start) :=
    h.heard.condition h.lines { w with master := ⟨false, w.master.scl⟩, polls := 0 } rfl h.lines
      false hsda rfl
  exact ⟨h.clock, h.free, hheard, h.memory⟩

/-- SDA is released while SCL is high: a STOP, unless the master had released it. -/
theorem High.release (h : High sample f mem w) (htarget : w.target.sda = true) :
    (w.setMaster ⟨true, w.master.scl⟩).lines.sda = true ∧
      if w.master.sda then High sample f mem (w.setMaster ⟨true, w.master.scl⟩)
      else High none (f.next .stop) mem (w.setMaster ⟨true, w.master.scl⟩) := by
  have hhigh : (w.setMaster ⟨true, w.master.scl⟩).lines.sda = true := by
    show (true && w.target.sda) = true
    rw [htarget, Bool.and_self]
  refine ⟨hhigh, ?_⟩
  have hsda : w.lines.sda = w.master.sda := by
    show (w.master.sda && w.target.sda) = w.master.sda
    rw [htarget, Bool.and_true]
  split
  · next hmaster =>
    refine ⟨h.clock, h.free, h.heard.same rfl h.lines ?_, h.memory⟩
    exact Lines.ext (hhigh.trans (hsda.trans hmaster).symm) rfl
  · next hmaster =>
    have hheard : (w.setMaster ⟨true, w.master.scl⟩).Heard none (f.next .stop) :=
      h.heard.condition h.lines { w with master := ⟨true, w.master.scl⟩, polls := 0 } rfl
        h.lines true (hsda.trans (Bool.eq_false_iff.mpr hmaster)) hhigh
    exact ⟨h.clock, h.free, hheard, h.memory⟩

/-! ### The target's moves -/

theorem Low.move (h : Low f mem w) (hmove : TargetMove supply w w') :
    Low f mem w' ∧ w'.master = w.master := by
  have hheard : ∀ out, (w.setTarget out).Heard none f := by
    intro out
    refine h.heard.low h.lines rfl ?_
    show (w.master.scl && out.scl) = false
    rw [h.clock, Bool.false_and]
  cases hmove with
  | data sda hlow => exact ⟨⟨h.clock, hheard _, h.memory⟩, rfl⟩
  | hold hlow => exact ⟨⟨h.clock, hheard _, h.memory⟩, rfl⟩
  | letGo hheld hsettled => exact ⟨⟨h.clock, hheard _, h.memory⟩, rfl⟩

theorem Low.moves (h : Low f mem w) (hmoves : ReflTransGen (TargetMove supply) w w') :
    Low f mem w' ∧ w'.master = w.master := by
  have hstep : ∀ w w' : Wire, Low f mem w → TargetMove supply w w' →
      Low f mem w' ∧ w'.master = w.master := fun _ _ h hmove => h.move hmove
  refine run_relation (R := fun w w' => w'.master = w.master) (fun _ => rfl) ?_ hstep hmoves h
  intro w1 w2 w3 h12 h23
  exact h23.trans h12

/-- A target does nothing while SCL is high. -/
theorem High.moves (h : High sample f mem w) (hmoves : ReflTransGen (TargetMove supply) w w') :
    w' = w := by
  induction hmoves with
  | refl => rfl
  | tail _ hmove ih =>
    subst ih
    cases hmove with
    | data sda hlow => exact absurd hlow (by rw [h.lines]; decide)
    | hold hlow => exact absurd hlow (by rw [h.lines]; decide)
    | letGo hheld => exact absurd hheld (by rw [h.free]; decide)

/-- A target that holds SCL settles SDA before it lets go. -/
theorem Held.move (h : Held f mem w) (hmove : TargetMove supply w w') :
    (Held f mem w' ∧ w'.polls = w.polls ∨ Risen supply f mem w') ∧ w'.master = w.master := by
  cases hmove with
  | data sda hlow =>
    refine ⟨.inl ⟨⟨h.clock, h.held, h.heard.low h.lines rfl ?_, h.memory⟩, rfl⟩, rfl⟩
    show (w.master.scl && w.target.scl) = false
    rw [h.held, Bool.and_false]
  | hold hlow =>
    refine ⟨.inl ⟨⟨h.clock, rfl, h.heard.low h.lines rfl ?_, h.memory⟩, rfl⟩, rfl⟩
    exact Bool.and_false _
  | letGo hheld hsettled =>
    have hhigh : (w.setTarget ⟨w.target.sda, true⟩).lines.scl = true := by
      show (w.master.scl && true) = true
      rw [h.clock, Bool.and_self]
    refine ⟨.inr ⟨⟨h.clock, rfl, h.heard.rise h.lines rfl hhigh, h.memory⟩, ?_⟩, rfl⟩
    have := hsettled h.lines hhigh
    rwa [show w.decoder.framer = f from congrArg Decoder.framer h.heard] at this

theorem Held.moves (h : Held f mem w) (hmoves : ReflTransGen (TargetMove supply) w w') :
    (Held f mem w' ∧ w'.polls = w.polls ∨ Risen supply f mem w') ∧ w'.master = w.master := by
  induction hmoves with
  | refl => exact ⟨.inl ⟨h, rfl⟩, rfl⟩
  | tail _ hmove ih =>
    obtain ⟨⟨hheld, hpolls⟩ | hrisen, hmaster⟩ := ih
    · obtain ⟨hnow, hsame⟩ := hheld.move hmove
      refine ⟨?_, hsame.trans hmaster⟩
      rcases hnow with ⟨hheld', hpolls'⟩ | hrisen
      · exact .inl ⟨hheld', hpolls'.trans hpolls⟩
      · exact .inr hrisen
    · obtain rfl := hrisen.high.moves (.single hmove)
      exact ⟨.inr hrisen, hmaster⟩

/-! ### The master's steps -/

section Steps

variable {Q : Unit → Wire → Prop}

theorem wp_controls {mask : Word}
    (h : ∀ w1, ReflTransGen (TargetMove supply) w w1 →
      Settled supply w1 (w1.setMaster (w1.master.write pins (.controls mask))) →
      Q () (w1.setMaster (w1.master.write pins (.controls mask)))) :
    wp (i2cBus pins supply timeout) Q (writeControls mask) w := by
  rintro r w' ⟨w1, hmoves, rfl, hsettled⟩
  exact h w1 hmoves hsettled

theorem wp_controlc {mask : Word}
    (h : ∀ w1, ReflTransGen (TargetMove supply) w w1 →
      Q () (w1.setMaster (w1.master.write pins (.controlc mask)))) :
    wp (i2cBus pins supply timeout) Q (writeControlc mask) w := by
  rintro r w' ⟨w1, hmoves, rfl⟩
  exact h w1 hmoves

theorem Low.sdaRelease (h : Low f mem w) :
    wp (i2cBus pins supply timeout) (fun _ w' => Low f mem w' ∧ w'.master.sda = true)
      (sdaRelease pins) w := by
  refine wp_controls fun w1 hmoves _ => ?_
  rw [Lines.write_controls_sda]
  exact ⟨(h.moves hmoves).1.setSda true, rfl⟩

theorem Low.sdaDriveLow (h : Low f mem w) :
    wp (i2cBus pins supply timeout) (fun _ w' => Low f mem w' ∧ w'.master.sda = false)
      (sdaDriveLow pins) w := by
  refine wp_controlc fun w1 hmoves => ?_
  rw [Lines.write_controlc_sda]
  exact ⟨(h.moves hmoves).1.setSda false, rfl⟩

theorem Low.sclDriveLow (h : Low f mem w) :
    wp (i2cBus pins supply timeout) (fun _ w' => Low f mem w' ∧ w'.master.sda = w.master.sda)
      (sclDriveLow pins) w := by
  refine wp_controlc fun w1 hmoves => ?_
  obtain ⟨hlow, hmaster⟩ := h.moves hmoves
  rw [Lines.write_controlc_scl, ← hlow.clock]
  exact ⟨hlow.setSda _, congrArg Lines.sda hmaster⟩

theorem High.sclDriveLow (h : High sample f mem w) :
    wp (i2cBus pins supply timeout)
      (fun _ w' => Low (((sample.map Symbol.bit).map f.next).getD f) mem w' ∧
        w'.master.sda = w.master.sda)
      (sclDriveLow pins) w := by
  refine wp_controlc fun w1 hmoves => ?_
  obtain rfl := h.moves hmoves
  rw [Lines.write_controlc_scl]
  exact ⟨h.fall, rfl⟩

theorem High.sdaDriveLow (h : High sample f mem w) (hsda : w.lines.sda = true) :
    wp (i2cBus pins supply timeout) (fun _ w' => High none (f.next .start) mem w')
      (sdaDriveLow pins) w := by
  refine wp_controlc fun w1 hmoves => ?_
  obtain rfl := h.moves hmoves
  rw [Lines.write_controlc_sda]
  exact h.start hsda

theorem High.sdaRelease (h : High sample f mem w) (htarget : w.target.sda = true) :
    wp (i2cBus pins supply timeout)
      (fun _ w' => w'.lines.sda = true ∧
        if w.master.sda then High sample f mem w' else High none (f.next .stop) mem w')
      (sdaRelease pins) w := by
  refine wp_controls fun w1 hmoves _ => ?_
  obtain rfl := h.moves hmoves
  rw [Lines.write_controls_sda]
  exact h.release htarget

/-! ### Waiting for SCL -/

theorem High.look {look : Word → Bool} (h : High sample f mem w) {b : Bool}
    (hlook : ∀ control, control &&& pins.sda = (if w.lines.sda then pins.sda else 0) →
      control &&& pins.scl = pins.scl → look control = b) :
    wp (i2cBus pins supply timeout) (fun result w' => result = b ∧ w' = w)
      (do let control ← readControl; return look control) w := by
  rintro control w' ⟨w1, hmoves, hsda, hscl, hsame⟩
  obtain rfl := h.moves hmoves
  rw [if_pos h.lines] at hscl
  rw [if_neg (fun hlow => hlow.2 h.lines)] at hsame
  exact ⟨hlook control hsda hscl, hsame⟩

theorem High.sclIsHigh (h : High sample f mem w) :
    wp (i2cBus pins supply timeout) (fun result w' => result = true ∧ w' = w)
      (sclIsHigh pins) w := by
  refine h.look fun control _ hscl => ?_
  rw [hscl]
  exact decide_eq_true pins.scl_ne

theorem High.sdaIsHigh (h : High sample f mem w) :
    wp (i2cBus pins supply timeout) (fun result w' => result = w.lines.sda ∧ w' = w)
      (sdaIsHigh pins) w := by
  refine h.look fun control hsda _ => ?_
  rw [hsda]
  cases w.lines.sda
  · rfl
  · exact decide_eq_true pins.sda_ne

theorem High.busIsIdle (h : High sample f mem w) (hsda : w.lines.sda = true) :
    wp (i2cBus pins supply timeout) (fun result w' => result = true ∧ w' = w)
      (busIsIdle pins) w := by
  refine h.look fun control hcontrol hscl => ?_
  rw [hsda, if_pos rfl] at hcontrol
  rw [BitVec.and_or_distrib_left, hcontrol, hscl]
  exact decide_eq_true rfl

/-- A poll finds SCL held, if the target may still hold it, or SCL high. -/
theorem Held.sclIsHigh (h : Held f mem w) :
    wp (i2cBus pins supply timeout)
      (fun result w' => w'.master = w.master ∧
        (result = true ∧ Risen supply f mem w' ∨
          result = false ∧ Held f mem w' ∧ w'.polls = w.polls + 1 ∧ w'.polls < timeout))
      (sclIsHigh pins) w := by
  rintro control w' ⟨w1, hmoves, -, hscl, hsame⟩
  obtain ⟨⟨hheld, hpolls⟩ | hrisen, hmaster⟩ := h.moves hmoves
  · rw [if_pos ⟨hheld.clock, by rw [hheld.lines]; decide⟩] at hsame
    obtain ⟨hfew, rfl⟩ := hsame
    rw [if_neg (by rw [hheld.lines]; decide)] at hscl
    refine ⟨hmaster, .inr ⟨?_, ⟨hheld.clock, hheld.held, hheld.heard, hheld.memory⟩, ?_, hfew⟩⟩
    · rw [hscl]
      exact decide_eq_false (not_not.mpr rfl)
    · show w1.polls + 1 = w.polls + 1
      rw [hpolls]
  · rw [if_neg (fun hlow => hlow.2 hrisen.high.lines)] at hsame
    rw [if_pos hrisen.high.lines] at hscl
    subst hsame
    refine ⟨hmaster, .inl ⟨?_, hrisen⟩⟩
    rw [hscl]
    exact decide_eq_true pins.scl_ne

theorem pollScl_high (h : High sample f mem w) {n : Nat} (hn : 0 < n) :
    wp (i2cBus pins supply timeout) (fun result w' => result = mps2I2cOk ∧ w' = w)
      (pollScl pins n) w := by
  obtain ⟨n, rfl⟩ := Nat.exists_eq_succ_of_ne_zero (Nat.ne_of_gt hn)
  refine wp_seq h.sclIsHigh ?_
  rintro _ _ ⟨rfl, rfl⟩
  exact ⟨rfl, rfl⟩

/-- The polls last longer than the target may hold SCL. -/
theorem pollScl_held (h : Held f mem w) {n : Nat} (hn : w.polls + n = timeout) (hpos : 0 < n) :
    wp (i2cBus pins supply timeout)
      (fun result w' => result = mps2I2cOk ∧ Risen supply f mem w' ∧ w'.master = w.master)
      (pollScl pins n) w := by
  induction n generalizing w with
  | zero => exact absurd hpos (Nat.lt_irrefl 0)
  | succ n ih =>
    refine wp_seq h.sclIsHigh ?_
    rintro _ w' ⟨hmaster, ⟨rfl, hrisen⟩ | ⟨rfl, hheld, hpolls, hfew⟩⟩
    · exact ⟨rfl, hrisen, hmaster⟩
    · refine wp_mono (ih hheld (by omega) (by omega)) ?_
      rintro _ _ ⟨hok, hrisen, hsame⟩
      exact ⟨hok, hrisen, hsame.trans hmaster⟩

theorem High.waitSclHigh (h : High sample f mem w) (htimeout : 0 < bus.timeoutCycles.toNat) :
    wp (i2cBus pins supply timeout)
      (fun result w' => result = mps2I2cOk ∧ High sample f mem w' ∧ w'.master = w.master ∧
        w'.target = w.target)
      (waitSclHigh pins bus) w := by
  refine wp_bind.mpr (wp_controls fun w1 hmoves _ => ?_)
  obtain rfl := h.moves hmoves
  rw [Lines.write_controls_scl, ← h.clock]
  have hhigh : High sample f mem (w1.setMaster w1.master) :=
    ⟨h.clock, h.free, h.heard.same rfl h.lines rfl, h.memory⟩
  refine wp_mono (pollScl_high hhigh htimeout) ?_
  rintro _ _ ⟨rfl, rfl⟩
  exact ⟨rfl, hhigh, rfl, rfl⟩

/-- SCL rises, at once or after the target has held it, and SDA is what the two make of it. -/
theorem Low.waitSclHigh (h : Low f mem w) (hpos : 0 < timeout)
    (htimeout : bus.timeoutCycles.toNat = timeout) :
    wp (i2cBus pins supply timeout)
      (fun result w' => result = mps2I2cOk ∧ Risen supply f mem w' ∧
        w'.master.sda = w.master.sda)
      (waitSclHigh pins bus) w := by
  refine wp_bind.mpr (wp_controls fun w1 hmoves hsettled => ?_)
  obtain ⟨hlow, hmaster⟩ := h.moves hmoves
  have hsda : w1.master.sda = w.master.sda := congrArg Lines.sda hmaster
  rw [Lines.write_controls_scl] at hsettled ⊢
  rw [htimeout]
  cases hfree : w1.target.scl
  · have hheld : Held f mem (w1.setMaster ⟨w1.master.sda, true⟩) := by
      refine ⟨rfl, hfree, hlow.heard.low hlow.lines rfl ?_, hlow.memory⟩
      show (true && w1.target.scl) = false
      rw [hfree, Bool.and_false]
    refine wp_mono (pollScl_held hheld (Nat.zero_add _) hpos) ?_
    rintro _ w' ⟨hok, hrisen, hsame⟩
    exact ⟨hok, hrisen, (congrArg Lines.sda hsame).trans hsda⟩
  · have hhigh : (w1.setMaster ⟨w1.master.sda, true⟩).lines.scl = true := by
      show (true && w1.target.scl) = true
      rw [hfree, Bool.and_self]
    have hrisen : Risen supply f mem (w1.setMaster ⟨w1.master.sda, true⟩) := by
      refine ⟨⟨rfl, hfree, hlow.heard.rise hlow.lines rfl hhigh, hlow.memory⟩, ?_⟩
      have := hsettled hlow.lines hhigh
      rwa [show w1.decoder.framer = f from congrArg Decoder.framer hlow.heard] at this
    refine wp_mono (pollScl_high hrisen.high hpos) ?_
    rintro _ _ ⟨rfl, rfl⟩
    exact ⟨rfl, hrisen, hsda⟩

end Steps

end CortexLabs.I2c

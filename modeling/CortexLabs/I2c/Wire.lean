import CortexLabs.Device.Run
import CortexLabs.I2c.Decode

/-! A bus with one target.  The target answers by what the decoder has heard so far: it acknowledges,
and sends its bytes as long as they are acknowledged.  When it moves its lines is up to it, as long
as SCL is low, and it may hold SCL for a while. -/

namespace CortexLabs.I2c

open Device Relation

/-- How many bytes the target has been asked for. -/
def Framer.served (f : Framer) : Nat :=
  ((f.messages.filter WireMessage.reads).map fun m => m.data.length).sum

/-- What a target leaves on SDA for the next clock, `true` when it releases the line: it
acknowledges addresses and written bytes, and sends its bytes as long as they are acknowledged. -/
def Framer.answer (supply : Nat → Byte) (f : Framer) : Bool :=
  match f.current with
  | none => true
  | some m =>
    if m.reads then
      if m.data.any (fun byte => !byte.2) then true
      else if m.bits.length < 8 then (supply f.served).getMsbD m.bits.length
      else true
    else m.bits.length < 8

/-- A bus with one target: the outputs of both, the levels so far, the reads that have found SCL
held low since the master released it, and the memory of the master. -/
structure Wire where
  master : Lines
  target : Lines
  trace : List Lines
  polls : Nat
  memory : Memory

namespace Wire

def idle (memory : Memory) : Wire := ⟨.released, .released, [], 0, memory⟩

variable (w : Wire)

def lines : Lines := w.master.and w.target

def decoder : Decoder := w.trace.foldl Decoder.next Decoder.idle

/-- The lines are seen as they are now. -/
def shown : Wire := { w with trace := w.trace ++ [w.lines] }

def setMaster (out : Lines) : Wire := { w with master := out, polls := 0 }.shown

def setTarget (out : Lines) : Wire := { w with target := out }.shown

end Wire

/-- The target has settled SDA before SCL rises. -/
def Settled (supply : Nat → Byte) (w w' : Wire) : Prop :=
  w.lines.scl = false → w'.lines.scl = true → w.target.sda = w.decoder.framer.answer supply

/-- What a target may do by itself: move SDA and hold SCL while SCL is low, and let SCL go. -/
inductive TargetMove (supply : Nat → Byte) : Wire → Wire → Prop
  | data {w : Wire} (sda : Bool) (hlow : w.lines.scl = false) :
    TargetMove supply w (w.setTarget ⟨sda, w.target.scl⟩)
  | hold {w : Wire} (hlow : w.lines.scl = false) :
    TargetMove supply w (w.setTarget ⟨w.target.sda, false⟩)
  | letGo {w : Wire} (hheld : w.target.scl = false)
    (hsettled : Settled supply w (w.setTarget ⟨w.target.sda, true⟩)) :
    TargetMove supply w (w.setTarget ⟨w.target.sda, true⟩)

/-- What an operation of the master finds and leaves.  A read that finds SCL held low is one of
fewer than `timeout` in a row. -/
def WireAnswer (pins : Pins) (supply : Nat → Byte) (timeout : Nat) (w : Wire) :
    (o : Op) → Ans o → Wire → Prop
  | .control, control, w' =>
    control &&& pins.sda = (if w.lines.sda then pins.sda else 0) ∧
    control &&& pins.scl = (if w.lines.scl then pins.scl else 0) ∧
    if w.master.scl ∧ ¬ w.lines.scl then
      w.polls + 1 < timeout ∧ w' = { w with polls := w.polls + 1 }
    else w' = w
  | .controls mask, _, w' =>
    w' = w.setMaster (w.master.write pins (.controls mask)) ∧ Settled supply w w'
  | .controlc mask, _, w' => w' = w.setMaster (w.master.write pins (.controlc mask))
  | .load address, value, w' => value = w.memory address ∧ w' = w
  | .store address value, _, w' => w' = { w with memory := Function.update w.memory address value }

abbrev i2cBus (pins : Pins) (supply : Nat → Byte) (timeout : Nat) : Behavior Op Ans where
  State := Wire
  answer w o r w' :=
    ∃ w1, ReflTransGen (TargetMove supply) w w1 ∧ WireAnswer pins supply timeout w1 o r w'
  torn _ _ _ := False

end CortexLabs.I2c

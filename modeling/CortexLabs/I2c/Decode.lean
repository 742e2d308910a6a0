import CortexLabs.I2c.Lines
import Mathlib.Algebra.Order.Ring.Nat

/-! The bus as a listener sees it.  A decoder follows the levels of the lines: SDA that moves while
SCL is high is a START or a STOP, and its level during any other high phase of SCL is a bit; eight
bits and an acknowledge make a byte.  It drops nothing that it hears. -/

namespace CortexLabs.I2c

open Device

inductive Symbol where
  | start
  | stop
  | bit (b : Bool)
  deriving DecidableEq

/-- The last levels, and SDA as it was when SCL rose, unless a START or a STOP has come since. -/
structure Sampler where
  level : Lines
  sample : Option Bool
  deriving DecidableEq

def Sampler.next (s : Sampler) (level : Lines) : Sampler × Option Symbol :=
  match s.level.scl, level.scl with
  | false, true => (⟨level, some level.sda⟩, none)
  | true, true =>
    if s.level.sda = level.sda then (⟨level, s.sample⟩, none)
    else (⟨level, none⟩, some (if level.sda then .stop else .start))
  | true, false => (⟨level, none⟩, s.sample.map .bit)
  | false, false => (⟨level, none⟩, none)

inductive Opening where
  | none
  | start
  | repeatedStart
  deriving DecidableEq

/-- A message on the wire: how it opens, its bytes, the address first and each with whether it was
acknowledged, the bits of a byte that is not complete, and whether a STOP follows. -/
structure WireMessage where
  opening : Opening
  bytes : List (Byte × Bool)
  bits : List Bool
  stop : Bool
  deriving DecidableEq

def byteOf (bits : List Bool) : Byte :=
  bits.foldl (fun received b => received <<< 1 ||| if b then 1 else 0) 0

namespace WireMessage

def opened (opening : Opening) : WireMessage := ⟨opening, [], [], false⟩

/-- The ninth bit acknowledges the byte when it is low. -/
def bit (m : WireMessage) (b : Bool) : WireMessage :=
  if m.bits.length < 8 then { m with bits := m.bits ++ [b] }
  else { m with bytes := m.bytes ++ [(byteOf m.bits, !b)], bits := [] }

/-- The last bit of the address asks for a read. -/
def reads (m : WireMessage) : Bool :=
  match m.bytes with
  | [] => false
  | (address, _) :: _ => address.getLsbD 0

def data (m : WireMessage) : List (Byte × Bool) := m.bytes.tail

end WireMessage

/-- The messages that are over, and the one that is not. -/
structure Framer where
  done : List WireMessage
  current : Option WireMessage
  deriving DecidableEq

namespace Framer

def next (f : Framer) : Symbol → Framer
  | .start =>
    ⟨f.done ++ f.current.toList,
      some (.opened (if f.current.isSome then .repeatedStart else .start))⟩
  | .stop => ⟨f.done ++ [{ f.current.getD (.opened .none) with stop := true }], none⟩
  | .bit b => { f with current := some ((f.current.getD (.opened .none)).bit b) }

def messages (f : Framer) : List WireMessage := f.done ++ f.current.toList

end Framer

structure Decoder where
  sampler : Sampler
  framer : Framer
  deriving DecidableEq

namespace Decoder

def idle : Decoder := ⟨⟨.released, none⟩, ⟨[], none⟩⟩

def next (d : Decoder) (level : Lines) : Decoder :=
  ⟨(d.sampler.next level).1, ((d.sampler.next level).2.map d.framer.next).getD d.framer⟩

end Decoder

/-- The messages in the levels that an idle bus goes through. -/
def decode (trace : List Lines) : List WireMessage :=
  (trace.foldl Decoder.next Decoder.idle).framer.messages

/-- The moves of SDA while SCL is high, each as the level that it leads to. -/
def conditions : Lines → List Lines → List Bool
  | _, [] => []
  | previous, level :: trace =>
    (if previous.scl ∧ level.scl ∧ previous.sda ≠ level.sda then [level.sda] else []) ++
      conditions level trace

/-- The conditions of a message: its START and its STOP. -/
def WireMessage.conditions (m : WireMessage) : List Bool :=
  (if m.opening = .none then [] else [false]) ++ if m.stop then [true] else []

section Conditions

variable {f : Framer}

/-- A message that is not over has no STOP. -/
def Framer.Pending (f : Framer) : Prop := ∀ m ∈ f.current, m.stop = false

theorem WireMessage.bit_conditions (m : WireMessage) (b : Bool) :
    (m.bit b).conditions = m.conditions ∧ (m.bit b).stop = m.stop := by
  unfold WireMessage.bit
  split
  · exact ⟨rfl, rfl⟩
  · exact ⟨rfl, rfl⟩

theorem Framer.Pending.next (h : f.Pending) (symbol : Symbol) : (f.next symbol).Pending := by
  cases symbol with
  | start =>
    rintro m ⟨⟩
    rfl
  | stop => exact nofun
  | bit b =>
    rintro m ⟨⟩
    rw [(WireMessage.bit_conditions _ b).2]
    cases hcurrent : f.current with
    | none => rfl
    | some m => exact h m hcurrent

/-- A START or a STOP adds itself to the conditions, and a bit adds none. -/
theorem Framer.Pending.next_conditions (h : f.Pending) (symbol : Symbol) :
    (f.next symbol).messages.flatMap WireMessage.conditions =
      f.messages.flatMap WireMessage.conditions ++
        match symbol with | .start => [false] | .stop => [true] | .bit _ => [] := by
  unfold Framer.messages Framer.next
  cases symbol with
  | start =>
    rw [Option.toList_some, List.flatMap_append, List.flatMap_singleton]
    cases f.current <;> rfl
  | stop =>
    simp only [Option.toList_none, List.append_nil, List.flatMap_append, List.flatMap_singleton]
    cases hcurrent : f.current with
    | none => rw [Option.toList_none, List.flatMap_nil, List.append_nil]; rfl
    | some m =>
      have hstop : m.stop = false := h m hcurrent
      simp [WireMessage.conditions, hstop]
  | bit b =>
    rw [Option.toList_some, List.flatMap_append, List.flatMap_append, List.flatMap_singleton,
      (WireMessage.bit_conditions _ b).1, List.append_nil]
    cases f.current with
    | none => rfl
    | some m => rw [Option.toList_some, List.flatMap_singleton]; rfl

theorem Decoder.level_next (d : Decoder) (level : Lines) :
    (d.next level).sampler.level = level := by
  unfold Decoder.next Sampler.next
  split
  · rfl
  · split <;> rfl
  · rfl
  · rfl

theorem Decoder.framer_low {d : Decoder} {level : Lines} (h : d.sampler.level.scl = false)
    (hlow : level.scl = false) : (d.next level).framer = d.framer := by
  unfold Decoder.next Sampler.next
  rw [h, hlow]
  rfl

/-- SDA moves while SCL is high only at the conditions that are decoded. -/
theorem conditions_eq (d : Decoder) (hpending : d.framer.Pending) (trace : List Lines) :
    (trace.foldl Decoder.next d).framer.messages.flatMap WireMessage.conditions =
      d.framer.messages.flatMap WireMessage.conditions ++ conditions d.sampler.level trace := by
  induction trace generalizing d with
  | nil =>
    rw [conditions, List.append_nil]
    rfl
  | cons level trace ih =>
    have hnext : (d.next level).framer.Pending ∧
        (d.next level).framer.messages.flatMap WireMessage.conditions =
          d.framer.messages.flatMap WireMessage.conditions ++
            if d.sampler.level.scl ∧ level.scl ∧ d.sampler.level.sda ≠ level.sda then [level.sda]
            else [] := by
      unfold Decoder.next Sampler.next
      split
      · next hlow hhigh =>
        rw [if_neg (by rw [hlow]; simp), List.append_nil]
        exact ⟨hpending, rfl⟩
      · next hhigh hhigh' =>
        by_cases hsame : d.sampler.level.sda = level.sda
        · have hnone : ¬ (d.sampler.level.scl = true ∧ level.scl = true ∧
              d.sampler.level.sda ≠ level.sda) := fun h => h.2.2 hsame
          rw [if_pos hsame, if_neg hnone, List.append_nil]
          exact ⟨hpending, rfl⟩
        · have hmoved : d.sampler.level.scl = true ∧ level.scl = true ∧
              d.sampler.level.sda ≠ level.sda := ⟨hhigh, hhigh', hsame⟩
          rw [if_neg hsame, if_pos hmoved]
          cases level.sda with
          | true => exact ⟨hpending.next .stop, hpending.next_conditions .stop⟩
          | false => exact ⟨hpending.next .start, hpending.next_conditions .start⟩
      · next hhigh hlow =>
        rw [if_neg (by rw [hlow]; simp)]
        cases d.sampler.sample with
        | none => exact ⟨hpending, (List.append_nil _).symm⟩
        | some b => exact ⟨hpending.next (.bit b), hpending.next_conditions (.bit b)⟩
      · next hlow hlow' =>
        rw [if_neg (by rw [hlow]; simp), List.append_nil]
        exact ⟨hpending, rfl⟩
    rw [List.foldl_cons, ih _ hnext.1, hnext.2, conditions, d.level_next, List.append_assoc]

theorem conditions_decode (trace : List Lines) :
    conditions .released trace = (decode trace).flatMap WireMessage.conditions := by
  have hpending : Decoder.idle.framer.Pending := nofun
  exact (conditions_eq Decoder.idle hpending trace).symm

end Conditions

end CortexLabs.I2c

import CortexLabs.Device.Memory
import CortexLabs.Device.Run

/-! A subset of the Thumb instructions as assembly source writes them: lines of labels and
instructions, executed over registers, flags and a byte memory.  A position in the code is the
lines that are left, and a branch goes on after its label. -/

namespace CortexLabs.Thumb

open Device Relation

inductive Reg where
  | r0
  | r1
  | r2
  | r3
  | r4
  | r5
  | r6
  | r7
  | r8
  | r9
  | r10
  | r11
  | r12
  | sp
  | lr
  deriving DecidableEq

/-- The condition flags of the APSR. -/
structure Flags where
  n : Bool
  z : Bool
  c : Bool
  v : Bool

/-- The instructions: `ldrEq rt w` is `ldr rt, =w`, `ldrPost rt rn imm` is `ldr rt, [rn], #imm` and
`strPost` likewise, and `bl` calls a function. -/
inductive Instr (L F : Type) where
  | ldrEq (rt : Reg) (w : Word)
  | movs (rd : Reg) (imm : Byte)
  | cmp (rn rm : Reg)
  | ldrPost (rt rn : Reg) (imm : Byte)
  | strPost (rt rn : Reg) (imm : Byte)
  | b (target : L)
  | bcc (target : L)
  | bl (f : F)

inductive Line (L F : Type) where
  | label (l : L)
  | instr (i : Instr L F)

/-- The word at an address, little-endian. -/
def wordAt (m : Memory) (a : Nat) : Word :=
  (m a).setWidth 32 ||| (m (a + 1)).setWidth 32 <<< 8 ||| (m (a + 2)).setWidth 32 <<< 16 |||
    (m (a + 3)).setWidth 32 <<< 24

def bytesOf (w : Word) : Vector Byte 4 := Vector.ofFn fun i => (w >>> (8 * i.val)).setWidth 8

theorem bytesOf_wordAt (m : Memory) (a : Nat) : bytesOf (wordAt m a) = m.read a 4 := by
  have hhigh : ∀ (b : Byte) k, 8 ≤ k → b.getLsbD k = false := fun b k h => BitVec.getLsbD_of_ge b k h
  refine Vector.ext fun i hi => BitVec.eq_of_getLsbD_eq fun k hk => ?_
  obtain rfl | rfl | rfl | rfl : i = 0 ∨ i = 1 ∨ i = 2 ∨ i = 3 := by omega
  all_goals
    simp only [bytesOf, wordAt, Vector.getElem_ofFn, Memory.getElem_read, Nat.add_zero,
      BitVec.getLsbD_or, BitVec.getLsbD_setWidth, BitVec.getLsbD_shiftLeft,
      BitVec.getLsbD_ushiftRight]
    grind

theorem toNat_add_four {w : Word} {n : Nat} (hw : w.toNat = n) (hn : n + 4 < 0x100000000) :
    (w + 4).toNat = n + 4 := by
  rw [BitVec.toNat_add, hw]
  exact Nat.mod_eq_of_lt hn

structure State (L F : Type) where
  regs : Reg → Word
  flags : Flags
  mem : Memory
  rest : List (Line L F)

variable {L F : Type} [DecidableEq L]

/-- The lines after a label. -/
def after (l : L) : List (Line L F) → List (Line L F)
  | [] => []
  | .label l' :: rest => if l' = l then rest else after l rest
  | .instr _ :: rest => after l rest

/-- The flags of `x - y`. -/
def flagsOfSub (x y : Word) : Flags where
  n := (x - y).msb
  z := x == y
  c := y ≤ x
  v := x.msb != y.msb && (x - y).msb != x.msb

namespace State

variable (s : State L F)

def set (rt : Reg) (w : Word) : State L F := { s with regs := Function.update s.regs rt w }

def load (address : Word) : Word := wordAt s.mem address.toNat

def store (address w : Word) : State L F :=
  { s with mem := s.mem.write address.toNat (bytesOf w) }

end State

/-- One instruction; none at a call and at the end of the code. -/
def exec (code : List (Line L F)) (s : State L F) : Option (State L F) :=
  match s.rest with
  | [] => none
  | .label _ :: rest => some { s with rest }
  | .instr i :: rest =>
    match i with
    | .ldrEq rt w => some { s.set rt w with rest }
    | .movs rd imm =>
      let w := imm.setWidth 32
      some { s.set rd w with flags := { s.flags with n := w.msb, z := w == 0 }, rest }
    | .cmp rn rm => some { s with flags := flagsOfSub (s.regs rn) (s.regs rm), rest }
    | .ldrPost rt rn imm =>
      let address := s.regs rn
      some { (s.set rt (s.load address)).set rn (address + imm.setWidth 32) with rest }
    | .strPost rt rn imm =>
      let address := s.regs rn
      some { (s.store address (s.regs rt)).set rn (address + imm.setWidth 32) with rest }
    | .b target => some { s with rest := after target code }
    | .bcc target => some { s with rest := if s.flags.c then rest else after target code }
    | .bl _ => none

/-- Execution without calls. -/
abbrev Reaches (code : List (Line L F)) : State L F → State L F → Prop :=
  ReflTransGen fun s s' => exec code s = some s'

variable {code : List (Line L F)}

theorem exec_bcc_taken {s : State L F} {target : L} {rest : List (Line L F)}
    (hrest : s.rest = .instr (.bcc target) :: rest) (hc : s.flags.c = false) :
    exec code s = some { s with rest := after target code } := by
  simp only [exec, hrest, hc, Bool.false_eq_true, if_false]

theorem exec_bcc_passed {s : State L F} {target : L} {rest : List (Line L F)}
    (hrest : s.rest = .instr (.bcc target) :: rest) (hc : s.flags.c = true) :
    exec code s = some { s with rest } := by
  simp only [exec, hrest, hc, if_true]

/-- The carry after a comparison says that the first word is not lower. -/
theorem flagsOfSub_lower {x y : Word} (h : x.toNat < y.toNat) : (flagsOfSub x y).c = false :=
  decide_eq_false fun hle => absurd (BitVec.le_def.mp hle) (Nat.not_le.mpr h)

theorem flagsOfSub_not_lower {x y : Word} (h : y.toNat ≤ x.toNat) : (flagsOfSub x y).c = true :=
  decide_eq_true (BitVec.le_def.mpr h)

/-- An execution to a state where nothing can be executed is the only one: each step stays on it. -/
theorem Reaches.stays {s s' sf : State L F} (hf : exec code sf = none) (h : Reaches code s sf)
    (hs : exec code s = some s') : Reaches code s' sf := by
  rcases ReflTransGen.cases_head h with rfl | ⟨s1, h1, hrest⟩
  · rw [hf] at hs
    cases hs
  · rw [h1] at hs
    exact Option.some.inj hs ▸ hrest

end CortexLabs.Thumb

import Mathlib.Algebra.Order.Ring.Int
import CortexLabs.Errno

/-! The break of the C library's heap.  A pointer and an `int` are 32 bits wide, so that their sum
wraps around.  `_sbrk` compares the new break with the end of the heap and with the stack pointer, and
not with the start of the heap, below which a negative increment may take it. -/

namespace CortexLabs.Runtime

open Errno

abbrev Pointer := BitVec 32

/-- The heap that the linker lays out, from `__heap_start__` to `__heap_end__`. -/
structure Heap where
  start : Pointer
  stop : Pointer
  ordered : start.toNat ≤ stop.toNat

structure SbrkState where
  heapPtr : Pointer
  errno : Int
  deriving DecidableEq

/-- `_sbrk`, with the stack pointer at the time of the call. -/
def sbrk (heap : Heap) (s : SbrkState) (incr : BitVec 32) (sp : Pointer) : Pointer × SbrkState :=
  let prevHeapPtr := s.heapPtr
  if s.heapPtr + incr > heap.stop then (-1, { s with errno := enomem })
  else if s.heapPtr + incr > sp then (-1, { s with errno := enomem })
  else (prevHeapPtr, { s with heapPtr := s.heapPtr + incr })

/-! ### Runs -/

structure SbrkCall where
  incr : BitVec 32
  sp : Pointer

/-- Where a call would take the break, as an integer. -/
def SbrkCall.target (c : SbrkCall) (s : SbrkState) : Int := s.heapPtr.toNat + c.incr.toInt

/-- The break may be there during the call. -/
structure InRange (heap : Heap) (sp : Pointer) (addr : Int) : Prop where
  start : (heap.start.toNat : Int) ≤ addr
  stop : addr ≤ heap.stop.toNat
  stack : addr ≤ sp.toNat

/-- A call either moves the break to its target, if it may be there, and returns the old break, or
returns -1 and leaves the break. -/
structure CallRight (heap : Heap) (s : SbrkState) (c : SbrkCall) : Prop where
  moved : InRange heap c.sp (c.target s) → (sbrk heap s c.incr c.sp).1 = s.heapPtr ∧
    ((sbrk heap s c.incr c.sp).2.heapPtr.toNat : Int) = c.target s
  refused : ¬InRange heap c.sp (c.target s) → (sbrk heap s c.incr c.sp).1 = -1 ∧
    (sbrk heap s c.incr c.sp).2.heapPtr = s.heapPtr

/-- A call that does not take the break below the start of the heap or past the last address, or
whose sum is refused nevertheless. -/
def KeepsStart (heap : Heap) (s : SbrkState) (c : SbrkCall) : Prop :=
  (heap.start.toNat : Int) ≤ c.target s ∧ c.target s < 2 ^ 32 ∨
    heap.stop < s.heapPtr + c.incr ∨ c.sp < s.heapPtr + c.incr

/-- The states that calls of a kind may lead to from the start on, the stack pointer above the break
at each of them, and the stack pointer at the call that was the last to raise the break. -/
inductive SbrkRun (heap : Heap) (kind : SbrkState → SbrkCall → Prop) :
    SbrkState → Option Pointer → Prop
  | start (errno : Int) : SbrkRun heap kind ⟨heap.start, errno⟩ none
  | call {s : SbrkState} {grown : Option Pointer} {c : SbrkCall} : SbrkRun heap kind s grown →
      s.heapPtr < c.sp → kind s c → SbrkRun heap kind (sbrk heap s c.incr c.sp).2
        (if s.heapPtr < (sbrk heap s c.incr c.sp).2.heapPtr then some c.sp else grown)

/-- The break is in the heap, and not above the stack pointer at the time that it last grew. -/
structure InBounds (heap : Heap) (s : SbrkState) (grown : Option Pointer) : Prop where
  start : heap.start.toNat ≤ s.heapPtr.toNat
  stop : s.heapPtr.toNat ≤ heap.stop.toNat
  stack : ∀ sp, grown = some sp → s.heapPtr.toNat ≤ sp.toNat

section Calls

variable {heap : Heap} {s : SbrkState} {c : SbrkCall} {grown : Option Pointer}

/-- The sum of a pointer and an increment is their sum as integers, if that is an address. -/
theorem toNat_heapPtr_add (hlo : 0 ≤ c.target s) (hhi : c.target s < 2 ^ 32) :
    ((s.heapPtr + c.incr).toNat : Int) = c.target s := by
  have hp := s.heapPtr.isLt
  have hi := c.incr.isLt
  unfold SbrkCall.target at hlo hhi ⊢
  rw [BitVec.toInt_eq_toNat_cond] at hlo hhi ⊢
  rw [BitVec.toNat_add]
  split at hlo
  · next hsign =>
    rw [if_pos hsign] at hhi ⊢
    omega
  · next hsign =>
    rw [if_neg hsign] at hhi ⊢
    omega

/-- A call is refused, or moves the break to the sum. -/
theorem sbrk_cases (heap : Heap) (s : SbrkState) (c : SbrkCall) :
    ((heap.stop < s.heapPtr + c.incr ∨ c.sp < s.heapPtr + c.incr) ∧
      sbrk heap s c.incr c.sp = (-1, { s with errno := enomem })) ∨
    s.heapPtr + c.incr ≤ heap.stop ∧ s.heapPtr + c.incr ≤ c.sp ∧
      sbrk heap s c.incr c.sp = (s.heapPtr, { s with heapPtr := s.heapPtr + c.incr }) := by
  unfold sbrk
  dsimp only
  by_cases hstop : s.heapPtr + c.incr > heap.stop
  · exact .inl ⟨.inl hstop, if_pos hstop⟩
  rw [if_neg hstop]
  by_cases hsp : s.heapPtr + c.incr > c.sp
  · exact .inl ⟨.inr hsp, if_pos hsp⟩
  · exact .inr ⟨BitVec.not_lt.mp hstop, BitVec.not_lt.mp hsp, if_neg hsp⟩

/-- A sum that is refused is out of range as an integer too. -/
theorem not_inRange (h : heap.stop < s.heapPtr + c.incr ∨ c.sp < s.heapPtr + c.incr) :
    ¬InRange heap c.sp (c.target s) := by
  intro hrange
  have hlo := hrange.start
  have hhi := hrange.stop
  have hstack := hrange.stack
  have hstop := heap.stop.isLt
  have hsum := toNat_heapPtr_add (s := s) (c := c) (by omega) (by omega)
  rw [BitVec.lt_def, BitVec.lt_def] at h
  omega

theorem InBounds.callRight_iff (h : InBounds heap s grown) :
    CallRight heap s c ↔ KeepsStart heap s c := by
  have hstart := h.start
  have hstop := heap.stop.isLt
  rcases sbrk_cases heap s c with ⟨hrefused, heq⟩ | ⟨hbelow, hsp, heq⟩
  · refine iff_of_true ⟨fun hrange => absurd hrange (not_inRange hrefused), fun _ => ?_⟩
      (.inr hrefused)
    rw [heq]
    exact ⟨rfl, rfl⟩
  constructor
  · intro hright
    by_contra hkeeps
    have hout : ¬InRange heap c.sp (c.target s) := by
      intro hrange
      have hhi := hrange.stop
      exact hkeeps (.inl ⟨hrange.start, by omega⟩)
    obtain ⟨-, hsame⟩ := hright.refused hout
    -- The break has not moved, so that the increment is 0, and the break is out of range itself.
    rw [heq] at hsame
    have hzero : c.incr = 0 := by
      have hadd : s.heapPtr + c.incr = s.heapPtr + 0 := hsame.trans (BitVec.add_zero _).symm
      exact (BitVec.add_right_inj _).mp hadd
    apply hkeeps
    left
    rw [SbrkCall.target, hzero]
    have hint : (0 : BitVec 32).toInt = 0 := rfl
    have hp := s.heapPtr.isLt
    rw [hint]
    omega
  · rintro (⟨hlo, hhi⟩ | hrefused)
    · have hsum := toNat_heapPtr_add (s := s) (c := c) (by omega) hhi
      rw [BitVec.le_def] at hbelow hsp
      have hrange : InRange heap c.sp (c.target s) := ⟨hlo, by omega, by omega⟩
      refine ⟨fun _ => ?_, fun hout => absurd hrange hout⟩
      rw [heq]
      exact ⟨rfl, hsum⟩
    · rcases hrefused with hover | hover
      · exact absurd hbelow (BitVec.not_le.mpr hover)
      · exact absurd hsp (BitVec.not_le.mpr hover)

/-- A call that keeps the start of the heap keeps the break in bounds. -/
theorem InBounds.step (h : InBounds heap s grown) (hkeeps : KeepsStart heap s c) :
    InBounds heap (sbrk heap s c.incr c.sp).2
      (if s.heapPtr < (sbrk heap s c.incr c.sp).2.heapPtr then some c.sp else grown) := by
  obtain ⟨hstart, hstop, hstack⟩ := h
  rcases sbrk_cases heap s c with ⟨-, heq⟩ | ⟨hbelow, hsp, heq⟩
  · rw [heq, if_neg (BitVec.lt_irrefl _)]
    exact ⟨hstart, hstop, hstack⟩
  rw [heq]
  rcases hkeeps with ⟨hlo, hhi⟩ | hover | hover
  · have hsum := toNat_heapPtr_add (s := s) (c := c) (by omega) hhi
    refine ⟨?_, BitVec.le_def.mp hbelow, ?_⟩
    · show heap.start.toNat ≤ (s.heapPtr + c.incr).toNat
      omega
    · intro sp hgrown
      show (s.heapPtr + c.incr).toNat ≤ sp.toNat
      split at hgrown
      · obtain rfl := Option.some.inj hgrown
        exact BitVec.le_def.mp hsp
      · next hfell =>
        have hle := BitVec.le_def.mp (BitVec.not_lt.mp hfell)
        exact Nat.le_trans hle (hstack sp hgrown)
  · exact absurd hbelow (BitVec.not_le.mpr hover)
  · exact absurd hsp (BitVec.not_le.mpr hover)

theorem SbrkRun.inBounds (h : SbrkRun heap (KeepsStart heap) s grown) : InBounds heap s grown := by
  induction h with
  | start errno => exact ⟨Nat.le_refl _, heap.ordered, nofun⟩
  | call _ _ hkeeps ih => exact ih.step hkeeps

/-- In every run whose calls keep the start of the heap, the break is in bounds, and the next call is
right if and only if it keeps the start of the heap as well. -/
theorem sbrk_bounded (h : SbrkRun heap (KeepsStart heap) s grown) :
    InBounds heap s grown ∧ ∀ c, CallRight heap s c ↔ KeepsStart heap s c :=
  ⟨h.inBounds, fun _ => h.inBounds.callRight_iff⟩

end Calls

/-- A heap of 2 KiB. -/
def smallHeap : Heap := ⟨0x20000400, 0x20000c00, by decide⟩

/-- The break grows by 256 bytes and shrinks by 128. -/
theorem sbrk_bounded_shrink : InBounds smallHeap ⟨0x20000480, 0⟩ (some 0x20001c00) ∧
    ∀ c, CallRight smallHeap ⟨0x20000480, 0⟩ c ↔ KeepsStart smallHeap ⟨0x20000480, 0⟩ c := by
  have hstart : SbrkRun smallHeap (KeepsStart smallHeap) ⟨smallHeap.start, 0⟩ none := .start 0
  have hgrow := SbrkRun.call (c := ⟨0x100, 0x20001c00⟩) hstart (by decide) (.inl (by decide))
  have hgrown : sbrk smallHeap ⟨smallHeap.start, 0⟩ 0x100 0x20001c00 =
      (0x20000400, ⟨0x20000500, 0⟩) := by decide
  rw [hgrown, if_pos (by decide)] at hgrow
  have hshrink := SbrkRun.call (c := ⟨-0x80, 0x20001c00⟩) hgrow (by decide) (.inl (by decide))
  have hshrunk : sbrk smallHeap ⟨0x20000500, 0⟩ (-0x80) 0x20001c00 =
      (0x20000500, ⟨0x20000480, 0⟩) := by decide
  rw [hshrunk, if_neg (by decide)] at hshrink
  exact sbrk_bounded hshrink

/-- The first call takes the break below the heap. -/
theorem sbrk_below_start :
    SbrkRun smallHeap (fun _ _ => True) ⟨0x200003f0, 0⟩ none ∧
    ¬InBounds smallHeap ⟨0x200003f0, 0⟩ none ∧
    ¬CallRight smallHeap ⟨smallHeap.start, 0⟩ ⟨-0x10, 0x20001c00⟩ := by
  have hstart : SbrkRun smallHeap (fun _ _ => True) ⟨smallHeap.start, 0⟩ none := .start 0
  have hrun := SbrkRun.call (c := ⟨-0x10, 0x20001c00⟩) hstart (by decide) trivial
  have hmoved : sbrk smallHeap ⟨smallHeap.start, 0⟩ (-0x10) 0x20001c00 =
      (0x20000400, ⟨0x200003f0, 0⟩) := by decide
  rw [hmoved, if_neg (by decide)] at hrun
  refine ⟨hrun, fun h => absurd h.start (by decide), fun h => ?_⟩
  have hout : ¬InRange smallHeap 0x20001c00
      (SbrkCall.target ⟨-0x10, 0x20001c00⟩ ⟨smallHeap.start, 0⟩) :=
    fun hrange => absurd hrange.start (by decide)
  exact absurd (h.refused hout).1 (by decide)

end CortexLabs.Runtime

import CortexLabs.Device.Memory
import Mathlib.Logic.Function.Basic

/-! Full duplex transfers between two buffers, either of which may be missing, and which may
overlap: each byte is taken from the one when its turn comes, and the byte that comes back for it
is put in the other before the next is taken. -/

namespace CortexLabs.Device

/-- The byte that is sent in turn `index`: `filler` when there is no buffer. -/
def taken (filler : Byte) (tx : Option Nat) (m : Memory) (index : Nat) : Byte :=
  match tx with
  | some start => m (start + index)
  | none => filler

/-- The memory when the byte that came back in turn `index` is put away. -/
def kept (rx : Option Nat) (m : Memory) (index : Nat) (r : Byte) : Memory :=
  match rx with
  | some start => Function.update m (start + index) r
  | none => m

/-- From a memory, the bytes sent, the bytes that came back, and the memory they leave. -/
inductive Exchanged (filler : Byte) (tx rx : Option Nat) (m : Memory) :
    List Byte → List Byte → Memory → Prop
  | nil : Exchanged filler tx rx m [] [] m
  | snoc {sent received : List Byte} {m' : Memory} (r : Byte) :
      Exchanged filler tx rx m sent received m' →
      Exchanged filler tx rx m (sent ++ [taken filler tx m' sent.length]) (received ++ [r])
        (kept rx m' sent.length r)

namespace Exchanged

variable {filler : Byte} {tx rx : Option Nat} {m m' : Memory} {sent received : List Byte}

theorem length_eq (h : Exchanged filler tx rx m sent received m') :
    received.length = sent.length := by
  induction h with
  | nil => rfl
  | snoc r _ ih => rw [List.length_append, List.length_append, ih, List.length_singleton,
      List.length_singleton]

/-- What came back is in the buffer. -/
theorem bytes_eq {start : Nat} (h : Exchanged filler tx (some start) m sent received m') :
    m'.bytes start received.length = received := by
  induction h with
  | nil => rfl
  | @snoc sent received m' r h ih =>
    have hlen := h.length_eq
    rw [List.length_append, List.length_singleton, Memory.bytes_succ, kept, ← hlen]
    congr 1
    · rw [Memory.bytes_congr (m := m'), ih]
      intro i hi
      rw [Function.update_of_ne (by omega)]
    · rw [Function.update_self]

/-- A byte that no turn puts anything in is as it was. -/
theorem outside (h : Exchanged filler tx rx m sent received m') {a : Nat}
    (ha : ∀ start, rx = some start → ∀ i < sent.length, start + i ≠ a) : m' a = m a := by
  induction h with
  | nil => rfl
  | @snoc sent received m' r h ih =>
    rw [List.length_append, List.length_singleton] at ha
    have hrest : m' a = m a := ih fun start hrx i hi => ha start hrx i (by omega)
    cases rx with
    | none => exact hrest
    | some start =>
      have hne := ha start rfl sent.length (by omega)
      rw [kept, Function.update_of_ne (Ne.symm hne), hrest]

/-- When no byte that came back is put where one is still to be sent from, what is sent is what the
buffer held. -/
theorem sent_eq (h : Exchanged filler tx rx m sent received m')
    (hapart : ∀ a b, tx = some a → rx = some b → ∀ i < sent.length, ∀ j < i, b + j ≠ a + i) :
    sent = (List.range sent.length).map (taken filler tx m) := by
  induction h with
  | nil => rfl
  | @snoc sent received m' r h ih =>
    rw [List.length_append, List.length_singleton] at hapart ⊢
    rw [List.range_succ, List.map_append,
      ← ih fun a b htx hrx i hi j hj => hapart a b htx hrx i (by omega) j hj]
    congr 1
    cases tx with
    | none => rfl
    | some a =>
      have hsame : m' (a + sent.length) = m (a + sent.length) :=
        h.outside fun b hrx i hi => hapart a b rfl hrx sent.length (by omega) i hi
      rw [List.map_singleton, taken, taken, hsame]

end Exchanged

/-! ### Echoes -/

/-- The bytes that `n` turns send when each comes back as it was sent, and the memory they leave. -/
def echoed (filler : Byte) (tx rx : Option Nat) (m : Memory) : Nat → List Byte × Memory
  | 0 => ([], m)
  | n + 1 =>
    let (sent, m') := echoed filler tx rx m n
    (sent ++ [taken filler tx m' n], kept rx m' n (taken filler tx m' n))

variable {filler : Byte} {tx rx : Option Nat} {m m' : Memory} {sent received stale : List Byte}

theorem echoed_succ (filler : Byte) (tx rx : Option Nat) (m : Memory) (n : Nat) :
    echoed filler tx rx m (n + 1) =
      ((echoed filler tx rx m n).1 ++ [taken filler tx (echoed filler tx rx m n).2 n],
        kept rx (echoed filler tx rx m n).2 n (taken filler tx (echoed filler tx rx m n).2 n)) :=
  rfl

theorem length_echoed (filler : Byte) (tx rx : Option Nat) (m : Memory) (n : Nat) :
    (echoed filler tx rx m n).1.length = n := by
  induction n with
  | zero => rfl
  | succ n ih => rw [echoed_succ, List.length_append, ih, List.length_singleton]

theorem Exchanged.echoed_eq (h : Exchanged filler tx rx m sent received m')
    (hsame : received = sent) : echoed filler tx rx m sent.length = (sent, m') := by
  induction h with
  | nil => rfl
  | @snoc sent received m' r h ih =>
    obtain ⟨hrest, hlast⟩ := List.append_inj hsame h.length_eq
    have hr : r = taken filler tx m' sent.length := by injection hlast
    rw [List.length_append, List.length_singleton, echoed_succ, ih hrest, hr]

theorem exchanged_echoed (filler : Byte) (tx rx : Option Nat) (m : Memory) (n : Nat) :
    Exchanged filler tx rx m (echoed filler tx rx m n).1 (echoed filler tx rx m n).1
      (echoed filler tx rx m n).2 := by
  induction n with
  | zero => exact .nil
  | succ n ih =>
    have hsnoc := ih.snoc (taken filler tx (echoed filler tx rx m n).2 n)
    rw [length_echoed] at hsnoc
    exact hsnoc

theorem take_of_append_singleton {b c : Byte} {n : Nat} (hreceived : received.length = n)
    (hsent : sent.length = n) (h : received ++ [c] = (stale ++ (sent ++ [b])).take (n + 1)) :
    received = (stale ++ sent).take n := by
  have htake : (received ++ [c]).take n = ((stale ++ (sent ++ [b])).take (n + 1)).take n := by
    rw [h]
  have hlen : n ≤ (stale ++ sent).length := by
    rw [List.length_append]
    omega
  rwa [List.take_left' hreceived, List.take_take, Nat.min_eq_left (Nat.le_succ n),
    ← List.append_assoc, List.take_append_of_le_length hlen] at htake

/-- When what comes back is what was left over from before and then what is sent, in order, it is
what is sent exactly if the bytes of an echo begin with the bytes left over and then themselves. -/
theorem Exchanged.echo_iff (h : Exchanged filler tx rx m sent received m')
    (hfifo : received = (stale ++ sent).take sent.length) :
    received = sent ↔ (stale ++ (echoed filler tx rx m sent.length).1).take sent.length =
      (echoed filler tx rx m sent.length).1 := by
  constructor
  · intro hsame
    rw [h.echoed_eq hsame, ← hfifo, hsame]
  · intro hecho
    induction h with
    | nil => rfl
    | @snoc sent received m' r h ih =>
      rw [List.length_append, List.length_singleton] at hecho hfifo
      rw [echoed_succ] at hecho
      have hrest : received = sent :=
        ih (take_of_append_singleton h.length_eq rfl hfifo)
          (take_of_append_singleton (length_echoed ..) (length_echoed ..) hecho.symm).symm
      rw [h.echoed_eq hrest] at hecho
      exact hfifo.trans hecho

end CortexLabs.Device

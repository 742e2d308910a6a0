import CortexLabs.Uart.Driver
import CortexLabs.Device.Monitor

/-! What can be observed of the driver, and what its clients rely on: a session starts with a
successful `uart_rx_enable` and ends with its `UART_RX_DISABLED`; in between, the driver holds the
buffers that it has accepted and not released, in the order in which it accepted them. -/

namespace CortexLabs.Uart

open Device

/-- A buffer that the driver has accepted. -/
structure Span where
  buf : Nat
  len : Nat
  deriving DecidableEq

namespace Span

def Contains (s : Span) (a : Nat) : Prop := s.buf ≤ a ∧ a < s.buf + s.len

def Disjoint (s s' : Span) : Prop := s.buf + s.len ≤ s'.buf ∨ s'.buf + s'.len ≤ s.buf

end Span

/-- The successful calls of the API, the events with their callback and the bytes of their span
when they are emitted, and what the interrupt service routine reads and stores. -/
inductive Observation where
  | enabled (buf : Nat) (len : Nat)
  | supplied (buf : Nat) (len : Nat)
  | stopRequested
  | event (callback : Nat) (evt : UartEvent) (bytes : List Byte)
  | stateRead (v : Word)
  | dataRead (v : Word)
  | stored (address : Nat) (b : Byte)

/-- What an event may announce of the buffers that are held. -/
def Announces (held : List Span) : UartEvent → Prop
  | .rxBufRequest => True
  | .rxRdy buf offset len => ∃ h rest, held = h :: rest ∧ buf = h.buf ∧ offset + len ≤ h.len
  | .rxBufReleased buf => ∃ h rest, held = h :: rest ∧ buf = h.buf
  | .rxStopped _ buf offset len =>
    ∃ h rest, held = h :: rest ∧ buf = h.buf ∧ offset + len ≤ h.len
  | .rxDisabled => held = []

/-- The buffers held, oldest first, while a session is open. -/
def ownership : Monitor (Option (List Span)) Observation where
  start := none
  next
    | _, .enabled buf len => some [⟨buf, len⟩]
    | some held, .supplied buf len => some (held ++ [⟨buf, len⟩])
    | some held, .event _ (.rxBufReleased _) _ => some held.tail
    | some _, .event _ .rxDisabled _ => none
    | s, _ => s
  allowed
    | s, .enabled _ _ => s = none
    | s, .supplied buf len => ∃ held, s = some held ∧ ∀ h ∈ held, h.Disjoint ⟨buf, len⟩
    | s, .event callback evt _ => callback ≠ null ∧ ∃ held, s = some held ∧ Announces held evt
    | s, .stored address _ => ∃ h rest, s = some (h :: rest) ∧ h.Contains address
    | _, _ => True

/-- The bytes delivered by `UART_RX_RDY` events, and the bytes read from the data register: all
have been delivered when a session is closed. -/
def delivery : Monitor (List Byte × List Byte) Observation where
  start := ([], [])
  next
    | (delivered, read), .event _ (.rxRdy _ _ _) bytes => (delivered ++ bytes, read)
    | (delivered, read), .dataRead v => (delivered, read ++ [(v &&& dataMask).setWidth 8])
    | s, _ => s
  allowed
    | (delivered, read), .event _ .rxDisabled _ => delivered = read
    | _, _ => True

def Observation.accepted : Observation → Option Nat
  | .enabled buf _ => some buf
  | .supplied buf _ => some buf
  | _ => none

def Observation.released : Observation → Option Nat
  | .event _ (.rxBufReleased buf) _ => some buf
  | _ => none

def Observation.closes : Observation → Bool
  | .event _ .rxDisabled _ => true
  | _ => false

def accepted (t : List Observation) : List Nat := t.filterMap (·.accepted)

def released (t : List Observation) : List Nat := t.filterMap (·.released)

/-- One observation within a session accounts for the buffer that it accepts or releases. -/
theorem ownership_next {held : List Span} {o : Observation}
    (h : ownership.allowed (some held) o) (ho : o.closes = false) :
    ∃ held', ownership.next (some held) o = some held' ∧
      held.map (·.buf) ++ accepted [o] = released [o] ++ held'.map (·.buf) := by
  cases o with
  | enabled buf len => cases h
  | supplied buf len => exact ⟨held ++ [⟨buf, len⟩], rfl, by simp [accepted, released,
      Observation.accepted, Observation.released]⟩
  | event callback evt bytes =>
    obtain ⟨-, held1, heq, hann⟩ := h
    obtain rfl := Option.some.inj heq
    cases evt with
    | rxBufReleased buf =>
      obtain ⟨h1, rest, rfl, rfl⟩ := hann
      exact ⟨rest, rfl, by simp [accepted, released, Observation.accepted,
        Observation.released]⟩
    | rxDisabled => cases ho
    | rxBufRequest | rxRdy | rxStopped =>
      exact ⟨held, rfl, by simp [accepted, released, Observation.accepted,
        Observation.released]⟩
  | stopRequested | stateRead | dataRead | stored =>
    exact ⟨held, rfl, by simp [accepted, released, Observation.accepted,
      Observation.released]⟩

/-- Within a session, the buffers accepted are those released and those still held, in order. -/
theorem ownership_session {t mid : List Observation} {held : List Span}
    (h : ownership.Conforms (t ++ mid)) (ht : ownership.after t = some held)
    (hmid : ∀ o ∈ mid, o.closes = false) : ∃ held',
      ownership.after (t ++ mid) = some held' ∧
      held.map (·.buf) ++ accepted mid = released mid ++ held'.map (·.buf) := by
  induction mid using List.reverseRecOn with
  | nil => exact ⟨held, by rwa [List.append_nil], by simp [accepted, released]⟩
  | append_singleton mid o ih =>
    rw [← List.append_assoc] at h ⊢
    obtain ⟨hpre, ho⟩ := Monitor.conforms_snoc.mp h
    obtain ⟨held1, hafter, heq⟩ := ih hpre fun o ho => hmid o (List.mem_append_left _ ho)
    rw [hafter] at ho
    obtain ⟨held2, hnext, hone⟩ :=
      ownership_next ho (hmid o (List.mem_append_right _ (List.mem_singleton_self o)))
    refine ⟨held2, by rw [Monitor.after_snoc, hafter, hnext], ?_⟩
    have hsplit : ∀ f : Observation → Option Nat,
        (mid ++ [o]).filterMap f = mid.filterMap f ++ [o].filterMap f := fun _ =>
      List.filterMap_append
    rw [accepted, released, hsplit, hsplit, ← List.append_assoc, List.append_assoc (mid.filterMap _)]
    rw [accepted, released] at heq hone
    rw [heq, List.append_assoc, hone]

/-- The buffers of a conforming trace that are held together are disjoint. -/
theorem ownership_disjoint {t : List Observation} (h : ownership.Conforms t) {held : List Span}
    (ht : ownership.after t = some held) : held.Pairwise Span.Disjoint := by
  suffices hall : ∀ held, ownership.after t = some held → held.Pairwise Span.Disjoint from
    hall held ht
  refine h.invariant (I := fun s => ∀ held, s = some held → held.Pairwise Span.Disjoint) nofun ?_
  intro s o hs ho held' hnext
  cases o with
  | enabled buf len =>
    obtain rfl := Option.some.inj hnext
    exact List.pairwise_singleton _ _
  | supplied buf len =>
    obtain ⟨held, rfl, hdis⟩ := ho
    obtain rfl := Option.some.inj hnext
    refine List.pairwise_append.mpr ⟨hs held rfl, List.pairwise_singleton _ _, fun a ha b hb => ?_⟩
    rw [List.mem_singleton.mp hb]
    exact hdis a ha
  | event callback evt bytes =>
    obtain ⟨-, held, rfl, -⟩ := ho
    cases evt with
    | rxBufReleased buf =>
      obtain rfl := Option.some.inj hnext
      exact (hs held rfl).sublist (List.tail_sublist held)
    | rxDisabled => cases hnext
    | rxBufRequest | rxRdy | rxStopped => exact hs held' hnext
  | stopRequested | stateRead | dataRead | stored =>
    cases s with
    | none => cases hnext
    | some held => exact hs held' hnext

end CortexLabs.Uart

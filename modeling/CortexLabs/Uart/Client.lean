import CortexLabs.Uart.Session
import CortexLabs.Device.Run
import Mathlib.Logic.Function.Basic

/-! The driver among its clients.  Threads call the API between interrupts, and a callback may call
it during one, any number of times and with any arguments; clients may also write to memory, at
the addresses that `mayWrite` allows them. -/

namespace CortexLabs.Uart

open Device Relation

/-- Memory, and what has been observed so far. -/
structure Env where
  memory : Memory
  trace : List Observation

namespace Env

variable (e : Env)

def record (os : List Observation) : Env := { e with trace := e.trace ++ os }

@[simp] theorem record_memory (os : List Observation) : (e.record os).memory = e.memory := rfl

@[simp] theorem record_trace (os : List Observation) :
    (e.record os).trace = e.trace ++ os := rfl

@[simp] theorem record_nil : e.record [] = e := by
  rw [record, List.append_nil]

end Env

/-- The bytes of the span that an event carries. -/
def UartEvent.bytes (m : Memory) : UartEvent → List Byte
  | .rxRdy buf offset len => m.bytes (buf + offset) len
  | .rxStopped _ buf offset len => m.bytes (buf + offset) len
  | _ => []

inductive ApiCall where
  | callbackSet (callback userData : Nat)
  | rxEnable (buf : Nat) (len : Nat) (timeout : Int)
  | rxBufRsp (buf : Nat) (len : Nat)
  | rxDisable

namespace ApiCall

def run (d : Driver) : ApiCall → Int × Driver
  | callbackSet callback userData => lab20UartCallbackSet d callback userData
  | rxEnable buf len timeout => lab20UartRxEnable d buf len timeout
  | rxBufRsp buf len => lab20UartRxBufRsp d buf len
  | rxDisable => lab20UartRxDisable d

/-- What a call that returns 0 shows. -/
def observed : ApiCall → List Observation
  | callbackSet _ _ => []
  | rxEnable buf len _ => [.enabled buf len]
  | rxBufRsp buf len => [.supplied buf len]
  | rxDisable => [.stopRequested]

/-- A call, as the driver and an observer see it. -/
def perform (c : ApiCall) (s : Driver × Env) : Driver × Env :=
  ((c.run s.1).2, if (c.run s.1).1 = 0 then s.2.record c.observed else s.2)

end ApiCall

/-- One thing that a client does. -/
inductive ClientStep (mayWrite : Env → Nat → Prop) : Driver × Env → Driver × Env → Prop
  | call (c : ApiCall) (s : Driver × Env) : ClientStep mayWrite s (c.perform s)
  | write {d : Driver} {e : Env} {m : Memory} : (∀ a, m a ≠ e.memory a → mayWrite e a) →
      ClientStep mayWrite (d, e) (d, { e with memory := m })

abbrev ClientSteps (mayWrite : Env → Nat → Prop) : Driver × Env → Driver × Env → Prop :=
  ReflTransGen (ClientStep mayWrite)

/-- What surrounds the interrupt service routine: registers that read as anything, memory, and
clients that answer an event with any steps of theirs. -/
abbrev client (mayWrite : Env → Nat → Prop) : Behavior Op Ans where
  State := Env
  answer e
    | .readState, v, e' => e' = e.record [.stateRead v]
    | .readData, v, e' => e' = e.record [.dataRead v]
    | .store address b, _, e' =>
      e' = ⟨Function.update e.memory address b, e.trace ++ [.stored address b]⟩
    | .call callback _ evt _ d, d', e' =>
      ClientSteps mayWrite (d, e.record [.event callback evt (evt.bytes e.memory)]) (d', e')
  torn _ _ _ := False

/-- The driver when its interrupt is taken. -/
def Driver.taken (d : Driver) : Driver := { d with pending := false }

/-- An interrupt, or a step of a thread. -/
inductive Step (mayWrite : Env → Nat → Prop) : Driver × Env → Driver × Env → Prop
  | isr {dev : Nat} {d d' : Driver} {e e' : Env} {t : List (Event (client mayWrite))} :
      Exec (client mayWrite) (lab20UartIsr dev d.taken) e t (some d') e' →
      Step mayWrite (d, e) (d', e')
  | thread {s s' : Driver × Env} : ClientStep mayWrite s s' → Step mayWrite s s'

def Env.start (m : Memory) : Env := ⟨m, []⟩

inductive Effect (mayWrite : Env → Nat → Prop) : Driver × Env → Driver × Env → Prop
  | quiet {d : Driver} {e e' : Env} : e'.trace = e.trace →
      (∀ a, e'.memory a ≠ e.memory a → mayWrite e a) → Effect mayWrite (d, e) (d, e')
  | callbackSet {d : Driver} {e : Env} {callback userData : Nat} : d.state = .idle →
      Effect mayWrite (d, e) ({ d with callback, userData }, e)
  | enable {d : Driver} {e : Env} {buf : Nat} {len : Nat} : d.state = .idle →
      d.callback ≠ null → buf ≠ null → 0 < len →
      Effect mayWrite (d, e) (d.enable buf len, e.record [.enabled buf len])
  | supply {d : Driver} {e : Env} {buf : Nat} {len : Nat} : d.state = .active →
      d.nextBuf = null → buf ≠ null → 0 < len →
      Span.Disjoint ⟨d.currentBuf, d.currentLen⟩ ⟨buf, len⟩ →
      Effect mayWrite (d, e) ({ d with nextBuf := buf, nextLen := len, requestOutstanding := false },
        e.record [.supplied buf len])
  | stop {d : Driver} {e : Env} : d.state = .active →
      Effect mayWrite (d, e) (d.stop, e.record [.stopRequested])

theorem disjoint_of_not_overlap {a b : Nat} {aLen bLen : Nat}
    (h : buffersOverlap a aLen b bLen = false) : Span.Disjoint ⟨b, bLen⟩ ⟨a, aLen⟩ := by
  unfold buffersOverlap at h
  unfold Span.Disjoint
  dsimp only
  split at h
  · have := of_decide_eq_false h
    omega
  · have := of_decide_eq_false h
    omega

theorem Effect.failed {mayWrite : Env → Nat → Prop} {c : ApiCall} {d : Driver} {e : Env} {rc : Int}
    (h : c.run d = (rc, d)) (hrc : rc ≠ 0) : Effect mayWrite (d, e) (c.perform (d, e)) := by
  rw [ApiCall.perform, h, if_neg hrc]
  exact .quiet rfl fun a ha => absurd rfl ha

theorem Effect.succeeded {mayWrite : Env → Nat → Prop} {c : ApiCall} {d d' : Driver} {e : Env}
    (h : c.run d = (0, d')) (hd : Effect mayWrite (d, e) (d', e.record c.observed)) :
    Effect mayWrite (d, e) (c.perform (d, e)) := by
  rw [ApiCall.perform, h, if_pos rfl]
  exact hd

theorem ClientStep.effect {mayWrite : Env → Nat → Prop} {s s' : Driver × Env}
    (h : ClientStep mayWrite s s') : Effect mayWrite s s' := by
  cases h with
  | write hm => exact .quiet rfl hm
  | call c s =>
    obtain ⟨d, e⟩ := s
    cases c with
    | callbackSet callback userData =>
      by_cases hbusy : d.state ≠ .idle ∨ d.inCallback = true
      · exact .failed (if_pos hbusy) (by decide)
      · refine .succeeded (if_neg hbusy) ?_
        rw [ApiCall.observed, Env.record_nil]
        exact .callbackSet (by simpa using fun hi => hbusy (.inl hi))
    | rxEnable buf len timeout =>
      by_cases hargs : buf = null ∨ len = 0
      · exact .failed (if_pos hargs) (by decide)
      by_cases htime : timeout ≠ sysForeverUs
      · exact .failed ((if_neg hargs).trans (if_pos htime)) (by decide)
      by_cases hbusy : d.state ≠ .idle ∨ d.callback = null
      · refine .failed ((if_neg hargs).trans ((if_neg htime).trans (if_pos hbusy))) ?_
        split <;> decide
      · refine .succeeded ((if_neg hargs).trans ((if_neg htime).trans (if_neg hbusy))) ?_
        rw [not_or] at hargs hbusy
        exact .enable (not_not.mp hbusy.1) hbusy.2 hargs.1 (Nat.pos_of_ne_zero hargs.2)
    | rxBufRsp buf len =>
      by_cases hargs : buf = null ∨ len = 0
      · exact .failed (if_pos hargs) (by decide)
      by_cases hactive : d.state ≠ .active
      · exact .failed ((if_neg hargs).trans (if_pos hactive)) (by decide)
      by_cases hbusy : d.nextBuf ≠ null ∨ (!d.requestOutstanding) = true
      · exact .failed ((if_neg hargs).trans ((if_neg hactive).trans (if_pos hbusy))) (by decide)
      by_cases hover : buffersOverlap buf len d.currentBuf d.currentLen = true
      · exact .failed ((if_neg hargs).trans ((if_neg hactive).trans ((if_neg hbusy).trans
          (if_pos hover)))) (by decide)
      · refine .succeeded ((if_neg hargs).trans ((if_neg hactive).trans ((if_neg hbusy).trans
          (if_neg hover)))) ?_
        rw [not_or] at hargs hbusy
        exact .supply (not_not.mp hactive) (not_not.mp hbusy.1) hargs.1
          (Nat.pos_of_ne_zero hargs.2) (disjoint_of_not_overlap (by simpa using hover))
    | rxDisable =>
      cases hs : d.state with
      | idle => exact .failed (if_pos hs) (by decide)
      | stopping =>
        have hne : d.state ≠ .idle := by simp [hs]
        exact .failed ((if_neg hne).trans (if_pos hs)) (by decide)
      | active =>
        have hne : d.state ≠ .idle := by simp [hs]
        have hne' : d.state ≠ .stopping := by simp [hs]
        exact .succeeded ((if_neg hne).trans (if_neg hne')) (.stop hs)

section Rules

variable {mayWrite : Env → Nat → Prop} {α : Type}
  {Q : List (Event (client mayWrite)) → α → Env → Prop}
  {C : List (Event (client mayWrite)) → Env → Prop} {t : List (Event (client mayWrite))} {e : Env}

theorem safe_readState {f : Word → IsrProgram α}
    (h : ∀ v t, Safe (client mayWrite) Q C (f v) t (e.record [.stateRead v])) :
    Safe (client mayWrite) Q C (readState >>= f) t e := by
  refine ⟨nofun, ?_⟩
  rintro v _ rfl
  exact h v _

theorem safe_receive {address : Nat} {f : Unit → IsrProgram α} {b : Word → Byte}
    (h : ∀ v t, Safe (client mayWrite) Q C (f ()) t
      ⟨Function.update e.memory address (b v), e.trace ++ [.dataRead v] ++
        [.stored address (b v)]⟩) :
    Safe (client mayWrite) Q C (readData >>= fun v => store address (b v) >>= f) t e := by
  refine ⟨nofun, ?_⟩
  rintro v _ rfl
  refine ⟨nofun, ?_⟩
  rintro _ _ rfl
  exact h v _

/-- An event is safe when what follows is, after any steps of the clients. -/
theorem safe_emit {dev : Nat} {d : Driver} {evt : UartEvent} {f : Driver → IsrProgram α}
    (h : ∀ d' e' t, ClientSteps mayWrite ({ d with inCallback := true },
        e.record [.event d.callback evt (evt.bytes e.memory)]) (d', e') →
      Safe (client mayWrite) Q C (f { d' with inCallback := false }) t e') :
    Safe (client mayWrite) Q C (lab20UartEmit dev d evt >>= f) t e :=
  ⟨nofun, fun d' e' hc => h d' e' _ hc⟩

end Rules

end CortexLabs.Uart

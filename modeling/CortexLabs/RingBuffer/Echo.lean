import CortexLabs.RingBuffer.Interleaving

/-! The echo program over the ring buffer.  The receive interrupt pushes the bytes that it reads,
and the main loop pops them and sends them by polling.  Wherever interrupts come, what is sent is
what was accepted, in order, `rx_overflow` tells whether a byte was dropped, and once interrupts
stay away the main loop catches up. -/

namespace CortexLabs.RingBuffer

open Device Relation

/-! ### The program -/

/-- `CM3DS_MPS2_UART_STATE_TXBF_Msk` -/
abbrev txbf : Word := 1

/-- Where the main loop is in `uart_putc`: outside, before a read of `STATE` or before the store to
`DATA`. -/
inductive Putc where
  | idle
  | polling (c : Byte)
  | storing (c : Byte)

/-- The ring buffer and the pop in progress, `uart_putc`, `rx_overflow`, the bytes that the handler
has read from `DATA` and those that the main loop has stored to it. -/
structure Echo where
  system : System
  putc : Putc
  rxOverflow : Bool
  received : List Byte
  sent : List Byte

/-- The bytes that `rb_push` has accepted. -/
abbrev Echo.accepted (e : Echo) : List Byte := e.system.shared.accepted

/-- `UART0_Handler`, when it reads `data` from `DATA`. -/
def uart0Handler (data : Word) (e : Echo) : Echo :=
  let c : Byte := data.setWidth 8 &&& 0xff
  { e with
    system := { e.system with shared := e.system.shared.push c }
    rxOverflow := if e.system.shared.pushOk c then e.rxOverflow else true
    received := e.received ++ [c] }

/-- An access of the main loop, or its call of `rb_pop`; `state` is what it reads from `STATE`. -/
inductive MainStep (tailFirst : Bool) (e : Echo) : Echo → Prop
  | call {s : System} : e.putc = .idle → Step tailFirst e.system .called s →
      MainStep tailFirst e { e with system := s }
  | access {s : System} : e.putc = .idle → Step tailFirst e.system .accessed s →
      MainStep tailFirst e { e with system := s }
  | empty {s : System} : e.putc = .idle → Step tailFirst e.system (.popped none) s →
      MainStep tailFirst e { e with system := s }
  | took {s : System} {c : Byte} : e.putc = .idle → Step tailFirst e.system (.popped (some c)) s →
      MainStep tailFirst e { e with system := s, putc := .polling c }
  | poll {c : Byte} (state : Word) : e.putc = .polling c →
      MainStep tailFirst e
        { e with putc := if state &&& txbf ≠ 0 then .polling c else .storing c }
  | store {c : Byte} : e.putc = .storing c →
      MainStep tailFirst e { e with putc := .idle, sent := e.sent ++ [c] }

inductive EchoStep (tailFirst : Bool) (e : Echo) : Echo → Prop
  | handler (data : Word) : EchoStep tailFirst e (uart0Handler data e)
  | main {e' : Echo} : MainStep tailFirst e e' → EchoStep tailFirst e e'

/-- `main` after `rb_init`, with the interrupt enabled.  The reset handler of this platform clears
no memory, so `rx_overflow` is what it is. -/
def Echo.start (rb : Ringbuffer) (rxOverflow : Bool) : Echo :=
  ⟨System.start rb, .idle, rxOverflow, [], []⟩

/-! ### What is sent -/

def Putc.inHand : Putc → List Byte
  | .idle => []
  | .polling c => [c]
  | .storing c => [c]

/-- The bytes sent and the one in hand are those that pops have returned, and `rx_overflow` was set
from the start or tells that not all bytes were accepted. -/
structure Echo.Inv (overflow0 : Bool) (e : Echo) : Prop where
  system : e.system.Inv
  sent : e.sent ++ e.putc.inHand = e.system.shared.returned
  accepted : e.accepted.Sublist e.received
  overflow : e.rxOverflow = true ↔ overflow0 = true ∨ e.accepted ≠ e.received

section Runs

variable {tailFirst overflow0 : Bool} {e e' : Echo}

/-- A byte that finds 63 in the buffer is dropped, and `rx_overflow` is set. -/
theorem uart0Handler_full (h : Holds e.system.shared) (data : Word)
    (hfull : e.system.shared.count = 63) :
    (uart0Handler data e).accepted = e.accepted ∧ (uart0Handler data e).rxOverflow = true := by
  have hok := (pushOk_iff (c := data.setWidth 8 &&& 0xff) h).mpr hfull
  have hrefused := ne_true_of_eq_false hok
  exact ⟨if_neg hrefused, if_neg hrefused⟩

/-- Any other byte is accepted, and `rx_overflow` stays. -/
theorem uart0Handler_room (h : Holds e.system.shared) (data : Word)
    (hroom : e.system.shared.count ≠ 63) :
    (uart0Handler data e).accepted = e.accepted ++ [data.setWidth 8] ∧
    (uart0Handler data e).rxOverflow = e.rxOverflow := by
  have hok : e.system.shared.pushOk (data.setWidth 8 &&& 0xff) = true :=
    eq_true_of_ne_false (mt (pushOk_iff h).mp hroom)
  have hmask : data.setWidth 8 &&& 0xff = data.setWidth 8 := BitVec.and_allOnes
  refine ⟨?_, if_pos hok⟩
  rw [← hmask]
  exact if_pos hok

theorem Echo.Inv.handler (h : e.Inv overflow0) (data : Word) :
    (uart0Handler data e).Inv overflow0 := by
  have hsystem : (uart0Handler data e).system.Inv := h.system.step (@Step.push false _ _)
  have hreceived : (uart0Handler data e).received = e.received ++ [data.setWidth 8] :=
    congrArg (fun c => e.received ++ [c]) BitVec.and_allOnes
  by_cases hfull : e.system.shared.count = 63
  · obtain ⟨haccepted, hoverflow⟩ := uart0Handler_full h.system.holds data hfull
    refine ⟨hsystem, h.sent, ?_, ?_⟩
    · rw [haccepted, hreceived]
      exact h.accepted.trans (List.sublist_append_left _ _)
    · rw [haccepted, hreceived]
      refine iff_of_true hoverflow (.inr fun heq => ?_)
      have hlen := h.accepted.length_le
      rw [heq, List.length_append, List.length_singleton] at hlen
      omega
  · obtain ⟨haccepted, hoverflow⟩ := uart0Handler_room h.system.holds data hfull
    refine ⟨hsystem, h.sent, ?_, ?_⟩
    · rw [haccepted, hreceived]
      exact h.accepted.append_right _
    · rw [haccepted, hreceived, hoverflow, h.overflow, ne_eq, ne_eq, List.append_left_inj]

theorem Echo.Inv.main (h : e.Inv overflow0) (hs : MainStep tailFirst e e') :
    e'.Inv overflow0 ∧ e'.accepted = e.accepted ∧ e'.received = e.received := by
  obtain ⟨⟨shared, pop⟩, putc, rxOverflow, received, sent⟩ := e
  obtain ⟨hsystem, hsent, haccepted, hoverflow⟩ := h
  cases hs with
  | call hputc hstep =>
    have hnext := hsystem.step hstep
    cases hstep
    exact ⟨⟨hnext, hsent, haccepted, hoverflow⟩, rfl, rfl⟩
  | access hputc hstep =>
    have hnext := hsystem.step hstep
    cases hstep
    exact ⟨⟨hnext, hsent, haccepted, hoverflow⟩, rfl, rfl⟩
  | empty hputc hstep =>
    have hnext := hsystem.step hstep
    cases hstep
    refine ⟨⟨hnext, ?_, haccepted, hoverflow⟩, rfl, rfl⟩
    exact hsent.trans (List.append_nil _).symm
  | @took s c hputc hstep =>
    have hnext := hsystem.step hstep
    obtain rfl : putc = .idle := hputc
    have hreturned : sent = shared.returned := (List.append_nil _).symm.trans hsent
    cases hstep
    refine ⟨⟨hnext, ?_, haccepted, hoverflow⟩, rfl, rfl⟩
    exact congrArg (· ++ [c]) hreturned
  | @poll c state hputc =>
    obtain rfl : putc = .polling c := hputc
    refine ⟨⟨hsystem, ?_, haccepted, hoverflow⟩, rfl, rfl⟩
    dsimp only
    split
    · exact hsent
    · exact hsent
  | @store c hputc =>
    obtain rfl : putc = .storing c := hputc
    exact ⟨⟨hsystem, (List.append_nil _).trans hsent, haccepted, hoverflow⟩, rfl, rfl⟩

abbrev EchoReaches (tailFirst : Bool) : Echo → Echo → Prop := ReflTransGen (EchoStep tailFirst)

/-- Runs of the main loop alone. -/
abbrev MainRuns (tailFirst : Bool) : Echo → Echo → Prop := ReflTransGen (MainStep tailFirst)

theorem Echo.Inv.reaches (h : e.Inv overflow0) (hrun : EchoReaches tailFirst e e') :
    e'.Inv overflow0 := by
  refine run_invariant (fun s s' h hs => ?_) hrun h
  cases hs with
  | handler data => exact h.handler data
  | main hs => exact (h.main hs).1

theorem Echo.Inv.start (rb : Ringbuffer) (overflow0 : Bool) :
    (Echo.start rb overflow0).Inv overflow0 :=
  ⟨System.Inv.start rb, rfl, List.Sublist.refl _, by simp [Echo.start, System.start]⟩

theorem Echo.Inv.main_runs (h : e.Inv overflow0) (hrun : MainRuns tailFirst e e') :
    e'.Inv overflow0 ∧ e'.accepted = e.accepted ∧ e'.received = e.received := by
  induction hrun with
  | refl => exact ⟨h, rfl, rfl⟩
  | tail _ hs ih =>
    obtain ⟨hmid, haccepted, hreceived⟩ := ih
    obtain ⟨hnext, haccepted', hreceived'⟩ := hmid.main hs
    exact ⟨hnext, haccepted'.trans haccepted, hreceived'.trans hreceived⟩

/-! ### Catching up -/

/-- The main loop after a pop. -/
def Putc.after : Option Byte → Putc
  | none => .idle
  | some c => .polling c

/-- Without interrupts the main loop completes the pop in progress. -/
theorem pop_completes {p : RbProgram (Option Byte)} {s : Shared} (hp : ∃ o k, p = .call o k)
    (rxOverflow : Bool) (received sent : List Byte) :
    MainRuns tailFirst ⟨⟨s, some p⟩, .idle, rxOverflow, received, sent⟩
      ⟨⟨(p.run Shared.access s).2.popped (p.run Shared.access s).1, none⟩,
        .after (p.run Shared.access s).1, rxOverflow, received, sent⟩ := by
  induction p generalizing s with
  | ret a =>
    obtain ⟨o, k, h⟩ := hp
    cases h
  | call o k ih =>
    rw [Program.run_call]
    cases hk : k (s.access o).1 with
    | ret r =>
      cases r with
      | none => exact .single (.empty rfl (.pop hk))
      | some c => exact .single (.took rfl (.pop hk))
    | call o' k' =>
      have hrest := ih (s.access o).1 (s := (s.access o).2) ⟨o', k', hk⟩
      rw [hk] at hrest
      exact .head (.access rfl (.access hk)) hrest

/-- With a byte in the buffer and no interrupts, a pop returns one. -/
theorem rbPop_run {s : Shared} (h : Holds s) (hsome : 0 < s.count) :
    ∃ c, ((rbPop tailFirst).run Shared.access s).1 = some c := by
  have hne : (s.rb.head == s.rb.tail) = false := by
    refine beq_false_of_ne fun heq => ?_
    rw [h.empty_iff.mp heq] at hsome
    exact Nat.lt_irrefl 0 hsome
  have hempty : ((rbEmpty tailFirst).run Shared.access s).1 = false := by
    cases tailFirst with
    | false => exact hne
    | true => exact hne
  rw [rbPop, Program.bind_eq, Program.run_bind, hempty]
  exact ⟨_, rfl⟩

/-- The main loop is before its next call of `rb_pop`. -/
def Echo.Resting (e : Echo) : Prop := e.putc = .idle ∧ e.system.pop = none

theorem polling_sends (c : Byte) (system : System) (rxOverflow : Bool)
    (received sent : List Byte) :
    MainRuns tailFirst ⟨system, .polling c, rxOverflow, received, sent⟩
      ⟨system, .idle, rxOverflow, received, sent ++ [c]⟩ :=
  .head (.poll 0 rfl) (.single (.store rfl))

/-- The main loop finishes what it is at. -/
theorem Echo.Inv.settles (h : e.Inv overflow0) :
    ∃ e', MainRuns tailFirst e e' ∧ e'.Resting := by
  obtain ⟨⟨shared, pop⟩, putc, rxOverflow, received, sent⟩ := e
  have hpop : ∀ sent, ∃ e',
      MainRuns tailFirst ⟨⟨shared, pop⟩, .idle, rxOverflow, received, sent⟩ e' ∧ e'.Resting := by
    intro sent
    cases hp : pop with
    | none => exact ⟨_, .refl, rfl, rfl⟩
    | some p =>
      have hrun := @pop_completes tailFirst p shared (h.system.pop p hp).1 rxOverflow received sent
      cases hr : (p.run Shared.access shared).1 with
      | none =>
        rw [hr] at hrun
        exact ⟨_, hrun, rfl, rfl⟩
      | some c =>
        rw [hr] at hrun
        exact ⟨_, hrun.trans (polling_sends c _ _ _ _), rfl, rfl⟩
  cases putc with
  | idle => exact hpop sent
  | polling c =>
    obtain ⟨e', hrun, hrest⟩ := hpop (sent ++ [c])
    exact ⟨e', (polling_sends c _ _ _ _).trans hrun, hrest⟩
  | storing c =>
    obtain ⟨e', hrun, hrest⟩ := hpop (sent ++ [c])
    exact ⟨e', .head (.store rfl) hrun, hrest⟩

/-- A turn of the main loop sends a byte when one is in the buffer. -/
theorem Echo.Inv.sends (h : e.Inv overflow0) (hrest : e.Resting)
    (hsome : 0 < e.system.shared.count) :
    ∃ e', MainRuns tailFirst e e' ∧ e'.Resting ∧ e'.sent.length = e.sent.length + 1 := by
  obtain ⟨⟨shared, pop⟩, putc, rxOverflow, received, sent⟩ := e
  obtain ⟨hputc, hnone⟩ := hrest
  obtain rfl : putc = .idle := hputc
  obtain rfl : pop = none := hnone
  obtain ⟨c, hc⟩ := @rbPop_run tailFirst _ (h.system.holds.checked none) hsome
  have hrun := @pop_completes tailFirst _ { shared with checked := none } (rbPop_call tailFirst)
    rxOverflow received sent
  rw [hc] at hrun
  refine ⟨_, .head (.call rfl .call) (hrun.trans (polling_sends c _ _ _ _)), ⟨rfl, rfl⟩, ?_⟩
  exact List.length_append

theorem Echo.Inv.drains (h : e.Inv overflow0) (hrest : e.Resting) :
    ∃ e', MainRuns tailFirst e e' ∧ e'.sent = e.accepted := by
  have hsent := h.sent
  rw [hrest.1, Putc.inHand, List.append_nil] at hsent
  induction hn : e.accepted.length - e.sent.length generalizing e with
  | zero =>
    have hle : e.system.shared.returned.length ≤ e.accepted.length :=
      h.system.holds.order.length_le
    have hlen : e.system.shared.returned.length = e.accepted.length := by
      rw [hsent] at hn
      omega
    exact ⟨e, .refl, hsent.trans (h.system.holds.order.eq_of_length hlen)⟩
  | succ n ih =>
    have hsome : 0 < e.system.shared.count := by
      show 0 < e.accepted.length - e.system.shared.returned.length
      rw [← hsent]
      omega
    obtain ⟨e1, hrun, hrest1, hlen⟩ := @Echo.Inv.sends tailFirst _ _ h hrest hsome
    obtain ⟨h1, haccepted, -⟩ := h.main_runs hrun
    have hsent1 := h1.sent
    rw [hrest1.1, Putc.inHand, List.append_nil] at hsent1
    obtain ⟨e', hrun', hdone⟩ := ih h1 hrest1 hsent1 (by rw [haccepted, hlen]; omega)
    exact ⟨e', hrun.trans hrun', hdone.trans haccepted⟩

/-- With the interrupt away, the main loop sends all that has been accepted. -/
theorem Echo.Inv.catches_up (h : e.Inv overflow0) :
    ∃ e', MainRuns tailFirst e e' ∧ e'.sent = e.accepted := by
  obtain ⟨e1, hrun1, hrest⟩ := @Echo.Inv.settles tailFirst _ _ h
  obtain ⟨h1, haccepted, -⟩ := h.main_runs hrun1
  obtain ⟨e', hrun, hsent⟩ := @Echo.Inv.drains tailFirst _ _ h1 hrest
  exact ⟨e', hrun1.trans hrun, hsent.trans haccepted⟩

/-- Wherever interrupts come and whatever `STATE` reads: what is sent is a prefix of what was
accepted.  A byte that is received is dropped exactly when it finds 63 in the buffer, which sets
`rx_overflow`, and no byte is while fewer than 63 of those accepted are to be sent.  `rx_overflow`
tells whether one was dropped, and once interrupts stay away, the main loop sends all that was
accepted. -/
theorem echo_in_order {rb : Ringbuffer}
    (hrun : EchoReaches tailFirst (Echo.start rb overflow0) e) :
    e.sent <+: e.accepted ∧ e.accepted.Sublist e.received ∧
    e.accepted.length ≤ e.sent.length + 64 ∧
    (e.rxOverflow = true ↔ overflow0 = true ∨ e.accepted ≠ e.received) ∧
    (∀ data, e.system.shared.count = 63 →
      (uart0Handler data e).accepted = e.accepted ∧ (uart0Handler data e).rxOverflow = true) ∧
    (∀ data, e.system.shared.count ≠ 63 →
      (uart0Handler data e).accepted = e.accepted ++ [data.setWidth 8] ∧
      (uart0Handler data e).rxOverflow = e.rxOverflow) ∧
    (e.accepted.length < e.sent.length + 63 → e.system.shared.count ≠ 63) ∧
    ∃ e', MainRuns tailFirst e e' ∧ e'.sent = e.accepted ∧ e'.received = e.received := by
  have h := (Echo.Inv.start rb overflow0).reaches hrun
  have hreturned := congrArg List.length h.sent
  have hinHand : e.putc.inHand.length ≤ 1 := by
    cases e.putc with
    | idle => exact Nat.zero_le 1
    | polling c => exact Nat.le_refl 1
    | storing c => exact Nat.le_refl 1
  rw [List.length_append] at hreturned
  refine ⟨?_, h.accepted, ?_, h.overflow, uart0Handler_full h.system.holds,
    uart0Handler_room h.system.holds, fun hfew => ?_, ?_⟩
  · exact (h.sent ▸ List.prefix_append _ _).trans h.system.holds.order
  · have hroom := h.system.holds.room
    show e.system.shared.accepted.length ≤ _
    omega
  · change e.system.shared.accepted.length < _ at hfew
    rw [Shared.count]
    omega
  · obtain ⟨e', hmain, hsent⟩ := @Echo.Inv.catches_up tailFirst _ _ h
    exact ⟨e', hmain, hsent, (h.main_runs hmain).2.2⟩

end Runs

/-- A byte received, and one more while the main loop pops it: both are sent back. -/
theorem echo_in_order_one : ∃ e e',
    EchoReaches false (Echo.start ⟨fun _ => 0, 9, 9⟩ false) e ∧ MainRuns false e e' ∧
    e.received = [7, 8] ∧ e'.sent = [7, 8] := by
  have hfirst : EchoReaches false (Echo.start ⟨fun _ => 0, 9, 9⟩ false) _ :=
    .single (.handler 0x107)
  have hcall := hfirst.tail (.main (.call rfl .call))
  have hread := hcall.tail (.main (.access rfl (.access rfl)))
  have hrun := hread.tail (.handler 0x108)
  obtain ⟨-, -, -, -, -, -, -, e', hmain, hsent, -⟩ := echo_in_order hrun
  exact ⟨_, e', hrun, hmain, rfl, hsent⟩

end CortexLabs.RingBuffer

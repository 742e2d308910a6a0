import CortexLabs.I2c.AckBus
import CortexLabs.I2c.RoundTrip
import Mathlib.Data.List.Forall2

/-! The framing of a transfer.  Its STARTs open messages whose arguments are valid, its STOPs close
what is open, and an error leaves the bus idle.  A message that is refused ends with a STOP in any
case, and on a bus that is idle the steps of a STOP begin with a START. -/

namespace CortexLabs.I2c

open Device

/-! ### Conditions in a trace -/

/-- Whether a transaction is open after some conditions, unless a STOP has come in none. -/
def openAfter : Bool → List Bool → Option Bool
  | isOpen, [] => some isOpen
  | _, false :: rest => openAfter true rest
  | true, true :: rest => openAfter false rest
  | false, true :: _ => none

theorem openAfter_messages {ms : List WireMessage} (h : ∀ m ∈ ms, m.opening ≠ .none)
    (isOpen : Bool) : openAfter isOpen (ms.flatMap WireMessage.conditions) =
      some ((ms.getLast?.map fun m => !m.stop).getD isOpen) := by
  induction ms generalizing isOpen with
  | nil => rfl
  | cons m ms ih =>
    have hopen : m.conditions = false :: if m.stop then [true] else [] := by
      rw [WireMessage.conditions, if_neg (h m List.mem_cons_self)]
      rfl
    have hrest := ih fun m' hm' => h m' (List.mem_cons_of_mem _ hm')
    have hlast : ((m :: ms).getLast?.map fun m => !m.stop).getD isOpen =
        (ms.getLast?.map fun m => !m.stop).getD (!m.stop) := by
      rw [List.getLast?_cons]
      cases ms.getLast? <;> rfl
    rw [List.flatMap_cons, hopen, hlast, ← hrest]
    cases m.stop <;> rfl

theorem count_starts {ms : List WireMessage} (h : ∀ m ∈ ms, m.opening ≠ .none) :
    (ms.flatMap WireMessage.conditions).count false = ms.length := by
  induction ms with
  | nil => rfl
  | cons m ms ih =>
    have hone : m.conditions.count false = 1 := by
      rw [WireMessage.conditions, if_neg (h m List.mem_cons_self)]
      cases m.stop <;> rfl
    rw [List.flatMap_cons, List.count_append, hone,
      ih fun m' hm' => h m' (List.mem_cons_of_mem _ hm'), List.length_cons, Nat.add_comm]

theorem Wire.Heard.decode {w : Wire} {sample : Option Bool} {f : Framer}
    (h : w.Heard sample f) : I2c.decode w.trace = f.messages := by
  show w.decoder.framer.messages = f.messages
  rw [h]

/-! ### What is claimed of a transfer -/

/-- The arguments of a message are valid. -/
structure Proper (first : Bool) (msg : I2cMsg) : Prop where
  buf : msg.buf ≠ none
  len : msg.len ≠ 0
  restart : first = true ∨ msg.hasRestart = true

def Admitted (msgs : List I2cMsg) : Prop :=
  ∀ pre msg post, msgs = pre ++ msg :: post → Proper pre.isEmpty msg

/-- A message on the wire begins with a START and the address byte. -/
structure Opens (targetAddr : Byte) (msg : I2cMsg) (m : WireMessage) : Prop where
  opening : m.opening ≠ .none
  address : ∃ acked rest, m.bytes = (addressByte targetAddr msg.isRead, acked) :: rest

/-- Each START opens one of the first messages, whose arguments are valid; each STOP ends a
transaction that is open; and after an error no transaction is open and the bus is idle. -/
structure Framed (targetAddr : Byte) (msgs : List I2cMsg) (ret : Int) (w : Wire) : Prop where
  starts : ∃ opened rest, msgs = opened ++ rest ∧ Admitted opened ∧
    List.Forall₂ (Opens targetAddr) opened (decode w.trace) ∧
    (conditions .released w.trace).count false = opened.length
  stops : openAfter false (conditions .released w.trace) ≠ none
  closed : ret ≠ i2cOk → w.lines = .released ∧
    openAfter false (conditions .released w.trace) = some false

/-- All bytes of the messages are written and acknowledged. -/
structure Sent (acks : Nat → Bool) (msgs : List I2cMsg) : Prop where
  admitted : Admitted msgs
  writes : ∀ msg ∈ msgs, msg.isRead = false
  acked : ∀ k < (msgs.map fun msg => msg.len + 1).sum, acks k = true

/-- No transaction is open after the messages. -/
def Closed (msgs : List I2cMsg) : Prop := ∀ last ∈ msgs.getLast?, last.hasStop = true

/-- The transfer comes to a message with invalid arguments while no transaction is open. -/
def Breaks (acks : Nat → Bool) (msgs : List I2cMsg) : Prop :=
  ∃ pre msg post, msgs = pre ++ msg :: post ∧ Sent acks pre ∧ Closed pre ∧
    ¬Proper pre.isEmpty msg

section Lists

variable {acks : Nat → Bool} {targetAddr : Byte} {msgs pre post : List I2cMsg} {msg : I2cMsg}

theorem admitted_nil : Admitted [] := by
  intro pre msg post hnil
  exact absurd hnil.symm (List.append_ne_nil_of_right_ne_nil _ (List.cons_ne_nil _ _))

theorem Admitted.snoc (h : Admitted pre) (hmsg : Proper pre.isEmpty msg) :
    Admitted (pre ++ [msg]) := by
  intro pre' msg' post' heq
  rcases List.append_eq_append_iff.mp heq with ⟨as, rfl, has⟩ | ⟨bs, rfl, hbs⟩
  · cases as with
    | nil =>
      obtain ⟨rfl, -⟩ := List.cons_eq_cons.mp has
      rw [List.append_nil]
      exact hmsg
    | cons a as =>
      have hlen := congrArg List.length has
      simp at hlen
  · cases bs with
    | nil =>
      obtain ⟨rfl, -⟩ := List.cons_eq_cons.mp hbs
      rw [List.append_nil] at hmsg
      exact hmsg
    | cons b bs =>
      obtain ⟨rfl, -⟩ := List.cons_eq_cons.mp hbs
      exact h pre' msg' bs rfl

theorem closed_snoc : Closed (pre ++ [msg]) ↔ msg.hasStop = true := by
  unfold Closed
  rw [List.getLast?_concat]
  constructor
  · intro h
    exact h msg rfl
  · intro h last hlast
    obtain rfl := Option.some.inj hlast
    exact h

theorem sum_snoc (pre : List I2cMsg) (msg : I2cMsg) (post : List I2cMsg) :
    ((pre ++ msg :: post).map fun msg => msg.len + 1).sum =
      (pre.map fun msg => msg.len + 1).sum + (msg.len + 1) +
        (post.map fun msg => msg.len + 1).sum := by
  rw [List.map_append, List.sum_append, List.map_cons, List.sum_cons]
  omega

theorem Sent.snoc (h : Sent acks pre) (hproper : Proper pre.isEmpty msg)
    (hwrite : msg.isRead = false)
    (hacked : ∀ j < msg.len + 1, acks ((pre.map fun msg => msg.len + 1).sum + j) = true) :
    Sent acks (pre ++ [msg]) := by
  refine ⟨h.admitted.snoc hproper, fun m hm => ?_, fun k hk => ?_⟩
  · rcases List.mem_append.mp hm with hm | hm
    · exact h.writes m hm
    · rw [List.mem_singleton.mp hm]
      exact hwrite
  · rw [sum_snoc, List.map_nil, List.sum_nil, Nat.add_zero] at hk
    by_cases hbefore : k < (pre.map fun msg => msg.len + 1).sum
    · exact h.acked k hbefore
    · obtain ⟨j, rfl⟩ := Nat.exists_eq_add_of_le (Nat.not_lt.mp hbefore)
      exact hacked j (Nat.lt_of_add_lt_add_left hk)

/-- The transfer does not break at a message before `msg`, at `msg`, or after it. -/
theorem not_breaks (hpre : Admitted pre) (hsame : Closed pre → Proper pre.isEmpty msg)
    (hlater : ∀ more, ¬Sent acks (pre ++ msg :: more)) : ¬Breaks acks (pre ++ msg :: post) := by
  rintro ⟨pre', msg', post', heq, hsent, hclosed, himproper⟩
  rcases List.append_eq_append_iff.mp heq with ⟨as, rfl, has⟩ | ⟨bs, rfl, hbs⟩
  · cases as with
    | nil =>
      obtain ⟨rfl, -⟩ := List.cons_eq_cons.mp has
      rw [List.append_nil] at hclosed himproper
      exact himproper (hsame hclosed)
    | cons a as =>
      obtain ⟨rfl, -⟩ := List.cons_eq_cons.mp has
      exact hlater as hsent
  · cases bs with
    | nil =>
      obtain ⟨rfl, -⟩ := List.cons_eq_cons.mp hbs
      rw [List.append_nil] at hsame
      exact himproper (hsame hclosed)
    | cons b bs =>
      obtain ⟨rfl, -⟩ := List.cons_eq_cons.mp hbs
      exact himproper (hpre pre' msg' bs rfl)

theorem Admitted.not_breaks (h : Admitted msgs) : ¬Breaks acks msgs := by
  rintro ⟨pre, msg, post, rfl, -, -, himproper⟩
  exact himproper (h pre msg post rfl)

end Lists

/-! ### Messages -/

/-- The next `n` answers of the pattern from the `k`-th on acknowledge. -/
def Acked (acks : Nat → Bool) (k n : Nat) : Prop := ∀ j < n, acks (k + j) = true

section Messages

variable {pins : Pins} {acks : Nat → Bool} {w : Wire} {f : Framer} {mem : Memory}
  {targetAddr : Byte} {msg : I2cMsg} {ms : List WireMessage} {m : WireMessage} {k n : Nat}

theorem acked_zero : Acked acks k 0 := fun _ hj => absurd hj (Nat.not_lt_zero _)

theorem acked_succ_last : Acked acks k (n + 1) ↔ Acked acks k n ∧ acks (k + n) = true := by
  constructor
  · intro h
    exact ⟨fun j hj => h j (Nat.lt_succ_of_lt hj), h n (Nat.lt_succ_self n)⟩
  · rintro ⟨hacked, hlast⟩ j hj
    rcases Nat.lt_succ_iff_lt_or_eq.mp hj with hj | rfl
    · exact hacked j hj
    · exact hlast

theorem acked_succ : Acked acks k (n + 1) ↔ acks k = true ∧ Acked acks (k + 1) n := by
  constructor
  · intro h
    refine ⟨h 0 (Nat.zero_lt_succ n), fun j hj => ?_⟩
    rw [Nat.add_right_comm]
    exact h (j + 1) (Nat.succ_lt_succ hj)
  · rintro ⟨hfirst, hrest⟩ j hj
    cases j with
    | zero => exact hfirst
    | succ j =>
      rw [← Nat.add_assoc, Nat.add_right_comm]
      exact hrest j (Nat.lt_of_succ_lt_succ hj)

theorem Opens.stopped (h : Opens targetAddr msg m) :
    Opens targetAddr msg { m with stop := true } := ⟨h.opening, h.address⟩

theorem asked_bytes (ms : List WireMessage) (m : WireMessage) (bytes : List (Byte × Bool)) :
    Framer.asked ⟨ms, some { m with bytes := m.bytes ++ bytes }⟩ =
      Framer.asked ⟨ms, some m⟩ + bytes.length := by
  rw [asked_current, asked_current, List.length_append, Nat.add_assoc]

/-- The address byte and its answer. -/
theorem i2cSendAddress_down (h7 : targetAddr ≤ 0x7f) (hbits : m.bits = []) (isRead : Bool)
    (h : Down ⟨ms, some m⟩ mem w) :
    wp (ackBus pins acks)
      (fun ret w' => ret = (if acks (Framer.asked ⟨ms, some m⟩) then i2cOk else i2cErrNack) ∧
        Down ⟨ms, some (m.heard (addressByte targetAddr isRead)
          (acks (Framer.asked ⟨ms, some m⟩)))⟩ mem w')
      (i2cSendAddress pins targetAddr isRead) w := by
  rw [i2cSendAddress, if_neg (BitVec.not_lt.mpr h7), addressByte_eq]
  refine wp_seq (i2cSendByte_down hbits h _) ?_
  intro _ w1 hdown
  exact i2cReceiveAck_down hdown

/-- A byte of the buffer and its answer. -/
theorem i2cWriteNext_down (hbits : m.bits = []) (h : Down ⟨ms, some m⟩ mem w) (buf index : Nat) :
    wp (ackBus pins acks)
      (fun r w' => r.1 = (if acks (Framer.asked ⟨ms, some m⟩) then i2cOk else i2cErrNack) ∧
        ∃ value, Down ⟨ms, some (m.heard value (acks (Framer.asked ⟨ms, some m⟩)))⟩ mem w')
      (i2cWriteNext pins buf () index) w := by
  refine wp_seq (h.load (buf + index)) ?_
  rintro value w1 ⟨-, hdown1⟩
  refine wp_seq (i2cSendByte_down hbits hdown1 value) ?_
  intro _ w2 hdown2
  refine wp_seq (i2cReceiveAck_down hdown2) ?_
  rintro ret w3 ⟨hret, hdown3⟩
  exact ⟨hret, value, hdown3⟩

/-- The bytes of a message, up to the first that is not acknowledged. -/
theorem i2cWriteMessage_down (hbits : m.bits = []) (hbuf : msg.buf ≠ none) (hlen : msg.len ≠ 0)
    (h : Down ⟨ms, some m⟩ mem w) :
    wp (ackBus pins acks)
      (fun ret w' => ∃ bytes, Down ⟨ms, some { m with bytes := m.bytes ++ bytes }⟩ mem w' ∧
        (ret = i2cOk ↔ Acked acks (Framer.asked ⟨ms, some m⟩) msg.len) ∧
        (ret = i2cOk → bytes.length = msg.len))
      (i2cWriteMessage pins msg) w := by
  obtain ⟨buf, hsome⟩ := Option.ne_none_iff_exists'.mp hbuf
  have hloop : wp (ackBus pins acks)
      (fun r w' => ∃ bytes, Down ⟨ms, some { m with bytes := m.bytes ++ bytes }⟩ mem w' ∧
        (r.1 = i2cOk ↔ Acked acks (Framer.asked ⟨ms, some m⟩) msg.len) ∧
        (r.1 = i2cOk → bytes.length = msg.len))
      (forEachM (i2cWriteNext pins buf) () (List.range msg.len)) w := by
    refine wp_forEachM_range (D := ackBus pins acks) (I := fun k _ w' => ∃ bytes,
      bytes.length = k ∧ Down ⟨ms, some { m with bytes := m.bytes ++ bytes }⟩ mem w' ∧
      Acked acks (Framer.asked ⟨ms, some m⟩) k) ?_ ?_ ?_
    · refine ⟨[], rfl, ?_, acked_zero⟩
      rw [List.append_nil]
      exact h
    · rintro k hk _ w1 ⟨bytes, rfl, hdown, hacked⟩
      have hbits1 : WireMessage.bits { m with bytes := m.bytes ++ bytes } = [] := hbits
      refine wp_mono (i2cWriteNext_down hbits1 hdown buf bytes.length) ?_
      rintro ⟨ret, ⟨⟩⟩ w2 ⟨rfl, value, hdown2⟩
      rw [asked_bytes, WireMessage.heard, List.append_assoc, ← hbits] at hdown2
      rw [asked_bytes]
      cases hack : acks (Framer.asked ⟨ms, some m⟩ + bytes.length)
      · rw [hack] at hdown2
        refine ⟨fun hbad => ⟨_, hdown2, iff_of_false hbad fun hall => ?_, ?_⟩, fun hok => ?_⟩
        · rw [hall bytes.length hk] at hack
          cases hack
        · intro hok
          exact absurd hok hbad
        · exact absurd hok (by decide)
      · rw [hack] at hdown2
        refine ⟨fun hbad => absurd rfl hbad, fun _ => ⟨_, ?_, hdown2, ?_⟩⟩
        · rw [List.length_append]
          rfl
        · exact acked_succ_last.mpr ⟨hacked, hack⟩
    · rintro _ w1 ⟨bytes, hlength, hdown, hacked⟩
      exact ⟨bytes, hdown, iff_of_true rfl hacked, fun _ => hlength⟩
  rw [i2cWriteMessage, hsome]
  dsimp only
  rw [if_neg hlen]
  refine wp_seq hloop ?_
  rintro ⟨ret, ⟨⟩⟩ w1 hr
  exact hr

/-- A message has ended with a STOP, and the bus is idle. -/
structure Stopped (ms : List WireMessage) (m : WireMessage) (mem : Memory) (w : Wire) : Prop where
  high : High none ⟨ms ++ [{ m with stop := true }], none⟩ mem w
  sda : w.lines.sda = true

theorem i2cStop_stopped (hbits : m.bits = []) (h : Down ⟨ms, some m⟩ mem w) :
    wp (ackBus pins acks) (fun _ w' => Stopped ms m mem w') (i2cStop pins) w := by
  refine wp_mono (i2cStop_down rfl hbits h) ?_
  rintro _ w1 ⟨hhigh, hsda⟩
  exact ⟨hhigh, hsda⟩

/-- After an error in an open transaction, a STOP. -/
theorem i2cAbort_down (hbits : m.bits = []) (h : Down ⟨ms, some m⟩ mem w) (index : Nat)
    (ret : Int) :
    wp (ackBus pins acks) (fun r w' => r = (ret, index) ∧ Stopped ms m mem w')
      (i2cAbort pins index ret) w := by
  refine wp_seq (i2cStop_stopped hbits h) ?_
  intro _ w1 hstopped
  exact ⟨rfl, hstopped⟩

/-- How a message ends that was opened after `k` answers of the pattern: it is refused, or written
as a whole, and the bus is kept only then and when no STOP is asked for. -/
inductive Ending (acks : Nat → Bool) (k : Nat) (msg : I2cMsg) (ms : List WireMessage)
    (m : WireMessage) (mem : Memory) (w : Wire) : Int → Prop
  | refused {ret : Int} (hret : ret ≠ i2cOk)
    (hwhy : msg.isRead = true ∨ ¬Acked acks k (msg.len + 1)) (hstopped : Stopped ms m mem w) :
    Ending acks k msg ms m mem w ret
  | written (hwrite : msg.isRead = false) (hlength : m.bytes.length = msg.len + 1)
    (hacked : Acked acks k (msg.len + 1))
    (hleft : if msg.hasStop then Stopped ms m mem w else Down ⟨ms, some m⟩ mem w) :
    Ending acks k msg ms m mem w i2cOk

/-- How the turn of the loop for the message `msg` ends. -/
def Ended (acks : Nat → Bool) (k : Nat) (targetAddr : Byte) (msg : I2cMsg) (ms : List WireMessage)
    (mem : Memory) (index : Nat) (r : Int × Nat) (w : Wire) : Prop :=
  (r.1 = i2cOk → r.2 = index + 1) ∧
  ∃ m, Opens targetAddr msg m ∧ m.bits = [] ∧ Ending acks k msg ms m mem w r.1

/-- An error after the address. -/
theorem i2cAbort_ended (hopens : Opens targetAddr msg m) (hbits : m.bits = [])
    (h : Down ⟨ms, some m⟩ mem w) (index : Nat) {ret : Int} (hret : ret ≠ i2cOk) {k : Nat}
    (hwhy : msg.isRead = true ∨ ¬Acked acks k (msg.len + 1)) :
    wp (ackBus pins acks) (Ended acks k targetAddr msg ms mem index) (i2cAbort pins index ret) w := by
  refine wp_mono (i2cAbort_down hbits h index ret) ?_
  rintro _ w1 ⟨rfl, hstopped⟩
  exact ⟨fun hok => absurd hok hret, m, hopens, hbits, .refused hret hwhy hstopped⟩

/-- A message whose bytes have all been acknowledged. -/
theorem i2cFinish_ended (hopens : Opens targetAddr msg m) (hbits : m.bits = [])
    (h : Down ⟨ms, some m⟩ mem w) (index : Nat) {k : Nat} (hwrite : msg.isRead = false)
    (hlength : m.bytes.length = msg.len + 1) (hacked : Acked acks k (msg.len + 1)) :
    wp (ackBus pins acks) (Ended acks k targetAddr msg ms mem index)
      (if msg.hasStop then do i2cStop pins; return (i2cOk, index + 1)
        else return (i2cOk, index + 1)) w := by
  by_cases hstop : msg.hasStop = true
  · rw [if_pos hstop]
    refine wp_seq (i2cStop_stopped hbits h) ?_
    intro _ w1 hstopped
    refine ⟨fun _ => rfl, m, hopens, hbits, .written hwrite hlength hacked ?_⟩
    rw [if_pos hstop]
    exact hstopped
  · rw [if_neg hstop]
    refine ⟨fun _ => rfl, m, hopens, hbits, .written hwrite hlength hacked ?_⟩
    rw [if_neg hstop]
    exact h

/-- A message after its START. -/
theorem i2cTransferOpened_down {opening : Opening} (hopening : opening ≠ .none)
    (h7 : targetAddr ≤ 0x7f) (hbuf : msg.buf ≠ none) (hlen : msg.len ≠ 0) {index : Nat}
    (h : Down ⟨ms, some (.opened opening)⟩ mem w) :
    wp (ackBus pins acks)
      (Ended acks (Framer.asked ⟨ms, some (.opened opening)⟩) targetAddr msg ms mem index)
      (i2cTransferOpened pins targetAddr index msg) w := by
  have hasked : Framer.asked ⟨ms, some ((WireMessage.opened opening).heard
      (addressByte targetAddr msg.isRead) true)⟩ =
      Framer.asked ⟨ms, some (.opened opening)⟩ + 1 := asked_heard ..
  have hopens : ∀ acked rest, Opens targetAddr msg { (WireMessage.opened opening).heard
      (addressByte targetAddr msg.isRead) acked with
        bytes := (addressByte targetAddr msg.isRead, acked) :: rest } :=
    fun acked rest => ⟨hopening, acked, rest, rfl⟩
  refine wp_seq (i2cSendAddress_down h7 rfl msg.isRead h) ?_
  rintro ret w1 ⟨rfl, hdown1⟩
  generalize Framer.asked ⟨ms, some (.opened opening)⟩ = k at hdown1 hasked ⊢
  cases hack : acks k with
  | false =>
    rw [hack] at hdown1
    refine i2cAbort_ended (hopens false []) rfl hdown1 index (by decide) (.inr fun hacked => ?_)
    rw [(acked_succ.mp hacked).1] at hack
    cases hack
  | true =>
    rw [hack] at hdown1
    rw [if_pos rfl, if_neg (not_not.mpr rfl)]
    by_cases hread : msg.isRead = true
    · rw [if_pos hread]
      exact i2cAbort_ended (hopens true []) rfl hdown1 index (by decide) (.inl hread)
    rw [if_neg hread]
    refine wp_seq (i2cWriteMessage_down rfl hbuf hlen hdown1) ?_
    rintro ret w2 ⟨bytes, hdown2, hret, hlength⟩
    rw [hasked] at hret
    by_cases hbad : ret ≠ i2cOk
    · rw [if_pos hbad]
      refine i2cAbort_ended (hopens true bytes) rfl hdown2 index hbad (.inr fun hacked => ?_)
      exact hbad (hret.mpr (acked_succ.mp hacked).2)
    · obtain rfl : ret = i2cOk := not_not.mp hbad
      have hacked : Acked acks k (msg.len + 1) := acked_succ.mpr ⟨hack, hret.mp rfl⟩
      have hbytes : ((addressByte targetAddr msg.isRead, true) :: bytes).length = msg.len + 1 := by
        rw [List.length_cons, hlength rfl]
      rw [if_neg hbad]
      exact i2cFinish_ended (hopens true bytes) rfl hdown2 index (Bool.eq_false_iff.mpr hread)
        hbytes hacked

end Messages

/-! ### Transfers -/

section Transfers

variable {pins : Pins} {acks : Nat → Bool} {w : Wire} {f : Framer} {mem : Memory}
  {targetAddr : Byte} {pre post : List I2cMsg} {msg : I2cMsg} {ms : List WireMessage}
  {m : WireMessage}

/-- What has been heard after some messages that were sent. -/
structure Progress (acks : Nat → Bool) (targetAddr : Byte) (pre : List I2cMsg) (f : Framer) :
    Prop where
  sent : Sent acks pre
  heard : List.Forall₂ (Opens targetAddr) pre f.messages
  asked : f.asked = (pre.map fun msg => msg.len + 1).sum
  kept : f.current = none ↔ Closed pre

theorem Progress.snoc {f' : Framer} (hp : Progress acks targetAddr pre f)
    (hsent : Sent acks (pre ++ [msg])) (hopens : Opens targetAddr msg m)
    (hlength : m.bytes.length = msg.len + 1) (hmessages : f'.messages = f.messages ++ [m])
    (hkept : f'.current = none ↔ msg.hasStop = true) :
    Progress acks targetAddr (pre ++ [msg]) f' := by
  refine ⟨hsent, ?_, ?_, hkept.trans closed_snoc.symm⟩
  · rw [hmessages]
    exact List.rel_append hp.heard (.cons hopens .nil)
  · have hasked : (f.messages.map fun m => m.bytes.length).sum =
        (pre.map fun msg => msg.len + 1).sum := hp.asked
    rw [Framer.asked, hmessages, sum_snoc, List.map_append, List.sum_append, hasked, List.map_nil,
      List.sum_nil, Nat.add_zero, List.map_singleton, List.sum_singleton, hlength]

theorem opened_messages {opened : List I2cMsg} (h : List.Forall₂ (Opens targetAddr) opened ms) :
    ∀ m ∈ ms, m.opening ≠ .none ∧ m.bytes ≠ [] := by
  induction h with
  | nil => exact nofun
  | cons hm _ ih =>
    obtain ⟨acked, rest, hbytes⟩ := hm.address
    refine List.forall_mem_cons.mpr ⟨⟨hm.opening, ?_⟩, ih⟩
    rw [hbytes]
    exact List.cons_ne_nil _ _

/-- A transfer that has opened its first messages, in this order, is framed. -/
theorem framed_of_heard {sample : Option Bool} {opened rest : List I2cMsg} {ret : Int}
    (hheard : w.Heard sample f) (hadmitted : Admitted opened)
    (hopened : List.Forall₂ (Opens targetAddr) opened f.messages)
    (hclosed : ret ≠ i2cOk → w.lines = .released ∧
      ((f.messages.getLast?.map fun m => !m.stop).getD false) = false) :
    Framed targetAddr (opened ++ rest) ret w := by
  have hmessages : ∀ m ∈ f.messages, m.opening ≠ .none :=
    fun m hm => (opened_messages hopened m hm).1
  have hdecode := hheard.decode
  have hconditions : conditions .released w.trace =
      f.messages.flatMap WireMessage.conditions := by
    rw [conditions_decode, hdecode]
  refine ⟨⟨opened, rest, rfl, hadmitted, ?_, ?_⟩, ?_, fun hret => ?_⟩
  · rw [hdecode]
    exact hopened
  · rw [hconditions, count_starts hmessages, hopened.length_eq]
  · rw [hconditions, openAfter_messages hmessages]
    exact Option.some_ne_none _
  · obtain ⟨hlines, hlast⟩ := hclosed hret
    rw [hconditions, openAfter_messages hmessages, hlast]
    exact ⟨hlines, rfl⟩

theorem opened_stop {opened : List I2cMsg}
    (h : List.Forall₂ (Opens targetAddr) opened (ms ++ [m])) :
    List.Forall₂ (Opens targetAddr) opened (ms ++ [{ m with stop := true }]) := by
  induction ms generalizing opened with
  | nil =>
    cases h with
    | cons hm hnil => exact .cons hm.stopped hnil
  | cons a ms ih =>
    cases h with
    | cons ha hrest => exact .cons ha (ih hrest)

/-- A transfer that has ended with a STOP. -/
theorem Stopped.framed {opened rest : List I2cMsg} {ret : Int} (h : Stopped ms m mem w)
    (hadmitted : Admitted opened)
    (hopened : List.Forall₂ (Opens targetAddr) opened (ms ++ [m])) :
    Framed targetAddr (opened ++ rest) ret w := by
  have hmessages : Framer.messages ⟨ms ++ [{ m with stop := true }], none⟩ =
      ms ++ [{ m with stop := true }] := List.append_nil _
  refine framed_of_heard h.high.heard hadmitted ?_ fun _ => ⟨Lines.ext h.sda h.high.lines, ?_⟩
  · rw [hmessages]
    exact opened_stop hopened
  · rw [hmessages, List.getLast?_concat]
    rfl

theorem Proper.of_restart {index : Nat} (hindex : index = pre.length) (hbuf : msg.buf ≠ none)
    (hlen : msg.len ≠ 0) (h : index = 0 ∨ msg.hasRestart = true) : Proper pre.isEmpty msg := by
  refine ⟨hbuf, hlen, h.imp (fun hzero => ?_) id⟩
  rw [List.isEmpty_iff]
  exact List.eq_nil_of_length_eq_zero (hindex.symm.trans hzero)

/-- A turn of the loop goes on, or ends the transfer, which is framed unless it breaks. -/
structure Turned (acks : Nat → Bool) (targetAddr : Byte) (pre : List I2cMsg) (msg : I2cMsg)
    (post : List I2cMsg) (mem : Memory) (r : Int × Nat) (w : Wire) : Prop where
  ended : r.1 ≠ i2cOk →
    (Framed targetAddr (pre ++ msg :: post) r.1 w ↔ ¬Breaks acks (pre ++ msg :: post))
  goesOn : r.1 = i2cOk →
    r.2 = pre.length + 1 ∧ ∃ f, Progress acks targetAddr (pre ++ [msg]) f ∧ Resting f mem w

theorem Turned.of_error {ret : Int} {index : Nat} (hret : ret ≠ i2cOk)
    (h : Framed targetAddr (pre ++ msg :: post) ret w ↔ ¬Breaks acks (pre ++ msg :: post)) :
    Turned acks targetAddr pre msg post mem (ret, index) w :=
  ⟨fun _ => h, fun hok => absurd hok hret⟩

/-- A message with invalid arguments: the transfer is framed if a transaction is open, and breaks
if none is. -/
theorem i2cAbort_turned (hp : Progress acks targetAddr pre f) (h : Resting f mem w)
    (himproper : ¬Proper pre.isEmpty msg) (index : Nat) :
    wp (ackBus pins acks) (Turned acks targetAddr pre msg post mem)
      (i2cAbort pins index i2cErrArgument) w := by
  have herror : i2cErrArgument ≠ i2cOk := by decide
  obtain ⟨ms, current⟩ := f
  rcases h with ⟨m, hcurrent, hbits, hdown⟩ | ⟨hcurrent, hhigh, hsda⟩
  · obtain rfl : current = some m := hcurrent
    have hopen : ¬Closed pre := fun hclosed => by
      have hnone := hp.kept.mpr hclosed
      cases hnone
    refine wp_mono (i2cAbort_down hbits hdown index i2cErrArgument) ?_
    rintro _ w1 ⟨rfl, hstopped⟩
    refine .of_error herror (iff_of_true (hstopped.framed hp.sent.admitted hp.heard) ?_)
    refine not_breaks hp.sent.admitted (fun hclosed => absurd hclosed hopen) fun more hsent => ?_
    exact himproper (hsent.admitted pre msg more rfl)
  · obtain rfl : current = none := hcurrent
    refine wp_seq (i2cStop_idle hhigh hsda) ?_
    rintro _ w1 ⟨hhigh1, hsda1⟩
    refine .of_error herror (iff_of_false (fun hframed => ?_) (not_not.mpr ?_))
    · -- The START and the STOP are a message without an address.
      obtain ⟨opened, rest, -, -, hopened, -⟩ := hframed.starts
      rw [hhigh1.heard.decode] at hopened
      have hspurious : { WireMessage.opened .start with stop := true } ∈
          ((Framer.next ⟨ms, none⟩ .start).next .stop).messages := by
        apply List.mem_append_left
        exact List.mem_append_right _ (List.mem_singleton.mpr rfl)
      exact (opened_messages hopened _ hspurious).2 rfl
    · exact ⟨pre, msg, post, rfl, hp.sent, hp.kept.mp rfl, himproper⟩

/-- A message that is refused after its START ends a transfer that does not break. -/
theorem Progress.not_breaks (hp : Progress acks targetAddr pre f) (hproper : Proper pre.isEmpty msg)
    (hwhy : msg.isRead = true ∨ ¬Acked acks f.asked (msg.len + 1)) :
    ¬Breaks acks (pre ++ msg :: post) := by
  refine I2c.not_breaks hp.sent.admitted (fun _ => hproper) fun more hsent => ?_
  rcases hwhy with hread | hnack
  · rw [hsent.writes msg (List.mem_append_right _ List.mem_cons_self)] at hread
    cases hread
  · rw [hp.asked] at hnack
    apply hnack
    intro j hj
    apply hsent.acked
    rw [sum_snoc]
    omega

/-- A message whose arguments are valid. -/
theorem i2cTransferOpened_turned (hp : Progress acks targetAddr pre f)
    (h : Down (f.next .start) mem w) (h7 : targetAddr ≤ 0x7f) (hproper : Proper pre.isEmpty msg) :
    wp (ackBus pins acks) (Turned acks targetAddr pre msg post mem)
      (i2cTransferOpened pins targetAddr pre.length msg) w := by
  have hopening : (if f.current.isSome then Opening.repeatedStart else .start) ≠ .none := by
    split
    · exact nofun
    · exact nofun
  have hasked : Framer.asked ⟨f.messages,
      some (.opened (if f.current.isSome then .repeatedStart else .start))⟩ = f.asked :=
    asked_current ..
  have hstarted : Down ⟨f.messages,
      some (.opened (if f.current.isSome then .repeatedStart else .start))⟩ mem w := h
  refine wp_mono (i2cTransferOpened_down hopening h7 hproper.buf hproper.len hstarted) ?_
  rw [hasked]
  rintro ⟨ret, index⟩ w1 ⟨hindex, m, hopens, hbits, hending⟩
  dsimp only at hindex hending
  cases hending with
  | refused hret hwhy hstopped =>
    refine .of_error hret (iff_of_true ?_ (hp.not_breaks hproper hwhy))
    rw [List.append_cons]
    apply hstopped.framed (hp.sent.admitted.snoc hproper)
    exact List.rel_append hp.heard (.cons hopens .nil)
  | written hwrite hlength hacked hleft =>
    rw [hp.asked] at hacked
    have hsent := hp.sent.snoc hproper hwrite hacked
    refine ⟨fun hbad => absurd rfl hbad, fun _ => ⟨hindex rfl, ?_⟩⟩
    by_cases hstop : msg.hasStop = true
    · rw [if_pos hstop] at hleft
      have hprogress : Progress acks targetAddr (pre ++ [msg])
          ⟨f.messages ++ [{ m with stop := true }], none⟩ :=
        hp.snoc hsent hopens.stopped hlength (List.append_nil _) (iff_of_true rfl hstop)
      exact ⟨_, hprogress, .inr ⟨rfl, hleft.high, hleft.sda⟩⟩
    · rw [if_neg hstop] at hleft
      have hprogress : Progress acks targetAddr (pre ++ [msg]) ⟨f.messages, some m⟩ :=
        hp.snoc hsent hopens hlength rfl (iff_of_false (Option.some_ne_none m) hstop)
      exact ⟨_, hprogress, .inl ⟨m, rfl, hbits, hleft⟩⟩

theorem i2cTransferMessage_turned (hp : Progress acks targetAddr pre f) (h : Resting f mem w)
    (h7 : targetAddr ≤ 0x7f) (msg : I2cMsg) (post : List I2cMsg) :
    wp (ackBus pins acks) (Turned acks targetAddr pre msg post mem)
      (i2cTransferMessage pins targetAddr pre.length msg) w := by
  unfold i2cTransferMessage
  split
  · next hbad =>
    apply i2cAbort_turned hp h
    intro hproper
    rcases hbad with hbuf | hlen
    · exact hproper.buf hbuf
    · exact hproper.len hlen
  next hgood =>
  push Not at hgood
  obtain ⟨hbuf, hlen⟩ := hgood
  split
  · next hfirst =>
    have hproper : Proper pre.isEmpty msg := .of_restart rfl hbuf hlen (.inl hfirst)
    refine wp_seq (i2cStart_resting h) fun _ w1 hdown => ?_
    exact i2cTransferOpened_turned hp hdown h7 hproper
  next hlater =>
  split
  · next hrestart =>
    have hproper : Proper pre.isEmpty msg := .of_restart rfl hbuf hlen (.inr hrestart)
    refine wp_seq (i2cStart_resting h) fun _ w1 hdown => ?_
    exact i2cTransferOpened_turned hp hdown h7 hproper
  · next hrestart =>
    apply i2cAbort_turned hp h
    intro hproper
    rcases hproper.restart with hempty | hflag
    · rw [List.isEmpty_iff] at hempty
      exact hlater (by rw [hempty]; rfl)
    · exact hrestart hflag

theorem Resting.heard (h : Resting f mem w) : w.Heard none f := by
  rcases h with ⟨m, -, -, hdown⟩ | ⟨-, hhigh, -⟩
  · exact hdown.low.heard
  · exact hhigh.heard

/-- All turns of the loop, from an idle bus. -/
theorem i2cTransferMessages_framed (h7 : targetAddr ≤ 0x7f) (msgs : List I2cMsg)
    (h : High none ⟨[], none⟩ mem w) (hsda : w.lines.sda = true) :
    wp (ackBus pins acks) (fun r w' => Framed targetAddr msgs r.1 w' ↔ ¬Breaks acks msgs)
      (forEachM (i2cTransferMessage pins targetAddr) 0 msgs) w := by
  have hp : Progress acks targetAddr [] ⟨[], none⟩ :=
    ⟨⟨admitted_nil, nofun, nofun⟩, .nil, rfl, iff_of_true rfl nofun⟩
  refine wp_forEachM (D := ackBus pins acks) (I := fun pre index w' => index = pre.length ∧
    ∃ f, Progress acks targetAddr pre f ∧ Resting f mem w') ⟨rfl, _, hp, .inr ⟨rfl, h, hsda⟩⟩ ?_ ?_
  · rintro pre msg post _ w1 rfl ⟨rfl, f, hp, hrest⟩
    refine wp_mono (i2cTransferMessage_turned hp hrest h7 msg post) ?_
    intro r w2 hturned
    refine ⟨hturned.ended, fun hok => ?_⟩
    obtain ⟨hindex, hprogress⟩ := hturned.goesOn hok
    refine ⟨?_, hprogress⟩
    rw [hindex, List.length_append]
    rfl
  · rintro _ w1 ⟨-, f, hp, hrest⟩
    have hframed : Framed targetAddr (msgs ++ []) i2cOk w1 :=
      framed_of_heard hrest.heard hp.sent.admitted hp.heard fun hbad => absurd rfl hbad
    rw [List.append_nil] at hframed
    exact iff_of_true hframed hp.sent.admitted.not_breaks

/-- Whatever is acknowledged, a transfer to a 7-bit address on an idle bus is framed if and only if
it does not come to a message with invalid arguments while no transaction is open. -/
theorem transfer_framed_iff (pins : Pins) (acks : Nat → Bool) (memory : Memory)
    (h7 : targetAddr ≤ 0x7f) {msgs : Option (List I2cMsg)} {t : List (Event (ackBus pins acks))}
    {ret : Int}
    (h : Exec (ackBus pins acks) (i2cTransferBitbang pins targetAddr msgs) (Wire.idle memory) t
      (some ret) w) :
    Framed targetAddr (msgs.getD []) ret w ↔ ¬Breaks acks (msgs.getD []) := by
  have hidle : High none ⟨[], none⟩ memory (Wire.idle memory) := ⟨rfl, rfl, rfl, rfl⟩
  have hrefused : ∀ ret, Framed targetAddr [] ret (Wire.idle memory) ↔ ¬Breaks acks [] := by
    intro ret
    exact iff_of_true (framed_of_heard hidle.heard admitted_nil .nil fun _ => ⟨rfl, rfl⟩)
      admitted_nil.not_breaks
  have htransfer : wp (ackBus pins acks)
      (fun ret w' => Framed targetAddr (msgs.getD []) ret w' ↔ ¬Breaks acks (msgs.getD []))
      (i2cTransferBitbang pins targetAddr msgs) (Wire.idle memory) := by
    unfold i2cTransferBitbang
    split
    · exact hrefused _
    · exact hrefused _
    · next messages _ =>
      rw [if_neg (BitVec.not_lt.mpr h7)]
      refine wp_seq (i2cBusIdle_idle hidle rfl) ?_
      rintro _ w1 ⟨hhigh, hsda⟩
      refine wp_seq (i2cTransferMessages_framed h7 messages hhigh hsda) ?_
      rintro ⟨ret, index⟩ w2 hr
      exact hr
  exact wp_sound htransfer h

end Transfers

/-! ### A target that acknowledges at once -/

/-- SDA as the target wants it while SCL is low. -/
def Wire.acknowledged (acks : Nat → Bool) (w : Wire) : Wire :=
  if w.lines.scl then w else w.setTarget ⟨w.decoder.framer.acknowledge acks, w.target.scl⟩

/-- A target that settles SDA before each operation. -/
def promptAcks (pins : Pins) (acks : Nat → Bool) (o : Op) (w : Wire) : Ans o × Wire :=
  let w := w.acknowledged acks
  match o with
  | .control =>
    ((if w.lines.sda then pins.sda else 0) ||| (if w.lines.scl then pins.scl else 0), w)
  | .controls mask => ((), w.setMaster (w.master.write pins (.controls mask)))
  | .controlc mask => ((), w.setMaster (w.master.write pins (.controlc mask)))
  | .load address => (w.memory address, w)
  | .store address value => ((), { w with memory := Function.update w.memory address value })

theorem promptAcks_answers {pins : Pins} (acks : Nat → Bool) (w : Wire) (o : Op) (h : Prompt w) :
    (ackBus pins acks).answer w o (promptAcks pins acks o w).1 (promptAcks pins acks o w).2 ∧
      Prompt (promptAcks pins acks o w).2 := by
  obtain ⟨hprompt, hmoves, hsettled⟩ : Prompt (w.acknowledged acks) ∧
      Relation.ReflTransGen AckMove w (w.acknowledged acks) ∧
      ((w.acknowledged acks).lines.scl = false → (w.acknowledged acks).target.sda =
        (w.acknowledged acks).decoder.framer.acknowledge acks) := by
    unfold Wire.acknowledged
    split
    · next hhigh => exact ⟨h, .refl, fun hlow => absurd (hhigh.symm.trans hlow) (by decide)⟩
    · next hlow =>
      rw [Bool.not_eq_true] at hlow
      obtain ⟨hprompt, hframer⟩ := h.setTarget hlow (w.decoder.framer.acknowledge acks)
      refine ⟨hprompt, .single (.data _ hlow), fun _ => ?_⟩
      rw [hframer]
      rfl
  cases o with
  | control => exact ⟨⟨_, hmoves, pins.shows_sda _ _, pins.shows_scl _ _, rfl⟩, hprompt⟩
  | controls mask =>
    exact ⟨⟨_, hmoves, rfl, fun hlow _ => hsettled hlow⟩, hprompt.setMaster _⟩
  | controlc mask => exact ⟨⟨_, hmoves, rfl⟩, hprompt.setMaster _⟩
  | load address => exact ⟨⟨_, hmoves, rfl, rfl⟩, hprompt⟩
  | store address value => exact ⟨⟨_, hmoves, rfl⟩, ⟨hprompt.free, hprompt.level⟩⟩

theorem promptAcks_ends {α : Type} (pins : Pins) (acks : Nat → Bool) (p : I2cProgram α)
    (mem : Memory) :
    ∃ t, Exec (ackBus pins acks) p (Wire.idle mem) t
      (some (p.run (promptAcks pins acks) (Wire.idle mem)).1)
      (p.run (promptAcks pins acks) (Wire.idle mem)).2 := by
  have hidle : Prompt (Wire.idle mem) := ⟨rfl, rfl⟩
  exact Exec.of_run (D := ackBus pins acks) (promptAcks_answers acks) p hidle

/-- A write of two bytes, of which the second is not acknowledged. -/
theorem transfer_framed_nack : ∃ t w,
    Exec (ackBus lowPins fun k => k ≠ 2)
      (i2cTransferBitbang lowPins 0x50 (some [⟨some 0x20, 2, i2cMsgStop⟩]))
      (Wire.idle fun _ => 0xa5) t (some i2cErrNack) w ∧
    Framed 0x50 [⟨some 0x20, 2, i2cMsgStop⟩] i2cErrNack w := by
  obtain ⟨t, ht⟩ := promptAcks_ends lowPins (fun k => k ≠ 2)
    (i2cTransferBitbang lowPins 0x50 (some [⟨some 0x20, 2, i2cMsgStop⟩])) fun _ => 0xa5
  have hret : ((i2cTransferBitbang lowPins 0x50 (some [⟨some 0x20, 2, i2cMsgStop⟩])).run
      (promptAcks lowPins fun k => k ≠ 2) (Wire.idle fun _ => 0xa5)).1 = i2cErrNack := by
    decide +kernel
  have hproper : Proper true ⟨some 0x20, 2, i2cMsgStop⟩ := ⟨nofun, by decide, .inl rfl⟩
  rw [hret] at ht
  refine ⟨t, _, ht, (transfer_framed_iff lowPins _ _ (by decide) ht).mpr ?_⟩
  exact (admitted_nil.snoc hproper).not_breaks

/-- A message without a buffer: the STOP of its refusal begins with a START. -/
theorem refused_starts : ∃ t w,
    Exec (ackBus lowPins fun _ => true) (i2cTransferBitbang lowPins 0x50 (some [⟨none, 0, 0⟩]))
      (Wire.idle fun _ => 0) t (some i2cErrArgument) w ∧
    conditions .released w.trace = [false, true] ∧
    ¬Framed 0x50 [⟨none, 0, 0⟩] i2cErrArgument w := by
  obtain ⟨t, ht⟩ := promptAcks_ends lowPins (fun _ => true)
    (i2cTransferBitbang lowPins 0x50 (some [⟨none, 0, 0⟩])) fun _ => 0
  refine ⟨t, _, ht, rfl, fun hframed => ?_⟩
  obtain ⟨opened, rest, hmsgs, hadmitted, -, hcount⟩ := hframed.starts
  cases opened with
  | nil => cases hcount
  | cons msg opened =>
    obtain ⟨rfl, -⟩ := List.cons_eq_cons.mp hmsgs
    exact (hadmitted [] _ opened rfl).buf rfl

end CortexLabs.I2c

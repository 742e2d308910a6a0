import CortexLabs.Device.Total
import CortexLabs.Eeprom.Cells
import CortexLabs.I2c.Calls

/-! The driver over the master over the wire.  Behind the lines is a part of the 24C series that
hears what the decoder hears: it acknowledges, writes its cells at a STOP and then does not answer
until its write cycle is over, and sends its cells.  The local buffers of the driver are in the
memory of the CPU, where the master reads and fills them. -/

namespace CortexLabs.Eeprom

open Device I2c

/-! ### The part -/

/-- The cells and the address that the part is at. -/
structure Chip where
  cells : Memory
  pointer : Nat

section Chip

variable (device : EepromDevice)

/-- What a message does to the part.  The data of a write go to the cells at its STOP. -/
def Chip.hear (c : Chip) (m : WireMessage) : Chip :=
  let bytes := m.data.map Prod.fst
  let width := device.addressWidth.toNat
  if m.reads then { c with pointer := (c.pointer + bytes.length) % cellCount device }
  else if bytes.length < width then c
  else
    let start := Memory.bigEndian (bytes.take width)
    let (cells, pointer) := c.cells.writePage device.pageSize.toNat start (bytes.drop width)
    ⟨if m.stop then cells else c.cells, pointer⟩

/-- The message starts a write cycle. -/
def commits (m : WireMessage) : Bool :=
  !m.reads && device.addressWidth.toNat < m.data.length && m.stop

/-- What the target supplies for the reads among the messages, `served` bytes having been read
before them, are the cells. -/
def Sends (supply : Nat → Byte) : Chip → Nat → List WireMessage → Prop
  | _, _, [] => True
  | c, served, m :: ms =>
    (m.reads = true → ∀ k < m.data.length,
      supply (served + k) = c.cells ((c.pointer + k) % cellCount device)) ∧
    Sends supply (c.hear device m) (served + if m.reads then m.data.length else 0) ms

end Chip

/-! ### The system -/

/-- Where the local buffers of the driver are. -/
structure Frame where
  txBuffer : Nat
  addressBuffer : Nat

def Frame.place (frame : Frame) : Buffer → Nat
  | .txBuffer => frame.txBuffer
  | .addressBuffer => frame.addressBuffer
  | .memory address => address

structure Board where
  chip : Chip
  busy : Bool
  memory : Memory

section Wired

variable (device : EepromDevice) (pins : Pins) (frame : Frame)

/-- A call of the master, on an idle bus.  A part in a write cycle does not answer, nor does it to
another address. -/
def Board.Calls (s : Board) (bus : Option Mps2I2cBus) (targetAddr : Byte) (p : I2cProgram Int)
    (result : Int) (s' : Board) : Prop :=
  if s.busy ∨ targetAddr ≠ device.targetAddr then
    ∃ t w, Exec (silentBus pins) p ⟨.released, s.memory⟩ t (some result) w ∧
      s' = { s with memory := w.memory }
  else
    ∃ supply t w, Exec (i2cBus pins supply (bus.elim 0 fun bus => bus.timeoutCycles.toNat)) p
        (Wire.idle s.memory) t (some result) w ∧
      Sends device supply s.chip 0 (decode w.trace) ∧
      s' = ⟨(decode w.trace).foldl (Chip.hear device) s.chip,
        (decode w.trace).any (commits device), w.memory⟩

def WiredAnswer (s : Board) : (o : Op) → Ans o → Board → Prop
  | .load address, value, s' => value = s.memory address ∧ s' = s
  | .store buffer index value, _, s' =>
    s' = { s with memory := Function.update s.memory (frame.place buffer + index) value }
  | .transfer bus messages targetAddr, result, s' =>
    s.Calls device pins bus targetAddr
      (mps2I2cTransfer pins bus (some (messages.map (·.placed frame.place))) targetAddr) result s'
  | .probe bus targetAddr, result, s' =>
    s.Calls device pins bus targetAddr (mps2I2cProbe pins bus targetAddr) result s'

/-- The driver's operations over the wire.  A write cycle may be over before any of them. -/
abbrev wired : Behavior Op Ans where
  State := Board
  answer s o r s' := ∃ busy, (busy = true → s.busy = true) ∧
    WiredAnswer device pins frame { s with busy } o r s'
  torn _ _ _ := False

end Wired

/-- The bus is one that the master takes, and the address one that it has not reserved. -/
structure Installed (device : EepromDevice) (bus : Mps2I2cBus) : Prop where
  found : device.bus = some bus
  valid : busValid (some bus) = some bus
  addr : device.targetAddr < 0x7f

variable {device : EepromDevice} {pins : Pins} {frame : Frame} {bus : Mps2I2cBus}
  {memoryAddr : BitVec 16} {data : Option Nat} {length : Word} {s : Board} {p : Nat}

/-! ### Messages -/

section Messages

variable {supply : Nat → Byte} {targetAddr : Byte} {kept : Bool} {served : Nat} {mem : Memory}
  {message : Mps2I2cMsg} {c : Chip}

/-- A message that writes `bytes`. -/
def written (targetAddr : Byte) (kept : Bool) (bytes : List Byte) (stop : Bool) : WireMessage :=
  ⟨if kept then .repeatedStart else .start,
    (addressByte targetAddr false, true) :: bytes.map fun b => (b, true), [], stop⟩

theorem wireMessage_written (hwrite : isRead message = false) :
    wireMessage supply targetAddr kept served mem message =
      written targetAddr kept (mem.bytes (message.buf.getD 0) message.len) (hasStop message) := by
  have hbytes : (List.range message.len).map (wireByte supply served mem message) =
      (mem.bytes (message.buf.getD 0) message.len).map fun b => (b, true) := by
    rw [Memory.bytes, List.map_map]
    refine List.map_congr_left fun k _ => ?_
    rw [wireByte, hwrite, if_neg Bool.false_ne_true]
    rfl
  rw [wireMessage, hwrite, hbytes]
  rfl

theorem written_reads (bytes : List Byte) (stop : Bool) :
    (written targetAddr kept bytes stop).reads = false := addressByte_read targetAddr false

theorem written_data (bytes : List Byte) (stop : Bool) :
    (written targetAddr kept bytes stop).data.map Prod.fst = bytes := by
  show (bytes.map fun b => (b, true)).map Prod.fst = bytes
  rw [List.map_map]
  exact List.map_id bytes

/-- The first bytes of a write are an address. -/
theorem hear_written {address data : List Byte} (hlen : address.length = device.addressWidth.toNat)
    (stop : Bool) :
    Chip.hear device c (written targetAddr kept (address ++ data) stop) =
      ⟨if stop then (c.cells.writePage device.pageSize.toNat (Memory.bigEndian address) data).1
        else c.cells,
        (c.cells.writePage device.pageSize.toNat (Memory.bigEndian address) data).2⟩ := by
  unfold Chip.hear
  dsimp only
  rw [written_data, written_reads, if_neg Bool.false_ne_true, if_neg (by simp [hlen]),
    List.take_left' hlen, List.drop_left' hlen]
  rfl

/-- A write alone, with its STOP. -/
theorem exchange_written (hwrite : isRead message = false) :
    exchange supply targetAddr false 0 mem [message] =
      ([written targetAddr false (mem.bytes (message.buf.getD 0) message.len) (hasStop message)],
        mem) := by
  show ([wireMessage supply targetAddr false 0 mem message],
    memoryAfter supply 0 mem message message.len) = _
  rw [wireMessage_written hwrite, memoryAfter_write (by rw [hwrite]; exact Bool.false_ne_true)]

/-- An address and then, without a STOP before it, a read. -/
theorem exchange_random {first second : Mps2I2cMsg} (hwrite : isRead first = false)
    (hkeep : hasStop first = false) :
    exchange supply targetAddr false 0 mem [first, second] =
      ([written targetAddr false (mem.bytes (first.buf.getD 0) first.len) false,
        wireMessage supply targetAddr true 0 mem second],
        memoryAfter supply 0 mem second second.len) := by
  have hserved : servedAfter 0 first = 0 := by
    rw [servedAfter, hwrite, if_neg Bool.false_ne_true]
  show ([wireMessage supply targetAddr false 0 mem first,
    wireMessage supply targetAddr (!hasStop first) (servedAfter 0 first)
      (memoryAfter supply 0 mem first first.len) second],
    memoryAfter supply (servedAfter 0 first) (memoryAfter supply 0 mem first first.len) second
      second.len) = _
  rw [wireMessage_written hwrite, memoryAfter_write (by rw [hwrite]; exact Bool.false_ne_true),
    hserved, hkeep]
  rfl

theorem wireMessage_read (hread : isRead message = true) :
    (wireMessage supply targetAddr kept served mem message).reads = true ∧
    (wireMessage supply targetAddr kept served mem message).data.length = message.len := by
  refine ⟨?_, ?_⟩
  · exact (addressByte_read targetAddr (isRead message)).trans hread
  · show ((List.range message.len).map _).length = message.len
    rw [List.length_map, List.length_range]

/-- What the part sends for a read after an address. -/
theorem sends_random {first second : WireMessage} {start n : Nat} (hfirst : first.reads = false)
    (hhear : c.hear device first = ⟨c.cells, start⟩) (hsecond : second.reads = true)
    (hlen : second.data.length = n) : Sends device supply c 0 [first, second] ↔
      ∀ k < n, supply k = c.cells ((start + k) % cellCount device) := by
  simp only [Sends, hfirst, hhear, hsecond, hlen, Bool.false_eq_true, false_implies, true_and,
    if_false, Nat.add_zero, Nat.zero_add, and_true, true_implies]

/-- The buffer of a read holds the cells that the part has sent. -/
theorem memoryAfter_cells {flags : Byte} {start n : Nat} (hread : isRead ⟨some p, n, flags⟩ = true)
    (hsupply : ∀ k < n, supply k = c.cells ((start + k) % cellCount device))
    (hinside : start + n ≤ cellCount device) :
    memoryAfter supply 0 mem ⟨some p, n, flags⟩ n = mem.write p (c.cells.read start n) := by
  funext a
  unfold memoryAfter
  rw [Option.getD_some]
  by_cases ha : p ≤ a ∧ a < p + n
  · obtain ⟨k, rfl⟩ := Nat.exists_eq_add_of_le ha.1
    have hk : k < n := by omega
    rw [if_pos ⟨hread, ha⟩, Memory.write_inside hk, Memory.getElem_read, Nat.zero_add,
      Nat.add_sub_cancel_left, hsupply k hk, Nat.mod_eq_of_lt (by omega)]
  · rw [if_neg fun h => ha h.2, Memory.write_outside (by omega)]

end Messages

/-! ### Calls of the master -/

section Calls

variable {prog : I2cProgram Int} {heard : (Nat → Byte) → List WireMessage}
  {after : (Nat → Byte) → Memory}

/-- What a call of the master does that ends with a NACK if nobody answers, and that the decoder
hears as `heard` if the part does. -/
theorem Board.Calls.cases {busy : Bool} {result : Int} {s' : Board}
    (hsilent : wp (silentBus pins)
      (fun result w => result = mps2I2cErrNack ∧ w = ⟨.released, s.memory⟩) prog
      ⟨.released, s.memory⟩)
    (hanswered : ∀ supply, wp (i2cBus pins supply bus.timeoutCycles.toNat)
      (fun result w => result = mps2I2cOk ∧ decode w.trace = heard supply ∧
        w.memory = after supply) prog (Wire.idle s.memory))
    (hbusy : busy = true → s.busy = true)
    (h : ({ s with busy } : Board).Calls device pins (some bus) device.targetAddr prog result s') :
    s.busy = true ∧ result = mps2I2cErrNack ∧ s' = s ∨
      result = mps2I2cOk ∧ ∃ supply, Sends device supply s.chip 0 (heard supply) ∧
        s' = ⟨(heard supply).foldl (Chip.hear device) s.chip, (heard supply).any (commits device),
          after supply⟩ := by
  unfold Board.Calls at h
  by_cases hquiet : busy = true
  · rw [if_pos (.inl hquiet)] at h
    obtain ⟨t, w, he, rfl⟩ := h
    obtain ⟨rfl, rfl⟩ := wp_sound hsilent he
    refine .inl ⟨hbusy hquiet, rfl, ?_⟩
    rw [hquiet, ← hbusy hquiet]
  · rw [if_neg (by simpa using hquiet)] at h
    obtain ⟨supply, t, w, he, hsends, rfl⟩ := h
    obtain ⟨rfl, hdecode, hmemory⟩ := wp_sound (hanswered supply) he
    rw [hdecode] at hsends ⊢
    rw [hmemory]
    exact .inr ⟨rfl, supply, hsends, rfl⟩

/-- The part answers, if there are cells that it may send. -/
theorem Board.Calls.exists {supply : Nat → Byte} {messages : List WireMessage} {mem : Memory}
    (hanswered : wp (i2cBus pins supply bus.timeoutCycles.toNat)
      (fun result w => result = mps2I2cOk ∧ decode w.trace = messages ∧ w.memory = mem) prog
      (Wire.idle s.memory))
    (hsends : Sends device supply s.chip 0 messages) :
    ∃ result s', ({ s with busy := false } : Board).Calls device pins (some bus) device.targetAddr
      prog result s' := by
  obtain ⟨t, result, w, he⟩ := promptTarget_ends pins supply bus.timeoutCycles.toNat prog s.memory
  obtain ⟨rfl, hdecode, -⟩ := wp_sound hanswered he
  refine ⟨mps2I2cOk, ⟨(decode w.trace).foldl (Chip.hear device) s.chip,
    (decode w.trace).any (commits device), w.memory⟩, ?_⟩
  unfold Board.Calls
  rw [if_neg (by simp)]
  refine ⟨supply, t, w, he, ?_, rfl⟩
  rw [hdecode]
  exact hsends

end Calls

section Rules

variable {α : Type} {Q : α → Board → Prop} {C : Prop} {f : Int → EepromProgram α}

/-- A probe finds the part in its write cycle, or ready. -/
theorem probe_total (hin : Installed device bus)
    (hnack : s.busy = true → Total (wired device pins frame) Q C (f mps2I2cErrNack) s)
    (hok : ∀ pointer, Total (wired device pins frame) Q C (f mps2I2cOk)
      ⟨⟨s.chip.cells, pointer⟩, false, s.memory⟩) :
    Total (wired device pins frame) Q C (probe device.bus device.targetAddr >>= f) s := by
  have haddr : device.targetAddr ≤ 0x7f := BitVec.le_of_lt hin.addr
  generalize hwire : (⟨.start, [(addressByte device.targetAddr false, true)], [], true⟩ :
    WireMessage) = m
  have hreads : m.reads = false := by
    rw [← hwire]
    exact addressByte_read device.targetAddr false
  have hhear : ∃ pointer, Chip.hear device s.chip m = ⟨s.chip.cells, pointer⟩ := by
    have hdata : m.data.map Prod.fst = [] := by
      rw [← hwire]
      rfl
    unfold Chip.hear
    dsimp only
    rw [hreads, if_neg Bool.false_ne_true, hdata, List.drop_nil]
    split
    · exact ⟨_, rfl⟩
    · exact ⟨_, congrArg (Chip.mk · _) (ite_self s.chip.cells)⟩
  have hcommits : commits device m = false := by
    rw [← hwire]
    simp [commits, WireMessage.data]
  have hanswered := fun supply => probe_answered pins supply hin.valid haddr s.memory
  rw [hwire] at hanswered
  rw [hin.found]
  refine Total.call (o := Op.probe (some bus) device.targetAddr) (.inl ?_) (fun _ h => h.elim) ?_
  · have hsends : Sends device (fun _ => 0) s.chip 0 [m] :=
      ⟨fun h => absurd (hreads.symm.trans h) Bool.false_ne_true, trivial⟩
    obtain ⟨result, s', hcalls⟩ := Board.Calls.exists (hanswered fun _ => 0) hsends
    exact ⟨result, s', false, nofun, hcalls⟩
  · rintro result s' ⟨busy, hbusy, hcalls⟩
    rcases hcalls.cases (silent_probe hin.valid haddr) hanswered hbusy with
      ⟨hbusy, rfl, rfl⟩ | ⟨rfl, supply, -, rfl⟩
    · exact hnack hbusy
    · obtain ⟨pointer, hhear⟩ := hhear
      rw [List.foldl_cons, List.foldl_nil, hhear, List.any_cons, hcommits, List.any_nil]
      exact hok pointer

/-- A transfer finds the part in its write cycle, or the part hears and answers its messages. -/
theorem transfer_total (hin : Installed device bus) {messages : List Message}
    {placed : List Mps2I2cMsg} (hplaced : messages.map (·.placed frame.place) = placed)
    (hsome : placed ≠ []) (hcheck : checkMessages none placed = mps2I2cOk)
    (hsends : ∃ supply, Sends device supply s.chip 0
      (exchange supply device.targetAddr false 0 s.memory placed).1)
    (hnack : s.busy = true → Total (wired device pins frame) Q C (f mps2I2cErrNack) s)
    (hok : ∀ supply, Sends device supply s.chip 0
        (exchange supply device.targetAddr false 0 s.memory placed).1 →
      Total (wired device pins frame) Q C (f mps2I2cOk)
        ⟨(exchange supply device.targetAddr false 0 s.memory placed).1.foldl (Chip.hear device)
          s.chip, (exchange supply device.targetAddr false 0 s.memory placed).1.any
            (commits device), (exchange supply device.targetAddr false 0 s.memory placed).2⟩) :
    Total (wired device pins frame) Q C (transfer device.bus messages device.targetAddr >>= f) s := by
  subst hplaced
  have haddr := BitVec.ne_of_lt hin.addr
  have hanswered := fun supply =>
    transfer_answered pins supply hin.valid hsome hcheck haddr s.memory
  rw [hin.found]
  refine Total.call (o := Op.transfer (some bus) messages device.targetAddr) (.inl ?_)
    (fun _ h => h.elim) ?_
  · obtain ⟨supply, hsends⟩ := hsends
    obtain ⟨result, s', hcalls⟩ := Board.Calls.exists (hanswered supply) hsends
    exact ⟨result, s', false, nofun, hcalls⟩
  · rintro result s' ⟨busy, hbusy, hcalls⟩
    rcases hcalls.cases (silent_transfer hin.valid hsome hcheck haddr) hanswered hbusy with
      ⟨hbusy, rfl, rfl⟩ | ⟨rfl, supply, hsends, rfl⟩
    · exact hnack hbusy
    · exact hok supply hsends

theorem write_checked (hsome : 0 < length.toNat) :
    checkMessages none [⟨some frame.txBuffer, device.addressWidth.toNat + length.toNat,
      mps2I2cMsgWrite ||| mps2I2cMsgStop⟩] = mps2I2cOk :=
  checkMessages_cons _ (by omega) (by decide) (.inl rfl)

/-- The message of `eeprom_write`: the part writes its cells and is in a write cycle, unless it was
in one. -/
theorem write_total (hin : Installed device bus) (hrange : InRange device memoryAddr length)
    (hsome : 0 < length.toNat)
    (hpage : memoryAddr.toNat % device.pageSize.toNat + length.toNat ≤ device.pageSize.toNat)
    (haddress : Memory.bigEndian (s.memory.bytes frame.txBuffer device.addressWidth.toNat) =
      memoryAddr.toNat) {source : Memory}
    (hdata : ∀ i < length.toNat,
      s.memory (frame.txBuffer + device.addressWidth.toNat + i) = source (p + i))
    (hnack : s.busy = true → Total (wired device pins frame) Q C (f mps2I2cErrNack) s)
    (hok : ∀ pointer, Total (wired device pins frame) Q C (f mps2I2cOk)
      ⟨⟨s.chip.cells.write memoryAddr.toNat (source.read p length.toNat), pointer⟩, true,
        s.memory⟩) :
    Total (wired device pins frame) Q C (transfer device.bus
      [⟨.txBuffer, BitVec.ofNat 32 device.addressWidth.toNat + length,
        mps2I2cMsgWrite ||| mps2I2cMsgStop⟩] device.targetAddr >>= f) s := by
  have hplaced : [(⟨.txBuffer, BitVec.ofNat 32 device.addressWidth.toNat + length,
      mps2I2cMsgWrite ||| mps2I2cMsgStop⟩ : Message)].map (·.placed frame.place) =
      [⟨some frame.txBuffer, device.addressWidth.toNat + length.toNat,
        mps2I2cMsgWrite ||| mps2I2cMsgStop⟩] := by
    simp only [List.map_cons, List.map_nil, Message.placed, hrange.message_len]
    rfl
  have hlength : (s.memory.bytes frame.txBuffer device.addressWidth.toNat).length =
      device.addressWidth.toNat := by simp [Memory.bytes]
  generalize hwire : written device.targetAddr false
    (s.memory.bytes frame.txBuffer device.addressWidth.toNat ++ source.bytes p length.toNat)
    true = m
  have hexchange : ∀ supply, exchange supply device.targetAddr false 0 s.memory
      [⟨some frame.txBuffer, device.addressWidth.toNat + length.toNat,
        mps2I2cMsgWrite ||| mps2I2cMsgStop⟩] = ([m], s.memory) := by
    intro supply
    have hbytes : s.memory.bytes frame.txBuffer (device.addressWidth.toNat + length.toNat) =
        s.memory.bytes frame.txBuffer device.addressWidth.toNat ++ source.bytes p length.toNat := by
      rw [Memory.bytes_add]
      exact congrArg (_ ++ ·) (List.map_congr_left fun i hi => hdata i (List.mem_range.mp hi))
    have hwrite : isRead ⟨some frame.txBuffer, device.addressWidth.toNat + length.toNat,
        mps2I2cMsgWrite ||| mps2I2cMsgStop⟩ = false :=
      show decide ((mps2I2cMsgWrite ||| mps2I2cMsgStop) &&& mps2I2cMsgRead ≠ 0) = false by decide
    have hstop : hasStop ⟨some frame.txBuffer, device.addressWidth.toNat + length.toNat,
        mps2I2cMsgWrite ||| mps2I2cMsgStop⟩ = true :=
      show decide ((mps2I2cMsgWrite ||| mps2I2cMsgStop) &&& mps2I2cMsgStop ≠ 0) = true by decide
    rw [exchange_written hwrite, hstop, ← hwire, ← hbytes]
    rfl
  have hreads : m.reads = false := by rw [← hwire, written_reads]
  have hcommits : commits device m = true := by
    have hdata : m.data.length = device.addressWidth.toNat + length.toNat := by
      rw [← List.length_map Prod.fst, ← hwire, written_data, List.length_append, hlength]
      simp [Memory.bytes]
    rw [commits, hreads, hdata, decide_eq_true (by omega), ← hwire]
    rfl
  refine transfer_total hin hplaced (List.cons_ne_nil _ _) (write_checked hsome) ?_ hnack
    fun supply _ => ?_
  · simp only [hexchange]
    exact ⟨fun _ => 0, fun h => absurd (hreads.symm.trans h) Bool.false_ne_true, trivial⟩
  · rw [hexchange, List.foldl_cons, List.foldl_nil, List.any_cons, hcommits, Bool.true_or, ← hwire,
      hear_written hlength, haddress, if_pos rfl, Memory.writePage_eq_write hpage]
    exact hok _

/-- The messages of `eeprom_read`: the part sends its cells, unless it is in a write cycle. -/
theorem read_total (hin : Installed device bus) (hrange : InRange device memoryAddr length)
    (hsome : 0 < length.toNat)
    (haddress : Memory.bigEndian (s.memory.bytes frame.addressBuffer device.addressWidth.toNat) =
      memoryAddr.toNat)
    (hnack : s.busy = true → Total (wired device pins frame) Q C (f mps2I2cErrNack) s)
    (hok : ∀ pointer, Total (wired device pins frame) Q C (f mps2I2cOk)
      ⟨⟨s.chip.cells, pointer⟩, false,
        s.memory.write p (s.chip.cells.read memoryAddr.toNat length.toNat)⟩) :
    Total (wired device pins frame) Q C (transfer device.bus
      [⟨.addressBuffer, BitVec.ofNat 32 device.addressWidth.toNat, mps2I2cMsgWrite⟩,
        ⟨.memory p, length, mps2I2cMsgRead ||| mps2I2cMsgRestart ||| mps2I2cMsgStop⟩]
      device.targetAddr >>= f) s := by
  have hwidth := hrange.width_le
  have hwidth1 : 0 < device.addressWidth.toNat := by
    rcases hrange.width with h | h <;> rw [h] <;> decide
  generalize hfirst : (⟨some frame.addressBuffer, device.addressWidth.toNat, mps2I2cMsgWrite⟩ :
    Mps2I2cMsg) = first
  generalize hsecond : (⟨some p, length.toNat,
    mps2I2cMsgRead ||| mps2I2cMsgRestart ||| mps2I2cMsgStop⟩ : Mps2I2cMsg) = second
  have hplaced : [(⟨.addressBuffer, BitVec.ofNat 32 device.addressWidth.toNat, mps2I2cMsgWrite⟩ :
      Message), ⟨.memory p, length, mps2I2cMsgRead ||| mps2I2cMsgRestart ||| mps2I2cMsgStop⟩].map
      (·.placed frame.place) = [first, second] := by
    have hlen : (BitVec.ofNat 32 device.addressWidth.toNat).toNat = device.addressWidth.toNat := by
      rw [BitVec.toNat_ofNat]
      omega
    simp only [List.map_cons, List.map_nil, Message.placed, hlen, ← hfirst, ← hsecond]
    rfl
  have hcheck : checkMessages none [first, second] = mps2I2cOk := by
    rw [← hfirst, ← hsecond]
    refine (checkMessages_cons mps2I2cMsgWrite hwidth1 (by decide) (.inl rfl)).trans ?_
    exact checkMessages_cons _ hsome (by decide) (.inr (by decide))
  have hwrite : isRead first = false := by
    rw [← hfirst]
    exact show decide (mps2I2cMsgWrite &&& mps2I2cMsgRead ≠ 0) = false by decide
  have hkeep : hasStop first = false := by
    rw [← hfirst]
    exact show decide (mps2I2cMsgWrite &&& mps2I2cMsgStop ≠ 0) = false by decide
  have hread : isRead second = true := by
    rw [← hsecond]
    exact show decide ((mps2I2cMsgRead ||| mps2I2cMsgRestart ||| mps2I2cMsgStop) &&&
      mps2I2cMsgRead ≠ 0) = true by decide
  have hlength : (s.memory.bytes frame.addressBuffer device.addressWidth.toNat).length =
      device.addressWidth.toNat := by simp [Memory.bytes]
  generalize hwire : written device.targetAddr false
    (s.memory.bytes frame.addressBuffer device.addressWidth.toNat) false = m
  have hexchange : ∀ supply, exchange supply device.targetAddr false 0 s.memory [first, second] =
      ([m, wireMessage supply device.targetAddr true 0 s.memory second],
        memoryAfter supply 0 s.memory second second.len) := by
    intro supply
    rw [exchange_random hwrite hkeep, ← hwire, ← hfirst]
    rfl
  have hreads : m.reads = false := by rw [← hwire, written_reads]
  have hcommits : commits device m = false := by
    have hdata : m.data.length = device.addressWidth.toNat := by
      rw [← List.length_map Prod.fst, ← hwire, written_data, hlength]
    rw [commits, hreads, hdata, decide_eq_false (Nat.lt_irrefl _)]
    rfl
  have hhear : Chip.hear device s.chip m = ⟨s.chip.cells, memoryAddr.toNat⟩ := by
    rw [← hwire, ← List.append_nil (s.memory.bytes _ _), hear_written hlength, haddress]
    rfl
  have hsends : ∀ supply, Sends device supply s.chip 0
      (exchange supply device.targetAddr false 0 s.memory [first, second]).1 ↔
      ∀ k < length.toNat, supply k = s.chip.cells ((memoryAddr.toNat + k) % cellCount device) := by
    intro supply
    rw [hexchange]
    exact sends_random hreads hhear (wireMessage_read hread).1
      ((wireMessage_read hread).2.trans (by rw [← hsecond]))
  refine transfer_total hin hplaced (List.cons_ne_nil _ _) hcheck
    ⟨fun k => s.chip.cells ((memoryAddr.toNat + k) % cellCount device), (hsends _).mpr fun _ _ => rfl⟩
    hnack fun supply hsupply => ?_
  have hreads2 : (wireMessage supply device.targetAddr true 0 s.memory second).reads = true :=
    (wireMessage_read hread).1
  have hcommits2 : commits device
      (wireMessage supply device.targetAddr true 0 s.memory second) = false := by
    rw [commits, hreads2]
    rfl
  have hafter : memoryAfter supply 0 s.memory second second.len =
      s.memory.write p (s.chip.cells.read memoryAddr.toNat length.toNat) := by
    rw [← hsecond] at hread ⊢
    exact memoryAfter_cells hread ((hsends supply).mp hsupply) hrange.cells
  have hhear2 : ∃ pointer, Chip.hear device ⟨s.chip.cells, memoryAddr.toNat⟩
      (wireMessage supply device.targetAddr true 0 s.memory second) = ⟨s.chip.cells, pointer⟩ := by
    unfold Chip.hear
    rw [if_pos hreads2]
    exact ⟨_, rfl⟩
  obtain ⟨pointer, hhear2⟩ := hhear2
  rw [hexchange, List.foldl_cons, List.foldl_cons, List.foldl_nil, hhear, hhear2, List.any_cons,
    List.any_cons, hcommits, hcommits2, hafter]
  exact hok pointer

end Rules

end CortexLabs.Eeprom

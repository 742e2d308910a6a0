import CortexLabs.Eeprom.Wired

/-! The calls of the driver over the wire, one after the other.  What they do is said once, for an
array of cells, a memory, and a write cycle that may not be over; whatever the wires, the target and
the write cycles do, every sequence of calls is one of these. -/

namespace CortexLabs.Eeprom

open Device I2c

variable {device : EepromDevice} {pins : Pins} {frame : Frame} {bus : Mps2I2cBus}
  {memoryAddr : BitVec 16} {data : Option Nat} {length : Word} {s : Board} {p : Nat}

/-! ### The buffers -/

/-- The part is as it was, and only a write cycle may be over. -/
structure Board.Kept (s s' : Board) : Prop where
  chip : s'.chip = s.chip
  busy : s'.busy = true → s.busy = true

theorem Board.Kept.refl (s : Board) : s.Kept s := ⟨rfl, id⟩

theorem Board.Kept.trans {s s' s'' : Board} (h : s.Kept s') (h' : s'.Kept s'') : s.Kept s'' :=
  ⟨h'.chip.trans h.chip, fun hbusy => h.busy (h'.busy hbusy)⟩

/-- The operations of the driver on memory. -/
def Op.Local : Op → Prop
  | .load _ | .store _ _ _ => True
  | .transfer _ _ _ | .probe _ _ => False

section Buffers

variable {α : Type}

theorem local_total {Q : α → Board → Prop} {C : Prop} {prog : EepromProgram α}
    (hlocal : prog.Issues Op.Local) (h : wp (wired device pins frame) Q prog s) :
    Total (wired device pins frame) Q C prog s := by
  refine Total.of_wp (D := wired device pins frame) (f := id) (fun _ _ _ _ _ h => h)
    (fun s o ho => ?_) (fun _ _ _ _ h => h) hlocal h
  cases o with
  | load address => exact ⟨_, s, s.busy, id, rfl, rfl⟩
  | store buffer index value => exact ⟨(), _, s.busy, id, rfl⟩
  | transfer bus messages targetAddr => exact ho.elim
  | probe bus targetAddr => exact ho.elim

theorem board_load (address : Nat) :
    wp (wired device pins frame) (fun value s' => value = s.memory address ∧ s.Kept s' ∧
      s'.memory = s.memory) (load address) s := by
  rintro _ _ ⟨busy, hbusy, rfl, rfl⟩
  exact ⟨rfl, ⟨rfl, hbusy⟩, rfl⟩

theorem board_store (buffer : Buffer) (index : Nat) (value : Byte) :
    wp (wired device pins frame) (fun _ s' => s.Kept s' ∧
      s'.memory = Function.update s.memory (frame.place buffer + index) value)
      (store buffer index value) s := by
  rintro _ _ ⟨busy, hbusy, rfl⟩
  exact ⟨⟨rfl, hbusy⟩, rfl⟩

/-- The address is at the start of the buffer, and the rest of the memory as it was. -/
theorem board_buildMemoryAddress (buffer : Buffer) (hrange : InRange device memoryAddr length)
    (hsome : 0 < length.toNat) :
    wp (wired device pins frame) (fun addressLength s' =>
      addressLength = device.addressWidth.toNat ∧ s.Kept s' ∧
      Memory.bigEndian (s'.memory.bytes (frame.place buffer) addressLength) = memoryAddr.toNat ∧
      ∀ a, a < frame.place buffer ∨ frame.place buffer + addressLength ≤ a →
        s'.memory a = s.memory a)
      (buildMemoryAddress device memoryAddr buffer) s := by
  unfold buildMemoryAddress
  split
  · next hone =>
    refine wp_seq (board_store buffer 0 _) ?_
    rintro _ s1 ⟨hkept, hstored⟩
    have hless : memoryAddr.toNat < 256 := by
      have hcells := hrange.cells
      rw [cellCount, if_pos hone] at hcells
      omega
    refine ⟨by rw [hone]; rfl, hkept, ?_, fun a ha => ?_⟩
    · rw [hstored]
      simp [Memory.bytes, Memory.bigEndian, List.range_succ, BitVec.toNat_setWidth,
        Nat.mod_eq_of_lt hless]
    · rw [hstored, Function.update_of_ne (by omega)]
  · next hone =>
    have hwidth := hrange.width.resolve_left hone
    refine wp_seq (board_store buffer 0 _) ?_
    rintro _ s1 ⟨hkept1, hstored1⟩
    refine wp_seq (board_store buffer 1 _) ?_
    rintro _ s2 ⟨hkept2, hstored2⟩
    refine ⟨by rw [hwidth]; rfl, hkept1.trans hkept2, ?_, fun a ha => ?_⟩
    · rw [hstored2, hstored1]
      simp [Memory.bytes, Memory.bigEndian, List.range_succ, BitVec.toNat_setWidth]
      have hless := memoryAddr.isLt
      rw [Nat.shiftRight_eq_div_pow]
      omega
    · rw [hstored2, hstored1, Function.update_of_ne (by omega), Function.update_of_ne (by omega)]

/-- The data are after the address, and the rest of the memory is as it was. -/
theorem board_appendBytes {addressLength len : Nat}
    (hclear : p + len ≤ frame.txBuffer ∨ frame.txBuffer + (addressLength + len) ≤ p) :
    wp (wired device pins frame) (fun _ s' => s.Kept s' ∧
      (∀ a, a < frame.txBuffer + addressLength ∨ frame.txBuffer + addressLength + len ≤ a →
        s'.memory a = s.memory a) ∧
      ∀ i < len, s'.memory (frame.txBuffer + addressLength + i) = s.memory (p + i))
      ((List.range len).foldlM (appendByte p addressLength) ()) s := by
  refine wp_foldlM_range (D := wired device pins frame) (I := fun k (_ : Unit) (s' : Board) =>
    s.Kept s' ∧
    (∀ a, a < frame.txBuffer + addressLength ∨ frame.txBuffer + addressLength + k ≤ a →
      s'.memory a = s.memory a) ∧
    ∀ i < k, s'.memory (frame.txBuffer + addressLength + i) = s.memory (p + i)) ?_ ?_
  · exact ⟨.refl s, fun _ _ => rfl, nofun⟩
  rintro k hk _ s1 ⟨hkept, hrest, hdata⟩
  refine wp_seq (board_load (p + k)) ?_
  rintro _ s2 ⟨rfl, hkept2, hmemory2⟩
  refine wp_mono (board_store .txBuffer (addressLength + k) _) ?_
  rintro _ s3 ⟨hkept3, hstored⟩
  have hstored : s3.memory = Function.update s1.memory (frame.txBuffer + (addressLength + k))
      (s1.memory (p + k)) := by rw [hstored, hmemory2]; rfl
  refine ⟨(hkept.trans hkept2).trans hkept3, fun a ha => ?_, fun i hi => ?_⟩
  · rw [hstored, Function.update_of_ne (by omega), hrest a (by omega)]
  · rcases Nat.lt_succ_iff_lt_or_eq.mp hi with hless | rfl
    · rw [hstored, Function.update_of_ne (by omega), hdata i hless]
    · rw [hstored, ← Nat.add_assoc, Function.update_self, hrest (p + i) (by omega)]

end Buffers

/-! ### What the calls do -/

/-- The calls of the driver. -/
inductive Call where
  | write (memoryAddr : BitVec 16) (data : Option Nat) (length : Word)
  | read (memoryAddr : BitVec 16) (data : Option Nat) (length : Word)
  | waitReady

def Call.program (device : EepromDevice) : Call → EepromProgram Int
  | .write memoryAddr data length => eepromWrite (some device) memoryAddr data length
  | .read memoryAddr data length => eepromRead (some device) memoryAddr data length
  | .waitReady => eepromWaitReady (some device)

/-- The cells of the part, the memory, and whether a write cycle may not be over. -/
structure View where
  cells : Memory
  memory : Memory
  busy : Bool

/-- What polling returns, and whether the write cycle may still go on then. -/
inductive Polled (device : EepromDevice) (busy : Bool) : Int → Bool → Prop
  | ready : device.readyPollLimit ≠ 0 → Polled device busy eepromOk false
  | notReady : device.readyPollLimit ≠ 0 → busy = true → Polled device busy eepromErrNotReady true
  | refused : device.readyPollLimit = 0 → Polled device busy eepromErrArgument busy

/-- What a call does and returns.  A transfer is lost only in a write cycle, and then the call has
no effect. -/
inductive Outcome (device : EepromDevice) (v : View) : Call → Int → View → Prop
  | refusedWrite {memoryAddr : BitVec 16} {data : Option Nat} {length : Word} {status : Int} :
    checkWrite (some device) memoryAddr data length = .error status →
    Outcome device v (.write memoryAddr data length) status v
  | lostWrite {memoryAddr : BitVec 16} {p : Nat} {length : Word} :
    Writable device memoryAddr (some p) length → v.busy = true →
    Outcome device v (.write memoryAddr (some p) length) eepromErrTransfer v
  | written {memoryAddr : BitVec 16} {p : Nat} {length : Word} {status : Int} {busy : Bool} :
    Writable device memoryAddr (some p) length → Polled device true status busy →
    Outcome device v (.write memoryAddr (some p) length) status
      ⟨v.cells.write memoryAddr.toNat (v.memory.read p length.toNat), v.memory, busy⟩
  | refusedRead {memoryAddr : BitVec 16} {data : Option Nat} {length : Word} {status : Int} :
    checkRead (some device) memoryAddr data length = .error status →
    Outcome device v (.read memoryAddr data length) status v
  | lostRead {memoryAddr : BitVec 16} {p : Nat} {length : Word} :
    Readable device memoryAddr (some p) length → v.busy = true →
    Outcome device v (.read memoryAddr (some p) length) eepromErrTransfer v
  | read {memoryAddr : BitVec 16} {p : Nat} {length : Word} :
    Readable device memoryAddr (some p) length →
    Outcome device v (.read memoryAddr (some p) length) eepromOk
      ⟨v.cells, v.memory.write p (v.cells.read memoryAddr.toNat length.toNat), false⟩
  | waited {status : Int} {busy : Bool} : Polled device v.busy status busy →
    Outcome device v .waitReady status { v with busy }

/-- An address in a local buffer. -/
def Frame.Holds (frame : Frame) (a : Nat) : Prop :=
  frame.txBuffer ≤ a ∧ a < frame.txBuffer + (2 + eepromMaxPayloadSize) ∨
    frame.addressBuffer ≤ a ∧ a < frame.addressBuffer + 2

/-- The memory that a call is given is not that of the local buffers. -/
def Call.Clear (frame : Frame) : Call → Prop
  | .write _ (some p) length | .read _ (some p) length =>
    ∀ a, p ≤ a → a < p + length.toNat → ¬frame.Holds a
  | .write _ none _ | .read _ none _ | .waitReady => True

/-- The board is as it is viewed, but for what is in the local buffers. -/
structure View.Shows (frame : Frame) (v : View) (s : Board) : Prop where
  cells : s.chip.cells = v.cells
  memory : ∀ a, ¬frame.Holds a → s.memory a = v.memory a
  busy : s.busy = true → v.busy = true

/-! ### Each call -/

section Steps

variable {C : Prop} {v : View}

/-- Polling comes to an end: with the part ready, or with as many polls as are allowed. -/
theorem pollReady_total (hin : Installed device bus) (n : Nat) (s : Board) :
    Total (wired device pins frame) (fun status s' => s'.chip.cells = s.chip.cells ∧
      s'.memory = s.memory ∧ (status = eepromOk ∧ s'.busy = false ∨
        status = eepromErrNotReady ∧ s'.busy = s.busy ∧ (0 < n → s.busy = true))) C
      (pollReady device n) s := by
  induction n with
  | zero => exact .ret ⟨rfl, rfl, .inr ⟨rfl, rfl, fun h => absurd h (Nat.lt_irrefl 0)⟩⟩
  | succ n ih =>
    refine probe_total hin (fun hbusy => ?_) fun pointer => ?_
    · rw [if_neg (by decide), if_neg (not_not.mpr rfl)]
      refine ih.mono ?_ id
      rintro status s' ⟨hcells, hmemory, hready | ⟨hstatus, hsame, -⟩⟩
      · exact ⟨hcells, hmemory, .inl hready⟩
      · exact ⟨hcells, hmemory, .inr ⟨hstatus, hsame, fun _ => hbusy⟩⟩
    · exact .ret ⟨rfl, rfl, .inl ⟨rfl, rfl⟩⟩

theorem eepromWaitReady_total (hin : Installed device bus) (s : Board) :
    Total (wired device pins frame) (fun status s' => s'.chip.cells = s.chip.cells ∧
      s'.memory = s.memory ∧ Polled device s.busy status s'.busy) C
      (eepromWaitReady (some device)) s := by
  unfold eepromWaitReady
  dsimp only
  by_cases hlimit : device.readyPollLimit = 0
  · rw [if_pos (.inr hlimit)]
    exact .ret ⟨rfl, rfl, .refused hlimit⟩
  · have hbus : ¬device.bus.isNone := by rw [hin.found]; exact Bool.false_ne_true
    rw [if_neg (not_or.mpr ⟨hbus, hlimit⟩)]
    have hpos : 0 < device.readyPollLimit.toNat :=
      Nat.pos_of_ne_zero fun hzero => hlimit (BitVec.eq_of_toNat_eq hzero)
    refine (pollReady_total hin _ s).mono ?_ id
    rintro status s' ⟨hcells, hmemory, ⟨rfl, hready⟩ | ⟨rfl, hsame, hbusy⟩⟩
    · exact ⟨hcells, hmemory, hready ▸ .ready hlimit⟩
    · refine ⟨hcells, hmemory, ?_⟩
      rw [hsame, hbusy hpos]
      exact .notReady hlimit rfl

theorem Polled.mono {busy busy' : Bool} {status : Int} (h : Polled device busy status busy')
    {wider : Bool} (hwider : busy = true → wider = true) :
    ∃ wider', Polled device wider status wider' ∧ (busy' = true → wider' = true) := by
  cases h with
  | ready hlimit => exact ⟨false, .ready hlimit, id⟩
  | notReady hlimit hbusy => exact ⟨true, .notReady hlimit (hwider hbusy), id⟩
  | refused hlimit => exact ⟨wider, .refused hlimit, hwider⟩

theorem buildMemoryAddress_local (buffer : Buffer) :
    (buildMemoryAddress device memoryAddr buffer).Issues Op.Local := by
  unfold buildMemoryAddress
  split
  · exact ⟨trivial, fun _ => trivial⟩
  · exact ⟨trivial, fun _ => ⟨trivial, fun _ => trivial⟩⟩

theorem appendBytes_local (addressLength len : Nat) :
    ((List.range len).foldlM (appendByte p addressLength) ()).Issues Op.Local := by
  refine Program.issues_foldlM (fun _ index _ => ?_) ()
  exact ⟨trivial, fun _ => ⟨trivial, fun _ => trivial⟩⟩

/-- Memory outside the local buffers does not meet `tx_buffer`. -/
theorem clear_txBuffer {len : Nat} (hsome : 0 < len)
    (hclear : ∀ a, p ≤ a → a < p + len → ¬frame.Holds a) :
    p + len ≤ frame.txBuffer ∨ frame.txBuffer + (2 + eepromMaxPayloadSize) ≤ p := by
  by_contra hmeet
  refine hclear (max p frame.txBuffer) (Nat.le_max_left _ _) ?_ (.inl ⟨Nat.le_max_right _ _, ?_⟩)
  · omega
  · omega

theorem eepromWrite_total (hin : Installed device bus)
    (hpage : device.pageSize.toNat ≤ eepromMaxPayloadSize)
    (h : Writable device memoryAddr (some p) length)
    (hclear : ∀ a, p ≤ a → a < p + length.toNat → ¬frame.Holds a) (hs : v.Shows frame s) :
    Total (wired device pins frame) (fun status s' => ∃ v',
      Outcome device v (.write memoryAddr (some p) length) status v' ∧ v'.Shows frame s') C
      (eepromWrite (some device) memoryAddr (some p) length) s := by
  have hwidth := h.range.width_le
  have hfits : device.addressWidth.toNat + length.toNat ≤ 2 + eepromMaxPayloadSize := by
    have := h.page
    omega
  have hmeet := clear_txBuffer h.nonempty hclear
  unfold eepromWrite
  rw [checkWrite_ok.mpr ⟨rfl, rfl, h⟩]
  refine (local_total (buildMemoryAddress_local _)
    (board_buildMemoryAddress .txBuffer h.range h.nonempty)).seq ?_
  rintro _ s1 ⟨rfl, hkept1, haddress, hrest1⟩
  have hrest1 : ∀ a, a < frame.txBuffer ∨ frame.txBuffer + device.addressWidth.toNat ≤ a →
      s1.memory a = s.memory a := hrest1
  refine (local_total (appendBytes_local _ _) (board_appendBytes (by omega))).seq ?_
  rintro _ s2 ⟨hkept2, hrest2, hdata⟩
  have hkept := hkept1.trans hkept2
  have hshows : v.Shows frame s2 := by
    refine ⟨(congrArg Chip.cells hkept.chip).trans hs.cells, fun a ha => ?_,
      fun hbusy => hs.busy (hkept.busy hbusy)⟩
    have hout : a < frame.txBuffer ∨ frame.txBuffer + (2 + eepromMaxPayloadSize) ≤ a := by
      by_contra hin
      exact ha (.inl ⟨by omega, by omega⟩)
    rw [hrest2 a (by omega), hrest1 a (by omega), hs.memory a ha]
  have haddress2 : Memory.bigEndian (s2.memory.bytes frame.txBuffer device.addressWidth.toNat) =
      memoryAddr.toNat := by
    rw [← haddress]
    exact congrArg _ (Memory.bytes_congr fun i hi => hrest2 _ (by omega))
  have hsource : s1.memory.read p length.toNat = v.memory.read p length.toNat := by
    refine Memory.read_congr fun i hi => ?_
    rw [hrest1 _ (by omega), hs.memory _ (hclear _ (by omega) (by omega))]
  refine write_total hin h.range h.nonempty h.page haddress2 hdata (fun hbusy => ?_) fun pointer => ?_
  · exact .ret ⟨v, .lostWrite h (hshows.busy hbusy), hshows⟩
  · rw [if_neg (not_not.mpr rfl), hsource, hkept.chip, hs.cells]
    refine (eepromWaitReady_total hin _).mono ?_ id
    rintro status s' ⟨hcells, hmemory, hpolled⟩
    exact ⟨_, .written h hpolled, hcells, fun a ha => (congrFun hmemory a).trans (hshows.memory a ha),
      id⟩

theorem eepromRead_total (hin : Installed device bus)
    (h : Readable device memoryAddr (some p) length) (hs : v.Shows frame s) :
    Total (wired device pins frame) (fun status s' => ∃ v',
      Outcome device v (.read memoryAddr (some p) length) status v' ∧ v'.Shows frame s') C
      (eepromRead (some device) memoryAddr (some p) length) s := by
  have hwidth := h.range.width_le
  unfold eepromRead
  rw [checkRead_ok.mpr ⟨rfl, rfl, h⟩]
  refine (local_total (buildMemoryAddress_local _)
    (board_buildMemoryAddress .addressBuffer h.range h.nonempty)).seq ?_
  rintro _ s1 ⟨rfl, hkept1, haddress, hrest1⟩
  have hshows : v.Shows frame s1 := by
    refine ⟨(congrArg Chip.cells hkept1.chip).trans hs.cells, fun a ha => ?_,
      fun hbusy => hs.busy (hkept1.busy hbusy)⟩
    refine (hrest1 a ?_).trans (hs.memory a ha)
    by_contra hin
    have hin : frame.addressBuffer ≤ a ∧ a < frame.addressBuffer + device.addressWidth.toNat := by
      simpa [Frame.place] using hin
    exact ha (.inr ⟨by omega, by omega⟩)
  refine read_total hin h.range h.nonempty haddress (fun hbusy => ?_) fun pointer => ?_
  · exact .ret ⟨v, .lostRead h (hshows.busy hbusy), hshows⟩
  · refine .ret ⟨_, .read h, hshows.cells, fun a ha => ?_, nofun⟩
    show s1.memory.write p (s1.chip.cells.read _ _) a = v.memory.write p _ a
    rw [hshows.cells, Memory.write, Memory.write, hshows.memory a ha]

theorem call_total (hin : Installed device bus)
    (hpage : device.pageSize.toNat ≤ eepromMaxPayloadSize) {c : Call} (hclear : c.Clear frame)
    (hs : v.Shows frame s) :
    Total (wired device pins frame) (fun status s' => ∃ v', Outcome device v c status v' ∧
      v'.Shows frame s') C (c.program device) s := by
  cases c with
  | write memoryAddr data length =>
    by_cases h : Writable device memoryAddr data length
    · obtain ⟨p, rfl⟩ := Option.isSome_iff_exists.mp h.data
      exact eepromWrite_total hin hpage h hclear hs
    · show Total (wired device pins frame) _ C (eepromWrite (some device) memoryAddr data length) s
      unfold eepromWrite
      cases hcheck : checkWrite (some device) memoryAddr data length with
      | error status =>
        exact .ret ⟨v, .refusedWrite hcheck, hs⟩
      | ok found => exact absurd (checkWrite_ok.mp hcheck).2.2 h
  | read memoryAddr data length =>
    by_cases h : Readable device memoryAddr data length
    · obtain ⟨p, rfl⟩ := Option.isSome_iff_exists.mp h.data
      exact eepromRead_total hin h hs
    · show Total (wired device pins frame) _ C (eepromRead (some device) memoryAddr data length) s
      unfold eepromRead
      cases hcheck : checkRead (some device) memoryAddr data length with
      | error status =>
        exact .ret ⟨v, .refusedRead hcheck, hs⟩
      | ok found => exact absurd (checkRead_ok.mp hcheck).2.2 h
  | waitReady =>
    refine (eepromWaitReady_total hin s).mono ?_ id
    rintro status s' ⟨hcells, hmemory, hpolled⟩
    obtain ⟨busy, hpolled', hbusy⟩ := hpolled.mono hs.busy
    exact ⟨_, .waited hpolled', hcells.trans hs.cells,
      fun a ha => (congrFun hmemory a).trans (hs.memory a ha), hbusy⟩

end Steps

/-- Every sequence of calls over the wire comes to an end, and, whatever the target and its write
cycles do, it is one of calls on an array of cells. -/
theorem wired_calls (hin : Installed device bus)
    (hpage : device.pageSize.toNat ≤ eepromMaxPayloadSize) {cs : List Call}
    (hclear : ∀ c ∈ cs, c.Clear frame) {v : View} (hs : v.Shows frame s) :
    (∃ t rs s', Exec (wired device pins frame) (cs.mapM (Call.program device)) s t (some rs) s') ∧
    ∀ t x s', Exec (wired device pins frame) (cs.mapM (Call.program device)) s t x s' →
      ∃ rs, x = some rs ∧ ∃ v', Sequence (Outcome device) v cs rs v' ∧ v'.Shows frame s' := by
  have htotal : Total (wired device pins frame) (fun rs s' => ∃ v',
      Sequence (Outcome device) v cs rs v' ∧ v'.Shows frame s') False
      (cs.mapM (Call.program device)) s :=
    total_sequence (D := wired device pins frame) (I := View.Shows frame) (p := Call.program device) cs
      (fun _ c hc _ hs => call_total hin hpage (hclear c hc) hs) hs
  exact htotal.result

/-- A write on the device of the board and a read of it: if the write succeeds, so does the read, with
the data. -/
theorem wired_calls_board : ∃ t rs s', Exec (wired boardEeprom lowPins ⟨0x20, 0x50⟩)
    ([Call.write 0x10 (some 0x100) 4, .read 0x10 (some 0x200) 4].mapM (Call.program boardEeprom))
    ⟨⟨fun _ => 0, 0⟩, false, BitVec.ofNat 8⟩ t (some rs) s' ∧
    (rs.head? = some eepromOk → rs = [eepromOk, eepromOk] ∧ s'.memory 0x203 = 0x03) := by
  have hvalue : ∀ m c : Memory, m.write 0x200 ((c.write 0x10 (m.read 0x100 4)).read 0x10 4)
      (0x200 + 3) = m (0x100 + 3) := by
    intro m c
    rw [Memory.write_inside (by decide), Memory.getElem_read, Memory.write_inside (by decide),
      Memory.getElem_read]
  have hlow : ∀ a, Frame.Holds ⟨0x20, 0x50⟩ a → a < 0x60 := by
    rintro a (⟨-, h⟩ | ⟨-, h⟩) <;> exact Nat.lt_trans h (by decide)
  have hclear : ∀ c ∈ [Call.write 0x10 (some 0x100) 4, .read 0x10 (some 0x200) 4],
      c.Clear ⟨0x20, 0x50⟩ := by
    intro c hc
    rcases List.mem_cons.mp hc with rfl | hc
    · exact fun a hle _ hheld => Nat.not_lt.mpr hle (Nat.lt_trans (hlow a hheld) (by decide))
    · obtain rfl := List.mem_singleton.mp hc
      exact fun a hle _ hheld => Nat.not_lt.mpr hle (Nat.lt_trans (hlow a hheld) (by decide))
  obtain ⟨⟨t, rs, s', h⟩, hall⟩ := @wired_calls boardEeprom lowPins ⟨0x20, 0x50⟩
    ⟨some 0x40029000, 1, 1⟩ ⟨⟨fun _ => 0, 0⟩, false, BitVec.ofNat 8⟩
    ⟨rfl, by decide, by decide⟩ (by decide) _ hclear ⟨fun _ => 0, BitVec.ofNat 8, false⟩
    ⟨rfl, fun _ _ => rfl, id⟩
  obtain ⟨_, ⟨rfl⟩, v', hsequence, hshows⟩ := hall t _ s' h
  refine ⟨t, rs, s', h, fun hok => ?_⟩
  cases hsequence with
  | cons hwrite hrest =>
    cases hrest with
    | cons hread hnil =>
      cases hnil
      obtain rfl := Option.some.inj hok
      cases hwrite with
      | refusedWrite hcheck => exact absurd rfl (checkWrite_error hcheck)
      | written _ hpolled =>
        cases hpolled
        cases hread with
        | refusedRead hcheck => cases hcheck
        | lostRead _ hbusy => cases hbusy
        | read _ =>
          have hheld : ¬Frame.Holds ⟨0x20, 0x50⟩ 0x203 := fun hheld =>
            absurd (hlow _ hheld) (by decide)
          refine ⟨rfl, (hshows.memory 0x203 hheld).trans ?_⟩
          exact hvalue (BitVec.ofNat 8) fun _ => 0

end CortexLabs.Eeprom

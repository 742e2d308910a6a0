import CortexLabs.Eeprom.Driver

/-! The bounds of the buffer that `eeprom_write` fills.  The limit of the page size is compared with
a status, so that pages larger than the buffer pass, and then the bound rests on the length alone. -/

namespace CortexLabs.Eeprom

open Device I2c

variable {device : EepromDevice} {memoryAddr : BitVec 16} {data : Option Nat} {length : Word}

instance (o : Op) : Nonempty (Ans o) := by
  cases o
  · exact ⟨(0 : Byte)⟩
  · exact ⟨()⟩
  · exact ⟨(0 : Int)⟩
  · exact ⟨(0 : Int)⟩

/-- A store is inside `tx_buffer`, and a message is the address and the data and not longer than
`tx_buffer`. -/
def Op.InBuffer (device : EepromDevice) (length : Word) : Op → Prop
  | .store .txBuffer index _ => index < 2 + eepromMaxPayloadSize
  | .transfer _ messages _ => ∀ message ∈ messages,
    message.len.toNat = device.addressWidth.toNat + length.toNat ∧
    message.len.toNat ≤ 2 + eepromMaxPayloadSize
  | .load _ | .store .addressBuffer _ _ | .store (.memory _) _ _ | .probe _ _ => True

/-- Every store of `eeprom_write` into `tx_buffer` and every message that it sends keep to the
bounds, whatever the calls of the master return. -/
def StaysInBuffer (device : EepromDevice) (memoryAddr : BitVec 16) (data : Option Nat)
    (length : Word) : Prop :=
  (eepromWrite (some device) memoryAddr data length).Issues (Op.InBuffer device length)

theorem InRange.width (h : InRange device memoryAddr length) :
    device.addressWidth = 1 ∨ device.addressWidth = 2 := by
  obtain ⟨limit, hlimit, -⟩ := h
  unfold addressLimit at hlimit
  split at hlimit
  · next hone => exact .inl hone
  split at hlimit
  · next htwo => exact .inr htwo
  · cases hlimit

theorem InRange.width_le (h : InRange device memoryAddr length) :
    device.addressWidth.toNat ≤ 2 := by
  rcases h.width with hone | htwo
  · rw [hone]
    decide
  · rw [htwo]
    decide

theorem InRange.length_le (h : InRange device memoryAddr length) : length.toNat ≤ 65536 := by
  obtain ⟨limit, hlimit, hle⟩ := h
  unfold addressLimit at hlimit
  split at hlimit
  · cases hlimit
    exact Nat.le_trans (Nat.le_add_left _ _) (Nat.le_trans hle (by decide))
  split at hlimit
  · cases hlimit
    exact Nat.le_trans (Nat.le_add_left _ _) hle
  · cases hlimit

/-- The operations of a sequence that begins with the address. -/
theorem buildMemoryAddress_issues {P : Op → Prop} {buffer : Buffer} {α : Type}
    {f : Nat → EepromProgram α} (hwidth : device.addressWidth = 1 ∨ device.addressWidth = 2)
    (hstore : ∀ index < 2, ∀ value, P (.store buffer index value)) :
    (buildMemoryAddress device memoryAddr buffer >>= f).Issues P ↔
      (f device.addressWidth.toNat).Issues P := by
  unfold buildMemoryAddress
  rcases hwidth with hone | htwo
  · rw [if_pos hone, hone]
    exact ⟨fun h => h.2 (), fun h => ⟨hstore 0 (by omega) _, fun _ => h⟩⟩
  · rw [if_neg (by rw [htwo]; decide), htwo]
    refine ⟨fun h => (h.2 ()).2 (), fun h => ?_⟩
    exact ⟨hstore 0 (by omega) _, fun _ => ⟨hstore 1 (by omega) _, fun _ => h⟩⟩

theorem pollReady_issues {P : Op → Prop} (hprobe : ∀ bus targetAddr, P (.probe bus targetAddr))
    (n : Nat) : (pollReady device n).Issues P := by
  induction n with
  | zero => trivial
  | succ n ih =>
    refine ⟨hprobe _ _, fun result => ?_⟩
    dsimp only [Program.ret_bind]
    split
    · trivial
    split
    · trivial
    · exact ih

theorem eepromWaitReady_issues {P : Op → Prop}
    (hprobe : ∀ bus targetAddr, P (.probe bus targetAddr)) :
    (eepromWaitReady (some device)).Issues P := by
  unfold eepromWaitReady
  dsimp only
  split
  · trivial
  · exact pollReady_issues hprobe _

/-- The messages have the lengths that are meant. -/
theorem InRange.message_len (h : InRange device memoryAddr length) :
    (BitVec.ofNat 32 device.addressWidth.toNat + length).toNat =
      device.addressWidth.toNat + length.toNat := by
  have hlen := h.length_le
  have hwidth := h.width_le
  rw [BitVec.toNat_add, BitVec.toNat_ofNat]
  omega

theorem address_inBuffer (index : Nat) (hindex : index < 2) (value : Byte) :
    Op.InBuffer device length (.store .txBuffer index value) := by
  show index < 2 + eepromMaxPayloadSize
  omega

/-- A call that passes its checks keeps to the bounds if the address and the data fit. -/
theorem staysInBuffer_of_fits (h : Writable device memoryAddr data length)
    (hfits : device.addressWidth.toNat + length.toNat ≤ 2 + eepromMaxPayloadSize) :
    StaysInBuffer device memoryAddr data length := by
  obtain ⟨p, hdata⟩ := Option.isSome_iff_exists.mp h.data
  unfold StaysInBuffer eepromWrite
  rw [checkWrite_ok.mpr ⟨rfl, hdata, h⟩]
  refine (buildMemoryAddress_issues h.range.width address_inBuffer).mpr ?_
  refine Program.issues_bind (Program.issues_foldlM (fun _ index hindex => ?_) ()) fun _ => ?_
  · have hless := List.mem_range.mp hindex
    refine ⟨trivial, fun value => ⟨?_, fun _ => trivial⟩⟩
    show device.addressWidth.toNat + index < 2 + eepromMaxPayloadSize
    omega
  refine ⟨?_, fun result => ?_⟩
  · intro message hmessage
    rw [List.mem_singleton.mp hmessage, h.range.message_len]
    exact ⟨rfl, hfits⟩
  dsimp only [Program.ret_bind]
  split
  · trivial
  · exact eepromWaitReady_issues fun _ _ => trivial

/-- A call that passes its checks sends the message that overruns the buffer. -/
theorem not_staysInBuffer (h : Writable device memoryAddr data length)
    (hover : 2 + eepromMaxPayloadSize < device.addressWidth.toNat + length.toNat) :
    ¬ StaysInBuffer device memoryAddr data length := by
  intro hstays
  obtain ⟨p, hdata⟩ := Option.isSome_iff_exists.mp h.data
  unfold StaysInBuffer eepromWrite at hstays
  rw [checkWrite_ok.mpr ⟨rfl, hdata, h⟩] at hstays
  obtain ⟨_, hmessage, -⟩ :=
    Program.Issues.of_bind ((buildMemoryAddress_issues h.range.width address_inBuffer).mp hstays)
  obtain ⟨hlen, hbound⟩ := hmessage _ List.mem_cons_self
  omega

theorem staysInBuffer_of_refused (h : ¬ Writable device memoryAddr data length) :
    StaysInBuffer device memoryAddr data length := by
  obtain ⟨status, hwrite, -⟩ := eepromWrite_refused h
  rw [StaysInBuffer, hwrite]
  trivial

/-- `eeprom_write` stays inside its buffer exactly if it refuses its arguments or the address and
the data fit. -/
theorem staysInBuffer_iff (device : EepromDevice) (memoryAddr : BitVec 16) (data : Option Nat)
    (length : Word) :
    StaysInBuffer device memoryAddr data length ↔
      (Writable device memoryAddr data length →
        device.addressWidth.toNat + length.toNat ≤ 2 + eepromMaxPayloadSize) := by
  by_cases h : Writable device memoryAddr data length
  · constructor
    · intro hstays _
      by_contra hover
      exact not_staysInBuffer h (by omega) hstays
    · exact fun hfits => staysInBuffer_of_fits h (hfits h)
  · exact ⟨fun _ hwritable => absurd hwritable h, fun _ => staysInBuffer_of_refused h⟩

/-- A device whose pages are larger than the buffer. -/
def largePages : EepromDevice := ⟨some ⟨some 0x40029000, 1, 1⟩, 0x50, 2, 64, 1000⟩

/-- One byte more than the buffer holds. -/
theorem largePages_overrun : ¬ StaysInBuffer largePages 0 (some 0) 33 := by
  refine not_staysInBuffer ?_ (by decide)
  exact ⟨rfl, rfl, by decide, by decide, ⟨65536, rfl, by decide⟩, by decide⟩

/-- No page of the size that the buffer is made for overruns it. -/
theorem staysInBuffer_of_page (hpage : device.pageSize.toNat ≤ eepromMaxPayloadSize) :
    StaysInBuffer device memoryAddr data length := by
  by_cases h : Writable device memoryAddr data length
  · refine staysInBuffer_of_fits h ?_
    have hfits := h.page
    have hwidth := h.range.width_le
    omega
  · exact staysInBuffer_of_refused h

/-! ### What the master is given -/

/-- A message as the master sees it, with the buffers in their places. -/
def Message.placed (place : Buffer → Nat) (message : Message) : Mps2I2cMsg :=
  ⟨some (place message.buf), message.len.toNat, message.flags⟩

/-- Messages that pass the checks of `mps2_i2c_transfer`, wherever the buffers are. -/
def Op.Checked : Op → Prop
  | .transfer bus messages _ => bus.isSome ∧ messages ≠ [] ∧
    ∀ place, checkMessages none (messages.map (·.placed place)) = mps2I2cOk
  | .load _ | .store _ _ _ | .probe _ _ => True

/-- A message with a buffer that may come after `previous`. -/
theorem checkMessages_cons {previous : Option Mps2I2cMsg} {buf len : Nat}
    {rest : List Mps2I2cMsg} (flags : Byte) (hlen : 0 < len)
    (hflags : flags &&& ~~~(mps2I2cMsgRead ||| mps2I2cMsgStop ||| mps2I2cMsgRestart) = 0)
    (hrestart : previous = none ∨ flags &&& mps2I2cMsgRestart ≠ 0) :
    checkMessages previous (⟨some buf, len, flags⟩ :: rest) =
      checkMessages (some ⟨some buf, len, flags⟩) rest := by
  rw [checkMessages]
  dsimp only
  rw [if_neg, if_neg]
  · rintro ⟨hprevious, hno⟩
    rcases hrestart with rfl | hflag
    · cases hprevious
    · unfold hasRestart at hno
      rw [decide_eq_true hflag] at hno
      exact Bool.false_ne_true hno
  · rintro (hnone | hzero | hother)
    · cases hnone
    · omega
    · exact hother hflags

/-- The messages of `eeprom_write` and `eeprom_read` pass the checks of the master. -/
theorem eepromWrite_checked :
    (eepromWrite (some device) memoryAddr data length).Issues Op.Checked := by
  unfold eepromWrite
  cases hcheck : checkWrite (some device) memoryAddr data length with
  | error status => trivial
  | ok found =>
    obtain ⟨rfl, hdata, h⟩ := checkWrite_ok.mp (show _ = Except.ok (found.1, found.2) from hcheck)
    refine (buildMemoryAddress_issues h.range.width fun _ _ _ => trivial).mpr ?_
    refine Program.issues_bind (Program.issues_foldlM (fun _ _ _ => ?_) ()) fun _ => ?_
    · exact ⟨trivial, fun _ => ⟨trivial, fun _ => trivial⟩⟩
    refine ⟨⟨h.bus, List.cons_ne_nil _ _, fun place => ?_⟩, fun result => ?_⟩
    · refine checkMessages_cons (mps2I2cMsgWrite ||| mps2I2cMsgStop) ?_ (by decide) (.inl rfl)
      show 0 < (BitVec.ofNat 32 found.1.addressWidth.toNat + length).toNat
      have hsome := h.nonempty
      rw [h.range.message_len]
      omega
    dsimp only [Program.ret_bind]
    split
    · trivial
    · exact eepromWaitReady_issues fun _ _ => trivial

theorem eepromRead_checked :
    (eepromRead (some device) memoryAddr data length).Issues Op.Checked := by
  unfold eepromRead
  cases hcheck : checkRead (some device) memoryAddr data length with
  | error status => trivial
  | ok found =>
    obtain ⟨rfl, hdata, h⟩ := checkRead_ok.mp (show _ = Except.ok (found.1, found.2) from hcheck)
    refine (buildMemoryAddress_issues h.range.width fun _ _ _ => trivial).mpr ?_
    refine ⟨⟨h.bus, List.cons_ne_nil _ _, fun place => ?_⟩, fun result => trivial⟩
    have haddress : 0 < (BitVec.ofNat 32 found.1.addressWidth.toNat).toNat := by
      rcases h.range.width with hone | htwo
      · rw [hone]
        decide
      · rw [htwo]
        decide
    refine (checkMessages_cons mps2I2cMsgWrite haddress (by decide) (.inl rfl)).trans ?_
    exact checkMessages_cons (mps2I2cMsgRead ||| mps2I2cMsgRestart ||| mps2I2cMsgStop) h.nonempty
      (by decide) (.inr (by decide))

end CortexLabs.Eeprom

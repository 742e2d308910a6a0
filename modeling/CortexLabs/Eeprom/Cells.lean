import CortexLabs.Device.Paged
import CortexLabs.Device.Wp
import CortexLabs.Eeprom.Bounds

/-! An EEPROM of the 24C series behind the messages of the driver.  The first bytes of a write are an
address, and the bytes after them go to the cells from there on, inside one page; a read returns the
cells from the address on.  A store outside a local buffer may do anything. -/

namespace CortexLabs.Eeprom

open Device I2c

/-- The cells and the address that the device is at, the memory of the caller and the local buffers,
and what has been sent. -/
structure Part where
  cells : Memory
  pointer : Nat
  memory : Memory
  txBuffer : Memory
  addressBuffer : Memory
  sent : List (List Message)
  deriving Inhabited

namespace Part

def contents (s : Part) : Buffer → Memory
  | .txBuffer => s.txBuffer
  | .addressBuffer => s.addressBuffer
  | .memory address => fun index => s.memory (address + index)

def fill {len : Nat} (s : Part) (index : Nat) (bytes : Vector Byte len) : Buffer → Part
  | .txBuffer => { s with txBuffer := s.txBuffer.write index bytes }
  | .addressBuffer => { s with addressBuffer := s.addressBuffer.write index bytes }
  | .memory address => { s with memory := s.memory.write (address + index) bytes }

end Part

/-- The cells of the array, whose addresses have one byte or two. -/
def cellCount (device : EepromDevice) : Nat := if device.addressWidth = 1 then 256 else 65536

/-- What a message does. -/
def serve (device : EepromDevice) (s : Part) (message : Message) : Part :=
  if message.flags &&& mps2I2cMsgRead ≠ 0 then
    let bytes := s.cells.readRing (cellCount device) s.pointer message.len.toNat
    { s.fill 0 bytes message.buf with
      pointer := (s.pointer + message.len.toNat) % cellCount device }
  else
    let bytes := (s.contents message.buf).bytes 0 message.len.toNat
    let start := Memory.bigEndian (bytes.take device.addressWidth.toNat)
    let (cells, pointer) := s.cells.writePage device.pageSize.toNat start
      (bytes.drop device.addressWidth.toNat)
    { s with cells, pointer }

def Buffer.size : Buffer → Option Nat
  | .txBuffer => some (2 + eepromMaxPayloadSize)
  | .addressBuffer => some 2
  | .memory _ => none

/-- Transfers and polls succeed. -/
def at24cAnswer (device : EepromDevice) : (o : Op) → Part → Ans o × Part
  | .load address, s => (s.memory address, s)
  | .store buffer index value, s => ((), s.fill index #v[value] buffer)
  | .transfer _ messages _, s =>
    (mps2I2cOk, { messages.foldl (serve device) s with sent := s.sent ++ [messages] })
  | .probe _ _, s => (mps2I2cOk, s)

/-- A store at an index that its buffer does not have. -/
def Op.Overruns : Op → Prop
  | .store buffer index _ => ∃ size, buffer.size = some size ∧ size ≤ index
  | .load _ | .transfer _ _ _ | .probe _ _ => False

abbrev at24c (device : EepromDevice) : Behavior Op Ans where
  State := Part
  answer s o r s' :=
    o.Overruns ∨ r = (at24cAnswer device o s).1 ∧ s' = (at24cAnswer device o s).2
  torn _ _ _ := False

variable {device : EepromDevice} {memoryAddr : BitVec 16} {data : Option Nat} {length : Word}
  {s : Part} {p q : Nat}

theorem at24c_handles : Handles (at24c device) (at24cAnswer device) := fun _ _ => .inr ⟨rfl, rfl⟩

theorem part_issue {o : Op} {Q : Ans o → Part → Prop} (hbounds : ¬ o.Overruns)
    (h : Q (at24cAnswer device o s).1 (at24cAnswer device o s).2) :
    wp (at24c device) Q (Program.issue o) s := by
  rintro _ _ (hover | ⟨rfl, rfl⟩)
  · exact absurd hover hbounds
  · exact h

/-- The cells, the memory of the caller and what has been sent are the same. -/
structure Part.Same (s s' : Part) : Prop where
  cells : s'.cells = s.cells
  memory : s'.memory = s.memory
  sent : s'.sent = s.sent

theorem Part.Same.trans {s s' s'' : Part} (h : s.Same s') (h' : s'.Same s'') : s.Same s'' :=
  ⟨h'.cells.trans h.cells, h'.memory.trans h.memory, h'.sent.trans h.sent⟩

/-! ### The buffers -/

theorem part_store (buffer : Buffer) {size index : Nat} (hsize : buffer.size = some size)
    (hindex : index < size) (value : Byte) :
    wp (at24c device) (fun _ s' => s.Same s' ∧
      s'.contents buffer = Function.update (s.contents buffer) index value)
      (store buffer index value) s := by
  refine part_issue ?_ ?_
  · rintro ⟨size', hsize', hle⟩
    rw [hsize] at hsize'
    cases hsize'
    omega
  · have hwrite : ∀ m : Memory, m.write index #v[value] = Function.update m index value := by
      intro m
      funext x
      unfold Memory.write
      by_cases hx : x = index
      · subst hx
        rw [dif_pos (by omega), Function.update_self]
        simp
      · rw [dif_neg (by omega), Function.update_of_ne hx]
    cases buffer with
    | txBuffer => exact ⟨⟨rfl, rfl, rfl⟩, hwrite _⟩
    | addressBuffer => exact ⟨⟨rfl, rfl, rfl⟩, hwrite _⟩
    | memory address => cases hsize

/-- The address is at the start of the buffer. -/
theorem part_buildMemoryAddress (buffer : Buffer) {size : Nat} (hsize : buffer.size = some size)
    (htwo : 2 ≤ size) (hrange : InRange device memoryAddr length) (hsome : 0 < length.toNat) :
    wp (at24c device) (fun addressLength s' =>
      addressLength = device.addressWidth.toNat ∧ s.Same s' ∧
      Memory.bigEndian ((s'.contents buffer).bytes 0 addressLength) = memoryAddr.toNat)
      (buildMemoryAddress device memoryAddr buffer) s := by
  unfold buildMemoryAddress
  split
  · next hone =>
    refine wp_seq (part_store buffer hsize (by omega) _) ?_
    rintro _ s1 ⟨hsame, hstored⟩
    refine ⟨by rw [hone]; rfl, hsame, ?_⟩
    have hless : memoryAddr.toNat < 256 := by
      obtain ⟨limit, hlimit, hle⟩ := hrange
      unfold addressLimit at hlimit
      rw [if_pos hone] at hlimit
      cases hlimit
      have : memoryAddr.toNat + length.toNat ≤ 256 := hle
      omega
    rw [hstored]
    simp [Memory.bytes, Memory.bigEndian, List.range_succ, BitVec.toNat_setWidth,
      Nat.mod_eq_of_lt hless]
  · next hone =>
    have hwidth := hrange.width.resolve_left hone
    refine wp_seq (part_store buffer hsize (by omega) _) ?_
    rintro _ s1 ⟨hsame1, hstored1⟩
    refine wp_seq (part_store buffer hsize (by omega) _) ?_
    rintro _ s2 ⟨hsame2, hstored2⟩
    refine ⟨by rw [hwidth]; rfl, hsame1.trans hsame2, ?_⟩
    rw [hstored2, hstored1]
    simp [Memory.bytes, Memory.bigEndian, List.range_succ, BitVec.toNat_setWidth]
    have hless := memoryAddr.isLt
    rw [Nat.shiftRight_eq_div_pow]
    omega

/-- The data are after the address. -/
theorem part_appendBytes {addressLength len : Nat}
    (hfits : addressLength + len ≤ 2 + eepromMaxPayloadSize) :
    wp (at24c device) (fun _ s' => s.Same s' ∧
      (∀ i < addressLength, s'.txBuffer i = s.txBuffer i) ∧
      ∀ i < len, s'.txBuffer (addressLength + i) = s.memory (p + i))
      ((List.range len).foldlM (appendByte p addressLength) ()) s := by
  refine wp_foldlM_range (D := at24c device) (I := fun k (_ : Unit) (s' : Part) => s.Same s' ∧
    (∀ i < addressLength, s'.txBuffer i = s.txBuffer i) ∧
    ∀ i < k, s'.txBuffer (addressLength + i) = s.memory (p + i)) ?_ ?_
  · exact ⟨⟨rfl, rfl, rfl⟩, fun _ _ => rfl, nofun⟩
  rintro k hk _ (s1 : Part) ⟨hsame, haddress, hdata⟩
  refine wp_seq (Q := fun value s' => value = s1.memory (p + k) ∧ s1 = s')
    (part_issue id ⟨rfl, rfl⟩) ?_
  rintro _ _ ⟨rfl, rfl⟩
  refine wp_mono (part_store .txBuffer rfl (by omega) _) ?_
  rintro _ (s2 : Part) ⟨hsame2, hstored⟩
  have hstored : s2.txBuffer =
      Function.update s1.txBuffer (addressLength + k) (s1.memory (p + k)) := hstored
  refine ⟨hsame.trans hsame2, fun i hi => ?_, fun i hi => ?_⟩
  · rw [hstored, Function.update_of_ne (by omega), haddress i hi]
  · rcases Nat.lt_succ_iff_lt_or_eq.mp hi with hless | rfl
    · rw [hstored, Function.update_of_ne (by omega), hdata i hless]
    · rw [hstored, Function.update_self, hsame.memory]

/-! ### The calls -/

theorem part_eepromWaitReady (hbus : device.bus.isSome) :
    wp (at24c device) (fun status s' => s' = s ∧
      status = if device.readyPollLimit = 0 then eepromErrArgument else eepromOk)
      (eepromWaitReady (some device)) s := by
  unfold eepromWaitReady
  dsimp only
  by_cases hlimit : device.readyPollLimit = 0
  · have hrefused : device.bus.isNone ∨ device.readyPollLimit = 0 := .inr hlimit
    rw [if_pos hrefused, if_pos hlimit]
    exact ⟨rfl, rfl⟩
  · have hbus' : ¬ device.bus.isNone := by
      rw [Option.isNone_iff_eq_none]
      exact Option.isSome_iff_ne_none.mp hbus
    rw [if_neg (not_or.mpr ⟨hbus', hlimit⟩), if_neg hlimit]
    have hpos : device.readyPollLimit.toNat ≠ 0 :=
      fun hzero => hlimit (BitVec.eq_of_toNat_eq hzero)
    obtain ⟨n, hn⟩ := Nat.exists_eq_succ_of_ne_zero hpos
    rw [hn]
    refine wp_seq (Q := fun result s' => result = mps2I2cOk ∧ s' = s) (part_issue id ⟨rfl, rfl⟩) ?_
    rintro _ _ ⟨rfl, rfl⟩
    exact ⟨rfl, rfl⟩

/-- A message with an address and data that keep to a page writes the data to the cells. -/
theorem serve_write (hrange : InRange device memoryAddr length)
    (hpage : memoryAddr.toNat % device.pageSize.toNat + length.toNat ≤ device.pageSize.toNat)
    (haddress : Memory.bigEndian (s.txBuffer.bytes 0 device.addressWidth.toNat) =
      memoryAddr.toNat) {source : Memory}
    (hdata : ∀ i < length.toNat, s.txBuffer (device.addressWidth.toNat + i) = source (p + i)) :
    ∃ pointer, serve device s ⟨.txBuffer, BitVec.ofNat 32 device.addressWidth.toNat + length,
      mps2I2cMsgWrite ||| mps2I2cMsgStop⟩ = { s with
        cells := s.cells.write memoryAddr.toNat (source.read p length.toNat), pointer } := by
  have hbytes : s.txBuffer.bytes device.addressWidth.toNat length.toNat =
      source.bytes p length.toNat :=
    List.map_congr_left fun i hi => hdata i (List.mem_range.mp hi)
  have hlen : (s.txBuffer.bytes 0 device.addressWidth.toNat).length =
      device.addressWidth.toNat := by simp [Memory.bytes]
  unfold serve
  rw [if_neg (show ¬ (mps2I2cMsgWrite ||| mps2I2cMsgStop) &&& mps2I2cMsgRead ≠ 0 by decide)]
  dsimp only [Part.contents]
  rw [hrange.message_len, Memory.bytes_add, Nat.zero_add, hbytes, List.take_left' hlen,
    List.drop_left' hlen, haddress, Memory.writePage_eq_write hpage]
  exact ⟨_, rfl⟩

/-- A message with an address alone moves the device there. -/
theorem serve_address {len : Word} (hlen : len.toNat = device.addressWidth.toNat) :
    serve device s ⟨.addressBuffer, len, mps2I2cMsgWrite⟩ = { s with
      pointer := Memory.bigEndian (s.addressBuffer.bytes 0 device.addressWidth.toNat) } := by
  have hbytes : (s.addressBuffer.bytes 0 device.addressWidth.toNat).length =
      device.addressWidth.toNat := by simp [Memory.bytes]
  unfold serve
  rw [if_neg (show ¬ mps2I2cMsgWrite &&& mps2I2cMsgRead ≠ 0 by decide)]
  dsimp only [Part.contents]
  rw [hlen, List.take_of_length_le (by omega), List.drop_of_length_le (by omega)]
  rfl

theorem serve_read (p : Nat) (hrange : s.pointer + length.toNat ≤ cellCount device) :
    ∃ pointer, serve device s ⟨.memory p, length,
      mps2I2cMsgRead ||| mps2I2cMsgRestart ||| mps2I2cMsgStop⟩ = { s with
        memory := s.memory.write p (s.cells.read s.pointer length.toNat), pointer } := by
  unfold serve
  rw [if_pos (show (mps2I2cMsgRead ||| mps2I2cMsgRestart ||| mps2I2cMsgStop) &&&
    mps2I2cMsgRead ≠ 0 by decide), Memory.readRing_inside hrange]
  exact ⟨_, rfl⟩

theorem InRange.cells (h : InRange device memoryAddr length) :
    memoryAddr.toNat + length.toNat ≤ cellCount device := by
  obtain ⟨limit, hlimit, hle⟩ := h
  unfold addressLimit at hlimit
  unfold cellCount
  split at hlimit
  · next hone =>
    cases hlimit
    rw [if_pos hone]
    exact hle
  · next hone =>
    rw [if_neg hone]
    split at hlimit
    · cases hlimit
      exact hle
    · cases hlimit

/-- An `eeprom_write` that passes its checks sends one message and changes the cells that it names,
and fails after that if it may not poll. -/
theorem part_eepromWrite (h : Writable device memoryAddr (some p) length)
    (hpage : device.pageSize.toNat ≤ eepromMaxPayloadSize) :
    wp (at24c device) (fun status s' =>
      s'.cells = s.cells.write memoryAddr.toNat (s.memory.read p length.toNat) ∧
      s'.memory = s.memory ∧ (∃ messages, s'.sent = s.sent ++ [messages]) ∧
      status = if device.readyPollLimit = 0 then eepromErrArgument else eepromOk)
      (eepromWrite (some device) memoryAddr (some p) length) s := by
  have hfits : device.addressWidth.toNat + length.toNat ≤ 2 + eepromMaxPayloadSize := by
    have hinside := h.page
    have hwidth := h.range.width_le
    omega
  unfold eepromWrite
  rw [checkWrite_ok.mpr ⟨rfl, rfl, h⟩]
  refine wp_seq (part_buildMemoryAddress .txBuffer rfl (by decide) h.range h.nonempty) ?_
  rintro _ (s1 : Part) ⟨rfl, hsame1, haddress⟩
  refine wp_seq (part_appendBytes hfits) ?_
  rintro _ (s2 : Part) ⟨hsame2, hkept, hdata⟩
  have haddress2 : Memory.bigEndian (s2.txBuffer.bytes 0 device.addressWidth.toNat) =
      memoryAddr.toNat := by
    rw [← haddress]
    refine congrArg _ (Memory.bytes_congr fun i hi => ?_)
    rw [Nat.zero_add]
    exact hkept i hi
  obtain ⟨pointer, hserve⟩ := serve_write h.range h.page haddress2 hdata
  refine wp_seq (Q := fun result (s3 : Part) => result = mps2I2cOk ∧
    s3.cells = s.cells.write memoryAddr.toNat (s.memory.read p length.toNat) ∧
    s3.memory = s.memory ∧ ∃ messages, s3.sent = s.sent ++ [messages]) (part_issue id ?_) ?_
  · have hsame := hsame1.trans hsame2
    refine ⟨rfl, ?_⟩
    dsimp only [at24cAnswer]
    rw [List.foldl_cons, hserve]
    refine ⟨?_, hsame.memory, _, congrArg (· ++ _) hsame.sent⟩
    show s2.cells.write _ (s1.memory.read p length.toNat) = _
    rw [hsame.cells, hsame1.memory]
  rintro _ s3 ⟨rfl, hcells, hmemory, hsent⟩
  rw [if_neg (not_not.mpr rfl)]
  refine wp_mono (part_eepromWaitReady h.bus) ?_
  rintro status _ ⟨rfl, hstatus⟩
  exact ⟨hcells, hmemory, hsent, hstatus⟩

/-- An `eeprom_read` that passes its checks returns the cells that it names. -/
theorem part_eepromRead (h : Readable device memoryAddr (some p) length) :
    wp (at24c device) (fun status s' => status = eepromOk ∧ s'.cells = s.cells ∧
      s'.memory = s.memory.write p (s.cells.read memoryAddr.toNat length.toNat))
      (eepromRead (some device) memoryAddr (some p) length) s := by
  unfold eepromRead
  rw [checkRead_ok.mpr ⟨rfl, rfl, h⟩]
  refine wp_seq
    (part_buildMemoryAddress .addressBuffer rfl (Nat.le_refl 2) h.range h.nonempty) ?_
  rintro _ (s1 : Part) ⟨rfl, hsame, haddress⟩
  have haddress : Memory.bigEndian (s1.addressBuffer.bytes 0 device.addressWidth.toNat) =
      memoryAddr.toNat := haddress
  have hlen : (BitVec.ofNat 32 device.addressWidth.toNat).toNat = device.addressWidth.toNat := by
    have hwidth := h.range.width_le
    rw [BitVec.toNat_ofNat]
    omega
  have hcells : ({ s1 with pointer := memoryAddr.toNat } : Part).pointer + length.toNat ≤
      cellCount device := h.range.cells
  obtain ⟨pointer, hserve⟩ := serve_read p hcells
  refine wp_seq (Q := fun result (s2 : Part) => result = mps2I2cOk ∧ s2.cells = s.cells ∧
    s2.memory = s.memory.write p (s.cells.read memoryAddr.toNat length.toNat))
    (part_issue id ?_) ?_
  · refine ⟨rfl, ?_⟩
    dsimp only [at24cAnswer]
    rw [List.foldl_cons, List.foldl_cons, serve_address hlen, haddress, hserve]
    refine ⟨hsame.cells, ?_⟩
    show s1.memory.write p (s1.cells.read _ _) = _
    rw [hsame.memory, hsame.cells]
  · rintro _ s2 ⟨rfl, hcells, hmemory⟩
    exact ⟨rfl, hcells, hmemory⟩

/-! ### Round trips -/

/-- The statuses of a call that does not accept its arguments. -/
def Refused (status : Int) : Prop :=
  status = eepromErrArgument ∨ status = eepromErrAddressWidth ∨ status = eepromErrPageBoundary

/-- A write that succeeds changes the cells that it names to the data and no others, and a read of
them returns the data; a read that succeeds returns the cells that it names; and a call that does
not accept its arguments sends nothing. -/
structure RoundTrips (device : EepromDevice) (memoryAddr : BitVec 16) (data : Option Nat)
    (length : Word) : Prop where
  written : ∀ (s : Part) t (s' : Part),
    Exec (at24c device) (eepromWrite (some device) memoryAddr data length) s t (some eepromOk) s' →
    ∃ p, data = some p ∧
      s'.cells = s.cells.write memoryAddr.toNat (s.memory.read p length.toNat) ∧
      ∀ q u status (s'' : Part), Exec (at24c device)
        (eepromRead (some device) memoryAddr (some q) length) s' u (some status) s'' →
        status = eepromOk ∧ s''.memory.read q length.toNat = s.memory.read p length.toNat
  read : ∀ (s : Part) t (s' : Part),
    Exec (at24c device) (eepromRead (some device) memoryAddr data length) s t (some eepromOk) s' →
    ∃ p, data = some p ∧ s'.cells = s.cells ∧
      s'.memory = s.memory.write p (s.cells.read memoryAddr.toNat length.toNat)
  refused : ∀ (s : Part) t status (s' : Part), Refused status →
    (Exec (at24c device) (eepromWrite (some device) memoryAddr data length) s t (some status) s' ∨
      Exec (at24c device) (eepromRead (some device) memoryAddr data length) s t (some status) s') →
    s'.sent = s.sent

theorem not_refused_ok : ¬ Refused eepromOk := by
  rintro (h | h | h) <;> exact absurd h (by decide)

theorem Writable.readable (h : Writable device memoryAddr (some p) length) :
    Readable device memoryAddr (some q) length := ⟨h.bus, rfl, h.nonempty, h.range⟩

theorem written_of_writable (h : Writable device memoryAddr (some p) length)
    (hpage : device.pageSize.toNat ≤ eepromMaxPayloadSize) {t : List (Event (at24c device))}
    {s' : Part} (he : Exec (at24c device) (eepromWrite (some device) memoryAddr (some p) length) s t
      (some eepromOk) s') {u : List (Event (at24c device))} {status : Int} {s'' : Part}
    (hread : Exec (at24c device) (eepromRead (some device) memoryAddr (some q) length) s' u
      (some status) s'') :
    status = eepromOk ∧ s''.memory.read q length.toNat = s.memory.read p length.toNat := by
  obtain ⟨hcells, -, -, -⟩ := wp_sound (part_eepromWrite h hpage) he
  obtain ⟨hstatus, -, hmemory⟩ := wp_sound (part_eepromRead h.readable) hread
  refine ⟨hstatus, ?_⟩
  rw [hmemory, Memory.read_write, hcells, Memory.read_write]

/-- A write that may not poll sends its message and refuses its arguments. -/
theorem not_roundTrips (h : Writable device memoryAddr (some p) length)
    (hpage : device.pageSize.toNat ≤ eepromMaxPayloadSize) (hlimit : device.readyPollLimit = 0) :
    ¬ RoundTrips device memoryAddr (some p) length := by
  intro htrips
  obtain ⟨t, he⟩ := at24c_handles.exec (eepromWrite (some device) memoryAddr (some p) length)
    (default : Part)
  obtain ⟨-, -, ⟨messages, hsent⟩, hstatus⟩ := wp_sound (part_eepromWrite h hpage) he
  rw [if_pos hlimit] at hstatus
  have hsame := htrips.refused _ _ _ _ (.inl hstatus) (.inl he)
  rw [hsent] at hsame
  exact absurd (List.append_right_eq_self.mp hsame) (List.cons_ne_nil _ _)

/-- For pages of at most 32 bytes the driver keeps to its side exactly if it may poll, or refuses
the arguments of the write before it sends them. -/
theorem roundTrips_iff (hpage : device.pageSize.toNat ≤ eepromMaxPayloadSize) :
    RoundTrips device memoryAddr data length ↔
      (device.readyPollLimit = 0 → ¬ Writable device memoryAddr data length) := by
  constructor
  · intro htrips hlimit h
    obtain ⟨p, rfl⟩ := Option.isSome_iff_exists.mp h.data
    exact not_roundTrips h hpage hlimit htrips
  intro hpolls
  refine ⟨fun s t s' he => ?_, fun s t s' he => ?_, fun s t status s' hrefused he => ?_⟩
  · by_cases h : Writable device memoryAddr data length
    · obtain ⟨p, rfl⟩ := Option.isSome_iff_exists.mp h.data
      obtain ⟨hcells, -, -, -⟩ := wp_sound (part_eepromWrite h hpage) he
      exact ⟨p, rfl, hcells, fun q u status s'' hread => written_of_writable h hpage he hread⟩
    · obtain ⟨status, hwrite, hstatus⟩ := eepromWrite_refused h
      rw [hwrite] at he
      exact absurd he.of_ret.2.1.symm hstatus
  · by_cases h : Readable device memoryAddr data length
    · obtain ⟨p, rfl⟩ := Option.isSome_iff_exists.mp h.data
      obtain ⟨-, hcells, hmemory⟩ := wp_sound (part_eepromRead h) he
      exact ⟨p, rfl, hcells, hmemory⟩
    · obtain ⟨status, hread, hstatus⟩ := eepromRead_refused h
      rw [hread] at he
      exact absurd he.of_ret.2.1.symm hstatus
  · rcases he with he | he
    · by_cases h : Writable device memoryAddr data length
      · obtain ⟨p, rfl⟩ := Option.isSome_iff_exists.mp h.data
        obtain ⟨-, -, -, hstatus⟩ := wp_sound (part_eepromWrite h hpage) he
        rw [if_neg fun hlimit => hpolls hlimit h] at hstatus
        exact absurd (hstatus ▸ hrefused) not_refused_ok
      · obtain ⟨status, hwrite, -⟩ := eepromWrite_refused h
        rw [hwrite] at he
        exact congrArg Part.sent he.of_ret.2.2
    · by_cases h : Readable device memoryAddr data length
      · obtain ⟨p, rfl⟩ := Option.isSome_iff_exists.mp h.data
        obtain ⟨hstatus, -, -⟩ := wp_sound (part_eepromRead h) he
        exact absurd (hstatus ▸ hrefused) not_refused_ok
      · obtain ⟨status, hread, -⟩ := eepromRead_refused h
        rw [hread] at he
        exact congrArg Part.sent he.of_ret.2.2

/-- The device of the board. -/
def boardEeprom : EepromDevice := ⟨some ⟨some 0x40029000, 1, 1⟩, 0x50, 2, 8, 1000⟩

theorem boardEeprom_roundTrips : RoundTrips boardEeprom 0x10 (some 0) 1 :=
  (roundTrips_iff (by decide)).mpr fun hlimit => absurd hlimit (by decide)

/-- A device that is not to be polled. -/
theorem unpolled_write_refused :
    ¬ RoundTrips { boardEeprom with readyPollLimit := 0 } 0x10 (some 0) 1 := by
  refine not_roundTrips ?_ (by decide) rfl
  exact ⟨rfl, rfl, by decide, by decide, ⟨65536, rfl, by decide⟩, by decide⟩

end CortexLabs.Eeprom

import CortexLabs.Device.Footprint
import CortexLabs.I2c.Master

/-! The driver of an I2C EEPROM.  Its operations are the accesses to the buffers, and the calls of
the I2C master, which are given the messages and answer with a status.  `size_t` is a word. -/

namespace CortexLabs.Eeprom

open Device I2c

abbrev eepromOk : Int := 0
abbrev eepromErrArgument : Int := -100
abbrev eepromErrAddressWidth : Int := -101
abbrev eepromErrPageBoundary : Int := -102
abbrev eepromErrTransfer : Int := -103
abbrev eepromErrNotReady : Int := -104

abbrev eepromMaxPayloadSize : Nat := 32

abbrev mps2I2cMsgWrite : Byte := 0x00

structure EepromDevice where
  bus : Option Mps2I2cBus
  targetAddr : Byte
  addressWidth : Byte
  pageSize : Word
  readyPollLimit : Word
  deriving DecidableEq

/-- The local buffers of `eeprom_write` and `eeprom_read`, and the memory of the caller. -/
inductive Buffer where
  | txBuffer
  | addressBuffer
  | memory (address : Nat)
  deriving DecidableEq

structure Message where
  buf : Buffer
  len : Word
  flags : Byte
  deriving DecidableEq

inductive Op where
  | load (address : Nat)
  | store (buffer : Buffer) (index : Nat) (value : Byte)
  | transfer (bus : Option Mps2I2cBus) (messages : List Message) (targetAddr : Byte)
  | probe (bus : Option Mps2I2cBus) (targetAddr : Byte)

abbrev Ans : Op → Type
  | .load _ => Byte
  | .store _ _ _ => Unit
  | .transfer _ _ _ | .probe _ _ => Int

abbrev EepromProgram (α : Type) := Program Op Ans α

def load (address : Nat) : EepromProgram Byte := Program.issue (Op.load address)

def store (buffer : Buffer) (index : Nat) (value : Byte) : EepromProgram Unit :=
  Program.issue (Op.store buffer index value)

def transfer (bus : Option Mps2I2cBus) (messages : List Message) (targetAddr : Byte) :
    EepromProgram Int :=
  Program.issue (Op.transfer bus messages targetAddr)

def probe (bus : Option Mps2I2cBus) (targetAddr : Byte) : EepromProgram Int :=
  Program.issue (Op.probe bus targetAddr)

/-! ### Checks -/

/-- How many cells `validate_range` takes a device to have. -/
def addressLimit (device : EepromDevice) : Option Word :=
  if device.addressWidth = 1 then some 256
  else if device.addressWidth = 2 then some 65536
  else none

def validateRange (device : EepromDevice) (memoryAddr : BitVec 16) (length : Word) : Int :=
  match addressLimit device with
  | none => eepromErrAddressWidth
  | some limit =>
    if memoryAddr.setWidth 32 ≥ limit ∨ length > limit - memoryAddr.setWidth 32 then
      eepromErrArgument
    else eepromOk

/-- The checks of `eeprom_write`.  The page size is compared with a negative status. -/
def checkWrite (device : Option EepromDevice) (memoryAddr : BitVec 16) (data : Option Nat)
    (length : Word) : Except Int (EepromDevice × Nat) :=
  match device, data with
  | some device, some data =>
    if device.bus.isNone ∨ length = 0 ∨ device.pageSize = 0 ∨
        device.pageSize > BitVec.ofInt 32 eepromErrArgument ∨ length > device.pageSize then
      .error eepromErrArgument
    else if validateRange device memoryAddr length ≠ eepromOk then
      .error (validateRange device memoryAddr length)
    else if length > device.pageSize - memoryAddr.setWidth 32 % device.pageSize then
      .error eepromErrPageBoundary
    else .ok (device, data)
  | none, _ | _, none => .error eepromErrArgument

/-- The checks of `eeprom_read`. -/
def checkRead (device : Option EepromDevice) (memoryAddr : BitVec 16) (data : Option Nat)
    (length : Word) : Except Int (EepromDevice × Nat) :=
  match device, data with
  | some device, some data =>
    if device.bus.isNone ∨ length = 0 then .error eepromErrArgument
    else if validateRange device memoryAddr length ≠ eepromOk then
      .error (validateRange device memoryAddr length)
    else .ok (device, data)
  | none, _ | _, none => .error eepromErrArgument

/-! ### Calls -/

/-- How many bytes of the message are the address. -/
def buildMemoryAddress (device : EepromDevice) (memoryAddr : BitVec 16) (buffer : Buffer) :
    EepromProgram Nat := do
  if device.addressWidth = 1 then
    store buffer 0 (memoryAddr.setWidth 8)
    return 1
  store buffer 0 ((memoryAddr >>> 8).setWidth 8)
  store buffer 1 (memoryAddr.setWidth 8)
  return 2

/-- The loop of `eeprom_wait_ready`. -/
def pollReady (device : EepromDevice) : Nat → EepromProgram Int
  | 0 => return eepromErrNotReady
  | n + 1 => do
    let result ← probe device.bus device.targetAddr
    if result = mps2I2cOk then return eepromOk
    if result ≠ mps2I2cErrNack then return eepromErrTransfer
    pollReady device n

def eepromWaitReady (device : Option EepromDevice) : EepromProgram Int :=
  match device with
  | none => return eepromErrArgument
  | some device =>
    if device.bus.isNone ∨ device.readyPollLimit = 0 then return eepromErrArgument
    else pollReady device device.readyPollLimit.toNat

/-- A turn of the loop of `eeprom_write`. -/
def appendByte (data addressLength : Nat) (_ : Unit) (index : Nat) : EepromProgram Unit := do
  let value ← load (data + index)
  store .txBuffer (addressLength + index) value

def eepromWrite (device : Option EepromDevice) (memoryAddr : BitVec 16) (data : Option Nat)
    (length : Word) : EepromProgram Int :=
  match checkWrite device memoryAddr data length with
  | .error status => return status
  | .ok (device, data) => do
    let addressLength ← buildMemoryAddress device memoryAddr .txBuffer
    (List.range length.toNat).foldlM (appendByte data addressLength) ()
    let message : Message :=
      ⟨.txBuffer, BitVec.ofNat 32 addressLength + length, mps2I2cMsgWrite ||| mps2I2cMsgStop⟩
    let result ← transfer device.bus [message] device.targetAddr
    if result ≠ mps2I2cOk then return eepromErrTransfer
    eepromWaitReady (some device)

def eepromRead (device : Option EepromDevice) (memoryAddr : BitVec 16) (data : Option Nat)
    (length : Word) : EepromProgram Int :=
  match checkRead device memoryAddr data length with
  | .error status => return status
  | .ok (device, data) => do
    let addressLength ← buildMemoryAddress device memoryAddr .addressBuffer
    let address : Message := ⟨.addressBuffer, BitVec.ofNat 32 addressLength, mps2I2cMsgWrite⟩
    let contents : Message :=
      ⟨.memory data, length, mps2I2cMsgRead ||| mps2I2cMsgRestart ||| mps2I2cMsgStop⟩
    let result ← transfer device.bus [address, contents] device.targetAddr
    return if result = mps2I2cOk then eepromOk else eepromErrTransfer

/-! ### Which calls pass -/

variable {device : EepromDevice} {memoryAddr : BitVec 16} {data : Option Nat} {length : Word}

def InRange (device : EepromDevice) (memoryAddr : BitVec 16) (length : Word) : Prop :=
  ∃ limit, addressLimit device = some limit ∧ memoryAddr.toNat + length.toNat ≤ limit.toNat

theorem validateRange_ok (hsome : 0 < length.toNat) :
    validateRange device memoryAddr length = eepromOk ↔ InRange device memoryAddr length := by
  unfold validateRange InRange
  cases hlimit : addressLimit device with
  | none => exact iff_of_false (show eepromErrAddressWidth ≠ eepromOk by decide) nofun
  | some limit =>
    have haddr : (memoryAddr.setWidth 32).toNat = memoryAddr.toNat := by
      rw [BitVec.toNat_setWidth]
      omega
    have hrange : ¬ (memoryAddr.setWidth 32 ≥ limit ∨ length > limit - memoryAddr.setWidth 32) ↔
        memoryAddr.toNat + length.toNat ≤ limit.toNat := by
      simp only [ge_iff_le, gt_iff_lt, BitVec.le_def, BitVec.lt_def, haddr]
      by_cases hin : memoryAddr.toNat < limit.toNat
      · have hsub : (limit - memoryAddr.setWidth 32).toNat = limit.toNat - memoryAddr.toNat := by
          rw [BitVec.toNat_sub_of_le (by rw [BitVec.le_def, haddr]; omega), haddr]
        rw [hsub]
        omega
      · omega
    dsimp only
    by_cases hout : memoryAddr.setWidth 32 ≥ limit ∨ length > limit - memoryAddr.setWidth 32
    · rw [if_pos hout]
      refine iff_of_false (by decide) ?_
      rintro ⟨_, hsame, hle⟩
      cases hsame
      exact hrange.mpr hle hout
    · rw [if_neg hout]
      exact iff_of_true rfl ⟨limit, rfl, hrange.mp hout⟩

/-- The arguments of an `eeprom_write` that passes its checks. -/
structure Writable (device : EepromDevice) (memoryAddr : BitVec 16) (data : Option Nat)
    (length : Word) : Prop where
  bus : device.bus.isSome
  data : data.isSome
  nonempty : 0 < length.toNat
  pageSize : device.pageSize.toNat ≤ 0xffffff9c
  range : InRange device memoryAddr length
  page : memoryAddr.toNat % device.pageSize.toNat + length.toNat ≤ device.pageSize.toNat

/-- The arguments of an `eeprom_read` that passes its checks. -/
structure Readable (device : EepromDevice) (memoryAddr : BitVec 16) (data : Option Nat)
    (length : Word) : Prop where
  bus : device.bus.isSome
  data : data.isSome
  nonempty : 0 < length.toNat
  range : InRange device memoryAddr length

theorem write_arguments :
    ¬ (device.bus.isNone ∨ length = 0 ∨ device.pageSize = 0 ∨
      device.pageSize > BitVec.ofInt 32 eepromErrArgument ∨ length > device.pageSize) ↔
      device.bus.isSome ∧ 0 < length.toNat ∧ device.pageSize.toNat ≤ 0xffffff9c ∧
      length.toNat ≤ device.pageSize.toNat := by
  have hbound : (BitVec.ofInt 32 eepromErrArgument).toNat = 0xffffff9c := rfl
  rw [Option.isNone_iff_eq_none, Option.isSome_iff_ne_none]
  simp only [gt_iff_lt, BitVec.lt_def, hbound, ← BitVec.toNat_inj]
  by_cases hbus : device.bus = none
  · simp [hbus]
  · simp only [hbus, false_or, ne_eq, not_false_eq_true, true_and]
    show ¬ (length.toNat = 0 ∨ device.pageSize.toNat = 0 ∨ _) ↔ _
    omega

/-- What an `eeprom_write` that passes its checks goes on with. -/
theorem checkWrite_ok {found : EepromDevice} {p : Nat} :
    checkWrite (some device) memoryAddr data length = .ok (found, p) ↔
      found = device ∧ data = some p ∧ Writable device memoryAddr data length := by
  cases data with
  | none => exact iff_of_false nofun fun h => nomatch h.2.1
  | some address =>
    unfold checkWrite
    dsimp only
    split
    · next hbad =>
      refine iff_of_false nofun ?_
      rintro ⟨-, -, h⟩
      have hpage := h.page
      exact write_arguments.mpr ⟨h.bus, h.nonempty, h.pageSize, by omega⟩ hbad
    next hgood =>
    obtain ⟨hbus, hsome, hsize, hlen⟩ := write_arguments.mp hgood
    split
    · next hbad =>
      refine iff_of_false nofun ?_
      rintro ⟨-, -, h⟩
      exact hbad ((validateRange_ok hsome).mpr h.range)
    next hrange =>
    rw [not_not, validateRange_ok hsome] at hrange
    have hpage : length > device.pageSize - memoryAddr.setWidth 32 % device.pageSize ↔
        ¬ memoryAddr.toNat % device.pageSize.toNat + length.toNat ≤ device.pageSize.toNat := by
      have hmod : (memoryAddr.setWidth 32 % device.pageSize).toNat =
          memoryAddr.toNat % device.pageSize.toNat := by
        rw [BitVec.toNat_umod, BitVec.toNat_setWidth, Nat.mod_eq_of_lt (a := memoryAddr.toNat)]
        omega
      have hless := Nat.mod_lt memoryAddr.toNat (show 0 < device.pageSize.toNat by omega)
      rw [gt_iff_lt, BitVec.lt_def, BitVec.toNat_sub_of_le, hmod]
      · omega
      · rw [BitVec.le_def, hmod]
        omega
    split
    · next hbad => exact iff_of_false nofun fun h => hpage.mp hbad h.2.2.page
    · next hfits =>
      rw [hpage, not_not] at hfits
      constructor
      · intro h
        cases h
        exact ⟨rfl, rfl, hbus, rfl, hsome, hsize, hrange, hfits⟩
      · rintro ⟨rfl, hsame, -⟩
        cases hsame
        rfl

/-- What an `eeprom_read` that passes its checks goes on with. -/
theorem checkRead_ok {found : EepromDevice} {p : Nat} :
    checkRead (some device) memoryAddr data length = .ok (found, p) ↔
      found = device ∧ data = some p ∧ Readable device memoryAddr data length := by
  cases data with
  | none => exact iff_of_false nofun fun h => nomatch h.2.1
  | some address =>
    unfold checkRead
    dsimp only
    split
    · next hbad =>
      refine iff_of_false nofun ?_
      rintro ⟨-, -, h⟩
      rcases hbad with hbus | rfl
      · exact absurd h.bus (by rw [Option.isNone_iff_eq_none.mp hbus]; decide)
      · exact absurd h.nonempty (by decide)
    next hgood =>
    obtain ⟨hbus, hlen⟩ := not_or.mp hgood
    have hsome : 0 < length.toNat := by
      rw [Nat.pos_iff_ne_zero]
      exact fun hzero => hlen (BitVec.eq_of_toNat_eq hzero)
    split
    · next hbad =>
      refine iff_of_false nofun ?_
      rintro ⟨-, -, h⟩
      exact hbad ((validateRange_ok hsome).mpr h.range)
    · next hrange =>
      rw [not_not, validateRange_ok hsome] at hrange
      constructor
      · intro h
        cases h
        exact ⟨rfl, rfl, Option.isSome_iff_ne_none.mpr fun hnone => hbus (by rw [hnone]; rfl), rfl,
          hsome, hrange⟩
      · rintro ⟨rfl, hsame, -⟩
        cases hsame
        rfl

/-- A call that fails its checks does not return `EEPROM_OK`. -/
theorem checkWrite_error {status : Int}
    (h : checkWrite (some device) memoryAddr data length = .error status) :
    status ≠ eepromOk := by
  rintro rfl
  unfold checkWrite at h
  cases data with
  | none => exact absurd (Except.error.inj h) (by decide)
  | some p =>
    dsimp only at h
    split at h
    · exact absurd (Except.error.inj h) (by decide)
    split at h
    · next hbad => exact hbad (Except.error.inj h)
    split at h
    · exact absurd (Except.error.inj h) (by decide)
    · cases h

theorem checkRead_error {status : Int}
    (h : checkRead (some device) memoryAddr data length = .error status) :
    status ≠ eepromOk := by
  rintro rfl
  unfold checkRead at h
  cases data with
  | none => exact absurd (Except.error.inj h) (by decide)
  | some p =>
    dsimp only at h
    split at h
    · exact absurd (Except.error.inj h) (by decide)
    split at h
    · next hbad => exact hbad (Except.error.inj h)
    · cases h

theorem eepromWrite_refused (h : ¬ Writable device memoryAddr data length) :
    ∃ status, eepromWrite (some device) memoryAddr data length = .ret status ∧
      status ≠ eepromOk := by
  unfold eepromWrite
  cases hcheck : checkWrite (some device) memoryAddr data length with
  | error status => exact ⟨status, rfl, checkWrite_error hcheck⟩
  | ok found => exact absurd (checkWrite_ok.mp hcheck).2.2 h

theorem eepromRead_refused (h : ¬ Readable device memoryAddr data length) :
    ∃ status, eepromRead (some device) memoryAddr data length = .ret status ∧
      status ≠ eepromOk := by
  unfold eepromRead
  cases hcheck : checkRead (some device) memoryAddr data length with
  | error status => exact ⟨status, rfl, checkRead_error hcheck⟩
  | ok found => exact absurd (checkRead_ok.mp hcheck).2.2 h

end CortexLabs.Eeprom

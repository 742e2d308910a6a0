import CortexLabs.Device.Memory
import CortexLabs.Device.Program
import CortexLabs.Errno

/-! Byte registers of an I2C target.  Each function is a program of bus transactions; a pointer
argument is an `Option` of what it points to, `none` when it is NULL, and a function that stores
through one returns what it points to afterwards. -/

namespace CortexLabs.RegAccess

open Device Errno

/-- A bus is known by whether it is ready. -/
structure Bus where
  ready : Bool
  deriving DecidableEq

structure I2cClient where
  bus : Option Bus
  addr : BitVec 16
  deriving DecidableEq

inductive Op where
  /-- `i2c_write_read` of one byte after the register number. -/
  | writeRead (addr : BitVec 16) (reg : Byte)
  /-- `i2c_write` of the register number and a byte. -/
  | write (addr : BitVec 16) (reg value : Byte)

/-- The result of a transaction, and the byte read. -/
def Ans : Op → Type
  | .writeRead _ _ => Int × Byte
  | .write _ _ _ => Int

abbrev RegProgram (α : Type) := Program Op Ans α

def i2cWriteRead (addr : BitVec 16) (reg : Byte) : RegProgram (Int × Byte) :=
  Program.issue (Op.writeRead addr reg)

def i2cWrite (addr : BitVec 16) (reg value : Byte) : RegProgram Int :=
  Program.issue (Op.write addr reg value)

def validateClient (client : Option I2cClient) : Int :=
  match client with
  | none => -einval
  | some client =>
    match client.bus with
    | none => -einval
    | some bus => if client.addr > 0x7f then -einval else if !bus.ready then -enodev else 0

/-- The address that a transaction of the client goes to. -/
def addrOf (client : Option I2cClient) : BitVec 16 := (client.map (·.addr)).getD 0

def regReadByte (client : Option I2cClient) (reg : Byte) (value : Option Byte) :
    RegProgram (Int × Option Byte) :=
  match value with
  | none => pure (-einval, none)
  | some old => do
    let rc := validateClient client
    if rc ≠ 0 then return (rc, some old)
    let (rc, read) ← i2cWriteRead (addrOf client) reg
    return (rc, some read)

def regWriteByte (client : Option I2cClient) (reg value : Byte) : RegProgram Int := do
  let rc := validateClient client
  if rc ≠ 0 then return rc
  i2cWrite (addrOf client) reg value

/-- `new_value` of `reg_update_byte`. -/
def masked (mask value old : Byte) : Byte := (old &&& ~~~mask) ||| (value &&& mask)

def regUpdateByte (client : Option I2cClient) (reg mask value : Byte) : RegProgram Int := do
  let (rc, old) ← regReadByte client reg (some 0)
  if rc ≠ 0 then return rc
  let old := old.getD 0
  if masked mask value old = old then return 0
  regWriteByte client reg (masked mask value old)

/-- The registers of the targets on a bus. -/
abbrev Targets := BitVec 16 → Byte → Byte

/-- Transactions that succeed. -/
def transact : (o : Op) → Targets → Ans o × Targets
  | .writeRead addr reg, t => ((0, t addr reg), t)
  | .write addr reg value, t =>
    ((0 : Int), Function.update t addr (Function.update (t addr) reg value))

end CortexLabs.RegAccess

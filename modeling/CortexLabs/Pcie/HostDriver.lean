import CortexLabs.Pcie.HostPort

/-! The configuration drivers of the three labs, as programs over the host bridge's registers.
They share their shape: a call that finds the bridge busy gives up, and otherwise programs the
request, writes the command register last, and polls `STATUS` until the request is done.  They
differ in their limits, their result codes, what they take for the busy bit, and in the order of
the stores of a write. -/

namespace CortexLabs.Pcie.HostBridge

open Device

/-- What a driver's header and enumerations define. -/
structure Driver where
  base : Word
  pollLimit : Nat
  statusBusy : Word
  statusDone : Word
  statusError : Word
  cfgRead : Word
  cfgWrite : Word
  ok : Int
  errBusy : Int
  errBackend : Int
  errTimeout : Int

namespace Driver

variable (d : Driver)

abbrev status : Word := d.base + 0x08
abbrev cfgBdf : Word := d.base + 0x10
abbrev cfgReg : Word := d.base + 0x14
abbrev cfgWdata : Word := d.base + 0x18
abbrev cfgRdata : Word := d.base + 0x1c
abbrev cfgCommand : Word := d.base + 0x20

/-- The result of a call and what its `value` or `read_data` pointer points to afterwards, none if
it is NULL. -/
abbrev Result : Type := Int × Option Word

/-- The last part of the body of the polling loop: the request is done. -/
def readResult (status : Word) (readData : Option Word) : CsrProgram Result :=
  if status &&& d.statusError ≠ 0 then pure (d.errBackend, readData)
  else
    match readData with
    | none => pure (d.ok, none)
    | some _ => do
      let data ← load d.cfgRdata
      return (d.ok, some data)

/-- The polling loop, with the number of polls that are left. -/
def poll (readData : Option Word) : Nat → CsrProgram Result
  | 0 => pure (d.errTimeout, readData)
  | timeout + 1 => do
    let status ← load d.status
    if status &&& d.statusDone = 0 then poll readData timeout else d.readResult status readData

def waitCompletion (readData : Option Word) : CsrProgram Result := d.poll readData d.pollLimit

def configRead32 (bdf reg : Word) (value : Option Word) : CsrProgram Result := do
  let status ← load d.status
  if status &&& d.statusBusy ≠ 0 then return (d.errBusy, value)
  store d.cfgBdf bdf
  store d.cfgReg reg
  store d.cfgCommand d.cfgRead
  d.waitCompletion value

def configWrite32 (bdf reg value : Word) : CsrProgram Result := do
  let status ← load d.status
  if status &&& d.statusBusy ≠ 0 then return (d.errBusy, none)
  store d.cfgBdf bdf
  store d.cfgReg reg
  store d.cfgWdata value
  store d.cfgCommand d.cfgWrite
  d.waitCompletion none

/-- The write whose data is stored after the command. -/
def configWrite32DataLast (bdf reg value : Word) : CsrProgram Result := do
  let status ← load d.status
  if status &&& d.statusBusy ≠ 0 then return (d.errBusy, none)
  store d.cfgBdf bdf
  store d.cfgReg reg
  store d.cfgCommand d.cfgWrite
  store d.cfgWdata value
  d.waitCompletion none

end Driver

/-! ### LabH1 -/

def labh1 : Driver :=
  { base := 0xa0000000, pollLimit := 100000
    statusBusy := 1 <<< 3, statusDone := 1 <<< 1, statusError := 1 <<< 2, cfgRead := 1, cfgWrite := 2
    ok := 0, errBusy := -3, errBackend := -5, errTimeout := -4 }

abbrev labh1ErrArgument : Int := -1

def labh1PcieConfigRead32 (bdf reg : Word) (value : Option Word) : CsrProgram Driver.Result :=
  match value with
  | none => pure (labh1ErrArgument, none)
  | some _ => labh1.configRead32 bdf reg value

def labh1PcieConfigWrite32 (bdf reg value : Word) : CsrProgram Driver.Result :=
  labh1.configWrite32 bdf reg value

/-! ### LabH2 -/

def labh2 : Driver :=
  { base := 0xa0000000, pollLimit := 100000
    statusBusy := 1 <<< 0, statusDone := 1 <<< 1, statusError := 1 <<< 2, cfgRead := 1, cfgWrite := 2
    ok := 0, errBusy := -1, errBackend := -2, errTimeout := -3 }

def labh2ConfigRead32 (bdf reg : Word) (value : Option Word) : CsrProgram Driver.Result :=
  labh2.configRead32 bdf reg value

def labh2ConfigWrite32 (bdf reg value : Word) : CsrProgram Driver.Result :=
  labh2.configWrite32 bdf reg value

/-! ### LabH3 -/

def labh3 : Driver :=
  { base := 0xa0000000, pollLimit := 1000000
    statusBusy := 1 <<< 0, statusDone := 1 <<< 1, statusError := 1 <<< 2, cfgRead := 1, cfgWrite := 2
    ok := 0, errBusy := -1, errBackend := -2, errTimeout := -3 }

def labh3ConfigRead32 (bdf reg : Word) (value : Option Word) : CsrProgram Driver.Result :=
  labh3.configRead32 bdf reg value

def labh3ConfigWrite32 (bdf reg value : Word) : CsrProgram Driver.Result :=
  labh3.configWrite32DataLast bdf reg value

end CortexLabs.Pcie.HostBridge

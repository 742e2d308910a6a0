import CortexLabs.Device.Loop
import CortexLabs.Device.Memory

/-! Bus enumeration.  A host reads the configuration space: `configRead32` is its function for the
state behind its `priv` pointer, which reads leave alone, and returns a status and a value.  A
function that fills a record through a pointer returns the record with its status. -/

namespace CortexLabs.Pcie.Bus

open Device

abbrev Half := BitVec 16

abbrev pcieOk : Int := 0
abbrev pcieErrArgument : Int := -1
abbrev pcieErrBdf : Int := -1
abbrev pcieErrOffset : Int := -3

abbrev pcieCfgVendorDevice : Half := 0x00
abbrev pcieCfgClassRevision : Half := 0x08
abbrev pcieCfgHeader : Half := 0x0c
abbrev pcieCfgBar0 : Half := 0x10
abbrev pcieCfgInterrupt : Half := 0x3c

abbrev pcieMaxDevices : Nat := 16
abbrev pcieMaxBars : Nat := 6

abbrev pcieHeaderTypeNormal : Byte := 0x00

structure PcieBdf where
  bus : Byte
  device : Byte
  function : Byte
  deriving DecidableEq

structure PcieHostOps where
  configRead32 : Option (PcieBdf → Half → Int × Word)

structure PcieHost where
  ops : Option PcieHostOps

structure PcieBar where
  raw : Word
  address : Word
  isIo : Byte
  is64bit : Byte
  prefetchable : Byte
  deriving DecidableEq

structure PcieDevice where
  bdf : PcieBdf
  vendorId : Half
  deviceId : Half
  revision : Byte
  progIf : Byte
  subclass : Byte
  classCode : Byte
  headerType : Byte
  multifunction : Byte
  bars : Fin pcieMaxBars → PcieBar
  irqLine : Byte
  irqPin : Byte

/-- `struct pcie_bus`; what `devices` holds from index 16 on is behind the array. -/
structure PcieBus where
  host : Option PcieHost
  devices : Nat → PcieDevice
  deviceCount : Nat

/-! ### The host -/

def pcieValidateBdf (bdf : PcieBdf) : Int :=
  if bdf.device > 31 then pcieErrBdf else if bdf.function > 7 then pcieErrBdf else pcieOk

def pcieValidateOffset (offset : Half) : Int :=
  if offset ≥ 256 then pcieErrOffset else if offset &&& 0x3 ≠ 0 then pcieErrOffset else pcieOk

/-- `pcie_config_read32`, with `old` the value of the variable that it reads into. -/
def pcieConfigRead32 (host : Option PcieHost) (bdf : PcieBdf) (offset : Half) (old : Word) :
    Int × Word :=
  match host.bind fun host => host.ops.bind fun ops => ops.configRead32 with
  | none => (pcieErrArgument, old)
  | some configRead32 =>
    if pcieValidateBdf bdf ≠ pcieOk then (pcieValidateBdf bdf, old)
    else if pcieValidateOffset offset ≠ pcieOk then (pcieValidateOffset offset, old)
    else configRead32 bdf offset

/-! ### Functions -/

def pcieDecodeBar (raw : Word) : PcieBar :=
  if raw &&& 0x1 ≠ 0 then
    { raw, isIo := 1, is64bit := 0, prefetchable := 0, address := raw &&& 0xfffffffc }
  else
    { raw, isIo := 0
      is64bit := if (raw >>> 1) &&& 0x3 = 0x2 then 1 else 0
      prefetchable := if raw &&& 0x8 ≠ 0 then 1 else 0
      address := raw &&& 0xfffffff0 }

section Scan

variable (bus : PcieBus)

def pcieRead32 (bdf : PcieBdf) (offset : Half) : Int × Word :=
  pcieConfigRead32 bus.host bdf offset 0

/-- The loop of `pcie_read_function` over the base address registers. -/
def readBar (bdf : PcieBdf) (dev : PcieDevice) (index : Fin pcieMaxBars) : Int × PcieDevice :=
  let (result, value) := pcieRead32 bus bdf (pcieCfgBar0 + BitVec.ofNat 16 (index * 4))
  if result ≠ pcieOk then (result, dev)
  else (pcieOk, { dev with bars := Function.update dev.bars index (pcieDecodeBar value) })

/-- The part of `pcie_read_function` from its last register on. -/
def readInterrupt (bdf : PcieBdf) (dev : PcieDevice) : Int × PcieDevice :=
  let (result, value) := pcieRead32 bus bdf pcieCfgInterrupt
  if result ≠ pcieOk then (result, dev)
  else (pcieOk, { dev with
    irqLine := (value &&& 0xff).setWidth 8
    irqPin := ((value >>> 8) &&& 0xff).setWidth 8 })

def pcieReadFunction (bdf : PcieBdf) (dev : PcieDevice) : Int × PcieDevice :=
  let (result, value) := pcieRead32 bus bdf pcieCfgVendorDevice
  if result ≠ pcieOk then (result, dev)
  else
    let dev := { dev with
      bdf
      vendorId := (value &&& 0xffff).setWidth 16
      deviceId := (value >>> 16).setWidth 16 }
    let (result, value) := pcieRead32 bus bdf pcieCfgClassRevision
    if result ≠ pcieOk then (result, dev)
    else
      let dev := { dev with
        revision := (value &&& 0xff).setWidth 8
        subclass := ((value >>> 16) &&& 0xff).setWidth 8
        classCode := ((value >>> 24) &&& 0xff).setWidth 8 }
      let (result, value) := pcieRead32 bus bdf pcieCfgHeader
      if result ≠ pcieOk then (result, dev)
      else
        let dev := { dev with
          headerType := ((value >>> 16) &&& 0x7f).setWidth 8
          multifunction := if value &&& 0x00800000 ≠ 0 then 1 else 0 }
        if dev.headerType = pcieHeaderTypeNormal then
          let (result, dev) := forEach (readBar bus bdf) dev (List.finRange pcieMaxBars)
          if result ≠ pcieOk then (result, dev) else readInterrupt bus bdf dev
        else readInterrupt bus bdf dev

/-! ### Scans -/

def pcieScanFunction (busNumber deviceNumber functionNumber : Byte) : Int × PcieBus :=
  let bdf := ⟨busNumber, deviceNumber, functionNumber⟩
  let (result, id) := pcieRead32 bus bdf pcieCfgVendorDevice
  if result ≠ pcieOk then (result, bus)
  else if (id &&& 0xffff).setWidth 16 = (0xffff : Half) then (pcieOk, bus)
  else if bus.deviceCount ≥ pcieMaxDevices then (pcieErrArgument, bus)
  else
    let (result, dev) := pcieReadFunction bus bdf (bus.devices bus.deviceCount)
    let bus := { bus with devices := Function.update bus.devices bus.deviceCount dev }
    if result ≠ pcieOk then (result, bus)
    else (pcieOk, { bus with deviceCount := bus.deviceCount + 1 })

def pcieScanDevice (busNumber deviceNumber : Byte) : Int × PcieBus :=
  let bdf := ⟨busNumber, deviceNumber, 0⟩
  let (result, id) := pcieRead32 bus bdf pcieCfgVendorDevice
  if result ≠ pcieOk then (result, bus)
  else if (id &&& 0xffff).setWidth 16 = (0xffff : Half) then (pcieOk, bus)
  else
    let (result, bus) := pcieScanFunction bus busNumber deviceNumber 0
    if result ≠ pcieOk then (result, bus)
    else
      let (result, header) := pcieRead32 bus bdf pcieCfgHeader
      if result ≠ pcieOk then (result, bus)
      else if header &&& 0x00800000 = 0 then (pcieOk, bus)
      else
        forEach (fun bus function =>
          pcieScanFunction bus busNumber deviceNumber (BitVec.ofNat 8 function))
          bus (List.range' 1 7)

def pcieScanBus (busNumber : Byte) : Int × PcieBus :=
  forEach (fun bus device => pcieScanDevice bus busNumber (BitVec.ofNat 8 device))
    bus (List.range 32)

end Scan

def pcieBusInit (bus : Option PcieBus) (host : Option PcieHost) : Int × Option PcieBus :=
  match bus, host with
  | some bus, some host => (pcieOk, some { bus with host := some host, deviceCount := 0 })
  | bus, _ => (pcieErrArgument, bus)

def pcieEnumerate (bus : PcieBus) : Int × PcieBus :=
  if bus.host.isNone then (pcieErrArgument, bus)
  else pcieScanBus { bus with deviceCount := 0 } 0

end CortexLabs.Pcie.Bus

import CortexLabs.FaultLog.Crash
import CortexLabs.BootLog.AppendOnly
import CortexLabs.Uart.Ownership
import CortexLabs.Uart.Handover
import CortexLabs.Pcie.MmioTransfers
import CortexLabs.Pcie.AdapterOrder
import CortexLabs.Pcie.HostRuns
import CortexLabs.Pcie.HostSafety
import CortexLabs.Pcie.BackendContract
import CortexLabs.Pcie.RootPortPrograms
import CortexLabs.Pcie.ConfigSpace
import CortexLabs.Pcie.Resource
import CortexLabs.Pcie.Enumeration
import CortexLabs.I2c.Released
import CortexLabs.I2c.RoundTrip
import CortexLabs.Watchdog.FeedPolicy
import CortexLabs.Watchdog.HeartbeatRuns
import CortexLabs.FaultLog.Retention
import CortexLabs.Uart.Delivery
import CortexLabs.Pcie.Rescan
import CortexLabs.Pcie.SimHost
import CortexLabs.RingBuffer.Interleaving
import CortexLabs.RegAccess.Updates
import CortexLabs.Spi.ChipSelect
import CortexLabs.Ssp.Transfers
import CortexLabs.I2c.Framing
import CortexLabs.FaultLog.Discipline
import CortexLabs.BootLog.Recovery
import CortexLabs.BootLog.Offsets
import CortexLabs.Pcie.Allocation
import CortexLabs.Pcie.MmioData
import CortexLabs.Pcie.BarAssign
import CortexLabs.Uart.Restart
import CortexLabs.Pcie.BarFailures
import CortexLabs.Eeprom.Bounds
import CortexLabs.Eeprom.Cells
import CortexLabs.Eeprom.WiredRuns
import CortexLabs.I2c.Recovery
import CortexLabs.I2c.Addressing
import CortexLabs.Spi.SimulatedDevice
import CortexLabs.Ssp.Config
import CortexLabs.Runtime.Sbrk
import CortexLabs.FaultLog.Burst
import CortexLabs.FaultLog.Oracle
import CortexLabs.FaultLog.Boots
import CortexLabs.Runtime.StartupCalls
import CortexLabs.BootLog.Boots
import CortexLabs.RingBuffer.Echo

import Mos6502.Machine.Bench
import Mos6502.Machine.Fields
import Mos6502.Main
import Mos6502.Proofs.FlatView
import Mos6502.Proofs.FlatMemory
import Mos6502.Proofs.BusReference
import Mos6502.Proofs.Execution
import Mos6502.Proofs.StepCases
import Mos6502.Proofs.FaultFrame
import Mos6502.Proofs.FaultTruth
import Mos6502.Proofs.PanicFree
import Mos6502.Proofs.Encoding
import Mos6502.Proofs.Stores
import Mos6502.Proofs.Subroutine
import Mos6502.Proofs.Layout
import Mos6502.Proofs.Runs
import Mos6502.Proofs.Abreast
import Mos6502.Proofs.Watching
import Mos6502.Proofs.ExitCodes
import Mos6502.Proofs.Interrupts
import Mos6502.Proofs.ControlFlags
import Mos6502.Proofs.SoftwareInterrupt
import Mos6502.Proofs.StatusBits
import Mos6502.Proofs.RegionImages
import Mos6502.Proofs.CommandRuns
import Mos6502.Proofs.Descriptions
import Mos6502.Proofs.RamDump
import Mos6502.Proofs.ObservationFlags
import Mos6502.Proofs.Audience
import Mos6502.Proofs.LogFilter
import Mos6502.Proofs.MonitorChains
import Mos6502.Proofs.Accounting
import Mos6502.Proofs.Hooks
import Mos6502.Proofs.RegisterFrame
import Mos6502.Proofs.OperandAddresses
import Mos6502.Proofs.ModeIndependence
import Mos6502.Proofs.LongArithmetic
import Mos6502.Proofs.LongShifts
import Mos6502.Proofs.StackContents
import Mos6502.Proofs.ResetHistory
import Mos6502.Proofs.Stops
import Mos6502.Proofs.PointList
import Mos6502.Proofs.Building
import Mos6502.Proofs.RomAtTop
import Mos6502.Proofs.AddressText
import Mos6502.Proofs.RegisterPoints
import Mos6502.Proofs.AddressSpelling
import Mos6502.Proofs.TraceText
import Mos6502.Proofs.RegistersText

import Mos6502.Log.Config
import Mos6502.Monitor.Breakpoints

/-! The options of the command line: switches, which are on or off, and settings, which have a
value. -/
namespace Mos6502.CommandLine

structure Options where
  rom : Option String := none
  config : Option String := none
  speedometer : Bool := false
  trace : Bool := false
  traceLog : Bool := false
  breakAt : List Word := []
  breakOn : List Mnemonic := []
  breakRegister : List Breakpoint := []
  noPrompt : Bool := false
  maxSteps : Option Nat := none
  dumpRam : Option String := none
  save : Option String := none
  logLevel : Log.Level := .info
  logCpu : Option Log.Level := none
  logBus : Option Log.Level := none
  logMonitor : Option Log.Level := none
  deriving DecidableEq, Repr

inductive Switch
  | speedometer | trace | traceLog | noPrompt
  deriving DecidableEq, Repr

inductive Setting
  | config | breakAt | breakOn | breakRegister | maxSteps | dumpRam | save
  | logLevel | logCpu | logBus | logMonitor
  deriving DecidableEq, Repr

namespace Switch

def all : List Switch := [.speedometer, .trace, .traceLog, .noPrompt]

def name : Switch → String
  | .speedometer => "speedometer"
  | .trace => "trace"
  | .traceLog => "trace-log"
  | .noPrompt => "no-prompt"

def isOn (o : Options) : Switch → Bool
  | .speedometer => o.speedometer
  | .trace => o.trace
  | .traceLog => o.traceLog
  | .noPrompt => o.noPrompt

def turnOn (o : Options) : Switch → Options
  | .speedometer => { o with speedometer := true }
  | .trace => { o with trace := true }
  | .traceLog => { o with traceLog := true }
  | .noPrompt => { o with noPrompt := true }

@[simp] theorem isOn_turnOn (s : Switch) (o : Options) : s.isOn (s.turnOn o) = true := by
  cases s <;> rfl

end Switch

inductive ValueError
  | emptyPath
  | address (error : BadAddress)
  | mnemonic (error : UnknownMnemonic)
  | breakpoint (error : BreakpointError)
  | count (error : Text.NumeralError)
  | level (error : Log.UnknownLevel)
  deriving DecidableEq, Repr

def ValueError.message : ValueError → String
  | .emptyPath => "a path is required"
  | .address e => e.message
  | .mnemonic e => e.message
  | .breakpoint e => e.message
  | .count e => e.message
  | .level e => e.message

namespace Setting

def all : List Setting :=
  [.config, .breakAt, .breakOn, .breakRegister, .maxSteps, .dumpRam, .save, .logLevel, .logCpu,
   .logBus, .logMonitor]

def name : Setting → String
  | .config => "config"
  | .breakAt => "break-at"
  | .breakOn => "break-on"
  | .breakRegister => "break-register"
  | .maxSteps => "max-steps"
  | .dumpRam => "dump-ram"
  | .save => "save"
  | .logLevel => "log-level"
  | .logCpu => "log-cpu"
  | .logBus => "log-bus"
  | .logMonitor => "log-monitor"

def usage (s : Setting) : String :=
  "--" ++ s.name ++ " <" ++ (s.name.map fun c => if c = '-' then '_' else c.toUpper) ++ ">"

/-- Whether the setting may have several values. -/
def isRepeatable : Setting → Bool
  | .breakAt | .breakOn | .breakRegister => true
  | _ => false

def readPath (s : String) : Except ValueError String :=
  if s = "" then .error .emptyPath else .ok s

def readLevel (s : String) : Except ValueError Log.Level := (Log.Level.parse s).mapError .level

def stepLimit : Nat := 0xFFFFFFFFFFFFFFFF

/-- Gives the setting a value, or one more value. -/
def assign (o : Options) (value : String) : Setting → Except ValueError Options
  | .config => (readPath value).map fun p => { o with config := some p }
  | .breakAt =>
    ((parseAddress value).mapError .address).map fun a => { o with breakAt := o.breakAt ++ [a] }
  | .breakOn =>
    ((Mnemonic.parse value).mapError .mnemonic).map fun m => { o with breakOn := o.breakOn ++ [m] }
  | .breakRegister =>
    ((Breakpoint.parseRegister value).mapError .breakpoint).map fun p =>
      { o with breakRegister := o.breakRegister ++ [p] }
  | .maxSteps =>
    ((Text.readUnsigned 10 stepLimit value.toList).mapError .count).map fun n =>
      { o with maxSteps := some n }
  | .dumpRam => (readPath value).map fun p => { o with dumpRam := some p }
  | .save => (readPath value).map fun p => { o with save := some p }
  | .logLevel => (readLevel value).map fun l => { o with logLevel := l }
  | .logCpu => (readLevel value).map fun l => { o with logCpu := some l }
  | .logBus => (readLevel value).map fun l => { o with logBus := some l }
  | .logMonitor => (readLevel value).map fun l => { o with logMonitor := some l }

end Setting

namespace Options

/-- A trace in the log is let through, unless a level for monitors is set. -/
def logging (o : Options) : Log.Config where
  global := o.logLevel
  cpu := o.logCpu.getD .off
  bus := o.logBus.getD .off
  monitor := o.logMonitor.getD (if o.traceLog then .trace else .off)

/-- All breakpoints: addresses, then mnemonics, then registers. -/
def points (o : Options) : List Breakpoint :=
  o.breakAt.map .address ++ o.breakOn.map .mnemonic ++ o.breakRegister

end Options
end Mos6502.CommandLine

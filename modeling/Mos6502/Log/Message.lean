import Mos6502.Log.Config
import Mos6502.Bus.Text
import Mos6502.Monitor.Breakpoint
import Mos6502.Monitor.Speed

/-! The messages that the emulator logs: what each reports, its category and level, and its text.
The text is made only for a message that is let through. -/
namespace Mos6502

/-- A line of a trace: the registers, then the instruction about to run. -/
def traceLine (r : Registers) (i : Instruction) : String := r.text ++ "  " ++ i.text

inductive Message
  | attached (extent : Extent)
  | layout (extents : List Extent)
  | ignoredWrite (value : Byte) (label : String) (size : Nat) (offset : Word)
  | reset (pc : Word)
  | executing (instruction : Instruction)
  | softwareInterrupt (address pushed target : Word)
  | halted (address : Word) (code : Byte)
  | interrupted (pc : Word)
  | breakpoint (point : Breakpoint) (registers : Registers) (instruction : Instruction)
  | singleStep (registers : Registers) (instruction : Instruction)
  | traced (registers : Registers) (instruction : Instruction)
  | speed (report : SpeedReport)
  deriving DecidableEq, Repr

namespace Message

def category : Message → Log.Category
  | .attached _ | .layout _ | .ignoredWrite _ _ _ _ => .bus
  | .reset _ | .executing _ | .softwareInterrupt _ _ _ | .halted _ _ | .interrupted _ => .cpu
  | .breakpoint _ _ _ | .singleStep _ _ | .traced _ _ | .speed _ => .monitor

def level : Message → Log.Level
  | .ignoredWrite _ _ _ _ => .warn
  | .attached _ | .halted _ _ | .interrupted _ | .breakpoint _ _ _ | .singleStep _ _
  | .speed _ => .info
  | .layout _ | .reset _ | .softwareInterrupt _ _ _ => .debug
  | .executing _ | .traced _ _ => .trace

theorem level_ne_off (m : Message) : m.level ≠ .off := by
  cases m <;> simp [level]

def text : Message → String
  | .attached e =>
    "Bus: attached " ++ e.name ++ " at $" ++ Text.hexWord e.first ++ "-$" ++ Text.hexWord e.last
  | .layout es => Extent.listText es
  | .ignoredWrite v label size offset =>
    "Bus: ignored write of $" ++ Text.hexByte v ++ " to " ++ Backend.romText label size ++
      " offset $" ++ Text.hexWord offset
  | .reset pc => "CPU: reset, PC=" ++ Text.hexWord pc
  | .executing i => "CPU: " ++ Text.hexWord i.address ++ "  " ++ i.text
  | .softwareInterrupt a pushed target =>
    "CPU: BRK at PC=" ++ Text.hexWord a ++ ", pushed " ++ Text.hexWord pushed ++ ", jumping to " ++
      Text.hexWord target
  | .halted a code =>
    "CPU: halt at PC=" ++ Text.hexWord a ++ " with exit code " ++ toString code.toNat
  | .interrupted pc => "CPU: interrupted at PC=" ++ Text.hexWord pc
  | .breakpoint p r i => "Breakpoint " ++ p.text ++ ": " ++ traceLine r i
  | .singleStep r i => "Step: " ++ traceLine r i
  | .traced r i => traceLine r i
  | .speed report => "Speedometer: " ++ report.text

def record (m : Message) : Log.Record := ⟨m.category.target, m.level, m.text⟩

def passes (m : Message) (k : Log.Config) : Bool := k.admits m.category m.level

end Message
end Mos6502

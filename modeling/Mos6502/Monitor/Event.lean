import Mos6502.Log.Message
import Mos6502.Processor.Core

/-! Events: all that a running machine lets others see, in the order in which it happens. -/
namespace Mos6502

/-- The machine as a monitor sees it: the state before an instruction changes anything. -/
structure Observation where
  registers : Registers
  bus : Bus
  /-- Base cycles executed so far. -/
  cycles : Nat
  instruction : Instruction

inductive Event
  | log (message : Message)
  | probe (region : String) (access : ProbeAccess)
  /-- A line written by a tracer. -/
  | trace (registers : Registers) (instruction : Instruction)
  | sinkFlushed | sinkRefused
  | stopped (registers : Registers) (instruction : Instruction)
  | prompted (registers : Registers) (instruction : Instruction)
  /-- What a recorder saw, with the cycles executed before. -/
  | seen (recorder : Nat) (registers : Registers) (instruction : Instruction) (cycles : Nat)
  | seenShutdown (recorder : Nat)

namespace Event

/-- Whether a log configuration lets the event be seen. It filters messages and nothing else. -/
def passes (k : Log.Config) : Event → Bool
  | .log m => m.passes k
  | _ => true

def ofBusNotice : BusNotice → Event
  | .probe region access => .probe region access
  | .ignoredWrite v label size offset => .log (.ignoredWrite v label size offset)

def ofNotice : Notice → Event
  | .bus n => ofBusNotice n
  | .softwareInterrupt a pushed target => .log (.softwareInterrupt a pushed target)

@[simp] theorem passes_everything (e : Event) : e.passes .everything = true := by
  cases e <;> simp [passes, Message.passes, Log.Config.everything_admits, Message.level_ne_off]

end Event
end Mos6502

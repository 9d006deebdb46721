import Mos6502.Machine.Channel
import Mos6502.Monitor.Basic

/-! The machine: a core with its counters, the monitor that watches it, the channel its exit codes
go to, and the journal of all that it has let others see. -/
namespace Mos6502

def resetVector : Word := 0xFFFC

def interruptExitCode : Byte := 1

structure Machine where
  registers : Registers := {}
  bus : Bus := {}
  cycles : Nat := 0
  instructions : Nat := 0
  monitor : Option Monitor := none
  channel : Option Channel := none
  /-- The code of the last halt or interrupt since the last reset. -/
  exitCode : Option Byte := none
  /-- Whether an interrupt has been raised and not yet been served. -/
  interrupted : Bool := false
  logging : Log.Config := {}
  journal : Array Event := #[]
  deriving Inhabited

/-- What an operation on a machine ends with: a value or a failure, and the machine after it. -/
abbrev Machine.Outcome (ε α : Type) := EStateM.Result ε Machine α

namespace Machine

/-- Lets an event be seen, if the log configuration lets it pass. -/
def emit (m : Machine) (e : Event) : Machine :=
  if e.passes m.logging then { m with journal := m.journal.push e } else m

def emitAll (m : Machine) (es : List Event) : Machine := es.foldl emit m

@[simp] theorem emitAll_nil (m : Machine) : m.emitAll [] = m := rfl

@[simp] theorem emitAll_cons (m : Machine) (e : Event) (es : List Event) :
    m.emitAll (e :: es) = (m.emit e).emitAll es := rfl

/-- Events change the journal and nothing else. -/
theorem emit_eq (m : Machine) (e : Event) :
    m.emit e = { m with journal := m.journal ++ if e.passes m.logging then #[e] else #[] } := by
  unfold emit
  split <;> simp

theorem emitAll_eq (m : Machine) (es : List Event) :
    m.emitAll es = { m with journal := m.journal ++ (es.filter (·.passes m.logging)).toArray } := by
  induction es generalizing m with
  | nil => simp
  | cons e es ih =>
    rw [emitAll_cons, ih, emit_eq]
    by_cases h : e.passes m.logging <;> simp [h]

/-- Records an exit code and offers it on the channel. -/
def publish (m : Machine) (code : Byte) : Machine :=
  { m with exitCode := some code, channel := m.channel.map (·.offer code) }

def raise (m : Machine) : Machine := { m with interrupted := true }

/-- Starts over at an address. The data registers and the stack pointer keep what they hold. -/
def resetTo (m : Machine) (pc : Word) : Machine :=
  let registers := { m.registers with pc := pc, status := .atReset }
  { m with registers, exitCode := none, interrupted := false }.emit (.log (.reset pc))

def receive (m : Machine) : Option Byte × Machine :=
  match m.channel with
  | none => (none, m)
  | some c => (c.receive.1, { m with channel := some c.receive.2 })

end Machine
end Mos6502

import Mos6502.Processor.Fault
import Mos6502.Processor.Arithmetic

/-! The core that executes instructions: registers and bus, with what has been noticed on the way.
A trap keeps the state that was reached; nothing is rolled back. -/
namespace Mos6502

inductive Notice
  | bus (notice : BusNotice)
  | softwareInterrupt (address pushed target : Word)
  deriving DecidableEq, Repr

structure Core where
  registers : Registers
  bus : Bus
  notices : List Notice := []
  deriving Inhabited

abbrev Exec := EStateM Trap Core

namespace Exec

def registers : Exec Registers := fun c => .ok c.registers c

def update (f : Registers → Registers) : Exec Unit := fun c =>
  .ok () { c with registers := f c.registers }

def notice (n : Notice) : Exec Unit := fun c => .ok () { c with notices := c.notices ++ [n] }

def trap {α : Type} (t : Trap) : Exec α := fun c => .error t c

def readByte (a : Word) : Exec Byte := fun c =>
  match c.bus.read a with
  | .ok v => .ok v { c with notices := c.notices ++ (c.bus.onRead a).map .bus }
  | .error e => .error (.bus e) c

def writeByte (a : Word) (v : Byte) : Exec Unit := fun c =>
  match c.bus.writeRefusal? a with
  | some e => .error (.bus e) c
  | none =>
    let heard := c.notices ++ (c.bus.onWrite a v).map .bus
    .ok () { c with bus := c.bus.put a v, notices := heard }

def readWord (a : Word) : Exec Word := do
  let low ← readByte a
  let high ← readByte (a + 1)
  return Word.join low high

def push (v : Byte) : Exec Unit := do
  let r ← registers
  writeByte r.stackAddress v
  update fun r => { r with sp := r.sp - 1 }

def pull : Exec Byte := do
  update fun r => { r with sp := r.sp + 1 }
  let r ← registers
  readByte r.stackAddress

/-- Pushes the high byte first, so that the word lies in memory low byte first. -/
def pushWord (w : Word) : Exec Unit := do
  push w.high
  push w.low

def pullWord : Exec Word := do
  let low ← pull
  let high ← pull
  return Word.join low high

end Exec
end Mos6502

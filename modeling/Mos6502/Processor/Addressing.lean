import Mos6502.Instruction.Basic
import Mos6502.Processor.Core

/-! Effective addresses. An instruction reaches its operand directly or through a pointer in memory.
Indexing in page zero wraps inside the page, all other indexing wraps at 64K, and pointers are two
consecutive bytes wherever they lie. -/
namespace Mos6502

inductive Target
  | direct (address : Word)
  /-- The word at `pointer`, plus `index`. -/
  | indirect (pointer index : Word)
  | outsideZeroPage (pointer : Byte)
  | absent
  deriving DecidableEq, Repr

namespace Instruction

/-- How the memory operand is reached, the program counter being past the instruction. -/
def target (i : Instruction) (r : Registers) : Target :=
  match i.mode with
  | .zeroPage => .direct i.byte.toUInt16
  | .zeroPageX => .direct (i.byte + r.x).toUInt16
  | .zeroPageY => .direct (i.byte + r.y).toUInt16
  | .absolute => .direct i.word
  | .absoluteX => .direct (i.word + r.x.toUInt16)
  | .absoluteY => .direct (i.word + r.y.toUInt16)
  | .relative => .direct (r.pc + i.byte.displacement)
  | .indirect => .indirect i.word 0
  | .absoluteIndexedIndirect => .indirect (i.word + r.x.toUInt16) 0
  | .indirectX =>
    if i.byte + r.x = 0xFF then .outsideZeroPage (i.byte + r.x)
    else .indirect (i.byte + r.x).toUInt16 0
  | .indirectY => .indirect i.byte.toUInt16 r.y.toUInt16
  | .zeroPageIndirect => .indirect i.byte.toUInt16 0
  | .implied | .accumulator | .immediate => .absent

end Instruction

namespace Exec

def resolve : Target → Exec Word
  | .direct a => pure a
  | .indirect pointer index => do
    let a ← readWord pointer
    return a + index
  | .outsideZeroPage pointer => trap (.pointerOutsideZeroPage pointer)
  | .absent => trap .noAddress

def effectiveAddress (i : Instruction) : Exec Word := do
  let r ← registers
  resolve (i.target r)

def operand (i : Instruction) : Exec Byte :=
  match i.mode with
  | .immediate => pure i.byte
  | .accumulator => do
    let r ← registers
    return r.a
  | _ => do
    let a ← effectiveAddress i
    readByte a

end Exec
end Mos6502

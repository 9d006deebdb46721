import Mos6502.Bus.Basic

/-! Faults. A trap is a failure inside an instruction; with the address and the opcode of the
instruction it becomes a fault, which ends emulation. -/
namespace Mos6502

inductive Trap
  | bus (error : BusError)
  /-- The high byte of an indexed pointer would come from outside page zero. -/
  | pointerOutsideZeroPage (pointer : Byte)
  /-- The addressing mode has no memory operand. -/
  | noAddress
  deriving DecidableEq, Repr

inductive Fault
  | illegalOpcode (pc : Word) (opcode : Byte)
  /-- Without an opcode, the opcode byte or, in a reset, the vector could not be read. -/
  | bus (pc : Word) (opcode : Option Byte) (error : BusError)
  | pointerOutsideZeroPage (pc : Word) (opcode : Byte) (pointer : Byte)
  | noAddress (pc : Word) (opcode : Byte)
  deriving DecidableEq, Repr

def Trap.toFault (t : Trap) (pc : Word) (opcode : Byte) : Fault :=
  match t with
  | .bus e => .bus pc (some opcode) e
  | .pointerOutsideZeroPage pointer => .pointerOutsideZeroPage pc opcode pointer
  | .noAddress => .noAddress pc opcode

namespace Fault

def pc : Fault → Word
  | .illegalOpcode pc _ => pc
  | .bus pc _ _ => pc
  | .pointerOutsideZeroPage pc _ _ => pc
  | .noAddress pc _ => pc

def cause? : Fault → Option BusError
  | .bus _ _ e => some e
  | _ => none

def message : Fault → String
  | .illegalOpcode pc opcode =>
    "illegal opcode $" ++ Text.hexByte opcode ++ " at $" ++ Text.hexWord pc
  | .bus pc opcode e =>
    "bus fault at $" ++ Text.hexWord pc ++
      (match opcode with
        | some code => " (opcode $" ++ Text.hexByte code ++ ")"
        | none => "") ++ ": " ++ e.message
  | .pointerOutsideZeroPage pc opcode pointer =>
    "indexed indirect pointer $" ++ Text.hexByte pointer ++ " at $" ++ Text.hexWord pc ++
      " (opcode $" ++ Text.hexByte opcode ++ ") crosses out of zero page"
  | .noAddress pc opcode =>
    "opcode $" ++ Text.hexByte opcode ++ " at $" ++ Text.hexWord pc ++ " has no memory operand"

end Fault

@[simp] theorem Trap.pc_toFault (t : Trap) (pc : Word) (opcode : Byte) :
    (t.toFault pc opcode).pc = pc := by
  cases t <;> rfl

end Mos6502

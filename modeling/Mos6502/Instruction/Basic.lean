import Mos6502.Opcode.Table
import Mos6502.Text.Hex

/-! Instructions: an opcode, the operand behind it, and the address they stand at; their text, and
the bytes that encode them. -/
namespace Mos6502

inductive Operand
  | none
  /-- An immediate value, a zero-page address, or the displacement of a branch. -/
  | byte (value : Byte)
  | word (value : Word)
  deriving DecidableEq, Repr

namespace Operand

def bytes : Operand → List Byte
  | .none => []
  | .byte b => [b]
  | .word w => [w.low, w.high]

def text : Operand → String
  | .none => ""
  | .byte b => " $" ++ Text.hexByte b
  | .word w => " $" ++ Text.hexWord w

def fits (o : Operand) (n : Nat) : Bool := o.bytes.length == n

end Operand

structure Instruction where
  address : Word
  opcode : Opcode
  operand : Operand
  deriving DecidableEq, Repr

namespace Instruction

def mnemonic (i : Instruction) : Mnemonic := i.opcode.mnemonic

def mode (i : Instruction) : AddressingMode := i.opcode.mode

def length (i : Instruction) : Nat := i.opcode.length

def cycles (i : Instruction) : Nat := i.opcode.cycles

/-- The operand byte; zero where there is none. -/
def byte (i : Instruction) : Byte :=
  match i.operand with
  | .byte b => b
  | _ => 0

def word (i : Instruction) : Word :=
  match i.operand with
  | .word w => w
  | _ => 0

def text (i : Instruction) : String := i.opcode.text ++ i.operand.text

/-- The bytes that encode the instruction, from its address on. -/
def encode (i : Instruction) : List Byte := i.opcode.code :: i.operand.bytes

/-- The address behind the instruction. -/
def next (i : Instruction) : Word := i.address + UInt16.ofNat i.length

end Instruction
end Mos6502

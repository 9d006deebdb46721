/-! Addressing modes: how the operand bytes of an instruction become a value or an address. -/
namespace Mos6502

inductive AddressingMode
  | implied | accumulator | immediate | zeroPage | zeroPageX | zeroPageY | relative
  | absolute | absoluteX | absoluteY | indirect | indirectX | indirectY
  | zeroPageIndirect | absoluteIndexedIndirect
  deriving DecidableEq, Repr

namespace AddressingMode

/-- How many bytes follow the opcode byte. -/
def operandBytes : AddressingMode → Nat
  | .implied | .accumulator => 0
  | .immediate | .zeroPage | .zeroPageX | .zeroPageY | .relative | .indirectX | .indirectY
  | .zeroPageIndirect => 1
  | .absolute | .absoluteX | .absoluteY | .indirect | .absoluteIndexedIndirect => 2

theorem operandBytes_le (m : AddressingMode) : m.operandBytes ≤ 2 := by
  cases m <;> decide

def name : AddressingMode → String
  | .implied => "implied"
  | .accumulator => "accumulator"
  | .immediate => "immediate"
  | .zeroPage => "zeropage"
  | .zeroPageX => "zeropageX"
  | .zeroPageY => "zeropageY"
  | .relative => "relative"
  | .absolute => "absolute"
  | .absoluteX => "absoluteX"
  | .absoluteY => "absoluteY"
  | .indirect => "(indirect)"
  | .indirectX => "(indirect,X)"
  | .indirectY => "(indirect),Y"
  | .zeroPageIndirect => "(zeropage)"
  | .absoluteIndexedIndirect => "(absolute,X)"

end AddressingMode
end Mos6502

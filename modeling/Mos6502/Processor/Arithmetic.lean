import Mos6502.Opcode.Action

/-! Arithmetic on bytes and on the registers. Addition and subtraction are binary: the decimal flag
changes nothing. Both are done in more than eight bits and then cut to a byte; for a subtraction,
carry stands for "no borrow". -/
namespace Mos6502

namespace Byte

/-- The sum before it is cut to a byte. -/
def wideSum (a m : Byte) (carry : Bool) : Nat := a.toNat + m.toNat + carry.toNat

def sum (a m : Byte) (carry : Bool) : Byte := UInt8.ofNat (wideSum a m carry)

def sumCarries (a m : Byte) (carry : Bool) : Bool := 0xFF < wideSum a m carry

/-- Whether both bytes have the sign that their sum has not. -/
def sumOverflows (a m : Byte) (carry : Bool) : Bool :=
  ~~~(a ^^^ m) &&& (a ^^^ sum a m carry) &&& 0x80 != 0

/-- The difference before it is cut to a byte. Without carry it is one less. -/
def wideDifference (a m : Byte) (carry : Bool) : Int := a.toNat - m.toNat - (1 - carry.toNat)

def difference (a m : Byte) (carry : Bool) : Byte := UInt8.ofInt (wideDifference a m carry)

def differenceCarries (a m : Byte) (carry : Bool) : Bool := 0 ≤ wideDifference a m carry

/-- Whether the bytes have different signs, and their difference that of the second. -/
def differenceOverflows (a m : Byte) (carry : Bool) : Bool :=
  (a ^^^ m) &&& (a ^^^ difference a m carry) &&& 0x80 != 0

theorem toNat_sum (a m : Byte) (carry : Bool) :
    (sum a m carry).toNat + 256 * (sumCarries a m carry).toNat =
      a.toNat + m.toNat + carry.toNat := by
  have ha := a.toNat_lt
  have hm := m.toNat_lt
  have hc := carry.toNat_le
  have hsum : (sum a m carry).toNat = wideSum a m carry % 256 := UInt8.toNat_ofNat'
  rw [hsum, sumCarries]
  unfold wideSum
  by_cases h : 0xFF < a.toNat + m.toNat + carry.toNat <;>
    simp only [h, decide_true, decide_false, Bool.toNat_true, Bool.toNat_false] <;> omega

end Byte

namespace Change

/-- The changed byte; the carry flag comes in where the change rotates. -/
def result (k : Change) (carry : Bool) (v : Byte) : Byte :=
  match k with
  | .shiftLeft => v + v
  | .shiftRight => v / 2
  | .rotateLeft => v + v + (if carry then 1 else 0)
  | .rotateRight => v / 2 + (if carry then 128 else 0)
  | .increment => v + 1
  | .decrement => v - 1

/-- The carry flag behind the change: the bit shifted out, or what it was before. -/
def carryOut (k : Change) (carry : Bool) (v : Byte) : Bool :=
  match k with
  | .shiftLeft | .rotateLeft => v.isNegative
  | .shiftRight | .rotateRight => v % 2 == 1
  | .increment | .decrement => carry

end Change

namespace Registers

def loadSum (r : Registers) (result : Byte) (carry overflow : Bool) : Registers :=
  { r with a := result, status := { r.status with carry, overflow }.ofResult result }

def addWithCarry (r : Registers) (m : Byte) : Registers :=
  r.loadSum (Byte.sum r.a m r.status.carry) (Byte.sumCarries r.a m r.status.carry)
    (Byte.sumOverflows r.a m r.status.carry)

def subtractWithCarry (r : Registers) (m : Byte) : Registers :=
  r.loadSum (Byte.difference r.a m r.status.carry) (Byte.differenceCarries r.a m r.status.carry)
    (Byte.differenceOverflows r.a m r.status.carry)

def combine (r : Registers) (o : Combination) (m : Byte) : Registers :=
  match o with
  | .add => r.addWithCarry m
  | .subtract => r.subtractWithCarry m
  | .conjoin => r.load .a (r.a &&& m)
  | .disjoin => r.load .a (r.a ||| m)
  | .exclude => r.load .a (r.a ^^^ m)

/-- Sets the flags as the difference of a register and an operand has them. -/
def compare (r : Registers) (d : DataRegister) (m : Byte) : Registers :=
  { r with status := { r.status with carry := decide (m ≤ r.get d) }.ofResult (r.get d - m) }

def testZero (r : Registers) (m : Byte) : Registers :=
  { r with status := { r.status with zero := r.a &&& m == 0 } }

def copyTopBits (r : Registers) (m : Byte) : Registers :=
  { r with status := { r.status with negative := m.isNegative, overflow := m &&& 0x40 != 0 } }

def setCarry (r : Registers) (on : Bool) : Registers :=
  { r with status := { r.status with carry := on } }

end Registers
end Mos6502

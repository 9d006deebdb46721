import Mos6502.Registers.Status
import Mos6502.Text.Hex

/-! The register file that a program sees. -/
namespace Mos6502

inductive DataRegister
  | a | x | y
  deriving DecidableEq, Repr

structure Registers where
  pc : Word := 0
  a : Byte := 0
  x : Byte := 0
  y : Byte := 0
  sp : Byte := 0
  status : Status := {}
  deriving DecidableEq, Repr, Inhabited

namespace Registers

def get (r : Registers) : DataRegister → Byte
  | .a => r.a
  | .x => r.x
  | .y => r.y

def set (r : Registers) (d : DataRegister) (v : Byte) : Registers :=
  match d with
  | .a => { r with a := v }
  | .x => { r with x := v }
  | .y => { r with y := v }

@[simp] theorem get_set_self (r : Registers) (d : DataRegister) (v : Byte) :
    (r.set d v).get d = v := by
  cases d <;> rfl

@[simp] theorem pc_set (r : Registers) (d : DataRegister) (v : Byte) : (r.set d v).pc = r.pc := by
  cases d <;> rfl

@[simp] theorem sp_set (r : Registers) (d : DataRegister) (v : Byte) : (r.set d v).sp = r.sp := by
  cases d <;> rfl

@[simp] theorem status_set (r : Registers) (d : DataRegister) (v : Byte) :
    (r.set d v).status = r.status := by
  cases d <;> rfl

/-- Zero and negative as a result byte has them. -/
def ofResult (r : Registers) (result : Byte) : Registers :=
  { r with status := r.status.ofResult result }

/-- Puts a value into a data register and lets zero and negative follow it. -/
def load (r : Registers) (d : DataRegister) (v : Byte) : Registers := (r.set d v).ofResult v

/-- Where in the stack page, `$0100` to `$01FF`, the stack pointer points. -/
def stackAddress (r : Registers) : Word := 0x100 + r.sp.toUInt16

def text (r : Registers) : String :=
  "CPU PC:0x" ++ Text.hexWord r.pc ++ " AC:0x" ++ Text.hexByte r.a ++ " X:0x" ++ Text.hexByte r.x ++
    " Y:0x" ++ Text.hexByte r.y ++ " SP:0x" ++ Text.hexByte r.sp ++ " SR:" ++ r.status.text

end Registers

def DataRegister.text : DataRegister → String
  | .a => "A"
  | .x => "X"
  | .y => "Y"

end Mos6502

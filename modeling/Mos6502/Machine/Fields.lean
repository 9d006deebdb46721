import Mos6502.Machine.Basic
import Mos6502.Text.Quoted

/-! A machine field by field on one line, as it is shown to those who look for errors in it. -/
namespace Mos6502

/-- A name, and the fields it has, each with its text. -/
def fieldsText (name : String) (fields : List (String × String)) : String :=
  name ++ " \x7b " ++ String.intercalate ", " (fields.map fun f => f.1 ++ ": " ++ f.2) ++ " \x7d"

def Extent.fields (e : Extent) : String :=
  fieldsText "Region"
    [("name", Text.quoted e.name), ("start", toString e.first.toNat), ("end", toString e.last.toNat)]

def Bus.fields (bus : Bus) : String :=
  "[" ++ String.intercalate ", " (bus.extents.map (·.fields)) ++ "]"

def Registers.fields (r : Registers) : String :=
  fieldsText "Registers"
    [("pc", toString r.pc.toNat), ("a", toString r.a.toNat), ("x", toString r.x.toNat),
     ("y", toString r.y.toNat), ("sp", toString r.sp.toNat),
     ("status", toString r.status.toByte.toNat)]

def Machine.fields (m : Machine) : String :=
  let exitCode :=
    match m.exitCode with
    | some code => "Some(" ++ toString code.toNat ++ ")"
    | none => "None"
  fieldsText "Cpu"
    [("regs", m.registers.fields), ("bus", m.bus.fields), ("cycles", toString m.cycles),
     ("instructions", toString m.instructions), ("monitor", toString m.monitor.isSome),
     ("exit_code", exitCode), ("interrupt", toString m.interrupted)]

end Mos6502

import Mos6502.Instruction.Basic
import Mos6502.Registers.Basic
import Mos6502.Text.Address

/-! Breakpoints: conditions on the registers and on the instruction about to run, and how a
condition on a register is written. -/
namespace Mos6502

inductive Breakpoint
  | address (a : Word)
  | register (r : DataRegister) (v : Byte)
  | mnemonic (m : Mnemonic)
  deriving DecidableEq, Repr

inductive BreakpointError
  | unknownRegister (text : String)
  | missingValue (text : String)
  | badValue (text : String)
  deriving DecidableEq, Repr

def BreakpointError.message : BreakpointError → String
  | .unknownRegister text => "unknown register '" ++ text ++ "', expected A, X or Y"
  | .missingValue text => "expected REGISTER=VALUE, got '" ++ text ++ "'"
  | .badValue text => "bad register value '" ++ text ++ "'"

/-- The register that a text names, letter case and blanks around it ignored. -/
def DataRegister.ofName? (s : List Char) : Option DataRegister :=
  match (Text.trimBlanks s).map Char.toUpper with
  | ['A'] | ['A', 'C'] => some .a
  | ['X'] => some .x
  | ['Y'] => some .y
  | _ => none

def DataRegister.parse (s : String) : Except BreakpointError DataRegister :=
  match DataRegister.ofName? s.toList with
  | some r => .ok r
  | none => .error (.unknownRegister s)

namespace Breakpoint

/-- Reads `REGISTER=VALUE`, split at the first equals sign. -/
def parseRegister (s : String) : Except BreakpointError Breakpoint :=
  match s.toList.dropWhile (· != '=') with
  | [] => .error (.missingValue s)
  | _ :: right =>
    let left := s.toList.takeWhile (· != '=')
    match DataRegister.ofName? left with
    | none => .error (.unknownRegister (String.ofList left))
    | some r =>
      match parseAddress (String.ofList right) with
      | .error _ => .error (.badValue (String.ofList right))
      | .ok v => if v ≤ 255 then .ok (.register r v.toUInt8) else .error (.badValue (String.ofList right))

def holds (p : Breakpoint) (r : Registers) (i : Instruction) : Bool :=
  match p with
  | .address a => r.pc == a
  | .register d v => r.get d == v
  | .mnemonic m => i.mnemonic == m

def text : Breakpoint → String
  | .address a => "PC=$" ++ Text.hexWord a
  | .register d v => d.text ++ "=$" ++ Text.hexByte v
  | .mnemonic m => m.name

end Breakpoint
end Mos6502

import Mos6502.Json.Value
import Mos6502.Text.Address
import Mos6502.Text.Quoted

/-! What can be wrong with a text that is read as something written in JSON: it is no JSON, or it has
not the expected shape. -/
namespace Mos6502.Json

/-- What stands where something else was expected. -/
inductive Found
  | null
  | boolean (b : Bool)
  | integer (n : Int)
  | float (x : Float)
  | string (s : String)
  | sequence
  | map

def Found.text : Found → String
  | .null => "null"
  | .boolean b => "boolean `" ++ toString b ++ "`"
  | .integer n => "integer `" ++ toString n ++ "`"
  | .float x => "floating point `" ++ floatText x ++ "`"
  | .string s => "string " ++ Text.quoted s
  | .sequence => "sequence"
  | .map => "map"

inductive Mismatch
  | invalidType (found : Found) (expected : String)
  | invalidValue (n : Int) (expected : String)
  | invalidLength (length : Nat) (expected : String)
  | missingField (name : String)
  | duplicateField (name : String)
  | unknownVariant (name : String) (first second : String)
  /-- Neither a whole number nor a text, where either denotes an address. -/
  | noAddress
  | addressOutOfRange (n : Nat)
  | badAddress (error : BadAddress)

def Mismatch.message : Mismatch → String
  | .invalidType found expected => "invalid type: " ++ found.text ++ ", expected " ++ expected
  | .invalidValue n expected =>
    "invalid value: " ++ (Found.integer n).text ++ ", expected " ++ expected
  | .invalidLength n expected => "invalid length " ++ toString n ++ ", expected " ++ expected
  | .missingField name => "missing field `" ++ name ++ "`"
  | .duplicateField name => "duplicate field `" ++ name ++ "`"
  | .unknownVariant name first second =>
    "unknown variant `" ++ name ++ "`, expected `" ++ first ++ "` or `" ++ second ++ "`"
  | .noAddress => "data did not match any variant of untagged enum AddressRepr"
  | .addressOutOfRange n => "address " ++ toString n ++ " out of range"
  | .badAddress e => e.message

inductive Error
  | flaw (f : Flaw)
  | mismatch (m : Mismatch)

abbrev Reading := Except Error

namespace Reading

def fail {α : Type} (m : Mismatch) : Reading α := .error (.mismatch m)

/-- What has no flaw can be read. -/
def ofFlaw {α : Type} : Except Flaw α → Reading α
  | .ok a => .ok a
  | .error f => .error (.flaw f)

end Reading

def Number.found : Number → Found
  | .natural n => .integer n
  | .negative n => .integer (-n)
  | .float x => .float x

def Value.found : Value → Found
  | .null => .null
  | .bool b => .boolean b
  | .number n => n.found
  | .string s => .string s
  | .array _ => .sequence
  | .object _ => .map

end Mos6502.Json

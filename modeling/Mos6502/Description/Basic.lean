import Mos6502.Json.Value
import Mos6502.Memory.Backend

/-! Machine descriptions: the regions of a bus in the order in which they are attached, and where
execution starts if not at the reset vector; how a description is written in JSON. -/
namespace Mos6502

inductive RegionKind
  | ram (size : Nat)
  /-- The bytes of a file. -/
  | rom (path : String)
  deriving DecidableEq, Repr

structure RegionDescription where
  name : String
  base : Word
  kind : RegionKind
  deriving DecidableEq, Repr

structure Description where
  regions : List RegionDescription
  resetVector : Option Word := none
  deriving DecidableEq, Repr

def RegionKind.fields : RegionKind → List (String × Json.Value)
  | .ram size => [("kind", .string "ram"), ("size", .natural size)]
  | .rom path => [("kind", .string "rom"), ("path", .string path)]

def RegionDescription.toJson (r : RegionDescription) : Json.Value :=
  .object (("name", .string r.name) :: ("base", .natural r.base.toNat) :: r.kind.fields)

namespace Description

def toJson (d : Description) : Json.Value :=
  .object (("regions", .array (d.regions.map (·.toJson))) ::
    match d.resetVector with
    | some a => [("reset_vector", .natural a.toNat)]
    | none => [])

def text (d : Description) : String := d.toJson.compactText

/-- RAM from address zero on, and a ROM of some length that ends at the last address. The RAM shrinks,
down to nothing, where the ROM needs its place. -/
def ofRom (path : String) (length : Nat) : Description :=
  let base := 65536 - length
  let size := min standardRamSize base
  let ram : List RegionDescription := if size = 0 then [] else [⟨"ram", 0, .ram size⟩]
  { regions := ram ++ [⟨"rom", UInt16.ofNat base, .rom path⟩] }

end Description
end Mos6502

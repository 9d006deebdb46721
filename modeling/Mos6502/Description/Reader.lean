import Mos6502.Description.Basic
import Mos6502.Json.Reader

/-! Reading a machine description. An address is a whole number, or a text that denotes one. A region
is an object: name and base are read as they come, all else is kept and read when the object is
complete, first the kind and then what that kind needs. -/
namespace Mos6502

open Json

def addressOfJson : Value → Reading Word
  | .number (.natural n) =>
    if n ≤ 65535 then .ok (UInt16.ofNat n) else Reading.fail (.addressOutOfRange n)
  | .string s =>
    match parseAddress s with
    | .ok a => .ok a
    | .error e => Reading.fail (.badAddress e)
  | _ => Reading.fail .noAddress

def readAddress (room : Nat) (n : Node) : Reading Word := do
  let v ← n.readValue room
  addressOfJson v

def readOptionalAddress (room : Nat) : Node → Reading (Option Word)
  | .null => .ok none
  | n => (readAddress room n).map some

/-- The kinds of regions by name. -/
inductive RegionTag
  | ram | rom
  deriving DecidableEq, Repr

namespace RegionTag

/-- A kind is given by its name or by its number. -/
def ofJson : Value → Reading RegionTag
  | .string s =>
    if s = "ram" then .ok .ram
    else if s = "rom" then .ok .rom
    else Reading.fail (.unknownVariant s "ram" "rom")
  | .number (.natural n) =>
    match n with
    | 0 => .ok .ram
    | 1 => .ok .rom
    | n => Reading.fail (.invalidValue n "variant index 0 <= i < 2")
  | v => Reading.fail (.invalidType v.found "variant identifier")

end RegionTag

/-- Takes the only field of a name out of all fields, reading it as it comes. -/
def takeField {α : Type} (name : String) (read : Value → Reading α) :
    List (String × Value) → Option α → Reading (Option α)
  | [], found => .ok found
  | (key, v) :: rest, found =>
    if key = name then
      match found with
      | some _ => Reading.fail (.duplicateField name)
      | none => do
        let a ← read v
        takeField name read rest (some a)
    else takeField name read rest found

def sizeLimit : Nat := 0xFFFFFFFFFFFFFFFF

def sizeOfJson : Value → Reading Nat
  | .number (.natural n) => if n ≤ sizeLimit then .ok n else Reading.fail (.invalidValue n "usize")
  | .number (.negative n) => Reading.fail (.invalidValue (-n) "usize")
  | v => Reading.fail (.invalidType v.found "usize")

def pathOfJson : Value → Reading String
  | .string s => .ok s
  | v => Reading.fail (.invalidType v.found "path string")

def RegionKind.ofFields (fields : List (String × Value)) : Reading RegionKind := do
  match ← takeField "kind" RegionTag.ofJson fields none with
  | none => Reading.fail (.missingField "kind")
  | some .ram =>
    let size ← takeField "size" sizeOfJson fields none
    return .ram (size.getD standardRamSize)
  | some .rom =>
    match ← takeField "path" pathOfJson fields none with
    | none => Reading.fail (.missingField "path")
    | some path => return .rom path

structure RegionDraft where
  name : Option String := none
  base : Option Word := none
  others : List (String × Value) := []

namespace RegionDraft

def read (room : Nat) (key : String) (n : Node) (d : RegionDraft) : Reading RegionDraft :=
  if key = "name" then
    match d.name with
    | some _ => Reading.fail (.duplicateField key)
    | none => do
      let name ← n.readString "a string"
      return { d with name := some name }
  else if key = "base" then
    match d.base with
    | some _ => Reading.fail (.duplicateField key)
    | none => do
      let base ← readAddress room n
      return { d with base := some base }
  else do
    let v ← n.readValue room
    return { d with others := d.others ++ [(key, v)] }

def finish (d : RegionDraft) : Reading RegionDescription :=
  match d.name, d.base with
  | none, _ => Reading.fail (.missingField "name")
  | _, none => Reading.fail (.missingField "base")
  | some name, some base => do
    let kind ← RegionKind.ofFields d.others
    return ⟨name, base, kind⟩

end RegionDraft

def RegionDescription.readJson (room : Nat) : Node → Reading RegionDescription
  | .object members ending => do
    let room ← enter room
    let draft ← Node.foldMembers (RegionDraft.read room) ending members {}
    draft.finish
  | n => n.refuse "struct RegionConfig"

def readRegionList (room : Nat) (ending : Ending) : List Node → Reading (List RegionDescription)
  | [] => do
    ending.leave
    return []
  | n :: rest => do
    let region ← RegionDescription.readJson room n
    let regions ← readRegionList room ending rest
    return region :: regions

def readRegions (room : Nat) : Node → Reading (List RegionDescription)
  | .array items ending => do
    let room ← enter room
    readRegionList room ending items
  | n => n.refuse "a sequence"

/-- A description that is being read. -/
structure DescriptionDraft where
  regions : Option (List RegionDescription) := none
  resetVector : Option (Option Word) := none

namespace DescriptionDraft

def read (room : Nat) (key : String) (n : Node) (d : DescriptionDraft) : Reading DescriptionDraft :=
  if key = "regions" then
    match d.regions with
    | some _ => Reading.fail (.duplicateField key)
    | none => do
      let regions ← readRegions room n
      return { d with regions := some regions }
  else if key = "reset_vector" then
    match d.resetVector with
    | some _ => Reading.fail (.duplicateField key)
    | none => do
      let a ← readOptionalAddress room n
      return { d with resetVector := some a }
  else do
    n.skip
    return d

def finish (d : DescriptionDraft) : Reading Description :=
  match d.regions with
  | none => Reading.fail (.missingField "regions")
  | some regions => .ok { regions, resetVector := d.resetVector.getD none }

end DescriptionDraft

namespace Description

/-- Reads a description that is a list of the regions and, if it is there, the reset vector. -/
def readList (room : Nat) (ending : Ending) : List Node → Reading Description
  | [] => do
    ending.leave
    Reading.fail (.invalidLength 0 "struct MachineConfig with 2 elements")
  | [n] => do
    let regions ← readRegions room n
    ending.leave
    return { regions }
  | n :: m :: rest => do
    let regions ← readRegions room n
    let resetVector ← readOptionalAddress room m
    Node.leaveRecord ending rest
    return { regions, resetVector }

def readJson (n : Node) : Reading Description :=
  match n with
  | .object members ending => do
    let room ← enter nestingLimit
    let draft ← Node.foldMembers (DescriptionDraft.read room) ending members {}
    draft.finish
  | .array items ending => do
    let room ← enter nestingLimit
    readList room ending items
  | n => n.refuse "struct MachineConfig"

def parse (text : String) : Reading Description := readText readJson text

end Description
end Mos6502

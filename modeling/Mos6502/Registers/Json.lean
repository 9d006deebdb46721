import Mos6502.Json.Reader
import Mos6502.Registers.Basic

/-! The register file in JSON: an object with a member for each register, or a list of the registers
in order. -/
namespace Mos6502.Registers

open Json

/-- A register as JSON has it: its name, its greatest value, and the name of its type. -/
structure Slot where
  name : String
  limit : Nat
  type : String
  deriving DecidableEq, Repr

def slots : List Slot :=
  [⟨"pc", 65535, "u16"⟩, ⟨"a", 255, "u8"⟩, ⟨"x", 255, "u8"⟩, ⟨"y", 255, "u8"⟩, ⟨"sp", 255, "u8"⟩,
   ⟨"status", 255, "u8"⟩]

def values (r : Registers) : List Nat :=
  [r.pc.toNat, r.a.toNat, r.x.toNat, r.y.toNat, r.sp.toNat, r.status.toByte.toNat]

def ofValues : List Nat → Registers
  | [pc, a, x, y, sp, status] =>
    ⟨UInt16.ofNat pc, UInt8.ofNat a, UInt8.ofNat x, UInt8.ofNat y, UInt8.ofNat sp,
      .ofByte (UInt8.ofNat status)⟩
  | _ => {}

@[simp] theorem ofValues_values (r : Registers) : ofValues r.values = r := by
  simp [ofValues, values]

def toJson (r : Registers) : Value :=
  .object ((slots.zip r.values).map fun (slot, n) => (slot.name, .natural n))

def Slot.read (slot : Slot) (n : Node) : Reading Nat := n.readUnsigned slot.limit slot.type

/-- Reads a member of the object, given those before it. Members with other names are passed over. -/
def readMember (name : String) (n : Node) (before : List (String × Nat)) :
    Reading (List (String × Nat)) :=
  match slots.find? (·.name == name) with
  | none => do
    n.skip
    return before
  | some slot =>
    if (before.lookup name).isSome then Reading.fail (.duplicateField name)
    else do
      let v ← slot.read n
      return before ++ [(name, v)]

/-- The values of all registers, if there are members for all. -/
def collect (members : List (String × Nat)) : List Slot → Reading (List Nat)
  | [] => return []
  | slot :: rest => do
    match members.lookup slot.name with
    | none => Reading.fail (.missingField slot.name)
    | some v =>
      let vs ← collect members rest
      return v :: vs

def readList (ending : Ending) : Nat → List Slot → List Node → Reading (List Nat)
  | _, [], nodes => do
    Node.leaveRecord ending nodes
    return []
  | n, _ :: _, [] => do
    ending.leave
    Reading.fail (.invalidLength n "struct Registers with 6 elements")
  | n, slot :: slots, node :: nodes => do
    let v ← slot.read node
    let vs ← readList ending (n + 1) slots nodes
    return v :: vs

def readJson : Node → Reading Registers
  | .object members ending => do
    let found ← Node.foldMembers readMember ending members []
    let vs ← collect found slots
    return ofValues vs
  | .array items ending => do
    let vs ← readList ending 0 slots items
    return ofValues vs
  | n => n.refuse "struct Registers"

def parseJson (text : String) : Reading Registers := readText readJson text

end Mos6502.Registers

import Mos6502.Json.Error
import Mos6502.Json.Tree

/-! Reading a tree as something. Readers go through the text in order and fail at the first thing
that is wrong, so a wrong shape before a flaw wins over the flaw, and a flaw before a wrong shape
wins over that. Arrays and objects may be nested to a limited depth where they are read; those
that are passed over may be nested to any. -/
namespace Mos6502.Json

def nestingLimit : Nat := 127

def enter : Nat → Reading Nat
  | 0 => .error (.flaw .malformed)
  | room + 1 => .ok room

def Ending.leave : Ending → Reading Unit
  | .closed => .ok ()
  | .flawed f => .error (.flaw f)

namespace Node

/-- What the node is, in a complaint about it. -/
def found? : Node → Except Flaw Found
  | .null => .ok .null
  | .bool b => .ok (.boolean b)
  | .number (.ok n) => n.value.map (·.found)
  | .number (.error f) => .error f
  | .string s => s.content.map .string
  | .array _ _ => .ok .sequence
  | .object _ _ => .ok .map
  | .broken f => .error f

def refuse {α : Type} (n : Node) (expected : String) : Reading α := do
  let found ← Reading.ofFlaw n.found?
  Reading.fail (.invalidType found expected)

def readString (expected : String) : Node → Reading String
  | .string s => Reading.ofFlaw s.content
  | n => n.refuse expected

def readUnsigned (limit : Nat) (expected : String) : Node → Reading Nat
  | .number (.ok n) => do
    match ← Reading.ofFlaw n.value with
    | .natural n => if n ≤ limit then return n else Reading.fail (.invalidValue n expected)
    | .negative n => Reading.fail (.invalidValue (-n) expected)
    | .float x => Reading.fail (.invalidType (.float x) expected)
  | n => n.refuse expected

def skip (n : Node) : Reading Unit :=
  match n.flaw? with
  | some f => .error (.flaw f)
  | none => .ok ()

mutual

/-- Reads any value, with room for so many levels. -/
def readValue (room : Nat) : Node → Reading Value
  | .null => .ok .null
  | .bool b => .ok (.bool b)
  | .number (.ok n) => (Reading.ofFlaw n.value).map .number
  | .number (.error f) => .error (.flaw f)
  | .string s => (Reading.ofFlaw s.content).map .string
  | .array items ending => do
    let room ← enter room
    let items ← readItems room ending items
    return .array items
  | .object members ending => do
    let room ← enter room
    let fields ← readFields room ending members
    return .object fields
  | .broken f => .error (.flaw f)

def readItems (room : Nat) (ending : Ending) : List Node → Reading (List Value)
  | [] => do
    ending.leave
    return []
  | n :: rest => do
    let v ← readValue room n
    let vs ← readItems room ending rest
    return v :: vs

def readFields (room : Nat) (ending : Ending) :
    List (Literal × Node) → Reading (List (String × Value))
  | [] => do
    ending.leave
    return []
  | (key, n) :: rest => do
    let name ← Reading.ofFlaw key.content
    let v ← readValue room n
    let fields ← readFields room ending rest
    return (name, v) :: fields

end

/-- Reads the members of an object one by one. -/
def foldMembers {σ : Type} (read : String → Node → σ → Reading σ) (ending : Ending) :
    List (Literal × Node) → σ → Reading σ
  | [], s => do
    ending.leave
    return s
  | (key, n) :: rest, s => do
    let name ← Reading.ofFlaw key.content
    let s ← read name n s
    foldMembers read ending rest s

/-- Ends a list that has been read as a record: nothing may follow. -/
def leaveRecord (ending : Ending) : List Node → Reading Unit
  | [] => ending.leave
  | _ :: _ => .error (.flaw .malformed)

end Node

/-- Reads a whole text. -/
def readText {α : Type} (read : Node → Reading α) (text : String) : Reading α := do
  let document := Document.ofText text
  let a ← read document.root
  if document.more then .error (.flaw .malformed) else return a

end Mos6502.Json

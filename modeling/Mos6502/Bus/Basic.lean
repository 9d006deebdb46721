import Mos6502.Bus.Region

/-! The address bus: regions in the order in which they were attached. The first region that covers
an address owns it, so a region shadows all later ones where they overlap. -/
namespace Mos6502

structure Bus where
  regions : List Region := []
  deriving Inhabited

inductive BusError
  | unmapped (address : Word)
  | emptyRegion (name : String)
  | regionOutOfRange (name : String) (base : Word) (size : Nat)
  | outOfBounds (size : Nat) (offset : Word)
  deriving DecidableEq, Repr

def BusError.message : BusError → String
  | .unmapped address => "no backend mapped at $" ++ Text.hexWord address
  | .emptyRegion name => "region '" ++ name ++ "' has zero size"
  | .regionOutOfRange name base size =>
    "region '" ++ name ++ "' at $" ++ Text.hexWord base ++ " with " ++ toString size ++
      " bytes runs past $FFFF"
  | .outOfBounds size offset =>
    "no byte at offset $" ++ Text.hexWord offset ++ " in a backend of " ++ toString size ++ " bytes"

namespace Bus

/-- Why a backend of some size cannot be mapped at some base, if it cannot. -/
def refusal? (name : String) (base : Word) (size : Nat) : Option BusError :=
  if size = 0 then some (.emptyRegion name)
  else if 65536 < base.toNat + size then some (.regionOutOfRange name base size)
  else none

theorem refusal?_eq_none_iff {name : String} {base : Word} {size : Nat} :
    refusal? name base size = none ↔ 0 < size ∧ base.toNat + size ≤ 65536 := by
  unfold refusal?
  split
  · simp_all
  · split <;> simp <;> omega

/-- Where a region ends is counted in 64 bits. -/
def endLimit : Nat := 0x10000000000000000

def hasEnd (base : Word) (size : Nat) : Bool := base.toNat + size < endLimit

/-- Maps a backend behind all regions that are there already. -/
def attach (bus : Bus) (name : String) (base : Word) (backend : Backend) : Except BusError Bus :=
  match h : refusal? name base backend.size with
  | some e => .error e
  | none =>
    .ok ⟨bus.regions ++ [⟨name, base, backend, (refusal?_eq_none_iff.1 h).1,
      (refusal?_eq_none_iff.1 h).2⟩]⟩

def owner? (bus : Bus) (a : Word) : Option Region := bus.regions.find? (·.covers a)

def isMapped (bus : Bus) (a : Word) : Bool := (bus.owner? a).isSome

def read (bus : Bus) (a : Word) : Except BusError Byte :=
  match bus.owner? a with
  | none => .error (.unmapped a)
  | some r =>
    match r.backend.read? (r.offset a) with
    | some v => .ok v
    | none => .error (.outOfBounds r.size (r.offset a))

theorem read_eq (bus : Bus) (a : Word) :
    bus.read a =
      match bus.owner? a with
      | none => .error (.unmapped a)
      | some r => .ok (r.read a) := by
  unfold read
  cases h : bus.owner? a with
  | none => rfl
  | some r =>
    have hc : r.covers a = true := by simpa using List.find?_some h
    simp [Backend.read?_eq_some (Region.offset_lt_size hc), Region.read]

def writeRegions (a : Word) (v : Byte) : List Region → List Region
  | [] => []
  | r :: rest => if r.covers a then r.write a v :: rest else r :: writeRegions a v rest

def put (bus : Bus) (a : Word) (v : Byte) : Bus := ⟨writeRegions a v bus.regions⟩

def writeRefusal? (bus : Bus) (a : Word) : Option BusError :=
  match bus.owner? a with
  | none => some (.unmapped a)
  | some r =>
    if r.backend.takes (r.offset a) then none else some (.outOfBounds r.size (r.offset a))

theorem writeRefusal?_eq (bus : Bus) (a : Word) :
    bus.writeRefusal? a = if bus.isMapped a then none else some (.unmapped a) := by
  unfold writeRefusal? isMapped
  cases h : bus.owner? a with
  | none => rfl
  | some r =>
    have hc : r.covers a = true := by simpa using List.find?_some h
    simp [Backend.takes_of_lt (Region.offset_lt_size hc)]

def write (bus : Bus) (a : Word) (v : Byte) : Except BusError Bus :=
  match bus.writeRefusal? a with
  | some e => .error e
  | none => .ok (bus.put a v)

/-- The byte at `a` and the byte behind it, as a word. The first that is unmapped is the error. -/
def readWord (bus : Bus) (a : Word) : Except BusError Word := do
  let low ← bus.read a
  let high ← bus.read (a + 1)
  return Word.join low high

/-- The byte image of the first region of a name. -/
def contents? (bus : Bus) (name : String) : Option Image :=
  (bus.regions.find? (·.name == name)).bind (·.backend.image?)

/-- Whether no region has side effects. -/
def isPlain (bus : Bus) : Bool := bus.regions.all (·.backend.isPlain)

def onRead (bus : Bus) (a : Word) : List BusNotice :=
  match bus.owner? a with
  | some r => r.onRead a
  | none => []

def onWrite (bus : Bus) (a : Word) (v : Byte) : List BusNotice :=
  match bus.owner? a with
  | some r => r.onWrite a v
  | none => []

def shutdown (bus : Bus) : Bus := ⟨bus.regions.map (·.shutdown)⟩

def onShutdown (bus : Bus) : List BusNotice := bus.regions.flatMap (·.onShutdown)

/-- The bytes that differ from those of an earlier state of the bus, by region name. Each name
stands for the first region that has it. -/
def changes (before after : Bus) : List (String × Nat × Byte) :=
  (after.regions.map (·.name)).eraseDups.flatMap fun name =>
    match before.contents? name, after.contents? name with
    | some old, some new => (Image.changes old new).map fun c => (name, c.1, c.2)
    | _, _ => []

end Bus
end Mos6502

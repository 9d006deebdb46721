import Mos6502.Bus.Basic

/-! The bus as it looks from outside: the extents of its regions, and their text. -/
namespace Mos6502

/-- Name, first and last address of a region. -/
structure Extent where
  name : String
  first : Word
  last : Word
  deriving DecidableEq, Repr

namespace Extent

def text (e : Extent) : String :=
  "$" ++ Text.hexWord e.first ++ "-$" ++ Text.hexWord e.last ++ " " ++ e.name

def listText (es : List Extent) : String :=
  es.foldl (fun text e => text ++ "\n  " ++ e.text) "Address bus:"

end Extent

def Region.extent (r : Region) : Extent := ⟨r.name, r.base, r.last⟩

@[simp] theorem Region.extent_write (r : Region) (a : Word) (v : Byte) :
    (r.write a v).extent = r.extent := by
  simp [extent, last]

namespace Bus

def extents (bus : Bus) : List Extent := bus.regions.map (·.extent)

def text (bus : Bus) : String := Extent.listText bus.extents

@[simp] theorem extents_put (bus : Bus) (a : Word) (v : Byte) :
    (bus.put a v).extents = bus.extents := by
  obtain ⟨rs⟩ := bus
  simp only [extents, put]
  induction rs with
  | nil => rfl
  | cons r rest ih =>
    simp only [writeRegions]
    split <;> simp [ih]

end Bus
end Mos6502

import Mos6502.Word

/-! Byte images: the contents of a memory, addressed from zero. -/
namespace Mos6502

abbrev Image := Array Byte

namespace Image

/-- An image has less than so many bytes. -/
def sizeLimit : Nat := 0x8000000000000000

def filled (size : Nat) (fill : Byte) : Image := Array.replicate size fill

def zeros (size : Nat) : Image := filled size 0

@[simp] theorem size_filled (n : Nat) (b : Byte) : (filled n b).size = n := by simp [filled]

@[simp] theorem size_zeros (n : Nat) : (zeros n).size = n := by simp [zeros]

/-- Overwrites the bytes from `offset` on; what would lie beyond the end is dropped. -/
def overwrite (image : Image) (offset : Nat) : List Byte → Image
  | [] => image
  | b :: rest => overwrite (image.setIfInBounds offset b) (offset + 1) rest

@[simp] theorem size_overwrite (image : Image) (offset : Nat) (bytes : List Byte) :
    (image.overwrite offset bytes).size = image.size := by
  induction bytes generalizing image offset with
  | nil => rfl
  | cons b rest ih => simp [overwrite, ih]

/-- Copies bytes into the image, if all of them lie inside it. -/
def load? (image : Image) (offset : Nat) (bytes : List Byte) : Option Image :=
  if offset + bytes.length ≤ image.size then some (image.overwrite offset bytes) else none

def slice (image : Image) (first last : Nat) : List Byte :=
  (image.extract (min first (min last image.size)) (min last image.size)).toList

/-- The bytes below an offset that differ from those of an earlier image of the same size, with
their offsets and new values, put before a list of later ones. -/
def changesBelow (before after : Image) : Nat → List (Nat × Byte) → List (Nat × Byte)
  | 0, later => later
  | i + 1, later =>
    let b := after.getD i 0
    changesBelow before after i (if before.getD i 0 == b then later else (i, b) :: later)

def changes (before after : Image) : List (Nat × Byte) := changesBelow before after after.size []

end Image

/-- How to make an image: so many bytes of one value, overwritten by each part in turn. -/
structure ImagePlan where
  size : Nat := 0
  fill : Byte := 0
  parts : List (Nat × List Byte) := []
  deriving Repr

namespace ImagePlan

/-- Whether there can be such an image, and every part lies inside it. -/
def fits (p : ImagePlan) : Bool :=
  p.size < Image.sizeLimit && p.parts.all fun part => part.1 + part.2.length ≤ p.size

def build (p : ImagePlan) : Image :=
  p.parts.foldl (fun image part => image.overwrite part.1 part.2) (.filled p.size p.fill)

def build? (p : ImagePlan) : Option Image := if p.fits then some p.build else none

@[simp] theorem size_build (p : ImagePlan) : p.build.size = p.size := by
  obtain ⟨size, fill, parts⟩ := p
  have h : ∀ (ps : List (Nat × List Byte)) (image : Image),
      (ps.foldl (fun image part => image.overwrite part.1 part.2) image).size = image.size := by
    intro ps
    induction ps with
    | nil => intro image; rfl
    | cons part rest ih => intro image; rw [List.foldl_cons, ih, Image.size_overwrite]
  simp [build, h]

end ImagePlan
end Mos6502

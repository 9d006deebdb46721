import Mos6502.Memory.Backend

/-! A region: a backend mapped over the bus addresses from `base` on. It is never empty and never
runs past the end of the address space, so every address it covers is inside its backend. -/
namespace Mos6502

structure Region where
  name : String
  base : Word
  backend : Backend
  size_pos : 0 < backend.size
  fits : base.toNat + backend.size ≤ 65536

/-- What a bus access leaves for others to see. -/
inductive BusNotice
  | probe (region : String) (access : ProbeAccess)
  | ignoredWrite (value : Byte) (label : String) (size : Nat) (offset : Word)
  deriving DecidableEq, Repr

namespace Region

def size (r : Region) : Nat := r.backend.size

/-- The last address of the region. -/
def last (r : Region) : Word := UInt16.ofNat (r.base.toNat + r.size - 1)

def covers (r : Region) (a : Word) : Bool :=
  decide (r.base.toNat ≤ a.toNat ∧ a.toNat < r.base.toNat + r.size)

theorem covers_iff {r : Region} {a : Word} :
    r.covers a = true ↔ r.base.toNat ≤ a.toNat ∧ a.toNat < r.base.toNat + r.size := by
  simp [covers]

/-- The local address that a bus address stands for. -/
def offset (r : Region) (a : Word) : Word := a - r.base

theorem toNat_offset {r : Region} {a : Word} (h : r.covers a = true) :
    (r.offset a).toNat = a.toNat - r.base.toNat :=
  UInt16.toNat_sub_of_le _ _ (UInt16.le_iff_toNat_le.2 (covers_iff.1 h).1)

/-- An access through the region stays inside its backend. -/
theorem offset_lt_size {r : Region} {a : Word} (h : r.covers a = true) :
    (r.offset a).toNat < r.backend.size := by
  have hc := covers_iff.1 h
  rw [toNat_offset h]
  simp only [size] at hc
  omega

def read (r : Region) (a : Word) : Byte := r.backend.read (r.offset a)

def write (r : Region) (a : Word) (v : Byte) : Region where
  name := r.name
  base := r.base
  backend := r.backend.write (r.offset a) v
  size_pos := by simpa using r.size_pos
  fits := by simpa using r.fits

def shutdown (r : Region) : Region where
  name := r.name
  base := r.base
  backend := r.backend.shutdown
  size_pos := by simpa using r.size_pos
  fits := by simpa using r.fits

@[simp] theorem name_write (r : Region) (a : Word) (v : Byte) : (r.write a v).name = r.name := rfl

@[simp] theorem base_write (r : Region) (a : Word) (v : Byte) : (r.write a v).base = r.base := rfl

@[simp] theorem size_write (r : Region) (a : Word) (v : Byte) : (r.write a v).size = r.size := by
  simp [size, write]

@[simp] theorem covers_write (r : Region) (a : Word) (v : Byte) (b : Word) :
    (r.write a v).covers b = r.covers b := by
  simp [covers]

@[simp] theorem offset_write (r : Region) (a : Word) (v : Byte) (b : Word) :
    (r.write a v).offset b = r.offset b := rfl

def onRead (r : Region) (a : Word) : List BusNotice :=
  match r.backend with
  | .probe _ _ => [.probe r.name (.read (r.offset a))]
  | _ => []

def onWrite (r : Region) (a : Word) (v : Byte) : List BusNotice :=
  match r.backend with
  | .ram _ => []
  | .rom label image => [.ignoredWrite v label image.size (r.offset a)]
  | .probe _ _ => [.probe r.name (.write (r.offset a) v)]

def onShutdown (r : Region) : List BusNotice :=
  match r.backend with
  | .probe _ _ => [.probe r.name .shutdown]
  | _ => []

end Region
end Mos6502

import Mos6502.Memory.Image
import Mos6502.Text.Hex

/-! What can be mounted on the bus: RAM, ROM, and a device behind a probe. A backend has a zero-based
address space of its own. A ROM keeps its bytes whatever is written. A device has no byte image and
answers as it likes; the probe before it notices every access. -/
namespace Mos6502

/-- What a probe notices. -/
inductive ProbeAccess
  | read (address : Word)
  | write (address : Word) (value : Byte)
  | shutdown
  deriving DecidableEq, Repr

/-- A device with a state of its own: what it answers to a read depends on the address and on what has
been done to it before, the newest first. -/
structure Device where
  answer : List ProbeAccess → Word → Byte
  history : List ProbeAccess := []

namespace Device

def read (d : Device) (a : Word) : Byte := d.answer d.history a

def hear (d : Device) (access : ProbeAccess) : Device := { d with history := access :: d.history }

/-- Answers with the low address byte xor the byte written last. -/
def echo : Device where
  answer history a :=
    let written? : ProbeAccess → Option Byte
      | .write _ v => some v
      | _ => none
    a.toUInt8 ^^^ (history.findSome? written?).getD 0

end Device

inductive Backend
  | ram (image : Image)
  | rom (label : String) (image : Image)
  | probe (size : Nat) (device : Device)
  deriving Inhabited

/-- How much RAM there is where nothing says how much. -/
def standardRamSize : Nat := 0x8000

namespace Backend

def standardRam : Backend := .ram (.zeros standardRamSize)

def size : Backend → Nat
  | .ram image => image.size
  | .rom _ image => image.size
  | .probe size _ => size

def read (m : Backend) (a : Word) : Byte :=
  match m with
  | .ram image => image.getD a.toNat 0
  | .rom _ image => image.getD a.toNat 0
  | .probe _ device => device.read a

def write (m : Backend) (a : Word) (v : Byte) : Backend :=
  match m with
  | .ram image => .ram (image.setIfInBounds a.toNat v)
  | .rom label image => .rom label image
  | .probe size device => .probe size (device.hear (.write a v))

def shutdown : Backend → Backend
  | .probe size device => .probe size (device.hear .shutdown)
  | m => m

@[simp] theorem size_write (m : Backend) (a : Word) (v : Byte) : (m.write a v).size = m.size := by
  cases m <;> simp [write, size]

@[simp] theorem size_shutdown (m : Backend) : m.shutdown.size = m.size := by
  cases m <;> rfl

/-- The byte image, of backends that have one. -/
def image? : Backend → Option Image
  | .ram image => some image
  | .rom _ image => some image
  | .probe _ _ => none

@[simp] theorem image?_shutdown (m : Backend) : m.shutdown.image? = m.image? := by
  cases m <;> rfl

/-- Bytes without side effects: RAM or ROM. -/
def isPlain : Backend → Bool
  | .probe _ _ => false
  | _ => true

theorem shutdown_of_isPlain {m : Backend} (h : m.isPlain = true) : m.shutdown = m := by
  cases m <;> simp_all [shutdown, isPlain]

def read? (m : Backend) (a : Word) : Option Byte :=
  if a.toNat < m.size then some (m.read a) else none

/-- Whether a write is taken: inside the address space, and anywhere by a ROM, which ignores it. -/
def takes (m : Backend) (a : Word) : Bool :=
  match m with
  | .rom _ _ => true
  | m => decide (a.toNat < m.size)

def write? (m : Backend) (a : Word) (v : Byte) : Option Backend :=
  if m.takes a then some (m.write a v) else none

theorem read?_eq_some {m : Backend} {a : Word} (h : a.toNat < m.size) : m.read? a = some (m.read a) := by
  simp [read?, h]

theorem takes_of_lt {m : Backend} {a : Word} (h : a.toNat < m.size) : m.takes a = true := by
  cases m <;> simp_all [takes]

def romText (label : String) (size : Nat) : String :=
  "ROM[" ++ toString (size / 1024) ++ "k:" ++ label ++ "]"

def text : Backend → String
  | .ram image => "RAM[" ++ toString (image.size / 1024) ++ "k]"
  | .rom label image => romText label image.size
  | .probe size _ => "PROBE[" ++ toString (size / 1024) ++ "k]"

end Backend

/-- How to make a backend. -/
inductive BackendPlan
  | ram (image : ImagePlan)
  | rom (label : String) (image : ImagePlan)
  | probe (size : Nat)
  deriving Repr

namespace BackendPlan

def size : BackendPlan → Nat
  | .ram image => image.size
  | .rom _ image => image.size
  | .probe size => size

def fits : BackendPlan → Bool
  | .ram image => image.fits
  | .rom _ image => image.fits
  | .probe _ => true

def build : BackendPlan → Backend
  | .ram image => .ram image.build
  | .rom label image => .rom label image.build
  | .probe size => .probe size .echo

def build? (p : BackendPlan) : Option Backend := if p.fits then some p.build else none

@[simp] theorem size_build (p : BackendPlan) : p.build.size = p.size := by
  cases p <;> simp [build, size, Backend.size]

end BackendPlan
end Mos6502

import Mos6502.Word

/-! The status register: eight flags, and the byte that holds them. -/
namespace Mos6502

inductive Flag
  | negative | overflow | unused | brk | decimal | interruptDisable | zero | carry
  deriving DecidableEq, Repr

structure Status where
  negative : Bool := false
  overflow : Bool := false
  /-- Bit 5, which stands for nothing. -/
  unused : Bool := false
  /-- Bit 4, by which a handler tells a software interrupt from a hardware one. -/
  brk : Bool := false
  decimal : Bool := false
  interruptDisable : Bool := false
  zero : Bool := false
  carry : Bool := false
  deriving DecidableEq, Repr, Inhabited

namespace Status

def get (s : Status) : Flag → Bool
  | .negative => s.negative
  | .overflow => s.overflow
  | .unused => s.unused
  | .brk => s.brk
  | .decimal => s.decimal
  | .interruptDisable => s.interruptDisable
  | .zero => s.zero
  | .carry => s.carry

def set (s : Status) (f : Flag) (on : Bool) : Status :=
  match f with
  | .negative => { s with negative := on }
  | .overflow => { s with overflow := on }
  | .unused => { s with unused := on }
  | .brk => { s with brk := on }
  | .decimal => { s with decimal := on }
  | .interruptDisable => { s with interruptDisable := on }
  | .zero => { s with zero := on }
  | .carry => { s with carry := on }

@[simp] theorem get_set_self (s : Status) (f : Flag) (on : Bool) : (s.set f on).get f = on := by
  cases f <;> rfl

theorem get_set_of_ne (s : Status) {f g : Flag} (h : g ≠ f) (on : Bool) :
    (s.set f on).get g = s.get g := by
  cases f <;> cases g <;> first | rfl | exact absurd rfl h

def toByte (s : Status) : Byte :=
  (if s.negative then 0x80 else 0) + (if s.overflow then 0x40 else 0) +
    (if s.unused then 0x20 else 0) + (if s.brk then 0x10 else 0) +
    (if s.decimal then 0x08 else 0) + (if s.interruptDisable then 0x04 else 0) +
    (if s.zero then 0x02 else 0) + (if s.carry then 0x01 else 0)

def ofByte (b : Byte) : Status where
  negative := b &&& 0x80 != 0
  overflow := b &&& 0x40 != 0
  unused := b &&& 0x20 != 0
  brk := b &&& 0x10 != 0
  decimal := b &&& 0x08 != 0
  interruptDisable := b &&& 0x04 != 0
  zero := b &&& 0x02 != 0
  carry := b &&& 0x01 != 0

@[simp] theorem ofByte_toByte (s : Status) : ofByte s.toByte = s := by
  obtain ⟨n, v, u, b, d, i, z, c⟩ := s
  revert n v u b d i z c
  decide

@[simp] theorem toByte_ofByte (b : Byte) : (ofByte b).toByte = b := by
  revert b
  exact Byte.forall_of_fin (by decide +kernel)

def hasAny (s : Status) (mask : Byte) : Bool := s.toByte &&& mask != 0

/-- Sets or clears all flags under a mask. -/
def assign (s : Status) (mask : Byte) (on : Bool) : Status :=
  ofByte (if on then s.toByte ||| mask else s.toByte &&& ~~~mask)

def ofResult (s : Status) (result : Byte) : Status :=
  { s with zero := result == 0, negative := result.isNegative }

/-- What a program that saves the status sees: bits 4 and 5 are always set. -/
def pushed (s : Status) : Byte := { s with brk := true, unused := true : Status }.toByte

/-- What a saved byte puts back: bit 5 reads as set, and bit 4 is not kept. -/
def pulled (b : Byte) : Status := { ofByte b with unused := true, brk := false }

def atReset : Status := ofByte 0x34

def letters (s : Status) : List Char :=
  [if s.negative then 'n' else '-', if s.overflow then 'v' else '-',
    if s.unused then '_' else '-', if s.brk then 'b' else '-',
    if s.decimal then 'd' else '-', if s.interruptDisable then 'i' else '-',
    if s.zero then 'z' else '-', if s.carry then 'c' else '-']

def text (s : Status) : String := String.ofList s.letters

end Status
end Mos6502

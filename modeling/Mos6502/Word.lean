/-! Bytes and words. A byte is what one address holds; a word is an address, or two bytes of which
the low one comes first in memory. -/
namespace Mos6502

abbrev Byte := UInt8

abbrev Word := UInt16

namespace Word

def join (low high : Byte) : Word := high.toUInt16 * 256 + low.toUInt16

def low (w : Word) : Byte := w.toUInt8

def high (w : Word) : Byte := (w / 256).toUInt8

theorem toNat_join (low high : Byte) : (join low high).toNat = 256 * high.toNat + low.toNat := by
  have hl := low.toNat_lt
  have hh := high.toNat_lt
  simp [join, UInt16.toNat_add, UInt16.toNat_mul]
  omega

@[simp] theorem toNat_low (w : Word) : (low w).toNat = w.toNat % 256 := by
  simp [low]

@[simp] theorem toNat_high (w : Word) : (high w).toNat = w.toNat / 256 := by
  have h := w.toNat_lt
  simp [high]
  omega

@[simp] theorem low_join (l h : Byte) : low (join l h) = l := by
  apply UInt8.toNat_inj.1
  have := l.toNat_lt
  rw [toNat_low, toNat_join]
  omega

@[simp] theorem high_join (l h : Byte) : high (join l h) = h := by
  apply UInt8.toNat_inj.1
  have := l.toNat_lt
  rw [toNat_high, toNat_join]
  omega

@[simp] theorem join_low_high (w : Word) : join (low w) (high w) = w := by
  apply UInt16.toNat_inj.1
  rw [toNat_join, toNat_low, toNat_high]
  omega

end Word

namespace Byte

theorem forall_of_fin {P : Byte → Prop} (h : ∀ i : Fin 256, P (UInt8.ofNat i)) (b : Byte) : P b := by
  simpa using h ⟨b.toNat, b.toNat_lt⟩

/-- Whether the byte is negative when read as a signed number. -/
def isNegative (b : Byte) : Bool := 128 ≤ b

def toSigned (b : Byte) : Int := if b.isNegative then (b.toNat : Int) - 256 else b.toNat

theorem isNegative_eq_testBit (b : Byte) : b.isNegative = b.toNat.testBit 7 := by
  revert b
  exact forall_of_fin (by decide +kernel)

/-- The signed value of the byte, as a displacement modulo 65536. -/
def displacement (b : Byte) : Word :=
  if isNegative b then b.toUInt16 + 0xFF00 else b.toUInt16

end Byte
end Mos6502

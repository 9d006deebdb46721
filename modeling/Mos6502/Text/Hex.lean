/-! Hexadecimal text. What is shown uses upper-case digits, two to a byte and four to a word;
what is read may use either case. -/
namespace Mos6502.Text

def hexDigit (n : Nat) : Char := if n < 10 then Char.ofNat (48 + n) else Char.ofNat (55 + n)

def hexByteDigits (b : UInt8) : List Char :=
  [hexDigit (b.toNat / 16), hexDigit (b.toNat % 16)]

def hexWordDigits (w : UInt16) : List Char :=
  [hexDigit (w.toNat / 4096), hexDigit (w.toNat / 256 % 16),
    hexDigit (w.toNat / 16 % 16), hexDigit (w.toNat % 16)]

def hexByte (b : UInt8) : String := String.ofList (hexByteDigits b)

def hexWord (w : UInt16) : String := String.ofList (hexWordDigits w)

@[simp] theorem toList_hexByte (b : UInt8) : (hexByte b).toList = hexByteDigits b := by
  simp [hexByte]

@[simp] theorem toList_hexWord (w : UInt16) : (hexWord w).toList = hexWordDigits w := by
  simp [hexWord]

def digitValue? (c : Char) : Option Nat :=
  if '0' ≤ c ∧ c ≤ '9' then some (c.toNat - 48)
  else if 'a' ≤ c ∧ c ≤ 'f' then some (c.toNat - 87)
  else if 'A' ≤ c ∧ c ≤ 'F' then some (c.toNat - 55)
  else none

theorem digitValue?_hexDigit {n : Nat} (h : n < 16) : digitValue? (hexDigit n) = some n := by
  have : ∀ i : Fin 16, digitValue? (hexDigit i) = some i.val := by decide
  exact this ⟨n, h⟩

/-- Reads bytes written as pairs of digits. -/
def readHexBytes? : List Char → Option (List UInt8)
  | [] => some []
  | [_] => none
  | h :: l :: rest => do
    let high ← digitValue? h
    let low ← digitValue? l
    let bytes ← readHexBytes? rest
    some (UInt8.ofNat (16 * high + low) :: bytes)

end Mos6502.Text

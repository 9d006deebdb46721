import Mos6502.Text.Hex
import Mos6502.Word

/-! The text of an address: hexadecimal behind `$` or `0x`, else decimal, with white space around it
ignored. White space is what has the Unicode property `White_Space`. A numeral has at most one plus
sign, at least one digit of the radix and any number of leading zeros, and denotes at most a given
limit; the first digit that breaks a rule decides the error. -/
namespace Mos6502

namespace Text

def isBlank (c : Char) : Bool :=
  let n := c.toNat
  (9 ≤ n && n ≤ 13) || n == 0x20 || n == 0x85 || n == 0xA0 || n == 0x1680 ||
    (0x2000 ≤ n && n ≤ 0x200A) || n == 0x2028 || n == 0x2029 || n == 0x202F || n == 0x205F ||
    n == 0x3000

def trimBlanks (s : List Char) : List Char :=
  ((s.dropWhile isBlank).reverse.dropWhile isBlank).reverse

def trim (s : String) : String := String.ofList (trimBlanks s.toList)

@[simp] theorem trimBlanks_nil : trimBlanks [] = [] := rfl

@[simp] theorem toList_trim (s : String) : (trim s).toList = trimBlanks s.toList := by
  simp [trim]

inductive NumeralError
  | empty | badDigit | tooLarge
  deriving DecidableEq, Repr

def NumeralError.message : NumeralError → String
  | .empty => "cannot parse integer from empty string"
  | .badDigit => "invalid digit found in string"
  | .tooLarge => "number too large to fit in target type"

/-- Reads further digits behind a numeral worth `value` so far. -/
def readDigits (radix limit : Nat) : List Char → Nat → Except NumeralError Nat
  | [], value => .ok value
  | c :: rest, value =>
    match digitValue? c with
    | none => .error .badDigit
    | some digit =>
      if radix ≤ digit then .error .badDigit
      else if limit < value * radix + digit then .error .tooLarge
      else readDigits radix limit rest (value * radix + digit)

def readUnsigned (radix limit : Nat) : List Char → Except NumeralError Nat
  | [] => .error .empty
  | ['+'] => .error .badDigit
  | '+' :: digits => readDigits radix limit digits 0
  | digits => readDigits radix limit digits 0

theorem readDigits_le {radix limit : Nat} {s : List Char} {start n : Nat} (hs : start ≤ limit)
    (h : readDigits radix limit s start = .ok n) : n ≤ limit := by
  induction s generalizing start with
  | nil => simp_all [readDigits]
  | cons c rest ih =>
    rw [readDigits] at h
    split at h
    · simp at h
    · split at h
      · simp at h
      · split at h
        · simp at h
        · exact ih (by omega) h

theorem readUnsigned_le {radix limit : Nat} {s : List Char} {n : Nat}
    (h : readUnsigned radix limit s = .ok n) : n ≤ limit := by
  unfold readUnsigned at h
  split at h <;> first | exact readDigits_le (Nat.zero_le _) h | simp at h

end Text

structure BadAddress where
  text : String
  deriving DecidableEq, Repr

def BadAddress.message (e : BadAddress) : String := "invalid address '" ++ e.text ++ "'"

/-- The numeral that an address without blanks is, by its marker. -/
def readAddressDigits : List Char → Except Text.NumeralError Nat
  | '$' :: digits => Text.readUnsigned 16 65535 digits
  | '0' :: 'x' :: digits => Text.readUnsigned 16 65535 digits
  | '0' :: 'X' :: digits => Text.readUnsigned 16 65535 digits
  | digits => Text.readUnsigned 10 65535 digits

def parseAddress (s : String) : Except BadAddress Word :=
  match readAddressDigits (Text.trimBlanks s.toList) with
  | .ok n => .ok (UInt16.ofNat n)
  | .error _ => .error ⟨s⟩

theorem readAddressDigits_le {s : List Char} {n : Nat} (h : readAddressDigits s = .ok n) :
    n ≤ 65535 := by
  unfold readAddressDigits at h
  split at h <;> exact Text.readUnsigned_le h

end Mos6502

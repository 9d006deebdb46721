/-! Double-precision numbers taken apart, and their decimals with a fixed number of places. A finite
number is a whole number times a power of two. It is rounded to the nearest decimal, and a half goes
to the even neighbour. -/
namespace Mos6502.Number

structure Binary64 where
  negative : Bool
  significand : Nat
  exponent : Int
  deriving DecidableEq, Repr

namespace Binary64

/-- The significand of a number that has its implicit bit and no other. -/
def leastNormal : Nat := 0x10000000000000

/-- Bit patterns from this on have the sign bit. -/
def signBit : Nat := 0x8000000000000000

/-- The number that a bit pattern stands for, if it is finite. -/
def ofBits? (bits : UInt64) : Option Binary64 :=
  let n := bits.toNat
  let biased : Nat := n / leastNormal % 2048
  let fraction : Nat := n % leastNormal
  if biased = 2047 then none
  else if biased = 0 then some ⟨signBit ≤ n, fraction, -1074⟩
  else some ⟨signBit ≤ n, leastNormal + fraction, (biased : Int) - 1075⟩

end Binary64

def bitsText (bits : UInt64) : String :=
  let digits := Nat.toDigits 16 bits.toNat
  String.ofList (List.replicate (16 - digits.length) '0' ++ digits)

/-- The whole number nearest to a quotient, the even one of two equally near. -/
def roundHalfEven (num den : Nat) : Nat :=
  let q := num / den
  let r := num % den
  if 2 * r < den then q
  else if den < 2 * r then q + 1
  else if q % 2 = 0 then q else q + 1

/-- A finite number in units of its last decimal place. -/
def Binary64.scaled (x : Binary64) (places : Nat) : Nat :=
  let n := x.significand * Nat.pow 10 places
  match x.exponent with
  | .ofNat e => n * Nat.pow 2 e
  | .negSucc e => roundHalfEven n (Nat.pow 2 (e + 1))

/-- The text of a whole number of units of the last decimal place. -/
def placesText (places units : Nat) : String :=
  let fraction := Nat.toDigits 10 (units % Nat.pow 10 places)
  toString (units / Nat.pow 10 places) ++ "." ++
    String.ofList (List.replicate (places - fraction.length) '0' ++ fraction)

def fixedText (places : Nat) (x : Float) : String :=
  match Binary64.ofBits? x.toBits with
  | some d => (if d.negative then "-" else "") ++ placesText places (d.scaled places)
  | none => if x.isNaN then "NaN" else if x < 0 then "-inf" else "inf"

end Mos6502.Number

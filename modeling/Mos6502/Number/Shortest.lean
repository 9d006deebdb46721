import Mos6502.Number.Places

/-! The shortest decimal that reads back as a given double. All reals nearer to the double than to
its neighbours read back as it, and so do the two ends of that interval if the significand is even.
The first length at which a decimal lies in the interval wins, and at that length the decimal
nearest to the exact value. -/
namespace Mos6502.Number

/-- `digits` times ten to the power `exponent`. -/
structure Decimal where
  digits : Nat
  exponent : Int
  deriving DecidableEq, Repr

/-- Compares a decimal with `n` times two to the power `e`, exactly. -/
def Decimal.compareBinary (d : Decimal) (n : Nat) (e : Int) : Ordering :=
  compare (d.digits * Nat.pow 10 d.exponent.toNat * Nat.pow 2 (-e).toNat)
    (n * Nat.pow 2 e.toNat * Nat.pow 10 (-d.exponent).toNat)

namespace Binary64

/-- The ends of the interval of reals that read back as the number, in quarters of its last bit. -/
def interval (x : Binary64) : Nat × Nat :=
  let gap := if x.significand = leastNormal ∧ -1074 < x.exponent then 1 else 2
  (4 * x.significand - gap, 4 * x.significand + 2)

def readsBack (x : Binary64) (d : Decimal) : Bool :=
  let low := d.compareBinary x.interval.1 (x.exponent - 2)
  let high := d.compareBinary x.interval.2 (x.exponent - 2)
  if x.significand % 2 = 0 then low != .lt && high != .gt else low == .gt && high == .lt

def quotient (x : Binary64) (k : Int) : Nat :=
  x.significand * Nat.pow 2 x.exponent.toNat * Nat.pow 10 (-k).toNat /
    (Nat.pow 2 (-x.exponent).toNat * Nat.pow 10 k.toNat)

/-- Of two decimals of one exponent on either side of the number, the nearer. -/
def nearer (x : Binary64) (below above : Decimal) : Decimal :=
  let middle : Decimal := ⟨below.digits + above.digits, below.exponent⟩
  match middle.compareBinary (2 * x.significand) x.exponent with
  | .lt => above
  | .gt => below
  | .eq => if below.digits % 2 = 0 then below else above

/-- The best decimal in units of ten to the power `k`, if any reads back. -/
def onGrid? (x : Binary64) (k : Int) : Option Decimal :=
  let below : Decimal := ⟨x.quotient k, k⟩
  let above : Decimal := ⟨x.quotient k + 1, k⟩
  match x.readsBack below, x.readsBack above with
  | true, true => some (x.nearer below above)
  | true, false => some below
  | false, true => some above
  | false, false => none

/-- Tries finer and finer grids, from ten to the power `k` down. -/
def firstOnGrid (x : Binary64) : Nat → Int → Decimal
  | 0, k => ⟨x.quotient k, k⟩
  | tries + 1, k => (x.onGrid? k).getD (firstOnGrid x tries (k - 1))

/-- Any number of digits behind the first reads back from seventeen digits. -/
def shortest (x : Binary64) : Decimal :=
  if x.significand = 0 then ⟨0, 0⟩
  else
    let bits : Int := Nat.log2 x.significand + x.exponent
    firstOnGrid x 20 (bits * 30103 / 100000 + 1)

end Binary64

/-- How a decimal is written: positionally while the exponent of its first digit lies between two
bounds, else with an exponent that always has its sign and is not padded. -/
structure DecimalStyle where
  least : Int
  greatest : Int

namespace DecimalStyle

private def zeros (n : Int) : List Char := List.replicate n.toNat '0'

def exponentText (e : Int) : List Char :=
  'e' :: (if e < 0 then '-' else '+') :: Nat.toDigits 10 e.natAbs

/-- Drops the zeros at the end of the digits. -/
def significant (digits : List Char) : List Char :=
  match (digits.reverse.dropWhile (· == '0')).reverse with
  | [] => ['0']
  | cs => cs

def unsignedText (s : DecimalStyle) (d : Decimal) : List Char :=
  let all := Nat.toDigits 10 d.digits
  let first : Int := d.exponent + all.length - 1
  let digits := significant all
  if d.digits = 0 then "0.0".toList
  else if s.least ≤ first ∧ first ≤ s.greatest then
    if first < 0 then '0' :: '.' :: (zeros (-first - 1) ++ digits)
    else
      let whole := digits.take (first.toNat + 1)
      let fraction := digits.drop (first.toNat + 1)
      whole ++ zeros (first + 1 - whole.length) ++
        '.' :: (if fraction.isEmpty then ['0'] else fraction)
  else
    match digits with
    | [] => []
    | [d] => d :: exponentText first
    | d :: rest => d :: '.' :: (rest ++ exponentText first)

def text (s : DecimalStyle) (x : Binary64) : String :=
  String.ofList ((if x.negative then ['-'] else []) ++ s.unsignedText x.shortest)

end DecimalStyle
end Mos6502.Number

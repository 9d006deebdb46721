import Mos6502.Json.Literal
import Mos6502.Number.Shortest
import Mos6502.Text.Hex

/-! Numbers in JSON: how they are written, and what they denote. Whole numbers that fit 64 bits are
exact. All others are doubles: as many digits as fit 64 bits, scaled by a power of ten. -/
namespace Mos6502.Json

/-- The parts of a number as written. -/
structure Numeral where
  negative : Bool := false
  whole : List Nat
  fraction : List Nat := []
  exponent : Option (Bool × List Nat) := none
  deriving DecidableEq, Repr

inductive Number
  | natural (n : Nat)
  | negative (n : Nat)
  | float (x : Float)

def digit? (c : Char) : Option Nat := if '0' ≤ c ∧ c ≤ '9' then some (c.toNat - 48) else none

/-- The digits at the head of a text, and what is behind them. -/
def takeDigits : List Char → List Nat × List Char
  | [] => ([], [])
  | c :: rest =>
    match digit? c with
    | some d => (d :: (takeDigits rest).1, (takeDigits rest).2)
    | none => ([], c :: rest)

namespace Numeral

def scanExponent (n : Numeral) : List Char → Except Flaw (Numeral × List Char)
  | c :: rest =>
    if c = 'e' ∨ c = 'E' then
      let signed : Bool × List Char :=
        match rest with
        | '-' :: rest => (true, rest)
        | '+' :: rest => (false, rest)
        | rest => (false, rest)
      match takeDigits signed.2 with
      | ([], rest) => .error (.before rest)
      | (digits, rest) => .ok ({ n with exponent := some (signed.1, digits) }, rest)
    else .ok (n, c :: rest)
  | [] => .ok (n, [])

def scanFraction (n : Numeral) : List Char → Except Flaw (Numeral × List Char)
  | '.' :: rest =>
    match takeDigits rest with
    | ([], rest) => .error (.before rest)
    | (digits, rest) => { n with fraction := digits }.scanExponent rest
  | rest => n.scanExponent rest

/-- Reads a number; no digit may follow a zero at its head. -/
def scan (text : List Char) : Except Flaw (Numeral × List Char) :=
  let signed : Bool × List Char :=
    match text with
    | '-' :: rest => (true, rest)
    | rest => (false, rest)
  match takeDigits signed.2 with
  | ([], rest) => .error (.before rest)
  | (0 :: _ :: _, _) => .error .malformed
  | (digits, rest) => scanFraction { negative := signed.1, whole := digits } rest

def wholeLimit : Nat := 0x10000000000000000

/-- How far down whole numbers go before they count as doubles. -/
def negativeLimit : Nat := 0x8000000000000000

/-- Appends digits to a number while it fits 64 bits; the second component are the others. -/
def appendDigits : Nat → List Nat → Nat × List Nat
  | n, [] => (n, [])
  | n, d :: rest => if n * 10 + d < wholeLimit then appendDigits (n * 10 + d) rest else (n, d :: rest)

def powerOfTen (e : Nat) : Float := Float.ofScientific 1 false e

/-- Divides by a power of ten, in steps that are doubles themselves. -/
def scaleDown : Nat → Float → Nat → Float
  | 0, x, _ => x
  | steps + 1, x, e =>
    if e ≤ 308 then x / powerOfTen e else scaleDown steps (x / powerOfTen 308) (e - 308)

/-- Scales by a power of ten; what is too large for a double is malformed. -/
def scale (x : Float) : Int → Except Flaw Float
  | .ofNat e =>
    if 308 < e then if x == 0 then .ok x else .error .malformed
    else
      let y := x * powerOfTen e
      if y.isInf then .error .malformed else .ok y
  | .negSucc e => .ok (scaleDown 4 x (e + 1))

/-- Exponents of more than 31 bits are beyond every double. -/
def exponentLimit : Nat := 0x80000000

/-- The absolute value as a double. -/
def magnitude (n : Numeral) : Except Flaw Float :=
  let whole := appendDigits 0 n.whole
  let all := appendDigits whole.1 n.fraction
  let shift : Int := (whole.2.length : Int) - (n.fraction.length - all.2.length : Nat)
  let x := (UInt64.ofNat all.1).toFloat
  match n.exponent with
  | none => scale x shift
  | some (negative, digits) =>
    let e := digits.foldl (fun e d => e * 10 + d) 0
    if exponentLimit ≤ e then
      if all.1 ≠ 0 ∧ ¬negative then .error .malformed else .ok 0
    else scale x (if negative then shift - e else shift + e)

def value (n : Numeral) : Except Flaw Number :=
  let exact := appendDigits 0 n.whole
  if n.fraction = [] ∧ n.exponent = none ∧ exact.2 = [] then
    if n.negative then
      if 0 < exact.1 ∧ exact.1 ≤ negativeLimit then .ok (.negative exact.1)
      else .ok (.float (-(UInt64.ofNat exact.1).toFloat))
    else .ok (.natural exact.1)
  else
    match n.magnitude with
    | .ok x => .ok (.float (if n.negative then -x else x))
    | .error f => .error f

end Numeral

/-- Doubles are written positionally from `0.00001` up to below `1e16`. -/
def floatStyle : Number.DecimalStyle := ⟨-5, 15⟩

def floatText (x : Float) : String :=
  match Number.Binary64.ofBits? x.toBits with
  | some b => floatStyle.text b
  | none => "null"

end Mos6502.Json

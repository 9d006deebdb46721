import Mos6502.Text.Hex

/-! String literals in JSON. A character can be written as itself, as a short escape, or as one or
two escaped 16-bit codes. Whether codes pair up is not part of how a literal is written; it
matters only to who wants its content. -/
namespace Mos6502.Json

/-- The two ways in which a text can fail to be JSON. -/
inductive Flaw
  /-- The text ends too early. -/
  | truncated
  | malformed
  deriving DecidableEq, Repr, Inhabited

/-- The flaw of a text in which something else was expected where only the given rest follows. -/
def Flaw.before : List Char → Flaw
  | [] => .truncated
  | _ => .malformed

/-- What a literal is made of. -/
inductive Piece
  | char (c : Char)
  | code (n : Nat)
  deriving DecidableEq, Repr

/-- A literal as far as it is well written, and the flaw behind that. -/
structure Literal where
  pieces : List Piece
  flaw : Option Flaw := none
  deriving DecidableEq, Repr

def shortEscape? : Char → Option Char
  | '"' => some '"'
  | '\\' => some '\\'
  | '/' => some '/'
  | 'b' => some '\x08'
  | 'f' => some '\x0c'
  | 'n' => some '\n'
  | 'r' => some '\r'
  | 't' => some '\t'
  | _ => none

def hexCode? (a b c d : Char) : Option Nat := do
  let a ← Text.digitValue? a
  let b ← Text.digitValue? b
  let c ← Text.digitValue? c
  let d ← Text.digitValue? d
  some (((a * 16 + b) * 16 + c) * 16 + d)

namespace Literal

/-- Reads the pieces behind an opening quote, and what follows the closing one. -/
def scanPieces : List Char → List Piece × Except Flaw (List Char)
  | [] => ([], .error .truncated)
  | '"' :: rest => ([], .ok rest)
  | '\\' :: 'u' :: a :: b :: c :: d :: rest =>
    match hexCode? a b c d with
    | some n => (.code n :: (scanPieces rest).1, (scanPieces rest).2)
    | none => ([], .error .malformed)
  | '\\' :: 'u' :: rest =>
    ([], .error (if (String.ofList rest).utf8ByteSize < 4 then .truncated else .malformed))
  | ['\\'] => ([], .error .truncated)
  | '\\' :: e :: rest =>
    match shortEscape? e with
    | some c => (.char c :: (scanPieces rest).1, (scanPieces rest).2)
    | none => ([], .error .malformed)
  | c :: rest =>
    if c.toNat < 0x20 then ([], .error .malformed)
    else (.char c :: (scanPieces rest).1, (scanPieces rest).2)

def scan (text : List Char) : Literal × Option (List Char) :=
  match scanPieces text with
  | (pieces, .ok rest) => (⟨pieces, none⟩, some rest)
  | (pieces, .error f) => (⟨pieces, some f⟩, none)

def isLeading (n : Nat) : Bool := 0xD800 ≤ n && n < 0xDC00

def isTrailing (n : Nat) : Bool := 0xDC00 ≤ n && n < 0xE000

/-- The character that a leading and a trailing code stand for together. -/
def pair (leading trailing : Nat) : Char :=
  Char.ofNat ((leading - 0xD800) * 0x400 + (trailing - 0xDC00) + 0x10000)

/-- The characters that pieces stand for, if every leading code is followed by a trailing one and no
other code is. -/
def join (flaw : Option Flaw) : List Piece → Except Flaw (List Char)
  | [] =>
    match flaw with
    | some f => .error f
    | none => .ok []
  | .char c :: rest => (join flaw rest).map (c :: ·)
  | .code n :: .code m :: rest =>
    if isLeading n then
      if isTrailing m then (join flaw rest).map (pair n m :: ·) else .error .malformed
    else if isTrailing n then .error .malformed
    else (join flaw (.code m :: rest)).map (Char.ofNat n :: ·)
  | .code n :: rest =>
    if isTrailing n then .error .malformed
    else if isLeading n then .error (if rest.isEmpty then flaw.getD .malformed else .malformed)
    else (join flaw rest).map (Char.ofNat n :: ·)

def content (l : Literal) : Except Flaw String := (join l.flaw l.pieces).map String.ofList

end Literal

/-- How a character is written inside a literal. -/
def escapeChar (c : Char) : List Char :=
  match c with
  | '"' => ['\\', '"']
  | '\\' => ['\\', '\\']
  | '\x08' => ['\\', 'b']
  | '\x0c' => ['\\', 'f']
  | '\n' => ['\\', 'n']
  | '\r' => ['\\', 'r']
  | '\t' => ['\\', 't']
  | c =>
    if c.toNat < 0x20 then
      ['\\', 'u', '0', '0', (Text.hexDigit (c.toNat / 16)).toLower,
        (Text.hexDigit (c.toNat % 16)).toLower]
    else [c]

def literalText (s : String) : List Char := '"' :: (s.toList.flatMap escapeChar ++ ['"'])

end Mos6502.Json

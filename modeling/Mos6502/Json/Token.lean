import Mos6502.Json.Literal
import Mos6502.Json.Numeral

/-! JSON as tokens. Where no token can be read, a flaw stands in its place, and nothing behind it is
looked at. -/
namespace Mos6502.Json

inductive Token
  | beginArray | endArray | beginObject | endObject | comma | colon
  | null | bool (b : Bool)
  | number (n : Except Flaw Numeral)
  | string (s : Literal)
  | flaw (f : Flaw)

def isSpace (c : Char) : Bool := c == ' ' || c == '\n' || c == '\t' || c == '\r'

namespace Token

/-- Reads the letters of a word, of which the first has been read. -/
def expect (t : Token) : List Char → List Char → Token × Option (List Char)
  | [], rest => (t, some rest)
  | _, [] => (.flaw .truncated, none)
  | w :: ws, c :: rest => if w = c then expect t ws rest else (.flaw .malformed, none)

/-- Reads the token that begins with a character, and what follows it, if it is well written. -/
def scan (c : Char) (rest : List Char) : Token × Option (List Char) :=
  match c with
  | '[' => (.beginArray, some rest)
  | ']' => (.endArray, some rest)
  | '\x7b' => (.beginObject, some rest)
  | '\x7d' => (.endObject, some rest)
  | ',' => (.comma, some rest)
  | ':' => (.colon, some rest)
  | 'n' => expect .null ['u', 'l', 'l'] rest
  | 't' => expect (.bool true) ['r', 'u', 'e'] rest
  | 'f' => expect (.bool false) ['a', 'l', 's', 'e'] rest
  | '"' => (.string (Literal.scan rest).1, (Literal.scan rest).2)
  | c =>
    if c = '-' ∨ (digit? c).isSome then
      match Numeral.scan (c :: rest) with
      | .ok (n, rest) => (.number (.ok n), some rest)
      | .error f => (.number (.error f), none)
    else (.flaw .malformed, none)

/-- At most `fuel` characters are looked at as the beginning of a token. -/
def scanAll : Nat → List Char → List Token
  | 0, _ => []
  | _, [] => []
  | fuel + 1, c :: rest =>
    if isSpace c then scanAll fuel rest
    else
      match scan c rest with
      | (t, some rest) => t :: scanAll fuel rest
      | (t, none) => [t]

def ofText (text : List Char) : List Token := scanAll text.length text

end Token
end Mos6502.Json

/-! Plain text: what is left of a text without the control characters and sequences of terminals.
White space of ASCII stays. A line end or a tab inside an escape or control sequence stays as well,
and so does what follows, up to the next control character, which goes on with the sequence. -/
namespace Mos6502.Text

/-- What an escape character has begun. -/
inductive Sequence
  | escape
  | escapeIntermediate
  | control
  | deviceEntry
  | deviceParameters
  | deviceIntermediate
  | string
  | command
  deriving DecidableEq, Repr

def escapeChar : Char := '\x1B'

/-- White space that is a control character. -/
def isLayout (c : Char) : Bool := c == '\t' || c == '\n' || c == '\x0C' || c == '\r'

def isPlain (c : Char) : Bool := isLayout c || (' ' ≤ c && c != '\x7F')

/-- Whether a character has the byte of the string terminator in its encoding. -/
def hasTerminator (c : Char) : Bool := (String.utf8EncodeChar c).contains 0x9C

def isIntermediate (c : Char) : Bool := ' ' ≤ c && c ≤ '/'

namespace Sequence

def ofIntroducer (c : Char) : Option Sequence :=
  match c with
  | '[' => some .control
  | ']' => some .command
  | 'P' => some .deviceEntry
  | 'X' | '^' | '_' => some .string
  | c =>
    if isIntermediate c then some .escapeIntermediate
    else if '0' ≤ c && c ≤ '~' then none
    else some .escape

def next (s : Sequence) (c : Char) : Option Sequence :=
  match s with
  | .escape => ofIntroducer c
  | .escapeIntermediate => if '0' ≤ c && c ≤ '~' then none else some s
  | .control => if '@' ≤ c && c ≤ '~' then none else some s
  | .deviceEntry =>
    if '@' ≤ c && c ≤ '~' then some .string
    else if '0' ≤ c && c ≤ '?' then some .deviceParameters
    else if isIntermediate c then some .deviceIntermediate
    else some s
  | .deviceParameters =>
    if '<' ≤ c && c ≤ '~' then some .string
    else if isIntermediate c then some .deviceIntermediate
    else some s
  | .deviceIntermediate => if '0' ≤ c && c ≤ '~' then some .string else some s
  | .string => if hasTerminator c then none else some s
  | .command => if c = '\x07' then none else some s

/-- Whether line ends and tabs inside the sequence stay. -/
def keepsLayout : Sequence → Bool
  | .escape | .escapeIntermediate | .control => true
  | _ => false

end Sequence

/-- Where a reader of text is. -/
inductive Position
  | text (suspended : Option Sequence)
  | inside (s : Sequence)
  deriving DecidableEq, Repr

namespace Position

def keeps (p : Position) (c : Char) : Bool :=
  match p with
  | .text _ => isPlain c
  | .inside s => isLayout c && s.keepsLayout

/-- Goes on with a sequence. An escape character begins another, and two control characters cancel. -/
def resume (s : Option Sequence) (c : Char) : Position :=
  if c = escapeChar then .inside .escape
  else if c = '\x18' ∨ c = '\x1A' then .text none
  else
    match s.bind (·.next c) with
    | some s => .inside s
    | none => .text none

/-- The position behind a character. Text that is not ASCII gives up a suspended sequence. -/
def next (p : Position) (c : Char) : Position :=
  match p with
  | .text s => if isPlain c then .text (if c.toNat < 0x80 then s else none) else resume s c
  | .inside s => if isLayout c && s.keepsLayout then .text (some s) else resume (some s) c

def plain (p : Position) : List Char → List Char
  | [] => []
  | c :: rest => if p.keeps c then c :: plain (p.next c) rest else plain (p.next c) rest

end Position

/-- The text without control characters and sequences. -/
def plain (s : String) : String := String.ofList ((Position.text none).plain s.toList)

end Mos6502.Text

import Mos6502.Json.Token

/-! The tree that a JSON text describes. A text that is not JSON has a tree too: it ends where the
text goes wrong, and everything that is open there ends with the same flaw. So one who finds a
value of the wrong shape before the flaw can tell so. -/
namespace Mos6502.Json

/-- How an array or an object ends: with a bracket, or with a flaw. -/
inductive Ending
  | closed
  | flawed (f : Flaw)
  deriving DecidableEq, Repr

inductive Node
  | null
  | bool (b : Bool)
  | number (n : Except Flaw Numeral)
  | string (s : Literal)
  | array (items : List Node) (ending : Ending)
  | object (members : List (Literal × Node)) (ending : Ending)
  /-- Here a value should have been. -/
  | broken (f : Flaw)
  deriving Inhabited

/-- An array or an object that is being read; what it holds so far, last first. -/
inductive Frame
  | array (before : List Node)
  | object (before : List (Literal × Node))
  | member (before : List (Literal × Node)) (key : Literal)

namespace Frame

/-- Takes a value in. An object that waits for no value takes none. -/
def put (n : Node) : Frame → Frame
  | .array before => .array (n :: before)
  | .object before => .object before
  | .member before key => .object ((key, n) :: before)

def close (e : Ending) : Frame → Node
  | .array before => .array before.reverse e
  | .object before => .object before.reverse e
  | .member before _ => .object before.reverse e

end Frame

/-- What has to come next. -/
inductive Want
  | value | itemOrEnd | key | keyOrEnd | colon | commaOrEnd
  deriving DecidableEq, Repr

inductive Progress
  | on (want : Want) (frames : List Frame)
  | complete (root : Node)
  | stuck (root : Node)

/-- Ends everything that is open around a node where the text goes wrong. -/
def abandon (f : Flaw) (n : Node) (frames : List Frame) : Node :=
  frames.foldl (fun n frame => (frame.put n).close (.flawed f)) n

def stop (f : Flaw) : Want → List Frame → Node
  | .value, frames | .colon, frames => abandon f (.broken f) frames
  | _, [] => .broken f
  | _, frame :: frames => abandon f (frame.close (.flawed f)) frames

/-- Hands a value that is complete to the array or object around it. -/
def hand (n : Node) : List Frame → Progress
  | [] => .complete n
  | frame :: frames => .on .commaOrEnd (frame.put n :: frames)

def begin (want : Want) (frames : List Frame) : Token → Progress
  | .beginArray => .on .itemOrEnd (.array [] :: frames)
  | .beginObject => .on .keyOrEnd (.object [] :: frames)
  | .null => hand .null frames
  | .bool b => hand (.bool b) frames
  | .number n => hand (.number n) frames
  | .string s => hand (.string s) frames
  | .flaw f => .stuck (stop f want frames)
  | _ => .stuck (stop .malformed want frames)

def advance (want : Want) (frames : List Frame) (t : Token) : Progress :=
  match want, frames, t with
  | .itemOrEnd, frame :: frames, .endArray => hand (frame.close .closed) frames
  | .value, frames, t | .itemOrEnd, frames, t => begin want frames t
  | .keyOrEnd, frame :: frames, .endObject => hand (frame.close .closed) frames
  | .keyOrEnd, .object before :: frames, .string key
  | .key, .object before :: frames, .string key => .on .colon (.member before key :: frames)
  | .colon, frames, .colon => .on .value frames
  | .commaOrEnd, .array before :: frames, .comma => .on .value (.array before :: frames)
  | .commaOrEnd, .array before :: frames, .endArray => hand (.array before.reverse .closed) frames
  | .commaOrEnd, .object before :: frames, .comma => .on .key (.object before :: frames)
  | .commaOrEnd, .object before :: frames, .endObject =>
    hand (.object before.reverse .closed) frames
  | want, frames, _ => .stuck (stop .malformed want frames)

/-- The outermost value of a text, and whether there is more behind it. -/
structure Document where
  root : Node
  more : Bool := false

def build (want : Want) (frames : List Frame) : List Token → Document
  | [] => { root := stop .truncated want frames }
  | t :: rest =>
    match advance want frames t with
    | .on want frames => build want frames rest
    | .complete root => { root, more := !rest.isEmpty }
    | .stuck root => { root }

def Document.ofTokens (ts : List Token) : Document := build .value [] ts

def Document.ofText (text : String) : Document := .ofTokens (Token.ofText text.toList)

namespace Node

mutual

/-- The first flaw of a value that nobody looks into. -/
def flaw? : Node → Option Flaw
  | .null => none
  | .bool _ => none
  | .number (.ok _) => none
  | .number (.error _) => some .malformed
  | .string s => s.flaw
  | .array items ending => itemsFlaw? ending items
  | .object members ending => membersFlaw? ending members
  | .broken f => some f

def itemsFlaw? (ending : Ending) : List Node → Option Flaw
  | [] =>
    match ending with
    | .closed => none
    | .flawed f => some f
  | n :: rest =>
    match flaw? n with
    | some f => some f
    | none => itemsFlaw? ending rest

def membersFlaw? (ending : Ending) : List (Literal × Node) → Option Flaw
  | [] =>
    match ending with
    | .closed => none
    | .flawed f => some f
  | (key, n) :: rest =>
    match key.flaw with
    | some f => some f
    | none =>
      match flaw? n with
      | some f => some f
      | none => membersFlaw? ending rest

end

end Node
end Mos6502.Json

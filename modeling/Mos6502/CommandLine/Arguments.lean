import Mos6502.CommandLine.Options
import Mos6502.Text.Plain

/-! How options are written as arguments. A value follows its setting after an equals sign or as the
next argument; it is looked at when that argument is settled, that is, when one comes that does
not belong to it. Two hyphens end the options; what follows them is a path even with a hyphen. -/
namespace Mos6502.CommandLine

inductive UsageError
  | unknownOption (argument : String)
  | unexpectedValue (switch : Switch)
  | unexpectedArgument (argument : String)
  | missingValue (setting : Setting)
  | missingPath
  | repeatedSwitch (switch : Switch)
  | repeatedSetting (setting : Setting)
  | invalidValue (setting : Setting) (value : String) (reason : ValueError)
  deriving DecidableEq, Repr

namespace UsageError

/-- What is wrong, in pieces: every second piece is an argument as it was given. -/
def pieces : UsageError → List String
  | .unknownOption argument => ["unexpected argument '", argument, "' found"]
  | .unexpectedValue s => ["unexpected value for '--" ++ s.name ++ "' found"]
  | .unexpectedArgument argument => ["unexpected argument '", argument, "' found"]
  | .missingValue s => ["a value is required for '" ++ s.usage ++ "' but none was supplied"]
  | .missingPath => ["a value is required for '[ROM]' but none was supplied"]
  | .repeatedSwitch s => ["the argument '--" ++ s.name ++ "' cannot be used multiple times"]
  | .repeatedSetting s => ["the argument '" ++ s.usage ++ "' cannot be used multiple times"]
  | .invalidValue s value reason =>
    ["invalid value '", value, "' for '" ++ s.usage ++ "': " ++ reason.message]

/-- What every complaint about arguments ends with, in two pieces. -/
def hint : String × String := ("\n\nFor more information, try '", "--help'.")

def extend (text : String) : List String → List String
  | [] => [text]
  | [last] => [last ++ text]
  | first :: rest => first :: extend text rest

/-- The complaint as it is shown. Each piece is made plain on its own, so that a control sequence
that a piece leaves open does not go on in the next. -/
def message (e : UsageError) : String :=
  "error: " ++ String.join ((extend hint.1 e.pieces ++ [hint.2]).map Text.plain)

end UsageError

/-- An argument that has not been settled. -/
inductive Pending
  | nothing
  | setting (s : Setting) (value : Option String)
  | rom (path : String)
  deriving DecidableEq, Repr

structure Draft where
  options : Options := {}
  /-- The settings that have a value. -/
  assigned : List Setting := []
  pending : Pending := .nothing
  hasRom : Bool := false
  ended : Bool := false
  deriving DecidableEq, Repr

namespace Draft

def assign (d : Draft) (s : Setting) (value : String) : Except UsageError Draft :=
  if s ∈ d.assigned ∧ s.isRepeatable = false then .error (.repeatedSetting s)
  else
    match s.assign d.options value with
    | .ok options => .ok { d with options, assigned := s :: d.assigned, pending := .nothing }
    | .error .emptyPath => .error (.missingValue s)
    | .error reason => .error (.invalidValue s value reason)

def settle (d : Draft) : Except UsageError Draft :=
  match d.pending with
  | .nothing => .ok d
  | .setting s none => .error (.missingValue s)
  | .setting s (some value) => d.assign s value
  | .rom path =>
    if path = "" then .error .missingPath
    else .ok { d with options.rom := some path, pending := .nothing }

def takePath (d : Draft) (argument : String) : Except UsageError Draft :=
  if d.hasRom then .error (.unexpectedArgument argument)
  else do
    let d ← d.settle
    return { d with pending := .rom argument, hasRom := true }

def takeOption (d : Draft) (name : String) (value : Option String) : Except UsageError Draft :=
  match Setting.all.find? (·.name == name), Switch.all.find? (·.name == name), value with
  | some s, _, none => do
    let d ← d.settle
    return { d with pending := .setting s none }
  | some s, _, some value => do
    let d ← d.settle
    d.assign s value
  | none, some s, none => do
    let d ← d.settle
    if s.isOn d.options then throw (.repeatedSwitch s)
    return { d with options := s.turnOn d.options }
  | none, some s, some _ => .error (.unexpectedValue s)
  | none, none, _ => .error (.unknownOption ("--" ++ name))

/-- The text before the first equals sign, and the text behind it. -/
def splitEquals (s : List Char) : String × Option String :=
  (String.ofList (s.takeWhile (· != '=')),
    match s.dropWhile (· != '=') with
    | [] => none
    | _ :: value => some (String.ofList value))

def take (d : Draft) (argument : String) : Except UsageError Draft :=
  if d.ended then d.takePath argument
  else
    match argument.toList with
    | ['-', '-'] => .ok { d with ended := true }
    | '-' :: '-' :: rest => d.takeOption (splitEquals rest).1 (splitEquals rest).2
    | '-' :: _ :: _ => .error (.unknownOption argument)
    | _ =>
      match d.pending with
      | .setting s none => .ok { d with pending := .setting s (some argument) }
      | _ => d.takePath argument

def takeAll (d : Draft) : List String → Except UsageError Draft
  | [] => d.settle
  | argument :: rest => do
    let d ← d.take argument
    takeAll d rest

end Draft

def Options.parse (arguments : List String) : Except UsageError Options :=
  (Draft.takeAll {} arguments).map (·.options)

end Mos6502.CommandLine

import Mos6502.Machine.Basic

/-! What the program prints: events and failures as text on its two streams. -/
namespace Mos6502.CommandLine

structure Console where
  out : String := ""
  err : String := ""
  deriving DecidableEq, Repr

/-- The text with so many blanks at the beginning of each line but the first. -/
def indentLines (blanks : Nat) (text : String) : String :=
  String.ofList (text.toList.flatMap fun c =>
    if c = '\n' then '\n' :: List.replicate blanks ' ' else [c])

/-- A line of the log; labels have five characters. -/
def logLine (r : Log.Record) : String :=
  let pad := String.ofList (List.replicate (5 - r.level.label.length) ' ')
  "[" ++ r.level.label ++ pad ++ " " ++ r.target ++ "] " ++ indentLines 4 r.text

def promptText (r : Registers) (i : Instruction) : String :=
  r.text ++ "\nnext: $" ++ Text.hexWord i.address ++ " " ++ i.text ++ "\n[s]tep, [c]ontinue> "

namespace Console

def print (c : Console) (text : String) : Console := { c with out := c.out ++ text }

def complain (c : Console) (text : String) : Console := { c with err := c.err ++ text }

/-- Shows an event. Probes, recorders and scripts are not seen here. -/
def event (c : Console) : Event → Console
  | .log m => c.complain (logLine m.record ++ "\n")
  | .trace r i => c.complain (traceLine r i ++ "\n")
  | .prompted r i => c.print (promptText r i)
  | _ => c

def events (c : Console) (es : Array Event) : Console := es.foldl event c

end Console

/-- Why the program failed: a message, then what caused it, outermost first. -/
structure Failure where
  message : String
  causes : List String := []
  deriving DecidableEq, Repr

namespace Failure

/-- Puts a failure into context. -/
def within (f : Failure) (context : String) : Failure := ⟨context, f.message :: f.causes⟩

def numbered (causes : List String) : List String :=
  causes.zipIdx.map fun (cause, n) =>
    let label := toString n
    "\n" ++ String.ofList (List.replicate (5 - label.length) ' ') ++ label ++ ": " ++
      indentLines 7 cause

def text (f : Failure) : String :=
  "Error: " ++ f.message ++
    match f.causes with
    | [] => "\n"
    | [cause] => "\n\nCaused by:\n    " ++ indentLines 4 cause ++ "\n"
    | causes => "\n\nCaused by:" ++ String.join (numbered causes) ++ "\n"

end Failure
end Mos6502.CommandLine

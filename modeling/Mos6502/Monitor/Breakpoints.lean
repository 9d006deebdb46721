import Mos6502.Monitor.Event

/-! The breakpoint monitor. It stops before an instruction if one of its points holds, or if it has
been told to step; whoever handles the stop decides whether the next instruction is a stop too. -/
namespace Mos6502

/-- What to do after a stop: run on to the next point that holds, or stop again at once. -/
inductive BreakOutcome
  | resume | step
  deriving DecidableEq, Repr

/-- Who handles the stops: nobody, a script of answers, or the lines typed at a terminal. -/
inductive BreakHandler
  | unattended
  | script (answers : List BreakOutcome)
  | terminal (lines : List String)
  deriving DecidableEq, Repr

namespace BreakHandler

/-- The meaning of a line typed at the prompt. -/
def readLine (line : String) : BreakOutcome :=
  let t := Text.trim line
  if t = "c" ∨ t = "continue" then .resume else .step

/-- Answers one stop. Where the answers have run out, execution goes on. -/
def answer : BreakHandler → BreakOutcome × BreakHandler
  | .unattended => (.resume, .unattended)
  | .script [] => (.resume, .script [])
  | .script (a :: rest) => (a, .script rest)
  | .terminal [] => (.resume, .terminal [])
  | .terminal (l :: rest) => (readLine l, .terminal rest)

/-- What the handler lets others see of a stop. -/
def onStop (h : BreakHandler) (r : Registers) (i : Instruction) : List Event :=
  match h with
  | .unattended => []
  | .script _ => [.stopped r i]
  | .terminal _ => [.prompted r i]

end BreakHandler

/-- The serial number tells breakpoint monitors apart. -/
structure Breakpoints where
  serial : Nat := 0
  points : List Breakpoint := []
  stepping : Bool := false
  hits : Nat := 0
  handler : BreakHandler := .unattended
  deriving DecidableEq, Repr

namespace Breakpoints

/-- Adds a point behind the others, unless it is there already. -/
def add (b : Breakpoints) (p : Breakpoint) : Breakpoints :=
  if p ∈ b.points then b else { b with points := b.points ++ [p] }

/-- Takes a point out, and tells whether that has made the list shorter. -/
def remove (b : Breakpoints) (p : Breakpoint) : Bool × Breakpoints :=
  let points := b.points.filter (· != p)
  (points.length != b.points.length, { b with points })

def stepNext (b : Breakpoints) : Breakpoints := { b with stepping := true }

def hit? (b : Breakpoints) (r : Registers) (i : Instruction) : Option Breakpoint :=
  b.points.find? (·.holds r i)

def stops (b : Breakpoints) (r : Registers) (i : Instruction) : Bool :=
  (b.hit? r i).isSome || b.stepping

def stopMessage (b : Breakpoints) (r : Registers) (i : Instruction) : Message :=
  match b.hit? r i with
  | some p => .breakpoint p r i
  | none => .singleStep r i

def observe (b : Breakpoints) (r : Registers) (i : Instruction) : Breakpoints × List Event :=
  if b.stops r i then
    let answered := b.handler.answer
    ({ b with stepping := answered.1 == .step, hits := b.hits + 1, handler := answered.2 },
      .log (b.stopMessage r i) :: b.handler.onStop r i)
  else (b, [])

end Breakpoints
end Mos6502

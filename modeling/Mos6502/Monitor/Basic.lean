import Mos6502.Monitor.Breakpoints

/-! Monitors. A monitor observes every instruction just before it runs, and the shutdown; each time
it may change its own state and let events be seen. A chain passes both on to its members in
order. -/
namespace Mos6502

/-- Where a tracer writes. A broken sink refuses every line. -/
inductive Sink
  | working | broken
  deriving DecidableEq, Repr

inductive Monitor
  | tracer (sink : Sink)
  | logTracer
  | speedometer (s : Speedometer)
  | recorder (id : Nat)
  | breakpoints (b : Breakpoints)
  | chain (members : List Monitor)
  deriving Inhabited

namespace Monitor

mutual

def observe (o : Observation) : Monitor → Monitor × List Event
  | .tracer .working => (.tracer .working, [.trace o.registers o.instruction])
  | .tracer .broken => (.tracer .broken, [.sinkRefused])
  | .logTracer => (.logTracer, [.log (.traced o.registers o.instruction)])
  | .speedometer s => (.speedometer (s.count o.instruction.cycles), [])
  | .recorder id => (.recorder id, [.seen id o.registers o.instruction o.cycles])
  | .breakpoints b =>
    let r := b.observe o.registers o.instruction
    (.breakpoints r.1, r.2)
  | .chain members =>
    let r := observeAll o members
    (.chain r.1, r.2)

def observeAll (o : Observation) : List Monitor → List Monitor × List Event
  | [] => ([], [])
  | m :: rest =>
    let first := observe o m
    let others := observeAll o rest
    (first.1 :: others.1, first.2 ++ others.2)

end

mutual

/-- What the end of emulation makes the monitor say; `now` is what the clock then shows. -/
def shutdown (now : Duration) : Monitor → List Event
  | .tracer _ => [.sinkFlushed]
  | .logTracer => []
  | .speedometer s => [.log (.speed (s.report now))]
  | .recorder id => [.seenShutdown id]
  | .breakpoints _ => []
  | .chain members => shutdownAll now members

def shutdownAll (now : Duration) : List Monitor → List Event
  | [] => []
  | m :: rest => shutdown now m ++ shutdownAll now rest

end

mutual

/-- All monitors that are no chains, in order. -/
def leaves : Monitor → List Monitor
  | .chain members => leavesAll members
  | m => [m]

def leavesAll : List Monitor → List Monitor
  | [] => []
  | m :: rest => leaves m ++ leavesAll rest

end

def speedometer? (m : Monitor) (serial : Nat) : Option Speedometer :=
  m.leaves.findSome? fun
    | .speedometer s => if s.serial = serial then some s else none
    | _ => none

def breakpoints? (m : Monitor) (serial : Nat) : Option Breakpoints :=
  m.leaves.findSome? fun
    | .breakpoints b => if b.serial = serial then some b else none
    | _ => none

mutual

/-- Changes the breakpoint monitor of a serial number. -/
def changeBreakpoints (serial : Nat) (f : Breakpoints → Breakpoints) : Monitor → Monitor
  | .breakpoints b => .breakpoints (if b.serial = serial then f b else b)
  | .chain members => .chain (changeBreakpointsAll serial f members)
  | m => m

def changeBreakpointsAll (serial : Nat) (f : Breakpoints → Breakpoints) :
    List Monitor → List Monitor
  | [] => []
  | m :: rest => changeBreakpoints serial f m :: changeBreakpointsAll serial f rest

end

end Monitor
end Mos6502

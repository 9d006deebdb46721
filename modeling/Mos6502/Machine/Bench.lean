import Mos6502.Machine.Basic

/-! The bench: a machine together with what its host holds beside it. That is the receiving end of
the exit channel, the monitor that was taken off last, and a grip on the newest speedometer and
the newest breakpoints, which can be used wherever their monitor is by now. -/
namespace Mos6502

/-- The receiving end of an exit channel. -/
inductive Receiver
  | absent
  | linked
  /-- The other end is gone; these codes were still in the channel. -/
  | orphaned (queue : List Byte)
  deriving DecidableEq, Repr

def Receiver.orphan (r : Receiver) (channel : Option Channel) : Receiver :=
  match r, channel with
  | .linked, some c => .orphaned c.queue
  | .linked, none => .orphaned []
  | r, _ => r

inductive Reception
  | code (value : Byte)
  | empty | disconnected | absent
  deriving DecidableEq, Repr

namespace Monitor

mutual

/-- Numbers the speedometers and breakpoints of a monitor from `serial` on; the first component is the
next number that is free. -/
def number (serial : Nat) : Monitor → Nat × Monitor
  | .speedometer s => (serial + 1, .speedometer { s with serial })
  | .breakpoints b => (serial + 1, .breakpoints { b with serial })
  | .chain members =>
    let r := numberAll serial members
    (r.1, .chain r.2)
  | m => (serial, m)

def numberAll (serial : Nat) : List Monitor → Nat × List Monitor
  | [] => (serial, [])
  | m :: rest =>
    let first := number serial m
    let others := numberAll first.1 rest
    (others.1, first.2 :: others.2)

end

def lastSpeedometer? (m : Monitor) : Option Nat :=
  (m.leaves.filterMap fun
    | .speedometer s => some s.serial
    | _ => none).getLast?

def lastBreakpoints? (m : Monitor) : Option Nat :=
  (m.leaves.filterMap fun
    | .breakpoints b => some b.serial
    | _ => none).getLast?

end Monitor

structure Bench where
  machine : Machine := {}
  receiver : Receiver := .absent
  saved : Option Monitor := none
  retired : List Monitor := []
  nextSerial : Nat := 0
  speedometer : Option Nat := none
  breakpoints : Option Nat := none
  deriving Inhabited

namespace Bench

/-- All monitors that can still be reached. -/
def monitors (b : Bench) : List Monitor := b.machine.monitor.toList ++ b.saved.toList ++ b.retired

def attachMonitor (b : Bench) (m : Monitor) : Bench :=
  let numbered := m.number b.nextSerial
  { b with
    machine := { b.machine with monitor := some numbered.2 }
    retired := b.machine.monitor.toList ++ b.retired
    nextSerial := numbered.1
    speedometer := numbered.2.lastSpeedometer?.or b.speedometer
    breakpoints := numbered.2.lastBreakpoints?.or b.breakpoints }

/-- Takes the monitor off and saves it, or nothing, in place of the one saved before. -/
def detachMonitor (b : Bench) : Bool × Bench :=
  (b.machine.monitor.isSome,
    { b with
      machine := { b.machine with monitor := none }
      saved := b.machine.monitor
      retired := b.saved.toList ++ b.retired })

/-- Puts the saved monitor back. -/
def reattachMonitor (b : Bench) : Bool × Bench :=
  match b.saved with
  | none => (false, b)
  | some m =>
    (true,
      { b with
        machine := { b.machine with monitor := some m }
        saved := none
        retired := b.machine.monitor.toList ++ b.retired })

def shutdownSaved (b : Bench) (now : Duration) : Bench :=
  match b.saved with
  | none => b
  | some m => { b with machine := b.machine.emitAll (m.shutdown now) }

def newestSpeedometer? (b : Bench) : Option Speedometer :=
  b.speedometer.bind fun serial => b.monitors.findSome? (·.speedometer? serial)

def newestBreakpoints? (b : Bench) : Option Breakpoints :=
  b.breakpoints.bind fun serial => b.monitors.findSome? (·.breakpoints? serial)

/-- Changes the newest breakpoints, wherever their monitor is. -/
def changeBreakpoints (b : Bench) (f : Breakpoints → Breakpoints) : Bench :=
  match b.breakpoints with
  | none => b
  | some serial =>
    let change := Monitor.changeBreakpoints serial f
    { b with
      machine := { b.machine with monitor := b.machine.monitor.map change }
      saved := b.saved.map change
      retired := b.retired.map change }

def openChannel (b : Bench) (capacity : Nat) : Bench :=
  { b with
    machine := { b.machine with channel := some { capacity } }
    receiver := .linked }

def openChannel? (b : Bench) (capacity : Nat) : Option Bench :=
  if capacity < Channel.capacityLimit then some (b.openChannel capacity) else none

def dropReceiver (b : Bench) : Bench :=
  match b.receiver with
  | .linked =>
    let channel := b.machine.channel.map fun c => { c with receiving := false }
    { b with machine := { b.machine with channel }, receiver := .absent }
  | _ => { b with receiver := .absent }

def receive (b : Bench) : Reception × Bench :=
  match b.receiver with
  | .absent => (.absent, b)
  | .linked =>
    match b.machine.receive with
    | (some code, machine) => (.code code, { b with machine })
    | (none, machine) => (.empty, { b with machine })
  | .orphaned [] => (.disconnected, b)
  | .orphaned (code :: rest) => (.code code, { b with receiver := .orphaned rest })

/-- Puts another machine on the bench, in place of the one there. -/
def replaceMachine (b : Bench) (m : Machine) : Bench :=
  { b with
    machine := { m with journal := b.machine.journal ++ m.journal }
    receiver := b.receiver.orphan b.machine.channel
    retired := b.machine.monitor.toList ++ b.retired }

end Bench
end Mos6502

import Mos6502.Machine.Step

/-! Runs: steps until the program halts, is interrupted or faults, or until enough instructions have
been executed. The machine looks for a reason to stop before every instruction and after the
last one. -/
namespace Mos6502.Machine

/-- Serves an interrupt that has been raised. -/
def serve (m : Machine) : Machine :=
  ({ m with interrupted := false }.emit (.log (.interrupted m.registers.pc))).publish
    interruptExitCode

/-- The exit code of a machine that has stopped or stops now. -/
def poll (m : Machine) : Option Byte × Machine :=
  match m.exitCode with
  | some code => (some code, m)
  | none => if m.interrupted then (some interruptExitCode, m.serve) else (none, m)

/-- Executes at most the given number of instructions. Without an exit code it has not stopped. -/
def runFor : Nat → Machine → Outcome Fault (Option Byte)
  | 0, m =>
    match m.poll with
    | (code, m) => .ok code m
  | n + 1, m =>
    match m.poll with
    | (some code, m) => .ok (some code) m
    | (none, m) =>
      match m.step with
      | .ok _ m => runFor n m
      | .error f m => .error f m

/-- Executes instructions until the machine stops, and ends with its exit code. A program that goes on
for ever has no outcome. -/
def run? (m : Machine) : Option (Outcome Fault Byte) :=
  match m.poll with
  | (some code, m) => some (.ok code m)
  | (none, m) =>
    match m.step with
    | .ok _ m => m |>.run?
    | .error f m => some (.error f m)
partial_fixpoint

def Outcome.stopped : Outcome Fault Byte → Outcome Fault (Option Byte)
  | .ok code m => .ok (some code) m
  | .error f m => .error f m

section
variable {ended : Outcome Fault Byte} {m : Machine}

@[simp] theorem Outcome.stopped_eq_ok_some_iff {code : Byte} :
    ended.stopped = .ok (some code) m ↔ ended = .ok code m := by
  cases ended <;> simp [stopped]

@[simp] theorem Outcome.stopped_ne_ok_none : ended.stopped ≠ .ok none m := by
  cases ended <;> simp [stopped]

@[simp] theorem Outcome.stopped_eq_error_iff {f : Fault} :
    ended.stopped = .error f m ↔ ended = .error f m := by
  cases ended <;> simp [stopped]

theorem Outcome.stopped_injective {ended' : Outcome Fault Byte} (h : ended.stopped = ended'.stopped) :
    ended = ended' := by
  cases ended' with
  | ok code m => exact stopped_eq_ok_some_iff.1 h
  | error f m => exact stopped_eq_error_iff.1 h

end

/-- Executes instructions until the machine stops. One that never does has no exit code, and is left as
it is. -/
def run (m : Machine) : Outcome Fault (Option Byte) :=
  match m.run? with
  | some ended => ended.stopped
  | none => .ok none m

/-- Up to the given number of steps, whether the machine has stopped or not, with the registers after
each. The first fault ends them. -/
def trail : Nat → List Registers → Machine → List Registers × Outcome Fault Unit
  | 0, before, m => (before.reverse, .ok () m)
  | n + 1, before, m =>
    match m.step with
    | .ok _ m => trail n (m.registers :: before) m
    | .error f m => (before.reverse, .error f m)

end Mos6502.Machine

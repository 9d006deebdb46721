import Mos6502.Machine.Access
import Mos6502.Instruction.Decode
import Mos6502.Processor.Execute

/-! One step of the machine: decode the instruction at the program counter, let the monitor observe
it, and carry it out. A step that faults keeps the state it has reached. What the monitor is does not
matter to the step, so it is written for any hook. -/
namespace Mos6502

namespace Machine

def observation (m : Machine) (i : Instruction) : Observation :=
  ⟨m.registers, m.bus, m.cycles, i⟩

/-- Ends emulation with the index register X as the exit code. -/
def halt (m : Machine) (i : Instruction) : Machine :=
  let code := m.registers.x
  (m.emit (.log (.halted i.address code))).publish code

/-- Adds an instruction that has been carried out to the counters. -/
def tally (m : Machine) (i : Instruction) : Machine :=
  { m with cycles := m.cycles + i.cycles, instructions := m.instructions + 1 }

def settle (m : Machine) (c : Core) : Machine :=
  { m with registers := c.registers, bus := c.bus }.emitAll (c.notices.map .ofNotice)

theorem settle_eq (m : Machine) (c : Core) :
    m.settle c =
      { m with
        registers := c.registers
        bus := c.bus
        journal := m.journal ++
          ((c.notices.map Event.ofNotice).filter (·.passes m.logging)).toArray } :=
  emitAll_eq _ _

/-- Carries out an instruction that has been decoded; the value is its base cycles. -/
def execute (m : Machine) (i : Instruction) : Outcome Fault Nat :=
  let core : Core := ⟨m.registers, m.bus, []⟩
  let m := { m with bus := {} }
  match Exec.run i core with
  | .error t c => .error (t.toFault i.address i.opcode.code) (m.settle c)
  | .ok _ c =>
    let m := m.settle c
    let m := if i.mnemonic.action = .halt then m.halt i else m
    .ok i.cycles (m.tally i)

end Machine

/-- What a monitor with a state becomes, and lets be seen, when it observes an instruction that is
about to run. -/
abbrev Hook (σ : Type) := Observation → σ → σ × List Event

def Hook.attached : Hook (Option Monitor) := fun o w =>
  match w with
  | none => (none, [])
  | some w =>
    let seen := w.observe o
    (some seen.1, seen.2)

/-- Changes the state that a computation has ended in. -/
def mapEnd {ε σ τ α : Type} (f : σ → τ) : EStateM.Result ε σ α → EStateM.Result ε τ α
  | .ok v s => .ok v (f s)
  | .error e s => .error e (f s)

theorem mapEnd_mapEnd {ε σ τ υ α : Type} (f : σ → τ) (g : τ → υ) (r : EStateM.Result ε σ α) :
    mapEnd g (mapEnd f r) = mapEnd (g ∘ f) r := by
  cases r <;> rfl

/-- A machine and the state of a monitor. -/
structure Hooked (σ : Type) where
  machine : Machine
  state : σ

namespace Hooked

def step {σ : Type} (hook : Hook σ) (h : Hooked σ) : EStateM.Result Fault (Hooked σ) Nat :=
  match h with
  | ⟨m, s⟩ =>
    let decoded := Instruction.decode m.bus m.registers.pc
    let m := m.emitBus (Instruction.onDecode m.bus m.registers.pc)
    match decoded with
    | .error f => .error f ⟨m, s⟩
    | .ok i =>
      let seen := hook (m.observation i) s
      mapEnd (⟨·, seen.1⟩) (((m.emitAll seen.2).emit (.log (.executing i))).execute i)

/-- The machine with the monitor attached to it. -/
def watched (h : Hooked (Option Monitor)) : Machine := { h.machine with monitor := h.state }

end Hooked

def Machine.step (m : Machine) : Machine.Outcome Fault Nat :=
  mapEnd Hooked.watched (Hooked.step .attached ⟨m, m.monitor⟩)

end Mos6502

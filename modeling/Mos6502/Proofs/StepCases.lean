import Mos6502.Machine.Run
import Mos6502.Proofs.Execution

/-! What a step can do. It fails to decode; or it decodes and then either traps or carries the
instruction out. Everything about a step is derived from these three cases, and from that what holds
of a run. -/
namespace Mos6502.Machine
variable {m m' : Machine}

/-- The core that starts to carry out an instruction. -/
def core (m : Machine) : Core := ⟨m.registers, m.bus, []⟩

def watch (m : Machine) (i : Instruction) : List Event :=
  (Hook.attached (m.observation i) m.monitor).2

/-- What a step lets be seen before it changes anything. -/
def preview (m : Machine) (i : Instruction) : List Event :=
  (Instruction.onDecode m.bus m.registers.pc).map Event.ofBusNotice ++ m.watch i ++
    [.log (.executing i)]

/-- The machine once the instruction has been decoded, observed and announced. -/
def ready (m : Machine) (i : Instruction) : Machine :=
  { m with
    monitor := m.monitor.map fun w => (w.observe (m.observation i)).1
    journal := m.journal ++ ((m.preview i).filter (·.passes m.logging)).toArray }

def finish (m : Machine) (i : Instruction) (c : Core) : Machine :=
  let settled := (m.ready i).settle c
  (if i.mnemonic.action = .halt then settled.halt i else settled).tally i

theorem execute_eq (m : Machine) (i : Instruction) :
    m.execute i =
      match Exec.run i m.core with
      | .error t c => .error (t.toFault i.address i.opcode.code) (m.settle c)
      | .ok _ c =>
        .ok i.cycles
          ((if i.mnemonic.action = .halt then (m.settle c).halt i else m.settle c).tally i) := by
  rw [execute, core]
  dsimp only
  cases Exec.run i ⟨m.registers, m.bus, []⟩ <;> rfl

theorem execute_watched (h : Hooked (Option Monitor)) (i : Instruction) :
    h.watched.execute i = mapEnd (fun m => Hooked.watched ⟨m, h.state⟩) (h.machine.execute i) := by
  have hcore : h.watched.core = h.machine.core := rfl
  rw [execute_eq, execute_eq, hcore]
  cases Exec.run i h.machine.core with
  | error t c => simp only [mapEnd, Hooked.watched, settle_eq]
  | ok v c =>
    by_cases hhalt : i.mnemonic.action = .halt
    · simp only [if_pos hhalt, mapEnd, Hooked.watched, settle_eq, halt, emit_eq, publish, tally]
    · simp only [if_neg hhalt, mapEnd, Hooked.watched, settle_eq, tally]

theorem watched_announced (h : Hooked (Option Monitor)) (i : Instruction) :
    let fetched := h.machine.emitBus (Instruction.onDecode h.machine.bus h.machine.registers.pc)
    let seen := Hook.attached (fetched.observation i) h.state
    Hooked.watched ⟨(fetched.emitAll seen.2).emit (.log (.executing i)), seen.1⟩ =
      h.watched.ready i := by
  have hstate (o : Observation) (w : Option Monitor) :
      (Hook.attached o w).1 = w.map fun w => (w.observe o).1 := by cases w <;> rfl
  simp only [Hooked.watched, emit_eq, emitAll_eq, emitBus_eq, ready, preview, watch, observation,
    hstate]
  by_cases hlog : Event.passes h.machine.logging (.log (.executing i)) <;> simp [hlog]

theorem watched_step (h : Hooked (Option Monitor)) :
    mapEnd Hooked.watched (h.step .attached) =
      match Instruction.decode h.watched.bus h.watched.registers.pc with
      | .error f => .error f
          (h.watched.emitBus (Instruction.onDecode h.watched.bus h.watched.registers.pc))
      | .ok i =>
        match Exec.run i h.watched.core with
        | .error t c => .error (t.toFault i.address i.opcode.code) ((h.watched.ready i).settle c)
        | .ok _ c => .ok i.cycles (h.watched.finish i c) := by
  have hbus : h.watched.bus = h.machine.bus := rfl
  have hregisters : h.watched.registers = h.machine.registers := rfl
  rw [hbus, hregisters]
  unfold Hooked.step
  dsimp only
  cases Instruction.decode h.machine.bus h.machine.registers.pc with
  | error f => simp only [mapEnd, Hooked.watched, emitBus_eq]
  | ok i =>
    have hready := watched_announced h i
    dsimp only at hready ⊢
    generalize Hook.attached _ h.state = seen at hready ⊢
    generalize Machine.emit _ _ = announced at hready ⊢
    have hcore : (h.watched.ready i).core = h.watched.core := rfl
    have hexecute := execute_watched ⟨announced, seen.1⟩ i
    rw [hready, execute_eq, hcore] at hexecute
    rw [mapEnd_mapEnd]
    exact hexecute.symm

theorem step_eq (m : Machine) :
    m.step =
      match Instruction.decode m.bus m.registers.pc with
      | .error f => .error f (m.emitBus (Instruction.onDecode m.bus m.registers.pc))
      | .ok i =>
        match Exec.run i m.core with
        | .error t c => .error (t.toFault i.address i.opcode.code) ((m.ready i).settle c)
        | .ok _ c => .ok i.cycles (m.finish i c) :=
  watched_step ⟨m, m.monitor⟩

theorem step_of_run_error {i : Instruction} {t : Trap} {c : Core}
    (hd : Instruction.decode m.bus m.registers.pc = .ok i) (hx : Exec.run i m.core = .error t c) :
    m.step = .error (t.toFault i.address i.opcode.code) ((m.ready i).settle c) := by
  rw [step_eq, hd]
  simp only [hx]

/-- All that a fault can come from. -/
theorem step_error_cases {f : Fault} (h : m.step = .error f m') :
    (Instruction.decode m.bus m.registers.pc = .error f ∧
      m' = m.emitBus (Instruction.onDecode m.bus m.registers.pc)) ∨
    ∃ i t c, Instruction.decode m.bus m.registers.pc = .ok i ∧ Exec.run i m.core = .error t c ∧
      f = t.toFault m.registers.pc i.opcode.code ∧ m' = (m.ready i).settle c := by
  rw [step_eq] at h
  cases hd : Instruction.decode m.bus m.registers.pc with
  | error e =>
    simp only [hd, EStateM.Result.error.injEq] at h
    exact .inl ⟨by rw [h.1], h.2.symm⟩
  | ok i =>
    cases hx : Exec.run i m.core with
    | error t c =>
      simp only [hd, hx, EStateM.Result.error.injEq] at h
      refine .inr ⟨i, t, c, rfl, hx, ?_, h.2.symm⟩
      rw [← h.1, Instruction.address_of_decode hd]
    | ok v c => simp [hd, hx] at h

theorem step_ok_cases {n : Nat} (h : m.step = .ok n m') :
    ∃ i c, Instruction.decode m.bus m.registers.pc = .ok i ∧ Exec.run i m.core = .ok () c ∧
      n = i.cycles ∧ m' = m.finish i c := by
  rw [step_eq] at h
  cases hd : Instruction.decode m.bus m.registers.pc with
  | error f => simp [hd] at h
  | ok i =>
    cases hx : Exec.run i m.core with
    | error t c => simp [hd, hx] at h
    | ok v c =>
      simp only [hd, hx, EStateM.Result.ok.injEq] at h
      exact ⟨i, c, rfl, hx, h.1.symm, h.2.symm⟩

theorem finish_eq (m : Machine) (i : Instruction) (c : Core) :
    ∃ channel journal, m.finish i c =
      { m with
        registers := c.registers
        bus := c.bus
        cycles := m.cycles + i.cycles
        instructions := m.instructions + 1
        monitor := m.monitor.map fun w => (w.observe (m.observation i)).1
        exitCode := if i.mnemonic.action = .halt then some c.registers.x else m.exitCode
        channel := channel
        journal := journal } := by
  by_cases hh : i.mnemonic.action = .halt <;>
    simp [finish, hh, halt, publish, tally, settle_eq, ready, emit_eq]

@[simp] theorem registers_finish (m : Machine) (i : Instruction) (c : Core) :
    (m.finish i c).registers = c.registers := by
  obtain ⟨channel, journal, h⟩ := m.finish_eq i c
  rw [h]

@[simp] theorem bus_finish (m : Machine) (i : Instruction) (c : Core) :
    (m.finish i c).bus = c.bus := by
  obtain ⟨channel, journal, h⟩ := m.finish_eq i c
  rw [h]

/-- A step that succeeds, and the instruction that it carries out. -/
structure Does (m : Machine) (i : Instruction) (m' : Machine) : Prop where
  decoded : Instruction.decode m.bus m.registers.pc = .ok i
  stepped : m.step = .ok i.cycles m'

/-- Steps that succeed, one after the other: the instructions, each with the machine it found. -/
inductive Path (m : Machine) : List (Machine × Instruction) → Machine → Prop
  | refl : Path m [] m
  | snoc {past : List (Machine × Instruction)} {before after : Machine} {i : Instruction} :
    Path m past before → before.Does i after → Path m (past ++ [(before, i)]) after

theorem exists_does_of_step {n : Nat} (h : m.step = .ok n m') : ∃ i, m.Does i m' := by
  obtain ⟨i, c, hd, -, rfl, -⟩ := step_ok_cases h
  exact ⟨i, hd, h⟩

/-- What the instruction brings about in registers and bus, the step does. -/
theorem Does.of_wp {i : Instruction} {Q : Registers → Bus → Prop} (h : m.Does i m')
    (hrun : Exec.wp (Exec.run i) (fun _ c => Q c.registers c.bus) (fun _ _ => True) m.core) :
    Q m'.registers m'.bus := by
  obtain ⟨j, c, hd, hx, -, rfl⟩ := step_ok_cases h.stepped
  obtain rfl := Except.ok.inj (hd.symm.trans h.decoded)
  rw [registers_finish, bus_finish]
  exact Exec.of_wp_ok hrun hx

/-- The machine that an outcome leaves. -/
def Outcome.machine {ε α : Type} : Outcome ε α → Machine
  | .ok _ m | .error _ m => m

/-- What holds if nothing can be decoded, and however carrying out an instruction ends, holds after the
step. -/
theorem step_of_wp {Q : Registers → Bus → Prop}
    (hfault : ∀ f, Instruction.decode m.bus m.registers.pc = .error f → Q m.registers m.bus)
    (hrun : ∀ i, Instruction.decode m.bus m.registers.pc = .ok i →
      Exec.wp (Exec.run i) (fun _ c => Q c.registers c.bus) (fun _ c => Q c.registers c.bus)
        m.core) :
    Q (Outcome.machine m.step).registers (Outcome.machine m.step).bus := by
  rw [step_eq]
  cases hd : Instruction.decode m.bus m.registers.pc with
  | error f => simpa [Outcome.machine, emitBus_eq] using hfault f hd
  | ok i =>
    have hi := hrun i hd
    cases hx : Exec.run i m.core with
    | error t c => simpa [Outcome.machine, hx, settle_eq] using Exec.of_wp_error hi hx
    | ok v c => simpa [Outcome.machine, hx] using Exec.of_wp_ok hi hx

theorem runFor_invariant {I : Machine → Prop} (hpoll : ∀ m, I m → I m.poll.2)
    (hstep : ∀ m, I m → I (Outcome.machine m.step)) (n : Nat) (h : I m) :
    I (Outcome.machine (runFor n m)) := by
  induction n generalizing m with
  | zero => exact hpoll m h
  | succ n ih =>
    have hpolled := hpoll m h
    unfold runFor
    generalize m.poll = p at hpolled ⊢
    obtain ⟨code | code, polled⟩ := p
    · have hnext := hstep polled hpolled
      dsimp only
      cases hs : polled.step with
      | ok v next =>
        rw [hs] at hnext
        exact ih hnext
      | error f next =>
        rw [hs] at hnext
        exact hnext
    · exact hpolled

theorem core_poll (m : Machine) : m.poll.2.core = m.core := by
  unfold poll
  split
  · rfl
  · split <;> simp [core, serve, publish, emit_eq]

section
variable {P : Bus → Prop} (hput : ∀ bus a v, P bus → P (bus.put a v))
include hput

theorem step_bus (h : P m.bus) : P (Outcome.machine m.step).bus := by
  refine step_of_wp (Q := fun _ bus => P bus) (fun _ _ => h) fun i _ => ?_
  simp only [Exec.run, Exec.wp_bind, Exec.wp_update]
  exact Exec.act_bus hput h i _

theorem runFor_bus (n : Nat) (h : P m.bus) : P (Outcome.machine (runFor n m)).bus :=
  runFor_invariant (I := fun m => P m.core.bus) (fun m hm => by rwa [core_poll])
    (fun _ hm => step_bus hput hm) n h

end

theorem exists_step_of_runFor {n : Nat} {f : Fault} (h : runFor n m = .error f m') :
    ∃ before : Machine, before.step = .error f m' := by
  induction n generalizing m with
  | zero => simp [runFor] at h
  | succ n ih =>
    unfold runFor at h
    generalize m.poll = p at h
    obtain ⟨code | code, polled⟩ := p
    · cases hs : polled.step with
      | ok v next => exact ih (m := next) (by simpa only [hs] using h)
      | error f' next =>
        simp only [hs, EStateM.Result.error.injEq] at h
        exact ⟨polled, by rw [hs, h.1, h.2]⟩
    · simp at h

end Mos6502.Machine

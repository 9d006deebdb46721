import Mos6502.Proofs.Audience

/-! Monitors of any kind. A hook is called in every step that decodes an instruction and in no other,
and it is shown the machine as the step has found it, even where the instruction then traps or
overwrites itself. -/
namespace Mos6502
variable {σ : Type}

/-- The hook with a record of how it has been called. -/
def Hook.recorded (hook : Hook σ) : Hook (σ × List Observation) :=
  fun o s => (((hook o s.1).1, s.2 ++ [o]), (hook o s.1).2)

namespace Hooked

/-- What a step leaves, whether or not it faults. -/
def next (hook : Hook σ) (h : Hooked σ) : Hooked σ :=
  match h.step hook with
  | .ok _ h | .error _ h => h

def steps (hook : Hook σ) : Nat → Hooked σ → Hooked σ
  | 0, h => h
  | n + 1, h => steps hook n (h.next hook)

def found (hook : Hook σ) : Nat → Hooked σ → List Machine
  | 0, _ => []
  | n + 1, h => h.machine :: found hook n (h.next hook)

def unrecorded (h : Hooked (σ × List Observation)) : Hooked σ := ⟨h.machine, h.state.1⟩

/-- A step calls the hook once if it decodes an instruction, with the machine as it has found it, and
not at all if it does not. That the calls are recorded changes nothing. -/
theorem next_recorded (hook : Hook σ) (h : Hooked (σ × List Observation)) :
    (h.next hook.recorded).unrecorded = h.unrecorded.next hook ∧
      (h.next hook.recorded).state.2 = h.state.2 ++ h.machine.aboutToRun?.toList := by
  obtain ⟨m, s, calls⟩ := h
  unfold next step Machine.aboutToRun?
  cases hd : Instruction.decode m.bus m.registers.pc with
  | error f => simp [hd, unrecorded]
  | ok i =>
    have hshown : (m.emitBus (Instruction.onDecode m.bus m.registers.pc)).observation i =
        m.observation i := by rw [Machine.emitBus_eq]; rfl
    simp only [hd, unrecorded, Hook.recorded, hshown]
    generalize Machine.execute _ i = ended
    cases ended <;> exact ⟨rfl, rfl⟩

theorem steps_recorded (hook : Hook σ) (n : Nat) (h : Hooked (σ × List Observation)) :
    (steps hook.recorded n h).unrecorded = steps hook n h.unrecorded ∧
      (steps hook.recorded n h).state.2 =
        h.state.2 ++ (found hook n h.unrecorded).filterMap Machine.aboutToRun? := by
  induction n generalizing h with
  | zero => exact ⟨rfl, (List.append_nil _).symm⟩
  | succ n ih =>
    obtain ⟨hnext, hcalls⟩ := next_recorded hook h
    obtain ⟨hlast, hall⟩ := ih (h.next hook.recorded)
    have hfound : found hook (n + 1) h.unrecorded =
        h.machine :: found hook n (h.unrecorded.next hook) := rfl
    refine ⟨hlast.trans (by rw [hnext]; rfl), hall.trans ?_⟩
    rw [hcalls, hnext, hfound, List.filterMap_cons, List.append_assoc]
    cases h.machine.aboutToRun? <;> rfl

theorem next_watched (h : Hooked (Option Monitor)) :
    (h.watched.answer .step).2 = (h.next .attached).watched := by
  have hstep : h.watched.step = mapEnd watched (h.step .attached) :=
    (Machine.step_eq _).trans (Machine.watched_step h).symm
  rw [Machine.answer, Machine.machine_reply, hstep, next]
  cases h.step .attached <;> rfl

theorem steps_watched (n : Nat) (h : Hooked (Option Monitor)) :
    (serveAll Machine.answer h.watched (.replicate n .step)).2 = (steps .attached n h).watched := by
  induction n generalizing h with
  | zero => rfl
  | succ n ih =>
    rw [List.replicate_succ, serveAll, next_watched]
    exact ih _

/-- In any number of steps, whether or not they fault, any hook is called once for each step that finds
a machine with an instruction to decode, in that order, and is shown that instruction with the
registers, the bus and the cycles of that machine; recording the calls changes nothing. With the hook
of the attached monitor these are the steps of the machine. -/
theorem calls_eq_decoded (m : Machine) (n : Nat) :
    (∀ (σ : Type) (hook : Hook σ) (s : σ),
      (steps hook.recorded n ⟨m, (s, [])⟩).unrecorded = steps hook n ⟨m, s⟩ ∧
        (steps hook.recorded n ⟨m, (s, [])⟩).state.2 =
          (found hook n ⟨m, s⟩).filterMap fun before =>
            match Instruction.decode before.bus before.registers.pc with
            | .ok i => some
                { registers := before.registers
                  bus := before.bus
                  cycles := before.cycles
                  instruction := i }
            | .error _ => none) ∧
    ∀ w : Option Monitor, (serveAll Machine.answer { m with monitor := w } (.replicate n .step)).2 =
      (steps .attached n ⟨m, w⟩).watched :=
  ⟨fun _ hook s => steps_recorded hook n ⟨m, (s, [])⟩, fun w => steps_watched n ⟨m, w⟩⟩

/-- A store that overwrites itself by what is no instruction, and a jump back to it. -/
def overwriting : Machine where
  registers := { pc := 0x0200, a := 0x02 }
  bus := ⟨[⟨"program", 0x0200, .ram #[0x8D, 0x00, 0x02, 0x4C, 0x00, 0x02], by simp [Backend.size],
    by simp [Backend.size]⟩]⟩

set_option maxRecDepth 2000 in
theorem calls_eq_decoded_overwriting :
    let calls := (steps (Hook.recorded fun _ s => (s, [])) 4 ⟨overwriting, ((), [])⟩).state.2
    calls.map (fun o => (o.instruction.address, o.instruction.opcode.code, o.cycles)) =
      [(0x0200, 0x8D, 0), (0x0203, 0x4C, 4)] ∧
      calls.map (fun o => o.bus.read 0x0200) = [.ok 0x8D, .ok 0x02] := by
  intro calls
  have hcalls : calls = _ := ((calls_eq_decoded overwriting 4).1 Unit (fun _ s => (s, [])) ()).2
  rw [hcalls]
  exact ⟨rfl, rfl⟩

end Hooked
end Mos6502

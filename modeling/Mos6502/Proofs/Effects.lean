import Mos6502.Proofs.Stores

/-! What an instruction that succeeds makes of the registers. It works on at most one byte that does
not come from them: its operand, or the byte on top of the stack. Once this byte is known the
registers that it leaves are a plain function of those that it finds; only where it goes next may
depend on more. -/
namespace Mos6502

namespace Action

/-- Whether an action reads the operand of its instruction and stores nothing. -/
def isReading : Action → Bool
  | .load _ | .combine _ | .compare _ | .testBits => true
  | _ => false

def takesOperand : Action → Bool
  | .load _ | .combine _ | .compare _ | .testBits | .mask _ | .modify _ => true
  | _ => false

/-- The byte that an action works on, computed from the registers behind the fetch of the
instruction; zero where there is none. -/
def input (a : Action) (i : Instruction) (r : Registers) (bus : Bus) : Except Trap Byte :=
  match a with
  | .load _ | .combine _ | .compare _ | .testBits | .mask _ | .modify _ => i.operandValue r bus
  | .pull _ | .pullStatus | .leaveInterrupt => (bus.read (stackSlot (r.sp + 1))).mapError .bus
  | _ => .ok 0

/-- What an action makes of the registers, given the byte that it works on. The program counter is
left out. -/
def effect (a : Action) (mode : AddressingMode) (r : Registers) (v : Byte) : Registers :=
  match a with
  | .load d => r.load d v
  | .combine o => r.combine o v
  | .compare d => r.compare d v
  | .testBits => if mode = .immediate then r.testZero v else (r.testZero v).copyTopBits v
  | .mask _ => r.testZero v
  | .modify k =>
    let result := k.result r.status.carry v
    let counted := (r.setCarry (k.carryOut r.status.carry v)).ofResult result
    if mode = .accumulator then { counted with a := result } else counted
  | .count d k => r.load d (k.result r.status.carry (r.get d))
  | .call => { r with sp := r.sp - 2 }
  | .leave => { r with sp := r.sp + 2 }
  | .softwareInterrupt => { r with sp := r.sp - 3, status.interruptDisable := true }
  | .leaveInterrupt => { r with sp := r.sp + 3, status := .pulled v }
  | .push _ | .pushStatus => { r with sp := r.sp - 1 }
  | .pull d => { r with sp := r.sp + 1 }.load d v
  | .pullStatus => { r with sp := r.sp + 1, status := .pulled v }
  | .transfer source target => r.load target (r.get source)
  | .readStackPointer => r.load .x r.sp
  | .setStackPointer => { r with sp := r.x }
  | .assign flag value => { r with status := r.status.set flag value }
  | .store _ | .storeZero | .branch _ _ | .branchAlways | .jump | .idle | .halt => r

/-- Whether an action can make the program go on elsewhere than behind the instruction. -/
def redirects : Action → Bool
  | .branch _ _ | .branchAlways | .jump | .call | .leave | .softwareInterrupt
  | .leaveInterrupt => true
  | _ => false

theorem effect_pc (a : Action) (mode : AddressingMode) (r : Registers) (pc : Word) (v : Byte) :
    a.effect mode { r with pc } v = { a.effect mode r v with pc } := by
  cases a with
  | load d | count d _ | pull d | transfer _ d => cases d <;> rfl
  | combine o => cases o <;> rfl
  | testBits | modify _ =>
    simp only [effect]
    split <;> rfl
  | _ => rfl

@[simp] theorem pc_effect (a : Action) (mode : AddressingMode) (r : Registers) (v : Byte) :
    (a.effect mode r v).pc = r.pc :=
  (congrArg Registers.pc (a.effect_pc mode r r.pc v) :)

theorem input_of_takesOperand {a : Action} (ha : a.takesOperand = true) (i : Instruction)
    (r : Registers) (bus : Bus) : a.input i r bus = i.operandValue r bus := by
  cases a <;> first | rfl | exact absurd ha Bool.noConfusion

theorem branches_of_takesOperand {a : Action} (ha : a.takesOperand = true) :
    a.branches = false := by
  cases a <;> first | rfl | exact absurd ha Bool.noConfusion

end Action

namespace Instruction
variable {i : Instruction} {r : Registers} {bus : Bus}

theorem operandValue_of_read {a : Word} {v : Byte} (hacc : i.mode ≠ .accumulator)
    (ha : i.effectiveAddress r bus = .ok a) (hv : bus.read a = .ok v) :
    i.operandValue r bus = .ok v := by
  have himm : i.mode ≠ .immediate := fun hm => by
    simp [effectiveAddress, target, hm, Target.address] at ha
  unfold operandValue
  cases h : i.mode <;> simp_all [memoryValue]

theorem operandValue_pc (hm : i.mode ≠ .relative) (r : Registers) (pc : Word) (bus : Bus) :
    i.operandValue { r with pc } bus = i.operandValue r bus := by
  unfold operandValue memoryValue
  rw [effectiveAddress_pc hm]

/-- The byte that an instruction works on; the program counter is still at the instruction. -/
def input (i : Instruction) (r : Registers) (bus : Bus) : Except Trap Byte :=
  i.mnemonic.action.input i r bus

def effect (i : Instruction) (r : Registers) (v : Byte) : Registers :=
  i.mnemonic.action.effect i.mode r v

theorem mode_ne_relative (ho : i.opcode ∈ Opcode.table)
    (hb : i.mnemonic.action.branches = false) : i.mode ≠ .relative := fun hm =>
  Bool.false_ne_true (hb.symm.trans ((Opcode.action_of_mem ho).1 hm))

theorem input_pc (ho : i.opcode ∈ Opcode.table) (r : Registers) (pc : Word) (bus : Bus) :
    i.input { r with pc } bus = i.input r bus := by
  have hrelative := mode_ne_relative ho
  unfold input Action.input
  generalize i.mnemonic.action = a at hrelative
  cases a with
  | load _ | combine _ | compare _ | testBits | mask _ | modify _ =>
    exact operandValue_pc (hrelative rfl) r pc bus
  | _ => rfl

end Instruction

namespace Exec
variable {c : Core} {i : Instruction}

def Effected (a : Action) (i : Instruction) (c c' : Core) : Prop :=
  ∃ v pc, a.input i c.registers c.bus = .ok v ∧
    c'.registers = { a.effect i.mode c.registers v with pc } ∧
    (a.redirects = false → pc = c.registers.pc)

theorem effected_of_eq {a : Action} {v : Byte} {c' : Core}
    (hv : a.input i c.registers c.bus = .ok v)
    (hr : c'.registers = a.effect i.mode c.registers v) : Effected a i c c' :=
  ⟨v, c'.registers.pc, hv, by rw [hr], fun _ => by rw [hr, Action.pc_effect]⟩

theorem effected_of_redirects {a : Action} {v : Byte} {c' : Core} (ha : a.redirects = true)
    (hv : a.input i c.registers c.bus = .ok v)
    (hr : c'.registers = { a.effect i.mode c.registers v with pc := c'.registers.pc }) :
    Effected a i c c' :=
  ⟨v, _, hv, hr, fun h => absurd (ha.symm.trans h) Bool.noConfusion⟩

theorem pulled {v : Byte} (hv : c.bus.read c.raise.registers.stackAddress = .ok v) :
    (c.bus.read (stackSlot (c.registers.sp + 1))).mapError Trap.bus = .ok v := by
  rw [show stackSlot (c.registers.sp + 1) = c.raise.registers.stackAddress from rfl, hv]
  rfl

/-- Where an action succeeds, there has been a byte to work on, and the registers are its effect. -/
theorem act_effect {a : Action} (ha : a.allows i.mode = true) :
    wp (act i a) (fun _ c' => Effected a i c c') (fun _ _ => True) c := by
  have htwo (s : Byte) : s - 2 = s - 1 - 1 ∧ s + 2 = s + 1 + 1 := by constructor <;> grind
  have hthree (s : Byte) : s - 3 = s - 1 - 1 - 1 ∧ s + 3 = s + 1 + 1 + 1 := by constructor <;> grind
  cases a with
  | load _ | combine _ | compare _ =>
    simp only [act, wp_bind, wp_operand, wp_update, implies_true, and_true]
    exact fun v hv => effected_of_eq hv rfl
  | testBits =>
    simp only [act, wp_bind, wp_operand, wp_update, wp_ite, wp_pure, implies_true, and_true]
    intro v hv
    split
    · exact effected_of_eq hv (by simp_all [Action.effect])
    · exact effected_of_eq hv (by simp_all [Action.effect])
  | mask _ =>
    have hacc : i.mode ≠ .accumulator := fun hm => by
      rw [hm] at ha
      exact absurd ha Bool.noConfusion
    simp only [act, maskBits, wp_bind, wp_effectiveAddress, wp_readByte, wp_update, wp_registers,
      wp_writeByte, implies_true, and_true]
    exact fun a ha v hv _ => effected_of_eq (Instruction.operandValue_of_read hacc ha hv) rfl
  | modify k =>
    simp only [act, modifyByte, wp_bind, wp_ite, wp_effectiveAddress, wp_registers, wp_readByte,
      wp_update, wp_writeByte, implies_true, and_true]
    split
    · rename_i hacc
      have hinput : i.operandValue c.registers c.bus = .ok c.registers.a := by
        simp [Instruction.operandValue, hacc]
      exact effected_of_eq hinput (by simp only [Action.effect, hacc, if_true]; rfl)
    · rename_i hacc
      exact fun a ha v hv _ => effected_of_eq (Instruction.operandValue_of_read hacc ha hv)
        (by simp [Action.effect, hacc])
  | store _ | storeZero =>
    simp only [act, store, wp_bind, wp_effectiveAddress, wp_registers, wp_writeByte, implies_true,
      and_true]
    exact fun _ _ _ => effected_of_eq rfl rfl
  | count _ _ | transfer _ _ | readStackPointer | setStackPointer | assign _ _ | idle | halt =>
    exact effected_of_eq rfl rfl
  | push _ | pushStatus =>
    simp only [act, wp_bind, wp_registers, wp_push, implies_true, and_true]
    exact fun _ => effected_of_eq rfl rfl
  | pull _ | pullStatus =>
    simp only [act, wp_bind, wp_pull, wp_update, implies_true, and_true]
    exact fun v hv => effected_of_eq (pulled hv) rfl
  | branch _ _ =>
    simp only [act, jump, wp_bind, wp_registers, wp_ite, wp_effectiveAddress, wp_update, wp_pure,
      implies_true, and_true]
    split
    · exact fun _ _ => effected_of_redirects rfl rfl rfl
    · exact effected_of_redirects rfl rfl rfl
  | branchAlways | jump =>
    simp only [act, jump, wp_bind, wp_effectiveAddress, wp_update, implies_true, and_true]
    exact fun _ _ => effected_of_redirects rfl rfl rfl
  | call =>
    simp only [act, wp_bind, wp_registers, wp_pushWord, wp_push, wp_update, implies_true, and_true]
    exact fun _ _ => effected_of_redirects rfl rfl (by rw [Action.effect, (htwo _).1]; rfl)
  | leave =>
    simp only [act, wp_bind, wp_pullWord, wp_pull, wp_update, implies_true, and_true]
    exact fun _ _ _ _ => effected_of_redirects rfl rfl (by rw [Action.effect, (htwo _).2]; rfl)
  | softwareInterrupt =>
    simp only [act, softwareInterrupt, wp_bind, wp_registers, wp_pushWord, wp_push, wp_readWord,
      wp_update, wp_notice, implies_true, and_true]
    exact fun _ _ _ _ _ => effected_of_redirects rfl rfl (by rw [Action.effect, (hthree _).1]; rfl)
  | leaveInterrupt =>
    simp only [act, wp_bind, wp_pullWord, wp_pull, wp_update, implies_true, and_true]
    exact fun v hv _ _ _ _ =>
      effected_of_redirects rfl (pulled hv) (by rw [Action.effect, (hthree _).2]; rfl)

theorem run_effect (ho : i.opcode ∈ Opcode.table) :
    wp (run i)
      (fun _ c' => ∃ v pc, i.input c.registers c.bus = .ok v ∧
        c'.registers = { i.effect c.registers v with pc } ∧
        (i.mnemonic.action.redirects = false → pc = i.next))
      (fun _ _ => True) c := by
  have hact := act_effect (c := c.update fun r => { r with pc := i.next }) (Opcode.allows_of_mem ho)
  simp only [run, wp_bind, wp_update]
  refine wp_mono hact ?_
  rintro _ c' ⟨v, pc, hv, hr, hpc⟩
  refine ⟨v, pc, (Instruction.input_pc ho _ _ _).symm.trans hv, ?_, hpc⟩
  rw [hr, Core.registers_update, Action.effect_pc]
  rfl

theorem run_reading (ho : i.opcode ∈ Opcode.table) (ha : i.mnemonic.action.isReading = true)
    {v : Byte} (hv : i.operandValue c.registers c.bus = .ok v) :
    wp (run i) (fun _ _ => True) (fun _ _ => False) c := by
  have hrelative := Instruction.mode_ne_relative ho
  simp only [run, wp_bind, wp_update]
  generalize i.mnemonic.action = a at ha hrelative
  cases a with
  | load _ | combine _ | compare _ | testBits =>
    rw [← Instruction.operandValue_pc (hrelative rfl) _ i.next] at hv
    simp [act, Core.update, hv]
  | _ => exact absurd ha Bool.noConfusion

end Exec

namespace Machine
variable {m m' : Machine} {i : Instruction}

/-- The registers after a step that succeeds. -/
theorem Does.registers_eq (h : m.Does i m') :
    ∃ v pc, i.input m.registers m.bus = .ok v ∧
      m'.registers = { i.effect m.registers v with pc } ∧
      (i.mnemonic.action.redirects = false → pc = i.next) := by
  obtain ⟨-, -, ho, -⟩ := Instruction.of_decode h.decoded
  exact h.of_wp (Q := fun r _ => ∃ v pc, i.input m.registers m.bus = .ok v ∧
    r = { i.effect m.registers v with pc } ∧ (i.mnemonic.action.redirects = false → pc = i.next))
    (Exec.run_effect (c := m.core) (Opcode.mem_table_of_lookup ho).1)

theorem Does.exists_stored (h : m.Does i m') {f : Byte → Byte}
    (hf : i.mnemonic.replacement? m.registers = some f) (hm : i.mode ≠ .accumulator) :
    ∃ a v, i.effectiveAddress m.registers m.bus = .ok a ∧ m.bus.read a = .ok v ∧
      i.stores m.registers m.bus = .ok [(a, f v)] ∧ m'.bus = m.bus.put a (f v) := by
  obtain ⟨written, hwritten, hbus⟩ := h.bus_eq
  have hreplacing : i.replacing m.registers m.bus f = .ok written := by
    simpa only [Instruction.stores, hf] using hwritten
  obtain ⟨hacc, -⟩ | ⟨a, v, ha, hv, rfl⟩ := Instruction.replacing_eq_ok hreplacing
  · exact absurd hacc hm
  · exact ⟨a, v, ha, hv, hwritten, hbus⟩

theorem exists_does_of_wp (hd : Instruction.decode m.bus m.registers.pc = .ok i)
    (hrun : Exec.wp (Exec.run i) (fun _ _ => True) (fun _ _ => False) m.core) :
    ∃ m', m.Does i m' := by
  obtain ⟨_, c, hx, -⟩ := Exec.exists_of_wp hrun
  exact ⟨m.finish i c, hd, by simp only [step_eq, hd, hx]⟩

/-- A step that reads an operand succeeds where the operand is there. -/
theorem exists_does_of_reading (hd : Instruction.decode m.bus m.registers.pc = .ok i)
    (ha : i.mnemonic.action.isReading = true) {v : Byte}
    (hv : i.operandValue m.registers m.bus = .ok v) : ∃ m', m.Does i m' := by
  obtain ⟨-, -, ho, -⟩ := Instruction.of_decode hd
  exact exists_does_of_wp hd (Exec.run_reading (Opcode.mem_table_of_lookup ho).1 ha hv)

end Machine
end Mos6502

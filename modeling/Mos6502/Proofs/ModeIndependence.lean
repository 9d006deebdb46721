import Mos6502.Proofs.RegisterFrame

/-! The addressing mode only selects the operand. Two instructions of one mnemonic that work on the
same byte, in machines with the same registers, leave the same registers and the same byte, wherever
each of them has it from and puts it. -/
namespace Mos6502

/-- The mnemonics whose addressing modes do more than select a byte: they say where the program goes
on, and which flags a test of bits sets. -/
def Mnemonic.dependsOnMode (k : Mnemonic) : Bool :=
  k ∈ [.bit, .jmp, .bcc, .bcs, .beq, .bmi, .bne, .bpl, .bra, .bvc, .bvs]

theorem Mnemonic.takesOperand_or_const {k : Mnemonic} {r : Registers} {f : Byte → Byte}
    (h : k.replacement? r = some f) : k.action.takesOperand = true ∨ ∀ v w, f v = f w := by
  cases k <;> simp_all [replacement?, action, Action.takesOperand]
  all_goals exact fun _ _ => h ▸ rfl

theorem Mnemonic.replacement?_pc (k : Mnemonic) (r : Registers) (pc : Word) :
    k.replacement? { r with pc } = k.replacement? r := by
  cases k <;> rfl

theorem Mnemonic.exists_replacement? {k : Mnemonic} (h : k.storesOperand = true) (r : Registers) :
    ∃ f, k.replacement? r = some f := by
  cases k <;> first | exact absurd h Bool.noConfusion | exact ⟨_, rfl⟩

/-- Only the accumulator can tell the effects of an action in two modes apart, where it is the
operand in one of them. -/
theorem Action.effect_mode {a : Action} (ha : a ≠ .testBits) (mode mode' : AddressingMode)
    (r : Registers) (v : Byte) :
    a.effect mode' r v = { a.effect mode r v with a := (a.effect mode' r v).a } ∧
      ((mode = .accumulator ↔ mode' = .accumulator) → a.effect mode' r v = a.effect mode r v) := by
  cases a with
  | testBits => exact absurd rfl ha
  | modify k =>
    refine ⟨?_, fun hacc => by simp only [effect, hacc]⟩
    simp only [effect]
    split <;> split <;> rfl
  | _ => exact ⟨rfl, fun _ => rfl⟩

namespace Machine
variable {m m' : Machine} {i : Instruction}

/-- The byte that a step leaves in the place of the operand: in the accumulator, or at the effective
address. -/
inductive Leaves (m : Machine) (i : Instruction) (m' : Machine) (v : Byte) : Prop
  | accumulator : i.mode = .accumulator → m'.registers.a = v → Leaves m i m' v
  | memory {a : Word} : i.effectiveAddress m.registers m.bus = .ok a →
    i.stores m.registers m.bus = .ok [(a, v)] → m'.bus = m.bus.put a v → Leaves m i m' v

/-- What a step leaves in the place of the operand depends on the mnemonic, the registers and the
byte that it works on. -/
theorem Does.leaves (h : m.Does i m') {v : Byte} (hv : i.input m.registers m.bus = .ok v)
    {f : Byte → Byte} (hf : i.mnemonic.replacement? m.registers = some f) :
    m.Leaves i m' (f v) := by
  by_cases hm : i.mode = .accumulator
  · obtain ⟨w, pc, hw, hr, -⟩ := h.registers_eq
    obtain rfl := Except.ok.inj (hw.symm.trans hv)
    obtain ⟨-, -, ho, -⟩ := Instruction.of_decode h.decoded
    have hmodifies := (Opcode.action_of_mem (Opcode.mem_table_of_lookup ho).1).2 hm
    obtain ⟨c, hc, hresult⟩ :=
      Mnemonic.exists_change (i.mnemonic.changesInPlace_of_modifies hmodifies)
    obtain rfl := Option.some.inj (hf.symm.trans (hresult m.registers))
    exact .accumulator hm (by simp [hr, Instruction.effect, hc, Action.effect, hm])
  · obtain ⟨a, w, ha, hw, hstores, hbus⟩ := h.exists_stored hf hm
    have heq : f w = f v := by
      obtain hk | hconst := Mnemonic.takesOperand_or_const hf
      · rw [Instruction.input, Action.input_of_takesOperand hk,
          Instruction.operandValue_of_read hm ha hw] at hv
        rw [Except.ok.inj hv]
      · exact hconst w v
    rw [heq] at hstores hbus
    exact .memory ha hstores hbus

/-- Two steps coincide, but for where their operands are. -/
structure Coincide (m : Machine) (i : Instruction) (m' n : Machine) (j : Instruction)
    (n' : Machine) : Prop where
  status : n'.registers.status = m'.registers.status
  x : n'.registers.x = m'.registers.x
  y : n'.registers.y = m'.registers.y
  sp : n'.registers.sp = m'.registers.sp
  a : (i.mode = .accumulator ↔ j.mode = .accumulator) → n'.registers.a = m'.registers.a
  left : i.mnemonic.storesOperand = true → ∃ v, m.Leaves i m' v ∧ n.Leaves j n' v

/-- Which addressing mode has selected the byte that a mnemonic works on makes no difference to what
becomes of the registers, nor to the byte that is stored. -/
theorem coincide_of_does {n n' : Machine} {j : Instruction} (hk : j.mnemonic = i.mnemonic)
    (hmode : i.mnemonic.dependsOnMode = false)
    (hr : n.registers = { m.registers with pc := n.registers.pc })
    (hinput : j.input n.registers n.bus = i.input m.registers m.bus)
    (hm : m.Does i m') (hn : n.Does j n') : Coincide m i m' n j n' := by
  obtain ⟨v, pc, hv, hrm, -⟩ := hm.registers_eq
  obtain ⟨w, pc', hw, hrn, -⟩ := hn.registers_eq
  obtain rfl := Except.ok.inj (hw.symm.trans (hinput.trans hv))
  have htest : i.mnemonic.action ≠ .testBits := by
    revert hmode
    cases i.mnemonic <;> simp [Mnemonic.action, Mnemonic.dependsOnMode]
  obtain ⟨hother, ha⟩ := Action.effect_mode htest i.mode j.mode m.registers w
  rw [hr, Instruction.effect, hk, Action.effect_pc] at hrn
  rw [Instruction.effect] at hrm
  constructor
  case status | x | y | sp => rw [hrn, hother, hrm]
  case a =>
    intro hacc
    rw [hrn, ha hacc, hrm]
  case left =>
    intro hstores
    obtain ⟨f, hf⟩ := Mnemonic.exists_replacement? hstores m.registers
    refine ⟨f w, hm.leaves hv hf, hn.leaves hw ?_⟩
    rw [hk, hr, Mnemonic.replacement?_pc, hf]

/-- A program that rotates the accumulator, or a byte in memory. -/
def rotatingLeft (opcode operand data : Byte) (r : Registers) (cycles instructions : Nat) :
    Machine where
  registers := r
  cycles := cycles
  instructions := instructions
  bus := ⟨[⟨"data", 0x0003, .ram #[0x00, data], by simp [Backend.size], by simp [Backend.size]⟩,
    ⟨"code", 0x0200, .ram #[opcode, operand, 0xEA], by simp [Backend.size],
      by simp [Backend.size]⟩]⟩

def beforeRotation : Registers :=
  { pc := 0x0200, a := 0x81, x := 0x05, status := { carry := true, zero := true } }

set_option maxRecDepth 2000 in
theorem does_rotateAccumulator :
    (rotatingLeft 0x2A 0xFF 0x00 beforeRotation 0 0).Does
      ⟨0x0200, ⟨0x2A, .rol, .accumulator, 2⟩, .none⟩
      (rotatingLeft 0x2A 0xFF 0x00
        { beforeRotation with pc := 0x0201, a := 0x03, status.zero := false } 2 1) :=
  ⟨rfl, rfl⟩

set_option maxRecDepth 2000 in
theorem does_rotateMemory :
    (rotatingLeft 0x36 0xFF 0x81 beforeRotation 0 0).Does
      ⟨0x0200, ⟨0x36, .rol, .zeroPageX, 6⟩, .byte 0xFF⟩
      (rotatingLeft 0x36 0xFF 0x03
        { beforeRotation with pc := 0x0202, status.zero := false } 6 1) :=
  ⟨rfl, rfl⟩

theorem coincide_rotations :
    Coincide (rotatingLeft 0x2A 0xFF 0x00 beforeRotation 0 0)
      ⟨0x0200, ⟨0x2A, .rol, .accumulator, 2⟩, .none⟩
      (rotatingLeft 0x2A 0xFF 0x00
        { beforeRotation with pc := 0x0201, a := 0x03, status.zero := false } 2 1)
      (rotatingLeft 0x36 0xFF 0x81 beforeRotation 0 0)
      ⟨0x0200, ⟨0x36, .rol, .zeroPageX, 6⟩, .byte 0xFF⟩
      (rotatingLeft 0x36 0xFF 0x03
        { beforeRotation with pc := 0x0202, status.zero := false } 6 1) :=
  coincide_of_does rfl rfl rfl rfl does_rotateAccumulator does_rotateMemory

end Machine
end Mos6502

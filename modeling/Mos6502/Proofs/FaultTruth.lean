import Mos6502.Proofs.StepCases

/-! What a fault says is true. Only an unmapped address, a pointer at the end of page zero and an
illegal opcode can stop an instruction: the opcode table gives no instruction a mode that its action
cannot reach its operand by. -/
namespace Mos6502

def AddressingMode.hasAddress : AddressingMode → Bool
  | .implied | .accumulator | .immediate => false
  | _ => true

/-- Whether an action finds its operand in an addressing mode, if it looks for one. -/
def Action.allows (mode : AddressingMode) : Action → Bool
  | .load _ | .combine _ | .compare _ | .testBits => mode != .implied
  | .modify _ => mode == .accumulator || mode.hasAddress
  | .store _ | .storeZero | .mask _ | .branch _ _ | .branchAlways | .jump => mode.hasAddress
  | _ => true

/-- Whether an action looks for its operand before it does anything else, whatever the flags are. -/
def Action.reaches : Action → Bool
  | .load _ | .combine _ | .compare _ | .testBits | .modify _ | .store _ | .storeZero | .mask _
  | .branchAlways | .jump => true
  | _ => false

theorem Opcode.allows_of_mem {o : Opcode} (h : o ∈ table) :
    o.mnemonic.action.allows o.mode = true := by
  revert o
  decide +kernel

theorem Opcode.reaches_of_mem {o : Opcode} (h : o ∈ table) (hm : o.mode = .indirectX) :
    o.mnemonic.action.reaches = true := by
  revert o
  decide +kernel

theorem Instruction.of_decode {bus : Bus} {pc : Word} {i : Instruction}
    (h : decode bus pc = .ok i) :
    i.address = pc ∧ bus.read pc = .ok i.opcode.code ∧
      Opcode.lookup i.opcode.code = some i.opcode ∧
      Operand.read bus (pc + 1) i.mode.operandBytes = .ok i.operand := by
  unfold decode at h
  split at h
  · simp at h
  · rename_i code hcode
    split at h
    · simp at h
    · rename_i o ho
      split at h
      · simp at h
      · rename_i operand hoperand
        simp only [Except.ok.injEq] at h
        subst h
        obtain rfl := (Opcode.mem_table_of_lookup ho).2
        exact ⟨rfl, hcode, ho, hoperand⟩

namespace Bus
variable {bus : Bus}

/-- An error that names an address where nothing is mapped. -/
def Misses (bus : Bus) (e : BusError) : Prop := ∃ a, e = .unmapped a ∧ bus.isMapped a = false

theorem misses_of_read {a : Word} {e : BusError} (h : bus.read a = .error e) : bus.Misses e :=
  ⟨a, (eq_unmapped_of_read h).2, (eq_unmapped_of_read h).1⟩

@[simp] theorem misses_put {a : Word} {v : Byte} {e : BusError} :
    (bus.put a v).Misses e ↔ bus.Misses e := by
  simp [Misses]

theorem misses_of_readWord {a : Word} {e : BusError} (h : bus.readWord a = .error e) :
    bus.Misses e := by
  unfold readWord at h
  cases hlow : bus.read a with
  | error e' =>
    simp only [hlow, bind, Except.bind, Except.error.injEq] at h
    exact h ▸ misses_of_read hlow
  | ok low =>
    cases hhigh : bus.read (a + 1) with
    | error e' =>
      simp only [hlow, hhigh, bind, Except.bind, Except.error.injEq] at h
      exact h ▸ misses_of_read hhigh
    | ok high => simp [hlow, hhigh, bind, Except.bind, pure, Except.pure] at h

theorem misses_of_readOperand {a : Word} {n : Nat} {e : BusError}
    (h : Operand.read bus a n = .error e) : bus.Misses e := by
  unfold Operand.read at h
  split at h
  · simp at h
  · cases hr : bus.read a with
    | error e' =>
      simp only [hr, Except.map, Except.error.injEq] at h
      exact h ▸ misses_of_read hr
    | ok v => simp [hr, Except.map] at h
  · cases hr : bus.readWord a with
    | error e' =>
      simp only [hr, Except.map, Except.error.injEq] at h
      exact h ▸ misses_of_readWord hr
    | ok w => simp [hr, Except.map] at h

end Bus

/-- A trap that says what is the case where an instruction starts to be carried out. -/
def Trap.TrueOf (i : Instruction) (x : Byte) (bus : Bus) : Trap → Prop
  | .bus e => bus.Misses e
  | .pointerOutsideZeroPage pointer => i.mode = .indirectX ∧ i.byte + x = pointer ∧ pointer = 0xFF
  | .noAddress => False

@[simp] theorem Trap.trueOf_unmapped {i : Instruction} {x : Byte} {bus : Bus} {a : Word} :
    (Trap.bus (.unmapped a)).TrueOf i x bus ↔ bus.isMapped a = false := by
  simp [TrueOf, Bus.Misses]

namespace Instruction
variable {i : Instruction} {r : Registers} {bus : Bus} {t : Trap}

theorem trueOf_of_effectiveAddress (hm : i.mode.hasAddress = true)
    (h : i.effectiveAddress r bus = .error t) : t.TrueOf i r.x bus := by
  have hword {pointer index : Word} (h : (Target.indirect pointer index).address bus = .error t) :
      t.TrueOf i r.x bus := by
    simp only [Target.address] at h
    cases hp : bus.readWord pointer with
    | ok a => simp [hp] at h
    | error e =>
      simp only [hp, Except.error.injEq] at h
      subst h
      exact Bus.misses_of_readWord hp
  unfold effectiveAddress target at h
  cases hmode : i.mode with
  | implied => simp [hmode, AddressingMode.hasAddress] at hm
  | accumulator => simp [hmode, AddressingMode.hasAddress] at hm
  | immediate => simp [hmode, AddressingMode.hasAddress] at hm
  | indirect => exact hword (by simpa only [hmode] using h)
  | absoluteIndexedIndirect => exact hword (by simpa only [hmode] using h)
  | indirectY => exact hword (by simpa only [hmode] using h)
  | zeroPageIndirect => exact hword (by simpa only [hmode] using h)
  | indirectX =>
    simp only [hmode] at h
    split at h
    · rename_i hpointer
      simp only [Target.address, Except.error.injEq] at h
      subst h
      exact ⟨hmode, rfl, hpointer⟩
    · exact hword h
  | _ => simp [hmode, Target.address] at h

theorem trueOf_of_memoryValue (hm : i.mode.hasAddress = true)
    (h : i.memoryValue r bus = .error t) : t.TrueOf i r.x bus := by
  unfold memoryValue at h
  cases ha : i.effectiveAddress r bus with
  | error t' =>
    simp only [ha, Except.error.injEq] at h
    exact h ▸ trueOf_of_effectiveAddress hm ha
  | ok a =>
    cases hv : bus.read a with
    | ok v => simp [ha, hv] at h
    | error e =>
      simp only [ha, hv, Except.error.injEq] at h
      subst h
      exact Bus.misses_of_read hv

theorem trueOf_of_operandValue (hm : i.mode ≠ .implied)
    (h : i.operandValue r bus = .error t) : t.TrueOf i r.x bus := by
  unfold operandValue at h
  split at h
  · simp at h
  · simp at h
  · rename_i himm hacc
    refine trueOf_of_memoryValue ?_ h
    cases hmode : i.mode <;> simp_all [AddressingMode.hasAddress]

end Instruction

namespace Exec
variable {c : Core} {i : Instruction}

/-- An action that its mode allows traps only for what is the case. -/
theorem act_trueOf {a : Action} (ha : a.allows i.mode = true) :
    wp (act i a) (fun _ _ => True) (fun t _ => t.TrueOf i c.registers.x c.bus) c := by
  cases a with
  | load _ | combine _ | compare _ | testBits =>
    have hm : i.mode ≠ .implied := by simpa [Action.allows] using ha
    simpa [act] using fun t => Instruction.trueOf_of_operandValue hm
  | store _ | storeZero | mask _ | branchAlways | jump =>
    simpa [act, store, maskBits, jump] using
      fun t => Instruction.trueOf_of_effectiveAddress (by simpa [Action.allows] using ha)
  | branch flag expected =>
    simpa [act, jump] using
      fun _ t => Instruction.trueOf_of_effectiveAddress (by simpa [Action.allows] using ha)
  | modify k =>
    have hm (hacc : i.mode ≠ .accumulator) : i.mode.hasAddress = true := by
      simpa [Action.allows, hacc] using ha
    simpa [act, modifyByte] using
      fun hacc t => Instruction.trueOf_of_effectiveAddress (hm hacc)
  | softwareInterrupt =>
    simp only [act, softwareInterrupt, wp_bind, wp_registers, wp_pushWord, wp_push, wp_readWord,
      wp_update, wp_notice, implies_true, true_and, Trap.trueOf_unmapped, Core.bus_push,
      Core.bus_update, Bus.isMapped_put, imp_self, and_true]
    intro _ _ _ e he
    simpa [Trap.TrueOf] using Bus.misses_of_readWord he
  | _ => simp [act]

theorem act_traps {a : Action} {t : Trap} (ha : a.reaches = true)
    (himm : i.mode ≠ .immediate) (hacc : i.mode ≠ .accumulator)
    (ht : i.effectiveAddress c.registers c.bus = .error t) :
    wp (act i a) (fun _ _ => False) (fun t' _ => t' = t) c := by
  have hoperand : i.operandValue c.registers c.bus = .error t := by
    simp [Instruction.operandValue, Instruction.memoryValue, ht]
  cases a with
  | load _ | combine _ | compare _ | testBits => simp [act, hoperand]
  | store _ | storeZero | mask _ | branchAlways | jump => simp [act, store, maskBits, jump, ht]
  | modify k => simp [act, modifyByte, hacc, ht]
  | _ => simp [Action.reaches] at ha

end Exec

/-- What a fault claims about the machine before the step. -/
def Fault.Truthful (m : Machine) (f : Fault) : Prop :=
  f.pc = m.registers.pc ∧
    match f with
    | .illegalOpcode pc code => m.bus.read pc = .ok code ∧ Opcode.lookup code = none
    | .bus pc none e => e = .unmapped pc ∧ m.bus.isMapped pc = false
    | .bus pc (some code) e =>
      m.bus.read pc = .ok code ∧ (Opcode.lookup code).isSome = true ∧
        ∃ a, e = .unmapped a ∧ m.bus.isMapped a = false
    | .pointerOutsideZeroPage pc code pointer =>
      m.bus.read pc = .ok code ∧
        ∃ o operand, Opcode.lookup code = some o ∧ o.mode = .indirectX ∧
          m.bus.read (pc + 1) = .ok operand ∧ operand + m.registers.x = pointer ∧ pointer = 0xFF
    | .noAddress _ _ => False

namespace Instruction
variable {bus : Bus} {pc : Word}

theorem decode_cases (bus : Bus) (pc : Word) :
    (decode bus pc = .error (.bus pc none (.unmapped pc)) ∧ bus.isMapped pc = false) ∨
    (∃ code, decode bus pc = .error (.illegalOpcode pc code) ∧
      bus.read pc = .ok code ∧ Opcode.lookup code = none) ∨
    (∃ code o e, decode bus pc = .error (.bus pc (some code) e) ∧
      bus.read pc = .ok code ∧ Opcode.lookup code = some o ∧ bus.Misses e) ∨
    ∃ i, decode bus pc = .ok i := by
  cases hcode : bus.read pc with
  | error e =>
    obtain ⟨hm, rfl⟩ := Bus.eq_unmapped_of_read hcode
    exact .inl ⟨by simp [decode, hcode], hm⟩
  | ok code =>
    cases ho : Opcode.lookup code with
    | none => exact .inr (.inl ⟨code, by simp [decode, hcode, ho], rfl, ho⟩)
    | some o =>
      cases hr : Operand.read bus (pc + 1) o.mode.operandBytes with
      | error e =>
        exact .inr (.inr (.inl ⟨code, o, e, by simp [decode, hcode, ho, hr], rfl, ho,
          Bus.misses_of_readOperand hr⟩))
      | ok operand => exact .inr (.inr (.inr ⟨⟨pc, o, operand⟩, by simp only [decode, hcode, ho, hr]⟩))

theorem read_operand_of_indirectX {i : Instruction} (h : decode bus pc = .ok i)
    (hm : i.mode = .indirectX) : bus.read (pc + 1) = .ok i.byte := by
  obtain ⟨-, -, -, hr⟩ := of_decode h
  simp only [hm, AddressingMode.operandBytes, Operand.read] at hr
  cases hb : bus.read (pc + 1) with
  | error e => simp [hb, Except.map] at hr
  | ok b =>
    simp only [hb, Except.map, Except.ok.injEq] at hr
    simp [byte, ← hr]

end Instruction

namespace Exec
variable {c : Core} {i : Instruction}

theorem run_trueOf (ho : i.opcode ∈ Opcode.table) :
    wp (run i) (fun _ _ => True) (fun t _ => t.TrueOf i c.registers.x c.bus) c := by
  simp only [run, wp_bind, wp_update]
  exact act_trueOf (c := c.update fun r => { r with pc := i.next }) (Opcode.allows_of_mem ho)

theorem run_traps (ho : i.opcode ∈ Opcode.table) (hm : i.mode = .indirectX)
    (hx : i.byte + c.registers.x = 0xFF) :
    wp (run i) (fun _ _ => False) (fun t _ => t = .pointerOutsideZeroPage 0xFF) c := by
  simp only [run, wp_bind, wp_update]
  refine act_traps (Opcode.reaches_of_mem ho hm) (by simp [hm]) (by simp [hm]) ?_
  simp [Instruction.effectiveAddress, Instruction.target, hm, hx, Target.address]

end Exec

namespace Machine
variable {m m' : Machine} {f : Fault}

theorem truthful_of_step (h : m.step = .error f m') : f.Truthful m := by
  obtain ⟨hd, -⟩ | ⟨i, t, c, hd, hx, rfl, -⟩ := step_error_cases h
  · obtain ⟨h', hm⟩ | ⟨code, h', hcode, ho⟩ | ⟨code, o, e, h', hcode, ho, he⟩ | ⟨i, h'⟩ :=
      Instruction.decode_cases m.bus m.registers.pc
    · obtain rfl := Except.error.inj (hd.symm.trans h')
      exact ⟨rfl, rfl, hm⟩
    · obtain rfl := Except.error.inj (hd.symm.trans h')
      exact ⟨rfl, hcode, ho⟩
    · obtain rfl := Except.error.inj (hd.symm.trans h')
      exact ⟨rfl, hcode, by simp [ho], he⟩
    · simp [hd] at h'
  · obtain ⟨-, hcode, ho, -⟩ := Instruction.of_decode hd
    have ht := Exec.of_wp_error (Exec.run_trueOf (Opcode.mem_table_of_lookup ho).1) hx
    refine ⟨Trap.pc_toFault t _ _, ?_⟩
    cases t with
    | bus e => exact ⟨hcode, by simp [ho], ht⟩
    | pointerOutsideZeroPage pointer =>
      obtain ⟨hm, hp, hff⟩ := ht
      exact ⟨hcode, i.opcode, i.byte, ho, hm, Instruction.read_operand_of_indirectX hd hm, hp, hff⟩
    | noAddress => exact ht

/-- What the machine is about to do that no bus can help: the opcode byte is illegal, or it has an
indexed pointer that is at the end of page zero. -/
def Doomed (m : Machine) : Prop :=
  ∃ code, m.bus.read m.registers.pc = .ok code ∧
    (Opcode.lookup code = none ∨
      ∃ o operand, Opcode.lookup code = some o ∧ o.mode = .indirectX ∧
        m.bus.read (m.registers.pc + 1) = .ok operand ∧ operand + m.registers.x = 0xFF)

theorem doomed_of_truthful (hfull : ∀ a, m.bus.isMapped a = true) (h : f.Truthful m) :
    m.Doomed := by
  obtain ⟨hpc, h⟩ := h
  cases f with
  | illegalOpcode pc code =>
    obtain rfl : pc = m.registers.pc := hpc
    exact ⟨code, h.1, .inl h.2⟩
  | bus pc opcode e =>
    cases opcode with
    | none => simp [hfull] at h
    | some code =>
      obtain ⟨-, -, a, -, ha⟩ := h
      simp [hfull] at ha
  | pointerOutsideZeroPage pc code pointer =>
    obtain rfl : pc = m.registers.pc := hpc
    obtain ⟨hcode, o, operand, ho, hm, hoperand, hp, hff⟩ := h
    exact ⟨code, hcode, .inr ⟨o, operand, ho, hm, hoperand, hp.trans hff⟩⟩
  | noAddress pc code => exact h.elim

theorem step_of_doomed (h : m.Doomed) : ∃ f m', m.step = .error f m' := by
  obtain ⟨code, hcode, ho | ⟨o, operand, ho, hm, hoperand, hx⟩⟩ := h
  · simp [step_eq, Instruction.decode, hcode, ho]
  · have hd : Instruction.decode m.bus m.registers.pc = .ok ⟨m.registers.pc, o, .byte operand⟩ := by
      simp [Instruction.decode, hcode, ho, hm, AddressingMode.operandBytes, Operand.read, hoperand,
        Except.map]
    have hrun := Exec.run_traps (c := m.core) (i := ⟨m.registers.pc, o, .byte operand⟩)
      (Opcode.mem_table_of_lookup ho).1 hm hx
    cases hr : Exec.run ⟨m.registers.pc, o, .byte operand⟩ m.core with
    | ok v c => exact (Exec.of_wp_ok hrun hr).elim
    | error t c => exact ⟨_, _, step_of_run_error hd hr⟩

/-- Every fault is truthful. Where all of memory is mapped, the illegal opcodes and the pointers at
the end of page zero are all that can stop a step, and they do. -/
theorem step_fault_truthful (m : Machine) :
    (∀ f m', m.step = .error f m' → f.Truthful m) ∧
      ((∀ a, m.bus.isMapped a = true) → ((∃ f m', m.step = .error f m') ↔ m.Doomed)) :=
  ⟨fun _ _ => truthful_of_step, fun hfull =>
    ⟨fun ⟨_, _, h⟩ => doomed_of_truthful hfull (truthful_of_step h), step_of_doomed⟩⟩

/-- A load through an indexed pointer whose second byte would lie outside page zero, on a bus that is
RAM throughout. -/
def strayPointer : Machine where
  registers := { pc := 0x0200, x := 0xFE }
  bus := ⟨[⟨"code", 0x0200, .ram #[0xA1, 0x01], by simp [Backend.size], by simp [Backend.size]⟩,
    ⟨"ram", 0, .ram (.replicate 65536 0), by simp [Backend.size], by simp [Backend.size]⟩]⟩

theorem isMapped_strayPointer (a : Word) : strayPointer.bus.isMapped a = true := by
  have hlt := a.toNat_lt
  simp only [Bus.isMapped_eq_any, strayPointer, List.any_cons, Bool.or_eq_true]
  exact .inr (.inl (Region.covers_iff.2 ⟨Nat.zero_le _, by simpa [Region.size, Backend.size] using hlt⟩))

theorem step_fault_truthful_strayPointer :
    (∀ a, strayPointer.bus.isMapped a = true) ∧ strayPointer.Doomed ∧
      ∃ f m', strayPointer.step = .error f m' ∧ f.Truthful strayPointer := by
  have hdoomed : strayPointer.Doomed :=
    ⟨0xA1, rfl, .inr ⟨⟨0xA1, .lda, .indirectX, 6⟩, 0x01, by decide +kernel, rfl, rfl, rfl⟩⟩
  obtain ⟨htruthful, hfaults⟩ := step_fault_truthful strayPointer
  obtain ⟨f, m', h⟩ := (hfaults isMapped_strayPointer).2 hdoomed
  exact ⟨isMapped_strayPointer, hdoomed, f, m', h, htruthful f m' h⟩

end Machine
end Mos6502

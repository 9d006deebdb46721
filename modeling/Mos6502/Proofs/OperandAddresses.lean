import Mos6502.Proofs.Effects
import Mos6502.Proofs.Encoding

/-! Where operands are. For each addressing mode there is one rule, in numbers: which bytes make up
a pointer, what is added to it, and where the sum wraps. Effective addresses follow the rules, and
steps jump to them, work on the byte there, and store there. -/
namespace Mos6502

/-- The byte at `p` and the one at the next address, modulo 65536, hold the low and the high byte of
`a`. -/
def Bus.PointsTo (bus : Bus) (p a : Nat) : Prop :=
  ∃ low high, bus.read (UInt16.ofNat p) = .ok low ∧ bus.read (UInt16.ofNat (p + 1)) = .ok high ∧
    a = low.toNat + 256 * high.toNat

namespace Instruction

/-- Where the pointer to the operand lies, in modes that have one. -/
def pointer? (i : Instruction) (r : Registers) : Option Nat :=
  match i.mode with
  | .indirect => some i.word.toNat
  | .absoluteIndexedIndirect => some ((i.word.toNat + r.x.toNat) % 65536)
  | .indirectX => some ((i.byte.toNat + r.x.toNat) % 256)
  | .indirectY | .zeroPageIndirect => some i.byte.toNat
  | _ => none

/-- The address of the operand, by addressing mode. A branch is relative to what stands behind its
two bytes. -/
def IsAt (i : Instruction) (r : Registers) (bus : Bus) (a : Word) : Prop :=
  match i.mode with
  | .zeroPage => a.toNat = i.byte.toNat
  | .zeroPageX => a.toNat = (i.byte.toNat + r.x.toNat) % 256
  | .zeroPageY => a.toNat = (i.byte.toNat + r.y.toNat) % 256
  | .absolute => a = i.word
  | .absoluteX => a.toNat = (i.word.toNat + r.x.toNat) % 65536
  | .absoluteY => a.toNat = (i.word.toNat + r.y.toNat) % 65536
  | .relative => (a.toNat : Int) = (i.address.toNat + 2 + i.byte.toSigned) % 65536
  | .indirect | .absoluteIndexedIndirect | .zeroPageIndirect =>
    ∃ p, i.pointer? r = some p ∧ bus.PointsTo p a.toNat
  | .indirectX => ∃ p, i.pointer? r = some p ∧ p ≠ 0xFF ∧ bus.PointsTo p a.toNat
  | .indirectY =>
    ∃ p base, i.pointer? r = some p ∧ bus.PointsTo p base ∧
      a.toNat = (base + r.y.toNat) % 65536
  | .implied | .accumulator | .immediate => False

def Operates (i : Instruction) (r : Registers) (bus : Bus) (v : Byte) : Prop :=
  match i.mode with
  | .immediate => v = i.byte
  | .accumulator => v = r.a
  | _ => ∃ a, i.IsAt r bus a ∧ bus.read a = .ok v

def pointerHeard (i : Instruction) (r : Registers) (bus : Bus) : List BusNotice :=
  match i.pointer? r with
  | some p => bus.onRead (UInt16.ofNat p) ++ bus.onRead (UInt16.ofNat (p + 1))
  | none => []

/-- Whether the program goes on at the operand's address. -/
def jumps (i : Instruction) (r : Registers) : Bool :=
  match i.mnemonic with
  | .jmp | .jsr | .bra => true
  | .bcc => !r.status.carry
  | .bcs => r.status.carry
  | .bne => !r.status.zero
  | .beq => r.status.zero
  | .bpl => !r.status.negative
  | .bmi => r.status.negative
  | .bvc => !r.status.overflow
  | .bvs => r.status.overflow
  | _ => false

end Instruction

theorem Byte.toNat_displacement (b : Byte) :
    (b.displacement.toNat : Int) = b.toSigned % 65536 := by
  revert b
  exact Byte.forall_of_fin (by decide +kernel)

theorem Byte.toSigned_bounds (b : Byte) : -128 ≤ b.toSigned ∧ b.toSigned ≤ 127 := by
  revert b
  exact Byte.forall_of_fin (by decide +kernel)

theorem Opcode.mode_of_call {o : Opcode} (h : o ∈ table) (hk : o.mnemonic.action = .call) :
    o.mode = .absolute := by
  revert o
  decide +kernel

section
variable {bus : Bus}

theorem Bus.pointsTo_toNat_iff {p : Word} {n : Nat} :
    bus.PointsTo p.toNat n ↔ ∃ a, bus.readWord p = .ok a ∧ a.toNat = n := by
  have hnext : UInt16.ofNat (p.toNat + 1) = p + 1 := by simp
  simp only [PointsTo, UInt16.ofNat_toNat, hnext, readWord_eq_ok_iff]
  constructor
  · rintro ⟨low, high, hlow, hhigh, rfl⟩
    exact ⟨Word.join low high, by simp [hlow, hhigh], by rw [Word.toNat_join]; omega⟩
  · rintro ⟨a, ⟨hlow, hhigh⟩, rfl⟩
    refine ⟨_, _, hlow, hhigh, ?_⟩
    rw [Word.toNat_low, Word.toNat_high]
    omega

theorem Target.address_indirect_iff {p index a : Word} :
    (Target.indirect p index).address bus = .ok a ↔
      ∃ base, bus.PointsTo p.toNat base ∧ a.toNat = (base + index.toNat) % 65536 := by
  simp only [Bus.pointsTo_toNat_iff, address]
  cases h : bus.readWord p with
  | error e => simp
  | ok w =>
    rw [Except.ok.injEq, ← UInt16.toNat_inj, UInt16.toNat_add]
    constructor
    · intro ha
      exact ⟨w.toNat, ⟨w, rfl, rfl⟩, ha.symm⟩
    · rintro ⟨base, ⟨w', hw, rfl⟩, ha⟩
      obtain rfl := Except.ok.inj hw
      exact ha.symm

theorem Target.address_pointer_iff {p a : Word} :
    (Target.indirect p 0).address bus = .ok a ↔ bus.PointsTo p.toNat a.toNat := by
  rw [address_indirect_iff]
  constructor
  · rintro ⟨base, hbase, ha⟩
    obtain ⟨w, -, rfl⟩ := Bus.pointsTo_toNat_iff.1 hbase
    have hw := w.toNat_lt
    rwa [show a.toNat = w.toNat by rw [ha]; simp]
  · intro ha
    have h := a.toNat_lt
    exact ⟨a.toNat, ha, by simp⟩

end

namespace Instruction
variable {i : Instruction} {r : Registers} {bus : Bus} {a : Word}

theorem next_of_relative (hm : i.mode = .relative) : i.next = i.address + 2 := by
  have hlength : i.length = 2 := by rw [length_eq, hm]; rfl
  rw [next, hlength]
  rfl

theorem effectiveAddress_eq_ok_iff :
    i.effectiveAddress { r with pc := i.next } bus = .ok a ↔ i.IsAt r bus a := by
  have hbyte (b c : Byte) : (b + c).toUInt16 = a ↔ a.toNat = (b.toNat + c.toNat) % 256 := by
    rw [← UInt16.toNat_inj]
    simp [eq_comm]
  have hword (w : Word) (c : Byte) :
      w + c.toUInt16 = a ↔ a.toNat = (w.toNat + c.toNat) % 65536 := by
    rw [← UInt16.toNat_inj]
    simp [eq_comm]
  unfold effectiveAddress target IsAt
  cases hm : i.mode with
  | implied | accumulator | immediate => simp [Target.address]
  | zeroPage =>
    simp only [Target.address, Except.ok.injEq, ← UInt16.toNat_inj, UInt8.toNat_toUInt16]
    exact eq_comm
  | zeroPageX | zeroPageY => simpa [Target.address] using hbyte _ _
  | absolute => simpa [Target.address] using eq_comm
  | absoluteX | absoluteY => simpa [Target.address] using hword _ _
  | relative =>
    have hd := i.byte.toNat_displacement
    have ha := a.toNat_lt
    simp only [Target.address, Except.ok.injEq, next_of_relative hm, ← UInt16.toNat_inj,
      UInt16.toNat_add]
    have htwo : (2 : Word).toNat = 2 := rfl
    omega
  | indirect | absoluteIndexedIndirect | zeroPageIndirect =>
    simp [pointer?, hm, Target.address_pointer_iff]
  | indirectX =>
    have hlast : i.byte + r.x = 0xFF ↔ (i.byte.toNat + r.x.toNat) % 256 = 0xFF := by
      rw [← UInt8.toNat_inj, UInt8.toNat_add]
      rfl
    by_cases hx : i.byte + r.x = 0xFF
    · simp [pointer?, hm, hx, hlast.1 hx, Target.address]
    · simp [pointer?, hm, hx, mt hlast.2 hx, Target.address_pointer_iff]
  | indirectY => simp [pointer?, hm, Target.address_indirect_iff]

theorem action_of_jumps (h : i.jumps r = true) :
    i.mnemonic.action = .jump ∨ i.mnemonic.action = .branchAlways ∨ i.mnemonic.action = .call ∨
      ∃ flag expected, i.mnemonic.action = .branch flag expected ∧
        r.status.get flag = expected := by
  unfold jumps at h
  cases hk : i.mnemonic <;> simp_all [Mnemonic.action, Status.get]

theorem operandValue_eq_ok_iff {v : Byte} :
    i.operandValue { r with pc := i.next } bus = .ok v ↔ i.Operates r bus v := by
  have hmemory : i.memoryValue { r with pc := i.next } bus = .ok v ↔
      ∃ a, i.IsAt r bus a ∧ bus.read a = .ok v := by
    simp only [← effectiveAddress_eq_ok_iff, memoryValue]
    cases i.effectiveAddress { r with pc := i.next } bus with
    | error t => simp
    | ok a => cases h : bus.read a <;> simp [h]
  unfold operandValue Operates
  cases i.mode with
  | immediate | accumulator => simp [eq_comm]
  | _ => exact hmemory

/-- Which bytes are read to find the operand's address. -/
theorem heard_target (h : i.IsAt r bus a) :
    (i.target { r with pc := i.next }).heard bus = i.pointerHeard r bus := by
  have hpointer {p index a : Word} (h : (Target.indirect p index).address bus = .ok a) :
      bus.onReadWord p =
        bus.onRead (UInt16.ofNat p.toNat) ++ bus.onRead (UInt16.ofNat (p.toNat + 1)) := by
    obtain ⟨base, ⟨low, high, hlow, -⟩, -⟩ := Target.address_indirect_iff.1 h
    have hmapped := Bus.isMapped_of_read hlow
    rw [UInt16.ofNat_toNat] at hmapped ⊢
    simp [Bus.onReadWord, hmapped]
  rw [← effectiveAddress_eq_ok_iff, effectiveAddress] at h
  unfold target pointerHeard pointer? at *
  cases hm : i.mode with
  | indirect | absoluteIndexedIndirect | zeroPageIndirect | indirectY =>
    simp only [hm] at h
    simpa [Target.heard] using hpointer h
  | indirectX =>
    by_cases hx : i.byte + r.x = 0xFF
    · simp [hm, hx, Target.address] at h
    · simp only [hm, hx, if_false] at h
      simpa [Target.heard, hx] using hpointer h
  | _ => simp [Target.heard]

theorem IsAt.lt_of_zeroPage (hm : i.mode ∈ [.zeroPage, .zeroPageX, .zeroPageY])
    (h : i.IsAt r bus a) : a.toNat < 0x100 := by
  have hb := i.byte.toNat_lt
  obtain hm | hm | hm : i.mode = .zeroPage ∨ i.mode = .zeroPageX ∨ i.mode = .zeroPageY := by
    simpa using hm
  all_goals
    simp only [IsAt, hm] at h
    omega

theorem IsAt.reach_of_relative (hm : i.mode = .relative) (h : i.IsAt r bus a) :
    ∃ d : Int, -126 ≤ d ∧ d ≤ 129 ∧ (a.toNat : Int) = (i.address.toNat + d) % 65536 := by
  obtain ⟨hlow, hhigh⟩ := i.byte.toSigned_bounds
  simp only [IsAt, hm] at h
  exact ⟨2 + i.byte.toSigned, by omega, by omega, by rw [h, Int.add_assoc]⟩

theorem pointer?_of_indirectX (hm : i.mode = .indirectX) (hx : i.byte + r.x ≠ 0xFF) :
    ∃ p, i.pointer? r = some p ∧ p + 1 < 0x100 := by
  have hlast := mt UInt8.toNat_inj.1 hx
  rw [UInt8.toNat_add, show (0xFF : Byte).toNat = 0xFF from rfl] at hlast
  exact ⟨(i.byte.toNat + r.x.toNat) % 256, by simp [pointer?, hm], by omega⟩

end Instruction

namespace Exec
variable {c c' : Core} {i : Instruction}

/-- The address that an instruction finds, and what it lets be seen on the way. -/
theorem effectiveAddress_eq_ok_iff {a : Word} :
    effectiveAddress i (c.update fun r => { r with pc := i.next }) = .ok a c' ↔
      i.IsAt c.registers c.bus a ∧
        c' = (c.update fun r => { r with pc := i.next }).hear
        (i.pointerHeard c.registers c.bus) := by
  rw [eq_ok_iff_of_wp (R := i.effectiveAddress { c.registers with pc := i.next } c.bus)
    ((wp_effectiveAddress i).2 ⟨fun a ha => ⟨ha, rfl⟩, fun t ht => ht⟩)]
  rw [Instruction.effectiveAddress_eq_ok_iff]
  refine and_congr_right fun ha => ?_
  rw [← Instruction.heard_target ha]
  rfl

theorem operand_eq_ok_iff {v : Byte} :
    (∃ c', operand i (c.update fun r => { r with pc := i.next }) = .ok v c') ↔
      i.Operates c.registers c.bus v := by
  have hwp := (wp_operand (c := c.update fun r => { r with pc := i.next })
    (Q := fun v c' => i.operandValue { c.registers with pc := i.next } c.bus = .ok v ∧ c' = _)
    (E := fun t _ => i.operandValue { c.registers with pc := i.next } c.bus = .error t) i).2
    ⟨fun v hv => ⟨hv, rfl⟩, fun t ht => ht⟩
  rw [← Instruction.operandValue_eq_ok_iff]
  constructor
  · rintro ⟨c', h⟩
    exact ((eq_ok_iff_of_wp hwp).1 h).1
  · exact fun h => ⟨_, (eq_ok_iff_of_wp hwp).2 ⟨h, rfl⟩⟩

/-- A jump goes to the address of its operand. -/
theorem run_jumps (ho : i.opcode ∈ Opcode.table) (hj : i.jumps c.registers = true) :
    wp (run i) (fun _ c' => i.IsAt c.registers c.bus c'.registers.pc) (fun _ _ => True) c := by
  simp only [run, wp_bind, wp_update, ← Instruction.effectiveAddress_eq_ok_iff]
  obtain hk | hk | hk | ⟨flag, expected, hk, hflag⟩ := Instruction.action_of_jumps hj
  · simp only [hk, act, jump, wp_bind, wp_effectiveAddress, wp_update, implies_true, and_true]
    exact fun a ha => ha
  · simp only [hk, act, jump, wp_bind, wp_effectiveAddress, wp_update, implies_true, and_true]
    exact fun a ha => ha
  · simp only [hk, act, wp_bind, wp_registers, wp_pushWord, wp_push, wp_update, implies_true,
      and_true]
    have hm : i.mode = .absolute := Opcode.mode_of_call ho hk
    exact fun _ _ => by simp [Instruction.effectiveAddress, Instruction.target, hm, Target.address]
  · simp only [hk, act, jump, wp_bind, wp_registers, wp_ite, wp_effectiveAddress, wp_update,
      wp_pure, implies_true, and_true]
    rw [if_pos (by exact hflag)]
    exact fun a ha => ha

end Exec

namespace Machine
variable {m m' : Machine} {i : Instruction}

/-- What an instruction starts from: it has been fetched, and nothing else has happened. -/
def pastFetch (m : Machine) (i : Instruction) : Core :=
  m.core.update fun r => { r with pc := i.next }

/-- The operand of an instruction is where its addressing mode has it, and a step gets it there. -/
structure Resolves (m : Machine) (i : Instruction) : Prop where
  address : ∀ a c, Exec.effectiveAddress i (m.pastFetch i) = .ok a c ↔
    i.IsAt m.registers m.bus a ∧ c = (m.pastFetch i).hear (i.pointerHeard m.registers m.bus)
  pageZero : ∀ a, i.IsAt m.registers m.bus a →
    i.mode ∈ [.zeroPage, .zeroPageX, .zeroPageY] → a.toNat < 0x100
  branch : ∀ a, i.IsAt m.registers m.bus a → i.mode = .relative → ∃ d : Int, -126 ≤ d ∧ d ≤ 129 ∧
    (a.toNat : Int) = (m.registers.pc.toNat + d) % 65536
  indexedPointer : i.mode = .indirectX →
    (∃ p, i.pointer? m.registers = some p ∧ p + 1 < 0x100) ∨
      ∃ m', m.step = .error (.pointerOutsideZeroPage m.registers.pc i.opcode.code 0xFF) m'
  operand : ∀ v, (∃ c, Exec.operand i (m.pastFetch i) = .ok v c) ↔ i.Operates m.registers m.bus v
  jumps : ∀ m', m.Does i m' → i.jumps m.registers = true →
    i.IsAt m.registers m.bus m'.registers.pc
  works : ∀ m', m.Does i m' → i.mnemonic.action.takesOperand = true →
    ∃ v pc, i.Operates m.registers m.bus v ∧ m'.registers = { i.effect m.registers v with pc }
  stores : ∀ m' f, m.Does i m' → i.mnemonic.replacement? m.registers = some f →
    i.mode ≠ .accumulator → ∃ a v, i.IsAt m.registers m.bus a ∧ m.bus.read a = .ok v ∧
      m'.bus = m.bus.put a (f v)

theorem Does.isAt_of_jumps (h : m.Does i m') (hj : i.jumps m.registers = true) :
    i.IsAt m.registers m.bus m'.registers.pc := by
  obtain ⟨-, -, ho, -⟩ := Instruction.of_decode h.decoded
  exact h.of_wp (Q := fun r _ => i.IsAt m.registers m.bus r.pc)
    (Exec.run_jumps (c := m.core) (Opcode.mem_table_of_lookup ho).1 hj)

theorem Does.exists_operates (h : m.Does i m') (ha : i.mnemonic.action.takesOperand = true) :
    ∃ v pc, i.Operates m.registers m.bus v ∧ m'.registers = { i.effect m.registers v with pc } := by
  obtain ⟨-, -, ho, -⟩ := Instruction.of_decode h.decoded
  obtain ⟨v, pc, hv, hr, -⟩ := h.registers_eq
  have hm : i.mode ≠ .relative :=
    Instruction.mode_ne_relative (Opcode.mem_table_of_lookup ho).1
      (Action.branches_of_takesOperand ha)
  rw [Instruction.input, Action.input_of_takesOperand ha,
    ← Instruction.operandValue_pc hm _ i.next, Instruction.operandValue_eq_ok_iff] at hv
  exact ⟨v, pc, hv, hr⟩

theorem Does.exists_isAt_of_replacement? (h : m.Does i m') {f : Byte → Byte}
    (hf : i.mnemonic.replacement? m.registers = some f) (hacc : i.mode ≠ .accumulator) :
    ∃ a v, i.IsAt m.registers m.bus a ∧ m.bus.read a = .ok v ∧ m'.bus = m.bus.put a (f v) := by
  obtain ⟨-, -, ho, -⟩ := Instruction.of_decode h.decoded
  obtain ⟨a, v, ha, hv, -, hbus⟩ := h.exists_stored hf hacc
  have hm : i.mode ≠ .relative :=
    Instruction.mode_ne_relative (Opcode.mem_table_of_lookup ho).1
      (Mnemonic.branches_of_replacement? hf)
  rw [← Instruction.effectiveAddress_pc hm _ i.next, Instruction.effectiveAddress_eq_ok_iff] at ha
  exact ⟨a, v, ha, hv, hbus⟩

theorem step_of_pointer_outside (hd : Instruction.decode m.bus m.registers.pc = .ok i)
    (hm : i.mode = .indirectX) (hx : i.byte + m.registers.x = 0xFF) :
    ∃ m', m.step = .error (.pointerOutsideZeroPage m.registers.pc i.opcode.code 0xFF) m' := by
  obtain ⟨hi, -, ho, -⟩ := Instruction.of_decode hd
  have hrun := Exec.run_traps (c := m.core) (Opcode.mem_table_of_lookup ho).1 hm hx
  cases hr : Exec.run i m.core with
  | ok u c => exact (Exec.of_wp_ok hrun hr).elim
  | error t c =>
    obtain rfl : t = .pointerOutsideZeroPage 0xFF := Exec.of_wp_error hrun hr
    exact ⟨_, hi ▸ step_of_run_error hd hr⟩

/-- Every instruction has its operand where its addressing mode says, and works on it there. -/
theorem resolves_of_decode (hd : Instruction.decode m.bus m.registers.pc = .ok i) :
    m.Resolves i := by
  obtain ⟨hi, -, -, -⟩ := Instruction.of_decode hd
  constructor
  case address => exact fun a c => Exec.effectiveAddress_eq_ok_iff (c := m.core)
  case pageZero => exact fun a ha hm => ha.lt_of_zeroPage hm
  case branch =>
    intro a ha hm
    rw [← hi]
    exact ha.reach_of_relative hm
  case indexedPointer =>
    intro hm
    by_cases hx : i.byte + m.registers.x = 0xFF
    · exact .inr (step_of_pointer_outside hd hm hx)
    · exact .inl (Instruction.pointer?_of_indirectX hm hx)
  case operand => exact fun v => Exec.operand_eq_ok_iff (c := m.core)
  case jumps => exact fun m' h => h.isAt_of_jumps
  case works => exact fun m' h => h.exists_operates
  case stores => exact fun m' f h => h.exists_isAt_of_replacement?

/-- A program that loads through a pointer of which the high byte lies behind page zero, with an
index that leads from the end of memory to its beginning. -/
def indexing (a : Byte) (pc : Word) (zero : Bool) (cycles instructions : Nat) : Machine where
  registers := { pc, a, y := 0x20, sp := 0xFF, status := { zero } }
  cycles := cycles
  instructions := instructions
  bus := ⟨[⟨"data", 0x0010, .ram #[0x42], by simp [Backend.size], by simp [Backend.size]⟩,
    ⟨"pointer", 0x00FF, .ram #[0xF0, 0xFF], by simp [Backend.size], by simp [Backend.size]⟩,
    ⟨"code", 0x0200, .ram #[0xB1, 0xFF], by simp [Backend.size], by simp [Backend.size]⟩]⟩

set_option maxRecDepth 2000 in
theorem step_indexing :
    (indexing 0 0x0200 true 0 0).step = .ok 5 (indexing 0x42 0x0202 false 5 1) := rfl

set_option maxRecDepth 2000 in
theorem decode_indexing :
    Instruction.decode (indexing 0 0x0200 true 0 0).bus 0x0200 =
      .ok ⟨0x0200, ⟨0xB1, .lda, .indirectY, 5⟩, .byte 0xFF⟩ := rfl

theorem resolves_indexing :
    ∃ i, i.pointer? (indexing 0 0x0200 true 0 0).registers = some 0xFF ∧
      i.IsAt (indexing 0 0x0200 true 0 0).registers (indexing 0 0x0200 true 0 0).bus 0x0010 ∧
      (indexing 0 0x0200 true 0 0).Resolves i ∧
      ∃ v pc, i.Operates (indexing 0 0x0200 true 0 0).registers (indexing 0 0x0200 true 0 0).bus v ∧
        (indexing 0x42 0x0202 false 5 1).registers =
          { i.effect (indexing 0 0x0200 true 0 0).registers v with pc } := by
  have hresolves := resolves_of_decode decode_indexing
  refine ⟨_, rfl, ?_, hresolves, hresolves.works _ ⟨decode_indexing, ?_⟩ rfl⟩
  · exact ⟨0xFF, 0xFFF0, rfl, ⟨0xF0, 0xFF, rfl, rfl, rfl⟩, rfl⟩
  · rw [step_indexing]
    rfl

end Machine
end Mos6502

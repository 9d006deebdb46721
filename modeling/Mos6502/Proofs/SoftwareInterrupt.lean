import Mos6502.Proofs.Subroutine

/-! Software interrupts. The status is pushed above the return address with the two bits set that no
status has by itself, and is pulled with one of them set and the other cleared. So a handler that
leaves the stack as deep as it has found it returns behind the interrupt and its padding, with all
flags as they were, whatever it has done to them. -/
namespace Mos6502

namespace Status

theorem toByte_pulled (b : Byte) : (pulled b).toByte = (b ||| 0x20) &&& ~~~0x10 := by
  revert b
  exact Byte.forall_of_fin (by decide +kernel)

theorem pulled_toByte (s : Status) : pulled s.toByte = { s with unused := true, brk := false } := by
  rw [pulled, ofByte_toByte]

/-- What is pushed comes back but for the two bits that stand for no flag. -/
theorem pulled_pushed (s : Status) : pulled s.pushed = pulled s.toByte := by
  simp only [pulled, pushed, ofByte_toByte]

end Status

namespace Exec
variable {c : Core} {i : Instruction}

/-- A software interrupt goes to the handler, and sets one flag. -/
theorem run_brk (hk : i.mnemonic = .brk) :
    wp (run i)
      (fun _ c' => c'.bus.readWord interruptVector = .ok c'.registers.pc ∧
        c'.registers.status = { c.registers.status with interruptDisable := true })
      (fun _ _ => True) c := by
  simp only [run, wp_bind, wp_update, hk, Mnemonic.action, act, softwareInterrupt, wp_registers,
    wp_pushWord, wp_push, wp_readWord, wp_notice, implies_true, and_true]
  exact fun _ _ _ handler hhandler => ⟨hhandler, rfl⟩

/-- A return from an interrupt takes the status off the stack, then the return address. -/
theorem run_rti (hk : i.mnemonic = .rti) :
    wp (run i)
      (fun _ c' => ∃ flags low high,
        c.bus.read (stackSlot (c.registers.sp + 1)) = .ok flags ∧
        c.bus.read (stackSlot (c.registers.sp + 1 + 1)) = .ok low ∧
        c.bus.read (stackSlot (c.registers.sp + 1 + 1 + 1)) = .ok high ∧
        c'.registers.status = .pulled flags ∧ c'.registers.pc = Word.join low high)
      (fun _ _ => True) c := by
  simp only [run, wp_bind, wp_update, hk, Mnemonic.action, act, wp_pullWord, wp_pull, implies_true,
    and_true]
  exact fun flags hflags low hlow high hhigh => ⟨flags, low, high, hflags, hlow, hhigh, rfl, rfl⟩

end Exec

theorem stackSlot_ne {a : Word} (h : 0x0200 ≤ a.toNat) (sp : Byte) : a ≠ stackSlot sp := by
  rintro rfl
  have hlt := sp.toNat_lt
  rw [toNat_stackSlot] at h
  omega

namespace Machine
variable {m m' : Machine} {i : Instruction}

/-- Outside the stack page only instructions that store their operand change anything. -/
theorem Does.read_eq (h : m.Does i m') (hp : m.bus.isPlain = true)
    (hs : i.mnemonic.storesOperand = false) {a : Word} (ha : 0x0200 ≤ a.toNat) :
    m'.bus.read a = m.bus.read a := by
  obtain ⟨written, hwritten, hbus⟩ := h.bus_eq
  rw [hbus, Bus.read_eq_cell, Bus.read_eq_cell, Bus.cell_putAll_of_notMem hp fun hmem => ?_]
  obtain ⟨hs', -⟩ | ⟨k, -, hslot⟩ := Instruction.mem_stores_cases hwritten hmem
  · exact absurd (hs.symm.trans hs') Bool.noConfusion
  · exact stackSlot_ne ha _ hslot

theorem Does.of_brk (h : m.Does i m') (hk : i.mnemonic = .brk) (hp : m.bus.isPlain = true) :
    m.bus.readWord interruptVector = .ok m'.registers.pc ∧
      m'.registers.status = { m.registers.status with interruptDisable := true } := by
  obtain ⟨hvector, hstatus⟩ := h.of_wp
    (Q := fun r bus => bus.readWord interruptVector = .ok r.pc ∧
      r.status = { m.registers.status with interruptDisable := true })
    (Exec.run_brk (c := m.core) hk)
  have hs : i.mnemonic.storesOperand = false := by rw [hk]; rfl
  refine ⟨?_, hstatus⟩
  rwa [Bus.readWord, h.read_eq hp hs (by decide), h.read_eq hp hs (by decide)] at hvector

theorem Does.of_rti (h : m.Does i m') (hk : i.mnemonic = .rti) :
    ∃ flags low high, m.bus.read (stackSlot (m.registers.sp + 1)) = .ok flags ∧
      m.bus.read (stackSlot (m.registers.sp + 1 + 1)) = .ok low ∧
      m.bus.read (stackSlot (m.registers.sp + 1 + 1 + 1)) = .ok high ∧
      m'.registers.status = .pulled flags ∧ m'.registers.pc = Word.join low high :=
  h.of_wp (Q := fun r _ => ∃ flags low high,
    m.bus.read (stackSlot (m.registers.sp + 1)) = .ok flags ∧
    m.bus.read (stackSlot (m.registers.sp + 1 + 1)) = .ok low ∧
    m.bus.read (stackSlot (m.registers.sp + 1 + 1 + 1)) = .ok high ∧
    r.status = .pulled flags ∧ r.pc = Word.join low high)
    (Exec.run_rti (c := m.core) hk)

/-- A software interrupt goes to the address at its vector and changes no flag but one, which it sets.
A handler that returns when the stack is as deep as after the interrupt returns behind the
interrupt and its padding, with the stack pointer and with all flags that the interrupt has found;
of the other two bits of the status one is set and the other is not. -/
theorem returns_behind_interrupt {handling : Machine} {brk : Instruction}
    (hp : m.bus.isPlain = true) (hinterrupt : m.Does brk handling) (hbrk : brk.mnemonic = .brk)
    (hhigh : (m.bus.cell (stackSlot m.registers.sp)).isRam = true)
    (hlow : (m.bus.cell (stackSlot (m.registers.sp - 1))).isRam = true)
    (hflags : (m.bus.cell (stackSlot (m.registers.sp - 2))).isRam = true) :
    m.bus.readWord interruptVector = .ok handling.registers.pc ∧
      handling.registers.status = { m.registers.status with interruptDisable := true } ∧
      ∀ (past : List (Machine × Instruction)) (leaving returned : Machine) (rti : Instruction),
        handling.Path past leaving → LeavesStack m.registers.sp 3 past →
        leaving.Does rti returned → rti.mnemonic = .rti → stackDepth past = 0 →
        returned.registers.pc = m.registers.pc + 2 ∧ returned.registers.sp = m.registers.sp ∧
          returned.registers.status.toByte = (m.registers.status.toByte ||| 0x20) &&& ~~~0x10 ∧
          returned.registers.status = { m.registers.status with unused := true, brk := false } := by
  obtain ⟨hvector, hstatus⟩ := hinterrupt.of_brk hbrk hp
  refine ⟨hvector, hstatus, fun past leaving returned rti path hleaves hreturn hrti hdepth => ?_⟩
  have hgrowth : brk.mnemonic.stackGrowth = 3 := by rw [hbrk]; rfl
  have hpushes : brk.mnemonic.pushes m.registers =
      [(m.registers.pc + 2).high, (m.registers.pc + 2).low, m.registers.status.pushed] := by
    rw [hbrk]; rfl
  have hhandling : handling.registers.sp = m.registers.sp - 3 := by
    rw [hinterrupt.sp_eq (by rw [hbrk]; decide), hgrowth]
    rfl
  obtain ⟨hsp, hread⟩ := path.read_pushed hp hinterrupt (by omega) (by rwa [hgrowth]) hdepth
  rw [hhandling] at hsp
  have hfirst := hread 0 _ (by rw [hpushes]; rfl) (by simpa using hhigh)
  have hsecond := hread 1 _ (by rw [hpushes]; rfl) (by simpa using hlow)
  have hthird := hread 2 _ (by rw [hpushes]; rfl) (by simpa using hflags)
  obtain ⟨flags, low, high, hf, hl, hh, hrestored, hpc⟩ := hreturn.of_rti hrti
  rw [show leaving.registers.sp + 1 = m.registers.sp - UInt8.ofNat 2 by grind] at hf
  rw [show leaving.registers.sp + 1 + 1 = m.registers.sp - UInt8.ofNat 1 by grind] at hl
  rw [show leaving.registers.sp + 1 + 1 + 1 = m.registers.sp - UInt8.ofNat 0 by grind] at hh
  obtain rfl := Except.ok.inj (hthird.symm.trans hf)
  obtain rfl := Except.ok.inj (hsecond.symm.trans hl)
  obtain rfl := Except.ok.inj (hfirst.symm.trans hh)
  rw [Status.pulled_pushed] at hrestored
  refine ⟨?_, ?_, ?_, ?_⟩
  · rw [hpc, Word.join_low_high]
  · rw [hreturn.sp_eq (by rw [hrti]; decide), hrti, hsp]
    change m.registers.sp - 3 - (-3 : Byte) = m.registers.sp
    grind
  · rw [hrestored, Status.toByte_pulled]
  · rw [hrestored, Status.pulled_toByte]

/-- An interrupt whose handler sets a flag, pushes the accumulator and pulls it again, in the midst of
its run. -/
def busyHandler (below flags low high : Byte) (r : Registers) (cycles instructions : Nat) :
    Machine where
  registers := r
  cycles := cycles
  instructions := instructions
  bus := ⟨[⟨"all", 0x01FC, .ram #[below, flags, low, high, 0x00, 0xEA, 0xF8, 0x48, 0x68, 0x40],
      by simp [Backend.size], by simp [Backend.size]⟩,
    ⟨"vector", 0xFFFE, .rom "vector" #[0x02, 0x02], by simp [Backend.size],
      by simp [Backend.size]⟩]⟩

def busyStatus : Status := { carry := true, interruptDisable := true, decimal := true }

def busyHandlerPast : List (Machine × Instruction) :=
  [(busyHandler 0 0x31 2 2
        { pc := 0x0202, sp := 0xFC, status := { busyStatus with decimal := false } } 7 1,
      ⟨0x0202, ⟨0xF8, .sed, .implied, 2⟩, .none⟩),
    (busyHandler 0 0x31 2 2 { pc := 0x0203, sp := 0xFC, status := busyStatus } 9 2,
      ⟨0x0203, ⟨0x48, .pha, .implied, 3⟩, .none⟩),
    (busyHandler 0 0x31 2 2 { pc := 0x0204, sp := 0xFB, status := busyStatus } 12 3,
      ⟨0x0204, ⟨0x68, .pla, .implied, 4⟩, .none⟩)]

set_option maxRecDepth 2000 in
theorem brk_busyHandler :
    (busyHandler 0 0 0 0 { pc := 0x0200, sp := 0xFF, status := { carry := true } } 0 0).Does
      ⟨0x0200, ⟨0x00, .brk, .implied, 7⟩, .none⟩
      (busyHandler 0 0x31 2 2
        { pc := 0x0202, sp := 0xFC, status := { busyStatus with decimal := false } } 7 1) :=
  ⟨rfl, rfl⟩

set_option maxRecDepth 2000 in
theorem path_busyHandler :
    (busyHandler 0 0x31 2 2
        { pc := 0x0202, sp := 0xFC, status := { busyStatus with decimal := false } } 7 1).Path
      busyHandlerPast
      (busyHandler 0 0x31 2 2
        { pc := 0x0205, sp := 0xFC, status := { busyStatus with zero := true } } 16 4) :=
  .snoc (.snoc (.snoc .refl ⟨rfl, rfl⟩) ⟨rfl, rfl⟩) ⟨rfl, rfl⟩

set_option maxRecDepth 2000 in
theorem rti_busyHandler :
    (busyHandler 0 0x31 2 2
        { pc := 0x0205, sp := 0xFC, status := { busyStatus with zero := true } } 16 4).Does
      ⟨0x0205, ⟨0x40, .rti, .implied, 6⟩, .none⟩
      (busyHandler 0 0x31 2 2
        { pc := 0x0202, sp := 0xFF, status := { carry := true, unused := true } } 22 5) :=
  ⟨rfl, rfl⟩

theorem leavesStack_busyHandler : LeavesStack 0xFF 3 busyHandlerPast where
  noTransfer := by simp [busyHandlerPast, Instruction.mnemonic]
  noStore := by simp [busyHandlerPast, Instruction.mnemonic, Mnemonic.storesOperand]
  depth before hb := by
    simp only [busyHandlerPast, List.prefix_cons_iff, List.prefix_nil] at hb
    obtain rfl | ⟨_, rfl, rfl | ⟨_, rfl, rfl | ⟨_, rfl, rfl⟩⟩⟩ := hb <;>
      simp [stackDepth, Instruction.mnemonic, Mnemonic.stackGrowth]

theorem returns_behind_interrupt_busyHandler :
    LeavesStack 0xFF 3 busyHandlerPast ∧ stackDepth busyHandlerPast = 0 ∧
      (busyHandler 0 0x31 2 2
        { pc := 0x0202, sp := 0xFF, status := { carry := true, unused := true } } 22 5).registers.pc =
        0x0200 + 2 ∧
      ({ carry := true, unused := true } : Status).toByte = (0x01 ||| 0x20) &&& ~~~0x10 := by
  obtain ⟨-, -, hreturns⟩ := returns_behind_interrupt rfl brk_busyHandler rfl rfl rfl rfl
  obtain ⟨hpc, -, hstatus, -⟩ := hreturns _ _ _ _ path_busyHandler leavesStack_busyHandler
    rti_busyHandler rfl rfl
  exact ⟨leavesStack_busyHandler, rfl, hpc, hstatus⟩

end Machine
end Mos6502

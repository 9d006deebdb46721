import Mos6502.Proofs.StepCases

/-! What a fault leaves behind. Nothing is rolled back, so this depends on how far an instruction has
come when it traps. Most instructions change nothing before the last access that can fail; those
that move the stack pointer more than once, or load the flags from the stack, may stop half way.
The bus has no side effects here. -/
namespace Mos6502

/-- What an action may have changed when it traps. -/
structure Footprint where
  status : Bool := false
  stackPointer : Bool := false
  memory : Bool := false

def Action.footprint : Action → Footprint
  | .softwareInterrupt => { status := true, stackPointer := true, memory := true }
  | .leaveInterrupt => { status := true, stackPointer := true }
  | .call => { stackPointer := true, memory := true }
  | .leave | .pull _ | .pullStatus => { stackPointer := true }
  | _ => {}

theorem Mnemonic.status_footprint {k : Mnemonic} (h : k ∉ [.rti, .brk]) :
    k.action.footprint.status = false := by
  cases k <;> first | rfl | simp at h

theorem Mnemonic.stackPointer_footprint {k : Mnemonic}
    (h : k ∉ [.pla, .plx, .ply, .plp, .rts, .rti, .jsr, .brk]) :
    k.action.footprint.stackPointer = false := by
  cases k <;> first | rfl | simp at h

theorem Mnemonic.memory_footprint {k : Mnemonic} (h : k ∉ [.jsr, .brk]) :
    k.action.footprint.memory = false := by
  cases k <;> first | rfl | simp at h

def Notice.isIgnoredWrite : Notice → Bool
  | .bus (.ignoredWrite _ _ _ _) => true
  | _ => false

namespace Core
variable {w : Footprint} {c c' c'' : Core}

/-- A core that differs from an earlier one in its footprint at most. -/
structure Within (w : Footprint) (c c' : Core) : Prop where
  pc : c'.registers.pc = c.registers.pc
  a : c'.registers.a = c.registers.a
  x : c'.registers.x = c.registers.x
  y : c'.registers.y = c.registers.y
  status : w.status = false → c'.registers.status = c.registers.status
  stackPointer : w.stackPointer = false → c'.registers.sp = c.registers.sp
  memory : w.memory = false → c'.bus = c.bus
  extents : c'.bus.extents = c.bus.extents
  notices : ∃ ns, c'.notices = c.notices ++ ns ∧ ∀ n ∈ ns, n.isIgnoredWrite = true

namespace Within

@[simp] theorem refl (w : Footprint) (c : Core) : c.Within w c where
  pc := rfl
  a := rfl
  x := rfl
  y := rfl
  status _ := rfl
  stackPointer _ := rfl
  memory _ := rfl
  extents := rfl
  notices := ⟨[], by simp, by simp⟩

theorem trans (h : c.Within w c') (h' : c'.Within w c'') : c.Within w c'' where
  pc := h'.pc.trans h.pc
  a := h'.a.trans h.a
  x := h'.x.trans h.x
  y := h'.y.trans h.y
  status hw := (h'.status hw).trans (h.status hw)
  stackPointer hw := (h'.stackPointer hw).trans (h.stackPointer hw)
  memory hw := (h'.memory hw).trans (h.memory hw)
  extents := h'.extents.trans h.extents
  notices := by
    obtain ⟨ns, hns, hall⟩ := h.notices
    obtain ⟨ms, hms, hall'⟩ := h'.notices
    refine ⟨ns ++ ms, by rw [hms, hns, List.append_assoc], fun n hn => ?_⟩
    rcases List.mem_append.1 hn with hn | hn
    · exact hall n hn
    · exact hall' n hn

theorem raise (hw : w.stackPointer = true) (c : Core) : c.Within w c.raise :=
  { refl w c with stackPointer := fun h => by simp [hw] at h }

theorem push (hw : w.stackPointer = true) (hw' : w.memory = true) (hp : c.bus.isPlain = true)
    (v : Byte) : c.Within w (c.push v) :=
  { refl w c with
    stackPointer := fun h => by simp [hw] at h
    memory := fun h => by simp [hw'] at h
    extents := by simp
    notices := by
      refine ⟨_, rfl, fun n hn => ?_⟩
      obtain ⟨b, hb, rfl⟩ := List.mem_map.1 hn
      obtain ⟨label, size, offset, rfl⟩ := Bus.onWrite_of_isPlain hp _ v b hb
      rfl }

theorem setStatus (hw : w.status = true) (c : Core) (s : Registers → Status) :
    c.Within w (c.update fun r => { r with status := s r }) :=
  { refl w c with status := fun h => by simp [hw] at h }

end Within
end Core

namespace Exec
variable {c : Core}

theorem mask_within (hp : c.bus.isPlain = true) (i : Instruction) (set : Bool) :
    wp (maskBits i set) (fun _ _ => True) (fun _ c' => c.Within {} c') c := by
  simp only [maskBits, wp_bind, wp_effectiveAddress, wp_readByte, wp_update, wp_registers,
    Target.heard_of_isPlain hp, Core.hear_nil, Bus.onRead_of_isPlain hp]
  refine ⟨fun a _ => ⟨fun v hv => ?_, fun _ => .refl _ c⟩, fun _ _ => .refl _ c⟩
  exact (wp_writeBack hv _ _).2 trivial

theorem modify_within (hp : c.bus.isPlain = true) (i : Instruction) (k : Change) :
    wp (modifyByte i k) (fun _ _ => True) (fun _ c' => c.Within {} c') c := by
  simp only [modifyByte, wp_bind, wp_ite, wp_effectiveAddress, wp_readByte, wp_update, wp_registers,
    Target.heard_of_isPlain hp, Core.hear_nil, Bus.onRead_of_isPlain hp]
  split
  · trivial
  · refine ⟨fun a _ => ⟨fun v hv => ?_, fun _ => .refl _ c⟩, fun _ _ => .refl _ c⟩
    exact (wp_writeBack hv _ _).2 trivial

/-- An action that traps stays within its footprint. -/
theorem act_within (hp : c.bus.isPlain = true) (i : Instruction) (a : Action) :
    wp (act i a) (fun _ _ => True) (fun _ c' => c.Within a.footprint c') c := by
  have hheard := Target.heard_of_isPlain hp
  have hoperand := Instruction.operandHeard_of_isPlain hp
  cases a with
  | mask set => exact mask_within hp i set
  | modify k => exact modify_within hp i k
  | pull d =>
    simp only [act, wp_bind, wp_pull, wp_update]
    exact ⟨fun _ _ => trivial, fun _ => .raise rfl c⟩
  | pullStatus =>
    simp only [act, wp_bind, wp_pull, wp_update]
    exact ⟨fun _ _ => trivial, fun _ => .raise rfl c⟩
  | leave =>
    simp only [act, wp_bind, wp_pullWord, wp_pull, wp_update, Core.bus_raise,
      Bus.onRead_of_isPlain hp, Core.hear_nil]
    exact ⟨fun _ _ => ⟨fun _ _ => trivial, fun _ => (Core.Within.raise rfl c).trans (.raise rfl _)⟩,
      fun _ => .raise rfl c⟩
  | leaveInterrupt =>
    simp only [act, wp_bind, wp_pullWord, wp_pull, wp_update, Core.bus_raise, Core.bus_update,
      Bus.onRead_of_isPlain hp, Core.hear_nil]
    have hpulled (v : Byte) := (Core.Within.raise (w := Action.leaveInterrupt.footprint) rfl c).trans
      (.setStatus rfl c.raise fun _ => Status.pulled v)
    exact ⟨fun v _ => ⟨fun _ _ => ⟨fun _ _ => trivial,
        fun _ => ((hpulled v).trans (.raise rfl _)).trans (.raise rfl _)⟩,
      fun _ => (hpulled v).trans (.raise rfl _)⟩, fun _ => .raise rfl c⟩
  | call =>
    simp only [act, wp_bind, wp_registers, wp_pushWord, wp_push, wp_update]
    exact ⟨fun _ => ⟨fun _ => trivial, fun _ => .push rfl rfl hp _⟩, fun _ => .refl _ c⟩
  | softwareInterrupt =>
    simp only [act, softwareInterrupt, wp_bind, wp_registers, wp_pushWord, wp_push, wp_readWord,
      wp_update, wp_notice]
    have hhigh := Core.Within.push (w := Action.softwareInterrupt.footprint) rfl rfl hp
      (c.registers.pc + 1).high
    have hword := hhigh.trans (.push rfl rfl (by simpa using hp) (c.registers.pc + 1).low)
    have hstatus := hword.trans (.push rfl rfl (by simpa using hp) c.registers.status.pushed)
    refine ⟨fun _ => ⟨fun _ => ⟨fun _ => ⟨fun _ _ => trivial, fun _ _ => ?_⟩, fun _ => hword⟩,
      fun _ => hhigh⟩, fun _ => .refl _ c⟩
    rw [Bus.onReadWord_of_isPlain (by simpa using hp), Core.hear_nil]
    exact hstatus.trans (.setStatus rfl _ fun r => { r.status with interruptDisable := true })
  | _ => simp [act, store, jump, hheard, hoperand]

theorem run_within (hp : c.bus.isPlain = true) (i : Instruction) :
    wp (run i) (fun _ _ => True)
      (fun _ c' => (c.update fun r => { r with pc := i.next }).Within i.mnemonic.action.footprint c')
      c := by
  simp only [run, wp_bind, wp_update]
  exact act_within (by exact hp) i _

end Exec

theorem Instruction.onDecode_of_isPlain {bus : Bus} (hp : bus.isPlain = true) (pc : Word) :
    onDecode bus pc = [] := by
  simp [onDecode, Bus.onRead_of_isPlain hp]

namespace Machine
variable {m m' : Machine} {f : Fault}

/-- What no fault changes. -/
structure Spared (m m' : Machine) : Prop where
  a : m'.registers.a = m.registers.a
  x : m'.registers.x = m.registers.x
  y : m'.registers.y = m.registers.y
  cycles : m'.cycles = m.cycles
  instructions : m'.instructions = m.instructions
  exitCode : m'.exitCode = m.exitCode
  interrupted : m'.interrupted = m.interrupted
  extents : m'.bus.extents = m.bus.extents

/-- The monitor has observed an instruction exactly once: it is one observation ahead, and the
journal has gained what that one let be seen, then the announcement of the instruction, then at most
complaints of ROMs. -/
structure ObservedOnce (m : Machine) (i : Instruction) (m' : Machine) : Prop where
  monitor : m'.monitor = m.monitor.map fun w => (w.observe (m.observation i)).1
  journal : ∃ ns : List Notice, (∀ n ∈ ns, n.isIgnoredWrite = true) ∧
    m'.journal = m.journal ++
      ((m.watch i ++ [Event.log (.executing i)] ++ ns.map Event.ofNotice).filter
        (·.passes m.logging)).toArray

/-- What a fault inside an instruction leaves behind. -/
structure StoppedIn (m : Machine) (i : Instruction) (m' : Machine) : Prop where
  observed : m.ObservedOnce i m'
  pc : m'.registers.pc = m.registers.pc + UInt16.ofNat i.length
  status : i.mnemonic ∉ [.rti, .brk] → m'.registers.status = m.registers.status
  stackPointer : i.mnemonic ∉ [.pla, .plx, .ply, .plp, .rts, .rti, .jsr, .brk] →
    m'.registers.sp = m.registers.sp
  memory : i.mnemonic ∉ [.jsr, .brk] → m'.bus = m.bus
  inPlace : i.mnemonic ∈ [.asl, .lsr, .rol, .ror, .inc, .dec, .trb, .tsb] →
    m'.registers.status = m.registers.status ∧ m'.bus = m.bus

theorem stoppedIn_of_within {i : Instruction} {c : Core} (hp : m.bus.isPlain = true)
    (hi : i.address = m.registers.pc)
    (h : (m.core.update fun r => { r with pc := i.next }).Within i.mnemonic.action.footprint c) :
    m.Spared ((m.ready i).settle c) ∧ m.StoppedIn i ((m.ready i).settle c) := by
  obtain ⟨ns, hns, hall⟩ := h.notices
  rw [settle_eq, ready]
  have hstatus (hk : i.mnemonic ∉ [.rti, .brk]) := h.status (Mnemonic.status_footprint hk)
  have hmemory (hk : i.mnemonic ∉ [.jsr, .brk]) := h.memory (Mnemonic.memory_footprint hk)
  refine ⟨⟨h.a, h.x, h.y, rfl, rfl, rfl, rfl, h.extents⟩, ⟨⟨rfl, ns, hall, ?_⟩, ?_, hstatus,
    fun hk => h.stackPointer (Mnemonic.stackPointer_footprint hk), hmemory, fun hk => ?_⟩⟩
  · rw [hns]
    simp only [preview, Instruction.onDecode_of_isPlain hp, core, Core.update, List.map_nil,
      List.nil_append, List.filter_append, Array.append_assoc, List.append_toArray]
  · rw [← hi]
    exact h.pc
  · have hk' : i.mnemonic ∉ [.rti, .brk] ∧ i.mnemonic ∉ [.jsr, .brk] := by
      revert hk
      cases i.mnemonic <;> decide
    exact ⟨hstatus hk'.1, hmemory hk'.2⟩

/-- A step that faults keeps the data registers, the counters and the layout of the bus. Where it
fails to decode it changes nothing at all, and the monitor does not learn of it. Where it fails to
carry out an instruction, the monitor has seen the instruction once, the program counter is past
it, and only the named mnemonics may have changed the flags, the stack pointer or memory. A byte that
can be read can be written back. -/
theorem step_fault_frame (hp : m.bus.isPlain = true) (h : m.step = .error f m') :
    m.Spared m' ∧
      (match Instruction.decode m.bus m.registers.pc with
        | .error _ => m' = m
        | .ok i => m.StoppedIn i m') ∧
      ∀ a v w, m.bus.read a = .ok v → m.bus.write a w = .ok (m.bus.put a w) := by
  refine and_assoc.1 ⟨?_, fun a v w hv => ?_⟩
  · obtain ⟨hd, rfl⟩ | ⟨i, t, c, hd, hx, -, rfl⟩ := step_error_cases h
    · rw [hd, Instruction.onDecode_of_isPlain hp]
      exact ⟨⟨rfl, rfl, rfl, rfl, rfl, rfl, rfl, rfl⟩, rfl⟩
    · rw [hd]
      exact stoppedIn_of_within hp (Instruction.address_of_decode hd)
        (Exec.of_wp_error (Exec.run_within hp i) hx)
  · rw [Bus.write, Bus.writeRefusal?_eq, if_pos (Bus.isMapped_of_read hv)]

/-- A call whose return address finds room for its high byte only. -/
def halfCall (top : Byte) (r : Registers) : Machine where
  registers := r
  bus := ⟨[⟨"code", 0x01FF, .ram #[top, 0x20, 0x00, 0x03], by simp [Backend.size],
    by simp [Backend.size]⟩]⟩

set_option maxRecDepth 2000 in
theorem step_halfCall :
    (halfCall 0 { pc := 0x0200, sp := 0xFF }).step =
      .error (.bus 0x0200 (some 0x20) (.unmapped 0x01FE))
        (halfCall 2 { pc := 0x0203, sp := 0xFE }) :=
  rfl

set_option maxRecDepth 2000 in
theorem step_fault_frame_halfCall :
    (halfCall 0 { pc := 0x0200, sp := 0xFF }).Spared (halfCall 2 { pc := 0x0203, sp := 0xFE }) ∧
      (halfCall 0 { pc := 0x0200, sp := 0xFF }).StoppedIn
        ⟨0x0200, ⟨0x20, .jsr, .absolute, 6⟩, .word 0x0300⟩
        (halfCall 2 { pc := 0x0203, sp := 0xFE }) := by
  obtain ⟨hspared, hstopped, -⟩ := step_fault_frame rfl step_halfCall
  exact ⟨hspared, hstopped⟩

end Machine
end Mos6502

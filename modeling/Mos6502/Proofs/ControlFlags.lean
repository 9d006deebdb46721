import Mos6502.Proofs.Abreast

/-! Four bits of the status have no say: decimal, interrupt disable, break and the one that stands for
nothing. Instructions look at the other four, the condition flags, and only two look at the status
as a whole, to push it. Two machines that agree but for the four bits stay so for as long as neither
of the two is carried out. -/
namespace Mos6502

/-- Whether branches and arithmetic depend on the flag. -/
def Flag.isCondition : Flag → Bool
  | .negative | .overflow | .zero | .carry => true
  | .unused | .brk | .decimal | .interruptDisable => false

/-- Two statuses with the same condition flags. -/
structure Status.SameConditions (s s' : Status) : Prop where
  negative : s.negative = s'.negative
  overflow : s.overflow = s'.overflow
  zero : s.zero = s'.zero
  carry : s.carry = s'.carry

/-- Two register files that hold the same but for the bits that are not condition flags. -/
structure Registers.SameData (r r' : Registers) : Prop where
  pc : r.pc = r'.pc
  a : r.a = r'.a
  x : r.x = r'.x
  y : r.y = r'.y
  sp : r.sp = r'.sp
  status : r.status.SameConditions r'.status

namespace Status.SameConditions
variable {s s' : Status}

theorem refl (s : Status) : s.SameConditions s := ⟨rfl, rfl, rfl, rfl⟩

theorem get (h : s.SameConditions s') {f : Flag} (hf : f.isCondition = true) :
    s.get f = s'.get f := by
  cases f with
  | negative => exact h.negative
  | overflow => exact h.overflow
  | zero => exact h.zero
  | carry => exact h.carry
  | _ => exact absurd hf Bool.noConfusion

theorem set (h : s.SameConditions s') (f : Flag) (on : Bool) :
    (s.set f on).SameConditions (s'.set f on) := by
  cases f with
  | negative => exact { h with negative := rfl }
  | overflow => exact { h with overflow := rfl }
  | zero => exact { h with zero := rfl }
  | carry => exact { h with carry := rfl }
  | _ => exact { h with }

theorem ofResult (h : s.SameConditions s') (v : Byte) :
    (s.ofResult v).SameConditions (s'.ofResult v) := { h with negative := rfl, zero := rfl }

end Status.SameConditions

namespace Registers.SameData
variable {r r' : Registers}

theorem get (h : r.SameData r') (d : DataRegister) : r.get d = r'.get d := by
  cases d with
  | a => exact h.a
  | x => exact h.x
  | y => exact h.y

theorem stackAddress (h : r.SameData r') : r.stackAddress = r'.stackAddress := by
  rw [Registers.stackAddress, Registers.stackAddress, h.sp]

theorem target (h : r.SameData r') (i : Instruction) : i.target r = i.target r' := by
  simp only [Instruction.target, h.pc, h.x, h.y]

theorem ofResult (h : r.SameData r') (v : Byte) : (r.ofResult v).SameData (r'.ofResult v) :=
  { h with status := h.status.ofResult v }

theorem set (h : r.SameData r') (d : DataRegister) (v : Byte) :
    (r.set d v).SameData (r'.set d v) := by
  cases d with
  | a => exact { h with a := rfl }
  | x => exact { h with x := rfl }
  | y => exact { h with y := rfl }

theorem load (h : r.SameData r') (d : DataRegister) (v : Byte) :
    (r.load d v).SameData (r'.load d v) := (h.set d v).ofResult v

theorem loadSum (h : r.SameData r') (result : Byte) (carry overflow : Bool) :
    (r.loadSum result carry overflow).SameData (r'.loadSum result carry overflow) :=
  { h with a := rfl, status := ⟨rfl, rfl, rfl, rfl⟩ }

theorem combine (h : r.SameData r') (o : Combination) (m : Byte) :
    (r.combine o m).SameData (r'.combine o m) := by
  cases o with
  | add | subtract =>
    simp only [Registers.combine, addWithCarry, subtractWithCarry, h.a, h.status.carry]
    exact h.loadSum _ _ _
  | conjoin | disjoin | exclude =>
    simp only [Registers.combine, h.a]
    exact h.load _ _

theorem compare (h : r.SameData r') (d : DataRegister) (m : Byte) :
    (r.compare d m).SameData (r'.compare d m) := by
  unfold Registers.compare
  rw [h.get]
  exact { h with status := { h.status with negative := rfl, zero := rfl, carry := rfl } }

theorem testZero (h : r.SameData r') (m : Byte) : (r.testZero m).SameData (r'.testZero m) := by
  have hzero : (r.a &&& m == 0) = (r'.a &&& m == 0) := by rw [h.a]
  exact { h with status := { h.status with zero := hzero } }

theorem copyTopBits (h : r.SameData r') (m : Byte) :
    (r.copyTopBits m).SameData (r'.copyTopBits m) :=
  { h with status := { h.status with negative := rfl, overflow := rfl } }

theorem setCarry (h : r.SameData r') (on : Bool) : (r.setCarry on).SameData (r'.setCarry on) :=
  { h with status := { h.status with carry := rfl } }

end Registers.SameData

/-- Two cores on the same bus that hold the same but for the bits that are not condition flags. -/
structure Core.SameData (c c' : Core) : Prop where
  registers : c.registers.SameData c'.registers
  bus : c.bus = c'.bus

def Action.readsConditions : Action → Bool
  | .branch flag _ => flag.isCondition
  | .pushStatus | .softwareInterrupt => false
  | _ => true

theorem Mnemonic.readsConditions_of_notMem {k : Mnemonic} (h : k ∉ [.php, .brk]) :
    k.action.readsConditions = true := by
  cases k <;> first | rfl | simp at h

namespace Exec
variable {α β : Type}

/-- What is done with the registers comes to the same if it does for any that hold the same data. -/
theorem parallel_registers {f g : Registers → Exec β}
    (hfg : ∀ r r', r.SameData r' → Parallel Core.SameData (f r) (g r')) :
    Parallel Core.SameData (registers >>= f) (registers >>= g) :=
  fun c c' h => hfg _ _ h.registers c c' h

theorem parallel_update {f g : Registers → Registers}
    (hfg : ∀ r r', r.SameData r' → (f r).SameData (g r')) :
    Parallel Core.SameData (update f) (update g) :=
  fun _ _ h => .ok () ⟨hfg _ _ h.registers, h.bus⟩

theorem parallel_readByte (a : Word) : Parallel Core.SameData (readByte a) (readByte a) := by
  intro c c' h
  rw [readByte, readByte, h.bus]
  cases c'.bus.read a with
  | ok v => exact .ok v ⟨h.registers, rfl⟩
  | error e => exact .error _ h

theorem parallel_writeByte (a : Word) (v : Byte) :
    Parallel Core.SameData (writeByte a v) (writeByte a v) := by
  intro c c' h
  rw [writeByte, writeByte, h.bus]
  cases c'.bus.writeRefusal? a with
  | some e => exact .error _ h
  | none => exact .ok () ⟨h.registers, rfl⟩

theorem parallel_readWord (a : Word) : Parallel Core.SameData (readWord a) (readWord a) :=
  parallel_bind (parallel_readByte a) fun _ => parallel_bind (parallel_readByte _) fun _ =>
    parallel_pure _

theorem parallel_push (v : Byte) : Parallel Core.SameData (push v) (push v) := by
  refine parallel_registers fun r r' h => ?_
  rw [h.stackAddress]
  exact parallel_bind (parallel_writeByte _ v) fun _ =>
    parallel_update fun r r' h => { h with sp := by rw [h.sp] }

theorem parallel_pull : Parallel Core.SameData pull pull := by
  refine parallel_bind (parallel_update fun r r' h => { h with sp := by rw [h.sp] }) fun _ => ?_
  refine parallel_registers fun r r' h => ?_
  rw [h.stackAddress]
  exact parallel_readByte _

theorem parallel_pushWord (w : Word) : Parallel Core.SameData (pushWord w) (pushWord w) :=
  parallel_bind (parallel_push _) fun _ => parallel_push _

theorem parallel_pullWord : Parallel Core.SameData pullWord pullWord :=
  parallel_bind parallel_pull fun _ => parallel_bind parallel_pull fun _ => parallel_pure _

theorem parallel_resolve (t : Target) : Parallel Core.SameData (resolve t) (resolve t) := by
  cases t with
  | direct a => exact parallel_pure a
  | indirect pointer index =>
    exact parallel_bind (parallel_readWord pointer) fun _ => parallel_pure _
  | outsideZeroPage pointer => exact parallel_trap _
  | absent => exact parallel_trap _

theorem parallel_effectiveAddress (i : Instruction) :
    Parallel Core.SameData (effectiveAddress i) (effectiveAddress i) := by
  refine parallel_registers fun r r' h => ?_
  rw [h.target]
  exact parallel_resolve _

theorem parallel_operand (i : Instruction) : Parallel Core.SameData (operand i) (operand i) := by
  unfold operand
  split
  · exact parallel_pure _
  · refine parallel_registers fun r r' h => ?_
    rw [h.a]
    exact parallel_pure _
  · exact parallel_bind (parallel_effectiveAddress i) fun _ => parallel_readByte _

theorem parallel_store (i : Instruction) {value : Registers → Byte}
    (hvalue : ∀ r r', r.SameData r' → value r = value r') :
    Parallel Core.SameData (store i value) (store i value) := by
  refine parallel_bind (parallel_effectiveAddress i) fun _ => parallel_registers fun r r' h => ?_
  rw [hvalue r r' h]
  exact parallel_writeByte _ _

theorem parallel_maskBits (i : Instruction) (set : Bool) :
    Parallel Core.SameData (maskBits i set) (maskBits i set) := by
  refine parallel_bind (parallel_effectiveAddress i) fun _ =>
    parallel_bind (parallel_readByte _) fun v =>
      parallel_bind (parallel_update fun r r' h => h.testZero v) fun _ =>
        parallel_registers fun r r' h => ?_
  rw [h.a]
  exact parallel_writeByte _ _

theorem parallel_modifyByte (i : Instruction) (k : Change) :
    Parallel Core.SameData (modifyByte i k) (modifyByte i k) := by
  refine parallel_registers fun r r' h => ?_
  rw [h.status.carry]
  split
  · refine parallel_bind (parallel_update fun r r' h => ?_) fun _ => parallel_update fun r r' h => ?_
    · rw [h.a, h.status.carry]
      exact { h with a := rfl, status := { h.status with carry := rfl } }
    · rw [h.a]
      exact h.ofResult _
  · exact parallel_bind (parallel_effectiveAddress i) fun _ =>
      parallel_bind (parallel_readByte _) fun _ =>
        parallel_bind (parallel_update fun r r' h => h.setCarry _) fun _ =>
          parallel_bind (parallel_writeByte _ _) fun _ =>
            parallel_update fun r r' h => h.ofResult _

theorem parallel_jump (i : Instruction) : Parallel Core.SameData (jump i) (jump i) :=
  parallel_bind (parallel_effectiveAddress i) fun _ =>
    parallel_update fun _ _ h => { h with pc := rfl }

theorem parallel_act (i : Instruction) {a : Action} (ha : a.readsConditions = true) :
    Parallel Core.SameData (act i a) (act i a) := by
  cases a with
  | load d =>
    exact parallel_bind (parallel_operand i) fun v => parallel_update fun r r' h => h.load d v
  | combine o =>
    exact parallel_bind (parallel_operand i) fun v => parallel_update fun r r' h => h.combine o v
  | compare d =>
    exact parallel_bind (parallel_operand i) fun v => parallel_update fun r r' h => h.compare d v
  | testBits =>
    refine parallel_bind (parallel_operand i) fun v =>
      parallel_bind (parallel_update fun r r' h => h.testZero v) fun _ => ?_
    split
    · exact parallel_update fun r r' h => h.copyTopBits v
    · exact parallel_pure _
  | store d => exact parallel_store i fun r r' h => h.get d
  | storeZero => exact parallel_store i fun _ _ _ => rfl
  | mask set => exact parallel_maskBits i set
  | modify k => exact parallel_modifyByte i k
  | count d k =>
    simp only [act]
    refine parallel_update fun r r' h => ?_
    rw [h.status.carry, h.get]
    exact h.load d _
  | branch flag expected =>
    refine parallel_registers fun r r' h => ?_
    rw [h.status.get ha]
    split
    · exact parallel_jump i
    · exact parallel_pure _
  | branchAlways | jump => exact parallel_jump i
  | call =>
    refine parallel_registers fun r r' h => ?_
    rw [h.pc]
    exact parallel_bind (parallel_pushWord _) fun _ =>
      parallel_update fun _ _ h => { h with pc := rfl }
  | leave =>
    exact parallel_bind parallel_pullWord fun _ =>
      parallel_update fun _ _ h => { h with pc := rfl }
  | leaveInterrupt =>
    exact parallel_bind parallel_pull fun _ =>
      parallel_bind (parallel_update fun r r' h => { h with status := .refl _ }) fun _ =>
        parallel_bind parallel_pullWord fun _ =>
          parallel_update fun _ _ h => { h with pc := rfl }
  | push d =>
    refine parallel_registers fun r r' h => ?_
    rw [h.get]
    exact parallel_push _
  | pull d =>
    exact parallel_bind parallel_pull fun v => parallel_update fun r r' h => h.load d v
  | pullStatus =>
    exact parallel_bind parallel_pull fun _ =>
      parallel_update fun r r' h => { h with status := .refl _ }
  | transfer source target =>
    simp only [act]
    refine parallel_update fun r r' h => ?_
    rw [h.get]
    exact h.load target _
  | readStackPointer =>
    simp only [act]
    refine parallel_update fun r r' h => ?_
    rw [h.sp]
    exact h.load .x _
  | setStackPointer =>
    simp only [act]
    exact parallel_update fun _ _ h => { h with sp := h.x }
  | assign flag value =>
    simp only [act]
    exact parallel_update fun _ _ h => { h with status := h.status.set flag value }
  | idle | halt => exact parallel_pure _
  | pushStatus | softwareInterrupt => exact absurd ha Bool.noConfusion

theorem parallel_run {i : Instruction} (hi : i.mnemonic ∉ [.php, .brk]) :
    Parallel Core.SameData (run i) (run i) :=
  parallel_bind (parallel_update fun _ _ h => { h with pc := rfl }) fun _ =>
    parallel_act i (Mnemonic.readsConditions_of_notMem hi)

end Exec

structure Machine.SameData (m m' : Machine) : Prop where
  registers : m.registers.SameData m'.registers
  bus : m.bus = m'.bus
  cycles : m.cycles = m'.cycles
  instructions : m.instructions = m'.instructions
  exitCode : m.exitCode = m'.exitCode

namespace Machine
variable {m m' : Machine}

def savesStatus (m : Machine) : Bool :=
  match Instruction.decode m.bus m.registers.pc with
  | .ok i => i.mnemonic ∈ [.php, .brk]
  | .error _ => false

def afterSteps (m : Machine) (n : Nat) : Machine := (serveAll answer m (List.replicate n .step)).2

namespace SameData

theorem finish (h : m.SameData m') (i : Instruction) {c c' : Core} (hc : c.SameData c') :
    (m.finish i c).SameData (m'.finish i c') := by
  obtain ⟨_, _, hm⟩ := m.finish_eq i c
  obtain ⟨_, _, hm'⟩ := m'.finish_eq i c'
  rw [hm, hm']
  exact {
    registers := hc.registers
    bus := hc.bus
    cycles := congrArg (· + i.cycles) h.cycles
    instructions := congrArg (· + 1) h.instructions
    exitCode := by simp only [hc.registers.x, h.exitCode] }

/-- A step that does not push the status. -/
theorem step (h : m.SameData m') (hm : m.savesStatus = false) : EndsAlike SameData m.step m'.step := by
  rw [step_eq, step_eq, ← h.bus, ← h.registers.pc]
  unfold savesStatus at hm
  cases hd : Instruction.decode m.bus m.registers.pc with
  | error f =>
    simp only [emitBus_eq]
    exact .error f { h with }
  | ok i =>
    have hi : i.mnemonic ∉ [.php, .brk] := by simpa [hd] using hm
    have hends := Exec.parallel_run hi m.core m'.core ⟨h.registers, h.bus⟩
    dsimp only
    generalize Exec.run i m.core = r, Exec.run i m'.core = r' at hends
    cases hends with
    | ok _ hc => exact .ok _ (h.finish i hc)
    | error t hc =>
      simp only [settle_eq, ready]
      exact .error _ { h with registers := hc.registers, bus := hc.bus }

end SameData

/-- Decimal, interrupt disable, break and the bit that stands for nothing have no part in what a
program does, as long as it does not push the status: two machines that differ in them at most go
the same way, step by step and past every fault, with the same cycles or faults, and after each
step again differ in them at most. -/
theorem control_flags_unobservable (h : m.SameData m') (n : Nat)
    (hquiet : ∀ k < n, (m.afterSteps k).savesStatus = false) :
    (serveAll answer m (List.replicate n .step)).1 =
        (serveAll answer m' (List.replicate n .step)).1 ∧
      ∀ k ≤ n, (m.afterSteps k).SameData (m'.afterSteps k) := by
  induction n generalizing m m' with
  | zero =>
    refine ⟨rfl, fun k hk => ?_⟩
    obtain rfl := Nat.le_zero.1 hk
    exact h
  | succ n ih =>
    obtain ⟨hreply, hnext⟩ := (h.step (hquiet 0 n.succ_pos)).reply .cycles .faulted
    obtain ⟨hreplies, hall⟩ := ih hnext fun k hk => hquiet (k + 1) (Nat.succ_lt_succ hk)
    refine ⟨by simp only [List.replicate_succ, serveAll, answer, hreply, hreplies], fun k hk => ?_⟩
    cases k with
    | zero => exact h
    | succ k => exact hall k (Nat.le_of_succ_le_succ hk)

/-- A program that adds two bytes, each of two digits, saves the sum, and takes flags off the
stack. -/
def adding (status : Status) : Machine where
  registers := { pc := 0x0200, a := 0x27, sp := 0xFF, status }
  bus := ⟨[⟨"all", 0x01FF, .ram #[0x00, 0x69, 0x15, 0x48, 0x28], by simp [Backend.size],
    by simp [Backend.size]⟩]⟩

def idleBits : Status := { decimal := true, interruptDisable := true, brk := true, unused := true }

theorem sameData_adding : (adding {}).SameData (adding idleBits) :=
  ⟨⟨rfl, rfl, rfl, rfl, rfl, ⟨rfl, rfl, rfl, rfl⟩⟩, rfl, rfl, rfl, rfl⟩

set_option maxRecDepth 2000 in
theorem savesStatus_adding : ∀ k < 3, ((adding {}).afterSteps k).savesStatus = false := by
  decide

set_option maxRecDepth 2000 in
/-- The digits do not carry, whatever the decimal flag says. -/
theorem control_flags_unobservable_adding :
    (adding {}).SameData (adding idleBits) ∧
      (∀ k < 3, ((adding {}).afterSteps k).savesStatus = false) ∧
      ((adding idleBits).afterSteps 3).registers.a = 0x3C := by
  obtain ⟨-, hall⟩ := control_flags_unobservable sameData_adding 3 savesStatus_adding
  have ha : ((adding {}).afterSteps 3).registers.a = 0x3C := rfl
  exact ⟨sameData_adding, savesStatus_adding, (hall 3 (Nat.le_refl 3)).registers.a.symm.trans ha⟩

end Machine
end Mos6502

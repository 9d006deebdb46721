import Mos6502.Proofs.Effects
import Mos6502.Proofs.Subroutine

/-! What no instruction changes. Each mnemonic names the registers it writes and the flags that
follow its result; a step that succeeds leaves everything else in the register file as it was. Zero
and negative tell of the same byte wherever both are set. -/
namespace Mos6502

namespace Mnemonic

def redirects : Mnemonic → Bool
  | .bcc | .bcs | .beq | .bmi | .bne | .bpl | .bra | .bvc | .bvs | .jmp | .jsr | .rts | .brk
  | .rti => true
  | _ => false

def movesStackPointer : Mnemonic → Bool
  | .pha | .phx | .phy | .php | .pla | .plx | .ply | .plp | .jsr | .rts | .brk | .rti | .txs => true
  | _ => false

/-- Whether a mnemonic puts another byte in the place of its operand, which is the accumulator or in
memory. -/
def changesInPlace : Mnemonic → Bool
  | .asl | .lsr | .rol | .ror | .inc | .dec => true
  | _ => false

/-- The data register that a mnemonic writes. What changes a byte in place writes the accumulator
only where that is its operand. -/
def destination? (k : Mnemonic) (mode : AddressingMode) : Option DataRegister :=
  match k with
  | .lda | .adc | .sbc | .and | .ora | .eor | .pla | .txa | .tya => some .a
  | .ldx | .inx | .dex | .tax | .tsx | .plx => some .x
  | .ldy | .iny | .dey | .tay | .ply => some .y
  | .asl | .lsr | .rol | .ror | .inc | .dec => if mode = .accumulator then some .a else none
  | _ => none

def compared? : Mnemonic → Option DataRegister
  | .cmp => some .a
  | .cpx => some .x
  | .cpy => some .y
  | _ => none

/-- The flags that a mnemonic may change. -/
def flags (k : Mnemonic) (mode : AddressingMode) : List Flag :=
  match k with
  | .lda | .ldx | .ldy | .and | .ora | .eor | .tax | .tay | .txa | .tya | .tsx | .pla | .plx | .ply
  | .inc | .dec | .inx | .iny | .dex | .dey => [.negative, .zero]
  | .asl | .lsr | .rol | .ror | .cmp | .cpx | .cpy => [.negative, .zero, .carry]
  | .adc | .sbc => [.negative, .overflow, .zero, .carry]
  | .bit => if mode = .immediate then [.zero] else [.negative, .overflow, .zero]
  | .trb | .tsb => [.zero]
  | .clc | .sec => [.carry]
  | .cli | .sei | .brk => [.interruptDisable]
  | .cld | .sed => [.decimal]
  | .clv => [.overflow]
  | .plp | .rti => [.negative, .overflow, .unused, .brk, .decimal, .interruptDisable, .zero, .carry]
  | _ => []

end Mnemonic

namespace Action

def destination? (a : Action) (mode : AddressingMode) : Option DataRegister :=
  match a with
  | .load d | .pull d | .transfer _ d | .count d _ => some d
  | .combine _ => some .a
  | .readStackPointer => some .x
  | .modify _ => if mode = .accumulator then some .a else none
  | _ => none

def flags (a : Action) (mode : AddressingMode) : List Flag :=
  match a with
  | .load _ | .pull _ | .transfer _ _ | .count _ _ | .readStackPointer
  | .modify .increment | .modify .decrement | .combine .conjoin | .combine .disjoin
  | .combine .exclude => [.negative, .zero]
  | .modify _ | .compare _ => [.negative, .zero, .carry]
  | .combine _ => [.negative, .overflow, .zero, .carry]
  | .testBits => if mode = .immediate then [.zero] else [.negative, .overflow, .zero]
  | .mask _ => [.zero]
  | .assign flag _ => [flag]
  | .softwareInterrupt => [.interruptDisable]
  | .pullStatus | .leaveInterrupt =>
    [.negative, .overflow, .unused, .brk, .decimal, .interruptDisable, .zero, .carry]
  | _ => []

end Action

section
variable (k : Mnemonic) (mode : AddressingMode)

theorem Mnemonic.redirects_action : k.action.redirects = k.redirects := by
  cases k <;> rfl

theorem Mnemonic.destination?_action : k.action.destination? mode = k.destination? mode := by
  cases k <;> rfl

theorem Mnemonic.flags_action : k.action.flags mode = k.flags mode := by
  cases k <;> rfl

theorem Mnemonic.action_eq_halt_iff : k.action = .halt ↔ k = .halt := by
  cases k <;> simp [action]

variable {k}

theorem Mnemonic.of_not_movesStackPointer (h : k.movesStackPointer = false) :
    k ≠ .txs ∧ k.stackGrowth = 0 := by
  cases k <;> first | exact absurd h Bool.noConfusion | exact ⟨Mnemonic.noConfusion, rfl⟩

theorem Mnemonic.exists_change (h : k.changesInPlace = true) :
    ∃ c : Change, k.action = .modify c ∧
      ∀ r, k.replacement? r = some (c.result r.status.carry) := by
  simp only [Change.result_eq_shifted]
  cases k <;> first | exact absurd h Bool.noConfusion | exact ⟨_, rfl, fun _ => rfl⟩

theorem Mnemonic.changesInPlace_of_modifies (h : k.action.modifies = true) :
    k.changesInPlace = true := by
  cases k <;> first | rfl | exact absurd h Bool.noConfusion

theorem Mnemonic.action_of_compared? {d : DataRegister} (h : k.compared? = some d) :
    k.action = .compare d := by
  cases k <;> simp_all [compared?, action]

theorem Mnemonic.result_cases {mode : AddressingMode} (hk : k ∉ [.bit, .plp, .rti])
    (hn : .negative ∈ k.flags mode) :
    (∃ d, k.destination? mode = some d) ∨ (∃ d, k.compared? = some d) ∨
      k.changesInPlace = true ∧ mode ≠ .accumulator := by
  by_cases hacc : mode = .accumulator <;>
    cases k <;> simp_all [flags, destination?, compared?, changesInPlace]

end

structure Status.Tells (s : Status) (v : Byte) : Prop where
  zero : s.zero = true ↔ v = 0
  negative : s.negative = v.toNat.testBit 7

theorem Status.tells_ofResult (s : Status) (v : Byte) : (s.ofResult v).Tells v :=
  ⟨beq_iff_eq, v.isNegative_eq_testBit⟩

theorem Registers.tells_load (r : Registers) (d : DataRegister) (v : Byte) :
    (r.load d v).status.Tells ((r.load d v).get d) := by
  cases d <;> exact Status.tells_ofResult _ v

namespace Action
variable {a : Action} {mode : AddressingMode} {r : Registers} {v : Byte}

/-- An action writes no data register but its destination. -/
theorem get_effect {d : DataRegister} (hd : a.destination? mode ≠ some d) :
    (a.effect mode r v).get d = r.get d := by
  cases a with
  | load e | pull e | transfer _ e | count e _ =>
    cases e <;> cases d <;> first | rfl | exact absurd rfl hd
  | combine o => cases o <;> cases d <;> first | rfl | exact absurd rfl hd
  | readStackPointer => cases d <;> first | rfl | exact absurd rfl hd
  | modify k =>
    simp only [effect, destination?] at hd ⊢
    split
    · rename_i hacc
      rw [if_pos hacc] at hd
      cases d <;> first | rfl | exact absurd rfl hd
    · cases d <;> rfl
  | testBits =>
    simp only [effect]
    split <;> cases d <;> rfl
  | _ => cases d <;> rfl

theorem status_effect {f : Flag} (hf : f ∉ a.flags mode) :
    (a.effect mode r v).status.get f = r.status.get f := by
  cases a with
  | load d | pull d | transfer _ d | count d _ =>
    cases d <;> cases f <;> first | rfl | exact absurd (by simp [flags]) hf
  | combine o => cases o <;> cases f <;> first | rfl | exact absurd (by simp [flags]) hf
  | assign g on => exact Status.get_set_of_ne _ (by simpa [flags] using hf) on
  | modify k =>
    simp only [effect]
    split <;> cases k <;> cases f <;> first | rfl | exact absurd (by simp [flags]) hf
  | testBits =>
    simp only [effect, flags] at hf ⊢
    split
    · rename_i himm
      rw [if_pos himm] at hf
      cases f <;> first | rfl | exact absurd (by simp) hf
    · rename_i himm
      rw [if_neg himm] at hf
      cases f <;> first | rfl | exact absurd (by simp) hf
  | _ => cases f <;> first | rfl | exact absurd (by simp [flags]) hf

theorem tells_effect {d : DataRegister} (hd : a.destination? mode = some d) :
    (a.effect mode r v).status.Tells ((a.effect mode r v).get d) := by
  cases a with
  | load e | transfer _ e | count e _ =>
    obtain rfl := Option.some.inj hd
    exact r.tells_load e _
  | pull e =>
    obtain rfl := Option.some.inj hd
    exact Registers.tells_load _ e _
  | readStackPointer =>
    obtain rfl := Option.some.inj hd
    exact r.tells_load .x _
  | combine o =>
    obtain rfl := Option.some.inj hd
    cases o <;> exact Status.tells_ofResult _ _
  | modify k =>
    simp only [destination?] at hd
    split at hd
    · rename_i hacc
      obtain rfl := Option.some.inj hd
      simp only [effect, if_pos hacc]
      exact Status.tells_ofResult _ _
    · simp at hd
  | _ => simp [destination?] at hd

end Action

namespace Machine
variable {m m' : Machine} {i : Instruction}

/-- The byte that an instruction comes to: what it writes into its destination, what it puts in the
place of a byte in memory, or the difference of what it compares. -/
inductive Makes (m : Machine) (i : Instruction) (m' : Machine) : Byte → Prop
  | register {d : DataRegister} :
    i.mnemonic.destination? i.mode = some d → Makes m i m' (m'.registers.get d)
  | memory {a : Word} {v : Byte} :
    i.mnemonic.changesInPlace = true → i.stores m.registers m.bus = .ok [(a, v)] →
    m'.bus = m.bus.put a v → Makes m i m' v
  | difference {d : DataRegister} {v : Byte} :
    i.mnemonic.compared? = some d → i.operandValue m.registers m.bus = .ok v →
    Makes m i m' (m.registers.get d - v)

/-- What an instruction is documented to change, and nothing else. -/
structure ChangesOnly (m : Machine) (i : Instruction) (m' : Machine) : Prop where
  pc : i.mnemonic.redirects = false →
    m'.registers.pc = m.registers.pc + UInt16.ofNat i.length
  data : ∀ d, i.mnemonic.destination? i.mode ≠ some d → m'.registers.get d = m.registers.get d
  stackPointer : i.mnemonic.movesStackPointer = false → m'.registers.sp = m.registers.sp
  flags : ∀ f, f ∉ i.mnemonic.flags i.mode →
    m'.registers.status.get f = m.registers.status.get f
  result : i.mnemonic ∉ [.bit, .plp, .rti] → .negative ∈ i.mnemonic.flags i.mode →
    .zero ∈ i.mnemonic.flags i.mode →
    (∃ v, m.Makes i m' v) ∧ ∀ v, m.Makes i m' v → m'.registers.status.Tells v
  exitCode : i.mnemonic ≠ .halt → m'.exitCode = m.exitCode

theorem Does.tells (h : m.Does i m') {v : Byte} (hv : m.Makes i m' v) :
    m'.registers.status.Tells v := by
  obtain ⟨u, pc, hu, hr, -⟩ := h.registers_eq
  rw [hr, Instruction.effect]
  cases hv with
  | register hd =>
    rw [hr]
    exact Action.tells_effect (i.mnemonic.destination?_action i.mode ▸ hd)
  | memory hk hstores _ =>
    obtain ⟨c, hc, hf⟩ := Mnemonic.exists_change hk
    have hm : i.mode ≠ .accumulator := fun hm => by
      simp [Instruction.stores, hf, Instruction.replacing, hm] at hstores
    obtain ⟨a, w, ha, hw, hstores', -⟩ := h.exists_stored (hf m.registers) hm
    obtain ⟨rfl, rfl⟩ : _ = a ∧ v = _ := by simpa using hstores.symm.trans hstores'
    simp only [Instruction.input, hc, Action.input, Instruction.operandValue_of_read hm ha hw] at hu
    obtain rfl := Except.ok.inj hu
    simp only [hc, Action.effect, if_neg hm]
    exact Status.tells_ofResult _ _
  | difference hd hoperand =>
    have hk := Mnemonic.action_of_compared? hd
    simp only [Instruction.input, hk, Action.input] at hu
    obtain rfl := Except.ok.inj (hu.symm.trans hoperand)
    simp only [hk, Action.effect]
    exact Status.tells_ofResult _ _

theorem Does.exists_makes (h : m.Does i m') (hk : i.mnemonic ∉ [.bit, .plp, .rti])
    (hn : .negative ∈ i.mnemonic.flags i.mode) : ∃ v, m.Makes i m' v := by
  obtain ⟨d, hd⟩ | ⟨d, hd⟩ | ⟨hchanges, hm⟩ := Mnemonic.result_cases hk hn
  · exact ⟨_, .register hd⟩
  · obtain ⟨v, -, hv, -⟩ := h.registers_eq
    have hoperand : i.operandValue m.registers m.bus = .ok v := by
      simpa [Instruction.input, Mnemonic.action_of_compared? hd, Action.input] using hv
    exact ⟨_, .difference hd hoperand⟩
  · obtain ⟨c, -, hf⟩ := Mnemonic.exists_change hchanges
    obtain ⟨a, v, -, -, hstores, hbus⟩ := h.exists_stored (hf m.registers) hm
    exact ⟨_, .memory hchanges hstores hbus⟩

theorem Does.changesOnly (h : m.Does i m') : m.ChangesOnly i m' := by
  obtain ⟨v, pc, -, hr, hpc⟩ := h.registers_eq
  constructor
  case pc =>
    intro hk
    rw [hr, hpc (i.mnemonic.redirects_action.trans hk), Instruction.next,
      Instruction.address_of_decode h.decoded]
  case data =>
    intro d hd
    rw [hr]
    exact Action.get_effect (i.mnemonic.destination?_action i.mode ▸ hd)
  case stackPointer =>
    intro hk
    obtain ⟨htxs, hgrowth⟩ := Mnemonic.of_not_movesStackPointer hk
    rw [h.sp_eq htxs, hgrowth, Byte.sub_ofInt_zero]
  case flags =>
    intro f hf
    rw [hr]
    exact Action.status_effect (i.mnemonic.flags_action i.mode ▸ hf)
  case result => exact fun hk hn _ => ⟨h.exists_makes hk hn, fun _ => h.tells⟩
  case exitCode =>
    intro hk
    obtain ⟨j, c, hd, -, -, rfl⟩ := step_ok_cases h.stepped
    obtain rfl := Except.ok.inj (hd.symm.trans h.decoded)
    obtain ⟨channel, journal, hfinish⟩ := m.finish_eq j c
    rw [hfinish]
    exact if_neg (mt (Mnemonic.action_eq_halt_iff _).1 hk)

/-- A step that succeeds changes of the registers what its mnemonic is documented to change, and
nothing else. -/
theorem step_changes {n : Nat} (h : m.step = .ok n m') :
    ∃ i, m.Does i m' ∧ m.ChangesOnly i m' := by
  obtain ⟨i, hi⟩ := exists_does_of_step h
  exact ⟨i, hi, hi.changesOnly⟩

/-- A program that rotates a byte in memory, with the accumulator and two flags set that have
nothing to do with it. -/
def rotating (rotated : Byte) (pc : Word) (negative carry : Bool) (cycles instructions : Nat) :
    Machine where
  registers :=
    { pc, a := 5, sp := 0xFF, status := { negative, carry, overflow := true, zero := false } }
  cycles := cycles
  instructions := instructions
  bus := ⟨[⟨"all", 0x0000, .ram #[0x66, 0x02, rotated], by simp [Backend.size],
    by simp [Backend.size]⟩]⟩

set_option maxRecDepth 2000 in
theorem step_rotating :
    (rotating 0x01 0 false true 0 0).step = .ok 5 (rotating 0x80 2 true true 5 1) := rfl

set_option maxRecDepth 2000 in
theorem step_changes_rotating :
    ∃ i, i.mnemonic = .ror ∧
      (rotating 0x01 0 false true 0 0).ChangesOnly i (rotating 0x80 2 true true 5 1) ∧
      (rotating 0x01 0 false true 0 0).Makes i (rotating 0x80 2 true true 5 1) 0x80 ∧
      (rotating 0x80 2 true true 5 1).registers.status.Tells 0x80 := by
  obtain ⟨i, hi, hchanges⟩ := step_changes step_rotating
  obtain rfl : i = ⟨0, ⟨0x66, .ror, .zeroPage, 5⟩, .byte 2⟩ :=
    Except.ok.inj (hi.decoded.symm.trans rfl)
  have hmakes : (rotating 0x01 0 false true 0 0).Makes _ (rotating 0x80 2 true true 5 1) 0x80 :=
    .memory (i := ⟨0, ⟨0x66, .ror, .zeroPage, 5⟩, .byte 2⟩) rfl rfl rfl
  exact ⟨_, rfl, hchanges, hmakes, (hchanges.result (by decide) (by decide) (by decide)).2 _ hmakes⟩

end Machine
end Mos6502

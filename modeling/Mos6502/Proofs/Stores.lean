import Mos6502.Proofs.FaultTruth

/-! What a step puts into memory. Each instruction stores at most one byte at its effective address
and pushes at most three; these go to the stack page from the stack pointer down. Nothing else in
memory changes, and what is ROM stays as it is. -/
namespace Mos6502

theorem Byte.sub_ofNat_succ (s : Byte) (k : Nat) :
    s - UInt8.ofNat (k + 1) = s - 1 - UInt8.ofNat k := by
  rw [UInt8.ofNat_add]
  grind

theorem Byte.sub_ofNat_inj {s : Byte} {j k : Nat} (hj : j < 256) (hk : k < 256) :
    s - UInt8.ofNat j = s - UInt8.ofNat k ↔ j = k := by
  rw [UInt8.sub_right_inj, ← UInt8.toNat_inj, UInt8.toNat_ofNat_of_lt' hj,
    UInt8.toNat_ofNat_of_lt' hk]

def stackSlot (sp : Byte) : Word := 0x100 + sp.toUInt16

theorem toNat_stackSlot (sp : Byte) : (stackSlot sp).toNat = 256 + sp.toNat := by
  have h := sp.toNat_lt
  simp only [stackSlot, UInt16.toNat_add, UInt8.toNat_toUInt16]
  have hpage : (0x100 : Word).toNat = 256 := rfl
  omega

theorem stackSlot_inj {s t : Byte} : stackSlot s = stackSlot t ↔ s = t := by
  rw [← UInt16.toNat_inj, ← UInt8.toNat_inj, toNat_stackSlot, toNat_stackSlot]
  omega

/-- The stores of bytes that are pushed in turn, the first where the stack pointer points. -/
def stackStores (sp : Byte) : List Byte → List (Word × Byte)
  | [] => []
  | v :: rest => (stackSlot sp, v) :: stackStores (sp - 1) rest

namespace Bus

def putAll (bus : Bus) (stores : List (Word × Byte)) : Bus :=
  stores.foldl (fun bus store => bus.put store.1 store.2) bus

variable {bus : Bus}

@[simp] theorem putAll_nil (bus : Bus) : bus.putAll [] = bus := rfl

@[simp] theorem putAll_cons (bus : Bus) (a : Word) (v : Byte) (rest : List (Word × Byte)) :
    bus.putAll ((a, v) :: rest) = (bus.put a v).putAll rest := rfl

@[simp] theorem isPlain_putAll (bus : Bus) (stores : List (Word × Byte)) :
    (bus.putAll stores).isPlain = bus.isPlain := by
  induction stores generalizing bus with
  | nil => rfl
  | cons store rest ih => rw [putAll_cons, ih, isPlain_put]

@[simp] theorem isMapped_putAll (bus : Bus) (stores : List (Word × Byte)) (b : Word) :
    (bus.putAll stores).isMapped b = bus.isMapped b := by
  induction stores generalizing bus with
  | nil => rfl
  | cons store rest ih => rw [putAll_cons, ih, isMapped_put]

theorem cell_putAll_of_notMem (hp : bus.isPlain = true) {stores : List (Word × Byte)} {b : Word}
    (hb : b ∉ stores.map Prod.fst) : (bus.putAll stores).cell b = bus.cell b := by
  induction stores generalizing bus with
  | nil => rfl
  | cons store rest ih =>
    rw [List.map_cons, List.mem_cons, not_or] at hb
    rw [putAll_cons, ih (by simpa using hp) hb.2, cell_put hp, if_neg hb.1]

theorem cell_putAll_of_mem (hp : bus.isPlain = true) {stores : List (Word × Byte)}
    (hd : (stores.map Prod.fst).Nodup) {b : Word} {v : Byte} (hb : (b, v) ∈ stores) :
    (bus.putAll stores).cell b = (bus.cell b).write v := by
  induction stores generalizing bus with
  | nil => simp at hb
  | cons store rest ih =>
    obtain ⟨hfirst, hrest⟩ := List.nodup_cons.1 hd
    have hp' : (bus.put store.1 store.2).isPlain = true := by simpa using hp
    rw [putAll_cons]
    rcases List.mem_cons.1 hb with rfl | hb
    · rw [cell_putAll_of_notMem hp' hfirst, cell_put hp, if_pos rfl]
    · have hne : b ≠ store.1 := fun he => hfirst (he ▸ List.mem_map_of_mem hb)
      rw [ih hp' hrest hb, cell_put hp, if_neg hne]

end Bus

namespace Mnemonic

def replacement? (k : Mnemonic) (r : Registers) : Option (Byte → Byte) :=
  let carry : Byte := if r.status.carry then 1 else 0
  match k with
  | .sta => some fun _ => r.a
  | .stx => some fun _ => r.x
  | .sty => some fun _ => r.y
  | .stz => some fun _ => 0
  | .trb => some fun v => v &&& ~~~r.a
  | .tsb => some fun v => v ||| r.a
  | .asl => some fun v => v <<< 1
  | .lsr => some fun v => v >>> 1
  | .rol => some fun v => v <<< 1 ||| carry
  | .ror => some fun v => v >>> 1 ||| carry <<< 7
  | .inc => some fun v => v + 1
  | .dec => some fun v => v - 1
  | _ => none

def storesOperand : Mnemonic → Bool
  | .sta | .stx | .sty | .stz | .trb | .tsb | .asl | .lsr | .rol | .ror | .inc | .dec => true
  | _ => false

/-- The bytes that a mnemonic pushes, in order; the program counter is still at the instruction. A
call pushes the address of its own last byte, a software interrupt that of the byte behind its
padding. -/
def pushes (k : Mnemonic) (r : Registers) : List Byte :=
  match k with
  | .pha => [r.a]
  | .phx => [r.x]
  | .phy => [r.y]
  | .php => [r.status.pushed]
  | .jsr => [(r.pc + 2).high, (r.pc + 2).low]
  | .brk => [(r.pc + 2).high, (r.pc + 2).low, r.status.pushed]
  | _ => []

end Mnemonic

namespace Instruction

/-- The store of an instruction that puts `f v` in the place of the byte `v` at its effective
address. The accumulator is not in memory. -/
def replacing (i : Instruction) (r : Registers) (bus : Bus) (f : Byte → Byte) :
    Except Trap (List (Word × Byte)) :=
  if i.mode = .accumulator then .ok []
  else
    match i.effectiveAddress r bus with
    | .error t => .error t
    | .ok a =>
      match bus.read a with
      | .error e => .error (.bus e)
      | .ok v => .ok [(a, f v)]

/-- All that an instruction puts into memory, each byte with its address, computed from the
registers that it finds. -/
def stores (i : Instruction) (r : Registers) (bus : Bus) : Except Trap (List (Word × Byte)) :=
  match i.mnemonic.replacement? r with
  | some f => i.replacing r bus f
  | none => .ok (stackStores r.sp (i.mnemonic.pushes r))

theorem effectiveAddress_pc {i : Instruction} (hm : i.mode ≠ .relative) (r : Registers) (pc : Word)
    (bus : Bus) : i.effectiveAddress { r with pc } bus = i.effectiveAddress r bus := by
  unfold effectiveAddress target
  cases h : i.mode <;> simp_all

end Instruction

def Action.branches : Action → Bool
  | .branch _ _ | .branchAlways => true
  | _ => false

def Action.modifies : Action → Bool
  | .modify _ => true
  | _ => false

theorem Opcode.action_of_mem {o : Opcode} (h : o ∈ table) :
    (o.mode = .relative → o.mnemonic.action.branches = true) ∧
      (o.mode = .accumulator → o.mnemonic.action.modifies = true) := by
  revert o
  decide +kernel

theorem Mnemonic.branches_of_replacement? {k : Mnemonic} {r : Registers} {f : Byte → Byte}
    (h : k.replacement? r = some f) : k.action.branches = false := by
  cases k <;> first | rfl | simp [replacement?] at h

theorem Mnemonic.storesOperand_of_replacement? {k : Mnemonic} {r : Registers} {f : Byte → Byte}
    (h : k.replacement? r = some f) : k.storesOperand = true := by
  cases k <;> first | rfl | simp [replacement?] at h

theorem Opcode.length_of_mem {o : Opcode} (h : o ∈ table) :
    (o.mnemonic = .jsr → o.length = 3) ∧ (o.mnemonic = .brk → o.length = 1) := by
  revert o
  decide +kernel

namespace Change

def shifted (k : Change) (carry : Bool) (v : Byte) : Byte :=
  match k with
  | .shiftLeft => v <<< 1
  | .shiftRight => v >>> 1
  | .rotateLeft => v <<< 1 ||| (if carry then 1 else 0)
  | .rotateRight => v >>> 1 ||| (if carry then (1 : Byte) else 0) <<< 7
  | .increment => v + 1
  | .decrement => v - 1

theorem result_eq_shifted (k : Change) (carry : Bool) : k.result carry = k.shifted carry := by
  refine funext (Byte.forall_of_fin ?_)
  cases k <;> cases carry <;> decide +kernel

end Change

/-- Whether an action puts nothing into memory. -/
def Action.isSilent : Action → Bool
  | .store _ | .storeZero | .mask _ | .modify _ | .push _ | .pushStatus | .call
  | .softwareInterrupt => false
  | _ => true

namespace Exec
variable {c : Core} {i : Instruction}

/-- Where an action succeeds, the bytes to store are known and are put into memory. -/
def Puts (c : Core) (x : Exec Unit) (stores : Except Trap (List (Word × Byte))) : Prop :=
  wp x (fun _ c' => ∃ written, stores = .ok written ∧ c'.bus = c.bus.putAll written)
    (fun _ _ => True) c

theorem puts_store (hm : i.mode ≠ .accumulator) (value : Registers → Byte) :
    Puts c (store i value) (i.replacing c.registers c.bus fun _ => value c.registers) := by
  simp only [Puts, store, wp_bind, wp_effectiveAddress, wp_registers, wp_writeByte,
    implies_true, and_true]
  intro a ha hmapped
  obtain ⟨v, hv⟩ := Bus.read_of_isMapped hmapped
  exact ⟨[(a, value c.registers)], by simp_all [Instruction.replacing], rfl⟩

theorem puts_maskBits (hm : i.mode ≠ .accumulator) (set : Bool) :
    Puts c (maskBits i set) (i.replacing c.registers c.bus fun v =>
      if set then v ||| c.registers.a else v &&& ~~~c.registers.a) := by
  simp only [Puts, maskBits, wp_bind, wp_effectiveAddress, wp_registers, wp_readByte, wp_update,
    wp_writeByte, implies_true, and_true]
  intro a ha v hv _
  exact ⟨[(a, if set then v ||| c.registers.a else v &&& ~~~c.registers.a)],
    by simp_all [Instruction.replacing], rfl⟩

theorem puts_modifyByte (k : Change) :
    Puts c (modifyByte i k)
      (i.replacing c.registers c.bus (k.shifted c.registers.status.carry)) := by
  rw [← Change.result_eq_shifted]
  simp only [Puts, modifyByte, wp_bind, wp_ite, wp_effectiveAddress, wp_registers, wp_readByte,
    wp_update, wp_writeByte, implies_true, and_true]
  split
  · rename_i hm
    exact ⟨[], by simp [Instruction.replacing, hm], rfl⟩
  · intro a ha v hv _
    exact ⟨[(a, k.result c.registers.status.carry v)], by simp_all [Instruction.replacing], rfl⟩

theorem puts_push (v : Byte) : Puts c (push v) (.ok (stackStores c.registers.sp [v])) := by
  simp only [Puts, wp_push, implies_true, and_true]
  exact fun _ => ⟨_, rfl, rfl⟩

theorem puts_pushRegister (r : DataRegister) :
    Puts c (act i (.push r)) (.ok (stackStores c.registers.sp [c.registers.get r])) := by
  simp only [Puts, act, wp_bind, wp_registers]
  exact puts_push _

theorem puts_pushStatus :
    Puts c (act i .pushStatus) (.ok (stackStores c.registers.sp [c.registers.status.pushed])) := by
  simp only [Puts, act, wp_bind, wp_registers]
  exact puts_push _

theorem puts_call : Puts c (act i .call)
    (.ok (stackStores c.registers.sp
      [(c.registers.pc - 1).high, (c.registers.pc - 1).low])) := by
  simp only [Puts, act, wp_bind, wp_registers, wp_pushWord, wp_push, wp_update, implies_true,
    and_true]
  exact fun _ _ => ⟨_, rfl, rfl⟩

theorem puts_softwareInterrupt : Puts c (act i .softwareInterrupt)
    (.ok (stackStores c.registers.sp
      [(c.registers.pc + 1).high, (c.registers.pc + 1).low, c.registers.status.pushed])) := by
  simp only [Puts, act, softwareInterrupt, wp_bind, wp_registers, wp_pushWord, wp_push, wp_update,
    wp_readWord, wp_notice, implies_true, and_true]
  exact fun _ _ _ _ _ => ⟨_, rfl, rfl⟩

theorem puts_silent {a : Action} (ha : a.isSilent = true) : Puts c (act i a) (.ok []) := by
  unfold Puts
  cases a <;> simp_all [act, jump, Action.isSilent]

/-- Carrying out an instruction puts the bytes of `Instruction.stores` into memory. -/
theorem puts_run (ho : i.opcode ∈ Opcode.table) (hi : i.address = c.registers.pc) :
    Puts c (run i) (i.stores c.registers c.bus) := by
  obtain ⟨hcall, hinterrupt⟩ := Opcode.length_of_mem ho
  obtain ⟨hrelative, haccumulator⟩ := Opcode.action_of_mem ho
  generalize hd : (c.update fun r => { r with pc := i.next }) = d
  have hrun {stores : Except Trap (List (Word × Byte))}
      (h : Puts d (act i i.mnemonic.action) stores) : Puts c (run i) stores := by
    subst hd
    simp only [Puts, run, wp_bind, wp_update] at h ⊢
    exact h
  have hreplace {f : Byte → Byte} (hf : i.mnemonic.replacement? c.registers = some f)
      (h : Puts d (act i i.mnemonic.action) (i.replacing d.registers d.bus f)) :
      Puts c (run i) (i.stores c.registers c.bus) := by
    have hm : i.mode ≠ .relative := fun hr =>
      Bool.false_ne_true ((Mnemonic.branches_of_replacement? hf).symm.trans (hrelative hr))
    simp only [Instruction.stores, hf]
    refine hrun ?_
    subst hd
    simpa only [Instruction.replacing, Core.registers_update, Core.bus_update,
      Instruction.effectiveAddress_pc hm] using h
  have hpush (hf : i.mnemonic.replacement? c.registers = none)
      (h : Puts d (act i i.mnemonic.action)
        (.ok (stackStores c.registers.sp (i.mnemonic.pushes c.registers)))) :
      Puts c (run i) (i.stores c.registers c.bus) := by
    simp only [Instruction.stores, hf]
    exact hrun h
  have hstored (hk : i.mnemonic.action.modifies = false) : i.mode ≠ .accumulator := fun hm =>
    Bool.false_ne_true (hk.symm.trans (haccumulator hm))
  subst hd
  cases hk : i.mnemonic with
  | sta | stx | sty | stz =>
    have hm := hstored (by rw [hk]; rfl)
    refine hreplace (by rw [hk]; rfl) ?_
    rw [hk]
    exact puts_store hm _
  | trb | tsb =>
    have hm := hstored (by rw [hk]; rfl)
    refine hreplace (by rw [hk]; rfl) ?_
    rw [hk]
    exact puts_maskBits hm _
  | asl | lsr | rol | ror | inc | dec =>
    refine hreplace (by rw [hk]; rfl) ?_
    rw [hk]
    exact puts_modifyByte _
  | pha | phx | phy =>
    refine hpush (by rw [hk]; rfl) ?_
    rw [hk]
    exact puts_pushRegister _
  | php =>
    refine hpush (by rw [hk]; rfl) ?_
    rw [hk]
    exact puts_pushStatus
  | jsr =>
    refine hpush (by rw [hk]; rfl) ?_
    have hback : c.registers.pc + 2 = i.next - 1 := by
      rw [Instruction.next, hi, Instruction.length, hcall hk]
      grind
    rw [hk, Mnemonic.pushes, hback]
    exact puts_call
  | brk =>
    refine hpush (by rw [hk]; rfl) ?_
    have hback : c.registers.pc + 2 = i.next + 1 := by
      rw [Instruction.next, hi, Instruction.length, hinterrupt hk]
      grind
    rw [hk, Mnemonic.pushes, hback]
    exact puts_softwareInterrupt
  | _ =>
    refine hpush (by rw [hk]; rfl) ?_
    rw [hk]
    exact puts_silent rfl

end Exec

theorem exists_of_mem_stackStores (sp : Byte) (vs : List Byte) {a : Word}
    (h : a ∈ (stackStores sp vs).map Prod.fst) :
    ∃ k < vs.length, a = stackSlot (sp - UInt8.ofNat k) := by
  induction vs generalizing sp with
  | nil => simp [stackStores] at h
  | cons v rest ih =>
    rw [stackStores, List.map_cons, List.mem_cons] at h
    obtain rfl | h := h
    · exact ⟨0, by simp, by simp⟩
    · obtain ⟨k, hk, rfl⟩ := ih (sp - 1) h
      exact ⟨k + 1, by simpa using hk, by rw [Byte.sub_ofNat_succ]⟩

theorem nodup_stackStores (sp : Byte) {vs : List Byte} (hlen : vs.length ≤ 256) :
    ((stackStores sp vs).map Prod.fst).Nodup := by
  induction vs generalizing sp with
  | nil => simp [stackStores]
  | cons v rest ih =>
    rw [List.length_cons] at hlen
    rw [stackStores, List.map_cons, List.nodup_cons]
    refine ⟨fun hsp => ?_, ih (sp - 1) (by omega)⟩
    obtain ⟨k, hk, hslot⟩ := exists_of_mem_stackStores _ _ hsp
    rw [← Byte.sub_ofNat_succ, stackSlot_inj] at hslot
    have hzero : sp - UInt8.ofNat 0 = sp - UInt8.ofNat (k + 1) := (UInt8.sub_zero sp).trans hslot
    exact absurd ((Byte.sub_ofNat_inj (by omega) (by omega)).1 hzero) (by omega)

theorem Mnemonic.length_pushes_le (k : Mnemonic) (r : Registers) : (k.pushes r).length ≤ 3 := by
  cases k <;> simp [pushes]

namespace Instruction
variable {i : Instruction} {r : Registers} {bus : Bus} {written : List (Word × Byte)}

theorem replacing_eq_ok {f : Byte → Byte} (h : i.replacing r bus f = .ok written) :
    (i.mode = .accumulator ∧ written = []) ∨
      ∃ a v, i.effectiveAddress r bus = .ok a ∧ bus.read a = .ok v ∧ written = [(a, f v)] := by
  unfold replacing at h
  split at h
  · rename_i hm
    exact .inl ⟨hm, (Except.ok.inj h).symm⟩
  · split at h
    · simp at h
    · rename_i a ha
      split at h
      · simp at h
      · rename_i v hv
        exact .inr ⟨a, v, ha, hv, (Except.ok.inj h).symm⟩

theorem nodup_stores (h : i.stores r bus = .ok written) : (written.map Prod.fst).Nodup := by
  unfold stores at h
  split at h
  · obtain ⟨-, rfl⟩ | ⟨a, v, -, -, rfl⟩ := replacing_eq_ok h <;> simp
  · obtain rfl := Except.ok.inj h
    have hlen := i.mnemonic.length_pushes_le r
    exact nodup_stackStores _ (by omega)

/-- Where an instruction stores something: at its effective address, or on the stack. -/
theorem mem_stores_cases (h : i.stores r bus = .ok written) {a : Word}
    (ha : a ∈ written.map Prod.fst) :
    (i.mnemonic.storesOperand = true ∧ i.effectiveAddress r bus = .ok a) ∨
      ∃ k < (i.mnemonic.pushes r).length, a = stackSlot (r.sp - UInt8.ofNat k) := by
  unfold stores at h
  split at h
  · rename_i f hf
    obtain ⟨-, rfl⟩ | ⟨b, v, hb, -, rfl⟩ := replacing_eq_ok h
    · simp at ha
    · obtain rfl : a = b := by simpa using ha
      exact .inl ⟨Mnemonic.storesOperand_of_replacement? hf, hb⟩
  · obtain rfl := Except.ok.inj h
    exact .inr (exists_of_mem_stackStores _ _ ha)

end Instruction

namespace Machine
variable {m m' : Machine} {n : Nat}

theorem Does.bus_eq {i : Instruction} (h : m.Does i m') :
    ∃ written, i.stores m.registers m.bus = .ok written ∧ m'.bus = m.bus.putAll written := by
  obtain ⟨hi, -, ho, -⟩ := Instruction.of_decode h.decoded
  have hputs := Exec.puts_run (c := m.core) (Opcode.mem_table_of_lookup ho).1 hi
  exact h.of_wp (Q := fun _ bus => ∃ written, i.stores m.registers m.bus = .ok written ∧
    bus = m.bus.putAll written) hputs

/-- A step that succeeds changes memory only where its instruction stores something, and there only
what is RAM. RAM takes what the instruction stores, and no address is mapped or unmapped. -/
theorem step_stores (hp : m.bus.isPlain = true) (h : m.step = .ok n m') :
    ∃ i written, Instruction.decode m.bus m.registers.pc = .ok i ∧
      i.stores m.registers m.bus = .ok written ∧
      (∀ a, a ∉ written.map Prod.fst → m'.bus.read a = m.bus.read a) ∧
      (∀ a, (m.bus.cell a).isRam = false → m'.bus.read a = m.bus.read a) ∧
      (∀ a v, (a, v) ∈ written → (m.bus.cell a).isRam = true → m'.bus.read a = .ok v) ∧
      ∀ a, m'.bus.isMapped a = m.bus.isMapped a := by
  obtain ⟨i, hi⟩ := exists_does_of_step h
  obtain ⟨written, hwritten, hbus⟩ := hi.bus_eq
  have hnodup := Instruction.nodup_stores hwritten
  have hother (a : Word) (ha : a ∉ written.map Prod.fst) : m'.bus.read a = m.bus.read a := by
    rw [Bus.read_eq_cell, Bus.read_eq_cell, hbus, Bus.cell_putAll_of_notMem hp ha]
  have hstored {a : Word} {v : Byte} (ha : (a, v) ∈ written) :
      m'.bus.cell a = (m.bus.cell a).write v := by
    rw [hbus, Bus.cell_putAll_of_mem hp hnodup ha]
  refine ⟨i, written, hi.decoded, hwritten, hother, fun a ha => ?_, fun a v ha hram => ?_, fun a => ?_⟩
  · by_cases hmem : a ∈ written.map Prod.fst
    · obtain ⟨⟨b, v⟩, hb, rfl⟩ := List.mem_map.1 hmem
      rw [Bus.read_eq_cell, Bus.read_eq_cell, hstored hb, Cell.write_of_not_isRam ha]
    · exact hother a hmem
  · rw [Bus.read_eq_cell, hstored ha, Cell.write_of_isRam hram]
    rfl
  · rw [hbus, Bus.isMapped_putAll]

/-- A call that finds the stack pointer at the bottom of the stack page. -/
def wrappingCall (bottom top : Byte) (r : Registers) (cycles instructions : Nat) : Machine where
  registers := r
  cycles := cycles
  instructions := instructions
  bus := ⟨[⟨"bottom", 0x0100, .ram #[bottom], by simp [Backend.size], by simp [Backend.size]⟩,
    ⟨"top", 0x01FF, .ram #[top], by simp [Backend.size], by simp [Backend.size]⟩,
    ⟨"code", 0x1234, .ram #[0x20, 0x00, 0x03], by simp [Backend.size], by simp [Backend.size]⟩]⟩

set_option maxRecDepth 2000 in
theorem step_wrappingCall :
    (wrappingCall 0 0 { pc := 0x1234, sp := 0 } 0 0).step =
      .ok 6 (wrappingCall 0x12 0x36 { pc := 0x0300, sp := 0xFE } 6 1) :=
  rfl

set_option maxRecDepth 2000 in
theorem decode_wrappingCall :
    Instruction.decode (wrappingCall 0 0 { pc := 0x1234, sp := 0 } 0 0).bus 0x1234 =
      .ok ⟨0x1234, ⟨0x20, .jsr, .absolute, 6⟩, .word 0x0300⟩ :=
  rfl

theorem step_stores_wrappingCall :
    (⟨0x1234, ⟨0x20, .jsr, .absolute, 6⟩, .word 0x0300⟩ : Instruction).stores
        { pc := 0x1234, sp := 0 } (wrappingCall 0 0 { pc := 0x1234, sp := 0 } 0 0).bus =
      .ok [(0x0100, 0x12), (0x01FF, 0x36)] ∧
    (wrappingCall 0x12 0x36 { pc := 0x0300, sp := 0xFE } 6 1).bus.read 0x0100 = .ok 0x12 ∧
    (wrappingCall 0x12 0x36 { pc := 0x0300, sp := 0xFE } 6 1).bus.read 0x01FF = .ok 0x36 := by
  obtain ⟨i, written, hd, hwritten, -, -, hram, -⟩ := step_stores rfl step_wrappingCall
  obtain rfl := Except.ok.inj (hd.symm.trans decode_wrappingCall)
  obtain rfl : written = [(0x0100, 0x12), (0x01FF, 0x36)] := Except.ok.inj (hwritten.symm.trans rfl)
  exact ⟨hwritten, hram _ _ (by simp) rfl, hram _ _ (by simp) rfl⟩

end Machine
end Mos6502

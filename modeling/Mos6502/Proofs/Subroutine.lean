import Mos6502.Proofs.Stores

/-! What is on the stack stays there. A run that takes no more off the stack than it has put there,
and puts no more there than there is room for, leaves alone the bytes that were pushed before it,
however deep its own calls and interrupts go; so a subroutine returns behind its call. -/
namespace Mos6502

namespace Registers
variable (r : Registers)

@[simp] theorem sp_ofResult (v : Byte) : (r.ofResult v).sp = r.sp := rfl

@[simp] theorem sp_load (d : DataRegister) (v : Byte) : (r.load d v).sp = r.sp := by
  simp [load]

@[simp] theorem sp_combine (o : Combination) (v : Byte) : (r.combine o v).sp = r.sp := by
  cases o <;> simp [combine, addWithCarry, subtractWithCarry, loadSum]

@[simp] theorem sp_compare (d : DataRegister) (v : Byte) : (r.compare d v).sp = r.sp := rfl

@[simp] theorem sp_testZero (v : Byte) : (r.testZero v).sp = r.sp := rfl

@[simp] theorem sp_copyTopBits (v : Byte) : (r.copyTopBits v).sp = r.sp := rfl

@[simp] theorem sp_setCarry (on : Bool) : (r.setCarry on).sp = r.sp := rfl

end Registers

namespace Byte

theorem ofInt_natCast (n : Nat) : UInt8.ofInt n = UInt8.ofNat n :=
  UInt8.ofNat_mod_size

theorem sub_ofInt_zero (s : Byte) : s - UInt8.ofInt 0 = s := UInt8.sub_zero s

end Byte

/-- How many bytes a mnemonic leaves on the stack, less those that it takes off. -/
def Mnemonic.stackGrowth : Mnemonic → Int
  | .pha | .phx | .phy | .php => 1
  | .pla | .plx | .ply | .plp => -1
  | .jsr => 2
  | .rts => -2
  | .brk => 3
  | .rti => -3
  | _ => 0

def Action.isStackless : Action → Bool
  | .call | .leave | .softwareInterrupt | .leaveInterrupt | .push _ | .pull _ | .pushStatus
  | .pullStatus | .setStackPointer => false
  | _ => true

theorem Mnemonic.stackGrowth_of_isStackless {k : Mnemonic} (h : k.action.isStackless = true) :
    k.stackGrowth = 0 := by
  cases k <;> first | rfl | simp [action, Action.isStackless] at h

namespace Exec
variable {c : Core} {i : Instruction}

theorem act_sp {a : Action} (ha : a.isStackless = true) :
    wp (act i a) (fun _ c' => c'.registers.sp = c.registers.sp) (fun _ _ => True) c := by
  cases a <;> simp_all [act, store, maskBits, modifyByte, jump, Action.isStackless]

theorem run_sp (hk : i.mnemonic ≠ .txs) :
    wp (run i)
      (fun _ c' => c'.registers.sp = c.registers.sp - UInt8.ofInt i.mnemonic.stackGrowth)
      (fun _ _ => True) c := by
  simp only [run, wp_bind, wp_update]
  by_cases hs : i.mnemonic.action.isStackless = true
  · rw [Mnemonic.stackGrowth_of_isStackless hs, Byte.sub_ofInt_zero]
    exact act_sp hs
  cases hm : i.mnemonic with
  | txs => exact absurd hm hk
  | pha | phx | phy | php => simp [Mnemonic.action, act, Mnemonic.stackGrowth]
  | pla | plx | ply | plp => simp [Mnemonic.action, act, Mnemonic.stackGrowth, UInt8.ofInt_neg]
  | jsr =>
    simp only [Mnemonic.action, act, wp_bind, wp_registers, wp_pushWord, wp_push, wp_update,
      implies_true, and_true]
    intro _ _
    change c.registers.sp - 1 - 1 = c.registers.sp - (2 : Byte)
    grind
  | rts =>
    simp only [Mnemonic.action, act, wp_bind, wp_pullWord, wp_pull, wp_update, implies_true,
      and_true]
    intro _ _ _ _
    change c.registers.sp + 1 + 1 = c.registers.sp - (-2 : Byte)
    grind
  | brk =>
    simp only [Mnemonic.action, act, softwareInterrupt, wp_bind, wp_registers, wp_pushWord, wp_push,
      wp_update, wp_readWord, wp_notice, implies_true, and_true]
    intro _ _ _ _ _
    change c.registers.sp - 1 - 1 - 1 = c.registers.sp - (3 : Byte)
    grind
  | rti =>
    simp only [Mnemonic.action, act, wp_bind, wp_pullWord, wp_pull, wp_update, implies_true,
      and_true]
    intro _ _ _ _ _ _
    change c.registers.sp + 1 + 1 + 1 = c.registers.sp - (-3 : Byte)
    grind
  | _ => exact absurd (by rw [hm]; rfl) hs

theorem run_rts (hk : i.mnemonic = .rts) :
    wp (run i)
      (fun _ c' => ∃ low high,
        c.bus.read (stackSlot (c.registers.sp + 1)) = .ok low ∧
        c.bus.read (stackSlot (c.registers.sp + 1 + 1)) = .ok high ∧
        c'.registers.pc = Word.join low high + 1)
      (fun _ _ => True) c := by
  simp only [run, wp_bind, wp_update, hk, Mnemonic.action, act, wp_pullWord, wp_pull, implies_true,
    and_true]
  exact fun low hlow high hhigh => ⟨low, high, hlow, hhigh, rfl⟩

end Exec

theorem mem_stackStores {sp : Byte} {vs : List Byte} {k : Nat} {v : Byte} (h : vs[k]? = some v) :
    (stackSlot (sp - UInt8.ofNat k), v) ∈ stackStores sp vs := by
  induction vs generalizing sp k with
  | nil => simp at h
  | cons first rest ih =>
    rw [stackStores]
    cases k with
    | zero =>
      obtain rfl : first = v := by simpa using h
      simp
    | succ k =>
      rw [Byte.sub_ofNat_succ]
      exact List.mem_cons_of_mem _ (ih (by simpa using h))

theorem Mnemonic.length_pushes (k : Mnemonic) (r : Registers) :
    ((k.pushes r).length : Int) = max k.stackGrowth 0 := by
  cases k <;> rfl

theorem Mnemonic.of_stackGrowth_pos {k : Mnemonic} (h : 0 < k.stackGrowth) :
    k.storesOperand = false ∧ k ≠ .txs := by
  cases k <;> simp_all [stackGrowth, storesOperand]

namespace Machine
variable {m m' : Machine} {i : Instruction}

theorem Does.isPlain (h : m.Does i m') (hp : m.bus.isPlain = true) : m'.bus.isPlain = true := by
  obtain ⟨written, -, hbus⟩ := h.bus_eq
  rw [hbus, Bus.isPlain_putAll, hp]

theorem Does.sp_eq (h : m.Does i m') (hk : i.mnemonic ≠ .txs) :
    m'.registers.sp = m.registers.sp - UInt8.ofInt i.mnemonic.stackGrowth :=
  h.of_wp (Q := fun r _ => r.sp = m.registers.sp - UInt8.ofInt i.mnemonic.stackGrowth)
    (Exec.run_sp (c := m.core) hk)

theorem Does.pc_of_rts (h : m.Does i m') (hk : i.mnemonic = .rts) :
    ∃ low high, m.bus.read (stackSlot (m.registers.sp + 1)) = .ok low ∧
      m.bus.read (stackSlot (m.registers.sp + 1 + 1)) = .ok high ∧
      m'.registers.pc = Word.join low high + 1 :=
  h.of_wp (Q := fun r _ => ∃ low high, m.bus.read (stackSlot (m.registers.sp + 1)) = .ok low ∧
    m.bus.read (stackSlot (m.registers.sp + 1 + 1)) = .ok high ∧ r.pc = Word.join low high + 1)
    (Exec.run_rts (c := m.core) hk)

/-- What an instruction pushes is on the stack afterwards, where that is RAM. -/
theorem Does.cell_pushed (h : m.Does i m') (hp : m.bus.isPlain = true)
    (hs : i.mnemonic.storesOperand = false) {k : Nat} {v : Byte}
    (hv : (i.mnemonic.pushes m.registers)[k]? = some v)
    (hram : (m.bus.cell (stackSlot (m.registers.sp - UInt8.ofNat k))).isRam = true) :
    m'.bus.cell (stackSlot (m.registers.sp - UInt8.ofNat k)) = .ram v := by
  obtain ⟨written, hwritten, hbus⟩ := h.bus_eq
  have hnodup := Instruction.nodup_stores hwritten
  have hnone : i.mnemonic.replacement? m.registers = none := by
    cases hf : i.mnemonic.replacement? m.registers with
    | none => rfl
    | some f => simp [Mnemonic.storesOperand_of_replacement? hf] at hs
  simp only [Instruction.stores, hnone, Except.ok.injEq] at hwritten
  subst hwritten
  rw [hbus, Bus.cell_putAll_of_mem hp hnodup (mem_stackStores hv), Cell.write_of_isRam hram]

/-- An instruction that does not store into the bytes at the top of the stack, and pushes no more
than there is room for below them, leaves them alone. There are `n` such bytes from the slot of `s`
down, and `d` others below them. -/
theorem Does.cell_saved {s : Byte} {n d : Nat} (h : m.Does i m') (hp : m.bus.isPlain = true)
    (hstore : i.mnemonic.storesOperand = true → ∀ k < n,
      i.effectiveAddress m.registers m.bus ≠ .ok (stackSlot (s - UInt8.ofNat k)))
    (hsp : m.registers.sp = s - UInt8.ofNat (n + d))
    (hroom : n + d + (i.mnemonic.pushes m.registers).length ≤ 256) {k : Nat} (hk : k < n) :
    m'.bus.cell (stackSlot (s - UInt8.ofNat k)) = m.bus.cell (stackSlot (s - UInt8.ofNat k)) := by
  obtain ⟨written, hwritten, hbus⟩ := h.bus_eq
  rw [hbus]
  refine Bus.cell_putAll_of_notMem hp fun hmem => ?_
  obtain ⟨hs, ha⟩ | ⟨j, hj, ha⟩ := Instruction.mem_stores_cases hwritten hmem
  · exact hstore hs k hk ha
  · have hslot : s - UInt8.ofNat k = s - UInt8.ofNat (n + d + j) := by
      rw [stackSlot_inj.1 ha, hsp, UInt8.ofNat_add _ j]
      grind
    have := (Byte.sub_ofNat_inj (by omega) (by omega)).1 hslot
    omega

/-- How many bytes deeper the stack has become. -/
def stackDepth : List (Machine × Instruction) → Int
  | [] => 0
  | e :: rest => e.2.mnemonic.stackGrowth + stackDepth rest

@[simp] theorem stackDepth_nil : stackDepth [] = 0 := rfl

theorem stackDepth_snoc (past : List (Machine × Instruction)) (e : Machine × Instruction) :
    stackDepth (past ++ [e]) = stackDepth past + e.2.mnemonic.stackGrowth := by
  induction past with
  | nil => simp [stackDepth]
  | cons first rest ih => rw [List.cons_append, stackDepth, stackDepth, ih, Int.add_assoc]

/-- A run that works on the stack below the `n` bytes from the slot of `s` down. It does not move
the stack pointer by other means than pushing and pulling, it does not store into these bytes, and
what it has on the stack at any time fits into the rest of the page. -/
structure LeavesStack (s : Byte) (n : Nat) (past : List (Machine × Instruction)) : Prop where
  noTransfer : ∀ e ∈ past, e.2.mnemonic ≠ .txs
  noStore : ∀ e ∈ past, e.2.mnemonic.storesOperand = true → ∀ k < n,
    e.2.effectiveAddress e.1.registers e.1.bus ≠ .ok (stackSlot (s - UInt8.ofNat k))
  depth : ∀ before, before <+: past → 0 ≤ stackDepth before ∧ n + stackDepth before ≤ 256

theorem LeavesStack.of_snoc {s : Byte} {n : Nat} {past : List (Machine × Instruction)}
    {e : Machine × Instruction} (h : LeavesStack s n (past ++ [e])) : LeavesStack s n past where
  noTransfer e he := h.noTransfer e (List.mem_append_left _ he)
  noStore e he := h.noStore e (List.mem_append_left _ he)
  depth before hb := h.depth before (hb.trans (List.prefix_append _ _))

/-- What such a run finds at the top of the stack it leaves there, and the stack pointer tells how
deep the stack has become. -/
theorem Path.saved {s : Byte} {n : Nat} {past : List (Machine × Instruction)}
    (path : m.Path past m') (hp : m.bus.isPlain = true)
    (hsp : m.registers.sp = s - UInt8.ofNat n) (h : LeavesStack s n past) :
    m'.bus.isPlain = true ∧
      m'.registers.sp = s - UInt8.ofNat n - UInt8.ofInt (stackDepth past) ∧
      ∀ k < n, m'.bus.cell (stackSlot (s - UInt8.ofNat k)) =
        m.bus.cell (stackSlot (s - UInt8.ofNat k)) := by
  induction path with
  | refl => exact ⟨hp, by rw [stackDepth_nil, Byte.sub_ofInt_zero, hsp], fun _ _ => rfl⟩
  | @snoc past before after i _ hdoes ih =>
    obtain ⟨hplain, hbefore, hsaved⟩ := ih h.of_snoc
    have hlast : (before, i) ∈ past ++ [(before, i)] := by simp
    have hdepth := h.depth past (List.prefix_append _ _)
    have hdepth' := h.depth _ (List.prefix_refl _)
    rw [stackDepth_snoc] at hdepth' ⊢
    dsimp only at hdepth' ⊢
    refine ⟨hdoes.isPlain hplain, ?_, fun k hk => ?_⟩
    · rw [hdoes.sp_eq (h.noTransfer _ hlast), hbefore, UInt8.ofInt_add]
      grind
    · obtain ⟨d, hd⟩ := Int.eq_ofNat_of_zero_le hdepth.1
      rw [← hsaved k hk]
      refine hdoes.cell_saved hplain (h.noStore _ hlast) (d := d) ?_ ?_ hk
      · rw [hbefore, hd, Byte.ofInt_natCast, UInt8.ofNat_add]
        grind
      · have hlength := i.mnemonic.length_pushes before.registers
        omega

theorem Path.read_pushed {called leaving : Machine} {past : List (Machine × Instruction)}
    (path : called.Path past leaving) (hp : m.bus.isPlain = true) (h : m.Does i called)
    (hgrowth : 0 < i.mnemonic.stackGrowth)
    (hleaves : LeavesStack m.registers.sp i.mnemonic.stackGrowth.toNat past)
    (hdepth : stackDepth past = 0) :
    leaving.registers.sp = called.registers.sp ∧
      ∀ k v, (i.mnemonic.pushes m.registers)[k]? = some v →
        (m.bus.cell (stackSlot (m.registers.sp - UInt8.ofNat k))).isRam = true →
        leaving.bus.read (stackSlot (m.registers.sp - UInt8.ofNat k)) = .ok v := by
  obtain ⟨hstores, htxs⟩ := Mnemonic.of_stackGrowth_pos hgrowth
  have hlength := i.mnemonic.length_pushes m.registers
  have hsp : called.registers.sp =
      m.registers.sp - UInt8.ofNat i.mnemonic.stackGrowth.toNat := by
    rw [h.sp_eq htxs, ← Byte.ofInt_natCast, Int.toNat_of_nonneg (Int.le_of_lt hgrowth)]
  obtain ⟨-, hend, hsaved⟩ := path.saved (h.isPlain hp) hsp hleaves
  refine ⟨by rw [hend, hdepth, Byte.sub_ofInt_zero, hsp], fun k v hv hram => ?_⟩
  obtain ⟨hk, -⟩ := List.getElem?_eq_some_iff.1 hv
  rw [Bus.read_eq_cell, hsaved k (by omega), h.cell_pushed hp hstores hv hram]
  rfl

/-- A subroutine that returns when the stack is as deep as after the call returns behind the call,
with the stack pointer that the call has found. -/
theorem returns_behind_call {called leaving returned : Machine} {jsr rts : Instruction}
    {past : List (Machine × Instruction)} (hp : m.bus.isPlain = true)
    (hcall : m.Does jsr called) (hjsr : jsr.mnemonic = .jsr)
    (hhigh : (m.bus.cell (stackSlot m.registers.sp)).isRam = true)
    (hlow : (m.bus.cell (stackSlot (m.registers.sp - 1))).isRam = true)
    (path : called.Path past leaving) (hleaves : LeavesStack m.registers.sp 2 past)
    (hreturn : leaving.Does rts returned) (hrts : rts.mnemonic = .rts)
    (hdepth : stackDepth past = 0) :
    returned.registers.pc = m.registers.pc + 3 ∧ returned.registers.sp = m.registers.sp := by
  have hgrowth : jsr.mnemonic.stackGrowth = 2 := by rw [hjsr]; rfl
  have hpushes : jsr.mnemonic.pushes m.registers =
      [(m.registers.pc + 2).high, (m.registers.pc + 2).low] := by rw [hjsr]; rfl
  have hcalled : called.registers.sp = m.registers.sp - 2 := by
    rw [hcall.sp_eq (by rw [hjsr]; decide), hgrowth]
    rfl
  obtain ⟨hsp, hread⟩ := path.read_pushed hp hcall (by omega) (by rwa [hgrowth]) hdepth
  rw [hcalled] at hsp
  have hfirst := hread 0 _ (by rw [hpushes]; rfl) (by simpa using hhigh)
  have hsecond := hread 1 _ (by rw [hpushes]; rfl) (by simpa using hlow)
  constructor
  · obtain ⟨low, high, hl, hh, hpc⟩ := hreturn.pc_of_rts hrts
    rw [show leaving.registers.sp + 1 = m.registers.sp - UInt8.ofNat 1 by grind] at hl
    rw [show leaving.registers.sp + 1 + 1 = m.registers.sp - UInt8.ofNat 0 by grind] at hh
    obtain rfl := Except.ok.inj (hsecond.symm.trans hl)
    obtain rfl := Except.ok.inj (hfirst.symm.trans hh)
    rw [hpc, Word.join_low_high]
    grind
  · rw [hreturn.sp_eq (by rw [hrts]; decide), hrts, hsp]
    change m.registers.sp - 2 - (-2 : Byte) = m.registers.sp
    grind

/-- A subroutine that pushes the accumulator and pulls it again, in the midst of its run. -/
def pushAndPull (below low high : Byte) (r : Registers) (cycles instructions : Nat) : Machine where
  registers := r
  cycles := cycles
  instructions := instructions
  bus := ⟨[⟨"all", 0x01FD, .ram #[below, low, high, 0x20, 0x03, 0x02, 0x48, 0x68, 0x60],
    by simp [Backend.size], by simp [Backend.size]⟩]⟩

def pushAndPullPast : List (Machine × Instruction) :=
  [(pushAndPull 0 2 2 { pc := 0x0203, sp := 0xFD, a := 7 } 6 1,
      ⟨0x0203, ⟨0x48, .pha, .implied, 3⟩, .none⟩),
    (pushAndPull 7 2 2 { pc := 0x0204, sp := 0xFC, a := 7 } 9 2,
      ⟨0x0204, ⟨0x68, .pla, .implied, 4⟩, .none⟩)]

set_option maxRecDepth 2000 in
theorem call_pushAndPull :
    (pushAndPull 0 0 0 { pc := 0x0200, sp := 0xFF, a := 7 } 0 0).Does
      ⟨0x0200, ⟨0x20, .jsr, .absolute, 6⟩, .word 0x0203⟩
      (pushAndPull 0 2 2 { pc := 0x0203, sp := 0xFD, a := 7 } 6 1) :=
  ⟨rfl, rfl⟩

set_option maxRecDepth 2000 in
theorem path_pushAndPull :
    (pushAndPull 0 2 2 { pc := 0x0203, sp := 0xFD, a := 7 } 6 1).Path pushAndPullPast
      (pushAndPull 7 2 2 { pc := 0x0205, sp := 0xFD, a := 7 } 13 3) :=
  .snoc (.snoc .refl ⟨rfl, rfl⟩) ⟨rfl, rfl⟩

set_option maxRecDepth 2000 in
theorem return_pushAndPull :
    (pushAndPull 7 2 2 { pc := 0x0205, sp := 0xFD, a := 7 } 13 3).Does
      ⟨0x0205, ⟨0x60, .rts, .implied, 6⟩, .none⟩
      (pushAndPull 7 2 2 { pc := 0x0203, sp := 0xFF, a := 7 } 19 4) :=
  ⟨rfl, rfl⟩

theorem leavesStack_pushAndPull : LeavesStack 0xFF 2 pushAndPullPast where
  noTransfer := by simp [pushAndPullPast, Instruction.mnemonic]
  noStore := by simp [pushAndPullPast, Instruction.mnemonic, Mnemonic.storesOperand]
  depth before hb := by
    simp only [pushAndPullPast, List.prefix_cons_iff, List.prefix_nil] at hb
    obtain rfl | ⟨_, rfl, rfl | ⟨_, rfl, rfl⟩⟩ := hb <;>
      simp [stackDepth, Instruction.mnemonic, Mnemonic.stackGrowth]

theorem returns_behind_call_pushAndPull :
    LeavesStack 0xFF 2 pushAndPullPast ∧ stackDepth pushAndPullPast = 0 ∧
      (pushAndPull 7 2 2 { pc := 0x0203, sp := 0xFF, a := 7 } 19 4).registers.pc = 0x0200 + 3 ∧
      (pushAndPull 7 2 2 { pc := 0x0203, sp := 0xFF, a := 7 } 19 4).registers.sp = 0xFF :=
  ⟨leavesStack_pushAndPull, rfl, returns_behind_call rfl call_pushAndPull rfl rfl rfl
    path_pushAndPull leavesStack_pushAndPull return_pushAndPull rfl rfl⟩

end Machine
end Mos6502

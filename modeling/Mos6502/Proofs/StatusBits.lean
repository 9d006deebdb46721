import Mos6502.Proofs.Interrupts
import Mos6502.Proofs.SoftwareInterrupt

/-! The two bits of the status that are no flags. After a reset both are set. The bit that stands for
nothing stays so for good. Break is set by a reset only, and cleared where a status is pulled. What
is pushed has both set, whatever the status has. -/
namespace Mos6502

/-- What becomes of the two bits as long as nothing is reset: the one is not cleared, the other is not
set. -/
structure Status.Later (s s' : Status) : Prop where
  unused : s.unused = true → s'.unused = true
  brk : s.brk = false → s'.brk = false

namespace Status.Later

@[simp] theorem refl (s : Status) : s.Later s := ⟨id, id⟩

theorem trans {s s' s'' : Status} (h : s.Later s') (h' : s'.Later s'') : s.Later s'' :=
  ⟨h'.unused ∘ h.unused, h'.brk ∘ h.brk⟩

@[simp] theorem of_flags (s : Status) (n v d i z c : Bool) :
    s.Later ⟨n, v, s.unused, s.brk, d, i, z, c⟩ := ⟨id, id⟩

@[simp] theorem pulled (s : Status) (b : Byte) : s.Later (.pulled b) :=
  ⟨fun _ => rfl, fun _ => rfl⟩

end Status.Later

theorem Status.pushed_and (s : Status) : s.pushed &&& 0x30 = 0x30 := by
  obtain ⟨n, v, u, b, d, i, z, c⟩ := s
  revert n v u b d i z c
  decide

/-- Whether an action leaves the two bits alone, or replaces the status as a whole. -/
def Action.sparesBits : Action → Bool
  | .assign .unused _ | .assign .brk _ => false
  | _ => true

theorem Mnemonic.sparesBits (k : Mnemonic) : k.action.sparesBits = true := by
  cases k <;> rfl

namespace Registers

theorem later_load (r : Registers) (d : DataRegister) (v : Byte) :
    r.status.Later (r.load d v).status := by
  simp [load, ofResult, Status.ofResult]

theorem later_combine (r : Registers) (o : Combination) (m : Byte) :
    r.status.Later (r.combine o m).status := by
  cases o <;> simp [combine, addWithCarry, subtractWithCarry, loadSum, Status.ofResult, later_load]

end Registers

namespace Exec
variable {c : Core} {i : Instruction}

theorem later_act {a : Action} (ha : a.sparesBits = true) :
    wp (act i a) (fun _ c' => c.registers.status.Later c'.registers.status)
      (fun _ c' => c.registers.status.Later c'.registers.status) c := by
  cases a with
  | assign flag value =>
    cases flag <;> first | exact absurd ha Bool.noConfusion | simp [act, Status.set]
  | load _ | count _ _ | transfer _ _ | readStackPointer => simp [act, Registers.later_load]
  | pull d =>
    simp only [act, wp_bind, wp_pull, wp_update]
    exact ⟨fun v _ => c.raise.registers.later_load d v, fun _ => .refl _⟩
  | combine _ => simp [act, Registers.later_combine]
  | compare _ | testBits =>
    simp [act, Registers.compare, Status.ofResult, Registers.testZero, Registers.copyTopBits]
  | mask _ => simp [act, maskBits, Registers.testZero]
  | modify _ =>
    simp [act, modifyByte, Registers.setCarry, Registers.ofResult, Status.ofResult]
  | softwareInterrupt => simp [act, softwareInterrupt]
  | _ => simp [act, store, jump]

theorem later_run (i : Instruction) :
    wp (run i) (fun _ c' => c.registers.status.Later c'.registers.status)
      (fun _ c' => c.registers.status.Later c'.registers.status) c := by
  simp only [run, wp_bind, wp_update]
  exact later_act i.mnemonic.sparesBits

theorem wp_pull_of_read {Q : Byte → Core → Prop} {E : Trap → Core → Prop} {b : Byte}
    (hb : c.bus.read (stackSlot (c.registers.sp + 1)) = .ok b) :
    wp pull Q E c ↔ Q b (c.raise.hear (c.bus.onRead (stackSlot (c.registers.sp + 1)))) := by
  have hmapped := Bus.isMapped_of_read hb
  have hslot : c.raise.registers.stackAddress = stackSlot (c.registers.sp + 1) := rfl
  rw [wp_pull, hslot]
  simp [hb, hmapped]

/-- The byte that an instruction pulls for a status replaces the status, even if a return from an
interrupt then finds no address. -/
theorem run_pulls (hk : i.mnemonic ∈ [.plp, .rti]) {b : Byte}
    (hb : c.bus.read (stackSlot (c.registers.sp + 1)) = .ok b) :
    wp (run i) (fun _ c' => c'.registers.status = .pulled b)
      (fun _ c' => c'.registers.status = .pulled b) c := by
  have hbehind : (c.update fun r => { r with pc := i.next }).bus.read
      (stackSlot ((c.update fun r => { r with pc := i.next }).registers.sp + 1)) = .ok b := hb
  obtain hk | hk : i.mnemonic = .plp ∨ i.mnemonic = .rti := by simpa using hk
  · simp only [run, wp_bind, wp_update, hk, Mnemonic.action, act, wp_pull_of_read hbehind]
    rfl
  · simp only [run, wp_bind, wp_update, hk, Mnemonic.action, act, wp_pull_of_read hbehind,
      wp_pullWord, wp_pull]
    exact ⟨fun _ _ => ⟨fun _ _ => rfl, fun _ => rfl⟩, fun _ => rfl⟩

/-- An instruction that pushes the status stores the first of the bytes that it pushes, and nothing
else, even if it traps on the way. -/
theorem run_pushing (ho : i.opcode ∈ Opcode.table) (hi : i.address = c.registers.pc)
    (hk : i.mnemonic ∈ [.php, .brk]) :
    let pushed := stackStores c.registers.sp (i.mnemonic.pushes c.registers)
    wp (run i) (fun _ c' => ∃ n, c'.bus = c.bus.putAll (pushed.take n))
      (fun _ c' => ∃ n, c'.bus = c.bus.putAll (pushed.take n)) c := by
  intro pushed
  obtain hk | hk : i.mnemonic = .php ∨ i.mnemonic = .brk := by simpa using hk
  · simp only [run, wp_bind, wp_update, hk, Mnemonic.action, act, wp_registers, wp_push, pushed]
    exact ⟨fun _ => ⟨1, rfl⟩, fun _ => ⟨0, rfl⟩⟩
  · have hback : c.registers.pc + 2 = i.next + 1 := by
      rw [Instruction.next, hi, Instruction.length, (Opcode.length_of_mem ho).2 hk]
      grind
    simp only [run, wp_bind, wp_update, hk, Mnemonic.action, act, softwareInterrupt, wp_registers,
      wp_pushWord, wp_push, wp_readWord, wp_notice, Mnemonic.pushes, hback, pushed]
    exact ⟨fun _ => ⟨fun _ => ⟨fun _ => ⟨fun _ _ => ⟨3, rfl⟩, fun _ _ => ⟨3, rfl⟩⟩,
      fun _ => ⟨2, rfl⟩⟩, fun _ => ⟨1, rfl⟩⟩, fun _ => ⟨0, rfl⟩⟩

end Exec

def Request.assigns : Request → Bool
  | .assign _ => true
  | _ => false

def Move.assigns : Move → Bool
  | .ask r => r.assigns
  | .proceed => false

namespace Machine
variable {m m' : Machine} {i : Instruction}

def status (m : Machine) : Status := m.registers.status

theorem later_step (m : Machine) : m.status.Later (Outcome.machine m.step).status :=
  step_of_wp (Q := fun r _ => m.status.Later r.status) (fun _ _ => .refl _)
    fun i _ => Exec.later_run (c := m.core) i

theorem status_poll (m : Machine) : m.poll.2.status = m.status :=
  congrArg (fun c : Core => c.registers.status) m.core_poll

theorem later_runFor (m : Machine) (n : Nat) :
    m.status.Later (Outcome.machine (runFor n m)).status :=
  runFor_invariant (I := fun after => m.status.Later after.status)
    (fun after h => by rwa [status_poll]) (fun after h => h.trans after.later_step) n (.refl _)

theorem status_of_resets {r : Request} (h : m.resets r = true) :
    (m.answer r).2.status = .atReset := by
  cases r with
  | resetTo pc => simp [answer, resetTo, emit_eq, status]
  | reset =>
    obtain ⟨pc, journal, ha⟩ | ⟨f, journal, ha⟩ := m.answer_reset_cases
    · simp [ha, resetTo, emit_eq, status]
    · simp [resets, ha] at h
  | _ => exact absurd h Bool.noConfusion

theorem later_answer {r : Request} (ha : r.assigns = false) (hr : m.resets r = false) :
    m.status.Later (m.answer r).2.status := by
  have houtside := m.exists_answer_of_leavesProcessor (r := r)
  cases r with
  | assign _ => exact absurd ha Bool.noConfusion
  | reset =>
    obtain ⟨pc, journal, hm⟩ | ⟨f, journal, hm⟩ := m.answer_reset_cases
    · simp [resets, Request.wantsReset, hm] at hr
    · rw [hm]
      exact .refl _
  | resetTo pc => exact absurd hr Bool.noConfusion
  | step =>
    rw [answer, machine_reply]
    exact m.later_step
  | runFor n =>
    rw [answer, machine_reply]
    exact m.later_runFor n
  | run =>
    rw [answer, machine_reply]
    obtain ⟨n, hn⟩ | hn := m.run_cases
    · rw [hn]
      exact m.later_runFor n
    · rw [hn]
      exact .refl _
  | raise => exact .refl _
  | _ =>
    obtain ⟨_, _, _, _, hm⟩ := houtside rfl
    rw [hm]
    exact .refl _

theorem unused_answer {r : Request} (ha : r.assigns = false) (h : m.status.unused = true) :
    (m.answer r).2.status.unused = true := by
  cases hr : m.resets r with
  | true =>
    rw [status_of_resets hr]
    rfl
  | false => exact (later_answer ha hr).unused h

/-- What a step that pushes the status puts on the stack, however far it gets. -/
structure PushesStatus (m : Machine) (i : Instruction) (m' : Machine) : Prop where
  last : ∃ back, i.mnemonic.pushes m.registers = back ++ [m.status.pushed]
  bits : m.status.pushed &&& 0x30 = 0x30
  /-- Nothing but the first of the bytes that are pushed is stored. -/
  bus : ∃ n, m'.bus =
    m.bus.putAll ((stackStores m.registers.sp (i.mnemonic.pushes m.registers)).take n)
  whole : m.Does i m' →
    m'.bus = m.bus.putAll (stackStores m.registers.sp (i.mnemonic.pushes m.registers))

theorem pushesStatus_step (hd : Instruction.decode m.bus m.registers.pc = .ok i)
    (hk : i.mnemonic ∈ [.php, .brk]) : m.PushesStatus i (Outcome.machine m.step) := by
  obtain ⟨hi, -, ho, -⟩ := Instruction.of_decode hd
  have hkinds : i.mnemonic = .php ∨ i.mnemonic = .brk := by simpa using hk
  constructor
  · obtain hk | hk := hkinds <;> rw [hk]
    · exact ⟨[], rfl⟩
    · exact ⟨[_, _], rfl⟩
  · exact m.status.pushed_and
  · refine step_of_wp (Q := fun _ bus => ∃ n, bus =
      m.bus.putAll ((stackStores m.registers.sp (i.mnemonic.pushes m.registers)).take n))
      (fun f hf => by simp [hf] at hd) fun j hj => ?_
    obtain rfl := Except.ok.inj (hj.symm.trans hd)
    exact Exec.run_pushing (c := m.core) (Opcode.mem_table_of_lookup ho).1 hi hk
  · intro h
    obtain ⟨written, hwritten, hbus⟩ := h.bus_eq
    have hstores : i.stores m.registers m.bus =
        .ok (stackStores m.registers.sp (i.mnemonic.pushes m.registers)) := by
      unfold Instruction.stores
      obtain hk | hk := hkinds <;> rw [hk] <;> rfl
    rw [hbus, Except.ok.inj (hwritten.symm.trans hstores)]

/-- A step that pulls a byte for the status takes it over, even if a return then finds no address. -/
theorem status_step_of_pull (hd : Instruction.decode m.bus m.registers.pc = .ok i)
    (hk : i.mnemonic ∈ [.plp, .rti]) {b : Byte}
    (hb : m.bus.read (stackSlot (m.registers.sp + 1)) = .ok b) :
    (Outcome.machine m.step).status = .pulled b := by
  refine step_of_wp (Q := fun r _ => r.status = .pulled b) (fun f hf => by simp [hf] at hd)
    fun j hj => ?_
  obtain rfl := Except.ok.inj (hj.symm.trans hd)
  exact Exec.run_pulls (c := m.core) hk hb

end Machine

namespace Moment

def resets (v : Moment) : Bool :=
  match v.move with
  | .proceed => false
  | .ask r => v.before.phase.isIdle && v.before.machine.resets r

/-- The instruction is carried out, in a run or by itself, or traps. -/
structure CarriesOut (v : Moment) (i : Instruction) : Prop where
  steps : v.steps = true
  decoded : Instruction.decode v.before.machine.bus v.before.machine.registers.pc = .ok i

variable {v : Moment}

theorem machine_after_of_steps (h : v.steps = true) :
    v.after.machine = Machine.Outcome.machine v.before.machine.step := by
  obtain ⟨⟨m, phase⟩, r | _⟩ := v
  · cases r with
    | step =>
      cases phase with
      | idle => exact Machine.machine_reply _ _ _
      | _ => exact absurd h Bool.noConfusion
    | _ => exact absurd h Bool.noConfusion
  · cases phase with
    | stepping limit =>
      simp only [after, Session.make, Session.proceed]
      cases m.step <;> rfl
    | _ => exact absurd h Bool.noConfusion

theorem machine_after_cases (v : Moment) :
    v.after.machine = v.before.machine ∨ v.after.machine = v.before.machine.poll.2 ∨
      v.after.machine = Machine.Outcome.machine v.before.machine.step ∨
      ∃ r, v.move = .ask r ∧ (r.raises = true ∨ v.before.phase.isIdle = true) ∧
        v.after.machine = (v.before.machine.answer r).2 := by
  obtain ⟨⟨m, phase⟩, r | _⟩ := v
  · cases hr : r.raises with
    | true =>
      obtain rfl := Request.eq_raise hr
      exact .inr (.inr (.inr ⟨.raise, rfl, .inl rfl, rfl⟩))
    | false =>
      cases hidle : phase.isIdle with
      | false => exact .inl (by simp [after, Session.make, hr, hidle])
      | true =>
        cases r with
        | run | runFor _ => exact .inl (by simp [after, Session.make, hr, hidle, Session.start])
        | _ =>
          refine .inr (.inr (.inr ⟨_, rfl, .inr rfl, ?_⟩))
          simp [after, Session.make, hr, hidle, Session.start]
  · cases phase with
    | idle => exact .inl rfl
    | checking limit => exact .inr (.inl (Session.machine_proceed_checking m limit))
    | stepping limit =>
      refine .inr (.inr (.inl ?_))
      simp only [after, Session.make, Session.proceed]
      cases m.step <;> rfl

theorem later_after (ha : v.move.assigns = false) (hr : v.resets = false) :
    v.before.machine.status.Later v.after.machine.status := by
  obtain hm | hm | hm | ⟨r, hmove, hheard, hm⟩ := v.machine_after_cases
  · rw [hm]
    exact .refl _
  · rw [hm, Machine.status_poll]
    exact .refl _
  · rw [hm]
    exact v.before.machine.later_step
  · rw [hm]
    rw [hmove] at ha
    have hresets : v.before.machine.resets r = false := by
      obtain hraises | hidle := hheard
      · cases r <;> first | rfl | exact absurd hraises Bool.noConfusion
      · simpa [resets, hmove, hidle] using hr
    exact Machine.later_answer ha hresets

theorem unused_after (ha : v.move.assigns = false) (h : v.before.machine.status.unused = true) :
    v.after.machine.status.unused = true := by
  obtain hm | hm | hm | ⟨r, hmove, -, hm⟩ := v.machine_after_cases
  · rwa [hm]
  · rwa [hm, Machine.status_poll]
  · rw [hm]
    exact v.before.machine.later_step.unused h
  · rw [hmove] at ha
    rw [hm]
    exact Machine.unused_answer ha h

end Moment

namespace Session

/-- What becomes of the two bits in a session. -/
structure KeepsBits (s : Session) (moves : List Move) : Prop where
  unused : (s.followedBy moves).machine.status.unused = true
  brk_not_set : ∀ v ∈ s.history moves, v.resets = false → v.before.machine.status.brk = false →
    v.after.machine.status.brk = false
  /-- Where a byte is pulled for the status break is cleared, even if a return then finds no address. -/
  brk_cleared : ∀ v ∈ s.history moves, ∀ i b, v.CarriesOut i → i.mnemonic ∈ [.plp, .rti] →
    v.before.machine.bus.read (stackSlot (v.before.machine.registers.sp + 1)) = .ok b →
    v.after.machine.status = .pulled b ∧ v.after.machine.status.brk = false
  brk_stays : ∀ front u between back, s.history moves = front ++ u :: (between ++ back) →
    u.after.machine.status.brk = false → (∀ v ∈ between, v.resets = false) →
    ∀ v ∈ between, v.after.machine.status.brk = false
  pushed : ∀ v ∈ s.history moves, ∀ i, v.CarriesOut i → i.mnemonic ∈ [.php, .brk] →
    v.before.machine.PushesStatus i v.after.machine

variable {s : Session} {moves : List Move}

theorem unused_followedBy (hmoves : ∀ move ∈ moves, move.assigns = false)
    (h : s.machine.status.unused = true) : (s.followedBy moves).machine.status.unused = true :=
  (serveAll_invariant_of_mem (I := fun s : Session => s.machine.status.unused = true)
    (P := fun _ => True)
    (fun move hmove s hs =>
      ⟨trivial, Moment.unused_after (v := ⟨s, move⟩) (hmoves move hmove) hs⟩) h).2

theorem move_mem_of_mem_history {v : Moment} (h : v ∈ s.history moves) : v.move ∈ moves := by
  induction moves generalizing s with
  | nil => exact absurd h List.not_mem_nil
  | cons move rest ih =>
    rw [history_cons] at h
    obtain rfl | h := List.mem_cons.1 h
    · exact List.mem_cons_self
    · exact List.mem_cons_of_mem _ (ih h)

theorem brk_history (h : s.machine.status.brk = false)
    (hquiet : ∀ v ∈ s.history moves, v.move.assigns = false ∧ v.resets = false) :
    ∀ v ∈ s.history moves, v.after.machine.status.brk = false := by
  induction moves generalizing s with
  | nil => exact fun _ hv => absurd hv List.not_mem_nil
  | cons move rest ih =>
    rw [history_cons] at hquiet ⊢
    obtain ⟨⟨hassigns, hresets⟩, hrest⟩ := List.forall_mem_cons.1 hquiet
    have hnext := (Moment.later_after hassigns hresets).brk h
    exact List.forall_mem_cons.2 ⟨hnext, ih hnext hrest⟩

theorem keepsBits (hmoves : ∀ move ∈ moves, move.assigns = false)
    (h : s.machine.status.unused = true) : s.KeepsBits moves := by
  have hassigns (v : Moment) (hv : v ∈ s.history moves) : v.move.assigns = false :=
    hmoves _ (move_mem_of_mem_history hv)
  constructor
  · exact unused_followedBy hmoves h
  · exact fun v hv hresets => (Moment.later_after (hassigns v hv) hresets).brk
  · intro v _ i b hi hk hb
    have hstatus : v.after.machine.status = .pulled b := by
      rw [Moment.machine_after_of_steps hi.steps, Machine.status_step_of_pull hi.decoded hk hb]
    exact ⟨hstatus, by rw [hstatus]; rfl⟩
  · intro front u between back hhistory hclear hquiet
    obtain ⟨_, _, -, hu⟩ := exists_of_history_eq_append hhistory
    obtain ⟨-, _, hlater⟩ := of_history_eq_cons hu.symm
    obtain ⟨middle, _, rfl, -⟩ := exists_of_history_eq_append hlater.symm
    refine brk_history hclear fun v hv => ⟨hassigns v ?_, hquiet v hv⟩
    rw [hhistory]
    simp [hv]
  · intro v _ i hi hk
    rw [Moment.machine_after_of_steps hi.steps]
    exact Machine.pushesStatus_step hi.decoded hk

/-- After a reset the bit that stands for nothing is set in every machine that a session comes to, the
ones in the midst of a run and those behind a fault too. Break is set by resets only, so where a
pull has cleared it it stays clear until the next one. Both bits are set in every status that is
pushed. -/
theorem status_bits_kept {m : Machine} {start : Request} (hstart : m.resets start = true) :
    (∀ moves : List Move, (∀ move ∈ moves, move.assigns = false) →
      KeepsBits ⟨(m.answer start).2, .idle⟩ moves) ∧
      ∀ rs : List Request, (∀ r ∈ rs, r.assigns = false) →
        (serveAll Machine.answer (m.answer start).2 rs).2.status.unused = true := by
  have hunused : (m.answer start).2.status.unused = true := by
    rw [Machine.status_of_resets hstart]
    rfl
  refine ⟨fun moves hmoves => keepsBits hmoves hunused, fun rs hrs => ?_⟩
  exact (serveAll_invariant_of_mem (I := fun m : Machine => m.status.unused = true)
    (P := fun _ => True) (fun r hr _ h => ⟨trivial, Machine.unused_answer (hrs r hr) h⟩) hunused).2

/-- A program that pushes the status and returns from an interrupt, with no return address behind the
status. -/
def halfReturn : Machine where
  registers := { sp := 0xFF }
  bus := ⟨[⟨"all", 0x01FF, .ram #[0x00, 0x08, 0x40], by simp [Backend.size],
    by simp [Backend.size]⟩]⟩

def halfReturnReset : Session := ⟨(halfReturn.answer (.resetTo 0x0200)).2, .idle⟩

def halfReturnPushed : Session := halfReturnReset.followedBy [.ask .step]

set_option maxRecDepth 2000 in
theorem carriesOut_halfReturn : (⟨halfReturnPushed, .ask .step⟩ : Moment).CarriesOut
    ⟨0x0201, ⟨0x40, .rti, .implied, 6⟩, .none⟩ := ⟨rfl, rfl⟩

set_option maxRecDepth 2000 in
theorem read_halfReturn :
    halfReturnPushed.machine.bus.read (stackSlot (halfReturnPushed.machine.registers.sp + 1)) =
      .ok 0x34 := rfl

set_option maxRecDepth 2000 in
/-- The return fails, and has cleared the bit that the reset has set. -/
theorem status_bits_kept_halfReturn :
    halfReturn.resets (.resetTo 0x0200) = true ∧ halfReturnReset.machine.status.brk = true ∧
      (Moment.reply ⟨halfReturnPushed, .ask .step⟩ =
        some (.faulted (.bus 0x0201 (some 0x40) (.unmapped 0x0100)))) ∧
      (halfReturnReset.followedBy [.ask .step, .ask .step]).machine.status.brk = false ∧
      (halfReturnReset.followedBy [.ask .step, .ask .step]).machine.status.unused = true := by
  have hresets : halfReturn.resets (.resetTo 0x0200) = true := rfl
  obtain ⟨hkept, -⟩ := status_bits_kept hresets
  have h : halfReturnReset.KeepsBits [.ask .step, .ask .step] := hkept _ (by decide)
  obtain ⟨-, hclear⟩ := h.brk_cleared ⟨halfReturnPushed, .ask .step⟩
    (List.mem_cons_of_mem _ List.mem_cons_self) _ _ carriesOut_halfReturn (by decide) read_halfReturn
  exact ⟨hresets, rfl, rfl, hclear, h.unused⟩

end Session
end Mos6502

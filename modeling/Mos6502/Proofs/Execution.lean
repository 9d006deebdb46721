import Mos6502.Machine.Access
import Mos6502.Processor.Execute
import Mos6502.Proofs.FlatView

/-! Reasoning about the execution of an instruction. `Exec.wp` turns a condition on what a
computation ends with into one on the core that it starts from; there is one rule for each
primitive and one for each of the routines that actions are made of, so that an action is opened
into its memory accesses and register updates without running it. -/
namespace Mos6502

namespace Core

def hear (c : Core) (ns : List BusNotice) : Core := { c with notices := c.notices ++ ns.map .bus }

def store (c : Core) (a : Word) (v : Byte) : Core :=
  { c.hear (c.bus.onWrite a v) with bus := c.bus.put a v }

def update (c : Core) (f : Registers → Registers) : Core := { c with registers := f c.registers }

/-- Stores a byte where the stack pointer points, and lowers it. -/
def push (c : Core) (v : Byte) : Core :=
  (c.store c.registers.stackAddress v).update fun r => { r with sp := r.sp - 1 }

def raise (c : Core) : Core := c.update fun r => { r with sp := r.sp + 1 }

@[simp] theorem hear_nil (c : Core) : c.hear [] = c := by
  simp [hear]

@[simp] theorem hear_hear (c : Core) (ns ms : List BusNotice) :
    (c.hear ns).hear ms = c.hear (ns ++ ms) := by
  simp [hear]

@[simp] theorem registers_hear (c : Core) (ns : List BusNotice) :
    (c.hear ns).registers = c.registers := rfl

@[simp] theorem bus_hear (c : Core) (ns : List BusNotice) : (c.hear ns).bus = c.bus := rfl

@[simp] theorem registers_store (c : Core) (a : Word) (v : Byte) :
    (c.store a v).registers = c.registers := rfl

@[simp] theorem bus_store (c : Core) (a : Word) (v : Byte) : (c.store a v).bus = c.bus.put a v := rfl

@[simp] theorem registers_update (c : Core) (f : Registers → Registers) :
    (c.update f).registers = f c.registers := rfl

@[simp] theorem bus_update (c : Core) (f : Registers → Registers) : (c.update f).bus = c.bus := rfl

@[simp] theorem registers_push (c : Core) (v : Byte) :
    (c.push v).registers = { c.registers with sp := c.registers.sp - 1 } := rfl

@[simp] theorem bus_push (c : Core) (v : Byte) :
    (c.push v).bus = c.bus.put c.registers.stackAddress v := rfl

@[simp] theorem registers_raise (c : Core) :
    c.raise.registers = { c.registers with sp := c.registers.sp + 1 } := rfl

@[simp] theorem bus_raise (c : Core) : c.raise.bus = c.bus := rfl

end Core

namespace Target

/-- The address that the target comes to on a bus. -/
def address (t : Target) (bus : Bus) : Except Trap Word :=
  match t with
  | .direct a => .ok a
  | .indirect pointer index =>
    match bus.readWord pointer with
    | .ok a => .ok (a + index)
    | .error e => .error (.bus e)
  | .outsideZeroPage pointer => .error (.pointerOutsideZeroPage pointer)
  | .absent => .error .noAddress

def heard (t : Target) (bus : Bus) : List BusNotice :=
  match t with
  | .indirect pointer _ => bus.onReadWord pointer
  | _ => []

end Target

namespace Instruction

/-- The effective address, computed from the registers behind the fetch of the instruction. -/
def effectiveAddress (i : Instruction) (r : Registers) (bus : Bus) : Except Trap Word :=
  (i.target r).address bus

def memoryValue (i : Instruction) (r : Registers) (bus : Bus) : Except Trap Byte :=
  match i.effectiveAddress r bus with
  | .error t => .error t
  | .ok a =>
    match bus.read a with
    | .ok v => .ok v
    | .error e => .error (.bus e)

def memoryHeard (i : Instruction) (r : Registers) (bus : Bus) : List BusNotice :=
  (i.target r).heard bus ++
    match i.effectiveAddress r bus with
    | .error _ => []
    | .ok a => bus.onRead a

/-- The byte that the instruction operates on. -/
def operandValue (i : Instruction) (r : Registers) (bus : Bus) : Except Trap Byte :=
  match i.mode with
  | .immediate => .ok i.byte
  | .accumulator => .ok r.a
  | _ => i.memoryValue r bus

def operandHeard (i : Instruction) (r : Registers) (bus : Bus) : List BusNotice :=
  match i.mode with
  | .immediate | .accumulator => []
  | _ => i.memoryHeard r bus

end Instruction

theorem Bus.onRead_of_not_isMapped {bus : Bus} {a : Word} (h : bus.isMapped a = false) :
    bus.onRead a = [] := by
  simp only [isMapped, Option.isSome_eq_false_iff, Option.isNone_iff_eq_none] at h
  simp [onRead, h]

section
variable {bus : Bus}

theorem Bus.onReadWord_of_isPlain (hp : bus.isPlain = true) (a : Word) : bus.onReadWord a = [] := by
  simp [onReadWord, onRead_of_isPlain hp]

theorem Target.heard_of_isPlain (hp : bus.isPlain = true) (t : Target) : t.heard bus = [] := by
  cases t <;> simp [heard, Bus.onReadWord_of_isPlain hp]

theorem Instruction.memoryHeard_of_isPlain (hp : bus.isPlain = true) (i : Instruction)
    (r : Registers) : i.memoryHeard r bus = [] := by
  unfold memoryHeard
  cases i.effectiveAddress r bus <;>
    simp [Target.heard_of_isPlain hp, Bus.onRead_of_isPlain hp]

theorem Instruction.operandHeard_of_isPlain (hp : bus.isPlain = true) (i : Instruction)
    (r : Registers) : i.operandHeard r bus = [] := by
  cases h : i.mode <;> simp [operandHeard, h, memoryHeard_of_isPlain hp]

end

namespace Exec
variable {α β : Type} {Q : α → Core → Prop} {E : Trap → Core → Prop} {c : Core}

/-- What has to hold before `x` for it to end in `Q` or, if it traps, in `E`. -/
def wp (x : Exec α) (Q : α → Core → Prop) (E : Trap → Core → Prop) (c : Core) : Prop :=
  match x c with
  | .ok v c => Q v c
  | .error t c => E t c

theorem of_wp_ok {x : Exec α} {v : α} {c' : Core} (h : wp x Q E c) (hx : x c = .ok v c') :
    Q v c' := by
  simpa [wp, hx] using h

theorem of_wp_error {x : Exec α} {t : Trap} {c' : Core} (h : wp x Q E c) (hx : x c = .error t c') :
    E t c' := by
  simpa [wp, hx] using h

theorem exists_of_wp {x : Exec α} (h : wp x Q (fun _ _ => False) c) :
    ∃ v c', x c = .ok v c' ∧ Q v c' := by
  unfold wp at h
  cases hx : x c with
  | ok v c' => exact ⟨v, c', rfl, by simpa [hx] using h⟩
  | error t c' => simp [hx] at h

theorem wp_mono {Q' : α → Core → Prop} {x : Exec α} (h : wp x Q E c)
    (hQ : ∀ v c', Q v c' → Q' v c') : wp x Q' E c := by
  unfold wp at h ⊢
  cases hx : x c with
  | ok v c' => exact hQ v c' (by simpa [hx] using h)
  | error t c' => simpa [hx] using h

/-- What a computation ends with is settled by what holds of its end. -/
theorem eq_ok_iff_of_wp {x : Exec α} {R : Except Trap α} {heard c' : Core} {v : α}
    (h : wp x (fun v c' => R = .ok v ∧ c' = heard) (fun t _ => R = .error t) c) :
    x c = .ok v c' ↔ R = .ok v ∧ c' = heard := by
  unfold wp at h
  cases hx : x c with
  | ok u d =>
    simp only [hx] at h
    obtain ⟨rfl, rfl⟩ := h
    simp [eq_comm]
  | error t d =>
    simp only [hx] at h
    simp [h]

@[simp] theorem wp_pure (v : α) : wp (pure v) Q E c ↔ Q v c := Iff.rfl

@[simp] theorem wp_bind {R : β → Core → Prop} (x : Exec α) (f : α → Exec β) :
    wp (x >>= f) R E c ↔ wp x (fun v => wp (f v) R E) E c := by
  simp only [wp, bind, EStateM.bind]
  cases x c <;> rfl

@[simp] theorem wp_map {R : β → Core → Prop} (f : α → β) (x : Exec α) :
    wp (f <$> x) R E c ↔ wp x (fun v => R (f v)) E c := by
  simp only [wp, Functor.map, EStateM.map]
  cases x c <;> rfl

@[simp] theorem wp_ite {p : Prop} [Decidable p] (x y : Exec α) :
    wp (if p then x else y) Q E c ↔ if p then wp x Q E c else wp y Q E c := by
  split <;> rfl

@[simp] theorem wp_registers {Q : Registers → Core → Prop} :
    wp registers Q E c ↔ Q c.registers c := Iff.rfl

@[simp] theorem wp_update {Q : Unit → Core → Prop} (f : Registers → Registers) :
    wp (update f) Q E c ↔ Q () (c.update f) := Iff.rfl

@[simp] theorem wp_notice {Q : Unit → Core → Prop} (n : Notice) :
    wp (notice n) Q E c ↔ Q () { c with notices := c.notices ++ [n] } := Iff.rfl

@[simp] theorem wp_trap (t : Trap) : wp (trap t) Q E c ↔ E t c := Iff.rfl

@[simp] theorem wp_readByte {Q : Byte → Core → Prop} (a : Word) :
    wp (readByte a) Q E c ↔
      (∀ v, c.bus.read a = .ok v → Q v (c.hear (c.bus.onRead a))) ∧
        (c.bus.isMapped a = false → E (.bus (.unmapped a)) c) := by
  unfold wp readByte
  cases hm : c.bus.isMapped a with
  | false => simp [Bus.read_of_not_isMapped hm]
  | true =>
    obtain ⟨v, hv⟩ := Bus.read_of_isMapped hm
    simp [hv, Core.hear]

@[simp] theorem wp_writeByte {Q : Unit → Core → Prop} (a : Word) (v : Byte) :
    wp (writeByte a v) Q E c ↔
      (c.bus.isMapped a = true → Q () (c.store a v)) ∧
        (c.bus.isMapped a = false → E (.bus (.unmapped a)) c) := by
  unfold wp writeByte
  rw [Bus.writeRefusal?_eq]
  cases hm : c.bus.isMapped a <;> simp [Core.store, Core.hear]

/-- A byte that has been read can be written back, whatever the registers have become. -/
theorem wp_writeBack {Q : Unit → Core → Prop} {a : Word} {v : Byte} (hv : c.bus.read a = .ok v)
    (f : Registers → Registers) (u : Byte) :
    wp (writeByte a u) Q E (c.update f) ↔ Q () ((c.update f).store a u) := by
  simp [Bus.isMapped_of_read hv]

@[simp] theorem wp_readWord {Q : Word → Core → Prop} (a : Word) :
    wp (readWord a) Q E c ↔
      (∀ w, c.bus.readWord a = .ok w → Q w (c.hear (c.bus.onReadWord a))) ∧
        ∀ e, c.bus.readWord a = .error e → E (.bus e) (c.hear (c.bus.onReadWord a)) := by
  simp only [readWord, wp_bind, wp_readByte, wp_pure, Core.bus_hear, Core.hear_hear, Bus.readWord,
    Bus.onReadWord]
  cases hlow : c.bus.isMapped a with
  | false => simp [Bus.read_of_not_isMapped hlow, bind, Except.bind]
  | true =>
    obtain ⟨low, hl⟩ := Bus.read_of_isMapped hlow
    cases hhigh : c.bus.isMapped (a + 1) with
    | false =>
      simp [hl, Bus.read_of_not_isMapped hhigh, Bus.onRead_of_not_isMapped hhigh, bind, Except.bind]
    | true =>
      obtain ⟨high, hh⟩ := Bus.read_of_isMapped hhigh
      simp [hl, hh, bind, Except.bind, pure, Except.pure]

@[simp] theorem wp_effectiveAddress {Q : Word → Core → Prop} (i : Instruction) :
    wp (effectiveAddress i) Q E c ↔
      (∀ a, i.effectiveAddress c.registers c.bus = .ok a →
        Q a (c.hear ((i.target c.registers).heard c.bus))) ∧
      ∀ t, i.effectiveAddress c.registers c.bus = .error t →
        E t (c.hear ((i.target c.registers).heard c.bus)) := by
  simp only [effectiveAddress, wp_bind, wp_registers, Instruction.effectiveAddress]
  cases i.target c.registers with
  | direct a => simp [resolve, Target.address, Target.heard]
  | indirect pointer index =>
    simp only [resolve, wp_bind, wp_readWord, wp_pure, Target.address, Target.heard]
    cases c.bus.readWord pointer <;> simp
  | outsideZeroPage pointer => simp [resolve, Target.address, Target.heard]
  | absent => simp [resolve, Target.address, Target.heard]

theorem wp_memory {Q : Byte → Core → Prop} (i : Instruction) :
    wp (effectiveAddress i >>= readByte) Q E c ↔
      (∀ v, i.memoryValue c.registers c.bus = .ok v →
        Q v (c.hear (i.memoryHeard c.registers c.bus))) ∧
      ∀ t, i.memoryValue c.registers c.bus = .error t →
        E t (c.hear (i.memoryHeard c.registers c.bus)) := by
  simp only [wp_bind, wp_effectiveAddress, wp_readByte, Core.bus_hear, Core.hear_hear,
    Instruction.memoryValue, Instruction.memoryHeard]
  cases i.effectiveAddress c.registers c.bus with
  | error t => simp
  | ok a =>
    cases hm : c.bus.isMapped a with
    | false => simp [hm, Bus.read_of_not_isMapped hm, Bus.onRead_of_not_isMapped hm]
    | true =>
      obtain ⟨v, hv⟩ := Bus.read_of_isMapped hm
      simp [hm, hv]

@[simp] theorem wp_operand {Q : Byte → Core → Prop} (i : Instruction) :
    wp (operand i) Q E c ↔
      (∀ v, i.operandValue c.registers c.bus = .ok v →
        Q v (c.hear (i.operandHeard c.registers c.bus))) ∧
      ∀ t, i.operandValue c.registers c.bus = .error t →
        E t (c.hear (i.operandHeard c.registers c.bus)) := by
  simp only [operand, Instruction.operandValue, Instruction.operandHeard]
  cases i.mode with
  | immediate => simp
  | accumulator => simp
  | _ => exact wp_memory i

@[simp] theorem wp_push {Q : Unit → Core → Prop} (v : Byte) :
    wp (push v) Q E c ↔
      (c.bus.isMapped c.registers.stackAddress = true → Q () (c.push v)) ∧
        (c.bus.isMapped c.registers.stackAddress = false →
          E (.bus (.unmapped c.registers.stackAddress)) c) := by
  simp [push, Core.push]

@[simp] theorem wp_pull {Q : Byte → Core → Prop} :
    wp pull Q E c ↔
      (∀ v, c.bus.read c.raise.registers.stackAddress = .ok v →
        Q v (c.raise.hear (c.bus.onRead c.raise.registers.stackAddress))) ∧
      (c.bus.isMapped c.raise.registers.stackAddress = false →
        E (.bus (.unmapped c.raise.registers.stackAddress)) c.raise) := by
  simp [pull, Core.raise]

@[simp] theorem wp_pushWord {Q : Unit → Core → Prop} (w : Word) :
    wp (pushWord w) Q E c ↔ wp (push w.high) (fun _ => wp (push w.low) Q E) E c := by
  simp only [pushWord, wp_bind]

@[simp] theorem wp_pullWord {Q : Word → Core → Prop} :
    wp pullWord Q E c ↔
      wp pull (fun low => wp pull (fun high => Q (Word.join low high)) E) E c := by
  simp [pullWord]

/-- What no write changes, no action changes. -/
theorem act_bus {P : Bus → Prop} (hput : ∀ bus a v, P bus → P (bus.put a v)) (h : P c.bus)
    (i : Instruction) (a : Action) :
    wp (act i a) (fun _ c' => P c'.bus) (fun _ c' => P c'.bus) c := by
  cases a with
  | softwareInterrupt =>
    have hpushed (a₁ a₂ a₃ : Word) (v₁ v₂ v₃ : Byte) :
        P (((c.bus.put a₁ v₁).put a₂ v₂).put a₃ v₃) :=
      hput _ _ _ (hput _ _ _ (hput _ _ _ h))
    simp [act, softwareInterrupt, hput, h, hpushed]
  | _ => simp [act, store, maskBits, modifyByte, jump, hput, h]

end Exec
end Mos6502

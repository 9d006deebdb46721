import Mos6502.Instruction.Basic
import Mos6502.Processor.Fault

/-! Decoding: the instruction that the bytes from an address on encode, and the bus addresses that
are read to find it. -/
namespace Mos6502

/-- Reads an operand of the given number of bytes. -/
def Operand.read (bus : Bus) (a : Word) : Nat → Except BusError Operand
  | 0 => .ok .none
  | 1 => (bus.read a).map .byte
  | _ => (bus.readWord a).map .word

namespace Instruction

def decode (bus : Bus) (pc : Word) : Except Fault Instruction :=
  match bus.read pc with
  | .error e => .error (.bus pc none e)
  | .ok code =>
    match Opcode.lookup code with
    | none => .error (.illegalOpcode pc code)
    | some opcode =>
      match Operand.read bus (pc + 1) opcode.mode.operandBytes with
      | .error e => .error (.bus pc (some code) e)
      | .ok operand => .ok ⟨pc, opcode, operand⟩

/-- The addresses of the operand bytes of an opcode that stands at `pc`. -/
def operandAddresses (pc : Word) (o : Opcode) : List Word :=
  (List.range o.mode.operandBytes).map fun i => pc + 1 + UInt16.ofNat i

/-- The addresses that decoding reads with success, in order. -/
def fetches (bus : Bus) (pc : Word) : List Word :=
  match bus.read pc with
  | .error _ => []
  | .ok code =>
    match Opcode.lookup code with
    | none => [pc]
    | some opcode => pc :: (operandAddresses pc opcode).takeWhile bus.isMapped

/-- What decoding leaves for others to see. -/
def onDecode (bus : Bus) (pc : Word) : List BusNotice := (fetches bus pc).flatMap bus.onRead

@[simp] theorem address_of_decode {bus : Bus} {pc : Word} {i : Instruction}
    (h : decode bus pc = .ok i) : i.address = pc := by
  unfold decode at h
  split at h
  · simp at h
  · split at h
    · simp at h
    · split at h
      · simp at h
      · simp only [Except.ok.injEq] at h
        rw [← h]

end Instruction
end Mos6502

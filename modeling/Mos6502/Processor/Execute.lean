import Mos6502.Processor.Addressing

/-! Execution of one instruction, the program counter being past it already. -/
namespace Mos6502

def interruptVector : Word := 0xFFFE

namespace Exec

def store (i : Instruction) (value : Registers → Byte) : Exec Unit := do
  let a ← effectiveAddress i
  let r ← registers
  writeByte a (value r)

/-- Sets or clears, in memory, the bits that the accumulator has. -/
def maskBits (i : Instruction) (set : Bool) : Exec Unit := do
  let a ← effectiveAddress i
  let m ← readByte a
  update (·.testZero m)
  let r ← registers
  writeByte a (if set then m ||| r.a else m &&& ~~~r.a)

/-- Changes the accumulator or a byte of memory, and sets zero and negative from the new byte. -/
def modifyByte (i : Instruction) (k : Change) : Exec Unit := do
  let r ← registers
  if i.mode = .accumulator then
    update fun r => { r with a := k.result r.status.carry r.a
                             status.carry := k.carryOut r.status.carry r.a }
    update fun r => r.ofResult r.a
  else
    let a ← effectiveAddress i
    let v ← readByte a
    let result := k.result r.status.carry v
    update (·.setCarry (k.carryOut r.status.carry v))
    writeByte a result
    update (·.ofResult result)

def jump (i : Instruction) : Exec Unit := do
  let a ← effectiveAddress i
  update fun r => { r with pc := a }

/-- The byte behind the opcode is padding, so the return address skips it. -/
def softwareInterrupt (i : Instruction) : Exec Unit := do
  let r ← registers
  let back := r.pc + 1
  pushWord back
  let r ← registers
  push r.status.pushed
  update fun r => { r with status.interruptDisable := true }
  let handler ← readWord interruptVector
  update fun r => { r with pc := handler }
  notice (.softwareInterrupt i.address back handler)

def act (i : Instruction) : Action → Exec Unit
  | .load d => do
    let m ← operand i
    update (·.load d m)
  | .store d => store i (·.get d)
  | .storeZero => store i fun _ => 0
  | .combine o => do
    let m ← operand i
    update (·.combine o m)
  | .compare d => do
    let m ← operand i
    update (·.compare d m)
  | .testBits => do
    let m ← operand i
    update (·.testZero m)
    if i.mode ≠ .immediate then update (·.copyTopBits m)
  | .mask set => maskBits i set
  | .modify k => modifyByte i k
  | .count d k => update fun r => r.load d (k.result r.status.carry (r.get d))
  | .branch flag expected => do
    let r ← registers
    if r.status.get flag = expected then jump i
  | .branchAlways => jump i
  | .jump => jump i
  | .call => do
    let r ← registers
    pushWord (r.pc - 1)
    update fun r => { r with pc := i.word }
  | .leave => do
    let a ← pullWord
    update fun r => { r with pc := a + 1 }
  | .softwareInterrupt => softwareInterrupt i
  | .leaveInterrupt => do
    let b ← pull
    update fun r => { r with status := .pulled b }
    let a ← pullWord
    update fun r => { r with pc := a }
  | .push d => do
    let r ← registers
    push (r.get d)
  | .pull d => do
    let m ← pull
    update (·.load d m)
  | .pushStatus => do
    let r ← registers
    push r.status.pushed
  | .pullStatus => do
    let b ← pull
    update fun r => { r with status := .pulled b }
  | .transfer source target => update fun r => r.load target (r.get source)
  | .readStackPointer => update fun r => r.load .x r.sp
  | .setStackPointer => update fun r => { r with sp := r.x }
  | .assign flag value => update fun r => { r with status := r.status.set flag value }
  | .idle => pure ()
  | .halt => pure ()

/-- Moves the program counter past an instruction and then carries the instruction out. -/
def run (i : Instruction) : Exec Unit := do
  update fun r => { r with pc := i.next }
  act i i.mnemonic.action

end Exec
end Mos6502

import Mos6502.Opcode.Mnemonic
import Mos6502.Registers.Basic

/-! What each mnemonic does. Mnemonics that differ only in the register, flag or operation they
name share one action with a parameter. -/
namespace Mos6502

/-- An operation of the accumulator with an operand byte. -/
inductive Combination
  | add | subtract | conjoin | disjoin | exclude
  deriving DecidableEq, Repr

/-- A change of one byte in place. -/
inductive Change
  | shiftLeft | shiftRight | rotateLeft | rotateRight | increment | decrement
  deriving DecidableEq, Repr

inductive Action
  | load (target : DataRegister) | store (source : DataRegister) | storeZero
  | combine (operation : Combination) | compare (register : DataRegister) | testBits
  /-- Sets or clears the bits of the accumulator in memory. -/
  | mask (set : Bool)
  | modify (change : Change) | count (register : DataRegister) (change : Change)
  | branch (flag : Flag) (expected : Bool) | branchAlways
  | jump | call | leave | softwareInterrupt | leaveInterrupt
  | push (source : DataRegister) | pull (target : DataRegister) | pushStatus | pullStatus
  | transfer (source target : DataRegister) | readStackPointer | setStackPointer
  | assign (flag : Flag) (value : Bool)
  | idle | halt
  deriving DecidableEq, Repr

def Mnemonic.action : Mnemonic → Action
  | .lda => .load .a
  | .ldx => .load .x
  | .ldy => .load .y
  | .sta => .store .a
  | .stx => .store .x
  | .sty => .store .y
  | .stz => .storeZero
  | .adc => .combine .add
  | .sbc => .combine .subtract
  | .and => .combine .conjoin
  | .ora => .combine .disjoin
  | .eor => .combine .exclude
  | .cmp => .compare .a
  | .cpx => .compare .x
  | .cpy => .compare .y
  | .bit => .testBits
  | .trb => .mask false
  | .tsb => .mask true
  | .asl => .modify .shiftLeft
  | .lsr => .modify .shiftRight
  | .rol => .modify .rotateLeft
  | .ror => .modify .rotateRight
  | .inc => .modify .increment
  | .dec => .modify .decrement
  | .inx => .count .x .increment
  | .iny => .count .y .increment
  | .dex => .count .x .decrement
  | .dey => .count .y .decrement
  | .bcc => .branch .carry false
  | .bcs => .branch .carry true
  | .bne => .branch .zero false
  | .beq => .branch .zero true
  | .bpl => .branch .negative false
  | .bmi => .branch .negative true
  | .bvc => .branch .overflow false
  | .bvs => .branch .overflow true
  | .bra => .branchAlways
  | .jmp => .jump
  | .jsr => .call
  | .rts => .leave
  | .brk => .softwareInterrupt
  | .rti => .leaveInterrupt
  | .pha => .push .a
  | .phx => .push .x
  | .phy => .push .y
  | .pla => .pull .a
  | .plx => .pull .x
  | .ply => .pull .y
  | .php => .pushStatus
  | .plp => .pullStatus
  | .tax => .transfer .a .x
  | .tay => .transfer .a .y
  | .txa => .transfer .x .a
  | .tya => .transfer .y .a
  | .tsx => .readStackPointer
  | .txs => .setStackPointer
  | .clc => .assign .carry false
  | .sec => .assign .carry true
  | .cli => .assign .interruptDisable false
  | .sei => .assign .interruptDisable true
  | .cld => .assign .decimal false
  | .sed => .assign .decimal true
  | .clv => .assign .overflow false
  | .nop => .idle
  | .halt => .halt

end Mos6502

import Mos6502.Text.Address

/-! Instruction mnemonics of the processor, of its CMOS successor, and of the emulator itself. -/
namespace Mos6502

inductive Mnemonic
  | adc | and | asl | bcc | bcs | beq | bit | bmi | bne | bpl | bra | brk | bvc | bvs | clc | cld
  | cli | clv | cmp | cpx | cpy | dec | dex | dey | eor | inc | inx | iny | jmp | jsr | lda | ldx
  | ldy | lsr | nop | ora | pha | php | phx | phy | pla | plp | plx | ply | rol | ror | rti | rts
  | sbc | sec | sed | sei | sta | stx | sty | stz | tax | tay | trb | tsb | tsx | txa | txs | tya
  | halt
  deriving DecidableEq, Repr

namespace Mnemonic

def all : List Mnemonic :=
  [.adc, .and, .asl, .bcc, .bcs, .beq, .bit, .bmi, .bne, .bpl, .bra, .brk, .bvc, .bvs, .clc,
   .cld, .cli, .clv, .cmp, .cpx, .cpy, .dec, .dex, .dey, .eor, .inc, .inx, .iny, .jmp, .jsr,
   .lda, .ldx, .ldy, .lsr, .nop, .ora, .pha, .php, .phx, .phy, .pla, .plp, .plx, .ply, .rol,
   .ror, .rti, .rts, .sbc, .sec, .sed, .sei, .sta, .stx, .sty, .stz, .tax, .tay, .trb, .tsb,
   .tsx, .txa, .txs, .tya, .halt]

theorem mem_all (m : Mnemonic) : m ∈ all := by
  cases m <;> decide

def name : Mnemonic → String
  | .adc => "ADC"
  | .and => "AND"
  | .asl => "ASL"
  | .bcc => "BCC"
  | .bcs => "BCS"
  | .beq => "BEQ"
  | .bit => "BIT"
  | .bmi => "BMI"
  | .bne => "BNE"
  | .bpl => "BPL"
  | .bra => "BRA"
  | .brk => "BRK"
  | .bvc => "BVC"
  | .bvs => "BVS"
  | .clc => "CLC"
  | .cld => "CLD"
  | .cli => "CLI"
  | .clv => "CLV"
  | .cmp => "CMP"
  | .cpx => "CPX"
  | .cpy => "CPY"
  | .dec => "DEC"
  | .dex => "DEX"
  | .dey => "DEY"
  | .eor => "EOR"
  | .inc => "INC"
  | .inx => "INX"
  | .iny => "INY"
  | .jmp => "JMP"
  | .jsr => "JSR"
  | .lda => "LDA"
  | .ldx => "LDX"
  | .ldy => "LDY"
  | .lsr => "LSR"
  | .nop => "NOP"
  | .ora => "ORA"
  | .pha => "PHA"
  | .php => "PHP"
  | .phx => "PHX"
  | .phy => "PHY"
  | .pla => "PLA"
  | .plp => "PLP"
  | .plx => "PLX"
  | .ply => "PLY"
  | .rol => "ROL"
  | .ror => "ROR"
  | .rti => "RTI"
  | .rts => "RTS"
  | .sbc => "SBC"
  | .sec => "SEC"
  | .sed => "SED"
  | .sei => "SEI"
  | .sta => "STA"
  | .stx => "STX"
  | .sty => "STY"
  | .stz => "STZ"
  | .tax => "TAX"
  | .tay => "TAY"
  | .trb => "TRB"
  | .tsb => "TSB"
  | .tsx => "TSX"
  | .txa => "TXA"
  | .txs => "TXS"
  | .tya => "TYA"
  | .halt => "HALT"

/-- `HALT` belongs to the emulator; no real processor has it. -/
def isHostExtension (m : Mnemonic) : Bool := m == .halt

def ofName? (s : String) : Option Mnemonic :=
  let wanted := (Text.trimBlanks s.toList).map Char.toUpper
  all.find? fun m => m.name.toList == wanted

end Mnemonic

structure UnknownMnemonic where
  text : String
  deriving DecidableEq, Repr

def UnknownMnemonic.message (e : UnknownMnemonic) : String :=
  "unknown mnemonic '" ++ e.text ++ "'"

def Mnemonic.parse (s : String) : Except UnknownMnemonic Mnemonic :=
  match Mnemonic.ofName? s with
  | some m => .ok m
  | none => .error ⟨s⟩

end Mos6502

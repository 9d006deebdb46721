import Mos6502.Word
import Mos6502.Opcode.Mnemonic
import Mos6502.Opcode.Mode

/-! The opcode table: for each legal opcode byte its mnemonic, its addressing mode, and the base
cycles it costs. No byte is listed twice, so a byte has at most one descriptor. -/
namespace Mos6502

structure Opcode where
  code : Byte
  mnemonic : Mnemonic
  mode : AddressingMode
  cycles : Nat
  deriving DecidableEq, Repr

namespace Opcode

/-- Length of the instruction, opcode byte included. -/
def length (o : Opcode) : Nat := 1 + o.mode.operandBytes

def text (o : Opcode) : String := o.mnemonic.name ++ " " ++ o.mode.name

def table : List Opcode :=
  [⟨0x69, .adc, .immediate, 2⟩, ⟨0x65, .adc, .zeroPage, 3⟩, ⟨0x75, .adc, .zeroPageX, 4⟩,
   ⟨0x6D, .adc, .absolute, 4⟩, ⟨0x7D, .adc, .absoluteX, 4⟩, ⟨0x79, .adc, .absoluteY, 4⟩,
   ⟨0x61, .adc, .indirectX, 6⟩, ⟨0x71, .adc, .indirectY, 5⟩, ⟨0x72, .adc, .zeroPageIndirect, 5⟩,
   ⟨0x29, .and, .immediate, 2⟩, ⟨0x25, .and, .zeroPage, 3⟩, ⟨0x35, .and, .zeroPageX, 4⟩,
   ⟨0x2D, .and, .absolute, 4⟩, ⟨0x3D, .and, .absoluteX, 4⟩, ⟨0x39, .and, .absoluteY, 4⟩,
   ⟨0x21, .and, .indirectX, 6⟩, ⟨0x31, .and, .indirectY, 5⟩, ⟨0x32, .and, .zeroPageIndirect, 5⟩,
   ⟨0x0A, .asl, .accumulator, 2⟩, ⟨0x06, .asl, .zeroPage, 5⟩, ⟨0x16, .asl, .zeroPageX, 6⟩,
   ⟨0x0E, .asl, .absolute, 6⟩, ⟨0x1E, .asl, .absoluteX, 7⟩,
   ⟨0x90, .bcc, .relative, 2⟩,
   ⟨0xB0, .bcs, .relative, 2⟩,
   ⟨0xF0, .beq, .relative, 2⟩,
   ⟨0x24, .bit, .zeroPage, 3⟩, ⟨0x2C, .bit, .absolute, 4⟩, ⟨0x89, .bit, .immediate, 2⟩,
   ⟨0x34, .bit, .zeroPageX, 4⟩, ⟨0x3C, .bit, .absoluteX, 4⟩,
   ⟨0x30, .bmi, .relative, 2⟩,
   ⟨0xD0, .bne, .relative, 2⟩,
   ⟨0x10, .bpl, .relative, 2⟩,
   ⟨0x80, .bra, .relative, 3⟩,
   ⟨0x00, .brk, .implied, 7⟩,
   ⟨0x50, .bvc, .relative, 2⟩,
   ⟨0x70, .bvs, .relative, 2⟩,
   ⟨0x18, .clc, .implied, 2⟩,
   ⟨0xD8, .cld, .implied, 2⟩,
   ⟨0x58, .cli, .implied, 2⟩,
   ⟨0xB8, .clv, .implied, 2⟩,
   ⟨0xC9, .cmp, .immediate, 2⟩, ⟨0xC5, .cmp, .zeroPage, 3⟩, ⟨0xD5, .cmp, .zeroPageX, 4⟩,
   ⟨0xCD, .cmp, .absolute, 4⟩, ⟨0xDD, .cmp, .absoluteX, 4⟩, ⟨0xD9, .cmp, .absoluteY, 4⟩,
   ⟨0xC1, .cmp, .indirectX, 6⟩, ⟨0xD1, .cmp, .indirectY, 5⟩, ⟨0xD2, .cmp, .zeroPageIndirect, 5⟩,
   ⟨0xE0, .cpx, .immediate, 2⟩, ⟨0xE4, .cpx, .zeroPage, 3⟩, ⟨0xEC, .cpx, .absolute, 4⟩,
   ⟨0xC0, .cpy, .immediate, 2⟩, ⟨0xC4, .cpy, .zeroPage, 3⟩, ⟨0xCC, .cpy, .absolute, 4⟩,
   ⟨0xC6, .dec, .zeroPage, 5⟩, ⟨0xD6, .dec, .zeroPageX, 6⟩, ⟨0xCE, .dec, .absolute, 6⟩,
   ⟨0xDE, .dec, .absoluteX, 7⟩, ⟨0x3A, .dec, .accumulator, 2⟩,
   ⟨0xCA, .dex, .implied, 2⟩,
   ⟨0x88, .dey, .implied, 2⟩,
   ⟨0x49, .eor, .immediate, 2⟩, ⟨0x45, .eor, .zeroPage, 3⟩, ⟨0x55, .eor, .zeroPageX, 4⟩,
   ⟨0x4D, .eor, .absolute, 4⟩, ⟨0x5D, .eor, .absoluteX, 4⟩, ⟨0x59, .eor, .absoluteY, 4⟩,
   ⟨0x41, .eor, .indirectX, 6⟩, ⟨0x51, .eor, .indirectY, 5⟩, ⟨0x52, .eor, .zeroPageIndirect, 5⟩,
   ⟨0xE6, .inc, .zeroPage, 5⟩, ⟨0xF6, .inc, .zeroPageX, 6⟩, ⟨0xEE, .inc, .absolute, 6⟩,
   ⟨0xFE, .inc, .absoluteX, 7⟩, ⟨0x1A, .inc, .accumulator, 2⟩,
   ⟨0xE8, .inx, .implied, 2⟩,
   ⟨0xC8, .iny, .implied, 2⟩,
   ⟨0x4C, .jmp, .absolute, 3⟩, ⟨0x6C, .jmp, .indirect, 5⟩,
   ⟨0x7C, .jmp, .absoluteIndexedIndirect, 6⟩,
   ⟨0x20, .jsr, .absolute, 6⟩,
   ⟨0xA9, .lda, .immediate, 2⟩, ⟨0xA5, .lda, .zeroPage, 3⟩, ⟨0xB5, .lda, .zeroPageX, 4⟩,
   ⟨0xAD, .lda, .absolute, 4⟩, ⟨0xBD, .lda, .absoluteX, 4⟩, ⟨0xB9, .lda, .absoluteY, 4⟩,
   ⟨0xA1, .lda, .indirectX, 6⟩, ⟨0xB1, .lda, .indirectY, 5⟩, ⟨0xB2, .lda, .zeroPageIndirect, 5⟩,
   ⟨0xA2, .ldx, .immediate, 2⟩, ⟨0xA6, .ldx, .zeroPage, 3⟩, ⟨0xB6, .ldx, .zeroPageY, 4⟩,
   ⟨0xAE, .ldx, .absolute, 4⟩, ⟨0xBE, .ldx, .absoluteY, 4⟩,
   ⟨0xA0, .ldy, .immediate, 2⟩, ⟨0xA4, .ldy, .zeroPage, 3⟩, ⟨0xB4, .ldy, .zeroPageX, 4⟩,
   ⟨0xAC, .ldy, .absolute, 4⟩, ⟨0xBC, .ldy, .absoluteX, 4⟩,
   ⟨0x4A, .lsr, .accumulator, 2⟩, ⟨0x46, .lsr, .zeroPage, 5⟩, ⟨0x56, .lsr, .zeroPageX, 6⟩,
   ⟨0x4E, .lsr, .absolute, 6⟩, ⟨0x5E, .lsr, .absoluteX, 7⟩,
   ⟨0xEA, .nop, .implied, 2⟩,
   ⟨0x09, .ora, .immediate, 2⟩, ⟨0x05, .ora, .zeroPage, 3⟩, ⟨0x15, .ora, .zeroPageX, 4⟩,
   ⟨0x0D, .ora, .absolute, 4⟩, ⟨0x1D, .ora, .absoluteX, 4⟩, ⟨0x19, .ora, .absoluteY, 4⟩,
   ⟨0x01, .ora, .indirectX, 6⟩, ⟨0x11, .ora, .indirectY, 5⟩, ⟨0x12, .ora, .zeroPageIndirect, 5⟩,
   ⟨0x48, .pha, .implied, 3⟩,
   ⟨0x08, .php, .implied, 3⟩,
   ⟨0xDA, .phx, .implied, 3⟩,
   ⟨0x5A, .phy, .implied, 3⟩,
   ⟨0x68, .pla, .implied, 4⟩,
   ⟨0x28, .plp, .implied, 4⟩,
   ⟨0xFA, .plx, .implied, 4⟩,
   ⟨0x7A, .ply, .implied, 4⟩,
   ⟨0x2A, .rol, .accumulator, 2⟩, ⟨0x26, .rol, .zeroPage, 5⟩, ⟨0x36, .rol, .zeroPageX, 6⟩,
   ⟨0x2E, .rol, .absolute, 6⟩, ⟨0x3E, .rol, .absoluteX, 7⟩,
   ⟨0x6A, .ror, .accumulator, 2⟩, ⟨0x66, .ror, .zeroPage, 5⟩, ⟨0x76, .ror, .zeroPageX, 6⟩,
   ⟨0x6E, .ror, .absolute, 6⟩, ⟨0x7E, .ror, .absoluteX, 7⟩,
   ⟨0x40, .rti, .implied, 6⟩,
   ⟨0x60, .rts, .implied, 6⟩,
   ⟨0xE9, .sbc, .immediate, 2⟩, ⟨0xE5, .sbc, .zeroPage, 3⟩, ⟨0xF5, .sbc, .zeroPageX, 4⟩,
   ⟨0xED, .sbc, .absolute, 4⟩, ⟨0xFD, .sbc, .absoluteX, 4⟩, ⟨0xF9, .sbc, .absoluteY, 4⟩,
   ⟨0xE1, .sbc, .indirectX, 6⟩, ⟨0xF1, .sbc, .indirectY, 5⟩, ⟨0xF2, .sbc, .zeroPageIndirect, 5⟩,
   ⟨0x38, .sec, .implied, 2⟩,
   ⟨0xF8, .sed, .implied, 2⟩,
   ⟨0x78, .sei, .implied, 2⟩,
   ⟨0x85, .sta, .zeroPage, 3⟩, ⟨0x95, .sta, .zeroPageX, 4⟩, ⟨0x8D, .sta, .absolute, 4⟩,
   ⟨0x9D, .sta, .absoluteX, 5⟩, ⟨0x99, .sta, .absoluteY, 5⟩, ⟨0x81, .sta, .indirectX, 6⟩,
   ⟨0x91, .sta, .indirectY, 6⟩, ⟨0x92, .sta, .zeroPageIndirect, 5⟩,
   ⟨0x86, .stx, .zeroPage, 3⟩, ⟨0x96, .stx, .zeroPageY, 4⟩, ⟨0x8E, .stx, .absolute, 4⟩,
   ⟨0x84, .sty, .zeroPage, 3⟩, ⟨0x94, .sty, .zeroPageX, 4⟩, ⟨0x8C, .sty, .absolute, 4⟩,
   ⟨0x64, .stz, .zeroPage, 3⟩, ⟨0x74, .stz, .zeroPageX, 4⟩, ⟨0x9C, .stz, .absolute, 4⟩,
   ⟨0x9E, .stz, .absoluteX, 5⟩,
   ⟨0xAA, .tax, .implied, 2⟩,
   ⟨0xA8, .tay, .implied, 2⟩,
   ⟨0x14, .trb, .zeroPage, 5⟩, ⟨0x1C, .trb, .absolute, 6⟩,
   ⟨0x04, .tsb, .zeroPage, 5⟩, ⟨0x0C, .tsb, .absolute, 6⟩,
   ⟨0xBA, .tsx, .implied, 2⟩,
   ⟨0x8A, .txa, .implied, 2⟩,
   ⟨0x9A, .txs, .implied, 2⟩,
   ⟨0x98, .tya, .implied, 2⟩,
   ⟨0xFF, .halt, .implied, 1⟩]

theorem codes_nodup : (table.map Opcode.code).Nodup := by decide +kernel

/-- The table by opcode byte; a byte without a descriptor is illegal. -/
def byCode : Array (Option Opcode) :=
  Array.ofFn fun code : Fin 256 => table.find? fun o => o.code.toNat == code.val

@[simp] theorem size_byCode : byCode.size = 256 := by simp [byCode]

def lookup (code : Byte) : Option Opcode :=
  have h : code.toNat < byCode.size := by simpa using code.toNat_lt
  byCode[code.toNat]

theorem lookup_eq_find? (code : Byte) : lookup code = table.find? (·.code == code) := by
  simp only [lookup, byCode, Array.getElem_ofFn]
  congr 1
  funext o
  rw [Bool.eq_iff_iff]
  simp [UInt8.toNat_inj]

theorem mem_table_of_lookup {code : Byte} {o : Opcode} (h : lookup code = some o) :
    o ∈ table ∧ o.code = code := by
  rw [lookup_eq_find?] at h
  exact ⟨List.mem_of_find?_eq_some h, by simpa using List.find?_some h⟩

end Opcode
end Mos6502

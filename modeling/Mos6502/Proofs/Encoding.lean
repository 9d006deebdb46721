import Mathlib.Data.List.Nodup
import Mos6502.Proofs.FaultTruth

/-! Decoding and encoding are inverse to each other. An instruction is decoded from the bytes that
encode it and from nothing else, wherever it stands; behind the last address comes the first. -/
namespace Mos6502

theorem Word.add_ofNat_succ (a : Word) (k : Nat) :
    a + UInt16.ofNat (k + 1) = a + 1 + UInt16.ofNat k := by
  rw [UInt16.ofNat_add, UInt16.add_comm (UInt16.ofNat k), UInt16.add_assoc]
  rfl

/-- How far an address lies behind another, the address behind the other being one step less far. -/
theorem Word.toNat_sub_eq_succ {a b : Word} (h : b ≠ a) :
    (b - a).toNat = (b - (a + 1)).toNat + 1 := by
  have hn : b.toNat ≠ a.toNat := fun he => h (UInt16.toNat_inj.1 he)
  have ha := a.toNat_lt
  have hb := b.toNat_lt
  have hone : (1 : Word).toNat = 1 := rfl
  simp only [UInt16.toNat_sub, UInt16.toNat_add, hone]
  omega

theorem Word.toNat_sub_succ_self (a : Word) : (a - (a + 1)).toNat = 65535 := by
  have ha := a.toNat_lt
  have hone : (1 : Word).toNat = 1 := rfl
  simp only [UInt16.toNat_sub, UInt16.toNat_add, hone]
  omega

/-- What a number of addresses answer to a read, from one address on. -/
def Bus.readEach (bus : Bus) (a : Word) (n : Nat) : List (Except BusError Byte) :=
  (List.range n).map fun k => bus.read (a + UInt16.ofNat k)

@[simp] theorem Bus.readEach_zero (bus : Bus) (a : Word) : bus.readEach a 0 = [] := rfl

theorem Bus.readEach_succ (bus : Bus) (a : Word) (n : Nat) :
    bus.readEach a (n + 1) = bus.read a :: bus.readEach (a + 1) n := by
  simp only [readEach, List.range_succ_eq_map, List.map_cons, List.map_map, Function.comp_def,
    Nat.succ_eq_add_one, Word.add_ofNat_succ]
  simp

namespace Machine
variable {m : Machine} {a : Word} {bytes : List Byte}

/-- Bytes that are written to RAM all get there, and no other address changes. -/
theorem writeBytes_cells (hlen : bytes.length ≤ 65536)
    (hram : ∀ k < bytes.length, (m.bus.cell (a + UInt16.ofNat k)).isRam = true) :
    ∃ m', writeBytes a bytes m = .ok () m' ∧
      ∀ b, m'.bus.cell b =
        match bytes[(b - a).toNat]? with
        | some v => .ram v
        | none => m.bus.cell b := by
  induction bytes generalizing a m with
  | nil => exact ⟨m, rfl, fun b => by simp⟩
  | cons v rest ih =>
    have hfirst : (m.bus.cell a).isRam = true := by simpa using hram 0 (by simp)
    have hwrite := write_eq m a v
    rw [if_pos (Bus.isMapped_of_isRam hfirst)] at hwrite
    generalize hm : ({ m.emitBus (m.bus.onWrite a v) with bus := m.bus.put a v } : Machine) = next
      at hwrite
    have hcell (b : Word) : next.bus.cell b = if b = a then .ram v else m.bus.cell b := by
      rw [← hm]
      exact Bus.cell_put_of_isRam hfirst v b
    have hrest (k : Nat) (hk : k < rest.length) :
        (next.bus.cell (a + 1 + UInt16.ofNat k)).isRam = true := by
      rw [hcell, ← Word.add_ofNat_succ]
      split
      · rfl
      · exact hram (k + 1) (by simpa using hk)
    rw [List.length_cons] at hlen
    obtain ⟨m', hm', hcells⟩ := ih (by omega) hrest
    refine ⟨m', by rw [writeBytes, hwrite]; exact hm', fun b => ?_⟩
    rw [hcells, hcell]
    by_cases hb : b = a
    · subst hb
      have hnone : rest[65535]? = none := List.getElem?_eq_none (by omega)
      have hzero : (b - b).toNat = 0 := by rw [UInt16.sub_self, UInt16.toNat_zero]
      rw [Word.toNat_sub_succ_self, hnone, hzero]
      simp
    · rw [Word.toNat_sub_eq_succ hb, List.getElem?_cons_succ, if_neg hb]

theorem readEach_writeBytes (hlen : bytes.length ≤ 65536)
    (hram : ∀ k < bytes.length, (m.bus.cell (a + UInt16.ofNat k)).isRam = true) :
    ∃ m', writeBytes a bytes m = .ok () m' ∧
      m'.bus.readEach a bytes.length = bytes.map .ok := by
  obtain ⟨m', hm', hcells⟩ := writeBytes_cells hlen hram
  refine ⟨m', hm', List.ext_getElem (by simp [Bus.readEach]) fun k hk _ => ?_⟩
  have hk' : k < bytes.length := by simpa [Bus.readEach] using hk
  have hoff : (a + UInt16.ofNat k - a).toNat = k := by
    rw [UInt16.add_comm, UInt16.add_sub_cancel, UInt16.toNat_ofNat']
    omega
  have hread : m'.bus.read (a + UInt16.ofNat k) = .ok bytes[k] := by
    rw [Bus.read_eq_cell, hcells, hoff, List.getElem?_eq_getElem hk']
    rfl
  simpa only [Bus.readEach, List.getElem_map, List.getElem_range] using hread

end Machine

namespace Opcode

theorem lookup_of_mem {o : Opcode} (h : o ∈ table) : lookup o.code = some o := by
  have hsome : (table.find? (·.code == o.code)).isSome = true :=
    List.find?_isSome.2 ⟨o, h, by simp⟩
  obtain ⟨found, hfound⟩ := Option.isSome_iff_exists.1 hsome
  have hcode : found.code = o.code := by simpa using List.find?_some hfound
  rw [lookup_eq_find?, hfound,
    List.inj_on_of_nodup_map codes_nodup (List.mem_of_find?_eq_some hfound) h hcode]

end Opcode

theorem Bus.readWord_eq_ok_iff {bus : Bus} {a w : Word} :
    bus.readWord a = .ok w ↔ bus.read a = .ok w.low ∧ bus.read (a + 1) = .ok w.high := by
  unfold readWord
  cases hlow : bus.read a with
  | error e => simp [bind, Except.bind]
  | ok low =>
    cases hhigh : bus.read (a + 1) with
    | error e => simp [bind, Except.bind]
    | ok high =>
      simp only [bind, Except.bind, pure, Except.pure, Except.ok.injEq]
      constructor
      · rintro rfl
        simp
      · rintro ⟨rfl, rfl⟩
        simp

/-- The operand that is read is the one that the bytes encode. -/
theorem Operand.read_eq_ok_iff {bus : Bus} {a : Word} {n : Nat} (hn : n ≤ 2) {o : Operand} :
    Operand.read bus a n = .ok o ↔ o.fits n = true ∧ bus.readEach a n = o.bytes.map .ok := by
  match n, hn with
  | 0, _ => cases o <;> simp [Operand.read, fits, bytes]
  | 1, _ =>
    rw [Operand.read, Bus.readEach_succ, Bus.readEach_zero]
    cases hr : bus.read a <;> cases o <;> simp [Except.map, fits, bytes]
  | 2, _ =>
    change (bus.readWord a).map .word = .ok o ↔ _
    rw [Bus.readEach_succ, Bus.readEach_succ, Bus.readEach_zero]
    cases o with
    | word w =>
      have hw := @Bus.readWord_eq_ok_iff bus a w
      cases hr : bus.readWord a <;> simp_all [Except.map, fits, bytes]
    | none => cases hr : bus.readWord a <;> simp [Except.map, fits, bytes]
    | byte b => cases hr : bus.readWord a <;> simp [Except.map, fits, bytes]

namespace Instruction
variable {bus : Bus} {pc : Word} {i : Instruction}

theorem length_eq (i : Instruction) : i.length = i.mode.operandBytes + 1 := Nat.add_comm _ _

/-- What decodes to an instruction is its encoding, and nothing else. -/
theorem decode_eq_ok_iff :
    decode bus pc = .ok i ↔
      i.address = pc ∧ i.opcode ∈ Opcode.table ∧ i.operand.fits i.mode.operandBytes = true ∧
        bus.readEach pc i.length = i.encode.map .ok := by
  have hn := i.mode.operandBytes_le
  rw [length_eq, Bus.readEach_succ, encode, List.map_cons, List.cons.injEq]
  constructor
  · intro h
    obtain ⟨hpc, hcode, ho, hoperand⟩ := of_decode h
    obtain ⟨hfits, hbytes⟩ := (Operand.read_eq_ok_iff hn).1 hoperand
    exact ⟨hpc, (Opcode.mem_table_of_lookup ho).1, hfits, hcode, hbytes⟩
  · rintro ⟨rfl, ho, hfits, hcode, hbytes⟩
    have hoperand := (Operand.read_eq_ok_iff hn).2 ⟨hfits, hbytes⟩
    simp only [mode] at hoperand
    simp [decode, hcode, Opcode.lookup_of_mem ho, hoperand]

/-- An instruction that is written down is decoded again, wherever there is RAM for it; what has
been decoded stands encoded in memory, and wherever else that encoding stands at the same address,
it is decoded in the same way, whatever the rest of memory holds. -/
theorem decode_inverse_encode :
    (∀ (m : Machine) (pc : Word) (o : Opcode) (operand : Operand),
      o ∈ Opcode.table → operand.fits o.mode.operandBytes = true →
      (∀ k < o.length, (m.bus.cell (pc + UInt16.ofNat k)).isRam = true) →
      ∃ m', Machine.writeBytes pc (encode ⟨pc, o, operand⟩) m = .ok () m' ∧
        decode m'.bus pc = .ok ⟨pc, o, operand⟩) ∧
    ∀ (bus : Bus) (pc : Word) (i : Instruction), decode bus pc = .ok i →
      bus.readEach pc i.length = i.encode.map .ok ∧
      ∀ other : Bus, (∀ k < i.length, other.read (pc + UInt16.ofNat k) =
        bus.read (pc + UInt16.ofNat k)) → decode other pc = .ok i := by
  constructor
  · intro m pc o operand ho hfits hram
    have hlength : (encode ⟨pc, o, operand⟩).length = o.length := by
      have hbytes : operand.bytes.length = o.mode.operandBytes := by simpa [Operand.fits] using hfits
      rw [encode, List.length_cons, hbytes]
      exact (length_eq ⟨pc, o, operand⟩).symm
    have hshort : o.length ≤ 65536 := by
      have hn := o.mode.operandBytes_le
      rw [Opcode.length]
      omega
    obtain ⟨m', hm', hread⟩ :=
      @Machine.readEach_writeBytes m pc (encode ⟨pc, o, operand⟩) (by omega) (by rwa [hlength])
    rw [hlength] at hread
    exact ⟨m', hm', decode_eq_ok_iff.2 ⟨rfl, ho, hfits, hread⟩⟩
  · intro bus pc i h
    obtain ⟨hpc, ho, hfits, hread⟩ := decode_eq_ok_iff.1 h
    refine ⟨hread, fun other hother => decode_eq_ok_iff.2 ⟨hpc, ho, hfits, ?_⟩⟩
    rw [← hread]
    exact List.map_congr_left fun k hk => hother k (List.mem_range.1 hk)

/-- Room for an instruction of which two bytes stand at the end of memory and one at its
beginning. -/
def roundTheEnd : Machine where
  bus := ⟨[⟨"top", 0xFFFE, .ram #[0, 0], by simp [Backend.size], by simp [Backend.size]⟩,
    ⟨"low", 0, .ram #[0], by simp [Backend.size], by simp [Backend.size]⟩]⟩

theorem decode_inverse_encode_wrap :
    let i : Instruction := ⟨0xFFFE, ⟨0xAD, .lda, .absolute, 4⟩, .word 0x1234⟩
    ∃ m', Machine.writeBytes 0xFFFE i.encode roundTheEnd = .ok () m' ∧
      decode m'.bus 0xFFFE = .ok i ∧
      m'.bus.readEach 0xFFFE 3 = [.ok 0xAD, .ok 0x34, .ok 0x12] := by
  intro i
  obtain ⟨hwritten, hread⟩ := decode_inverse_encode
  obtain ⟨m', hm', hd⟩ :=
    hwritten roundTheEnd 0xFFFE i.opcode i.operand (by decide +kernel) rfl (by decide)
  exact ⟨m', hm', hd, (hread m'.bus 0xFFFE i hd).1⟩

end Instruction
end Mos6502

import Mos6502.Proofs.LittleEndian
import Mos6502.Proofs.RegisterFrame

/-! Arithmetic on numbers of many bytes. A program adds or subtracts them byte by byte, from the
lowest to the highest, and hands the carry on; what comes out is exact. The invariant is that the
bytes and the carry that come out of some columns are the sum of the bytes and the carry that went
in. -/
namespace Mos6502

namespace Bytes

/-- The bytes and the flags that come out of adding two numbers of equally many bytes and a
carry. -/
structure Sums (c : Bool) (as bs rs : List Byte) (s : Status) : Prop where
  total : number as + number bs + c.toNat = number rs + 256 ^ rs.length * s.carry.toNat
  overflow : s.overflow = true ↔ ¬Fits rs.length (signed as + signed bs + c.toNat)
  negative : s.negative = (number rs).testBit (8 * rs.length - 1)

/-- The bytes and the flags that come out of subtracting a number of equally many bytes. A carry
that is clear is a borrow. -/
structure Subtracts (c : Bool) (as bs rs : List Byte) (s : Status) : Prop where
  total : (number as : Int) - number bs - (1 - c.toNat) =
    number rs - 256 ^ rs.length * (1 - s.carry.toNat)
  overflow : s.overflow = true ↔ ¬Fits rs.length (signed as - signed bs - (1 - c.toNat))
  negative : s.negative = (number rs).testBit (8 * rs.length - 1)

/-- What the flags tell of the order of two numbers. -/
structure Orders (as bs : List Byte) (s : Status) : Prop where
  unsigned : s.carry = decide (number bs ≤ number as)
  signed : (s.negative ^^ s.overflow) = decide (signed as < signed bs)

variable {c c' : Bool} {a b r : Byte} {as bs rs rs' : List Byte} {s s' : Status}

theorem Sums.singleton (hr : r = Byte.sum a b c) (hcarry : s.carry = Byte.sumCarries a b c)
    (hoverflow : s.overflow = Byte.sumOverflows a b c) (hnegative : s.negative = r.isNegative) :
    Sums c [a] [b] [r] s := by
  subst hr
  constructor
  case total =>
    have h := Byte.toNat_sum a b c
    simpa [hcarry] using h.symm
  case overflow => rw [hoverflow, List.length_singleton, sumOverflows_iff]
  case negative => simp [hnegative, Byte.isNegative_eq_testBit]

/-- A byte below a sum that has taken the carry out of it. -/
theorem Sums.cons (hr : a.toNat + b.toNat + c.toNat = r.toNat + 256 * c'.toNat)
    (hrs : rs ≠ []) (has : as.length = rs.length) (hbs : bs.length = rs.length)
    (h : Sums c' as bs rs s) : Sums c (a :: as) (b :: bs) (r :: rs) s := by
  have hlen := List.length_pos_iff.2 hrs
  constructor
  case total =>
    have htotal := h.total
    simp only [number_cons, List.length_cons, pow_succ, Nat.mul_right_comm]
    omega
  case overflow =>
    have hsum : signed (a :: as) + signed (b :: bs) + c.toNat =
        r.toNat + 256 * (signed as + signed bs + c'.toNat) := by
      rw [signed_cons (ne_nil_of_length has hrs), signed_cons (ne_nil_of_length hbs hrs)]
      omega
    rw [h.overflow, hsum, List.length_cons, fits_succ hlen.ne']
  case negative =>
    have hbit := Nat.testBit_two_pow_mul_add (number rs) r.toNat_lt (8 * (rs.length + 1) - 1)
    rw [if_neg (by omega), show 8 * (rs.length + 1) - 1 - 8 = 8 * rs.length - 1 by omega] at hbit
    rw [h.negative, number_cons, Nat.add_comm, List.length_cons]
    exact hbit.symm

theorem Sums.number_eq (h : Sums c as bs rs s) :
    number rs = (number as + number bs + c.toNat) % 256 ^ rs.length := by
  rw [h.total, Nat.add_mul_mod_self_left, Nat.mod_eq_of_lt (number_lt rs)]

theorem Sums.unique (h : Sums c as bs rs s) (h' : Sums c as bs rs' s')
    (hlen : rs'.length = rs.length) :
    rs' = rs ∧ s'.carry = s.carry ∧ s'.overflow = s.overflow ∧ s'.negative = s.negative := by
  obtain rfl : rs' = rs :=
    number_injective hlen (by rw [h'.number_eq, h.number_eq, hlen])
  have htotal := Nat.add_left_cancel (h'.total.symm.trans h.total)
  have hcarry : s'.carry = s.carry := by
    have htoNat := Nat.eq_of_mul_eq_mul_left (Nat.pow_pos (by decide)) htotal
    revert htoNat
    cases s'.carry <;> cases s.carry <;> simp
  have hoverflow : s'.overflow = s.overflow :=
    Bool.eq_iff_iff.2 (h'.overflow.trans h.overflow.symm)
  exact ⟨rfl, hcarry, hoverflow, h'.negative.trans h.negative.symm⟩

theorem Sums.subtracts (h : Sums c as (bs.map (~~~·)) rs s) (hrs : rs ≠ [])
    (hbs : bs.length = rs.length) : Subtracts c as bs rs s := by
  constructor
  case total =>
    have htotal : (number as : Int) + number (bs.map (~~~·)) + c.toNat =
        number rs + 256 ^ rs.length * s.carry.toNat := by exact_mod_cast h.total
    have hcomplement : (number (bs.map (~~~·)) : Int) + number bs + 1 = 256 ^ rs.length := by
      exact_mod_cast hbs ▸ number_complement bs
    rw [mul_sub, mul_one]
    omega
  case overflow =>
    rw [h.overflow, signed_complement (ne_nil_of_length hbs hrs)]
    have hsum : signed as + (-1 - signed bs) + c.toNat = signed as - signed bs - (1 - c.toNat) := by
      omega
    rw [hsum]
  case negative => exact h.negative

theorem Subtracts.orders (h : Subtracts true as bs rs s) (hrs : rs ≠ [])
    (has : as.length = rs.length) (hbs : bs.length = rs.length) : Orders as bs s := by
  obtain ⟨half, hhalf, hcast⟩ := exists_half (mt List.length_eq_zero_iff.1 hrs)
  have hlt := number_lt rs
  have hlt' := number_lt bs
  have htotal := h.total
  rw [hbs, hhalf] at hlt'
  rw [hhalf] at hlt
  rw [hcast] at htotal
  constructor
  case unsigned =>
    cases hc : s.carry <;> simp only [hc, Bool.toNat_true, Bool.toNat_false] at htotal
    · exact (decide_eq_false (by omega)).symm
    · exact (decide_eq_true (by omega)).symm
  case signed =>
    have hfits := fits_signed (ne_nil_of_length has hrs)
    have hfits' := fits_signed (ne_nil_of_length hbs hrs)
    have hfitsResult := fits_signed hrs
    have hoverflow := h.overflow
    simp only [Fits, has, hbs, hcast, Bool.toNat_true] at hfits hfits' hfitsResult hoverflow
    have hwrapped : signed as - signed bs = signed rs ∨
        signed as - signed bs = signed rs + 2 * half ∨
        signed as - signed bs = signed rs - 2 * half := by
      simp only [signed, has, hbs, hhalf, hcast]
      cases hc : s.carry <;> simp only [hc, Bool.toNat_true, Bool.toNat_false] at htotal <;>
        split <;> split <;> split <;> omega
    rw [h.negative, testBit_top hrs, Bool.eq_iff_iff]
    cases hv : s.overflow <;> simp [hv] at hoverflow ⊢ <;> omega

end Bytes

/-- What a mnemonic that does sums adds to the accumulator. -/
def Mnemonic.addend (k : Mnemonic) (b : Byte) : Byte :=
  if k = .sbc then ~~~b else b

theorem Mnemonic.isReading_of_mem {k : Mnemonic} (hk : k ∈ [.adc, .sbc, .cmp]) :
    k.action.isReading = true := by
  revert hk
  cases k <;> simp [action, Action.isReading]

/-- A step in one column of two numbers: the carry and the byte of the accumulator that it finds,
the byte that is its operand, and what it leaves in the accumulator and the status. -/
inductive Column (k : Mnemonic) : Bool → Byte → Byte → Byte → Status → Prop
  | of_does {m m' : Machine} {i : Instruction} {b : Byte} : m.Does i m' → i.mnemonic = k →
    i.operandValue m.registers m.bus = .ok b →
    Column k m.registers.status.carry m.registers.a b m'.registers.a m'.registers.status

/-- Steps in all columns of two numbers, from the lowest up. Between two of them the machine may do
what it likes, as long as it keeps the carry. -/
inductive Chain (k : Mnemonic) : Bool → List Byte → List Byte → List Byte → Status → Prop
  | last {c : Bool} {a b r : Byte} {s : Status} : Column k c a b r s → Chain k c [a] [b] [r] s
  | cons {c : Bool} {a b r : Byte} {as bs rs : List Byte} {s s' : Status} : Column k c a b r s →
    Chain k s.carry as bs rs s' → Chain k c (a :: as) (b :: bs) (r :: rs) s'

section
open Bytes
variable {k : Mnemonic} {c : Bool} {a b r : Byte} {as bs rs : List Byte} {s s' : Status}

theorem Machine.Does.registers_of_operand {m m' : Machine} {i : Instruction} (h : m.Does i m')
    (ha : i.mnemonic.action.takesOperand = true)
    (hb : i.operandValue m.registers m.bus = .ok b) :
    ∃ pc, m'.registers = { i.effect m.registers b with pc } := by
  obtain ⟨v, pc, hv, hr, -⟩ := h.registers_eq
  rw [Instruction.input, Action.input_of_takesOperand ha] at hv
  obtain rfl := Except.ok.inj (hv.symm.trans hb)
  exact ⟨pc, hr⟩

theorem Column.adds (hk : k = .adc ∨ k = .sbc) (h : Column k c a b r s) :
    r = Byte.sum a (k.addend b) c ∧ s.carry = Byte.sumCarries a (k.addend b) c ∧
      s.overflow = Byte.sumOverflows a (k.addend b) c ∧ s.negative = r.isNegative := by
  obtain ⟨hdoes, hi, hb⟩ := h
  obtain ⟨pc, hr⟩ := hdoes.registers_of_operand (by obtain rfl | rfl := hk <;> rw [hi] <;> rfl) hb
  rw [hr, Instruction.effect, hi]
  obtain rfl | rfl := hk
  · exact ⟨rfl, rfl, rfl, rfl⟩
  · exact ⟨Byte.difference_eq_sum _ b _, Byte.differenceCarries_eq_sumCarries _ b _,
      Byte.differenceOverflows_eq_sumOverflows _ b _, rfl⟩

theorem Column.compares (h : Column .cmp c a b r s) : s.carry = Byte.sumCarries a (~~~b) true := by
  obtain ⟨hdoes, hi, hb⟩ := h
  obtain ⟨pc, hr⟩ := hdoes.registers_of_operand (by rw [hi]; rfl) hb
  rw [hr, Instruction.effect, hi, Byte.sumCarries_complement]
  rfl

theorem Chain.lengths (h : Chain k c as bs rs s) :
    rs ≠ [] ∧ as.length = rs.length ∧ bs.length = rs.length := by
  induction h with
  | last => simp
  | cons _ _ ih => simpa using ih.2

theorem Chain.sums (hk : k = .adc ∨ k = .sbc) (h : Chain k c as bs rs s) :
    Sums c as (bs.map k.addend) rs s := by
  induction h with
  | last hcolumn =>
    obtain ⟨hr, hcarry, hoverflow, hnegative⟩ := hcolumn.adds hk
    exact .singleton hr hcarry hoverflow hnegative
  | cons hcolumn hrest ih =>
    obtain ⟨hr, hcarry, -, -⟩ := hcolumn.adds hk
    obtain ⟨hrs, has, hbs⟩ := hrest.lengths
    rw [hcarry] at ih
    refine .cons ?_ hrs has (by simpa using hbs) ih
    rw [hr, Byte.toNat_sum]

theorem Chain.subtracts (h : Chain .sbc c as bs rs s) : Subtracts c as bs rs s := by
  obtain ⟨hrs, -, hbs⟩ := h.lengths
  exact (h.sums (.inr rfl)).subtracts hrs hbs

/-- A comparison of the lowest bytes begins a subtraction without a borrow; only the lowest byte of
the difference is not kept. -/
theorem Chain.sums_of_compare (h : Column .cmp c a b r s) (hrest : Chain .sbc s.carry as bs rs s') :
    Sums true (a :: as) ((b :: bs).map (~~~·)) (Byte.sum a (~~~b) true :: rs) s' := by
  obtain ⟨hrs, has, hbs⟩ := hrest.lengths
  have hsums := hrest.sums (.inr rfl)
  rw [h.compares] at hsums
  exact .cons (Byte.toNat_sum a (~~~b) true).symm hrs has (by simpa using hbs) hsums

/-- A machine about to do one step of a sum, its operand behind the opcode. -/
def computing (code operand a : Byte) (status : Status) (pc : Word) (cycles instructions : Nat) :
    Machine where
  registers := { pc, a, status }
  cycles := cycles
  instructions := instructions
  bus := ⟨[⟨"code", 0x0000, .ram #[code, operand], by simp [Backend.size], by simp [Backend.size]⟩]⟩

theorem decode_computing {code operand a : Byte} {status : Status} {cycles instructions : Nat}
    {o : Opcode} (ho : Opcode.lookup code = some o) (hm : o.mode = .immediate) :
    Instruction.decode (computing code operand a status 0 cycles instructions).bus 0 =
      .ok ⟨0, o, .byte operand⟩ := by
  have hread : (computing code operand a status 0 cycles instructions).bus.read 0 = .ok code ∧
      (computing code operand a status 0 cycles instructions).bus.read 1 = .ok operand := by
    simp [computing, Bus.read, Bus.owner?, Region.covers, Region.size, Region.offset, Backend.size,
      Backend.read?, Backend.read]
  simp [Instruction.decode, hread.1, ho, hm, AddressingMode.operandBytes, Operand.read, hread.2,
    Except.map]

set_option maxRecDepth 2000 in
theorem exists_column (hk : k ∈ [.adc, .sbc, .cmp]) (c : Bool) (a b : Byte) :
    ∃ r s, Column k c a b r s := by
  have hcolumn (code : Byte) {o : Opcode} (ho : Opcode.lookup code = some o)
      (hm : o.mode = .immediate) (hi : o.mnemonic = k) : ∃ r s, Column k c a b r s := by
    subst hi
    have hoperand : (⟨0, o, .byte b⟩ : Instruction).operandValue
        (computing code b a { carry := c } 0 0 0).registers
        (computing code b a { carry := c } 0 0 0).bus = .ok b := by
      simp [Instruction.operandValue, Instruction.mode, hm, Instruction.byte]
    obtain ⟨m', hdoes⟩ := Machine.exists_does_of_reading (decode_computing ho hm)
      (Mnemonic.isReading_of_mem hk) hoperand
    exact ⟨_, _, .of_does hdoes rfl hoperand⟩
  obtain rfl | rfl | rfl : k = .adc ∨ k = .sbc ∨ k = .cmp := by simpa using hk
  · exact hcolumn 0x69 rfl rfl rfl
  · exact hcolumn 0xE9 rfl rfl rfl
  · exact hcolumn 0xC9 rfl rfl rfl

theorem exists_chain (hk : k ∈ [.adc, .sbc, .cmp]) (c : Bool) (has : as ≠ [])
    (hlen : as.length = bs.length) : ∃ rs s, Chain k c as bs rs s := by
  induction as generalizing bs c with
  | nil => exact absurd rfl has
  | cons a as ih =>
    obtain _ | ⟨b, bs⟩ := bs
    · simp at hlen
    obtain ⟨r, s, hcolumn⟩ := exists_column hk c a b
    obtain rfl | has := eq_or_ne as []
    · obtain rfl : bs = [] := List.length_eq_zero_iff.1 (by simpa using hlen.symm)
      exact ⟨[r], s, .last hcolumn⟩
    · obtain ⟨rs, s', hrest⟩ := ih s.carry has (by simpa using hlen)
      exact ⟨r :: rs, s', .cons hcolumn hrest⟩

/-- Addition and subtraction byte by byte are exact, however many bytes there are, and comparing the
lowest bytes in place of subtracting them makes no difference to the other bytes and the flags,
which tell the order of the numbers. -/
theorem chains_exact :
    (∀ (m : Machine) i b, Instruction.decode m.bus m.registers.pc = .ok i →
      i.mnemonic ∈ [.adc, .sbc, .cmp] → i.operandValue m.registers m.bus = .ok b →
      ∃ m', m.Does i m') ∧
    (∀ k ∈ [.adc, .sbc, .cmp], ∀ c as bs, as ≠ [] → as.length = bs.length →
      ∃ rs s, Chain k c as bs rs s) ∧
    (∀ c as bs rs s, Chain .adc c as bs rs s → Sums c as bs rs s) ∧
    (∀ c as bs rs s, Chain .sbc c as bs rs s → Subtracts c as bs rs s) ∧
    ∀ c a b r s as bs rs s', Column .cmp c a b r s → Chain .sbc s.carry as bs rs s' →
      Orders (a :: as) (b :: bs) s' ∧
      ∀ rs' t, Chain .sbc true (a :: as) (b :: bs) rs' t → rs'.tail = rs ∧
        t.carry = s'.carry ∧ t.overflow = s'.overflow ∧ t.negative = s'.negative := by
  refine ⟨fun m i b hd hk hb => ?_, fun k hk c as bs => exists_chain hk c, fun c as bs rs s h => ?_,
    fun c as bs rs s h => h.subtracts, fun c a b r s as bs rs s' hcompare hrest => ⟨?_, ?_⟩⟩
  · exact Machine.exists_does_of_reading hd (Mnemonic.isReading_of_mem hk) hb
  · have haddend : Mnemonic.adc.addend = id := rfl
    simpa [haddend] using h.sums (.inl rfl)
  · obtain ⟨hrs, has, hbs⟩ := hrest.lengths
    exact ((Chain.sums_of_compare hcompare hrest).subtracts (by simp) (by simpa using hbs)).orders
      (by simp) (by simpa using has) (by simpa using hbs)
  · intro rs' t h
    obtain ⟨-, -, hlen⟩ := h.lengths
    obtain ⟨-, -, hbs⟩ := hrest.lengths
    obtain ⟨rfl, hflags⟩ := (Chain.sums_of_compare hcompare hrest).unique (h.sums (.inr rfl))
      (by rw [← hlen, List.length_cons, List.length_cons, hbs])
    exact ⟨rfl, hflags⟩

set_option maxRecDepth 2000 in
theorem does_comparing :
    (computing 0xC9 0x01 0x00 { decimal := true } 0 0 0).Does
      ⟨0, ⟨0xC9, .cmp, .immediate, 2⟩, .byte 0x01⟩
      (computing 0xC9 0x01 0x00 { decimal := true, negative := true } 2 2 1) :=
  ⟨rfl, rfl⟩

set_option maxRecDepth 2000 in
theorem does_subtracting :
    (computing 0xE9 0x00 0x80 { decimal := true } 0 0 0).Does
      ⟨0, ⟨0xE9, .sbc, .immediate, 2⟩, .byte 0x00⟩
      (computing 0xE9 0x00 0x7F { decimal := true, carry := true, overflow := true } 2 2 1) :=
  ⟨rfl, rfl⟩

/-- `$8000` against `$0001`, with the decimal flag set: it is above without a sign, and below with
one. -/
theorem chains_exact_comparing :
    ∃ s, Column .cmp false 0x00 0x01 0x00 { decimal := true, negative := true } ∧
      Chain .sbc false [0x80] [0x00] [0x7F] s ∧ Orders [0x00, 0x80] [0x01, 0x00] s ∧
      s.carry = true ∧ s.negative = false ∧ s.overflow = true := by
  have hcompare : Column .cmp false 0x00 0x01 0x00 { decimal := true, negative := true } :=
    .of_does does_comparing rfl rfl
  have hrest : Chain .sbc false [0x80] [0x00] [0x7F]
      { decimal := true, carry := true, overflow := true } :=
    .last (.of_does does_subtracting rfl rfl)
  obtain ⟨-, -, -, -, hexact⟩ := chains_exact
  obtain ⟨horders, -⟩ := hexact _ _ _ _ _ _ _ _ _ hcompare hrest
  exact ⟨_, hcompare, hrest, horders, rfl, rfl, rfl⟩

end
end Mos6502

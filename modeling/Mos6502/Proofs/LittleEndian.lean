import Mathlib.Data.Nat.Digits.Lemmas
import Mos6502.Processor.Arithmetic

/-! Numbers of many bytes, the lowest byte first. -/
namespace Mos6502

namespace Byte

theorem toNat_complement (b : Byte) : (~~~b).toNat = 255 - b.toNat := by
  revert b
  exact forall_of_fin (by decide +kernel)

theorem isNegative_complement (b : Byte) : (~~~b).isNegative = !b.isNegative := by
  revert b
  exact forall_of_fin (by decide +kernel)

theorem isNegative_and (a b : Byte) : (a &&& b).isNegative = (a.isNegative && b.isNegative) := by
  simp [isNegative_eq_testBit]

theorem isNegative_xor (a b : Byte) : (a ^^^ b).isNegative = (a.isNegative ^^ b.isNegative) := by
  simp [isNegative_eq_testBit]

theorem topBit_eq_isNegative (b : Byte) : (b &&& 0x80 != 0) = b.isNegative := by
  revert b
  exact forall_of_fin (by decide +kernel)

section
variable (a m : Byte) (c : Bool)

theorem sumOverflows_eq : sumOverflows a m c =
    (!(a.isNegative ^^ m.isNegative) && (a.isNegative ^^ (sum a m c).isNegative)) := by
  rw [sumOverflows, topBit_eq_isNegative, isNegative_and, isNegative_complement, isNegative_xor,
    isNegative_xor]

theorem differenceOverflows_eq : differenceOverflows a m c =
    ((a.isNegative ^^ m.isNegative) && (a.isNegative ^^ (difference a m c).isNegative)) := by
  rw [differenceOverflows, topBit_eq_isNegative, isNegative_and, isNegative_xor, isNegative_xor]

/-- To subtract is to add the complement. -/
theorem difference_eq_sum : difference a m c = sum a (~~~m) c := by
  have hm := m.toNat_lt
  have hc := c.toNat_le
  apply UInt8.toNat_inj.1
  rw [difference, UInt8.ofInt, sum, UInt8.toNat_ofNat', UInt8.toNat_ofNat', wideDifference, wideSum,
    toNat_complement]
  omega

theorem differenceCarries_eq_sumCarries : differenceCarries a m c = sumCarries a (~~~m) c := by
  have hm := m.toNat_lt
  rw [differenceCarries, sumCarries, wideDifference, wideSum, toNat_complement, decide_eq_decide]
  omega

theorem differenceOverflows_eq_sumOverflows :
    differenceOverflows a m c = sumOverflows a (~~~m) c := by
  rw [differenceOverflows_eq, sumOverflows_eq, difference_eq_sum, isNegative_complement]
  cases a.isNegative <;> cases m.isNegative <;> rfl

theorem sumCarries_complement : sumCarries a (~~~m) true = decide (m ≤ a) := by
  rw [← differenceCarries_eq_sumCarries, differenceCarries, wideDifference, decide_eq_decide,
    UInt8.le_iff_toNat_le, Bool.toNat_true]
  omega

end
end Byte

namespace Bytes

def number (bs : List Byte) : Nat := Nat.ofDigits 256 (bs.map UInt8.toNat)

/-- The number that bytes stand for in two's complement. -/
def signed (bs : List Byte) : Int :=
  if 256 ^ bs.length ≤ 2 * number bs then (number bs : Int) - 256 ^ bs.length else number bs

/-- Whether so many bytes are enough for a number in two's complement. -/
def Fits (n : Nat) (x : Int) : Prop := -256 ^ n ≤ 2 * x ∧ 2 * x < 256 ^ n

variable {b : Byte} {bs cs : List Byte}

@[simp] theorem number_nil : number [] = 0 := rfl

@[simp] theorem number_cons (b : Byte) (bs : List Byte) :
    number (b :: bs) = b.toNat + 256 * number bs := by
  simp [number, Nat.ofDigits_cons]

theorem number_lt (bs : List Byte) : number bs < 256 ^ bs.length := by
  have h := Nat.ofDigits_lt_base_pow_length (b := 256) (l := bs.map UInt8.toNat) (by decide)
    (by simpa using fun b _ => b.toNat_lt)
  rwa [List.length_map] at h

theorem number_injective (hlen : bs.length = cs.length) (h : number bs = number cs) : bs = cs := by
  have hdigit (ds : List Byte) : ∀ d ∈ ds.map UInt8.toNat, d < 256 := by
    simpa using fun b _ => b.toNat_lt
  have hmap :=
    Nat.ofDigits_inj_of_len_eq (by decide) (by simpa using hlen) (hdigit bs) (hdigit cs) h
  exact List.map_injective_iff.2 (fun _ _ => UInt8.toNat_inj.1) hmap

theorem ne_nil_of_length (hlen : bs.length = cs.length) (hcs : cs ≠ []) : bs ≠ [] := by
  rintro rfl
  exact hcs (List.length_eq_zero_iff.1 hlen.symm)

theorem exists_half {n : Nat} (hn : n ≠ 0) :
    ∃ half : Nat, 256 ^ n = 2 * half ∧ (256 : Int) ^ n = 2 * half := by
  obtain ⟨k, rfl⟩ := Nat.exists_eq_succ_of_ne_zero hn
  have hhalf : 256 ^ (k + 1) = 2 * (128 * 256 ^ k) := by
    rw [pow_succ]
    omega
  exact ⟨_, hhalf, by exact_mod_cast hhalf⟩

theorem fits_signed (hbs : bs ≠ []) : Fits bs.length (signed bs) := by
  obtain ⟨half, hhalf, hcast⟩ := exists_half (mt List.length_eq_zero_iff.1 hbs)
  have hlt := number_lt bs
  simp only [Fits, signed, hhalf, hcast] at hlt ⊢
  split <;> omega

theorem signed_cons (hbs : bs ≠ []) : signed (b :: bs) = b.toNat + 256 * signed bs := by
  obtain ⟨half, hhalf, hcast⟩ := exists_half (mt List.length_eq_zero_iff.1 hbs)
  have hb := b.toNat_lt
  simp only [signed, number_cons, List.length_cons, pow_succ, hhalf, hcast]
  split <;> split <;> push_cast <;> omega

theorem signed_singleton (b : Byte) : signed [b] = b.toSigned := by
  revert b
  exact Byte.forall_of_fin (by decide +kernel)

/-- The sum of two bytes of one sign has the other sign where it does not fit into a byte. -/
theorem sumOverflows_iff (a m : Byte) (c : Bool) :
    Byte.sumOverflows a m c = true ↔ ¬Fits 1 (signed [a] + signed [m] + c.toNat) := by
  have hsum := Byte.toNat_sum a m c
  have hr := (Byte.sum a m c).toNat_lt
  have hc := c.toNat_le
  have ha := a.toNat_lt
  have hm := m.toNat_lt
  rw [Byte.sumOverflows_eq, Fits, signed_singleton, signed_singleton, Byte.toSigned, Byte.toSigned]
  simp only [Byte.isNegative, UInt8.le_iff_toNat_le, UInt8.reduceToNat, decide_eq_true_eq,
    Bool.and_eq_true, Bool.not_eq_true', bne_eq_false_iff_eq, decide_eq_decide, bne_iff_ne, ne_eq]
  split <;> split <;> omega

theorem number_complement (bs : List Byte) :
    number (bs.map (~~~·)) + number bs + 1 = 256 ^ bs.length := by
  induction bs with
  | nil => rfl
  | cons b bs ih =>
    have hb := b.toNat_lt
    simp only [List.map_cons, number_cons, List.length_cons, pow_succ, Byte.toNat_complement]
    omega

theorem signed_complement (hbs : bs ≠ []) : signed (bs.map (~~~·)) = -1 - signed bs := by
  obtain ⟨half, hhalf, hcast⟩ := exists_half (mt List.length_eq_zero_iff.1 hbs)
  have h := number_complement bs
  simp only [signed, List.length_map, hhalf, hcast] at h ⊢
  split <;> split <;> omega

theorem testBit_top_eq_half_le (hbs : bs ≠ []) :
    (number bs).testBit (8 * bs.length - 1) = decide (256 ^ bs.length ≤ 2 * number bs) := by
  have hpow : 256 ^ bs.length = 2 * 2 ^ (8 * bs.length - 1) := by
    have hlen := List.length_pos_iff.2 hbs
    rw [← Nat.pow_succ', show (8 * bs.length - 1).succ = 8 * bs.length by omega, Nat.pow_mul]
  have hlt := number_lt bs
  rw [hpow] at hlt ⊢
  by_cases htop : 2 ^ (8 * bs.length - 1) ≤ number bs
  · rw [Nat.testBit_of_two_pow_le_and_two_pow_add_one_gt htop (by rw [Nat.pow_succ]; omega)]
    exact (decide_eq_true (by omega)).symm
  · rw [Nat.testBit_lt_two_pow (by omega)]
    exact (decide_eq_false (by omega)).symm

theorem testBit_top (hbs : bs ≠ []) :
    (number bs).testBit (8 * bs.length - 1) = decide (signed bs < 0) := by
  have hlt := number_lt bs
  have hcast : (256 : Int) ^ bs.length = (256 ^ bs.length : Nat) := by push_cast; rfl
  rw [testBit_top_eq_half_le hbs, signed, hcast, decide_eq_decide]
  split <;> omega

/-- Another byte below makes more numbers fit, but as many of those above. -/
theorem fits_succ {n : Nat} (hn : n ≠ 0) (b : Byte) (x : Int) :
    Fits (n + 1) (b.toNat + 256 * x) ↔ Fits n x := by
  obtain ⟨half, -, hcast⟩ := exists_half hn
  have hb := b.toNat_lt
  simp only [Fits, pow_succ, hcast]
  omega

end Bytes
end Mos6502

import Mathlib.Data.List.Forall2
import Mathlib.Data.Nat.Digits.Defs
import Mos6502.Text.Address

/-! What numerals are and what they denote. A numeral is read just if it is one and does not denote
too much. There may be any number of zeros in front, since it is the number so far that is compared
with the limit, not the number of digits. -/
namespace Mos6502.Text
variable {radix limit n m d e : Nat} {c : Char} {text : List Char}

def lowerDigits : List Char :=
  ['0', '1', '2', '3', '4', '5', '6', '7', '8', '9', 'a', 'b', 'c', 'd', 'e', 'f']

def upperDigits : List Char :=
  ['0', '1', '2', '3', '4', '5', '6', '7', '8', '9', 'A', 'B', 'C', 'D', 'E', 'F']

/-- A character that is the digit of a value, a letter in either case. -/
def IsDigit (radix : Nat) (c : Char) (d : Nat) : Prop :=
  d < radix ∧ (lowerDigits[d]? = some c ∨ upperDigits[d]? = some c)

/-- The digits of a number, the most significant first. -/
def Denotes (radix : Nat) (text : List Char) (n : Nat) : Prop :=
  ∃ ds, List.Forall₂ (IsDigit radix) text ds ∧ n = Nat.ofDigits radix ds.reverse

/-- A number with a plus sign or without, and at least one digit. -/
inductive IsUnsigned (radix : Nat) : List Char → Nat → Prop
  | bare {text : List Char} {n : Nat} : text ≠ [] → Denotes radix text n → IsUnsigned radix text n
  | plus {text : List Char} {n : Nat} : text ≠ [] → Denotes radix text n →
    IsUnsigned radix ('+' :: text) n

theorem forall_of_ascii {P : Char → Prop} (hlow : ∀ i : Fin 128, P (Char.ofNat i))
    (hhigh : ∀ c : Char, 128 ≤ c.toNat → P c) (c : Char) : P c := by
  obtain hc | hc := Nat.lt_or_ge c.toNat 128
  · simpa only [Char.ofNat_toNat] using hlow ⟨c.toNat, hc⟩
  · exact hhigh c hc

theorem not_between_of_ascii (first last : Char) (hlast : last.toNat < 128) (hc : 128 ≤ c.toNat) :
    ¬(first ≤ c ∧ c ≤ last) := by
  rintro ⟨-, hle⟩
  have hle' : c.toNat ≤ last.toNat := hle
  omega

theorem digitValue?_eq_none_of_ascii (hc : 128 ≤ c.toNat) : digitValue? c = none := by
  rw [digitValue?, if_neg (not_between_of_ascii '0' '9' (by decide) hc),
    if_neg (not_between_of_ascii 'a' 'f' (by decide) hc),
    if_neg (not_between_of_ascii 'A' 'F' (by decide) hc)]

theorem digitValue?_eq_some_iff : digitValue? c = some d ↔ IsDigit 16 c d := by
  constructor
  · intro h
    have hread : ∀ i : Fin 128, ∀ v ∈ digitValue? (Char.ofNat i), v < 16 ∧
        (lowerDigits[v]? = some (Char.ofNat i) ∨ upperDigits[v]? = some (Char.ofNat i)) := by decide
    refine forall_of_ascii (P := fun c => ∀ v ∈ digitValue? c, IsDigit 16 c v) hread
      (fun c hc v hv => ?_) c d h
    exact nomatch (digitValue?_eq_none_of_ascii hc).symm.trans hv
  · rintro ⟨hd, h⟩
    have hlower : ∀ i : Fin 16, lowerDigits[i.val]?.bind digitValue? = some i.val := by decide
    have hupper : ∀ i : Fin 16, upperDigits[i.val]?.bind digitValue? = some i.val := by decide
    obtain h | h := h
    · have hd' := hlower ⟨d, hd⟩
      rwa [h] at hd'
    · have hd' := hupper ⟨d, hd⟩
      rwa [h] at hd'

theorem digitValue?_toLower (c : Char) : digitValue? c.toLower = digitValue? c := by
  refine forall_of_ascii (P := fun c => digitValue? c.toLower = digitValue? c) (by decide)
    (fun c hc => ?_) c
  have hsame : c.toLower = c := dif_neg (not_between_of_ascii 'A' 'Z' (by decide) hc)
  rw [hsame]

theorem isDigit_iff (hradix : radix ≤ 16) :
    IsDigit radix c d ↔ digitValue? c = some d ∧ d < radix := by
  rw [digitValue?_eq_some_iff]
  exact ⟨fun h => ⟨⟨h.1.trans_le hradix, h.2⟩, h.1⟩, fun h => ⟨h.2, h.1.2⟩⟩

theorem isDigit_toLower_iff (hradix : radix ≤ 16) :
    IsDigit radix c.toLower d ↔ IsDigit radix c d := by
  rw [isDigit_iff hradix, isDigit_iff hradix, digitValue?_toLower]

theorem isDigit_digitChar (hradix : radix ≤ 16) (hd : d < radix) :
    IsDigit radix (Nat.digitChar d) d := by
  have hall : ∀ i : Fin 16, digitValue? (Nat.digitChar i) = some i.val := by decide
  exact (isDigit_iff hradix).2 ⟨hall ⟨d, hd.trans_le hradix⟩, hd⟩

theorem IsDigit.plain (h : IsDigit radix c d) : isBlank c = false ∧ c ∉ ['+', '$', 'x', 'X'] := by
  have hdigits : (lowerDigits ++ upperDigits).all fun c =>
      isBlank c = false ∧ c ∉ ['+', '$', 'x', 'X'] := by decide
  have hc : c ∈ lowerDigits ++ upperDigits :=
    List.mem_append.2 (h.2.imp List.mem_of_getElem? List.mem_of_getElem?)
  exact of_decide_eq_true (List.all_eq_true.1 hdigits c hc)

theorem Denotes.nil : Denotes radix [] 0 := ⟨[], .nil, rfl⟩

theorem Denotes.exists_isDigit (h : Denotes radix text n) (hc : c ∈ text) :
    ∃ d, IsDigit radix c d := by
  obtain ⟨ds, hds, -⟩ := h
  induction hds with
  | nil => exact absurd hc List.not_mem_nil
  | cons hd _ ih =>
    obtain rfl | hc := List.mem_cons.1 hc
    · exact ⟨_, hd⟩
    · exact ih hc

theorem IsUnsigned.plain (h : IsUnsigned radix text n) (hc : c ∈ text) :
    isBlank c = false ∧ c ∉ ['$', 'x', 'X'] := by
  have hdigits {digits : List Char} (hn : Denotes radix digits n) (hc : c ∈ digits) :
      isBlank c = false ∧ c ∉ ['$', 'x', 'X'] := by
    obtain ⟨d, hd⟩ := hn.exists_isDigit hc
    exact ⟨hd.plain.1, mt (List.mem_cons_of_mem '+') hd.plain.2⟩
  cases h with
  | bare _ hn => exact hdigits hn hc
  | plus _ hn =>
    obtain rfl | hc := List.mem_cons.1 hc
    · decide
    · exact hdigits hn hc

theorem Denotes.snoc (h : Denotes radix text n) (hc : IsDigit radix c d) :
    Denotes radix (text ++ [c]) (n * radix + d) := by
  obtain ⟨ds, hds, rfl⟩ := h
  refine ⟨ds ++ [d], List.rel_append hds (.cons hc .nil), ?_⟩
  rw [List.reverse_append, List.reverse_singleton, List.singleton_append, Nat.ofDigits_cons]
  ring

theorem Denotes.zeros_append (h : Denotes radix text n) (hradix : 0 < radix) (k : Nat) :
    Denotes radix (List.replicate k '0' ++ text) n := by
  obtain ⟨ds, hds, rfl⟩ := h
  have hzero : IsDigit radix '0' 0 := ⟨hradix, .inl rfl⟩
  refine ⟨List.replicate k 0 ++ ds, List.rel_append ?_ hds, ?_⟩
  · exact List.forall₂_iff_get.2 ⟨by simp, fun i _ _ => by simpa using hzero⟩
  · rw [List.reverse_append, List.reverse_replicate, Nat.ofDigits_append_replicate_zero]

/-- The case of the letters does not matter. -/
theorem denotes_map_toLower_iff (hradix : radix ≤ 16) :
    Denotes radix (text.map Char.toLower) n ↔ Denotes radix text n := by
  simp only [Denotes, List.forall₂_map_left_iff, isDigit_toLower_iff hradix]

theorem denotes_toDigits (hlow : 1 < radix) (hhigh : radix ≤ 16) (n : Nat) :
    Denotes radix (Nat.toDigits radix n) n := by
  induction n using Nat.strongRecOn with
  | ind n ih =>
    obtain hn | hn := Nat.lt_or_ge n radix
    · rw [Nat.toDigits_of_lt_base hn]
      simpa using Denotes.nil.snoc (isDigit_digitChar hhigh hn)
    · rw [Nat.toDigits_of_base_le hlow hn]
      have hrest := ih (n / radix) (Nat.div_lt_self (by omega) hlow)
      have hall := hrest.snoc (isDigit_digitChar hhigh (Nat.mod_lt n (by omega)))
      rwa [Nat.div_add_mod'] at hall

theorem readDigits_eq_ok_iff (hlow : 0 < radix) (hhigh : radix ≤ 16) {start : Nat}
    (hstart : start ≤ limit) :
    readDigits radix limit text start = .ok n ↔ n ≤ limit ∧
      ∃ ds, List.Forall₂ (IsDigit radix) text ds ∧
        n = start * radix ^ ds.length + Nat.ofDigits radix ds.reverse := by
  induction text generalizing start with
  | nil =>
    simp only [readDigits, Except.ok.injEq, List.forall₂_nil_left_iff, exists_eq_left,
      List.length_nil, pow_zero, mul_one, List.reverse_nil, Nat.ofDigits_nil, add_zero]
    constructor
    · rintro rfl
      exact ⟨hstart, rfl⟩
    · exact fun h => h.2.symm
  | cons c rest ih =>
    have hstep (d : Nat) (ds : List Nat) :
        start * radix ^ (d :: ds).length + Nat.ofDigits radix (d :: ds).reverse =
          (start * radix + d) * radix ^ ds.length + Nat.ofDigits radix ds.reverse := by
      rw [List.length_cons, List.reverse_cons, Nat.ofDigits_append, Nat.ofDigits_singleton,
        List.length_reverse]
      ring
    have hcons : (∃ ds, List.Forall₂ (IsDigit radix) (c :: rest) ds ∧
          n = start * radix ^ ds.length + Nat.ofDigits radix ds.reverse) ↔
        ∃ d, (digitValue? c = some d ∧ d < radix) ∧ ∃ ds, List.Forall₂ (IsDigit radix) rest ds ∧
          n = (start * radix + d) * radix ^ ds.length + Nat.ofDigits radix ds.reverse := by
      simp only [← isDigit_iff hhigh, List.forall₂_cons_left_iff]
      constructor
      · rintro ⟨_, ⟨d, ds, hd, hds, rfl⟩, rfl⟩
        exact ⟨d, hd, ds, hds, hstep d ds⟩
      · rintro ⟨d, hd, ds, hds, rfl⟩
        exact ⟨d :: ds, ⟨d, ds, hd, hds, rfl⟩, (hstep d ds).symm⟩
    rw [hcons, readDigits]
    cases hc : digitValue? c with
    | none => simp
    | some d =>
      simp only [Option.some.injEq, and_assoc, exists_eq_left']
      obtain hd | hd := Nat.lt_or_ge d radix
      · rw [if_neg (Nat.not_le.2 hd)]
        obtain hbig | hfits := Nat.lt_or_ge limit (start * radix + d)
        · rw [if_pos hbig]
          simp only [reduceCtorEq, false_iff, not_and, not_exists]
          rintro hn - ds hds rfl
          have hgrow :=
            Nat.le_mul_of_pos_right (start * radix + d) (Nat.pow_pos hlow (n := ds.length))
          omega
        · rw [if_neg (Nat.not_lt.2 hfits), ih hfits]
          simp only [hd, true_and]
      · simp only [if_pos hd, reduceCtorEq, false_iff, not_and]
        exact fun _ hlt => absurd hlt (Nat.not_lt.2 hd)

theorem readUnsigned_eq_ok_iff (hlow : 0 < radix) (hhigh : radix ≤ 16) :
    readUnsigned radix limit text = .ok n ↔ IsUnsigned radix text n ∧ n ≤ limit := by
  have hread (digits : List Char) :
      readDigits radix limit digits 0 = .ok n ↔ Denotes radix digits n ∧ n ≤ limit := by
    rw [readDigits_eq_ok_iff hlow hhigh (Nat.zero_le _)]
    simp only [zero_mul, zero_add, Denotes, and_comm]
  have hplus {rest : List Char} : ¬Denotes radix ('+' :: rest) n := fun h => by
    obtain ⟨d, hd⟩ := h.exists_isDigit List.mem_cons_self
    exact absurd hd.plain.2 (by decide)
  unfold readUnsigned
  split
  case h_1 =>
    simp only [reduceCtorEq, false_iff, not_and]
    rintro ⟨h, -⟩
    exact absurd rfl h
  case h_2 =>
    simp only [reduceCtorEq, false_iff, not_and]
    rintro (⟨-, h⟩ | ⟨h, -⟩)
    · exact absurd h hplus
    · exact absurd rfl h
  case h_3 digits hdigits =>
    rw [hread, and_congr_left_iff]
    intro _
    constructor
    · exact .plus (fun h => hdigits (by rw [h]))
    · rintro (⟨-, h⟩ | ⟨-, h⟩)
      · exact absurd h hplus
      · exact h
  case h_4 hempty _ hbare =>
    rw [hread, and_congr_left_iff]
    intro _
    constructor
    · exact .bare hempty
    · rintro (⟨-, h⟩ | ⟨-, h⟩)
      · exact h
      · exact (hbare _ rfl).elim

end Mos6502.Text

import Mathlib.Data.List.TakeWhile
import Mos6502.Proofs.Numerals
import Mos6502.Text.Address

/-! Which texts are addresses, and of what. Without the blanks around it, a text is an address if it
is a hexadecimal numeral behind its marker, or a decimal numeral, and denotes a word. All other
texts are given back as they came, blanks included. So every way of writing a number can be read
back. -/
namespace Mos6502
namespace Text

/-- What is left of a text without the blanks at both of its ends. -/
structure IsTrimmed (s t : List Char) : Prop where
  around : ∃ front back, s = front ++ t ++ back ∧ (∀ c ∈ front, isBlank c = true) ∧
    ∀ c ∈ back, isBlank c = true
  first : ∀ c ∈ t.head?, isBlank c = false
  last : ∀ c ∈ t.getLast?, isBlank c = false

theorem isBlank_of_mem_head?_dropWhile {s : List Char} {c : Char}
    (h : c ∈ (s.dropWhile isBlank).head?) : isBlank c = false := by
  have hnot := List.head?_dropWhile_not isBlank s
  rwa [h] at hnot

theorem isTrimmed_trimBlanks (s : List Char) : IsTrimmed s (trimBlanks s) := by
  have hfront := List.takeWhile_append_dropWhile (p := isBlank) (l := s)
  have hback := List.takeWhile_append_dropWhile (p := isBlank) (l := (s.dropWhile isBlank).reverse)
  have hrest : s.dropWhile isBlank =
      trimBlanks s ++ ((s.dropWhile isBlank).reverse.takeWhile isBlank).reverse := by
    rw [trimBlanks, ← List.reverse_append, hback, List.reverse_reverse]
  constructor
  case around =>
    refine ⟨s.takeWhile isBlank, ((s.dropWhile isBlank).reverse.takeWhile isBlank).reverse, ?_,
      fun c => List.mem_takeWhile_imp, fun c hc => List.mem_takeWhile_imp (List.mem_reverse.1 hc)⟩
    rw [List.append_assoc, ← hrest, hfront]
  case first =>
    intro c hc
    refine isBlank_of_mem_head?_dropWhile (s := s) ?_
    rw [hrest, List.head?_append, hc]
    rfl
  case last =>
    intro c hc
    rw [trimBlanks, List.getLast?_reverse] at hc
    exact isBlank_of_mem_head?_dropWhile hc

theorem dropWhile_eq_self {s : List Char} (h : ∀ c ∈ s.head?, isBlank c = false) :
    s.dropWhile isBlank = s := by
  cases s with
  | nil => rfl
  | cons c rest => exact List.dropWhile_cons_of_neg (by simp [h c rfl])

theorem IsTrimmed.eq_trimBlanks {s t : List Char} (h : IsTrimmed s t) : t = trimBlanks s := by
  obtain ⟨⟨front, back, rfl, hfront, hback⟩, hfirst, hlast⟩ := h
  obtain rfl | ht := List.eq_nil_or_concat t
  · have hall : (front ++ [] ++ back).dropWhile isBlank = [] := by
      rw [List.append_nil, List.dropWhile_append_of_pos hfront]
      exact List.dropWhile_eq_nil_iff.2 hback
    rw [trimBlanks, hall]
    rfl
  · have hne : t ≠ [] := by
      obtain ⟨_, _, rfl⟩ := ht
      simp
    have hstart : (front ++ t ++ back).dropWhile isBlank = t ++ back := by
      rw [List.append_assoc, List.dropWhile_append_of_pos hfront]
      refine dropWhile_eq_self fun c hc => hfirst c ?_
      rwa [List.head?_append_of_ne_nil _ hne] at hc
    rw [trimBlanks, hstart, List.reverse_append, List.dropWhile_append_of_pos, dropWhile_eq_self,
      List.reverse_reverse]
    · rwa [List.head?_reverse]
    · exact fun c hc => hback c (List.mem_reverse.1 hc)

theorem isTrimmed_iff {s t : List Char} : IsTrimmed s t ↔ t = trimBlanks s :=
  ⟨IsTrimmed.eq_trimBlanks, fun h => h ▸ isTrimmed_trimBlanks s⟩

end Text

/-- The texts of addresses, without blanks around them. -/
inductive IsAddress : List Char → Nat → Prop
  | dollar {text : List Char} {n : Nat} : Text.IsUnsigned 16 text n → IsAddress ('$' :: text) n
  | zeroX {text : List Char} {n : Nat} :
    Text.IsUnsigned 16 text n → IsAddress ('0' :: 'x' :: text) n
  | zeroUpperX {text : List Char} {n : Nat} :
    Text.IsUnsigned 16 text n → IsAddress ('0' :: 'X' :: text) n
  | decimal {text : List Char} {n : Nat} : Text.IsUnsigned 10 text n → IsAddress text n

section
variable {t : List Char} {n : Nat}

theorem IsAddress.isBlank_of_mem (h : IsAddress t n) {c : Char} (hc : c ∈ t) :
    Text.isBlank c = false := by
  cases h with
  | dollar h =>
    obtain rfl | hc := List.mem_cons.1 hc
    · rfl
    · exact (h.plain hc).1
  | zeroX h | zeroUpperX h =>
    obtain rfl | hc := List.mem_cons.1 hc
    · rfl
    · obtain rfl | hc := List.mem_cons.1 hc
      · rfl
      · exact (h.plain hc).1
  | decimal h => exact (h.plain hc).1

theorem readAddressDigits_eq_ok_iff : readAddressDigits t = .ok n ↔ IsAddress t n ∧ n ≤ 65535 := by
  have hmark {c : Char} {text : List Char} (hc : c ∈ ['$', 'x', 'X']) (hmem : c ∈ text) :
      ¬Text.IsUnsigned 10 text n := fun h => (h.plain hmem).2 hc
  unfold readAddressDigits
  split
  all_goals
    rw [Text.readUnsigned_eq_ok_iff (by decide) (by decide), and_congr_left_iff]
    intro _
  case h_1 digits =>
    refine ⟨.dollar, fun h => ?_⟩
    cases h with
    | dollar h => exact h
    | decimal h => exact absurd h (hmark (c := '$') (by simp) (by simp))
  case h_2 digits =>
    refine ⟨.zeroX, fun h => ?_⟩
    cases h with
    | zeroX h => exact h
    | decimal h => exact absurd h (hmark (c := 'x') (by simp) (by simp))
  case h_3 digits =>
    refine ⟨.zeroUpperX, fun h => ?_⟩
    cases h with
    | zeroUpperX h => exact h
    | decimal h => exact absurd h (hmark (c := 'X') (by simp) (by simp))
  case h_4 hdollar hx hX _ =>
    refine ⟨.decimal, fun h => ?_⟩
    cases h with
    | dollar => exact (hdollar _ rfl).elim
    | zeroX => exact (hx _ rfl).elim
    | zeroUpperX => exact (hX _ rfl).elim
    | decimal h => exact h

end

theorem parseAddress_eq_ok_iff {s : String} {n : Word} :
    parseAddress s = .ok n ↔ ∃ t, Text.IsTrimmed s.toList t ∧ IsAddress t n.toNat := by
  simp only [Text.isTrimmed_iff, exists_eq_left]
  have hn : n.toNat ≤ 65535 := Nat.le_of_lt_succ n.toNat_lt
  unfold parseAddress
  cases hread : readAddressDigits (Text.trimBlanks s.toList) with
  | error e =>
    simp only [reduceCtorEq, false_iff]
    exact fun h => nomatch hread.symm.trans (readAddressDigits_eq_ok_iff.2 ⟨h, hn⟩)
  | ok k =>
    have hk := readAddressDigits_le hread
    simp only [Except.ok.injEq]
    constructor
    · rintro rfl
      rw [UInt16.toNat_ofNat_of_lt' (Nat.lt_succ_of_le hk)]
      exact (readAddressDigits_eq_ok_iff.1 hread).1
    · intro h
      obtain rfl := Except.ok.inj (hread.symm.trans (readAddressDigits_eq_ok_iff.2 ⟨h, hn⟩))
      exact UInt16.ofNat_toNat

/-- Whatever is no address is given back as it is. -/
theorem parseAddress_eq_error_iff {s : String} {e : BadAddress} :
    parseAddress s = .error e ↔
      e = ⟨s⟩ ∧ ¬∃ t n, Text.IsTrimmed s.toList t ∧ IsAddress t n ∧ n ≤ 65535 := by
  have hok : (∃ t n, Text.IsTrimmed s.toList t ∧ IsAddress t n ∧ n ≤ 65535) ↔
      ∃ n, readAddressDigits (Text.trimBlanks s.toList) = .ok n := by
    simp only [Text.isTrimmed_iff, readAddressDigits_eq_ok_iff, exists_and_left, exists_eq_left]
  rw [hok, parseAddress]
  cases readAddressDigits (Text.trimBlanks s.toList) with
  | ok n => simp
  | error _ => simp [eq_comm]

theorem parseAddress_ofList {t : List Char} {n : Word} (h : IsAddress t n.toNat) :
    parseAddress (String.ofList t) = .ok n := by
  refine parseAddress_eq_ok_iff.2 ⟨t, ?_, h⟩
  rw [String.toList_ofList]
  exact ⟨⟨[], [], by simp, by simp, by simp⟩, fun c hc => h.isBlank_of_mem (List.mem_of_head? hc),
    fun c hc => h.isBlank_of_mem (List.mem_of_getLast? hc)⟩

/-- The hexadecimal text of a number, padded with zeros and with letters of either case, is an
address behind any of the markers. -/
theorem isAddress_hexadecimal {marker digits : List Char} (n zeros : Nat)
    (hmarker : marker ∈ [['$'], ['0', 'x'], ['0', 'X']])
    (hdigits : digits.map Char.toLower = Nat.toDigits 16 n) :
    IsAddress (marker ++ (List.replicate zeros '0' ++ digits)) n := by
  have hdenotes : Text.Denotes 16 digits n := by
    rw [← Text.denotes_map_toLower_iff (by decide), hdigits]
    exact Text.denotes_toDigits (by decide) (by decide) n
  have hne : List.replicate zeros '0' ++ digits ≠ [] := by
    rintro h
    have hlen : (Nat.toDigits 16 n).length = 0 := by
      rw [← hdigits, (List.append_eq_nil_iff.1 h).2]
      rfl
    exact absurd hlen (Nat.ne_of_gt Nat.length_toDigits_pos)
  have hnumeral : Text.IsUnsigned 16 (List.replicate zeros '0' ++ digits) n :=
    .bare hne (hdenotes.zeros_append (by decide) zeros)
  simp only [List.mem_cons, List.not_mem_nil, or_false] at hmarker
  obtain rfl | rfl | rfl := hmarker
  · exact .dollar hnumeral
  · exact .zeroX hnumeral
  · exact .zeroUpperX hnumeral

theorem isAddress_decimal (n : Nat) : IsAddress (Nat.toDigits 10 n) n :=
  .decimal (.bare (List.ne_nil_of_length_pos Nat.length_toDigits_pos)
    (Text.denotes_toDigits (by decide) (by decide) n))

/-- A text is read as an address just if it is one between blanks, and given back as it is if not.
Every way to write a word is read as that word: its hexadecimal text behind a marker, in either case
and with any number of zeros in front, and its decimal text. -/
theorem parseAddress_exact :
    (∀ s n, parseAddress s = .ok n ↔ ∃ t, Text.IsTrimmed s.toList t ∧ IsAddress t n.toNat) ∧
    (∀ s e, parseAddress s = .error e ↔
      e = ⟨s⟩ ∧ ¬∃ t n, Text.IsTrimmed s.toList t ∧ IsAddress t n ∧ n ≤ 65535) ∧
    (∀ (n : Word) (zeros : Nat) (marker digits : List Char),
      marker ∈ [['$'], ['0', 'x'], ['0', 'X']] →
      digits.map Char.toLower = Nat.toDigits 16 n.toNat →
      parseAddress (String.ofList (marker ++ (List.replicate zeros '0' ++ digits))) = .ok n) ∧
    ∀ n : Word, parseAddress (toString n.toNat) = .ok n := by
  refine ⟨fun _ _ => parseAddress_eq_ok_iff, fun _ _ => parseAddress_eq_error_iff, ?_, fun n => ?_⟩
  · intro n zeros marker digits hmarker hdigits
    exact parseAddress_ofList (isAddress_hexadecimal n.toNat zeros hmarker hdigits)
  · exact parseAddress_ofList (isAddress_decimal n.toNat)

theorem parseAddress_exact_mixed :
    parseAddress (String.ofList ['0', 'x', '0', '0', 'C', '0', 'd', 'e']) = .ok 0xC0DE ∧
    parseAddress " +7\n" = .ok 7 ∧ parseAddress " $ 7" = .error ⟨" $ 7"⟩ := by
  obtain ⟨hok, herror, hhexadecimal, -⟩ := parseAddress_exact
  refine ⟨hhexadecimal 0xC0DE 2 ['0', 'x'] ['C', '0', 'd', 'e'] (by decide) (by decide), ?_, ?_⟩
  · have hseven : Text.Denotes 10 ['7'] 7 := ⟨[7], .cons ⟨by decide, .inl rfl⟩ .nil, rfl⟩
    have htrimmed : Text.IsTrimmed [' ', '+', '7', '\n'] ['+', '7'] := Text.isTrimmed_iff.2 rfl
    exact (hok " +7\n" 7).2 ⟨['+', '7'], htrimmed, .decimal (.plus (by simp) hseven)⟩
  · refine (herror " $ 7" _).2 ⟨rfl, ?_⟩
    rintro ⟨t, n, htrimmed, haddress, -⟩
    obtain rfl : t = ['$', ' ', '7'] := htrimmed.eq_trimBlanks
    exact absurd (haddress.isBlank_of_mem (c := ' ') (by simp)) (by decide)

end Mos6502

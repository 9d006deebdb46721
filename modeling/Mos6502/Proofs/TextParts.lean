import Mathlib.Data.List.TakeWhile
import Mos6502.Text.Hex

/-! The parts of a text. A part ends at the first character that it cannot have in it, or where it
has its length; then the text tells what has been written there, whatever follows. -/
namespace Mos6502.Text

section
variable {stop : Char} {part : List Char}

theorem takeWhile_stop (h : stop ∉ part) (rest : List Char) :
    (part ++ stop :: rest).takeWhile (· != stop) = part := by
  have hpart : ∀ c ∈ part, (c != stop) = true := fun c hc => bne_iff_ne.2 fun he => h (he ▸ hc)
  rw [List.takeWhile_append_of_pos hpart, List.takeWhile_cons_of_neg (by simp), List.append_nil]

theorem dropWhile_stop (h : stop ∉ part) (rest : List Char) :
    (part ++ stop :: rest).dropWhile (· != stop) = stop :: rest := by
  have hpart : ∀ c ∈ part, (c != stop) = true := fun c hc => bne_iff_ne.2 fun he => h (he ▸ hc)
  rw [List.dropWhile_append_of_pos hpart, List.dropWhile_cons_of_neg (by simp)]

/-- A text has one first stop. -/
theorem stop_unique {part' rest rest' : List Char} (h : stop ∉ part) (h' : stop ∉ part')
    (heq : part ++ stop :: rest = part' ++ stop :: rest') : part = part' ∧ rest = rest' := by
  have hpart := takeWhile_stop h rest
  have hrest := dropWhile_stop h rest
  rw [heq, takeWhile_stop h'] at hpart
  rw [heq, dropWhile_stop h'] at hrest
  exact ⟨hpart.symm, (List.cons.inj hrest).2.symm⟩

end

theorem lines_unique {stop : Char} {parts parts' : List (List Char)}
    (h : ∀ part ∈ parts, stop ∉ part) (h' : ∀ part ∈ parts', stop ∉ part)
    (heq : parts.flatMap (· ++ [stop]) = parts'.flatMap (· ++ [stop])) : parts = parts' := by
  induction parts generalizing parts' with
  | nil =>
    cases parts' with
    | nil => rfl
    | cons part' rest' => simp at heq
  | cons part rest ih =>
    cases parts' with
    | nil => simp at heq
    | cons part' rest' =>
      obtain ⟨hpart, hrest⟩ := List.forall_mem_cons.1 h
      obtain ⟨hpart', hrest'⟩ := List.forall_mem_cons.1 h'
      simp only [List.flatMap_cons, List.append_assoc, List.singleton_append] at heq
      obtain ⟨rfl, hlater⟩ := stop_unique hpart hpart' heq
      rw [ih hrest hrest' hlater]

section
variable {α : Type} {write : α → List Char}

/-- Whether a text that begins with what is written for something tells what that is and where it
ends. -/
def IsDelimited (write : α → List Char) : Prop :=
  ∀ a b rest rest', write a ++ rest = write b ++ rest' → a = b ∧ rest = rest'

theorem IsDelimited.of_length {n : Nat} (hlength : ∀ a, (write a).length = n)
    (hinj : Function.Injective write) : IsDelimited write := by
  intro a b rest rest' h
  obtain ⟨hwrite, hrest⟩ := List.append_inj h ((hlength a).trans (hlength b).symm)
  exact ⟨hinj hwrite, hrest⟩

theorem IsDelimited.injective (h : IsDelimited write) : Function.Injective write := fun a b hab =>
  (h a b [] [] (congrArg (· ++ []) hab)).1

end

theorem hexDigit_inj {n m : Nat} (hn : n < 16) (hm : m < 16) (h : hexDigit n = hexDigit m) :
    n = m := by
  have hvalue := digitValue?_hexDigit hn
  rw [h, digitValue?_hexDigit hm] at hvalue
  exact (Option.some.inj hvalue).symm

theorem isDelimited_hexByteDigits : IsDelimited hexByteDigits := by
  refine .of_length (n := 2) (fun _ => rfl) fun b b' h => UInt8.toNat_inj.1 ?_
  have hb := b.toNat_lt
  have hb' := b'.toNat_lt
  simp only [hexByteDigits, List.cons.injEq, and_true] at h
  have hhigh := hexDigit_inj (by omega) (by omega) h.1
  have hlow := hexDigit_inj (by omega) (by omega) h.2
  omega

theorem isDelimited_hexWordDigits : IsDelimited hexWordDigits := by
  refine .of_length (n := 4) (fun _ => rfl) fun w w' h => UInt16.toNat_inj.1 ?_
  have hw := w.toNat_lt
  have hw' := w'.toNat_lt
  simp only [hexWordDigits, List.cons.injEq, and_true] at h
  obtain ⟨h3, h2, h1, h0⟩ := h
  have hd3 := hexDigit_inj (by omega) (by omega) h3
  have hd2 := hexDigit_inj (by omega) (by omega) h2
  have hd1 := hexDigit_inj (by omega) (by omega) h1
  have hd0 := hexDigit_inj (by omega) (by omega) h0
  omega

theorem hexDigit_ne {c : Char} (hc : c < '0') {n : Nat} (hn : n < 16) : hexDigit n ≠ c := by
  have hall : ∀ i : Fin 16, '0' ≤ hexDigit i := by decide
  exact fun h => absurd hc (Char.not_lt.2 (h ▸ hall ⟨n, hn⟩))

theorem notMem_hexByteDigits {c : Char} (hc : c < '0') (b : UInt8) : c ∉ hexByteDigits b := by
  have hb := b.toNat_lt
  have hdigit {n : Nat} (hn : n < 16) : c ≠ hexDigit n := (hexDigit_ne hc hn).symm
  simp only [hexByteDigits, List.mem_cons, List.not_mem_nil, or_false, not_or]
  exact ⟨hdigit (by omega), hdigit (by omega)⟩

theorem notMem_hexWordDigits {c : Char} (hc : c < '0') (w : UInt16) : c ∉ hexWordDigits w := by
  have hw := w.toNat_lt
  have hdigit {n : Nat} (hn : n < 16) : c ≠ hexDigit n := (hexDigit_ne hc hn).symm
  simp only [hexWordDigits, List.mem_cons, List.not_mem_nil, or_false, not_or]
  exact ⟨hdigit (by omega), hdigit (by omega), hdigit (by omega), hdigit (by omega)⟩

end Mos6502.Text

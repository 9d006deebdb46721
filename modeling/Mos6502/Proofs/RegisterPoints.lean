import Mos6502.Monitor.Breakpoint
import Mos6502.Proofs.AddressText
import Mos6502.Proofs.TextParts

/-! How a breakpoint on a register is written: the name of the register, an equals sign, and the
value. The text is split at its first equals sign, whatever stands there. What is wrong with it is
looked for from left to right, and is given back as it came. -/
namespace Mos6502

def DataRegister.names : DataRegister → List (List Char)
  | .a => [['A'], ['A', 'C']]
  | .x => [['X']]
  | .y => [['Y']]

/-- A text is the name of a register, if the blanks around it and the case of its letters are left
aside. -/
def DataRegister.IsNamed (r : DataRegister) (text : List Char) : Prop :=
  ∃ t, Text.IsTrimmed text t ∧ t.map Char.toUpper ∈ r.names

theorem DataRegister.ofName?_eq_some_iff {r : DataRegister} {text : List Char} :
    ofName? text = some r ↔ r.IsNamed text := by
  simp only [IsNamed, Text.isTrimmed_iff, exists_eq_left]
  unfold ofName?
  generalize (Text.trimBlanks text).map Char.toUpper = capitals
  split
  all_goals cases r <;> simp_all [names]

theorem DataRegister.ofName?_eq_none_iff {text : List Char} :
    ofName? text = none ↔ ∀ r : DataRegister, ¬r.IsNamed text := by
  simp only [← ofName?_eq_some_iff]
  exact Option.eq_none_iff_forall_ne_some

namespace Breakpoint

/-- A text and its parts before and behind the first equals sign. -/
structure SplitsInto (s left right : String) : Prop where
  eq : s = left ++ "=" ++ right
  first : '=' ∉ left.toList

section
variable {s left right : String}

theorem SplitsInto.toList (h : SplitsInto s left right) :
    s.toList = left.toList ++ '=' :: right.toList := by
  simp [h.eq]

theorem exists_splitsInto (h : '=' ∈ s.toList) : ∃ left right, SplitsInto s left right := by
  obtain ⟨front, back, hs, hfront⟩ := List.eq_append_cons_of_mem h
  refine ⟨String.ofList front, String.ofList back, ?_, by simpa using hfront⟩
  apply String.toList_inj.1
  simp [hs]

theorem parseRegister_of_notMem (h : '=' ∉ s.toList) :
    parseRegister s = .error (.missingValue s) := by
  have hnone : s.toList.dropWhile (· != '=') = [] :=
    List.dropWhile_eq_nil_iff.2 fun c hc => bne_iff_ne.2 fun he => h (he ▸ hc)
  rw [parseRegister, hnone]

/-- Without the name of a register the value is not looked at. -/
theorem parseRegister_of_unnamed (h : SplitsInto s left right)
    (hname : ∀ r : DataRegister, ¬r.IsNamed left.toList) :
    parseRegister s = .error (.unknownRegister left) := by
  rw [parseRegister, h.toList, Text.dropWhile_stop h.first, Text.takeWhile_stop h.first]
  simp only [DataRegister.ofName?_eq_none_iff.2 hname, String.ofList_toList]

theorem parseRegister_of_named (h : SplitsInto s left right) {r : DataRegister}
    (hname : r.IsNamed left.toList) :
    parseRegister s =
      match parseAddress right with
      | .error _ => .error (.badValue right)
      | .ok v => if v ≤ 255 then .ok (.register r v.toUInt8) else .error (.badValue right) := by
  rw [parseRegister, h.toList, Text.dropWhile_stop h.first, Text.takeWhile_stop h.first]
  cases hvalue : parseAddress right <;>
    simp only [DataRegister.ofName?_eq_some_iff.2 hname, String.ofList_toList, hvalue]

end

theorem exists_byte_iff {w : Word} : (∃ v : Byte, w = v.toUInt16) ↔ w ≤ 255 := by
  have hlimit : (255 : Word).toNat = 255 := rfl
  rw [UInt16.le_iff_toNat_le, hlimit]
  constructor
  · rintro ⟨v, rfl⟩
    rw [UInt8.toNat_toUInt16]
    exact Nat.le_of_lt_succ v.toNat_lt
  · intro hw
    refine ⟨w.toUInt8, UInt16.toNat_inj.1 ?_⟩
    rw [UInt8.toNat_toUInt16, UInt16.toNat_toUInt8]
    omega

theorem parseAddress_hexByte (v : Byte) :
    parseAddress ("$" ++ Text.hexByte v) = .ok v.toUInt16 := by
  have hdigit {n : Nat} (hn : n < 16) : Text.IsDigit 16 (Text.hexDigit n) n :=
    (Text.isDigit_iff (by decide)).2 ⟨Text.digitValue?_hexDigit hn, hn⟩
  have hv := v.toNat_lt
  have hdenotes : Text.Denotes 16 (Text.hexByteDigits v) v.toNat := by
    have hboth := (Text.Denotes.nil.snoc (hdigit (n := v.toNat / 16) (by omega))).snoc
      (hdigit (n := v.toNat % 16) (by omega))
    have hsum : (0 * 16 + v.toNat / 16) * 16 + v.toNat % 16 = v.toNat := by omega
    rwa [hsum] at hboth
  have htext : "$" ++ Text.hexByte v = String.ofList ('$' :: Text.hexByteDigits v) := by
    apply String.toList_inj.1
    simp
  rw [htext]
  refine parseAddress_ofList (.dollar (.bare (by simp [Text.hexByteDigits]) ?_))
  rwa [UInt8.toNat_toUInt16]

/-- How a text denotes a breakpoint on a register. -/
inductive Denoted (s : String) : Breakpoint → Prop
  | register {left right : String} {r : DataRegister} {v : Byte} : SplitsInto s left right →
    r.IsNamed left.toList → parseAddress right = .ok v.toUInt16 → Denoted s (.register r v)

/-- What is wrong with a text that denotes none. A value is looked at behind the name of a register
only. -/
inductive Refused (s : String) : BreakpointError → Prop
  | missingValue : '=' ∉ s.toList → Refused s (.missingValue s)
  | unknownRegister {left right : String} : SplitsInto s left right →
    (∀ r : DataRegister, ¬r.IsNamed left.toList) → Refused s (.unknownRegister left)
  | badValue {left right : String} {r : DataRegister} : SplitsInto s left right →
    r.IsNamed left.toList → (∀ v : Byte, parseAddress right ≠ .ok v.toUInt16) →
    Refused s (.badValue right)

theorem Denoted.parseRegister_eq {s : String} {p : Breakpoint} (h : Denoted s p) :
    parseRegister s = .ok p := by
  obtain ⟨hsplit, hname, hvalue⟩ := h
  rw [parseRegister_of_named hsplit hname, hvalue]
  simp only [if_pos (exists_byte_iff.1 ⟨_, rfl⟩), UInt8.toUInt8_toUInt16]

theorem Refused.parseRegister_eq {s : String} {e : BreakpointError} (h : Refused s e) :
    parseRegister s = .error e := by
  cases h with
  | missingValue hs => exact parseRegister_of_notMem hs
  | unknownRegister hsplit hname => exact parseRegister_of_unnamed hsplit hname
  | badValue hsplit hname hvalue =>
    rw [parseRegister_of_named hsplit hname]
    split
    case h_1 => rfl
    case h_2 w hw =>
      refine if_neg fun hle => ?_
      obtain ⟨v, rfl⟩ := exists_byte_iff.2 hle
      exact hvalue v hw

theorem denoted_or_refused (s : String) : (∃ p, Denoted s p) ∨ ∃ e, Refused s e := by
  by_cases hs : '=' ∈ s.toList
  case neg => exact .inr ⟨_, .missingValue hs⟩
  case pos =>
    obtain ⟨left, right, hsplit⟩ := exists_splitsInto hs
    by_cases hname : ∃ r : DataRegister, r.IsNamed left.toList
    case neg => exact .inr ⟨_, .unknownRegister hsplit (not_exists.1 hname)⟩
    case pos =>
      obtain ⟨r, hr⟩ := hname
      by_cases hvalue : ∃ v : Byte, parseAddress right = .ok v.toUInt16
      case pos =>
        obtain ⟨v, hv⟩ := hvalue
        exact .inl ⟨_, .register hsplit hr hv⟩
      case neg => exact .inr ⟨_, .badValue hsplit hr (not_exists.1 hvalue)⟩

theorem denoted_text (r : DataRegister) (v : Byte) :
    Denoted (Breakpoint.register r v).text (.register r v) := by
  have hsplit : SplitsInto (Breakpoint.register r v).text r.text ("$" ++ Text.hexByte v) := by
    constructor
    · apply String.toList_inj.1
      simp [text]
    · cases r <;> decide
  have hname : r.IsNamed r.text.toList := DataRegister.ofName?_eq_some_iff.1 (by cases r <;> decide)
  exact .register hsplit hname (parseAddress_hexByte v)

/-- A text is read as a breakpoint just if it denotes it, and refused just for what is wrong with
it; what is written for a breakpoint on a register is read back. -/
theorem parseRegister_exact :
    (∀ s p, parseRegister s = .ok p ↔ Denoted s p) ∧
    (∀ s e, parseRegister s = .error e ↔ Refused s e) ∧
    ∀ r v, parseRegister (Breakpoint.register r v).text = .ok (.register r v) := by
  refine ⟨fun s p => ⟨fun h => ?_, fun h => h.parseRegister_eq⟩,
    fun s e => ⟨fun h => ?_, fun h => h.parseRegister_eq⟩,
    fun r v => (denoted_text r v).parseRegister_eq⟩
  · obtain ⟨q, hq⟩ | ⟨e, he⟩ := denoted_or_refused s
    · exact Except.ok.inj (hq.parseRegister_eq.symm.trans h) ▸ hq
    · exact nomatch he.parseRegister_eq.symm.trans h
  · obtain ⟨p, hp⟩ | ⟨f, hf⟩ := denoted_or_refused s
    · exact nomatch hp.parseRegister_eq.symm.trans h
    · exact Except.error.inj (hf.parseRegister_eq.symm.trans h) ▸ hf

example : parseRegister " ac = 1=2" = .error (.badValue " 1=2") := by rfl

end Breakpoint
end Mos6502

import Mathlib.Data.Nat.Digits.Defs
import Mathlib.Tactic.Ring
import Mos6502.Json.Reader
import Mos6502.Proofs.Tokens

/-! What is read from the members of an object. A whole number is what its digits denote, if it is
written without sign, fraction and exponent. A reader that takes one member of a name, and keeps
what it makes of it apart from all else, reads the other members as if that member were not there;
where it stands among them does not matter. -/
namespace Mos6502.Json

namespace Reading
variable {α β : Type} {b : β}

theorem bind_eq_ok_iff {x : Reading α} {f : α → Reading β} :
    x >>= f = .ok b ↔ ∃ a, x = .ok a ∧ f a = .ok b := by
  cases x <;> simp [bind, Except.bind]

theorem map_eq_ok_iff {x : Reading α} {f : α → β} : x.map f = .ok b ↔ ∃ a, x = .ok a ∧ f a = b := by
  cases x <;> simp [Except.map]

theorem ofFlaw_eq_ok_iff {x : Except Flaw β} : ofFlaw x = .ok b ↔ x = .ok b := by
  cases x <;> simp [ofFlaw]

end Reading

theorem readText_eq_ok_iff {α : Type} {read : Node → Reading α} {text : String} {a : α} :
    readText read text = .ok a ↔
      read (Document.ofText text).root = .ok a ∧ (Document.ofText text).more = false := by
  rw [readText, Reading.bind_eq_ok_iff]
  cases (Document.ofText text).more <;> simp [pure, Except.pure]

/-- Digits without a sign, a fraction or an exponent, and the number that they denote. -/
structure Numeral.IsNatural (m : Numeral) (n : Nat) : Prop where
  unsigned : m.negative = false
  whole : m.fraction = []
  plain : m.exponent = none
  digits : Nat.ofDigits 10 m.whole.reverse = n

namespace Numeral

theorem appendDigits_eq_iff {start n : Nat} {ds : List Nat} (hstart : start < wholeLimit) :
    appendDigits start ds = (n, []) ↔
      start * 10 ^ ds.length + Nat.ofDigits 10 ds.reverse = n ∧ n < wholeLimit := by
  induction ds generalizing start with
  | nil =>
    simp only [appendDigits, Prod.mk.injEq, and_true, List.length_nil, pow_zero, mul_one,
      List.reverse_nil, Nat.ofDigits_nil, add_zero]
    constructor
    · rintro rfl
      exact ⟨rfl, hstart⟩
    · exact fun h => h.1
  | cons d rest ih =>
    have hstep : start * 10 ^ (d :: rest).length + Nat.ofDigits 10 (d :: rest).reverse =
        (start * 10 + d) * 10 ^ rest.length + Nat.ofDigits 10 rest.reverse := by
      rw [List.length_cons, List.reverse_cons, Nat.ofDigits_append, Nat.ofDigits_singleton,
        List.length_reverse]
      ring
    rw [appendDigits, hstep]
    obtain hfits | hbig := Nat.lt_or_ge (start * 10 + d) wholeLimit
    · rw [if_pos hfits, ih hfits]
    · rw [if_neg (Nat.not_lt.2 hbig)]
      simp only [Prod.mk.injEq, reduceCtorEq, and_false, false_iff, not_and, Nat.not_lt]
      rintro rfl
      have hgrow := Nat.le_mul_of_pos_right (start * 10 + d) (Nat.pow_pos (by decide : 0 < 10)
        (n := rest.length))
      omega

theorem value_eq_natural_iff {m : Numeral} {n : Nat} :
    m.value = .ok (.natural n) ↔ m.IsNatural n ∧ n < wholeLimit := by
  have hexact : appendDigits 0 m.whole = (n, []) ↔
      Nat.ofDigits 10 m.whole.reverse = n ∧ n < wholeLimit := by
    rw [appendDigits_eq_iff (by decide)]
    simp
  unfold value
  dsimp only
  by_cases hplain : m.fraction = [] ∧ m.exponent = none ∧ (appendDigits 0 m.whole).2 = []
  case pos =>
    rw [if_pos hplain]
    obtain ⟨hfraction, hexponent, hrest⟩ := hplain
    have hall : appendDigits 0 m.whole = ((appendDigits 0 m.whole).1, []) := by rw [← hrest]
    cases hsign : m.negative with
    | true =>
      have hne : ¬m.IsNatural n := fun h => absurd h.unsigned (by simp [hsign])
      simp only [if_true, hne, false_and, iff_false]
      split <;> simp
    | false =>
      simp only [Bool.false_eq_true, if_false, Except.ok.injEq, Number.natural.injEq]
      constructor
      · rintro rfl
        obtain ⟨hdigits, hlimit⟩ := hexact.1 hall
        exact ⟨⟨hsign, hfraction, hexponent, hdigits⟩, hlimit⟩
      · rintro ⟨h, hlimit⟩
        rw [hexact.2 ⟨h.digits, hlimit⟩]
  case neg =>
    rw [if_neg hplain]
    have hnot : ¬(m.IsNatural n ∧ n < wholeLimit) := fun ⟨h, hlimit⟩ =>
      hplain ⟨h.whole, h.plain, by rw [hexact.2 ⟨h.digits, hlimit⟩]⟩
    simp only [hnot, iff_false]
    cases m.magnitude <;> simp

end Numeral

theorem Ending.leave_eq_ok_iff {ending : Ending} {u : Unit} :
    ending.leave = .ok u ↔ ending = .closed := by
  cases ending <;> simp [leave]

theorem Node.leaveRecord_eq_ok_iff {ending : Ending} {rest : List Node} {u : Unit} :
    leaveRecord ending rest = .ok u ↔ rest = [] ∧ ending = .closed := by
  cases rest <;> simp [leaveRecord, Ending.leave_eq_ok_iff]

theorem Node.skip_eq_ok_iff {n : Node} {u : Unit} : n.skip = .ok u ↔ n.flaw? = none := by
  unfold skip
  cases n.flaw? <;> simp

theorem Node.refuse_ne_ok {α : Type} {n : Node} {expected : String} {a : α} :
    n.refuse expected ≠ .ok a := by
  unfold refuse
  cases n.found? <;> exact nofun

/-- A node is read as a whole number just if it is one within the limit. -/
theorem Node.readUnsigned_eq_ok_iff {limit n : Nat} {expected : String} {node : Node}
    (hlimit : limit < Numeral.wholeLimit) :
    node.readUnsigned limit expected = .ok n ↔
      (∃ m : Numeral, node = .number (.ok m) ∧ m.IsNatural n) ∧ n ≤ limit := by
  unfold readUnsigned
  split
  case h_1 m =>
    have hvalue : m.IsNatural n ∧ n ≤ limit ↔ m.value = .ok (.natural n) ∧ n ≤ limit := by
      rw [Numeral.value_eq_natural_iff, and_assoc, and_congr_right_iff]
      exact fun _ => ⟨fun hn => ⟨hn.trans_lt hlimit, hn⟩, fun h => h.2⟩
    simp only [number.injEq, Except.ok.injEq, exists_eq_left', hvalue]
    cases m.value with
    | error f => simp [Reading.ofFlaw, bind, Except.bind]
    | ok v =>
      cases v with
      | natural k =>
        simp only [Reading.ofFlaw, bind, Except.bind, Except.ok.injEq, Number.natural.injEq]
        split
        case isTrue hk =>
          simp only [pure, Except.pure, Except.ok.injEq]
          exact ⟨fun h => ⟨h, h ▸ hk⟩, fun h => h.1⟩
        case isFalse hk =>
          simp only [Reading.fail, reduceCtorEq, false_iff, not_and]
          rintro rfl
          exact hk
      | negative k => simp [Reading.ofFlaw, Reading.fail, bind, Except.bind]
      | float x => simp [Reading.ofFlaw, Reading.fail, bind, Except.bind]
  case h_2 hnumber =>
    simp only [refuse_ne_ok, false_iff]
    rintro ⟨⟨m, rfl, -⟩, -⟩
    exact hnumber m rfl

def Literal.isNamed (name : String) (key : Literal) : Bool :=
  match key.content with
  | .ok s => s == name
  | .error _ => false

@[simp] theorem Literal.isNamed_ofString (name s : String) :
    (Literal.ofString s).isNamed name = (s == name) := by
  rw [isNamed, content_ofString]

theorem Literal.isNamed_eq_true_iff {name : String} {key : Literal} :
    key.isNamed name = true ↔ key.content = .ok name := by
  unfold isNamed
  cases key.content <;> simp

namespace Node

/-- The values of all members of a name. -/
def valuesOf (name : String) (members : List (Literal × Node)) : List Node :=
  (members.filter (·.1.isNamed name)).map (·.2)

def without (name : String) (members : List (Literal × Node)) : List (Literal × Node) :=
  members.filter (!·.1.isNamed name)

section
variable {name : String} {key : Literal} {n : Node} {members rest : List (Literal × Node)}

theorem valuesOf_cons_of_named (h : key.content = .ok name) :
    valuesOf name ((key, n) :: rest) = n :: valuesOf name rest := by
  simp [valuesOf, Literal.isNamed_eq_true_iff.2 h]

theorem valuesOf_cons_of_not_named (h : key.content ≠ .ok name) :
    valuesOf name ((key, n) :: rest) = valuesOf name rest := by
  simp [valuesOf, Literal.isNamed_eq_true_iff, h]

theorem without_cons_of_named (h : key.content = .ok name) :
    without name ((key, n) :: rest) = without name rest := by
  simp [without, Literal.isNamed_eq_true_iff.2 h]

theorem without_cons_of_not_named (h : key.content ≠ .ok name) :
    without name ((key, n) :: rest) = (key, n) :: without name rest := by
  simp [without, mt Literal.isNamed_eq_true_iff.1 h]

theorem without_eq_self (h : valuesOf name members = []) : without name members = members := by
  simp only [valuesOf, List.map_eq_nil_iff, List.filter_eq_nil_iff] at h
  rw [without, List.filter_eq_self]
  exact fun m hm => by simp [h m hm]

end

section
variable {σ : Type} {read : String → Node → σ → Reading σ} {ending : Ending}
  {members : List (Literal × Node)} {s t : σ}

theorem foldMembers_nil_eq_ok_iff :
    foldMembers read ending [] s = .ok t ↔ ending = .closed ∧ s = t := by
  simp [foldMembers, Reading.bind_eq_ok_iff, Ending.leave_eq_ok_iff, pure, Except.pure]

theorem foldMembers_cons_eq_ok_iff {key : Literal} {n : Node} {rest : List (Literal × Node)} :
    foldMembers read ending ((key, n) :: rest) s = .ok t ↔
      ∃ name u, key.content = .ok name ∧ read name n s = .ok u ∧
        foldMembers read ending rest u = .ok t := by
  simp only [foldMembers, Reading.bind_eq_ok_iff, Reading.ofFlaw_eq_ok_iff, exists_and_left]

/-- How a reader treats the members of a name: while their place is vacant it takes one, and puts
what it makes of that there. What it makes of other members does not depend on what is in that
place. -/
structure TakesOne {α : Type} (read : String → Node → σ → Reading σ) (name : String)
    (value : Node → Reading α) (put : Option α → σ → σ) : Prop where
  first {n : Node} {s : σ} : read name n (put none s) = (value n).map fun a => put (some a) s
  second {n : Node} {a : α} {s t : σ} : read name n (put (some a) s) ≠ .ok t
  other {key : String} {n : Node} {s : σ} (place : Option α) :
    key ≠ name → read key n (put place s) = (read key n s).map (put place)

namespace TakesOne
variable {α : Type} {name : String} {value : Node → Reading α} {put : Option α → σ → σ}

theorem stays_vacant (h : TakesOne read name value put) {key : String} {n : Node}
    (hkey : key ≠ name) (hs : put none s = s) (hread : read key n s = .ok t) : put none t = t := by
  have hother := h.other none hkey (n := n) (s := s)
  rw [hs, hread] at hother
  exact (Except.ok.inj hother).symm

/-- Once the place is taken, there is no further member of the name, and all others are read as if
it were not taken. -/
theorem foldMembers_put (h : TakesOne read name value put) {a : α} :
    foldMembers read ending members (put (some a) s) = .ok t ↔
      valuesOf name members = [] ∧
        ∃ u, foldMembers read ending members s = .ok u ∧ put (some a) u = t := by
  induction members generalizing s with
  | nil =>
    simp only [foldMembers_nil_eq_ok_iff]
    constructor
    · rintro ⟨hclosed, ht⟩
      exact ⟨rfl, s, ⟨hclosed, rfl⟩, ht⟩
    · rintro ⟨-, u, ⟨hclosed, rfl⟩, ht⟩
      exact ⟨hclosed, ht⟩
  | cons m rest ih =>
    obtain ⟨key, n⟩ := m
    by_cases hkey : key.content = .ok name
    · rw [valuesOf_cons_of_named hkey, foldMembers_cons_eq_ok_iff]
      constructor
      · rintro ⟨name', u, hname, hread, -⟩
        obtain rfl : name = name' := Except.ok.inj (hkey.symm.trans hname)
        exact absurd hread h.second
      · exact fun hnil => absurd hnil.1 (List.cons_ne_nil _ _)
    · rw [valuesOf_cons_of_not_named hkey]
      simp only [foldMembers_cons_eq_ok_iff]
      constructor
      · rintro ⟨name', u, hname, hread, hrest⟩
        have hother : name' ≠ name := fun heq => hkey (heq ▸ hname)
        rw [h.other (some a) hother] at hread
        obtain ⟨w, hw, rfl⟩ := Reading.map_eq_ok_iff.1 hread
        obtain ⟨hnone, v, hv, ht⟩ := ih.1 hrest
        exact ⟨hnone, v, ⟨name', w, hname, hw, hv⟩, ht⟩
      · rintro ⟨hnone, v, ⟨name', w, hname, hw, hv⟩, ht⟩
        have hother : name' ≠ name := fun heq => hkey (heq ▸ hname)
        refine ⟨name', put (some a) w, hname, ?_, ih.2 ⟨hnone, v, hv, ht⟩⟩
        rw [h.other (some a) hother, hw]
        rfl

/-- The members of the name and all others are read independent of each other. -/
theorem foldMembers_eq_ok_iff (h : TakesOne read name value put) (hs : put none s = s) :
    foldMembers read ending members s = .ok t ↔
      ∃ u, put none u = u ∧ foldMembers read ending (without name members) s = .ok u ∧
        ((valuesOf name members = [] ∧ u = t) ∨
          ∃ n a, valuesOf name members = [n] ∧ value n = .ok a ∧ put (some a) u = t) := by
  induction members generalizing s t with
  | nil =>
    simp only [valuesOf, without, List.filter_nil, List.map_nil, foldMembers_nil_eq_ok_iff]
    constructor
    · rintro ⟨hclosed, rfl⟩
      exact ⟨s, hs, ⟨hclosed, rfl⟩, .inl ⟨trivial, rfl⟩⟩
    · rintro ⟨u, -, ⟨hclosed, rfl⟩, ⟨-, ht⟩ | ⟨n, a, hone, -⟩⟩
      · exact ⟨hclosed, ht⟩
      · exact absurd hone.symm (List.cons_ne_nil _ _)
  | cons m rest ih =>
    obtain ⟨key, n⟩ := m
    by_cases hkey : key.content = .ok name
    · rw [valuesOf_cons_of_named hkey, without_cons_of_named hkey, foldMembers_cons_eq_ok_iff]
      constructor
      · rintro ⟨name', u, hname, hread, hrest⟩
        obtain rfl : name = name' := Except.ok.inj (hkey.symm.trans hname)
        rw [← hs, h.first] at hread
        obtain ⟨a, ha, rfl⟩ := Reading.map_eq_ok_iff.1 hread
        obtain ⟨hnone, v, hv, ht⟩ := h.foldMembers_put.1 hrest
        obtain ⟨w, hw, hfold, ⟨-, rfl⟩ | ⟨n', a', hone, -⟩⟩ := (ih hs).1 hv
        · rw [hnone]
          exact ⟨w, hw, hfold, .inr ⟨n, a, rfl, ha, ht⟩⟩
        · exact absurd (hone.symm.trans hnone) (List.cons_ne_nil _ _)
      · rintro ⟨v, -, hv, ⟨hnil, -⟩ | ⟨n', a, hone, ha, ht⟩⟩
        · exact absurd hnil (List.cons_ne_nil _ _)
        · obtain ⟨rfl, hnone⟩ := List.cons.inj hone
          rw [without_eq_self hnone] at hv
          refine ⟨name, put (some a) s, hkey, ?_, h.foldMembers_put.2 ⟨hnone, v, hv, ht⟩⟩
          rw [← hs, h.first, ha, hs]
          rfl
    · rw [valuesOf_cons_of_not_named hkey, without_cons_of_not_named hkey]
      simp only [foldMembers_cons_eq_ok_iff]
      constructor
      · rintro ⟨name', u, hname, hread, hrest⟩
        have hother : name' ≠ name := fun heq => hkey (heq ▸ hname)
        obtain ⟨v, hvacant, hv, hvalue⟩ := (ih (h.stays_vacant hother hs hread)).1 hrest
        exact ⟨v, hvacant, ⟨name', u, hname, hread, hv⟩, hvalue⟩
      · rintro ⟨v, hvacant, ⟨name', u, hname, hread, hv⟩, hvalue⟩
        have hother : name' ≠ name := fun heq => hkey (heq ▸ hname)
        have hu := h.stays_vacant hother hs hread
        exact ⟨name', u, hname, hread, (ih hu).2 ⟨v, hvacant, hv, hvalue⟩⟩

theorem foldMembers_instead (h : TakesOne read name value put) (hs : put none s = s)
    {members' : List (Literal × Node)} {v : Option Node}
    (hothers : without name members' = without name members)
    (hvalue : valuesOf name members' = v.toList)
    (hfold : foldMembers read ending members s = .ok t) :
    ∃ u, put none u = u ∧
      ((valuesOf name members = [] ∧ u = t) ∨
        ∃ n a, valuesOf name members = [n] ∧ value n = .ok a ∧ put (some a) u = t) ∧
      ∀ t', foldMembers read ending members' s = .ok t' ↔
        (v = none ∧ u = t') ∨ ∃ n ∈ v, ∃ a, value n = .ok a ∧ put (some a) u = t' := by
  obtain ⟨u, hvacant, hu, ht⟩ := (h.foldMembers_eq_ok_iff hs).1 hfold
  refine ⟨u, hvacant, ht, fun t' => ?_⟩
  rw [h.foldMembers_eq_ok_iff hs, hothers, hvalue, hu]
  constructor
  · rintro ⟨w, -, hw, hplace⟩
    obtain rfl : u = w := Except.ok.inj hw
    obtain ⟨hnone, rfl⟩ | ⟨n, a, hone, ha, rfl⟩ := hplace
    · exact .inl ⟨Option.toList_eq_nil_iff.1 hnone, rfl⟩
    · exact .inr ⟨n, Option.toList_eq_singleton_iff.1 hone, a, ha, rfl⟩
  · rintro (⟨rfl, rfl⟩ | ⟨n, rfl, a, ha, rfl⟩)
    · exact ⟨u, hvacant, rfl, .inl ⟨rfl, rfl⟩⟩
    · exact ⟨u, hvacant, rfl, .inr ⟨n, a, rfl, ha, rfl⟩⟩

end TakesOne

end

end Node
end Mos6502.Json

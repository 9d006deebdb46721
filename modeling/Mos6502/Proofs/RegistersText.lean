import Mathlib
import Mos6502.CommandLine.Run
import Mos6502.Proofs.FileWrites
import Mos6502.Proofs.Members
import Mos6502.Proofs.Printing
import Mos6502.Registers.Json

/-! The register file in JSON. What is written, on one line or on several, is read back. In an
object the order of the members does not matter, nor do members of other names: each register has
one member, and its value is the register. -/
namespace Mos6502.Registers
open Json

/-- What the values of all members of a name make of the value that the register has so far. -/
inductive Slot.Fills (slot : Slot) : List Node → Option Nat → Option Nat → Prop
  | kept {found : Option Nat} : Fills slot [] found found
  | read {n : Node} {v : Nat} (value : slot.read n = .ok v) : Fills slot [n] none (some v)

/-- Whether all keys can be read, and what is passed over has no flaw. -/
def CanPass (members : List (Literal × Node)) : Prop :=
  ∀ m ∈ members, ∃ name, m.1.content = .ok name ∧
    (slots.find? (·.name == name) = none → m.2.flaw? = none)

/-- Whether there is one member for the register, a whole number in range, and it is this one. -/
def Slot.IsGiven (slot : Slot) (members : List (Literal × Node)) (v : Nat) : Prop :=
  v ≤ slot.limit ∧
    ∃ m : Numeral, Node.valuesOf slot.name members = [.number (.ok m)] ∧ m.IsNatural v

namespace Slot
variable {slot : Slot} {n : Node} {rest : List Node} {old new : Option Nat}

theorem fills_nil_iff : slot.Fills [] old new ↔ old = new := by
  constructor
  · rintro ⟨⟩
    rfl
  · rintro rfl
    exact .kept

theorem fills_cons_iff :
    slot.Fills (n :: rest) old new ↔
      old = none ∧ ∃ v, slot.read n = .ok v ∧ slot.Fills rest (some v) new := by
  constructor
  · rintro ⟨⟩
    case read v hv => exact ⟨rfl, v, hv, .kept⟩
  · rintro ⟨rfl, v, hv, ⟨⟩⟩
    exact .read hv

theorem find?_name (h : slot ∈ slots) : slots.find? (·.name == slot.name) = some slot := by
  have hall : ∀ slot ∈ slots, slots.find? (·.name == slot.name) = some slot := by decide
  exact hall slot h

theorem limit_lt (h : slot ∈ slots) : slot.limit < Numeral.wholeLimit := by
  have hall : ∀ slot ∈ slots, slot.limit < Numeral.wholeLimit := by decide
  exact hall slot h

end Slot

section
variable {name : String} {n : Node} {before after : List (String × Nat)}

theorem lookup_append_self {v : Nat} (h : before.lookup name = none) :
    (before ++ [(name, v)]).lookup name = some v := by
  rw [List.lookup_append, h, List.lookup_cons_self]
  rfl

theorem lookup_append_of_ne {other : String} {v : Nat} (h : other ≠ name) :
    (before ++ [(name, v)]).lookup other = before.lookup other := by
  simp [List.lookup_append, List.lookup_cons, beq_false_of_ne h]

theorem readMember_of_other (h : slots.find? (·.name == name) = none) :
    readMember name n before = .ok after ↔ n.flaw? = none ∧ before = after := by
  rw [readMember, h]
  simp only [Reading.bind_eq_ok_iff, Node.skip_eq_ok_iff, pure, Except.pure, Except.ok.injEq,
    exists_const]

theorem readMember_of_slot {slot : Slot} (h : slots.find? (·.name == name) = some slot) :
    readMember name n before = .ok after ↔
      before.lookup name = none ∧ ∃ v, slot.read n = .ok v ∧ before ++ [(name, v)] = after := by
  rw [readMember, h]
  cases before.lookup name <;>
    simp [Reading.bind_eq_ok_iff, Reading.fail, pure, Except.pure]

theorem canPass_cons_iff {key : Literal} {rest : List (Literal × Node)} :
    CanPass ((key, n) :: rest) ↔
      (∃ name, key.content = .ok name ∧ (slots.find? (·.name == name) = none → n.flaw? = none)) ∧
        CanPass rest :=
  List.forall_mem_cons

section
variable {key : Literal} {rest : List (Literal × Node)} (hkey : key.content = .ok name)
include hkey

theorem fills_of_readMember (h : readMember name n before = .ok after) {slot : Slot}
    (hslot : slot ∈ slots) {new : Option Nat} :
    slot.Fills (Node.valuesOf slot.name ((key, n) :: rest)) (before.lookup slot.name) new ↔
      slot.Fills (Node.valuesOf slot.name rest) (after.lookup slot.name) new := by
  by_cases hname : slot.name = name
  · subst hname
    obtain ⟨hvacant, v, hv, rfl⟩ := (readMember_of_slot (Slot.find?_name hslot)).1 h
    rw [Node.valuesOf_cons_of_named hkey, Slot.fills_cons_iff, lookup_append_self hvacant, hv]
    simp [hvacant]
  · have hlookup : after.lookup slot.name = before.lookup slot.name := by
      cases hfind : slots.find? (·.name == name) with
      | none => rw [((readMember_of_other hfind).1 h).2]
      | some other =>
        obtain ⟨-, v, -, rfl⟩ := (readMember_of_slot hfind).1 h
        exact lookup_append_of_ne hname
    rw [Node.valuesOf_cons_of_not_named (hkey ▸ fun he => hname (Except.ok.inj he).symm), hlookup]

theorem exists_readMember (hpass : slots.find? (·.name == name) = none → n.flaw? = none)
    (hfills : ∀ slot ∈ slots, ∃ new,
      slot.Fills (Node.valuesOf slot.name ((key, n) :: rest)) (before.lookup slot.name) new) :
    ∃ after, readMember name n before = .ok after := by
  cases hfind : slots.find? (·.name == name) with
  | none => exact ⟨before, (readMember_of_other hfind).2 ⟨hpass hfind, rfl⟩⟩
  | some slot =>
    obtain rfl : slot.name = name := by simpa using List.find?_some hfind
    obtain ⟨new, hnew⟩ := hfills slot (List.mem_of_find?_eq_some hfind)
    rw [Node.valuesOf_cons_of_named hkey, Slot.fills_cons_iff] at hnew
    obtain ⟨hvacant, v, hv, -⟩ := hnew
    exact ⟨_, (readMember_of_slot hfind).2 ⟨hvacant, v, hv, rfl⟩⟩

end

end

/-- Reading the members of an object comes out so that each slot has been filled. -/
theorem foldMembers_readMember_iff {ending : Ending} {members : List (Literal × Node)}
    {before : List (String × Nat)} {w : Slot → Option Nat} :
    (∃ found, Node.foldMembers readMember ending members before = .ok found ∧
        ∀ slot ∈ slots, found.lookup slot.name = w slot) ↔
      ending = .closed ∧ CanPass members ∧
        ∀ slot ∈ slots,
          slot.Fills (Node.valuesOf slot.name members) (before.lookup slot.name) (w slot) := by
  induction members generalizing before with
  | nil =>
    simp only [Node.foldMembers_nil_eq_ok_iff, Node.valuesOf, List.filter_nil, List.map_nil,
      Slot.fills_nil_iff]
    constructor
    · rintro ⟨found, ⟨hclosed, rfl⟩, hw⟩
      exact ⟨hclosed, List.forall_mem_nil _, hw⟩
    · rintro ⟨hclosed, -, hw⟩
      exact ⟨before, ⟨hclosed, rfl⟩, hw⟩
  | cons m rest ih =>
    obtain ⟨key, n⟩ := m
    simp only [Node.foldMembers_cons_eq_ok_iff, canPass_cons_iff]
    constructor
    · rintro ⟨found, ⟨name, after, hkey, hread, hfold⟩, hw⟩
      obtain ⟨hclosed, hpass, hfills⟩ := ih.1 ⟨found, hfold, hw⟩
      exact ⟨hclosed, ⟨⟨name, hkey, fun hother => ((readMember_of_other hother).1 hread).1⟩, hpass⟩,
        fun slot hslot => (fills_of_readMember hkey hread hslot).2 (hfills slot hslot)⟩
    · rintro ⟨hclosed, ⟨⟨name, hkey, hother⟩, hpass⟩, hfills⟩
      obtain ⟨after, hread⟩ := exists_readMember hkey hother fun slot hslot =>
        ⟨w slot, hfills slot hslot⟩
      obtain ⟨found, hfold, hw⟩ := ih.2 ⟨hclosed, hpass, fun slot hslot =>
        (fills_of_readMember hkey hread hslot).1 (hfills slot hslot)⟩
      exact ⟨found, ⟨name, after, hkey, hread, hfold⟩, hw⟩

theorem collect_eq_ok_iff {found : List (String × Nat)} {list : List Slot} {vs : List Nat} :
    collect found list = .ok vs ↔
      List.Forall₂ (fun slot v => found.lookup slot.name = some v) list vs := by
  induction list generalizing vs with
  | nil => simp [collect, pure, Except.pure, eq_comm]
  | cons slot rest ih =>
    rw [collect, List.forall₂_cons_left_iff]
    cases found.lookup slot.name with
    | none => simp [Reading.fail]
    | some v =>
      simp only [Reading.bind_eq_ok_iff, ih, pure, Except.pure, Except.ok.injEq, Option.some.injEq]
      constructor
      · rintro ⟨vs', hrest, rfl⟩
        exact ⟨v, vs', rfl, hrest, rfl⟩
      · rintro ⟨v', vs', rfl, hrest, rfl⟩
        exact ⟨vs', hrest, rfl⟩

theorem forall_iff_forall₂ {α β : Type} {xs : List α} {ys : List β} {w : α → Option β}
    {P : α → Option β → Prop} {Q : α → β → Prop} (hw : List.Forall₂ (fun x y => w x = some y) xs ys)
    (hPQ : ∀ x ∈ xs, ∀ y, P x (some y) ↔ Q x y) : (∀ x ∈ xs, P x (w x)) ↔ List.Forall₂ Q xs ys := by
  induction hw with
  | nil => simp
  | @cons x y xs ys hy _ ih =>
    obtain ⟨hx, hxs⟩ := List.forall_mem_cons.1 hPQ
    rw [List.forall_mem_cons, List.forall₂_cons, hy, hx, ih hxs]

theorem Slot.fills_iff_isGiven {slot : Slot} (hslot : slot ∈ slots)
    {members : List (Literal × Node)} {v : Nat} :
    slot.Fills (Node.valuesOf slot.name members) none (some v) ↔ slot.IsGiven members v := by
  have hlimit := Slot.limit_lt hslot
  constructor
  · intro h
    generalize hnodes : Node.valuesOf slot.name members = nodes at h
    cases h with
    | read hread =>
      obtain ⟨⟨m, rfl, hm⟩, hv⟩ := (Node.readUnsigned_eq_ok_iff hlimit).1 hread
      exact ⟨hv, m, hnodes, hm⟩
  · rintro ⟨hv, m, hnodes, hm⟩
    rw [hnodes]
    exact .read ((Node.readUnsigned_eq_ok_iff hlimit).2 ⟨⟨m, rfl, hm⟩, hv⟩)

theorem values_ofValues {vs : List Nat}
    (h : List.Forall₂ (fun slot v => v ≤ slot.limit) slots vs) : (ofValues vs).values = vs := by
  obtain _ | ⟨hpc, _ | ⟨ha, _ | ⟨hx, _ | ⟨hy, _ | ⟨hsp, _ | ⟨hstatus, _ | _⟩⟩⟩⟩⟩⟩ := h
  simp only [ofValues, values, Status.toByte_ofByte, UInt16.toNat_ofNat', UInt8.toNat_ofNat',
    Nat.mod_eq_of_lt (Nat.lt_succ_of_le hpc), Nat.mod_eq_of_lt (Nat.lt_succ_of_le ha),
    Nat.mod_eq_of_lt (Nat.lt_succ_of_le hx), Nat.mod_eq_of_lt (Nat.lt_succ_of_le hy),
    Nat.mod_eq_of_lt (Nat.lt_succ_of_le hsp), Nat.mod_eq_of_lt (Nat.lt_succ_of_le hstatus)]

theorem readJson_object_eq_ok_iff {members : List (Literal × Node)} {ending : Ending}
    {r : Registers} :
    readJson (.object members ending) = .ok r ↔
      ending = .closed ∧ CanPass members ∧
        List.Forall₂ (fun slot v => slot.IsGiven members v) slots r.values := by
  have hgiven {w : Slot → Option Nat} {vs : List Nat}
      (hw : List.Forall₂ (fun slot v => w slot = some v) slots vs) :=
    forall_iff_forall₂ (P := fun slot v => slot.Fills (Node.valuesOf slot.name members) none v) hw
      fun slot hslot v => Slot.fills_iff_isGiven hslot
  simp only [readJson, Reading.bind_eq_ok_iff, collect_eq_ok_iff, pure, Except.pure,
    Except.ok.injEq]
  constructor
  · rintro ⟨found, hfold, vs, hvs, rfl⟩
    obtain ⟨hclosed, hpass, hfills⟩ := foldMembers_readMember_iff.1
      ⟨found, hfold, fun slot _ => rfl⟩
    have hall := (hgiven hvs).1 hfills
    refine ⟨hclosed, hpass, ?_⟩
    rwa [values_ofValues (hall.imp fun _ _ h => h.1)]
  · rintro ⟨hclosed, hpass, hall⟩
    have hw : List.Forall₂ (fun slot v => (slots.zip r.values).lookup slot = some v) slots
        r.values :=
      .cons rfl (.cons rfl (.cons rfl (.cons rfl (.cons rfl (.cons rfl .nil)))))
    obtain ⟨found, hfold, hfound⟩ :
        ∃ found, Node.foldMembers readMember ending members [] = .ok found ∧
          ∀ slot ∈ slots, found.lookup slot.name = (slots.zip r.values).lookup slot :=
      foldMembers_readMember_iff.2 ⟨hclosed, hpass, (hgiven hw).2 hall⟩
    have hlookup := (forall_iff_forall₂ (P := fun slot v => found.lookup slot.name = v) hw
      fun slot _ v => Iff.rfl).1 hfound
    exact ⟨found, hfold, r.values, hlookup, ofValues_values r⟩

theorem values_le (r : Registers) : List.Forall₂ (fun slot v => v ≤ slot.limit) slots r.values :=
  .cons (Nat.le_of_lt_succ r.pc.toNat_lt) <| .cons (Nat.le_of_lt_succ r.a.toNat_lt) <|
    .cons (Nat.le_of_lt_succ r.x.toNat_lt) <| .cons (Nat.le_of_lt_succ r.y.toNat_lt) <|
    .cons (Nat.le_of_lt_succ r.sp.toNat_lt) <|
    .cons (Nat.le_of_lt_succ r.status.toByte.toNat_lt) .nil

theorem readJson_node (r : Registers) : readJson r.toJson.node = .ok r := by
  have hgiven {slot : Slot} {v : Nat} {members : List (Literal × Node)} (hslot : slot ∈ slots)
      (hv : v ≤ slot.limit)
      (hvalue : Node.valuesOf slot.name members = [(Value.natural v).node]) :
      slot.IsGiven members v := by
    have hlimit : v < Numeral.wholeLimit := hv.trans_lt (Slot.limit_lt hslot)
    exact ⟨hv, _, hvalue, (Numeral.value_eq_natural_iff.1 (Numeral.value_ofNat hlimit)).1⟩
  rw [toJson, Value.node, readJson_object_eq_ok_iff]
  refine ⟨rfl, ?_, ?_⟩
  · simp [CanPass, slots, values, Value.fieldNodes]
  · obtain ⟨hlength, hle⟩ := List.forall₂_iff_zip.1 r.values_le
    refine List.forall₂_iff_zip.2
      ⟨hlength, fun {slot v} h => hgiven (List.of_mem_zip h).1 (hle h) ?_⟩
    have hvalues : ∀ p ∈ slots.zip r.values, Node.valuesOf p.1.name (Value.fieldNodes
        ((slots.zip r.values).map fun p => (p.1.name, .natural p.2))) =
          [(Value.natural p.2).node] := by
      simp [slots, values, Value.fieldNodes, Node.valuesOf]
    exact hvalues (slot, v) h

theorem isExact_toJson (r : Registers) : r.toJson.isExact = true := rfl

theorem parseJson_of_tree {text : String} {r : Registers}
    (h : Document.ofText text = { root := r.toJson.node }) : parseJson text = .ok r := by
  rw [parseJson, readText_eq_ok_iff, h]
  exact ⟨readJson_node r, rfl⟩

theorem Slot.IsGiven.of_perm {slot : Slot} {members members' : List (Literal × Node)} {v : Nat}
    (h : slot.IsGiven members v)
    (hperm : (Node.valuesOf slot.name members').Perm (Node.valuesOf slot.name members)) :
    slot.IsGiven members' v := by
  obtain ⟨hv, m, hvalues, hm⟩ := h
  rw [hvalues, List.perm_singleton] at hperm
  exact ⟨hv, m, hperm, hm⟩

/-- A file to which the registers have been written holds them on several lines. -/
theorem readText_save {o : CommandLine.Options} {r : Registers} {path : String} {fs fs' : Files}
    (ho : o.save = some path) (hsave : CommandLine.save o r fs = .ok fs') :
    fs'.readText path = .ok r.toJson.prettyText := by
  simp only [CommandLine.save, ho] at hsave
  split at hsave
  case h_1 written hwrite =>
    obtain rfl := Except.ok.inj hsave
    obtain ⟨hwritable, rfl⟩ := Files.write_eq_ok_iff.1 hwrite
    exact Files.readText_of_read (hwritable.read_put _)
  case h_2 => cases hsave

/-- Registers that are written, on one line or on several as in the file to which a run saves them,
are read back. A text that is an object is read as registers just if each register has one member of
its name, and that is a whole number in range, the register. What is read is the same in every order
of the members, and with any other members among them that can be passed over. -/
theorem parseJson_exact :
    (∀ r : Registers, parseJson r.toJson.compactText = .ok r ∧
      parseJson r.toJson.prettyText = .ok r ∧
      ∀ (o : CommandLine.Options) (path : String) (fs fs' : Files), o.save = some path →
        CommandLine.save o r fs = .ok fs' → fs'.readText path = .ok r.toJson.prettyText) ∧
    ∀ (text : String) (members : List (Literal × Node)) (ending : Ending) (more : Bool),
      Document.ofText text = { root := .object members ending, more } → ∀ r : Registers,
        (parseJson text = .ok r ↔ more = false ∧ ending = .closed ∧ CanPass members ∧
          List.Forall₂ (fun slot v => slot.IsGiven members v) slots r.values) ∧
        (parseJson text = .ok r → ∀ (text' : String) (members' : List (Literal × Node)),
          Document.ofText text' = { root := .object members' .closed } → CanPass members' →
          (∀ slot ∈ slots,
            (Node.valuesOf slot.name members').Perm (Node.valuesOf slot.name members)) →
          parseJson text' = .ok r) := by
  have hobject {text : String} {members : List (Literal × Node)} {ending : Ending} {more : Bool}
      (htree : Document.ofText text = { root := .object members ending, more }) (r : Registers) :
      parseJson text = .ok r ↔ more = false ∧ ending = .closed ∧ CanPass members ∧
        List.Forall₂ (fun slot v => slot.IsGiven members v) slots r.values := by
    rw [parseJson, readText_eq_ok_iff, htree, and_comm, readJson_object_eq_ok_iff]
  refine ⟨fun r => ⟨parseJson_of_tree (Value.ofText_compactText r.isExact_toJson),
    parseJson_of_tree (Value.ofText_prettyText r.isExact_toJson),
    fun o path fs fs' => readText_save⟩, fun text members ending more htree r =>
      ⟨hobject htree r, fun hparse text' members' htree' hpass hperm => ?_⟩⟩
  obtain ⟨-, -, -, hall⟩ := (hobject htree r).1 hparse
  obtain ⟨hlength, hgiven⟩ := List.forall₂_iff_zip.1 hall
  refine (hobject htree' r).2 ⟨rfl, rfl, hpass, List.forall₂_iff_zip.2 ⟨hlength, fun h => ?_⟩⟩
  exact (hgiven h).of_perm (hperm _ (List.of_mem_zip h).1)

def distinct : Registers := ⟨0x1234, 5, 6, 7, 0xFF, .ofByte 0xA8⟩

/-- These registers in another order, with another member among them. -/
def distinctShuffled : Value :=
  .object [("status", .natural 0xA8), ("y", .natural 7), ("PC", .null), ("sp", .natural 0xFF),
    ("pc", .natural 0x1234), ("x", .natural 6), ("a", .natural 5)]

theorem parseJson_exact_distinct :
    parseJson distinctShuffled.compactText = .ok distinct ∧
      ∃ fs, CommandLine.save { save := some "s" } distinct { home := [] } = .ok fs ∧
        fs.readText "s" = .ok distinct.toJson.prettyText := by
  have htree : Document.ofText distinct.toJson.compactText =
      { root := .object (Value.fieldNodes _) .closed } :=
    Value.ofText_compactText distinct.isExact_toJson
  have hshuffled : Document.ofText distinctShuffled.compactText =
      { root := .object (Value.fieldNodes _) .closed } :=
    Value.ofText_compactText rfl
  have hwritable : Files.Writable { home := [] } "s" := by
    have hnames : Files.names "s" = .ok ["s"] := by cbv
    have hplace : Files.place { home := [] } "s" = ["s"] := by
      rw [Files.place, ← Files.eq_splitOn_of_names hnames]
      rfl
    have hfree : Files.entry? { home := [] } ["s"] = none := rfl
    exact ⟨[], "s", hnames, rfl, by decide, by decide, by simp [hplace, hfree]⟩
  obtain ⟨fs, hsave⟩ :
      ∃ fs, CommandLine.save { save := some "s" } distinct { home := [] } = .ok fs := by
    simp only [CommandLine.save, hwritable.write_eq]
    exact ⟨_, rfl⟩
  refine ⟨(parseJson_exact.2 _ _ _ _ htree distinct).2 (parseJson_exact.1 distinct).1 _ _ hshuffled
    ?_ ?_, fs, hsave, (parseJson_exact.1 distinct).2.2 _ _ _ _ rfl hsave⟩
  · simp [CanPass, slots, Value.fieldNodes, Value.node, Node.flaw?]
  · simp [slots, values, distinct, Value.fieldNodes, Node.valuesOf]

end Mos6502.Registers

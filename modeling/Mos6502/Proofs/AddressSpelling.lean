import Mathlib.Data.List.Forall2
import Mos6502.Proofs.Descriptions
import Mos6502.Proofs.Members

/-! How an address is spelled in a description. A whole number and a text that denotes the same
address are the same, and nothing else is an address: so with another spelling in one place, a
description that could be read is the same description but for the address in that place, or it
cannot be read. -/
namespace Mos6502
open Json

/-- The address that a value stands for. -/
inductive Json.Node.Spells : Node → Word → Prop
  | number {m : Numeral} {a : Word} (denotes : m.IsNatural a.toNat) : Spells (.number (.ok m)) a
  | string {s : Literal} {text : String} {a : Word} (content : s.content = .ok text)
      (denotes : parseAddress text = .ok a) : Spells (.string s) a

/-- The reset vector that a member stands for, if it is there. -/
inductive Json.Node.SpellsVector : Option Node → Option Word → Prop
  | absent : SpellsVector none none
  | null : SpellsVector (some .null) none
  | address {n : Node} {a : Word} (spells : n.Spells a) : SpellsVector (some n) (some a)

theorem Json.Node.spellsVector_none_iff {a : Option Word} : SpellsVector none a ↔ none = a := by
  constructor
  · rintro ⟨⟩
    rfl
  · rintro rfl
    exact .absent

theorem addressOfJson_eq_ok_iff {v : Value} {a : Word} :
    addressOfJson v = .ok a ↔
      v = .natural a.toNat ∨ ∃ s, v = .string s ∧ parseAddress s = .ok a := by
  have ha : a.toNat < 65536 := a.toNat_lt
  cases v with
  | number n =>
    cases n with
    | natural k =>
      simp only [addressOfJson, Value.natural, Value.number.injEq, Number.natural.injEq,
        reduceCtorEq, false_and, exists_const, or_false]
      split
      case isTrue hk =>
        simp only [Except.ok.injEq]
        constructor
        · rintro rfl
          rw [UInt16.toNat_ofNat_of_lt' (Nat.lt_succ_of_le hk)]
        · rintro rfl
          exact UInt16.ofNat_toNat
      case isFalse hk =>
        simp only [Reading.fail, reduceCtorEq, false_iff]
        rintro rfl
        omega
    | _ => simp [addressOfJson, Value.natural, Reading.fail]
  | string s =>
    simp only [addressOfJson, Value.natural, reduceCtorEq, Value.string.injEq, exists_eq_left',
      false_or]
    cases parseAddress s with
    | ok b => simp
    | error e => simp [Reading.fail]
  | _ => simp [addressOfJson, Value.natural, Reading.fail]

theorem Json.Node.readValue_eq_ok_cases {room : Nat} {n : Node} {v : Value}
    (h : n.readValue room = .ok v) :
    (∀ k, v = .number k → ∃ m : Numeral, n = .number (.ok m) ∧ m.value = .ok k) ∧
      ∀ text, v = .string text → ∃ s : Literal, n = .string s ∧ s.content = .ok text := by
  cases n with
  | null =>
    obtain rfl : Value.null = v := Except.ok.inj h
    simp
  | bool b =>
    obtain rfl : Value.bool b = v := Except.ok.inj h
    simp
  | number x =>
    cases x with
    | error f => cases h
    | ok m =>
      obtain ⟨k, hk, rfl⟩ := Reading.map_eq_ok_iff.1 h
      simpa using Reading.ofFlaw_eq_ok_iff.1 hk
  | string s =>
    obtain ⟨text, htext, rfl⟩ := Reading.map_eq_ok_iff.1 h
    simpa using Reading.ofFlaw_eq_ok_iff.1 htext
  | array items ending =>
    obtain ⟨room', -, h⟩ := Reading.bind_eq_ok_iff.1 h
    obtain ⟨vs, -, h⟩ := Reading.bind_eq_ok_iff.1 h
    obtain rfl : Value.array vs = v := Except.ok.inj h
    simp
  | object members ending =>
    obtain ⟨room', -, h⟩ := Reading.bind_eq_ok_iff.1 h
    obtain ⟨fields, -, h⟩ := Reading.bind_eq_ok_iff.1 h
    obtain rfl : Value.object fields = v := Except.ok.inj h
    simp
  | broken f => cases h

theorem readAddress_eq_ok_iff {room : Nat} {n : Node} {a : Word} :
    readAddress room n = .ok a ↔ n.Spells a := by
  rw [readAddress, Reading.bind_eq_ok_iff]
  simp only [addressOfJson_eq_ok_iff]
  constructor
  · rintro ⟨v, hv, rfl | ⟨text, rfl, htext⟩⟩
    · obtain ⟨m, rfl, hm⟩ := (Node.readValue_eq_ok_cases hv).1 _ rfl
      exact .number (Numeral.value_eq_natural_iff.1 hm).1
    · obtain ⟨s, rfl, hs⟩ := (Node.readValue_eq_ok_cases hv).2 _ rfl
      exact .string hs htext
  · rintro (⟨hm⟩ | ⟨hs, htext⟩)
    · have hlimit : a.toNat < Numeral.wholeLimit := Nat.lt_trans a.toNat_lt (by decide)
      refine ⟨.natural a.toNat, ?_, .inl rfl⟩
      rw [Node.readValue, Numeral.value_eq_natural_iff.2 ⟨hm, hlimit⟩]
      rfl
    · refine ⟨_, ?_, .inr ⟨_, rfl, htext⟩⟩
      rw [Node.readValue, hs]
      rfl

theorem readOptionalAddress_eq_ok_iff {room : Nat} {n : Node} {a : Option Word} :
    readOptionalAddress room n = .ok a ↔ Node.SpellsVector (some n) a := by
  unfold readOptionalAddress
  split
  case h_1 =>
    constructor
    · rintro ⟨⟩
      exact .null
    · intro h
      cases h with
      | null => rfl
      | address hspells => cases hspells
  case h_2 hnull =>
    rw [Reading.map_eq_ok_iff]
    simp only [readAddress_eq_ok_iff]
    constructor
    · rintro ⟨w, hw, rfl⟩
      exact .address hw
    · intro h
      cases h with
      | null => exact absurd rfl hnull
      | address hw => exact ⟨_, hw, rfl⟩

theorem Json.Node.SpellsVector.unique {v : Option Node} {a b : Option Word} (ha : SpellsVector v a)
    (hb : SpellsVector v b) : a = b := by
  cases v with
  | none => exact (spellsVector_none_iff.1 ha).symm.trans (spellsVector_none_iff.1 hb)
  | some n =>
    rw [← @readOptionalAddress_eq_ok_iff 0] at ha hb
    exact Except.ok.inj (ha.symm.trans hb)

/-- Two objects with the same members in the same order, but for those of a name: in the second
these have the given value, or there is none. -/
inductive Json.Node.HasInstead (name : String) (v : Option Node) : Node → Node → Prop
  | intro {members members' : List (Literal × Node)} {ending : Ending}
      (others : without name members' = without name members)
      (value : valuesOf name members' = v.toList) :
      HasInstead name v (.object members ending) (.object members' ending)

theorem Json.Node.exists_hasInstead (name : String) (v : Option Node)
    (members : List (Literal × Node)) (ending : Ending) :
    ∃ n', (Node.object members ending).HasInstead name v n' := by
  have hadded : (v.toList.map ((Literal.ofString name, ·))).filter (!·.1.isNamed name) = [] := by
    cases v <;> simp
  have hkept : (without name members).filter (·.1.isNamed name) = [] := by
    simp [without, List.filter_filter]
  refine ⟨.object (without name members ++ v.toList.map ((.ofString name, ·))) ending, ?_, ?_⟩
  · rw [without, List.filter_append, hadded, List.append_nil]
    simp [without, List.filter_filter]
  · rw [valuesOf, List.filter_append, hkept, List.nil_append]
    cases v <;> simp

inductive RegionDescription.Rebased (i : Nat) (v : Option Node) : Node → Node → Prop
  | intro {items : List Node} {region region' : Node} {ending : Ending}
      (there : items[i]? = some region) (base : region.HasInstead "base" v region') :
      Rebased i v (.array items ending) (.array (items.set i region') ending)

namespace Description

/-- Two descriptions that differ in the base of one region: in the second it has the given value, or
there is none. -/
inductive Rebased (i : Nat) (v : Option Node) : Node → Node → Prop
  | object {members : List (Literal × Node)} {ending : Ending} {regions regions' root' : Node}
      (there : Node.valuesOf "regions" members = [regions])
      (base : RegionDescription.Rebased i v regions regions')
      (instead : (Node.object members ending).HasInstead "regions" (some regions') root') :
      Rebased i v (.object members ending) root'
  | list {regions regions' : Node} {rest : List Node} {ending : Ending}
      (base : RegionDescription.Rebased i v regions regions') :
      Rebased i v (.array (regions :: rest) ending) (.array (regions' :: rest) ending)

/-- Two descriptions that differ in the reset vector, which in the second has the given value or is
not there. -/
inductive Revectored (v : Option Node) : Node → Node → Prop
  | object {root root' : Node} (instead : root.HasInstead "reset_vector" v root') :
      Revectored v root root'
  | list {regions : Node} {rest : List Node} {ending : Ending} :
      Revectored v (.array (regions :: rest) ending) (.array (regions :: v.toList) ending)

/-- The description with another base of one region. -/
def withBase (d : Description) (i : Nat) (a : Word) : Description :=
  { d with regions := d.regions.modify i fun r => { r with base := a } }

end Description

theorem RegionDraft.takesOne_base (room : Nat) :
    Node.TakesOne (read room) "base" (readAddress room) (fun base d => { d with base }) where
  first := by
    intro n d
    rw [read, if_neg (by decide), if_pos rfl]
    cases readAddress room n <;> rfl
  second := by
    intro n a d d' h
    rw [read, if_neg (by decide), if_pos rfl] at h
    cases h
  other := by
    intro key n d base hkey
    unfold read
    split
    · cases d.name with
      | some name => rfl
      | none => cases n.readString "a string" <;> rfl
    · cases n.readValue room <;> rfl

theorem RegionDraft.finish_eq_ok_iff {d : RegionDraft} {r : RegionDescription} :
    d.finish = .ok r ↔
      d.name = some r.name ∧ d.base = some r.base ∧ RegionKind.ofFields d.others = .ok r.kind := by
  obtain ⟨name, base, others⟩ := d
  obtain ⟨name', base', kind⟩ := r
  cases name with
  | none => simp [finish, Reading.fail]
  | some name =>
    cases base with
    | none => simp [finish, Reading.fail]
    | some base => simp [finish, Reading.bind_eq_ok_iff, pure, Except.pure, and_left_comm]

namespace RegionDescription
variable {room : Nat} {r r' : RegionDescription}

theorem readJson_object_eq_ok_iff {members : List (Literal × Node)} {ending : Ending} :
    readJson room (.object members ending) = .ok r ↔
      ∃ inner, enter room = .ok inner ∧ ∃ draft : RegionDraft,
        Node.foldMembers (RegionDraft.read inner) ending members {} = .ok draft ∧
          draft.finish = .ok r := by
  simp only [readJson, Reading.bind_eq_ok_iff]

theorem exists_object_of_readJson {n : Node} (h : readJson room n = .ok r) :
    ∃ members ending, n = .object members ending := by
  cases n with
  | object members ending => exact ⟨members, ending, rfl⟩
  | _ => exact absurd h Node.refuse_ne_ok

theorem readJson_hasInstead {n n' : Node} {v : Option Node} (h : n.HasInstead "base" v n')
    (hr : readJson room n = .ok r) :
    readJson room n' = .ok r' ↔ ∃ a, (∃ m ∈ v, m.Spells a) ∧ { r with base := a } = r' := by
  obtain ⟨hothers, hvalue⟩ := h
  obtain ⟨inner, hroom, draft, hfold, hfinish⟩ := readJson_object_eq_ok_iff.1 hr
  obtain ⟨u, hvacant, hbase, hfold'⟩ :=
    (RegionDraft.takesOne_base inner).foldMembers_instead rfl hothers hvalue hfold
  obtain ⟨hname, hkind⟩ : u.name = some r.name ∧ RegionKind.ofFields u.others = .ok r.kind := by
    obtain ⟨hname, -, hkind⟩ := RegionDraft.finish_eq_ok_iff.1 hfinish
    obtain ⟨-, rfl⟩ | ⟨n, a, -, -, rfl⟩ := hbase <;> exact ⟨hname, hkind⟩
  have hfinish' (a : Word) :
      RegionDraft.finish { u with base := some a } = .ok r' ↔ { r with base := a } = r' := by
    obtain ⟨name', base', kind'⟩ := r'
    rw [RegionDraft.finish_eq_ok_iff, hname, hkind]
    obtain ⟨name, base, kind⟩ := r
    simp
  rw [readJson_object_eq_ok_iff]
  simp only [hroom, Except.ok.injEq, exists_eq_left', hfold', readAddress_eq_ok_iff]
  constructor
  · rintro ⟨draft', ⟨-, rfl⟩ | ⟨m, hm, a, ha, rfl⟩, hdraft⟩
    · obtain ⟨-, hbase', -⟩ := RegionDraft.finish_eq_ok_iff.1 hdraft
      rw [← hvacant] at hbase'
      cases hbase'
    · exact ⟨a, ⟨m, hm, ha⟩, (hfinish' a).1 hdraft⟩
  · rintro ⟨a, ⟨m, hm, ha⟩, hr'⟩
    exact ⟨_, .inr ⟨m, hm, a, ha, rfl⟩, (hfinish' a).2 hr'⟩

end RegionDescription

theorem readRegionList_eq_ok_iff {room : Nat} {ending : Ending} {items : List Node}
    {rs : List RegionDescription} :
    readRegionList room ending items = .ok rs ↔ ending = .closed ∧
      List.Forall₂ (fun n r => RegionDescription.readJson room n = .ok r) items rs := by
  induction items generalizing rs with
  | nil =>
    simp [readRegionList, Reading.bind_eq_ok_iff, Ending.leave_eq_ok_iff, pure, Except.pure,
      @eq_comm _ [] rs]
  | cons n rest ih =>
    simp only [readRegionList, Reading.bind_eq_ok_iff, ih, List.forall₂_cons_left_iff, pure,
      Except.pure, Except.ok.injEq]
    constructor
    · rintro ⟨r, hr, rest', ⟨hclosed, hrest⟩, rfl⟩
      exact ⟨hclosed, r, rest', hr, hrest, rfl⟩
    · rintro ⟨hclosed, r, rest', hr, hrest, rfl⟩
      exact ⟨r, hr, rest', ⟨hclosed, hrest⟩, rfl⟩

theorem readRegions_eq_ok_iff {room : Nat} {n : Node} {rs : List RegionDescription} :
    readRegions room n = .ok rs ↔
      ∃ inner, enter room = .ok inner ∧ ∃ items, n = .array items .closed ∧
        List.Forall₂ (fun n r => RegionDescription.readJson inner n = .ok r) items rs := by
  unfold readRegions
  split
  case h_1 items ending => simp [Reading.bind_eq_ok_iff, readRegionList_eq_ok_iff]
  case h_2 hnot =>
    simp only [Node.refuse_ne_ok, false_iff]
    rintro ⟨inner, -, items, rfl, -⟩
    exact hnot items .closed rfl

theorem forall₂_set_iff {α β γ : Type} {R : α → β → Prop} (hunique : Relator.RightUnique R)
    {P : γ → Prop} {f : γ → β → β} {xs : List α} {ys ys' : List β} (h : List.Forall₂ R xs ys)
    {i : Nat} {x x' : α} (hx : xs[i]? = some x)
    (hchange : ∀ y y', R x y → (R x' y' ↔ ∃ c, P c ∧ f c y = y')) :
    List.Forall₂ R (xs.set i x') ys' ↔ ∃ c, P c ∧ ys.modify i (f c) = ys' := by
  induction h generalizing i ys' with
  | nil => cases hx
  | @cons z w zs ws hz hzs ih =>
    cases i with
    | zero =>
      obtain rfl : z = x := by simpa using hx
      rw [List.set_cons_zero, List.forall₂_cons_left_iff]
      simp only [List.modify_zero_cons]
      constructor
      · rintro ⟨w', ws', hw', hws', rfl⟩
        obtain ⟨c, hc, rfl⟩ := (hchange w w' hz).1 hw'
        obtain rfl := hunique.forall₂ hzs hws'
        exact ⟨c, hc, rfl⟩
      · rintro ⟨c, hc, rfl⟩
        exact ⟨f c w, ws, (hchange w _ hz).2 ⟨c, hc, rfl⟩, hzs, rfl⟩
    | succ i =>
      rw [List.set_cons_succ, List.forall₂_cons_left_iff]
      simp only [List.modify_succ_cons]
      constructor
      · rintro ⟨w', ws', hw', hws', rfl⟩
        obtain ⟨c, hc, rfl⟩ := (ih hx).1 hws'
        obtain rfl := hunique hz hw'
        exact ⟨c, hc, rfl⟩
      · rintro ⟨c, hc, rfl⟩
        exact ⟨w, _, hz, (ih hx).2 ⟨c, hc, rfl⟩, rfl⟩

theorem readRegions_rebased {room i : Nat} {v : Option Node} {n n' : Node}
    {rs rs' : List RegionDescription} (h : RegionDescription.Rebased i v n n')
    (hrs : readRegions room n = .ok rs) :
    readRegions room n' = .ok rs' ↔
      ∃ a, (∃ m ∈ v, m.Spells a) ∧ rs.modify i (fun r => { r with base := a }) = rs' := by
  obtain ⟨hthere, hbase⟩ := h
  obtain ⟨inner, hroom, items, hitems, hread⟩ := readRegions_eq_ok_iff.1 hrs
  obtain ⟨rfl, rfl⟩ := Node.array.inj hitems
  have hunique : Relator.RightUnique fun n r => RegionDescription.readJson inner n = .ok r :=
    fun _ _ _ hr hr' => Except.ok.inj (hr.symm.trans hr')
  rw [readRegions_eq_ok_iff, ← forall₂_set_iff hunique hread hthere
    fun r r' hr => RegionDescription.readJson_hasInstead hbase hr]
  simp [hroom]

namespace DescriptionDraft

theorem takesOne_regions (room : Nat) :
    Node.TakesOne (read room) "regions" (readRegions room)
      (fun regions d => { d with regions }) where
  first := by
    intro n d
    rw [read, if_pos rfl]
    cases readRegions room n <;> rfl
  second := by
    intro n rs d d' h
    rw [read, if_pos rfl] at h
    cases h
  other := by
    intro key n d regions hkey
    unfold read
    rw [if_neg hkey, if_neg hkey]
    split
    · cases d.resetVector with
      | some a => rfl
      | none => cases readOptionalAddress room n <;> rfl
    · cases n.skip <;> rfl

theorem takesOne_resetVector (room : Nat) :
    Node.TakesOne (read room) "reset_vector" (readOptionalAddress room)
      (fun resetVector d => { d with resetVector }) where
  first := by
    intro n d
    rw [read, if_neg (by decide), if_pos rfl]
    cases readOptionalAddress room n <;> rfl
  second := by
    intro n a d d' h
    rw [read, if_neg (by decide), if_pos rfl] at h
    cases h
  other := by
    intro key n d resetVector hkey
    unfold read
    split
    · cases d.regions with
      | some rs => rfl
      | none => cases readRegions room n <;> rfl
    · cases n.skip <;> rfl

theorem finish_eq_ok_iff {draft : DescriptionDraft} {d : Description} :
    draft.finish = .ok d ↔
      draft.regions = some d.regions ∧ draft.resetVector.getD none = d.resetVector := by
  obtain ⟨regions, vector⟩ := draft
  obtain ⟨rs, a⟩ := d
  cases regions <;> simp [finish, Reading.fail]

end DescriptionDraft

namespace Description
variable {d d' : Description}

theorem mk_eq_iff {regions : List RegionDescription} {vector : Option Word} :
    { regions, resetVector := vector } = d ↔ regions = d.regions ∧ vector = d.resetVector := by
  obtain ⟨rs, a⟩ := d
  simp

theorem readJson_object_eq_ok_iff {members : List (Literal × Node)} {ending : Ending} :
    readJson (.object members ending) = .ok d ↔
      ∃ draft : DescriptionDraft,
        Node.foldMembers (DescriptionDraft.read (nestingLimit - 1)) ending members {} = .ok draft ∧
          draft.finish = .ok d := by
  have hread : readJson (.object members ending) =
      Node.foldMembers (DescriptionDraft.read (nestingLimit - 1)) ending members {} >>=
        DescriptionDraft.finish := rfl
  rw [hread, Reading.bind_eq_ok_iff]

/-- A list of a description has the regions and, if it is there, the reset vector. -/
theorem readList_eq_ok_iff {room : Nat} {items : List Node} {ending : Ending} :
    readList room ending items = .ok d ↔
      ending = .closed ∧ ∃ (regions : Node) (v : Option Node), items = regions :: v.toList ∧
        readRegions room regions = .ok d.regions ∧ Node.SpellsVector v d.resetVector := by
  unfold readList
  split
  case h_1 => simp [Reading.bind_eq_ok_iff, Reading.fail]
  case h_2 n =>
    simp only [Reading.bind_eq_ok_iff, Ending.leave_eq_ok_iff, pure, Except.pure, Except.ok.injEq,
      mk_eq_iff]
    constructor
    · rintro ⟨rs, hrs, -, hclosed, rfl, hvector⟩
      exact ⟨hclosed, n, none, rfl, hrs, Node.spellsVector_none_iff.2 hvector⟩
    · rintro ⟨hclosed, regions, v, hitems, hrs, hvector⟩
      obtain ⟨rfl, hv⟩ := List.cons.inj hitems
      obtain rfl := Option.toList_eq_nil_iff.1 hv.symm
      exact ⟨d.regions, hrs, (), hclosed, rfl, Node.spellsVector_none_iff.1 hvector⟩
  case h_3 n m rest =>
    simp only [Reading.bind_eq_ok_iff, Node.leaveRecord_eq_ok_iff, pure, Except.pure,
      Except.ok.injEq, mk_eq_iff, readOptionalAddress_eq_ok_iff]
    constructor
    · rintro ⟨rs, hrs, a, ha, -, ⟨rfl, hclosed⟩, rfl, rfl⟩
      exact ⟨hclosed, n, some m, rfl, hrs, ha⟩
    · rintro ⟨hclosed, regions, v, hitems, hrs, hvector⟩
      obtain ⟨rfl, hv⟩ := List.cons.inj hitems
      obtain ⟨rfl, rfl⟩ : v = some m ∧ rest = [] := by cases v <;> simp_all
      exact ⟨d.regions, hrs, d.resetVector, hvector, (), ⟨rfl, hclosed⟩, rfl, rfl⟩

theorem exists_of_readJson_array {items : List Node} {ending : Ending}
    (h : readJson (.array items ending) = .ok d) :
    ∃ (regions : Node) (v : Option Node), items = regions :: v.toList := by
  obtain ⟨-, regions, v, hitems, -⟩ := readList_eq_ok_iff.1 h
  exact ⟨regions, v, hitems⟩

theorem readJson_array_eq_ok_iff {regions : Node} {v : Option Node} {ending : Ending} :
    readJson (.array (regions :: v.toList) ending) = .ok d ↔
      ending = .closed ∧ readRegions (nestingLimit - 1) regions = .ok d.regions ∧
        Node.SpellsVector v d.resetVector := by
  have hlist : readJson (.array (regions :: v.toList) ending) =
      readList (nestingLimit - 1) ending (regions :: v.toList) := rfl
  rw [hlist, readList_eq_ok_iff, and_congr_right_iff]
  intro _
  constructor
  · rintro ⟨regions', v', hitems, hrs, hvector⟩
    obtain ⟨rfl, hv⟩ := List.cons.inj hitems
    obtain rfl : v = v' := by cases v <;> cases v' <;> simp_all
    exact ⟨hrs, hvector⟩
  · rintro ⟨hrs, hvector⟩
    exact ⟨regions, v, rfl, hrs, hvector⟩

/-- Another base of a region changes that base and nothing else. -/
theorem readJson_rebased {i : Nat} {v : Option Node} {root root' : Node}
    (h : Rebased i v root root') (hd : readJson root = .ok d) :
    readJson root' = .ok d' ↔ ∃ a, (∃ n ∈ v, n.Spells a) ∧ d.withBase i a = d' := by
  cases h with
  | @object members ending regions regions' root' hthere hbase hinstead =>
    obtain ⟨hothers, hvalue⟩ := hinstead
    obtain ⟨draft, hfold, hfinish⟩ := readJson_object_eq_ok_iff.1 hd
    obtain ⟨u, -, hregions, hfold'⟩ :=
      (DescriptionDraft.takesOne_regions _).foldMembers_instead rfl hothers hvalue hfold
    obtain ⟨hnone, -⟩ | ⟨n, rs, hone, hrs, rfl⟩ := hregions
    · cases hthere.symm.trans hnone
    · obtain ⟨rfl, -⟩ := List.cons.inj (hthere.symm.trans hone)
      obtain ⟨hdraft, hvector⟩ := DescriptionDraft.finish_eq_ok_iff.1 hfinish
      obtain rfl := Option.some.inj hdraft
      rw [readJson_object_eq_ok_iff]
      simp only [hfold', DescriptionDraft.finish_eq_ok_iff]
      constructor
      · rintro ⟨draft', ⟨hnone, -⟩ | ⟨n, hn, rs, hrs', rfl⟩, hrs'', hvector'⟩
        · cases hnone
        · obtain rfl := Option.mem_some_iff.1 hn
          obtain rfl := Option.some.inj hrs''
          obtain ⟨a, ha, hmodify⟩ := (readRegions_rebased hbase hrs).1 hrs'
          exact ⟨a, ha, mk_eq_iff.2 ⟨hmodify, hvector.symm.trans hvector'⟩⟩
      · rintro ⟨a, ha, rfl⟩
        exact ⟨_, .inr ⟨regions', rfl, _, (readRegions_rebased hbase hrs).2 ⟨a, ha, rfl⟩, rfl⟩, rfl,
          hvector⟩
  | list hbase =>
    obtain ⟨_, w, hitems⟩ := exists_of_readJson_array hd
    obtain ⟨rfl, rfl⟩ := List.cons.inj hitems
    obtain ⟨hclosed, hrs, hvector⟩ := readJson_array_eq_ok_iff.1 hd
    rw [readJson_array_eq_ok_iff, readRegions_rebased hbase hrs]
    constructor
    · rintro ⟨-, ⟨a, ha, hmodify⟩, hvector'⟩
      exact ⟨a, ha, mk_eq_iff.2 ⟨hmodify, hvector.unique hvector'⟩⟩
    · rintro ⟨a, ha, rfl⟩
      exact ⟨hclosed, ⟨a, ha, rfl⟩, hvector⟩

/-- Another reset vector changes that and nothing else. -/
theorem readJson_revectored {v : Option Node} {root root' : Node} (h : Revectored v root root')
    (hd : readJson root = .ok d) :
    readJson root' = .ok d' ↔ ∃ a, Node.SpellsVector v a ∧ { d with resetVector := a } = d' := by
  cases h with
  | object hinstead =>
    obtain ⟨hothers, hvalue⟩ := hinstead
    obtain ⟨draft, hfold, hfinish⟩ := readJson_object_eq_ok_iff.1 hd
    obtain ⟨u, hvacant, hvector, hfold'⟩ :=
      (DescriptionDraft.takesOne_resetVector _).foldMembers_instead rfl hothers hvalue hfold
    have hregions : u.regions = some d.regions := by
      have hdraft := (DescriptionDraft.finish_eq_ok_iff.1 hfinish).1
      obtain ⟨-, rfl⟩ | ⟨n, a, -, -, rfl⟩ := hvector <;> exact hdraft
    rw [readJson_object_eq_ok_iff]
    simp only [hfold', DescriptionDraft.finish_eq_ok_iff, readOptionalAddress_eq_ok_iff]
    constructor
    · rintro ⟨draft', ⟨rfl, rfl⟩ | ⟨n, hn, a, ha, rfl⟩, hrs, hvector'⟩
      · rw [← hvacant] at hvector'
        exact ⟨none, .absent, mk_eq_iff.2 ⟨Option.some.inj (hregions.symm.trans hrs), hvector'⟩⟩
      · obtain rfl : v = some n := hn
        exact ⟨a, ha, mk_eq_iff.2 ⟨Option.some.inj (hregions.symm.trans hrs), hvector'⟩⟩
    · rintro ⟨a, ha, rfl⟩
      cases v with
      | none =>
        refine ⟨u, .inl ⟨rfl, rfl⟩, hregions, ?_⟩
        rw [← hvacant]
        exact Node.spellsVector_none_iff.1 ha
      | some n => exact ⟨_, .inr ⟨n, rfl, a, ha, rfl⟩, hregions, rfl⟩
  | list =>
    obtain ⟨_, w, hitems⟩ := exists_of_readJson_array hd
    obtain ⟨rfl, rfl⟩ := List.cons.inj hitems
    obtain ⟨hclosed, hrs, -⟩ := readJson_array_eq_ok_iff.1 hd
    rw [readJson_array_eq_ok_iff]
    constructor
    · rintro ⟨-, hrs', hvector'⟩
      exact ⟨d'.resetVector, hvector', mk_eq_iff.2 ⟨Except.ok.inj (hrs.symm.trans hrs'), rfl⟩⟩
    · rintro ⟨a, ha, rfl⟩
      exact ⟨hclosed, hrs, ha⟩

theorem isRecord_of_readJson {root : Node} (h : readJson root = .ok d) :
    (∃ members ending, root = .object members ending) ∨
      ∃ items ending, root = .array items ending := by
  cases root with
  | object members ending => exact .inl ⟨members, ending, rfl⟩
  | array items ending => exact .inr ⟨items, ending, rfl⟩
  | _ => exact absurd h Node.refuse_ne_ok

theorem exists_rebased {root : Node} (hd : readJson root = .ok d) {i : Nat}
    (hi : i < d.regions.length) (v : Option Node) : ∃ root', Rebased i v root root' := by
  have hregions {room : Nat} {n : Node} (hrs : readRegions room n = .ok d.regions) :
      ∃ n', RegionDescription.Rebased i v n n' := by
    obtain ⟨inner, -, items, rfl, hread⟩ := readRegions_eq_ok_iff.1 hrs
    have hitem : i < items.length := hread.length_eq ▸ hi
    have hregion : RegionDescription.readJson inner items[i] = .ok d.regions[i] :=
      (List.forall₂_iff_get.1 hread).2 i hitem hi
    obtain ⟨members, ending, hobject⟩ := RegionDescription.exists_object_of_readJson hregion
    obtain ⟨region', hregion'⟩ := Node.exists_hasInstead "base" v members ending
    exact ⟨_, .intro (List.getElem?_eq_some_iff.2 ⟨hitem, hobject⟩) hregion'⟩
  obtain ⟨members, ending, rfl⟩ | ⟨items, ending, rfl⟩ := isRecord_of_readJson hd
  · obtain ⟨draft, hfold, hfinish⟩ := readJson_object_eq_ok_iff.1 hd
    have hdraft := (DescriptionDraft.finish_eq_ok_iff.1 hfinish).1
    obtain ⟨u, hvacant, -, ⟨-, rfl⟩ | ⟨n, rs, hone, hrs, rfl⟩⟩ :=
      ((DescriptionDraft.takesOne_regions _).foldMembers_eq_ok_iff rfl).1 hfold
    · rw [← hvacant] at hdraft
      cases hdraft
    · obtain rfl := Option.some.inj hdraft
      obtain ⟨regions', hbase⟩ := hregions hrs
      obtain ⟨root', hinstead⟩ := Node.exists_hasInstead "regions" (some regions') members ending
      exact ⟨root', .object hone hbase hinstead⟩
  · obtain ⟨n, w, rfl⟩ := exists_of_readJson_array hd
    obtain ⟨regions', hbase⟩ := hregions (readJson_array_eq_ok_iff.1 hd).2.1
    exact ⟨_, .list hbase⟩

theorem exists_revectored {root : Node} (hd : readJson root = .ok d) (v : Option Node) :
    ∃ root', Revectored v root root' := by
  obtain ⟨members, ending, rfl⟩ | ⟨items, ending, rfl⟩ := isRecord_of_readJson hd
  · obtain ⟨root', hinstead⟩ := Node.exists_hasInstead "reset_vector" v members ending
    exact ⟨root', .object hinstead⟩
  · obtain ⟨n, w, rfl⟩ := exists_of_readJson_array hd
    exact ⟨_, .list⟩

/-- A description is read the same whatever spells the address in one place. The base of each
region, and the reset vector, can be replaced by any value and can be left out; what comes of it is
the same description with the address that the value spells, a whole number up to 65535 or a text
that denotes it, and it is nothing if the value spells none. Of a reset vector that is null or not
there comes none. -/
theorem parse_respelled {text text' : String} (hd : parse text = .ok d)
    (hmore : (Document.ofText text').more = false) :
    (∀ (v : Option Node),
      (∀ i < d.regions.length, ∃ root', Rebased i v (Document.ofText text).root root') ∧
        ∃ root', Revectored v (Document.ofText text).root root') ∧
    (∀ i v, Rebased i v (Document.ofText text).root (Document.ofText text').root → ∀ d',
      parse text' = .ok d' ↔ ∃ a, (∃ n ∈ v, n.Spells a) ∧ d.withBase i a = d') ∧
    ∀ v, Revectored v (Document.ofText text).root (Document.ofText text').root → ∀ d',
      parse text' = .ok d' ↔ ∃ a, Node.SpellsVector v a ∧ { d with resetVector := a } = d' := by
  have hroot := (readText_eq_ok_iff.1 hd).1
  have hparse (d' : Description) :
      parse text' = .ok d' ↔ readJson (Document.ofText text').root = .ok d' := by
    rw [parse, readText_eq_ok_iff, and_iff_left hmore]
  simp only [hparse]
  exact ⟨fun v => ⟨fun i hi => exists_rebased hroot hi v, exists_revectored hroot v⟩,
    fun i v h d' => readJson_rebased h hroot, fun v h d' => readJson_revectored h hroot⟩

/-- RAM from address zero on and a ROM behind it. -/
def ramAndRom : Description where
  regions := [⟨"ram", 0, .ram 16⟩, ⟨"rom", 0xC000, .rom "a.bin"⟩]

def romAt (base : Value) : Value :=
  .object [("name", .string "rom"), ("kind", .string "rom"), ("path", .string "a.bin"),
    ("base", base)]

def ramAndRomAt (base : Value) : Value :=
  .object [("regions", .array [(RegionDescription.mk "ram" 0 (.ram 16)).toJson, romAt base])]

def ramAndRomFrom (vector : Value) : Value :=
  .object [("reset_vector", vector), ("regions", .array (ramAndRom.regions.map (·.toJson)))]

theorem rebased_ramAndRomAt (base : Value) :
    Rebased 1 (some base.node) ramAndRom.toJson.node (ramAndRomAt base).node := by
  have hrom : (RegionDescription.mk "rom" 0xC000 (.rom "a.bin")).toJson.node.HasInstead "base"
      (some base.node) (romAt base).node := by
    refine .intro ?_ ?_ <;>
      simp [Node.without, Node.valuesOf, Value.fieldNodes, RegionKind.fields]
  refine .object rfl (.intro rfl hrom) (.intro ?_ rfl)
  simp [Node.without, Value.fieldNodes, ramAndRom]

theorem revectored_ramAndRomFrom (vector : Value) :
    Revectored (some vector.node) ramAndRom.toJson.node (ramAndRomFrom vector).node := by
  refine .object (.intro ?_ rfl)
  simp [Node.without, Value.fieldNodes, ramAndRom]

/-- A base in hexadecimal with blanks around it, one that is too large, and a reset vector before
all else. -/
theorem parse_respelled_ramAndRom :
    parse ramAndRom.text = .ok ramAndRom ∧
      parse (ramAndRomAt (.string " $fF00 ")).compactText = .ok (ramAndRom.withBase 1 0xFF00) ∧
      (∀ d, parse (ramAndRomAt (.natural 65536)).compactText ≠ .ok d) ∧
      parse (ramAndRomFrom (.string "0xC000")).compactText =
        .ok { ramAndRom with resetVector := some 0xC000 } := by
  have htree := Value.ofText_compactText ramAndRom.isExact_toJson
  have hread : parse ramAndRom.text = .ok ramAndRom :=
    parse_of_tree htree (by simp [SizesFit, ramAndRom, RegionKind.fits, sizeLimit])
  have hat (base : Value) (hbase : base.isExact = true) :
      Document.ofText (ramAndRomAt base).compactText = { root := (ramAndRomAt base).node } := by
    refine Value.ofText_compactText ?_
    simp only [ramAndRomAt, romAt, Value.isExact, Value.fieldsExact, Value.itemsExact, hbase]
    rfl
  have hfrom (text : String) : Document.ofText (ramAndRomFrom (.string text)).compactText =
      { root := (ramAndRomFrom (.string text)).node } :=
    Value.ofText_compactText rfl
  have hrebased (base : Value) (hbase : base.isExact = true) :=
    have hmore : (Document.ofText (ramAndRomAt base).compactText).more = false := by
      rw [hat base hbase]
    (parse_respelled hread hmore).2.1 1 (some base.node)
      (by rw [text, htree, hat base hbase]; exact rebased_ramAndRomAt base)
  refine ⟨hread, (hrebased _ rfl _).2 ⟨_, ⟨_, rfl, .string (Literal.content_ofString _) rfl⟩, rfl⟩,
    fun d hd => ?_, ?_⟩
  · obtain ⟨a, ⟨n, hn, hspells⟩, -⟩ := (hrebased _ rfl d).1 hd
    obtain rfl : (Value.natural 65536).node = n := Option.some.inj hn
    rw [← @readAddress_eq_ok_iff 0, readAddress,
      Node.readValue_natural 0 (by decide)] at hspells
    cases hspells
  · refine ((parse_respelled hread (by rw [hfrom])).2.2 (some (Value.string "0xC000").node) ?_ _).2
      ⟨_, .address (.string (Literal.content_ofString _) rfl), rfl⟩
    rw [text, htree, hfrom]
    exact revectored_ramAndRomFrom (.string "0xC000")

end Description
end Mos6502

import Mos6502.Description.Reader
import Mos6502.Proofs.Printing

/-! Machine descriptions that have been written are read back. What is written is less than what can be
read: an address is written as a number, the size of RAM is always there, and no reset vector is
written as none. -/
namespace Mos6502
open Json

namespace Json.Node
variable {σ : Type} (read : String → Node → σ → Reading σ) (s : σ)

@[simp] theorem foldMembers_closed : foldMembers read .closed [] s = .ok s := rfl

theorem foldMembers_ofString (ending : Ending) (key : String) (n : Node)
    (rest : List (Literal × Node)) {next : σ} (h : read key n s = .ok next) :
    foldMembers read ending ((.ofString key, n) :: rest) s = foldMembers read ending rest next := by
  rw [foldMembers, Literal.content_ofString]
  change (read key n s).bind _ = _
  rw [h]
  rfl

theorem readValue_string (room : Nat) (s : String) :
    (Value.string s).node.readValue room = .ok (.string s) := by
  rw [Value.node, readValue, Literal.content_ofString]
  rfl

theorem readValue_natural (room : Nat) {n : Nat} (h : n < Numeral.wholeLimit) :
    (Value.natural n).node.readValue room = .ok (.natural n) := by
  rw [Value.natural, Value.node, readValue, Number.numeral, Numeral.value_ofNat h]
  rfl

end Json.Node

theorem readAddress_natural (room : Nat) (a : Word) :
    readAddress room (Value.natural a.toNat).node = .ok a := by
  have ha : a.toNat < 65536 := a.toNat_lt
  rw [readAddress, Node.readValue_natural room (Nat.lt_trans ha (by decide))]
  change addressOfJson (.number (.natural a.toNat)) = _
  rw [addressOfJson, if_pos (by omega), UInt16.ofNat_toNat]

/-- Whether the size fits 64 bits, if there is one. -/
def RegionKind.fits : RegionKind → Prop
  | .ram size => size ≤ sizeLimit
  | .rom _ => True

theorem RegionDraft.read_other {room : Nat} {key : String} {n : Node} {v : Value}
    (hname : key ≠ "name") (hbase : key ≠ "base") (hv : n.readValue room = .ok v)
    (d : RegionDraft) : read room key n d = .ok { d with others := d.others ++ [(key, v)] } := by
  rw [read, if_neg hname, if_neg hbase, hv]
  rfl

namespace RegionKind
variable {kind : RegionKind}

theorem ofFields_fields (h : kind.fits) : ofFields kind.fields = .ok kind := by
  cases kind with
  | ram size =>
    have hsize : sizeOfJson (.natural size) = .ok size := if_pos h
    simp [fields, ofFields, takeField, RegionTag.ofJson, hsize, bind, Except.bind, pure, Except.pure]
  | rom path =>
    simp [fields, ofFields, takeField, RegionTag.ofJson, pathOfJson, bind, Except.bind, pure,
      Except.pure]

/-- The fields of a kind are kept until the region is complete. -/
theorem foldMembers_fields (room : Nat) (h : kind.fits) (d : RegionDraft) :
    Node.foldMembers (RegionDraft.read room) .closed (Value.fieldNodes kind.fields) d =
      .ok { d with others := d.others ++ kind.fields } := by
  have hkeep {key : String} {v : Value} (hname : key ≠ "name") (hbase : key ≠ "base")
      (hv : v.node.readValue room = .ok v) (rest : List (String × Value)) (d : RegionDraft) :
      Node.foldMembers (RegionDraft.read room) .closed (Value.fieldNodes ((key, v) :: rest)) d =
        Node.foldMembers (RegionDraft.read room) .closed (Value.fieldNodes rest)
          { d with others := d.others ++ [(key, v)] } :=
    Node.foldMembers_ofString _ _ _ _ _ _ (RegionDraft.read_other hname hbase hv d)
  cases kind with
  | ram size =>
    have hsize := Node.readValue_natural room (Nat.lt_succ_of_le h)
    rw [fields, hkeep (by decide) (by decide) (Node.readValue_string room "ram"),
      hkeep (by decide) (by decide) hsize, Value.fieldNodes, Node.foldMembers_closed,
      List.append_assoc]
    rfl
  | rom path =>
    rw [fields, hkeep (by decide) (by decide) (Node.readValue_string room "rom"),
      hkeep (by decide) (by decide) (Node.readValue_string room path), Value.fieldNodes,
      Node.foldMembers_closed, List.append_assoc]
    rfl

end RegionKind

theorem RegionDescription.readJson_node (room : Nat) {r : RegionDescription} (h : r.kind.fits) :
    readJson (room + 1) r.toJson.node = .ok r := by
  obtain ⟨name, base, kind⟩ := r
  have hname : RegionDraft.read room "name" (Value.string name).node {} =
      .ok { name := some name } := by
    rw [RegionDraft.read, if_pos rfl, Value.node, Node.readString, Literal.content_ofString]
    rfl
  have hbase : RegionDraft.read room "base" (Value.natural base.toNat).node
      { name := some name } = .ok { name := some name, base := some base } := by
    rw [RegionDraft.read, if_neg (by decide), if_pos rfl, readAddress_natural]
    rfl
  have hmembers : Node.foldMembers (RegionDraft.read room) .closed
      (Value.fieldNodes (("name", .string name) :: ("base", .natural base.toNat) :: kind.fields)) {} =
        .ok { name := some name, base := some base, others := kind.fields } := by
    rw [Value.fieldNodes, Node.foldMembers_ofString _ _ _ _ _ _ hname, Value.fieldNodes,
      Node.foldMembers_ofString _ _ _ _ _ _ hbase, kind.foldMembers_fields room h]
    rfl
  rw [toJson, Value.node, readJson]
  change (Node.foldMembers (RegionDraft.read room) .closed _ {}).bind _ = _
  rw [hmembers]
  change (RegionKind.ofFields kind.fields).bind _ = _
  rw [RegionKind.ofFields_fields h]
  rfl

theorem readRegionList_nodes (room : Nat) {rs : List RegionDescription}
    (h : ∀ r ∈ rs, r.kind.fits) :
    readRegionList (room + 1) .closed (Value.itemNodes (rs.map (·.toJson))) = .ok rs := by
  induction rs with
  | nil => rfl
  | cons r rest ih =>
    obtain ⟨hr, hrest⟩ := List.forall_mem_cons.1 h
    rw [List.map_cons, Value.itemNodes, readRegionList, RegionDescription.readJson_node room hr]
    change (readRegionList (room + 1) .closed _).bind _ = _
    rw [ih hrest]
    rfl

namespace DescriptionDraft

theorem read_regions (room : Nat) {rs : List RegionDescription} (h : ∀ r ∈ rs, r.kind.fits)
    {d : DescriptionDraft} (hd : d.regions = none) :
    read (room + 2) "regions" (Value.array (rs.map (·.toJson))).node d =
      .ok { d with regions := some rs } := by
  rw [read, if_pos rfl, hd, Value.node, readRegions]
  change ((readRegionList (room + 1) .closed _).bind _) = _
  rw [readRegionList_nodes room h]
  rfl

theorem read_resetVector (room : Nat) (a : Word) {d : DescriptionDraft}
    (hd : d.resetVector = none) :
    read room "reset_vector" (Value.natural a.toNat).node d =
      .ok { d with resetVector := some (some a) } := by
  rw [read, if_neg (by decide), if_pos rfl, hd]
  change ((readAddress room (Value.natural a.toNat).node).map some).bind _ = _
  rw [readAddress_natural]
  rfl

end DescriptionDraft

namespace Description
variable {d : Description}

/-- Whether every size of RAM fits 64 bits. -/
def SizesFit (d : Description) : Prop := ∀ r ∈ d.regions, r.kind.fits

theorem isExact_toJson (d : Description) : d.toJson.isExact = true := by
  have hregions (rs : List RegionDescription) :
      Value.itemsExact (rs.map (·.toJson)) = true := by
    induction rs with
    | nil => rfl
    | cons r rest ih =>
      obtain ⟨name, base, kind⟩ := r
      rw [List.map_cons, Value.itemsExact, ih, Bool.and_true]
      cases kind <;> rfl
  obtain ⟨rs, vector⟩ := d
  cases vector <;>
    simp [toJson, Value.isExact, Value.fieldsExact, Value.natural, Number.isWhole, hregions]

/-- The draft that the members of a written description add up to. -/
theorem foldMembers_toJson (room : Nat) (h : d.SizesFit) :
    ∃ fields draft, d.toJson = .object fields ∧
      Node.foldMembers (DescriptionDraft.read (room + 2)) .closed (Value.fieldNodes fields) {} =
        .ok draft ∧ draft.finish = .ok d := by
  obtain ⟨rs, vector⟩ := d
  have hregions := DescriptionDraft.read_regions room h (d := {}) rfl
  cases vector with
  | none =>
    refine ⟨_, { regions := some rs }, rfl, ?_, rfl⟩
    rw [Value.fieldNodes, Node.foldMembers_ofString _ _ _ _ _ _ hregions]
    rfl
  | some a =>
    have hvector := DescriptionDraft.read_resetVector (room + 2) a
      (d := { regions := some rs }) rfl
    refine ⟨_, { regions := some rs, resetVector := some (some a) }, rfl, ?_, rfl⟩
    rw [Value.fieldNodes, Node.foldMembers_ofString _ _ _ _ _ _ hregions, Value.fieldNodes,
      Node.foldMembers_ofString _ _ _ _ _ _ hvector]
    rfl

theorem readJson_node (h : d.SizesFit) : readJson d.toJson.node = .ok d := by
  have hroom : enter nestingLimit = .ok (124 + 2) := rfl
  obtain ⟨fields, draft, hfields, hdraft, hfinish⟩ := foldMembers_toJson 124 h
  rw [hfields, Value.node, readJson, hroom]
  change (Node.foldMembers (DescriptionDraft.read (124 + 2)) .closed _ {}).bind _ = _
  rw [hdraft]
  exact hfinish

theorem parse_of_tree {text : String} (htree : Document.ofText text = { root := d.toJson.node })
    (h : d.SizesFit) : parse text = .ok d := by
  rw [parse, readText, htree]
  change (readJson d.toJson.node).bind _ = _
  rw [readJson_node h]
  rfl

/-- A description that is written, on one line or on several, is read back. -/
theorem parse_text (h : d.SizesFit) :
    parse d.text = .ok d ∧ parse d.toJson.prettyText = .ok d :=
  ⟨parse_of_tree (Value.ofText_compactText d.isExact_toJson) h,
    parse_of_tree (Value.ofText_prettyText d.isExact_toJson) h⟩

/-- Names that need every kind of escape, the greatest size, and a reset vector. -/
def oddNames : Description where
  regions := [⟨"\"\\/\n\x01\x1f", 0xFFFF, .ram sizeLimit⟩, ⟨"", 0, .ram 0⟩,
    ⟨"é 😀", 0xC000, .rom "C:\\\t\x08.bin"⟩]
  resetVector := some 0

theorem parse_text_oddNames :
    oddNames.SizesFit ∧ parse oddNames.text = .ok oddNames ∧
      parse oddNames.toJson.prettyText = .ok oddNames := by
  have hfits : oddNames.SizesFit := by
    simp [SizesFit, oddNames, RegionKind.fits, sizeLimit]
  exact ⟨hfits, parse_text hfits⟩

end Description
end Mos6502

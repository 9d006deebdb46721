import Mos6502.Proofs.Building
import Mos6502.Proofs.ResetHistory

/-! The machine that is made for a ROM alone. The ROM ends at the last address, where the vectors
are, and there is RAM from address zero on, as much as usual unless the ROM needs its place. For
every ROM that is not empty and fits the address space there is such a machine, and it can be reset
if the ROM is long enough to hold the vector. -/
namespace Mos6502

namespace Description
variable {path : String} {length : Nat}

/-- The ROM that ends at the last address. -/
def topRom (path : String) (length : Nat) : RegionDescription :=
  ⟨"rom", UInt16.ofNat (65536 - length), .rom path⟩

def lowRam (length : Nat) : RegionDescription := ⟨"ram", 0, .ram (min 32768 (65536 - length))⟩

theorem ofRom_of_lt (h : length < 65536) :
    (ofRom path length).regions = [lowRam length, topRom path length] := by
  have hsome : ¬min standardRamSize (65536 - length) = 0 := by
    rw [standardRamSize]
    omega
  simp only [ofRom, if_neg hsome]
  rfl

theorem ofRom_of_le (h : 65536 ≤ length) : (ofRom path length).regions = [topRom path length] := by
  have hnone : min standardRamSize (65536 - length) = 0 := by omega
  simp only [ofRom, if_pos hnone]
  rfl

theorem toNat_base_topRom (path : String) (h : 1 ≤ length) :
    (topRom path length).base.toNat = 65536 - length := by
  rw [topRom, UInt16.toNat_ofNat']
  omega

end Description

namespace Region
variable {r : Region} {a : Word}

theorem cell_of_rom {label : String} {image : Image} (h : r.backend = .rom label image)
    (ha : r.covers a = true) :
    ∃ v, image[a.toNat - r.base.toNat]? = some v ∧ r.cell a = .rom v := by
  have hlt := offset_lt_size ha
  rw [h, Backend.size, toNat_offset ha] at hlt
  refine ⟨_, Array.getElem?_eq_getElem hlt, ?_⟩
  rw [cell, h, Backend.cell, Backend.read, toNat_offset ha, Array.getD_eq_getD_getElem?,
    Array.getElem?_eq_getElem hlt, Option.getD_some]

theorem cell_of_zeros {size : Nat} (h : r.backend = .ram (.zeros size)) (a : Word) :
    r.cell a = .ram 0 := by
  rw [cell, h, Backend.cell, Backend.read, Image.zeros, Image.filled, Array.getD_eq_getD_getElem?,
    Array.getElem?_replicate]
  split <;> rfl

end Region

theorem Region.Follows.lowRam {fs : Files} {r : Region} {length : Nat}
    (hr : r.Follows fs (Description.lowRam length)) (a : Word) :
    r.cell a = .ram 0 ∧ (r.covers a = true ↔ a.toNat < min 32768 (65536 - length)) := by
  have hbackend := hr.ram _ rfl
  refine ⟨cell_of_zeros hbackend a, ?_⟩
  have hbase : r.base.toNat = 0 := congrArg UInt16.toNat hr.base
  rw [covers_iff, size, hbackend, Backend.size, Image.size_zeros, hbase]
  omega

/-- ROM with the bytes of the image up to the last address, RAM with zeros below, and nothing
between them. -/
structure Bus.HasRomAtTop (bus : Bus) (image : Image) : Prop where
  apart : bus.regions.Pairwise fun r s => ∀ a, ¬(r.covers a = true ∧ s.covers a = true)
  rom : ∀ a : Word, 65536 - image.size ≤ a.toNat →
    ∃ v, image[a.toNat - (65536 - image.size)]? = some v ∧ bus.cell a = .rom v ∧ bus.read a = .ok v
  ram : ∀ a : Word, a.toNat < min 32768 (65536 - image.size) →
    bus.cell a = .ram 0 ∧ bus.read a = .ok 0
  hole : ∀ a : Word, min 32768 (65536 - image.size) ≤ a.toNat → a.toNat < 65536 - image.size →
    bus.cell a = .hole

section
variable {fs : Files} {path : String} {image : Image} (hread : fs.read path = .ok image)
include hread

theorem RegionDescription.isValid_topRom_iff :
    (Description.topRom path image.size).IsValid fs ↔ 1 ≤ image.size ∧ image.size ≤ 65536 := by
  have hsize : (Description.topRom path image.size).HasSize fs image.size := .rom rfl hread
  constructor
  · rintro ⟨size, hsize', hpos, hfits⟩
    obtain rfl := hsize'.unique hsize
    exact ⟨hpos, by omega⟩
  · rintro ⟨hpos, hfits⟩
    refine ⟨_, hsize, hpos, ?_⟩
    rw [Description.toNat_base_topRom path hpos]
    omega

theorem Region.Follows.topRom {r : Region} (hpos : 1 ≤ image.size)
    (hr : r.Follows fs (Description.topRom path image.size)) (a : Word) :
    (r.covers a = true ↔ 65536 - image.size ≤ a.toNat) ∧
      (65536 - image.size ≤ a.toNat →
        ∃ v, image[a.toNat - (65536 - image.size)]? = some v ∧ r.cell a = .rom v) := by
  obtain ⟨image', hread', hbackend⟩ := hr.rom path rfl
  obtain rfl := Except.ok.inj (hread.symm.trans hread')
  have hbase : r.base.toNat = 65536 - image.size := by
    rw [hr.base, Description.toNat_base_topRom path hpos]
  have hcovers : r.covers a = true ↔ 65536 - image.size ≤ a.toNat := by
    have ha := a.toNat_lt
    rw [covers_iff, size, hbackend, Backend.size, hbase]
    omega
  exact ⟨hcovers, fun ha => hbase ▸ cell_of_rom hbackend (hcovers.2 ha)⟩

theorem Region.exists_topRom {rs : List Region} (hpos : 1 ≤ image.size)
    (hrs : List.Forall₂ (Region.Follows fs) (Description.ofRom path image.size).regions rs) :
    rs.Pairwise (fun r s => ∀ a, ¬(r.covers a = true ∧ s.covers a = true)) ∧
      ∃ r : Region, r.Follows fs (Description.topRom path image.size) ∧
        ∀ a : Word, (⟨rs⟩ : Bus).cell a =
          if a.toNat < min 32768 (65536 - image.size) then .ram 0
          else if 65536 - image.size ≤ a.toNat then r.cell a else .hole := by
  obtain hlt | hle := Nat.lt_or_ge image.size 65536
  · rw [Description.ofRom_of_lt hlt] at hrs
    obtain ⟨low, rest, hlow, hrest, rfl⟩ := List.forall₂_cons_left_iff.1 hrs
    obtain ⟨top, others, htop, hothers, rfl⟩ := List.forall₂_cons_left_iff.1 hrest
    obtain rfl := List.forall₂_nil_left_iff.1 hothers
    constructor
    · refine .cons (fun s hs a => ?_) (List.pairwise_singleton _ _)
      obtain rfl := List.mem_singleton.1 hs
      rw [(hlow.lowRam a).2, (htop.topRom hread hpos a).1]
      omega
    · refine ⟨top, htop, fun a => ?_⟩
      rw [Bus.cell_cons, Bus.cell_cons, Bus.cell_nil, (hlow.lowRam a).1]
      simp only [(hlow.lowRam a).2, (htop.topRom hread hpos a).1]
  · rw [Description.ofRom_of_le hle] at hrs
    obtain ⟨top, rest, htop, hrest, rfl⟩ := List.forall₂_cons_left_iff.1 hrs
    obtain rfl := List.forall₂_nil_left_iff.1 hrest
    refine ⟨List.pairwise_singleton _ _, top, htop, fun a => ?_⟩
    have hnone : ¬a.toNat < min 32768 (65536 - image.size) := by omega
    rw [Bus.cell_cons, Bus.cell_nil, if_neg hnone]
    simp only [(htop.topRom hread hpos a).1]

theorem Bus.HasRomAtTop.of_follows {rs : List Region} (hpos : 1 ≤ image.size)
    (hrs : List.Forall₂ (Region.Follows fs) (Description.ofRom path image.size).regions rs) :
    (⟨rs⟩ : Bus).HasRomAtTop image := by
  obtain ⟨hapart, top, htop, hcell⟩ := Region.exists_topRom hread hpos hrs
  constructor
  case apart => exact hapart
  case rom =>
    intro a ha
    obtain ⟨v, hv, hrom⟩ := (htop.topRom hread hpos a).2 ha
    have hbus : (⟨rs⟩ : Bus).cell a = .rom v := by
      rw [hcell, if_neg (by omega), if_pos ha, hrom]
    exact ⟨v, hv, hbus, by rw [read_eq_cell, hbus]; rfl⟩
  case ram =>
    intro a ha
    have hbus : (⟨rs⟩ : Bus).cell a = .ram 0 := by rw [hcell, if_pos ha]
    exact ⟨hbus, read_of_cell hbus⟩
  case hole =>
    intro a hlow hhigh
    rw [hcell, if_neg (Nat.not_lt.2 hlow), if_neg (Nat.not_le.2 hhigh)]

omit hread in
theorem RegionDescription.canBeMade_ofRom :
    ∀ r ∈ (Description.ofRom path image.size).regions, r.CanBeMade := by
  have htop : (Description.topRom path image.size).CanBeMade := fun _ h => nomatch h
  have hlow : (Description.lowRam image.size).CanBeMade := by
    rintro size h
    obtain rfl := RegionKind.ram.inj h
    rw [Image.sizeLimit]
    omega
  obtain hlt | hle := Nat.lt_or_ge image.size 65536
  · rw [Description.ofRom_of_lt hlt]
    simp [htop, hlow]
  · rw [Description.ofRom_of_le hle]
    simp [htop]

theorem Machine.exists_build_ofRom_iff {logging : Log.Config} :
    (∃ m, build fs logging (.ofRom path image.size) = .ok () m) ↔
      1 ≤ image.size ∧ image.size ≤ 65536 := by
  have htop := RegionDescription.isValid_topRom_iff hread
  rw [exists_build_ok_iff RegionDescription.canBeMade_ofRom, ← htop]
  obtain hlt | hle := Nat.lt_or_ge image.size 65536
  · have hlow : (Description.lowRam image.size).IsValid fs :=
      ⟨_, .ram rfl, by omega, show min 32768 (65536 - image.size) ≤ 65536 by omega⟩
    rw [Description.ofRom_of_lt hlt]
    simp [hlow]
  · rw [Description.ofRom_of_le hle]
    simp

end

namespace Machine

/-- Whether the vector is in the ROM decides whether there is one. -/
theorem reset_of_hasRomAtTop {m : Machine} {image : Image} (h : m.bus.HasRomAtTop image)
    (hfits : image.size ≤ 65536) :
    ((∃ m', m.reset = .ok () m') ↔ 4 ≤ image.size) ∧
      ∀ m', m.reset = .ok () m' → ∃ low high, image[image.size - 4]? = some low ∧
        image[image.size - 3]? = some high ∧ m'.registers.pc = Word.join low high := by
  have hlow : (0xFFFC : Word).toNat = 65532 := rfl
  have hhigh : (0xFFFD : Word).toNat = 65533 := rfl
  have hvector (hlong : 4 ≤ image.size) : ∃ low high, image[image.size - 4]? = some low ∧
      image[image.size - 3]? = some high ∧ m.bus.readWord 0xFFFC = .ok (Word.join low high) := by
    obtain ⟨low, hlow', -, hreadLow⟩ := h.rom 0xFFFC (by omega)
    obtain ⟨high, hhigh', -, hreadHigh⟩ := h.rom 0xFFFD (by omega)
    rw [hlow, show 65532 - (65536 - image.size) = image.size - 4 by omega] at hlow'
    rw [hhigh, show 65533 - (65536 - image.size) = image.size - 3 by omega] at hhigh'
    refine ⟨low, high, hlow', hhigh', Bus.readWord_eq_ok_iff.2 ?_⟩
    rw [Word.low_join, Word.high_join]
    exact ⟨hreadLow, hreadHigh⟩
  have hreset := m.resetsAtomically
  have hiff : (∃ m', m.reset = .ok () m') ↔ 4 ≤ image.size := by
    constructor
    · rintro ⟨m', hm'⟩
      by_contra hshort
      have hgap : m.bus.isMapped 0xFFFC = false :=
        Bus.cell_eq_hole_iff.1 (h.hole 0xFFFC (by omega) (by omega))
      obtain ⟨f, next, hf⟩ := hreset.fails_iff.2 (.inl hgap)
      exact nomatch hm'.symm.trans hf
    · intro hlong
      obtain ⟨low, high, -, -, hread⟩ := hvector hlong
      cases hm : m.reset with
      | ok _ m' => exact ⟨m', rfl⟩
      | error f m' =>
        have hgap := hreset.fails_iff.1 ⟨f, m', hm⟩
        have herror : m.bus.readWord 0xFFFC = _ := Bus.readWord_eq_error_iff.2 ⟨hgap, rfl⟩
        exact nomatch hread.symm.trans herror
  refine ⟨hiff, fun m' hm' => ?_⟩
  obtain ⟨low, high, hlow', hhigh', hread⟩ := hvector (hiff.1 ⟨m', hm'⟩)
  obtain ⟨start, hstart, rfl⟩ := hreset.of_ok m' hm'
  obtain rfl := Except.ok.inj (hread.symm.trans hstart)
  refine ⟨low, high, hlow', hhigh', ?_⟩
  rw [resetTo, emit_eq]

theorem read_last_of_hasRomAtTop {bus : Bus} {image : Image} (h : bus.HasRomAtTop image)
    (hpos : 1 ≤ image.size) (hfits : image.size ≤ 65536) :
    ∃ v, image.back? = some v ∧ bus.read 0xFFFF = .ok v := by
  have hlast : (0xFFFF : Word).toNat = 65535 := rfl
  obtain ⟨v, hv, -, hread⟩ := h.rom 0xFFFF (by omega)
  rw [hlast, show 65535 - (65536 - image.size) = image.size - 1 by omega] at hv
  exact ⟨v, Array.back?_eq_getElem?.trans hv, hread⟩

/-- For a ROM alone there is a machine just if the ROM is not empty and not too long. It has the ROM
at the top, and a reset starts where the fourth and the third byte from the end of the ROM say, if
there are as many. -/
theorem rom_alone (fs : Files) (logging : Log.Config) (path : String) (image : Image)
    (hread : fs.read path = .ok image) :
    ((∃ m, build fs logging (.ofRom path image.size) = .ok () m) ↔
      1 ≤ image.size ∧ image.size ≤ 65536) ∧
    ∀ m, build fs logging (.ofRom path image.size) = .ok () m →
      m.bus.HasRomAtTop image ∧ (∃ v, image.back? = some v ∧ m.bus.read 0xFFFF = .ok v) ∧
        ((∃ m', m.reset = .ok () m') ↔ 4 ≤ image.size) ∧
        ∀ m', m.reset = .ok () m' → ∃ low high, image[image.size - 4]? = some low ∧
          image[image.size - 3]? = some high ∧ m'.registers.pc = Word.join low high := by
  refine ⟨exists_build_ofRom_iff hread, fun m hm => ?_⟩
  obtain ⟨hpos, hfits⟩ := (exists_build_ofRom_iff hread).1 ⟨m, hm⟩
  obtain ⟨rs, journal, hrs, rfl⟩ := build_ok_cases hm
  have htop : (⟨rs⟩ : Bus).HasRomAtTop image := .of_follows hread hpos hrs
  exact ⟨htop, read_last_of_hasRomAtTop htop hpos hfits, reset_of_hasRomAtTop htop hfits⟩

def vectors : Files where
  home := []
  entries := [(["r"], #[0x00, 0x02, 0x34, 0x12])]

/-- Four bytes are enough: the first two are where a reset starts. -/
theorem rom_alone_vectors :
    ∃ m, build vectors {} (.ofRom "r" 4) = .ok () m ∧ m.bus.cell 0x7FFF = .ram 0 ∧
      m.bus.cell 0x8000 = .hole ∧ m.bus.read 0xFFFF = .ok 0x12 ∧
      ∃ m', m.reset = .ok () m' ∧ m'.registers.pc = 0x0200 := by
  have hnames : Files.names "r" = .ok ["r"] := by cbv
  have hread : vectors.read "r" = .ok #[0x00, 0x02, 0x34, 0x12] :=
    Files.read_eq_ok_iff.2 ⟨_, hnames, rfl⟩
  obtain ⟨hok, hmade⟩ := rom_alone vectors {} "r" _ hread
  obtain ⟨m, hm⟩ := hok.2 (by decide)
  obtain ⟨htop, ⟨v, hv, hlast⟩, hiff, hpc⟩ := hmade m hm
  obtain ⟨m', hm'⟩ := hiff.2 (by decide)
  obtain ⟨low, high, hlow, hhigh, hstart⟩ := hpc m' hm'
  obtain rfl : 0x12 = v := Option.some.inj hv
  obtain rfl : 0x00 = low := Option.some.inj hlow
  obtain rfl : 0x02 = high := Option.some.inj hhigh
  exact ⟨m, hm, (htop.ram 0x7FFF (by decide)).1, htop.hole 0x8000 (by decide) (by decide), hlast,
    m', hm', hstart⟩

end Machine
end Mos6502

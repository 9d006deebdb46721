import Mathlib
import Mos6502.Proofs.CommandRuns

/-! Building a bus as it is described. Regions do not get in each other's way, so it succeeds just
if each of them could be attached alone, and the bus then has the regions in their order. Otherwise
the first that could not be attached is the reason, whatever comes behind it. -/
namespace Mos6502

namespace RegionDescription
variable {fs : Files} {r : RegionDescription} {size : Nat} {e : DescriptionError}

/-- How many bytes a region is to have: as its RAM is given, or as are in the file of its ROM. -/
inductive HasSize (fs : Files) (r : RegionDescription) : Nat → Prop
  | ram {size : Nat} : r.kind = .ram size → HasSize fs r size
  | rom {path : String} {image : Image} :
    r.kind = .rom path → fs.read path = .ok image → HasSize fs r image.size

/-- Whether a region can be attached: there are bytes, and not more than there are addresses from
its base on. -/
def IsValid (fs : Files) (r : RegionDescription) : Prop :=
  ∃ size, r.HasSize fs size ∧ 1 ≤ size ∧ size ≤ 65536 - r.base.toNat

/-- Why a region cannot be attached. -/
inductive IsWrong (fs : Files) (r : RegionDescription) : DescriptionError → Prop
  | unreadable {path : String} {e : FileError} :
    r.kind = .rom path → fs.read path = .error e → IsWrong fs r (.file path e)
  | empty : r.HasSize fs 0 → IsWrong fs r (.bus (.emptyRegion r.name))
  | outOfRange {size : Nat} : r.HasSize fs size → 65536 - r.base.toNat < size →
    IsWrong fs r (.bus (.regionOutOfRange r.name r.base size))

def CanBeMade (r : RegionDescription) : Prop := ∀ size, r.kind = .ram size → size < Image.sizeLimit

theorem HasSize.unique {size' : Nat} (h : r.HasSize fs size) (h' : r.HasSize fs size') :
    size = size' := by
  cases h with
  | ram hkind =>
    cases h' with
    | ram hkind' => exact RegionKind.ram.inj (hkind.symm.trans hkind')
    | rom hkind' => exact nomatch hkind.symm.trans hkind'
  | rom hkind hread =>
    cases h' with
    | ram hkind' => exact nomatch hkind.symm.trans hkind'
    | rom hkind' hread' =>
      obtain rfl := RegionKind.rom.inj (hkind.symm.trans hkind')
      obtain rfl := Except.ok.inj (hread.symm.trans hread')
      rfl

theorem isValid_or_isWrong (fs : Files) (r : RegionDescription) :
    r.IsValid fs ∨ ∃ e, r.IsWrong fs e := by
  have hsized {size : Nat} (h : r.HasSize fs size) : r.IsValid fs ∨ ∃ e, r.IsWrong fs e := by
    obtain rfl | hpos := Nat.eq_zero_or_pos size
    · exact .inr ⟨_, .empty h⟩
    · obtain hfits | hlong := Nat.lt_or_ge (65536 - r.base.toNat) size |>.symm
      · exact .inl ⟨size, h, hpos, hfits⟩
      · exact .inr ⟨_, .outOfRange h hlong⟩
  cases hkind : r.kind with
  | ram size => exact hsized (.ram hkind)
  | rom path =>
    cases hread : fs.read path with
    | error e => exact .inr ⟨_, .unreadable hkind hread⟩
    | ok image => exact hsized (.rom hkind hread)

theorem IsWrong.not_isValid (h : r.IsWrong fs e) : ¬r.IsValid fs := by
  rintro ⟨size, hsize, hpos, hfits⟩
  cases h with
  | unreadable hkind hread =>
    cases hsize with
    | ram hkind' => exact nomatch hkind.symm.trans hkind'
    | rom hkind' hread' =>
      obtain rfl := RegionKind.rom.inj (hkind.symm.trans hkind')
      exact nomatch hread.symm.trans hread'
  | empty h => exact absurd (hsize.unique h) (Nat.ne_of_gt hpos)
  | outOfRange h hlong => exact absurd (hsize.unique h ▸ hlong) (Nat.not_lt.2 hfits)

/-- Either no region is wrong, or one is the first. -/
theorem isValid_or_exists_isWrong (fs : Files) (ds : List RegionDescription) :
    (∀ r ∈ ds, r.IsValid fs) ∨ ∃ front r back e, ds = front ++ r :: back ∧
      (∀ q ∈ front, q.IsValid fs) ∧ r.IsWrong fs e := by
  induction ds with
  | nil => exact .inl (by simp)
  | cons r rest ih =>
    obtain hr | ⟨e, he⟩ := r.isValid_or_isWrong fs
    · obtain hrest | ⟨front, q, back, e, rfl, hfront, he⟩ := ih
      · exact .inl (List.forall_mem_cons.2 ⟨hr, hrest⟩)
      · exact .inr ⟨r :: front, q, back, e, rfl, List.forall_mem_cons.2 ⟨hr, hfront⟩, he⟩
    · exact .inr ⟨[], r, rest, e, rfl, by simp, he⟩

end RegionDescription

theorem Bus.refusal?_eq_outOfRange {name : String} {base : Word} {size : Nat}
    (h : 65536 - base.toNat < size) :
    refusal? name base size = some (.regionOutOfRange name base size) := by
  rw [refusal?, if_neg (by omega), if_pos (by omega)]

structure Extent.Follows (fs : Files) (d : RegionDescription) (e : Extent) : Prop where
  name : e.name = d.name
  first : e.first = d.base
  last : ∃ size, d.HasSize fs size ∧ e.last.toNat + 1 = d.base.toNat + size

theorem Region.Follows.extent {fs : Files} {d : RegionDescription} {r : Region}
    (h : r.Follows fs d) : Extent.Follows fs d r.extent := by
  refine ⟨h.name, h.base, r.size, ?_, h.base ▸ r.toNat_last⟩
  cases hkind : d.kind with
  | ram size =>
    have hsize : r.size = size := by
      rw [Region.size, h.ram size hkind, Backend.size, Image.size_zeros]
    exact hsize ▸ .ram hkind
  | rom path =>
    obtain ⟨image, hread, hbackend⟩ := h.rom path hkind
    have hsize : r.size = image.size := by rw [Region.size, hbackend, Backend.size]
    exact hsize ▸ .rom hkind hread

namespace Machine
variable {fs : Files} {m : Machine} {logging : Log.Config} {d : Description} {r : RegionDescription}
  {size : Nat} {e : DescriptionError}

theorem attach_cases (m : Machine) (name : String) (base : Word) (backend : Backend) :
    (∃ e, Bus.refusal? name base backend.size = some e ∧ m.attach name base backend = .error e m) ∨
      Bus.refusal? name base backend.size = none ∧
        ∃ m', m.attach name base backend = .ok () m' := by
  unfold attach
  obtain ⟨e, hrefusal, he⟩ | ⟨r, hrefusal, -, -, -, hr⟩ := m.bus.attach_cases name base backend
  · exact .inl ⟨e, hrefusal, by rw [he]⟩
  · exact .inr ⟨hrefusal, _, by rw [hr]⟩

theorem attachDescribed_cases (m : Machine) (hsize : r.HasSize fs size) (hmade : r.CanBeMade) :
    (∃ e, Bus.refusal? r.name r.base size = some e ∧ m.attachDescribed fs r = .error (.bus e) m) ∨
      Bus.refusal? r.name r.base size = none ∧ ∃ m', m.attachDescribed fs r = .ok () m' := by
  unfold attachDescribed
  cases hsize with
  | ram hkind =>
    have hroom : ¬Image.sizeLimit ≤ size := Nat.not_le.2 (hmade size hkind)
    have hcases := m.attach_cases r.name r.base (.ram (.zeros size))
    rw [Backend.size, Image.size_zeros] at hcases
    obtain ⟨e, hrefusal, he⟩ | ⟨hrefusal, m', hm'⟩ := hcases
    · exact .inl ⟨e, hrefusal, by simp only [hkind, if_neg hroom, hrefusal]⟩
    · exact .inr ⟨hrefusal, m', by simp only [hkind, if_neg hroom, hrefusal, hm']⟩
  | @rom path image hkind hread =>
    obtain ⟨e, hrefusal, he⟩ | ⟨hrefusal, m', hm'⟩ := m.attach_cases r.name r.base (.rom path image)
    · exact .inl ⟨e, hrefusal, by simp only [hkind, hread, he]⟩
    · exact .inr ⟨hrefusal, m', by simp only [hkind, hread, hm']⟩

theorem exists_attachDescribed_of_isValid (m : Machine) (h : r.IsValid fs) (hmade : r.CanBeMade) :
    ∃ m', m.attachDescribed fs r = .ok () m' := by
  obtain ⟨size, hsize, hpos, hfits⟩ := h
  have hnone : Bus.refusal? r.name r.base size = none :=
    Bus.refusal?_eq_none_iff.2 ⟨hpos, by have := r.base.toNat_lt; omega⟩
  obtain ⟨e, hrefusal, -⟩ | ⟨-, hok⟩ := m.attachDescribed_cases hsize hmade
  · exact nomatch hnone.symm.trans hrefusal
  · exact hok

theorem attachDescribed_of_isWrong (m : Machine) (h : r.IsWrong fs e) (hmade : r.CanBeMade) :
    m.attachDescribed fs r = .error e m := by
  have hrefused {size : Nat} {e : BusError} (hsize : r.HasSize fs size)
      (he : Bus.refusal? r.name r.base size = some e) :
      m.attachDescribed fs r = .error (.bus e) m := by
    obtain ⟨e', hrefusal, hm⟩ | ⟨hrefusal, -⟩ := m.attachDescribed_cases hsize hmade
    · obtain rfl := Option.some.inj (he.symm.trans hrefusal)
      exact hm
    · exact nomatch he.symm.trans hrefusal
  cases h with
  | unreadable hkind hread =>
    unfold attachDescribed
    simp only [hkind, hread]
  | empty hsize => exact hrefused hsize (if_pos rfl)
  | outOfRange hsize hlong => exact hrefused hsize (Bus.refusal?_eq_outOfRange hlong)

theorem exists_attachAll_of_isValid {ds : List RegionDescription} (m : Machine)
    (h : ∀ r ∈ ds, r.IsValid fs) (hmade : ∀ r ∈ ds, r.CanBeMade) :
    ∃ m', attachAll fs ds m = .ok () m' := by
  induction ds generalizing m with
  | nil => exact ⟨m, rfl⟩
  | cons r rest ih =>
    obtain ⟨hr, hrest⟩ := List.forall_mem_cons.1 h
    obtain ⟨hmade, hmadeRest⟩ := List.forall_mem_cons.1 hmade
    obtain ⟨next, hnext⟩ := m.exists_attachDescribed_of_isValid hr hmade
    rw [attachAll, hnext]
    exact ih next hrest hmadeRest

/-- The first region that is wrong ends it, whatever is behind. -/
theorem exists_attachAll_of_isWrong {front : List RegionDescription} (back : List RegionDescription)
    (m : Machine) (hfront : ∀ q ∈ front, q.IsValid fs) (hr : r.IsWrong fs e)
    (hmade : ∀ q ∈ front ++ r :: back, q.CanBeMade) :
    ∃ m', attachAll fs (front ++ r :: back) m = .error e m' := by
  induction front generalizing m with
  | nil =>
    rw [List.nil_append, attachAll, m.attachDescribed_of_isWrong hr (hmade r List.mem_cons_self)]
    exact ⟨m, rfl⟩
  | cons q front ih =>
    obtain ⟨hq, hfront⟩ := List.forall_mem_cons.1 hfront
    obtain ⟨hmade, hmadeRest⟩ := List.forall_mem_cons.1 hmade
    obtain ⟨next, hnext⟩ := m.exists_attachDescribed_of_isValid hq hmade
    rw [List.cons_append, attachAll, hnext]
    exact ih next hfront hmadeRest

theorem exists_build_of_isValid (logging : Log.Config) (h : ∀ r ∈ d.regions, r.IsValid fs)
    (hmade : ∀ r ∈ d.regions, r.CanBeMade) : ∃ m, build fs logging d = .ok () m := by
  obtain ⟨m, hm⟩ := exists_attachAll_of_isValid { logging } h hmade
  rw [build, hm]
  exact ⟨_, rfl⟩

theorem exists_build_of_isWrong (logging : Log.Config) {front back : List RegionDescription}
    (hd : d.regions = front ++ r :: back) (hfront : ∀ q ∈ front, q.IsValid fs)
    (hr : r.IsWrong fs e) (hmade : ∀ r ∈ d.regions, r.CanBeMade) :
    ∃ m, build fs logging d = .error e m := by
  obtain ⟨m, hm⟩ := exists_attachAll_of_isWrong back { logging } hfront hr (hd ▸ hmade)
  rw [build, hd, hm]
  exact ⟨_, rfl⟩

theorem exists_build_ok_iff (hmade : ∀ r ∈ d.regions, r.CanBeMade) :
    (∃ m, build fs logging d = .ok () m) ↔ ∀ r ∈ d.regions, r.IsValid fs := by
  refine ⟨?_, fun h => exists_build_of_isValid logging h hmade⟩
  rintro ⟨m, hm⟩
  obtain h | ⟨front, r, back, e, hd, hfront, hr⟩ :=
    RegionDescription.isValid_or_exists_isWrong fs d.regions
  · exact h
  · obtain ⟨m', hm'⟩ := exists_build_of_isWrong logging hd hfront hr hmade
    exact nomatch hm.symm.trans hm'

theorem exists_build_error_iff (hmade : ∀ r ∈ d.regions, r.CanBeMade) :
    (∃ m, build fs logging d = .error e m) ↔ ∃ front r back, d.regions = front ++ r :: back ∧
      (∀ q ∈ front, q.IsValid fs) ∧ r.IsWrong fs e := by
  constructor
  · rintro ⟨m, hm⟩
    obtain h | ⟨front, r, back, e', hd, hfront, hr⟩ :=
      RegionDescription.isValid_or_exists_isWrong fs d.regions
    · obtain ⟨m', hm'⟩ := exists_build_of_isValid logging h hmade
      exact nomatch hm.symm.trans hm'
    · obtain ⟨m', hm'⟩ := exists_build_of_isWrong logging hd hfront hr hmade
      obtain ⟨rfl, -⟩ := EStateM.Result.error.inj (hm.symm.trans hm')
      exact ⟨front, r, back, hd, hfront, hr⟩
  · rintro ⟨front, r, back, hd, hfront, hr⟩
    exact exists_build_of_isWrong logging hd hfront hr hmade

/-- A bus can be built just if every region can be attached. It then has the regions of the
description in their order, each where it is described to be, the RAM full of zeros and the ROM with
the bytes of its file. Otherwise the first region that cannot be attached says why. -/
theorem build_exact (fs : Files) (logging : Log.Config) (d : Description)
    (hmade : ∀ r ∈ d.regions, r.CanBeMade) :
    ((∃ m, build fs logging d = .ok () m) ↔ ∀ r ∈ d.regions, r.IsValid fs) ∧
      (∀ m, build fs logging d = .ok () m →
        List.Forall₂ (Region.Follows fs) d.regions m.bus.regions ∧
          List.Forall₂ (Extent.Follows fs) d.regions m.bus.extents) ∧
      ∀ e, (∃ m, build fs logging d = .error e m) ↔
        ∃ front r back, d.regions = front ++ r :: back ∧ (∀ q ∈ front, q.IsValid fs) ∧
          ¬r.IsValid fs ∧ r.IsWrong fs e := by
  refine ⟨exists_build_ok_iff hmade, fun m hm => ?_, fun e => ?_⟩
  · obtain ⟨rs, journal, hrs, rfl⟩ := build_ok_cases hm
    exact ⟨hrs, List.forall₂_map_right_iff.2 (hrs.imp fun _ _ => Region.Follows.extent)⟩
  · rw [exists_build_error_iff hmade]
    constructor
    · rintro ⟨front, r, back, hd, hfront, hr⟩
      exact ⟨front, r, back, hd, hfront, hr.not_isValid, hr⟩
    · rintro ⟨front, r, back, hd, hfront, -, hr⟩
      exact ⟨front, r, back, hd, hfront, hr⟩

def sevenBytes : Files where
  home := []
  entries := [(["r"], #[1, 2, 3, 4, 5, 6, 7])]

def top : RegionDescription := ⟨"top", 0xFFF9, .rom "r"⟩

def late : RegionDescription := ⟨"late", 0xFFFA, .rom "r"⟩

def nothing : RegionDescription := ⟨"nothing", 0, .ram 0⟩

theorem read_sevenBytes : sevenBytes.read "r" = .ok #[1, 2, 3, 4, 5, 6, 7] := by
  have hnames : Files.names "r" = .ok ["r"] := by cbv
  exact Files.read_eq_ok_iff.2 ⟨_, hnames, rfl⟩

/-- The first region can be attached. If all are to be, the second is the reason why they cannot. -/
theorem build_exact_crowded :
    (∃ m, build sevenBytes {} { regions := [top] } = .ok () m ∧
      m.bus.extents = [⟨"top", 0xFFF9, 0xFFFF⟩]) ∧
    ∃ m, build sevenBytes {} { regions := [top, late, nothing] } =
      .error (.bus (.regionOutOfRange "late" 0xFFFA 7)) m := by
  have htop : top.HasSize sevenBytes 7 := .rom rfl read_sevenBytes
  have hvalid : top.IsValid sevenBytes := ⟨7, htop, by decide, by decide⟩
  have hwrong : late.IsWrong sevenBytes (.bus (.regionOutOfRange "late" 0xFFFA 7)) :=
    .outOfRange (.rom rfl read_sevenBytes) (by decide)
  constructor
  · obtain ⟨hok, hregions, -⟩ := build_exact sevenBytes {} { regions := [top] }
      (by simp [top, RegionDescription.CanBeMade])
    obtain ⟨m, hm⟩ := hok.2 (by simpa using hvalid)
    refine ⟨m, hm, ?_⟩
    obtain ⟨⟨name, first, last⟩, rest, he, hrest, hes⟩ :=
      List.forall₂_cons_left_iff.1 (hregions m hm).2
    obtain ⟨size, hsize, hlast⟩ := he.last
    obtain rfl := hsize.unique htop
    obtain rfl : last = 0xFFFF := UInt16.toNat_inj.1 (Nat.succ.inj hlast)
    obtain rfl : name = "top" := he.name
    obtain rfl : first = 0xFFF9 := he.first
    rw [hes, List.forall₂_nil_left_iff.1 hrest]
  · obtain ⟨-, -, herror⟩ := build_exact sevenBytes {} { regions := [top, late, nothing] }
      (by simp [top, late, nothing, RegionDescription.CanBeMade, Image.sizeLimit])
    exact (herror _).2
      ⟨[top], late, [nothing], rfl, by simpa using hvalid, hwrong.not_isValid, hwrong⟩

end Machine
end Mos6502

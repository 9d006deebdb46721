import Mos6502.Proofs.FlatView
import Mos6502.Proofs.PanicFree
import Mos6502.Proofs.Publishing

/-! What becomes of the regions of a bus while programs run on it and a host writes to it. No region
comes or goes, a ROM keeps its image, and in a RAM only those bytes can change whose addresses the
region owns. A region is told from others by its place in the list, so neither equal names nor
equal images nor overlaps matter. -/
namespace Mos6502

def Request.attaches : Request → Bool
  | .bus (.attach _ _ _) => true
  | _ => false

/-- What has become of a region, if only the bytes at some addresses can have changed. -/
structure Region.Becomes (owned : Word → Prop) (r r' : Region) : Prop where
  name : r'.name = r.name
  base : r'.base = r.base
  size : r'.size = r.size
  rom : ∀ label image, r.backend = .rom label image → r'.backend = .rom label image
  ram : ∀ image, r.backend = .ram image → ∃ image', r'.backend = .ram image' ∧
    ∀ o, image'[o]? ≠ image[o]? → owned (r.base + UInt16.ofNat o)

namespace Region.Becomes
variable {owned : Word → Prop} {r r' : Region}

theorem refl (r : Region) : r.Becomes owned r where
  name := rfl
  base := rfl
  size := rfl
  rom _ _ h := h
  ram image h := ⟨image, h, fun _ ho => absurd rfl ho⟩

theorem covers (h : r.Becomes owned r') (a : Word) : r'.covers a = r.covers a := by
  unfold Region.covers
  rw [h.base, h.size]

theorem write (h : r.Becomes owned r') {a : Word} (ha : owned a) (v : Byte) :
    r.Becomes owned (r'.write a v) where
  name := h.name
  base := h.base
  size := by rw [size_write, h.size]
  rom label image hr := by
    change r'.backend.write _ v = _
    rw [h.rom label image hr]
    rfl
  ram image hr := by
    obtain ⟨image', hr', hsame⟩ := h.ram image hr
    refine ⟨image'.setIfInBounds (r'.offset a).toNat v, ?_, fun o ho => ?_⟩
    · change r'.backend.write _ v = _
      rw [hr']
      rfl
    · by_cases hoffset : (r'.offset a).toNat = o
      · have haddress : r.base + UInt16.ofNat o = a := by
          rw [← hoffset, UInt16.ofNat_toNat, offset, h.base, UInt16.add_comm, UInt16.sub_add_cancel]
        rwa [haddress]
      · rw [Array.getElem?_setIfInBounds_ne hoffset] at ho
        exact hsame o ho

end Region.Becomes

namespace Bus

def ownerIndex? (bus : Bus) (a : Word) : Option Nat := bus.regions.findIdx? (·.covers a)

theorem owner?_eq (bus : Bus) (a : Word) :
    bus.owner? a = (bus.ownerIndex? a).bind (bus.regions[·]?) :=
  List.find?_eq_bind_findIdx?_getElem?

/-- A write goes to the region that owns the address, and to no other. -/
theorem getElem?_put (bus : Bus) (a : Word) (v : Byte) (i : Nat) :
    (bus.put a v).regions[i]? =
      bus.regions[i]?.map fun r => if bus.ownerIndex? a = some i then r.write a v else r := by
  obtain ⟨rs⟩ := bus
  unfold put ownerIndex?
  induction rs generalizing i with
  | nil => rfl
  | cons r rest ih =>
    rw [writeRegions, List.findIdx?_cons]
    cases hc : r.covers a with
    | true => cases i <;> simp
    | false =>
      cases i with
      | zero => simp
      | succ i => simpa using ih i

structure Becomes (bus bus' : Bus) : Prop where
  extents : bus'.extents = bus.extents
  region : ∀ (i : Nat) (r : Region), bus.regions[i]? = some r →
    ∃ r', bus'.regions[i]? = some r' ∧ r.Becomes (fun a => bus.ownerIndex? a = some i) r'

namespace Becomes
variable {bus bus' : Bus}

theorem refl (bus : Bus) : bus.Becomes bus := ⟨rfl, fun _ r h => ⟨r, h, .refl r⟩⟩

theorem length_eq (h : bus.Becomes bus') : bus'.regions.length = bus.regions.length := by
  simpa [Bus.extents] using congrArg List.length h.extents

theorem findIdx?_eq (h : bus.Becomes bus') {p : Region → Bool}
    (hp : ∀ (r r' : Region) owned, r.Becomes owned r' → p r' = p r) :
    bus'.regions.findIdx? p = bus.regions.findIdx? p := by
  have hmap : bus'.regions.map p = bus.regions.map p := by
    refine List.ext_getElem? fun i => ?_
    rw [List.getElem?_map, List.getElem?_map]
    cases hr : bus.regions[i]? with
    | none =>
      have hlength := h.length_eq
      rw [List.getElem?_eq_none_iff] at hr
      rw [List.getElem?_eq_none_iff.2 (by omega)]
    | some r =>
      obtain ⟨r', hr', hbecomes⟩ := h.region i r hr
      rw [hr', Option.map_some, Option.map_some, hp r r' _ hbecomes]
  simpa [List.findIdx?_map] using congrArg (List.findIdx? id) hmap

theorem ownerIndex?_eq (h : bus.Becomes bus') (a : Word) :
    bus'.ownerIndex? a = bus.ownerIndex? a :=
  h.findIdx?_eq fun _ _ _ hr => hr.covers a

theorem put (h : bus.Becomes bus') (a : Word) (v : Byte) : bus.Becomes (bus'.put a v) where
  extents := by rw [extents_put, h.extents]
  region i r hr := by
    obtain ⟨r', hr', hbecomes⟩ := h.region i r hr
    rw [getElem?_put, h.ownerIndex?_eq, hr', Option.map_some]
    by_cases ha : bus.ownerIndex? a = some i
    · exact ⟨_, by rw [if_pos ha], hbecomes.write ha v⟩
    · exact ⟨r', by rw [if_neg ha], hbecomes⟩

end Becomes

/-- The image that a dump by name shows, and what the regions have become. -/
structure KeepsImages (bus bus' : Bus) : Prop where
  extents : bus'.extents = bus.extents
  rom : ∀ (i : Nat) r label image, bus.regions[i]? = some r → r.backend = .rom label image →
    ∃ r', bus'.regions[i]? = some r' ∧ r'.backend = .rom label image
  /-- A byte of RAM that has changed is owned by its region: no earlier one covers its address. -/
  ram : ∀ (i : Nat) r image, bus.regions[i]? = some r → r.backend = .ram image →
    ∃ r' image', bus'.regions[i]? = some r' ∧ r'.backend = .ram image' ∧ image'.size = image.size ∧
      ∀ o, image'[o]? ≠ image[o]? → bus.ownerIndex? (r.base + UInt16.ofNat o) = some i
  /-- The contents under a name are those of the first region of that name, and show what is read at
  the addresses that it owns. -/
  contents : ∀ (name : String) (i : Nat) r, bus.regions.findIdx? (·.name == name) = some i →
    bus.regions[i]? = some r → ∃ image, bus'.contents? name = some image ∧ image.size = r.size ∧
      ∀ a, bus.ownerIndex? a = some i →
        ∃ v, image[a.toNat - r.base.toNat]? = some v ∧ bus'.read a = .ok v

theorem exists_contents {bus : Bus} (hp : bus.isPlain = true) {name : String} {i : Nat} {r : Region}
    (hi : bus.regions.findIdx? (·.name == name) = some i) (hr : bus.regions[i]? = some r) :
    ∃ image, bus.contents? name = some image ∧ image.size = r.size ∧
      ∀ a, bus.ownerIndex? a = some i →
        ∃ v, image[a.toNat - r.base.toNat]? = some v ∧ bus.read a = .ok v := by
  have hfirst : bus.regions.find? (·.name == name) = some r := by
    rw [List.find?_eq_bind_findIdx?_getElem?, hi]
    exact hr
  have hplain := isPlain_of_mem hp (List.mem_of_getElem? hr)
  obtain ⟨image, himage, hsize, hread⟩ : ∃ image, r.backend.image? = some image ∧
      image.size = r.size ∧ ∀ a, r.read a = image.getD (r.offset a).toNat 0 := by
    obtain ⟨name, base, backend, hpos, hfits⟩ := r
    cases backend with
    | ram image => exact ⟨image, rfl, rfl, fun _ => rfl⟩
    | rom label image => exact ⟨image, rfl, rfl, fun _ => rfl⟩
    | probe size device => exact absurd hplain Bool.noConfusion
  refine ⟨image, by rw [contents?, hfirst]; exact himage, hsize, fun a ha => ?_⟩
  have howner : bus.owner? a = some r := by rw [owner?_eq, ha]; exact hr
  have hc : r.covers a = true := by simpa using List.find?_some howner
  have hlt : a.toNat - r.base.toNat < image.size := by
    rw [hsize, ← Region.toNat_offset hc]
    exact Region.offset_lt_size hc
  refine ⟨image[a.toNat - r.base.toNat], by simp [hlt], ?_⟩
  rw [read_eq, howner]
  simp [hread, Region.toNat_offset hc, hlt]

theorem Becomes.keepsImages {bus bus' : Bus} (h : bus.Becomes bus') (hp : bus'.isPlain = true) :
    bus.KeepsImages bus' where
  extents := h.extents
  rom i r label image hr himage := by
    obtain ⟨r', hr', hbecomes⟩ := h.region i r hr
    exact ⟨r', hr', hbecomes.rom label image himage⟩
  ram i r image hr himage := by
    obtain ⟨r', hr', hbecomes⟩ := h.region i r hr
    obtain ⟨image', himage', howned⟩ := hbecomes.ram image himage
    have hsize : image'.size = image.size := by
      simpa [Region.size, Backend.size, himage, himage'] using hbecomes.size
    exact ⟨r', image', hr', himage', hsize, howned⟩
  contents name i r hi hr := by
    obtain ⟨r', hr', hbecomes⟩ := h.region i r hr
    have hi' : bus'.regions.findIdx? (·.name == name) = some i := by
      rw [h.findIdx?_eq fun r r' _ hr => by rw [hr.name], hi]
    obtain ⟨image, himage, hsize, hread⟩ := exists_contents hp hi' hr'
    refine ⟨image, himage, hsize.trans hbecomes.size, fun a ha => ?_⟩
    obtain ⟨v, hv, hok⟩ := hread a (by rw [h.ownerIndex?_eq, ha])
    exact ⟨v, by rwa [hbecomes.base] at hv, hok⟩

end Bus

namespace Machine
variable {m : Machine}

section
variable {P : Bus → Prop} (hput : ∀ bus a v, P bus → P (bus.put a v))
include hput

theorem write_bus (h : P m.bus) (a : Word) (v : Byte) :
    P (Outcome.machine (m.write a v)).bus := by
  rw [write_eq]
  split
  · exact hput _ _ _ h
  · exact h

theorem run_bus (h : P m.bus) : P (Outcome.machine m.run).bus := by
  obtain ⟨n, hn⟩ | hn := m.run_cases
  · rw [hn]
    exact runFor_bus hput n h
  · rwa [hn]

theorem answer_bus (hshutdown : ∀ bus, P bus → P bus.shutdown) (h : P m.bus) {r : Request}
    (hr : r.attaches = false) : P (m.answer r).2.bus := by
  cases r with
  | bus request =>
    rw [answer]
    cases request with
    | attach _ _ _ => exact absurd hr Bool.noConfusion
    | read a =>
      rw [serveBus, machine_reply, read]
      split <;> simpa [Outcome.machine, emitBus_eq] using h
    | write a v =>
      rw [serveBus, machine_reply]
      exact write_bus hput h a v
    | readWord a =>
      rw [serveBus, machine_reply, machine_readWord, emitBus_eq]
      exact h
    | writeWord a w =>
      have hlow := write_bus hput h a w.low
      rw [serveBus, machine_reply, writeWord]
      generalize m.write a w.low = x at hlow
      cases x with
      | ok _ next => exact write_bus hput hlow (a + 1) w.high
      | error e next => exact hlow
  | reset =>
    obtain ⟨pc, journal, ha⟩ | ⟨f, journal, ha⟩ := m.answer_reset_cases
    · simpa [ha, resetTo, emit_eq] using h
    · simpa [ha] using h
  | resetTo pc => simpa [answer, resetTo, emit_eq] using h
  | step =>
    rw [answer, machine_reply]
    exact step_bus hput h
  | runFor n =>
    rw [answer, machine_reply]
    exact runFor_bus hput n h
  | run =>
    rw [answer, machine_reply]
    exact run_bus hput h
  | receive =>
    simp only [answer, receive]
    cases m.channel <;> exact h
  | shutdown now =>
    rw [answer, bus_shutdown]
    exact hshutdown _ h
  | assign _ | attachMonitor _ | detachMonitor | raise | openChannel _ => exact h

end

theorem becomes_serveAll (hp : m.bus.isPlain = true) {rs : List Request}
    (hrs : ∀ r ∈ rs, r.attaches = false) :
    m.bus.Becomes (serveAll answer m rs).2.bus ∧ (serveAll answer m rs).2.bus.isPlain = true := by
  let P (bus : Bus) : Prop := m.bus.Becomes bus ∧ bus.isPlain = true
  have hput (bus : Bus) (a : Word) (v : Byte) (h : P bus) : P (bus.put a v) :=
    ⟨h.1.put a v, (Bus.isPlain_put bus a v).trans h.2⟩
  have hshutdown (bus : Bus) (h : P bus) : P bus.shutdown := by
    rwa [Bus.shutdown_of_isPlain h.2]
  exact (serveAll_invariant_of_mem (I := fun m : Machine => P m.bus) (P := fun _ => True)
    (fun r hr _ h => ⟨trivial, answer_bus hput hshutdown h (hrs r hr)⟩) ⟨.refl m.bus, hp⟩).2

/-- Whatever is asked of a machine on a bus of RAM and ROM, short of attaching more: its regions stay
what they are, no ROM changes, no byte of RAM that is hidden by an earlier region changes, and the
contents under every name agree with what is read. -/
theorem images_kept (hp : m.bus.isPlain = true) {rs : List Request}
    (hrs : ∀ r ∈ rs, r.attaches = false) :
    m.bus.KeepsImages (serveAll answer m rs).2.bus := by
  obtain ⟨hbecomes, hplain⟩ := becomes_serveAll hp hrs
  exact hbecomes.keepsImages hplain

/-- Three regions of one name. The first hides a byte of the second, and the second hides all of the
third. -/
def overlapping : Machine where
  registers := { pc := 0x0202, a := 7 }
  bus := ⟨[⟨"mem", 0x0202, .rom "code" #[0x8D, 0x01, 0x02], by simp [Backend.size],
      by simp [Backend.size]⟩,
    ⟨"mem", 0x0201, .ram #[1, 2], by simp [Backend.size], by simp [Backend.size]⟩,
    ⟨"mem", 0x0201, .ram #[3], by simp [Backend.size], by simp [Backend.size]⟩]⟩

set_option maxRecDepth 2000 in
/-- The program and the host write to both bytes of the second region, and one of them changes. -/
theorem images_kept_overlapping :
    let after := (serveAll answer overlapping [.step, .bus (.writeWord 0x0202 0xFFFF)]).2.bus
    overlapping.bus.isPlain = true ∧ after.extents = overlapping.bus.extents ∧
      after.regions.map (·.backend.image?) = [some #[0x8D, 0x01, 0x02], some #[7, 2], some #[3]] ∧
      ∃ image, after.contents? "mem" = some image ∧ image.size = 3 ∧
        ∃ v, image[0]? = some v ∧ after.read 0x0202 = .ok v := by
  have hrs : ∀ r ∈ ([.step, .bus (.writeWord 0x0202 0xFFFF)] : List Request),
      r.attaches = false := by decide
  have h := images_kept (m := overlapping) rfl hrs
  obtain ⟨image, himage, hsize, hread⟩ := h.contents "mem" 0 _ (by decide) rfl
  exact ⟨rfl, h.extents, rfl, image, himage, hsize, hread 0x0202 (by decide)⟩

end Machine
end Mos6502

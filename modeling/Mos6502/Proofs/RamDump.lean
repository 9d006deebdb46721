import Mathlib
import Mos6502.Proofs.CommandRuns
import Mos6502.Proofs.Descriptions

/-! Which bytes are dumped. The first region that is RAM is looked for, but only its name is handed on,
and the bytes that are found under a name are those of the first region that has it. So the dump
shows the first RAM as the run has left it, unless a ROM before it has the same name: then it
shows that ROM. -/
namespace Mos6502

/-- The first region that is RAM, and those before it. -/
structure Description.FirstRam (d : Description) (front : List RegionDescription)
    (ram : RegionDescription) (size : Nat) : Prop where
  regions : ∃ back, d.regions = front ++ ram :: back
  kind : ram.kind = .ram size
  before : ∀ r ∈ front, ∀ n, r.kind ≠ .ram n

theorem Bus.contents?_eq (bus : Bus) (name : String) :
    bus.contents? name =
      ((bus.regions.map fun r => (r.name, r.backend.image?)).find? (·.1 == name)).bind (·.2) := by
  rw [contents?, List.find?_map, Option.bind_map]
  rfl

theorem Bus.contents?_shutdown (bus : Bus) (name : String) :
    bus.shutdown.contents? name = bus.contents? name := by
  have himage (r : Region) : r.shutdown.backend.image? = r.backend.image? :=
    r.backend.image?_shutdown
  simp only [contents?_eq, shutdown, List.map_map, Function.comp_def, himage]
  rfl

/-- A list of regions can be cut where its description can be cut. -/
theorem Region.exists_follows {fs : Files} {front back : List RegionDescription}
    {d : RegionDescription} {rs : List Region}
    (h : List.Forall₂ (Region.Follows fs) (front ++ d :: back) rs) :
    ∃ first r last, rs = first ++ r :: last ∧ List.Forall₂ (Region.Follows fs) front first ∧
      r.Follows fs d := by
  induction front generalizing rs with
  | nil =>
    cases h with
    | cons hr hrest => exact ⟨[], _, _, rfl, .nil, hr⟩
  | cons f front ih =>
    cases h with
    | cons hr hrest =>
      obtain ⟨first, r, last, rfl, hfirst, hr'⟩ := ih hrest
      exact ⟨_ :: first, r, last, rfl, .cons hr hfirst, hr'⟩

theorem Region.exists_description {fs : Files} {ds : List RegionDescription} {rs : List Region}
    (h : List.Forall₂ (Region.Follows fs) ds rs) {r : Region} (hr : r ∈ rs) :
    ∃ d ∈ ds, r.Follows fs d := by
  induction h with
  | nil => exact absurd hr List.not_mem_nil
  | cons hfirst _ ih =>
    obtain rfl | hrest := List.mem_cons.1 hr
    · exact ⟨_, List.mem_cons_self, hfirst⟩
    · obtain ⟨d, hd, hfollows⟩ := ih hrest
      exact ⟨d, List.mem_cons_of_mem _ hd, hfollows⟩

theorem Region.Follows.isPlain {fs : Files} {d : RegionDescription} {r : Region}
    (h : r.Follows fs d) : r.backend.isPlain = true := by
  cases hkind : d.kind with
  | ram size => rw [h.ram size hkind]; rfl
  | rom path =>
    obtain ⟨image, -, himage⟩ := h.rom path hkind
    rw [himage]
    rfl

namespace CommandLine
variable {o : Options} {fs : Files} {lines : List String} {now : Duration}
  {d : Mos6502.Description} {m : Machine}
  {front : List RegionDescription} {ram : RegionDescription} {size : Nat}

theorem ramName?_eq (h : d.FirstRam front ram size) : Description.ramName? d = some ram.name := by
  obtain ⟨⟨back, hregions⟩, hkind, hbefore⟩ := h
  rw [Description.ramName?, List.findSome?_eq_some_iff]
  refine ⟨front, ram, back, hregions, by rw [hkind], fun r hr => ?_⟩
  cases hr' : r.kind with
  | ram n => exact absurd hr' (hbefore r hr n)
  | rom path => rfl

theorem Ready.isPlain_run (h : Ready o fs lines now d m) :
    (Machine.Outcome.machine (o.run m)).bus.isPlain = true := by
  refine run_bus (P := fun bus => bus.isPlain = true)
    (fun bus a v hbus => (Bus.isPlain_put bus a v).trans hbus) (List.all_eq_true.2 fun r hr => ?_)
  obtain ⟨d, -, hfollows⟩ := Region.exists_description h.regions hr
  exact hfollows.isPlain

/-- Under the name of a region there are bytes in the end, those of the first that has it. -/
theorem Ready.exists_contents (h : Ready o fs lines now d m) {name : String} {i : Nat}
    (hi : m.bus.regions.findIdx? (·.name == name) = some i) :
    ∃ r r' image, m.bus.regions[i]? = some r ∧
      (Machine.Outcome.machine (o.run m)).bus.regions[i]? = some r' ∧
      r.Becomes (fun a => m.bus.ownerIndex? a = some i) r' ∧ r'.backend.image? = some image ∧
      (Machine.Outcome.machine (o.run m)).bus.contents? name = some image := by
  have hplain := h.isPlain_run
  have hbecomes := becomes_run o m
  generalize (Machine.Outcome.machine (o.run m)).bus = final at hplain hbecomes ⊢
  obtain ⟨hlt, -⟩ := List.findIdx?_eq_some_iff_getElem.1 hi
  obtain ⟨r', hr', hbecame⟩ := hbecomes.region i _ (List.getElem?_eq_getElem hlt)
  have hi' : final.regions.findIdx? (·.name == name) = some i := by
    rw [hbecomes.findIdx?_eq fun r r' _ hr => by rw [hr.name], hi]
  obtain ⟨image, himage, -⟩ := Bus.exists_contents hplain hi' hr'
  have hfirst : final.contents? name = r'.backend.image? := by
    rw [Bus.contents?, List.find?_eq_bind_findIdx?_getElem?, hi', Option.bind_some, hr',
      Option.bind_some]
  exact ⟨_, r', image, List.getElem?_eq_getElem hlt, hr', hbecame, hfirst ▸ himage, himage⟩

/-- The dump of a run shows the bytes found under the name of the first RAM in the end. If no region
before that RAM has its name, these are the bytes of that RAM. Registers that are saved to the same
place are written later. -/
theorem dump_shows_ram {ramName : Option String} {started : Duration}
    (hstart : start o fs lines started = .ok ramName m) (hd : o.description fs = .ok d)
    (hram : d.FirstRam front ram size) {path : String} (hpath : o.dumpRam = some path)
    (hwritable : fs.Writable path)
    (hsave : ∀ other, o.save = some other → fs.place other ≠ fs.place path) (stopped : Duration) :
    let final := (Machine.Outcome.machine (o.run m)).bus
    ∃ image, (execute o fs lines started stopped).files.read path = .ok image ∧
      final.contents? ram.name = some image ∧
      ((∀ r ∈ front, r.name ≠ ram.name) →
        ∃ r, final.regions[front.length]? = some r ∧ r.name = ram.name ∧ r.base = ram.base ∧
          r.backend = .ram image ∧ image.size = size) := by
  intro final
  obtain ⟨d', hready, rfl⟩ := ready_of_start hstart
  obtain rfl := Except.ok.inj (hready.description.symm.trans hd)
  obtain ⟨back, hregions⟩ := hram.regions
  have hcut := hready.regions
  rw [hregions] at hcut
  obtain ⟨first, r, last, hrs, hfirst, hr⟩ := Region.exists_follows hcut
  obtain ⟨i, hi⟩ : ∃ i, m.bus.regions.findIdx? (·.name == ram.name) = some i := by
    rw [← Option.isSome_iff_exists, List.findIdx?_isSome]
    simp [hrs, hr.name]
  obtain ⟨q, q', image, hq, hq', hbecame, himage, hcontents⟩ := hready.exists_contents hi
  refine ⟨image, ?_, hcontents, fun hnames => ?_⟩
  · rw [execute, hstart]
    refine read_finish hpath hwritable hsave ?_
    rw [ramName?_eq hram, Option.bind_some, Machine.bus_shutdown, Bus.contents?_shutdown]
    exact hcontents
  · have hother : first.findIdx? (·.name == ram.name) = none := by
      refine List.findIdx?_eq_none_iff.2 fun q hq => ?_
      obtain ⟨f, hf, hfollows⟩ := Region.exists_description hfirst hq
      simpa [hfollows.name] using hnames f hf
    have hindex : i = front.length := by
      rw [hrs, List.findIdx?_append, hother, List.findIdx?_cons, hr.name, beq_self_eq_true] at hi
      simpa [hfirst.length_eq] using hi.symm
    have hram' : q = r := by
      rw [hrs, hindex, hfirst.length_eq] at hq
      simpa using hq.symm
    subst hram'
    obtain ⟨image', himage', -⟩ := hbecame.ram _ (hr.ram size hram.kind)
    obtain rfl : image' = image := by simpa [himage', Backend.image?] using himage
    have hsize : image'.size = size := by
      have := hbecame.size
      simpa [Region.size, himage', hr.ram size hram.kind, Backend.size] using this
    exact ⟨q', hindex ▸ hq', hbecame.name.trans hr.name, hbecame.base.trans hr.base, himage', hsize⟩

def withRom (name : String) : Mos6502.Description where
  regions := [⟨name, 0x10, .rom "r"⟩, ⟨"mem", 0, .ram 8⟩]
  resetVector := some 0x10

def program : Image := #[0xA9, 7, 0x85, 5, 0xA2, 5, 0xFF]

def withRomFiles (name : String) : Files where
  home := []
  entries := [(["m"], (withRom name).text.toUTF8.data), (["r"], program)]

def dumping : Options := { config := some "m", dumpRam := some "d", maxSteps := some 4 }

theorem read_withRomFiles (name : String) :
    (withRomFiles name).read "m" = .ok (withRom name).text.toUTF8.data ∧
      (withRomFiles name).read "r" = .ok program := by
  have hm : Files.names "m" = .ok ["m"] := by cbv
  have hr : Files.names "r" = .ok ["r"] := by cbv
  exact ⟨Files.read_eq_ok_iff.2 ⟨_, hm, rfl⟩, Files.read_eq_ok_iff.2 ⟨_, hr, rfl⟩⟩

theorem description_dumping (name : String) :
    dumping.description (withRomFiles name) = .ok (withRom name) := by
  have hfits : (withRom name).SizesFit := by
    simp [Description.SizesFit, withRom, RegionKind.fits, sizeLimit]
  have htext := Files.readText_of_read (read_withRomFiles name).1
  have htree := Json.Value.ofText_compactText (withRom name).isExact_toJson
  have hparse : Description.parse (withRom name).text = .ok (withRom name) :=
    Description.parse_of_tree htree hfits
  have hdirectory : Path.directory "m" = "" := by decide
  simp only [Options.description, dumping, Description.load, htext, hparse, hdirectory]
  rfl

set_option maxRecDepth 2000 in
/-- The program runs to its end, and stores the 7 in the RAM. -/
theorem run_dumping {name : String} (hname : name = "rom" ∨ name = "mem") :
    ∃ m, start dumping (withRomFiles name) [] {} = .ok (some "mem") m ∧
      result (dumping.run m) = .ok (some 5) ∧
      (Machine.Outcome.machine (dumping.run m)).bus.regions.map
          (fun r => (r.name, r.backend.image?)) =
        [(name, some program), ("mem", some #[0, 0, 0, 0, 0, 7, 0, 0])] := by
  have hdescription := description_dumping name
  have hread := (read_withRomFiles name).2
  generalize withRomFiles name = fs at hdescription hread
  simp only [start, hdescription, Machine.build, withRom, Machine.attachAll,
    Machine.attachDescribed, hread]
  obtain rfl | rfl := hname <;> exact ⟨_, rfl, rfl, rfl⟩

theorem firstRam_withRom (name : String) :
    (withRom name).FirstRam [⟨name, 0x10, .rom "r"⟩] ⟨"mem", 0, .ram 8⟩ 8 where
  regions := ⟨[], rfl⟩
  kind := rfl
  before := by simp

theorem writable_dumping (name : String) : (withRomFiles name).Writable "d" := by
  have hnames : Files.names "d" = .ok ["d"] := by cbv
  have hplace : (withRomFiles name).place "d" = ["d"] := by
    rw [Files.place, ← Files.eq_splitOn_of_names hnames]
    rfl
  have hfree : Files.entry? (withRomFiles name) ["d"] = none := rfl
  exact ⟨[], "d", hnames, rfl, by decide, by decide, by simp [hplace, hfree]⟩

theorem dump_shows_ram_withRom :
    ∃ image, (execute dumping (withRomFiles "rom") [] {} {}).files.read "d" = .ok image ∧
      image = #[0, 0, 0, 0, 0, 7, 0, 0] := by
  obtain ⟨m, hstart, -, hfinal⟩ := run_dumping (.inl rfl)
  obtain ⟨image, hread, -, hram⟩ := dump_shows_ram hstart (description_dumping "rom")
    (firstRam_withRom "rom") rfl (writable_dumping "rom") (fun _ h => nomatch h) {}
  obtain ⟨r, hr, -, -, hbackend, -⟩ := hram (by decide)
  refine ⟨image, hread, ?_⟩
  have himage := congrArg (·[1]?) hfinal
  rw [List.length_singleton] at hr
  simp only [List.getElem?_map, hr] at himage
  have hsame : r.name = "mem" ∧ image = #[0, 0, 0, 0, 0, 7, 0, 0] := by
    simpa [hbackend, Backend.image?] using himage
  exact hsame.2

/-- With a ROM of the same name the dump shows the ROM, and the RAM with the 7 in it is not written
anywhere. -/
theorem dump_shows_rom_of_same_name :
    (withRom "mem").FirstRam [⟨"mem", 0x10, .rom "r"⟩] ⟨"mem", 0, .ram 8⟩ 8 ∧
      dumping.description (withRomFiles "mem") = .ok (withRom "mem") ∧
      dumping.dumpRam = some "d" ∧ dumping.save = none ∧ (withRomFiles "mem").Writable "d" ∧
      (∃ m, start dumping (withRomFiles "mem") [] {} = .ok (some "mem") m ∧
        result (dumping.run m) = .ok (some 5) ∧
        (Machine.Outcome.machine (dumping.run m)).bus.regions.map (·.backend.image?) =
          [some program, some #[0, 0, 0, 0, 0, 7, 0, 0]]) ∧
      (execute dumping (withRomFiles "mem") [] {} {}).files.read "d" = .ok program ∧
      program ≠ #[0, 0, 0, 0, 0, 7, 0, 0] := by
  obtain ⟨m, hstart, hresult, hfinal⟩ := run_dumping (.inr rfl)
  have himages := congrArg (·.map Prod.snd) hfinal
  simp only [List.map_map] at himages
  have hcontents : (Machine.Outcome.machine (dumping.run m)).bus.contents? "mem" = some program := by
    rw [Bus.contents?_eq, hfinal]
    rfl
  refine ⟨firstRam_withRom "mem", description_dumping "mem", rfl, rfl, writable_dumping "mem",
    ⟨m, hstart, hresult, himages⟩, ?_, by decide⟩
  rw [execute, hstart]
  refine read_finish rfl (writable_dumping "mem") (fun _ h => nomatch h) ?_
  rw [Option.bind_some, Machine.bus_shutdown, Bus.contents?_shutdown]
  exact hcontents

end CommandLine
end Mos6502

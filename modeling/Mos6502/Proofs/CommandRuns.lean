import Mos6502.CommandLine.Run
import Mos6502.Proofs.FileWrites
import Mos6502.Proofs.RegionImages

/-! What a run of the command line starts from and what it leaves. A machine that is ready has the
regions of its description in their order, nothing in its exit channel, and no reason to stop; from
then on only the program changes its bus. At the end the RAM is written before the registers, so
that a write that fails leaves what was written before it. -/
namespace Mos6502

/-- Whether a region is what the description says. -/
structure Region.Follows (fs : Files) (d : RegionDescription) (r : Region) : Prop where
  name : r.name = d.name
  base : r.base = d.base
  ram : ∀ size, d.kind = .ram size → r.backend = .ram (.zeros size)
  rom : ∀ path, d.kind = .rom path → ∃ image, fs.read path = .ok image ∧ r.backend = .rom path image

namespace Machine
variable {fs : Files} {m m' : Machine}

theorem attach_ok_cases {name : String} {base : Word} {backend : Backend}
    (h : m.attach name base backend = .ok () m') :
    ∃ r journal, r.name = name ∧ r.base = base ∧ r.backend = backend ∧
      m' = { m with bus := ⟨m.bus.regions ++ [r]⟩, journal } := by
  unfold attach at h
  obtain ⟨e, -, he⟩ | ⟨r, -, hname, hbase, hbackend, hr⟩ := m.bus.attach_cases name base backend
  · simp [he] at h
  · simp only [hr, EStateM.Result.ok.injEq, true_and] at h
    rw [emit_eq] at h
    exact ⟨r, _, hname, hbase, hbackend, h.symm⟩

/-- What is attached is RAM full of zeros, or ROM with the bytes of a file. -/
theorem exists_attach_of_attachDescribed {d : RegionDescription}
    (h : m.attachDescribed fs d = .ok () m') :
    ∃ backend, m.attach d.name d.base backend = .ok () m' ∧
      (∀ size, d.kind = .ram size → backend = .ram (.zeros size)) ∧
      ∀ path, d.kind = .rom path → ∃ image, fs.read path = .ok image ∧ backend = .rom path image := by
  unfold attachDescribed at h
  cases hkind : d.kind with
  | ram size =>
    simp only [hkind] at h
    split at h
    · simp at h
    · split at h
      · simp at h
      · cases hattach : m.attach d.name d.base (.ram (.zeros size)) with
        | error e next => simp [hattach] at h
        | ok v next =>
          simp only [hattach, EStateM.Result.ok.injEq, true_and] at h
          exact ⟨_, h ▸ hattach, by simp, by simp⟩
  | rom path =>
    simp only [hkind] at h
    cases hread : fs.read path with
    | error e => simp [hread] at h
    | ok image =>
      cases hattach : m.attach d.name d.base (.rom path image) with
      | error e next => simp [hread, hattach] at h
      | ok v next =>
        simp only [hread, hattach, EStateM.Result.ok.injEq, true_and] at h
        exact ⟨_, h ▸ hattach, by simp, by simp [hread]⟩

theorem attachDescribed_ok_cases {d : RegionDescription} (h : m.attachDescribed fs d = .ok () m') :
    ∃ r journal, r.Follows fs d ∧ m' = { m with bus := ⟨m.bus.regions ++ [r]⟩, journal } := by
  obtain ⟨backend, hattach, hram, hrom⟩ := exists_attach_of_attachDescribed h
  obtain ⟨r, journal, hname, hbase, rfl, hm⟩ := attach_ok_cases hattach
  exact ⟨r, journal, ⟨hname, hbase, hram, hrom⟩, hm⟩

theorem attachAll_ok_cases {ds : List RegionDescription} (h : attachAll fs ds m = .ok () m') :
    ∃ rs journal, List.Forall₂ (Region.Follows fs) ds rs ∧
      m' = { m with bus := ⟨m.bus.regions ++ rs⟩, journal } := by
  induction ds generalizing m with
  | nil =>
    obtain ⟨-, rfl⟩ := EStateM.Result.ok.inj h
    exact ⟨[], m.journal, .nil, by simp⟩
  | cons d rest ih =>
    unfold attachAll at h
    cases hd : m.attachDescribed fs d with
    | error e next => simp [hd] at h
    | ok v next =>
      simp only [hd] at h
      obtain ⟨r, journal, hr, rfl⟩ := attachDescribed_ok_cases hd
      obtain ⟨rs, journal, hrs, rfl⟩ := ih h
      exact ⟨r :: rs, journal, .cons hr hrs, by simp⟩

theorem build_ok_cases {logging : Log.Config} {d : Description}
    (h : build fs logging d = .ok () m) :
    ∃ rs journal, List.Forall₂ (Region.Follows fs) d.regions rs ∧
      m = { logging, bus := ⟨rs⟩, journal } := by
  unfold build at h
  cases ha : attachAll fs d.regions { logging } with
  | error e next => simp [ha] at h
  | ok v next =>
    simp only [ha, EStateM.Result.ok.injEq, true_and] at h
    obtain ⟨rs, journal, hrs, rfl⟩ := attachAll_ok_cases ha
    rw [emit_eq] at h
    exact ⟨rs, _, hrs, by simpa using h.symm⟩

end Machine

namespace CommandLine
variable {o : Options} {fs : Files} {lines : List String} {now : Duration}
  {ramName : Option String} {m : Machine}

/-- A machine that is about to run: it has the regions of the description, starts where that says if it
does, and has no reason to stop. -/
structure Ready (o : Options) (fs : Files) (lines : List String) (now : Duration)
    (d : Mos6502.Description) (m : Machine) : Prop where
  description : o.description fs = .ok d
  regions : List.Forall₂ (Region.Follows fs) d.regions m.bus.regions
  machine : ∃ pc journal, (∀ a, d.resetVector = some a → pc = a) ∧
    m = o.equip lines now
      { registers := { pc, status := .atReset }, bus := m.bus, logging := o.logging, journal }

theorem reset_ok_cases {d : Mos6502.Description} {before : Machine}
    (h : Description.reset d before = .ok () m) :
    ∃ pc journal, (∀ a, d.resetVector = some a → pc = a) ∧
      m = Machine.resetTo { before with journal } pc := by
  unfold Description.reset at h
  cases hvector : d.resetVector with
  | some pc =>
    simp only [hvector, EStateM.Result.ok.injEq, true_and] at h
    exact ⟨pc, before.journal, fun a ha => Option.some.inj ha, h.symm⟩
  | none =>
    simp only [hvector] at h
    cases hr : before.reset with
    | error f next => simp [hr] at h
    | ok v next =>
      simp only [hr, EStateM.Result.ok.injEq, true_and] at h
      subst h
      have ha : before.answer .reset = (.done, next) := by
        simp only [Machine.answer, hr, Machine.Outcome.reply]
      obtain ⟨pc, journal, hpc⟩ | ⟨f, journal, hf⟩ := before.answer_reset_cases
      · exact ⟨pc, journal, by simp, (Prod.mk.inj (ha.symm.trans hpc)).2⟩
      · simp [ha] at hf

theorem ready_of_start (h : start o fs lines now = .ok ramName m) :
    ∃ d, Ready o fs lines now d m ∧ ramName = Description.ramName? d := by
  unfold start at h
  cases hd : o.description fs with
  | error failure => simp [hd] at h
  | ok d =>
    simp only [hd] at h
    cases hb : Machine.build fs o.logging d with
    | error e next => simp [hb] at h
    | ok v built =>
      simp only [hb] at h
      cases hr : Description.reset d built with
      | error failure next => simp [hr] at h
      | ok v reset =>
        simp only [hr, EStateM.Result.ok.injEq] at h
        obtain ⟨rs, journal, hrs, rfl⟩ := Machine.build_ok_cases hb
        obtain ⟨pc, journal, hpc, rfl⟩ := reset_ok_cases hr
        obtain ⟨rfl, rfl⟩ := h
        rw [Machine.resetTo, Machine.emit_eq]
        exact ⟨d, ⟨hd, hrs, pc, _, hpc, rfl⟩, rfl⟩

/-- What no write to the bus changes, no run changes. -/
theorem run_bus {P : Bus → Prop} (hput : ∀ bus a v, P bus → P (bus.put a v)) (h : P m.bus) :
    P (Machine.Outcome.machine (o.run m)).bus := by
  unfold Options.run
  cases o.maxSteps with
  | some n => exact Machine.runFor_bus hput n h
  | none => exact Machine.run_bus hput h

theorem becomes_run (o : Options) (m : Machine) :
    m.bus.Becomes (Machine.Outcome.machine (o.run m)).bus :=
  run_bus (fun _ a v h => h.put a v) (.refl m.bus)

def result : Machine.Outcome Fault (Option Byte) → Except Fault (Option Byte)
  | .ok code _ => .ok code
  | .error f _ => .error f

section
variable {ran : Machine.Outcome Fault (Option Byte)}

theorem finish_eq :
    finish o fs now ramName ran =
      let m := ran.machine.shutdown now
      let c := (Console.events {} m.journal).print (m.registers.text ++ "\n")
      match dump o (ramName.bind m.bus.contents?) c fs with
      | .error failure => .fail c fs failure
      | .ok (c, fs) =>
        match save o m.registers fs with
        | .error failure => .fail c fs failure
        | .ok fs => conclude o c fs m (result ran) := by
  cases ran <;> rfl

theorem files_conclude (c : Console) (r : Except Fault (Option Byte)) :
    (conclude o c fs m r).files = fs := by
  unfold conclude
  split <;> rfl

theorem read_save {path : String} {image : Image} {r : Registers} {fs' : Files}
    (h : fs.read path = .ok image)
    (hsave : ∀ other, o.save = some other → fs.place other ≠ fs.place path)
    (hok : save o r fs = .ok fs') : fs'.read path = .ok image := by
  unfold save at hok
  cases ho : o.save with
  | none =>
    simp only [ho, Except.ok.injEq] at hok
    rwa [← hok]
  | some other =>
    simp only [ho] at hok
    cases hw : fs.write other r.toJson.prettyText.toUTF8.data with
    | error e => simp only [hw, reduceCtorEq] at hok
    | ok written =>
      simp only [hw, Except.ok.injEq] at hok
      obtain ⟨⟨parents, name, hadmits⟩, rfl⟩ := Files.write_eq_ok_iff.1 hw
      rw [← hok]
      exact Files.read_put_of_ne hadmits.free h (hsave other ho).symm

/-- The bytes found under the name of the RAM are in the file in the end, unless the registers go to
the same place. -/
theorem read_finish {path : String} {image : Image} (hpath : o.dumpRam = some path)
    (hwritable : fs.Writable path)
    (hsave : ∀ other, o.save = some other → fs.place other ≠ fs.place path)
    (himage : ramName.bind (ran.machine.shutdown now).bus.contents? = some image) :
    (finish o fs now ramName ran).files.read path = .ok image := by
  have hread := hwritable.read_put image
  rw [finish_eq]
  simp only [himage, dump, hpath, hwritable.write_eq image]
  split
  · exact hread
  · rename_i fs' hok
    rw [files_conclude]
    exact read_save hread (by simpa using hsave) hok

end
end CommandLine
end Mos6502

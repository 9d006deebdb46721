import Mos6502.Proofs.ExitStatus
import Mos6502.Proofs.RamDump

/-! What options for watching a run can change. Tracing, breakpoints, the speedometer, log levels and
what is typed at prompts have no say in which machine is built, in what its program does, or in what
is written of it at the end. They change what is shown on the way and nothing else. -/
namespace Mos6502

namespace Machine
variable {start start' m m' : Machine} {fs : Files}

namespace Abreast
variable (h : Abreast True Eq start start' m m')
include h

theorem attachDescribed (fs : Files) (d : RegionDescription) :
    EndsAlike (Abreast True Eq start start') (m.attachDescribed fs d) (m'.attachDescribed fs d) := by
  unfold Machine.attachDescribed
  cases d.kind with
  | ram size =>
    dsimp only
    split
    · exact .error _ h
    · split
      · exact .error _ h
      · have hends := h.attach Bus.congruence_eq d.name d.base (.ram (.zeros size))
        rw [Storage.backend] at hends
        generalize m.attach d.name d.base _ = x, m'.attach d.name d.base _ = x' at hends
        cases hends with
        | ok v hnext => exact .ok () hnext
        | error e hnext => exact .error _ hnext
  | rom path =>
    dsimp only
    cases fs.read path with
    | error e => exact .error _ h
    | ok image =>
      have hends := h.attach Bus.congruence_eq d.name d.base (.rom path image)
      rw [Storage.backend] at hends
      dsimp only
      generalize m.attach d.name d.base _ = x, m'.attach d.name d.base _ = x' at hends
      cases hends with
      | ok v hnext => exact .ok () hnext
      | error e hnext => exact .error _ hnext

theorem attachAll (fs : Files) (ds : List RegionDescription) :
    EndsAlike (Abreast True Eq start start') (attachAll fs ds m) (Machine.attachAll fs ds m') := by
  induction ds generalizing m m' with
  | nil => exact .ok () h
  | cons d rest ih =>
    have hends := h.attachDescribed fs d
    unfold Machine.attachAll
    generalize m.attachDescribed fs d = x, m'.attachDescribed fs d = x' at hends
    cases hends with
    | ok v hnext => exact ih hnext
    | error e hnext => exact .error e hnext

theorem receive_eq (hchannel : start.channel = start'.channel) : m.receive.1 = m'.receive.1 := by
  obtain ⟨codes, _, _, -, hway, hway'⟩ := h.way
  rw [receive, receive, hway.channel, hway'.channel, hchannel]
  cases start'.channel <;> rfl

end Abreast

/-- How much is logged has no say in which machine is built. -/
theorem build_alike (fs : Files) (k k' : Log.Config) (d : Description) :
    EndsAlike (Beside Eq) (build fs k d) (build fs k' d) := by
  have hstart : Beside Eq { logging := k } { logging := k' } := ⟨rfl, rfl, rfl, rfl, rfl, rfl⟩
  have hends := (Abreast.refl hstart).attachAll fs d.regions
  unfold build
  generalize attachAll fs d.regions { logging := k } = x,
    attachAll fs d.regions { logging := k' } = x' at hends
  cases hends with
  | ok v hnext => exact .ok () (hnext.emitLog _ _).toBeside
  | error e hnext => exact .error e hnext.toBeside

end Machine

theorem CommandLine.Console.out_event {e : Event} (h : ∀ r i, e ≠ .prompted r i) (c : Console) :
    (c.event e).out = c.out := by
  cases e with
  | prompted r i => exact absurd rfl (h r i)
  | _ => rfl

namespace Machine

def printed (m : Machine) : String := (CommandLine.Console.events {} m.journal).out

theorem printed_emit (m : Machine) {e : Event} (h : ∀ r i, e ≠ .prompted r i) :
    (m.emit e).printed = m.printed := by
  rw [printed, printed, emit_eq, CommandLine.Console.events, Array.foldl_append]
  split
  · exact CommandLine.Console.out_event h _
  · rfl

theorem printed_emitAll (m : Machine) {es : List Event}
    (h : ∀ e ∈ es, ∀ r i, e ≠ .prompted r i) :
    (m.emitAll es).printed = m.printed := by
  induction es generalizing m with
  | nil => rfl
  | cons e rest ih =>
    rw [emitAll_cons, ih _ fun e he => h e (List.mem_cons_of_mem _ he),
      printed_emit m (h e List.mem_cons_self)]

theorem printed_emitBus (m : Machine) (ns : List BusNotice) :
    (m.emitBus ns).printed = m.printed := by
  refine m.printed_emitAll fun e he => ?_
  obtain ⟨n, -, rfl⟩ := List.mem_map.1 he
  cases n <;> simp [Event.ofBusNotice]

theorem printed_attach (m : Machine) (name : String) (base : Word) (backend : Backend) :
    (Outcome.machine (m.attach name base backend)).printed = m.printed := by
  unfold attach
  cases m.bus.attach name base backend with
  | ok bus => exact printed_emit { m with bus } (by simp)
  | error e => rfl

theorem printed_attachDescribed (fs : Files) (m : Machine) (d : RegionDescription) :
    (Outcome.machine (m.attachDescribed fs d)).printed = m.printed := by
  have hattach (backend : Backend) := m.printed_attach d.name d.base backend
  unfold attachDescribed
  cases d.kind with
  | ram size =>
    dsimp only
    split
    · rfl
    · split
      · rfl
      · rw [← hattach (.ram (.zeros size))]
        cases m.attach d.name d.base (.ram (.zeros size)) <;> rfl
  | rom path =>
    dsimp only
    cases fs.read path with
    | error e => rfl
    | ok image =>
      rw [← hattach (.rom path image)]
      dsimp only
      cases m.attach d.name d.base (.rom path image) <;> rfl

theorem printed_attachAll (fs : Files) (ds : List RegionDescription) (m : Machine) :
    (Outcome.machine (attachAll fs ds m)).printed = m.printed := by
  induction ds generalizing m with
  | nil => rfl
  | cons d rest ih =>
    have hd := m.printed_attachDescribed fs d
    unfold attachAll
    cases hattached : m.attachDescribed fs d with
    | ok v next =>
      rw [hattached] at hd
      exact (ih next).trans hd
    | error e next =>
      rw [hattached] at hd
      exact hd

theorem printed_build (fs : Files) (k : Log.Config) (d : Description) :
    (Outcome.machine (build fs k d)).printed = "" := by
  have hall := printed_attachAll fs d.regions { logging := k }
  unfold build
  cases hbuilt : attachAll fs d.regions { logging := k } with
  | ok v next =>
    rw [hbuilt] at hall
    exact (next.printed_emit (by simp)).trans hall
  | error e next =>
    rw [hbuilt] at hall
    exact hall

theorem printed_reset (m : Machine) : (Outcome.machine m.reset).printed = m.printed := by
  have hvector := (congrArg printed (m.machine_readWord resetVector)).trans (m.printed_emitBus _)
  unfold reset
  cases hread : m.readWord resetVector with
  | ok pc next =>
    rw [hread] at hvector
    exact (printed_emit _ (by simp)).trans hvector
  | error e next =>
    rw [hread] at hvector
    exact hvector

end Machine

namespace CommandLine

theorem printed_description_reset (d : Mos6502.Description) (m : Machine) :
    (Machine.Outcome.machine (Description.reset d m)).printed = m.printed := by
  have hreset := m.printed_reset
  unfold Description.reset
  cases d.resetVector with
  | some a => exact Machine.printed_emit _ (by simp)
  | none =>
    rw [← hreset]
    dsimp only
    cases m.reset <;> rfl

theorem printed_start (o : Options) (fs : Files) (lines : List String) (now : Duration) :
    (Machine.Outcome.machine (start o fs lines now)).printed = "" := by
  unfold start
  cases o.description fs with
  | error failure => rfl
  | ok d =>
    have hbuild := Machine.printed_build fs o.logging d
    dsimp only
    cases hbuilt : Machine.build fs o.logging d with
    | error e next =>
      rw [hbuilt] at hbuild
      exact hbuild
    | ok v built =>
      rw [hbuilt] at hbuild
      have hreset := (printed_description_reset d built).trans hbuild
      dsimp only
      cases hdone : Description.reset d built with
      | error failure next =>
        rw [hdone] at hreset
        exact hreset
      | ok v next =>
        rw [hdone] at hreset
        exact hreset

end CommandLine

namespace CommandLine
open Machine (Beside)

theorem reset_alike {m m' : Machine} (h : m.Beside Eq m') (d : Mos6502.Description) :
    EndsAlike (Beside Eq) (Description.reset d m) (Description.reset d m') := by
  have hstart : Machine.Abreast True Eq m m' m m' := .refl h
  unfold Description.reset
  cases d.resetVector with
  | some a => exact .ok () (hstart.resetTo a).toBeside
  | none =>
    have hends := hstart.reset Bus.congruence_eq
    dsimp only
    generalize m.reset = x, m'.reset = x' at hends
    cases hends with
    | ok v hnext => exact .ok () hnext.toBeside
    | error f hnext => exact .error _ hnext.toBeside

/-- Options that differ in what is watched and how much is told about it. -/
structure Options.SameRun (o o' : Options) : Prop where
  rom : o.rom = o'.rom
  config : o.config = o'.config
  maxSteps : o.maxSteps = o'.maxSteps
  dumpRam : o.dumpRam = o'.dumpRam
  save : o.save = o'.save

variable {o o' : Options} (h : o.SameRun o')
include h

theorem start_alike (fs : Files) (lines lines' : List String) (now now' : Duration) :
    EndsAlike (Beside Eq) (start o fs lines now) (start o' fs lines' now') := by
  have hdescription : o.description fs = o'.description fs := by
    rw [Options.description, Options.description, h.rom, h.config]
  unfold start
  rw [hdescription]
  cases o'.description fs with
  | error failure => exact .error _ ⟨rfl, rfl, rfl, rfl, rfl, rfl⟩
  | ok d =>
    have hbuild := Machine.build_alike fs o.logging o'.logging d
    dsimp only
    generalize Machine.build fs o.logging d = x, Machine.build fs o'.logging d = x' at hbuild
    cases hbuild with
    | error e hnext => exact .error _ hnext
    | @ok v built built' hnext =>
      have hreset := reset_alike hnext d
      dsimp only
      generalize Description.reset d built = x, Description.reset d built' = x' at hreset
      cases hreset with
      | error f hnext => exact .error _ hnext
      | ok v hnext => exact .ok _ { hnext with }

/-- What is watched has no say in how a run ends. -/
theorem run_alike {m m' : Machine} (hm : m.Beside Eq m') :
    EndsAlike (Machine.Abreast True Eq m m') (o.run m) (o'.run m') := by
  have hstart : Machine.Abreast True Eq m m' m m' := .refl hm
  unfold Options.run
  rw [h.maxSteps]
  cases o'.maxSteps with
  | some n => exact hstart.runFor Bus.congruence_eq n
  | none => exact hstart.run Bus.congruence_eq

omit h

/-- Two runs that end with the same status, leave the same files, and print the same registers last, if
they have come to run at all. -/
structure Result.SameEnd (r r' : Result) : Prop where
  status : r.status = r'.status
  files : r.files = r'.files
  out : (r.console.out = "" ∧ r'.console.out = "") ∨
    ∃ (registers : Registers) (before before' : String),
      r.console.out = before ++ (registers.text ++ "\n") ∧
      r'.console.out = before' ++ (registers.text ++ "\n")

theorem out_warn (o : Options) (c : Console) (text : String) : (warn o c text).out = c.out := by
  unfold warn
  split <;> rfl

theorem out_conclude (o : Options) (c : Console) (fs : Files) (m : Machine)
    (r : Except Fault (Option Byte)) : (conclude o c fs m r).console.out = c.out := by
  unfold conclude
  split
  · rfl
  · exact out_warn _ _ _
  · rfl

theorem status_conclude {m m' : Machine} (hm : m.receive.1 = m'.receive.1) (o o' : Options)
    (c c' : Console) (fs : Files) (r : Except Fault (Option Byte)) :
    (conclude o c fs m r).status = (conclude o' c' fs m' r).status := by
  unfold conclude
  split
  · rw [hm]
  · rfl
  · rfl

theorem dump_alike (hdump : o.dumpRam = o'.dumpRam) (image : Option Image) (c c' : Console)
    (fs : Files) :
    (∃ failure, dump o image c fs = .error failure ∧ dump o' image c' fs = .error failure) ∨
      ∃ next next' fs', dump o image c fs = .ok (next, fs') ∧ dump o' image c' fs = .ok (next', fs') ∧
        next.out = c.out ∧ next'.out = c'.out := by
  unfold dump
  rw [hdump]
  cases o'.dumpRam with
  | none => exact .inr ⟨c, c', fs, rfl, rfl, rfl, rfl⟩
  | some path =>
    cases image with
    | none => exact .inr ⟨_, _, fs, rfl, rfl, out_warn _ _ _, out_warn _ _ _⟩
    | some image =>
      dsimp only
      cases fs.write path image with
      | ok fs' => exact .inr ⟨c, c', fs', rfl, rfl, rfl, rfl⟩
      | error e => exact .inl ⟨_, rfl, rfl⟩

theorem result_alike {R : Machine → Machine → Prop} {ran ran' : Machine.Outcome Fault (Option Byte)}
    (h : EndsAlike R ran ran') : result ran = result ran' ∧ R ran.machine ran'.machine := by
  cases h with
  | ok code hlast => exact ⟨rfl, hlast⟩
  | error f hlast => exact ⟨rfl, hlast⟩

theorem finish_alike (h : o.SameRun o') {m m' : Machine} (hchannel : m.channel = m'.channel)
    {ran ran' : Machine.Outcome Fault (Option Byte)}
    (hran : EndsAlike (Machine.Abreast True Eq m m') ran ran') (fs : Files)
    (ramName : Option String) (now now' : Duration) :
    (finish o fs now ramName ran).SameEnd (finish o' fs now' ramName ran') := by
  obtain ⟨hresult, hlast⟩ := result_alike hran
  have hreceive : (ran.machine.shutdown now).receive.1 = (ran'.machine.shutdown now').receive.1 := by
    rw [Machine.receive_shutdown, Machine.receive_shutdown, hlast.receive_eq hchannel]
  have hregisters : (ran.machine.shutdown now).registers = (ran'.machine.shutdown now').registers := by
    rw [Machine.registers_shutdown, Machine.registers_shutdown, hlast.registers]
  have hbus : (ran.machine.shutdown now).bus = (ran'.machine.shutdown now').bus := by
    rw [Machine.bus_shutdown, Machine.bus_shutdown, hlast.bus]
  have hsave (r : Registers) (fs : Files) : save o r fs = save o' r fs := by
    rw [save, save, h.save]
  rw [finish_eq, finish_eq]
  dsimp only
  rw [hregisters, hbus, hresult]
  generalize (ran.machine.shutdown now) = last, ran'.machine.shutdown now' = last' at *
  obtain ⟨failure, hd, hd'⟩ | ⟨c, c', fs', hd, hd', hc, hc'⟩ := dump_alike h.dumpRam
    (ramName.bind last'.bus.contents?)
    ((Console.events {} last.journal).print (last'.registers.text ++ "\n"))
    ((Console.events {} last'.journal).print (last'.registers.text ++ "\n")) fs
  · rw [hd, hd']
    exact ⟨rfl, rfl, .inr ⟨last'.registers, _, _, rfl, rfl⟩⟩
  · rw [hd, hd']
    dsimp only
    rw [hsave]
    cases save o' last'.registers fs' with
    | error failure => exact ⟨rfl, rfl, .inr ⟨last'.registers, _, _, hc, hc'⟩⟩
    | ok fs'' =>
      exact ⟨status_conclude hreceive _ _ _ _ _ _,
        (files_conclude _ _).trans (files_conclude _ _).symm,
        .inr ⟨last'.registers, _, _, (out_conclude _ _ _ _ _).trans hc,
          (out_conclude _ _ _ _ _).trans hc'⟩⟩

/-- Options that differ only in what is watched and told, and what is typed at prompts, give the same
run: the same exit status and files, and the same registers in the last line, unless no run comes
about. The status is the code of the halt if the run comes to one within its steps, and that of a
failure if it comes to a fault or to the end of its steps, as long as all can be written. -/
theorem watching_options_unobservable (h : o.SameRun o') (fs : Files) (lines lines' : List String)
    (started started' stopped stopped' : Duration) :
    (execute o fs lines started stopped).SameEnd (execute o' fs lines' started' stopped') ∧
      ∀ ramName m, start o fs lines started = .ok ramName m → o.CanWrite fs →
        StatusTells o m (execute o fs lines started stopped).status := by
  refine ⟨?_, fun ramName m hstart hwritable => statusTells hstart hwritable⟩
  have hstarts := start_alike h fs lines lines' started started'
  unfold execute
  generalize hs : start o fs lines started = x, hs' : start o' fs lines' started' = x' at hstarts ⊢
  cases hstarts with
  | error failure hbeside =>
    have hprinted := printed_start o fs lines started
    have hprinted' := printed_start o' fs lines' started'
    rw [hs] at hprinted
    rw [hs'] at hprinted'
    exact ⟨rfl, rfl, .inl ⟨hprinted, hprinted'⟩⟩
  | ok ramName hbeside =>
    obtain ⟨d, hready, -⟩ := ready_of_start hs
    obtain ⟨d', hready', -⟩ := ready_of_start hs'
    have hchannel := hready.goesOn.2.trans hready'.goesOn.2.symm
    exact finish_alike h hchannel (run_alike h hbeside) fs ramName stopped stopped'

set_option maxRecDepth 2000 in
theorem path_dumping :
    ∃ m past before i after, start dumping (withRomFiles "rom") [] {} = .ok (some "mem") m ∧
      m.Path past before ∧ past.map (·.2.mnemonic) = [.lda, .sta, .ldx] ∧
      before.Does i after ∧ i.mnemonic = .halt ∧ before.registers.x = 5 := by
  have hdescription := description_dumping "rom"
  have hread := (read_withRomFiles "rom").2
  generalize withRomFiles "rom" = fs at hdescription hread
  simp only [start, hdescription, Machine.build, withRom, Machine.attachAll,
    Machine.attachDescribed, hread]
  exact ⟨_, _, _, _, _, rfl, .snoc (.snoc (.snoc .refl ⟨rfl, rfl⟩) ⟨rfl, rfl⟩) ⟨rfl, rfl⟩, rfl,
    ⟨rfl, rfl⟩, rfl, rfl⟩

def watched : Options :=
  { dumping with trace := true, speedometer := true, breakOn := [.sta], logLevel := .trace }

theorem watching_options_unobservable_dumping :
    (execute dumping (withRomFiles "rom") [] {} {}).SameEnd
        (execute watched (withRomFiles "rom") ["s", "c"] {} {}) ∧
      (execute dumping (withRomFiles "rom") [] {} {}).status = 5 := by
  have hwritable : dumping.CanWrite (withRomFiles "rom") := by
    rintro path (hpath | hpath)
    · obtain rfl := Option.some.inj hpath
      exact writable_dumping "rom"
    · exact nomatch hpath
  have halike : dumping.SameRun watched := ⟨rfl, rfl, rfl, rfl, rfl⟩
  obtain ⟨hsame, hstatus⟩ :=
    watching_options_unobservable halike (withRomFiles "rom") [] ["s", "c"] {} {} {} {}
  obtain ⟨m, past, before, i, after, hstart, hpath, hpast, hdoes, hi, hx⟩ := path_dumping
  have hlength : past.length = 3 := by
    simpa using congrArg List.length hpast
  have hnone (s : Machine × Instruction) (hs : s ∈ past) : s.2.mnemonic ≠ .halt := by
    have hmem : s.2.mnemonic ∈ past.map (·.2.mnemonic) := List.mem_map_of_mem hs
    intro hhalt
    simp [hpast, hhalt] at hmem
  have hallows : dumping.Allows past.length := by
    intro limit hlimit
    obtain rfl := Option.some.inj hlimit
    omega
  exact ⟨hsame, ((hstatus _ m hstart hwritable).halted hpath hnone hdoes hi hallows).trans hx⟩

end CommandLine
end Mos6502

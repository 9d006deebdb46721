import Mos6502.Proofs.CommandRuns

/-! How the end of a run shows in the exit status. A run goes through instructions that succeed, and then
halts, faults, or has used up its steps. A halt offers its code on the exit channel, which has room
for it, so the status is that code. The other two offer nothing, and the status is that of a
failure. -/
namespace Mos6502

namespace Machine
variable {m before after : Machine} {past : List (Machine × Instruction)} {n : Nat}

/-- A machine without a reason to stop. -/
structure GoesOn (m : Machine) : Prop where
  exitCode : m.exitCode = none
  interrupted : m.interrupted = false

namespace GoesOn

theorem poll_eq (h : m.GoesOn) : m.poll = (none, m) := by
  rw [poll, h.exitCode, h.interrupted]
  rfl

/-- Only a halt gives a machine a reason to stop. -/
theorem of_does (h : m.GoesOn) {i : Instruction} (hdoes : m.Does i after) (hi : i.mnemonic ≠ .halt) :
    after.GoesOn := by
  obtain ⟨j, c, hd, -, -, rfl⟩ := step_ok_cases hdoes.stepped
  obtain rfl := Except.ok.inj (hd.symm.trans hdoes.decoded)
  have haction : j.mnemonic.action ≠ .halt := by
    cases hm : j.mnemonic <;> simp_all [Mnemonic.action]
  obtain ⟨channel, journal, hfinish⟩ := m.finish_eq j c
  rw [hfinish, if_neg haction]
  exact ⟨h.exitCode, h.interrupted⟩

theorem runFor_path (h : m.GoesOn) (hpath : m.Path past before)
    (hpast : ∀ s ∈ past, s.2.mnemonic ≠ .halt) :
    before.GoesOn ∧ runFor past.length m = .ok none before := by
  induction hpath with
  | refl => exact ⟨h, runFor_zero_of_poll_none h.poll_eq⟩
  | @snoc past between last i _ hdoes ih =>
    obtain ⟨hbetween, hrun⟩ := ih fun s hs => hpast s (List.mem_append_left _ hs)
    have hlast : last.GoesOn :=
      hbetween.of_does hdoes (hpast (between, i) (List.mem_append_right _ List.mem_cons_self))
    refine ⟨hlast, ?_⟩
    rw [List.length_append, List.length_singleton, runFor_cut, hrun]
    dsimp only
    rw [runFor_succ_of_poll_none hbetween.poll_eq, hdoes.stepped]
    exact runFor_zero_of_poll_none hlast.poll_eq

/-- What the next step ends the run with, it ends with, if there is a next step. -/
theorem runFor_of_path (h : m.GoesOn) (hpath : m.Path past before)
    (hpast : ∀ s ∈ past, s.2.mnemonic ≠ .halt) (ended : Outcome Fault Byte)
    (hnext : runFor 1 before = ended.stopped) (hn : past.length < n) :
    runFor n m = ended.stopped := by
  obtain ⟨-, hrun⟩ := h.runFor_path hpath hpast
  refine runFor_mono (n := past.length + 1) ?_ hn
  rw [runFor_cut, hrun]
  exact hnext

end GoesOn

theorem runFor_one_of_halt (h : m.GoesOn) {i : Instruction} (hdoes : m.Does i after)
    (hi : i.mnemonic = .halt) : runFor 1 m = .ok (some m.registers.x) after := by
  have hcode : after.exitCode = some m.registers.x := by
    obtain ⟨j, c, hd, hx, -, rfl⟩ := step_ok_cases hdoes.stepped
    obtain rfl := Except.ok.inj (hd.symm.trans hdoes.decoded)
    have haction : j.mnemonic.action = .halt := by rw [hi]; rfl
    obtain ⟨channel, journal, hfinish⟩ := m.finish_eq j c
    rw [Exec.run, haction] at hx
    obtain ⟨-, rfl⟩ := EStateM.Result.ok.inj hx
    rw [hfinish, if_pos haction]
    rfl
  rw [runFor_succ_of_poll_none h.poll_eq, hdoes.stepped]
  exact runFor_of_exitCode hcode 0

theorem runFor_one_of_fault (h : m.GoesOn) {f : Fault} (hs : m.step = .error f after) :
    runFor 1 m = .error f after := by
  rw [runFor_succ_of_poll_none h.poll_eq, hs]

theorem shutdown_eq (m : Machine) (now : Duration) :
    ∃ journal, m.shutdown now = { m with bus := m.bus.shutdown, journal } := by
  obtain ⟨es, -, hm⟩ := m.exists_shutdown now
  rw [hm, emitAll_eq, emitBus_eq]
  exact ⟨_, rfl⟩

theorem registers_shutdown (m : Machine) (now : Duration) :
    (m.shutdown now).registers = m.registers := by
  obtain ⟨journal, hm⟩ := m.shutdown_eq now
  rw [hm]

theorem receive_shutdown (m : Machine) (now : Duration) :
    (m.shutdown now).receive.1 = m.receive.1 := by
  obtain ⟨journal, hm⟩ := m.shutdown_eq now
  rw [hm]
  unfold receive
  cases m.channel <;> rfl

theorem receive_of_runFor (h : m.GoesOn) (hchannel : m.channel = some { capacity := 1 })
    {code : Byte} (hrun : runFor n m = .ok (some code) after) : after.receive.1 = some code := by
  obtain ⟨codes, hpublishes⟩ := exists_publishes_runFor n m
  rw [hrun] at hpublishes
  have hcode : codes.getLast? = some code := by
    have := hpublishes.exitCode.symm.trans (exitCode_of_runFor hrun)
    rwa [h.exitCode, Option.or_none] at this
  obtain ⟨front, rfl⟩ := List.getLast?_eq_some_iff.1 hcode
  have hfront : front = [] := by
    have := hpublishes.length_le
    rw [List.length_append, List.length_singleton] at this
    exact List.length_eq_zero_iff.1 (by omega)
  have hafter : after.channel = some { capacity := 1, queue := [code] } := by
    have := hpublishes.channel
    rw [hchannel, hfront] at this
    exact this
  rw [receive, hafter]
  rfl

end Machine

namespace CommandLine
variable {o : Options} {fs : Files} {lines : List String} {now stopped : Duration}
  {ramName : Option String} {m before after : Machine} {past : List (Machine × Instruction)}

/-- Whether all files can be written that a run is to write. -/
def Options.CanWrite (o : Options) (fs : Files) : Prop :=
  ∀ path, o.dumpRam = some path ∨ o.save = some path → fs.Writable path

/-- Whether the options allow another step after so many. -/
def Options.Allows (o : Options) (n : Nat) : Prop := ∀ limit, o.maxSteps = some limit → n < limit

theorem Ready.goesOn {d : Mos6502.Description} (h : Ready o fs lines now d m) :
    m.GoesOn ∧ m.channel = some { capacity := 1 } := by
  obtain ⟨pc, journal, -, hm⟩ := h.machine
  rw [hm]
  exact ⟨⟨rfl, rfl⟩, rfl⟩

theorem exists_save (r : Registers) (h : ∀ path, o.save = some path → fs.Writable path) :
    ∃ fs', save o r fs = .ok fs' := by
  unfold save
  cases hsave : o.save with
  | none => exact ⟨fs, rfl⟩
  | some path =>
    simp only [(h path hsave).write_eq]
    exact ⟨_, rfl⟩

theorem exists_dump (image : Option Image) (c : Console) (h : o.CanWrite fs) :
    ∃ c' fs', dump o image c fs = .ok (c', fs') ∧
      ∀ path, o.save = some path → fs'.Writable path := by
  have hsaves (path : String) (hpath : o.save = some path) := h path (.inr hpath)
  unfold dump
  cases hdump : o.dumpRam with
  | none => exact ⟨c, fs, rfl, hsaves⟩
  | some path =>
    cases image with
    | none => exact ⟨_, fs, rfl, hsaves⟩
    | some image =>
      have hpath := h path (.inl hdump)
      simp only [hpath.write_eq]
      exact ⟨_, _, rfl, fun other hother => (hsaves other hother).put hpath⟩

/-- If all files can be written, nothing comes before the end of the run. -/
theorem finish_eq_conclude (h : o.CanWrite fs) (now : Duration) (ramName : Option String)
    (ran : Machine.Outcome Fault (Option Byte)) :
    ∃ c fs', finish o fs now ramName ran =
      conclude o c fs' (ran.machine.shutdown now) (result ran) := by
  rw [finish_eq]
  dsimp only
  obtain ⟨c, fs', hdump, hsaves⟩ := exists_dump (ramName.bind (ran.machine.shutdown now).bus.contents?)
    ((Console.events {} (ran.machine.shutdown now).journal).print
      ((ran.machine.shutdown now).registers.text ++ "\n")) h
  obtain ⟨fs'', hsave⟩ := exists_save (ran.machine.shutdown now).registers hsaves
  rw [hdump]
  dsimp only
  rw [hsave]
  exact ⟨c, fs'', rfl⟩

theorem run_eq_stopped {ended : Machine.Outcome Fault Byte} {n : Nat} (hn : o.Allows n)
    (h : ∀ k, n < k → Machine.runFor k m = ended.stopped) : o.run m = ended.stopped := by
  unfold Options.run
  cases hmax : o.maxSteps with
  | some limit => exact h limit (hn limit hmax)
  | none => exact Machine.run_eq_stopped_iff.2 (Machine.run?_of_runFor (h (n + 1) (Nat.lt_succ_self n)))

/-- What the exit status is: the code of the halt, or that of a failure. -/
structure StatusTells (o : Options) (m : Machine) (status : Byte) : Prop where
  halted : ∀ {past before i after}, m.Path past before → (∀ s ∈ past, s.2.mnemonic ≠ .halt) →
    before.Does i after → i.mnemonic = .halt → o.Allows past.length → status = before.registers.x
  faulted : ∀ {past before f after}, m.Path past before → (∀ s ∈ past, s.2.mnemonic ≠ .halt) →
    before.step = .error f after → o.Allows past.length → status = failureStatus
  exhausted : ∀ {past before}, m.Path past before → (∀ s ∈ past, s.2.mnemonic ≠ .halt) →
    o.maxSteps = some past.length → status = failureStatus

theorem statusTells (hstart : start o fs lines now = .ok ramName m) (h : o.CanWrite fs) :
    StatusTells o m (execute o fs lines now stopped).status := by
  obtain ⟨d, hready, -⟩ := ready_of_start hstart
  obtain ⟨hgoes, hchannel⟩ := hready.goesOn
  have hexecute : execute o fs lines now stopped = finish o fs stopped ramName (o.run m) := by
    rw [execute, hstart]
  obtain ⟨c, fs', hfinish⟩ := finish_eq_conclude h stopped ramName (o.run m)
  rw [hexecute, hfinish]
  constructor
  · intro past before i after hpath hpast hdoes hi hallows
    obtain ⟨hbefore, -⟩ := hgoes.runFor_path hpath hpast
    have hone := Machine.runFor_one_of_halt hbefore hdoes hi
    have hall (k : Nat) (hk : past.length < k) :=
      hgoes.runFor_of_path hpath hpast (.ok before.registers.x after) hone hk
    rw [run_eq_stopped hallows hall]
    change ((after.shutdown stopped).receive.1.getD before.registers.x) = _
    rw [Machine.receive_shutdown, Machine.receive_of_runFor hgoes hchannel (hall _ (Nat.lt_succ_self _))]
    rfl
  · intro past before f after hpath hpast hs hallows
    obtain ⟨hbefore, -⟩ := hgoes.runFor_path hpath hpast
    have hone := Machine.runFor_one_of_fault hbefore hs
    have hall (k : Nat) (hk : past.length < k) :=
      hgoes.runFor_of_path hpath hpast (.error f after) hone hk
    rw [run_eq_stopped hallows hall]
    rfl
  · intro past before hpath hpast hmax
    have hrun : o.run m = .ok none before := by
      rw [Options.run, hmax]
      exact (hgoes.runFor_path hpath hpast).2
    rw [hrun]
    rfl

end CommandLine
end Mos6502

import Mathlib.Algebra.Order.BigOperators.Group.List
import Mathlib.Algebra.Order.Ring.Nat
import Mos6502.Proofs.MonitorChains
import Mos6502.Proofs.StatusBits

/-! Accounts of what has been carried out. The machine keeps two counters behind the instructions that
succeed, a speedometer keeps two before the instructions that are tried. They differ by the
instructions that trap. What cannot be decoded counts in neither. -/
namespace Mos6502

theorem Opcode.cycles_of_mem {o : Opcode} (h : o ∈ table) : 1 ≤ o.cycles ∧ o.cycles ≤ 7 := by
  revert o
  decide +kernel

theorem Instruction.cycles_of_decode {bus : Bus} {pc : Word} {i : Instruction}
    (h : decode bus pc = .ok i) : 1 ≤ i.cycles ∧ i.cycles ≤ 7 := by
  obtain ⟨-, -, ho, -⟩ := of_decode h
  exact Opcode.cycles_of_mem (Opcode.mem_table_of_lookup ho).1

/-- The base cycles of the instruction that is about to run. -/
def Signal.cycles? : Signal → Option Nat
  | .about o => some o.instruction.cycles
  | .ended _ => none

namespace Speedometer

def countAll (s : Speedometer) (counted : List Nat) : Speedometer := counted.foldl count s

theorem countAll_eq (s : Speedometer) (counted : List Nat) :
    s.countAll counted =
      { s with
        instructions := s.instructions + counted.length
        cycles := s.cycles + counted.sum } := by
  induction counted generalizing s with
  | nil => rfl
  | cons n rest ih =>
    have hfirst : s.countAll (n :: rest) = (s.count n).countAll rest := rfl
    rw [hfirst, ih, List.length_cons, List.sum_cons, Nat.add_comm rest.length, ← Nat.add_assoc,
      ← Nat.add_assoc]
    rfl

end Speedometer

namespace Monitor

def asSpeedometer? : Monitor → Option Speedometer
  | .speedometer s => some s
  | _ => none

/-- All the speedometers in a monitor, in chains within chains too. -/
def speedometers (w : Monitor) : List Speedometer := w.leaves.filterMap asSpeedometer?

theorem asSpeedometer?_told (w : Monitor) (signal : Option Signal) :
    (w.told signal).2.asSpeedometer? =
      w.asSpeedometer?.map (·.countAll (signal.bind Signal.cycles?).toList) := by
  obtain _ | o | now := signal
  · cases w <;> rfl
  · cases w with
    | tracer sink => cases sink <;> rfl
    | _ => rfl
  · cases w <;> rfl

theorem speedometers_told (w : Monitor) (signal : Option Signal) :
    (w.told signal).2.speedometers =
      w.speedometers.map (·.countAll (signal.bind Signal.cycles?).toList) := by
  have hleaves := (w.toldByLeaves signal).leaves
  have hone : asSpeedometer? ∘ (fun leaf : Monitor => (leaf.told signal).2) = fun leaf : Monitor =>
      leaf.asSpeedometer?.map (·.countAll (signal.bind Signal.cycles?).toList) :=
    funext fun leaf => leaf.asSpeedometer?_told signal
  rw [speedometers, hleaves, List.filterMap_map, hone, speedometers, List.map_filterMap]

theorem speedometers_toldAll (w : Monitor) (signals : List (Option Signal)) :
    (w.toldAll signals).speedometers =
      w.speedometers.map (·.countAll (signals.filterMap (·.bind Signal.cycles?))) := by
  induction signals generalizing w with
  | nil => simp [Speedometer.countAll]
  | cons signal rest ih =>
    rw [toldAll_cons, ih, speedometers_told, List.map_map]
    refine congrArg (w.speedometers.map ·) (funext fun s => ?_)
    cases hsignal : signal.bind Signal.cycles? with
    | none => simp [hsignal, Speedometer.countAll]
    | some n => simp [hsignal, Speedometer.countAll]

end Monitor

namespace Machine

theorem counters_poll (m : Machine) :
    m.poll.2.cycles = m.cycles ∧ m.poll.2.instructions = m.instructions := by
  obtain ⟨code, -, hp⟩ | ⟨-, -, hp⟩ | ⟨-, -, hp⟩ := m.poll_cases <;>
    simp [hp, serve, publish, emit_eq]

theorem counters_step (m : Machine) :
    match m.step with
    | .ok n next => next.cycles = m.cycles + n ∧ next.instructions = m.instructions + 1
    | .error _ next => next.cycles = m.cycles ∧ next.instructions = m.instructions := by
  cases hs : m.step with
  | ok n next =>
    obtain ⟨i, c, -, -, rfl, rfl⟩ := step_ok_cases hs
    obtain ⟨channel, journal, hm⟩ := m.finish_eq i c
    rw [hm]
    exact ⟨rfl, rfl⟩
  | error f next =>
    obtain ⟨-, rfl⟩ | ⟨i, t, c, -, -, -, rfl⟩ := step_error_cases hs
    · simp [emitBus_eq]
    · simp [settle_eq, ready]

theorem counters_answer (m : Machine) {r : Request} (hr : r.runs = false)
    (hstep : Request.step ≠ r) :
    (m.answer r).2.cycles = m.cycles ∧ (m.answer r).2.instructions = m.instructions := by
  have houtside := m.exists_answer_of_leavesProcessor (r := r)
  cases r with
  | reset =>
    obtain ⟨pc, journal, ha⟩ | ⟨f, journal, ha⟩ := m.answer_reset_cases <;>
      simp [ha, resetTo, emit_eq]
  | resetTo pc => simp [answer, resetTo, emit_eq]
  | assign _ | raise => exact ⟨rfl, rfl⟩
  | step => exact absurd rfl hstep
  | run | runFor _ => exact absurd hr Bool.noConfusion
  | _ =>
    obtain ⟨_, _, _, _, hm⟩ := houtside rfl
    rw [hm]
    exact ⟨rfl, rfl⟩

end Machine

namespace Moment

/-- What a step that succeeds has returned. -/
def executed? (v : Moment) : Option Nat :=
  if v.steps then
    match v.before.machine.step with
    | .ok n _ => some n
    | .error _ _ => none
  else none

/-- The base cycles of an instruction that has been decoded and has trapped. -/
def trapped? (v : Moment) : Option Nat :=
  if v.steps then
    match Instruction.decode v.before.machine.bus v.before.machine.registers.pc,
      v.before.machine.step with
    | .ok i, .error _ _ => some i.cycles
    | _, _ => none
  else none

def announced? (v : Moment) : Option Nat := v.signal?.bind Signal.cycles?

variable {v : Moment}

theorem signal?_of_steps (h : v.steps = true) :
    v.signal? = v.before.machine.aboutToRun?.map .about := by
  obtain ⟨⟨m, phase⟩, r | _⟩ := v
  · cases r with
    | step =>
      have hidle : phase.isIdle = true := h
      simp only [signal?, hidle]
      rfl
    | _ => exact absurd h Bool.noConfusion
  · have hstepping : phase.isStepping = true := h
    simp only [signal?, hstepping]
    rfl

theorem announced?_of_not_steps (h : v.steps = false) : v.announced? = none := by
  obtain ⟨⟨m, phase⟩, r | _⟩ := v
  · cases r with
    | step =>
      have hidle : phase.isIdle = false := h
      simp [announced?, signal?, hidle]
    | _ => cases phase <;> rfl
  · have hstepping : phase.isStepping = false := h
    simp [announced?, signal?, hstepping]

/-- The monitor is told of what is carried out and of what traps. -/
theorem announced?_eq (v : Moment) :
    v.announced?.toList = v.executed?.toList ++ v.trapped?.toList := by
  cases hsteps : v.steps with
  | false => simp [announced?_of_not_steps hsteps, executed?, trapped?, hsteps]
  | true =>
    simp only [announced?, signal?_of_steps hsteps, executed?, trapped?, hsteps,
      Machine.aboutToRun?]
    cases hs : v.before.machine.step with
    | ok n next =>
      obtain ⟨i, c, hd, -, rfl, -⟩ := Machine.step_ok_cases hs
      simp [hd, Signal.cycles?, Machine.observation]
    | error f next =>
      cases Instruction.decode v.before.machine.bus v.before.machine.registers.pc <;>
        simp [Signal.cycles?, Machine.observation]

theorem executed?_bounds {n : Nat} (h : v.executed? = some n) : 1 ≤ n ∧ n ≤ 7 := by
  unfold executed? at h
  split at h
  · cases hs : v.before.machine.step with
    | ok k next =>
      obtain ⟨i, c, hd, -, rfl, -⟩ := Machine.step_ok_cases hs
      obtain rfl : i.cycles = n := by simpa [hs] using h
      exact Instruction.cycles_of_decode hd
    | error f next => simp [hs] at h
  · simp at h

theorem uncounted_of_decode {f : Fault}
    (h : Instruction.decode v.before.machine.bus v.before.machine.registers.pc = .error f) :
    v.executed? = none ∧ v.trapped? = none := by
  constructor
  · unfold executed?
    cases hs : v.before.machine.step with
    | ok n next =>
      obtain ⟨i, c, hd, -, -, -⟩ := Machine.step_ok_cases hs
      exact absurd (hd.symm.trans h) nofun
    | error g next => simp
  · simp [trapped?, h]

/-- All that a move can do to the machine that is no step. -/
theorem machine_after_of_not_steps (h : v.steps = false) :
    v.after.machine = v.before.machine ∨ v.after.machine = v.before.machine.poll.2 ∨
      ∃ r : Request, r.runs = false ∧ Request.step ≠ r ∧
        v.after.machine = (v.before.machine.answer r).2 := by
  obtain ⟨⟨m, phase⟩, r | _⟩ := v
  · cases hraises : r.raises with
    | true =>
      obtain rfl := Request.eq_raise hraises
      exact .inr (.inr ⟨.raise, rfl, nofun, rfl⟩)
    | false =>
      cases phase with
      | idle =>
        rw [after, Session.make_ask_of_idle]
        cases hruns : r.runs with
        | true =>
          cases r with
          | run | runFor _ => exact .inl rfl
          | _ => exact absurd hruns Bool.noConfusion
        | false =>
          have hstep : Request.step ≠ r := by
            rintro rfl
            exact absurd h Bool.noConfusion
          rw [Session.start_eq_of_not_runs m hruns]
          exact .inr (.inr ⟨r, hruns, hstep, rfl⟩)
      | _ => exact .inl (by simp [after, Session.make, hraises, Phase.isIdle])
  · cases phase with
    | idle => exact .inl rfl
    | checking limit => exact .inr (.inl (Session.machine_proceed_checking m limit))
    | stepping limit => exact absurd h Bool.noConfusion

theorem counters_after (v : Moment) :
    v.after.machine.cycles = v.before.machine.cycles + v.executed?.toList.sum ∧
      v.after.machine.instructions = v.before.machine.instructions + v.executed?.toList.length := by
  cases hsteps : v.steps with
  | true =>
    have hstep := v.before.machine.counters_step
    rw [machine_after_of_steps hsteps, executed?, if_pos hsteps]
    cases hs : v.before.machine.step with
    | ok n next => simpa [hs, Machine.Outcome.machine] using hstep
    | error f next => simpa [hs, Machine.Outcome.machine] using hstep
  | false =>
    have hnone : v.executed? = none := by simp [executed?, hsteps]
    rw [hnone]
    obtain hm | hm | ⟨r, hruns, hstep, hm⟩ := machine_after_of_not_steps hsteps
    · rw [hm]
      exact ⟨rfl, rfl⟩
    · rw [hm]
      exact v.before.machine.counters_poll
    · rw [hm]
      exact v.before.machine.counters_answer hruns hstep

end Moment

namespace Session

theorem counters_followedBy (s : Session) (moves : List Move) :
    (s.followedBy moves).machine.cycles =
      s.machine.cycles + ((s.history moves).filterMap (·.executed?)).sum ∧
    (s.followedBy moves).machine.instructions =
      s.machine.instructions + ((s.history moves).filterMap (·.executed?)).length := by
  induction moves generalizing s with
  | nil => exact ⟨rfl, rfl⟩
  | cons move rest ih =>
    obtain ⟨hcycles, hinstructions⟩ := Moment.counters_after ⟨s, move⟩
    obtain ⟨hrestCycles, hrestInstructions⟩ := ih (Moment.after ⟨s, move⟩)
    rw [followedBy_cons, history_cons, hrestCycles, hrestInstructions, hcycles, hinstructions]
    cases h : Moment.executed? ⟨s, move⟩ with
    | none => simp [h]
    | some n => simp [h]; omega

/-- The instructions that the monitor is told of are those carried out and those that trap. -/
theorem announced_perm (h : List Moment) :
    (h.filterMap (·.announced?)).Perm (h.filterMap (·.executed?) ++ h.filterMap (·.trapped?)) := by
  simp only [List.filterMap_eq_flatMap_toList, Moment.announced?_eq]
  exact (List.flatMap_append_perm h _ _).symm

theorem executed_history_bounds (s : Session) (moves : List Move) :
    let executed := (s.history moves).filterMap (·.executed?)
    executed.length ≤ executed.sum ∧ executed.sum ≤ 7 * executed.length := by
  intro executed
  have hbounds : ∀ n ∈ executed, 1 ≤ n ∧ n ≤ 7 := by
    intro n hn
    obtain ⟨v, -, hv⟩ := List.mem_filterMap.1 hn
    exact Moment.executed?_bounds hv
  have hleast := executed.card_nsmul_le_sum 1 fun n hn => (hbounds n hn).1
  have hmost := executed.sum_le_card_nsmul 7 fun n hn => (hbounds n hn).2
  simp only [Nat.nsmul_eq_mul] at hleast hmost
  omega

theorem exists_speedometers_followedBy (s : Session) {moves : List Move}
    (hkeeps : ∀ move ∈ moves, move.keepsMonitor = true) {w : Monitor}
    (hw : s.machine.monitor = some w) :
    ∃ w', (s.followedBy moves).machine.monitor = some w' ∧
      w'.speedometers =
        w.speedometers.map (·.countAll ((s.history moves).filterMap (·.announced?))) := by
  refine ⟨w.toldAll ((s.history moves).map (·.signal?)), ?_, ?_⟩
  · rw [s.monitor_followedBy hkeeps, hw]
    rfl
  · rw [Monitor.speedometers_toldAll, List.filterMap_map]
    rfl

/-- Requests that are served as a whole are served in a session too. A run without a bound is left out:
it need not end. -/
theorem exists_followedBy_requests (m : Machine) {rs : List Request}
    (hrs : ∀ r ∈ rs, r.keepsMonitor = true ∧ r ≠ .run) :
    ∃ moves : List Move, (∀ move ∈ moves, move.keepsMonitor = true) ∧
      followedBy ⟨m, .idle⟩ moves = ⟨(serveAll Machine.answer m rs).2, .idle⟩ := by
  induction rs generalizing m with
  | nil => exact ⟨[], nofun, rfl⟩
  | cons r rest ih =>
    obtain ⟨⟨hkeeps, hrun⟩, hrest⟩ := List.forall_mem_cons.1 hrs
    obtain ⟨k, hk⟩ := exists_followedBy_ask (m := m) (r := r) fun h => absurd h hrun
    obtain ⟨moves, hmoves, hend⟩ := ih (m.answer r).2 hrest
    have hproceed : ∀ move ∈ List.replicate k Move.proceed, move.keepsMonitor = true := by
      intro move hmove
      rw [List.eq_of_mem_replicate hmove]
      rfl
    refine ⟨.ask r :: .replicate k .proceed ++ moves, ?_, ?_⟩
    · exact List.forall_mem_append.2 ⟨List.forall_mem_cons.2 ⟨hkeeps, hproceed⟩, hmoves⟩
    · rw [followedBy_append, hk]
      exact hend

/-- How the counters of the machine and the one speedometer that watches it stand after moves that have
begun with all of them at zero. -/
structure Accounts (s : Session) (moves : List Move) : Prop where
  instructions : (s.followedBy moves).machine.instructions =
    ((s.history moves).filterMap (·.executed?)).length
  cycles : (s.followedBy moves).machine.cycles = ((s.history moves).filterMap (·.executed?)).sum
  least : (s.followedBy moves).machine.instructions ≤ (s.followedBy moves).machine.cycles
  most : (s.followedBy moves).machine.cycles ≤ 7 * (s.followedBy moves).machine.instructions
  /-- The speedometer counts the instructions that trap as well. -/
  speedometer : ∃ w t, (s.followedBy moves).machine.monitor = some w ∧ w.speedometers = [t] ∧
    t.instructions = (s.followedBy moves).machine.instructions +
      ((s.history moves).filterMap (·.trapped?)).length ∧
    t.cycles = (s.followedBy moves).machine.cycles +
      ((s.history moves).filterMap (·.trapped?)).sum
  undecoded : ∀ v ∈ s.history moves, ∀ f,
    Instruction.decode v.before.machine.bus v.before.machine.registers.pc = .error f →
    v.executed? = none ∧ v.trapped? = none

end Session

namespace Machine

/-- Nothing has been carried out yet, and the monitor has exactly one speedometer in it, which has
counted nothing yet. -/
structure FreshlyMetered (m : Machine) : Prop where
  cycles : m.cycles = 0
  instructions : m.instructions = 0
  metered : ∃ w t, m.monitor = some w ∧ w.speedometers = [t] ∧ t.instructions = 0 ∧ t.cycles = 0

/-- In whatever order a machine is stepped, run, reset and interrupted and its registers set, by moves
or by requests as a whole, and whether or not steps fault on the way, the counters add up. -/
theorem accounts_kept {m : Machine} (hm : m.FreshlyMetered) :
    (∀ moves : List Move, (∀ move ∈ moves, move.keepsMonitor = true) →
      Session.Accounts ⟨m, .idle⟩ moves) ∧
    ∀ rs : List Request, (∀ r ∈ rs, r.keepsMonitor = true ∧ r ≠ .run) →
      ∃ moves : List Move, (∀ move ∈ moves, move.keepsMonitor = true) ∧
        Session.followedBy ⟨m, .idle⟩ moves = ⟨(serveAll answer m rs).2, .idle⟩ := by
  refine ⟨fun moves hkeeps => ?_, fun rs hrs => Session.exists_followedBy_requests m hrs⟩
  obtain ⟨hcycles, hinstructions, w, t, hw, hone, ht, ht'⟩ := hm
  have hcounters := Session.counters_followedBy ⟨m, .idle⟩ moves
  rw [hcycles, hinstructions, Nat.zero_add, Nat.zero_add] at hcounters
  obtain ⟨hleast, hmost⟩ := Session.executed_history_bounds ⟨m, .idle⟩ moves
  obtain ⟨w', hw', hspeedometers⟩ := Session.exists_speedometers_followedBy ⟨m, .idle⟩ hkeeps hw
  have hannounced := Session.announced_perm (Session.history ⟨m, .idle⟩ moves)
  constructor
  · exact hcounters.2
  · exact hcounters.1
  · rw [hcounters.1, hcounters.2]
    exact hleast
  · rw [hcounters.1, hcounters.2]
    exact hmost
  · rw [hone, List.map_singleton, Speedometer.countAll_eq] at hspeedometers
    refine ⟨w', _, hw', hspeedometers, ?_, ?_⟩
    · rw [ht, hcounters.2, hannounced.length_eq, List.length_append, Nat.zero_add]
    · rw [ht', hcounters.1, hannounced.sum_eq, List.sum_append, Nat.zero_add]
  · exact fun v _ f hf => Moment.uncounted_of_decode hf

/-- An instruction that is carried out, one that traps, and a byte that is no instruction. -/
def stumbling : Machine where
  registers := { pc := 0x0200 }
  bus := ⟨[⟨"program", 0x0200, .ram #[0xE8, 0xAD, 0x00, 0x90, 0x02], by simp [Backend.size],
    by simp [Backend.size]⟩]⟩
  monitor := some (.chain [.recorder 1, .chain [.speedometer {}]])

set_option maxRecDepth 2000 in
theorem counted_stumbling :
    let h := Session.history ⟨stumbling, .idle⟩ (.replicate 4 (.ask .step))
    h.filterMap (·.executed?) = [2] ∧ h.filterMap (·.trapped?) = [4] := ⟨rfl, rfl⟩

theorem accounts_kept_stumbling :
    stumbling.FreshlyMetered ∧
      (∀ move ∈ List.replicate 4 (Move.ask .step), move.keepsMonitor = true) ∧
      let last := (Session.followedBy ⟨stumbling, .idle⟩ (.replicate 4 (.ask .step))).machine
      last.instructions = 1 ∧ last.cycles = 2 ∧
        ∃ w t, last.monitor = some w ∧ w.speedometers = [t] ∧ t.instructions = 2 ∧ t.cycles = 6 := by
  have hfresh : stumbling.FreshlyMetered := ⟨rfl, rfl, _, {}, rfl, rfl, rfl, rfl⟩
  have hkeeps : ∀ move ∈ List.replicate 4 (Move.ask .step), move.keepsMonitor = true := by decide
  obtain ⟨haccounts, -⟩ := accounts_kept hfresh
  obtain ⟨hinstructions, hcycles, -, -, ⟨w, t, hw, hone, ht, ht'⟩, -⟩ := haccounts _ hkeeps
  obtain ⟨hexecuted, htrapped⟩ := counted_stumbling
  rw [hexecuted] at hinstructions hcycles
  rw [htrapped, hinstructions] at ht
  rw [htrapped, hcycles] at ht'
  exact ⟨hfresh, hkeeps, hinstructions, hcycles, w, t, hw, hone, ht, ht'⟩

end Machine
end Mos6502

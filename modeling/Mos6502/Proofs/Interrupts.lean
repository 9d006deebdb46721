import Mos6502.Proofs.Publishing

/-! Interrupts. The flag that an interrupt raises is shared with whoever has a handle, so it can be
raised at any time, in the midst of a run too. A session takes a run apart into its looks for a
reason to stop and its instructions, with room for others between any two of them. Whatever happens
in which order, a raised interrupt stays until it is served or a reset drops it, and it is served
once. -/
namespace Mos6502

/-- What the thread that has the machine is at. -/
inductive Phase
  | idle
  | checking (limit : Option Nat)
  | stepping (limit : Option Nat)
  deriving DecidableEq, Repr

namespace Phase

def isIdle : Phase → Bool
  | .idle => true
  | _ => false

def isChecking : Phase → Bool
  | .checking _ => true
  | _ => false

def isStepping : Phase → Bool
  | .stepping _ => true
  | _ => false

end Phase

/-- A machine and the thread that has it. -/
structure Session where
  machine : Machine
  phase : Phase := .idle

/-- What can happen next in a session: something is asked of the machine, or its run goes on. -/
inductive Move
  | ask (r : Request)
  | proceed

def Request.raises : Request → Bool
  | .raise => true
  | _ => false

theorem Request.eq_raise {r : Request} (h : r.raises = true) : r = .raise := by
  cases r <;> first | rfl | exact absurd h Bool.noConfusion

def Move.raises : Move → Bool
  | .ask r => r.raises
  | .proceed => false

namespace Session

/-- What a run does next. Behind its last instruction it looks for a reason to stop once more. -/
def proceed (s : Session) : Option Reply × Session :=
  match s.phase with
  | .idle => (none, s)
  | .checking limit =>
    match s.machine.poll with
    | (some code, m) => (some (.code (some code)), ⟨m, .idle⟩)
    | (none, m) =>
      match limit with
      | none => (none, ⟨m, .stepping none⟩)
      | some 0 => (some (.code none), ⟨m, .idle⟩)
      | some (n + 1) => (none, ⟨m, .stepping (some n)⟩)
  | .stepping limit =>
    match s.machine.step with
    | .ok _ m => (none, ⟨m, .checking limit⟩)
    | .error f m => (some (.faulted f), ⟨m, .idle⟩)

/-- A request to a machine that is idle. A run only begins. -/
def start (m : Machine) : Request → Option Reply × Session
  | .runFor limit => (none, ⟨m, .checking (some limit)⟩)
  | .run => (none, ⟨m, .checking none⟩)
  | r => (some (m.answer r).1, ⟨(m.answer r).2, .idle⟩)

/-- Others can raise interrupts at any time. What else is asked in the midst of a run is not heard. -/
def make (s : Session) : Move → Option Reply × Session
  | .proceed => s.proceed
  | .ask r =>
    if r.raises then (some .done, { s with machine := s.machine.raise })
    else if s.phase.isIdle then start s.machine r
    else (none, s)

end Session

/-- A move, and the session that it finds. -/
structure Moment where
  before : Session
  move : Move

namespace Moment

def reply (v : Moment) : Option Reply := (v.before.make v.move).1

def after (v : Moment) : Session := (v.before.make v.move).2

def raises (v : Moment) : Bool := v.move.raises

def checks (v : Moment) : Bool :=
  match v.move with
  | .proceed => v.before.phase.isChecking
  | .ask _ => false

def steps (v : Moment) : Bool :=
  match v.move with
  | .proceed => v.before.phase.isStepping
  | .ask .step => v.before.phase.isIdle
  | .ask _ => false

/-- Whether the flag is taken down: by a reset, or by a run that looks for a reason to stop and has
none yet. -/
def clears (v : Moment) : Bool :=
  match v.move with
  | .proceed => v.checks && v.before.machine.exitCode.isNone
  | .ask r => v.before.phase.isIdle && v.before.machine.resets r

end Moment

namespace Machine
variable {m m' : Machine}

@[simp] theorem interrupted_emitAll (m : Machine) (es : List Event) :
    (m.emitAll es).interrupted = m.interrupted := by
  rw [emitAll_eq]

@[simp] theorem interrupted_emit (m : Machine) (e : Event) :
    (m.emit e).interrupted = m.interrupted := m.interrupted_emitAll [e]

@[simp] theorem interrupted_emitBus (m : Machine) (ns : List BusNotice) :
    (m.emitBus ns).interrupted = m.interrupted := m.interrupted_emitAll _

theorem emitAll_raise (m : Machine) (es : List Event) :
    m.raise.emitAll es = (m.emitAll es).raise := by
  rw [emitAll_eq, emitAll_eq]
  rfl

theorem settle_raise (m : Machine) (c : Core) : m.raise.settle c = (m.settle c).raise := by
  rw [settle_eq, settle_eq]
  rfl

theorem ready_raise (m : Machine) (i : Instruction) : m.raise.ready i = (m.ready i).raise := by
  rw [ready, ready]
  rfl

theorem halt_raise (m : Machine) (i : Instruction) : m.raise.halt i = (m.halt i).raise := by
  rw [halt, halt, emit_eq, emit_eq]
  rfl

theorem finish_raise (m : Machine) (i : Instruction) (c : Core) :
    m.raise.finish i c = (m.finish i c).raise := by
  unfold finish
  rw [ready_raise, settle_raise]
  split
  · exact congrArg (·.tally i) (halt_raise _ i)
  · rfl

/-- An instruction takes no notice of the flag, so it does not matter when in its course an interrupt
is raised. -/
theorem step_raise (m : Machine) :
    m.raise.step =
      match m.step with
      | .ok n next => .ok n next.raise
      | .error f next => .error f next.raise := by
  have hcore : m.raise.core = m.core := rfl
  have hbus : m.raise.bus = m.bus := rfl
  have hregisters : m.raise.registers = m.registers := rfl
  rw [step_eq, step_eq, hcore, hbus, hregisters]
  cases Instruction.decode m.bus m.registers.pc with
  | error f => exact congrArg (EStateM.Result.error f) (m.emitAll_raise _)
  | ok i => cases hx : Exec.run i m.core <;> simp only [hx, ready_raise, settle_raise, finish_raise]

theorem interrupted_step (m : Machine) : (Outcome.machine m.step).interrupted = m.interrupted := by
  cases hs : m.step with
  | ok n next =>
    obtain ⟨i, c, -, -, -, rfl⟩ := step_ok_cases hs
    obtain ⟨channel, journal, hm⟩ := m.finish_eq i c
    rw [Outcome.machine, hm]
  | error f next =>
    obtain ⟨-, rfl⟩ | ⟨i, t, c, -, -, -, rfl⟩ := step_error_cases hs
    · exact m.interrupted_emitBus _
    · rw [Outcome.machine, settle_eq, ready]

theorem interrupted_answer (m : Machine) {r : Request} (hr : r.runs = false) :
    (m.answer r).2.interrupted = (!m.resets r && (r.raises || m.interrupted)) := by
  have houtside := m.exists_answer_of_leavesProcessor (r := r)
  cases r with
  | reset =>
    obtain ⟨pc, journal, ha⟩ | ⟨f, journal, ha⟩ := m.answer_reset_cases
    · simp [resets, Request.wantsReset, ha, resetTo]
    · simp [resets, Request.raises, ha]
  | resetTo pc => simp [resets, Request.wantsReset, answer, resetTo]
  | step =>
    rw [answer, machine_reply]
    exact m.interrupted_step
  | run | runFor _ => exact absurd hr Bool.noConfusion
  | assign _ | raise => rfl
  | _ =>
    obtain ⟨_, _, _, _, hm⟩ := houtside rfl
    rw [hm]
    rfl

end Machine

namespace Session
open Machine

theorem interrupted_proceed (s : Session) :
    s.proceed.2.machine.interrupted =
      (!(s.phase.isChecking && s.machine.exitCode.isNone) && s.machine.interrupted) := by
  obtain ⟨m, phase⟩ := s
  cases phase with
  | idle => rfl
  | checking limit =>
    obtain ⟨code, hcode, hp⟩ | ⟨hcode, hint, hp⟩ | ⟨hcode, hint, hp⟩ := m.poll_cases
    · simp [proceed, Phase.isChecking, hp, hcode]
    · simp [proceed, Phase.isChecking, hp, hcode, serve, publish]
    · obtain _ | _ | n := limit <;> simp [proceed, Phase.isChecking, hp, hcode, hint]
  | stepping limit =>
    have hstep := m.interrupted_step
    cases hs : m.step with
    | ok n next =>
      have hnext : next.interrupted = m.interrupted := by rwa [hs] at hstep
      simp [proceed, Phase.isChecking, hs, hnext]
    | error f next =>
      have hnext : next.interrupted = m.interrupted := by rwa [hs] at hstep
      simp [proceed, Phase.isChecking, hs, hnext]

theorem interrupted_start (m : Machine) {r : Request} (hr : r.raises = false) :
    (start m r).2.machine.interrupted = (!m.resets r && m.interrupted) := by
  cases hruns : r.runs with
  | true =>
    cases r with
    | run | runFor _ => rfl
    | _ => exact absurd hruns Bool.noConfusion
  | false =>
    have hanswer := m.interrupted_answer hruns
    rw [hr, Bool.false_or] at hanswer
    cases r with
    | run | runFor _ => exact absurd hruns Bool.noConfusion
    | _ => exact hanswer

end Session

namespace Moment
open Session

/-- What a move does to the flag. -/
theorem interrupted_after (v : Moment) :
    v.after.machine.interrupted = (!v.clears && (v.raises || v.before.machine.interrupted)) := by
  obtain ⟨s, move⟩ := v
  cases move with
  | proceed => exact s.interrupted_proceed
  | ask r =>
    cases hr : r.raises with
    | true =>
      cases r with
      | raise => simp [after, make, Request.raises, Machine.raise, clears, Machine.resets,
          Request.wantsReset, raises, Move.raises]
      | _ => exact absurd hr Bool.noConfusion
    | false =>
      cases hidle : s.phase.isIdle with
      | true =>
        simpa [after, make, hr, hidle, clears, raises, Move.raises] using interrupted_start s.machine hr
      | false => simp [after, make, hr, hidle, clears, raises, Move.raises]

theorem clears_of_raises {v : Moment} (h : v.raises = true) : v.clears = false := by
  obtain ⟨s, r | _⟩ := v
  · cases r with
    | raise => simp [clears, Machine.resets, Request.wantsReset]
    | _ => exact absurd h Bool.noConfusion
  · exact absurd h Bool.noConfusion

/-- A run has looked for a reason to stop and found an interrupt: it ends with the code 1, which has
been published once, nothing has been carried out, and the flag is down. -/
structure Serves (v : Moment) : Prop where
  reply : v.reply = some (.code (some 1))
  idle : v.after.phase = .idle
  published : v.before.machine.Publishes v.after.machine [1]
  exitCode : v.after.machine.exitCode = some 1
  interrupted : v.after.machine.interrupted = false
  registers : v.after.machine.registers = v.before.machine.registers
  bus : v.after.machine.bus = v.before.machine.bus
  cycles : v.after.machine.cycles = v.before.machine.cycles
  instructions : v.after.machine.instructions = v.before.machine.instructions

section
variable {v : Moment}

theorem eq_of_checks (h : v.checks = true) :
    ∃ m limit, v = ⟨⟨m, .checking limit⟩, .proceed⟩ := by
  obtain ⟨⟨m, phase⟩, _ | _⟩ := v
  · exact absurd h Bool.noConfusion
  · cases phase with
    | checking limit => exact ⟨m, limit, rfl⟩
    | _ => exact absurd h Bool.noConfusion

theorem serves_of_interrupted (h : v.checks = true) (hcode : v.before.machine.exitCode = none)
    (hup : v.before.machine.interrupted = true) : v.Serves := by
  obtain ⟨m, limit, rfl⟩ := eq_of_checks h
  have hpoll : m.poll = (some 1, m.serve) := by
    unfold Machine.poll
    rw [hcode, hup]
    rfl
  have hmake : make ⟨m, .checking limit⟩ .proceed = (some (.code (some 1)), ⟨m.serve, .idle⟩) := by
    simp only [make, proceed, hpoll]
  have hafter : (⟨⟨m, .checking limit⟩, .proceed⟩ : Moment).after = ⟨m.serve, .idle⟩ := by
    rw [after, hmake]
  constructor
  · rw [reply, hmake]
  all_goals rw [hafter]
  · exact m.publishes_serve
  · exact m.exitCode_serve
  all_goals simp [Machine.serve, Machine.publish, Machine.emit_eq]

/-- A machine that has halted keeps its code, and the flag. -/
theorem halted_of_exitCode {code : Byte} (h : v.checks = true)
    (hcode : v.before.machine.exitCode = some code) :
    v.reply = some (.code (some code)) ∧ v.after = ⟨v.before.machine, .idle⟩ := by
  obtain ⟨m, limit, rfl⟩ := eq_of_checks h
  have hpoll : m.poll = (some code, m) := Machine.poll_of_exitCode hcode
  have hmake : make ⟨m, .checking limit⟩ .proceed = (some (.code (some code)), ⟨m, .idle⟩) := by
    simp only [make, proceed, hpoll]
  rw [reply, after, hmake]
  exact ⟨rfl, rfl⟩

theorem not_clears_of_steps (h : v.steps = true) : v.clears = false ∧ v.raises = false := by
  obtain ⟨⟨m, phase⟩, r | _⟩ := v
  · cases r with
    | step => simp [clears, raises, Move.raises, Request.raises, Machine.resets, Request.wantsReset]
    | _ => exact absurd h Bool.noConfusion
  · cases phase with
    | stepping limit => exact ⟨rfl, rfl⟩
    | _ => exact absurd h Bool.noConfusion

end

end Moment

namespace Session

def history (s : Session) : List Move → List Moment
  | [] => []
  | move :: rest => ⟨s, move⟩ :: history (s.make move).2 rest

def followedBy (s : Session) (moves : List Move) : Session := (serveAll make s moves).2

theorem history_cons (s : Session) (move : Move) (rest : List Move) :
    s.history (move :: rest) = ⟨s, move⟩ :: (Moment.after ⟨s, move⟩).history rest := rfl

theorem followedBy_cons (s : Session) (move : Move) (rest : List Move) :
    s.followedBy (move :: rest) = (Moment.after ⟨s, move⟩).followedBy rest := rfl

/-- The flag is up if and only if it has been raised and not been taken down since, or was up from the
start. -/
theorem interrupted_followedBy_iff (s : Session) (moves : List Move) :
    (s.followedBy moves).machine.interrupted = true ↔
      (∃ front v back, s.history moves = front ++ v :: back ∧ v.raises = true ∧
        ∀ u ∈ back, u.clears = false) ∨
      (s.machine.interrupted = true ∧ ∀ u ∈ s.history moves, u.clears = false) := by
  induction moves generalizing s with
  | nil => simp [history, followedBy, serveAll]
  | cons move rest ih =>
    rw [followedBy_cons, ih, history_cons, Moment.interrupted_after]
    generalize hv : (⟨s, move⟩ : Moment) = v
    have hbefore : v.before = s := by rw [← hv]
    rw [← hbefore]
    generalize v.after.history rest = tail
    constructor
    · rintro (⟨front, u, back, rfl, hu, hback⟩ | ⟨hup, hquiet⟩)
      · exact .inl ⟨v :: front, u, back, rfl, hu, hback⟩
      · rw [Bool.and_eq_true, Bool.or_eq_true, Bool.not_eq_true'] at hup
        obtain ⟨hv, hraises | hbefore⟩ := hup
        · exact .inl ⟨[], v, tail, rfl, hraises, hquiet⟩
        · exact .inr ⟨hbefore, List.forall_mem_cons.2 ⟨hv, hquiet⟩⟩
    · rintro (⟨front, u, back, heq, hu, hback⟩ | ⟨hbefore, hquiet⟩)
      · cases front with
        | nil =>
          obtain ⟨rfl, rfl⟩ := List.cons.inj heq
          exact .inr ⟨by simp [hu, Moment.clears_of_raises hu], hback⟩
        | cons w front =>
          obtain ⟨rfl, rfl⟩ := List.cons.inj heq
          exact .inl ⟨front, u, back, rfl, hu, hback⟩
      · obtain ⟨hv, hquiet⟩ := List.forall_mem_cons.1 hquiet
        exact .inr ⟨by simp [hbefore, hv], hquiet⟩

section
variable {s : Session} {moves : List Move} {u v : Moment} {front between back : List Moment}

theorem exists_of_history_eq_append (h : s.history moves = front ++ back) :
    ∃ first rest, front = s.history first ∧ back = (s.followedBy first).history rest := by
  induction front generalizing s moves with
  | nil => exact ⟨[], moves, rfl, h.symm⟩
  | cons v front ih =>
    cases moves with
    | nil => simp [history] at h
    | cons move later =>
      obtain ⟨rfl, htail⟩ := List.cons.inj h
      obtain ⟨first, rest, rfl, hback⟩ := ih htail
      exact ⟨move :: first, rest, rfl, hback⟩

theorem of_history_eq_cons (h : s.history moves = v :: back) :
    v.before = s ∧ ∃ rest, back = v.after.history rest := by
  cases moves with
  | nil => simp [history] at h
  | cons move rest =>
    obtain ⟨rfl, rfl⟩ := List.cons.inj h
    exact ⟨rfl, rest, rfl⟩

theorem interrupted_later_iff (h : s.history moves = front ++ u :: (between ++ v :: back)) :
    v.before.machine.interrupted = true ↔
      (∃ before w after, between = before ++ w :: after ∧ w.raises = true ∧
        ∀ x ∈ after, x.clears = false) ∨
      (u.after.machine.interrupted = true ∧ ∀ w ∈ between, w.clears = false) := by
  obtain ⟨first, rest, -, hu⟩ := exists_of_history_eq_append h
  obtain ⟨-, later, hlater⟩ := of_history_eq_cons hu.symm
  obtain ⟨middle, last, rfl, hv⟩ := exists_of_history_eq_append hlater.symm
  obtain ⟨hv, -⟩ := of_history_eq_cons hv.symm
  rw [hv, interrupted_followedBy_iff]

end

/-- What becomes of interrupts in a session. -/
structure ServesInterrupts (s : Session) (moves : List Move) : Prop where
  pending : (s.followedBy moves).machine.interrupted = true ↔
    (∃ front v back, s.history moves = front ++ v :: back ∧ v.raises = true ∧
      ∀ u ∈ back, u.clears = false) ∨
    (s.machine.interrupted = true ∧ ∀ u ∈ s.history moves, u.clears = false)
  served : ∀ v ∈ s.history moves, v.checks = true → v.before.machine.exitCode = none →
    v.before.machine.interrupted = true → v.Serves
  halted : ∀ v ∈ s.history moves, ∀ code, v.checks = true →
    v.before.machine.exitCode = some code →
    v.reply = some (.code (some code)) ∧ v.after = ⟨v.before.machine, .idle⟩
  stepped : ∀ v ∈ s.history moves, v.steps = true →
    v.after.machine.interrupted = v.before.machine.interrupted
  /-- What has been raised is served where a run looks next. -/
  not_lost : ∀ front u between v back, s.history moves = front ++ u :: (between ++ v :: back) →
    u.raises = true → (∀ w ∈ between, w.clears = false) → v.checks = true →
    v.before.machine.exitCode = none → v.Serves
  /-- What has been served or dropped is not served again. -/
  not_twice : ∀ front u between v back, s.history moves = front ++ u :: (between ++ v :: back) →
    u.clears = true → v.before.machine.interrupted = true → ∃ w ∈ between, w.raises = true

theorem servesInterrupts (s : Session) (moves : List Move) : s.ServesInterrupts moves where
  pending := s.interrupted_followedBy_iff moves
  served _ _ h hcode hup := Moment.serves_of_interrupted h hcode hup
  halted _ _ _ h hcode := Moment.halted_of_exitCode h hcode
  stepped v _ h := by
    obtain ⟨hclears, hraises⟩ := Moment.not_clears_of_steps h
    rw [v.interrupted_after, hclears, hraises]
    rfl
  not_lost front u between v back h hu hquiet hv hcode := by
    have hafter : u.after.machine.interrupted = true := by
      rw [u.interrupted_after, hu, Moment.clears_of_raises hu]
      rfl
    exact Moment.serves_of_interrupted hv hcode ((interrupted_later_iff h).2 (.inr ⟨hafter, hquiet⟩))
  not_twice front u between v back h hu hup := by
    have hafter : u.after.machine.interrupted = false := by
      rw [u.interrupted_after, hu]
      rfl
    obtain ⟨before, w, after, rfl, hw, -⟩ | ⟨hafter', -⟩ := (interrupted_later_iff h).1 hup
    · exact ⟨w, by simp, hw⟩
    · exact absurd (hafter.symm.trans hafter') Bool.noConfusion

/-- The moves of a run that nothing comes between. -/
def undisturbed (s : Session) (k : Nat) : List (Option Reply) × Session :=
  serveAll make s (.replicate k .proceed)

theorem undisturbed_succ (s : Session) (k : Nat) :
    s.undisturbed (k + 1) =
      (s.proceed.1 :: (s.proceed.2.undisturbed k).1, (s.proceed.2.undisturbed k).2) := rfl

section
variable {m : Machine} {limit : Option Nat}

theorem proceed_of_poll {code : Byte} {polled : Machine} (h : m.poll = (some code, polled)) :
    proceed ⟨m, .checking limit⟩ = (some (.code (some code)), ⟨polled, .idle⟩) := by
  simp only [proceed, h]

/-- A run that nothing comes between goes as the run loop goes, with a limit or, if it stops, without
one. -/
theorem exists_undisturbed {n : Nat} (h : limit = some n ∨
    limit = none ∧ ∃ ended : Machine.Outcome Fault Byte, Machine.runFor n m = ended.stopped) :
    ∃ k, undisturbed ⟨m, .checking limit⟩ (k + 1) =
      (.replicate k none ++ [some (m.answer (.runFor n)).1], ⟨(m.answer (.runFor n)).2, .idle⟩) := by
  have hanswer (n : Nat) (m : Machine) : m.answer (.runFor n) =
      Machine.Outcome.reply .code .faulted (Machine.runFor n m) := rfl
  induction n generalizing m limit with
  | zero =>
    refine ⟨0, ?_⟩
    rw [undisturbed_succ]
    obtain ⟨code, polled, hp⟩ | hp := m.poll_stops_or_not
    · rw [proceed_of_poll hp, hanswer, Machine.runFor_of_poll hp]
      rfl
    · rw [Machine.runFor_zero_of_poll_none hp] at h
      obtain rfl | ⟨-, ended, hended⟩ := h
      · simp only [proceed, hp]
        rw [hanswer, Machine.runFor_zero_of_poll_none hp]
        rfl
      · exact absurd hended.symm Machine.Outcome.stopped_ne_ok_none
  | succ n ih =>
    obtain ⟨code, polled, hp⟩ | hp := m.poll_stops_or_not
    · refine ⟨0, ?_⟩
      rw [undisturbed_succ, proceed_of_poll hp, hanswer, Machine.runFor_of_poll hp]
      rfl
    · have hchecked : ∃ rest, proceed ⟨m, .checking limit⟩ = (none, ⟨m, .stepping rest⟩) ∧
          (rest = some n ∨ rest = none ∧
            ∃ ended : Machine.Outcome Fault Byte, Machine.runFor (n + 1) m = ended.stopped) := by
        obtain rfl | ⟨rfl, hended⟩ := h
        · exact ⟨some n, by simp only [proceed, hp], .inl rfl⟩
        · exact ⟨none, by simp only [proceed, hp], .inr ⟨rfl, hended⟩⟩
      obtain ⟨rest, hproceed, hrest⟩ := hchecked
      rw [Machine.runFor_succ_of_poll_none hp] at hrest
      rw [hanswer, Machine.runFor_succ_of_poll_none hp]
      cases hs : m.step with
      | error f next =>
        refine ⟨1, ?_⟩
        rw [undisturbed_succ, hproceed, undisturbed_succ]
        simp only [proceed, hs]
        rfl
      | ok v next =>
        rw [hs] at hrest
        obtain ⟨k, hk⟩ := ih (m := next) hrest
        refine ⟨k + 2, ?_⟩
        rw [undisturbed_succ, hproceed, undisturbed_succ]
        simp only [proceed, hs, hk]
        rfl

end

theorem exists_undisturbed_run {m : Machine} {r : Request} (hr : r.runs = true)
    (hstops : r = .run → (m.answer r).1 ≠ .code none) :
    ∃ k, (start m r).2.undisturbed (k + 1) =
      (.replicate k none ++ [some (m.answer r).1], ⟨(m.answer r).2, .idle⟩) := by
  cases r with
  | runFor n => exact exists_undisturbed (.inl rfl)
  | run =>
    cases hrun : m.run? with
    | none =>
      have hnever : m.run = .ok none m := by rw [Machine.run, hrun]
      exact absurd (by rw [Machine.answer, hnever]; rfl) (hstops rfl)
    | some ended =>
      obtain ⟨n, hn⟩ := Machine.exists_runFor_of_run? hrun
      have hsame : m.answer .run = m.answer (.runFor n) := by
        rw [Machine.answer, Machine.answer, Machine.run_eq_stopped_iff.2 hrun, hn]
      rw [hsame]
      exact exists_undisturbed (.inr ⟨rfl, ended, hn⟩)
  | _ => exact absurd hr Bool.noConfusion

theorem start_eq_of_not_runs (m : Machine) {r : Request} (hr : r.runs = false) :
    start m r = (some (m.answer r).1, ⟨(m.answer r).2, .idle⟩) := by
  cases r with
  | run | runFor _ => exact absurd hr Bool.noConfusion
  | _ => rfl

theorem machine_proceed_checking (m : Machine) (limit : Option Nat) :
    (proceed ⟨m, .checking limit⟩).2.machine = m.poll.2 := by
  unfold proceed
  generalize m.poll = p
  obtain ⟨code | code, polled⟩ := p
  · obtain _ | _ | n := limit <;> rfl
  · rfl

theorem make_ask_of_idle (m : Machine) (r : Request) :
    make ⟨m, .idle⟩ (.ask r) = start m r := by
  cases r <;> rfl

theorem followedBy_append (s : Session) (front back : List Move) :
    s.followedBy (front ++ back) = (s.followedBy front).followedBy back := by
  induction front generalizing s with
  | nil => rfl
  | cons move rest ih => exact ih _

theorem exists_followedBy_ask {m : Machine} {r : Request}
    (hstops : r = .run → (m.answer r).1 ≠ .code none) :
    ∃ k, followedBy ⟨m, .idle⟩ (.ask r :: .replicate k .proceed) = ⟨(m.answer r).2, .idle⟩ := by
  have hasked (moves : List Move) :
      followedBy ⟨m, .idle⟩ (.ask r :: moves) = (start m r).2.followedBy moves := by
    rw [followedBy_cons, Moment.after, make_ask_of_idle]
  cases hr : r.runs with
  | true =>
    obtain ⟨k, hk⟩ := exists_undisturbed_run hr hstops
    exact ⟨k + 1, (hasked _).trans (congrArg Prod.snd hk)⟩
  | false => exact ⟨0, (hasked _).trans (congrArg Prod.snd (start_eq_of_not_runs m hr))⟩

/-- Whatever happens in a session in whatever order, no interrupt is lost and none is served twice. What
happens in a run that nothing comes between is what the run loops do, and it makes no difference
when in the course of an instruction an interrupt is raised. -/
theorem interrupts_served (s : Session) (moves : List Move) :
    s.ServesInterrupts moves ∧
      (∀ (m : Machine) (r : Request), r.runs = true → (r = .run → (m.answer r).1 ≠ .code none) →
        ∃ k, (start m r).2.undisturbed (k + 1) =
          (.replicate k none ++ [some (m.answer r).1], ⟨(m.answer r).2, .idle⟩)) ∧
      ∀ m : Machine, m.raise.step =
        match m.step with
        | .ok n next => .ok n next.raise
        | .error f next => .error f next.raise :=
  ⟨s.servesInterrupts moves, fun _ _ hr hstops => exists_undisturbed_run hr hstops,
    Machine.step_raise⟩

set_option maxRecDepth 2000 in
/-- A run is interrupted while it carries out its first instruction. -/
example :
    (serveAll make ⟨Machine.counting, .idle⟩
      [.ask (.runFor 5), .proceed, .ask .raise, .proceed, .proceed, .ask .step]).1 =
      [none, none, some .done, none, some (.code (some 1)), some (.cycles 1)] := rfl

end Session
end Mos6502

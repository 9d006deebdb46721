import Mos6502.Proofs.Interrupts

/-! The audience of a machine: the monitor that watches it, the log configuration, and the journal of
what has been seen. A machine takes no notice of its audience. Whatever is asked of it, it goes the
same way and takes the same turns: events of its own, among which it may tell the monitor something.
What the audience makes of a turn is up to the audience. -/
namespace Mos6502

/-- What a machine tells its monitor. -/
inductive Signal
  | about (o : Observation)
  | ended (now : Duration)

def Monitor.told (w : Monitor) : Option Signal → List Event × Monitor
  | some (.about o) => ((w.observe o).2, (w.observe o).1)
  | some (.ended now) => (w.shutdown now, w)
  | none => ([], w)

/-- What the monitor becomes when it is told one thing after the other. -/
def Monitor.toldAll (w : Monitor) (signals : List (Option Signal)) : Monitor :=
  signals.foldl (fun w signal => (w.told signal).2) w

@[simp] theorem Monitor.toldAll_nil (w : Monitor) : w.toldAll [] = w := rfl

@[simp] theorem Monitor.toldAll_cons (w : Monitor) (signal : Option Signal)
    (signals : List (Option Signal)) :
    w.toldAll (signal :: signals) = (w.told signal).2.toldAll signals := rfl

/-- What a machine does before its audience: it lets events be seen, tells its monitor something or
nothing, and lets further events be seen. -/
structure Turn where
  lead : List Event
  signal : Option Signal
  rest : List Event

structure Audience where
  monitor : Option Monitor
  logging : Log.Config
  journal : Array Event

namespace Audience

def see (a : Audience) (es : List Event) : Audience :=
  { a with journal := a.journal ++ (es.filter (·.passes a.logging)).toArray }

/-- What the monitor lets be seen of a signal. -/
def shown (a : Audience) (signal : Option Signal) : List Event :=
  match a.monitor with
  | none => []
  | some w => (w.told signal).1

def attend (a : Audience) (t : Turn) : Audience where
  monitor := a.monitor.map fun w => (w.told t.signal).2
  logging := a.logging
  journal := a.journal ++
    ((t.lead ++ a.shown t.signal ++ t.rest).filter (·.passes a.logging)).toArray

def attendAll (a : Audience) (ts : List Turn) : Audience := ts.foldl attend a

@[simp] theorem attendAll_nil (a : Audience) : a.attendAll [] = a := rfl

@[simp] theorem attendAll_cons (a : Audience) (t : Turn) (ts : List Turn) :
    a.attendAll (t :: ts) = (a.attend t).attendAll ts := rfl

@[simp] theorem logging_attendAll (a : Audience) (ts : List Turn) :
    (a.attendAll ts).logging = a.logging := by
  induction ts generalizing a with
  | nil => rfl
  | cons t ts ih => exact ih (a.attend t)

theorem monitor_attendAll (a : Audience) (ts : List Turn) :
    (a.attendAll ts).monitor = a.monitor.map (·.toldAll (ts.map (·.signal))) := by
  induction ts generalizing a with
  | nil => cases h : a.monitor <;> simp [h]
  | cons t ts ih =>
    rw [attendAll_cons, ih]
    simp only [attend, Option.map_map]
    rfl

@[simp] theorem shown_none (a : Audience) : a.shown none = [] := by
  unfold shown
  split <;> rfl

@[simp] theorem see_nil (a : Audience) : a.see [] = a := by
  simp [see]

theorem see_see (a : Audience) (es fs : List Event) : (a.see es).see fs = a.see (es ++ fs) := by
  simp [see]

theorem attend_quiet (a : Audience) (es : List Event) : a.attend ⟨es, none, []⟩ = a.see es := by
  have hmonitor : (a.monitor.map fun w => (w.told none).2) = a.monitor := by
    cases a.monitor <;> rfl
  simp only [attend, see, shown_none, List.append_nil]
  rw [hmonitor]

@[simp] theorem attend_nothing (a : Audience) : a.attend ⟨[], none, []⟩ = a := by
  rw [attend_quiet, see_nil]

theorem attend_see (a : Audience) (t : Turn) (es : List Event) :
    (a.attend t).see es = a.attend { t with rest := t.rest ++ es } := by
  simp [attend, see]

end Audience

namespace Request

def keepsMonitor : Request → Bool
  | .attachMonitor _ | .detachMonitor => false
  | _ => true

end Request

namespace Machine

def audience (m : Machine) : Audience := ⟨m.monitor, m.logging, m.journal⟩

/-- The machine before another audience. -/
def playedTo (m : Machine) (a : Audience) : Machine :=
  { m with monitor := a.monitor, logging := a.logging, journal := a.journal }

@[simp] theorem audience_playedTo (m : Machine) (a : Audience) : (m.playedTo a).audience = a := rfl

def Outcome.playedTo {ε α : Type} (a : Audience) : Outcome ε α → Outcome ε α
  | .ok v m => .ok v (m.playedTo a)
  | .error e m => .error e (m.playedTo a)

theorem Outcome.reply_playedTo {ε α : Type} (ok : α → Reply) (error : ε → Reply)
    (x : Outcome ε α) (a : Audience) :
    Outcome.reply ok error (x.playedTo a) =
      ((Outcome.reply ok error x).1, (Outcome.reply ok error x).2.playedTo a) := by
  cases x <;> rfl

theorem Outcome.stopped_playedTo (ended : Outcome Fault Byte) (a : Audience) :
    Outcome.stopped (ended.playedTo a) = ended.stopped.playedTo a := by
  cases ended <;> rfl

/-- The instruction about to run, as a monitor is shown it, if there is one. -/
def aboutToRun? (m : Machine) : Option Observation :=
  match Instruction.decode m.bus m.registers.pc with
  | .ok i => some (m.observation i)
  | .error _ => none

/-- What serving a request, other than a run, tells the monitor. -/
def signal? (m : Machine) : Request → Option Signal
  | .step => m.aboutToRun?.map .about
  | .shutdown now => some (.ended now)
  | _ => none

def fetched (m : Machine) : List Event :=
  (Instruction.onDecode m.bus m.registers.pc).map .ofBusNotice

/-- What a decoded instruction is announced by: how it has been found, a signal to the monitor, and a
message. -/
def announcement (m : Machine) (i : Instruction) : Turn where
  lead := m.fetched
  signal := some (.about (m.observation i))
  rest := [.log (.executing i)]

section
variable (m : Machine) (a : Audience)

theorem emitAll_playedTo (es : List Event) :
    (m.playedTo a).emitAll es = (m.emitAll es).playedTo (a.see es) := by
  rw [emitAll_eq, emitAll_eq]
  rfl

theorem emit_playedTo (e : Event) : (m.playedTo a).emit e = (m.emit e).playedTo (a.see [e]) :=
  m.emitAll_playedTo a [e]

theorem emitBus_playedTo (ns : List BusNotice) :
    (m.playedTo a).emitBus ns = (m.emitBus ns).playedTo (a.see (ns.map .ofBusNotice)) :=
  m.emitAll_playedTo a _

theorem settle_playedTo (c : Core) :
    (m.playedTo a).settle c = (m.settle c).playedTo (a.see (c.notices.map .ofNotice)) := by
  rw [settle_eq, settle_eq]
  rfl

theorem watch_playedTo (i : Instruction) :
    (m.playedTo a).watch i = a.shown (some (.about (m.observation i))) := by
  have hmonitor : (m.playedTo a).monitor = a.monitor := rfl
  unfold watch Audience.shown
  rw [hmonitor]
  cases a.monitor <;> rfl

theorem ready_playedTo (i : Instruction) :
    (m.playedTo a).ready i = (m.ready i).playedTo (a.attend (m.announcement i)) := by
  rw [ready, ready, preview, watch_playedTo]
  rfl

theorem halt_playedTo (i : Instruction) :
    (m.playedTo a).halt i =
      (m.halt i).playedTo (a.see [.log (.halted i.address m.registers.x)]) := by
  have hmessage := m.emit_playedTo a (.log (.halted i.address m.registers.x))
  exact congrArg (·.publish m.registers.x) hmessage

theorem serve_playedTo :
    (m.playedTo a).serve = m.serve.playedTo (a.see [.log (.interrupted m.registers.pc)]) := by
  have hmessage := emit_playedTo { m with interrupted := false } a
    (.log (.interrupted m.registers.pc))
  exact congrArg (·.publish interruptExitCode) hmessage

theorem resetTo_playedTo (pc : Word) :
    (m.playedTo a).resetTo pc = (m.resetTo pc).playedTo (a.see [.log (.reset pc)]) :=
  emit_playedTo { m with
    registers := { m.registers with pc := pc, status := .atReset }
    exitCode := none
    interrupted := false } a _

end

/-- What is seen when an instruction has been carried out, behind what it is announced by. -/
theorem exists_finish_playedTo (m : Machine) (i : Instruction) (c : Core) :
    ∃ es, ∀ a : Audience, (m.playedTo a).finish i c =
      (m.finish i c).playedTo ((a.attend (m.announcement i)).see es) := by
  unfold finish
  by_cases hhalt : i.mnemonic.action = .halt
  · refine ⟨c.notices.map .ofNotice ++
      [.log (.halted i.address ((m.ready i).settle c).registers.x)], fun a => ?_⟩
    simp only [if_pos hhalt, ready_playedTo, settle_playedTo, halt_playedTo, Audience.see_see]
    rfl
  · refine ⟨c.notices.map .ofNotice, fun a => ?_⟩
    simp only [if_neg hhalt, ready_playedTo, settle_playedTo]
    rfl

/-- A step takes one turn, in which the monitor is told of the instruction, if one has been
decoded. -/
theorem exists_step_playedTo (m : Machine) :
    ∃ rest, ∀ a : Audience, (m.playedTo a).step =
      m.step.playedTo (a.attend ⟨m.fetched, m.signal? .step, rest⟩) := by
  have hdecode (a : Audience) : Instruction.decode (m.playedTo a).bus (m.playedTo a).registers.pc =
      Instruction.decode m.bus m.registers.pc := rfl
  have hcore (a : Audience) : (m.playedTo a).core = m.core := rfl
  simp only [step_eq, hdecode, hcore, signal?, aboutToRun?]
  cases Instruction.decode m.bus m.registers.pc with
  | error f =>
    refine ⟨[], fun a => congrArg (EStateM.Result.error f) ?_⟩
    have hquiet : a.attend ⟨m.fetched, none, []⟩ = a.see m.fetched := a.attend_quiet m.fetched
    exact (m.emitBus_playedTo a _).trans (congrArg (Machine.playedTo _) hquiet.symm)
  | ok i =>
    cases hx : Exec.run i m.core with
    | error t c =>
      refine ⟨[.log (.executing i)] ++ c.notices.map .ofNotice, fun a => ?_⟩
      simp only [hx, ready_playedTo, settle_playedTo, announcement, Audience.attend_see]
      rfl
    | ok v c =>
      obtain ⟨es, hes⟩ := m.exists_finish_playedTo i c
      refine ⟨[.log (.executing i)] ++ es, fun a => ?_⟩
      simp only [hx, hes, announcement, Audience.attend_see]
      rfl

theorem exists_poll_playedTo (m : Machine) :
    ∃ es, ∀ a : Audience, (m.playedTo a).poll = (m.poll.1, m.poll.2.playedTo (a.see es)) := by
  have hcode (a : Audience) : (m.playedTo a).exitCode = m.exitCode := rfl
  have hinterrupted (a : Audience) : (m.playedTo a).interrupted = m.interrupted := rfl
  unfold poll
  simp only [hcode, hinterrupted]
  cases m.exitCode with
  | some code => exact ⟨[], fun a => by rw [Audience.see_nil]⟩
  | none =>
    cases m.interrupted with
    | true => exact ⟨_, fun a => congrArg (some interruptExitCode, ·) (m.serve_playedTo a)⟩
    | false => exact ⟨[], fun a => by rw [Audience.see_nil]; rfl⟩

theorem exists_runFor_playedTo (n : Nat) (m : Machine) :
    ∃ ts, ∀ a : Audience, runFor n (m.playedTo a) = (runFor n m).playedTo (a.attendAll ts) := by
  induction n generalizing m with
  | zero =>
    obtain ⟨es, hes⟩ := m.exists_poll_playedTo
    refine ⟨[⟨es, none, []⟩], fun a => ?_⟩
    simp only [runFor, hes, Audience.attendAll_cons, Audience.attendAll_nil, Audience.attend_quiet]
    rfl
  | succ n ih =>
    obtain ⟨es, hes⟩ := m.exists_poll_playedTo
    unfold runFor
    simp only [hes]
    generalize m.poll = p
    obtain ⟨code | code, polled⟩ := p
    · obtain ⟨rest, hstep⟩ := polled.exists_step_playedTo
      simp only [hstep]
      cases hs : polled.step with
      | error f next =>
        refine ⟨[⟨es, none, []⟩, ⟨polled.fetched, polled.signal? .step, rest⟩], fun a => ?_⟩
        simp only [Audience.attendAll_cons, Audience.attendAll_nil, Audience.attend_quiet]
        rfl
      | ok v next =>
        obtain ⟨ts, hts⟩ := ih next
        refine ⟨⟨es, none, []⟩ :: ⟨polled.fetched, polled.signal? .step, rest⟩ :: ts, fun a => ?_⟩
        simp only [Audience.attendAll_cons, Audience.attend_quiet]
        exact hts _
    · refine ⟨[⟨es, none, []⟩], fun a => ?_⟩
      simp only [Audience.attendAll_cons, Audience.attendAll_nil, Audience.attend_quiet]
      rfl

theorem exists_stopped_of_playedTo {x : Outcome Fault (Option Byte)} {a : Audience}
    {ended : Outcome Fault Byte} (h : x.playedTo a = ended.stopped) :
    ∃ ended' : Outcome Fault Byte, x = ended'.stopped := by
  cases x with
  | ok code m =>
    cases code with
    | some code => exact ⟨.ok code m, rfl⟩
    | none => exact absurd h.symm Outcome.stopped_ne_ok_none
  | error f m => exact ⟨.error f m, rfl⟩

theorem exists_run_playedTo (m : Machine) :
    ∃ ts, ∀ a : Audience, (m.playedTo a).run = m.run.playedTo (a.attendAll ts) := by
  by_cases hstops : ∃ n, ∃ ended : Outcome Fault Byte, runFor n m = ended.stopped
  · obtain ⟨n, ended, hn⟩ := hstops
    obtain ⟨ts, hts⟩ := exists_runFor_playedTo n m
    refine ⟨ts, fun a => ?_⟩
    have hplayed : runFor n (m.playedTo a) = Outcome.stopped (ended.playedTo (a.attendAll ts)) := by
      rw [hts, hn, Outcome.stopped_playedTo]
    have hrun := run_eq_stopped_iff.2 (run?_of_runFor hn)
    have hrun' := run_eq_stopped_iff.2 (run?_of_runFor hplayed)
    rw [hrun, hrun', Outcome.stopped_playedTo]
  · have hnever (a : Audience) :
        ¬∃ n, ∃ ended : Outcome Fault Byte, runFor n (m.playedTo a) = ended.stopped := by
      rintro ⟨n, ended, hn⟩
      obtain ⟨ts, hts⟩ := exists_runFor_playedTo n m
      rw [hts] at hn
      exact hstops ⟨n, exists_stopped_of_playedTo hn⟩
    refine ⟨[], fun a => ?_⟩
    rw [run_of_never hstops, run_of_never (hnever a)]
    rfl

section
variable (m : Machine)

theorem exists_read_playedTo (addr : Word) :
    ∃ es, ∀ a : Audience, (m.playedTo a).read addr = (m.read addr).playedTo (a.see es) := by
  have hbus (a : Audience) : (m.playedTo a).bus = m.bus := rfl
  unfold read
  simp only [hbus]
  cases m.bus.read addr with
  | ok v => exact ⟨_, fun a => congrArg (EStateM.Result.ok v) (m.emitBus_playedTo a _)⟩
  | error e => exact ⟨[], fun a => by rw [Audience.see_nil]; rfl⟩

theorem exists_readWord_playedTo (addr : Word) :
    ∃ es, ∀ a : Audience,
      (m.playedTo a).readWord addr = (m.readWord addr).playedTo (a.see es) := by
  have hbus (a : Audience) : (m.playedTo a).bus = m.bus := rfl
  refine ⟨(m.bus.onReadWord addr).map .ofBusNotice, fun a => ?_⟩
  unfold readWord
  simp only [hbus, emitBus_playedTo]
  cases m.bus.readWord addr <;> rfl

theorem exists_write_playedTo (addr : Word) (v : Byte) :
    ∃ es, ∀ a : Audience, (m.playedTo a).write addr v = (m.write addr v).playedTo (a.see es) := by
  have hbus (a : Audience) : (m.playedTo a).bus = m.bus := rfl
  simp only [write_eq, hbus]
  split
  · refine ⟨(m.bus.onWrite addr v).map .ofBusNotice, fun a => ?_⟩
    rw [emitBus_playedTo]
    rfl
  · exact ⟨[], fun a => by rw [Audience.see_nil]; rfl⟩

theorem exists_writeWord_playedTo (addr w : Word) :
    ∃ es, ∀ a : Audience,
      (m.playedTo a).writeWord addr w = (m.writeWord addr w).playedTo (a.see es) := by
  obtain ⟨es, hlow⟩ := m.exists_write_playedTo addr w.low
  unfold writeWord
  simp only [hlow]
  cases m.write addr w.low with
  | error e next => exact ⟨es, fun a => rfl⟩
  | ok v next =>
    obtain ⟨fs, hhigh⟩ := next.exists_write_playedTo (addr + 1) w.high
    exact ⟨es ++ fs, fun a => (hhigh _).trans (by rw [Audience.see_see])⟩

theorem exists_attach_playedTo (name : String) (base : Word) (backend : Backend) :
    ∃ es, ∀ a : Audience,
      (m.playedTo a).attach name base backend = (m.attach name base backend).playedTo (a.see es) := by
  have hbus (a : Audience) : (m.playedTo a).bus = m.bus := rfl
  unfold attach
  simp only [hbus]
  cases m.bus.attach name base backend with
  | ok bus =>
    exact ⟨_, fun a => congrArg (EStateM.Result.ok ()) (emit_playedTo { m with bus } a _)⟩
  | error e => exact ⟨[], fun a => by rw [Audience.see_nil]; rfl⟩

theorem exists_reset_playedTo :
    ∃ es, ∀ a : Audience, (m.playedTo a).reset = m.reset.playedTo (a.see es) := by
  obtain ⟨es, hvector⟩ := m.exists_readWord_playedTo resetVector
  unfold reset
  simp only [hvector]
  cases m.readWord resetVector with
  | ok pc next =>
    refine ⟨es ++ [.log (.reset pc)], fun a => ?_⟩
    have hreset := next.resetTo_playedTo (a.see es) pc
    rw [Audience.see_see] at hreset
    exact congrArg (EStateM.Result.ok ()) hreset
  | error e next => exact ⟨es, fun a => rfl⟩

theorem exists_serveBus_playedTo (request : BusRequest) :
    ∃ es, ∀ a : Audience, (m.playedTo a).serveBus request =
      ((m.serveBus request).1, (m.serveBus request).2.playedTo (a.see es)) := by
  cases request with
  | attach name base storage =>
    obtain ⟨es, hes⟩ := m.exists_attach_playedTo name base storage.backend
    exact ⟨es, fun a => by simp only [serveBus, hes, Outcome.reply_playedTo]⟩
  | read addr =>
    obtain ⟨es, hes⟩ := m.exists_read_playedTo addr
    exact ⟨es, fun a => by simp only [serveBus, hes, Outcome.reply_playedTo]⟩
  | write addr v =>
    obtain ⟨es, hes⟩ := m.exists_write_playedTo addr v
    exact ⟨es, fun a => by simp only [serveBus, hes, Outcome.reply_playedTo]⟩
  | readWord addr =>
    obtain ⟨es, hes⟩ := m.exists_readWord_playedTo addr
    exact ⟨es, fun a => by simp only [serveBus, hes, Outcome.reply_playedTo]⟩
  | writeWord addr w =>
    obtain ⟨es, hes⟩ := m.exists_writeWord_playedTo addr w
    exact ⟨es, fun a => by simp only [serveBus, hes, Outcome.reply_playedTo]⟩

/-- What a machine does when it is shut down. -/
def farewell (now : Duration) : Turn where
  lead := m.bus.onShutdown.map .ofBusNotice
  signal := some (.ended now)
  rest := []

theorem shutdown_eq_playedTo (now : Duration) :
    m.shutdown now =
      { m with bus := m.bus.shutdown }.playedTo (m.audience.attend (m.farewell now)) := by
  obtain ⟨registers, bus, cycles, instructions, monitor, channel, exitCode, interrupted, logging,
    journal⟩ := m
  cases monitor with
  | none => simp [shutdown, emitBus_eq, playedTo, audience, farewell, Audience.attend, Audience.shown]
  | some w =>
    simp [shutdown, emitBus_eq, emitAll_eq, playedTo, audience, farewell, Audience.attend,
      Audience.shown, Monitor.told]

theorem shutdown_playedTo (now : Duration) (a : Audience) :
    (m.playedTo a).shutdown now = (m.shutdown now).playedTo (a.attend (m.farewell now)) := by
  rw [shutdown_eq_playedTo, shutdown_eq_playedTo]
  rfl

theorem receive_playedTo (a : Audience) :
    (m.playedTo a).receive = (m.receive.1, m.receive.2.playedTo a) := by
  have hchannel : (m.playedTo a).channel = m.channel := rfl
  unfold receive
  rw [hchannel]
  cases m.channel <;> rfl

variable {r : Request}

theorem exists_turn_of_answer (hr : r.runs = false) (hkeeps : r.keepsMonitor = true) :
    ∃ lead rest, ∀ a : Audience, (m.playedTo a).answer r =
      ((m.answer r).1, (m.answer r).2.playedTo (a.attend ⟨lead, m.signal? r, rest⟩)) := by
  have hquiet (hsignal : m.signal? r = none) (hseen : ∃ es, ∀ a : Audience,
      (m.playedTo a).answer r = ((m.answer r).1, (m.answer r).2.playedTo (a.see es))) :
      ∃ lead rest, ∀ a : Audience, (m.playedTo a).answer r =
        ((m.answer r).1, (m.answer r).2.playedTo (a.attend ⟨lead, m.signal? r, rest⟩)) := by
    obtain ⟨es, hes⟩ := hseen
    exact ⟨es, [], fun a => by rw [hsignal, Audience.attend_quiet, hes]⟩
  have hunseen (a : Audience) (next : Machine) : next.playedTo (a.see []) = next.playedTo a := by
    rw [Audience.see_nil]
  cases r with
  | bus request => exact hquiet rfl (m.exists_serveBus_playedTo request)
  | assign _ | raise | openChannel _ => exact hquiet rfl ⟨[], fun a => by rw [hunseen]; rfl⟩
  | receive =>
    exact hquiet rfl ⟨[], fun a => by simp only [answer, receive_playedTo, Audience.see_nil]⟩
  | reset =>
    obtain ⟨es, hes⟩ := m.exists_reset_playedTo
    exact hquiet rfl ⟨es, fun a => by simp only [answer, hes, Outcome.reply_playedTo]⟩
  | resetTo pc => exact hquiet rfl ⟨_, fun a => congrArg (Reply.done, ·) (m.resetTo_playedTo a pc)⟩
  | step =>
    obtain ⟨rest, hstep⟩ := m.exists_step_playedTo
    exact ⟨m.fetched, rest, fun a => by simp only [answer, hstep, Outcome.reply_playedTo]⟩
  | shutdown now =>
    exact ⟨_, _, fun a => congrArg (Reply.done, ·) (m.shutdown_playedTo now a)⟩
  | run | runFor _ => exact absurd hr Bool.noConfusion
  | attachMonitor _ | detachMonitor => exact absurd hkeeps Bool.noConfusion

/-- Whatever is asked of a machine, its audience makes no difference to the reply, nor to what the
machine does. -/
theorem exists_answer_playedTo (hkeeps : r.keepsMonitor = true) :
    ∃ ts, ∀ a : Audience, (m.playedTo a).answer r =
      ((m.answer r).1, (m.answer r).2.playedTo (a.attendAll ts)) := by
  cases hr : r.runs with
  | false =>
    obtain ⟨lead, rest, hturn⟩ := m.exists_turn_of_answer hr hkeeps
    exact ⟨[⟨lead, m.signal? r, rest⟩], hturn⟩
  | true =>
    cases r with
    | runFor n =>
      obtain ⟨ts, hts⟩ := exists_runFor_playedTo n m
      exact ⟨ts, fun a => by simp only [answer, hts, Outcome.reply_playedTo]⟩
    | run =>
      obtain ⟨ts, hts⟩ := m.exists_run_playedTo
      exact ⟨ts, fun a => by simp only [answer, hts, Outcome.reply_playedTo]⟩
    | _ => exact absurd hr Bool.noConfusion

end

end Machine

def Move.keepsMonitor : Move → Bool
  | .ask r => r.keepsMonitor
  | .proceed => true

namespace Session

def playedTo (s : Session) (a : Audience) : Session := { s with machine := s.machine.playedTo a }

end Session

namespace Moment

def signal? (v : Moment) : Option Signal :=
  match v.move with
  | .proceed => if v.before.phase.isStepping then v.before.machine.signal? .step else none
  | .ask r => if v.before.phase.isIdle then v.before.machine.signal? r else none

/-- What the monitor lets be seen of it. -/
def shown (v : Moment) : List Event := v.before.machine.audience.shown v.signal?

theorem signal?_playedTo (s : Session) (a : Audience) (move : Move) :
    signal? ⟨s.playedTo a, move⟩ = signal? ⟨s, move⟩ := by
  cases move with
  | proceed => rfl
  | ask r => cases r <;> rfl

theorem shown_playedTo (s : Session) (a : Audience) (move : Move) :
    shown ⟨s.playedTo a, move⟩ = a.shown (signal? ⟨s, move⟩) := by
  rw [← signal?_playedTo s a]
  rfl

end Moment

namespace Session

theorem exists_turn_of_proceed (s : Session) :
    ∃ lead rest, ∀ a : Audience, (s.playedTo a).proceed =
      (s.proceed.1, s.proceed.2.playedTo (a.attend ⟨lead, Moment.signal? ⟨s, .proceed⟩, rest⟩)) := by
  obtain ⟨m, phase⟩ := s
  cases phase with
  | idle =>
    refine ⟨[], [], fun a => ?_⟩
    exact congrArg (fun b => (none, Session.playedTo ⟨m, .idle⟩ b)) a.attend_nothing.symm
  | checking limit =>
    obtain ⟨es, hes⟩ := m.exists_poll_playedTo
    refine ⟨es, [], fun a => ?_⟩
    have hquiet : a.attend ⟨es, Moment.signal? ⟨⟨m, .checking limit⟩, .proceed⟩, []⟩ = a.see es :=
      a.attend_quiet es
    rw [hquiet]
    simp only [playedTo, proceed, hes]
    generalize m.poll = p
    obtain ⟨code | code, polled⟩ := p
    · obtain _ | _ | n := limit <;> rfl
    · rfl
  | stepping limit =>
    obtain ⟨rest, hstep⟩ := m.exists_step_playedTo
    refine ⟨m.fetched, rest, fun a => ?_⟩
    simp only [playedTo, proceed, hstep]
    cases m.step <;> rfl

theorem exists_turn_of_start (m : Machine) {r : Request} (hkeeps : r.keepsMonitor = true) :
    ∃ lead rest, ∀ a : Audience, start (m.playedTo a) r =
      ((start m r).1, (start m r).2.playedTo (a.attend ⟨lead, m.signal? r, rest⟩)) := by
  cases hruns : r.runs with
  | true =>
    refine ⟨[], [], fun a => ?_⟩
    cases r with
    | run | runFor _ => simp [start, playedTo, Machine.signal?]
    | _ => exact absurd hruns Bool.noConfusion
  | false =>
    obtain ⟨lead, rest, hturn⟩ := m.exists_turn_of_answer hruns hkeeps
    refine ⟨lead, rest, fun a => ?_⟩
    rw [start_eq_of_not_runs _ hruns, start_eq_of_not_runs _ hruns, hturn]
    rfl

/-- Every move takes one turn. -/
theorem exists_turn_of_make (s : Session) {move : Move} (hkeeps : move.keepsMonitor = true) :
    ∃ lead rest, ∀ a : Audience, (s.playedTo a).make move =
      ((s.make move).1,
        (s.make move).2.playedTo (a.attend ⟨lead, Moment.signal? ⟨s, move⟩, rest⟩)) := by
  obtain ⟨m, phase⟩ := s
  cases move with
  | proceed => exact exists_turn_of_proceed ⟨m, phase⟩
  | ask r =>
    cases hraises : r.raises with
    | true =>
      obtain rfl := Request.eq_raise hraises
      have hsignal : Moment.signal? ⟨⟨m, phase⟩, .ask .raise⟩ = none := by cases phase <;> rfl
      exact ⟨[], [], fun a => by rw [hsignal, Audience.attend_nothing]; rfl⟩
    | false =>
      cases hidle : phase.isIdle with
      | false =>
        exact ⟨[], [], fun a => by simp [make, hraises, hidle, playedTo, Moment.signal?]⟩
      | true =>
        obtain ⟨lead, rest, hturn⟩ := exists_turn_of_start m hkeeps
        exact ⟨lead, rest, fun a => by simp [make, hraises, hidle, playedTo, Moment.signal?, hturn]⟩

/-- Whoever the audience is, a session goes the same way and gets the same replies. What the monitor is
told is told by what happens. -/
theorem exists_turns_of_moves (s : Session) {moves : List Move}
    (hkeeps : ∀ move ∈ moves, move.keepsMonitor = true) :
    ∃ ts : List Turn, ts.map (·.signal) = (s.history moves).map (·.signal?) ∧
      ∀ a : Audience, serveAll make (s.playedTo a) moves =
        ((serveAll make s moves).1, (s.followedBy moves).playedTo (a.attendAll ts)) := by
  induction moves generalizing s with
  | nil => exact ⟨[], rfl, fun _ => rfl⟩
  | cons move rest ih =>
    obtain ⟨hmove, hrest⟩ := List.forall_mem_cons.1 hkeeps
    obtain ⟨lead, trail, hturn⟩ := s.exists_turn_of_make hmove
    obtain ⟨ts, hsignals, hts⟩ := ih (s.make move).2 hrest
    refine ⟨⟨lead, Moment.signal? ⟨s, move⟩, trail⟩ :: ts, ?_, fun a => ?_⟩
    · rw [history_cons, List.map_cons, List.map_cons, hsignals]
      rfl
    · simp only [serveAll, hturn, hts]
      rfl

theorem monitor_followedBy (s : Session) {moves : List Move}
    (hkeeps : ∀ move ∈ moves, move.keepsMonitor = true) :
    (s.followedBy moves).machine.monitor =
      s.machine.monitor.map (·.toldAll ((s.history moves).map (·.signal?))) := by
  obtain ⟨ts, hsignals, hts⟩ := s.exists_turns_of_moves hkeeps
  have hown : s.followedBy moves = (s.followedBy moves).playedTo (s.machine.audience.attendAll ts) :=
    congrArg Prod.snd (hts s.machine.audience)
  rw [hown, ← hsignals]
  exact s.machine.audience.monitor_attendAll ts

end Session
end Mos6502

import Mos6502.Proofs.Audience

/-! Logging as a filter. A log configuration changes nothing but what is kept of the log. Whatever is
done with a machine under one configuration, what is let be seen is what would be let be seen if
everything were logged, less the messages that the configuration does not admit: nothing is lost or
told twice, and nothing changes its place. -/
namespace Mos6502

namespace Event

def message? : Event → Option Message
  | .log message => some message
  | _ => none

/-- What is held back are messages that are not admitted. -/
theorem passes_eq (k : Log.Config) (e : Event) :
    e.passes k = e.message?.all fun message => k.admits message.category message.level := by
  cases e <;> rfl

theorem messages_filter (k : Log.Config) (es : List Event) :
    (es.filter (·.passes k)).filterMap message? =
      (es.filterMap message?).filter fun message => k.admits message.category message.level := by
  rw [List.filterMap_filter, List.filter_filterMap]
  refine congrArg (es.filterMap ·) (funext fun e => ?_)
  rw [passes_eq]
  cases e.message? with
  | none => rfl
  | some message => simp [Option.filter]

theorem others_filter (k : Log.Config) (es : List Event) :
    (es.filter (·.passes k)).filter (·.message?.isNone) = es.filter (·.message?.isNone) := by
  rw [List.filter_filter]
  refine List.filter_congr fun e _ => ?_
  rw [passes_eq]
  cases e.message? <;> simp

end Event

theorem Log.filterMap_submit (k : Log.Config) (messages : List Message) :
    (messages.filterMap fun message =>
      Log.submit k message.category message.level fun _ => message.text) =
      (messages.filter fun message => k.admits message.category message.level).map Message.record := by
  rw [← List.filterMap_eq_map, List.filterMap_filter]
  rfl

/-- Two audiences that differ in what is logged: all for the one, as much as `k` admits for the
other. -/
structure Audience.Filters (k : Log.Config) (a all : Audience) : Prop where
  monitor : a.monitor = all.monitor
  logging : a.logging = k
  everything : all.logging = .everything
  journal : a.journal.toList = all.journal.toList.filter (·.passes k)

namespace Audience.Filters
variable {k : Log.Config} {a all : Audience}

theorem attend (h : a.Filters k all) (t : Turn) : (a.attend t).Filters k (all.attend t) := by
  have hshown : a.shown t.signal = all.shown t.signal := by rw [shown, shown, h.monitor]
  have hall (es : List Event) : es.filter (·.passes all.logging) = es := by
    simp [h.everything]
  constructor
  · simp only [Audience.attend, h.monitor]
  · exact h.logging
  · exact h.everything
  · simp only [Audience.attend, Array.toList_append, hall, List.filter_append, h.journal, h.logging,
      hshown]

theorem attendAll (h : a.Filters k all) (ts : List Turn) :
    (a.attendAll ts).Filters k (all.attendAll ts) := by
  induction ts generalizing a all with
  | nil => exact h
  | cons t ts ih => exact ih (h.attend t)

end Audience.Filters

namespace Machine

/-- The same machine, where all is logged and where no more is logged than `k` admits. -/
def Filters (k : Log.Config) (m all : Machine) : Prop :=
  ∃ a : Audience, all = m.playedTo a ∧ m.audience.Filters k a

section
variable {k : Log.Config} {m all next : Machine}

theorem Filters.of_turns {a : Audience} (h : m.audience.Filters k a) {ts : List Turn}
    (hown : next = next.playedTo (m.audience.attendAll ts)) :
    next.Filters k (next.playedTo (a.attendAll ts)) := by
  have haudience : next.audience = m.audience.attendAll ts := by rw [hown, audience_playedTo]
  exact ⟨a.attendAll ts, rfl, haudience ▸ h.attendAll ts⟩

theorem Filters.watchedBy (h : m.Filters k all) (w : Option Monitor) :
    Filters k { m with monitor := w } { all with monitor := w } := by
  obtain ⟨a, rfl, ha⟩ := h
  exact ⟨{ a with monitor := w }, rfl, { ha with monitor := rfl }⟩

theorem Filters.answer (h : m.Filters k all) (r : Request) :
    (m.answer r).1 = (all.answer r).1 ∧ (m.answer r).2.Filters k (all.answer r).2 := by
  cases hkeeps : r.keepsMonitor with
  | true =>
    obtain ⟨a, rfl, ha⟩ := h
    obtain ⟨ts, hts⟩ := m.exists_answer_playedTo hkeeps
    rw [hts a]
    exact ⟨rfl, .of_turns ha (congrArg Prod.snd (hts m.audience))⟩
  | false =>
    cases r with
    | attachMonitor w => exact ⟨rfl, h.watchedBy (some w)⟩
    | detachMonitor => exact ⟨rfl, h.watchedBy none⟩
    | _ => exact absurd hkeeps Bool.noConfusion

def mount (m : Machine) (name : String) (base : Word) (backend : Backend) : Reply × Machine :=
  Outcome.reply (fun _ => .done) .refused (m.attach name base backend)

theorem Filters.mount (h : m.Filters k all) (name : String) (base : Word) (backend : Backend) :
    (m.mount name base backend).1 = (all.mount name base backend).1 ∧
      (m.mount name base backend).2.Filters k (all.mount name base backend).2 := by
  obtain ⟨a, rfl, ha⟩ := h
  obtain ⟨es, hes⟩ := m.exists_attach_playedTo name base backend
  have hmount (a : Audience) : (m.playedTo a).mount name base backend =
      ((m.mount name base backend).1,
        (m.mount name base backend).2.playedTo (a.attendAll [⟨es, none, []⟩])) := by
    rw [Audience.attendAll_cons, Audience.attendAll_nil, Audience.attend_quiet]
    simp only [Machine.mount, hes, Outcome.reply_playedTo]
  rw [hmount a]
  exact ⟨rfl, .of_turns ha (congrArg Prod.snd (hmount m.audience))⟩

end

def loggedBy (m : Machine) (k : Log.Config) : Machine := { m with logging := k, journal := #[] }

theorem filters_loggedBy (m : Machine) (k : Log.Config) :
    (m.loggedBy k).Filters k (m.loggedBy .everything) :=
  ⟨⟨m.monitor, .everything, #[]⟩, rfl, rfl, rfl, rfl, rfl⟩

def messages (m : Machine) : List Message := m.journal.toList.filterMap Event.message?

/-- What the keeper of the log has been handed. -/
def records (m : Machine) : List Log.Record := m.messages.map Message.record

/-- Two machines that have done the same. All that the one has to say has been logged; of the messages
of the other, those that `k` admits. -/
structure LogsLess (k : Log.Config) (m all : Machine) : Prop where
  /-- The log that is kept is what is left of all messages if each is handed in under `k`. -/
  records : m.records = all.messages.filterMap fun message =>
    Log.submit k message.category message.level fun _ => message.text
  others : m.journal.toList.filter (·.message?.isNone) =
    all.journal.toList.filter (·.message?.isNone)
  journal : m.journal.toList = all.journal.toList.filter (·.passes k)
  same : all = { m with logging := .everything, journal := all.journal }

theorem Filters.logsLess {k : Log.Config} {m all : Machine} (h : m.Filters k all) :
    m.LogsLess k all := by
  obtain ⟨a, rfl, ha⟩ := h
  have hjournal : m.journal.toList = a.journal.toList.filter (·.passes k) := ha.journal
  refine ⟨?_, ?_, hjournal, ?_⟩
  · change (m.journal.toList.filterMap Event.message?).map Message.record = _
    rw [hjournal, Event.messages_filter, Log.filterMap_submit]
    rfl
  · change _ = a.journal.toList.filter _
    rw [hjournal, Event.others_filter]
  · have hmonitor : a.monitor = m.monitor := ha.monitor.symm
    have hlogging : a.logging = .everything := ha.everything
    simp only [playedTo, hmonitor, hlogging]

end Machine

/-- What can be done in a session: a move, or a backend of any kind is mounted on an idle machine. -/
inductive Deed
  | move (move : Move)
  | mount (name : String) (base : Word) (backend : Backend)

namespace Session

def perform (s : Session) : Deed → Option Reply × Session
  | .move move => s.make move
  | .mount name base backend =>
    if s.phase.isIdle then
      let mounted := s.machine.mount name base backend
      (some mounted.1, { s with machine := mounted.2 })
    else (none, s)

structure Filters (k : Log.Config) (s all : Session) : Prop where
  phase : s.phase = all.phase
  machine : s.machine.Filters k all.machine

variable {k : Log.Config} {s all : Session}

theorem Filters.make (h : s.Filters k all) (move : Move) :
    (s.make move).1 = (all.make move).1 ∧ (s.make move).2.Filters k (all.make move).2 := by
  cases hkeeps : move.keepsMonitor with
  | true =>
    obtain ⟨phase, a, hall, ha⟩ := h
    obtain rfl : all = s.playedTo a := by rw [playedTo, phase, ← hall]
    obtain ⟨lead, rest, hturn⟩ := s.exists_turn_of_make hkeeps
    have hown : (s.make move).2.machine = (s.make move).2.machine.playedTo
        (s.machine.audience.attendAll [⟨lead, Moment.signal? ⟨s, move⟩, rest⟩]) :=
      congrArg (fun x => x.2.machine) (hturn s.machine.audience)
    rw [hturn a]
    exact ⟨rfl, rfl, .of_turns ha hown⟩
  | false =>
    have hstart (w : Option Monitor) : Filters k ⟨{ s.machine with monitor := w }, .idle⟩
        ⟨{ all.machine with monitor := w }, .idle⟩ := ⟨rfl, h.machine.watchedBy w⟩
    cases move with
    | proceed => exact absurd hkeeps Bool.noConfusion
    | ask r =>
      cases r with
      | attachMonitor w =>
        simp only [Session.make, Request.raises, h.phase]
        cases all.phase.isIdle with
        | true => exact ⟨rfl, hstart (some w)⟩
        | false => exact ⟨rfl, h⟩
      | detachMonitor =>
        simp only [Session.make, Request.raises, h.phase]
        cases all.phase.isIdle with
        | true => exact ⟨rfl, hstart none⟩
        | false => exact ⟨rfl, h⟩
      | _ => exact absurd hkeeps Bool.noConfusion

theorem Filters.perform (h : s.Filters k all) (deed : Deed) :
    (s.perform deed).1 = (all.perform deed).1 ∧
      (s.perform deed).2.Filters k (all.perform deed).2 := by
  cases deed with
  | move move => exact h.make move
  | mount name base backend =>
    simp only [Session.perform, h.phase]
    cases all.phase.isIdle with
    | true =>
      obtain ⟨hreply, hmachine⟩ := h.machine.mount name base backend
      exact ⟨congrArg some hreply, rfl, hmachine⟩
    | false => exact ⟨rfl, h⟩

end Session

/-- Whatever is done with a machine under a log configuration, in whatever order, the replies are the
ones that come if everything is logged, and so is what is let be seen, less the messages that the
configuration does not admit. That goes for moves that come between the instructions of a run, and
for requests that are served as a whole. -/
theorem Machine.log_filters (m : Machine) (k : Log.Config) :
    (∀ deeds : List Deed,
      (serveAll Session.perform ⟨m.loggedBy k, .idle⟩ deeds).1 =
        (serveAll Session.perform ⟨m.loggedBy .everything, .idle⟩ deeds).1 ∧
      (serveAll Session.perform ⟨m.loggedBy k, .idle⟩ deeds).2.machine.LogsLess k
        (serveAll Session.perform ⟨m.loggedBy .everything, .idle⟩ deeds).2.machine) ∧
    ∀ rs : List Request,
      (serveAll Machine.answer (m.loggedBy k) rs).1 =
        (serveAll Machine.answer (m.loggedBy .everything) rs).1 ∧
      (serveAll Machine.answer (m.loggedBy k) rs).2.LogsLess k
        (serveAll Machine.answer (m.loggedBy .everything) rs).2 := by
  have hstart := m.filters_loggedBy k
  refine ⟨fun deeds => ?_, fun rs => ?_⟩
  · have hidle : Session.Filters k ⟨m.loggedBy k, .idle⟩ ⟨m.loggedBy .everything, .idle⟩ :=
      ⟨rfl, hstart⟩
    obtain ⟨hreplies, hend⟩ :=
      serveAll_simulation (R := Session.Filters k) (fun _ _ deed h => h.perform deed) hidle deeds
    exact ⟨hreplies, hend.machine.logsLess⟩
  · obtain ⟨hreplies, hend⟩ :=
      serveAll_simulation (R := Machine.Filters k) (fun _ _ r h => h.answer r) hstart rs
    exact ⟨hreplies, hend.logsLess⟩

end Mos6502

import Mos6502.Proofs.Audience
import Mos6502.Proofs.Encoding

/-! A reset is all or nothing, and a new beginning. Without a vector it changes nothing; with one it
makes a machine forget where it was, how it was going to go on, and whether it had stopped. Two
machines that differ in nothing else cannot be told apart from then on. -/
namespace Mos6502

/-- A word cannot be read where one of its two bytes is missing. The first that is missing is named. -/
theorem Bus.readWord_eq_error_iff {bus : Bus} {a : Word} {e : BusError} :
    bus.readWord a = .error e ↔
      (bus.isMapped a = false ∨ bus.isMapped (a + 1) = false) ∧
        e = .unmapped (if bus.isMapped a then a + 1 else a) := by
  unfold readWord
  cases hlow : bus.isMapped a with
  | false =>
    rw [read_of_not_isMapped hlow]
    simp only [bind, Except.bind, Except.error.injEq, true_or, true_and, if_neg Bool.false_ne_true]
    exact eq_comm
  | true =>
    obtain ⟨low, hread⟩ := read_of_isMapped hlow
    rw [hread]
    cases hhigh : bus.isMapped (a + 1) with
    | false =>
      rw [read_of_not_isMapped hhigh]
      simp only [bind, Except.bind, Except.error.injEq, or_true, true_and, if_true]
      exact eq_comm
    | true =>
      obtain ⟨high, hread⟩ := read_of_isMapped hhigh
      rw [hread]
      simp [bind, Except.bind, pure, Except.pure]

def Audience.behind (a : Audience) (past : Array Event) : Audience :=
  { a with journal := past ++ a.journal }

theorem Audience.attendAll_behind (a : Audience) (past : Array Event) (ts : List Turn) :
    (a.behind past).attendAll ts = (a.attendAll ts).behind past := by
  induction ts generalizing a with
  | nil => rfl
  | cons t ts ih =>
    have hturn : (a.behind past).attend t = (a.attend t).behind past := by
      simp only [attend, behind, shown, Array.append_assoc]
    rw [attendAll_cons, attendAll_cons, hturn, ih]

namespace Machine
variable {m m' : Machine}

def vectorSeen (m : Machine) : Array Event :=
  (((m.bus.onReadWord resetVector).map Event.ofBusNotice).filter (·.passes m.logging)).toArray

/-- What a reset does: all or nothing. Only a device that the vector is read from takes note of it. -/
structure ResetsAtomically (m : Machine) : Prop where
  fails_iff : (∃ f m', m.reset = .error f m') ↔
    m.bus.isMapped 0xFFFC = false ∨ m.bus.isMapped 0xFFFD = false
  of_error : ∀ f m', m.reset = .error f m' →
    f = .bus m.registers.pc none (.unmapped (if m.bus.isMapped 0xFFFC then 0xFFFD else 0xFFFC)) ∧
      m' = { m with journal := m.journal ++ m.vectorSeen }
  of_ok : ∀ m', m.reset = .ok () m' → ∃ start, m.bus.readWord 0xFFFC = .ok start ∧
    m' = { m with journal := m.journal ++ m.vectorSeen }.resetTo start
  seen_of_isPlain : m.bus.isPlain = true → m.vectorSeen = #[]

theorem resetsAtomically (m : Machine) : m.ResetsAtomically := by
  have hseen : m.emitBus (m.bus.onReadWord resetVector) =
      { m with journal := m.journal ++ m.vectorSeen } := m.emitBus_eq _
  have hplain (hp : m.bus.isPlain = true) : m.vectorSeen = #[] := by
    simp [vectorSeen, Bus.onReadWord_of_isPlain hp]
  cases hvector : m.bus.readWord resetVector with
  | ok start =>
    have hreset : m.reset =
        .ok () ({ m with journal := m.journal ++ m.vectorSeen }.resetTo start) := by
      simp only [reset, readWord, hvector, hseen]
    have hmapped : ¬(m.bus.isMapped 0xFFFC = false ∨ m.bus.isMapped 0xFFFD = false) := fun hgap => by
      have herror : m.bus.readWord resetVector = _ := Bus.readWord_eq_error_iff.2 ⟨hgap, rfl⟩
      simp [hvector] at herror
    constructor
    case fails_iff => simp [hreset, hmapped]
    case of_error => simp [hreset]
    case of_ok =>
      intro m' hm'
      rw [hreset] at hm'
      obtain rfl : _ = m' := by simpa using hm'
      exact ⟨start, hvector, rfl⟩
    case seen_of_isPlain => exact hplain
  | error e =>
    have hreset : m.reset = .error (.bus m.registers.pc none e)
        { m with journal := m.journal ++ m.vectorSeen } := by
      simp only [reset, readWord, hvector, hseen]
    obtain ⟨hgap, he⟩ := Bus.readWord_eq_error_iff.1 hvector
    constructor
    case fails_iff => exact iff_of_true ⟨_, _, hreset⟩ hgap
    case of_error =>
      intro f m' hm'
      rw [hreset] at hm'
      obtain ⟨rfl, rfl⟩ : _ = f ∧ _ = m' := by simpa using hm'
      exact ⟨by rw [he]; rfl, rfl⟩
    case of_ok => simp [hreset]
    case seen_of_isPlain => exact hplain

/-- The machine, had it let other things be seen before. -/
def behind (m : Machine) (past : Array Event) : Machine := { m with journal := past ++ m.journal }

theorem playedTo_behind {past : Array Event} {ts : List Turn}
    (h : m = m.playedTo (m'.audience.attendAll ts)) :
    m.playedTo ((m'.audience.behind past).attendAll ts) = m.behind past := by
  rw [Audience.attendAll_behind]
  conv_rhs => rw [h]
  rfl

/-- What has been seen before makes no difference to what is seen next, nor to anything else. -/
theorem answer_behind (m : Machine) (past : Array Event) (r : Request) :
    (m.behind past).answer r = ((m.answer r).1, (m.answer r).2.behind past) := by
  cases hkeeps : r.keepsMonitor with
  | true =>
    obtain ⟨ts, hts⟩ := m.exists_answer_playedTo hkeeps
    have hown : (m.answer r).2 = (m.answer r).2.playedTo (m.audience.attendAll ts) :=
      congrArg Prod.snd (hts m.audience)
    rw [← playedTo_behind hown]
    exact hts (m.audience.behind past)
  | false =>
    cases r with
    | attachMonitor _ | detachMonitor => rfl
    | _ => exact absurd hkeeps Bool.noConfusion

/-- Two machines with the same memory, data, counters, monitor, channel and log configuration. They may
be at different places in different programs, one may have stopped or be about to, and they need not
have let the same things be seen. -/
structure SameButControl (m m' : Machine) : Prop where
  data : ∀ d, m'.registers.get d = m.registers.get d
  stackPointer : m'.registers.sp = m.registers.sp
  bus : m'.bus = m.bus
  cycles : m'.cycles = m.cycles
  instructions : m'.instructions = m.instructions
  monitor : m'.monitor = m.monitor
  channel : m'.channel = m.channel
  logging : m'.logging = m.logging

theorem SameButControl.exists_resetTo (h : m.SameButControl m') (pc : Word) :
    ∃ fresh : Machine, m.resetTo pc = fresh.behind m.journal ∧
      m'.resetTo pc = fresh.behind m'.journal := by
  have hregisters : { m'.registers with pc, status := .atReset } =
      { m.registers with pc, status := .atReset } := by
    have ha : m'.registers.a = m.registers.a := h.data .a
    have hx : m'.registers.x = m.registers.x := h.data .x
    have hy : m'.registers.y = m.registers.y := h.data .y
    simp only [ha, hx, hy, h.stackPointer]
  refine ⟨{ m with journal := #[] }.resetTo pc, ?_, ?_⟩
  · simp [resetTo, emit_eq, behind]
  · simp [resetTo, emit_eq, behind, hregisters, h.bus, h.cycles, h.instructions, h.monitor, h.channel,
      h.logging]

end Machine

namespace Session

def behind (s : Session) (past : Array Event) : Session :=
  { s with machine := s.machine.behind past }

theorem make_behind (s : Session) (past : Array Event) (move : Move) :
    (s.behind past).make move = ((s.make move).1, (s.make move).2.behind past) := by
  cases hkeeps : move.keepsMonitor with
  | true =>
    obtain ⟨lead, rest, hturn⟩ := s.exists_turn_of_make hkeeps
    let turn : Turn := ⟨lead, Moment.signal? ⟨s, move⟩, rest⟩
    have hown : (s.make move).2.machine =
        (s.make move).2.machine.playedTo (s.machine.audience.attendAll [turn]) :=
      congrArg (·.2.machine) (hturn s.machine.audience)
    rw [behind, behind, ← Machine.playedTo_behind hown]
    exact hturn (s.machine.audience.behind past)
  | false =>
    obtain ⟨m, phase⟩ := s
    cases move with
    | proceed => exact absurd hkeeps Bool.noConfusion
    | ask r =>
      cases r with
      | attachMonitor _ | detachMonitor => cases phase <;> rfl
      | _ => exact absurd hkeeps Bool.noConfusion

end Session

namespace Machine

/-- A reset that finds no vector changes nothing; and a machine that starts over has forgotten what it
was about. -/
theorem reset_forgets :
    (∀ m : Machine, m.ResetsAtomically) ∧
    ∀ (m m' : Machine) (pc : Word), m.SameButControl m' →
      (∀ rs : List Request, ∃ (replies : List Reply) (next : Machine),
        serveAll answer (m.resetTo pc) rs = (replies, next.behind m.journal) ∧
        serveAll answer (m'.resetTo pc) rs = (replies, next.behind m'.journal)) ∧
      ∀ moves : List Move, ∃ (replies : List (Option Reply)) (next : Session),
        serveAll Session.make ⟨m.resetTo pc, .idle⟩ moves = (replies, next.behind m.journal) ∧
        serveAll Session.make ⟨m'.resetTo pc, .idle⟩ moves =
          (replies, next.behind m'.journal) := by
  refine ⟨resetsAtomically, fun m m' pc h => ?_⟩
  obtain ⟨fresh, hm, hm'⟩ := h.exists_resetTo pc
  rw [hm, hm']
  refine ⟨fun rs => ?_, fun moves => ?_⟩
  · have hserve (past : Array Event) :=
      serveAll_map (f := (behind · past)) (fun m r => m.answer_behind past r) fresh rs
    exact ⟨_, _, hserve _, hserve _⟩
  · have hserve (past : Array Event) :=
      serveAll_map (f := (Session.behind · past)) (fun s move => s.make_behind past move)
        ⟨fresh, .idle⟩ moves
    exact ⟨_, _, hserve _, hserve _⟩

/-- A machine with an instruction at the first address and no reset vector, left in one state or
another. -/
def leftAt (pc : Word) (status : Status) (exitCode : Option Byte) (interrupted : Bool)
    (journal : Array Event) : Machine where
  registers := { pc, a := 0x01, status }
  bus := ⟨[⟨"code", 0x0000, .ram #[0x69, 0x01], by simp [Backend.size], by simp [Backend.size]⟩]⟩
  exitCode := exitCode
  interrupted := interrupted
  journal := journal

/-- One has stopped, been interrupted since, and gone astray; the other is new. -/
theorem sameButControl_leftAt :
    (leftAt 0x1234 { carry := true } (some 0x07) true #[.log (.reset 0x0000)]).SameButControl
      (leftAt 0x0000 {} none false #[]) where
  data _ := rfl
  stackPointer := rfl
  bus := rfl
  cycles := rfl
  instructions := rfl
  monitor := rfl
  channel := rfl
  logging := rfl

set_option maxRecDepth 2000 in
theorem reset_forgets_leftAt :
    ∃ next : Machine,
      serveAll answer ((leftAt 0x1234 { carry := true } (some 0x07) true
        #[.log (.reset 0x0000)]).resetTo 0x0000) [.step, .runFor 1] =
          ([.cycles 2, .faulted (.bus 0x0002 none (.unmapped 0x0002))],
            next.behind #[.log (.reset 0x0000)]) ∧
      serveAll answer ((leftAt 0x0000 {} none false #[]).resetTo 0x0000) [.step, .runFor 1] =
        ([.cycles 2, .faulted (.bus 0x0002 none (.unmapped 0x0002))], next.behind #[]) := by
  obtain ⟨-, hforgets⟩ := reset_forgets
  obtain ⟨hrequests, -⟩ := hforgets _ _ 0x0000 sameButControl_leftAt
  obtain ⟨replies, next, hleft, hnew⟩ := hrequests [.step, .runFor 1]
  have hreplies : [.cycles 2, .faulted (.bus 0x0002 none (.unmapped 0x0002))] = replies :=
    congrArg Prod.fst hnew
  rw [hreplies]
  exact ⟨next, hleft, hnew⟩

end Machine
end Mos6502

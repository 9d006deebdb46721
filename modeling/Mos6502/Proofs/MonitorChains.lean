import Mos6502.Proofs.Audience

/-! Chains of monitors. A chain is no more than its members. Each of them is told what it would be told
if it were attached alone, lets the same be seen of it and becomes the same; what the chain lets be
seen is what its members do, in order. The members of a chain within a chain might as well be members
of the outer one. -/
namespace Mos6502

namespace Monitor

theorem observeAll_eq (o : Observation) (ws : List Monitor) :
    observeAll o ws = (ws.map fun w => (w.observe o).1, ws.flatMap fun w => (w.observe o).2) := by
  induction ws with
  | nil => rfl
  | cons w rest ih => rw [observeAll, ih]; rfl

theorem shutdownAll_eq (now : Duration) (ws : List Monitor) :
    shutdownAll now ws = ws.flatMap (shutdown now) := by
  induction ws with
  | nil => rfl
  | cons w rest ih => rw [shutdownAll, ih]; rfl

section
variable (signal : Option Signal) (signals : List (Option Signal))

/-- A chain is told something when all of its members are. -/
theorem told_chain (ws : List Monitor) :
    (chain ws).told signal =
      (ws.flatMap fun w => (w.told signal).1, chain (ws.map fun w => (w.told signal).2)) := by
  cases signal with
  | none => simp [told]
  | some signal =>
    cases signal with
    | about o => simp only [told, observe, observeAll_eq]
    | ended now => simp [told, shutdown, shutdownAll_eq]

theorem toldAll_chain (ws : List Monitor) :
    (chain ws).toldAll signals = chain (ws.map (·.toldAll signals)) := by
  induction signals generalizing ws with
  | nil => simp
  | cons signal signals ih =>
    simp only [toldAll_cons, told_chain, ih, List.map_map]
    rfl

/-- What a monitor lets be seen and becomes, told by the monitors in it that are no chains. -/
structure ToldByLeaves (w : Monitor) : Prop where
  shown : (w.told signal).1 = w.leaves.flatMap fun leaf => (leaf.told signal).1
  leaves : (w.told signal).2.leaves = w.leaves.map fun leaf => (leaf.told signal).2

theorem leaves_told_of_leaf {w : Monitor} (h : ∀ ws, w ≠ chain ws) :
    (w.told signal).2.leaves = [(w.told signal).2] := by
  obtain _ | _ | _ := signal
  · cases w <;> first | rfl | exact absurd rfl (h _)
  · cases w with
    | tracer sink => cases sink <;> rfl
    | chain members => exact absurd rfl (h members)
    | _ => rfl
  · cases w <;> first | rfl | exact absurd rfl (h _)

theorem toldByLeaves_of_leaf {w : Monitor} (h : ∀ ws, w ≠ chain ws) : w.ToldByLeaves signal := by
  have hself : w.leaves = [w] := leaves_told_of_leaf none h
  constructor
  · simp [hself]
  · simp [hself, leaves_told_of_leaf signal h]

mutual

theorem toldByLeaves : ∀ w : Monitor, w.ToldByLeaves signal
  | .tracer _ => toldByLeaves_of_leaf signal nofun
  | .logTracer => toldByLeaves_of_leaf signal nofun
  | .speedometer _ => toldByLeaves_of_leaf signal nofun
  | .recorder _ => toldByLeaves_of_leaf signal nofun
  | .breakpoints _ => toldByLeaves_of_leaf signal nofun
  | .chain members => by
    obtain ⟨hshown, hleaves⟩ := toldByLeaves_all members
    constructor <;> rw [told_chain]
    · exact hshown
    · exact hleaves

theorem toldByLeaves_all : ∀ ws : List Monitor,
    (ws.flatMap fun w => (w.told signal).1) = (leavesAll ws).flatMap (fun w => (w.told signal).1) ∧
      leavesAll (ws.map fun w => (w.told signal).2) = (leavesAll ws).map fun w => (w.told signal).2
  | [] => ⟨rfl, rfl⟩
  | w :: rest => by
    obtain ⟨hshown, hleaves⟩ := toldByLeaves w
    obtain ⟨hshown', hleaves'⟩ := toldByLeaves_all rest
    simp [leavesAll, hshown, hleaves, hshown', hleaves']

end

def flat (w : Monitor) : Monitor := chain w.leaves

theorem told_flat (w : Monitor) :
    w.flat.told signal = ((w.told signal).1, (w.told signal).2.flat) := by
  obtain ⟨hshown, hleaves⟩ := w.toldByLeaves signal
  rw [flat, told_chain, flat, hshown, hleaves]

end
end Monitor

namespace Audience

def watchedBy (a : Audience) (w : Monitor) : Audience := { a with monitor := some w }

def flat (a : Audience) : Audience := { a with monitor := a.monitor.map (·.flat) }

theorem attend_flat (a : Audience) (t : Turn) : a.flat.attend t = (a.attend t).flat := by
  obtain ⟨monitor, logging, journal⟩ := a
  cases monitor with
  | none => rfl
  | some w => simp [attend, flat, shown, Monitor.told_flat]

theorem attendAll_flat (a : Audience) (ts : List Turn) :
    a.flat.attendAll ts = (a.attendAll ts).flat := by
  induction ts generalizing a with
  | nil => rfl
  | cons t ts ih => rw [attendAll_cons, attendAll_cons, attend_flat, ih]

end Audience

namespace Session

def watchedBy (s : Session) (w : Monitor) : Session :=
  { s with machine := { s.machine with monitor := some w } }

def flat (s : Session) : Session := s.playedTo s.machine.audience.flat

/-- What becomes of a chain in a session, beside each of its members attached alone. -/
structure ActsAsMembers (s : Session) (ws : List Monitor) (moves : List Move) : Prop where
  shown : ∀ front move back, moves = front ++ move :: back →
    Moment.shown ⟨(s.watchedBy (.chain ws)).followedBy front, move⟩ =
      ws.flatMap fun w => Moment.shown ⟨(s.watchedBy w).followedBy front, move⟩
  journal : ∀ front move back, moves = front ++ move :: back → ∃ lead rest, ∀ w,
    let v : Moment := ⟨(s.watchedBy w).followedBy front, move⟩
    v.after.machine.journal = v.before.machine.journal ++
      ((lead ++ v.shown ++ rest).filter (·.passes s.machine.logging)).toArray
  members : ∃ become : Monitor → Monitor,
    (∀ w, ((s.watchedBy w).followedBy moves).machine.monitor = some (become w)) ∧
      become (.chain ws) = .chain (ws.map become)
  /-- With the monitors in it that are no chains, in one chain, all goes the same way. -/
  flat : serveAll make (s.watchedBy (Monitor.chain ws).flat) moves =
    ((serveAll make (s.watchedBy (.chain ws)) moves).1,
      ((s.watchedBy (.chain ws)).followedBy moves).flat)

section
variable {moves : List Move} (s : Session)

theorem exists_turns_of_watchedBy (hkeeps : ∀ move ∈ moves, move.keepsMonitor = true) :
    ∃ ts : List Turn, ts.map (·.signal) = (s.history moves).map (·.signal?) ∧
      ∀ w, serveAll make (s.watchedBy w) moves = ((serveAll make s moves).1,
        (s.followedBy moves).playedTo ((s.machine.audience.watchedBy w).attendAll ts)) := by
  obtain ⟨ts, hsignals, hts⟩ := s.exists_turns_of_moves hkeeps
  exact ⟨ts, hsignals, fun w => hts (s.machine.audience.watchedBy w)⟩

theorem monitor_watchedBy (hkeeps : ∀ move ∈ moves, move.keepsMonitor = true) (w : Monitor) :
    ((s.watchedBy w).followedBy moves).machine.monitor =
      some (w.toldAll ((s.history moves).map (·.signal?))) := by
  obtain ⟨ts, hsignals, hts⟩ := s.exists_turns_of_watchedBy hkeeps
  rw [followedBy, hts, ← hsignals]
  exact Audience.monitor_attendAll _ ts

/-- What a monitor lets be seen of a move is told by what it has been told before. -/
theorem shown_watchedBy (hkeeps : ∀ move ∈ moves, move.keepsMonitor = true) (w : Monitor)
    (move : Move) :
    Moment.shown ⟨(s.watchedBy w).followedBy moves, move⟩ =
      ((w.toldAll ((s.history moves).map (·.signal?))).told
        (Moment.signal? ⟨s.followedBy moves, move⟩)).1 := by
  obtain ⟨ts, hsignals, hts⟩ := s.exists_turns_of_watchedBy hkeeps
  rw [followedBy, hts, ← hsignals, Moment.shown_playedTo, Audience.shown,
    Audience.monitor_attendAll]
  rfl

theorem exists_journal_watchedBy (hkeeps : ∀ move ∈ moves, move.keepsMonitor = true) {move : Move}
    (hmove : move.keepsMonitor = true) :
    ∃ lead rest, ∀ w,
      let v : Moment := ⟨(s.watchedBy w).followedBy moves, move⟩
      v.after.machine.journal = v.before.machine.journal ++
        ((lead ++ v.shown ++ rest).filter (·.passes s.machine.logging)).toArray := by
  obtain ⟨ts, -, hts⟩ := s.exists_turns_of_watchedBy hkeeps
  obtain ⟨lead, rest, hturn⟩ := (s.followedBy moves).exists_turn_of_make hmove
  refine ⟨lead, rest, fun w => ?_⟩
  have hbefore : (s.watchedBy w).followedBy moves =
      (s.followedBy moves).playedTo ((s.machine.audience.watchedBy w).attendAll ts) :=
    congrArg Prod.snd (hts w)
  have hlogging : ((s.machine.audience.watchedBy w).attendAll ts).logging = s.machine.logging :=
    Audience.logging_attendAll _ ts
  dsimp only
  rw [hbefore, Moment.shown_playedTo, Moment.after, hturn, ← hlogging]
  rfl

theorem serveAll_flat (hkeeps : ∀ move ∈ moves, move.keepsMonitor = true) (w : Monitor) :
    serveAll make (s.watchedBy w.flat) moves =
      ((serveAll make (s.watchedBy w) moves).1, ((s.watchedBy w).followedBy moves).flat) := by
  obtain ⟨ts, -, hts⟩ := s.exists_turns_of_watchedBy hkeeps
  have hflat := Audience.attendAll_flat (s.machine.audience.watchedBy w) ts
  rw [followedBy, hts, hts]
  exact congrArg (fun a => (_, playedTo (s.followedBy moves) a)) hflat

/-- In a session in which nobody else attaches or detaches a monitor, the members of a chain do as each
of them would do alone, and so does a chain within a chain. -/
theorem chain_acts_as_members (ws : List Monitor)
    (hkeeps : ∀ move ∈ moves, move.keepsMonitor = true) : s.ActsAsMembers ws moves := by
  have hfront {front back : List Move} {move : Move} (h : moves = front ++ move :: back) :
      (∀ move ∈ front, move.keepsMonitor = true) ∧ move.keepsMonitor = true := by
    rw [h, List.forall_mem_append, List.forall_mem_cons] at hkeeps
    exact ⟨hkeeps.1, hkeeps.2.1⟩
  constructor
  · intro front move back hmoves
    simp only [s.shown_watchedBy (hfront hmoves).1, Monitor.toldAll_chain, Monitor.told_chain,
      List.flatMap_map]
  · intro front move back hmoves
    exact s.exists_journal_watchedBy (hfront hmoves).1 (hfront hmoves).2
  · exact ⟨_, s.monitor_watchedBy hkeeps, Monitor.toldAll_chain _ ws⟩
  · exact s.serveAll_flat hkeeps (.chain ws)

end

/-- A recorder, and a chain of a speedometer and of breakpoints at the first instruction of
`Machine.counting`. -/
def watchers : List Monitor :=
  [.recorder 1, .chain [.speedometer {},
    .breakpoints { points := [.address 0x0200], handler := .script [.step] }]]

def stepAndShutdowns : List Move := [.ask .step, .ask (.shutdown {}), .ask (.shutdown {})]

def increment : Instruction := ⟨0x0200, ⟨0xE8, .inx, .implied, 2⟩, .none⟩

set_option maxRecDepth 2000 in
theorem shown_alone :
    (watchers.flatMap fun w => Moment.shown ⟨watchedBy ⟨Machine.counting, .idle⟩ w, .ask .step⟩) =
        [.seen 1 Machine.counting.registers increment 0,
          .log (.breakpoint (.address 0x0200) Machine.counting.registers increment),
          .stopped Machine.counting.registers increment] ∧
      (watchers.flatMap fun w => Moment.shown
        ⟨(watchedBy ⟨Machine.counting, .idle⟩ w).followedBy [.ask .step], .ask (.shutdown {})⟩) =
        [.seenShutdown 1, .log (.speed ⟨1, 2, {}⟩)] := ⟨rfl, rfl⟩

theorem chain_acts_as_members_counting :
    (∀ move ∈ stepAndShutdowns, move.keepsMonitor = true) ∧
      Moment.shown ⟨watchedBy ⟨Machine.counting, .idle⟩ (.chain watchers), .ask .step⟩ =
        [.seen 1 Machine.counting.registers increment 0,
          .log (.breakpoint (.address 0x0200) Machine.counting.registers increment),
          .stopped Machine.counting.registers increment] ∧
      Moment.shown ⟨(watchedBy ⟨Machine.counting, .idle⟩ (.chain watchers)).followedBy [.ask .step],
        .ask (.shutdown {})⟩ = [.seenShutdown 1, .log (.speed ⟨1, 2, {}⟩)] := by
  have hkeeps : ∀ move ∈ stepAndShutdowns, move.keepsMonitor = true := by decide
  have h : ActsAsMembers ⟨Machine.counting, .idle⟩ watchers stepAndShutdowns :=
    chain_acts_as_members _ watchers hkeeps
  have hstep := h.shown [] _ _ rfl
  have hshutdown := h.shown [.ask .step] _ _ rfl
  exact ⟨hkeeps, hstep.trans shown_alone.1, hshutdown.trans shown_alone.2⟩

end Session
end Mos6502

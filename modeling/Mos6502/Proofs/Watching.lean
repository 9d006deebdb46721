import Mathlib.Data.List.Forall2
import Mos6502.Proofs.Interrupts

/-! Watching does not change what is watched. Whatever monitor is attached and whatever is logged,
requests get the same replies and leave the same machine, and the backends are accessed in the same
way. A device tells of its accesses itself; those of RAM and ROM come to light when each is put
behind a probe, and a machine with all its backends behind probes gives the replies that it gives
without them. Nor does it matter that devices may be changed by what is read from them. -/
namespace Mos6502

namespace Backend

def undergo (b : Backend) : ProbeAccess → Backend
  | .read a =>
    match b with
    | .probe size device => .probe size (device.hear (.read a))
    | b => b
  | .write a v => b.write a v
  | .shutdown => b.shutdown

/-- The backend after accesses, the newest first. -/
def replay (b : Backend) (history : List ProbeAccess) : Backend :=
  history.foldr (fun access b => b.undergo access) b

theorem replay_undergo (b : Backend) (access : ProbeAccess) (history : List ProbeAccess) :
    (b.undergo access).replay history = b.replay (history ++ [access]) := by
  simp [replay]

@[simp] theorem size_undergo (b : Backend) (access : ProbeAccess) :
    (b.undergo access).size = b.size := by
  cases access with
  | read a => cases b <;> rfl
  | write a v => exact b.size_write a v
  | shutdown => exact b.size_shutdown

/-- The backend behind a probe that notices every access. -/
def probed (b : Backend) (history : List ProbeAccess) : Backend :=
  .probe b.size ⟨fun history a => (b.replay history).read a, history⟩

/-- Two backends of one size that answer every read alike, however they are accessed before. -/
structure Alike (b b' : Backend) : Prop where
  size : b.size = b'.size
  read : ∀ history a, (b.replay history).read a = (b'.replay history).read a

theorem Alike.refl (b : Backend) : b.Alike b := ⟨rfl, fun _ _ => rfl⟩

theorem Alike.undergo {b b' : Backend} (h : b.Alike b') (access : ProbeAccess) :
    (b.undergo access).Alike (b'.undergo access) where
  size := by rw [size_undergo, size_undergo, h.size]
  read history a := by rw [replay_undergo, replay_undergo, h.read]

theorem replay_probed (b : Backend) (history : List ProbeAccess) :
    (b.probed []).replay history = b.probed history := by
  induction history with
  | nil => rfl
  | cons access rest ih =>
    change ((b.probed []).replay rest).undergo access = _
    rw [ih]
    cases access <;> rfl

theorem alike_probed (b : Backend) : b.Alike (b.probed []) where
  size := rfl
  read history a := by rw [replay_probed]; rfl

end Backend

namespace Region

structure Alike (r r' : Region) : Prop where
  base : r.base = r'.base
  backend : r.backend.Alike r'.backend

def probed (r : Region) : Region where
  name := r.name
  base := r.base
  backend := r.backend.probed []
  size_pos := r.size_pos
  fits := r.fits

theorem alike_probed (r : Region) : r.Alike r.probed := ⟨rfl, r.backend.alike_probed⟩

section
variable {r r' : Region} (h : r.Alike r')
include h

theorem Alike.covers (a : Word) : r.covers a = r'.covers a := by
  unfold Region.covers size
  rw [h.base, h.backend.size]

theorem Alike.read (a : Word) : r.read a = r'.read a := by
  unfold Region.read offset
  rw [h.base]
  exact h.backend.read [] _

theorem Alike.write (a : Word) (v : Byte) : (r.write a v).Alike (r'.write a v) where
  base := h.base
  backend := by
    have hoffset : r.offset a = r'.offset a := by unfold offset; rw [h.base]
    change (r.backend.write (r.offset a) v).Alike (r'.backend.write (r'.offset a) v)
    rw [hoffset]
    exact h.backend.undergo (.write _ v)

theorem Alike.shutdown : r.shutdown.Alike r'.shutdown where
  base := h.base
  backend := h.backend.undergo .shutdown

end
end Region

namespace Bus

def SameAnswers (bus bus' : Bus) : Prop := List.Forall₂ Region.Alike bus.regions bus'.regions

def probed (bus : Bus) : Bus := ⟨bus.regions.map Region.probed⟩

theorem sameAnswers_probed (bus : Bus) : bus.SameAnswers bus.probed :=
  List.forall₂_map_right_iff.2 (List.forall₂_same.2 fun r _ => r.alike_probed)

example :
    let bus : Bus := ⟨[⟨"ram", 0, .ram #[7, 8], by simp [Backend.size], by simp [Backend.size]⟩]⟩
    bus.probed.read 1 = .ok 8 ∧ bus.probed.onRead 1 = [.probe "ram" (.read 1)] := ⟨rfl, rfl⟩

theorem SameAnswers.read {bus bus' : Bus} (h : bus.SameAnswers bus') (a : Word) :
    bus.read a = bus'.read a := by
  obtain ⟨rs⟩ := bus
  obtain ⟨rs'⟩ := bus'
  change List.Forall₂ Region.Alike rs rs' at h
  rw [read_eq, read_eq]
  unfold owner?
  induction h with
  | nil => rfl
  | @cons r r' rest rest' hr _ ih =>
    simp only [List.find?_cons, ← hr.covers]
    cases r.covers a with
    | true => exact congrArg Except.ok (hr.read a)
    | false => exact ih

theorem SameAnswers.put {bus bus' : Bus} (h : bus.SameAnswers bus') (a : Word) (v : Byte) :
    (bus.put a v).SameAnswers (bus'.put a v) := by
  obtain ⟨rs⟩ := bus
  obtain ⟨rs'⟩ := bus'
  change List.Forall₂ Region.Alike rs rs' at h
  change List.Forall₂ Region.Alike (writeRegions a v rs) (writeRegions a v rs')
  induction h with
  | nil => exact .nil
  | @cons r r' rest rest' hr hrest ih =>
    simp only [writeRegions, ← hr.covers]
    split
    · exact .cons (hr.write a v) hrest
    · exact .cons hr ih

theorem SameAnswers.shutdown {bus bus' : Bus} (h : bus.SameAnswers bus') :
    bus.shutdown.SameAnswers bus'.shutdown :=
  List.forall₂_map_left_iff.2 (List.forall₂_map_right_iff.2 (h.imp fun _ _ hr => hr.shutdown))

theorem SameAnswers.congruence : Bus.Congruence False Bus.SameAnswers where
  read h := h.read
  put h := h.put
  onRead _ hd := hd.elim
  onWrite _ hd := hd.elim
  onShutdown _ hd := hd.elim
  shutdown h := h.shutdown
  snoc h _ _ := List.rel_append h (.cons ⟨rfl, .refl _⟩ .nil)

end Bus

namespace Machine

/-- Attaches a monitor, or none, and sets what is logged. -/
def watchedBy (m : Machine) (w : Option Monitor) (k : Log.Config) : Machine :=
  { m with monitor := w, logging := k }

def probed (m : Machine) : Machine := { m with bus := m.bus.probed }

/-- Two machines that differ at most in what watches them and in what has been seen. Devices have been
accessed on both in the same way. -/
structure SameButWatching (m m' : Machine) : Prop where
  registers : m.registers = m'.registers
  bus : m.bus = m'.bus
  cycles : m.cycles = m'.cycles
  instructions : m.instructions = m'.instructions
  exitCode : m.exitCode = m'.exitCode
  interrupted : m.interrupted = m'.interrupted
  channel : m.channel = m'.channel
  accesses : m.accesses = m'.accesses

theorem sameButWatching (m : Machine) (w w' : Option Monitor) (k k' : Log.Config) :
    (m.watchedBy w k).SameButWatching (m.watchedBy w' k') :=
  ⟨rfl, rfl, rfl, rfl, rfl, rfl, rfl, rfl⟩

theorem SameButWatching.alongside {m m' : Machine} (h : m.SameButWatching m') :
    Alongside True Eq m m' := { h with accesses := fun _ => h.accesses }

theorem SameButWatching.of_alongside {m m' : Machine} (h : Alongside True Eq m m') :
    m.SameButWatching m' := { h with accesses := h.accesses trivial }

theorem SameButWatching.answer {m m' : Machine} (h : m.SameButWatching m') (r : Request) :
    (m.answer r).1 = (m'.answer r).1 ∧ (m.answer r).2.SameButWatching (m'.answer r).2 := by
  obtain ⟨hreply, hnext⟩ := h.alongside.answer Bus.congruence_eq r
  exact ⟨hreply, .of_alongside hnext⟩

theorem SameButWatching.poll {m m' : Machine} (h : m.SameButWatching m') :
    m.poll.1 = m'.poll.1 ∧ m.poll.2.SameButWatching m'.poll.2 := by
  have hstart : Abreast True Eq m m' m m' := .refl h.alongside.toBeside
  obtain ⟨hcode, hnext⟩ := hstart.poll
  exact ⟨hcode, .of_alongside (h.alongside.of_abreast hnext)⟩

theorem SameButWatching.step {m m' : Machine} (h : m.SameButWatching m') :
    EndsAlike SameButWatching m.step m'.step := by
  have hstart : Abreast True Eq m m' m m' := .refl h.alongside.toBeside
  have hends := hstart.step Bus.congruence_eq
  generalize m.step = r, m'.step = r' at hends
  cases hends with
  | ok n hnext => exact .ok n (.of_alongside (h.alongside.of_abreast hnext))
  | error f hnext => exact .error f (.of_alongside (h.alongside.of_abreast hnext))

theorem replies_probed (m : Machine) (rs : List Request) :
    (serveAll answer m rs).1 = (serveAll answer m.probed rs).1 := by
  have halong : Alongside False Bus.SameAnswers m m.probed :=
    { registers := rfl
      bus := m.bus.sameAnswers_probed
      cycles := rfl
      instructions := rfl
      exitCode := rfl
      interrupted := rfl
      channel := rfl
      accesses := False.elim }
  exact (serveAll_simulation (fun _ _ r h => h.answer Bus.SameAnswers.congruence r) halong rs).1

end Machine

/-- What the devices become of themselves, and because of all the accesses to them. -/
abbrev Reaction := List Access → Bus → Bus

def Machine.react (m : Machine) (f : Reaction) : Machine := { m with bus := f m.accesses m.bus }

theorem Machine.SameButWatching.react {m m' : Machine} (h : m.SameButWatching m') (f : Reaction) :
    (m.react f).SameButWatching (m'.react f) := by
  have hbus : f m.accesses m.bus = f m'.accesses m'.bus := by rw [h.accesses, h.bus]
  exact { h with bus := hbus, accesses := h.accesses }

namespace Session

structure SameButWatching (s s' : Session) : Prop where
  phase : s.phase = s'.phase
  machine : s.machine.SameButWatching s'.machine

def makeReacting (s : Session) (move : Reaction × Move) : Option Reply × Session :=
  { s with machine := s.machine.react move.1 }.make move.2

variable {s s' : Session}

theorem SameButWatching.start {m m' : Machine} (h : m.SameButWatching m') (r : Request) :
    (start m r).1 = (start m' r).1 ∧ (start m r).2.SameButWatching (start m' r).2 := by
  obtain ⟨hreply, hnext⟩ := h.answer r
  cases r with
  | run | runFor _ => exact ⟨rfl, rfl, h⟩
  | _ => exact ⟨congrArg some hreply, rfl, hnext⟩

theorem SameButWatching.proceed (h : s.SameButWatching s') :
    s.proceed.1 = s'.proceed.1 ∧ s.proceed.2.SameButWatching s'.proceed.2 := by
  obtain ⟨m, phase⟩ := s
  obtain ⟨m', phase'⟩ := s'
  obtain ⟨rfl, hm⟩ := h
  unfold Session.proceed
  cases phase with
  | idle => exact ⟨rfl, rfl, hm⟩
  | checking limit =>
    obtain ⟨hcode, hnext⟩ := hm.poll
    dsimp only
    generalize m.poll = p, m'.poll = p' at hcode hnext
    obtain ⟨code, next⟩ := p
    obtain ⟨code', next'⟩ := p'
    obtain rfl : code = code' := hcode
    cases code with
    | some code => exact ⟨rfl, rfl, hnext⟩
    | none => obtain _ | _ | n := limit <;> exact ⟨rfl, rfl, hnext⟩
  | stepping limit =>
    have hends := hm.step
    dsimp only
    generalize m.step = r, m'.step = r' at hends
    cases hends with
    | ok n hnext => exact ⟨rfl, rfl, hnext⟩
    | error f hnext => exact ⟨rfl, rfl, hnext⟩

theorem SameButWatching.make (h : s.SameButWatching s') (move : Move) :
    (s.make move).1 = (s'.make move).1 ∧ (s.make move).2.SameButWatching (s'.make move).2 := by
  cases move with
  | proceed => exact h.proceed
  | ask r =>
    unfold Session.make
    rw [h.phase]
    dsimp only
    split
    · exact ⟨rfl, rfl, { h.machine with interrupted := rfl }⟩
    · split
      · exact SameButWatching.start h.machine r
      · exact ⟨rfl, h⟩

theorem SameButWatching.makeReacting (h : s.SameButWatching s') (move : Reaction × Move) :
    (s.makeReacting move).1 = (s'.makeReacting move).1 ∧
      (s.makeReacting move).2.SameButWatching (s'.makeReacting move).2 := by
  have hreacted : SameButWatching { s with machine := s.machine.react move.1 }
      { s' with machine := s'.machine.react move.1 } := ⟨h.phase, h.machine.react move.1⟩
  exact hreacted.make move.2

end Session

namespace Machine

/-- Whatever watches a machine and whatever is logged, requests get the same replies and leave the same
machine: registers, bus, counters, flags and exit channel, and devices have been accessed in the
same way. So have RAM and ROM: with every region of the machine behind a probe, the replies are those of
the machine without probes, and all accesses are the same. In a session, which takes a run apart into
its instructions, watching makes no difference even if between any two of these the devices change as
they like, be it because they have been read. -/
theorem watching_unobservable (m : Machine) (w w' : Option Monitor) (k k' : Log.Config)
    (rs : List Request) (moves : List (Reaction × Move)) :
    let session := serveAll Session.makeReacting ⟨m.watchedBy w k, .idle⟩ moves
    let session' := serveAll Session.makeReacting ⟨m.watchedBy w' k', .idle⟩ moves
    (serveAll answer (m.watchedBy w k) rs).1 = (serveAll answer (m.watchedBy w' k') rs).1 ∧
      (serveAll answer (m.watchedBy w k) rs).2.SameButWatching
        (serveAll answer (m.watchedBy w' k') rs).2 ∧
      (serveAll answer (m.probed.watchedBy w k) rs).1 = (serveAll answer (m.watchedBy w k) rs).1 ∧
      (serveAll answer (m.probed.watchedBy w k) rs).2.accesses =
        (serveAll answer (m.probed.watchedBy w' k') rs).2.accesses ∧
      session.1 = session'.1 ∧ session.2.SameButWatching session'.2 := by
  have hsame (m : Machine) :=
    serveAll_simulation (R := SameButWatching) (fun _ _ r h => h.answer r)
      (m.sameButWatching w w' k k') rs
  obtain ⟨hreplies, hend⟩ := hsame m
  obtain ⟨hsession, hlast⟩ :=
    serveAll_simulation (R := Session.SameButWatching) (fun _ _ move h => h.makeReacting move)
      (s := ⟨m.watchedBy w k, .idle⟩) (t := ⟨m.watchedBy w' k', .idle⟩)
      ⟨rfl, m.sameButWatching w w' k k'⟩ moves
  exact ⟨hreplies, hend, (replies_probed (m.watchedBy w k) rs).symm, (hsame m.probed).2.accesses,
    hsession, hlast⟩

end Machine

/-- A device comes to know of all accesses to it, reads too. -/
def Region.informed (accesses : List Access) (r : Region) : Region :=
  let known := accesses.filterMap fun access => if access.1 = r.name then some access.2 else none
  match r with
  | ⟨name, base, .probe size device, hpos, hfits⟩ =>
    ⟨name, base, .probe size { device with history := known.reverse }, hpos, hfits⟩
  | r => r

def Bus.informing : Reaction := fun accesses bus => ⟨bus.regions.map (·.informed accesses)⟩

/-- A program that loads a flag twice. The flag is set until it is read. -/
def polling : Machine where
  registers := { pc := 0x0200 }
  bus := ⟨[⟨"code", 0x0200, .ram #[0xAD, 0x00, 0xD0, 0xAC, 0x00, 0xD0], by simp [Backend.size],
      by simp [Backend.size]⟩,
    ⟨"flag", 0xD000, .probe 1 ⟨fun history _ => if history.isEmpty then 1 else 0, []⟩,
      by simp [Backend.size], by simp [Backend.size]⟩]⟩

set_option maxRecDepth 2000 in
/-- The second load finds the flag cleared, with a monitor as without. -/
theorem Machine.watching_unobservable_polling :
    let moves : List (Reaction × Move) := .replicate 2 (Bus.informing, .ask .step)
    let session := serveAll Session.makeReacting ⟨polling.watchedBy (some .logTracer) {}, .idle⟩ moves
    session.2.machine.registers.a = 1 ∧ session.2.machine.registers.y = 0 := by
  intro moves session
  obtain ⟨-, -, -, -, -, hlast⟩ :=
    watching_unobservable polling (some .logTracer) none {} {} [] moves
  have hregisters : session.2.machine.registers = _ := hlast.machine.registers
  rw [hregisters]
  exact ⟨rfl, rfl⟩

end Mos6502

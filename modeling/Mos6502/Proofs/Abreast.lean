import Mos6502.Proofs.Congruence
import Mos6502.Proofs.Request
import Mos6502.Proofs.Runs

/-! Machines that go abreast: a program cannot tell them apart, on the way they offer the same codes on
their channels, and devices are accessed alike. Neither the monitor nor the log configuration nor
what the channel holds has a say in it, so two machines that differ in these stay abreast
whatever is asked of them. -/
namespace Mos6502

theorem Bus.attach_uniform (name : String) (base : Word) (backend : Backend) :
    (∃ e, ∀ bus : Bus, bus.attach name base backend = .error e) ∨
      ∃ r : Region, r.backend = backend ∧
        ∀ bus : Bus, bus.attach name base backend = .ok ⟨bus.regions ++ [r]⟩ := by
  unfold attach
  split
  · rename_i e he
    exact .inl ⟨e, fun _ => rfl⟩
  · exact .inr ⟨⟨name, base, backend, _, _⟩, rfl, fun _ => rfl⟩

/-- Whether the request is about the channel itself. -/
def Request.usesChannel : Request → Bool
  | .openChannel _ | .receive => true
  | _ => false

namespace Channel

/-- Offers codes one after the other. -/
def offerAll (c : Channel) (codes : List Byte) : Channel := codes.foldl offer c

@[simp] theorem offerAll_nil (c : Channel) : c.offerAll [] = c := rfl

theorem offerAll_snoc (c : Channel) (codes : List Byte) (code : Byte) :
    c.offerAll (codes ++ [code]) = (c.offerAll codes).offer code := by
  simp [offerAll]

theorem queue_offer (c : Channel) (code : Byte) :
    (c.offer code).queue = c.queue ++ if c.accepts then [code] else [] := by
  unfold offer
  split <;> simp

section
variable (c : Channel) (codes : List Byte)

@[simp] theorem capacity_offerAll : (c.offerAll codes).capacity = c.capacity := by
  induction codes generalizing c with
  | nil => rfl
  | cons code rest ih => exact (ih _).trans (capacity_offer c code)

@[simp] theorem receiving_offerAll : (c.offerAll codes).receiving = c.receiving := by
  induction codes generalizing c with
  | nil => rfl
  | cons code rest ih => exact (ih _).trans (receiving_offer c code)

end

theorem queue_offerAll {c : Channel} (h : c.receiving = true) (codes : List Byte) :
    (c.offerAll codes).queue = c.queue ++ codes.take (c.capacity - c.queue.length) := by
  induction codes generalizing c with
  | nil => simp
  | cons code rest ih =>
    change ((c.offer code).offerAll rest).queue = _
    rw [ih (by rw [receiving_offer, h]), capacity_offer, queue_offer, accepts, h, Bool.true_and]
    by_cases hroom : c.queue.length < c.capacity
    · obtain ⟨more, hmore⟩ := Nat.exists_eq_add_of_lt hroom
      have hbefore : c.capacity - c.queue.length = more + 1 := by omega
      have hafter : c.capacity - (c.queue ++ [code]).length = more := by
        rw [List.length_append, List.length_singleton]
        omega
      rw [decide_eq_true hroom, if_pos rfl, hbefore, hafter, List.take_succ_cons,
        List.append_assoc, List.singleton_append]
    · have hfull : c.capacity - c.queue.length = 0 := by omega
      simp [hroom, hfull]

end Channel

/-- Two outcomes that are alike come to the same reply. -/
theorem EndsAlike.reply {ε α : Type} {S : Machine → Machine → Prop} {x x' : Machine.Outcome ε α}
    (h : EndsAlike S x x') (ok : α → Reply) (error : ε → Reply) :
    (Machine.Outcome.reply ok error x).1 = (Machine.Outcome.reply ok error x').1 ∧
      S (Machine.Outcome.reply ok error x).2 (Machine.Outcome.reply ok error x').2 := by
  cases h with
  | ok v hs => exact ⟨rfl, hs⟩
  | error e hs => exact ⟨rfl, hs⟩

namespace Machine

/-- The way from one machine to another: the codes that have been offered on the channel, and the
accesses that have been made. -/
structure Way (start m : Machine) (codes : List Byte) (made : List Access) : Prop where
  channel : m.channel = start.channel.map (·.offerAll codes)
  accesses : m.accesses = start.accesses ++ made

/-- Two machines that a program cannot tell apart. -/
structure Beside (R : Bus → Bus → Prop) (m m' : Machine) : Prop where
  registers : m.registers = m'.registers
  bus : R m.bus m'.bus
  cycles : m.cycles = m'.cycles
  instructions : m.instructions = m'.instructions
  exitCode : m.exitCode = m'.exitCode
  interrupted : m.interrupted = m'.interrupted

/-- Two machines that a program cannot tell apart, and that have offered the same codes since they
started. If `devices` holds, they have also made the same accesses. -/
structure Abreast (devices : Prop) (R : Bus → Bus → Prop) (start start' m m' : Machine) : Prop
    extends Beside R m m' where
  way : ∃ codes made made', (devices → made = made') ∧
    start.Way m codes made ∧ start'.Way m' codes made'

section
variable {start m : Machine} {codes : List Byte} {made : List Access}

theorem Way.refl (m : Machine) : m.Way m [] [] where
  channel := by simp
  accesses := by simp

theorem Way.emitAll (h : start.Way m codes made) (es : List Event) :
    start.Way (m.emitAll es) codes (made ++ es.filterMap Event.access?) where
  channel := by rw [emitAll_eq]; exact h.channel
  accesses := by rw [accesses_emitAll, h.accesses, List.append_assoc]

theorem Way.ready (h : start.Way m codes made) (i : Instruction) :
    start.Way (m.ready i) codes (made ++
      (Instruction.onDecode m.bus m.registers.pc).filterMap BusNotice.access?) where
  channel := by rw [Machine.ready]; exact h.channel
  accesses := by rw [accesses_ready, h.accesses, List.append_assoc]

theorem Way.settle (h : start.Way m codes made) (c : Core) :
    start.Way (m.settle c) codes (made ++ c.accesses) where
  channel := by rw [settle_eq]; exact h.channel
  accesses := by rw [accesses_settle, h.accesses, List.append_assoc]

theorem Way.publish (h : start.Way m codes made) (code : Byte) :
    start.Way (m.publish code) (codes ++ [code]) made where
  channel := by
    change m.channel.map (·.offer code) = _
    rw [h.channel, Option.map_map]
    exact congrArg (start.channel.map ·) (funext fun c => (c.offerAll_snoc codes code).symm)
  accesses := h.accesses

end

namespace Abreast
variable {devices : Prop} {R : Bus → Bus → Prop} {start start' m m' : Machine}

theorem refl (h : m.Beside R m') : Abreast devices R m m' m m' :=
  { h with way := ⟨[], [], [], fun _ => rfl, .refl m, .refl m'⟩ }

theorem replace (h : Abreast devices R start start' m m') {after after' : Machine}
    (hafter : after.Beside R after') (hc : after.channel = m.channel)
    (hj : after.journal = m.journal) (hc' : after'.channel = m'.channel)
    (hj' : after'.journal = m'.journal) : Abreast devices R start start' after after' := by
  obtain ⟨codes, made, made', hmade, hm, hm'⟩ := h.way
  have haccesses : after.accesses = m.accesses := by rw [accesses, accesses, hj]
  have haccesses' : after'.accesses = m'.accesses := by rw [accesses, accesses, hj']
  exact { hafter with
    way := ⟨codes, made, made', hmade, ⟨hc.trans hm.channel, haccesses.trans hm.accesses⟩,
      ⟨hc'.trans hm'.channel, haccesses'.trans hm'.accesses⟩⟩ }

theorem emitAll (h : Abreast devices R start start' m m') {es es' : List Event}
    (hes : devices → es.filterMap Event.access? = es'.filterMap Event.access?) :
    Abreast devices R start start' (m.emitAll es) (m'.emitAll es') := by
  obtain ⟨codes, made, made', hmade, hm, hm'⟩ := h.way
  have hbeside : (m.emitAll es).Beside R (m'.emitAll es') := by
    rw [emitAll_eq, emitAll_eq]
    exact { h with }
  exact { hbeside with way := ⟨codes, _, _, fun hd => by rw [hmade hd, hes hd], hm.emitAll es,
    hm'.emitAll es'⟩ }

theorem emitLog (h : Abreast devices R start start' m m') (message message' : Message) :
    Abreast devices R start start' (m.emit (.log message)) (m'.emit (.log message')) := by
  have hsilent : devices → [Event.log message].filterMap Event.access? =
      [Event.log message'].filterMap Event.access? := fun _ => rfl
  exact h.emitAll hsilent

theorem emitBus (h : Abreast devices R start start' m m') {ns ns' : List BusNotice}
    (hns : devices → ns.filterMap BusNotice.access? = ns'.filterMap BusNotice.access?) :
    Abreast devices R start start' (m.emitBus ns) (m'.emitBus ns') := by
  have hes : devices → (ns.map Event.ofBusNotice).filterMap Event.access? =
      (ns'.map Event.ofBusNotice).filterMap Event.access? := by
    rw [Event.accesses_ofBusNotice, Event.accesses_ofBusNotice]
    exact hns
  exact h.emitAll hes

theorem publish (h : Abreast devices R start start' m m') (code : Byte) :
    Abreast devices R start start' (m.publish code) (m'.publish code) := by
  obtain ⟨codes, made, made', hmade, hm, hm'⟩ := h.way
  exact { h with
    exitCode := rfl
    way := ⟨_, made, made', hmade, hm.publish code, hm'.publish code⟩ }

theorem ready (hR : Bus.Congruence devices R) (h : Abreast devices R start start' m m')
    (i : Instruction) : Abreast devices R start start' (m.ready i) (m'.ready i) := by
  obtain ⟨codes, made, made', hmade, hm, hm'⟩ := h.way
  have hbeside : (m.ready i).Beside R (m'.ready i) := by
    rw [Machine.ready, Machine.ready]
    exact { h with }
  refine { hbeside with way := ⟨codes, _, _, fun hd => ?_, hm.ready i, hm'.ready i⟩ }
  rw [hmade hd, h.registers, hR.onDecode h.bus hd]

theorem settle (h : Abreast devices R start start' m m') {c c' : Core}
    (hc : c.Alike devices R c') :
    Abreast devices R start start' (m.settle c) (m'.settle c') := by
  obtain ⟨codes, made, made', hmade, hm, hm'⟩ := h.way
  have hbeside : (m.settle c).Beside R (m'.settle c') := by
    rw [settle_eq, settle_eq]
    exact { h with registers := hc.registers, bus := hc.bus }
  exact { hbeside with way := ⟨codes, _, _, fun hd => by rw [hmade hd, hc.accesses hd],
    hm.settle c, hm'.settle c'⟩ }

theorem tally (h : Abreast devices R start start' m m') (i : Instruction) :
    Abreast devices R start start' (m.tally i) (m'.tally i) := by
  have hcycles : m.cycles + i.cycles = m'.cycles + i.cycles := by rw [h.cycles]
  have hinstructions : m.instructions + 1 = m'.instructions + 1 := by rw [h.instructions]
  exact h.replace { h with cycles := hcycles, instructions := hinstructions } rfl rfl rfl rfl

theorem finish (hR : Bus.Congruence devices R) (h : Abreast devices R start start' m m')
    (i : Instruction) {c c' : Core} (hc : c.Alike devices R c') :
    Abreast devices R start start' (m.finish i c) (m'.finish i c') := by
  have hsettled := (h.ready hR i).settle hc
  unfold Machine.finish
  refine tally ?_ i
  split
  · unfold halt
    rw [hsettled.registers]
    exact (hsettled.emitLog _ _).publish _
  · exact hsettled

section
variable (hR : Bus.Congruence devices R)
include hR

/-- One step: the same cycles or the same fault. -/
theorem step (h : Abreast devices R start start' m m') :
    EndsAlike (Abreast devices R start start') m.step m'.step := by
  rw [step_eq, step_eq, hR.decode h.bus, h.registers]
  cases Instruction.decode m'.bus m'.registers.pc with
  | error f => exact .error f (h.emitBus fun hd => hR.onDecode h.bus hd _)
  | ok i =>
    have hends := Exec.respects_run hR i m.core m'.core ⟨h.registers, h.bus, fun _ => rfl⟩
    dsimp only
    generalize Exec.run i m.core = r, Exec.run i m'.core = r' at hends
    cases hends with
    | error t hc => exact .error _ ((h.ready hR i).settle hc)
    | ok v hc => exact .ok _ (h.finish hR i hc)

omit hR in
theorem serve (h : Abreast devices R start start' m m') :
    Abreast devices R start start' m.serve m'.serve := by
  have hserved : Abreast devices R start start' { m with interrupted := false }
      { m' with interrupted := false } := h.replace { h with interrupted := rfl } rfl rfl rfl rfl
  exact (hserved.emitLog _ _).publish _

omit hR in
theorem poll (h : Abreast devices R start start' m m') :
    m.poll.1 = m'.poll.1 ∧ Abreast devices R start start' m.poll.2 m'.poll.2 := by
  unfold Machine.poll
  rw [h.exitCode, h.interrupted]
  cases m'.exitCode with
  | some code => exact ⟨rfl, h⟩
  | none =>
    cases m'.interrupted with
    | false => exact ⟨rfl, h⟩
    | true => exact ⟨rfl, h.serve⟩

theorem runFor (h : Abreast devices R start start' m m') (n : Nat) :
    EndsAlike (Abreast devices R start start') (runFor n m) (runFor n m') := by
  induction n generalizing m m' with
  | zero =>
    obtain ⟨hcode, hpolled⟩ := h.poll
    simp only [Machine.runFor, hcode]
    exact .ok _ hpolled
  | succ n ih =>
    obtain ⟨hcode, hpolled⟩ := h.poll
    unfold Machine.runFor
    generalize m.poll = p, m'.poll = p' at hcode hpolled
    obtain ⟨code, polled⟩ := p
    obtain ⟨code', polled'⟩ := p'
    obtain rfl : code = code' := hcode
    cases code with
    | some code => exact .ok _ hpolled
    | none =>
      have hends := step hR hpolled
      dsimp only
      generalize polled.step = r, polled'.step = r' at hends
      cases hends with
      | ok v hnext => exact ih hnext
      | error f hnext => exact .error f hnext

theorem run (h : Abreast devices R start start' m m') :
    EndsAlike (Abreast devices R start start') m.run m'.run := by
  have hstopped (n : Nat) :
      (∃ ended : Outcome Fault Byte, Machine.runFor n m = ended.stopped) ↔
        ∃ ended : Outcome Fault Byte, Machine.runFor n m' = ended.stopped := by
    have hends := runFor hR h n
    generalize Machine.runFor n m = r, Machine.runFor n m' = r' at hends
    cases hends with
    | @ok code s s' _ =>
      cases code with
      | none =>
        exact ⟨fun ⟨_, h⟩ => absurd h.symm Outcome.stopped_ne_ok_none,
          fun ⟨_, h⟩ => absurd h.symm Outcome.stopped_ne_ok_none⟩
      | some code => exact ⟨fun _ => ⟨.ok code s', rfl⟩, fun _ => ⟨.ok code s, rfl⟩⟩
    | @error f s s' _ => exact ⟨fun _ => ⟨.error f s', rfl⟩, fun _ => ⟨.error f s, rfl⟩⟩
  by_cases hm : ∃ n, ∃ ended : Outcome Fault Byte, Machine.runFor n m = ended.stopped
  · obtain ⟨n, ended, hn⟩ := hm
    obtain ⟨ended', hn'⟩ := (hstopped n).1 ⟨ended, hn⟩
    have hrun := run_eq_stopped_iff.2 (run?_of_runFor hn)
    have hrun' := run_eq_stopped_iff.2 (run?_of_runFor hn')
    rw [hrun, hrun', ← hn, ← hn']
    exact runFor hR h n
  · have hm' : ¬∃ n, ∃ ended : Outcome Fault Byte, Machine.runFor n m' = ended.stopped :=
      fun ⟨n, hn⟩ => hm ⟨n, (hstopped n).2 hn⟩
    rw [run_of_never hm, run_of_never hm']
    exact .ok none h

theorem read (h : Abreast devices R start start' m m') (a : Word) :
    EndsAlike (Abreast devices R start start') (m.read a) (m'.read a) := by
  unfold Machine.read
  rw [hR.read h.bus]
  cases m'.bus.read a with
  | ok v => exact .ok v (h.emitBus fun hd => hR.onRead h.bus hd a)
  | error e => exact .error e h

theorem readWord (h : Abreast devices R start start' m m') (a : Word) :
    EndsAlike (Abreast devices R start start') (m.readWord a) (m'.readWord a) := by
  have hheard := h.emitBus fun hd => hR.onReadWord h.bus hd a
  unfold Machine.readWord
  rw [hR.readWord h.bus]
  cases m'.bus.readWord a with
  | ok w => exact .ok w hheard
  | error e => exact .error e hheard

theorem write (h : Abreast devices R start start' m m') (a : Word) (v : Byte) :
    EndsAlike (Abreast devices R start start') (m.write a v) (m'.write a v) := by
  rw [write_eq, write_eq, hR.isMapped h.bus]
  split
  · have hheard := h.emitBus fun hd => hR.onWrite h.bus hd a v
    exact .ok () (hheard.replace { hheard with bus := hR.put h.bus a v } rfl rfl rfl rfl)
  · exact .error _ h

theorem writeWord (h : Abreast devices R start start' m m') (a w : Word) :
    EndsAlike (Abreast devices R start start') (m.writeWord a w) (m'.writeWord a w) := by
  have hlow := write hR h a w.low
  unfold Machine.writeWord
  generalize m.write a w.low = r, m'.write a w.low = r' at hlow
  cases hlow with
  | ok v hnext => exact write hR hnext (a + 1) w.high
  | error e hnext => exact .error e hnext

theorem attach (h : Abreast devices R start start' m m') (name : String) (base : Word)
    (storage : Storage) :
    EndsAlike (Abreast devices R start start') (m.attach name base storage.backend)
      (m'.attach name base storage.backend) := by
  unfold Machine.attach
  obtain ⟨e, he⟩ | ⟨r, hr, hok⟩ := Bus.attach_uniform name base storage.backend
  · rw [he, he]
    exact .error e h
  · rw [hok, hok]
    have hbus := hR.snoc h.bus r (hr ▸ storage.isPlain_backend)
    have hattached : Abreast devices R start start'
        { m with bus := ⟨m.bus.regions ++ [r]⟩ } { m' with bus := ⟨m'.bus.regions ++ [r]⟩ } :=
      h.replace { h with bus := hbus } rfl rfl rfl rfl
    exact .ok () (hattached.emitLog _ _)

omit hR in
theorem resetTo (h : Abreast devices R start start' m m') (pc : Word) :
    Abreast devices R start start' (m.resetTo pc) (m'.resetTo pc) := by
  have hbeside : Beside R
      { m with
        registers := { m.registers with pc := pc, status := .atReset }
        exitCode := none
        interrupted := false }
      { m' with
        registers := { m'.registers with pc := pc, status := .atReset }
        exitCode := none
        interrupted := false } :=
    { h with registers := by rw [h.registers], exitCode := rfl, interrupted := rfl }
  exact (h.replace hbeside rfl rfl rfl rfl).emitLog _ _

theorem reset (h : Abreast devices R start start' m m') :
    EndsAlike (Abreast devices R start start') m.reset m'.reset := by
  have hvector := readWord hR h resetVector
  unfold Machine.reset
  generalize m.readWord resetVector = r, m'.readWord resetVector = r' at hvector
  cases hvector with
  | ok pc hnext => exact .ok () (hnext.resetTo pc)
  | error e hnext =>
    dsimp only
    rw [hnext.registers]
    exact .error _ hnext

theorem shutdown (h : Abreast devices R start start' m m') (now : Duration) :
    Abreast devices R start start' (m.shutdown now) (m'.shutdown now) := by
  have hover : Abreast devices R start start' { m with bus := m.bus.shutdown }
      { m' with bus := m'.bus.shutdown } :=
    h.replace { h with bus := hR.shutdown h.bus } rfl rfl rfl rfl
  have hheard := hover.emitBus fun hd => hR.onShutdown h.bus hd
  obtain ⟨es, hes, hm⟩ := m.exists_shutdown now
  obtain ⟨es', hes', hm'⟩ := m'.exists_shutdown now
  rw [hm, hm']
  exact hheard.emitAll fun _ => hes.trans hes'.symm

/-- What a host asks for and gets. -/
theorem answer (h : Abreast devices R start start' m m') {r : Request}
    (hr : r.usesChannel = false) :
    (m.answer r).1 = (m'.answer r).1 ∧
      Abreast devices R start start' (m.answer r).2 (m'.answer r).2 := by
  cases r with
  | bus request =>
    cases request with
    | attach name base storage => exact (attach hR h name base storage).reply _ _
    | read a => exact (read hR h a).reply _ _
    | write a v => exact (write hR h a v).reply _ _
    | readWord a => exact (readWord hR h a).reply _ _
    | writeWord a w => exact (writeWord hR h a w).reply _ _
  | assign change =>
    have hregisters : change m.registers = change m'.registers := by rw [h.registers]
    exact ⟨rfl, h.replace { h with registers := hregisters } rfl rfl rfl rfl⟩
  | attachMonitor w => exact ⟨rfl, h.replace { h with } rfl rfl rfl rfl⟩
  | detachMonitor => exact ⟨rfl, h.replace { h with } rfl rfl rfl rfl⟩
  | reset => exact (reset hR h).reply _ _
  | resetTo pc => exact ⟨rfl, h.resetTo pc⟩
  | step => exact (step hR h).reply _ _
  | runFor n => exact (runFor hR h n).reply _ _
  | run => exact (run hR h).reply _ _
  | raise => exact ⟨rfl, h.replace { h with interrupted := rfl } rfl rfl rfl rfl⟩
  | openChannel _ | receive => exact absurd hr Bool.noConfusion
  | shutdown now => exact ⟨rfl, shutdown hR h now⟩

end
end Abreast

/-- Two machines that a program cannot tell apart, with the same channel. If `devices` holds, the same
accesses have been made. -/
structure Alongside (devices : Prop) (R : Bus → Bus → Prop) (m m' : Machine) : Prop
    extends Beside R m m' where
  channel : m.channel = m'.channel
  accesses : devices → m.accesses = m'.accesses

section
variable {devices : Prop} {R : Bus → Bus → Prop} {m m' next next' : Machine}

theorem Alongside.of_abreast (h : Alongside devices R m m')
    (hnext : Abreast devices R m m' next next') : Alongside devices R next next' := by
  obtain ⟨codes, made, made', hmade, hm, hm'⟩ := hnext.way
  refine { hnext with channel := ?_, accesses := fun hd => ?_ }
  · rw [hm.channel, hm'.channel, h.channel]
  · rw [hm.accesses, hm'.accesses, h.accesses hd, hmade hd]

theorem Alongside.answer (hR : Bus.Congruence devices R) (h : Alongside devices R m m')
    (r : Request) :
    (m.answer r).1 = (m'.answer r).1 ∧ Alongside devices R (m.answer r).2 (m'.answer r).2 := by
  cases hr : r.usesChannel with
  | false =>
    obtain ⟨hreply, hnext⟩ := (Abreast.refl h.toBeside).answer hR hr
    exact ⟨hreply, h.of_abreast hnext⟩
  | true =>
    cases r with
    | openChannel capacity => exact ⟨rfl, { h with channel := rfl }⟩
    | receive =>
      simp only [Machine.answer, receive, h.channel]
      cases hc : m'.channel with
      | none => exact ⟨rfl, h⟩
      | some c => exact ⟨rfl, { h with channel := rfl }⟩
    | _ => exact absurd hr Bool.noConfusion

end
end Machine
end Mos6502

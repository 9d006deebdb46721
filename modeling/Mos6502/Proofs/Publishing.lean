import Mos6502.Proofs.Abreast

/-! Exit codes are kept in two places: the machine holds the last one until it is reset, and the
channel holds those that found room until they are received. Both are filled by a halt and by an
interrupt that is served, and by nothing else. What a request publishes does not depend on the
channel, so it is told by what a channel with room for everything would hold afterwards. -/
namespace Mos6502
namespace Request

def runs : Request → Bool
  | .run | .runFor _ => true
  | _ => false

def receives : Request → Bool
  | .receive => true
  | _ => false

def opensChannel : Request → Bool
  | .openChannel _ => true
  | _ => false

def wantsReset : Request → Bool
  | .reset | .resetTo _ => true
  | _ => false

def leavesProcessor : Request → Bool
  | .bus _ | .attachMonitor _ | .detachMonitor | .openChannel _ | .receive | .shutdown _ => true
  | _ => false

theorem usesChannel_eq (r : Request) : r.usesChannel = (r.opensChannel || r.receives) := by
  cases r <;> rfl

end Request

namespace Machine
variable {m m' : Machine} {codes : List Byte}

def withChannel (m : Machine) (channel : Option Channel) : Machine := { m with channel }

def undelivered (m : Machine) : List Byte := (m.channel.map (·.queue)).getD []

/-- The machine with a channel that has room for everything. -/
def roomy (m : Machine) : Machine := m.withChannel (some { capacity := Channel.capacityLimit })

/-- The codes that serving a request publishes: those that would then be on such a channel. -/
def published (m : Machine) (r : Request) : List Byte := (m.roomy.answer r).2.undelivered

def resets (m : Machine) (r : Request) : Bool := r.wantsReset && decide ((m.answer r).1 = .done)

/-- From one machine to another at most one code has been published. The last code stays in the
machine. -/
structure Publishes (m m' : Machine) (codes : List Byte) : Prop where
  channel : m'.channel = m.channel.map (·.offerAll codes)
  exitCode : m'.exitCode = codes.getLast?.or m.exitCode
  length_le : codes.length ≤ 1

theorem Publishes.nothing (hchannel : m'.channel = m.channel) (hcode : m'.exitCode = m.exitCode) :
    m.Publishes m' [] where
  channel := by simp [hchannel]
  exitCode := hcode
  length_le := Nat.zero_le 1

theorem Publishes.after_nothing {between : Machine} (h : m.Publishes between [])
    (hrest : between.Publishes m' codes) : m.Publishes m' codes where
  channel := by simpa [h.channel] using hrest.channel
  exitCode := by simpa [h.exitCode] using hrest.exitCode
  length_le := hrest.length_le

theorem publishes_publish (m : Machine) (code : Byte) : m.Publishes (m.publish code) [code] where
  channel := rfl
  exitCode := rfl
  length_le := Nat.le_refl 1

section
variable (m : Machine)

theorem publishes_emitAll (es : List Event) : m.Publishes (m.emitAll es) [] := by
  rw [emitAll_eq]
  exact .nothing rfl rfl

theorem publishes_ready (i : Instruction) : m.Publishes (m.ready i) [] := by
  rw [ready]
  exact .nothing rfl rfl

theorem publishes_settle (c : Core) : m.Publishes (m.settle c) [] := by
  rw [settle_eq]
  exact .nothing rfl rfl

theorem publishes_serve : m.Publishes m.serve [interruptExitCode] := by
  have hlogged : m.Publishes
      ({ m with interrupted := false }.emit (.log (.interrupted m.registers.pc))) [] := by
    rw [emit_eq]
    exact .nothing rfl rfl
  exact hlogged.after_nothing (publishes_publish _ _)

theorem publishes_halt (i : Instruction) : m.Publishes (m.halt i) [m.registers.x] := by
  have hlogged := m.publishes_emitAll [.log (.halted i.address m.registers.x)]
  exact hlogged.after_nothing (publishes_publish _ m.registers.x)

theorem exists_publishes_finish (i : Instruction) (c : Core) :
    ∃ codes, m.Publishes (m.finish i c) codes := by
  have hsettled : m.Publishes ((m.ready i).settle c) [] :=
    (m.publishes_ready i).after_nothing ((m.ready i).publishes_settle c)
  unfold finish
  dsimp only
  split
  · have hhalted := hsettled.after_nothing (publishes_halt _ i)
    exact ⟨_, hhalted.channel, hhalted.exitCode, hhalted.length_le⟩
  · exact ⟨_, hsettled.channel, hsettled.exitCode, hsettled.length_le⟩

theorem exists_publishes_step : ∃ codes, m.Publishes (Outcome.machine m.step) codes := by
  cases hs : m.step with
  | ok n next =>
    obtain ⟨i, c, -, -, -, rfl⟩ := step_ok_cases hs
    exact m.exists_publishes_finish i c
  | error f next =>
    obtain ⟨-, rfl⟩ | ⟨i, t, c, -, -, -, rfl⟩ := step_error_cases hs
    · exact ⟨[], m.publishes_emitAll _⟩
    · exact ⟨[], (m.publishes_ready i).after_nothing ((m.ready i).publishes_settle c)⟩

end

theorem exists_publishes_poll {code : Byte} (h : m.poll = (some code, m')) :
    ∃ codes, m.Publishes m' codes := by
  obtain ⟨old, -, hp⟩ | ⟨-, -, hp⟩ | ⟨-, -, hp⟩ := m.poll_cases
  · obtain ⟨-, rfl⟩ := Prod.mk.inj (hp.symm.trans h)
    exact ⟨[], .nothing rfl rfl⟩
  · obtain ⟨-, rfl⟩ := Prod.mk.inj (hp.symm.trans h)
    exact ⟨_, m.publishes_serve⟩
  · simp [hp] at h

/-- A run that publishes a code stops with it, so it publishes no other. -/
theorem exists_publishes_runFor (n : Nat) (m : Machine) :
    ∃ codes, m.Publishes (Outcome.machine (runFor n m)) codes := by
  induction n generalizing m with
  | zero =>
    obtain ⟨code, polled, hp⟩ | hp := m.poll_stops_or_not
    · rw [runFor_of_poll hp]
      exact exists_publishes_poll hp
    · rw [runFor_zero_of_poll_none hp]
      exact ⟨[], .nothing rfl rfl⟩
  | succ n ih =>
    obtain ⟨code, polled, hp⟩ | hp := m.poll_stops_or_not
    · rw [runFor_of_poll hp]
      exact exists_publishes_poll hp
    · rw [runFor_succ_of_poll_none hp]
      obtain ⟨codes, hstep⟩ := m.exists_publishes_step
      cases hs : m.step with
      | error f next =>
        rw [hs] at hstep
        exact ⟨codes, hstep⟩
      | ok v next =>
        have hnext : m.Publishes next codes := by
          rw [hs] at hstep
          exact hstep
        cases hlast : codes.getLast? with
        | none =>
          obtain rfl := List.getLast?_eq_none_iff.1 hlast
          obtain ⟨codes, hrest⟩ := ih next
          exact ⟨codes, hnext.after_nothing hrest⟩
        | some code =>
          have hcode : next.exitCode = some code := by
            rw [hnext.exitCode, hlast]
            rfl
          have hstops : runFor n next = .ok (some code) next := runFor_of_exitCode hcode n
          dsimp only
          rw [hstops]
          exact ⟨codes, hnext⟩

theorem machine_reply {ε α : Type} (ok : α → Reply) (error : ε → Reply) (x : Outcome ε α) :
    (Outcome.reply ok error x).2 = x.machine := by
  cases x <;> rfl

theorem machine_readWord (m : Machine) (a : Word) :
    Outcome.machine (m.readWord a) = m.emitBus (m.bus.onReadWord a) := by
  unfold readWord
  split <;> rfl

theorem exists_write (m : Machine) (a : Word) (v : Byte) :
    ∃ bus journal, Outcome.machine (m.write a v) = { m with bus, journal } := by
  rw [write_eq, emitBus_eq]
  split
  · exact ⟨_, _, rfl⟩
  · exact ⟨m.bus, m.journal, rfl⟩

/-- What is asked of the bus changes the bus and the journal, and nothing else. -/
theorem exists_serveBus (m : Machine) (request : BusRequest) :
    ∃ bus journal, (m.serveBus request).2 = { m with bus, journal } := by
  cases request with
  | attach name base storage =>
    rw [serveBus, machine_reply, attach]
    split
    · rw [Outcome.machine, emit_eq]
      exact ⟨_, _, rfl⟩
    · exact ⟨m.bus, m.journal, rfl⟩
  | read a =>
    rw [serveBus, machine_reply, read]
    split
    · rw [Outcome.machine, emitBus_eq]
      exact ⟨m.bus, _, rfl⟩
    · exact ⟨m.bus, m.journal, rfl⟩
  | write a v =>
    rw [serveBus, machine_reply]
    exact m.exists_write a v
  | readWord a =>
    rw [serveBus, machine_reply, machine_readWord, emitBus_eq]
    exact ⟨m.bus, _, rfl⟩
  | writeWord a w =>
    rw [serveBus, machine_reply, writeWord]
    have hlow := m.exists_write a w.low
    generalize m.write a w.low = x at hlow
    cases x with
    | ok v next =>
      obtain ⟨bus, journal, rfl⟩ := hlow
      exact exists_write _ (a + 1) w.high
    | error e next => exact hlow

theorem answer_reset_cases (m : Machine) :
    (∃ pc journal, m.answer .reset = (.done, resetTo { m with journal } pc)) ∨
      ∃ f journal, m.answer .reset = (.faulted f, { m with journal }) := by
  obtain ⟨journal, hvector⟩ :
      ∃ journal, Outcome.machine (m.readWord resetVector) = { m with journal } :=
    ⟨_, (m.machine_readWord _).trans (m.emitBus_eq _)⟩
  cases hx : m.readWord resetVector with
  | ok pc next =>
    obtain rfl : next = { m with journal } := by simpa only [hx, Outcome.machine] using hvector
    exact .inl ⟨pc, journal, by simp only [answer, reset, hx, Outcome.reply]⟩
  | error e next =>
    obtain rfl : next = { m with journal } := by simpa only [hx, Outcome.machine] using hvector
    exact .inr ⟨_, journal, by simp only [answer, reset, hx, Outcome.reply]; rfl⟩

theorem exists_answer_of_leavesProcessor (m : Machine) {r : Request}
    (hr : r.leavesProcessor = true) :
    ∃ bus monitor channel journal, (m.answer r).2 = { m with bus, monitor, channel, journal } := by
  cases r with
  | bus request =>
    obtain ⟨bus, journal, hm⟩ := m.exists_serveBus request
    exact ⟨bus, m.monitor, m.channel, journal, hm⟩
  | receive =>
    simp only [answer, receive]
    cases m.channel <;> exact ⟨m.bus, m.monitor, _, m.journal, rfl⟩
  | shutdown now =>
    obtain ⟨es, -, hm⟩ := m.exists_shutdown now
    rw [answer, hm, emitBus_eq, emitAll_eq]
    exact ⟨m.bus.shutdown, m.monitor, m.channel, _, rfl⟩
  | attachMonitor _ | detachMonitor | openChannel _ => exact ⟨m.bus, _, _, m.journal, rfl⟩
  | _ => exact absurd hr Bool.noConfusion

/-- Serving a request publishes at most one code. A reset publishes nothing, and the machine then has
no code. -/
theorem exists_publishes_answer (m : Machine) {r : Request} (hr : r.usesChannel = false) :
    (m.resets r = true ∧ (m.answer r).2.channel = m.channel ∧ (m.answer r).2.exitCode = none) ∨
      (m.resets r = false ∧ ∃ codes, m.Publishes (m.answer r).2 codes) := by
  cases r with
  | bus request =>
    obtain ⟨bus, journal, hm⟩ := m.exists_serveBus request
    refine .inr ⟨rfl, [], ?_⟩
    rw [answer, hm]
    exact .nothing rfl rfl
  | assign change => exact .inr ⟨rfl, [], .nothing rfl rfl⟩
  | attachMonitor w => exact .inr ⟨rfl, [], .nothing rfl rfl⟩
  | detachMonitor => exact .inr ⟨rfl, [], .nothing rfl rfl⟩
  | reset =>
    obtain ⟨pc, journal, ha⟩ | ⟨f, journal, ha⟩ := m.answer_reset_cases
    · refine .inl ⟨by simp [resets, Request.wantsReset, ha], ?_, ?_⟩ <;> simp [ha, resetTo, emit_eq]
    · refine .inr ⟨by simp [resets, ha], [], ?_⟩
      rw [ha]
      exact .nothing rfl rfl
  | resetTo pc => refine .inl ⟨rfl, ?_, ?_⟩ <;> simp [answer, resetTo, emit_eq]
  | step =>
    refine .inr ⟨rfl, ?_⟩
    rw [answer, machine_reply]
    exact m.exists_publishes_step
  | runFor n =>
    refine .inr ⟨rfl, ?_⟩
    rw [answer, machine_reply]
    exact exists_publishes_runFor n m
  | run =>
    refine .inr ⟨rfl, ?_⟩
    rw [answer, machine_reply]
    obtain ⟨n, hn⟩ | hn := m.run_cases
    · rw [hn]
      exact exists_publishes_runFor n m
    · rw [hn]
      exact ⟨[], .nothing rfl rfl⟩
  | raise => exact .inr ⟨rfl, [], .nothing rfl rfl⟩
  | openChannel _ | receive => exact absurd hr Bool.noConfusion
  | shutdown now =>
    obtain ⟨es, -, hm⟩ := m.exists_shutdown now
    rw [answer, hm]
    have hover : m.Publishes { m with bus := m.bus.shutdown } [] := .nothing rfl rfl
    exact .inr ⟨rfl, [], (hover.after_nothing (publishes_emitAll _ _)).after_nothing
      (publishes_emitAll _ es)⟩

theorem published_of_publishes {r : Request} (h : m.roomy.Publishes (m.roomy.answer r).2 codes) :
    m.published r = codes := by
  have hroom : codes.length ≤ Channel.capacityLimit := Nat.le_trans h.length_le (by decide)
  rw [published, undelivered, h.channel]
  simp [roomy, withChannel, Channel.queue_offerAll, List.take_of_length_le hroom]

theorem answer_withChannel (m : Machine) (channel : Option Channel) {r : Request}
    (hr : r.usesChannel = false) :
    (m.answer r).1 = ((m.withChannel channel).answer r).1 ∧
      Abreast True Eq m (m.withChannel channel) (m.answer r).2
        ((m.withChannel channel).answer r).2 := by
  have hbeside : m.Beside Eq (m.withChannel channel) := ⟨rfl, rfl, rfl, rfl, rfl, rfl⟩
  exact (Abreast.refl hbeside).answer Bus.congruence_eq hr

theorem resets_withChannel (m : Machine) (channel : Option Channel) {r : Request}
    (hr : r.usesChannel = false) : (m.withChannel channel).resets r = m.resets r := by
  rw [resets, resets, (m.answer_withChannel channel hr).1]

theorem published_of_usesChannel {r : Request} (hr : r.usesChannel = true) :
    m.published r = [] := by
  cases r with
  | openChannel _ | receive => rfl
  | _ => exact absurd hr Bool.noConfusion

theorem length_published_le (m : Machine) (r : Request) : (m.published r).length ≤ 1 := by
  cases hr : r.usesChannel with
  | true => rw [published_of_usesChannel hr]; exact Nat.zero_le 1
  | false =>
    obtain ⟨-, hchannel, -⟩ | ⟨-, codes, h⟩ := m.roomy.exists_publishes_answer hr
    · rw [published, undelivered, hchannel]
      exact Nat.zero_le 1
    · rw [published_of_publishes h]
      exact h.length_le

/-- What a request publishes is offered on the channel, and nothing else is. -/
theorem channel_answer (m : Machine) {r : Request} (hr : r.usesChannel = false) :
    (m.answer r).2.channel = m.channel.map (·.offerAll (m.published r)) := by
  obtain ⟨codes, _, _, -, hm, hroomy⟩ := (m.answer_withChannel _ hr).2.way
  have htaken : m.published r = codes.take Channel.capacityLimit := by
    rw [published, roomy, undelivered, hroomy.channel]
    simp [withChannel, Channel.queue_offerAll]
  have hroom : codes.length ≤ Channel.capacityLimit := by
    have hshort := m.length_published_le r
    rw [htaken, List.length_take] at hshort
    have hlimit : 1 < Channel.capacityLimit := by decide
    omega
  rw [hm.channel, htaken, List.take_of_length_le hroom]

theorem exitCode_answer (m : Machine) (r : Request) :
    (m.answer r).2.exitCode =
      if m.resets r then none else (m.published r).getLast?.or m.exitCode := by
  cases hr : r.usesChannel with
  | true =>
    cases r with
    | openChannel _ => rfl
    | receive =>
      simp only [answer, receive]
      cases m.channel <;> rfl
    | _ => exact absurd hr Bool.noConfusion
  | false =>
    have hsame : (m.answer r).2.exitCode = (m.roomy.answer r).2.exitCode :=
      (m.answer_withChannel _ hr).2.exitCode
    have hresets : m.roomy.resets r = m.resets r := m.resets_withChannel _ hr
    rw [hsame]
    obtain ⟨hreset, -, hcode⟩ | ⟨hreset, codes, h⟩ := m.roomy.exists_publishes_answer hr
    · simp [← hresets, hreset, hcode]
    · rw [published_of_publishes h, h.exitCode, ← hresets, hreset]
      rfl

/-- A machine that has halted publishes nothing when it is run. -/
theorem published_of_exitCode {r : Request} {code : Byte} (hr : r.runs = true)
    (h : m.exitCode = some code) : m.published r = [] := by
  have hroomy : m.roomy.exitCode = some code := h
  cases r with
  | runFor n => rw [published, answer, machine_reply, runFor_of_exitCode hroomy]; rfl
  | run =>
    rw [published, answer, machine_reply, run, run?_of_poll (poll_of_exitCode hroomy)]
    rfl
  | _ => exact absurd hr Bool.noConfusion

theorem exitCode_of_reply {r : Request} {code : Byte} (hr : r.runs = true)
    (h : (m.answer r).1 = .code (some code)) : (m.answer r).2.exitCode = some code := by
  have hrunFor (n : Nat) (h : (m.answer (.runFor n)).1 = .code (some code)) :
      (m.answer (.runFor n)).2.exitCode = some code := by
    cases hx : runFor n m with
    | ok reply after =>
      simp only [answer, hx, Outcome.reply, Reply.code.injEq] at h ⊢
      exact exitCode_of_runFor (h ▸ hx)
    | error f after => simp [answer, hx, Outcome.reply] at h
  cases r with
  | runFor n => exact hrunFor n h
  | run =>
    obtain ⟨n, hn⟩ | hn := m.run_cases
    · have hsame : m.answer .run = m.answer (.runFor n) := by rw [answer, answer, hn]
      rw [hsame] at h ⊢
      exact hrunFor n h
    · simp [answer, hn, Outcome.reply] at h
  | _ => exact absurd hr Bool.noConfusion

end Machine
end Mos6502

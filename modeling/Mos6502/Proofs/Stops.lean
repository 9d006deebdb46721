import Mathlib.Data.List.Forall2
import Mathlib.Data.List.Induction
import Mos6502.Proofs.Audience

/-! Where a breakpoint monitor stops execution. Points come and go, steps are asked for, and the handler
answers the stops; what of all this counts for the next instruction is settled by the latest that has
a say in it. The order of the points only decides which of them a stop is put down to. -/
namespace Mos6502

/-- Of the entries that have a say, the latest is one of those that say yes. -/
def Latest {α : Type} (hasSay saysYes : α → Prop) (past : List α) : Prop :=
  ∃ older u newer, past = older ++ u :: newer ∧ saysYes u ∧ ∀ v ∈ newer, ¬hasSay v

section
variable {α : Type} {hasSay saysYes : α → Prop}

@[simp] theorem not_latest_nil : ¬Latest hasSay saysYes [] := by
  rintro ⟨older, u, newer, h, -⟩
  simp at h

theorem latest_snoc {past : List α} {v : α} :
    Latest hasSay saysYes (past ++ [v]) ↔
      saysYes v ∨ Latest hasSay saysYes past ∧ ¬hasSay v := by
  constructor
  · rintro ⟨older, u, newer, h, hu, hnewer⟩
    obtain rfl | ⟨newer, w, rfl⟩ := List.eq_nil_or_concat newer
    · obtain ⟨-, rfl⟩ : past = older ∧ v = u := by simpa using h
      exact .inl hu
    · rw [List.concat_eq_append] at h hnewer
      rw [← List.cons_append, ← List.append_assoc] at h
      obtain ⟨rfl, hv⟩ := List.append_inj' h rfl
      obtain rfl : v = w := by simpa using hv
      exact .inr ⟨⟨older, u, newer, rfl, hu, fun w hw => hnewer w (by simp [hw])⟩,
        hnewer v (by simp)⟩
  · rintro (hv | ⟨⟨older, u, newer, rfl, hu, hnewer⟩, hv⟩)
    · exact ⟨past, v, [], rfl, hv, by simp⟩
    · refine ⟨older, u, newer ++ [v], by simp, hu, fun w hw => ?_⟩
      obtain hw | rfl : w ∈ newer ∨ w = v := by simpa using hw
      · exact hnewer w hw
      · exact hv

end

def BreakHandler.answered (h : BreakHandler) : Nat → BreakHandler
  | 0 => h
  | n + 1 => (h.answered n).answer.2

namespace Breakpoints

/-- What can be done with a breakpoint monitor. -/
inductive Operation
  | add (p : Breakpoint) | remove (p : Breakpoint)
  | stepNext
  | observe (r : Registers) (i : Instruction)

def apply (b : Breakpoints) : Operation → List Event × Breakpoints
  | .add p => ([], b.add p)
  | .remove p => ([], (b.remove p).2)
  | .stepNext => ([], b.stepNext)
  | .observe r i => ((b.observe r i).2, (b.observe r i).1)

/-- An operation, and the monitor that it finds. -/
structure Visit where
  before : Breakpoints
  operation : Operation

namespace Visit

def seen (v : Visit) : List Event := (v.before.apply v.operation).1

def after (v : Visit) : Breakpoints := (v.before.apply v.operation).2

def stops (v : Visit) : Bool := !v.seen.isEmpty

def IsAbout (p : Breakpoint) (v : Visit) : Prop := v.operation = .add p ∨ v.operation = .remove p

def Adds (p : Breakpoint) (v : Visit) : Prop := v.operation = .add p

def IsAboutStepping (v : Visit) : Prop := v.operation = .stepNext ∨ v.stops = true

def AsksForStep (v : Visit) : Prop :=
  v.operation = .stepNext ∨ v.stops = true ∧ v.before.handler.answer.1 = .step

end Visit

def history (b : Breakpoints) : List Operation → List Visit
  | [] => []
  | op :: rest => ⟨b, op⟩ :: history (b.apply op).2 rest

def followedBy (b : Breakpoints) (ops : List Operation) : Breakpoints := (serveAll apply b ops).2

/-- A listed point is where the program is, what a register holds, or what it is about to do. -/
def Meets (points : List Breakpoint) (r : Registers) (i : Instruction) : Prop :=
  .address r.pc ∈ points ∨ (∃ d, .register d (r.get d) ∈ points) ∨ .mnemonic i.mnemonic ∈ points

variable {b b' : Breakpoints} {r : Registers} {i : Instruction}

theorem history_snoc (b : Breakpoints) (ops : List Operation) (op : Operation) :
    b.history (ops ++ [op]) = b.history ops ++ [⟨b.followedBy ops, op⟩] := by
  induction ops generalizing b with
  | nil => rfl
  | cons first rest ih => exact congrArg _ (ih _)

theorem followedBy_snoc (b : Breakpoints) (ops : List Operation) (op : Operation) :
    b.followedBy (ops ++ [op]) = ((b.followedBy ops).apply op).2 := by
  induction ops generalizing b with
  | nil => rfl
  | cons first rest ih => exact ih _

theorem hit?_isSome_iff : (b.hit? r i).isSome = true ↔ Meets b.points r i := by
  rw [hit?, List.find?_isSome]
  constructor
  · rintro ⟨p, hp, hholds⟩
    cases p with
    | address a =>
      obtain rfl : r.pc = a := by simpa [Breakpoint.holds] using hholds
      exact .inl hp
    | register d v =>
      obtain rfl : r.get d = v := by simpa [Breakpoint.holds] using hholds
      exact .inr (.inl ⟨d, hp⟩)
    | mnemonic k =>
      obtain rfl : i.mnemonic = k := by simpa [Breakpoint.holds] using hholds
      exact .inr (.inr hp)
  · rintro (hp | ⟨d, hp⟩ | hp)
    all_goals exact ⟨_, hp, by simp [Breakpoint.holds]⟩

theorem mem_points_add {p q : Breakpoint} : q ∈ (b.add p).points ↔ q = p ∨ q ∈ b.points := by
  unfold add
  split
  case isTrue hp => exact ⟨.inr, by rintro (rfl | hq) <;> assumption⟩
  case isFalse => simp [or_comm]

theorem mem_points_remove {p q : Breakpoint} :
    q ∈ (b.remove p).2.points ↔ q ∈ b.points ∧ q ≠ p := by
  simp [remove]

theorem stops_observe : Visit.stops ⟨b, .observe r i⟩ = b.stops r i := by
  cases h : b.stops r i <;> simp [Visit.stops, Visit.seen, apply, observe, h]

theorem observe_eq (b : Breakpoints) (r : Registers) (i : Instruction) :
    (b.observe r i).1 =
      if b.stops r i then
        { b with
          stepping := b.handler.answer.1 == .step
          hits := b.hits + 1
          handler := b.handler.answer.2 }
      else b := by
  unfold observe
  split <;> rfl

namespace Visit
variable (v : Visit)

theorem mem_after_iff (p : Breakpoint) :
    p ∈ v.after.points ↔ v.Adds p ∨ p ∈ v.before.points ∧ ¬v.IsAbout p := by
  obtain ⟨b, op⟩ := v
  cases op with
  | add q =>
    simp only [after, apply, mem_points_add, Adds, IsAbout, Operation.add.injEq, reduceCtorEq, or_false]
    grind
  | remove q =>
    simp only [after, apply, mem_points_remove, Adds, IsAbout, Operation.remove.injEq, reduceCtorEq,
      false_or]
    grind
  | stepNext => simp [after, apply, stepNext, Adds, IsAbout]
  | observe r i =>
    simp only [after, apply, observe_eq, Adds, IsAbout, reduceCtorEq, or_false, false_or,
      not_false_eq_true, and_true]
    split <;> rfl

/-- Whether the next instruction is a stop in any case. -/
theorem stepping_after_iff :
    v.after.stepping = true ↔ v.AsksForStep ∨ v.before.stepping = true ∧ ¬v.IsAboutStepping := by
  obtain ⟨b, op⟩ := v
  cases op with
  | add q =>
    have hadd : (b.add q).stepping = b.stepping := by unfold add; split <;> rfl
    simp [after, apply, hadd, AsksForStep, IsAboutStepping, stops, seen]
  | remove q => simp [after, apply, remove, AsksForStep, IsAboutStepping, stops, seen]
  | stepNext => simp [after, apply, stepNext, AsksForStep, IsAboutStepping, stops, seen]
  | observe r i =>
    simp only [after, apply, observe_eq, AsksForStep, IsAboutStepping, stops_observe]
    cases h : b.stops r i <;> simp

theorem rest_after :
    v.after.serial = v.before.serial ∧
      v.after.hits = (if v.stops then v.before.hits + 1 else v.before.hits) ∧
      v.after.handler = if v.stops then v.before.handler.answer.2 else v.before.handler := by
  obtain ⟨b, op⟩ := v
  cases op with
  | add q =>
    simp only [after, apply, add, stops, seen]
    split <;> exact ⟨rfl, rfl, rfl⟩
  | remove q | stepNext => exact ⟨rfl, rfl, rfl⟩
  | observe r i =>
    simp only [after, apply, observe_eq, stops_observe]
    split <;> exact ⟨rfl, rfl, rfl⟩

end Visit

/-- What a monitor has kept of its past: the points that were added and not taken out since, whether the
next instruction is a stop in any case, and how often the handler has been called. -/
structure Recalls (h : BreakHandler) (past : List Visit) (b : Breakpoints) : Prop where
  listed : ∀ p, p ∈ b.points ↔ Latest (Visit.IsAbout p) (Visit.Adds p) past
  stepping : b.stepping = true ↔ Latest Visit.IsAboutStepping Visit.AsksForStep past
  handler : b.handler = h.answered (past.countP Visit.stops)
  hits : b.hits = past.countP Visit.stops

theorem Recalls.nil (serial : Nat) (h : BreakHandler) :
    Recalls h [] { serial, handler := h } where
  listed := by simp
  stepping := by simp
  handler := rfl
  hits := rfl

theorem Recalls.snoc {h : BreakHandler} {past : List Visit} {v : Visit} (hv : Recalls h past v.before) :
    Recalls h (past ++ [v]) v.after where
  listed p := by rw [v.mem_after_iff, latest_snoc, hv.listed]
  stepping := by rw [v.stepping_after_iff, latest_snoc, hv.stepping]
  handler := by
    rw [v.rest_after.2.2, hv.handler, List.countP_append]
    cases h : v.stops <;> simp [h, BreakHandler.answered]
  hits := by
    rw [v.rest_after.2.1, hv.hits, List.countP_append]
    cases h : v.stops <;> simp [h]

theorem recalls (serial : Nat) (h : BreakHandler) (ops : List Operation) :
    Recalls h (history { serial, handler := h } ops)
      (followedBy { serial, handler := h } ops) := by
  induction ops using List.reverseRecOn with
  | nil => exact .nil serial h
  | append_singleton ops op ih =>
    rw [history_snoc, followedBy_snoc]
    exact Recalls.snoc (v := ⟨_, op⟩) ih

/-- What a stop is put down to: the first of the points that holds, or else a step. -/
def Explains (points : List Breakpoint) (r : Registers) (i : Instruction) (message : Message) : Prop :=
  (∃ front p back, points = front ++ p :: back ∧ p.holds r i = true ∧
    (∀ q ∈ front, q.holds r i = false) ∧ message = .breakpoint p r i) ∨
  ¬Meets points r i ∧ message = .singleStep r i

theorem explains_stopMessage (b : Breakpoints) (r : Registers) (i : Instruction) :
    Explains b.points r i (b.stopMessage r i) := by
  unfold stopMessage
  cases hhit : b.hit? r i with
  | none => exact .inr ⟨by simp [← hit?_isSome_iff, hhit], rfl⟩
  | some p =>
    obtain ⟨hholds, front, back, hpoints, hfront⟩ := List.find?_eq_some_iff_append.1 hhit
    exact .inl ⟨front, p, back, hpoints, hholds, by simpa using hfront, rfl⟩

/-- An instruction that is observed behind a past. Execution stops there if one of the points holds, or
the latest that has a say in it asks for a step; the handler is called if it does. -/
structure Observes (past : List Visit) (b : Breakpoints) (r : Registers) (i : Instruction) : Prop where
  stops_iff : Visit.stops ⟨b, .observe r i⟩ = true ↔
    Meets b.points r i ∨ Latest Visit.IsAboutStepping Visit.AsksForStep past
  of_stops : Visit.stops ⟨b, .observe r i⟩ = true → ∃ message, Explains b.points r i message ∧
    b.observe r i =
      ({ b with
          stepping := b.handler.answer.1 == .step
          hits := b.hits + 1
          handler := b.handler.answer.2 },
        .log message :: b.handler.onStop r i)
  of_not_stops : Visit.stops ⟨b, .observe r i⟩ = false → b.observe r i = (b, [])

theorem Recalls.observes {h : BreakHandler} {past : List Visit} (hb : Recalls h past b)
    (r : Registers) (i : Instruction) : Observes past b r i where
  stops_iff := by rw [stops_observe, stops, Bool.or_eq_true, hit?_isSome_iff, hb.stepping]
  of_stops hstops := by
    rw [stops_observe] at hstops
    exact ⟨_, explains_stopMessage b r i, by rw [observe, if_pos hstops]⟩
  of_not_stops hstops := by
    rw [stops_observe] at hstops
    rw [observe, hstops, if_neg Bool.false_ne_true]

/-- Two monitors that list the same points, perhaps in another order, and agree in all the rest. -/
structure SameButOrder (b b' : Breakpoints) : Prop where
  listed : ∀ p, p ∈ b'.points ↔ p ∈ b.points
  serial : b'.serial = b.serial
  stepping : b'.stepping = b.stepping
  hits : b'.hits = b.hits
  handler : b'.handler = b.handler

end Breakpoints

inductive Event.SameButPoint : Event → Event → Prop
  | same (e : Event) : SameButPoint e e
  | point (p q : Breakpoint) (r : Registers) (i : Instruction) :
    SameButPoint (.log (.breakpoint p r i)) (.log (.breakpoint q r i))

namespace Breakpoints
variable {b b' : Breakpoints} {r : Registers} {i : Instruction}

structure Visit.SameButOrder (v w : Visit) : Prop where
  before : v.before.SameButOrder w.before
  operation : w.operation = v.operation
  stops : w.stops = v.stops
  seen : List.Forall₂ Event.SameButPoint v.seen w.seen

namespace SameButOrder

theorem isSome_hit? (h : b.SameButOrder b') : (b'.hit? r i).isSome = (b.hit? r i).isSome := by
  rw [Bool.eq_iff_iff, hit?_isSome_iff, hit?_isSome_iff, Meets, Meets]
  simp only [h.listed]

theorem stopMessage (h : b.SameButOrder b') :
    Event.SameButPoint (.log (b.stopMessage r i)) (.log (b'.stopMessage r i)) := by
  have hsome := h.isSome_hit? (r := r) (i := i)
  unfold Breakpoints.stopMessage
  cases hhit : b.hit? r i with
  | none =>
    obtain hhit' : b'.hit? r i = none := by simpa [hhit] using hsome
    rw [hhit']
    exact .same _
  | some p =>
    obtain ⟨q, hq⟩ := Option.isSome_iff_exists.1 (hsome.trans (by rw [hhit]; rfl))
    rw [hq]
    exact .point p q r i

theorem visit (h : b.SameButOrder b') (op : Operation) : Visit.SameButOrder ⟨b, op⟩ ⟨b', op⟩ := by
  have hseen : List.Forall₂ Event.SameButPoint (Visit.seen ⟨b, op⟩) (Visit.seen ⟨b', op⟩) := by
    cases op with
    | add p | remove p | stepNext => exact .nil
    | observe r i =>
      have hstops : b'.stops r i = b.stops r i := by rw [stops, stops, h.isSome_hit?, h.stepping]
      simp only [Visit.seen, apply, observe, hstops]
      cases b.stops r i with
      | false => exact .nil
      | true =>
        refine .cons h.stopMessage ?_
        rw [h.handler]
        exact List.forall₂_same.2 fun e _ => .same e
  refine ⟨h, rfl, ?_, hseen⟩
  unfold Visit.stops
  generalize Visit.seen ⟨b, op⟩ = es at hseen
  generalize Visit.seen ⟨b', op⟩ = es' at hseen
  cases hseen <;> rfl

theorem after (h : b.SameButOrder b') (op : Operation) :
    (b.apply op).2.SameButOrder (b'.apply op).2 := by
  have hvisit := h.visit op
  obtain ⟨hserial, hhits, hhandler⟩ := Visit.rest_after ⟨b, op⟩
  obtain ⟨hserial', hhits', hhandler'⟩ := Visit.rest_after ⟨b', op⟩
  constructor
  case listed =>
    intro p
    have hlisted := Visit.mem_after_iff ⟨b, op⟩ p
    have hlisted' := Visit.mem_after_iff ⟨b', op⟩ p
    rw [h.listed] at hlisted'
    exact hlisted'.trans hlisted.symm
  case serial => exact hserial'.trans (h.serial.trans hserial.symm)
  case stepping =>
    have hstepping := Visit.stepping_after_iff ⟨b, op⟩
    have hstepping' := Visit.stepping_after_iff ⟨b', op⟩
    rw [Visit.AsksForStep, Visit.IsAboutStepping] at hstepping hstepping'
    rw [hvisit.stops, h.handler, h.stepping] at hstepping'
    exact Bool.eq_iff_iff.2 (hstepping'.trans hstepping.symm)
  case hits =>
    rw [hvisit.stops, h.hits] at hhits'
    exact hhits'.trans hhits.symm
  case handler =>
    rw [hvisit.stops, h.handler] at hhandler'
    exact hhandler'.trans hhandler.symm

theorem history (h : b.SameButOrder b') (ops : List Operation) :
    List.Forall₂ Visit.SameButOrder (b.history ops) (b'.history ops) := by
  induction ops generalizing b b' with
  | nil => exact .nil
  | cons op rest ih => exact .cons (h.visit op) (ih (h.after op))

end SameButOrder

theorem followedBy_adds (b : Breakpoints) (ps : List Breakpoint) :
    ∃ points, b.followedBy (ps.map .add) = { b with points } ∧
      ∀ q, q ∈ points ↔ q ∈ ps ∨ q ∈ b.points := by
  induction ps generalizing b with
  | nil => exact ⟨b.points, rfl, by simp⟩
  | cons p rest ih =>
    obtain ⟨points, hb, hpoints⟩ := ih (b.add p)
    refine ⟨points, ?_, fun q => ?_⟩
    · have hadd : ({ b.add p with points } : Breakpoints) = { b with points } := by
        unfold add
        split <;> rfl
      exact hb.trans hadd
    · rw [hpoints, mem_points_add, List.mem_cons]
      grind

theorem SameButOrder.of_perm (b : Breakpoints) {ps qs : List Breakpoint} (h : ps.Perm qs) :
    (b.followedBy (ps.map .add)).SameButOrder (b.followedBy (qs.map .add)) := by
  obtain ⟨points, hb, hpoints⟩ := b.followedBy_adds ps
  obtain ⟨points', hb', hpoints'⟩ := b.followedBy_adds qs
  rw [hb, hb']
  exact ⟨fun p => by rw [hpoints, hpoints', h.mem_iff], rfl, rfl, rfl, rfl⟩

end Breakpoints

namespace Machine

/-- A step before a breakpoint monitor shows it the instruction before it is carried out. -/
theorem observed_in_step {m : Machine} {b : Breakpoints} {i : Instruction}
    (hm : m.monitor = some (.breakpoints b))
    (hd : Instruction.decode m.bus m.registers.pc = .ok i) :
    (Outcome.machine m.step).monitor = some (.breakpoints (b.observe m.registers i).1) ∧
      ∃ rest, (Outcome.machine m.step).journal = m.journal ++
        ((m.fetched ++ (b.observe m.registers i).2 ++ rest).filter (·.passes m.logging)).toArray := by
  obtain ⟨rest, hstep⟩ := m.exists_step_playedTo
  have hown : m.step = m.step.playedTo (m.audience.attend ⟨m.fetched, m.signal? .step, rest⟩) :=
    hstep m.audience
  have hsignal : m.signal? .step = some (.about (m.observation i)) := by
    simp only [signal?, aboutToRun?, hd, Option.map_some]
  have haudience : (Outcome.machine m.step).audience =
      m.audience.attend ⟨m.fetched, some (.about (m.observation i)), rest⟩ := by
    rw [hsignal] at hown
    rw [hown]
    cases m.step <;> rfl
  have hmonitor := congrArg Audience.monitor haudience
  have hjournal := congrArg Audience.journal haudience
  have hshown : m.audience.shown (some (.about (m.observation i))) = (b.observe m.registers i).2 := by
    simp only [Audience.shown, audience, hm]
    rfl
  simp only [Audience.attend, hshown] at hjournal
  simp only [Audience.attend, audience, hm] at hmonitor
  exact ⟨hmonitor, rest, hjournal⟩

end Machine

/-- Where a breakpoint monitor stops execution follows from what has been done with it, and does not
depend on the order of its points, which only decides the one that is named. It is shown each
instruction before that is carried out. -/
theorem Breakpoints.stops_exact :
    (∀ (serial : Nat) (h : BreakHandler) (ops : List Operation),
      let past := history { serial, handler := h } ops
      let b := followedBy { serial, handler := h } ops
      Recalls h past b ∧ ∀ r i, Observes past b r i) ∧
    (∀ (b : Breakpoints) (ps qs : List Breakpoint), ps.Perm qs →
      SameButOrder (b.followedBy (ps.map .add)) (b.followedBy (qs.map .add))) ∧
    (∀ (b b' : Breakpoints) (ops : List Operation), b.SameButOrder b' →
      List.Forall₂ Visit.SameButOrder (b.history ops) (b'.history ops)) ∧
    ∀ (m : Machine) (b : Breakpoints) (i : Instruction), m.monitor = some (.breakpoints b) →
      Instruction.decode m.bus m.registers.pc = .ok i →
      (Machine.Outcome.machine m.step).monitor = some (.breakpoints (b.observe m.registers i).1) ∧
      ∃ rest, (Machine.Outcome.machine m.step).journal = m.journal ++
        ((m.fetched ++ (b.observe m.registers i).2 ++ rest).filter
          (·.passes m.logging)).toArray := by
  refine ⟨fun serial h ops => ?_, fun b ps qs => .of_perm b, fun b b' ops hb => hb.history ops,
    fun m b i hm hd => Machine.observed_in_step hm hd⟩
  have hrecalls := recalls serial h ops
  exact ⟨hrecalls, hrecalls.observes⟩

def Machine.idling (b : Breakpoints) : Machine where
  registers := { pc := 0 }
  monitor := some (.breakpoints b)
  bus := ⟨[⟨"code", 0x0000, .ram #[0xEA], by simp [Backend.size], by simp [Backend.size]⟩]⟩

def Instruction.doNothing : Instruction := ⟨0, ⟨0xEA, .nop, .implied, 2⟩, .none⟩

set_option maxRecDepth 2000 in
theorem decode_idling (b : Breakpoints) :
    Instruction.decode (Machine.idling b).bus 0 = .ok .doNothing := rfl

/-- Stopped there, because of the address or the mnemonic, and told to stop at the next instruction
too. -/
theorem Breakpoints.stops_exact_idling :
    let stopped : Breakpoints := { handler := .script [.step] }
    let addressFirst := stopped.followedBy [.add (.address 0), .add (.mnemonic .nop)]
    let mnemonicFirst := stopped.followedBy [.add (.mnemonic .nop), .add (.address 0)]
    (Machine.Outcome.machine (Machine.idling addressFirst).step).monitor =
      some (.breakpoints { addressFirst with stepping := true, hits := 1, handler := .script [] }) ∧
    List.Forall₂ Visit.SameButOrder (addressFirst.history [.observe {} .doNothing])
      (mnemonicFirst.history [.observe {} .doNothing]) := by
  intro stopped addressFirst mnemonicFirst
  obtain ⟨-, hadds, horder, hmachine⟩ := stops_exact
  have hperm : [Breakpoint.address 0, .mnemonic .nop].Perm [.mnemonic .nop, .address 0] := .swap _ _ _
  obtain ⟨hmonitor, -⟩ := hmachine _ addressFirst .doNothing rfl (decode_idling addressFirst)
  exact ⟨hmonitor, horder _ _ _ (hadds stopped _ _ hperm)⟩

end Mos6502

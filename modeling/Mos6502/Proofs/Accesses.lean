import Mos6502.Proofs.StepCases

/-! The accesses to devices among all that is let be seen. They come from the bus: no monitor makes
one, and the log configuration holds none back. -/
namespace Mos6502

/-- An access to a device: the name of its region, and what has been done. -/
abbrev Access := String × ProbeAccess

def BusNotice.access? : BusNotice → Option Access
  | .probe region access => some (region, access)
  | .ignoredWrite _ _ _ _ => none

def Notice.access? : Notice → Option Access
  | .bus n => n.access?
  | .softwareInterrupt _ _ _ => none

namespace Core

/-- The accesses to devices that have been made so far. -/
def accesses (c : Core) : List Access := c.notices.filterMap Notice.access?

@[simp] theorem accesses_hear (c : Core) (ns : List BusNotice) :
    (c.hear ns).accesses = c.accesses ++ ns.filterMap BusNotice.access? := by
  have hbus : Notice.access? ∘ Notice.bus = BusNotice.access? := rfl
  rw [accesses, hear, List.filterMap_append, List.filterMap_map, hbus]
  rfl

end Core

def Event.access? : Event → Option Access
  | .probe region access => some (region, access)
  | _ => none

theorem Event.accesses_ofBusNotice (ns : List BusNotice) :
    (ns.map ofBusNotice).filterMap access? = ns.filterMap BusNotice.access? := by
  have hone : access? ∘ ofBusNotice = BusNotice.access? := funext fun n => by cases n <;> rfl
  rw [List.filterMap_map, hone]

theorem Event.accesses_ofNotice (ns : List Notice) :
    (ns.map ofNotice).filterMap access? = ns.filterMap Notice.access? := by
  have hone : access? ∘ ofNotice = Notice.access? := funext fun n => by
    cases n with
    | bus n => cases n <;> rfl
    | softwareInterrupt a pushed target => rfl
  rw [List.filterMap_map, hone]

@[simp] theorem Event.access?_log (message : Message) : (Event.log message).access? = none := rfl

theorem Event.accesses_filter (k : Log.Config) (es : List Event) :
    (es.filter (·.passes k)).filterMap Event.access? = es.filterMap Event.access? := by
  rw [List.filterMap_filter]
  refine congrArg (es.filterMap ·) (funext fun e => ?_)
  cases e with
  | log message =>
    rw [access?_log]
    split <;> rfl
  | _ => rfl

theorem Breakpoints.accesses_observe (b : Breakpoints) (r : Registers) (i : Instruction) :
    (b.observe r i).2.filterMap Event.access? = [] := by
  unfold observe
  split
  · cases b.handler <;> rfl
  · rfl

namespace Monitor

mutual

theorem accesses_observe (o : Observation) :
    ∀ w : Monitor, (w.observe o).2.filterMap Event.access? = []
  | .tracer .working => rfl
  | .tracer .broken => rfl
  | .logTracer => rfl
  | .speedometer _ => rfl
  | .recorder _ => rfl
  | .breakpoints b => b.accesses_observe o.registers o.instruction
  | .chain members => accesses_observeAll o members

theorem accesses_observeAll (o : Observation) :
    ∀ ws : List Monitor, (observeAll o ws).2.filterMap Event.access? = []
  | [] => rfl
  | w :: rest => by
    rw [observeAll, List.filterMap_append, accesses_observe o w, accesses_observeAll o rest]
    rfl

end

mutual

theorem accesses_shutdown (now : Duration) :
    ∀ w : Monitor, (w.shutdown now).filterMap Event.access? = []
  | .tracer _ => rfl
  | .logTracer => rfl
  | .speedometer _ => rfl
  | .recorder _ => rfl
  | .breakpoints _ => rfl
  | .chain members => accesses_shutdownAll now members

theorem accesses_shutdownAll (now : Duration) :
    ∀ ws : List Monitor, (shutdownAll now ws).filterMap Event.access? = []
  | [] => rfl
  | w :: rest => by
    rw [shutdownAll, List.filterMap_append, accesses_shutdown now w, accesses_shutdownAll now rest]
    rfl

end

end Monitor

namespace Machine

def accesses (m : Machine) : List Access := m.journal.toList.filterMap Event.access?

theorem accesses_emitAll (m : Machine) (es : List Event) :
    (m.emitAll es).accesses = m.accesses ++ es.filterMap Event.access? := by
  simp [emitAll_eq, accesses, Event.accesses_filter]

theorem accesses_watch (m : Machine) (i : Instruction) :
    (m.watch i).filterMap Event.access? = [] := by
  unfold watch
  cases m.monitor with
  | none => rfl
  | some w => exact w.accesses_observe _

theorem accesses_ready (m : Machine) (i : Instruction) :
    (m.ready i).accesses = m.accesses ++
      (Instruction.onDecode m.bus m.registers.pc).filterMap BusNotice.access? := by
  have hannounced : [Event.log (.executing i)].filterMap Event.access? = [] := rfl
  have hpreview : (m.preview i).filterMap Event.access? =
      (Instruction.onDecode m.bus m.registers.pc).filterMap BusNotice.access? := by
    rw [preview, List.filterMap_append, List.filterMap_append, Event.accesses_ofBusNotice,
      accesses_watch, hannounced, List.append_nil, List.append_nil]
  rw [ready]
  simp [accesses, Event.accesses_filter, hpreview]

theorem accesses_settle (m : Machine) (c : Core) :
    (m.settle c).accesses = m.accesses ++ c.accesses := by
  rw [settle, accesses_emitAll, Event.accesses_ofNotice]
  rfl

/-- What is seen of a shutdown behind the accesses is none of them. -/
theorem exists_shutdown (m : Machine) (now : Duration) :
    ∃ es, es.filterMap Event.access? = [] ∧
      m.shutdown now = ({ m with bus := m.bus.shutdown }.emitBus m.bus.onShutdown).emitAll es := by
  simp only [shutdown, emitBus_eq]
  cases m.monitor with
  | none => exact ⟨[], rfl, rfl⟩
  | some w => exact ⟨w.shutdown now, w.accesses_shutdown now, rfl⟩

end Machine
end Mos6502

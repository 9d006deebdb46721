import Mos6502.Proofs.FaultTruth
import Mos6502.Proofs.Request
import Mos6502.Proofs.Runs

/-! Nothing a host asks of a machine makes it panic. A backend would panic if the bus asked it for a
byte behind its end, and an instruction if it looked for the address of an operand that has none.
A region covers no more addresses than its backend has bytes, and the opcode table gives no
instruction a mode without an address where one is needed. -/
namespace Mos6502

def BusError.isPanic : BusError → Bool
  | .outOfBounds _ _ => true
  | _ => false

def Fault.isPanic : Fault → Bool
  | .bus _ _ e => e.isPanic
  | .noAddress _ _ => true
  | _ => false

def Reply.isPanic : Reply → Bool
  | .refused e => e.isPanic
  | .faulted f => f.isPanic
  | _ => false

namespace Bus
variable {bus : Bus}

theorem Misses.isPanic {e : BusError} (h : bus.Misses e) : e.isPanic = false := by
  obtain ⟨a, rfl, -⟩ := h
  rfl

theorem isPanic_of_attach {name : String} {base : Word} {backend : Backend} {e : BusError}
    (h : bus.attach name base backend = .error e) : e.isPanic = false := by
  obtain ⟨e', he, h'⟩ | ⟨r, -, -, -, -, h'⟩ := bus.attach_cases name base backend
  · obtain rfl := Except.error.inj (h.symm.trans h')
    unfold refusal? at he
    split at he
    · obtain rfl := Option.some.inj he
      rfl
    · split at he
      · obtain rfl := Option.some.inj he
        rfl
      · simp at he
  · simp [h'] at h

end Bus

theorem Fault.Truthful.isPanic {m : Machine} {f : Fault} (h : f.Truthful m) : f.isPanic = false := by
  obtain ⟨-, h⟩ := h
  cases f with
  | illegalOpcode pc code => rfl
  | bus pc opcode e =>
    cases opcode with
    | none =>
      obtain ⟨rfl, -⟩ := h
      rfl
    | some code => exact Bus.Misses.isPanic h.2.2
  | pointerOutsideZeroPage pc code pointer => rfl
  | noAddress pc code => exact h.elim

/-- The last address of a region is as far from its base as its backend has bytes, so that the
region covers those addresses which are inside the backend and no others. -/
theorem Region.toNat_last (r : Region) : r.last.toNat + 1 = r.base.toNat + r.backend.size := by
  have hpos := r.size_pos
  have hfits := r.fits
  simp only [last, size, UInt16.toNat_ofNat']
  omega

theorem Region.covers_iff_le_last {r : Region} {a : Word} :
    r.covers a = true ↔ r.base ≤ a ∧ a ≤ r.last := by
  have hlast := r.toNat_last
  rw [covers_iff, UInt16.le_iff_toNat_le, UInt16.le_iff_toNat_le, size]
  omega

namespace Machine
variable {m : Machine}

theorem isPanic_of_runFor {n : Nat} {f : Fault} {m' : Machine} (h : runFor n m = .error f m') :
    f.isPanic = false := by
  obtain ⟨before, hs⟩ := exists_step_of_runFor h
  exact (truthful_of_step hs).isPanic

/-- An outcome that is no panic, on a bus of RAM and ROM. -/
def Safe (x : Reply × Machine) : Prop := x.1.isPanic = false ∧ x.2.bus.isPlain = true

theorem safe_reply {ε α : Type} {x : Outcome ε α} {ok : α → Reply} {error : ε → Reply}
    (hok : ∀ v, (ok v).isPanic = false)
    (herror : ∀ e m', x = .error e m' → (error e).isPanic = false)
    (hp : (Outcome.machine x).bus.isPlain = true) : Safe (Outcome.reply ok error x) := by
  cases x with
  | ok v m => exact ⟨hok v, hp⟩
  | error e m => exact ⟨herror e m rfl, hp⟩

theorem isPanic_of_write {a : Word} {v : Byte} {e : BusError} {m' : Machine}
    (h : m.write a v = .error e m') : e.isPanic = false := by
  rw [write_eq] at h
  split at h
  · simp at h
  · simp only [EStateM.Result.error.injEq] at h
    rw [← h.1]
    rfl

theorem isPlain_write (hp : m.bus.isPlain = true) (a : Word) (v : Byte) :
    (Outcome.machine (m.write a v)).bus.isPlain = true := by
  rw [write_eq]
  split
  · simpa [Outcome.machine] using hp
  · exact hp

theorem serveBus_safe (hp : m.bus.isPlain = true) (request : BusRequest) :
    Safe (m.serveBus request) := by
  cases request with
  | attach name base storage =>
    obtain ⟨e, -, h⟩ | ⟨r, -, -, -, hr, h⟩ := m.bus.attach_cases name base storage.backend
    · simp only [serveBus, attach, h]
      exact ⟨Bus.isPanic_of_attach h, hp⟩
    · simp only [serveBus, attach, h]
      refine ⟨rfl, ?_⟩
      simp [Outcome.reply, emit_eq, Bus.isPlain_snoc, hr, hp]
  | read a =>
    simp only [serveBus, read]
    cases h : m.bus.read a with
    | ok v => exact ⟨rfl, by simpa [Outcome.reply, emitBus_eq] using hp⟩
    | error e => exact ⟨(Bus.misses_of_read h).isPanic, hp⟩
  | readWord a =>
    simp only [serveBus, readWord]
    cases h : m.bus.readWord a with
    | ok w => exact ⟨rfl, by simpa [Outcome.reply, emitBus_eq] using hp⟩
    | error e =>
      exact ⟨(Bus.misses_of_readWord h).isPanic, by simpa [Outcome.reply, emitBus_eq] using hp⟩
  | write a v =>
    exact safe_reply (fun _ => rfl) (fun _ _ => isPanic_of_write) (isPlain_write hp a v)
  | writeWord a w =>
    have hlow := isPlain_write hp a w.low
    simp only [serveBus, writeWord]
    cases h : m.write a w.low with
    | error e next =>
      rw [h] at hlow
      exact ⟨isPanic_of_write h, hlow⟩
    | ok v next =>
      rw [h] at hlow
      exact safe_reply (fun _ => rfl) (fun _ _ => isPanic_of_write) (isPlain_write hlow _ _)

theorem reset_safe (hp : m.bus.isPlain = true) :
    Safe (Outcome.reply (fun _ => .done) .faulted m.reset) := by
  simp only [reset, readWord]
  cases h : m.bus.readWord resetVector with
  | ok start =>
    refine ⟨rfl, ?_⟩
    simpa [Outcome.reply, resetTo, emit_eq, emitBus_eq] using hp
  | error e =>
    refine ⟨(Bus.misses_of_readWord h).isPanic, ?_⟩
    simpa [Outcome.reply, emitBus_eq] using hp

theorem runFor_safe (hp : m.bus.isPlain = true) (n : Nat) :
    Safe (Outcome.reply .code .faulted (runFor n m)) :=
  safe_reply (fun _ => rfl) (fun _ _ => isPanic_of_runFor)
    (runFor_bus (P := fun bus => bus.isPlain = true) (by simp) n hp)

theorem bus_shutdown (m : Machine) (now : Duration) : (m.shutdown now).bus = m.bus.shutdown := by
  simp only [shutdown, emitBus_eq]
  split <;> simp [emitAll_eq]

/-- One request: no panic, and no backend but RAM and ROM gets on the bus. -/
theorem answer_safe (hp : m.bus.isPlain = true) (request : Request) :
    Safe (m.answer request) := by
  cases request with
  | bus request => exact serveBus_safe hp request
  | assign change => exact ⟨rfl, hp⟩
  | attachMonitor w => exact ⟨rfl, hp⟩
  | detachMonitor => exact ⟨rfl, hp⟩
  | reset => exact reset_safe hp
  | resetTo pc => exact ⟨rfl, by simpa [answer, resetTo, emit_eq] using hp⟩
  | step =>
    exact safe_reply (fun _ => rfl) (fun _ _ h => (truthful_of_step h).isPanic)
      (step_bus (P := fun bus => bus.isPlain = true) (by simp) hp)
  | runFor limit => exact runFor_safe hp limit
  | run =>
    obtain ⟨n, hn⟩ | hn := m.run_cases
    · simpa only [answer, hn] using runFor_safe hp n
    · simpa only [answer, hn] using ⟨rfl, hp⟩
  | raise => exact ⟨rfl, hp⟩
  | openChannel capacity => exact ⟨rfl, hp⟩
  | receive =>
    refine ⟨rfl, ?_⟩
    simp only [answer, receive]
    cases m.channel <;> exact hp
  | shutdown now =>
    exact ⟨rfl, by rwa [answer, bus_shutdown, Bus.shutdown_of_isPlain hp]⟩

/-- Whatever is asked of a machine whose bus is empty at first, and whatever RAM and ROM is attached
to it, no reply is a panic. The bus stays one of RAM and ROM, and each of its regions ends where
its backend does; and whatever a bus has become, also in the middle of an instruction, the region
that an access is routed to is asked for a byte that its backend has. -/
theorem answers_never_panic (start : Machine) (requests : List Request) :
    let served := serveAll answer { start with bus := {} } requests
    (∀ reply ∈ served.1, reply.isPanic = false) ∧
      served.2.bus.isPlain = true ∧
      (∀ r ∈ served.2.bus.regions, r.last.toNat + 1 = r.base.toNat + r.backend.size ∧
        ∀ a, r.covers a = true ↔ r.base ≤ a ∧ a ≤ r.last) ∧
      ∀ (bus : Bus) (a : Word) (r : Region), bus.owner? a = some r →
        (r.offset a).toNat < r.backend.size := by
  have hstep (m : Machine) (request : Request) (hp : m.bus.isPlain = true) :
      (m.answer request).1.isPanic = false ∧ (m.answer request).2.bus.isPlain = true :=
    answer_safe hp request
  obtain ⟨hreplies, hp⟩ := serveAll_invariant (I := fun m => m.bus.isPlain = true)
    (P := fun reply : Reply => reply.isPanic = false) hstep (s := { start with bus := {} }) rfl
    requests
  refine ⟨hreplies, hp, fun r _ => ⟨r.toNat_last, fun _ => Region.covers_iff_le_last⟩, ?_⟩
  intro bus a r hr
  have hc : r.covers a = true := by simpa using List.find?_some hr
  exact Region.offset_lt_size hc

/-- The last address is mapped, one region does not fit, and the program starts in a hole. -/
theorem answers_never_panic_at_top :
    let requests : List Request :=
      [.bus (.attach "vectors" 0xFFFC (.ram #[0, 0, 0, 2])),
        .bus (.attach "late" 0xFFFD (.rom "r" #[1, 2, 3, 4])), .bus (.readWord 0xFFFF), .reset, .step]
    let served := serveAll answer {} requests
    served.1 = [.done, .refused (.regionOutOfRange "late" 0xFFFD 4), .refused (.unmapped 0), .done,
        .faulted (.bus 0 none (.unmapped 0))] ∧
      ∀ reply ∈ served.1, reply.isPanic = false :=
  ⟨by decide, (answers_never_panic {} _).1⟩

end Machine
end Mos6502

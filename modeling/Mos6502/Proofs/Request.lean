import Mos6502.Machine.Run

/-! Requests: what a host asks of a machine, one after the other, and the replies it gets. -/
namespace Mos6502

/-- A backend without side effects and what it holds at first. -/
inductive Storage
  | ram (image : Image) | rom (label : String) (image : Image)

namespace Storage

def image : Storage → Image
  | .ram image | .rom _ image => image

def size (s : Storage) : Nat := s.image.size

def backend : Storage → Backend
  | .ram image => .ram image
  | .rom label image => .rom label image

@[simp] theorem size_backend (s : Storage) : s.backend.size = s.size := by
  cases s <;> rfl

@[simp] theorem isPlain_backend (s : Storage) : s.backend.isPlain = true := by
  cases s <;> rfl

end Storage

inductive BusRequest
  | attach (name : String) (base : Word) (storage : Storage)
  | read (a : Word) | write (a : Word) (v : Byte)
  | readWord (a : Word) | writeWord (a : Word) (w : Word)

inductive Request
  | bus (request : BusRequest)
  | assign (change : Registers → Registers)
  | attachMonitor (monitor : Monitor) | detachMonitor
  | reset | resetTo (pc : Word) | step | runFor (limit : Nat) | run
  | raise | openChannel (capacity : Nat) | receive | shutdown (now : Duration)

inductive Reply
  | done | byte (v : Byte) | word (w : Word) | code (c : Option Byte) | cycles (n : Nat)
  | refused (e : BusError) | faulted (f : Fault)
  deriving DecidableEq, Repr

namespace Machine

def Outcome.reply {ε α : Type} (ok : α → Reply) (error : ε → Reply) :
    Outcome ε α → Reply × Machine
  | .ok v m => (ok v, m)
  | .error e m => (error e, m)

def serveBus (m : Machine) : BusRequest → Reply × Machine
  | .attach name base storage =>
    Outcome.reply (fun _ => .done) .refused (m.attach name base storage.backend)
  | .read a => Outcome.reply .byte .refused (m.read a)
  | .write a v => Outcome.reply (fun _ => .done) .refused (m.write a v)
  | .readWord a => Outcome.reply .word .refused (m.readWord a)
  | .writeWord a w => Outcome.reply (fun _ => .done) .refused (m.writeWord a w)

def answer (m : Machine) : Request → Reply × Machine
  | .bus request => m.serveBus request
  | .assign change => (.done, { m with registers := change m.registers })
  | .attachMonitor w => (.done, { m with monitor := some w })
  | .detachMonitor => (.done, { m with monitor := none })
  | .reset => Outcome.reply (fun _ => .done) .faulted m.reset
  | .resetTo pc => (.done, m.resetTo pc)
  | .step => Outcome.reply .cycles .faulted m.step
  | .runFor limit => Outcome.reply .code .faulted (runFor limit m)
  | .run => Outcome.reply .code .faulted m.run
  | .raise => (.done, m.raise)
  | .openChannel capacity => (.done, { m with channel := some { capacity } })
  | .receive => (.code m.receive.1, m.receive.2)
  | .shutdown now => (.done, m.shutdown now)

end Machine

/-- Serves requests in order; each finds the state that the one before has left. -/
def serveAll {σ ρ α : Type} (serve : σ → ρ → α × σ) (s : σ) : List ρ → List α × σ
  | [] => ([], s)
  | r :: rest =>
    let others := serveAll serve (serve s r).2 rest
    ((serve s r).1 :: others.1, others.2)

section
variable {σ τ ρ α : Type} {serve : σ → ρ → α × σ}

theorem serveAll_invariant_of_mem {I : σ → Prop} {P : α → Prop} {rs : List ρ}
    (hstep : ∀ r ∈ rs, ∀ s, I s → P (serve s r).1 ∧ I (serve s r).2) {s : σ} (hs : I s) :
    (∀ reply ∈ (serveAll serve s rs).1, P reply) ∧ I (serveAll serve s rs).2 := by
  induction rs generalizing s with
  | nil => exact ⟨fun _ h => absurd h List.not_mem_nil, hs⟩
  | cons r rest ih =>
    obtain ⟨hfirst, hnext⟩ := hstep r List.mem_cons_self s hs
    obtain ⟨hall, hlast⟩ := ih (fun r hr => hstep r (List.mem_cons_of_mem _ hr)) hnext
    exact ⟨List.forall_mem_cons.2 ⟨hfirst, hall⟩, hlast⟩

/-- What every request keeps, and every reply satisfies where it is kept, holds of a whole run. -/
theorem serveAll_invariant {I : σ → Prop} {P : α → Prop}
    (hstep : ∀ s r, I s → P (serve s r).1 ∧ I (serve s r).2) {s : σ} (hs : I s) (rs : List ρ) :
    (∀ reply ∈ (serveAll serve s rs).1, P reply) ∧ I (serveAll serve s rs).2 :=
  serveAll_invariant_of_mem (fun r _ s => hstep s r) hs

/-- Two servers that agree on each of the requests give the same replies to all of them. -/
theorem serveAll_simulation_of_mem {serve' : τ → ρ → α × τ} {R : σ → τ → Prop} {rs : List ρ}
    (hstep : ∀ r ∈ rs, ∀ s t, R s t →
      (serve s r).1 = (serve' t r).1 ∧ R (serve s r).2 (serve' t r).2)
    {s : σ} {t : τ} (h : R s t) :
    (serveAll serve s rs).1 = (serveAll serve' t rs).1 ∧
      R (serveAll serve s rs).2 (serveAll serve' t rs).2 := by
  induction rs generalizing s t with
  | nil => exact ⟨rfl, h⟩
  | cons r rest ih =>
    obtain ⟨hreply, hnext⟩ := hstep r List.mem_cons_self s t h
    obtain ⟨hreplies, hlast⟩ := ih (fun r hr => hstep r (List.mem_cons_of_mem _ hr)) hnext
    refine ⟨?_, hlast⟩
    simp only [serveAll]
    rw [hreply, hreplies]

/-- Two servers that agree request by request give the same replies to any list of requests. -/
theorem serveAll_simulation {serve' : τ → ρ → α × τ} {R : σ → τ → Prop}
    (hstep : ∀ s t r, R s t → (serve s r).1 = (serve' t r).1 ∧ R (serve s r).2 (serve' t r).2)
    {s : σ} {t : τ} (h : R s t) (rs : List ρ) :
    (serveAll serve s rs).1 = (serveAll serve' t rs).1 ∧
      R (serveAll serve s rs).2 (serveAll serve' t rs).2 :=
  serveAll_simulation_of_mem (fun r _ s t => hstep s t r) h

theorem serveAll_map {f : σ → σ} (hf : ∀ s r, serve (f s) r = ((serve s r).1, f (serve s r).2))
    (s : σ) (rs : List ρ) :
    serveAll serve (f s) rs = ((serveAll serve s rs).1, f (serveAll serve s rs).2) := by
  induction rs generalizing s with
  | nil => rfl
  | cons r rest ih => simp only [serveAll, hf, ih]

end
end Mos6502

import Mos6502.Machine.Basic

/-! What a host does with a machine's bus: mounting backends, reading, writing, shutting down. -/
namespace Mos6502

/-- What reading a word leaves for others to see. -/
def Bus.onReadWord (bus : Bus) (a : Word) : List BusNotice :=
  if bus.isMapped a then bus.onRead a ++ bus.onRead (a + 1) else []

namespace Machine

def emitBus (m : Machine) (ns : List BusNotice) : Machine := m.emitAll (ns.map .ofBusNotice)

theorem emitBus_eq (m : Machine) (ns : List BusNotice) :
    m.emitBus ns =
      { m with
        journal := m.journal ++
          ((ns.map Event.ofBusNotice).filter (·.passes m.logging)).toArray } :=
  emitAll_eq m _

def read (m : Machine) (a : Word) : Outcome BusError Byte :=
  match m.bus.read a with
  | .ok v => .ok v (m.emitBus (m.bus.onRead a))
  | .error e => .error e m

def readWord (m : Machine) (a : Word) : Outcome BusError Word :=
  match m.bus.readWord a with
  | .ok w => .ok w (m.emitBus (m.bus.onReadWord a))
  | .error e => .error e (m.emitBus (m.bus.onReadWord a))

def write (m : Machine) (a : Word) (v : Byte) : Outcome BusError Unit :=
  match m.bus.writeRefusal? a with
  | some e => .error e m
  | none =>
    let heard := m.emitBus (m.bus.onWrite a v)
    .ok () { heard with bus := heard.bus.put a v }

theorem write_eq (m : Machine) (a : Word) (v : Byte) :
    m.write a v =
      if m.bus.isMapped a then
        .ok () { m.emitBus (m.bus.onWrite a v) with bus := m.bus.put a v }
      else .error (.unmapped a) m := by
  rw [write, Bus.writeRefusal?_eq]
  by_cases h : m.bus.isMapped a = true <;> simp [h, emitBus_eq]

/-- Writes the low byte, then the high byte behind it. If the second fails the first stays. -/
def writeWord (m : Machine) (a : Word) (w : Word) : Outcome BusError Unit :=
  match m.write a w.low with
  | .ok _ m => m.write (a + 1) w.high
  | .error e m => .error e m

/-- Reads bytes from an address on until one fails. -/
def readBytes (a : Word) : Nat → List Byte → Machine → Outcome BusError (List Byte)
  | 0, before, m => .ok before.reverse m
  | n + 1, before, m =>
    match m.read a with
    | .ok v m => readBytes (a + 1) n (v :: before) m
    | .error e m => .error e m

def writeBytes (a : Word) : List Byte → Machine → Outcome BusError Unit
  | [], m => .ok () m
  | v :: rest, m =>
    match m.write a v with
    | .ok _ m => writeBytes (a + 1) rest m
    | .error e m => .error e m

def attach (m : Machine) (name : String) (base : Word) (backend : Backend) :
    Outcome BusError Unit :=
  match m.bus.attach name base backend with
  | .ok bus =>
    let last := UInt16.ofNat (base.toNat + backend.size - 1)
    .ok () ({ m with bus }.emit (.log (.attached ⟨name, base, last⟩)))
  | .error e => .error e m

/-- Makes a backend and maps it, if there can be such a backend and its end can be told. One that the
bus refuses is not made. -/
def mount? (m : Machine) (name : String) (base : Word) (p : BackendPlan) :
    Option (Outcome BusError Unit) :=
  if p.fits && Bus.hasEnd base p.size then
    match Bus.refusal? name base p.size with
    | some e => some (.error e m)
    | none => some (m.attach name base p.build)
  else none

/-- Tells the backends and then the monitor that emulation is over. -/
def shutdown (m : Machine) (now : Duration) : Machine :=
  let m := { m.emitBus m.bus.onShutdown with bus := m.bus.shutdown }
  match m.monitor with
  | some w => m.emitAll (w.shutdown now)
  | none => m

/-- Starts over at the address that the reset vector holds. Without a vector nothing changes. -/
def reset (m : Machine) : Outcome Fault Unit :=
  match m.readWord resetVector with
  | .ok start m => .ok () (m.resetTo start)
  | .error e m => .error (.bus m.registers.pc none e) m

end Machine
end Mos6502

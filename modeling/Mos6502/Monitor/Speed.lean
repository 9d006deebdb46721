import Mos6502.Number.Places

/-! Throughput: instructions and base cycles counted over some time. -/
namespace Mos6502

/-- A span of time, or a reading of a clock. -/
structure Duration where
  seconds : Nat := 0
  nanoseconds : Nat := 0
  deriving DecidableEq, Repr, Inhabited

namespace Duration

def ofNanoseconds (n : Nat) : Duration := ⟨n / 1000000000, n % 1000000000⟩

/-- A duration has less than so many seconds. -/
def secondsLimit : Nat := 0x10000000000000000

def ofParts? (seconds nanoseconds : Nat) : Option Duration :=
  let d := ofNanoseconds (seconds * 1000000000 + nanoseconds)
  if d.seconds < secondsLimit then some d else none

def toNanoseconds (d : Duration) : Nat := d.seconds * 1000000000 + d.nanoseconds

/-- The time from one reading of a clock to a later one. -/
def since (later earlier : Duration) : Duration :=
  ofNanoseconds (later.toNanoseconds - earlier.toNanoseconds)

def toFloat (d : Duration) : Float :=
  (UInt64.ofNat d.seconds).toFloat + (UInt64.ofNat d.nanoseconds).toFloat / 1e9

end Duration

structure SpeedReport where
  instructions : Nat
  cycles : Nat
  elapsed : Duration
  deriving DecidableEq, Repr

namespace SpeedReport

/-- How many per microsecond; zero if no time has passed. -/
def perMicrosecond (count : Nat) (elapsed : Duration) : Float :=
  let micros := elapsed.toFloat * 1000000.0
  if 0.0 < micros then (UInt64.ofNat count).toFloat / micros else 0.0

def mhz (r : SpeedReport) : Float := perMicrosecond r.cycles r.elapsed

def mips (r : SpeedReport) : Float := perMicrosecond r.instructions r.elapsed

def text (r : SpeedReport) : String :=
  toString r.instructions ++ " instructions, " ++ toString r.cycles ++ " cycles in " ++
    Number.fixedText 3 r.elapsed.toFloat ++ "s (" ++ Number.fixedText 2 r.mhz ++ " MHz, " ++
    Number.fixedText 2 r.mips ++ " MIPS)"

end SpeedReport

/-- Counts what it observes. The serial number tells speedometers apart. -/
structure Speedometer where
  serial : Nat := 0
  started : Duration := {}
  instructions : Nat := 0
  cycles : Nat := 0
  deriving DecidableEq, Repr

namespace Speedometer

def count (s : Speedometer) (cycles : Nat) : Speedometer :=
  { s with instructions := s.instructions + 1, cycles := s.cycles + cycles }

def report (s : Speedometer) (now : Duration) : SpeedReport :=
  ⟨s.instructions, s.cycles, now.since s.started⟩

end Speedometer
end Mos6502

/-! Log levels, from silence to the finest detail. -/
namespace Mos6502.Log

inductive Level
  | off | error | warn | info | debug | trace
  deriving DecidableEq, Repr, Inhabited

structure UnknownLevel where
  text : String
  deriving DecidableEq, Repr

def UnknownLevel.message (e : UnknownLevel) : String :=
  "unknown log level '" ++ e.text ++ "' (expected off, error, warn, info, debug or trace)"

namespace Level

def rank : Level → Nat
  | .off => 0
  | .error => 1
  | .warn => 2
  | .info => 3
  | .debug => 4
  | .trace => 5

instance : LE Level := ⟨fun l m => l.rank ≤ m.rank⟩

instance (l m : Level) : Decidable (l ≤ m) := inferInstanceAs (Decidable (l.rank ≤ m.rank))

instance : Max Level := ⟨fun l m => if l ≤ m then m else l⟩

def name : Level → String
  | .off => "Off"
  | .error => "Error"
  | .warn => "Warn"
  | .info => "Info"
  | .debug => "Debug"
  | .trace => "Trace"

/-- The name in capitals, as it heads a log line. -/
def label (l : Level) : String := l.name.map Char.toUpper

def spellings : List (String × Level) :=
  [("off", .off), ("0", .off), ("error", .error), ("err", .error), ("1", .error),
   ("warn", .warn), ("warning", .warn), ("2", .warn), ("info", .info), ("3", .info),
   ("debug", .debug), ("4", .debug), ("trace", .trace), ("5", .trace)]

/-- Reads a level by name or number, ignoring letter case. -/
def parse (s : String) : Except UnknownLevel Level :=
  match spellings.lookup (s.map Char.toLower) with
  | some l => .ok l
  | none => .error ⟨s⟩

end Level
end Mos6502.Log

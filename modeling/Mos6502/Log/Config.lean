import Mos6502.Log.Level

/-! The log configuration: which messages of each category are let through. A category with a
level of its own uses it; every other category follows the global level. -/
namespace Mos6502.Log

inductive Category
  | cpu | bus | monitor
  deriving DecidableEq, Repr

def Category.all : List Category := [.cpu, .bus, .monitor]

def Category.target : Category → String
  | .cpu => "emu6502::cpu"
  | .bus => "emu6502::bus"
  | .monitor => "emu6502::monitor"

structure Config where
  global : Level := .off
  cpu : Level := .off
  bus : Level := .off
  monitor : Level := .off
  deriving DecidableEq, Repr, Inhabited

namespace Config

def level (k : Config) : Category → Level
  | .cpu => k.cpu
  | .bus => k.bus
  | .monitor => k.monitor

def setLevel (k : Config) (c : Category) (l : Level) : Config :=
  match c with
  | .cpu => { k with cpu := l }
  | .bus => { k with bus := l }
  | .monitor => { k with monitor := l }

@[simp] theorem level_setLevel_self (k : Config) (c : Category) (l : Level) :
    (k.setLevel c l).level c = l := by
  cases c <;> rfl

def everything : Config := { global := .trace }

def admits (k : Config) (c : Category) (l : Level) : Bool :=
  l != .off && decide (l ≤ if k.level c = .off then k.global else k.level c)

@[simp] theorem admits_off (k : Config) (c : Category) : k.admits c .off = false := by
  simp [admits]

theorem everything_admits {c : Category} {l : Level} (h : l ≠ .off) :
    everything.admits c l = true := by
  cases c <;> cases l <;> first | rfl | exact absurd rfl h

/-- No category lets anything finer through. The global level counts even where no category follows
it. -/
def maxLevel (k : Config) : Level :=
  (Category.all.map k.level).foldl max k.global

end Config

/-- A message as it is handed to whoever keeps the log. -/
structure Record where
  target : String
  level : Level
  text : String
  deriving DecidableEq, Repr

/-- What becomes of a message: a record if the configuration lets it through. -/
def submit (k : Config) (c : Category) (l : Level) (text : Unit → String) : Option Record :=
  if k.admits c l then some ⟨c.target, l, text ()⟩ else none

end Mos6502.Log

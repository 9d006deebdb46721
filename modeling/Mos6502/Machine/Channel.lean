import Mos6502.Word

/-! Exit channels: a bounded queue of exit codes between a machine and whoever waits for it. A code
that finds the queue full, or nobody to receive it, is dropped. -/
namespace Mos6502

structure Channel where
  capacity : Nat
  /-- The codes not yet received, oldest first. -/
  queue : List Byte := []
  receiving : Bool := true
  deriving DecidableEq, Repr

namespace Channel

/-- A channel has room for less than so many codes. -/
def capacityLimit : Nat := 0x800000000000000

def accepts (c : Channel) : Bool := c.receiving && decide (c.queue.length < c.capacity)

def offer (c : Channel) (code : Byte) : Channel :=
  if c.accepts then { c with queue := c.queue ++ [code] } else c

def receive (c : Channel) : Option Byte × Channel := (c.queue.head?, { c with queue := c.queue.tail })

@[simp] theorem capacity_offer (c : Channel) (code : Byte) : (c.offer code).capacity = c.capacity := by
  unfold offer
  split <;> rfl

@[simp] theorem receiving_offer (c : Channel) (code : Byte) :
    (c.offer code).receiving = c.receiving := by
  unfold offer
  split <;> rfl

end Channel
end Mos6502

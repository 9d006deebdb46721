import Mos6502.Proofs.Abreast

/-! A program cannot find out which regions its memory is made of. Two machines whose buses of RAM
and ROM have the same flat view go the same way, step by step and past every fault. What they let a
host see on the way may differ: a ROM that is written to complains under its own name. -/
namespace Mos6502

/-- Two buses of RAM and ROM that hold the same at every address. -/
structure Bus.Alike (bus bus' : Bus) : Prop where
  plain : bus.isPlain = true
  plain' : bus'.isPlain = true
  cell : ∀ a, bus.cell a = bus'.cell a

namespace Bus.Alike
variable {bus bus' : Bus} (h : bus.Alike bus')
include h

theorem read (a : Word) : bus.read a = bus'.read a := by
  rw [read_eq_cell, read_eq_cell, h.cell]

theorem shutdown : bus.shutdown.Alike bus'.shutdown := by
  rwa [shutdown_of_isPlain h.plain, shutdown_of_isPlain h.plain']

theorem put (a : Word) (v : Byte) : (bus.put a v).Alike (bus'.put a v) where
  plain := (isPlain_put bus a v).trans h.plain
  plain' := (isPlain_put bus' a v).trans h.plain'
  cell b := by rw [cell_put h.plain, cell_put h.plain', h.cell, h.cell]

end Bus.Alike

/-- The layout of memory makes no difference to any access. -/
theorem Bus.Alike.congruence : Bus.Congruence False Bus.Alike where
  read h := h.read
  put h := h.put
  onRead _ hd := hd.elim
  onWrite _ hd := hd.elim
  onShutdown _ hd := hd.elim
  shutdown h := h.shutdown
  snoc h r hr :=
    { plain := by rw [isPlain_snoc, h.plain, hr]; rfl
      plain' := by rw [isPlain_snoc, h.plain', hr]; rfl
      cell := fun a => by rw [cell_snoc, cell_snoc, h.cell] }

/-- Two machines that are the same to a program: their registers, counters and flags are equal, and
their buses differ in layout at most. -/
structure Machine.Alike (m m' : Machine) : Prop where
  registers : m.registers = m'.registers
  cycles : m.cycles = m'.cycles
  instructions : m.instructions = m'.instructions
  exitCode : m.exitCode = m'.exitCode
  interrupted : m.interrupted = m'.interrupted
  bus : m.bus.Alike m'.bus

namespace Machine
variable {m m' : Machine}

theorem Alike.step (h : m.Alike m') :
    (m.answer .step).1 = (m'.answer .step).1 ∧ (m.answer .step).2.Alike (m'.answer .step).2 := by
  have hbeside : m.Beside Bus.Alike m' := { h with }
  obtain ⟨hreply, hnext⟩ := (Abreast.refl hbeside).answer Bus.Alike.congruence (r := .step) rfl
  exact ⟨hreply, { hnext with }⟩

/-- Machines that are the same to a program stay the same, however many steps they take: each step
ends with the same cycles or the same fault, and what it leaves behind is the same. -/
theorem layout_unobservable (h : m.Alike m') (n : Nat) :
    (serveAll answer m (List.replicate n .step)).1 =
        (serveAll answer m' (List.replicate n .step)).1 ∧
      (serveAll answer m (List.replicate n .step)).2.Alike
        (serveAll answer m' (List.replicate n .step)).2 := by
  refine serveAll_simulation_of_mem (R := Machine.Alike) (fun r hr before before' hb => ?_) h
  obtain rfl := List.eq_of_mem_replicate hr
  exact hb.step

def onePiece : Machine where
  registers := { pc := 0x0200, a := 7 }
  bus := ⟨[⟨"all", 0x0200, .ram #[0x8D, 0x04, 0x02, 0xEA, 0xEA], by simp [Backend.size],
    by simp [Backend.size]⟩]⟩

/-- The same program in two pieces, of which the first hides a byte of the second. -/
def twoPieces : Machine where
  registers := { pc := 0x0200, a := 7 }
  bus := ⟨[⟨"front", 0x0200, .ram #[0x8D, 0x04, 0x02], by simp [Backend.size],
      by simp [Backend.size]⟩,
    ⟨"back", 0x0202, .ram #[0x55, 0xEA, 0xEA], by simp [Backend.size], by simp [Backend.size]⟩]⟩

theorem cell_onePiece (a : Word) : onePiece.bus.cell a = twoPieces.bus.cell a := by
  by_cases h : 0x200 ≤ a.toNat ∧ a.toNat < 0x205
  · have hcases : a = 0x200 ∨ a = 0x201 ∨ a = 0x202 ∨ a = 0x203 ∨ a = 0x204 := by
      simp only [← UInt16.toNat_inj, UInt16.reduceToNat]
      omega
    rcases hcases with rfl | rfl | rfl | rfl | rfl <;> rfl
  · have hone := Bus.cell_eq_hole_of_outside onePiece.bus 0x200 0x205 (by decide) h
    have htwo := Bus.cell_eq_hole_of_outside twoPieces.bus 0x200 0x205 (by decide) h
    rw [hone, htwo]

theorem onePiece_alike : onePiece.Alike twoPieces where
  registers := rfl
  cycles := rfl
  instructions := rfl
  exitCode := rfl
  interrupted := rfl
  bus := ⟨rfl, rfl, cell_onePiece⟩

set_option maxRecDepth 2000 in
theorem layout_unobservable_twoPieces :
    onePiece.Alike twoPieces ∧ (serveAll answer twoPieces (List.replicate 3 .step)).1 =
      [.cycles 4, .cycles 2, .faulted (.illegalOpcode 0x0204 7)] := by
  refine ⟨onePiece_alike, ?_⟩
  rw [← (layout_unobservable onePiece_alike 3).1]
  rfl

end Machine
end Mos6502

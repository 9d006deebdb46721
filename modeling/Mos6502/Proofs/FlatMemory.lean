import Mos6502.Proofs.FlatView
import Mos6502.Proofs.Request

/-! A reference for the bus that knows no routing: it keeps the list of what was mounted and the
list of the writes that succeeded, and answers every request from these two. The replies of a bus
to any requests are those of the reference. -/
namespace Mos6502

structure Mount where
  name : String
  base : Word
  storage : Storage

namespace Mount

/-- From the base on, as many addresses as there are bytes. -/
def contains (m : Mount) (a : Word) : Bool :=
  decide (m.base.toNat ≤ a.toNat ∧ a.toNat ≤ m.base.toNat + m.storage.size - 1)

def initial (m : Mount) (a : Word) : Byte := m.storage.image.getD (a.toNat - m.base.toNat) 0

def extent (m : Mount) : Extent :=
  ⟨m.name, m.base, UInt16.ofNat (m.base.toNat + m.storage.size - 1)⟩

end Mount

structure FlatMemory where
  mounts : List Mount := []
  /-- The writes that have succeeded, the newest first. -/
  writes : List (Word × Byte) := []

namespace FlatMemory

/-- The earliest mount that has the address. -/
def owner? (f : FlatMemory) (a : Word) : Option Mount := f.mounts.find? (·.contains a)

/-- The value last written at an address. -/
def lastWritten? (f : FlatMemory) (a : Word) : Option Byte := f.writes.lookup a

def read (f : FlatMemory) (a : Word) : Except BusError Byte :=
  match f.owner? a with
  | none => .error (.unmapped a)
  | some m =>
    match m.storage with
    | .rom _ _ => .ok (m.initial a)
    | .ram _ => .ok ((f.lastWritten? a).getD (m.initial a))

def write (f : FlatMemory) (a : Word) (v : Byte) : Except BusError FlatMemory :=
  match f.owner? a with
  | none => .error (.unmapped a)
  | some _ => .ok { f with writes := (a, v) :: f.writes }

def mount (f : FlatMemory) (name : String) (base : Word) (storage : Storage) :
    Except BusError FlatMemory :=
  if storage.size = 0 then .error (.emptyRegion name)
  else if storage.size ≤ 65536 - base.toNat then
    .ok { f with mounts := f.mounts ++ [⟨name, base, storage⟩] }
  else .error (.regionOutOfRange name base storage.size)

def readWord (f : FlatMemory) (a : Word) : Except BusError Word := do
  let low ← f.read a
  let high ← f.read (a + 1)
  return Word.join low high

def reply (f : FlatMemory) : Except BusError FlatMemory → Reply × FlatMemory
  | .error e => (.refused e, f)
  | .ok f => (.done, f)

/-- What the first of two writes has done stays done if the second fails. -/
def serve (f : FlatMemory) : BusRequest → Reply × FlatMemory
  | .attach name base storage => f.reply (f.mount name base storage)
  | .read a =>
    match f.read a with
    | .error e => (.refused e, f)
    | .ok v => (.byte v, f)
  | .write a v => f.reply (f.write a v)
  | .readWord a =>
    match f.readWord a with
    | .error e => (.refused e, f)
    | .ok w => (.word w, f)
  | .writeWord a w =>
    match f.write a w.low with
    | .error e => (.refused e, f)
    | .ok f => f.reply (f.write (a + 1) w.high)

def cell (f : FlatMemory) (a : Word) : Cell :=
  match f.owner? a with
  | none => .hole
  | some m =>
    match m.storage with
    | .rom _ _ => .rom (m.initial a)
    | .ram _ => .ram ((f.lastWritten? a).getD (m.initial a))

theorem read_eq_cell (f : FlatMemory) (a : Word) : f.read a = (f.cell a).read a := by
  unfold read cell
  cases f.owner? a with
  | none => rfl
  | some m => cases hs : m.storage <;> simp [Cell.read, hs]

theorem cell_eq_hole_iff {f : FlatMemory} {a : Word} : f.cell a = .hole ↔ f.owner? a = none := by
  unfold cell
  cases f.owner? a with
  | none => simp
  | some m => cases hs : m.storage <;> simp [hs]

/-- Only addresses that have an owner have been written. -/
def WritesOwned (f : FlatMemory) : Prop := ∀ a, f.owner? a = none → f.lastWritten? a = none

theorem owner?_mount (f : FlatMemory) (m : Mount) (a : Word) :
    ({ f with mounts := f.mounts ++ [m] } : FlatMemory).owner? a =
      (f.owner? a).or (if m.contains a then some m else none) := by
  simp only [owner?, List.find?_append]
  by_cases h : m.contains a = true <;> simp [h]

theorem cell_mount {f : FlatMemory} (h : f.WritesOwned) (m : Mount) (a : Word) :
    ({ f with mounts := f.mounts ++ [m] } : FlatMemory).cell a =
      if f.cell a = .hole ∧ m.contains a = true then
        match m.storage with
        | .rom _ _ => .rom (m.initial a)
        | .ram _ => .ram (m.initial a)
      else f.cell a := by
  have howner := owner?_mount f m a
  cases ho : f.owner? a with
  | some first =>
    have hc : f.cell a ≠ .hole := fun hh => by simp [cell_eq_hole_iff.1 hh] at ho
    rw [ho, Option.some_or] at howner
    simp only [hc, false_and, if_false]
    simp only [cell, howner, ho]
    rfl
  | none =>
    have hw : ({ f with mounts := f.mounts ++ [m] } : FlatMemory).lastWritten? a = none := h a ho
    rw [ho, Option.none_or] at howner
    by_cases hm : m.contains a = true
    · simp [cell, howner, ho, hm, hw]
    · simp [cell, howner, ho, hm]

theorem lastWritten?_writes (f : FlatMemory) (a : Word) (v : Byte) (b : Word) :
    ({ f with writes := (a, v) :: f.writes } : FlatMemory).lastWritten? b =
      if b = a then some v else f.lastWritten? b := by
  by_cases h : b = a
  · simp [lastWritten?, h]
  · have hb : (b == a) = false := beq_false_of_ne h
    simp [lastWritten?, List.lookup_cons, hb, h]

theorem cell_writes (f : FlatMemory) (a : Word) (v : Byte) (b : Word) :
    ({ f with writes := (a, v) :: f.writes } : FlatMemory).cell b =
      if b = a then (f.cell a).write v else f.cell b := by
  have howner : ({ f with writes := (a, v) :: f.writes } : FlatMemory).owner? b = f.owner? b := rfl
  by_cases h : b = a
  · subst h
    cases ho : f.owner? b with
    | none => simp [cell, howner, ho, Cell.write]
    | some m =>
      cases hs : m.storage <;> simp [cell, howner, ho, hs, Cell.write, lastWritten?_writes]
  · simp [cell, howner, lastWritten?_writes, h]

end FlatMemory

/-- A bus and a reference that stand for the same memory. -/
structure Bus.Agrees (bus : Bus) (f : FlatMemory) : Prop where
  plain : bus.isPlain = true
  cell : ∀ a, bus.cell a = f.cell a
  extents : bus.extents = f.mounts.map (·.extent)
  owned : f.WritesOwned

namespace Bus.Agrees
variable {bus : Bus} {f : FlatMemory}

theorem empty : Bus.Agrees {} {} where
  plain := rfl
  cell _ := rfl
  extents := rfl
  owned _ _ := rfl

theorem read (h : bus.Agrees f) (a : Word) : bus.read a = f.read a := by
  rw [Bus.read_eq_cell, FlatMemory.read_eq_cell, h.cell]

theorem readWord (h : bus.Agrees f) (a : Word) : bus.readWord a = f.readWord a := by
  simp only [Bus.readWord, FlatMemory.readWord, h.read]

theorem isMapped_iff (h : bus.Agrees f) {a : Word} :
    bus.isMapped a = false ↔ f.owner? a = none := by
  rw [← Bus.cell_eq_hole_iff, h.cell, FlatMemory.cell_eq_hole_iff]

theorem put (h : bus.Agrees f) {a : Word} (ha : f.owner? a ≠ none) (v : Byte) :
    (bus.put a v).Agrees { f with writes := (a, v) :: f.writes } where
  plain := by rw [Bus.isPlain_put, h.plain]
  cell b := by rw [Bus.cell_put h.plain, FlatMemory.cell_writes, h.cell, h.cell]
  extents := by rw [Bus.extents_put, h.extents]
  owned b hb := by
    have hne : b ≠ a := fun he => ha (he ▸ hb)
    rw [FlatMemory.lastWritten?_writes, if_neg hne]
    exact h.owned b hb

theorem snoc (h : bus.Agrees f) {r : Region} {m : Mount} (hname : r.name = m.name)
    (hbase : r.base = m.base) (hbackend : r.backend = m.storage.backend) :
    Bus.Agrees ⟨bus.regions ++ [r]⟩ { f with mounts := f.mounts ++ [m] } where
  plain := by rw [Bus.isPlain_snoc, h.plain, hbackend, Storage.isPlain_backend]; rfl
  cell a := by
    have hcovers : r.covers a = m.contains a := by
      have hpos := r.size_pos
      simp only [hbackend, Storage.size_backend] at hpos
      simp only [Region.covers, Region.size, Mount.contains, hbase, hbackend, Storage.size_backend]
      congr 1
      apply propext
      omega
    rw [Bus.cell_snoc, FlatMemory.cell_mount h.owned, h.cell, hcovers]
    by_cases hc : m.contains a = true
    · have hoffset := Region.toNat_offset (hcovers.trans hc)
      cases hs : m.storage <;>
        simp [Region.cell, Backend.cell, Backend.read, hbackend, hs, Storage.backend, hoffset, hbase,
          Mount.initial, Storage.image]
    · simp [hc]
  extents := by
    have hr : r.extent = m.extent := by
      simp [Region.extent, Mount.extent, Region.last, Region.size, hname, hbase, hbackend]
    have he := h.extents
    simp only [Bus.extents, List.map_append, List.map_cons, List.map_nil, hr] at he ⊢
    rw [he]
  owned a ha := by
    rw [FlatMemory.owner?_mount] at ha
    exact h.owned a (Option.or_eq_none_iff.1 ha).1

end Bus.Agrees
end Mos6502

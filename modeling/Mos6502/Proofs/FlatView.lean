import Mos6502.Bus.Text

/-! The flat view of a bus: what each single address holds, whichever region it comes from. All
that a program can find out about a bus of RAM and ROM is in this view, and every operation on the
bus is an operation on it. -/
namespace Mos6502

/-- What an address holds: nothing, a byte that stays, a byte that can be changed, or a device that
answers with a byte at present. -/
inductive Cell
  | hole | rom (value : Byte) | ram (value : Byte) | device (value : Byte)
  deriving DecidableEq, Repr

namespace Cell

def read (c : Cell) (a : Word) : Except BusError Byte :=
  match c with
  | .hole => .error (.unmapped a)
  | .rom v | .ram v | .device v => .ok v

def write (c : Cell) (v : Byte) : Cell :=
  match c with
  | .ram _ => .ram v
  | c => c

@[simp] theorem write_eq_hole {c : Cell} {v : Byte} : c.write v = .hole ↔ c = .hole := by
  cases c <;> simp [write]

def isRam : Cell → Bool
  | .ram _ => true
  | _ => false

@[simp] theorem isRam_ram (v : Byte) : (ram v).isRam = true := rfl

theorem exists_of_isRam {c : Cell} (h : c.isRam = true) : ∃ v, c = .ram v := by
  cases c <;> simp_all [isRam]

theorem write_of_isRam {c : Cell} (h : c.isRam = true) (v : Byte) : c.write v = .ram v := by
  cases c <;> simp_all [isRam, write]

theorem write_of_not_isRam {c : Cell} (h : c.isRam = false) (v : Byte) : c.write v = c := by
  cases c <;> simp_all [isRam, write]

end Cell

def Backend.cell (m : Backend) (a : Word) : Cell :=
  match m with
  | .ram _ => .ram (m.read a)
  | .rom _ _ => .rom (m.read a)
  | .probe _ _ => .device (m.read a)

theorem Backend.cell_ne_hole (m : Backend) (a : Word) : m.cell a ≠ .hole := by
  cases m <;> simp [cell]

theorem Backend.cell_write_self {m : Backend} {a : Word} (hp : m.isPlain = true)
    (h : a.toNat < m.size) (v : Byte) : (m.write a v).cell a = (m.cell a).write v := by
  cases m with
  | ram image =>
    have hb : a.toNat < image.size := h
    simp [write, cell, read, Cell.write, hb]
  | rom label image => rfl
  | probe size last => simp [isPlain] at hp

theorem Backend.cell_write_of_ne {m : Backend} {a b : Word} (hp : m.isPlain = true) (h : b ≠ a)
    (v : Byte) : (m.write a v).cell b = m.cell b := by
  cases m with
  | ram image =>
    have hn : a.toNat ≠ b.toNat := fun he => h (UInt16.toNat_inj.1 he).symm
    simp [write, cell, read, Array.getD_eq_getD_getElem?, Array.getElem?_setIfInBounds_ne hn]
  | rom label image => rfl
  | probe size last => simp [isPlain] at hp

namespace Region

def cell (r : Region) (a : Word) : Cell := r.backend.cell (r.offset a)

theorem cell_ne_hole (r : Region) (a : Word) : r.cell a ≠ .hole := Backend.cell_ne_hole _ _

theorem read_cell (r : Region) (a b : Word) : (r.cell a).read b = .ok (r.read a) := by
  obtain ⟨name, base, backend, hpos, hfits⟩ := r
  cases backend <;> rfl

theorem cell_write_self {r : Region} {a : Word} (hp : r.backend.isPlain = true)
    (hc : r.covers a = true) (v : Byte) : (r.write a v).cell a = (r.cell a).write v :=
  Backend.cell_write_self hp (offset_lt_size hc) v

theorem cell_write_of_ne {r : Region} {a b : Word} (hp : r.backend.isPlain = true) (h : b ≠ a)
    (v : Byte) : (r.write a v).cell b = r.cell b := by
  refine Backend.cell_write_of_ne hp (fun he => h ?_) v
  exact (UInt16.sub_left_inj _).1 he

@[simp] theorem isPlain_write (r : Region) (a : Word) (v : Byte) :
    (r.write a v).backend.isPlain = r.backend.isPlain := by
  obtain ⟨name, base, backend, hpos, hfits⟩ := r
  cases backend <;> rfl

end Region

namespace Bus

/-- The flat view. -/
def cell (bus : Bus) (a : Word) : Cell :=
  match bus.owner? a with
  | none => .hole
  | some r => r.cell a

@[simp] theorem cell_nil (a : Word) : (⟨[]⟩ : Bus).cell a = .hole := rfl

theorem cell_cons (r : Region) (rest : List Region) (a : Word) :
    (⟨r :: rest⟩ : Bus).cell a = if r.covers a then r.cell a else (⟨rest⟩ : Bus).cell a := by
  by_cases h : r.covers a <;> simp [cell, owner?, h]

theorem cell_append (front back : List Region) (a : Word) :
    (⟨front ++ back⟩ : Bus).cell a =
      if (⟨front⟩ : Bus).cell a = .hole then (⟨back⟩ : Bus).cell a else (⟨front⟩ : Bus).cell a := by
  induction front with
  | nil => simp
  | cons r rest ih =>
    rw [List.cons_append, cell_cons, cell_cons]
    by_cases h : r.covers a
    · simp [h, r.cell_ne_hole a]
    · simp only [h, ih, Bool.false_eq_true, if_false]

theorem cell_eq_hole_iff {bus : Bus} {a : Word} : bus.cell a = .hole ↔ bus.isMapped a = false := by
  unfold cell isMapped
  cases h : bus.owner? a with
  | none => simp
  | some r => simp [r.cell_ne_hole a]

/-- A read sees the flat view and nothing else. -/
theorem read_eq_cell (bus : Bus) (a : Word) : bus.read a = (bus.cell a).read a := by
  rw [read_eq]
  unfold cell
  cases bus.owner? a with
  | none => rfl
  | some r => exact (r.read_cell a a).symm

@[simp] theorem put_nil (a : Word) (v : Byte) : (⟨[]⟩ : Bus).put a v = ⟨[]⟩ := rfl

theorem put_cons (r : Region) (rest : List Region) (a : Word) (v : Byte) :
    (⟨r :: rest⟩ : Bus).put a v =
      if r.covers a then ⟨r.write a v :: rest⟩ else ⟨r :: ((⟨rest⟩ : Bus).put a v).regions⟩ := by
  change (⟨writeRegions a v (r :: rest)⟩ : Bus) = _
  rw [writeRegions]
  split <;> rfl

@[simp] theorem isPlain_cons {r : Region} {rest : List Region} :
    (⟨r :: rest⟩ : Bus).isPlain = true ↔
      r.backend.isPlain = true ∧ (⟨rest⟩ : Bus).isPlain = true := by
  simp [isPlain]

/-- A write changes the one cell that it names, if that is RAM, and nothing else. What other regions
there are does not matter. -/
theorem cell_put_of_owner {bus : Bus} {a : Word}
    (hp : ∀ r, bus.owner? a = some r → r.backend.isPlain = true) (v : Byte) (b : Word) :
    (bus.put a v).cell b = if b = a then (bus.cell a).write v else bus.cell b := by
  obtain ⟨rs⟩ := bus
  induction rs with
  | nil => by_cases h : b = a <;> simp [h, Cell.write]
  | cons r rest ih =>
    rw [put_cons]
    by_cases ha : r.covers a
    · have hr : r.backend.isPlain = true := hp r (by simp [owner?, ha])
      rw [if_pos ha, cell_cons, cell_cons, cell_cons, Region.covers_write]
      by_cases h : b = a
      · subst h
        simp [ha, Region.cell_write_self hr ha]
      · simp [h, Region.cell_write_of_ne hr h]
    · rw [if_neg ha, cell_cons, cell_cons, cell_cons]
      by_cases hb : r.covers b
      · have h : b ≠ a := fun he => ha (he ▸ hb)
        simp [hb, h]
      · simp only [hb, ha, if_false, Bool.false_eq_true]
        exact ih fun first hfirst => hp first (by simpa [owner?, ha] using hfirst)

theorem isPlain_of_mem {bus : Bus} (hp : bus.isPlain = true) {r : Region} (h : r ∈ bus.regions) :
    r.backend.isPlain = true :=
  List.all_eq_true.1 hp r h

theorem cell_put {bus : Bus} (hp : bus.isPlain = true) (a : Word) (v : Byte) (b : Word) :
    (bus.put a v).cell b = if b = a then (bus.cell a).write v else bus.cell b :=
  cell_put_of_owner (fun _ hr => isPlain_of_mem hp (List.mem_of_find?_eq_some hr)) v b

theorem cell_put_of_isRam {bus : Bus} {a : Word} (h : (bus.cell a).isRam = true) (v : Byte)
    (b : Word) : (bus.put a v).cell b = if b = a then .ram v else bus.cell b := by
  rw [cell_put_of_owner _ v b, Cell.write_of_isRam h]
  intro r hr
  obtain ⟨name, base, backend, hpos, hfits⟩ := r
  cases backend <;> simp_all [cell, Region.cell, Backend.cell, Cell.isRam, Backend.isPlain]

@[simp] theorem isPlain_put (bus : Bus) (a : Word) (v : Byte) :
    (bus.put a v).isPlain = bus.isPlain := by
  obtain ⟨rs⟩ := bus
  induction rs with
  | nil => rfl
  | cons r rest ih =>
    rw [put_cons]
    split
    · rw [Bool.eq_iff_iff, isPlain_cons, isPlain_cons, Region.isPlain_write]
    · rw [Bool.eq_iff_iff, isPlain_cons, isPlain_cons]
      exact and_congr_right fun _ => Bool.eq_iff_iff.1 ih

theorem shutdown_of_isPlain {bus : Bus} (hp : bus.isPlain = true) : bus.shutdown = bus := by
  have hregion : ∀ r ∈ bus.regions, r.shutdown = r := fun r hr => by
    have hbackend := Backend.shutdown_of_isPlain (isPlain_of_mem hp hr)
    cases r
    simp only [Region.shutdown]
    congr
  rw [shutdown, List.map_congr_left hregion, List.map_id']

theorem onRead_of_isPlain {bus : Bus} (hp : bus.isPlain = true) (a : Word) : bus.onRead a = [] := by
  unfold onRead
  cases h : bus.owner? a with
  | none => rfl
  | some r =>
    have hr := isPlain_of_mem hp (List.mem_of_find?_eq_some h)
    obtain ⟨name, base, backend, hpos, hfits⟩ := r
    cases backend with
    | ram image => rfl
    | rom label image => rfl
    | probe size last => simp [Backend.isPlain] at hr

theorem onWrite_of_isPlain {bus : Bus} (hp : bus.isPlain = true) (a : Word) (v : Byte) :
    ∀ n ∈ bus.onWrite a v, ∃ label size offset, n = .ignoredWrite v label size offset := by
  unfold onWrite
  cases h : bus.owner? a with
  | none => simp
  | some r =>
    have hr := isPlain_of_mem hp (List.mem_of_find?_eq_some h)
    obtain ⟨name, base, backend, hpos, hfits⟩ := r
    cases backend with
    | ram image => simp [Region.onWrite]
    | rom label image => simp [Region.onWrite]
    | probe size last => simp [Backend.isPlain] at hr

/-- RAM lets nothing be seen, whatever else is on the bus. -/
theorem silent_of_isRam {bus : Bus} {a : Word} (h : (bus.cell a).isRam = true) :
    bus.onRead a = [] ∧ ∀ v, bus.onWrite a v = [] := by
  unfold onRead onWrite
  cases hr : bus.owner? a with
  | none => exact ⟨rfl, fun _ => rfl⟩
  | some r =>
    obtain ⟨name, base, backend, hpos, hfits⟩ := r
    cases backend with
    | ram image => exact ⟨rfl, fun _ => rfl⟩
    | rom label image => simp [cell, hr, Region.cell, Backend.cell, Cell.isRam] at h
    | probe size last => simp [cell, hr, Region.cell, Backend.cell, Cell.isRam] at h

theorem isMapped_eq_any (bus : Bus) (a : Word) : bus.isMapped a = bus.regions.any (·.covers a) := by
  rw [isMapped, owner?, List.isSome_find?]

/-- Nothing is mapped outside the span of the regions. -/
theorem cell_eq_hole_of_outside (bus : Bus) (low high : Nat) {a : Word}
    (hspan : ∀ r ∈ bus.regions, low ≤ r.base.toNat ∧ r.base.toNat + r.size ≤ high)
    (ha : ¬(low ≤ a.toNat ∧ a.toNat < high)) : bus.cell a = .hole := by
  rw [cell_eq_hole_iff, isMapped_eq_any, List.any_eq_false]
  intro r hr hc
  have hr' := hspan r hr
  rw [Region.covers_iff] at hc
  omega

@[simp] theorem isMapped_put (bus : Bus) (a : Word) (v : Byte) (b : Word) :
    (bus.put a v).isMapped b = bus.isMapped b := by
  obtain ⟨rs⟩ := bus
  induction rs with
  | nil => rfl
  | cons r rest ih =>
    rw [put_cons]
    simp only [isMapped_eq_any] at ih ⊢
    split <;> simp [ih]

theorem isMapped_of_read {bus : Bus} {a : Word} {v : Byte} (h : bus.read a = .ok v) :
    bus.isMapped a = true := by
  rw [read_eq] at h
  unfold isMapped
  cases ho : bus.owner? a with
  | none => simp [ho] at h
  | some r => rfl

theorem read_of_isMapped {bus : Bus} {a : Word} (h : bus.isMapped a = true) :
    ∃ v, bus.read a = .ok v := by
  obtain ⟨r, hr⟩ := Option.isSome_iff_exists.1 h
  exact ⟨r.read a, by rw [read_eq, hr]⟩

theorem isMapped_of_isRam {bus : Bus} {a : Word} (h : (bus.cell a).isRam = true) :
    bus.isMapped a = true := by
  rw [← Bool.not_eq_false, ← cell_eq_hole_iff]
  intro hc
  simp [hc, Cell.isRam] at h

theorem read_of_cell {bus : Bus} {a : Word} {v : Byte} (h : bus.cell a = .ram v) :
    bus.read a = .ok v := by
  rw [read_eq_cell, h]
  rfl

theorem read_of_not_isMapped {bus : Bus} {a : Word} (h : bus.isMapped a = false) :
    bus.read a = .error (.unmapped a) := by
  rw [read_eq_cell, cell_eq_hole_iff.2 h]
  rfl

theorem eq_unmapped_of_read {bus : Bus} {a : Word} {e : BusError} (h : bus.read a = .error e) :
    bus.isMapped a = false ∧ e = .unmapped a := by
  cases hm : bus.isMapped a with
  | false => exact ⟨rfl, by simpa [read_of_not_isMapped hm, eq_comm] using h⟩
  | true =>
    obtain ⟨v, hv⟩ := read_of_isMapped hm
    simp [hv] at h

/-- All that can come of attaching: a refusal, or one more region behind the others. -/
theorem attach_cases (bus : Bus) (name : String) (base : Word) (backend : Backend) :
    (∃ e, refusal? name base backend.size = some e ∧ bus.attach name base backend = .error e) ∨
      ∃ r : Region, refusal? name base backend.size = none ∧
        r.name = name ∧ r.base = base ∧ r.backend = backend ∧
        bus.attach name base backend = .ok ⟨bus.regions ++ [r]⟩ := by
  unfold attach
  split
  · rename_i e he
    exact .inl ⟨e, he, rfl⟩
  · rename_i hn
    exact .inr ⟨_, hn, rfl, rfl, rfl, rfl⟩

/-- A region that is attached fills holes and shadows nothing. -/
theorem cell_snoc (bus : Bus) (r : Region) (a : Word) :
    (⟨bus.regions ++ [r]⟩ : Bus).cell a =
      if bus.cell a = .hole ∧ r.covers a = true then r.cell a else bus.cell a := by
  rw [cell_append, cell_cons, cell_nil]
  by_cases h : bus.cell a = .hole <;> by_cases hc : r.covers a = true <;> simp [h, hc]

theorem isPlain_snoc (bus : Bus) (r : Region) :
    (⟨bus.regions ++ [r]⟩ : Bus).isPlain = (bus.isPlain && r.backend.isPlain) := by
  simp [isPlain]

end Bus
end Mos6502

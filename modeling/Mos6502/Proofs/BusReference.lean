import Mos6502.Proofs.FlatMemory

/-! The bus of a machine against the reference memory, request by request and over whole runs. -/
namespace Mos6502.Machine
variable {m : Machine} {f : FlatMemory}

/-- A change of the machine that comes out as a change of the reference does. -/
def Follows (m : Machine) (x : Outcome BusError Unit) : Except BusError FlatMemory → Prop
  | .error e => x = .error e m
  | .ok f => ∃ m', x = .ok () m' ∧ m'.bus.Agrees f

theorem Follows.reply {x : Outcome BusError Unit} {r : Except BusError FlatMemory}
    (hx : m.Follows x r) (h : m.bus.Agrees f) :
    (Outcome.reply (fun _ => .done) .refused x).1 = (f.reply r).1 ∧
      (Outcome.reply (fun _ => .done) .refused x).2.bus.Agrees (f.reply r).2 := by
  cases r with
  | error e =>
    rw [show x = .error e m from hx]
    exact ⟨rfl, h⟩
  | ok f' =>
    obtain ⟨m', rfl, h'⟩ := hx
    exact ⟨rfl, h'⟩

theorem write_follows (h : m.bus.Agrees f) (a : Word) (v : Byte) :
    m.Follows (m.write a v) (f.write a v) := by
  rw [FlatMemory.write, write_eq]
  cases ho : f.owner? a with
  | none =>
    have hm := h.isMapped_iff.2 ho
    simp [Follows, hm]
  | some owner =>
    have hm : m.bus.isMapped a = true := by
      rw [← Bool.not_eq_false, h.isMapped_iff, ho]
      simp
    rw [if_pos hm]
    exact ⟨_, rfl, h.put (by simp [ho]) v⟩

theorem attach_follows (h : m.bus.Agrees f) (name : String) (base : Word) (storage : Storage) :
    m.Follows (m.attach name base storage.backend) (f.mount name base storage) := by
  have hlt := base.toNat_lt
  rw [attach]
  rcases m.bus.attach_cases name base storage.backend with
    ⟨e, he, ha⟩ | ⟨r, hn, hname, hbase, hbackend, ha⟩
  · have hmount : f.mount name base storage = .error e := by
      simp only [Bus.refusal?, Storage.size_backend] at he
      unfold FlatMemory.mount
      by_cases hempty : storage.size = 0
      · simpa [hempty] using he
      · by_cases hfits : storage.size ≤ 65536 - base.toNat
        · simp [hempty, show ¬65536 < base.toNat + storage.size by omega] at he
        · simpa [hempty, hfits, show 65536 < base.toNat + storage.size by omega] using he
    rw [hmount, ha]
    exact rfl
  · obtain ⟨hpos, hfits⟩ := Bus.refusal?_eq_none_iff.1 hn
    rw [Storage.size_backend] at hpos hfits
    rw [ha, FlatMemory.mount, if_neg (by omega), if_pos (by omega)]
    refine ⟨_, rfl, ?_⟩
    rw [emit_eq]
    exact h.snoc hname hbase hbackend

/-- One request: the same reply, and again the same memory. -/
theorem serveBus_agrees (h : m.bus.Agrees f) (request : BusRequest) :
    (m.serveBus request).1 = (f.serve request).1 ∧
      (m.serveBus request).2.bus.Agrees (f.serve request).2 := by
  cases request with
  | attach name base storage => exact (attach_follows h name base storage).reply h
  | write a v => exact (write_follows h a v).reply h
  | read a =>
    simp only [serveBus, read, FlatMemory.serve, h.read, emitBus_eq]
    cases f.read a <;> exact ⟨rfl, h⟩
  | readWord a =>
    simp only [serveBus, readWord, FlatMemory.serve, h.readWord, emitBus_eq]
    cases f.readWord a <;> exact ⟨rfl, h⟩
  | writeWord a w =>
    have hlow := write_follows h a w.low
    simp only [serveBus, writeWord, FlatMemory.serve]
    cases hf : f.write a w.low with
    | error e =>
      rw [hf] at hlow
      rw [show m.write a w.low = .error e m from hlow]
      exact ⟨rfl, h⟩
    | ok f' =>
      rw [hf] at hlow
      obtain ⟨m', hm', h'⟩ := hlow
      rw [hm']
      exact (write_follows h' (a + 1) w.high).reply h'

/-- Whether a storage can be attached does not depend on what there is already. -/
theorem attach_done_iff (m : Machine) (name : String) (base : Word) (storage : Storage) :
    (m.serveBus (.attach name base storage)).1 = .done ↔
      1 ≤ storage.size ∧ storage.size ≤ 65536 - base.toNat := by
  have hlt := base.toNat_lt
  rw [serveBus, attach]
  rcases m.bus.attach_cases name base storage.backend with ⟨e, he, ha⟩ | ⟨r, hn, -, -, -, ha⟩
  · have hne := mt Bus.refusal?_eq_none_iff.2 (by rw [he]; simp : Bus.refusal? name base _ ≠ none)
    rw [Storage.size_backend] at hne
    simp only [ha, Outcome.reply]
    simp
    omega
  · obtain ⟨hpos, hfits⟩ := Bus.refusal?_eq_none_iff.1 hn
    rw [Storage.size_backend] at hpos hfits
    simp only [ha, Outcome.reply]
    simp
    omega

theorem attach_done_or_same (m : Machine) (name : String) (base : Word) (storage : Storage) :
    (m.serveBus (.attach name base storage)).1 = .done ∨
      (m.serveBus (.attach name base storage)).2 = m := by
  rw [serveBus, attach]
  cases m.bus.attach name base storage.backend with
  | error e => exact .inr rfl
  | ok bus => exact .inl rfl

theorem read_write_of_ne (hp : m.bus.isPlain = true) {a b : Word} (h : b ≠ a) (v : Byte) :
    (m.serveBus (.write a v)).2.bus.read b = m.bus.read b := by
  rw [serveBus, write_eq]
  split
  · rw [Bus.read_eq_cell, Bus.read_eq_cell]
    change ((m.bus.put a v).cell b).read b = _
    rw [Bus.cell_put hp, if_neg h]
  · rfl

/-- Whatever is asked of a bus that is empty at first, the replies are those of the reference, and
the regions are its mounts. Only size and base decide whether storage is mounted, and storage that
is not changes nothing; an access is refused where no mount has the address; a write is seen at no
address but its own. -/
theorem replies_eq_flatMemory (start : Machine) (requests : List BusRequest) :
    let served := serveAll serveBus { start with bus := {} } requests
    let reference := serveAll FlatMemory.serve {} requests
    let m := served.2
    let f := reference.2
    served.1 = reference.1 ∧
      m.bus.extents = f.mounts.map (·.extent) ∧
      (∀ a, m.bus.read a = f.read a) ∧
      (∀ name base storage, (m.serveBus (.attach name base storage)).1 = .done ↔
        1 ≤ storage.size ∧ storage.size ≤ 65536 - base.toNat) ∧
      (∀ name base storage, (m.serveBus (.attach name base storage)).1 = .done ∨
        (m.serveBus (.attach name base storage)).2 = m) ∧
      (∀ a, m.bus.read a = .error (.unmapped a) ↔ f.owner? a = none) ∧
      (∀ a v, (m.serveBus (.write a v)).1 = .refused (.unmapped a) ↔ f.owner? a = none) ∧
      ∀ a v b, b = a ∨ (m.serveBus (.write a v)).2.bus.read b = m.bus.read b := by
  obtain ⟨hreplies, h⟩ := serveAll_simulation (R := fun m f => m.bus.Agrees f)
    (fun _ _ request h => serveBus_agrees h request)
    (s := { start with bus := {} }) Bus.Agrees.empty requests
  refine ⟨hreplies, h.extents, h.read, attach_done_iff _, attach_done_or_same _, ?_, ?_, ?_⟩
  · intro a
    rw [h.read, FlatMemory.read]
    cases (serveAll FlatMemory.serve {} requests).2.owner? a with
    | none => simp
    | some mount => cases hs : mount.storage <;> simp [hs]
  · intro a v
    rw [(serveBus_agrees h (.write a v)).1, FlatMemory.serve, FlatMemory.write]
    cases (serveAll FlatMemory.serve {} requests).2.owner? a <;> simp [FlatMemory.reply]
  · intro a v b
    by_cases hb : b = a
    · exact .inl hb
    · exact .inr (read_write_of_ne h.plain hb v)

/-- A word across the end of a ROM, which shadows part of a RAM: the write is taken, but its first
byte is not kept. -/
example :
    (serveAll serveBus {} [.attach "rom" 0x10 (.rom "r" #[7, 8]), .attach "ram" 0x11 (.ram #[1, 2]),
      .attach "late" 0xFFFF (.ram #[0, 0]), .writeWord 0x11 0xABCD, .readWord 0x11, .read 0x13]).1 =
      [.done, .done, .refused (.regionOutOfRange "late" 0xFFFF 2), .done, .word 0xAB08,
        .refused (.unmapped 0x13)] := by
  decide

end Mos6502.Machine

import Mos6502.Proofs.Stores

/-! What is pushed comes back. Where the stack page is RAM, up to a page of bytes and words can be
pushed, wherever the stack pointer stands, and pulled again in reverse order; behind the lowest slot
comes the highest. -/
namespace Mos6502

theorem stackAddress_eq_stackSlot (r : Registers) : r.stackAddress = stackSlot r.sp := rfl

theorem exists_stackSlot_iff {a : Word} :
    (∃ s, a = stackSlot s) ↔ 0x100 ≤ a ∧ a ≤ 0x1FF := by
  have hlow : (0x100 : Word).toNat = 256 := rfl
  have hhigh : (0x1FF : Word).toNat = 511 := rfl
  simp only [UInt16.le_iff_toNat_le, hlow, hhigh]
  constructor
  · rintro ⟨s, rfl⟩
    have := s.toNat_lt
    rw [toNat_stackSlot]
    omega
  · rintro ⟨hlow, hhigh⟩
    refine ⟨UInt8.ofNat (a.toNat - 256), ?_⟩
    rw [← UInt16.toNat_inj, toNat_stackSlot, UInt8.toNat_ofNat_of_lt' (by simp only [UInt8.size]; omega)]
    omega

/-- A core to whose stack bytes have been added, the first of them in the highest slot. -/
structure Core.Stacked (c₀ : Core) (vs : List Byte) (c : Core) : Prop where
  registers : c.registers = { c₀.registers with sp := c₀.registers.sp - UInt8.ofNat vs.length }
  held : ∀ k v, vs[k]? = some v → c.bus.cell (stackSlot (c₀.registers.sp - UInt8.ofNat k)) = .ram v
  page : ∀ s, (c.bus.cell (stackSlot s)).isRam = true
  others : ∀ b, (∀ s, b ≠ stackSlot s) → c.bus.cell b = c₀.bus.cell b
  notices : c.notices = c₀.notices

namespace Core.Stacked
variable {c₀ c : Core} {vs : List Byte} {v : Byte}

theorem nil (hpage : ∀ s, (c₀.bus.cell (stackSlot s)).isRam = true) : c₀.Stacked [] c₀ where
  registers := by simp
  held k v hv := by simp at hv
  page := hpage
  others _ _ := rfl
  notices := rfl

theorem sp_eq (h : c₀.Stacked vs c) : c.registers.sp = c₀.registers.sp - UInt8.ofNat vs.length := by
  rw [h.registers]

/-- As long as there is room, one more byte can be pushed. -/
theorem wp_push (h : c₀.Stacked vs c) (hroom : vs.length < 256) :
    Exec.wp (Exec.push v) (fun _ c' => c₀.Stacked (vs ++ [v]) c') (fun _ _ => False) c := by
  have hslot := h.page c.registers.sp
  have hcell (b : Word) : (c.push v).bus.cell b =
      if b = stackSlot c.registers.sp then .ram v else c.bus.cell b :=
    Bus.cell_put_of_isRam hslot v b
  have hmapped := Bus.isMapped_of_isRam hslot
  simp only [Exec.wp_push, stackAddress_eq_stackSlot, hmapped, Bool.true_eq_false, false_implies,
    and_true, forall_const]
  constructor
  case registers =>
    rw [registers_push, h.registers, List.length_append, List.length_singleton, UInt8.ofNat_add]
    simp only [Registers.mk.injEq, and_true, true_and]
    grind
  case held =>
    intro k w hw
    have hk : k < vs.length + 1 := by simpa using (List.getElem?_eq_some_iff.1 hw).1
    have hsame : stackSlot (c₀.registers.sp - UInt8.ofNat k) = stackSlot c.registers.sp ↔
        k = vs.length := by
      rw [stackSlot_inj, h.sp_eq, Byte.sub_ofNat_inj (by omega) hroom]
    by_cases hlast : k = vs.length
    · rw [hlast, List.getElem?_concat_length] at hw
      rw [hcell, if_pos (hsame.2 hlast), Option.some.inj hw]
    · rw [List.getElem?_append_left (by omega)] at hw
      rw [hcell, if_neg (mt hsame.1 hlast), h.held k w hw]
  case page =>
    intro s
    rw [hcell]
    split
    · rfl
    · exact h.page s
  case others =>
    intro b hb
    rw [hcell, if_neg (hb _), h.others b hb]
  case notices =>
    obtain ⟨-, hsilent⟩ := Bus.silent_of_isRam hslot
    simp [Core.push, Core.store, Core.update, Core.hear, stackAddress_eq_stackSlot, hsilent,
      h.notices]

theorem wp_pull (h : c₀.Stacked (vs ++ [v]) c) :
    Exec.wp Exec.pull (fun w c' => w = v ∧ c₀.Stacked vs c' ∧ c'.bus = c.bus) (fun _ _ => False)
      c := by
  have hsp : c.registers.sp + 1 = c₀.registers.sp - UInt8.ofNat vs.length := by
    rw [h.sp_eq, List.length_append, List.length_singleton, UInt8.ofNat_add]
    grind
  have hslot : c.raise.registers.stackAddress =
      stackSlot (c₀.registers.sp - UInt8.ofNat vs.length) := by
    rw [← hsp]
    rfl
  have hheld := h.held vs.length v List.getElem?_concat_length
  have hram : (c.bus.cell (stackSlot (c₀.registers.sp - UInt8.ofNat vs.length))).isRam = true := by
    rw [hheld, Cell.isRam_ram]
  obtain ⟨hsilent, -⟩ := Bus.silent_of_isRam hram
  simp only [Exec.wp_pull, hslot, Bus.read_of_cell hheld, Bus.isMapped_of_isRam hram, hsilent,
    hear_nil, Except.ok.injEq, Bool.true_eq_false, false_implies, and_true, forall_eq', true_and,
    bus_raise]
  constructor
  case registers => rw [registers_raise, hsp, h.registers]
  case held =>
    intro k w hw
    have hk := (List.getElem?_eq_some_iff.1 hw).1
    exact h.held k w (by rwa [List.getElem?_append_left hk])
  case page => exact h.page
  case others => exact h.others
  case notices => exact h.notices

end Core.Stacked

inductive StackWidth
  | byte | word
  deriving DecidableEq, Repr

/-- What is pushed at a time. -/
inductive StackItem
  | byte (v : Byte)
  | word (w : Word)
  deriving DecidableEq, Repr

namespace StackItem

def width : StackItem → StackWidth
  | .byte _ => .byte
  | .word _ => .word

def bytes : StackItem → List Byte
  | .byte v => [v]
  | .word w => [w.high, w.low]

def push : StackItem → Exec Unit
  | .byte v => Exec.push v
  | .word w => Exec.pushWord w

end StackItem

def StackWidth.pull : StackWidth → Exec StackItem
  | .byte => .byte <$> Exec.pull
  | .word => .word <$> Exec.pullWord

namespace Core.Stacked
variable {c₀ c : Core} {vs : List Byte}

theorem wp_pushItem (h : c₀.Stacked vs c) (item : StackItem)
    (hroom : (vs ++ item.bytes).length ≤ 256) :
    Exec.wp item.push (fun _ c' => c₀.Stacked (vs ++ item.bytes) c') (fun _ _ => False) c := by
  rw [List.length_append] at hroom
  cases item with
  | byte v => exact h.wp_push (by simp [StackItem.bytes] at hroom; omega)
  | word w =>
    simp only [StackItem.bytes, List.length_cons, List.length_nil] at hroom
    rw [StackItem.push, Exec.wp_pushWord]
    refine Exec.wp_mono (h.wp_push (by omega)) fun _ c₁ h₁ => ?_
    refine Exec.wp_mono (h₁.wp_push (by simp; omega)) fun _ c₂ h₂ => ?_
    simpa [StackItem.bytes] using h₂

theorem wp_pullItem {item : StackItem} (h : c₀.Stacked (vs ++ item.bytes) c) :
    Exec.wp item.width.pull (fun pulled c' => pulled = item ∧ c₀.Stacked vs c' ∧ c'.bus = c.bus)
      (fun _ _ => False) c := by
  cases item with
  | byte v =>
    rw [StackItem.width, StackWidth.pull, Exec.wp_map]
    refine Exec.wp_mono h.wp_pull fun _ c' hc' => ?_
    simpa using hc'
  | word w =>
    have hword : vs ++ (StackItem.word w).bytes = vs ++ [w.high] ++ [w.low] := by
      simp [StackItem.bytes]
    rw [hword] at h
    rw [StackItem.width, StackWidth.pull, Exec.wp_map, Exec.wp_pullWord]
    refine Exec.wp_mono h.wp_pull ?_
    rintro _ c₁ ⟨rfl, h₁, hbus₁⟩
    refine Exec.wp_mono h₁.wp_pull ?_
    rintro _ c₂ ⟨rfl, h₂, hbus₂⟩
    exact ⟨by rw [Word.join_low_high], h₂, hbus₂.trans hbus₁⟩

/-- Many items are pushed, as long as there is room for all of their bytes. -/
theorem wp_pushAll (h : c₀.Stacked vs c) (items : List StackItem)
    (hroom : (vs ++ items.flatMap StackItem.bytes).length ≤ 256) :
    Exec.wp (items.forM StackItem.push)
      (fun _ c' => c₀.Stacked (vs ++ items.flatMap StackItem.bytes) c') (fun _ _ => False) c := by
  induction items generalizing vs c with
  | nil => simpa using h
  | cons item rest ih =>
    rw [List.flatMap_cons, ← List.append_assoc] at hroom ⊢
    change Exec.wp (item.push >>= fun _ => rest.forM StackItem.push) _ _ c
    rw [Exec.wp_bind]
    have hroom' : (vs ++ item.bytes).length ≤ 256 := by
      rw [List.length_append] at hroom
      omega
    exact Exec.wp_mono (h.wp_pushItem item hroom') fun _ c₁ h₁ => ih h₁ hroom

theorem wp_pullAll {items : List StackItem}
    (h : c₀.Stacked (vs ++ items.reverse.flatMap StackItem.bytes) c) :
    Exec.wp ((items.map StackItem.width).mapM StackWidth.pull)
      (fun pulled c' => pulled = items ∧ c₀.Stacked vs c' ∧ c'.bus = c.bus) (fun _ _ => False)
      c := by
  induction items generalizing c with
  | nil => exact ⟨rfl, by simpa using h, rfl⟩
  | cons item rest ih =>
    have hlast : vs ++ (item :: rest).reverse.flatMap StackItem.bytes =
        vs ++ rest.reverse.flatMap StackItem.bytes ++ item.bytes := by simp
    rw [hlast] at h
    rw [List.map_cons, List.mapM_cons, Exec.wp_bind]
    refine Exec.wp_mono h.wp_pullItem ?_
    rintro _ c₁ ⟨rfl, h₁, hbus₁⟩
    rw [Exec.wp_bind]
    refine Exec.wp_mono (ih h₁) ?_
    rintro _ c₂ ⟨rfl, h₂, hbus₂⟩
    exact ⟨rfl, h₂, hbus₂.trans hbus₁⟩

end Core.Stacked

/-- What is pushed onto a stack page of RAM is pulled in reverse order, and the stack pointer is back
where it was. Words lie low byte first, and nothing has changed outside the page. -/
theorem Core.pulls_what_was_pushed {c : Core}
    (hpage : ∀ a, 0x100 ≤ a → a ≤ 0x1FF → (c.bus.cell a).isRam = true) (items : List StackItem)
    (hroom : (items.flatMap StackItem.bytes).length ≤ 256) :
    ∃ pushed pulled, items.forM StackItem.push c = .ok () pushed ∧
      (items.reverse.map StackItem.width).mapM StackWidth.pull pushed =
        .ok items.reverse pulled ∧
      pulled.registers = c.registers ∧ pulled.bus = pushed.bus ∧ pulled.notices = c.notices ∧
      (∀ a, ¬(0x100 ≤ a ∧ a ≤ 0x1FF) → pulled.bus.read a = c.bus.read a) ∧
      ∀ before w after, items = before ++ .word w :: after →
        let sp := c.registers.sp - UInt8.ofNat (before.flatMap StackItem.bytes).length
        pulled.bus.read (stackSlot sp) = .ok w.high ∧
          pulled.bus.read (stackSlot (sp - 1)) = .ok w.low := by
  have hnone : c.Stacked [] c := .nil fun s => by
    obtain ⟨hlow, hhigh⟩ := exists_stackSlot_iff.1 ⟨s, rfl⟩
    exact hpage _ hlow hhigh
  obtain ⟨_, pushed, hpush, hall⟩ := Exec.exists_of_wp (hnone.wp_pushAll items (by simpa using hroom))
  have hall' : c.Stacked ([] ++ items.reverse.reverse.flatMap StackItem.bytes) pushed := by
    simpa using hall
  obtain ⟨_, pulled, hpull, rfl, hback, hbus⟩ := Exec.exists_of_wp hall'.wp_pullAll
  refine ⟨pushed, pulled, hpush, hpull, ?_, hbus, hback.notices, fun a ha => ?_, ?_⟩
  · simpa using hback.registers
  · have hcell := hback.others a fun s hs => ha (exists_stackSlot_iff.1 ⟨s, hs⟩)
    rw [Bus.read_eq_cell, Bus.read_eq_cell, hcell]
  · rintro before w after rfl sp
    have hheld (k : Nat) (v : Byte) (hv : (StackItem.word w).bytes[k]? = some v) :
        pulled.bus.read (stackSlot (sp - UInt8.ofNat k)) = .ok v := by
      have hslot : sp - UInt8.ofNat k =
          c.registers.sp - UInt8.ofNat ((before.flatMap StackItem.bytes).length + k) := by
        rw [UInt8.ofNat_add]
        grind
      rw [hslot, hbus]
      refine Bus.read_of_cell (hall.held _ v ?_)
      have hshort := (List.getElem?_eq_some_iff.1 hv).1
      rw [List.nil_append, List.flatMap_append, List.getElem?_append_right (by omega),
        Nat.add_sub_cancel_left, List.flatMap_cons, List.getElem?_append_left hshort, hv]
    exact ⟨by simpa using hheld 0 _ rfl, hheld 1 _ rfl⟩

def lowestSlot : Core where
  registers := { pc := 0, sp := 0x00 }
  bus := ⟨[⟨"stack", 0x0100, .ram (.replicate 256 0), by simp [Backend.size], by simp [Backend.size]⟩]⟩

theorem isRam_lowestSlot (a : Word) (hlow : 0x100 ≤ a) (hhigh : a ≤ 0x1FF) :
    (lowestSlot.bus.cell a).isRam = true := by
  rw [UInt16.le_iff_toNat_le] at hlow hhigh
  have hbase : (0x100 : Word).toNat = 256 := rfl
  have htop : (0x1FF : Word).toNat = 511 := rfl
  rw [lowestSlot, Bus.cell_cons, if_pos]
  · rfl
  · simp only [Region.covers_iff, Region.size, Backend.size, Array.size_replicate]
    omega

/-- A word of which the high byte goes to the lowest slot, and the low one to the highest. -/
theorem Core.pulls_what_was_pushed_wrapping :
    ∃ pushed pulled, [StackItem.word 0x1234, .byte 0x56].forM StackItem.push lowestSlot =
        .ok () pushed ∧
      [StackWidth.byte, .word].mapM StackWidth.pull pushed =
        .ok [.byte 0x56, .word 0x1234] pulled ∧
      pulled.registers.sp = 0x00 ∧ pulled.bus.read 0x100 = .ok 0x12 ∧
      pulled.bus.read 0x1FF = .ok 0x34 := by
  obtain ⟨pushed, pulled, hpush, hpull, hr, -, -, -, hwords⟩ :=
    pulls_what_was_pushed isRam_lowestSlot [.word 0x1234, .byte 0x56] (by decide)
  obtain ⟨hhigh, hlow⟩ := hwords [] 0x1234 [.byte 0x56] rfl
  exact ⟨pushed, pulled, hpush, hpull, by rw [hr]; rfl, hhigh, hlow⟩

end Mos6502

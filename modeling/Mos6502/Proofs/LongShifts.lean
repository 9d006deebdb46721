import Mos6502.Proofs.Encoding
import Mos6502.Proofs.LittleEndian
import Mos6502.Proofs.RegisterFrame

/-! Shifts of numbers of many bytes. A program shifts the byte at one end of a number and rotates the
others from there to the other end, with the carry as link. Going up this doubles the number, going
down it halves it. Halving is doubling read the other way round, so a rotation down takes back a
rotation up. -/
namespace Mos6502

namespace Bytes
variable {c c' d out : Bool} {bs bs' cs cs' : List Byte}

theorem number_append (bs cs : List Byte) :
    number (bs ++ cs) = number bs + 256 ^ bs.length * number cs := by
  simp [number, Nat.ofDigits_append]

/-- Twice the number of `bs`, with `c` in its lowest bit, is the number of equally many bytes `cs`, but
for the bit `out`, for which they have no room. -/
structure Doubles (c : Bool) (bs cs : List Byte) (out : Bool) : Prop where
  length : cs.length = bs.length
  total : 2 * number bs + c.toNat = number cs + 256 ^ bs.length * out.toNat

theorem Doubles.nil (c : Bool) : Doubles c [] [] c := ⟨rfl, by simp⟩

theorem Doubles.append (hlow : Doubles c bs cs c') (hhigh : Doubles c' bs' cs' out) :
    Doubles c (bs ++ bs') (cs ++ cs') out := by
  constructor
  case length => simp [hlow.length, hhigh.length]
  case total =>
    have hsum := congrArg (256 ^ bs.length * ·) hhigh.total
    have hlowest := hlow.total
    simp only [Nat.mul_add, Nat.mul_left_comm _ 2] at hsum
    rw [number_append, number_append, List.length_append, Nat.pow_add, hlow.length, Nat.mul_assoc]
    omega

theorem Doubles.number_eq (h : Doubles c bs cs out) :
    number cs = (2 * number bs + c.toNat) % 256 ^ bs.length := by
  have hlt := number_lt cs
  rw [h.length] at hlt
  rw [h.total, Nat.add_mul_mod_self_left, Nat.mod_eq_of_lt hlt]

/-- The bit for which there is no room is the top bit. -/
theorem Doubles.out_eq (h : Doubles c bs cs out) (hbs : bs ≠ []) :
    out = (number bs).testBit (8 * bs.length - 1) := by
  obtain ⟨half, hhalf, -⟩ := exists_half (mt List.length_eq_zero_iff.1 hbs)
  have hlt := number_lt cs
  have htotal := h.total
  have hc := c.toNat_le
  rw [h.length] at hlt
  rw [testBit_top_eq_half_le hbs]
  cases out with
  | false =>
    rw [Bool.toNat_false, Nat.mul_zero] at htotal
    exact (decide_eq_false (by omega)).symm
  | true =>
    rw [Bool.toNat_true, Nat.mul_one] at htotal
    exact (decide_eq_true (by omega)).symm

theorem Doubles.of_out_false (h : Doubles c bs cs false) :
    number bs = number cs / 2 ∧ c.toNat = number cs % 2 := by
  have htotal := h.total
  have hc := c.toNat_lt
  rw [Bool.toNat_false, Nat.mul_zero] at htotal
  omega

theorem Doubles.injective (h : Doubles c bs cs out) (h' : Doubles d bs' cs out) :
    bs' = bs ∧ d = c := by
  have hlen : bs'.length = bs.length := h'.length.symm.trans h.length
  have htotal : 2 * number bs' + d.toNat = 2 * number bs + c.toNat := by
    rw [h.total, h'.total, hlen]
  have hc := c.toNat_lt
  have hd := d.toNat_lt
  have hbit : d.toNat = c.toNat := by omega
  refine ⟨number_injective hlen (by omega), ?_⟩
  cases c <;> cases d <;> first | rfl | exact absurd hbit (by decide)

end Bytes

namespace Change

/-- Changes bytes one after the other, each with the carry that the one before has left. The last carry
is left over. -/
def pass (k : Change) : Bool → List Byte → List Byte × Bool
  | c, [] => ([], c)
  | c, b :: bs =>
    let others := k.pass (k.carryOut c b) bs
    (k.result c b :: others.1, others.2)

theorem doubles_rotateLeft (c : Bool) (b : Byte) :
    Bytes.Doubles c [b] [rotateLeft.result c b] (rotateLeft.carryOut c b) := by
  refine ⟨rfl, ?_⟩
  simp only [Bytes.number_cons, Bytes.number_nil, List.length_singleton, result, carryOut]
  revert b
  cases c <;> exact Byte.forall_of_fin (by decide +kernel)

theorem doubles_rotateRight (c : Bool) (b : Byte) :
    Bytes.Doubles (rotateRight.carryOut c b) [rotateRight.result c b] [b] c := by
  refine ⟨rfl, ?_⟩
  simp only [Bytes.number_cons, Bytes.number_nil, List.length_singleton, result, carryOut]
  revert b
  cases c <;> exact Byte.forall_of_fin (by decide +kernel)

theorem doubles_pass (c : Bool) (bs : List Byte) :
    Bytes.Doubles c bs (rotateLeft.pass c bs).1 (rotateLeft.pass c bs).2 := by
  induction bs generalizing c with
  | nil => exact .nil c
  | cons b bs ih => exact (doubles_rotateLeft c b).append (ih _)

theorem halves_pass (c : Bool) (bs : List Byte) :
    Bytes.Doubles (rotateRight.pass c bs).2 (rotateRight.pass c bs).1.reverse bs.reverse c := by
  induction bs generalizing c with
  | nil => exact .nil c
  | cons b bs ih =>
    rw [pass, List.reverse_cons, List.reverse_cons]
    exact (ih _).append (doubles_rotateRight c b)

end Change

/-- The carry that a change in place lets in. A shift lets in none. -/
def Mnemonic.letsIn (k : Mnemonic) (c : Bool) : Bool :=
  match k with
  | .asl | .lsr => false
  | _ => c

theorem Mnemonic.exists_shift_up {k : Mnemonic} (h : k = .asl ∨ k = .rol) :
    ∃ change, k.action = .modify change ∧ ∀ c b,
      change.result c b = Change.rotateLeft.result (k.letsIn c) b ∧
        change.carryOut c b = Change.rotateLeft.carryOut (k.letsIn c) b := by
  obtain rfl | rfl := h
  · exact ⟨.shiftLeft, rfl, fun _ _ => ⟨(UInt8.add_zero _).symm, rfl⟩⟩
  · exact ⟨.rotateLeft, rfl, fun _ _ => ⟨rfl, rfl⟩⟩

theorem Mnemonic.exists_shift_down {k : Mnemonic} (h : k = .lsr ∨ k = .ror) :
    ∃ change, k.action = .modify change ∧ ∀ c b,
      change.result c b = Change.rotateRight.result (k.letsIn c) b ∧
        change.carryOut c b = Change.rotateRight.carryOut (k.letsIn c) b := by
  obtain rfl | rfl := h
  · exact ⟨.shiftRight, rfl, fun _ _ => ⟨(UInt8.add_zero _).symm, rfl⟩⟩
  · exact ⟨.rotateRight, rfl, fun _ _ => ⟨rfl, rfl⟩⟩

theorem Mnemonic.of_changesInPlace {k : Mnemonic} (h : k.changesInPlace = true) :
    k.redirects = false ∧ k.movesStackPointer = false ∧
      ∀ mode, (mode ≠ .accumulator → k.destination? mode = none) ∧
        k.flags mode ⊆ [.negative, .zero, .carry] := by
  cases k <;> first
    | exact absurd h Bool.noConfusion
    | exact ⟨rfl, rfl, fun _ => ⟨fun hm => if_neg hm, by simp [flags]⟩⟩

/-- Bytes at some addresses, which are all RAM. -/
def Bus.Holds (bus : Bus) (as : List Word) (bs : List Byte) : Prop := as.map bus.cell = bs.map .ram

theorem Bus.holds_cons_iff {bus : Bus} {a : Word} {as : List Word} {b : Byte} {bs : List Byte} :
    bus.Holds (a :: as) (b :: bs) ↔ bus.cell a = .ram b ∧ bus.Holds as bs := by
  simp [Holds]

theorem Bus.Holds.length_eq {bus : Bus} {as : List Word} {bs : List Byte} (h : bus.Holds as bs) :
    as.length = bs.length := by
  simpa using congrArg List.length h

theorem Bus.Holds.isRam {bus : Bus} {as : List Word} {bs : List Byte} (h : bus.Holds as bs) :
    ∀ a ∈ as, (bus.cell a).isRam = true := by
  intro a ha
  have hcell : bus.cell a ∈ bs.map Cell.ram := by
    rw [← h]
    exact List.mem_map_of_mem ha
  obtain ⟨v, -, hv⟩ := List.mem_map.1 hcell
  rw [← hv, Cell.isRam_ram]

theorem Bus.Holds.reverse {bus : Bus} {as : List Word} {bs : List Byte} (h : bus.Holds as bs) :
    bus.Holds as.reverse bs.reverse := by
  rw [Holds, List.map_reverse, List.map_reverse, h]

/-- One mnemonic at the first of some addresses, and another at each of the others. -/
def sweep (first rest : Mnemonic) : List Word → List (Mnemonic × Word)
  | [] => []
  | a :: as => (first, a) :: as.map (rest, ·)

namespace Machine
variable {m m' next : Machine} {i : Instruction} {k : Mnemonic} {a : Word} {as : List Word}
  {b : Byte} {bs : List Byte} {work : List (Mnemonic × Word)}

/-- Steps that succeed, each with a mnemonic and an effective address that are given. -/
inductive Performs : Machine → List (Mnemonic × Word) → Machine → Prop
  | nil (m : Machine) : Performs m [] m
  | cons {m next m' : Machine} {i : Instruction} {a : Word} {rest : List (Mnemonic × Word)} :
    m.Does i next → i.effectiveAddress m.registers m.bus = .ok a → Performs next rest m' →
    Performs m ((i.mnemonic, a) :: rest) m'

/-- Nothing has changed but what some addresses hold, the three flags that tell of a shift, and where
the program is. -/
structure Spares (as : List Word) (m m' : Machine) : Prop where
  data : ∀ d, m'.registers.get d = m.registers.get d
  stackPointer : m'.registers.sp = m.registers.sp
  flags : ∀ f, f ∉ [.negative, .zero, .carry] → m'.registers.status.get f = m.registers.status.get f
  memory : ∀ b, b ∉ as → m'.bus.cell b = m.bus.cell b

theorem Spares.refl (as : List Word) (m : Machine) : Spares as m m :=
  ⟨fun _ => rfl, rfl, fun _ _ => rfl, fun _ _ => rfl⟩

theorem Spares.trans (h : Spares as m next) (h' : Spares as next m') : Spares as m m' where
  data d := (h'.data d).trans (h.data d)
  stackPointer := h'.stackPointer.trans h.stackPointer
  flags f hf := (h'.flags f hf).trans (h.flags f hf)
  memory b hb := (h'.memory b hb).trans (h.memory b hb)

theorem Spares.mono {bs : List Word} (h : Spares as m m') (hsub : as ⊆ bs) : Spares bs m m' :=
  { h with memory := fun b hb => h.memory b fun ha => hb (hsub ha) }

theorem Does.changed {change : Change} (h : m.Does i next) (hk : i.mnemonic.action = .modify change)
    (ha : i.effectiveAddress m.registers m.bus = .ok a) (hb : m.bus.cell a = .ram b) :
    next.bus.cell a = .ram (change.result m.registers.status.carry b) ∧
      next.registers.status.carry = change.carryOut m.registers.status.carry b ∧
      Spares [a] m next := by
  have hread := Bus.read_of_cell hb
  have hram : (m.bus.cell a).isRam = true := by rw [hb, Cell.isRam_ram]
  have hacc : i.mode ≠ .accumulator := fun hm => by
    simp [Instruction.effectiveAddress, Instruction.target, hm, Target.address] at ha
  have hchanges : i.mnemonic.changesInPlace = true :=
    Mnemonic.changesInPlace_of_modifies (by rw [hk]; rfl)
  have hbus : next.bus = m.bus.put a (change.result m.registers.status.carry b) := by
    obtain ⟨change', hk', hf⟩ := Mnemonic.exists_change hchanges
    obtain rfl := Action.modify.inj (hk'.symm.trans hk)
    obtain ⟨a', b', ha', hb', -, hbus⟩ := h.exists_stored (hf m.registers) hacc
    obtain rfl := Except.ok.inj (ha'.symm.trans ha)
    obtain rfl := Except.ok.inj (hb'.symm.trans hread)
    exact hbus
  have hcell := Bus.cell_put_of_isRam hram (change.result m.registers.status.carry b)
  have hcarry : next.registers.status.carry = change.carryOut m.registers.status.carry b := by
    obtain ⟨v, pc, hv, hr, -⟩ := h.registers_eq
    rw [Instruction.input, hk, Action.input, Instruction.operandValue_of_read hacc ha hread] at hv
    obtain rfl := Except.ok.inj hv
    rw [hr, Instruction.effect, hk, Action.effect, if_neg hacc]
    rfl
  obtain ⟨-, hsp, hmode⟩ := Mnemonic.of_changesInPlace hchanges
  obtain ⟨hdestination, hflags⟩ := hmode i.mode
  have honly := h.changesOnly
  refine ⟨by rw [hbus, hcell, if_pos rfl], hcarry, ?_⟩
  constructor
  case data => exact fun d => honly.data d (by simp [hdestination hacc])
  case stackPointer => exact honly.stackPointer hsp
  case flags => exact fun f hf => honly.flags f fun hmem => hf (hflags hmem)
  case memory =>
    intro b hb
    rw [hbus, hcell, if_neg (by simpa using hb)]

/-- The first of some changes in place changes the first of the bytes, and leaves the others to the
rest. -/
theorem Performs.of_cons {change : Change} (h : m.Performs ((k, a) :: work) m')
    (hk : k.action = .modify change) (hd : (a :: as).Nodup) (hb : m.bus.Holds (a :: as) (b :: bs)) :
    ∃ next : Machine, next.Performs work m' ∧ next.bus.Holds as bs ∧
      next.bus.cell a = .ram (change.result m.registers.status.carry b) ∧
      next.registers.status.carry = change.carryOut m.registers.status.carry b ∧
      Spares [a] m next := by
  obtain ⟨hfirst, hrest⟩ := Bus.holds_cons_iff.1 hb
  obtain ⟨ha, -⟩ := List.nodup_cons.1 hd
  cases h with
  | @cons _ next _ i _ _ hdoes haddress hwork =>
    obtain ⟨hcell, hcarry, hspares⟩ := hdoes.changed hk haddress hfirst
    have hkept : as.map next.bus.cell = as.map m.bus.cell :=
      List.map_congr_left fun c hc => hspares.memory c fun hca => ha (by simp_all)
    exact ⟨next, hwork, hkept.trans hrest, hcell, hcarry, hspares⟩

theorem Performs.passes {change : Change} (h : m.Performs (as.map (k, ·)) m')
    (hk : k.action = .modify change) (hd : as.Nodup) (hb : m.bus.Holds as bs) :
    m'.bus.Holds as (change.pass m.registers.status.carry bs).1 ∧
      m'.registers.status.carry = (change.pass m.registers.status.carry bs).2 ∧
      Spares as m m' := by
  induction as generalizing m bs with
  | nil =>
    obtain rfl : bs = [] := by simpa [Bus.Holds] using hb.symm
    cases h
    exact ⟨hb, rfl, .refl [] _⟩
  | cons a as ih =>
    obtain _ | ⟨b, bs⟩ := bs
    · simp [Bus.Holds] at hb
    obtain ⟨next, hwork, hrest, hcell, hcarry, hfirst⟩ := h.of_cons hk hd hb
    obtain ⟨ha, hd'⟩ := List.nodup_cons.1 hd
    obtain ⟨hholds, hlast, hothers⟩ := ih hwork hd' hrest
    rw [hcarry] at hholds hlast
    refine ⟨Bus.holds_cons_iff.2 ⟨?_, hholds⟩, hlast,
      (hfirst.mono (by simp)).trans (hothers.mono (by simp))⟩
    rw [hothers.memory a ha, hcell]

/-- A sweep is a pass, into which the first change lets what it lets in. -/
theorem Performs.sweeps {first : Mnemonic} {start change : Change}
    (h : m.Performs (sweep first k as) m') (hfirst : first.action = .modify start)
    (hk : k.action = .modify change)
    (hstart : ∀ c b, start.result c b = change.result (first.letsIn c) b ∧
      start.carryOut c b = change.carryOut (first.letsIn c) b)
    (has : as ≠ []) (hd : as.Nodup) (hb : m.bus.Holds as bs) :
    m'.bus.Holds as (change.pass (first.letsIn m.registers.status.carry) bs).1 ∧
      m'.registers.status.carry = (change.pass (first.letsIn m.registers.status.carry) bs).2 ∧
      Spares as m m' := by
  obtain ⟨a, as, rfl⟩ := List.exists_cons_of_ne_nil has
  obtain _ | ⟨b, bs⟩ := bs
  · simp [Bus.Holds] at hb
  obtain ⟨next, hwork, hrest, hcell, hcarry, hspares⟩ := h.of_cons hfirst hd hb
  obtain ⟨ha, hd'⟩ := List.nodup_cons.1 hd
  obtain ⟨hholds, hlast, hothers⟩ := hwork.passes hk hd' hrest
  obtain ⟨hresult, hout⟩ := hstart m.registers.status.carry b
  rw [hcarry, hout] at hholds hlast
  refine ⟨Bus.holds_cons_iff.2 ⟨?_, hholds⟩, hlast,
    (hspares.mono (by simp)).trans (hothers.mono (by simp))⟩
  rw [hothers.memory a ha, hcell, hresult]

theorem Performs.doubles {first : Mnemonic} (hfirst : first = .asl ∨ first = .rol)
    (h : m.Performs (sweep first .rol as) m') (has : as ≠ []) (hd : as.Nodup)
    (hb : m.bus.Holds as bs) :
    ∃ cs, m'.bus.Holds as cs ∧
      Bytes.Doubles (first.letsIn m.registers.status.carry) bs cs m'.registers.status.carry ∧
      Spares as m m' := by
  obtain ⟨start, hstart, hlets⟩ := Mnemonic.exists_shift_up hfirst
  obtain ⟨hholds, hcarry, hspares⟩ := h.sweeps hstart rfl hlets has hd hb
  exact ⟨_, hholds, by rw [hcarry]; exact Change.doubles_pass _ bs, hspares⟩

theorem Performs.halves {first : Mnemonic} (hfirst : first = .lsr ∨ first = .ror)
    (h : m.Performs (sweep first .ror as.reverse) m') (has : as ≠ []) (hd : as.Nodup)
    (hb : m.bus.Holds as bs) :
    ∃ cs, m'.bus.Holds as cs ∧
      Bytes.Doubles m'.registers.status.carry cs bs (first.letsIn m.registers.status.carry) ∧
      Spares as m m' := by
  obtain ⟨start, hstart, hlets⟩ := Mnemonic.exists_shift_down hfirst
  obtain ⟨hholds, hcarry, hspares⟩ := h.sweeps hstart rfl hlets (mt List.reverse_eq_nil_iff.1 has)
    (List.nodup_reverse.2 hd) hb.reverse
  have hhalves := Change.halves_pass (first.letsIn m.registers.status.carry) bs.reverse
  rw [List.reverse_reverse, ← hcarry] at hhalves
  exact ⟨_, by simpa using hholds.reverse, hhalves, hspares.mono (by simp)⟩

end Machine

theorem Opcode.mode_of_changesInPlace {o : Opcode} (h : o ∈ table)
    (hk : o.mnemonic.changesInPlace = true) :
    o.mode ∈ [.accumulator, .zeroPage, .zeroPageX, .absolute, .absoluteX] := by
  revert o
  decide +kernel

namespace Instruction

theorem effectiveAddress_of_changesInPlace {i : Instruction} (ho : i.opcode ∈ Opcode.table)
    (hk : i.mnemonic.changesInPlace = true) {r r' : Registers} (hx : r'.x = r.x) (bus bus' : Bus) :
    i.effectiveAddress r' bus' = i.effectiveAddress r bus := by
  have hm : i.mode ∈ [.accumulator, .zeroPage, .zeroPageX, .absolute, .absoluteX] :=
    Opcode.mode_of_changesInPlace ho hk
  simp only [List.mem_cons, List.not_mem_nil, or_false] at hm
  obtain hm | hm | hm | hm | hm := hm <;> simp [effectiveAddress, target, hm, hx, Target.address]

/-- What has been decoded is decoded again where no byte of it has changed. -/
theorem decode_of_reads {bus bus' : Bus} {pc : Word} {i : Instruction} (h : decode bus pc = .ok i)
    (hread : ∀ k < i.length, bus'.read (pc + UInt16.ofNat k) = bus.read (pc + UInt16.ofNat k)) :
    decode bus' pc = .ok i := by
  obtain ⟨hpc, ho, hfits, hbytes⟩ := decode_eq_ok_iff.1 h
  refine decode_eq_ok_iff.2 ⟨hpc, ho, hfits, ?_⟩
  rw [← hbytes]
  exact List.map_congr_left fun k hk => hread k (List.mem_range.1 hk)

end Instruction

/-- Instructions stand in memory one behind the other, from an address on and out of the way of some
addresses, each with a mnemonic and an effective address that are given. -/
def Bus.Lists (bus : Bus) (as : List Word) (r : Registers) : Word → List (Mnemonic × Word) → Prop
  | _, [] => True
  | pc, (k, a) :: rest =>
    ∃ i, Instruction.decode bus pc = .ok i ∧ i.mnemonic = k ∧ i.effectiveAddress r bus = .ok a ∧
      (∀ n < i.length, pc + UInt16.ofNat n ∉ as) ∧ bus.Lists as r i.next rest

theorem Bus.Lists.of_cells {bus bus' : Bus} {as : List Word} {r r' : Registers} {pc : Word}
    {work : List (Mnemonic × Word)} (h : bus.Lists as r pc work)
    (hwork : ∀ w ∈ work, w.1.changesInPlace = true) (hx : r'.x = r.x)
    (hcells : ∀ b, b ∉ as → bus'.cell b = bus.cell b) : bus'.Lists as r' pc work := by
  induction work generalizing pc with
  | nil => trivial
  | cons w rest ih =>
    obtain ⟨hk, hwork⟩ := List.forall_mem_cons.1 hwork
    obtain ⟨i, hd, hi, ha, hapart, hrest⟩ := h
    obtain ⟨-, -, ho, -⟩ := Instruction.of_decode hd
    refine ⟨i, Instruction.decode_of_reads hd fun n hn => ?_, hi, ?_, hapart, ih hrest hwork⟩
    · rw [Bus.read_eq_cell, Bus.read_eq_cell, hcells _ (hapart n hn)]
    · rw [Instruction.effectiveAddress_of_changesInPlace (Opcode.mem_table_of_lookup ho).1
        (by rw [hi]; exact hk) hx bus bus', ha]

/-- An instruction that changes a byte in place does not trap where there is something. -/
theorem Exec.run_changing {c : Core} {i : Instruction} (ho : i.opcode ∈ Opcode.table)
    (hk : i.mnemonic.changesInPlace = true) {a : Word}
    (ha : i.effectiveAddress c.registers c.bus = .ok a) (hm : c.bus.isMapped a = true) :
    wp (run i) (fun _ _ => True) (fun _ _ => False) c := by
  obtain ⟨change, hchange, -⟩ := Mnemonic.exists_change hk
  have hx : ({ c.registers with pc := i.next } : Registers).x = c.registers.x := rfl
  have haddress := Instruction.effectiveAddress_of_changesInPlace ho hk hx c.bus c.bus
  simp only [run, wp_bind, wp_update, hchange, act]
  simp [modifyByte, haddress, ha, hm]

namespace Machine
variable {m m' next : Machine} {i : Instruction} {a : Word} {as : List Word} {bs : List Byte}
  {work : List (Mnemonic × Word)}

theorem exists_does_of_changesInPlace (hd : Instruction.decode m.bus m.registers.pc = .ok i)
    (hk : i.mnemonic.changesInPlace = true)
    (ha : i.effectiveAddress m.registers m.bus = .ok a) (hm : m.bus.isMapped a = true) :
    ∃ next, m.Does i next := by
  obtain ⟨-, -, ho, -⟩ := Instruction.of_decode hd
  exact exists_does_of_wp hd (Exec.run_changing (Opcode.mem_table_of_lookup ho).1 hk ha hm)

theorem Does.isRam (h : m.Does i next) (hk : i.mnemonic.changesInPlace = true)
    (ha : i.effectiveAddress m.registers m.bus = .ok a)
    (hram : ∀ b ∈ as, (m.bus.cell b).isRam = true) (hmem : a ∈ as) :
    (∀ b ∈ as, (next.bus.cell b).isRam = true) ∧ Spares as m next := by
  obtain ⟨b, hb⟩ := Cell.exists_of_isRam (hram a hmem)
  obtain ⟨change, hchange, -⟩ := Mnemonic.exists_change hk
  obtain ⟨hcell, -, hspares⟩ := h.changed hchange ha hb
  refine ⟨fun c hc => ?_, hspares.mono (by simpa using hmem)⟩
  by_cases hca : c = a
  · rw [hca, hcell, Cell.isRam_ram]
  · rw [hspares.memory c (by simpa using hca)]
    exact hram c hc

theorem Performs.isRam (h : m.Performs work m')
    (hwork : ∀ w ∈ work, w.1.changesInPlace = true ∧ w.2 ∈ as)
    (hram : ∀ b ∈ as, (m.bus.cell b).isRam = true) : ∀ b ∈ as, (m'.bus.cell b).isRam = true := by
  induction h with
  | nil => exact hram
  | cons hdoes ha _ ih =>
    obtain ⟨⟨hk, hmem⟩, hrest⟩ := List.forall_mem_cons.1 hwork
    exact ih hrest (hdoes.isRam hk ha hram hmem).1

/-- A program of changes in place runs to its end, where it does not change itself. -/
theorem exists_performs (hlisted : m.bus.Lists as m.registers m.registers.pc work)
    (hwork : ∀ w ∈ work, w.1.changesInPlace = true ∧ w.2 ∈ as)
    (hram : ∀ b ∈ as, (m.bus.cell b).isRam = true) : ∃ m', m.Performs work m' := by
  induction work generalizing m with
  | nil => exact ⟨m, .nil m⟩
  | cons w rest ih =>
    obtain ⟨k, a⟩ := w
    obtain ⟨i, hd, rfl, ha, -, hothers⟩ := hlisted
    obtain ⟨⟨hk, hmem⟩, hrest⟩ := List.forall_mem_cons.1 hwork
    obtain ⟨next, hdoes⟩ :=
      exists_does_of_changesInPlace hd hk ha (Bus.isMapped_of_isRam (hram a hmem))
    obtain ⟨hram', hspares⟩ := hdoes.isRam hk ha hram hmem
    have hpc : next.registers.pc = i.next := by
      obtain ⟨hstraight, -, -⟩ := Mnemonic.of_changesInPlace hk
      rw [hdoes.changesOnly.pc hstraight, Instruction.next, Instruction.address_of_decode hd]
    have hlisted : next.bus.Lists as next.registers next.registers.pc rest := by
      rw [hpc]
      exact hothers.of_cells (fun w hw => (hrest w hw).1) (hspares.data .x) hspares.memory
    obtain ⟨m', hm'⟩ := ih hlisted hrest hram'
    exact ⟨m', .cons hdoes ha hm'⟩

theorem Performs.of_append {front back : List (Mnemonic × Word)}
    (h : m.Performs (front ++ back) m') :
    ∃ next : Machine, m.Performs front next ∧ next.Performs back m' := by
  induction front generalizing m with
  | nil => exact ⟨m, .nil m, h⟩
  | cons w front ih =>
    cases h with
    | cons hdoes ha hrest =>
      obtain ⟨next, hfront, hback⟩ := ih hrest
      exact ⟨next, .cons hdoes ha hfront, hback⟩

/-- Some addresses have come to hold a number, and the carry to be `c`. Nothing else has changed. -/
structure ComesTo (m : Machine) (as : List Word) (N : Nat) (c : Bool) (m' : Machine) : Prop where
  bytes : ∃ cs, m'.bus.Holds as cs ∧ Bytes.number cs = N
  carry : m'.registers.status.carry = c
  spared : Spares as m m'

/-- The shifts of a number of some bytes: up and down by one bit, around through the carry, and
around and back. -/
def shifts (as : List Word) : List (List (Mnemonic × Word)) :=
  [sweep .asl .rol as, sweep .lsr .ror as.reverse, sweep .rol .rol as,
    sweep .rol .rol as ++ sweep .ror .ror as.reverse]

theorem mem_sweep {first rest : Mnemonic} (hfirst : first.changesInPlace = true)
    (hrest : rest.changesInPlace = true) :
    ∀ w ∈ sweep first rest as, w.1.changesInPlace = true ∧ w.2 ∈ as := by
  cases as with
  | nil => simp [sweep]
  | cons a as => simp_all [sweep]

theorem mem_of_mem_shifts (h : work ∈ shifts as) :
    ∀ w ∈ work, w.1.changesInPlace = true ∧ w.2 ∈ as := by
  have hdown {first : Mnemonic} (hfirst : first.changesInPlace = true) :
      ∀ w ∈ sweep first .ror as.reverse, w.1.changesInPlace = true ∧ w.2 ∈ as := by
    have hror : Mnemonic.ror.changesInPlace = true := rfl
    simpa using @mem_sweep as.reverse first .ror hfirst hror
  simp only [shifts, List.mem_cons, List.not_mem_nil, or_false] at h
  obtain rfl | rfl | rfl | rfl := h
  · exact mem_sweep rfl rfl
  · exact hdown rfl
  · exact mem_sweep rfl rfl
  · exact List.forall_mem_append.2 ⟨mem_sweep rfl rfl, hdown rfl⟩

/-- Shifts and rotations of numbers of many bytes are exact, wherever the bytes are, and a rotation
down takes back a rotation up. No step of them fails, and a program of them that does not change
itself gets to its end. -/
theorem shifts_exact (has : as ≠ []) (hd : as.Nodup) (hb : m.bus.Holds as bs) :
    (∀ m', m.Performs (sweep .asl .rol as) m' →
      m.ComesTo as (2 * Bytes.number bs % 256 ^ as.length)
        ((Bytes.number bs).testBit (8 * as.length - 1)) m') ∧
    (∀ m', m.Performs (sweep .lsr .ror as.reverse) m' →
      m.ComesTo as (Bytes.number bs / 2) (decide (Bytes.number bs % 2 = 1)) m') ∧
    (∀ m', m.Performs (sweep .rol .rol as) m' →
      m.ComesTo as
        ((2 * Bytes.number bs + m.registers.status.carry.toNat) % 256 ^ as.length)
        ((Bytes.number bs).testBit (8 * as.length - 1)) m') ∧
    (∀ m', m.Performs (sweep .rol .rol as ++ sweep .ror .ror as.reverse) m' →
      m.ComesTo as (Bytes.number bs) m.registers.status.carry m') ∧
    ∀ work ∈ shifts as,
      (∀ front k a rest next i, work = front ++ (k, a) :: rest → m.Performs front next →
        Instruction.decode next.bus next.registers.pc = .ok i → i.mnemonic = k →
        i.effectiveAddress next.registers next.bus = .ok a → ∃ m', next.Does i m') ∧
      (m.bus.Lists as m.registers m.registers.pc work → ∃ m', m.Performs work m') := by
  have hbs : bs ≠ [] := fun h => has (List.length_eq_zero_iff.1 (by rw [hb.length_eq, h]; rfl))
  rw [hb.length_eq]
  refine ⟨fun m' h => ?_, fun m' h => ?_, fun m' h => ?_, fun m' h => ?_, fun work hwork => ⟨?_, ?_⟩⟩
  case refine_1 =>
    obtain ⟨cs, hholds, hdoubles, hspares⟩ := h.doubles (.inl rfl) has hd hb
    exact ⟨⟨cs, hholds, hdoubles.number_eq⟩, hdoubles.out_eq hbs, hspares⟩
  case refine_2 =>
    obtain ⟨cs, hholds, hdoubles, hspares⟩ := h.halves (.inl rfl) has hd hb
    obtain ⟨hhalf, hbit⟩ := hdoubles.of_out_false
    exact ⟨⟨cs, hholds, hhalf⟩, by simp [← hbit], hspares⟩
  case refine_3 =>
    obtain ⟨cs, hholds, hdoubles, hspares⟩ := h.doubles (.inr rfl) has hd hb
    exact ⟨⟨cs, hholds, hdoubles.number_eq⟩, hdoubles.out_eq hbs, hspares⟩
  case refine_4 =>
    obtain ⟨next, hup, hdown⟩ := h.of_append
    obtain ⟨cs, hholds, hdoubles, hspares⟩ := hup.doubles (.inr rfl) has hd hb
    obtain ⟨ds, hholds', hdoubles', hspares'⟩ := hdown.halves (.inr rfl) has hd hholds
    obtain ⟨rfl, hcarry⟩ := hdoubles.injective hdoubles'
    exact ⟨⟨ds, hholds', rfl⟩, hcarry, hspares.trans hspares'⟩
  case refine_5 =>
    rintro front k a rest next i rfl hfront hdecode rfl ha
    have hmem := mem_of_mem_shifts hwork
    obtain ⟨hk, ha'⟩ := hmem (i.mnemonic, a) (by simp)
    have hram := hfront.isRam (fun w hw => hmem w (by simp [hw])) hb.isRam
    exact exists_does_of_changesInPlace hdecode hk ha (Bus.isMapped_of_isRam (hram a ha'))
  case refine_6 => exact fun hlisted => exists_performs hlisted (mem_of_mem_shifts hwork) hb.isRam

def shifting (pc : Word) : Machine where
  registers := { pc, status := { carry := true } }
  bus := ⟨[⟨"ram", 0x0000,
    .ram #[0x06, 0x10, 0x26, 0x11, 0x46, 0x11, 0x66, 0x10,
      0x26, 0x10, 0x26, 0x11, 0x66, 0x11, 0x66, 0x10, 0x81, 0x80],
    by simp [Backend.size], by simp [Backend.size]⟩]⟩

set_option maxRecDepth 4000 in
theorem lists_shifting :
    (shifting 0).bus.Lists [0x10, 0x11] (shifting 0).registers 0 (sweep .asl .rol [0x10, 0x11]) ∧
    (shifting 4).bus.Lists [0x10, 0x11] (shifting 4).registers 4 (sweep .lsr .ror [0x11, 0x10]) ∧
    (shifting 8).bus.Lists [0x10, 0x11] (shifting 8).registers 8
      (sweep .rol .rol [0x10, 0x11] ++ sweep .ror .ror [0x11, 0x10]) := by
  refine ⟨⟨_, rfl, rfl, rfl, by decide, _, rfl, rfl, rfl, by decide, trivial⟩,
    ⟨_, rfl, rfl, rfl, by decide, _, rfl, rfl, rfl, by decide, trivial⟩,
    ⟨_, rfl, rfl, rfl, by decide, _, rfl, rfl, rfl, by decide,
      _, rfl, rfl, rfl, by decide, _, rfl, rfl, rfl, by decide, trivial⟩⟩

theorem shifts_exact_shifting :
    (∃ m', (shifting 0).Performs (sweep .asl .rol [0x10, 0x11]) m' ∧
      (shifting 0).ComesTo [0x10, 0x11] 0x0102 true m') ∧
    (∃ m', (shifting 4).Performs (sweep .lsr .ror [0x11, 0x10]) m' ∧
      (shifting 4).ComesTo [0x10, 0x11] 0x4040 true m') ∧
    ∃ m', (shifting 8).Performs (sweep .rol .rol [0x10, 0x11] ++ sweep .ror .ror [0x11, 0x10]) m' ∧
      (shifting 8).ComesTo [0x10, 0x11] 0x8081 true m' := by
  obtain ⟨hasl, hlsr, hrol⟩ := lists_shifting
  have hholds (pc : Word) : (shifting pc).bus.Holds [0x10, 0x11] [0x81, 0x80] := rfl
  have hexact (pc : Word) := shifts_exact (by simp) (by decide) (hholds pc)
  have hnumber : Bytes.number [0x81, 0x80] = 0x8081 := rfl
  simp only [hnumber] at hexact
  refine ⟨?_, ?_, ?_⟩
  · obtain ⟨hcomes, -, -, -, hruns⟩ := hexact 0
    obtain ⟨m', h⟩ := (hruns _ (by simp [shifts])).2 hasl
    exact ⟨m', h, hcomes m' h⟩
  · obtain ⟨-, hcomes, -, -, hruns⟩ := hexact 4
    obtain ⟨m', h⟩ := (hruns _ (by simp [shifts])).2 hlsr
    exact ⟨m', h, hcomes m' h⟩
  · obtain ⟨-, -, -, hcomes, hruns⟩ := hexact 8
    obtain ⟨m', h⟩ := (hruns _ (by simp [shifts])).2 hrol
    exact ⟨m', h, hcomes m' h⟩

end Machine
end Mos6502

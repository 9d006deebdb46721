import Mos6502.Proofs.Accesses

/-! Buses that cannot be told apart. A congruence relates buses that answer every read alike and stay
related when the same byte is written to both; an instruction that is carried out on related buses
comes to the same end. -/
namespace Mos6502

/-- A relation between buses on which every access comes to the same. If `devices` holds, devices are
accessed on both buses or on neither. -/
structure Bus.Congruence (devices : Prop) (R : Bus → Bus → Prop) : Prop where
  read {bus bus' : Bus} : R bus bus' → ∀ a, bus.read a = bus'.read a
  put {bus bus' : Bus} : R bus bus' → ∀ a v, R (bus.put a v) (bus'.put a v)
  onRead {bus bus' : Bus} : R bus bus' → devices → ∀ a,
    (bus.onRead a).filterMap BusNotice.access? = (bus'.onRead a).filterMap BusNotice.access?
  onWrite {bus bus' : Bus} : R bus bus' → devices → ∀ a v,
    (bus.onWrite a v).filterMap BusNotice.access? = (bus'.onWrite a v).filterMap BusNotice.access?
  onShutdown {bus bus' : Bus} : R bus bus' → devices →
    bus.onShutdown.filterMap BusNotice.access? = bus'.onShutdown.filterMap BusNotice.access?
  shutdown {bus bus' : Bus} : R bus bus' → R bus.shutdown bus'.shutdown
  snoc {bus bus' : Bus} : R bus bus' → ∀ r : Region, r.backend.isPlain = true →
    R ⟨bus.regions ++ [r]⟩ ⟨bus'.regions ++ [r]⟩

theorem Bus.congruence_eq : Bus.Congruence True Eq where
  read h _ := by rw [h]
  put h _ _ := by rw [h]
  onRead h _ _ := by rw [h]
  onWrite h _ _ _ := by rw [h]
  onShutdown h _ := by rw [h]
  shutdown h := by rw [h]
  snoc h _ _ := by rw [h]

/-- Two ends of a computation: the same value or the same error, and states that are related. -/
inductive EndsAlike {ε σ α : Type} (R : σ → σ → Prop) :
    EStateM.Result ε σ α → EStateM.Result ε σ α → Prop
  | ok (v : α) {s s' : σ} (h : R s s') : EndsAlike R (.ok v s) (.ok v s')
  | error (e : ε) {s s' : σ} (h : R s s') : EndsAlike R (.error e s) (.error e s')

/-- Two cores on related buses, with the same registers. -/
structure Core.Alike (devices : Prop) (R : Bus → Bus → Prop) (c c' : Core) : Prop where
  registers : c.registers = c'.registers
  bus : R c.bus c'.bus
  accesses : devices → c.accesses = c'.accesses

variable {devices : Prop} {R : Bus → Bus → Prop}

namespace Bus.Congruence
variable (hR : Bus.Congruence devices R) {bus bus' : Bus}
include hR

theorem isMapped (h : R bus bus') (a : Word) : bus.isMapped a = bus'.isMapped a := by
  have hread := hR.read h a
  cases hm : bus.isMapped a <;> cases hm' : bus'.isMapped a
  · rfl
  · obtain ⟨v, hv⟩ := Bus.read_of_isMapped hm'
    simp [Bus.read_of_not_isMapped hm, hv] at hread
  · obtain ⟨v, hv⟩ := Bus.read_of_isMapped hm
    simp [Bus.read_of_not_isMapped hm', hv] at hread
  · rfl

theorem readWord (h : R bus bus') (a : Word) : bus.readWord a = bus'.readWord a := by
  simp only [Bus.readWord, hR.read h]

theorem readOperand (h : R bus bus') (a : Word) (n : Nat) :
    Operand.read bus a n = Operand.read bus' a n := by
  unfold Operand.read
  split <;> simp only [hR.read h, hR.readWord h]

theorem decode (h : R bus bus') (pc : Word) :
    Instruction.decode bus pc = Instruction.decode bus' pc := by
  simp only [Instruction.decode, hR.read h, hR.readOperand h]

theorem fetches (h : R bus bus') (pc : Word) :
    Instruction.fetches bus pc = Instruction.fetches bus' pc := by
  have hmapped : bus.isMapped = bus'.isMapped := funext (hR.isMapped h)
  simp only [Instruction.fetches, hR.read h, hmapped]

theorem onDecode (h : R bus bus') (hd : devices) (pc : Word) :
    (Instruction.onDecode bus pc).filterMap BusNotice.access? =
      (Instruction.onDecode bus' pc).filterMap BusNotice.access? := by
  rw [Instruction.onDecode, Instruction.onDecode, hR.fetches h, List.filterMap_flatMap,
    List.filterMap_flatMap]
  exact congrArg (List.flatMap · _) (funext fun a => hR.onRead h hd a)

theorem onReadWord (h : R bus bus') (hd : devices) (a : Word) :
    (bus.onReadWord a).filterMap BusNotice.access? =
      (bus'.onReadWord a).filterMap BusNotice.access? := by
  unfold Bus.onReadWord
  rw [hR.isMapped h]
  split
  · rw [List.filterMap_append, List.filterMap_append, hR.onRead h hd, hR.onRead h hd]
  · rfl

end Bus.Congruence

namespace Exec
variable {α β : Type}

/-- Two computations that come to the same from related cores: the same value or the same trap, and
cores that are related again. -/
def Parallel (S : Core → Core → Prop) (x y : Exec α) : Prop :=
  ∀ c c', S c c' → EndsAlike S (x c) (y c')

section
variable {S : Core → Core → Prop}

theorem parallel_pure (v : α) : Parallel S (pure v : Exec α) (pure v) := fun _ _ h => .ok v h

theorem parallel_trap (t : Trap) : Parallel S (trap t : Exec α) (trap t) := fun _ _ h => .error t h

theorem parallel_bind {x y : Exec α} {f g : α → Exec β} (hxy : Parallel S x y)
    (hfg : ∀ v, Parallel S (f v) (g v)) : Parallel S (x >>= f) (y >>= g) := by
  intro c c' h
  have hends := hxy c c' h
  simp only [bind, EStateM.bind]
  generalize x c = r, y c' = r' at hends
  cases hends with
  | ok v hnext => exact hfg v _ _ hnext
  | error t hnext => exact .error t hnext

end

/-- A computation that comes to the same on related buses. -/
def Respects (devices : Prop) (R : Bus → Bus → Prop) (x : Exec α) : Prop :=
  ∀ c c', c.Alike devices R c' → EndsAlike (Core.Alike devices R) (x c) (x c')

theorem respects_pure (v : α) : Respects devices R (pure v : Exec α) := parallel_pure v

theorem respects_bind {x : Exec α} {f : α → Exec β} (hx : Respects devices R x)
    (hf : ∀ v, Respects devices R (f v)) : Respects devices R (x >>= f) :=
  parallel_bind hx hf

theorem respects_ite {p : Prop} [Decidable p] {x y : Exec α} (hx : Respects devices R x)
    (hy : Respects devices R y) : Respects devices R (if p then x else y) := by
  split
  · exact hx
  · exact hy

theorem respects_registers : Respects devices R registers := by
  intro c c' h
  rw [registers, registers, h.registers]
  exact .ok _ h

theorem respects_update (f : Registers → Registers) : Respects devices R (update f) :=
  fun _ _ h => .ok () ⟨congrArg f h.registers, h.bus, h.accesses⟩

theorem respects_notice (n : Notice) : Respects devices R (notice n) := by
  intro c c' h
  refine .ok () ⟨h.registers, h.bus, fun hd => ?_⟩
  have hbefore : c.notices.filterMap Notice.access? = c'.notices.filterMap Notice.access? :=
    h.accesses hd
  simp only [Core.accesses, List.filterMap_append, hbefore]

theorem respects_trap (t : Trap) : Respects devices R (trap t : Exec α) := parallel_trap t

section
variable (hR : Bus.Congruence devices R)
include hR

theorem respects_readByte (a : Word) : Respects devices R (readByte a) := by
  intro c c' h
  rw [readByte, readByte, hR.read h.bus]
  cases c'.bus.read a with
  | ok v =>
    have hheard (hd : devices) :
        (c.hear (c.bus.onRead a)).accesses = (c'.hear (c'.bus.onRead a)).accesses := by
      rw [Core.accesses_hear, Core.accesses_hear, h.accesses hd, hR.onRead h.bus hd]
    exact .ok v ⟨h.registers, h.bus, hheard⟩
  | error e => exact .error _ h

theorem respects_writeByte (a : Word) (v : Byte) : Respects devices R (writeByte a v) := by
  intro c c' h
  rw [writeByte, writeByte, Bus.writeRefusal?_eq, Bus.writeRefusal?_eq, hR.isMapped h.bus]
  cases c'.bus.isMapped a with
  | false => exact .error _ h
  | true =>
    have hheard (hd : devices) :
        (c.hear (c.bus.onWrite a v)).accesses = (c'.hear (c'.bus.onWrite a v)).accesses := by
      rw [Core.accesses_hear, Core.accesses_hear, h.accesses hd, hR.onWrite h.bus hd]
    exact .ok () ⟨h.registers, hR.put h.bus a v, hheard⟩

theorem respects_readWord (a : Word) : Respects devices R (readWord a) :=
  respects_bind (respects_readByte hR a) fun _ => respects_bind (respects_readByte hR _) fun _ =>
    respects_pure _

theorem respects_push (v : Byte) : Respects devices R (push v) :=
  respects_bind respects_registers fun _ => respects_bind (respects_writeByte hR _ v) fun _ =>
    respects_update _

theorem respects_pull : Respects devices R pull :=
  respects_bind (respects_update _) fun _ => respects_bind respects_registers fun _ =>
    respects_readByte hR _

theorem respects_pushWord (w : Word) : Respects devices R (pushWord w) :=
  respects_bind (respects_push hR _) fun _ => respects_push hR _

theorem respects_pullWord : Respects devices R pullWord :=
  respects_bind (respects_pull hR) fun _ => respects_bind (respects_pull hR) fun _ =>
    respects_pure _

theorem respects_resolve (t : Target) : Respects devices R (resolve t) := by
  cases t with
  | direct a => exact respects_pure a
  | indirect pointer index =>
    exact respects_bind (respects_readWord hR pointer) fun _ => respects_pure _
  | outsideZeroPage pointer => exact respects_trap _
  | absent => exact respects_trap _

theorem respects_effectiveAddress (i : Instruction) : Respects devices R (effectiveAddress i) :=
  respects_bind respects_registers fun _ => respects_resolve hR _

theorem respects_operand (i : Instruction) : Respects devices R (operand i) := by
  unfold operand
  split
  · exact respects_pure _
  · exact respects_bind respects_registers fun _ => respects_pure _
  · exact respects_bind (respects_effectiveAddress hR i) fun _ => respects_readByte hR _

theorem respects_store (i : Instruction) (value : Registers → Byte) :
    Respects devices R (store i value) :=
  respects_bind (respects_effectiveAddress hR i) fun _ => respects_bind respects_registers fun _ =>
    respects_writeByte hR _ _

theorem respects_maskBits (i : Instruction) (set : Bool) : Respects devices R (maskBits i set) :=
  respects_bind (respects_effectiveAddress hR i) fun _ =>
    respects_bind (respects_readByte hR _) fun _ => respects_bind (respects_update _) fun _ =>
      respects_bind respects_registers fun _ => respects_writeByte hR _ _

theorem respects_modifyByte (i : Instruction) (k : Change) :
    Respects devices R (modifyByte i k) := by
  refine respects_bind respects_registers fun _ => respects_ite ?_ ?_
  · exact respects_bind (respects_update _) fun _ => respects_update _
  · exact respects_bind (respects_effectiveAddress hR i) fun _ =>
      respects_bind (respects_readByte hR _) fun _ => respects_bind (respects_update _) fun _ =>
        respects_bind (respects_writeByte hR _ _) fun _ => respects_update _

theorem respects_jump (i : Instruction) : Respects devices R (jump i) :=
  respects_bind (respects_effectiveAddress hR i) fun _ => respects_update _

theorem respects_softwareInterrupt (i : Instruction) :
    Respects devices R (softwareInterrupt i) :=
  respects_bind respects_registers fun _ => respects_bind (respects_pushWord hR _) fun _ =>
    respects_bind respects_registers fun _ => respects_bind (respects_push hR _) fun _ =>
      respects_bind (respects_update _) fun _ => respects_bind (respects_readWord hR _) fun _ =>
        respects_bind (respects_update _) fun _ => respects_notice _

theorem respects_act (i : Instruction) (a : Action) : Respects devices R (act i a) := by
  cases a with
  | load _ | combine _ | compare _ =>
    exact respects_bind (respects_operand hR i) fun _ => respects_update _
  | testBits =>
    exact respects_bind (respects_operand hR i) fun _ => respects_bind (respects_update _) fun _ =>
      respects_ite (respects_update _) (respects_pure _)
  | store _ | storeZero => exact respects_store hR i _
  | mask set => exact respects_maskBits hR i set
  | modify k => exact respects_modifyByte hR i k
  | branch _ _ =>
    exact respects_bind respects_registers fun _ =>
      respects_ite (respects_jump hR i) (respects_pure _)
  | branchAlways | jump => exact respects_jump hR i
  | call =>
    exact respects_bind respects_registers fun _ => respects_bind (respects_pushWord hR _) fun _ =>
      respects_update _
  | leave => exact respects_bind (respects_pullWord hR) fun _ => respects_update _
  | softwareInterrupt => exact respects_softwareInterrupt hR i
  | leaveInterrupt =>
    exact respects_bind (respects_pull hR) fun _ => respects_bind (respects_update _) fun _ =>
      respects_bind (respects_pullWord hR) fun _ => respects_update _
  | push _ | pushStatus => exact respects_bind respects_registers fun _ => respects_push hR _
  | pull _ | pullStatus => exact respects_bind (respects_pull hR) fun _ => respects_update _
  | count _ _ | transfer _ _ | readStackPointer | setStackPointer | assign _ _ =>
    simp only [act]
    exact respects_update _
  | idle | halt => exact respects_pure _

theorem respects_run (i : Instruction) : Respects devices R (run i) :=
  respects_bind (respects_update _) fun _ => respects_act hR i _

end
end Exec
end Mos6502

import Mos6502.Proofs.Accounting
import Mos6502.Proofs.Encoding
import Mos6502.Proofs.MonitorChains
import Mos6502.Proofs.TextParts

/-! What a trace tells. In a line of a trace every register has its own place and width, every flag
a letter, and the words for an instruction are kept apart by blanks, so no two instructions before
no two register files are written alike. Lines end with what no line has in it. So the text that a
tracer leaves tells every instruction that was about to run, and every register and flag before it.
-/
namespace Mos6502

theorem Status.letters_injective : Function.Injective letters := by
  have hletter {c : Char} (hc : c ≠ '-') {a b : Bool}
      (h : (if a then c else '-') = if b then c else '-') : a = b := by
    cases a <;> cases b <;> simp_all [eq_comm]
  intro s s' h
  simp only [letters, List.cons.injEq, and_true] at h
  obtain ⟨hn, hv, hu, hb, hd, hi, hz, hc⟩ := h
  obtain ⟨_, _, _, _, _, _, _, _⟩ := s
  rw [Status.mk.injEq]
  exact ⟨hletter (by decide) hn, hletter (by decide) hv, hletter (by decide) hu,
    hletter (by decide) hb, hletter (by decide) hd, hletter (by decide) hi,
    hletter (by decide) hz, hletter (by decide) hc⟩

namespace Registers

theorem toList_text (r : Registers) :
    r.text.toList = "CPU PC:0x".toList ++ (Text.hexWordDigits r.pc ++ (" AC:0x".toList ++
      (Text.hexByteDigits r.a ++ (" X:0x".toList ++ (Text.hexByteDigits r.x ++ (" Y:0x".toList ++
      (Text.hexByteDigits r.y ++ (" SP:0x".toList ++ (Text.hexByteDigits r.sp ++ (" SR:".toList ++
      r.status.letters)))))))))) := by
  unfold text Status.text
  simp only [String.toList_append, Text.toList_hexByte, Text.toList_hexWord, String.toList_ofList,
    List.append_assoc]

theorem isDelimited_text : Text.IsDelimited fun r : Registers => r.text.toList := by
  intro r r' rest rest' h
  simp only [toList_text, List.append_assoc] at h
  have hletters : Text.IsDelimited Status.letters :=
    .of_length (n := 8) (fun _ => rfl) Status.letters_injective
  obtain ⟨hpc, h⟩ := Text.isDelimited_hexWordDigits _ _ _ _ (List.append_cancel_left h)
  obtain ⟨ha, h⟩ := Text.isDelimited_hexByteDigits _ _ _ _ (List.append_cancel_left h)
  obtain ⟨hx, h⟩ := Text.isDelimited_hexByteDigits _ _ _ _ (List.append_cancel_left h)
  obtain ⟨hy, h⟩ := Text.isDelimited_hexByteDigits _ _ _ _ (List.append_cancel_left h)
  obtain ⟨hsp, h⟩ := Text.isDelimited_hexByteDigits _ _ _ _ (List.append_cancel_left h)
  obtain ⟨hstatus, hrest⟩ := hletters _ _ _ _ (List.append_cancel_left h)
  obtain ⟨_, _, _, _, _, _⟩ := r
  exact ⟨Registers.mk.injEq .. ▸ ⟨hpc, ha, hx, hy, hsp, hstatus⟩, hrest⟩

end Registers

theorem Mnemonic.name_injective : Function.Injective name := fun m m' h =>
  have hnames : (all.map name).Nodup := by decide +kernel
  List.inj_on_of_nodup_map hnames m.mem_all m'.mem_all h

theorem AddressingMode.name_injective : Function.Injective name := by
  intro m m' h
  cases m <;> cases m' <;> first | rfl | exact absurd h (by decide)

/-- An opcode is found by its mode and its mnemonic. -/
theorem Opcode.find?_eq_of_mem : ∀ o ∈ table,
    (table.find? fun p => p.mode == o.mode && p.mnemonic == o.mnemonic) = some o := by
  decide +kernel

namespace Instruction

theorem toList_text (i : Instruction) :
    i.text.toList =
      i.mnemonic.name.toList ++ ' ' :: (i.mode.name.toList ++ i.operand.text.toList) := by
  simp [text, Opcode.text, mnemonic, mode]

end Instruction

namespace Operand

theorem toList_text : ∀ o : Operand, o.text.toList =
    match o with
    | .none => []
    | .byte b => ' ' :: '$' :: Text.hexByteDigits b
    | .word w => ' ' :: '$' :: Text.hexWordDigits w
  | .none => rfl
  | .byte b => by simp [text]
  | .word w => by simp [text]

theorem text_injective : Function.Injective text := by
  intro o o' h
  have hlist := congrArg String.toList h
  rw [toList_text, toList_text] at hlist
  have hlength := congrArg List.length hlist
  cases o with
  | none =>
    cases o' with
    | none => rfl
    | _ => cases hlist
  | byte b =>
    cases o' with
    | none => cases hlist
    | byte b' =>
      simp only [List.cons.injEq, true_and] at hlist
      rw [Text.isDelimited_hexByteDigits.injective hlist]
    | word w' => exact absurd hlength (by simp [Text.hexByteDigits, Text.hexWordDigits])
  | word w =>
    cases o' with
    | none => cases hlist
    | byte b' => exact absurd hlength (by simp [Text.hexByteDigits, Text.hexWordDigits])
    | word w' =>
      simp only [List.cons.injEq, true_and] at hlist
      rw [Text.isDelimited_hexWordDigits.injective hlist]

/-- With a blank behind it the text of an operand begins with a blank, if there is an operand or
not. -/
theorem exists_toList_text (o : Operand) : ∃ rest, o.text.toList ++ [' '] = ' ' :: rest := by
  rw [toList_text]
  cases o <;> exact ⟨_, rfl⟩

end Operand

namespace Instruction
variable {i i' : Instruction}

/-- The blanks tell mnemonic, mode and operand apart. -/
theorem eq_of_text (h : i.opcode ∈ Opcode.table) (h' : i'.opcode ∈ Opcode.table)
    (htext : i.text = i'.text) : i.opcode = i'.opcode ∧ i.operand = i'.operand := by
  have hmnemonicBlank (m : Mnemonic) : ' ' ∉ m.name.toList := by cases m <;> decide
  have hmodeBlank (m : AddressingMode) : ' ' ∉ m.name.toList := by cases m <;> decide
  have hlist := congrArg String.toList htext
  rw [toList_text, toList_text] at hlist
  obtain ⟨hmnemonic, hlater⟩ := Text.stop_unique (hmnemonicBlank _) (hmnemonicBlank _) hlist
  obtain ⟨rest, hrest⟩ := i.operand.exists_toList_text
  obtain ⟨rest', hrest'⟩ := i'.operand.exists_toList_text
  have hblank := congrArg (· ++ [' ']) hlater
  simp only [List.append_assoc, hrest, hrest'] at hblank
  obtain ⟨hmode, rfl⟩ := Text.stop_unique (hmodeBlank _) (hmodeBlank _) hblank
  have hopcode : some i.opcode = some i'.opcode := by
    have hm := Mnemonic.name_injective (String.toList_inj.1 hmnemonic)
    have hm' := AddressingMode.name_injective (String.toList_inj.1 hmode)
    rw [← Opcode.find?_eq_of_mem _ h, ← Opcode.find?_eq_of_mem _ h']
    simp only [mnemonic, mode] at hm hm'
    rw [hm, hm']
  have hoperand := List.append_cancel_right (hrest.trans hrest'.symm)
  exact ⟨Option.some.inj hopcode, Operand.text_injective (String.toList_inj.1 hoperand)⟩

end Instruction

theorem toList_traceLine (r : Registers) (i : Instruction) :
    (traceLine r i).toList = r.text.toList ++ (' ' :: ' ' :: i.text.toList) := by
  simp [traceLine]

theorem eq_of_traceLine {r r' : Registers} {i i' : Instruction} (h : i.opcode ∈ Opcode.table)
    (h' : i'.opcode ∈ Opcode.table) (hline : traceLine r i = traceLine r' i') :
    r = r' ∧ i.opcode = i'.opcode ∧ i.operand = i'.operand := by
  have hlist := congrArg String.toList hline
  rw [toList_traceLine, toList_traceLine] at hlist
  obtain ⟨hregisters, hrest⟩ := Registers.isDelimited_text _ _ _ _ hlist
  simp only [List.cons.injEq, true_and] at hrest
  exact ⟨hregisters, Instruction.eq_of_text h h' (String.toList_inj.1 hrest)⟩

theorem notMem_traceLine (r : Registers) (i : Instruction) : '\n' ∉ (traceLine r i).toList := by
  have hbyte (b : Byte) : '\n' ∉ Text.hexByteDigits b := Text.notMem_hexByteDigits (by decide) b
  have hword (w : Word) : '\n' ∉ Text.hexWordDigits w := Text.notMem_hexWordDigits (by decide) w
  have hmnemonic (m : Mnemonic) : '\n' ∉ m.name.toList := by cases m <;> decide
  have hmode (m : AddressingMode) : '\n' ∉ m.name.toList := by cases m <;> decide
  have hletters : '\n' ∉ r.status.letters := by
    obtain ⟨n, v, u, b, d, i, z, c⟩ := r.status
    revert n v u b d i z c
    decide
  have hoperand : '\n' ∉ i.operand.text.toList := by
    rw [Operand.toList_text]
    cases i.operand <;> simp [hbyte, hword]
  rw [toList_traceLine, Registers.toList_text, Instruction.toList_text]
  simp [hbyte, hword, hmnemonic, hmode, hletters, hoperand]

def Event.traced : Event → List Char
  | .trace r i => (traceLine r i).toList ++ ['\n']
  | _ => []

theorem Machine.traced_told (m : Machine) :
    ((Monitor.tracer .working).told (m.aboutToRun?.map .about)).1.flatMap Event.traced =
      m.aboutToRun?.toList.flatMap fun o =>
        (traceLine o.registers o.instruction).toList ++ ['\n'] := by
  cases m.aboutToRun? with
  | none => rfl
  | some o => simp [Monitor.told, Monitor.observe, Event.traced]

namespace Moment
variable {v : Moment}

/-- The instruction that a move begins, if it begins one, behind the registers it finds. -/
def begins? (v : Moment) : Option (Registers × Instruction) :=
  if v.steps then v.before.machine.aboutToRun?.map fun o => (o.registers, o.instruction) else none

theorem signal?_of_not_steps (h : v.steps = false) :
    v.signal? = none ∨ ∃ now, v.signal? = some (.ended now) := by
  obtain ⟨⟨m, phase⟩, r | _⟩ := v
  · cases r with
    | step =>
      have hidle : phase.isIdle = false := h
      exact .inl (by simp [signal?, hidle])
    | shutdown now =>
      cases hidle : phase.isIdle with
      | true => exact .inr ⟨now, by simp [signal?, hidle, Machine.signal?]⟩
      | false => exact .inl (by simp [signal?, hidle])
    | _ => exact .inl (by cases phase <;> rfl)
  · have hstepping : phase.isStepping = false := h
    exact .inl (by simp [signal?, hstepping])

theorem traced_shown (h : v.before.machine.monitor = some (.tracer .working)) :
    v.shown.flatMap Event.traced =
      v.begins?.toList.flatMap fun x => (traceLine x.1 x.2).toList ++ ['\n'] := by
  have hshown : v.shown = ((Monitor.tracer .working).told v.signal?).1 := by
    simp [shown, Audience.shown, Machine.audience, h]
  rw [hshown]
  cases hsteps : v.steps with
  | true =>
    rw [signal?_of_steps hsteps, Machine.traced_told, begins?, if_pos hsteps]
    cases v.before.machine.aboutToRun? <;> simp
  | false =>
    rw [begins?, if_neg (by simp [hsteps])]
    obtain hnone | ⟨now, hended⟩ := signal?_of_not_steps hsteps
    · rw [hnone]
      rfl
    · rw [hended]
      rfl

end Moment

namespace Session

def trace (s : Session) (moves : List Move) : String :=
  String.ofList (((s.history moves).flatMap (·.shown)).flatMap Event.traced)

/-- The instructions that are begun in a session, each behind the registers it finds. -/
def begun (s : Session) (moves : List Move) : List (Registers × Instruction) :=
  (s.history moves).filterMap (·.begins?)

def IsTraced (s : Session) : Prop := s.machine.monitor = some (.tracer .working)

variable {s : Session}

theorem IsTraced.make (h : s.IsTraced) {move : Move} (hkeeps : move.keepsMonitor = true) :
    (s.make move).2.IsTraced := by
  have htold (signal : Option Signal) :
      ((Monitor.tracer .working).told signal).2 = .tracer .working := by
    obtain _ | _ | _ := signal <;> rfl
  have hone : ∀ other ∈ [move], other.keepsMonitor = true := by simpa using hkeeps
  have hmonitor := s.monitor_followedBy hone
  rw [h] at hmonitor
  exact hmonitor.trans (congrArg some (htold _))

theorem IsTraced.trace_eq {moves : List Move} (h : s.IsTraced)
    (hkeeps : ∀ move ∈ moves, move.keepsMonitor = true) :
    (s.trace moves).toList =
      (s.begun moves).flatMap fun x => (traceLine x.1 x.2).toList ++ ['\n'] := by
  rw [trace, begun, String.toList_ofList]
  induction moves generalizing s with
  | nil => rfl
  | cons move rest ih =>
    obtain ⟨hmove, hrest⟩ := List.forall_mem_cons.1 hkeeps
    have hlater := ih (h.make hmove) hrest
    rw [history_cons, List.flatMap_cons, List.flatMap_append,
      Moment.traced_shown (v := ⟨s, move⟩) h, List.filterMap_cons, Moment.after, hlater]
    cases Moment.begins? ⟨s, move⟩ <;> simp

theorem of_mem_begun {moves : List Move} {x : Registers × Instruction} (h : x ∈ s.begun moves) :
    x.2.opcode ∈ Opcode.table ∧ x.2.address = x.1.pc := by
  obtain ⟨v, -, hv⟩ := List.mem_filterMap.1 h
  unfold Moment.begins? Machine.aboutToRun? at hv
  split at hv
  · split at hv
    · rename_i i hdecode
      obtain rfl := Option.some.inj hv
      exact ⟨(Instruction.decode_eq_ok_iff.1 hdecode).2.1, Instruction.address_of_decode hdecode⟩
    · exact nomatch hv
  · exact nomatch hv

theorem eq_of_mem_begun {s' : Session} {moves moves' : List Move}
    {x x' : Registers × Instruction} (hx : x ∈ s.begun moves) (hx' : x' ∈ s'.begun moves')
    (hline : traceLine x.1 x.2 = traceLine x'.1 x'.2) : x = x' := by
  obtain ⟨r, a, o, operand⟩ := x
  obtain ⟨r', a', o', operand'⟩ := x'
  obtain ⟨ho, ha⟩ := of_mem_begun hx
  obtain ⟨ho', ha'⟩ := of_mem_begun hx'
  obtain ⟨rfl, rfl, rfl⟩ := eq_of_traceLine ho ho' hline
  obtain rfl : a = a' := ha.trans ha'.symm
  rfl

/-- A line of a trace tells all registers and flags, the opcode and the operand. So the trace of a
session, whatever runs it consists of, tells all instructions begun in it, and the registers that
they have found. -/
theorem trace_tells :
    (∀ (r r' : Registers) (i i' : Instruction), i.opcode ∈ Opcode.table →
      i'.opcode ∈ Opcode.table → traceLine r i = traceLine r' i' →
      r = r' ∧ i.opcode = i'.opcode ∧ i.operand = i'.operand) ∧
    ∀ (s s' : Session) (moves moves' : List Move), s.IsTraced → s'.IsTraced →
      (∀ move ∈ moves, move.keepsMonitor = true) → (∀ move ∈ moves', move.keepsMonitor = true) →
      s.trace moves = s'.trace moves' → s.begun moves = s'.begun moves' := by
  refine ⟨fun r r' i i' => eq_of_traceLine,
    fun s s' moves moves' hs hs' hkeeps hkeeps' htrace => ?_⟩
  have hends (xs : List (Registers × Instruction)) :
      ∀ part ∈ xs.map fun x => (traceLine x.1 x.2).toList, '\n' ∉ part := by
    rintro part hpart
    obtain ⟨x, -, rfl⟩ := List.mem_map.1 hpart
    exact notMem_traceLine x.1 x.2
  have hlines : ((s.begun moves).map fun x => (traceLine x.1 x.2).toList) =
      (s'.begun moves').map fun x => (traceLine x.1 x.2).toList := by
    refine Text.lines_unique (hends _) (hends _) ?_
    have hlist := congrArg String.toList htrace
    rw [hs.trace_eq hkeeps, hs'.trace_eq hkeeps'] at hlist
    simpa only [List.flatMap_map] using hlist
  have hlength := congrArg List.length hlines
  simp only [List.length_map] at hlength
  refine List.ext_getElem hlength fun k hk hk' => ?_
  have hline := List.getElem_of_eq hlines (by simpa using hk)
  simp only [List.getElem_map] at hline
  exact eq_of_mem_begun (List.getElem_mem hk) (List.getElem_mem hk') (String.toList_inj.1 hline)

def countingApart : Machine where
  registers := { pc := 0x0200, x := 6 }
  bus := ⟨[⟨"halt", 0x0201, .rom "halt" #[0xFF], by simp [Backend.size], by simp [Backend.size]⟩,
    ⟨"count", 0x0200, .ram #[0xE8, 0x00], by simp [Backend.size], by simp [Backend.size]⟩]⟩

def countingEvents : List Event :=
  [.trace { pc := 0x0200, x := 6 } increment,
    .trace { pc := 0x0201, x := 7 } ⟨0x0201, ⟨0xFF, .halt, .implied, 1⟩, .none⟩]

set_option maxRecDepth 4000 in
theorem shown_counting :
    ((watchedBy ⟨Machine.counting, .idle⟩ (.tracer .working)).history
      [.ask .step, .ask .step]).flatMap (·.shown) = countingEvents := rfl

set_option maxRecDepth 4000 in
theorem shown_countingApart :
    ((watchedBy ⟨countingApart, .idle⟩ (.tracer .working)).history
      [.ask .run, .proceed, .proceed, .proceed, .proceed, .proceed]).flatMap (·.shown) =
        countingEvents := rfl

/-- The program in one step after the other, and run in two pieces; and lines that differ in one flag
of the registers. -/
theorem trace_tells_counting :
    let s := watchedBy ⟨Machine.counting, .idle⟩ (.tracer .working)
    let s' := watchedBy ⟨countingApart, .idle⟩ (.tracer .working)
    let moves := [.ask .step, .ask .step]
    let moves' := [.ask .run, .proceed, .proceed, .proceed, .proceed, .proceed]
    (s.trace moves = s'.trace moves' ∧ s.begun moves = s'.begun moves') ∧
      traceLine { status := .ofByte 0x08 } increment ≠ traceLine {} increment := by
  intro s s' moves moves'
  have htrace : s.trace moves = s'.trace moves' := by
    rw [trace, trace, shown_counting, shown_countingApart]
  refine ⟨⟨htrace, trace_tells.2 s s' moves moves' rfl rfl (by decide) (by decide) htrace⟩, ?_⟩
  intro hline
  have hsame := (trace_tells.1 _ _ increment increment (by decide) (by decide) hline).1
  exact absurd hsame (by decide)

end Session
end Mos6502

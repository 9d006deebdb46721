import Mos6502.Proofs.StepCases

/-! The two run loops. A bounded run can be cut in two wherever one likes, and the unbounded one ends
as the bounded ones do whose bound is high enough. Both rest on what a look for a reason to stop
can find: an exit code, which stays; an interrupt, which becomes one; or nothing. -/
namespace Mos6502.Machine
variable {m m' : Machine} {code : Byte}

/-- All that a look for a reason to stop can come to. -/
theorem poll_cases (m : Machine) :
    (∃ code, m.exitCode = some code ∧ m.poll = (some code, m)) ∨
      (m.exitCode = none ∧ m.interrupted = true ∧ m.poll = (some interruptExitCode, m.serve)) ∨
      (m.exitCode = none ∧ m.interrupted = false ∧ m.poll = (none, m)) := by
  unfold poll
  cases hcode : m.exitCode with
  | some code => exact .inl ⟨code, rfl, rfl⟩
  | none => cases hint : m.interrupted <;> simp

theorem poll_stops_or_not (m : Machine) :
    (∃ code m', m.poll = (some code, m')) ∨ m.poll = (none, m) := by
  obtain ⟨code, -, hp⟩ | ⟨-, -, hp⟩ | ⟨-, -, hp⟩ := m.poll_cases
  · exact .inl ⟨code, m, hp⟩
  · exact .inl ⟨_, _, hp⟩
  · exact .inr hp

theorem poll_of_exitCode (h : m.exitCode = some code) : m.poll = (some code, m) := by
  rw [poll, h]

@[simp] theorem exitCode_serve (m : Machine) : m.serve.exitCode = some interruptExitCode := rfl

theorem exitCode_of_poll (h : m.poll = (some code, m')) : m'.exitCode = some code := by
  obtain ⟨old, hold, hp⟩ | ⟨-, -, hp⟩ | ⟨-, -, hp⟩ := m.poll_cases
  · obtain ⟨hcode, rfl⟩ := Prod.mk.inj (hp.symm.trans h)
    exact hold.trans hcode
  · obtain ⟨hcode, rfl⟩ := Prod.mk.inj (hp.symm.trans h)
    exact (exitCode_serve m).trans hcode
  · simp [hp] at h

theorem runFor_of_poll (h : m.poll = (some code, m')) (n : Nat) : runFor n m = .ok (some code) m' := by
  cases n <;> simp only [runFor, h]

theorem runFor_of_exitCode (h : m.exitCode = some code) (n : Nat) : runFor n m = .ok (some code) m :=
  runFor_of_poll (poll_of_exitCode h) n

theorem runFor_zero_of_poll_none (h : m.poll = (none, m)) : runFor 0 m = .ok none m := by
  simp only [runFor, h]

theorem runFor_succ_of_poll_none (h : m.poll = (none, m)) (n : Nat) :
    runFor (n + 1) m =
      match m.step with
      | .ok _ next => runFor n next
      | .error f next => .error f next := by
  cases hs : m.step <;> simp only [runFor, h, hs]

theorem exitCode_of_runFor {n : Nat} (h : runFor n m = .ok (some code) m') :
    m'.exitCode = some code := by
  induction n generalizing m with
  | zero =>
    simp only [runFor, EStateM.Result.ok.injEq] at h
    exact exitCode_of_poll (Prod.ext h.1 h.2)
  | succ n ih =>
    obtain ⟨old, polled, hp⟩ | hp := m.poll_stops_or_not
    · rw [runFor_of_poll hp] at h
      obtain ⟨hcode, rfl⟩ := EStateM.Result.ok.inj h
      exact (exitCode_of_poll hp).trans hcode
    · rw [runFor_succ_of_poll_none hp] at h
      cases hs : m.step with
      | ok v next => exact ih (by simpa only [hs] using h)
      | error f next => simp [hs] at h

/-- A run can be cut in two: the second part starts where the first has come to, unless that is a
fault. -/
theorem runFor_cut (m : Machine) (a b : Nat) :
    runFor (a + b) m =
      match runFor a m with
      | .ok _ between => runFor b between
      | .error f between => .error f between := by
  induction a generalizing m with
  | zero =>
    obtain ⟨code, polled, hp⟩ | hp := m.poll_stops_or_not
    · simp only [runFor_of_poll hp, runFor_of_exitCode (exitCode_of_poll hp)]
    · simp only [runFor_zero_of_poll_none hp, Nat.zero_add]
  | succ a ih =>
    obtain ⟨code, polled, hp⟩ | hp := m.poll_stops_or_not
    · simp only [runFor_of_poll hp, runFor_of_exitCode (exitCode_of_poll hp)]
    · rw [Nat.add_right_comm, runFor_succ_of_poll_none hp, runFor_succ_of_poll_none hp]
      cases m.step with
      | ok v next => exact ih next
      | error f next => rfl

/-- A path can grow at its front too. -/
theorem Path.cons {i : Instruction} {next : Machine} {past : List (Machine × Instruction)}
    (hfirst : m.Does i next) (h : Path next past m') : Path m ((m, i) :: past) m' := by
  induction h with
  | refl => exact .snoc .refl hfirst
  | snoc _ hlast ih => exact .snoc ih hlast

theorem Does.instructions {i : Instruction} (h : m.Does i m') :
    m'.instructions = m.instructions + 1 := by
  obtain ⟨j, c, -, -, -, rfl⟩ := step_ok_cases h.stepped
  obtain ⟨channel, journal, hm⟩ := m.finish_eq j c
  rw [hm]

theorem Path.instructions {past : List (Machine × Instruction)} (h : Path m past m') :
    m'.instructions = m.instructions + past.length := by
  induction h with
  | refl => rfl
  | snoc _ hlast ih =>
    rw [hlast.instructions, ih, List.length_append, List.length_singleton, Nat.add_assoc]

theorem path_of_runFor {n : Nat} (h : runFor n m = .ok none m') :
    ∃ past, Path m past m' ∧ past.length = n := by
  induction n generalizing m with
  | zero =>
    obtain ⟨code, polled, hp⟩ | hp := m.poll_stops_or_not
    · simp [runFor_of_poll hp] at h
    · rw [runFor_zero_of_poll_none hp] at h
      obtain ⟨-, rfl⟩ := EStateM.Result.ok.inj h
      exact ⟨[], .refl, rfl⟩
  | succ n ih =>
    obtain ⟨code, polled, hp⟩ | hp := m.poll_stops_or_not
    · simp [runFor_of_poll hp] at h
    · rw [runFor_succ_of_poll_none hp] at h
      cases hs : m.step with
      | error f next => simp [hs] at h
      | ok v next =>
        obtain ⟨past, hpath, hlength⟩ := ih (m := next) (by simpa only [hs] using h)
        obtain ⟨i, hdoes⟩ := exists_does_of_step hs
        exact ⟨(m, i) :: past, .cons hdoes hpath, by rw [List.length_cons, hlength]⟩

theorem run?_of_poll (h : m.poll = (some code, m')) : m.run? = some (.ok code m') := by
  rw [run?, h]

theorem run?_of_poll_none (h : m.poll = (none, m)) :
    m.run? =
      match m.step with
      | .ok _ next => next.run?
      | .error f next => some (.error f next) := by
  refine (run?.eq_def m).trans ?_
  cases hs : m.step <;> simp only [h, hs]

section
variable {ended : Outcome Fault Byte} {n : Nat}

theorem eq_ok_of_runFor_of_poll (h : runFor n m = ended.stopped) (hp : m.poll = (some code, m')) :
    ended = .ok code m' := by
  rw [runFor_of_poll hp, eq_comm] at h
  exact Outcome.stopped_eq_ok_some_iff.1 h

/-- A higher bound comes to the same end. -/
theorem runFor_mono (h : runFor n m = ended.stopped) {k : Nat} (hk : n ≤ k) :
    runFor k m = ended.stopped := by
  obtain ⟨more, rfl⟩ := Nat.exists_eq_add_of_le hk
  rw [runFor_cut, h]
  cases ended with
  | ok code m' => exact runFor_of_exitCode (exitCode_of_runFor h) more
  | error f m' => rfl

theorem run?_of_runFor (h : runFor n m = ended.stopped) : m.run? = some ended := by
  induction n generalizing m with
  | zero =>
    obtain ⟨code, polled, hp⟩ | hp := m.poll_stops_or_not
    · rw [run?_of_poll hp, eq_ok_of_runFor_of_poll h hp]
    · rw [runFor_zero_of_poll_none hp] at h
      exact absurd h.symm Outcome.stopped_ne_ok_none
  | succ n ih =>
    obtain ⟨code, polled, hp⟩ | hp := m.poll_stops_or_not
    · rw [run?_of_poll hp, eq_ok_of_runFor_of_poll h hp]
    · rw [runFor_succ_of_poll_none hp] at h
      rw [run?_of_poll_none hp]
      cases hs : m.step with
      | ok v next => exact ih (by simpa only [hs] using h)
      | error f next =>
        rw [hs] at h
        rw [Outcome.stopped_eq_error_iff.1 h.symm]

/-- An unbounded run that ends comes to the end of a bounded one. -/
theorem exists_runFor_of_run? (h : m.run? = some ended) : ∃ n, runFor n m = ended.stopped := by
  refine run?.partial_correctness (fun m ended => ∃ n, runFor n m = ended.stopped) ?_ m ended h
  intro loop ih m ended hbody
  obtain ⟨code, polled, hp⟩ | hp := m.poll_stops_or_not
  · simp only [hp, Option.some.injEq] at hbody
    exact ⟨0, by rw [runFor_of_poll hp, ← hbody]; rfl⟩
  · simp only [hp] at hbody
    cases hs : m.step with
    | ok v next =>
      simp only [hs] at hbody
      obtain ⟨n, hn⟩ := ih next ended hbody
      exact ⟨n + 1, by rw [runFor_succ_of_poll_none hp, hs]; exact hn⟩
    | error f next =>
      simp only [hs, Option.some.injEq] at hbody
      exact ⟨1, by rw [runFor_succ_of_poll_none hp, hs, ← hbody]; rfl⟩

theorem run?_eq_some_iff : m.run? = some ended ↔ ∃ n, runFor n m = ended.stopped :=
  ⟨exists_runFor_of_run?, fun ⟨_, h⟩ => run?_of_runFor h⟩

end

theorem run_eq_stopped_iff {ended : Outcome Fault Byte} :
    m.run = ended.stopped ↔ m.run? = some ended := by
  unfold run
  cases m.run? with
  | none => simpa using Outcome.stopped_ne_ok_none.symm
  | some other => exact ⟨fun h => congrArg some (Outcome.stopped_injective h), fun h => by cases h; rfl⟩

/-- A run that never stops leaves the machine alone. -/
theorem run_of_never (h : ¬∃ n, ∃ ended : Outcome Fault Byte, runFor n m = ended.stopped) :
    m.run = .ok none m := by
  unfold run
  cases hrun : m.run? with
  | none => rfl
  | some ended =>
    obtain ⟨n, hn⟩ := exists_runFor_of_run? hrun
    exact absurd ⟨n, ended, hn⟩ h

theorem run_cases (m : Machine) : (∃ n, m.run = runFor n m) ∨ m.run = .ok none m := by
  by_cases h : ∃ n, ∃ ended : Outcome Fault Byte, runFor n m = ended.stopped
  · obtain ⟨n, ended, hn⟩ := h
    exact .inl ⟨n, by rw [hn, run_eq_stopped_iff.2 (run?_of_runFor hn)]⟩
  · exact .inr (run_of_never h)

/-- A run of `a + b` instructions is one of `a` instructions and behind it, unless that faults, one of
`b` instructions: it ends with the same code or fault, and in the same machine, which has let the
same be seen. A machine that has stopped, because its program has halted or because an interrupt
has been served, stays as it is, and returns the same code again. -/
theorem runFor_add (m : Machine) (a b : Nat) :
    (runFor (a + b) m =
      match runFor a m with
      | .ok _ between => runFor b between
      | .error f between => .error f between) ∧
      (∀ code between, runFor a m = .ok (some code) between →
        runFor b between = .ok (some code) between ∧ between.run = .ok (some code) between) ∧
      ∀ code, m.exitCode = some code →
        runFor b m = .ok (some code) m ∧ m.run = .ok (some code) m := by
  have hstays (m : Machine) (code : Byte) (h : m.exitCode = some code) :
      runFor b m = .ok (some code) m ∧ m.run = .ok (some code) m := by
    refine ⟨runFor_of_exitCode h b, ?_⟩
    rw [run, run?_of_poll (poll_of_exitCode h)]
    rfl
  exact ⟨runFor_cut m a b, fun code between h => hstays between code (exitCode_of_runFor h), hstays m⟩

/-- A program that halts after one more instruction. -/
def counting : Machine where
  registers := { pc := 0x0200, x := 6 }
  bus := ⟨[⟨"program", 0x0200, .ram #[0xE8, 0xFF], by simp [Backend.size], by simp [Backend.size]⟩]⟩

def counted : Machine :=
  { counting with
    registers := { pc := 0x0202, x := 7 }
    cycles := 3
    instructions := 2
    exitCode := some 7 }

set_option maxRecDepth 2000 in
theorem runFor_counting : runFor 2 counting = .ok (some 7) counted := rfl

theorem runFor_add_counting :
    runFor 2 counting = .ok (some 7) counted ∧ runFor 5 counted = .ok (some 7) counted ∧
      runFor (2 + 5) counting = .ok (some 7) counted := by
  obtain ⟨hcut, hstays, -⟩ := runFor_add counting 2 5
  have hagain := (hstays 7 counted runFor_counting).1
  rw [runFor_counting] at hcut
  exact ⟨runFor_counting, hagain, hcut.trans hagain⟩

/-- The unbounded run comes to an end, a code or a fault with the machine then, if and only if some
bounded run comes to it; every higher bound then comes to it as well. A bounded run that ends without
a code has carried out exactly as many instructions as it was given. -/
theorem run?_agrees_with_runFor (m : Machine) :
    (∀ ended : Outcome Fault Byte, (m.run? = some ended ↔ ∃ n, runFor n m = ended.stopped) ∧
      (m.run = ended.stopped ↔ ∃ n, runFor n m = ended.stopped)) ∧
      (∀ (ended : Outcome Fault Byte) (n k : Nat),
        runFor n m = ended.stopped → n ≤ k → runFor k m = ended.stopped) ∧
      ∀ n m', runFor n m = .ok none m' →
        m'.instructions = m.instructions + n ∧ ∃ past, Path m past m' ∧ past.length = n := by
  refine ⟨fun ended => ⟨run?_eq_some_iff, run_eq_stopped_iff.trans run?_eq_some_iff⟩,
    fun ended n k h hk => runFor_mono h hk, fun n m' h => ?_⟩
  obtain ⟨past, hpath, hlength⟩ := path_of_runFor h
  exact ⟨hlength ▸ hpath.instructions, past, hpath, hlength⟩

theorem run?_agrees_with_runFor_counting :
    counting.run? = some (.ok 7 counted) ∧ runFor 9 counting = .ok (some 7) counted := by
  obtain ⟨hends, hmore, -⟩ := run?_agrees_with_runFor counting
  exact ⟨(hends (.ok 7 counted)).1.2 ⟨2, runFor_counting⟩,
    hmore (.ok 7 counted) 2 9 runFor_counting (by decide)⟩

end Mos6502.Machine

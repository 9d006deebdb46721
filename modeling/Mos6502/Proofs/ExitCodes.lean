import Mathlib.Data.List.DropRight
import Mos6502.Proofs.Publishing

/-! Exit codes over many requests. The machine holds the last one until it is reset; the channel holds
those that found room, in order, until they are received. Both accounts are given over the history
of what has been served, one request at a time. -/
namespace Mos6502

def Reply.code? : Reply → Option Byte
  | .code c => c
  | _ => none

namespace Machine
variable {m : Machine}

/-- The exit channel has a receiver and room for so many codes. -/
def Live (capacity : Nat) (m : Machine) : Prop :=
  ∃ c, m.channel = some c ∧ c.receiving = true ∧ c.capacity = capacity

/-- A request that has been served, and the machine that it found. -/
structure Served where
  before : Machine
  request : Request

namespace Served

def reply (s : Served) : Reply := (s.before.answer s.request).1

def after (s : Served) : Machine := (s.before.answer s.request).2

def published (s : Served) : List Byte := s.before.published s.request

def resets (s : Served) : Bool := s.before.resets s.request

def received (s : Served) : List Byte := if s.request.receives then s.reply.code?.toList else []

end Served

def history (m : Machine) : List Request → List Served
  | [] => []
  | r :: rest => ⟨m, r⟩ :: history (m.answer r).2 rest

/-- The codes published since the last reset, or since the start if there was none. -/
def codesSinceReset (h : List Served) : List Byte :=
  (h.rtakeWhile (!·.resets)).flatMap (·.published)

def received (h : List Served) : List Byte := h.flatMap (·.received)

/-- The published codes, except those that are published while as many codes as the channel has room
for have not been received. -/
def kept (capacity : Nat) (h : List Served) : List Byte :=
  h.flatMap fun s => if s.before.undelivered.length < capacity then s.published else []

section
variable {capacity : Nat} {r : Request}

theorem Live.served (h : m.Live capacity) (hr : r.opensChannel = false) :
    (m.answer r).2.Live capacity := by
  obtain ⟨c, hc, hreceiving, hcapacity⟩ := h
  cases hu : r.usesChannel with
  | false =>
    rw [Live, channel_answer m hu, hc]
    exact ⟨_, rfl, by simpa using hreceiving, by simpa using hcapacity⟩
  | true =>
    cases r with
    | receive =>
      simp only [Live, Machine.answer, receive, hc]
      exact ⟨_, rfl, hreceiving, hcapacity⟩
    | openChannel _ => exact absurd hr Bool.noConfusion
    | _ => exact absurd hu Bool.noConfusion

theorem Live.delivered (h : m.Live capacity) (hr : r.opensChannel = false) :
    Served.received ⟨m, r⟩ ++ (m.answer r).2.undelivered =
      m.undelivered ++ if m.undelivered.length < capacity then m.published r else [] := by
  obtain ⟨c, hc, hreceiving, rfl⟩ := h
  have hqueue : m.undelivered = c.queue := by rw [undelivered, hc]; rfl
  cases hu : r.usesChannel with
  | true =>
    rw [published_of_usesChannel hu]
    cases r with
    | receive =>
      simp only [Served.received, Served.reply, Request.receives, Machine.answer, receive, hc,
        undelivered, Channel.receive, Reply.code?]
      cases hqueue : c.queue <;> simp [hqueue]
    | openChannel _ => exact absurd hr Bool.noConfusion
    | _ => exact absurd hu Bool.noConfusion
  | false =>
    have hnot : r.receives = false := by simpa [hr] using hu.symm.trans r.usesChannel_eq
    have hafter : (m.answer r).2.undelivered =
        c.queue ++ (m.published r).take (c.capacity - c.queue.length) := by
      rw [undelivered, channel_answer m hu, hc]
      exact Channel.queue_offerAll hreceiving _
    rw [Served.received, hnot, hafter, hqueue]
    by_cases hroom : c.queue.length < c.capacity
    · have hshort : (m.published r).length ≤ c.capacity - c.queue.length :=
        (m.length_published_le r).trans (by omega)
      simp [hroom, List.take_of_length_le hshort]
    · have hfull : c.capacity - c.queue.length = 0 := by omega
      simp [hroom, hfull]

theorem reply_receive (m : Machine) : (m.answer .receive).1 = .code m.undelivered.head? := by
  simp only [Machine.answer, receive, undelivered]
  cases m.channel <;> rfl

end

theorem map_reply_history (m : Machine) (rs : List Request) :
    (history m rs).map (·.reply) = (serveAll answer m rs).1 := by
  induction rs generalizing m with
  | nil => rfl
  | cons r rest ih => exact congrArg _ (ih _)

theorem serveAll_snoc (m : Machine) (rs : List Request) (r : Request) :
    (serveAll answer m (rs ++ [r])).2 = ((serveAll answer m rs).2.answer r).2 := by
  induction rs generalizing m with
  | nil => rfl
  | cons first rest ih => exact ih _

theorem history_snoc (m : Machine) (rs : List Request) (r : Request) :
    history m (rs ++ [r]) = history m rs ++ [⟨(serveAll answer m rs).2, r⟩] := by
  induction rs generalizing m with
  | nil => rfl
  | cons first rest ih => exact congrArg _ (ih _)

theorem codesSinceReset_snoc (h : List Served) (s : Served) :
    codesSinceReset (h ++ [s]) = if s.resets then [] else codesSinceReset h ++ s.published := by
  rw [codesSinceReset, List.rtakeWhile_concat]
  cases s.resets <;> simp [codesSinceReset]

theorem exitCode_serveAll (m : Machine) (rs : List Request) :
    (serveAll answer m rs).2.exitCode = (codesSinceReset (history m rs)).getLast?.or
      (if (history m rs).any (·.resets) then none else m.exitCode) := by
  induction rs using List.reverseRecOn with
  | nil => rfl
  | append_singleton rs r ih =>
    rw [serveAll_snoc, history_snoc, codesSinceReset_snoc, exitCode_answer, ih, List.any_append]
    cases hr : ((serveAll answer m rs).2).resets r with
    | true => simp [Served.resets, hr]
    | false => simp [Served.resets, Served.published, hr, List.getLast?_append, Option.or_assoc]

theorem history_eq_cons {rs : List Request} {s : Served} {back : List Served}
    (h : history m rs = s :: back) :
    s.before = m ∧ ∃ rest, rs = s.request :: rest ∧ back = history s.after rest := by
  cases rs with
  | nil => simp [history] at h
  | cons r rest =>
    obtain ⟨rfl, rfl⟩ := List.cons.inj h
    exact ⟨rfl, rest, rfl, rfl⟩

section
variable {capacity : Nat} {rs : List Request} (hrs : ∀ r ∈ rs, r.opensChannel = false)
include hrs

/-- Every code that is kept is received, in order, or is still on the channel. -/
theorem Live.received_append (h : m.Live capacity) :
    received (history m rs) ++ (serveAll answer m rs).2.undelivered =
      m.undelivered ++ kept capacity (history m rs) := by
  induction rs generalizing m with
  | nil => exact (List.append_nil _).symm
  | cons r rest ih =>
    obtain ⟨hr, hrest⟩ := List.forall_mem_cons.1 hrs
    have hlater := ih hrest (h.served hr)
    simp only [history, serveAll, received, kept, List.flatMap_cons, List.append_assoc] at hlater ⊢
    rw [hlater, ← List.append_assoc, h.delivered hr, List.append_assoc]
    rfl

theorem Live.of_history {front back : List Served} {s : Served} (hm : m.Live capacity)
    (h : history m rs = front ++ s :: back) :
    s.before.Live capacity ∧ s.request.opensChannel = false ∧
      ∃ rest, (∀ r ∈ rest, r.opensChannel = false) ∧ back = history s.after rest := by
  induction front generalizing m rs with
  | nil =>
    obtain ⟨rfl, rest, rfl, hback⟩ := history_eq_cons h
    obtain ⟨hopens, hrest⟩ := List.forall_mem_cons.1 hrs
    exact ⟨hm, hopens, rest, hrest, hback⟩
  | cons u front ih =>
    obtain ⟨rfl, rest, rfl, hback⟩ := history_eq_cons h
    obtain ⟨hopens, hrest⟩ := List.forall_mem_cons.1 hrs
    exact ih hrest (hm.served hopens) hback.symm

/-- The oldest code stays until it is received. -/
theorem Live.head_stays {between back : List Served} {t : Served} {code : Byte}
    (hm : m.Live capacity) (hhead : m.undelivered.head? = some code)
    (h : history m rs = between ++ t :: back)
    (hbetween : ∀ u ∈ between, u.request.receives = false) :
    t.before.undelivered.head? = some code := by
  induction between generalizing m rs with
  | nil =>
    obtain ⟨rfl, -⟩ := history_eq_cons h
    exact hhead
  | cons u between ih =>
    obtain ⟨rfl, rest, rfl, hback⟩ := history_eq_cons h
    obtain ⟨hopens, hrest⟩ := List.forall_mem_cons.1 hrs
    have hnothing : u.received = [] := by
      rw [Served.received, hbetween u List.mem_cons_self]
      rfl
    have hqueue : u.after.undelivered = u.before.undelivered ++
        if u.before.undelivered.length < capacity then u.published else [] := by
      have hdelivered := hm.delivered hopens
      change u.received ++ u.after.undelivered = _ at hdelivered
      rwa [hnothing, List.nil_append] at hdelivered
    have hafter : u.after.undelivered.head? = some code := by
      rw [hqueue, List.head?_append, hhead]
      rfl
    exact ih hrest (hm.served hopens) hafter hback.symm
      fun u hu => hbetween u (List.mem_cons_of_mem _ hu)

/-- Whether there is a channel, and what becomes of the codes on it, makes no difference to the
replies to all other requests. -/
theorem unheard {m m' : Machine} (h : m.Beside Eq m') :
    (serveAll answer m' (rs.filter (!·.receives))).1 =
        ((history m rs).filter (!·.request.receives)).map (·.reply) ∧
      (serveAll answer m rs).2.Beside Eq
        (serveAll answer m' (rs.filter (!·.receives))).2 := by
  induction rs generalizing m m' with
  | nil => exact ⟨rfl, h⟩
  | cons r rest ih =>
    obtain ⟨hopens, hrest⟩ := List.forall_mem_cons.1 hrs
    cases hr : r.receives with
    | true =>
      have hafter : (m.answer r).2.Beside Eq m' := by
        cases r with
        | receive =>
          simp only [Machine.answer, receive]
          cases m.channel <;> exact { h with }
        | _ => exact absurd hr Bool.noConfusion
      simpa [history, serveAll, hr] using ih hrest hafter
    | false =>
      have hu : r.usesChannel = false := by rw [r.usesChannel_eq, hopens, hr]; rfl
      obtain ⟨hreply, hnext⟩ := (Abreast.refl h).answer Bus.congruence_eq hu
      obtain ⟨hreplies, hlast⟩ := ih hrest hnext.toBeside
      simpa [history, serveAll, hr, Served.reply, hreply, hreplies] using hlast

end

/-- What becomes of exit codes while requests are served on a machine whose exit channel has a receiver
and room for so many codes. -/
structure KeepsCodes (m : Machine) (capacity : Nat) (rs : List Request) : Prop where
  replies : (history m rs).map (·.reply) = (serveAll answer m rs).1
  exitCode : (serveAll answer m rs).2.exitCode = (codesSinceReset (history m rs)).getLast?.or
    (if (history m rs).any (·.resets) then none else m.exitCode)
  delivered : received (history m rs) ++ (serveAll answer m rs).2.undelivered =
    m.undelivered ++ kept capacity (history m rs)
  receive : ∀ s ∈ history m rs, s.request = .receive → s.reply = .code s.before.undelivered.head?
  run_publishes : ∀ s ∈ history m rs, s.request.runs = true →
    s.published.length ≤ 1 ∧ (s.before.exitCode ≠ none → s.published = [])
  /-- After a run on an empty channel that published the code it returned, that code is the next to be
  received. -/
  next_receive : ∀ (front between back : List Served) (s t : Served) (code : Byte),
    history m rs = front ++ s :: (between ++ t :: back) → s.request.runs = true →
    s.before.undelivered = [] → s.reply = .code (some code) → s.published ≠ [] →
    (∀ u ∈ between, u.request.receives = false) → t.request = .receive → t.reply = .code (some code)
  unheard : ∀ channel, (serveAll answer (m.withChannel channel) (rs.filter (!·.receives))).1 =
      ((history m rs).filter (!·.request.receives)).map (·.reply) ∧
    (serveAll answer m rs).2.Beside Eq
      (serveAll answer (m.withChannel channel) (rs.filter (!·.receives))).2

theorem Live.undelivered_of_run {capacity : Nat} {r : Request} {code : Byte} (h : m.Live capacity)
    (hcapacity : 1 ≤ capacity) (hr : r.runs = true) (hempty : m.undelivered = [])
    (hreply : (m.answer r).1 = .code (some code)) (hpublished : m.published r ≠ []) :
    (m.answer r).2.undelivered = [code] := by
  have hopens : r.opensChannel = false := by
    cases r <;> first | rfl | exact absurd hr Bool.noConfusion
  have hreceives : r.receives = false := by
    cases r <;> first | rfl | exact absurd hr Bool.noConfusion
  have hresets : m.resets r = false := by
    cases r <;> first | rfl | exact absurd hr Bool.noConfusion
  obtain ⟨v, hv⟩ : ∃ v, m.published r = [v] := by
    have hshort := m.length_published_le r
    have hsome := List.length_pos_iff.2 hpublished
    exact List.length_eq_one_iff.1 (by omega)
  have hcode := exitCode_of_reply hr hreply
  rw [exitCode_answer, hresets, hv] at hcode
  obtain rfl : v = code := Option.some.inj hcode
  have hroom : ([] : List Byte).length < capacity := hcapacity
  have hdelivered := h.delivered hopens
  rw [Served.received, hreceives, hempty, hv, if_pos hroom] at hdelivered
  exact hdelivered

/-- Whatever is asked of a machine whose exit channel has a receiver and room for a code, both accounts
of its exit codes are right, and no run depends on what becomes of them. -/
theorem exit_codes_kept {m : Machine} {capacity : Nat} {rs : List Request} (h : m.Live capacity)
    (hcapacity : 1 ≤ capacity) (hrs : ∀ r ∈ rs, r.opensChannel = false) :
    m.KeepsCodes capacity rs where
  replies := map_reply_history m rs
  exitCode := exitCode_serveAll m rs
  delivered := h.received_append hrs
  receive s _ hs := by
    rw [Served.reply, hs]
    exact reply_receive _
  run_publishes s _ hs := by
    refine ⟨length_published_le _ _, fun hcode => ?_⟩
    obtain ⟨code, hcode⟩ := Option.ne_none_iff_exists'.1 hcode
    exact published_of_exitCode hs hcode
  next_receive front between back s t code hh hs hempty hreply hpublished hbetween ht := by
    obtain ⟨hlive, hopens, rest, hrest, hback⟩ := h.of_history hrs hh
    have hqueue := hlive.undelivered_of_run hcapacity hs hempty hreply hpublished
    have hhead := (hlive.served hopens).head_stays hrest (congrArg List.head? hqueue) hback.symm hbetween
    rw [Served.reply, ht, reply_receive, hhead]
  unheard channel := Machine.unheard hrs ⟨rfl, rfl, rfl, rfl, rfl, rfl⟩

/-- A program that halts twice, on a machine whose channel has room for one code. -/
def haltingTwice : Machine where
  registers := { pc := 0x0200 }
  bus := ⟨[⟨"program", 0x0200, .ram #[0xA2, 0x01, 0xFF, 0xA2, 0x02, 0xFF], by simp [Backend.size],
    by simp [Backend.size]⟩]⟩
  channel := some { capacity := 1 }

set_option maxRecDepth 2000 in
theorem exit_codes_kept_haltingTwice :
    let rs := [.step, .step, .step, .step, .receive, .receive]
    haltingTwice.Live 1 ∧ received (history haltingTwice rs) = [1] ∧
      (serveAll answer haltingTwice rs).2.exitCode = some 2 := by
  intro rs
  have hlive : haltingTwice.Live 1 := ⟨_, rfl, rfl, rfl⟩
  have h : haltingTwice.KeepsCodes 1 rs := exit_codes_kept hlive (by decide) (by decide)
  have hkept : kept 1 (history haltingTwice rs) = [1] := rfl
  have hcodes : codesSinceReset (history haltingTwice rs) = [1, 2] := rfl
  have hleft : (serveAll answer haltingTwice rs).2.undelivered = [] := rfl
  have hdelivered := h.delivered
  rw [hkept, hleft, List.append_nil] at hdelivered
  refine ⟨hlive, hdelivered, ?_⟩
  rw [h.exitCode, hcodes]
  rfl

end Machine
end Mos6502

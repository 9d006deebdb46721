import Mathlib.Data.Nat.Find
import Mathlib.Order.Bounds.Basic
import Mos6502.Proofs.Stops

/-! The list of points as a set that keeps an order. A point comes in behind all others, stays where
it is when it is added again, and leaves the order of the others as it is when it is taken out. So
the points stand in the order in which they came in, each since it was last taken out. -/
namespace Mos6502.Breakpoints

variable {p q : Breakpoint} {past : List Visit} {v : Visit} {j k : Nat}

theorem remove_eq_true_iff {b : Breakpoints} : (b.remove p).1 = true ↔ p ∈ b.points := by
  simp [remove]

namespace Visit

/-- Whether a point is asked to be taken out, and has been there. -/
def TakesOut (p : Breakpoint) (v : Visit) : Prop :=
  v.operation = .remove p ∧ (v.before.remove p).1 = true

theorem not_takesOut (h : v.operation ≠ .remove p) : ¬v.TakesOut p := fun hp => h hp.1

theorem Adds.not_takesOut (h : v.Adds q) : ¬v.TakesOut p :=
  Visit.not_takesOut fun hp => nomatch h.symm.trans hp

/-- Points may go, but not come in anywhere but behind all others. -/
theorem points_after_cases (v : Visit) :
    (v.after.points.Sublist v.before.points ∧ ∀ p ∈ v.after.points, ¬v.TakesOut p) ∨
      ∃ q, v.Adds q ∧ q ∉ v.before.points ∧ v.after.points = v.before.points ++ [q] := by
  obtain ⟨b, op⟩ := v
  cases op with
  | add q =>
    by_cases hq : q ∈ b.points
    · have hafter : (b.add q).points = b.points := by simp [add, hq]
      exact .inl ⟨by simp [after, apply, hafter], fun p _ => Adds.not_takesOut (q := q) rfl⟩
    · exact .inr ⟨q, rfl, hq, by simp [after, apply, add, hq]⟩
  | remove q =>
    refine .inl ⟨List.filter_sublist, fun p hp htaken => ?_⟩
    obtain rfl : q = p := by simpa using htaken.1
    exact (mem_points_remove.1 hp).2 rfl
  | stepNext => exact .inl ⟨.refl _, fun p _ => not_takesOut (by simp)⟩
  | observe r i =>
    refine .inl ⟨?_, fun p _ => not_takesOut (by simp)⟩
    simp only [after, apply, observe_eq]
    split <;> exact .refl _

end Visit

/-- The operation at a position adds the point, and no later one takes it out. -/
structure AddedSince (past : List Visit) (p : Breakpoint) (j : Nat) : Prop where
  adds : ∃ v, past[j]? = some v ∧ v.Adds p
  kept : ∀ i v, j < i → past[i]? = some v → ¬v.TakesOut p

/-- The position at which a point has come into the list: the earliest at which it has been added
since it was last taken out. -/
def CameAt (past : List Visit) (p : Breakpoint) (k : Nat) : Prop :=
  IsLeast {j | AddedSince past p j} k

theorem AddedSince.lt_length (h : AddedSince past p j) : j < past.length := by
  obtain ⟨v, hv, -⟩ := h.adds
  exact (List.getElem?_eq_some_iff.1 hv).1

theorem getElem?_snoc_eq_some_iff {w : Visit} :
    (past ++ [v])[j]? = some w ↔ past[j]? = some w ∨ j = past.length ∧ v = w := by
  obtain hj | rfl | hj := Nat.lt_trichotomy j past.length
  · simp [List.getElem?_append_left hj, Nat.ne_of_lt hj]
  · simp
  · simp [List.getElem?_append_right hj.le, List.getElem?_eq_none hj.le, Nat.ne_of_gt hj,
      Nat.sub_ne_zero_of_lt hj]

theorem addedSince_snoc :
    AddedSince (past ++ [v]) p j ↔
      AddedSince past p j ∧ ¬v.TakesOut p ∨ j = past.length ∧ v.Adds p := by
  constructor
  · rintro ⟨⟨u, hu, hadds⟩, hkept⟩
    obtain hu | ⟨rfl, rfl⟩ := getElem?_snoc_eq_some_iff.1 hu
    · have hfront : AddedSince past p j :=
        ⟨⟨u, hu, hadds⟩, fun i w hji hw => hkept i w hji (getElem?_snoc_eq_some_iff.2 (.inl hw))⟩
      exact .inl ⟨hfront, hkept _ v hfront.lt_length List.getElem?_concat_length⟩
    · exact .inr ⟨rfl, hadds⟩
  · rintro (⟨h, hv⟩ | ⟨rfl, hadds⟩)
    · obtain ⟨u, hu, hadds⟩ := h.adds
      refine ⟨⟨u, getElem?_snoc_eq_some_iff.2 (.inl hu), hadds⟩, fun i w hji hw => ?_⟩
      obtain hw | ⟨-, rfl⟩ := getElem?_snoc_eq_some_iff.1 hw
      · exact h.kept i w hji hw
      · exact hv
    · refine ⟨⟨v, List.getElem?_concat_length, hadds⟩, fun i w hi hw => ?_⟩
      obtain hw | ⟨rfl, -⟩ := getElem?_snoc_eq_some_iff.1 hw
      · exact absurd (List.getElem?_eq_some_iff.1 hw).1 (Nat.lt_asymm hi)
      · exact absurd hi (Nat.lt_irrefl _)

theorem exists_cameAt_iff : (∃ k, CameAt past p k) ↔ ∃ j, AddedSince past p j := by
  constructor
  · rintro ⟨k, hk⟩
    exact ⟨k, hk.1⟩
  · intro h
    classical
    exact ⟨Nat.find h, Nat.find_spec h, fun i hi => Nat.find_min' h hi⟩

theorem CameAt.snoc (h : CameAt past p k) (hv : ¬v.TakesOut p) : CameAt (past ++ [v]) p k := by
  refine ⟨addedSince_snoc.2 (.inl ⟨h.1, hv⟩), fun j hj => ?_⟩
  obtain ⟨hj, -⟩ | ⟨rfl, -⟩ := addedSince_snoc.1 hj
  · exact h.2 hj
  · exact h.1.lt_length.le

theorem cameAt_length (h : ¬∃ k, CameAt past p k) (hv : v.Adds p) :
    CameAt (past ++ [v]) p past.length := by
  refine ⟨addedSince_snoc.2 (.inr ⟨rfl, hv⟩), fun j hj => ?_⟩
  obtain ⟨hj, -⟩ | ⟨rfl, -⟩ := addedSince_snoc.1 hj
  · exact absurd (exists_cameAt_iff.2 ⟨j, hj⟩) h
  · exact le_rfl

/-- The points are those that have come in and not been taken out since, in the order in which they
came in. -/
structure InOrder (past : List Visit) (points : List Breakpoint) : Prop where
  cameAt : ∀ p, p ∈ points ↔ ∃ k, CameAt past p k
  order : points.Pairwise fun p q => ∀ j k, CameAt past p j → CameAt past q k → j < k

namespace InOrder
variable {points : List Breakpoint}

theorem nil : InOrder [] [] where
  cameAt p := by
    simp only [exists_cameAt_iff, List.not_mem_nil, false_iff, not_exists]
    exact fun j hj => absurd hj.lt_length (Nat.not_lt_zero j)
  order := .nil

theorem nodup (h : InOrder past points) : points.Nodup := by
  refine h.order.imp_of_mem fun {p q} hp _ hpq heq => ?_
  subst heq
  obtain ⟨k, hk⟩ := (h.cameAt p).1 hp
  exact Nat.lt_irrefl k (hpq k k hk hk)

theorem cameAt_of_snoc (h : InOrder past points) (hp : p ∈ points) (hv : ¬v.TakesOut p)
    (hk : CameAt (past ++ [v]) p k) : CameAt past p k := by
  obtain ⟨j, hj⟩ := (h.cameAt p).1 hp
  rwa [hk.unique (hj.snoc hv)]

theorem pairwise_snoc (h : InOrder past points) {rest : List Breakpoint}
    (hsub : rest.Sublist points) (hrest : ∀ p ∈ rest, ¬v.TakesOut p) :
    rest.Pairwise fun p q =>
      ∀ j k, CameAt (past ++ [v]) p j → CameAt (past ++ [v]) q k → j < k := by
  refine (h.order.sublist hsub).imp_of_mem fun hp hq hpq j k hj hk => ?_
  exact hpq j k (h.cameAt_of_snoc (hsub.subset hp) (hrest _ hp) hj)
    (h.cameAt_of_snoc (hsub.subset hq) (hrest _ hq) hk)

theorem snoc (h : InOrder past v.before.points) : InOrder (past ++ [v]) v.after.points where
  cameAt p := by
    have htakes : v.TakesOut p ↔ v.operation = .remove p ∧ p ∈ v.before.points := by
      rw [Visit.TakesOut, remove_eq_true_iff]
    rw [exists_cameAt_iff, v.mem_after_iff]
    simp only [addedSince_snoc, exists_or, exists_and_right, ← exists_cameAt_iff, ← h.cameAt,
      htakes, Visit.Adds, Visit.IsAbout]
    grind
  order := by
    obtain ⟨hsub, hrest⟩ | ⟨q, hadds, hq, hafter⟩ := v.points_after_cases
    · exact h.pairwise_snoc hsub hrest
    · rw [hafter, List.pairwise_append]
      refine ⟨h.pairwise_snoc (.refl _) fun p _ => hadds.not_takesOut, List.pairwise_singleton _ _,
        fun p hp q' hq' j k hj hk => ?_⟩
      obtain rfl := List.mem_singleton.1 hq'
      have hlast := cameAt_length (mt (h.cameAt q').2 hq) hadds
      rw [hk.unique hlast]
      exact (h.cameAt_of_snoc hp hadds.not_takesOut hj).1.lt_length

end InOrder

theorem inOrder (serial : Nat) (h : BreakHandler) (ops : List Operation) :
    InOrder (history { serial, handler := h } ops)
      (followedBy { serial, handler := h } ops).points := by
  induction ops using List.reverseRecOn with
  | nil => exact .nil
  | append_singleton ops op ih =>
    rw [history_snoc, followedBy_snoc]
    exact InOrder.snoc (v := ⟨_, op⟩) ih

/-- Whatever has been done with a monitor that began without points, no point is listed twice, those
are listed of which the latest that was said is that they be added, they stand in the order in which
they came in, and whoever took a point out was told whether it was there. -/
theorem points_in_order (serial : Nat) (h : BreakHandler) (ops : List Operation) :
    let fresh : Breakpoints := { serial, handler := h }
    let past := fresh.history ops
    let points := (fresh.followedBy ops).points
    points.Nodup ∧ (∀ p, p ∈ points ↔ Latest (Visit.IsAbout p) (Visit.Adds p) past) ∧
      InOrder past points ∧
      ∀ v ∈ past, ∀ p, v.operation = .remove p →
        ((v.before.remove p).1 = true ↔ p ∈ v.before.points) := by
  intro fresh past points
  have horder := inOrder serial h ops
  exact ⟨horder.nodup, (recalls serial h ops).listed, horder, fun _ _ _ _ => remove_eq_true_iff⟩

def revised : List Operation :=
  [.add (.address 0x1000), .add (.mnemonic .brk), .add (.address 0x1000), .remove (.address 0x1000),
    .remove (.address 0x1000), .add (.address 0x1000)]

/-- The address stands last, and was taken out only once. -/
theorem points_in_order_revised :
    let past := history {} revised
    (followedBy {} revised).points = [.mnemonic .brk, .address 0x1000] ∧
      (∃ j k, CameAt past (.mnemonic .brk) j ∧ CameAt past (.address 0x1000) k ∧ j < k) ∧
      ∃ v ∈ past, v.operation = .remove (.address 0x1000) ∧ .address 0x1000 ∉ v.before.points ∧
        (v.before.remove (.address 0x1000)).1 = false := by
  intro past
  obtain ⟨-, -, ⟨hcame, horder⟩, hanswers⟩ := points_in_order 0 .unattended revised
  have hpoints : (followedBy {} revised).points = [.mnemonic .brk, .address 0x1000] := by decide
  obtain ⟨j, hj⟩ := (hcame (.mnemonic .brk)).1 (by rw [hpoints]; decide)
  obtain ⟨k, hk⟩ := (hcame (.address 0x1000)).1 (by rw [hpoints]; decide)
  rw [hpoints] at horder
  refine ⟨hpoints, ⟨j, k, hj, hk, List.rel_of_pairwise_cons horder (by simp) j k hj hk⟩, ?_⟩
  have hv : (⟨{ points := [.mnemonic .brk] }, .remove (.address 0x1000)⟩ : Visit) ∈ past := by
    simp [past, history, revised, apply, add, remove]
  have habsent : Breakpoint.address 0x1000 ∉ [Breakpoint.mnemonic .brk] := by decide
  exact ⟨_, hv, rfl, habsent, Bool.eq_false_iff.2 (mt (hanswers _ hv _ rfl).1 habsent)⟩

end Mos6502.Breakpoints

import Mathlib.Algebra.Order.BigOperators.Group.Finset
import Checkmate.Host.Tally
import Checkmate.Escrow.DisputeProtocol

/-!
# Votes on disputes

A dispute keeps a running tally of the weights for and against it, and every vote and its weight
have entries of their own. `PollStep` lists what can happen to them : a dispute is filed, a vote
is cast, a dispute is resolved. Along every run the tally is the sum of the weights, up to the
bound of `i128` (`Polls.Sound`), what is fixed when a dispute is filed stays, and so does every
vote (`Polls.Extends`).
-/

namespace Checkmate.Escrow

open Function Option

variable {env : Env} {w w' : World} {u : Unit} {k : ℕ} {d : Dispute}

/-- The disputes with the votes on them. -/
structure Polls where
  dispute : ℕ → Option Dispute
  vote : ℕ × Address → Option Bool
  weight : ℕ × Address → Option ℤ

def World.polls (w : World) : Polls where
  dispute := w.disputes.dispute
  vote := w.disputes.disputeVote
  weight := w.disputes.disputeVoteWeight

/-- What can happen to the disputes and the votes on them. -/
inductive PollStep (p : Polls) : Polls → Prop
  | idle : PollStep p p
  | filed (k : ℕ) (d : Dispute) (hnew : p.dispute k = none) (hyes : d.yesVotes = 0)
      (hno : d.noVotes = 0) : PollStep p { p with dispute := update p.dispute k (some d) }
  | voted (k : ℕ) (d : Dispute) (voter : Address) (vote : Bool) (weight : ℤ)
      (hd : p.dispute k = some d) (hactive : d.state = .active) (hnew : p.vote (k, voter) = none)
      (hpos : 0 < weight) :
      PollStep p
        { dispute := update p.dispute k (some (d.withVote vote weight))
          vote := update p.vote (k, voter) (some vote)
          weight := update p.weight (k, voter) (some weight) }
  | resolved (k : ℕ) (d : Dispute) (hd : p.dispute k = some d) (hactive : d.state = .active) :
      PollStep p { p with dispute := update p.dispute k (some d.resolved) }

/-! ## The contract takes such steps -/

theorem Call.exec_frames_polls {call : Call} (h : call.onPolls = false) :
    Tx.Frames World.polls call.exec :=
  Call.exec_frames_onPolls (f := fun d => Polls.mk d.dispute d.disputeVote d.disputeVoteWeight) h
    fun _ _ _ => rfl

theorem exec_polls {call : Call} (h : call.exec env w = .ok u w') (hf : w.Filed) :
    PollStep w.polls w'.polls := by
  cases hcall : call.onPolls with
  | false =>
    rw [(Call.exec_frames_polls hcall).ok h]
    exact .idle
  | true =>
    cases call with
    | disputeOracleResult =>
      obtain ⟨n, h⟩ := void_ok_iff.mp h
      obtain ⟨m, share, l, quorum, oracle, -, -, -, -, -, rfl⟩ := disputeOracleResult_ok h
      refine .filed w.disputes.disputeCount _ ?_ rfl rfl
      cases hnew : w.disputes.dispute w.disputes.disputeCount with
      | none => exact hnew
      | some d => exact absurd (hf _ d hnew).1 (lt_irrefl _)
    | voteOnDispute k voter vote =>
      obtain ⟨d, weight, hopen, -, hpos, rfl⟩ := voteOnDispute_ok_iff.mp h
      exact .voted k d voter vote weight hopen.filed hopen.active hopen.unvoted hpos
    | resolveDisputeByVote k =>
      obtain ⟨d, m, winner, w1, w2, hopen, hpay, hbond, rfl⟩ := resolveDisputeByVote_ok h
      obtain ⟨ts, ⟨l, -, rfl⟩, -⟩ := executePayout_ok hpay
      obtain ⟨l', -, rfl⟩ := transfer_paid hbond
      exact .resolved k d hopen.filed hopen.active
    | _ => exact Bool.noConfusion hcall

theorem step_polls (hw : Reachable w) (e : Event) : PollStep w.polls (step w e).polls := by
  refine step_keeps (P := fun w' => PollStep w.polls w'.polls) .idle ?_ (fun _ => .idle)
    fun _ => .idle
  intro env call w' _ h
  have hstep : PollStep w.fresh.polls w'.polls := exec_polls h (hw.tracks 0).1
  exact hstep

/-! ## The tally -/

/-- The tally of a dispute for one side of the vote. -/
def Dispute.votes (d : Dispute) : Bool → ℤ
  | true => d.yesVotes
  | false => d.noVotes

/-- What the voters of a dispute weigh. -/
def Polls.weightOf (p : Polls) (k : ℕ) (a : Address) : ℤ := (p.weight (k, a)).getD 0

/-- Every vote is on a dispute and has a positive weight, and the tallies add the weights up. -/
structure Polls.Sound (p : Polls) : Prop where
  known : ∀ k a, (p.vote (k, a)).isSome = true → (p.dispute k).isSome = true
  weighed : ∀ k a, (p.vote (k, a)).isSome = true → ∃ x, p.weight (k, a) = some x ∧ 0 < x
  tally : ∀ k d, p.dispute k = some d → ∀ b, ∃ total,
    Weighs (fun a => p.vote (k, a)) (p.weightOf k) b total ∧ d.votes b = min i128Max total

/-- Adding a positive weight to a tally stops at the bound where the sum does. -/
theorem saturatingAdd_min {total x : ℤ} (htotal : 0 ≤ total) (hx : 0 < x) :
    saturatingAdd (min i128Max total) x = min i128Max (total + x) := by
  have hmin : i128Min ≤ 0 := by decide
  have hmax : 0 ≤ i128Max := by decide
  unfold saturatingAdd
  omega

theorem Polls.Sound.total_nonneg {p : Polls} (h : p.Sound) {b : Bool} {total : ℤ}
    (ht : Weighs (fun a => p.vote (k, a)) (p.weightOf k) b total) : 0 ≤ total := by
  obtain ⟨s, hs, rfl⟩ := ht
  refine Finset.sum_nonneg fun a ha => ?_
  obtain ⟨x, hx, hpos⟩ := h.weighed k a (by simp [(hs a).mp ha])
  simp [Polls.weightOf, hx, hpos.le]

theorem Dispute.votes_withVote (d : Dispute) (vote b : Bool) (x : ℤ) :
    (d.withVote vote x).votes b = if b = vote then saturatingAdd (d.votes b) x else d.votes b := by
  cases vote <;> cases b <;> rfl

theorem Dispute.votes_resolved (d : Dispute) (b : Bool) : d.resolved.votes b = d.votes b := by
  cases b <;> rfl

/-- A tally is about the votes on its own dispute. -/
theorem Polls.Sound.tally_update {p : Polls} (h : p.Sound) (k : ℕ) {d' : Dispute}
    (hd' : ∀ b, ∃ total, Weighs (fun a => p.vote (k, a)) (p.weightOf k) b total ∧
      d'.votes b = min i128Max total) :
    Polls.Sound { p with dispute := update p.dispute k (some d') } where
  known j a ha := by
    by_cases hj : j = k
    · simp [hj]
    · simpa [hj] using h.known j a ha
  weighed := h.weighed
  tally j d hd b := by
    by_cases hj : j = k
    · subst hj
      obtain rfl : d' = d := by simpa using hd
      exact hd' b
    · exact h.tally j d ((update_of_ne hj ..).symm.trans hd) b

/-- One more vote adds its weight to the tally of its side. -/
theorem Polls.Sound.voted {p : Polls} (h : p.Sound) {voter : Address} {vote : Bool} {weight : ℤ}
    (hd : p.dispute k = some d) (hnew : p.vote (k, voter) = none) (hpos : 0 < weight) : Polls.Sound
      { dispute := update p.dispute k (some (d.withVote vote weight))
        vote := update p.vote (k, voter) (some vote)
        weight := update p.weight (k, voter) (some weight) } where
  known j a ha := by
    by_cases hj : j = k
    · simp [hj]
    · have hne : (j, a) ≠ (k, voter) := fun heq => hj (Prod.mk.inj heq).1
      simpa [hj] using h.known j a (by simpa [hne] using ha)
  weighed j a ha := by
    by_cases hpair : (j, a) = (k, voter)
    · exact ⟨weight, by simp [hpair], hpos⟩
    · obtain ⟨x, hx, hx'⟩ := h.weighed j a (by simpa [hpair] using ha)
      exact ⟨x, (update_of_ne hpair ..).trans hx, hx'⟩
  tally j d1 hd1 b := by
    by_cases hj : j = k
    · subst hj
      obtain rfl : d.withVote vote weight = d1 := by simpa using hd1
      obtain ⟨total, htotal, hvotes⟩ := h.tally j d hd b
      have hvote : (fun a => update p.vote (j, voter) (some vote) (j, a)) =
          update (fun a => p.vote (j, a)) voter (some vote) :=
        update_comp_eq_of_injective p.vote (Prod.mk_right_injective j) voter (some vote)
      have hweight : (fun a => (update p.weight (j, voter) (some weight) (j, a)).getD 0) =
          update (p.weightOf j) voter weight := by
        funext a
        by_cases ha : a = voter <;> simp [Polls.weightOf, ha]
      simp only [d.votes_withVote]
      change ∃ total', Weighs (fun a => update p.vote (j, voter) (some vote) (j, a))
        (fun a => (update p.weight (j, voter) (some weight) (j, a)).getD 0) b total' ∧ _
      rw [hvote, hweight]
      by_cases hb : b = vote
      · subst hb
        refine ⟨total + weight, htotal.cast hnew, ?_⟩
        rw [if_pos rfl, hvotes, saturatingAdd_min (h.total_nonneg htotal) hpos]
      · exact ⟨total, htotal.cast_other hnew (Ne.symm hb), by rw [if_neg hb, hvotes]⟩
    · obtain ⟨total, htotal, hvotes⟩ := h.tally j d1 ((update_of_ne hj ..).symm.trans hd1) b
      refine ⟨total, ?_, hvotes⟩
      have hne (a : Address) : (j, a) ≠ (k, voter) := fun heq => hj (Prod.mk.inj heq).1
      have hweight : (fun a => (update p.weight (k, voter) (some weight) (j, a)).getD 0) =
          p.weightOf j := by
        funext a
        rw [update_of_ne (hne a), Polls.weightOf]
      change Weighs (fun a => update p.vote (k, voter) (some vote) (j, a))
        (fun a => (update p.weight (k, voter) (some weight) (j, a)).getD 0) b total
      rw [hweight]
      simpa [hne] using htotal

theorem Polls.Sound.step {p p' : Polls} (h : p.Sound) (hstep : PollStep p p') : p'.Sound := by
  cases hstep with
  | idle => exact h
  | filed k d hnew hyes hno =>
    refine h.tally_update k fun b => ⟨0, .empty fun a => ?_, ?_⟩
    · cases hvote : p.vote (k, a) with
      | none => rfl
      | some => exact absurd (h.known k a (by simp [hvote])) (by simp [hnew])
    · cases b <;> simp [Dispute.votes, hyes, hno] <;> decide
  | resolved k d hd =>
    refine h.tally_update k fun b => ?_
    rw [d.votes_resolved]
    exact h.tally k d hd b
  | voted k d voter vote weight hd hactive hnew hpos => exact h.voted hd hnew hpos

theorem Reachable.polls_sound (hw : Reachable w) : w.polls.Sound := by
  obtain ⟨w0, es, h0, rfl⟩ := hw
  refine (run_inv (I := fun w => Reachable w ∧ w.polls.Sound) (P := fun _ _ => True)
    (fun w e hw _ => ⟨hw.1.step e, hw.2.step (step_polls hw.1 e)⟩) ⟨⟨w0, [], h0, rfl⟩, ?_⟩
    (along_true w0 es)).2
  obtain ⟨oracle, admin, l, -, rfl⟩ := h0.eq_mk
  exact ⟨fun _ _ ha => absurd ha (by simp [World.polls]),
    fun _ _ ha => absurd ha (by simp [World.polls]),
    fun _ _ hd => absurd hd (by simp [World.polls])⟩

/-! ## What stays -/

/-- What is fixed when a dispute is filed. -/
def Dispute.fixed (d : Dispute) : Dispute :=
  { d with state := .active, yesVotes := 0, noVotes := 0 }

/-- How a dispute and the votes on it can look later : what was fixed and the votes stay, and
once it is resolved everything stays. -/
structure Polls.Extends (p p' : Polls) (k : ℕ) : Prop where
  fixed : ∀ d, p.dispute k = some d → ∃ d', p'.dispute k = some d' ∧ d'.fixed = d.fixed ∧
    (d.state ≠ .active → d' = d)
  votes : ∀ a, (p.vote (k, a)).isSome = true →
    p'.vote (k, a) = p.vote (k, a) ∧ p'.weight (k, a) = p.weight (k, a)
  closed : ∀ d, p.dispute k = some d → d.state ≠ .active → ∀ a,
    p'.vote (k, a) = p.vote (k, a) ∧ p'.weight (k, a) = p.weight (k, a)

theorem Polls.Extends.refl (p : Polls) (k : ℕ) : p.Extends p k :=
  ⟨fun d hd => ⟨d, hd, rfl, fun _ => rfl⟩, fun _ _ => ⟨rfl, rfl⟩, fun _ _ _ _ => ⟨rfl, rfl⟩⟩

theorem Polls.Extends.trans {p1 p2 p3 : Polls} (h : p1.Extends p2 k) (h' : p2.Extends p3 k) :
    p1.Extends p3 k where
  fixed d hd := by
    obtain ⟨d2, hd2, hfixed, hclosed⟩ := h.fixed d hd
    obtain ⟨d3, hd3, hfixed', hclosed'⟩ := h'.fixed d2 hd2
    refine ⟨d3, hd3, hfixed'.trans hfixed, fun hs => ?_⟩
    obtain rfl := hclosed hs
    exact hclosed' hs
  votes a ha := by
    obtain ⟨hvote, hweight⟩ := h.votes a ha
    obtain ⟨hvote', hweight'⟩ := h'.votes a (hvote ▸ ha)
    exact ⟨hvote'.trans hvote, hweight'.trans hweight⟩
  closed d hd hs a := by
    obtain ⟨d2, hd2, -, hclosed⟩ := h.fixed d hd
    obtain rfl := hclosed hs
    obtain ⟨hvote, hweight⟩ := h.closed d2 hd hs a
    obtain ⟨hvote', hweight'⟩ := h'.closed d2 hd2 hs a
    exact ⟨hvote'.trans hvote, hweight'.trans hweight⟩

/-- A dispute that is not resolved is written, with what was fixed as it was. -/
theorem Polls.Extends.of_update {p : Polls} {j : ℕ} {d' : Dispute}
    (h : ∀ d, p.dispute j = some d → d.state = .active ∧ d'.fixed = d.fixed) :
    p.Extends { p with dispute := update p.dispute j (some d') } k where
  fixed d hd := by
    by_cases hk : k = j
    · subst hk
      obtain ⟨hactive, hfixed⟩ := h d hd
      exact ⟨d', update_self .., hfixed, fun hs => absurd hactive hs⟩
    · exact ⟨d, (update_of_ne hk ..).trans hd, rfl, fun _ => rfl⟩
  votes _ _ := ⟨rfl, rfl⟩
  closed _ _ _ _ := ⟨rfl, rfl⟩

theorem PollStep.extends {p p' : Polls} (h : PollStep p p') (k : ℕ) : p.Extends p' k := by
  cases h with
  | idle => exact .refl p k
  | filed j d hnew => exact .of_update fun d hd => nomatch hnew.symm.trans hd
  | resolved j d hd hactive =>
    refine .of_update fun d' hd' => ?_
    obtain rfl := mem_unique hd hd'
    exact ⟨hactive, rfl⟩
  | voted j d voter vote weight hd hactive hnew =>
    have hdispute : p.Extends
        { p with dispute := update p.dispute j (some (d.withVote vote weight)) } k := by
      refine .of_update fun d' hd' => ?_
      obtain rfl := mem_unique hd hd'
      cases vote <;> exact ⟨hactive, rfl⟩
    have hother {a : Address} (hne : (k, a) ≠ (j, voter)) :
        update p.vote (j, voter) (some vote) (k, a) = p.vote (k, a) ∧
          update p.weight (j, voter) (some weight) (k, a) = p.weight (k, a) :=
      ⟨update_of_ne hne .., update_of_ne hne ..⟩
    refine ⟨hdispute.fixed, fun a ha => hother ?_, fun d' hd' hs a => hother ?_⟩
    · rintro heq
      simp [heq, hnew] at ha
    · rintro heq
      obtain ⟨rfl, -⟩ := Prod.mk.inj heq
      obtain rfl := mem_unique hd hd'
      exact hs hactive

theorem run_extends (hw : Reachable w) (k : ℕ) (es : List Event) :
    w.polls.Extends (run step w es).polls k := by
  refine (run_inv (I := fun w' => Reachable w' ∧ w.polls.Extends w'.polls k) (P := fun _ _ => True)
    (fun w' e h _ => ⟨h.1.step e, h.2.trans ((step_polls h.1 e).extends k)⟩) ⟨hw, .refl _ _⟩
    (along_true w es)).2

/-! ## The verdict -/

/-- What a resolution finds in the tallies. -/
theorem resolveDisputeByVote_verdict (h : resolveDisputeByVote k env w = .ok u w') :
    ∃ d, w.disputes.dispute k = some d ∧ w'.disputes.dispute k = some d.resolved ∧
      d.quorumThreshold ≤ saturatingAdd d.yesVotes d.noVotes := by
  obtain ⟨d, m, winner, w1, w2, hopen, hpay, hbond, rfl⟩ := resolveDisputeByVote_ok h
  exact ⟨d, hopen.filed, update_self .., hopen.quorum⟩

theorem Dispute.resolved_overturned_iff (d : Dispute) :
    d.resolved.state = .resolvedOverturned ↔ d.noVotes < d.yesVotes := by
  have hiff : d.overturned ↔ d.noVotes < d.yesVotes := Iff.rfl
  rw [← hiff, Dispute.resolved]
  by_cases h : d.overturned <;> simp [h]

theorem saturatingAdd_le {a b : ℤ} (ha : 0 ≤ a) (hb : 0 ≤ b) : saturatingAdd a b ≤ a + b := by
  have hmin : i128Min ≤ 0 := by decide
  unfold saturatingAdd
  omega

/-- Along every run from a state with a dispute : its tallies are the sums of the weights of
those who voted for and against it, as long as these fit ; every vote and weight stays, and no
vote is added once the dispute is resolved ; and a resolution overturns the result exactly if the
first sum exceeds the second, and needs both together to reach the quorum fixed at the filing. -/
theorem dispute_tally_exact (hw : Reachable w) (hd : w.disputes.dispute k = some d)
    (es : List Event) : ∃ (d' : Dispute) (yes no : Finset Address) (weight : Address → ℤ),
      (run step w es).disputes.dispute k = some d' ∧ d'.quorumThreshold = d.quorumThreshold ∧
      (∀ a, a ∈ yes ↔ (run step w es).disputes.disputeVote (k, a) = some true) ∧
      (∀ a, a ∈ no ↔ (run step w es).disputes.disputeVote (k, a) = some false) ∧
      (∀ a ∈ yes ∪ no, (run step w es).disputes.disputeVoteWeight (k, a) = some (weight a)) ∧
      (∑ a ∈ yes, weight a ≤ i128Max → d'.yesVotes = ∑ a ∈ yes, weight a) ∧
      (∑ a ∈ no, weight a ≤ i128Max → d'.noVotes = ∑ a ∈ no, weight a) ∧
      (∀ a, ((w.disputes.disputeVote (k, a)).isSome = true ∨ d.state ≠ .active) →
        (run step w es).disputes.disputeVote (k, a) = w.disputes.disputeVote (k, a) ∧
        (run step w es).disputes.disputeVoteWeight (k, a) = w.disputes.disputeVoteWeight (k, a)) ∧
      ∀ env, Commits env (resolveDisputeByVote k) (run step w es) →
        ∑ a ∈ yes, weight a ≤ i128Max → ∑ a ∈ no, weight a ≤ i128Max →
        d.quorumThreshold ≤ ∑ a ∈ yes, weight a + ∑ a ∈ no, weight a ∧
        ∃ d'', (step (run step w es) (.invoke env (.resolveDisputeByVote k))).disputes.dispute k =
            some d'' ∧
          (d''.state = .resolvedOverturned ↔ ∑ a ∈ no, weight a < ∑ a ∈ yes, weight a) := by
  have hextends := run_extends hw k es
  have hsound := (hw.run es).polls_sound
  generalize run step w es = w' at hextends hsound ⊢
  obtain ⟨d', hd', hfixed, -⟩ := hextends.fixed d hd
  have hquorum : d'.fixed.quorumThreshold = d.fixed.quorumThreshold := by rw [hfixed]
  obtain ⟨_, htrue, hyesVotes⟩ := hsound.tally k d' hd' true
  obtain ⟨_, hfalse, hnoVotes⟩ := hsound.tally k d' hd' false
  have hyesNonneg := hsound.total_nonneg htrue
  have hnoNonneg := hsound.total_nonneg hfalse
  obtain ⟨yes, hyes, rfl⟩ := htrue
  obtain ⟨no, hno, rfl⟩ := hfalse
  have hyesSum (hfit : ∑ a ∈ yes, w'.polls.weightOf k a ≤ i128Max) :
      d'.yesVotes = ∑ a ∈ yes, w'.polls.weightOf k a := hyesVotes.trans (min_eq_right hfit)
  have hnoSum (hfit : ∑ a ∈ no, w'.polls.weightOf k a ≤ i128Max) :
      d'.noVotes = ∑ a ∈ no, w'.polls.weightOf k a := hnoVotes.trans (min_eq_right hfit)
  refine ⟨d', yes, no, w'.polls.weightOf k, hd', hquorum, hyes, hno, fun a ha => ?_, hyesSum,
    hnoSum, fun a ha => ?_, ?_⟩
  · have hvoted : (w'.polls.vote (k, a)).isSome = true := by
      rcases Finset.mem_union.mp ha with ha | ha
      · simp [(hyes a).mp ha]
      · simp [(hno a).mp ha]
    obtain ⟨x, hx, -⟩ := hsound.weighed k a hvoted
    rw [Polls.weightOf, hx]
    exact hx
  · rcases ha with ha | ha
    · exact hextends.votes a ha
    · exact hextends.closed d hd ha a
  · rintro env ⟨w'', h⟩ hyesFit hnoFit
    obtain ⟨d1, hd1, hresolved, hreached⟩ := resolveDisputeByVote_verdict h
    obtain rfl : d' = d1 := mem_unique hd' hd1
    rw [hyesSum hyesFit, hnoSum hnoFit] at hreached
    have hstep : step w' (.invoke env (.resolveDisputeByVote k)) = w''.fresh := invoke_of_ok h
    refine ⟨hquorum.symm.trans_le (hreached.trans (saturatingAdd_le hyesNonneg hnoNonneg)),
      d'.resolved, ?_, ?_⟩
    · rw [hstep]
      exact hresolved
    · rw [d'.resolved_overturned_iff, hyesSum hyesFit, hnoSum hnoFit]

/-- Match 0 is funded and a win of address 2 waits. Address 3 disputes it and votes against it. -/
def polledMatch : World :=
  run step .start (fundedMatch ++
    [.invoke (.plain [1] 0 0) (.control (.setDisputePeriod 1)),
      .invoke (.plain [0] 0 0) (.submitResult 0 .player1 (.ext 0)),
      .invoke (.plain [3] 0 0) (.disputeOracleResult 0 (.ext 3) (List.replicate 64 49)),
      .invoke (.plain [3] 0 0) (.voteOnDispute 0 (.ext 3) true)])

theorem dispute_tally_exact_polledMatch :
    ∃ (d : Dispute) (yes : Finset Address), polledMatch.disputes.dispute 0 = some d ∧
      (∀ a, a ∈ yes ↔ polledMatch.disputes.disputeVote (0, a) = some true) ∧
      Address.ext 3 ∈ yes := by
  have hw : Reachable polledMatch := ⟨.start, _, World.start_initial, rfl⟩
  have hvote : polledMatch.disputes.disputeVote (0, .ext 3) = some true := by decide +kernel
  have hfiled : (polledMatch.disputes.dispute 0).isSome = true := by decide +kernel
  obtain ⟨d, hd⟩ := isSome_iff_exists.mp hfiled
  obtain ⟨-, yes, -, -, -, -, hyes, -⟩ := dispute_tally_exact hw hd []
  exact ⟨d, yes, hd, hyes, (hyes _).mpr hvote⟩

end Checkmate.Escrow

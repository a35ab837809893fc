import Checkmate.Escrow.Runs

/-!
# The records of disputes

Nine entry points write pending results and disputes. All others frame them
(`Call.exec_frames_disputes`), and those that submit results frame the disputes
(`Call.exec_frames_docket`). The rates that bonds and quorums are computed with are at most
100% in every reachable state (`Reachable.shares_bounded`), so that a bond is at most the
stake (`bond_le`).
-/

namespace Checkmate.Escrow

variable {env : Env} {w w' : World} {u : Unit}

/-! ## Frames -/

/-- The entry points that write pending results and disputes. -/
def Call.onDisputes : Call → Bool
  | .submitResult .. | .submitDraw .. | .submitResultWithOracleRecord .. | .submitResultBatch ..
  | .submitResultConsensus .. | .resolveOracleDeadlock .. | .disputeOracleResult ..
  | .voteOnDispute .. | .resolveDisputeByVote .. => true
  | _ => false

/-- The other entry points leave them alone, also where they fail. -/
theorem Call.exec_frames_disputes {call : Call} (h : call.onDisputes = false) :
    Tx.Frames World.disputes call.exec := by
  refine Call.exec_frames fun k hk env d => Write.keeps_disputes (Q := fun d' => d' = d) ?_ ?_
  · rintro rfl
    cases call <;> first | exact Bool.noConfusion h | exact Bool.noConfusion hk
  · rintro rfl
    cases call <;> first | exact Bool.noConfusion h | exact Bool.noConfusion hk

/-- The entry points that write disputes and the votes on them. -/
def Call.onPolls : Call → Bool
  | .disputeOracleResult .. | .voteOnDispute .. | .resolveDisputeByVote .. => true
  | _ => false

/-- The other entry points write pending results at most. -/
theorem Call.exec_frames_onPolls {τ : Type} {f : Disputes → τ} {call : Call}
    (h : call.onPolls = false) (hf : ∀ d winners deadlines,
      f { d with pendingWinner := winners, resultDeadline := deadlines } = f d) :
    Tx.Frames (fun w => f w.disputes) call.exec := by
  refine Call.exec_frames fun k hk env v => ?_
  by_cases hpending : k = .pendingResult
  · subst hpending
    exact fun w _ _ _ hw => (hf w.disputes _ _).trans hw
  · refine Write.keeps_disputes (Q := fun d => f d = v) hpending ?_
    rintro rfl
    cases call <;> first | exact Bool.noConfusion hk | exact Bool.noConfusion h

/-- The disputes and the matches they are about. -/
def World.docket (w : World) : (ℕ → Option Dispute) × (ℕ → Option ℕ) :=
  (w.disputes.dispute, w.disputes.matchDispute)

/-- Results leave the disputes alone. -/
theorem Call.exec_frames_docket {call : Call} {batch : Bool} (h : call.action = .settle batch) :
    Tx.Frames World.docket call.exec := by
  refine Call.exec_frames_onPolls (f := fun d => (d.dispute, d.matchDispute)) ?_ fun _ _ _ => rfl
  cases call <;> first | rfl | exact Action.noConfusion h

/-! ## Rates -/

/-- No rate is over 100%. -/
structure Shares.Bounded (s : Shares) : Prop where
  tiers : ∀ t ∈ s.bondTiers, t.bondBasisPoints ≤ 10000
  bond : s.bond.getD defaultDisputeBondBasisPoints ≤ 10000
  quorum : s.quorum.getD defaultQuorumBasisPoints ≤ 10000

theorem validSchedule_bounds :
    ∀ {prev : ℤ} {tiers : List (ℤ × ℕ)}, validSchedule prev tiers = true → ∀ t ∈ tiers, t.2 ≤ 10000
  | _, (maxStake, bps) :: rest, h, t, ht => by
    simp only [validSchedule, Bool.and_eq_true, decide_eq_true_eq] at h
    rcases List.mem_cons.mp ht with rfl | ht
    · exact h.1.2
    · exact validSchedule_bounds h.2 t ht

theorem ControlCall.exec_bounded {call : ControlCall} {c c' : Control}
    (h : call.exec env c = .ok u c') (hc : c.shares.Bounded) : c'.shares.Bounded := by
  cases hcall : call.setsShares with
  | false => rwa [(ControlCall.exec_frames_shares hcall).ok h]
  | true =>
    cases call with
    | setProtocolConfig =>
      simp [ControlCall.exec, Escrow.setProtocolConfig] at h
      obtain ⟨_, -, -, -, -, -, -, hschedule, -, -, rfl⟩ := h
      refine ⟨fun t ht => ?_, hc.bond, hc.quorum⟩
      exact validSchedule_bounds hschedule (t.maxStake, t.bondBasisPoints)
        (List.mem_map.mpr ⟨t, ht, rfl⟩)
    | setDisputeBondBasisPoints =>
      simp [ControlCall.exec, Escrow.setDisputeBondBasisPoints, setShare] at h
      obtain ⟨_, -, ⟨-, hle⟩, rfl⟩ := h
      exact ⟨hc.tiers, hle, hc.quorum⟩
    | setQuorumBasisPoints =>
      simp [ControlCall.exec, Escrow.setQuorumBasisPoints, setShare] at h
      obtain ⟨_, -, ⟨-, hle⟩, rfl⟩ := h
      exact ⟨hc.tiers, hc.bond, hle⟩
    | _ => exact Bool.noConfusion hcall

theorem Reachable.shares_bounded (hw : Reachable w) : w.control.shares.Bounded := by
  refine hw.control_inv (Q := fun c => c.shares.Bounded) (fun h0 => ?_) (fun _ hc => hc)
    (fun _ _ hc => hc) (fun _ hc => hc) ControlCall.exec_bounded
  obtain ⟨oracle, admin, l, -, rfl⟩ := h0.eq_mk
  exact ⟨fun t ht => absurd ht List.not_mem_nil, Nat.le_of_ble_eq_true rfl,
    Nat.le_of_ble_eq_true rfl⟩

/-- The rate of a bond is the rate of a tier, or the global one. -/
theorem Shares.Bounded.bondFor {c : Control} (h : c.shares.Bounded) (stake : ℤ) :
    c.disputeBondBasisPointsFor stake ≤ 10000 := by
  simp only [Control.disputeBondBasisPointsFor]
  split
  · rename_i t hfind
    exact h.tiers _ (List.mem_of_find?_eq_some hfind)
  · rename_i t hlast
    exact h.tiers _ (List.mem_of_getLast? hlast)
  · exact h.bond

/-- A share of at most 100% of a stake. -/
theorem bond_le {stake share : ℤ} {bps : ℕ} (hbps : bps ≤ 10000)
    (h : basisPointsOf stake bps = some share) : max share 1 ≤ max 1 stake := by
  have hshare : share = (stake * bps).tdiv 10000 := by
    simp [basisPointsOf, checkedMul, checkedDiv, Option.bind_eq_some_iff] at h
    exact h.2.1.symm
  have hle : share ≤ max 1 stake := by
    rcases le_or_gt 0 stake with hstake | hstake
    · have hprod : stake * bps ≤ stake * 10000 :=
        mul_le_mul_of_nonneg_left (by exact_mod_cast hbps) hstake
      rw [hshare, Int.tdiv_eq_ediv_of_nonneg (by positivity)]
      omega
    · have hprod : stake * bps ≤ 0 := mul_nonpos_of_nonpos_of_nonneg hstake.le (by positivity)
      have hneg : 0 ≤ (-(stake * bps)).tdiv 10000 := Int.tdiv_nonneg (by omega) (by omega)
      rw [Int.neg_tdiv] at hneg
      omega
  omega

end Checkmate.Escrow

import Checkmate.Escrow.Counter
import Checkmate.Escrow.History
import Checkmate.Escrow.Cover
import Checkmate.Escrow.Exits

/-!
# The weight of a vote

A vote on a dispute weighs the escrow counter of the voter, as it was recorded a holding period
before the dispute was filed. The last record of a counter is never above the counter
(`run_current`), and a voter who has not lowered their counter in the holding period weighs at
most the last record before the filing (`votingWeight_le`).

The counter adds up the stakes in all tokens, and several paths leave it too high (see
`counter_exact`). A vote weighs at most what the voter had at stake in the token of the match if
they had stakes in no other token then, and a counter that was not above their stakes. Then the
votes weigh no more than the balance from which the quorum was computed
(`vote_weight_le_stake`). Without that, somebody with stakes in another token only can outvote
all the others (`vote_with_other_token`).
-/

namespace Checkmate.Escrow

open Function Option Finset

variable {env : Env} {w w' filed : World} {u : Unit} {i t since k : ℕ} {m : Match}
  {p q r voter token : Address} {sn : Snapshots} {b c : ℤ} {hist new : List PlayerBalanceSnapshot}

/-! ## The last record of a counter -/

/-- What is recorded for a player was recorded up to ledger `t`, and the last of it is at most
`b`. -/
def Snapshots.Current (sn : Snapshots) (p : Address) (t : ℕ) (b : ℤ) : Prop :=
  ∃ hist, History p sn hist ∧ (∀ snap ∈ hist, snap.ledger ≤ t) ∧
    ∀ snap ∈ hist.getLast?, snap.balance ≤ b

namespace Snapshots.Current

section

variable (h : sn.Current p t b)

include h

theorem mono (hle : b ≤ c) : sn.Current p t c := by
  obtain ⟨hist, hhist, hledger, hlast⟩ := h
  exact ⟨hist, hhist, hledger, fun snap hsnap => (hlast snap hsnap).trans hle⟩

theorem record_match (env : Env) (m : Match) (reason : SnapshotReason)
    (balance : ℤ) : (sn.record env m reason balance).Current p t b := by
  obtain ⟨hist, hhist, hrest⟩ := h
  exact ⟨hist, hhist.record_match env m reason balance, hrest⟩

theorem record_other (hne : q ≠ p) (env : Env) (c : ℤ) :
    (sn.recordPlayer env q c).Current p t b := by
  obtain ⟨hist, hhist, hrest⟩ := h
  exact ⟨hist, hhist.record_other hne env c, hrest⟩

theorem record_self (hseq : env.sequence ≤ t) (c : ℤ) :
    (sn.recordPlayer env p c).Current p t c := by
  obtain ⟨hist, hhist, hledger, -⟩ := h
  refine ⟨_, hhist.record env c, fun snap hsnap => ?_, fun snap hsnap => ?_⟩
  · rcases List.mem_append.mp hsnap with hold | hnew
    · exact hledger snap hold
    · rw [List.mem_singleton.mp hnew]
      exact hseq
  · rw [List.getLast?_concat, mem_some_iff] at hsnap
    rw [← hsnap]

/-- A counter is recorded, whoever it belongs to. -/
theorem record (hseq : env.sequence ≤ t) (e : Address → ℤ)
    (hother : q ≠ p → b ≤ e p) : (sn.recordPlayer env q (e q)).Current p t (e p) := by
  by_cases hq : q = p
  · subst hq
    exact h.record_self hseq _
  · exact (h.record_other hq env _).mono (hother hq)

/-- Two counters are recorded. -/
theorem record_both (hseq : env.sequence ≤ t) (e : Address → ℤ)
    (hother : q ≠ p → r ≠ p → b ≤ e p) :
    ((sn.recordPlayer env q (e q)).recordPlayer env r (e r)).Current p t (e p) := by
  by_cases hq : q = p
  · subst hq
    exact (h.record_self hseq _).record hseq e fun _ => le_rfl
  · exact (h.record_other hq env _).record hseq e (hother hq)

/-- The counters of those who had deposited are recorded. -/
theorem record_depositors (hseq : env.sequence ≤ t) (e : Address → ℤ)
    (hother : (m.player1Deposited = true → m.player1 ≠ p) →
      (m.player2Deposited = true → m.player2 ≠ p) → b ≤ e p) :
    (sn.recordDepositors env m e).Current p t (e p) := by
  unfold Snapshots.recordDepositors
  cases h1 : m.player1Deposited <;> cases h2 : m.player2Deposited <;>
    simp only [h1, h2, Bool.false_eq_true, false_implies, forall_const] at hother
  · exact h.mono hother
  · exact h.record hseq e hother
  · exact h.record hseq e hother
  · exact h.record_both hseq e hother

end

end Snapshots.Current

/-- The last record of a player's counter is not above the counter. -/
structure World.Current (w : World) (p : Address) (t : ℕ) : Prop where
  fits : w.escrow p ≤ i128Max
  recorded : w.snapshots.Current p t (w.escrow p)

theorem saturatingAdd_le_max (b c : ℤ) : saturatingAdd b c ≤ i128Max := by
  have : i128Min ≤ i128Max := by decide
  unfold saturatingAdd
  omega

theorem addToEscrow_le {e : Address → ℤ} (h : e p ≤ i128Max) (q : Address) (delta : ℤ) :
    addToEscrow e q delta p ≤ i128Max := by
  unfold addToEscrow
  rw [update_apply]
  split
  · exact saturatingAdd_le_max _ _
  · exact h

theorem addToEscrow_other {e : Address → ℤ} (hne : q ≠ p) (delta : ℤ) :
    addToEscrow e q delta p = e p := update_of_ne hne.symm ..

/-- A counter that is raised does not fall. -/
theorem le_addToEscrow {e : Address → ℤ} (h : e p ≤ i128Max) {delta : ℤ} (hdelta : 0 ≤ delta)
    (q : Address) : e p ≤ addToEscrow e q delta p := by
  by_cases hq : q = p
  · subst hq
    have : i128Min ≤ i128Max := by decide
    rw [addToEscrow, update_self, saturatingAdd]
    omega
  · rw [addToEscrow_other hq]

theorem Write.keeps_current (k : Write) (hk : k ≠ .escrow) (hseq : env.sequence ≤ t) :
    k.Keeps env fun w => w.Current p t := by
  cases k with
  | escrow => exact absurd rfl hk
  | snapshot =>
    exact fun w m reason balance h => ⟨h.fits, h.recorded.record_match env m reason balance⟩
  | playerSnapshot =>
    exact fun w other h => ⟨h.fits, h.recorded.record hseq w.escrow fun _ => le_rfl⟩
  | rotation | pendingResult => exact fun _ _ _ _ h => ⟨h.fits, h.recorded⟩
  | auth | depositGuard | transfer | index | stats | control | matchMap | matchCount | disputes
  | oracleRecord | consensus =>
    first
    | exact fun _ _ h => ⟨h.fits, h.recorded⟩
    | exact fun _ _ _ h => ⟨h.fits, h.recorded⟩

/-! ## Entry points that change counters -/

/-- The counters of two players are changed and recorded. -/
theorem World.Current.record_both {reason : SnapshotReason} {balance delta delta' : ℤ}
    (h : w.Current p t) (hseq : env.sequence ≤ t)
    (hescrow : w'.escrow = addToEscrow (addToEscrow w.escrow q delta) r delta')
    (hsn : w'.snapshots = ((w.snapshots.record env m reason balance).recordPlayer env q
      (w'.escrow q)).recordPlayer env r (w'.escrow r)) : w'.Current p t := by
  refine ⟨?_, ?_⟩
  · rw [hescrow]
    exact addToEscrow_le (addToEscrow_le h.fits _ _) _ _
  · rw [hsn]
    refine (h.recorded.record_match env _ _ _).record_both hseq _ fun hq hr => ?_
    rw [hescrow, addToEscrow_other hr, addToEscrow_other hq]

theorem settledNow_current (h : w.Current p t) (hseq : env.sequence ≤ t) :
    (w.settledNow env i m).Current p t := h.record_both hseq rfl rfl

theorem settleResult_current {winner : Winner} (hseq : env.sequence ≤ t)
    (h : settleResult i winner env w = .ok u w') (hw : w.Current p t) : w'.Current p t := by
  obtain ⟨m, -, ⟨-, -, rfl⟩ | ⟨-, balance, -, -, rfl⟩⟩ := settleResult_ok_iff.mp h
  · exact settledNow_current ⟨hw.fits, hw.recorded⟩ hseq
  · exact ⟨hw.fits, hw.recorded.record_match env _ _ _⟩

theorem settleResult_err_current {winner : Winner} {e : Error} (hseq : env.sequence ≤ t)
    (h : settleResult i winner env w = .err e w') (hw : w.Current p t) : w'.Current p t := by
  cases settleResult_err h with
  | rejected => exact hw
  | potOverflow => exact settledNow_current ⟨hw.fits, hw.recorded⟩ hseq
  | deadlineOverflow => exact ⟨hw.fits, hw.recorded⟩

theorem deposit_current {player : Address} (hseq : env.sequence ≤ t)
    (h : deposit i player env w = .ok u w') (hw : w.Current p t) : w'.Current p t := by
  obtain ⟨m, l, m', ix, balance, -, -, -, -, rfl⟩ := deposit_ok_iff.mp h
  refine ⟨addToEscrow_le hw.fits _ _, ?_⟩
  refine (hw.recorded.record_match env _ _ _).record hseq
    (addToEscrow w.escrow player m.stakeAmount) fun hne => ?_
  rw [addToEscrow_other hne]

/-- A deposit that fails after the transfer has raised the counter without a record. -/
theorem deposit_err_current {player : Address} {e : Error}
    (h : deposit i player env w = .err e w') (hw : w.Current p t) : w'.Current p t := by
  rcases deposit_err h with hcheck | ⟨m, l, ix, -, hl, -, -, rfl⟩
  · cases hcheck <;> exact ⟨hw.fits, hw.recorded⟩
  · have hpos : 0 ≤ m.stakeAmount := Ledger.transfer_nonneg (Env.transfer_eq_some hl)
    exact ⟨addToEscrow_le hw.fits _ _, hw.recorded.mono (le_addToEscrow hw.fits hpos _)⟩

/-- The depositors of a match that is cancelled. -/
theorem released_current {env : Env} {balance : ℤ} (h : w.Current p t)
    (hseq : env.sequence ≤ t) (hw : w'.escrow = m.releaseEscrow w.escrow)
    (hsn : w'.snapshots = (w.snapshots.record env m .cancelled balance).recordDepositors env m
      (m.releaseEscrow w.escrow)) : w'.Current p t := by
  refine ⟨?_, ?_⟩
  · rw [hw]
    unfold Match.releaseEscrow
    cases m.player1Deposited <;> cases m.player2Deposited
    · exact h.fits
    · exact addToEscrow_le h.fits _ _
    · exact addToEscrow_le h.fits _ _
    · exact addToEscrow_le (addToEscrow_le h.fits _ _) _ _
  · rw [hw, hsn]
    refine (h.recorded.record_match env _ _ _).record_depositors hseq _ fun h1 h2 => ?_
    unfold Match.releaseEscrow
    cases hd1 : m.player1Deposited <;> cases hd2 : m.player2Deposited
    · exact le_rfl
    · exact (addToEscrow_other (h2 hd2) _).ge
    · exact (addToEscrow_other (h1 hd1) _).ge
    · exact ((addToEscrow_other (h2 hd2) _).trans (addToEscrow_other (h1 hd1) _)).ge

theorem expireMatch_current (hseq : env.sequence ≤ t) (h : expireMatch i env w = .ok u w')
    (hw : w.Current p t) : w'.Current p t := by
  simp [expireMatch, markCancelled, releaseCounters, snapshotCancelled] at h
  obtain ⟨m, -, -, -, -, _, w1, hpay, balance, -, rfl⟩ := h
  obtain ⟨amountB, -, l, -, rfl⟩ := refundDeposits_ok hpay
  exact released_current hw hseq rfl rfl

theorem expireMatch_err_current {e : Error} (h : expireMatch i env w = .err e w')
    (hw : w.Current p t) : w'.Current p t := by
  simp [expireMatch, markCancelled, releaseCounters, snapshotCancelled] at h
  rcases h with ⟨-, -, rfl⟩ | ⟨m, -, h⟩
  · exact hw
  rcases h with ⟨-, -, rfl⟩ | ⟨-, ⟨-, -, rfl⟩ | ⟨-, ⟨-, -, rfl⟩ | ⟨-, h⟩⟩⟩
  · exact hw
  · exact hw
  · exact hw
  obtain ⟨-, -, l, -, rfl⟩ := refundDeposits_err h
  exact ⟨hw.fits, hw.recorded⟩

theorem cancelMatch_current {caller : Address} (hseq : env.sequence ≤ t)
    (h : cancelMatch i caller env w = .ok u w') (hw : w.Current p t) : w'.Current p t := by
  simp [cancelMatch, markCancelled, releaseCounters, snapshotCancelled] at h
  obtain ⟨-, m, -, -, -, -, _, w1, hpay, balance, -, rfl⟩ := h
  obtain ⟨fee, amountB, feeB, -, -, l, -, rfl⟩ := refundCancelled_ok hpay
  exact released_current hw hseq rfl rfl

theorem finalizeMatch_current (hseq : env.sequence ≤ t)
    (h : finalizeMatch i env w = .ok u w') (hw : w.Current p t) : w'.Current p t := by
  obtain ⟨m, winner, w1, -, hpay, rfl⟩ := finalizeMatch_ok h
  obtain ⟨ts, ⟨l, -, rfl⟩, -⟩ := executePayout_ok hpay
  exact hw.record_both hseq rfl rfl

theorem exec_current {call : Call} (hseq : env.sequence ≤ t) (h : call.exec env w = .ok u w')
    (hw : w.Current p t) : w'.Current p t := by
  cases hescrow : call.makes .escrow with
  | false =>
    refine Tx.Maintains.ok (P := fun w => w.Current p t)
      (Call.exec_maintains fun k hk => k.keeps_current ?_ hseq) hw h
    rintro rfl
    exact Bool.noConfusion (hescrow.symm.trans hk)
  | true =>
    let R (s s' : World) : Prop := s.Current p t → s'.Current p t
    have htrans {s1 s2 s3 : World} (h : R s1 s2) (h' : R s2 s3) : R s1 s3 := fun hs => h' (h hs)
    cases call with
    | deposit => exact deposit_current hseq h hw
    | depositBatch =>
      obtain ⟨_, h⟩ := void_ok_iff.mp h
      simp [depositBatch] at h
      exact Tx.batch_rel (R := R) (fun _ hs => hs) htrans (deposit_current hseq)
        deposit_err_current h.2 hw
    | cancelMatch => exact cancelMatch_current hseq h hw
    | expireMatch => exact expireMatch_current hseq h hw
    | bulkExpireMatches =>
      obtain ⟨_, h⟩ := void_ok_iff.mp h
      cases hadmin : w.control.admin with
      | none =>
        simp [bulkExpireMatches, hadmin] at h
        rwa [h.2]
      | some =>
        simp [bulkExpireMatches, hadmin] at h
        obtain ⟨-, os, h, -⟩ := h
        exact Tx.batch_rel (R := R) (fun _ hs => hs) htrans (expireMatch_current hseq)
          expireMatch_err_current h ⟨hw.fits, hw.recorded⟩
    | finalizeMatch => exact finalizeMatch_current hseq h hw
    | submitResult | submitDraw | submitResultWithOracleRecord | submitResultConsensus
    | resolveOracleDeadlock | submitResultBatch =>
      exact exec_settle_rel (R := R) (fun _ _ _ _ hs => ⟨hs.fits, hs.recorded⟩) htrans
        (settleResult_current hseq) (settleResult_err_current hseq) h rfl hw
    | _ => exact Bool.noConfusion hescrow

/-- The event happens up to a ledger. -/
def Event.NotAfter (sequence : ℕ) : Event → Prop
  | .invoke env _ => env.sequence ≤ sequence
  | _ => True

theorem run_current {w0 : World} {es : List Event} (h0 : Initial w0)
    (hes : ∀ e ∈ es, e.NotAfter t) (p : Address) : (run step w0 es).Current p t := by
  refine run_inv (I := fun w : World => w.Current p t) (fun w e hw he => ?_) ?_
    (along_of_forall hes)
  · refine step_keeps (P := fun w => w.Current p t) hw ?_ (fun _ => ⟨hw.fits, hw.recorded⟩)
      fun _ => ⟨hw.fits, hw.recorded⟩
    rintro env call w' rfl h
    have hnew := exec_current (w := w.fresh) he h ⟨hw.fits, hw.recorded⟩
    exact ⟨hnew.fits, hnew.recorded⟩
  · obtain ⟨oracle, admin, l, -, rfl⟩ := h0.eq_mk
    exact ⟨(by decide : (0 : ℤ) ≤ i128Max), [], .start rfl, by simp, by simp⟩

/-! ## The weight is the last record -/

/-- In the holding period before the snapshot the voter's recorded balance did not fall. Without
such a period, nothing was recorded at the ledger of the snapshot itself. -/
structure Snapshots.Held (sn : Snapshots) (voter : Address) (since snapshotLedger : ℕ) :
    Prop where
  rises : ∀ i < maxPlayerSnapshots, ∀ snap ∈ sn.playerSnapshot (voter, i),
    ∀ j < maxPlayerSnapshots, ∀ later ∈ sn.playerSnapshot (voter, j),
      snap.index < later.index → snap.ledger ≤ since → since < later.ledger →
        later.ledger ≤ snapshotLedger → snap.balance ≤ later.balance
  before : since = snapshotLedger → ∀ i < maxPlayerSnapshots,
    ∀ snap ∈ sn.playerSnapshot (voter, i), snap.ledger ≠ snapshotLedger

/-- A voter who held their stake weighs at most what was last recorded at the snapshot. -/
theorem votingWeight_le (h : History voter sn (hist ++ new))
    (hcount : sn.playerSnapshotCount voter < u64Max) (hbefore : ∀ snap ∈ hist, snap.ledger ≤ t)
    (hafter : ∀ snap ∈ new, t ≤ snap.ledger) (hle : since ≤ t) (hheld : sn.Held voter since t)
    (hweight : sn.votingWeight voter t since = some b) :
    ∃ snap ∈ hist.getLast?, b ≤ snap.balance := by
  have hlen : (hist ++ new).length ≤ u64Max := by
    have := h.count
    omega
  have hring := h.holds hlen
  rw [h.votingWeight_eq hlen hle, balanceKept_eq_some_iff] at hweight
  obtain ⟨i, snap, ⟨hsnap, hledger, hlast⟩, hkept, rfl⟩ := hweight
  have hslot := hring i snap hsnap hkept
  have hmod (i : ℕ) : i % maxPlayerSnapshots < maxPlayerSnapshots := Nat.mod_lt i (by decide)
  -- Nothing recorded from the snapshot on is as old as the entry that was found.
  have hi : i < hist.length := by
    by_contra hge
    rw [List.getElem?_append_right (not_lt.mp hge)] at hsnap
    have hnew := hafter snap (List.mem_of_getElem? hsnap)
    exact hheld.before (by omega) _ (hmod i) snap hslot (by omega)
  have hne : hist ≠ [] := List.ne_nil_of_length_pos (by omega)
  refine ⟨hist.getLast hne, List.getLast?_eq_some_getLast hne, ?_⟩
  have hend : (hist ++ new)[hist.length - 1]? = some (hist.getLast hne) := by
    rw [List.getElem?_append_left (by omega), List.getLast_eq_getElem,
      List.getElem?_eq_getElem (by omega)]
  rcases eq_or_lt_of_le (Nat.le_sub_one_of_lt hi) with heq | hlt
  · rw [heq] at hsnap
    rw [mem_unique hsnap hend]
  · have hlater := hlast _ _ hlt hend
    refine hheld.rises _ (hmod i) snap hslot _ (hmod _) _ (hring _ _ hend (by omega)) ?_ hledger
      hlater (hbefore _ (List.getLast_mem hne))
    rw [h.index hlen hsnap, h.index hlen hend]
    exact hlt

/-! ## Stakes in a token -/

/-- What `p` has at stake in `token`, in all matches that are not over. -/
def Book.stakesIn (b : Book) (token p : Address) : ℤ :=
  ∑ id ∈ Finset.range b.matchCount,
    (b.matchMap id).elim 0 fun m => if m.token = token then m.stakedBy p else 0

/-- All that `p` has at stake is in `token`. -/
def Book.StakesOnly (b : Book) (token p : Address) : Prop :=
  ∀ id m, b.matchMap id = some m → m.stakedBy p ≠ 0 → m.token = token

theorem Book.StakesOnly.stakesIn_eq {b : Book} (h : b.StakesOnly token p) :
    b.stakesIn token p = b.stakesOf p := by
  refine sum_congr rfl fun id _ => ?_
  unfold Book.stakeAt
  cases hm : b.matchMap id with
  | none => rfl
  | some m =>
    rw [elim_some, elim_some]
    split
    · rfl
    · rename_i hne
      exact (not_not.mp fun hstake => hne (h id m hm hstake)).symm

/-- Whoever they are, the players of a match have no more at stake than it was funded with. -/
theorem Match.sum_stakedBy_le (hstake : 0 ≤ m.stakeAmount) (hopen : m.state.terminal = false)
    (players : Finset Address) : ∑ p ∈ players, m.stakedBy p ≤ m.funded := by
  have hside (side : Side) : ∑ p ∈ players, m.stakeOf p side ≤
      if m.deposited side = true then m.stakeAmount else 0 := by
    unfold Match.stakeOf
    by_cases hd : m.deposited side = true
    · simp only [hd, and_true, if_true, sum_ite_eq]
      split <;> omega
    · simp [hd]
  have h1 := hside .player1
  have h2 := hside .player2
  simp only [Match.stakedBy_open hopen, sum_add_distrib]
  unfold Match.funded Match.depositorCount
  simp only [Match.deposited] at h1 h2
  cases hd1 : m.player1Deposited <;> cases hd2 : m.player2Deposited <;>
    simp [hd1, hd2] at h1 h2 ⊢ <;> omega

theorem sum_stakesIn_le (hsound : w.book.Sound) (token : Address) (players : Finset Address) :
    ∑ p ∈ players, w.book.stakesIn token p ≤
      ∑ id ∈ Finset.range w.matchCount, w.openStakes token id := by
  unfold Book.stakesIn
  rw [sum_comm]
  refine sum_le_sum fun id _ => ?_
  change ∑ p ∈ players, (w.matchMap id).elim 0 _ ≤ _
  unfold World.openStakes
  cases hm : w.matchMap id with
  | none => simp
  | some m =>
    have hstake := (hsound.stored id m hm).stake_nonneg
    simp only [elim_some]
    by_cases htoken : m.token = token
    · cases hopen : m.state.terminal with
      | false => simpa [htoken] using Match.sum_stakedBy_le hstake hopen players
      | true => simp [htoken, Match.stakedBy_over hopen]
    · simp [htoken]

/-! ## Votes on one dispute -/

/-- Only votes write the votes and their weights. -/
theorem exec_votes {call : Call} (h : call.exec env w = .ok u w')
    (hcall : ∀ k a vote, call ≠ .voteOnDispute k a vote) :
    w'.disputes.disputeVote = w.disputes.disputeVote ∧
      w'.disputes.disputeVoteWeight = w.disputes.disputeVoteWeight := by
  cases hpolls : call.onPolls with
  | false =>
    have hsame := (Call.exec_frames_polls hpolls).ok h
    exact ⟨congrArg Polls.vote hsame, congrArg Polls.weight hsame⟩
  | true =>
    cases call with
    | voteOnDispute k a vote => exact absurd rfl (hcall k a vote)
    | disputeOracleResult =>
      obtain ⟨n, h⟩ := void_ok_iff.mp h
      obtain ⟨m, share, l, quorum, oracle, -, -, -, -, -, rfl⟩ := disputeOracleResult_ok h
      exact ⟨rfl, rfl⟩
    | resolveDisputeByVote =>
      obtain ⟨d, m, winner, w1, w2, -, hpay, hbond, rfl⟩ := resolveDisputeByVote_ok h
      obtain ⟨ts, ⟨l, -, rfl⟩, -⟩ := executePayout_ok hpay
      obtain ⟨l', -, rfl⟩ := transfer_paid hbond
      exact ⟨rfl, rfl⟩
    | _ => exact Bool.noConfusion hpolls

/-- A voter on dispute `k`, which was filed in the state `filed` over a match for `token` : they
had stakes in no other token then, and a counter that was not above their stakes, and they have
held what they weigh. -/
structure VoterSound (filed : World) (token : Address) (k : ℕ) (w : World) (voter : Address) :
    Prop where
  only : filed.book.StakesOnly token voter
  counted : filed.escrow voter ≤ filed.book.stakesOf voter
  fits : w.snapshots.playerSnapshotCount voter < u64Max
  held : ∀ d ∈ w.disputes.dispute k,
    w.snapshots.Held voter (w.control.heldSince d) d.snapshotLedger

/-- Whoever has a vote on the dispute accepted is sound. -/
def VotesSound (filed : World) (token : Address) (k : ℕ) (w : World) : Event → Prop
  | .invoke env (.voteOnDispute disputeId voter vote) => disputeId = k →
    Commits env (Call.voteOnDispute disputeId voter vote).exec w → VoterSound filed token k w voter
  | _ => True

/-- A history up to ledger `t`, of which the last balance is at most `b`, and what follows. -/
def Grown (t : ℕ) (b : ℤ) (hist : List PlayerBalanceSnapshot) : Prop :=
  ∃ old new, hist = old ++ new ∧ (∀ snap ∈ old, snap.ledger ≤ t) ∧
    (∀ snap ∈ old.getLast?, snap.balance ≤ b) ∧ ∀ snap ∈ new, t ≤ snap.ledger

theorem Grown.concat {snap : PlayerBalanceSnapshot} (h : Grown t b hist) (hsnap : t ≤ snap.ledger) :
    Grown t b (hist ++ [snap]) := by
  obtain ⟨old, new, rfl, hold, hlast, hnew⟩ := h
  refine ⟨old, new ++ [snap], List.append_assoc .., hold, hlast, fun s hs => ?_⟩
  rcases List.mem_append.mp hs with hs | hs
  · exact hnew s hs
  · rwa [List.mem_singleton.mp hs]

/-- What holds after a dispute was filed, as long as the votes on it are sound. -/
structure Weighed (filed : World) (token : Address) (k t : ℕ) (w : World) : Prop where
  grown : ∀ p, ∃ hist, History p w.snapshots hist ∧ Grown t (filed.escrow p) hist
  dispute : ∃ d, w.disputes.dispute k = some d ∧ d.snapshotLedger = t
  weights : ∀ a x, (w.disputes.disputeVote (k, a)).isSome = true →
    w.disputes.disputeVoteWeight (k, a) = some x → x ≤ filed.book.stakesIn token a

/-- An accepted vote weighs at most what the voter had at stake. -/
theorem Weighed.weight_le {d : Dispute} (h : Weighed filed token k t w)
    (hd : w.disputes.dispute k = some d) (hvoter : VoterSound filed token k w voter)
    (hweight : w.snapshots.votingWeight voter d.snapshotLedger (w.control.heldSince d) = some b) :
    b ≤ filed.book.stakesIn token voter := by
  obtain ⟨hist, hhist, old, new, rfl, hold, hlast, hnew⟩ := h.grown voter
  obtain ⟨d', hd', hledger⟩ := h.dispute
  obtain rfl : d = d' := mem_unique hd hd'
  have hheld := hvoter.held d hd
  have hsince : w.control.heldSince d ≤ d.snapshotLedger := Nat.sub_le ..
  rw [hledger] at hweight hheld hsince
  obtain ⟨snap, hsnap, hle⟩ := votingWeight_le hhist hvoter.fits hold hnew hsince hheld hweight
  calc
    b ≤ snap.balance := hle
    _ ≤ filed.escrow voter := hlast snap hsnap
    _ ≤ filed.book.stakesOf voter := hvoter.counted
    _ = filed.book.stakesIn token voter := hvoter.only.stakesIn_eq.symm

theorem Weighed.step {e : Event} (h : Weighed filed token k t w)
    (hw : Reachable w) (he : e.NotBefore t) (hvote : VotesSound filed token k w e) :
    Weighed filed token k t (step w e) where
  grown p := by
    refine step_history (Q := Grown t (filed.escrow p)) ?_ (h.grown p)
    rintro env call rfl hist snap hsnap hhist
    exact hhist.concat (hsnap ▸ he)
  dispute := by
    obtain ⟨d, hd, hledger⟩ := h.dispute
    obtain ⟨d', hd', hfixed, -⟩ := ((step_polls hw e).extends k).fixed d hd
    have hsame : d'.fixed.snapshotLedger = d.fixed.snapshotLedger := by rw [hfixed]
    exact ⟨d', hd', hsame.trans hledger⟩
  weights := by
    refine step_keeps (P := fun w => ∀ a x, (w.disputes.disputeVote (k, a)).isSome = true →
      w.disputes.disputeVoteWeight (k, a) = some x → x ≤ filed.book.stakesIn token a) h.weights ?_
      (fun _ => h.weights) fun _ => h.weights
    rintro env call w' rfl hexec a x ha hx
    by_cases hcall : ∃ j voter vote, call = .voteOnDispute j voter vote
    · obtain ⟨j, voter, vote, rfl⟩ := hcall
      have hc : Commits env (Call.voteOnDispute j voter vote).exec w := ⟨w', hexec⟩
      obtain ⟨d, weight, hopen, hweight, -, rfl⟩ := voteOnDispute_ok_iff.mp hexec
      change update w.disputes.disputeVoteWeight (j, voter) (some weight) (k, a) = some x at hx
      change (update w.disputes.disputeVote (j, voter) (some vote) (k, a)).isSome = true at ha
      rcases eq_some_of_update hx with ⟨hpair, rfl⟩ | ⟨hpair, hx⟩
      · obtain ⟨rfl, rfl⟩ := Prod.mk.inj hpair
        exact h.weight_le hopen.filed (hvote rfl hc) hweight
      · rw [update_of_ne hpair] at ha
        exact h.weights a x ha hx
    · obtain ⟨hvotes, hweights⟩ := exec_votes hexec fun j voter vote hj =>
        hcall ⟨j, voter, vote, hj⟩
      have ha' : (w.disputes.disputeVote (k, a)).isSome = true := (congrFun hvotes (k, a)) ▸ ha
      exact h.weights a x ha' ((congrFun hweights (k, a)).symm.trans hx)

/-- A filed dispute has no votes, and what was recorded before is the old part of every
history. -/
theorem filing_weighed {w0 : World} {pre : List Event} {disputer : Address} {evidenceHash : Bytes}
    {share quorum : ℤ} {l : Ledger Address} {oracle : Address}
    (h0 : Initial w0) (hpre : ∀ e ∈ pre, e.NotAfter env.sequence)
    (hfiled : run step w0 pre = filed) (token : Address) :
    Weighed filed token filed.disputes.disputeCount env.sequence (filed.fresh.disputing i disputer m
        (filed.fresh.newDispute env i disputer evidenceHash m share l quorum) l oracle).fresh := by
  have hw : Reachable filed := ⟨w0, pre, h0, hfiled⟩
  refine ⟨fun p => ?_, ⟨_, update_self .., rfl⟩, fun a x ha hx => ?_⟩
  · obtain ⟨-, hist, hhist, hledger, hlast⟩ := run_current h0 hpre p
    rw [hfiled] at hhist hlast
    exact ⟨hist, hhist, hist, [], (List.append_nil _).symm, hledger, hlast, by simp⟩
  · have hknown := hw.polls_sound.known filed.disputes.disputeCount a ha
    obtain ⟨d, hd⟩ := isSome_iff_exists.mp hknown
    exact absurd ((hw.tracks 0).1 _ d hd).1 (lt_irrefl _)

/-- The votes on both sides weigh at most what the balance at the filing covers. -/
theorem Weighed.votes_le {d : Dispute} {total : ℤ}
    (h : Weighed filed token k t w) (hw : Reachable w) (hfiled : Reachable filed)
    (hd : w.disputes.dispute k = some d)
    (htotal : ∑ id ∈ Finset.range filed.matchCount, filed.openStakes token id ≤ total) :
    d.yesVotes + d.noVotes ≤ total := by
  have hpolls := hw.polls_sound
  obtain ⟨_, ⟨yes, hyes, rfl⟩, hyesVotes⟩ := hpolls.tally k d hd true
  obtain ⟨_, ⟨no, hno, rfl⟩, hnoVotes⟩ := hpolls.tally k d hd false
  have hdisjoint : Disjoint yes no := by
    refine disjoint_left.mpr fun a hy hn => ?_
    exact absurd (((hyes a).mp hy).symm.trans ((hno a).mp hn)) (by simp)
  have hweight (a : Address) (ha : a ∈ yes ∪ no) :
      w.polls.weightOf k a ≤ filed.book.stakesIn token a := by
    have hvoted : (w.disputes.disputeVote (k, a)).isSome = true := by
      rcases mem_union.mp ha with ha | ha
      · exact isSome_of_mem ((hyes a).mp ha)
      · exact isSome_of_mem ((hno a).mp ha)
    obtain ⟨x, hx, -⟩ := hpolls.weighed k a hvoted
    rw [Polls.weightOf, hx]
    exact h.weights a x hvoted hx
  calc
    d.yesVotes + d.noVotes ≤
        ∑ a ∈ yes, w.polls.weightOf k a + ∑ a ∈ no, w.polls.weightOf k a := by
      have hy : d.yesVotes ≤ ∑ a ∈ yes, w.polls.weightOf k a :=
        hyesVotes.trans_le (min_le_right _ _)
      have hn : d.noVotes ≤ ∑ a ∈ no, w.polls.weightOf k a := hnoVotes.trans_le (min_le_right _ _)
      omega
    _ = ∑ a ∈ yes ∪ no, w.polls.weightOf k a := (sum_union hdisjoint).symm
    _ ≤ ∑ a ∈ yes ∪ no, filed.book.stakesIn token a := sum_le_sum hweight
    _ ≤ ∑ id ∈ Finset.range filed.matchCount, filed.openStakes token id :=
      sum_stakesIn_le hfiled.sound token _
    _ ≤ total := htotal

/-- A dispute is filed after `pre`, and `post` follows. If whoever votes on it had stakes in no
other token at the filing, a counter that was not above them, and has held them, then a vote
weighs at most what the voter had at stake in the token of the match when the dispute was filed,
and nobody without such a stake votes. If moreover claims were made once and every match was
single-token, the votes weigh no more than the balance from which the quorum was computed. -/
theorem vote_weight_le_stake {w0 : World} {pre post : List Event} {disputer : Address}
    {evidenceHash : Bytes} (h0 : Initial w0) (hpre : ∀ e ∈ pre, e.NotAfter env.sequence)
    (hpost : ∀ e ∈ post, e.NotBefore env.sequence)
    (hfile : Commits env (Call.disputeOracleResult i disputer evidenceHash).exec (run step w0 pre))
    (hm : (run step w0 pre).matchMap i = some m) (hvotes : Along step
      (VotesSound (run step w0 pre) m.token (run step w0 pre).disputes.disputeCount)
      (step (run step w0 pre) (.invoke env (.disputeOracleResult i disputer evidenceHash))) post) :
    let filed := run step w0 pre
    let k := filed.disputes.disputeCount
    let w := run step
      (step filed (.invoke env (.disputeOracleResult i disputer evidenceHash))) post
    ∃ d, w.disputes.dispute k = some d ∧ d.matchId = i ∧
      d.snapshotLedger = env.sequence ∧
      (∀ a x, (w.disputes.disputeVote (k, a)).isSome = true →
        w.disputes.disputeVoteWeight (k, a) = some x → x ≤ filed.book.stakesIn m.token a) ∧
      (∀ a, filed.book.stakesIn m.token a = 0 → w.disputes.disputeVote (k, a) = none) ∧
      (Along step ClaimsOnce w0 pre →
        (∀ id m, filed.matchMap id = some m → m.tokenB = none) →
        d.yesVotes + d.noVotes ≤ d.snapshotTotalWeight) := by
  intro filed k w
  have hfiled : Reachable filed := ⟨w0, pre, h0, rfl⟩
  obtain ⟨w1, hexec⟩ := hfile
  have hstep : step filed (.invoke env (.disputeOracleResult i disputer evidenceHash)) =
      w1.fresh := invoke_of_ok hexec
  obtain ⟨n, hexec⟩ := void_ok_iff.mp hexec
  obtain ⟨m1, share, l, quorum, oracle, hopen, hl, -, -, -, rfl⟩ :=
    disputeOracleResult_ok hexec
  obtain rfl : m = m1 := mem_unique hm hopen.stored
  have hstart : Weighed filed m.token k env.sequence
      (step filed (.invoke env (.disputeOracleResult i disputer evidenceHash))) := by
    rw [hstep]
    exact filing_weighed h0 hpre rfl m.token
  have hafter := hfiled.step (.invoke env (.disputeOracleResult i disputer evidenceHash))
  obtain ⟨hw, hend⟩ : Reachable w ∧ Weighed filed m.token k env.sequence w :=
    run_inv (I := fun w => Reachable w ∧ Weighed filed m.token k env.sequence w)
      (fun w e h he => ⟨h.1.step e, h.2.step h.1 he.1 he.2⟩) ⟨hafter, hstart⟩
      ((along_of_forall hpost).and hvotes)
  obtain ⟨d, hd, hfixed, -⟩ := (run_extends hafter k post).fixed
    (filed.fresh.newDispute env i disputer evidenceHash m share l quorum)
    (by rw [hstep]; exact update_self ..)
  have hmatch : d.fixed.matchId = i := by rw [hfixed]; rfl
  have hledger : d.fixed.snapshotLedger = env.sequence := by rw [hfixed]; rfl
  have htotal : d.fixed.snapshotTotalWeight = l m.token .self := by rw [hfixed]; rfl
  refine ⟨d, hd, hmatch, hledger, hend.weights, fun a hnone => ?_, fun hclaims hsingle => ?_⟩
  · cases hvote : w.disputes.disputeVote (k, a) with
    | none => rfl
    | some =>
      have hvoted : (w.disputes.disputeVote (k, a)).isSome = true := isSome_of_mem hvote
      obtain ⟨x, hx, hpos⟩ := hw.polls_sound.weighed k a hvoted
      have hle := hend.weights a x hvoted hx
      omega
  · refine hend.votes_le hw hfiled hd ?_
    have hcover : ∑ id ∈ Finset.range filed.matchCount, filed.openStakes m.token id ≤
        filed.ledger m.token .self := balance_covers_open h0 hclaims hsingle m.token
    have hbond : (l m.token .self : ℤ) = filed.ledger m.token .self + Movement.flow .self m.token
          (⟨m.token, disputer, .self, max share 1, ⟨i, .bond⟩⟩ : Transfer) :=
      Ledger.transfer_flow (Env.transfer_eq_some hl) .self m.token
    have hflow : 0 ≤ Movement.flow .self m.token
        (⟨m.token, disputer, .self, max share 1, ⟨i, .bond⟩⟩ : Transfer) := by
      unfold Movement.flow
      simp
      split <;> omega
    have htotal' : d.snapshotTotalWeight = l m.token .self := htotal
    omega

/-- Match 0 is funded, and a win of address 2 waits for ten ledgers. -/
def waitingMatch : List Event :=
  fundedMatch ++
    [.invoke (.plain [1] 0 0) (.control (.setDisputePeriod 10)),
      .invoke (.plain [0] 0 0) (.submitResult 0 .player1 (.ext 0))]

/-- Address 3 disputes the result. -/
def filing : Event :=
  .invoke (.plain [3] 5 0) (.disputeOracleResult 0 (.ext 3) (List.replicate 64 49))

/-- They vote to overturn it. -/
def ballot : Event := .invoke (.plain [3] 6 0) (.voteOnDispute 0 (.ext 3) true)

theorem vote_weight_le_stake_waitingMatch :
    let filed := run step .start waitingMatch
    let w := run step (step filed filing) [ballot]
    ∃ m d, filed.matchMap 0 = some m ∧ w.disputes.dispute 0 = some d ∧
      w.disputes.disputeVoteWeight (0, .ext 3) = some 100 ∧
      100 ≤ filed.book.stakesIn m.token (.ext 3) ∧
      d.yesVotes + d.noVotes ≤ d.snapshotTotalWeight := by
  intro filed w
  have hfiled : Reachable filed := ⟨_, _, World.start_initial, rfl⟩
  have hcount : filed.matchCount = 1 ∧ filed.disputes.disputeCount = 0 := by decide +kernel
  have hmatch : ∀ m ∈ filed.matchMap 0, m.token = .ext 4 ∧ m.tokenB = none := by decide +kernel
  have hstored : (filed.matchMap 0).isSome = true := by decide +kernel
  obtain ⟨m, hm⟩ := isSome_iff_exists.mp hstored
  have honly {id : ℕ} {m' : Match} (hm' : filed.matchMap id = some m') : m' = m := by
    have hlt : id < 1 := hcount.1 ▸ hfiled.lt_matchCount hm'
    obtain rfl : id = 0 := by omega
    exact mem_unique hm' hm
  have hvoter : VoterSound filed m.token 0 (step filed filing) (.ext 3) := by
    refine ⟨fun id m' hm' _ => by rw [honly hm'], by decide +kernel, by decide +kernel, ?_⟩
    have hold : ∀ i < maxPlayerSnapshots,
        ∀ snap ∈ (step filed filing).snapshots.playerSnapshot (.ext 3, i), snap.ledger ≤ 0 := by
      decide +kernel
    have hsince : ∀ d ∈ (step filed filing).disputes.dispute 0,
        (step filed filing).control.heldSince d = 0 ∧ d.snapshotLedger = 5 := by decide +kernel
    intro d hd
    obtain ⟨hzero, hfive⟩ := hsince d hd
    rw [hzero, hfive]
    refine ⟨fun i _ snap _ j hj later hlater _ _ hpos => ?_, fun h => absurd h (by decide)⟩
    exact absurd (hold j hj later hlater) (not_le.mpr hpos)
  have hpre : ∀ e ∈ waitingMatch, e.NotAfter 5 := by
    simp [waitingMatch, fundedMatch, funding, Event.NotAfter, Env.plain]
  have hpost : ∀ e ∈ [ballot], e.NotBefore 5 := by simp [ballot, Event.NotBefore, Env.plain]
  have hfile : Commits (.plain [3] 5 0)
      (Call.disputeOracleResult 0 (.ext 3) (List.replicate 64 49)).exec filed := by
    decide +kernel
  have hvotes : Along step (VotesSound filed m.token filed.disputes.disputeCount)
      (step filed filing) [ballot] := ⟨fun _ _ => hcount.2.symm ▸ hvoter, trivial⟩
  obtain ⟨d, hd, -, -, hweights, -, htotal⟩ :=
    vote_weight_le_stake World.start_initial hpre hpost hfile hm hvotes
  have hw : run step (step (run step .start waitingMatch) (.invoke (.plain [3] 5 0)
      (.disputeOracleResult 0 (.ext 3) (List.replicate 64 49)))) [ballot] = w := rfl
  rw [hcount.2, hw] at hd hweights
  have hweight : w.disputes.disputeVoteWeight (0, .ext 3) = some 100 := by decide +kernel
  refine ⟨m, d, hm, hd, hweight, hweights _ _ (by decide +kernel) hweight, htotal ?_ ?_⟩
  · exact ⟨trivial, trivial, trivial, trivial, trivial, trivial⟩
  · intro id m' hm'
    rw [honly hm']
    exact (hmatch m hm).2

/-- Address 5 stakes 100 of token 7 in a match with address 6. -/
def sideMatch (matchId : ℕ) (gameId : Bytes) : List Event :=
  [.invoke (.plain [5] 0 0)
      (.createMatch (.ext 5) (.ext 6) 100 (.ext 7) gameId .chessDotCom),
    .invoke (.plain [5] 0 0) (.deposit matchId (.ext 5))]

/-- Match 0, for token 4, waits with a result, address 5 stakes in three matches for token 7, and
votes on the dispute over match 0. -/
def outvoted : List Event :=
  waitingMatch ++ sideMatch 1 [49, 50, 51, 52, 53, 54, 56] ++
    sideMatch 2 [49, 50, 51, 52, 53, 54, 57] ++ sideMatch 3 [49, 50, 51, 52, 53, 54, 48] ++
    [filing, .invoke (.plain [5] 6 0) (.voteOnDispute 0 (.ext 5) true)]

/-- Address 5 has nothing of token 4 at stake. The vote weighs 300, more than the balance of
token 4 that the quorum was computed from. -/
theorem vote_with_other_token : Reachable (run step .start outvoted) ∧
    ((run step .start outvoted).matchMap 0).map Match.token = some (.ext 4) ∧
    (run step .start (outvoted.take 11)).book.stakesIn (.ext 4) (.ext 5) = 0 ∧
    ((run step .start (outvoted.take 11)).disputes.dispute 0 = none ∧
      (run step .start outvoted).disputes.disputeVoteWeight (0, .ext 5) = some 300) ∧
    ((run step .start outvoted).disputes.dispute 0).map (fun d =>
      (d.matchId, d.yesVotes, d.noVotes, d.snapshotTotalWeight)) = some (0, 300, 0, 201) := by
  refine ⟨⟨_, _, World.start_initial, rfl⟩, ?_⟩
  decide +kernel

end Checkmate.Escrow

import Checkmate.Escrow.Accounts

/-!
# Refunds

A deposit always takes the stake in the first token of a match (`Reachable.deposit_logged`).
The four ways to cancel a match recompute what player 2 is owed from the second token and
the conversion rate. `refund_exact_iff` says when this gives back what was paid in : in a
single-token match always, but for a recovery whose transfers the token refuses ; in a
multi-token match, once player 2 has deposited, only if the second token is the first and
the rate converts the stake to itself.
-/

namespace Checkmate.Escrow

open Option List

variable {env : Env} {config : ProtocolConfig} {period i : ℕ} {a : Action} {m m' : Match}
  {pw pw' : Option Winner} {ts us : List Transfer} {deltas : List (Address × ℤ)}
  {token treasury : Address} {w w' : World} {u : Unit}

/-! ## What a depositor gets back -/

/-- What a side is refunded in the stake token. -/
def refundedTo (matchId : ℕ) (m : Match) (side : Side) (ts : List Transfer) : ℤ :=
  total (ts.filter fun t =>
    t.cause = ⟨matchId, .refund side⟩ && t.token = m.token && t.target = m.player side)

/-- What the treasury keeps of a side's stake. -/
def feeFrom (matchId : ℕ) (m : Match) (treasury : Address) (side : Side)
    (ts : List Transfer) : ℤ :=
  total (ts.filter fun t =>
    t.cause = ⟨matchId, .cancelFee side⟩ && t.token = m.token && t.target = treasury)

@[simp] theorem refundedTo_nil (side : Side) : refundedTo i m side [] = 0 := rfl

@[simp] theorem feeFrom_nil (side : Side) : feeFrom i m treasury side [] = 0 := rfl

@[simp] theorem refundedTo_append (side : Side) : refundedTo i m side (ts ++ us) =
    refundedTo i m side ts + refundedTo i m side us := by
  simp [refundedTo]

@[simp] theorem feeFrom_append (side : Side) : feeFrom i m treasury side (ts ++ us) =
    feeFrom i m treasury side ts + feeFrom i m treasury side us := by
  simp [feeFrom]

/-- The transfers give every depositor the stake back in the stake token, less a fee for the
treasury if one is charged, and nobody else anything. -/
structure ExactRefund (matchId : ℕ) (m : Match) (treasury : Address) (charged : Bool)
    (ts : List Transfer) : Prop where
  only : ∀ t ∈ ts, t.source = .self ∧ t.token = m.token ∧ ∃ side, m.deposited side = true ∧
    (t.cause = ⟨matchId, .refund side⟩ ∧ t.target = m.player side ∨
      t.cause = ⟨matchId, .cancelFee side⟩ ∧ t.target = treasury)
  nonneg : ∀ side, 0 ≤ refundedTo matchId m side ts ∧ 0 ≤ feeFrom matchId m treasury side ts
  free : charged = false → ∀ side, feeFrom matchId m treasury side ts = 0
  sum : ∀ side, refundedTo matchId m side ts + feeFrom matchId m treasury side ts =
    if m.deposited side then m.stakeAmount else 0

theorem refundedTo_feeRefund (side side' : Side) (amount fee : ℤ) :
    refundedTo i m side' (feeRefund i m side token treasury amount fee) =
      if side = side' ∧ token = m.token then amount else 0 := by
  unfold feeRefund feeLeg
  split <;> by_cases hside : side = side' <;> by_cases htoken : token = m.token <;>
    simp [refundedTo, refundTransfer, outgoing, hside, htoken]

theorem feeFrom_feeRefund (side side' : Side) (amount fee : ℤ) :
    feeFrom i m treasury side' (feeRefund i m side token treasury amount fee) =
      if side = side' ∧ token = m.token then max fee 0 else 0 := by
  unfold feeRefund feeLeg
  split
  · rename_i hfee
    rw [max_eq_left hfee.le]
    by_cases hside : side = side' <;> by_cases htoken : token = m.token <;>
      simp [feeFrom, refundTransfer, outgoing, hside, htoken]
  · rename_i hfee
    rw [max_eq_right (not_lt.mp hfee)]
    simp [feeFrom, refundTransfer, outgoing]

/-- Refunds without a fee. -/
theorem refunds_eq_cancelTransfers (amountB : ℤ) (treasury : Address) :
    refunds i m amountB = cancelTransfers i m treasury 0 amountB 0 := by
  simp [refunds, cancelTransfers, feeRefund, feeLeg]

theorem refundedTo_cancelTransfers (i : ℕ) (m : Match) (treasury : Address) (fee amountB feeB : ℤ) :
    refundedTo i m .player1 (cancelTransfers i m treasury fee amountB feeB) =
        (if m.player1Deposited then m.stakeAmount - fee else 0) ∧
      refundedTo i m .player2 (cancelTransfers i m treasury fee amountB feeB) =
        if m.player2Deposited ∧ m.refundTokenB = m.token then amountB - feeB else 0 := by
  unfold cancelTransfers
  simp only [refundedTo_append]
  constructor
  · split <;> split <;> simp_all [refundedTo_feeRefund]
  · split <;> split <;> simp_all [refundedTo_feeRefund]

theorem feeFrom_cancelTransfers (i : ℕ) (m : Match) (treasury : Address) (fee amountB feeB : ℤ) :
    feeFrom i m treasury .player1 (cancelTransfers i m treasury fee amountB feeB) =
        (if m.player1Deposited then max fee 0 else 0) ∧
      feeFrom i m treasury .player2 (cancelTransfers i m treasury fee amountB feeB) =
        if m.player2Deposited ∧ m.refundTokenB = m.token then max feeB 0 else 0 := by
  unfold cancelTransfers
  simp only [feeFrom_append]
  constructor
  · split <;> split <;> simp_all [feeFrom_feeRefund]
  · split <;> split <;> simp_all [feeFrom_feeRefund]

theorem mem_feeRefund {side : Side} {amount fee : ℤ} {t : Transfer}
    (h : t ∈ feeRefund i m side token treasury amount fee) : t.source = .self ∧ t.token = token ∧
      (t.cause = ⟨i, .refund side⟩ ∧ t.target = m.player side ∨
        t.cause = ⟨i, .cancelFee side⟩ ∧ t.target = treasury) := by
  unfold feeRefund feeLeg at h
  split at h
  · simp only [singleton_append, mem_cons, not_mem_nil, or_false] at h
    rcases h with rfl | rfl <;> simp [outgoing, refundTransfer]
  · rw [nil_append, mem_singleton] at h
    subst h
    simp [outgoing, refundTransfer]

/-- Player 2, if a depositor, is owed the stake in the stake token. -/
def Match.RefundsInKind (m : Match) : Prop :=
  m.player2Deposited = true → m.refundTokenB = m.token ∧ m.amountB = some m.stakeAmount

instance (m : Match) : Decidable m.RefundsInKind :=
  inferInstanceAs (Decidable (_ → _ ∧ _))

/-- Refunds less fees are exact if and only if player 2 is owed what was paid in. -/
theorem cancelTransfers_exact_iff {charged : Bool} {fee amountB feeB : ℤ}
    (hstake : 1 ≤ m.stakeAmount) (ha : m.player2Deposited = true → m.amountB = some amountB)
    (hpos : ∀ t ∈ cancelTransfers i m treasury fee amountB feeB, 0 ≤ t.amount)
    (hfee : 0 ≤ fee) (hfeeB : m.player2Deposited = true → 0 ≤ feeB)
    (hfree : charged = false → fee = 0 ∧ feeB = 0) :
    ExactRefund i m treasury charged (cancelTransfers i m treasury fee amountB feeB) ↔
      m.RefundsInKind := by
  obtain ⟨hr1, hr2⟩ := refundedTo_cancelTransfers i m treasury fee amountB feeB
  obtain ⟨hf1, hf2⟩ := feeFrom_cancelTransfers i m treasury fee amountB feeB
  constructor
  · intro h hd
    have hsum := h.sum .player2
    rw [hr2, hf2, if_pos (show m.deposited .player2 = true from hd)] at hsum
    have hfeeB := hfeeB hd
    by_cases htoken : m.refundTokenB = m.token
    · rw [if_pos ⟨hd, htoken⟩, if_pos ⟨hd, htoken⟩] at hsum
      refine ⟨htoken, (ha hd).trans (congrArg some ?_)⟩
      omega
    · rw [if_neg (fun hc => htoken hc.2), if_neg (fun hc => htoken hc.2)] at hsum
      omega
  · intro hkind
    refine ⟨fun t ht => ?_, fun side => ⟨?_, ?_⟩, fun hc side => ?_, fun side => ?_⟩
    · simp only [cancelTransfers, mem_append] at ht
      rcases ht with ht | ht
      · split at ht
        · rename_i hd
          obtain ⟨hs, htoken, hcause⟩ := mem_feeRefund ht
          exact ⟨hs, htoken.trans (hkind hd).1, .player2, hd, hcause⟩
        · simp at ht
      · split at ht
        · rename_i hd
          obtain ⟨hs, htoken, hcause⟩ := mem_feeRefund ht
          exact ⟨hs, htoken, .player1, hd, hcause⟩
        · simp at ht
    · exact total_nonneg fun t ht => hpos t (mem_of_mem_filter ht)
    · exact total_nonneg fun t ht => hpos t (mem_of_mem_filter ht)
    · obtain ⟨rfl, rfl⟩ := hfree hc
      cases side
      · rw [hf1]
        simp
      · rw [hf2]
        simp
    · cases side
      · rw [hr1, hf1]
        change _ = if m.player1Deposited then _ else _
        split <;> omega
      · rw [hr2, hf2]
        change _ = if m.player2Deposited then _ else _
        by_cases hd : m.player2Deposited = true
        · obtain ⟨htoken, hamount⟩ := hkind hd
          obtain rfl : m.stakeAmount = amountB := Option.some.inj (hamount.symm.trans (ha hd))
          have hfeeB := hfeeB hd
          rw [if_pos ⟨hd, htoken⟩, if_pos ⟨hd, htoken⟩, if_pos hd]
          omega
        · simp [hd]

/-! ## Deposits in the log -/

theorem MatchStep.logs_deposit
    (h : MatchStep env config period i m pw a ts deltas m' pw') {side : Side}
    (hd : m'.deposited side = true) : m.deposited side = true ∨ depositTransfer i m side ∈ ts := by
  cases h with
  | deposit side' | activate side' =>
    cases side <;> cases side' <;> first | exact .inl hd | exact .inr mem_cons_self
  | rollbackVote side' | rollback side' | claim side' =>
    cases side <;> cases side' <;> exact .inl hd
  | _ => cases side <;> exact .inl hd

theorem depositTransfer_of_terms (h : m'.terms = m.terms) (side : Side) :
    depositTransfer i m' side = depositTransfer i m side := by
  have htoken : m'.token = m.token := congrArg Terms.token h
  have hstake : m'.stakeAmount = m.stakeAmount := congrArg Terms.stakeAmount h
  simp only [depositTransfer, htoken, hstake, Match.player_of_terms h]

/-- Every deposit that a match records took the stake in its first token. -/
theorem Reachable.deposit_logged (hw : Reachable w) (hm : w.matchMap i = some m)
    {side : Side} (hd : m.deposited side = true) : depositTransfer i m side ∈ w.log := by
  refine hw.book_inv (I := fun b => ∀ id m, b.matchMap id = some m → ∀ side,
    m.deposited side = true → depositTransfer id m side ∈ b.log) ?_ ?_ ?_ i m hm side hd
  · intro l id m hm
    simp [Book.empty] at hm
  · rintro b b' ⟨⟨l, rfl⟩, -⟩ hb
    exact hb
  · intro env config period a b b' hb hchange id m1 hm1 side hd
    cases hchange with
    | opening =>
      rcases eq_some_of_update hm1 with ⟨rfl, rfl⟩ | ⟨-, hm1⟩
      · cases side <;> exact Bool.noConfusion hd
      · exact hb id m1 hm1 side hd
    | moving hm hstep =>
      rw [Book.moved_log, mem_append]
      rcases eq_some_of_update hm1 with ⟨rfl, rfl⟩ | ⟨-, hm1⟩
      · rw [depositTransfer_of_terms hstep.terms]
        exact (hstep.logs_deposit hd).symm.imp_right fun hd => hb id _ hm side hd
      · exact .inr (hb id m1 hm1 side hd)

/-! ## The four ways to cancel -/

theorem amountB_nonneg (hstake : 0 ≤ m.stakeAmount) {amountB : ℤ}
    (ha : m.amountB = some amountB) : 0 ≤ amountB := by
  unfold Match.amountB at ha
  split at ha
  · rename_i hmulti
    have hrate : 0 ≤ m.conversionRate.getD 0 := by
      cases hr : m.conversionRate with
      | none => simp
      | some =>
        simp only [Match.isMultiToken, hr, any_some, Bool.and_eq_true, decide_eq_true_eq] at hmulti
        exact hmulti.2.le
    simp [convert, checkedMul, checkedDiv, bind_eq_some_iff] at ha
    obtain ⟨-, rfl, -⟩ := ha
    exact Int.tdiv_nonneg (mul_nonneg hstake hrate) (by norm_num)
  · obtain rfl := Option.some.inj ha
    exact hstake

/-- The entry points that cancel one match. -/
def Call.cancels (matchId : ℕ) : Call → Prop
  | .cancelMatch id _ | .expireMatch id | .adminRecoverMatch id
  | .disputeAndRollbackMatch id _ _ => id = matchId
  | _ => False

/-- Only a cancellation by a player charges a fee. -/
def Call.charges : Call → Bool
  | .cancelMatch .. => true
  | _ => false

/-- Where the contract goes on after a failed refund, the refunds do not fail. -/
def Call.RefundsAccepted (env : Env) (w : World) (m : Match) : Call → Prop
  | .adminRecoverMatch _ => ∀ side, m.deposited side = true →
    env.transfer w.ledger m.token .self (m.player side) m.stakeAmount ≠ none
  | _ => True

theorem cancelMatch_exact_iff {caller : Address} (hm : w.matchMap i = some m)
    (hstake : 1 ≤ m.stakeAmount) (h : cancelMatch i caller env w = .ok u w') : ∃ ts, Pays w ts w' ∧
      (ExactRefund i m w.control.config.treasury true ts ↔ m.RefundsInKind) := by
  simp [cancelMatch, markCancelled, releaseCounters, snapshotCancelled] at h
  obtain ⟨-, m1, hm1, -, -, -, _, w1, hpay, balance, -, rfl⟩ := h
  obtain rfl : m = m1 := mem_unique hm hm1
  obtain ⟨fee, amountB, feeB, hfee, hB, l, hl, rfl⟩ := refundCancelled_ok hpay
  refine ⟨_, ⟨hl, rfl⟩, cancelTransfers_exact_iff hstake (fun hd => (hB hd).1) hl.amount_nonneg
    (cancellationFee_nonneg hfee (by omega)) (fun hd => ?_) (by simp)⟩
  exact cancellationFee_nonneg (hB hd).2 (amountB_nonneg (by omega) (hB hd).1)

/-- Refunds without a fee are exact under the same condition. -/
theorem refunds_exact_iff {amountB : ℤ} (hstake : 1 ≤ m.stakeAmount)
    (ha : m.player2Deposited = true → m.amountB = some amountB)
    (hpos : ∀ t ∈ refunds i m amountB, 0 ≤ t.amount) :
    ExactRefund i m treasury false (refunds i m amountB) ↔ m.RefundsInKind := by
  rw [refunds_eq_cancelTransfers amountB treasury] at hpos ⊢
  exact cancelTransfers_exact_iff hstake ha hpos le_rfl (fun _ => le_rfl) fun _ => ⟨rfl, rfl⟩

theorem expireMatch_exact_iff (hm : w.matchMap i = some m)
    (hstake : 1 ≤ m.stakeAmount) (h : expireMatch i env w = .ok u w') :
    ∃ ts, Pays w ts w' ∧ (ExactRefund i m treasury false ts ↔ m.RefundsInKind) := by
  simp [expireMatch, markCancelled, releaseCounters, snapshotCancelled] at h
  obtain ⟨m1, hm1, -, -, -, _, w1, hpay, balance, -, rfl⟩ := h
  obtain rfl : m = m1 := mem_unique hm hm1
  obtain ⟨amountB, hB, l, hl, rfl⟩ := refundDeposits_ok hpay
  exact ⟨_, ⟨hl, rfl⟩, refunds_exact_iff hstake hB hl.amount_nonneg⟩

theorem disputeAndRollbackMatch_exact_iff {disputer : Address} {reason : Bytes}
    (hm : w.matchMap i = some m) (hstake : 1 ≤ m.stakeAmount)
    (h : disputeAndRollbackMatch i disputer reason env w = .ok u w')
    (hm' : w'.matchMap i = some m') (hc : m'.state = .cancelled) :
    ∃ ts, Pays w ts w' ∧ (ExactRefund i m treasury false ts ↔ m.RefundsInKind) := by
  simp [disputeAndRollbackMatch, markCancelled, snapshotCancelled] at h
  obtain ⟨-, -, m1, hm1, -, -, hstate, -, h⟩ := h
  obtain rfl : m = m1 := mem_unique hm hm1
  rcases h with ⟨-, _, w1, hpay, balance, -, rfl⟩ | ⟨-, rfl⟩
  · obtain ⟨amountB, hB, l, hl, rfl⟩ := refundDeposits_ok hpay
    have hsame : refunds i (m.voteRollback (m.sideOf disputer)) amountB =
        refunds i m amountB := by cases m.sideOf disputer <;> rfl
    rw [hsame] at hl
    refine ⟨_, ⟨hl, by rw [← hsame]; rfl⟩, refunds_exact_iff hstake ?_ hl.amount_nonneg⟩
    cases hside : m.sideOf disputer <;> rw [hside] at hB <;> exact hB
  · have hvoted : m' = m.voteRollback (m.sideOf disputer) := by simpa using hm'.symm
    rw [hvoted] at hc
    cases hside : m.sideOf disputer <;> simp [hside, Match.voteRollback, hstate] at hc

/-- No refund at all is exact only if there is no depositor. -/
theorem not_exactRefund_nil {side : Side} (hstake : 1 ≤ m.stakeAmount)
    (hd : m.deposited side = true) : ¬ExactRefund i m treasury false [] := by
  intro h
  have hsum := h.sum side
  rw [if_pos hd, refundedTo_nil, feeFrom_nil] at hsum
  omega

/-- The only refund of a recovery is made, or given up because the token refuses it. -/
theorem caughtRefund_exact_iff {c : Bool} (side : Side) {amount : ℤ} (amountB : ℤ)
    (hstake : 1 ≤ m.stakeAmount) (hd : m.deposited side = true)
    (hother : m.deposited side.other = false)
    (ha : m.player2Deposited = true → m.amountB = some amountB)
    (honly : refunds i m amountB = [refundTransfer i m side token amount])
    (hkind : m.RefundsInKind → token = m.token ∧ amount = m.stakeAmount)
    (h : Tx.catchTrap c (transfer (refundTransfer i m side token amount)) env w = .ok u w') :
    ∃ ts, Paid w ts w' ∧ (ExactRefund i m treasury false ts ↔ m.RefundsInKind ∧
      ∀ side, m.deposited side = true →
        env.transfer w.ledger m.token .self (m.player side) m.stakeAmount ≠ none) := by
  rcases catchTransfer_ok h with ⟨hp, hacc⟩ | ⟨rfl, hnone⟩
  · have hpos := hp.nonneg
    rw [← honly] at hpos
    refine ⟨_, hp, ?_⟩
    rw [← honly, refunds_exact_iff hstake ha hpos]
    refine ⟨fun hin => ⟨hin, fun side' hd' => ?_⟩, And.left⟩
    obtain ⟨rfl, rfl⟩ := hkind hin
    obtain rfl : side' = side := by
      cases side <;> cases side' <;> first | rfl | cases hd'.symm.trans hother
    exact hacc
  · refine ⟨[], Paid.refl _, iff_of_false (not_exactRefund_nil hstake hd) ?_⟩
    rintro ⟨hin, haccepted⟩
    obtain ⟨rfl, rfl⟩ := hkind hin
    exact haccepted side hd hnone

/-- A recovery of a match with at most one depositor makes the refund, or none at all. -/
theorem refundRecovered_exact_iff {c : Bool} (hstake : 1 ≤ m.stakeAmount)
    (hone : ¬(m.player1Deposited = true ∧ m.player2Deposited = true))
    (h : refundDeposits (fun t => Tx.catchTrap c (transfer t)) i m env w = .ok u w') :
    ∃ ts, Paid w ts w' ∧ (ExactRefund i m treasury false ts ↔ m.RefundsInKind ∧
      ∀ side, m.deposited side = true →
        env.transfer w.ledger m.token .self (m.player side) m.stakeAmount ≠ none) := by
  simp only [refundDeposits, Tx.bind_ok_iff, Tx.when_ok_iff, Tx.orFail_ok_iff] at h
  obtain ⟨_, w1, h1, h2⟩ := h
  cases hd1 : m.player1Deposited with
  | true =>
    have hd2 : m.player2Deposited = false := by simpa [hd1] using hone
    obtain rfl : w' = w1 := by simpa [hd2] using h2
    have hrefund := (h1.resolve_right (by simp [hd1])).2
    exact caughtRefund_exact_iff .player1 0 hstake hd1 hd2 (by simp [hd2])
      (by simp [refunds, hd1, hd2]) (fun _ => ⟨rfl, rfl⟩) hrefund
  | false =>
    obtain rfl : w1 = w := by simpa [hd1] using h1
    rcases h2 with ⟨hd2, amountB, _, ⟨ha, rfl⟩, hrefund⟩ | ⟨hd2, rfl⟩
    · refine caughtRefund_exact_iff .player2 amountB hstake hd2 hd1 (fun _ => ha)
        (by simp [refunds, hd1, hd2]) (fun hkind => ⟨(hkind hd2).1, ?_⟩) hrefund
      exact Option.some.inj (ha.symm.trans (hkind hd2).2)
    · have hnil : refunds i m 0 = [] := by simp [refunds, hd1, hd2]
      refine ⟨_, Paid.refl _, ?_⟩
      rw [← hnil, refunds_exact_iff hstake (by simp [hd2]) (by simp [hnil])]
      refine ⟨fun hin => ⟨hin, fun side hd => ?_⟩, And.left⟩
      cases side
      · cases hd1.symm.trans hd
      · exact absurd hd hd2

theorem adminRecoverMatch_exact_iff (hm : w.matchMap i = some m) (hstake : 1 ≤ m.stakeAmount)
    (hone : m.state = .pending → ¬(m.player1Deposited = true ∧ m.player2Deposited = true))
    (h : adminRecoverMatch i env w = .ok u w') :
    ∃ ts, Pays w ts w' ∧ (ExactRefund i m treasury false ts ↔ m.RefundsInKind ∧
      ∀ side, m.deposited side = true →
        env.transfer w.ledger m.token .self (m.player side) m.stakeAmount ≠ none) := by
  simp [adminRecoverMatch, markCancelled, snapshotCancelled] at h
  obtain ⟨admin, -, m1, hm1, hstate, -, _, w1, hpay, balance, -, rfl⟩ := h
  obtain rfl : m = m1 := mem_unique hm hm1
  obtain ⟨ts, ⟨l, hl, rfl⟩, hiff⟩ := refundRecovered_exact_iff hstake (hone hstate) hpay
  exact ⟨ts, ⟨hl, rfl⟩, hiff⟩

/-- Whenever one of the four entry points cancels a match : every deposit that the match
records paid the stake in its first token, and the call's transfers give exactly this back
if and only if player 2 is owed the stake in that token and, in a recovery, the token
accepts the refunds. -/
theorem refund_exact_iff {call : Call} (hw : Reachable w) (hm : w.matchMap i = some m)
    (hne : m.state ≠ .cancelled) (hcall : call.cancels i)
    (hm' : (step w (.invoke env call)).matchMap i = some m') (hc : m'.state = .cancelled) :
    (∀ side, m.deposited side = true → depositTransfer i m side ∈ w.log) ∧
    ∃ ts, Pays w ts (step w (.invoke env call)) ∧
      (ExactRefund i m w.control.config.treasury call.charges ts ↔
        m.RefundsInKind ∧ call.RefundsAccepted env w m) := by
  refine ⟨fun side hd => hw.deposit_logged hm hd, ?_⟩
  have hsound := hw.sound.stored i m hm
  have hstake := hsound.terms.stake_pos
  have hcommit : Commits env call.exec w := by
    by_contra hnot
    rw [step, invoke_of_not_commits hnot, hm] at hm'
    exact hne (Option.some.inj hm' ▸ hc)
  obtain ⟨w1, h⟩ := hcommit
  rw [step, invoke_of_ok h] at hm' ⊢
  have hm0 : w.fresh.matchMap i = some m := hm
  cases call with
  | cancelMatch id =>
    obtain rfl : id = i := hcall
    obtain ⟨ts, hpays, hiff⟩ := cancelMatch_exact_iff hm0 hstake h
    exact ⟨ts, hpays, hiff.trans (and_iff_left trivial).symm⟩
  | expireMatch id =>
    obtain rfl : id = i := hcall
    obtain ⟨ts, hpays, hiff⟩ := expireMatch_exact_iff hm0 hstake h
    exact ⟨ts, hpays, hiff.trans (and_iff_left trivial).symm⟩
  | adminRecoverMatch id =>
    obtain rfl : id = i := hcall
    obtain ⟨ts, hpays, hiff⟩ := adminRecoverMatch_exact_iff hm0 hstake hsound.stage.unfunded h
    exact ⟨ts, hpays, hiff⟩
  | disputeAndRollbackMatch id =>
    obtain rfl : id = i := hcall
    obtain ⟨ts, hpays, hiff⟩ := disputeAndRollbackMatch_exact_iff hm0 hstake h hm' hc
    exact ⟨ts, hpays, hiff.trans (and_iff_left trivial).symm⟩
  | _ => exact hcall.elim

/-- Player 2 cancels match 0 after their own deposit. -/
theorem refund_exact_iff_cancelMatch :
    ∃ m ts, (run step .start (fundedMatch.take 2)).matchMap 0 = some m ∧
      Pays (run step .start (fundedMatch.take 2)) ts (step (run step .start (fundedMatch.take 2))
        (.invoke (.plain [2] 0 0) (.cancelMatch 0 (.ext 2)))) ∧ m.deposited .player1 = true ∧
      ExactRefund 0 m (run step .start (fundedMatch.take 2)).control.config.treasury true ts := by
  have hbefore : ((run step .start (fundedMatch.take 2)).matchMap 0).map
      (fun m => (m.state, m.tokenB, m.player1Deposited, m.player2Deposited)) =
        some (.pending, none, true, false) := by decide +kernel
  have hafter : ((step (run step .start (fundedMatch.take 2))
      (.invoke (.plain [2] 0 0) (.cancelMatch 0 (.ext 2)))).matchMap 0).map Match.state =
        some .cancelled := by decide +kernel
  obtain ⟨m, hm, hfields⟩ := map_eq_some_iff.mp hbefore
  obtain ⟨m', hm', hc⟩ := map_eq_some_iff.mp hafter
  simp only [Prod.mk.injEq] at hfields
  obtain ⟨hs, hB, hd1, hd2⟩ := hfields
  obtain ⟨-, ts, hpays, hiff⟩ := refund_exact_iff ⟨_, _, World.start_initial, rfl⟩ hm
    (by simp [hs]) (show (Call.cancelMatch 0 (.ext 2)).cancels 0 from rfl) hm' hc
  exact ⟨m, ts, hm, hpays, hd1, hiff.mpr ⟨by simp [Match.RefundsInKind, hd2], trivial⟩⟩

/-- Match 0 is funded. Players 5 and 6 create match 1 for a stake of 100 of token 7, with
token 4 at par as the token of player 6, and player 6 deposits. -/
def convertedDeposit : List Event :=
  fundedMatch ++
    [.invoke (.plain [5] 0 0) (.createMatchWithConversion (.ext 5) (.ext 6) 100 (.ext 7)
        (.ext 4) 10000000 [49, 50, 51, 52, 53, 54, 56] .chessDotCom),
      .invoke (.plain [6] 0 0) (.deposit 1 (.ext 6))]

/-- The cancellation of match 1 refunds player 6, who paid 100 of token 7, with 100 of
token 4 out of the stakes of match 0. -/
theorem refund_in_other_token : Reachable (run step .start convertedDeposit) ∧
    ((run step .start convertedDeposit).matchMap 1).map
      (fun m => (m.state, m.token, m.stakeAmount, m.player2, m.player2Deposited)) =
        some (.pending, .ext 7, 100, .ext 6, true) ∧
    ((run step .start convertedDeposit).log.head?) =
      some ⟨.ext 7, .ext 6, .self, 100, ⟨1, .deposit .player2⟩⟩ ∧
    ((run step .start (convertedDeposit ++
      [.invoke (.plain [6] 0 0) (.cancelMatch 1 (.ext 6))])).matchMap 1).map Match.state =
        some .cancelled ∧ (run step .start (convertedDeposit ++
      [.invoke (.plain [6] 0 0) (.cancelMatch 1 (.ext 6))])).log =
        ⟨.ext 4, .self, .ext 6, 100, ⟨1, .refund .player2⟩⟩ ::
          (run step .start convertedDeposit).log := by
  refine ⟨⟨_, _, World.start_initial, rfl⟩, ?_⟩
  decide +kernel

end Checkmate.Escrow

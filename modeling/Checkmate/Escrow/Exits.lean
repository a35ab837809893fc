import Checkmate.Escrow.DisputeProtocol
import Checkmate.Escrow.Verdicts
import Checkmate.Escrow.Accounts

/-!
# Exits from a pending result

Once its deadlines have passed, a match with a pending result is left alone by every call but
the one that closes it : `finalizeMatch` without a dispute, `resolveDisputeByVote` with one.
Neither has a caller to satisfy, but both have conditions that time does not mend
(`World.Payable`) : the votes of the dispute reach its quorum, the conversion rate is recent and
the amount in the second token does not overflow. If one of them fails, nothing that happens
from then on closes the match or pays anything on account of it (`World.Locked`).
-/

namespace Checkmate.Escrow

open Function Tx Option

variable {env : Env} {config : ProtocolConfig} {period i disputeId id sequence : ℕ}
  {a : Action} {m m' : Match} {w w' : World} {u : Unit} {e : Error} {winner : Winner}
  {pw pw' : Option Winner} {ts : List Transfer} {deltas : List (Address × ℤ)} {b b' : Book}
  {k : Case Address}

/-! ## When an immediate payout succeeds -/

/-- If player 2 is paid in the second token of the match, the converted amount fits. -/
def Match.Converts (m : Match) (amount : ℤ) : Prop :=
  m.isMultiToken = true → ∃ rate amountB, m.conversionRate = some rate ∧
    convert amount rate = some amountB

/-- What an outcome pays to player 2 can be paid. -/
def Match.DueFits (m : Match) : Winner → Prop
  | .player2 => m.Converts (2 * m.stakeAmount)
  | .draw => m.Converts m.stakeAmount
  | _ => True

theorem payPlayer2_converts {amount : ℤ} (h : payPlayer2 i m amount env w = .ok u w') :
    m.Converts amount := by
  intro hmulti
  rw [payPlayer2, if_pos hmulti] at h
  simp only [bind_ok_iff, orFail_ok_iff] at h
  obtain ⟨tokenB, _, -, rate, _, ⟨hrate, -⟩, amountB, _, ⟨hconv, -⟩, -⟩ := h
  exact ⟨rate, amountB, hrate, hconv⟩

theorem executePayout_due (h : executePayout i m winner env w = .ok u w') :
    m.RateFresh env.sequence ∧ m.DueFits winner := by
  simp only [executePayout, bind_ok_iff, requireFreshRate_ok_iff] at h
  obtain ⟨_, _, ⟨hfresh, rfl⟩, h⟩ := h
  refine ⟨hfresh, ?_⟩
  cases winner with
  | player1 | none => trivial
  | player2 =>
    simp only [bind_ok_iff, orFail_ok_iff] at h
    obtain ⟨pot, _, ⟨hpot, rfl⟩, h⟩ := h
    rw [checkedMul, toI128_eq_some, mul_comm] at hpot
    rw [Match.DueFits, hpot.1]
    exact payPlayer2_converts h
  | draw =>
    simp only [bind_ok_iff] at h
    obtain ⟨_, w1, -, h⟩ := h
    exact payPlayer2_converts h

theorem oracleSwap_err {cause : Cause} {tokenIn tokenOut recipient : Address}
    {amountIn minAmountOut : ℤ}
    (h : oracleSwap cause tokenIn tokenOut amountIn minAmountOut recipient env w = .err e w') :
    w.control.oracle = none := by
  simp [oracleSwap] at h
  exact h.1

theorem payPlayer2_err {amount : ℤ} (h : payPlayer2 i m amount env w = .err e w')
    (horacle : w.control.oracle.isSome = true) : ¬m.Converts amount := by
  intro hconv
  unfold payPlayer2 at h
  split at h
  · rename_i hmulti
    obtain ⟨rate, amountB, hrate, hamount⟩ := hconv hmulti
    obtain ⟨tokenB, hB⟩ : ∃ tokenB, m.tokenB = some tokenB := by
      rw [← isSome_iff_exists]
      exact (Bool.and_eq_true_iff.mp hmulti).1
    simp [hB, hrate, hamount] at h
    rw [oracleSwap_err h] at horacle
    exact Bool.noConfusion horacle
  · simp at h

/-- Only a rate that is not recent and an amount that does not fit make a payout fail. A token
or a swap that fails ends the invocation instead. -/
theorem executePayout_err (h : executePayout i m winner env w = .err e w')
    (horacle : w.control.oracle.isSome = true) (hpot : 2 * m.stakeAmount ≤ i128Max)
    (hstake : 1 ≤ m.stakeAmount) (hwinner : winner ≠ .none) :
    ¬(m.RateFresh env.sequence ∧ m.DueFits winner) := by
  rintro ⟨hfresh, hfits⟩
  have hpot' := checkedMul_two hstake hpot
  simp only [executePayout, bind_err_iff, requireFreshRate_err_iff, requireFreshRate_ok_iff] at h
  rcases h with ⟨hstale, -⟩ | ⟨_, _, ⟨-, rfl⟩, h⟩
  · exact hstale hfresh
  cases winner with
  | none => exact hwinner rfl
  | player1 => simp [hpot'] at h
  | player2 =>
    simp only [hpot', bind_err_iff, orFail_err_iff, orFail_ok_iff, Option.some.injEq] at h
    rcases h with ⟨h, -⟩ | ⟨_, _, ⟨rfl, rfl⟩, h⟩
    · exact absurd h (by simp)
    · exact payPlayer2_err h horacle hfits
  | draw =>
    simp only [bind_err_iff, transfer_err_iff, transfer_ok_iff, false_or] at h
    obtain ⟨_, _, ⟨l, -, rfl⟩, h⟩ := h
    exact payPlayer2_err h horacle hfits

/-! ## What the other calls leave alone -/

/-- The transfers on account of a match, the newest first. -/
def matchLog (log : List Transfer) (matchId : ℕ) : List Transfer :=
  log.filter fun t => t.cause.matchId = matchId

theorem matchLog_append_of_ne {log : List Transfer} (h : ∀ t ∈ ts, t.cause.matchId = i)
    (hne : id ≠ i) : matchLog (ts ++ log) id = matchLog log id := by
  have hnil : ts.filter (fun t => t.cause.matchId = id) = [] := by
    simp only [List.filter_eq_nil_iff, decide_eq_true_eq]
    exact fun t ht hid => hne (hid.symm.trans (h t ht))
  rw [matchLog, List.filter_append, hnil, List.nil_append]
  rfl

theorem matchLog_cons_of_ne {t : Transfer} {log : List Transfer} (h : id ≠ t.cause.matchId) :
    matchLog (t :: log) id = matchLog log id :=
  List.filter_cons_of_neg (by simpa using h.symm)

/-- The dispute of a match. -/
def World.disputeOf (w : World) (matchId : ℕ) : Option Dispute :=
  (w.disputes.matchDispute matchId).bind w.disputes.dispute

/-- The match, its dispute and its transfers are as they were. -/
structure World.Rests (w w' : World) (matchId : ℕ) : Prop where
  stored : w'.matchMap matchId = w.matchMap matchId
  dispute : w'.disputeOf matchId = w.disputeOf matchId
  log : matchLog w'.log matchId = matchLog w.log matchId

theorem World.Rests.refl (w : World) (i : ℕ) : w.Rests w i := ⟨rfl, rfl, rfl⟩

theorem World.Rests.trans {w1 w2 : World} (h : w.Rests w1 i) (h' : w1.Rests w2 i) : w.Rests w2 i :=
  ⟨h'.stored.trans h.stored, h'.dispute.trans h.dispute, h'.log.trans h.log⟩

theorem MatchStep.waiting_action (h : MatchStep env config period i m pw a ts deltas m' pw')
    (hs : m.state = .pendingResult) : a = .finalize ∨ a = .dispute ∨ a = .resolve := by
  cases h with
  | finalize | bond | resolve => simp
  | settleNow _ _ hs' | settleHalf _ _ hs' | settleLater _ _ hs' | stall _ _ hs' =>
    rcases hs' with hs' | hs' <;> cases hs.symm.trans hs'
  | deposit _ hs' | activate _ hs' | strayDeposit _ hs' | cancel _ hs' | strayRefund hs'
  | recover hs' | pause hs' | resume hs' | heartbeat hs' | rollbackVote _ hs' | rollback _ hs'
  | claim _ hs' => cases hs.symm.trans hs'

theorem Change.rests (h : Change env config period a b b')
    (ha : ¬(a = .finalize ∨ a = .dispute ∨ a = .resolve)) (hm : b.matchMap id = some m)
    (hs : m.state = .pendingResult) :
    b'.matchMap id = some m ∧ matchLog b'.log id = matchLog b.log id := by
  cases h with
  | opening p rateLedger hp hfree =>
    have hne : id ≠ b.matchCount := by
      rintro rfl
      cases hfree.symm.trans hm
    exact ⟨(update_of_ne hne ..).trans hm, rfl⟩
  | @moving _ id' m1 _ _ _ _ _ _ hm1 hstep hl =>
    have hne : id ≠ id' := by
      rintro rfl
      rw [mem_unique hm hm1] at hs
      exact ha (hstep.waiting_action hs)
    exact ⟨(update_of_ne hne ..).trans hm, matchLog_append_of_ne hstep.cause hne⟩

theorem exec_rests_book {call : Call} (h : call.exec env w = .ok u w')
    (horacle : w.control.oracle.isSome = true)
    (ha : ¬(call.action = .finalize ∨ call.action = .dispute ∨ call.action = .resolve))
    (hm : w.matchMap id = some m) (hs : m.state = .pendingResult) :
    w'.matchMap id = some m ∧ matchLog w'.log id = matchLog w.log id := by
  by_cases hcall : call.action = .administer
  · have hbook := (exec_administer h hcall horacle).1
    exact ⟨(congrFun (congrArg Book.matchMap hbook) id).trans hm,
      congrArg (fun b : Book => matchLog b.log id) hbook⟩
  · have hmany := (exec_effects h hcall).book
    change w'.book.matchMap id = some m ∧ matchLog w'.book.log id = matchLog w.book.log id
    generalize w'.book = b' at hmany
    induction hmany with
    | refl => exact ⟨hm, rfl⟩
    | tail _ hone ih =>
      obtain ⟨hm', hlog'⟩ := hone.rests ha ih.1 hs
      exact ⟨hm', hlog'.trans ih.2⟩

/-- A dispute is written that is not about the match. -/
theorem World.Tracks.disputeOf_update {d' : Dispute} (hk : w.Tracks i k)
    (hne : ∀ d, w.disputes.dispute disputeId = some d → d.matchId ≠ i)
    (hdispute : w'.disputes.dispute = update w.disputes.dispute disputeId (some d'))
    (hfiled : w'.disputes.matchDispute i = w.disputes.matchDispute i) :
    w'.disputeOf i = w.disputeOf i := by
  rw [World.disputeOf, World.disputeOf, hfiled, hdispute]
  cases hj : w.disputes.matchDispute i with
  | none => rfl
  | some j =>
    obtain ⟨_, d, -, hd, hdisp, -⟩ := hk.exists_filed hj
    have hjne : j ≠ disputeId := by
      rintro rfl
      exact hne d hd hdisp.matchId_eq
    exact update_of_ne hjne ..

/-- A call that makes no move for a match with a pending result leaves it alone. -/
theorem exec_rests {call : Call} (h : call.exec env w = .ok u w')
    (horacle : w.control.oracle.isSome = true) (hf : w.Filed) (hk : w.Tracks i k)
    (hm : w.matchMap i = some m) (hs : m.state = .pendingResult) (hmove : call.move i w = none) :
    w.Rests w' i := by
  have hother (ha : ¬(call.action = .finalize ∨ call.action = .dispute ∨ call.action = .resolve))
      (hdispute : w'.disputeOf i = w.disputeOf i) : w.Rests w' i := by
    obtain ⟨hm', hlog⟩ := exec_rests_book h horacle ha hm hs
    exact ⟨hm'.trans hm.symm, hdispute, hlog⟩
  have hsettle {batch : Bool} (ha : call.action = .settle batch) : w.Rests w' i := by
    have hdocket : w'.docket = w.docket := (Call.exec_frames_docket ha).ok h
    refine hother (by simp [ha]) ?_
    exact congrArg (fun d : (ℕ → Option Dispute) × (ℕ → Option ℕ) => (d.2 i).bind d.1) hdocket
  have haside (hcall : call.onDisputes = false)
      (ha : ¬(call.action = .finalize ∨ call.action = .dispute ∨ call.action = .resolve)) :
      w.Rests w' i := by
    have hdisputes : w'.disputes = w.disputes := (Call.exec_frames_disputes hcall).ok h
    refine hother ha ?_
    rw [World.disputeOf, hdisputes]
    rfl
  cases call with
  | finalizeMatch id' =>
    have hne : i ≠ id' := by
      rintro rfl
      simp [Call.move] at hmove
    obtain ⟨m1, winner, w1, hopen, hpay, rfl⟩ := finalizeMatch_ok h
    obtain ⟨ts, ⟨l, -, rfl⟩, hrel⟩ := executePayout_ok hpay
    exact ⟨update_of_ne hne .., rfl, matchLog_append_of_ne (fun t ht => (hrel.cause t ht).1) hne⟩
  | disputeOracleResult id' =>
    have hne : i ≠ id' := by
      rintro rfl
      simp [Call.move] at hmove
    obtain ⟨_, h⟩ := void_ok_iff.mp h
    obtain ⟨m1, share, l, quorum, oracle, -, -, -, -, -, rfl⟩ := disputeOracleResult_ok h
    have hfresh (d : Dispute) (hd : w.disputes.dispute w.disputes.disputeCount = some d) :
        d.matchId ≠ i := absurd (hf _ _ hd).1 (lt_irrefl _)
    exact ⟨rfl, hk.disputeOf_update hfresh rfl (update_of_ne hne ..), matchLog_cons_of_ne hne⟩
  | voteOnDispute disputeId =>
    obtain ⟨d, weight, -, -, -, rfl⟩ := voteOnDispute_ok_iff.mp h
    have hne (d1 : Dispute) (hd1 : w.disputes.dispute disputeId = some d1) : d1.matchId ≠ i := by
      rintro rfl
      simp [Call.move, hd1] at hmove
    exact hother (by simp [Call.action]) (hk.disputeOf_update hne rfl rfl)
  | resolveDisputeByVote disputeId =>
    obtain ⟨d, m1, winner, w1, w2, hopen, hpay, hbond, rfl⟩ := resolveDisputeByVote_ok h
    obtain ⟨ts, ⟨l, -, rfl⟩, hrel⟩ := executePayout_ok hpay
    obtain ⟨l', -, rfl⟩ := transfer_paid hbond
    have hne (d1 : Dispute) (hd1 : w.disputes.dispute disputeId = some d1) : d1.matchId ≠ i := by
      rintro rfl
      simp [Call.move, hd1] at hmove
    have hne' : i ≠ d.matchId := (hne d hopen.filed).symm
    exact ⟨update_of_ne hne' .., hk.disputeOf_update hne rfl rfl, (matchLog_cons_of_ne hne').trans
        (matchLog_append_of_ne (fun t ht => (hrel.cause t ht).1) hne')⟩
  | submitResult | submitDraw | submitResultWithOracleRecord | submitResultBatch
  | submitResultConsensus | resolveOracleDeadlock => exact hsettle rfl
  | _ => exact haside rfl (by simp [Call.action])

theorem step_rests (hw : Reachable w) (hk : w.Tracks i k) (hm : w.matchMap i = some m)
    (hs : m.state = .pendingResult) {ev : Event} (hmove : ev.move i w = none) :
    w.Rests (step w ev) i := by
  cases ev with
  | invoke env call =>
    by_cases hc : Commits env call.exec w
    · rw [Event.move, if_pos hc] at hmove
      obtain ⟨w', h⟩ := hc
      rw [step, invoke_of_ok h]
      have hrests := exec_rests h hw.oracle (hw.tracks i).1 (hk.of_disputes (.refl _ _) rfl) hm
        hs (map_eq_none_iff.mp hmove)
      exact ⟨hrests.stored, hrests.dispute, hrests.log⟩
    · rw [step, invoke_of_not_commits hc]
      exact .refl w i
  | debit =>
    simp only [step]
    split <;> exact ⟨rfl, rfl, rfl⟩
  | credit | dropGuard => exact ⟨rfl, rfl, rfl⟩

/-! ## Exits -/

/-- Both deadlines of a pending result have passed at a ledger. -/
structure World.DeadlinesPassed (w : World) (matchId sequence : ℕ) : Prop where
  result : ∀ deadline ∈ w.disputes.resultDeadline matchId, deadline ≤ sequence
  voting : ∀ d ∈ w.disputeOf matchId, d.votingDeadline ≤ sequence

/-- What it takes to close a match with a pending result : the votes of its dispute reach the
quorum, and the outcome can be paid at the ledger. -/
structure World.Payable (w : World) (matchId : ℕ) (m : Match) (sequence : ℕ) : Prop where
  quorum : ∀ d ∈ w.disputeOf matchId, d.quorumThreshold ≤ saturatingAdd d.yesVotes d.noVotes
  fresh : m.RateFresh sequence
  fits : m.DueFits ((w.disputeOf matchId).elim m.winner fun d => d.outcome m.winner)

/-- The match is completed or cancelled. -/
def World.Closed (w : World) (matchId : ℕ) : Prop :=
  ∃ m, w.matchMap matchId = some m ∧ m.state.terminal = true

/-- The event happens from a ledger on. -/
def Event.NotBefore (sequence : ℕ) : Event → Prop
  | .invoke env _ => sequence ≤ env.sequence
  | _ => True

/-- Whatever happens from a ledger on, the result stays pending and nothing is paid on account
of the match. -/
def World.Locked (w : World) (matchId sequence : ℕ) : Prop :=
  ∀ es : List Event, (∀ ev ∈ es, ev.NotBefore sequence) →
    (∃ m, (run step w es).matchMap matchId = some m ∧ m.state = .pendingResult) ∧
      matchLog (run step w es).log matchId = matchLog w.log matchId

/-- The call closes the match if it returns. -/
def Call.closes (matchId : ℕ) (w : World) (call : Call) : Bool :=
  (call.move matchId w).any Label.closes

theorem Call.eq_of_closes {call : Call} (h : call.closes i w = true) :
    call = .finalizeMatch i ∨ ∃ j d, call = .resolveDisputeByVote j ∧
      w.disputes.dispute j = some d ∧ d.matchId = i := by
  obtain ⟨label, hlabel, hcloses⟩ := (any_eq_true ..).mp h
  cases call with
  | finalizeMatch =>
    obtain ⟨rfl, -⟩ := ite_none_right_eq_some.mp hlabel
    exact .inl rfl
  | resolveDisputeByVote j =>
    obtain ⟨d, hd, hlabel⟩ := bind_eq_some_iff.mp hlabel
    obtain ⟨hmatch, -⟩ := ite_none_right_eq_some.mp hlabel
    exact .inr ⟨j, d, rfl, hd, hmatch⟩
  | disputeOracleResult =>
    obtain ⟨-, heq⟩ := ite_none_right_eq_some.mp hlabel
    obtain rfl := Option.some.inj heq
    exact Bool.noConfusion hcloses
  | voteOnDispute =>
    obtain ⟨d, -, hlabel⟩ := bind_eq_some_iff.mp hlabel
    obtain ⟨-, heq⟩ := ite_none_right_eq_some.mp hlabel
    obtain rfl := Option.some.inj heq
    exact Bool.noConfusion hcloses
  | _ => exact absurd hlabel (by simp [Call.move])

theorem Match.RateFresh.mono {s s' : ℕ} (h : m.RateFresh s') (hle : s ≤ s') : m.RateFresh s :=
  fun hmulti ledger hledger => (Nat.sub_le_sub_right hle ledger).trans (h hmulti ledger hledger)

/-- What was payable at a later ledger was payable before. -/
theorem World.Payable.mono {s s' : ℕ} (h : w'.Payable i m s')
    (hdispute : w'.disputeOf i = w.disputeOf i) (hle : s ≤ s') : w.Payable i m s :=
  ⟨hdispute ▸ h.quorum, h.fresh.mono hle, hdispute ▸ h.fits⟩

/-- The claim behind a pending result, once its deadlines have passed. -/
inductive World.Due (w : World) (matchId sequence : ℕ) : Case Address → Prop
  | waiting {deadline : ℕ} (hnone : w.disputeOf matchId = none) (hle : deadline ≤ sequence) :
      Due w matchId sequence (.waiting deadline)
  | challenged {d : Dispute} (hd : w.disputeOf matchId = some d)
      (hle : d.votingDeadline ≤ sequence) : Due w matchId sequence (.challenged d.challenge)

theorem World.Tracks.due (hk : w.Tracks i k) (hm : w.matchMap i = some m)
    (hs : m.state = .pendingResult) (hpast : w.DeadlinesPassed i sequence) :
    w.Due i sequence k := by
  cases hj : w.disputes.matchDispute i with
  | none =>
    obtain ⟨deadline, rfl, hline, -⟩ := hk.eq_waiting hm hs hj
    exact .waiting (by rw [World.disputeOf, hj]; rfl) (hpast.result deadline hline)
  | some =>
    obtain ⟨m', d, hm', hd, hdisp, hc⟩ := hk.exists_filed hj
    have hdispute : w.disputeOf i = some d := by
      rw [World.disputeOf, hj]
      exact hd
    cases k with
    | idle | waiting | final => exact absurd hc (by simp [Case.challenge?])
    | challenged =>
      obtain rfl := Option.some.inj hc
      exact .challenged hdispute (hpast.voting d hdispute)
    | decided =>
      obtain ⟨m1, _, hm1, hs1, -⟩ := hk
      rw [mem_unique hm1 hm, hs] at hs1
      exact MatchState.noConfusion hs1

/-- After the deadlines only the closing moves are left. -/
theorem World.Due.closes (hdue : w.Due i sequence k) {l : ℕ × Label Address}
    {k' : Case Address} (hmove : Case.Move k l k') (hle : sequence ≤ l.1) : l.2.closes = true := by
  cases hdue with
  | waiting _ hdeadline =>
    cases hmove with
    | challenge hlt => exact absurd (hdeadline.trans hle) (not_le.mpr hlt)
    | finalize => rfl
  | challenged _ hdeadline =>
    cases hmove with
    | vote hlt => exact absurd (hdeadline.trans hle) (not_le.mpr hlt)
    | decide => rfl

/-- A move after the deadlines is made by a call that found everything payable. -/
theorem payable_of_move (hw : Reachable w) (hk : w.Tracks i k)
    (hm : w.matchMap i = some m) (hs : m.state = .pendingResult)
    (hdue : w.Due i sequence k) {ev : Event} (hev : ev.NotBefore sequence)
    {l : ℕ × Label Address} (hmove : ev.move i w = some l) : w.Payable i m sequence := by
  obtain ⟨hf, -⟩ := hw.tracks i
  obtain ⟨k', hcase, -⟩ := (step_advances hw hf hk ev).moved l hmove
  cases ev with
  | credit | debit | dropGuard => exact absurd hmove (by simp [Event.move])
  | invoke env call =>
    have hc : Commits env call.exec w := by
      by_contra hc
      simp [Event.move, hc] at hmove
    rw [Event.move, if_pos hc] at hmove
    obtain ⟨label, hlabel, rfl⟩ := map_eq_some_iff.mp hmove
    obtain ⟨w', h⟩ := hc
    have hwinner {winner : Winner} (hpw : w.disputes.pendingWinner i = some winner) :
        winner = m.winner :=
      Option.some.inj (hpw.symm.trans (hw.waitsAsRecorded i m hm hs))
    have hcloses : call.closes i w = true := by
      rw [Call.closes, hlabel]
      exact hdue.closes hcase hev
    suffices hpayable : w.Payable i m env.sequence from hpayable.mono rfl hev
    rcases Call.eq_of_closes hcloses with rfl | ⟨j, d, rfl, hd, rfl⟩
    · obtain ⟨m1, winner, w1, hopen, hpay, -⟩ := finalizeMatch_ok h
      obtain rfl := mem_unique hopen.stored hm
      obtain rfl := hwinner hopen.pendingWinner
      obtain ⟨hfresh, hfits⟩ := executePayout_due hpay
      have hnone : w.disputeOf i = none := bind_eq_none_iff.mpr fun j hj =>
        absurd (hopen.undisputed.symm.trans hj) (by simp)
      exact ⟨by simp [hnone], hfresh, by rwa [hnone]⟩
    · obtain ⟨d1, m1, winner, w1, w2, hopen, hpay, -⟩ := resolveDisputeByVote_ok h
      obtain rfl : d = d1 := mem_unique hd hopen.filed
      obtain rfl := mem_unique hopen.stored hm
      obtain rfl := hwinner hopen.pendingWinner
      obtain ⟨hfresh, hfits⟩ := executePayout_due hpay
      have hsome : w.disputeOf d.matchId = some d := by
        rw [World.disputeOf, (hf _ _ hd).2]
        exact hd
      refine ⟨fun d' hd' => ?_, hfresh, by rwa [hsome]⟩
      obtain rfl := mem_unique hsome hd'
      exact hopen.quorum

/-- A match that is not payable is left alone from then on. -/
theorem World.locked_of_not_payable (hw : Reachable w) (hm : w.matchMap i = some m)
    (hs : m.state = .pendingResult) (hpast : w.DeadlinesPassed i sequence)
    (hnot : ¬w.Payable i m sequence) : w.Locked i sequence := by
  obtain ⟨-, k, hk⟩ := hw.tracks i
  have hdue := hk.due hm hs hpast
  intro es hes
  suffices Reachable (run step w es) ∧ (run step w es).Tracks i k ∧ w.Rests (run step w es) i from
    ⟨⟨m, this.2.2.stored.trans hm, hs⟩, this.2.2.log⟩
  refine run_inv (I := fun w' => Reachable w' ∧ w'.Tracks i k ∧ w.Rests w' i)
    (P := fun _ ev => ev.NotBefore sequence) ?_ ⟨hw, hk, .refl w i⟩ (along_of_forall hes)
  rintro w' ev ⟨hw', hk', hrests⟩ hev
  have hm' : w'.matchMap i = some m := hrests.stored.trans hm
  have hdue' : w'.Due i sequence k := by
    cases hdue with
    | waiting hnone hle => exact .waiting (hrests.dispute.trans hnone) hle
    | challenged hd hle => exact .challenged (hrests.dispute.trans hd) hle
  cases hmove : ev.move i w' with
  | none =>
    have hstep := (step_advances hw' (hw'.tracks i).1 hk' ev).silent hmove
    refine ⟨hw'.step ev, ?_, hrests.trans (step_rests hw' hk' hm' hs hmove)⟩
    rcases hstep with hk'' | ⟨rfl, -⟩
    · exact hk''
    · exact absurd hs (hk.1 m hm)
  | some =>
    have hpayable := payable_of_move hw' hk' hm' hs hdue' hev hmove
    exact absurd (hpayable.mono hrests.dispute le_rfl) hnot

/-- A payout of a sound match fails only where a token or the swap fails. -/
theorem MatchSound.payout_not_err (hsound : MatchSound i m pw) (hs : m.state = .pendingResult)
    (horacle : w.control.oracle.isSome = true) (hwinner : winner ≠ .none)
    (hfresh : m.RateFresh env.sequence) (hfits : m.DueFits winner) :
    executePayout i m winner env w ≠ .err e w' := fun h => by
  obtain ⟨hfunded1, hfunded2⟩ := hsound.stage.funded (by simp [hs]) (by simp [hs])
  exact executePayout_err h horacle (hsound.fits hfunded1 hfunded2) hsound.terms.stake_pos hwinner
    ⟨hfresh, hfits⟩

theorem invoke_closed {call : Call} (h : call.exec env w.fresh = .ok u w')
    (hm : w'.matchMap i = some m) (hs : m.state = .completed) :
    (step w (.invoke env call)).Closed i := by
  rw [step, invoke_of_ok h]
  exact ⟨m, hm, by rw [hs]; rfl⟩

/-- The call that closes a payable match fails only where a token or the swap fails. -/
theorem exists_closing (hw : Reachable w) (hm : w.matchMap i = some m)
    (hs : m.state = .pendingResult) (hpast : w.DeadlinesPassed i env.sequence)
    (hpayable : w.Payable i m env.sequence) : ∃ call : Call, call.closes i w = true ∧
      (call.exec env w.fresh ≠ .trap → (step w (.invoke env call)).Closed i) := by
  obtain ⟨hquorum, hfresh, hfits⟩ := hpayable
  obtain ⟨-, k, hk⟩ := hw.tracks i
  have hsound := hw.sound.stored i m hm
  have hwinner : m.winner ≠ .none := hsound.stage.winner.mpr (.inl hs)
  have hpending := hw.waitsAsRecorded i m hm hs
  cases hk.due hm hs hpast with
  | @waiting deadline hnone hle =>
    rw [hnone] at hfits
    obtain ⟨_, -, -, hline, hundisputed, -⟩ := hk
    have hopen : FinalizeOpen env w.fresh i m m.winner :=
      ⟨hm, hs, ⟨deadline, hline, hle⟩, hundisputed, hpending⟩
    refine ⟨.finalizeMatch i, by simp [Call.closes, Call.move, Label.closes], fun htrap => ?_⟩
    cases h : (Call.finalizeMatch i).exec env w.fresh with
    | trap => exact absurd h htrap
    | err =>
      exact absurd (finalizeMatch_err hopen h)
        (hsound.payout_not_err hs hw.oracle hwinner hfresh hfits)
    | ok =>
      obtain ⟨m1, _, w1, hopen1, -, rfl⟩ := finalizeMatch_ok h
      exact invoke_closed h (update_self ..) rfl
  | @challenged d hd hle =>
    rw [hd] at hfits
    obtain ⟨_, d1, -, -, hdisp, hactive, -⟩ := hk
    obtain ⟨j, hj, hdj⟩ := hdisp.filed
    have hsome : w.disputeOf i = some d1 := by
      rw [World.disputeOf, hj]
      exact hdj
    obtain rfl := mem_unique hsome hd
    obtain rfl := hdisp.matchId_eq
    have hopen : ResolveOpen env w.fresh j d1 m m.winner :=
      ⟨hdj, hactive, hle, hm, hs, hpending, hquorum d1 hsome⟩
    have houtcome : d1.outcome m.winner ≠ .none := by
      unfold Dispute.outcome
      split
      · simp
      · exact hwinner
    refine ⟨.resolveDisputeByVote j, by simp [Call.closes, Call.move, Label.closes, hdj],
      fun htrap => ?_⟩
    cases h : (Call.resolveDisputeByVote j).exec env w.fresh with
    | trap => exact absurd h htrap
    | err =>
      exact absurd (resolveDisputeByVote_err hopen h)
        (hsound.payout_not_err hs hw.oracle houtcome hfresh hfits)
    | ok =>
      obtain ⟨d2, m1, _, w1, w2, hopen1, -, -, rfl⟩ := resolveDisputeByVote_ok h
      obtain rfl := mem_unique hopen1.filed hdj
      exact invoke_closed h (update_self ..) rfl

theorem World.Locked.not_closed (h : w.Locked i env.sequence) (call : Call) :
    ¬(step w (.invoke env call)).Closed i := by
  rintro ⟨m1, hm1, hover⟩
  obtain ⟨⟨m2, hm2, hs2⟩, -⟩ := h [.invoke env call] (by simp [Event.NotBefore])
  rw [mem_unique hm1 hm2, hs2] at hover
  exact Bool.noConfusion hover

/-- In a host where the tokens and the swap do not fail, a match whose deadlines have passed can
be closed exactly if it is payable, and else is locked. -/
theorem pending_closable_iff (hw : Reachable w) (hm : w.matchMap i = some m)
    (hs : m.state = .pendingResult) (hpast : w.DeadlinesPassed i env.sequence)
    (hhost : ∀ call : Call, call.closes i w = true → call.exec env w.fresh ≠ .trap) :
    ((∃ call, (step w (.invoke env call)).Closed i) ↔ w.Payable i m env.sequence) ∧
      (w.Locked i env.sequence ↔ ¬w.Payable i m env.sequence) := by
  have hclosing (hpayable : w.Payable i m env.sequence) :
      ∃ call, (step w (.invoke env call)).Closed i := by
    obtain ⟨call, hcall, hclosed⟩ := exists_closing hw hm hs hpast hpayable
    exact ⟨call, hclosed (hhost call hcall)⟩
  have hnot : ¬w.Payable i m env.sequence → w.Locked i env.sequence :=
    World.locked_of_not_payable hw hm hs hpast
  refine ⟨⟨fun ⟨call, hclosed⟩ => ?_, hclosing⟩, fun hlocked hpayable => ?_, hnot⟩
  · by_contra hunpayable
    exact (hnot hunpayable).not_closed call hclosed
  · obtain ⟨call, hclosed⟩ := hclosing hpayable
    exact hlocked.not_closed call hclosed

/-- The win of address 2 in match 0 is pending and not disputed, at its deadline. -/
theorem pending_closable_iff_finalizedMatch :
    let w := run step .start (finalizedMatch.take 5)
    ∃ m, w.matchMap 0 = some m ∧ m.state = .pendingResult ∧ w.DeadlinesPassed 0 1 ∧
      ((∃ call, (step w (.invoke (.plain [] 1 0) call)).Closed 0) ↔ w.Payable 0 m 1) ∧
      (w.Locked 0 1 ↔ ¬w.Payable 0 m 1) := by
  intro w
  have hw : Reachable w := ⟨_, _, World.start_initial, rfl⟩
  have hstate : (w.matchMap 0).map Match.state = some .pendingResult := by decide +kernel
  obtain ⟨m, hm, hs⟩ := map_eq_some_iff.mp hstate
  have hpast : w.DeadlinesPassed 0 1 := ⟨by decide +kernel, by decide +kernel⟩
  refine ⟨m, hm, hs, hpast, pending_closable_iff hw hm hs ?_ fun call hcall => ?_⟩
  · exact hpast
  rcases Call.eq_of_closes hcall with rfl | ⟨j, d, rfl, hd, -⟩
  · have hc : Commits (.plain [] 1 0) (Call.finalizeMatch 0).exec w := by decide +kernel
    obtain ⟨w', h⟩ := hc
    rw [h]
    simp
  · have hcount : w.disputes.disputeCount = 0 := by decide +kernel
    have hlt := ((hw.tracks 0).1 j d hd).1
    omega

/-- Match 0 as before, but address 3 has disputed the result and nobody votes. Both stakes and
the bond stay in the contract. -/
theorem unvoted_dispute_locked :
    let w := run step .start (overturnedMatch.take 6)
    Reachable w ∧ (w.matchMap 0).map Match.state = some .pendingResult ∧
      w.DeadlinesPassed 0 17280 ∧ w.ledger (.ext 4) .self = 201 ∧ w.Locked 0 17280 ∧
      ∀ (env : Env) (call : Call), env.sequence = 17280 →
        ¬(step w (.invoke env call)).Closed 0 := by
  intro w
  have hw : Reachable w := ⟨_, _, World.start_initial, rfl⟩
  have hstate : (w.matchMap 0).map Match.state = some .pendingResult := by decide +kernel
  have hpast : w.DeadlinesPassed 0 17280 := ⟨by decide +kernel, by decide +kernel⟩
  have hvotes : (w.disputeOf 0).any
      (fun d => saturatingAdd d.yesVotes d.noVotes < d.quorumThreshold) = true := by
    decide +kernel
  have hlocked : w.Locked 0 17280 := by
    obtain ⟨m, hm, hs⟩ := map_eq_some_iff.mp hstate
    obtain ⟨d, hd, hlt⟩ := (any_eq_true ..).mp hvotes
    refine World.locked_of_not_payable hw hm hs hpast fun hpayable => ?_
    exact absurd (hpayable.quorum d hd) (not_le.mpr (of_decide_eq_true hlt))
  refine ⟨hw, hstate, hpast, by decide +kernel, hlocked, fun env call hseq => ?_⟩
  exact World.Locked.not_closed (hseq ▸ hlocked) call

end Checkmate.Escrow

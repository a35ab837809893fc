import Checkmate.Escrow.Settings

/-!
# What the entry points write

Every entry point is a chain of reads, checks and writes, and there are sixteen kinds of
writes. `Call.makes` lists the kinds that an entry point makes. A property of the state that
each of them keeps is maintained by the entry point, where it returns and where it fails
(`Call.exec_maintains`). Frames are the case of a property that says what a part of the state
is : the entry point leaves what its writes leave (`Call.exec_frames`).
-/

namespace Checkmate.Escrow

open Tx

/-- The kinds of writes. -/
inductive Write where
  /-- An authorisation is used. -/
  | auth
  /-- A temporary rotation that does not apply is dropped. -/
  | rotation
  | control
  | matchMap
  | matchCount
  | index
  | stats
  | snapshot
  | playerSnapshot
  | escrow
  | depositGuard
  | transfer
  /-- A result starts to wait for the dispute window. -/
  | pendingResult
  | disputes
  | oracleRecord
  | consensus
deriving DecidableEq

/-- The settings without the temporary rotation. -/
def Control.dropRotation (c : Control) : Control :=
  c.saveRotationState (c.getRotationState.setTemp none)

/-- A write of the kind by an invocation in `env` keeps `P`. -/
def Write.Keeps (env : Env) (P : World → Prop) : Write → Prop
  | .auth => ∀ w a, P w → P (w.withControl (w.control.useAuth a))
  | .rotation => ∀ w rot, w.control.getRotationState.temp = some rot →
      ¬(env.timestamp < rot.expiry ∧ w.control.oracle = some rot.oldOracle) → P w →
      P (w.withControl w.control.dropRotation)
  | .control => ∀ w c, P w → P (w.withControl c)
  | .matchMap => ∀ w id m, P w → P (w.putMatch id m)
  | .matchCount => ∀ w n, P w → P { w with matchCount := n }
  | .index => ∀ w ix, P w → P (w.withIndex ix)
  | .stats => ∀ w st, P w → P (w.withStats st)
  | .snapshot => ∀ w m reason balance, P w →
      P (w.withSnapshots (w.snapshots.record env m reason balance))
  | .playerSnapshot => ∀ w player, P w →
      P (w.withSnapshots (w.snapshots.recordPlayer env player (w.escrow player)))
  | .escrow => ∀ w player delta, P w → P (w.withEscrow (addToEscrow w.escrow player delta))
  | .depositGuard => ∀ w id value, P w → P (w.withDepositGuard id value)
  | .transfer => ∀ w t l, P w → P (w.withTransfer t l)
  | .pendingResult => ∀ w id winner deadline, P w → P (w.withDisputes { w.disputes with
      pendingWinner := Function.update w.disputes.pendingWinner id (some winner)
      resultDeadline := Function.update w.disputes.resultDeadline id (some deadline) })
  | .disputes => ∀ w d, P w → P (w.withDisputes d)
  | .oracleRecord => ∀ w id gameId, P w → P (w.withConsensus { w.consensus with
      oracleRecord := Function.update w.consensus.oracleRecord id (some gameId) })
  | .consensus => ∀ w s, P w → P (w.withConsensus s)

/-- What the creation of a match writes. -/
def Write.ofCreation : Write → Bool
  | .auth | .matchMap | .matchCount | .index | .stats | .snapshot => true
  | _ => false

/-- What a deposit writes. -/
def Write.ofDeposit : Write → Bool
  | .auth | .matchMap | .index | .snapshot | .playerSnapshot | .escrow | .depositGuard
  | .transfer => true
  | _ => false

/-- What a result writes. -/
def Write.ofResult : Write → Bool
  | .auth | .matchMap | .index | .stats | .snapshot | .playerSnapshot | .escrow
  | .pendingResult => true
  | _ => false

/-- What a payment out of a match writes. -/
def Write.ofPayment : Write → Bool
  | .matchMap | .index | .snapshot | .transfer => true
  | _ => false

/-- The writes of an entry point. -/
def Call.makes (call : Call) (k : Write) : Bool :=
  match call with
  | .initializeContract .. => k = .control || k = .matchCount
  | .control _ => k = .control
  | .createMatch .. | .createMatchTournament .. | .createMatchWithConversion ..
  | .createMatchWithReferrer .. => k.ofCreation
  | .deposit .. | .depositBatch _ => k.ofDeposit
  | .submitResult .. | .submitDraw .. => k.ofResult || k = .rotation
  | .submitResultWithOracleRecord .. => k.ofResult || k = .rotation || k = .oracleRecord
  | .submitResultBatch .. | .resolveOracleDeadlock .. => k.ofResult
  | .submitResultConsensus .. => k.ofResult || k = .consensus
  | .cancelMatch .. | .expireMatch _ | .bulkExpireMatches _ =>
    k.ofPayment || k = .auth || k = .playerSnapshot || k = .escrow
  | .adminRecoverMatch _ | .disputeAndRollbackMatch .. =>
    k.ofPayment || k = .auth || k = .playerSnapshot
  | .pauseMatch .. | .resumeMatch .. =>
    k = .auth || k = .matchMap || k = .index || k = .snapshot
  | .heartbeatMatch .. => k = .auth || k = .matchMap
  | .adminResolveStalledMatch .. => k.ofPayment || k = .auth || k = .playerSnapshot || k = .stats
  | .finalizeMatch _ => k.ofPayment || k = .playerSnapshot || k = .escrow || k = .stats
  | .disputeOracleResult .. => k = .auth || k = .transfer || k = .disputes
  | .voteOnDispute .. => k = .auth || k = .disputes
  | .resolveDisputeByVote _ => k.ofPayment || k = .stats || k = .disputes
  | .claimVestedPayout .. => k = .auth || k = .matchMap || k = .playerSnapshot || k = .transfer

section

variable {env : Env} {P : World → Prop}

/-! ## Guards -/

theorem onControl_maintains {α : Type} {x : ControlTx α}
    (hx : ∀ w, P w → Maintains env (fun c => P (w.withControl c)) x) :
    Maintains env P (onControl x) :=
  maintains_zoom (fun _ => rfl) hx

section

variable (h : Write.auth.Keeps env P)

include h

/-- A function that uses authorisations and writes nothing else. -/
theorem requireAuth_maintains (w : World) (a : Address) :
    Maintains env (fun c => P (w.withControl c)) (requireAuth a) :=
  maintains_ask_bind <| maintains_bind maintains_get fun _ =>
    maintains_ite (maintains_modify fun c hc => h (w.withControl c) a hc)
      maintains_abort

theorem onControl_requireAuth_maintains (a : Address) :
    Maintains env P (onControl (requireAuth a)) :=
  onControl_maintains fun w _ => requireAuth_maintains h w a

theorem requireAdmin_maintains :
    Maintains env P (onControl requireAdmin) :=
  onControl_maintains fun w _ => maintains_bind
    (maintains_bind maintains_get fun _ => maintains_orFail _ _) fun _ =>
      maintains_bind (requireAuth_maintains h w _) fun _ => maintains_pure _

theorem requireCaller_maintains (a : Address) :
    Maintains env P (onControl (requireCaller a)) :=
  onControl_maintains fun w _ => maintains_bind (requireAuth_maintains h w a) fun _ =>
    maintains_bind (maintains_bind maintains_get fun _ => maintains_orFail _ _)
      fun _ => maintains_reject _ _

end

theorem requireNotPaused_maintains : Maintains env P (onControl requireNotPaused) :=
  onControl_maintains fun _ _ => maintains_bind maintains_get fun _ =>
    maintains_reject _ _

theorem requirePlayerNotFrozen_maintains (a : Address) :
    Maintains env P (onControl (requirePlayerNotFrozen a)) :=
  onControl_maintains fun _ _ => maintains_bind maintains_get fun _ =>
    maintains_reject _ _

/-! ## Writes -/

theorem transfer_maintains (h : Write.transfer.Keeps env P) (t : Transfer) :
    Maintains env P (transfer t) :=
  maintains_ask_bind <| maintains_bind maintains_get fun _ =>
    maintains_bind (maintains_orAbort _) fun _ => maintains_modify fun w => h w t _

theorem modifyIndex_maintains (h : Write.index.Keeps env P) (f : Index → Index) :
    Maintains env P (modifyIndex f) :=
  maintains_modify fun w => h w _

theorem modifyStats_maintains (h : Write.stats.Keeps env P) (f : Stats → Stats) :
    Maintains env P (modifyStats f) :=
  maintains_modify fun w => h w _

theorem modifyDisputes_maintains (h : Write.disputes.Keeps env P) (f : Disputes → Disputes) :
    Maintains env P (modifyDisputes f) :=
  maintains_modify fun w => h w _

theorem modifyConsensus_maintains (h : Write.consensus.Keeps env P)
    (f : Consensus → Consensus) : Maintains env P (modifyConsensus f) :=
  maintains_modify fun w => h w _

theorem saveMatch_maintains (h : Write.matchMap.Keeps env P) (id : ℕ) (m : Match) :
    Maintains env P (saveMatch id m) :=
  maintains_modify fun w => h w _ _

theorem loadMatch_maintains (id : ℕ) : Maintains env P (loadMatch id) :=
  maintains_bind maintains_get fun _ => maintains_orFail _ _

theorem setMatchState_maintains (h : Write.index.Keeps env P) (m : Match) (state : MatchState) :
    Maintains env P (setMatchState m state) :=
  maintains_bind (modifyIndex_maintains h _) fun _ => maintains_pure _

theorem updatePlayerEscrowBalance_maintains (h : Write.escrow.Keeps env P) (player : Address)
    (delta : ℤ) : Maintains env P (updatePlayerEscrowBalance player delta) :=
  maintains_modify fun w => h w _ _

theorem recordSnapshot_maintains (h : Write.snapshot.Keeps env P) (m : Match)
    (reason : SnapshotReason) : Maintains env P (recordSnapshot m reason) :=
  maintains_ask_bind <| maintains_bind (maintains_orAbort _) fun _ =>
    maintains_modify fun w => h w _ _ _

theorem recordPlayerSnapshot_maintains (h : Write.playerSnapshot.Keeps env P)
    (player : Address) : Maintains env P (recordPlayerSnapshot player) :=
  maintains_ask_bind <| maintains_modify fun w => h w _

theorem releaseCounters_maintains (h : Write.escrow.Keeps env P) (m : Match) :
    Maintains env P (releaseCounters m) := by
  refine maintains_modify fun w hw => ?_
  unfold Match.releaseEscrow
  cases m.player1Deposited <;> cases m.player2Deposited
  · exact hw
  · exact h w _ _ hw
  · exact h w _ _ hw
  · exact h _ m.player2 _ (h w m.player1 _ hw)

theorem snapshotCancelled_maintains (h : Write.snapshot.Keeps env P)
    (hplayers : Write.playerSnapshot.Keeps env P) (m : Match) :
    Maintains env P (snapshotCancelled m) := by
  refine maintains_ask_bind <| maintains_bind (recordSnapshot_maintains h m _) fun _ =>
    maintains_modify fun w hw => ?_
  unfold Snapshots.recordDepositors
  cases m.player1Deposited <;> cases m.player2Deposited
  · exact hw
  · exact hplayers w _ hw
  · exact hplayers w _ hw
  · exact hplayers _ m.player2 (hplayers w m.player1 hw)

theorem setDepositGuard_maintains (h : Write.depositGuard.Keeps env P) (id : ℕ) (value : Bool) :
    Maintains env P (Tx.modify fun w => w.withDepositGuard id value : EscrowTx Unit) :=
  maintains_modify fun w => h w _ _

theorem clearing_maintains {α : Type} (h : Write.depositGuard.Keeps env P) (id : ℕ)
    {x : EscrowTx α} (hx : Maintains env P x) : Maintains env P (clearing id x) :=
  maintains_onError (fun w => h w _ _) hx

theorem addActiveMatch_maintains (h : Write.index.Keeps env P) (player : Address)
    (id : ℕ) : Maintains env P (addActiveMatch player id) :=
  maintains_bind maintains_get fun _ => maintains_bind (maintains_orFail _ _)
    fun _ => maintains_modify fun w => h w _

theorem settleLater_maintains (h : ∀ k : Write, k.ofResult = true → k.Keeps env P) (id : ℕ)
    (m : Match) (period : ℕ) : Maintains env P (settleLater id m period) :=
  maintains_ask_bind <| maintains_bind (maintains_orFail _ _) fun _ =>
    maintains_bind (setMatchState_maintains (h .index rfl) _ _) fun _ =>
    maintains_bind (saveMatch_maintains (h .matchMap rfl) _ _) fun _ =>
    maintains_bind (maintains_modify fun w => h .pendingResult rfl w _ _ _) fun _ =>
      recordSnapshot_maintains (h .snapshot rfl) _ _

/-- The temporary oracle answers while its rotation applies to the stored oracle. -/
theorem effectiveOracle_eq {c : Control} {base : Address} (hbase : c.oracle = some base) :
    effectiveOracle env c = match c.getRotationState.temp with
      | none => .ok base c
      | some rot =>
        if env.timestamp < rot.expiry ∧ c.oracle = some rot.oldOracle then .ok rot.tempOracle c
        else .ok base c.dropRotation := by
  have hload : getBaseOracle env c = .ok base c := by simp [getBaseOracle, hbase]
  rw [effectiveOracle, ask_bind, bind_of_ok hload, get_bind]
  cases c.getRotationState.temp with
  | none => rfl
  | some rot =>
    have happlies : (env.timestamp < rot.expiry ∧ rot.oldOracle = base) ↔
        (env.timestamp < rot.expiry ∧ c.oracle = some rot.oldOracle) := by
      rw [hbase, Option.some_inj, eq_comm (a := base)]
    simp only [happlies]
    split <;> rfl

theorem effectiveOracle_maintains {Q : Control → Prop}
    (h : ∀ c rot, c.getRotationState.temp = some rot →
      ¬(env.timestamp < rot.expiry ∧ c.oracle = some rot.oldOracle) → Q c → Q c.dropRotation) :
    Maintains env Q effectiveOracle := by
  intro c hc
  cases hbase : c.oracle with
  | none =>
    have hfail : effectiveOracle env c = .err .unauthorized c := by
      simp [effectiveOracle, getBaseOracle, hbase]
    rw [hfail]
    exact hc
  | some base =>
    rw [effectiveOracle_eq hbase]
    cases hrot : c.getRotationState.temp with
    | none => exact hc
    | some rot =>
      dsimp only
      split
      · exact hc
      · rename_i hstale
        exact h c rot hrot hstale hc

theorem authorizeResult_maintains (h : Write.auth.Keeps env P)
    (hrotation : Write.rotation.Keeps env P) (oracle : Address) :
    Maintains env P (authorizeResult oracle) := by
  refine onControl_maintains fun w _ => ?_
  refine maintains_bind (maintains_bind maintains_get fun _ => maintains_reject _ _)
    fun _ => maintains_bind (requireAuth_maintains h w oracle) fun _ =>
      maintains_bind (effectiveOracle_maintains fun c rot hrot hstale hc => ?_) fun _ =>
        maintains_reject _ _
  exact hrotation (w.withControl c) rot hrot hstale hc

theorem settleResult_maintains (h : ∀ k : Write, k.ofResult = true → k.Keeps env P) (id : ℕ)
    (winner : Winner) : Maintains env P (settleResult id winner) := by
  simp only [settleResult, checkSettle, recordResult, settleNow]
  repeat' with_reducible first
    | refine maintains_ask_bind ?_
    | refine maintains_bind ?_ fun _ => ?_
    | exact maintains_pure _
    | exact maintains_get
    | exact maintains_reject _ _
    | exact maintains_orFail _ _
    | exact loadMatch_maintains _
    | exact saveMatch_maintains (h .matchMap rfl) _ _
    | exact setMatchState_maintains (h .index rfl) _ _
    | exact modifyIndex_maintains (h .index rfl) _
    | exact modifyStats_maintains (h .stats rfl) _
    | exact updatePlayerEscrowBalance_maintains (h .escrow rfl) _ _
    | exact recordSnapshot_maintains (h .snapshot rfl) _ _
    | exact recordPlayerSnapshot_maintains (h .playerSnapshot rfl) _
    | refine maintains_ite ?_ ?_
    | exact settleLater_maintains h _ _ _

theorem createMatchInternal_maintains (h : ∀ k : Write, k.ofCreation = true → k.Keeps env P)
    (p : MatchParams) : Maintains env P (createMatchInternal p) := by
  simp only [createMatchInternal, authorizeCreation, checkParams, checkConversionRate,
    validateGameIdFormat, requirePlayerTierForStake]
  repeat' with_reducible first
    | refine maintains_ask_bind ?_
    | refine maintains_bind ?_ fun _ => ?_
    | exact maintains_pure _
    | exact maintains_get
    | exact maintains_reject _ _
    | exact maintains_orFail _ _
    | exact maintains_orAbort _
    | exact onControl_requireAuth_maintains (h .auth rfl) _
    | exact requireNotPaused_maintains
    | exact requirePlayerNotFrozen_maintains _
    | exact saveMatch_maintains (h .matchMap rfl) _ _
    | exact modifyIndex_maintains (h .index rfl) _
    | exact modifyStats_maintains (h .stats rfl) _
    | exact recordSnapshot_maintains (h .snapshot rfl) _ _
    | split
  exact maintains_modify fun w => h .matchCount rfl w _

/-- The writes of a deposit, with those to the index as the functions that make them. -/
theorem deposit_maintains_of (h : ∀ k : Write, k.ofDeposit = true → k ≠ .index → k.Keeps env P)
    (hstate : ∀ m state, Maintains env P (setMatchState m state))
    (hactive : ∀ player id, Maintains env P (addActiveMatch player id)) (id : ℕ)
    (player : Address) : Maintains env P (deposit id player) := by
  have hguard : Write.depositGuard.Keeps env P := h .depositGuard rfl (by decide)
  simp only [deposit, checkDeposit, takeDeposit, activateIfFunded, requirePlayerTierForStake]
  repeat' with_reducible first
    | refine maintains_ask_bind ?_
    | refine maintains_bind ?_ fun _ => ?_
    | exact maintains_pure _
    | exact maintains_get
    | exact maintains_reject _ _
    | exact maintains_orFail _ _
    | exact onControl_requireAuth_maintains (h .auth rfl (by decide)) _
    | exact requireNotPaused_maintains
    | exact requirePlayerNotFrozen_maintains _
    | exact loadMatch_maintains _
    | exact saveMatch_maintains (h .matchMap rfl (by decide)) _ _
    | exact hstate _ _
    | exact transfer_maintains (h .transfer rfl (by decide)) _
    | exact updatePlayerEscrowBalance_maintains (h .escrow rfl (by decide)) _ _
    | exact recordSnapshot_maintains (h .snapshot rfl (by decide)) _ _
    | exact recordPlayerSnapshot_maintains (h .playerSnapshot rfl (by decide)) _
    | exact setDepositGuard_maintains hguard _ _
    | exact hactive _ _
    | refine clearing_maintains hguard _ ?_
    | refine maintains_ite ?_ ?_

theorem deposit_maintains (h : ∀ k : Write, k.ofDeposit = true → k.Keeps env P) (id : ℕ)
    (player : Address) : Maintains env P (deposit id player) :=
  deposit_maintains_of (fun k hk _ => h k hk) (setMatchState_maintains (h .index rfl))
    (addActiveMatch_maintains (h .index rfl)) id player

theorem refundDeposits_maintains {pay : Transfer → EscrowTx Unit}
    (hpay : ∀ t, Maintains env P (pay t)) (id : ℕ) (m : Match) :
    Maintains env P (refundDeposits pay id m) :=
  maintains_bind (maintains_when (hpay _)) fun _ =>
    maintains_when (maintains_bind (maintains_orFail _ _) fun _ => hpay _)

theorem expireMatch_maintains {id : ℕ}
    (h : ∀ k, (Call.expireMatch id).makes k = true → k.Keeps env P) :
    Maintains env P (expireMatch id) := by
  simp only [expireMatch, markCancelled]
  repeat' with_reducible first
    | refine maintains_ask_bind ?_
    | refine maintains_bind ?_ fun _ => ?_
    | exact maintains_pure _
    | exact maintains_get
    | exact maintains_reject _ _
    | exact loadMatch_maintains _
    | exact saveMatch_maintains (h .matchMap rfl) _ _
    | exact setMatchState_maintains (h .index rfl) _ _
    | exact refundDeposits_maintains (transfer_maintains (h .transfer rfl)) _ _
    | exact releaseCounters_maintains (h .escrow rfl) _
    | exact snapshotCancelled_maintains (h .snapshot rfl) (h .playerSnapshot rfl) _

theorem executePayout_maintains (h : Write.transfer.Keeps env P) (id : ℕ) (m : Match)
    (winner : Winner) : Maintains env P (executePayout id m winner) := by
  simp only [executePayout, requireFreshRate, payPlayer2, oracleSwap]
  repeat' with_reducible first
    | refine maintains_ask_bind ?_
    | refine maintains_bind ?_ fun _ => ?_
    | exact maintains_get
    | exact maintains_fail _
    | exact maintains_abort
    | exact maintains_reject _ _
    | exact maintains_orFail _ _
    | exact maintains_orAbort _
    | exact transfer_maintains h _
    | refine maintains_when ?_
    | refine maintains_ite ?_ ?_
    | split

theorem markPaid_maintains (hmatch : Write.matchMap.Keeps env P) (hindex : Write.index.Keeps env P)
    (hstats : Write.stats.Keeps env P) (id : ℕ) (m : Match) : Maintains env P (markPaid id m) :=
  maintains_ask_bind <| maintains_bind (setMatchState_maintains hindex _ _) fun _ =>
    maintains_bind (modifyStats_maintains hstats _) fun _ =>
      maintains_bind (saveMatch_maintains hmatch _ _) fun _ => maintains_pure _

/-! ## Entry points -/

theorem submitResultBatch_maintains (h : ∀ k : Write, k.ofResult = true → k.Keeps env P)
    (results : List (ℕ × Winner)) (caller : Address) :
    Maintains env P (submitResultBatch results caller) := by
  have hentry (e : ℕ × Winner) : Maintains env P (settleEntry e) :=
    maintains_bind maintains_get fun _ => maintains_bind (maintains_reject _ _)
      fun _ => settleResult_maintains h e.1 e.2
  have hbase {Q : Control → Prop} : Maintains env Q getBaseOracle :=
    maintains_bind maintains_get fun _ => maintains_orFail _ _
  unfold submitResultBatch
  refine maintains_bind (onControl_maintains fun w _ => ?_) fun _ =>
    maintains_batch hentry results
  exact maintains_bind (maintains_bind maintains_get fun _ => maintains_reject _ _)
    fun _ => maintains_bind hbase fun _ => maintains_bind (maintains_reject _ _)
      fun _ => requireAuth_maintains (h .auth rfl) w caller

/-- What every write of an entry point keeps, the entry point maintains. -/
theorem Call.exec_maintains {call : Call} (h : ∀ k, call.makes k = true → k.Keeps env P) :
    Maintains env P call.exec := by
  have hresult (hof : ∀ k : Write, k.ofResult = true → call.makes k = true) (id : ℕ)
      (winner : Winner) : Maintains env P (settleResult id winner) :=
    settleResult_maintains (fun k hk => h k (hof k hk)) id winner
  cases call with
  | initializeContract =>
    simp only [Call.exec, Escrow.initializeContract]
    refine maintains_bind maintains_get fun _ =>
      maintains_bind (maintains_reject _ _) fun _ =>
        maintains_bind (maintains_reject _ _) fun _ => maintains_modify fun w hw => ?_
    exact h .control rfl _ _ (h .matchCount rfl w 0 hw)
  | control c =>
    refine onControl_maintains fun w hw c1 _ => ?_
    cases c.exec env c1 with
    | ok _ c2 => exact h .control rfl w c2 hw
    | err _ c2 => exact h .control rfl w c2 hw
    | trap => trivial
  | createMatch | createMatchTournament | createMatchWithConversion | createMatchWithReferrer =>
    simp only [Call.exec, void, Escrow.createMatch, Escrow.createMatchTournament,
      Escrow.createMatchWithConversion, Escrow.createMatchWithReferrer]
    exact maintains_bind (createMatchInternal_maintains h _) fun _ => maintains_pure _
  | deposit id player => exact deposit_maintains h id player
  | depositBatch entries =>
    have hentry (e : ℕ × Address) : Maintains env P (Escrow.deposit e.1 e.2) :=
      deposit_maintains h e.1 e.2
    simp only [Call.exec, void, Escrow.depositBatch]
    exact maintains_bind (maintains_bind requireNotPaused_maintains fun _ =>
      maintains_batch hentry entries) fun _ => maintains_pure _
  | expireMatch => exact expireMatch_maintains h
  | bulkExpireMatches =>
    have hentry (i : ℕ) : Maintains env P (Escrow.expireMatch i) := expireMatch_maintains h
    simp only [Call.exec, void, Escrow.bulkExpireMatches]
    refine maintains_bind (maintains_bind maintains_get fun w => ?_) fun _ =>
      maintains_pure _
    cases w.control.admin with
    | none => exact maintains_pure _
    | some admin =>
      exact maintains_bind (onControl_requireAuth_maintains (h .auth rfl) admin) fun _ =>
        maintains_bind (maintains_batch hentry _) fun _ => maintains_pure _
  | submitResultBatch results caller =>
    simp only [Call.exec, void]
    exact maintains_bind (submitResultBatch_maintains h results caller) fun _ =>
      maintains_pure _
  | submitResultWithOracleRecord id winner gameId oracle =>
    simp only [Call.exec, Escrow.submitResultWithOracleRecord, Escrow.submitResult]
    exact maintains_bind (maintains_bind
      (authorizeResult_maintains (h .auth rfl) (h .rotation rfl) oracle) fun _ =>
        hresult (fun k hk => by simp [Call.makes, hk]) id winner) fun _ =>
      maintains_modify fun w => h .oracleRecord rfl w _ _
  | _ =>
    simp only [Call.exec, void, Escrow.submitResult, Escrow.submitDraw,
      Escrow.submitResultConsensus, Escrow.resolveOracleDeadlock, agreeOnWinner,
      checkOracleDeadlock, markOracleDeadlock, Escrow.cancelMatch, Escrow.adminRecoverMatch,
      Escrow.pauseMatch, Escrow.resumeMatch, Escrow.heartbeatMatch,
      Escrow.disputeAndRollbackMatch, Escrow.adminResolveStalledMatch, Escrow.finalizeMatch,
      Escrow.disputeOracleResult, Escrow.voteOnDispute, Escrow.resolveDisputeByVote,
      Escrow.claimVestedPayout, refundCancelled, refundLessFee, markCancelled, payStalled,
      requireFreshRate, paySide, payWinner, payNet, oracleSwap]
    -- Each function is a chain of reads, checks, transfers and writes.
    repeat' with_reducible first
      | refine maintains_ask_bind ?_
      | refine maintains_bind ?_ fun _ => ?_
      | exact maintains_pure _
      | exact maintains_get
      | exact maintains_fail _
      | exact maintains_abort
      | exact maintains_reject _ _
      | exact maintains_orFail _ _
      | exact maintains_orAbort _
      | exact onControl_requireAuth_maintains (h .auth rfl) _
      | exact requireAdmin_maintains (h .auth rfl)
      | exact requireCaller_maintains (h .auth rfl) _
      | exact requireNotPaused_maintains
      | exact authorizeResult_maintains (h .auth rfl) (h .rotation rfl) _
      | exact hresult (fun k hk => by simp [Call.makes, hk]) _ _
      | exact loadMatch_maintains _
      | exact saveMatch_maintains (h .matchMap rfl) _ _
      | exact setMatchState_maintains (h .index rfl) _ _
      | exact modifyIndex_maintains (h .index rfl) _
      | exact modifyStats_maintains (h .stats rfl) _
      | exact modifyDisputes_maintains (h .disputes rfl) _
      | exact modifyConsensus_maintains (h .consensus rfl) _
      | exact transfer_maintains (h .transfer rfl) _
      | exact executePayout_maintains (h .transfer rfl) _ _ _
      | exact markPaid_maintains (h .matchMap rfl) (h .index rfl) (h .stats rfl) _ _
      | exact updatePlayerEscrowBalance_maintains (h .escrow rfl) _ _
      | exact recordSnapshot_maintains (h .snapshot rfl) _ _
      | exact recordPlayerSnapshot_maintains (h .playerSnapshot rfl) _
      | exact releaseCounters_maintains (h .escrow rfl) _
      | exact snapshotCancelled_maintains (h .snapshot rfl) (h .playerSnapshot rfl) _
      | refine refundDeposits_maintains (fun _ => ?_) _ _
      | refine maintains_catchTrap ?_
      | refine maintains_when ?_
      | refine maintains_ite ?_ ?_
      | split

/-- A write of the kind does not show in `f`. -/
def Write.Ignored {τ : Type} (k : Write) (f : World → τ) : Prop :=
  ∀ env c, k.Keeps env fun w => f w = c

/-- An entry point ends with whatever its writes leave as it was. -/
theorem Call.exec_frames {τ : Type} {f : World → τ} {call : Call}
    (h : ∀ k, call.makes k = true → k.Ignored f) : Frames f call.exec :=
  frames_iff.mpr fun env c => call.exec_maintains fun k hk => h k hk env c

end

/-! ## Properties of one part of the state -/

section

variable {env : Env} {k : Write}

/-- Outside administration the settings change with the authorisations and the rotation. -/
theorem Write.keeps_control {Q : Control → Prop} (hk : k ≠ .control)
    (hauth : ∀ c a, Q c → Q (c.useAuth a))
    (hrotation : ∀ c rot, c.getRotationState.temp = some rot →
      ¬(env.timestamp < rot.expiry ∧ c.oracle = some rot.oldOracle) → Q c → Q c.dropRotation) :
    k.Keeps env fun w => Q w.control := by
  cases k with
  | control => exact absurd rfl hk
  | auth => exact fun w a => hauth w.control a
  | rotation => exact fun w => hrotation w.control
  | matchCount | index | stats | playerSnapshot | disputes | consensus => exact fun _ _ hw => hw
  | matchMap | escrow | depositGuard | transfer | oracleRecord => exact fun _ _ _ hw => hw
  | snapshot | pendingResult => exact fun _ _ _ _ hw => hw

/-- Pending results and disputes have two kinds of writes. -/
theorem Write.keeps_disputes {Q : Disputes → Prop} (hpending : k ≠ .pendingResult)
    (hdisputes : k ≠ .disputes) : k.Keeps env fun w => Q w.disputes := by
  cases k with
  | pendingResult => exact absurd rfl hpending
  | disputes => exact absurd rfl hdisputes
  | auth | control | matchCount | index | stats | playerSnapshot | consensus =>
    exact fun _ _ hw => hw
  | matchMap | escrow | depositGuard | transfer | oracleRecord => exact fun _ _ _ hw => hw
  | rotation | snapshot => exact fun _ _ _ _ hw => hw

end

end Checkmate.Escrow

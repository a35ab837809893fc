import Checkmate.Escrow.Matches

/-!
# Cancelling, pausing and recovering matches

The ways out of a match other than a result : cancelling and expiry of a pending match,
recovery by the admin, rollback by both players, and resolution of a stalled match by
the admin. Every refund of the second player is computed from the match's second token
and its conversion rate, although `deposit` took the first token from both players.

`adminRecoverMatch` wraps its transfers in `catch_unwind` : where panics unwind, a
failing transfer is skipped and the match is cancelled all the same.
-/

namespace Checkmate.Escrow

/-! ## Refunds -/

namespace Match

def isMultiToken (m : Match) : Bool := m.tokenB.isSome && m.conversionRate.any (0 < ·)

/-- The token player 2 is refunded in. -/
def refundTokenB (m : Match) : Address := m.tokenB.getD m.token

/-- What player 2 is refunded. -/
def amountB (m : Match) : Option ℤ :=
  if m.isMultiToken then convert m.stakeAmount (m.conversionRate.getD 0)
  else some m.stakeAmount

/-- What a refund takes from player 2's escrow counter. -/
def counterAmountB (m : Match) : ℤ :=
  if m.isMultiToken then
    (checkedDiv ((checkedMul m.stakeAmount (m.conversionRate.getD 0)).getD 0) 10000000).getD 0
  else m.stakeAmount

def isPlayer (m : Match) (a : Address) : Prop := a = m.player1 ∨ a = m.player2

instance (m : Match) (a : Address) : Decidable (m.isPlayer a) :=
  inferInstanceAs (Decidable (_ ∨ _))

end Match

/-- A transfer out of the contract on account of a match. -/
def outgoing (matchId : ℕ) (leg : Leg) (token target : Address) (amount : ℤ) : Transfer :=
  ⟨token, .self, target, amount, ⟨matchId, leg⟩⟩

/-- Pay every depositor back with `pay`. -/
def refundDeposits (pay : Transfer → EscrowTx Unit) (matchId : ℕ) (m : Match) :
    EscrowTx Unit := do
  Tx.when (m.player1Deposited = true) do
    pay (outgoing matchId (.refund .player1) m.token m.player1 m.stakeAmount)
  Tx.when (m.player2Deposited = true) do
    let amountB ← Tx.orFail m.amountB .overflow
    pay (outgoing matchId (.refund .player2) m.refundTokenB m.player2 amountB)

/-- Store a match as cancelled. -/
def markCancelled (matchId : ℕ) (m : Match) : EscrowTx Match := do
  let env ← Tx.ask
  let m ← setMatchState m .cancelled
  let m := m.completedAt env.sequence
  saveMatch matchId m
  pure m

/-- Take the refunded amounts from the escrow counters. -/
def Match.releaseEscrow (m : Match) (escrow : Address → ℤ) : Address → ℤ :=
  let escrow :=
    if m.player1Deposited then addToEscrow escrow m.player1 (-m.stakeAmount) else escrow
  if m.player2Deposited then addToEscrow escrow m.player2 (-m.counterAmountB) else escrow

def releaseCounters (m : Match) : EscrowTx Unit :=
  Tx.modify fun w => w.withEscrow (m.releaseEscrow w.escrow)

/-- Player snapshots of the depositors of a match. -/
def Snapshots.recordDepositors (sn : Snapshots) (env : Env) (m : Match)
    (escrow : Address → ℤ) : Snapshots :=
  let sn :=
    if m.player1Deposited then sn.recordPlayer env m.player1 (escrow m.player1) else sn
  if m.player2Deposited then sn.recordPlayer env m.player2 (escrow m.player2) else sn

/-- Snapshots of a cancelled match and of its depositors. -/
def snapshotCancelled (m : Match) : EscrowTx Unit := do
  let env ← Tx.ask
  recordSnapshot m .cancelled
  Tx.modify fun w => w.withSnapshots (w.snapshots.recordDepositors env m w.escrow)

/-! ## Cancelling -/

/-- The share of a refund that goes to the treasury. -/
def cancellationFee (bps : ℕ) (amount : ℤ) : Option ℤ :=
  if bps > 0 then (checkedMul amount bps).map (·.tdiv 10000) else some 0

/-- Pay one depositor back, less the fee. -/
def refundLessFee (matchId : ℕ) (side : Side) (token player treasury : Address)
    (refundAmount feeAmount : ℤ) : EscrowTx Unit := do
  transfer (outgoing matchId (.refund side) token player refundAmount)
  Tx.when (feeAmount > 0) do
    transfer (outgoing matchId (.cancelFee side) token treasury feeAmount)

/-- Both refunds of a cancelled match. The fee on the stake is computed whether or not
player 1 has deposited. -/
def refundCancelled (matchId : ℕ) (m : Match) (config : ProtocolConfig) : EscrowTx Unit := do
  let bps := config.fees.cancellationFeeBasisPoints
  let feeAmount ← Tx.orFail (cancellationFee bps m.stakeAmount) .overflow
  let refundAmount ← Tx.orFail (checkedSub m.stakeAmount feeAmount) .overflow
  Tx.when (m.player1Deposited = true) do
    refundLessFee matchId .player1 m.token m.player1 config.treasury refundAmount feeAmount
  Tx.when (m.player2Deposited = true) do
    let amountB ← Tx.orFail m.amountB .overflow
    let feeAmountB ← Tx.orFail (cancellationFee bps amountB) .overflow
    let refundAmountB ← Tx.orFail (checkedSub amountB feeAmountB) .overflow
    refundLessFee matchId .player2 m.refundTokenB m.player2 config.treasury refundAmountB
      feeAmountB

def cancelMatch (matchId : ℕ) (caller : Address) : EscrowTx Unit := do
  onControl requireNotPaused
  let m ← loadMatch matchId
  Tx.reject (m.state ≠ .pending) .invalidState
  Tx.reject (¬m.isPlayer caller) .unauthorized
  onControl (requireAuth caller)
  let w ← Tx.get
  refundCancelled matchId m w.control.config
  let m ← markCancelled matchId m
  releaseCounters m
  snapshotCancelled m

/-- Timeout of a pending match in ledgers, rounded up. -/
def Control.currentMatchTimeout (c : Control) : ℕ :=
  ((c.config.timeouts.matchTimeoutSeconds + secondsPerLedger - 1) / secondsPerLedger) % 2 ^ 32

def expireMatch (matchId : ℕ) : EscrowTx Unit := do
  let env ← Tx.ask
  let m ← loadMatch matchId
  Tx.reject (m.state ≠ .pending) .invalidState
  let w ← Tx.get
  Tx.reject (env.sequence - m.createdLedger < w.control.currentMatchTimeout) .matchNotExpired
  Tx.reject ((w.control.blacklistedToken m.token).isSome = true ∨
    (m.isMultiToken = true ∧ (w.control.blacklistedToken m.refundTokenB).isSome = true))
    .tokenNotAllowed
  refundDeposits transfer matchId m
  let m ← markCancelled matchId m
  releaseCounters m
  snapshotCancelled m

def adminRecoverMatch (matchId : ℕ) : EscrowTx Unit := do
  let env ← Tx.ask
  let _ ← onControl requireAdmin
  let m ← loadMatch matchId
  Tx.reject (m.state ≠ .pending) .invalidState
  let w ← Tx.get
  Tx.reject (env.sequence - m.createdLedger < w.control.currentMatchTimeout)
    .recoveryTimelockNotElapsed
  refundDeposits (fun t => Tx.catchTrap env.unwinds (transfer t)) matchId m
  let m ← markCancelled matchId m
  snapshotCancelled m

/-- The ids among the first `maxBulkExpireSize` that were expired. An id whose expiry
fails is skipped. -/
def bulkExpireMatches (matchIds : List ℕ) : EscrowTx (List ℕ) := do
  let w ← Tx.get
  match w.control.admin with
  | none => pure []
  | some admin => do
    onControl (requireAuth admin)
    let ids := matchIds.take maxBulkExpireSize
    let outcomes ← Tx.batch expireMatch ids
    pure (((ids.zip outcomes).filter fun o => o.2.isNone).map Prod.fst)

/-! ## Pausing a match -/

def pauseMatch (matchId : ℕ) (caller : Address) : EscrowTx Unit := do
  let env ← Tx.ask
  onControl (requireAuth caller)
  let m ← loadMatch matchId
  Tx.reject (m.state ≠ .active) .invalidPauseState
  Tx.reject (¬m.isPlayer caller) .unauthorized
  Tx.reject (m.totalPauseDuration ≥ maxPauseDurationLedgers) .invalidPauseState
  let m ← setMatchState m .paused
  let m := m.withPause (some env.sequence) m.totalPauseDuration
  saveMatch matchId m
  recordSnapshot m .paused

def resumeMatch (matchId : ℕ) (caller : Address) : EscrowTx Unit := do
  let env ← Tx.ask
  onControl (requireAuth caller)
  let m ← loadMatch matchId
  Tx.reject (m.state ≠ .paused) .invalidState
  Tx.reject (¬m.isPlayer caller) .unauthorized
  let total := match m.pausedLedger with
    | some pausedAt => saturatingAddU u32Max m.totalPauseDuration (env.sequence - pausedAt)
    | none => m.totalPauseDuration
  let m ← setMatchState m .active
  let m := m.withPause none total
  saveMatch matchId m
  recordSnapshot m .resumed

/-- `update_heartbeat` is an alias. -/
def heartbeatMatch (matchId : ℕ) (player : Address) : EscrowTx Unit := do
  let env ← Tx.ask
  onControl (requireAuth player)
  let m ← loadMatch matchId
  Tx.reject (¬m.isPlayer player) .unauthorized
  Tx.reject (m.state = .completed ∨ m.state = .cancelled) .invalidState
  Tx.reject (m.state ≠ .active) .invalidState
  saveMatch matchId (m.withHeartbeat env.timestamp)

/-! ## Rollback by both players -/

/-- Set the rollback vote of one side. -/
def Match.voteRollback (m : Match) : Side → Match
  | .player1 => { m with rollbackVotePlayer1 := true }
  | .player2 => { m with rollbackVotePlayer2 := true }

def disputeAndRollbackMatch (matchId : ℕ) (disputer : Address) (reason : Bytes) :
    EscrowTx Unit := do
  let env ← Tx.ask
  Tx.reject (validReason reason = false) .invalidEvidenceHash
  onControl (requireAuth disputer)
  let m ← loadMatch matchId
  Tx.reject (¬m.isPlayer disputer) .unauthorized
  Tx.reject (m.state = .pendingResult ∨ m.state = .completed) .invalidState
  Tx.reject (m.state ≠ .active) .invalidState
  Tx.reject (env.timestamp - m.lastHeartbeat > rollbackWindowSeconds) .votingPeriodElapsed
  let m := m.voteRollback (m.sideOf disputer)
  saveMatch matchId m
  Tx.when (m.rollbackVotePlayer1 = true ∧ m.rollbackVotePlayer2 = true) do
    modifyIndex fun ix => ix.removeActivePlayers m matchId
    refundDeposits transfer matchId m
    let m ← markCancelled matchId m
    snapshotCancelled m

/-! ## Resolution of a stalled match -/

/-- The time a stall is measured from. -/
def Match.stallReference (m : Match) : ℕ := m.activatedAt.getD m.lastHeartbeat

def Match.isStalled (m : Match) (now : ℕ) : Prop :=
  m.state = .paused ∨ (m.state = .active ∧
    now - m.stallReference > maxPauseDurationLedgers * secondsPerLedger)

instance (m : Match) (now : ℕ) : Decidable (m.isStalled now) :=
  inferInstanceAs (Decidable (_ ∨ _))

/-- The whole pot of a stalled match : both stakes, the second one converted. -/
def Match.stallPot (m : Match) : Option ℤ :=
  if m.isMultiToken then do
    let amountB ← convert m.stakeAmount (m.conversionRate.getD 0)
    checkedAdd m.stakeAmount amountB
  else checkedMul m.stakeAmount 2

def payStalled (matchId : ℕ) (m : Match) (resolution : Winner) : EscrowTx Unit := do
  match resolution with
  | .player1 => do
    let totalPot ← Tx.orFail m.stallPot .overflow
    transfer (outgoing matchId (.stallPayout .player1) m.token m.player1 totalPot)
  | .player2 => do
    let totalPot ← Tx.orFail m.stallPot .overflow
    transfer (outgoing matchId (.stallPayout .player2) m.refundTokenB m.player2 totalPot)
  | .draw => do
    transfer (outgoing matchId (.stallPayout .player1) m.token m.player1 m.stakeAmount)
    let amountB ← Tx.orFail m.amountB .overflow
    transfer (outgoing matchId (.stallPayout .player2) m.refundTokenB m.player2 amountB)
  | .none => Tx.fail .invalidAmount

def adminResolveStalledMatch (matchId : ℕ) (caller : Address) (resolution : Winner) :
    EscrowTx Unit := do
  let env ← Tx.ask
  onControl (requireCaller caller)
  Tx.reject (resolution = .none) .invalidAmount
  let m ← loadMatch matchId
  Tx.reject (¬m.isStalled env.timestamp) .invalidState
  Tx.reject (m.player1Deposited = false ∨ m.player2Deposited = false) .notFunded
  Tx.reject (env.timestamp - m.stallReference ≤ adminStallWindowSeconds) .matchNotExpired
  modifyIndex fun ix => ix.removeActivePlayers m matchId
  payStalled matchId m resolution
  let m ← setMatchState m .completed
  let m := (m.withWinner resolution).completedAt env.sequence
  saveMatch matchId m
  recordSnapshot m .completed
  recordPlayerSnapshot m.player1
  recordPlayerSnapshot m.player2
  Tx.when (resolution ≠ .draw) do
    modifyStats fun st => st.recordCompletedPlayers m

end Checkmate.Escrow

import Checkmate.Escrow.Closing

/-!
# Payouts, disputes and oracle consensus

A settled pot leaves the contract on one of two routes. `claimVestedPayout` pays each
entitled player after the vesting period, less referral and protocol fee on a win.
`executePayout`, called by `finalizeMatch` and by `resolveDisputeByVote`, pays the whole
pot at once and charges no fee. Both routes ask only for the fields of the match that
they read : a result that waited for the dispute window keeps its vesting date.
-/

namespace Checkmate.Escrow

open Function

/-! ## Fees -/

/-- Share of the pot that goes to the referrer of a match, taken from the cancellation
fee rate. -/
def Control.computeReferralFee (c : Control) (m : Match) (pot : ℤ) : Option ℤ :=
  let bps := c.config.fees.cancellationFeeBasisPoints
  if m.referrer.isNone then some 0
  else if bps = 0 then some 0
  else do
    let platformFee := (← checkedMul pot bps).tdiv 10000
    let share ← checkedMul platformFee (c.referralShareBasisPoints.getD 2000)
    pure (share.tdiv 10000)

/-- Share of the pot that goes to the fee recipient, up to the configured cap. -/
def Control.computeProtocolFee (c : Control) (pot : ℤ) : Option ℤ :=
  let fees := c.config.fees
  if fees.protocolFeeBps = 0 then some 0
  else do
    let fee := (← checkedMul pot fees.protocolFeeBps).tdiv 10000
    pure (match fees.maxProtocolFee with
      | some cap => min fee cap
      | none => fee)

/-! ## Swaps -/

/-- Exchange tokens at the oracle contract, for at least `minAmountOut`. The oracle takes
the first token from the contract and pays the recipient in the second. -/
def oracleSwap (cause : Cause) (tokenIn tokenOut : Address) (amountIn minAmountOut : ℤ)
    (recipient : Address) : EscrowTx Unit := do
  let env ← Tx.ask
  let w ← Tx.get
  let oracle ← Tx.orFail w.control.oracle .unauthorized
  let amountOut ← Tx.orAbort (env.swapOut w.ledger oracle tokenIn tokenOut amountIn)
  Tx.when (amountIn ≤ 0 ∨ amountOut < minAmountOut) Tx.abort
  transfer ⟨tokenIn, .self, oracle, amountIn, cause⟩
  transfer ⟨tokenOut, oracle, recipient, amountOut, cause⟩

/-- The conversion rate of a multi-token match is at most 1000 ledgers old. -/
def requireFreshRate (m : Match) : EscrowTx Unit := do
  let env ← Tx.ask
  Tx.reject (m.isMultiToken = true ∧
    m.conversionRateLedger.any (fun l => env.sequence - l > 1000) = true)
    .conversionRateStalePriceSource

/-! ## Immediate payout -/

/-- Pay player 2 : in the stake token, or in the second token of a multi-token match. -/
def payPlayer2 (matchId : ℕ) (m : Match) (amount : ℤ) : EscrowTx Unit :=
  if m.isMultiToken = true then do
    let tokenB ← Tx.orFail m.tokenB .invalidState
    let rate ← Tx.orFail m.conversionRate .invalidState
    let amountB ← Tx.orFail (convert amount rate) .overflow
    oracleSwap ⟨matchId, .payout .player2⟩ m.token tokenB amount amountB m.player2
  else transfer (outgoing matchId (.payout .player2) m.token m.player2 amount)

def executePayout (matchId : ℕ) (m : Match) (winner : Winner) : EscrowTx Unit := do
  requireFreshRate m
  match winner with
  | .player1 => do
    let pot ← Tx.orFail (checkedMul m.stakeAmount 2) .overflow
    transfer (outgoing matchId (.payout .player1) m.token m.player1 pot)
  | .player2 => do
    let pot ← Tx.orFail (checkedMul m.stakeAmount 2) .overflow
    payPlayer2 matchId m pot
  | .draw => do
    transfer (outgoing matchId (.payout .player1) m.token m.player1 m.stakeAmount)
    payPlayer2 matchId m m.stakeAmount
  | .none => Tx.fail .invalidState

/-- Store a match as completed and count it for its players and its platform. -/
def markPaid (matchId : ℕ) (m : Match) : EscrowTx Match := do
  let env ← Tx.ask
  let m ← setMatchState m .completed
  let m := m.completedAt env.sequence
  modifyStats fun st => (st.recordCompletedPlayers m).recordPlatformPayout m.platform
  saveMatch matchId m
  pure m

def finalizeMatch (matchId : ℕ) : EscrowTx Unit := do
  let env ← Tx.ask
  let m ← loadMatch matchId
  Tx.reject (m.state ≠ .pendingResult) .matchNotInPendingResult
  let w ← Tx.get
  let deadline ← Tx.orFail (w.disputes.resultDeadline matchId) .pendingResultNotFound
  Tx.reject (env.sequence < deadline) .disputePeriodNotElapsed
  Tx.reject ((w.disputes.matchDispute matchId).isSome = true) .disputeAlreadyRaised
  let winner ← Tx.orFail (w.disputes.pendingWinner matchId) .pendingResultNotFound
  executePayout matchId m winner
  modifyIndex fun ix => ix.removeActivePlayers m matchId
  updatePlayerEscrowBalance m.player1 (-m.stakeAmount)
  updatePlayerEscrowBalance m.player2 (-m.stakeAmount)
  let m ← markPaid matchId m
  recordSnapshot m .finalized
  recordPlayerSnapshot m.player1
  recordPlayerSnapshot m.player2

/-! ## Disputes -/

def isAsciiHexdigit (b : UInt8) : Bool :=
  isAsciiDigit b || (65 ≤ b && b ≤ 70) || (97 ≤ b && b ≤ 102)

/-- 64 hexadecimal digits, not all zero. -/
def isValidEvidenceHash (evidenceHash : Bytes) : Bool :=
  decide (evidenceHash.length = 64) && evidenceHash.all isAsciiHexdigit &&
    evidenceHash.any (· ≠ 48)

/-- A share in basis points, unless the product overflows. -/
def basisPointsOf (amount : ℤ) (bps : ℕ) : Option ℤ := do
  let product ← checkedMul amount bps
  checkedDiv product 10000

/-- Open a dispute of a pending result, against a bond of at least 1. -/
def disputeOracleResult (matchId : ℕ) (disputer : Address) (evidenceHash : Bytes) :
    EscrowTx ℕ := do
  let env ← Tx.ask
  onControl (requireAuth disputer)
  let m ← loadMatch matchId
  Tx.reject (m.state ≠ .pendingResult) .matchNotInPendingResult
  Tx.reject (¬m.isPlayer disputer) .unauthorized
  let w ← Tx.get
  let deadline ← Tx.orFail (w.disputes.resultDeadline matchId) .pendingResultNotFound
  Tx.reject (env.sequence ≥ deadline) .disputePeriodNotElapsed
  Tx.reject (isValidEvidenceHash evidenceHash = false) .invalidEvidenceHash
  Tx.reject ((w.disputes.matchDispute matchId).isSome = true) .disputeAlreadyRaised
  let share ← Tx.orFail
    (basisPointsOf m.stakeAmount (w.control.disputeBondBasisPointsFor m.stakeAmount)) .overflow
  let disputeBond := max share 1
  Tx.reject (disputeBond ≤ 0) .insufficientBond
  transfer ⟨m.token, disputer, .self, disputeBond, ⟨matchId, .bond⟩⟩
  let w ← Tx.get
  let disputeId := w.disputes.disputeCount
  let votingDeadline ← Tx.orFail (checkedAddU u32Max env.sequence votingPeriodLedgers) .overflow
  let snapshotTotalWeight : ℤ := w.ledger m.token .self
  let quorumThreshold ← Tx.orFail (basisPointsOf snapshotTotalWeight
    (w.control.quorumBasisPoints.getD defaultQuorumBasisPoints)) .overflow
  let dispute : Dispute :=
    { id := disputeId
      matchId
      disputer
      createdLedger := env.sequence
      votingDeadline
      state := .active
      evidenceHash
      upholdVotes := 0
      overturnVotes := 0
      yesVotes := 0
      noVotes := 0
      disputeBond
      snapshotLedger := env.sequence
      snapshotTotalWeight
      quorumThreshold }
  modifyDisputes fun d => { d with
    dispute := update d.dispute disputeId (some dispute)
    matchDispute := update d.matchDispute matchId (some disputeId) }
  let oracle ← Tx.orFail w.control.oracle .unauthorized
  modifyDisputes fun d =>
    { d with disputeOracle := update d.disputeOracle disputeId (some oracle) }
  let nextId ← Tx.orFail (checkedAddU u64Max disputeId 1) .overflow
  modifyDisputes fun d => { d with disputeCount := nextId }
  pure disputeId

/-- The voter's escrow counter in the newest kept snapshot that is old enough. -/
def Snapshots.votingWeight (sn : Snapshots) (voter : Address) (snapshotLedger minLedger : ℕ) :
    Option ℤ :=
  let count := sn.playerSnapshotCount voter
  (List.range (min count maxPlayerSnapshots)).findSome? fun i =>
    match sn.playerSnapshot (voter, (count - (i + 1)) % maxPlayerSnapshots) with
    | some snap =>
      if snap.ledger ≤ snapshotLedger ∧ snap.ledger ≤ minLedger then some snap.balance else none
    | none => none

def voteOnDispute (disputeId : ℕ) (voter : Address) (vote : Bool) : EscrowTx Unit := do
  let env ← Tx.ask
  onControl (requireAuth voter)
  let w ← Tx.get
  let dispute ← Tx.orFail (w.disputes.dispute disputeId) .disputeNotFound
  Tx.reject (dispute.state ≠ .active) .disputeAlreadyResolved
  Tx.reject (env.sequence ≥ dispute.votingDeadline) .votingPeriodElapsed
  Tx.reject ((w.disputes.disputeVote (disputeId, voter)).isSome = true) .alreadyVoted
  let m ← loadMatch dispute.matchId
  let minHold := w.control.minimumHoldDuration.getD defaultMinimumHoldDuration
  match w.snapshots.votingWeight voter dispute.snapshotLedger
      (dispute.snapshotLedger - minHold) with
  | none => do
    Tx.reject (w.ledger m.token voter = 0) .notStaker
    Tx.fail .insufficientHoldingDuration
  | some weight => do
    Tx.reject (weight ≤ 0) .notStaker
    let dispute := if vote then { dispute with yesVotes := saturatingAdd dispute.yesVotes weight }
      else { dispute with noVotes := saturatingAdd dispute.noVotes weight }
    modifyDisputes fun d => { d with
      disputeVoteWeight := update d.disputeVoteWeight (disputeId, voter) (some weight)
      disputeVote := update d.disputeVote (disputeId, voter) (some vote)
      dispute := update d.dispute disputeId (some dispute) }

/-- More weight against the result than for it. -/
def Dispute.overturned (d : Dispute) : Prop := d.yesVotes > d.noVotes

instance (d : Dispute) : Decidable d.overturned := inferInstanceAs (Decidable (_ > _))

/-- An overturned result is paid as a draw and the bond goes back, an upheld one is paid as
recorded and the bond goes to the treasury. The recorded winner stays either way. -/
def resolveDisputeByVote (disputeId : ℕ) : EscrowTx Unit := do
  let env ← Tx.ask
  let w ← Tx.get
  let dispute ← Tx.orFail (w.disputes.dispute disputeId) .disputeNotFound
  Tx.reject (dispute.state ≠ .active) .disputeAlreadyResolved
  Tx.reject (env.sequence < dispute.votingDeadline) .votingPeriodNotElapsed
  let matchId := dispute.matchId
  let m ← loadMatch matchId
  Tx.reject (m.state ≠ .pendingResult) .matchNotInPendingResult
  let pendingWinner ← Tx.orFail (w.disputes.pendingWinner matchId) .pendingResultNotFound
  Tx.reject (saturatingAdd dispute.yesVotes dispute.noVotes < dispute.quorumThreshold)
    .quorumNotMet
  executePayout matchId m (if dispute.overturned then .draw else pendingWinner)
  modifyIndex fun ix => ix.removeActivePlayers m matchId
  transfer (outgoing matchId .bondReturn m.token
    (if dispute.overturned then dispute.disputer else w.control.config.treasury)
    dispute.disputeBond)
  let m ← markPaid matchId m
  let state := if dispute.overturned then DisputeState.resolvedOverturned else .resolvedUpheld
  modifyDisputes fun d =>
    { d with dispute := update d.dispute disputeId (some { dispute with state }) }
  recordSnapshot m .finalized

/-- The oracle that an overturned dispute accuses, for an amount up to the bond. -/
def markDisputeForOracleSlash (disputeId : ℕ) (slashAmount : ℤ) :
    EscrowTx (ℕ × Address × ℤ) := do
  let _ ← onControl requireAdmin
  let w ← Tx.get
  let dispute ← Tx.orFail (w.disputes.dispute disputeId) .disputeNotFound
  Tx.reject (dispute.state ≠ .resolvedOverturned) .invalidState
  Tx.reject (slashAmount ≤ 0 ∨ slashAmount > dispute.disputeBond) .invalidAmount
  let oracle ← Tx.orFail (w.disputes.disputeOracle disputeId) .unauthorized
  pure (disputeId, oracle, slashAmount)

/-! ## Vested payout -/

/-- The winner that pays the whole pot to a side. -/
def Side.winner : Side → Winner
  | .player1 => .player1
  | .player2 => .player2

/-- Set the claim flag of one side. -/
def Match.setClaimed (m : Match) : Side → Match
  | .player1 => { m with player1Claimed := true }
  | .player2 => { m with player2Claimed := true }

/-- Whether a player's claim is paid in the second token of the match. -/
def Control.useSwap (c : Control) (m : Match) (player : Address) : Bool :=
  (c.playerPreferredToken player).any fun pt =>
    decide (pt ≠ m.token) && decide (m.tokenB = some pt) && m.conversionRate.any (0 < ·)

/-- Pay the winner's share : in the stake token, or swapped into the second token. -/
def payNet (matchId : ℕ) (m : Match) (side : Side) (netPayout : ℤ) : EscrowTx Unit := do
  let w ← Tx.get
  if w.control.useSwap m (m.player side) = true then do
    let rate ← Tx.orAbort m.conversionRate
    let swapAmount ← Tx.orFail (convert netPayout rate) .overflow
    let tokenB ← Tx.orAbort m.tokenB
    oracleSwap ⟨matchId, .claim side⟩ m.token tokenB netPayout swapAmount (m.player side)
  else transfer (outgoing matchId (.claim side) m.token (m.player side) netPayout)

/-- Pay the winner : the pot less fees, then the fees. -/
def payWinner (matchId : ℕ) (m : Match) (side : Side) : EscrowTx Unit := do
  let w ← Tx.get
  let c := w.control
  let pot ← Tx.orFail (checkedMul m.stakeAmount 2) .overflow
  let referralFee ← Tx.orFail (c.computeReferralFee m pot) .overflow
  let protocolFee ← Tx.orFail (c.computeProtocolFee pot) .overflow
  let afterReferral ← Tx.orFail (checkedSub pot referralFee) .overflow
  let netPayout ← Tx.orFail (checkedSub afterReferral protocolFee) .overflow
  payNet matchId m side netPayout
  Tx.when (referralFee > 0) do
    let referrer ← Tx.orFail m.referrer .invalidState
    transfer (outgoing matchId .referralFee m.token referrer referralFee)
  Tx.when (protocolFee > 0) do
    transfer (outgoing matchId .protocolFee m.token c.config.fees.feeRecipient protocolFee)

/-- Pay one side of a settled match what the recorded winner entitles it to. -/
def paySide (matchId : ℕ) (m : Match) (side : Side) : EscrowTx Unit := do
  Tx.reject (m.claimed side = true) .alreadyClaimed
  if m.winner = side.winner then payWinner matchId m side
  else if m.winner = .draw then
    transfer (outgoing matchId (.claim side) m.token (m.player side) m.stakeAmount)
  else if m.winner = .none then Tx.fail .invalidState
  else Tx.fail .unauthorized

def claimVestedPayout (matchId : ℕ) (player : Address) : EscrowTx Unit := do
  let env ← Tx.ask
  onControl (requireAuth player)
  let m ← loadMatch matchId
  Tx.reject (m.state ≠ .completed) .invalidState
  let vestedAt ← Tx.orFail m.vestedAt .invalidState
  let w ← Tx.get
  let vestingEnd ← Tx.orFail
    (checkedAddU u64Max vestedAt w.control.config.timeouts.vestingDurationSeconds) .overflow
  Tx.reject (env.timestamp < vestingEnd) .vestingNotExpired
  Tx.reject (¬m.isPlayer player) .unauthorized
  Tx.reject (m.winner = .none) .invalidState
  requireFreshRate m
  paySide matchId m (m.sideOf player)
  saveMatch matchId (m.setClaimed (m.sideOf player))
  recordPlayerSnapshot player

/-! ## Oracle consensus -/

def markOracleDeadlock (matchId : ℕ) : EscrowTx Unit :=
  modifyConsensus fun s =>
    { s with oracleDeadlock := update s.oracleDeadlock matchId true }

def checkOracleDeadlock (matchId confirmations required : ℕ) : EscrowTx Unit := do
  let w ← Tx.get
  let oracleCount := w.control.getApprovedOracles.length
  Tx.when (required > oracleCount ∨
    saturatingAddU u32Max confirmations (oracleCount - confirmations) < required) do
    markOracleDeadlock matchId

/-- The first vote sets the leading winner, a later one has to agree with it. -/
def agreeOnWinner (matchId : ℕ) (winner : Winner) (existing : ℕ) : EscrowTx Unit := do
  let w ← Tx.get
  if existing > 0 then do
    let leading ← Tx.orFail (w.consensus.consensusLeadingWinner matchId) .conflictingResult
    Tx.when (leading ≠ winner) do
      markOracleDeadlock matchId
      Tx.fail .conflictingResult
  else
    modifyConsensus fun s => { s with
      consensusLeadingWinner := update s.consensusLeadingWinner matchId (some winner) }

def submitResultConsensus (matchId : ℕ) (winner : Winner) (oracle : Address) :
    EscrowTx Unit := do
  onControl requireNotPaused
  onControl (requireAuth oracle)
  let w ← Tx.get
  Tx.reject (oracle ∉ w.control.getApprovedOracles) .notAnOracle
  let m ← loadMatch matchId
  Tx.reject (m.state ≠ .active) .invalidState
  Tx.reject (m.player1Deposited = false ∨ m.player2Deposited = false) .notFunded
  Tx.reject ((w.consensus.oracleVote (matchId, oracle)).isSome = true) .oracleAlreadyConfirmed
  let existing := w.consensus.oracleConfirmations matchId
  let required := w.control.getRequiredConfirmations
  agreeOnWinner matchId winner existing
  modifyConsensus fun s =>
    { s with oracleVote := update s.oracleVote (matchId, oracle) (some winner) }
  let confirmations ← Tx.orFail (checkedAddU u32Max existing 1) .overflow
  modifyConsensus fun s =>
    { s with oracleConfirmations := update s.oracleConfirmations matchId confirmations }
  if confirmations ≥ required then settleResult matchId winner
  else checkOracleDeadlock matchId confirmations required

def Consensus.isOracleDeadlocked (s : Consensus) (matchId : ℕ) : Bool := s.oracleDeadlock matchId

def resolveOracleDeadlock (matchId : ℕ) (winner : Winner) : EscrowTx Unit := do
  let _ ← onControl requireAdmin
  let m ← loadMatch matchId
  Tx.reject (m.state ≠ .active) .invalidState
  let w ← Tx.get
  Tx.reject (w.consensus.oracleDeadlock matchId = false) .invalidState
  settleResult matchId winner

end Checkmate.Escrow

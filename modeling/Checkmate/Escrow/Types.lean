import Checkmate.Host.Machine

/-!
# Data types of the escrow contract

The records and enumerations of `types.rs` and `errors.rs`, the constants of `lib.rs`
and the transition table of `state_machine.rs`.

`Address.self` is the escrow contract's own address.
-/

namespace Checkmate.Escrow

/-! ## Enumerations -/

inductive MatchState where
  | pending
  | active
  | pendingResult
  | completed
  | cancelled
  | paused
deriving DecidableEq, Repr

/-- Completed and cancelled matches are over. -/
def MatchState.terminal : MatchState → Bool
  | .completed | .cancelled => true
  | _ => false

inductive Platform where
  | lichess
  | chessDotCom
deriving DecidableEq, Repr

inductive Winner where
  | none
  | player1
  | player2
  | draw
deriving DecidableEq, Repr

inductive PlayerTier where
  | bronze
  | silver
  | gold
  | platinum
deriving DecidableEq, Repr

/-- Why a balance snapshot was taken. -/
inductive SnapshotReason where
  | created
  | deposit
  | paused
  | resumed
  | completed
  | cancelled
  | resultSubmitted
  | finalized
deriving DecidableEq, Repr

inductive DisputeState where
  | active
  | upheld
  | overturned
  | resolvedUpheld
  | resolvedOverturned
deriving DecidableEq, Repr

/-- The error codes of `errors.rs`. -/
inductive Error where
  | matchNotFound
  | alreadyFunded
  | notFunded
  | unauthorized
  | invalidState
  | alreadyExists
  | alreadyInitialized
  | overflow
  | contractPaused
  | invalidAmount
  | playerFrozen
  | duplicateGameId
  | matchNotExpired
  | invalidGameId
  | invalidPlayers
  | tokenNotAllowed
  | invalidAddress
  | matchAlreadyActive
  | invalidTimeout
  | snapshotNotFound
  | vestingNotExpired
  | alreadyClaimed
  | disputeNotFound
  | pendingResultNotFound
  | disputeAlreadyResolved
  | votingPeriodElapsed
  | alreadyVoted
  | notStaker
  | votingPeriodNotElapsed
  | matchNotInPendingResult
  | disputePeriodNotElapsed
  | disputeAlreadyRaised
  | invalidEvidenceHash
  | tierStakeNotAllowed
  | notInitialized
  | invalidPauseState
  | conversionRateOutOfBounds
  | conversionRateStalePriceSource
  | insufficientBond
  | quorumNotMet
  | insufficientHoldingDuration
  | tooManyActiveMatches
  | notStablecoin
  | upgradeNotScheduled
  | upgradeReviewPeriodNotElapsed
  | invalidVersion
  | upgradeAlreadyScheduled
  | oracleAlreadyConfirmed
  | conflictingResult
  | notAnOracle
  | depositInProgress
  | disputeFallbackNotElapsed
  | configValueTooHigh
  | upgradeNotConfirmed
  | recoveryTimelockNotElapsed
deriving DecidableEq, Repr

/-! ## Constants -/

def maxSnapshotsPerMatch : ℕ := 8
def maxPlayerSnapshots : ℕ := 32
def secondsPerLedger : ℕ := 5
def defaultMatchTimeoutSeconds : ℕ := 2592000
def minMatchTimeoutSeconds : ℕ := 86400
def maxMatchTimeoutSeconds : ℕ := 7776000
def votingPeriodLedgers : ℕ := 17280
def rollbackWindowSeconds : ℕ := 86400
def maxPauseDurationLedgers : ℕ := 17280
def adminStallWindowSeconds : ℕ := 604800
def maxReasonLen : ℕ := 256
def defaultDisputeBondBasisPoints : ℕ := 100
def defaultMinimumHoldDuration : ℕ := 100
def defaultQuorumBasisPoints : ℕ := 2000
def maxGameIdLen : ℕ := 64
def lichessGameIdLen : ℕ := 8
def lichessGameIdLenExtended : ℕ := 12
def chessComGameIdMinLen : ℕ := 7
def chessComGameIdMaxLen : ℕ := 12
def defaultMinimumStake : ℤ := 1
def silverMinCompletedMatches : ℕ := 3
def goldMinCompletedMatches : ℕ := 6
def platinumMinCompletedMatches : ℕ := 10
def maxActiveMatchesPerPlayer : ℕ := 1000
def maxBulkExpireSize : ℕ := 100
def contractVersion : ℕ := 1000
def upgradeReviewPeriodLedgers : ℕ := 120960

/-! ## Records -/

structure FeeConfig where
  protocolFeeBps : ℕ
  feeRecipient : Address
  cancellationFeeBasisPoints : ℕ
  maxProtocolFee : Option ℤ
deriving DecidableEq

structure TimeoutConfig where
  matchTimeoutSeconds : ℕ
  vestingDurationSeconds : ℕ
deriving DecidableEq

/-- Stakes up to `maxStake` pay a bond of `bondBasisPoints`. -/
structure DisputeBondTier where
  maxStake : ℤ
  bondBasisPoints : ℕ
deriving DecidableEq

structure StakeConfig where
  minimumStake : ℤ
  maximumStake : Option ℤ
  stablecoinOnlyMode : Bool
  disputeBondTierSchedule : List DisputeBondTier
deriving DecidableEq

structure ProtocolConfig where
  treasury : Address
  fees : FeeConfig
  timeouts : TimeoutConfig
  stakes : StakeConfig
deriving DecidableEq

/-- Stakes up to `maxStake` pay a fee of `feeBasisPoints`. -/
structure FeeTier where
  maxStake : ℤ
  feeBasisPoints : ℕ
deriving DecidableEq

structure PendingAdminProposal where
  proposer : Address
  pendingAdmin : Address
deriving DecidableEq

structure TempOracleRotation where
  oldOracle : Address
  tempOracle : Address
  expiry : ℕ
deriving DecidableEq

structure PendingOracleRotation where
  oldOracle : Address
  newOracle : Address
deriving DecidableEq

/-- Both kinds of oracle rotation, each stored as its separate fields. -/
structure OracleRotationState where
  tempOldOracle : Option Address := none
  tempNewOracle : Option Address := none
  tempExpiry : Option ℕ := none
  pendingOldOracle : Option Address := none
  pendingNewOracle : Option Address := none
deriving DecidableEq

namespace OracleRotationState

def temp (r : OracleRotationState) : Option TempOracleRotation :=
  match r.tempOldOracle, r.tempNewOracle, r.tempExpiry with
  | some old, some new, some expiry => some ⟨old, new, expiry⟩
  | _, _, _ => none

def setTemp (r : OracleRotationState) : Option TempOracleRotation → OracleRotationState
  | some t => { r with
      tempOldOracle := some t.oldOracle
      tempNewOracle := some t.tempOracle
      tempExpiry := some t.expiry }
  | none => { r with tempOldOracle := none, tempNewOracle := none, tempExpiry := none }

def pending (r : OracleRotationState) : Option PendingOracleRotation :=
  match r.pendingOldOracle, r.pendingNewOracle with
  | some old, some new => some ⟨old, new⟩
  | _, _ => none

def setPending (r : OracleRotationState) :
    Option PendingOracleRotation → OracleRotationState
  | some p => { r with
      pendingOldOracle := some p.oldOracle
      pendingNewOracle := some p.newOracle }
  | none => { r with pendingOldOracle := none, pendingNewOracle := none }

def isEmpty (r : OracleRotationState) : Bool :=
  r.tempOldOracle.isNone && r.pendingOldOracle.isNone

end OracleRotationState

structure PlayerRating where
  username : Bytes
  rating : ℕ
  recordedLedger : ℕ
deriving DecidableEq

/-- One wager. -/
structure Match where
  id : ℕ
  player1 : Address
  player2 : Address
  stakeAmount : ℤ
  token : Address
  gameId : Bytes
  platform : Platform
  state : MatchState
  player1Deposited : Bool
  player2Deposited : Bool
  createdLedger : ℕ
  completedLedger : Option ℕ
  winner : Winner
  vestedAt : Option ℕ
  player1Claimed : Bool
  player2Claimed : Bool
  conversionRate : Option ℤ
  tokenB : Option Address
  conversionRateLedger : Option ℕ
  pausedLedger : Option ℕ
  totalPauseDuration : ℕ
  referrer : Option Address
  lastHeartbeat : ℕ
  bracketId : Option ℕ
  activatedAt : Option ℕ
  rollbackVotePlayer1 : Bool
  rollbackVotePlayer2 : Bool
  round : Option ℕ
deriving DecidableEq

structure Dispute where
  id : ℕ
  matchId : ℕ
  disputer : Address
  createdLedger : ℕ
  votingDeadline : ℕ
  state : DisputeState
  evidenceHash : Bytes
  upholdVotes : ℕ
  overturnVotes : ℕ
  yesVotes : ℤ
  noVotes : ℤ
  disputeBond : ℤ
  snapshotLedger : ℕ
  snapshotTotalWeight : ℤ
  quorumThreshold : ℤ
deriving DecidableEq

structure BalanceSnapshot where
  matchId : ℕ
  index : ℕ
  reason : SnapshotReason
  ledger : ℕ
  token : Address
  tokenSymbol : Bytes
  stakeAmount : ℤ
  escrowBalance : ℤ
  player1Deposited : Bool
  player2Deposited : Bool
  nonce : Bytes
  commitment : Bytes
deriving DecidableEq

structure PlayerBalanceSnapshot where
  player : Address
  index : ℕ
  ledger : ℕ
  balance : ℤ
deriving DecidableEq

/-- What is known of a balance in the past. -/
inductive BalanceAtTimestamp where
  | known (balance : ℤ)
  | noHistory
  | pruned
deriving DecidableEq, Repr

structure PlatformStats where
  totalMatches : ℕ := 0
  totalVolume : ℤ := 0
  totalPayouts : ℕ := 0
deriving DecidableEq

structure PlayerStats where
  totalMatches : ℕ := 0
  wins : ℕ := 0
  losses : ℕ := 0
  draws : ℕ := 0
  totalVolumeStaked : ℤ := 0
deriving DecidableEq

/-! ## The transition table -/

end Checkmate.Escrow

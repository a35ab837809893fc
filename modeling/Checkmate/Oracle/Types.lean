import Checkmate.Host.Machine

/-!
# Data types of the oracle contract

The records and enumerations of the oracle contract's `types.rs` and `errors.rs` and the
constants of its `lib.rs`. `Address.self` is the oracle contract's own address.
-/

namespace Checkmate.Oracle

/-! ## Enumerations -/

inductive Winner where
  | player1
  | player2
  | draw
deriving DecidableEq, Repr

inductive Platform where
  | lichess
  | chessDotCom
deriving DecidableEq, Repr

/-- The error codes of `errors.rs`, and `NoPendingAdmin`, which `lib.rs` returns too. -/
inductive Error where
  | unauthorized
  | alreadySubmitted
  | resultNotFound
  | alreadyInitialized
  | contractPaused
  | invalidGameId
  | batchTooLarge
  | batchDuplicateEntry
  | rateLimitExceeded
  | invalidRateLimit
  | insufficientStake
  | notRegisteredOracle
  | invalidPauseState
  | matchDisputed
  | invalidThreshold
  | matchNotDisputed
  | oracleDeactivated
  | oracleNotSlow
  | invalidAmount
  | overflow
  | slippageExceeded
  | stakeTokenMismatch
  | slashNotFound
  | slashGracePeriodNotElapsed
  | rateNotFound
  | invalidRate
  | slashAlreadyPending
  | invalidConfidence
  | noPendingAdmin
deriving DecidableEq, Repr

/-! ## Constants -/

def slaMaxResponseTimeMs : ℕ := 5000

def maxBatchSize : ℕ := 100

def defaultCacheTtlSecs : ℕ := 3600

def defaultHourlyLimit : ℕ := 100

def defaultDailyLimit : ℕ := 1000

def hourlyWindowSecs : ℕ := 3600

def dailyWindowSecs : ℕ := 86400

def maxRateAgeLedgers : ℕ := 17280

def defaultConsensusThreshold : ℕ := 1

/-- Share of the stake taken for two votes of one oracle on one match. -/
def equivocationSlashBps : ℤ := 10000

/-- Share of the stake taken for a vote against the result. -/
def minoritySlashBps : ℤ := 1000

/-- Rates are scaled by 1e7. -/
def rateScale : ℤ := 10000000

/-! ## Results and votes -/

/-- A candidate result of a match, as one oracle submits it. -/
structure OracleVoteRecord where
  gameId : Bytes
  platform : Platform
  result : Winner
deriving DecidableEq

structure ResultEntry where
  gameId : Bytes
  platform : Platform
  result : Winner
  submittedLedger : ℕ
  submitter : Address
  confidence : Option ℕ
deriving DecidableEq

/-- The candidate that was stored. -/
def ResultEntry.vote (r : ResultEntry) : OracleVoteRecord := ⟨r.gameId, r.platform, r.result⟩

structure BatchResultEntry where
  matchId : ℕ
  gameId : Bytes
  platform : Platform
  result : Winner
  confidence : Option ℕ
deriving DecidableEq

structure OracleSubmissionEntry where
  matchId : ℕ
  gameId : Bytes
  platform : Platform
  result : Winner
  submittedLedger : ℕ
deriving DecidableEq

/-- A candidate and the oracles that voted for it. -/
structure CandidateTally where
  gameId : Bytes
  platform : Platform
  result : Winner
  submitters : List Address
deriving DecidableEq

def CandidateTally.vote (c : CandidateTally) : OracleVoteRecord :=
  ⟨c.gameId, c.platform, c.result⟩

/-- The comparison of a tally with a submission, field by field. -/
def CandidateTally.agrees (c : CandidateTally) (vote : OracleVoteRecord) : Bool :=
  c.result = vote.result && c.platform = vote.platform && c.gameId = vote.gameId

@[simp] theorem CandidateTally.agrees_iff {c : CandidateTally} {vote : OracleVoteRecord} :
    c.agrees vote = true ↔ c.vote = vote := by
  cases vote
  simp [agrees, CandidateTally.vote, and_comm, and_assoc]

structure ConsensusState where
  candidates : List CandidateTally
  disputed : Bool
deriving DecidableEq

structure VoteTally where
  remainingEligible : ℕ
  eligibilityVersion : ℕ
deriving DecidableEq

/-! ## Stakes -/

structure OracleRegistration where
  oracleAddress : Address
  oracleStake : ℤ
  token : Address
deriving DecidableEq

structure PendingSlash where
  oracleAddress : Address
  matchId : ℕ
  slashAmount : ℤ
  token : Address
  stagedLedger : ℕ
  eligibleLedger : ℕ
deriving DecidableEq

/-! ## Limits, metrics, rates and administration -/

structure OracleMetrics where
  lastResponseTimeMs : ℕ := 0
  avgResponseTimeMs : ℕ := 0
  uptimePercentage : ℕ := 100
  totalSubmissions : ℕ := 0
  successfulSubmissions : ℕ := 0
  active : Bool := true
deriving DecidableEq

structure RateLimitConfig where
  hourlyLimit : ℕ := defaultHourlyLimit
  dailyLimit : ℕ := defaultDailyLimit
deriving DecidableEq

structure RateWindow where
  windowStart : ℕ
  currentCount : ℕ
  previousCount : ℕ
deriving DecidableEq

structure RateEntry where
  rate : ℤ
  updatedLedger : ℕ
deriving DecidableEq

structure PendingAdminProposal where
  proposer : Address
  pendingAdmin : Address
deriving DecidableEq

end Checkmate.Oracle

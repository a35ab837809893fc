import Checkmate.Oracle.Limits
import Checkmate.Oracle.Stakes

/-!
# Results and votes

The admin stores results directly, one by one or in a batch. Registered oracles vote
(`submitOracleResult`) : the first candidate that as many of them name as the threshold
asks for becomes the result, and the oracles that named another one lose part of their
stake. When no candidate can reach the threshold any more the match is disputed and the
admin decides it.

`submitOracleResult` is cut where the source returns early : `lateVote` is a vote on a
match that has a result, `castVote` one on a match that has none, `recordVote` the first
vote of an oracle on the match, which ends in `finalizeCandidate` or `awaitVotes`.
-/

namespace Checkmate.Oracle

open Function

/-! ## Stored results -/

def Results.putResult (s : Results) (matchId : ℕ) (entry : ResultEntry) : Results :=
  { s with result := update s.result matchId (some entry) }

def Results.putCache (s : Results) (gameId : Bytes) (platform : Platform)
    (cached : Option (Winner × ℕ)) : Results :=
  { s with oracleCache := update s.oracleCache (gameId, platform) cached }

def Results.appendSubmission (s : Results) (oracle : Address) (entry : OracleSubmissionEntry) :
    Results :=
  { s with
    oracleSubmissionList := update s.oracleSubmissionList oracle
      (s.oracleSubmissionList oracle ++ [entry]) }

/-- When a result cached now expires. -/
def Env.cacheExpiry (env : Env) : ℕ := saturatingAddU u64Max env.timestamp defaultCacheTtlSecs

/-- Store a result and cache it. -/
def storeResult (matchId : ℕ) (vote : OracleVoteRecord) (submitter : Address)
    (confidence : Option ℕ) : OracleTx Unit := do
  let env ← Tx.ask
  modifyResults fun s => s.putResult matchId
    ⟨vote.gameId, vote.platform, vote.result, env.sequence, submitter, confidence⟩
  modifyResults fun s => s.putCache vote.gameId vote.platform (some (vote.result, env.cacheExpiry))

def appendOracleSubmission (oracle : Address) (matchId : ℕ) (vote : OracleVoteRecord) :
    OracleTx Unit := do
  let env ← Tx.ask
  modifyResults fun s => s.appendSubmission oracle
    ⟨matchId, vote.gameId, vote.platform, vote.result, env.sequence⟩

/-- The admin, who submits results and must have stake left if registered. -/
def requireSubmitter : OracleTx Address := do
  let w ← Tx.get
  Tx.reject (w.control.paused = true) .contractPaused
  let admin ← requireAdmin
  Tx.reject ((w.stakes.registration admin).any (fun r => r.oracleStake ≤ 0) = true)
    .insufficientStake
  pure admin

def submitResult (matchId : ℕ) (gameId : Bytes) (platform : Platform) (result : Winner)
    (responseTimeMs : UInt64) (confidence : Option ℕ) : OracleTx Unit := do
  let admin ← requireSubmitter
  checkOracleRateLimit admin 1
  updateOracleMetrics admin responseTimeMs
  let w ← Tx.get
  Tx.reject ((w.results.result matchId).isSome = true) .alreadySubmitted
  Tx.reject (gameId = []) .invalidGameId
  storeResult matchId ⟨gameId, platform, result⟩ admin confidence
  appendOracleSubmission admin matchId ⟨gameId, platform, result⟩

/-- The checks on the entries of a batch, in order. -/
def checkBatch (results : ℕ → Option ResultEntry) : List BatchResultEntry → Option Error
  | [] => none
  | entry :: rest =>
    if entry.gameId = [] then some .invalidGameId
    else if rest.any (fun e => e.matchId = entry.matchId) then some .batchDuplicateEntry
    else if (results entry.matchId).isSome then some .alreadySubmitted
    else checkBatch results rest

/-- Store one entry of a batch that passed the checks. -/
def commitEntry (admin : Address) (entry : BatchResultEntry) : OracleTx Unit := do
  storeResult entry.matchId ⟨entry.gameId, entry.platform, entry.result⟩ admin entry.confidence
  appendOracleSubmission admin entry.matchId ⟨entry.gameId, entry.platform, entry.result⟩

def submitBatchResults (entries : List BatchResultEntry) : OracleTx Unit := do
  let admin ← requireSubmitter
  Tx.reject (maxBatchSize < entries.length) .batchTooLarge
  checkOracleRateLimit admin entries.length
  let w ← Tx.get
  match checkBatch w.results.result entries with
  | some e => Tx.fail e
  | none => Tx.forEach (commitEntry admin) entries

/-! ## Who may still vote -/

/-- Whether an oracle has stake and has not voted on the match. -/
def World.mayVote (w : World) (matchId : ℕ) (oracle : Address) : Bool :=
  (w.votes.oracleVote (matchId, oracle)).isNone &&
    (w.stakes.registration oracle).any fun r => 0 < r.oracleStake

def World.countRemainingEligibleOracles (w : World) (matchId : ℕ) : ℕ :=
  w.stakes.oracleSet.countP (w.mayVote matchId)

/-- The number of oracles that may still vote, from the cache if nobody's eligibility has
changed since. -/
def World.remainingEligible (w : World) (matchId : ℕ) : ℕ :=
  match w.votes.voteTally matchId with
  | some tally =>
    if tally.eligibilityVersion = w.stakes.oracleEligibilityVersion then
      tally.remainingEligible - 1
    else w.countRemainingEligibleOracles matchId
  | none => w.countRemainingEligibleOracles matchId

def remainingEligibleOracles (matchId : ℕ) : OracleTx ℕ := do
  let w ← Tx.get
  let remaining := w.remainingEligible matchId
  modifyVotes fun s =>
    { s with
      voteTally := update s.voteTally matchId
        (some ⟨remaining, w.stakes.oracleEligibilityVersion⟩) }
  pure remaining

/-! ## Votes of the oracles -/

def Votes.putMatchVotes (s : Votes) (matchId : ℕ) (state : Option ConsensusState) : Votes :=
  { s with matchVotes := update s.matchVotes matchId state }

def Votes.putVote (s : Votes) (matchId : ℕ) (oracle : Address) (vote : OracleVoteRecord) : Votes :=
  { s with oracleVote := update s.oracleVote (matchId, oracle) (some vote) }

/-- Forget the tally of a match. The votes of the oracles stay. -/
def Votes.clear (s : Votes) (matchId : ℕ) : Votes :=
  { s with
    matchVotes := update s.matchVotes matchId none
    voteTally := update s.voteTally matchId none }

/-- The tally of a match, empty before the first vote. -/
def Votes.state (s : Votes) (matchId : ℕ) : ConsensusState :=
  (s.matchVotes matchId).getD ⟨[], false⟩

/-- Count a vote for the first candidate that agrees with it, or for a new one. -/
def addVote (oracle : Address) (vote : OracleVoteRecord) :
    List CandidateTally → List CandidateTally
  | [] => [⟨vote.gameId, vote.platform, vote.result, [oracle]⟩]
  | c :: cs =>
    if c.agrees vote then { c with submitters := c.submitters ++ [oracle] } :: cs
    else c :: addVote oracle vote cs

/-- Slash the submitters of the candidates. -/
def slashSubmitters (candidates : List CandidateTally) : OracleTx Unit :=
  Tx.forEach (fun oracle => slashBps oracle minoritySlashBps)
    (candidates.flatMap CandidateTally.submitters)

/-- A candidate has reached the threshold : store it, slash the others' submitters and clear
the tally. -/
def finalizeCandidate (matchId : ℕ) (oracle : Address) (winning : CandidateTally)
    (losing : List CandidateTally) : OracleTx Unit := do
  storeResult matchId winning.vote oracle none
  Tx.forEach (fun winner => appendOracleSubmission winner matchId winning.vote) winning.submitters
  slashSubmitters losing
  modifyVotes fun s => s.clear matchId

/-- Whether some candidate can still reach the threshold. -/
def stillPossible (threshold remaining : ℕ) (candidates : List CandidateTally) : Bool :=
  candidates.any fun c => threshold ≤ saturatingAddU u32Max c.submitters.length remaining

/-- No candidate has reached the threshold : store the tally, as disputed if none can. -/
def awaitVotes (matchId : ℕ) (vote : OracleVoteRecord) (candidates : List CandidateTally) :
    OracleTx Unit := do
  let w ← Tx.get
  let remaining ← remainingEligibleOracles matchId
  let disputed := !stillPossible w.control.threshold remaining candidates
  Tx.when (disputed = true) (modifyResults fun s => s.putCache vote.gameId vote.platform none)
  modifyVotes fun s => s.putMatchVotes matchId (some ⟨candidates, disputed⟩)

/-- The first vote of an oracle on a match. -/
def recordVote (oracle : Address) (matchId : ℕ) (vote : OracleVoteRecord) : OracleTx Unit := do
  let w ← Tx.get
  let state := w.votes.state matchId
  Tx.reject (state.disputed = true) .matchDisputed
  modifyVotes fun s => s.putVote matchId oracle vote
  let candidates := addVote oracle vote state.candidates
  let idx := candidates.findIdx fun c => c.agrees vote
  let candidate ← Tx.orAbort candidates[idx]?
  if w.control.threshold ≤ candidate.submitters.length then
    finalizeCandidate matchId oracle candidate (candidates.eraseIdx idx)
  else awaitVotes matchId vote candidates

/-- A vote on a match that has no result. -/
def castVote (oracle : Address) (matchId : ℕ) (vote : OracleVoteRecord)
    (responseTimeMs : UInt64) : OracleTx Unit := do
  checkOracleRateLimit oracle 1
  updateOracleMetrics oracle responseTimeMs
  let w ← Tx.get
  match w.votes.oracleVote (matchId, oracle) with
  | some prev => do
    Tx.reject (prev = vote) .alreadySubmitted
    let _ ← slashBps oracle equivocationSlashBps
  | none => recordVote oracle matchId vote

/-- A vote on a match that has the result `finalized`. -/
def lateVote (oracle : Address) (finalized : ResultEntry) (vote : OracleVoteRecord) :
    OracleTx Unit := do
  let conflicts := finalized.result ≠ vote.result ∨ finalized.platform ≠ vote.platform ∨
    finalized.gameId ≠ vote.gameId
  Tx.reject (¬conflicts) .alreadySubmitted
  let _ ← slashBps oracle minoritySlashBps

def submitOracleResult (oracle : Address) (matchId : ℕ) (gameId : Bytes) (platform : Platform)
    (result : Winner) (responseTimeMs : UInt64) : OracleTx Unit := do
  let w ← Tx.get
  Tx.reject (w.control.paused = true) .contractPaused
  Tx.reject (w.control.admin = none) .unauthorized
  requireAuth oracle
  Tx.reject (gameId = []) .invalidGameId
  let registration ← Tx.orFail (w.stakes.registration oracle) .notRegisteredOracle
  Tx.reject (registration.oracleStake ≤ 0) .insufficientStake
  match w.results.result matchId with
  | some finalized => lateVote oracle finalized ⟨gameId, platform, result⟩
  | none => castVote oracle matchId ⟨gameId, platform, result⟩ responseTimeMs

/-! ## Decisions of the admin -/

def resolveDisputedMatch (matchId : ℕ) (gameId : Bytes) (platform : Platform) (result : Winner) :
    OracleTx Unit := do
  let admin ← requireAdmin
  let w ← Tx.get
  Tx.reject ((w.results.result matchId).isSome = true) .alreadySubmitted
  let state ← Tx.orFail (w.votes.matchVotes matchId) .matchNotDisputed
  Tx.reject (state.disputed = false) .matchNotDisputed
  slashSubmitters (state.candidates.filter fun c => !c.agrees ⟨gameId, platform, result⟩)
  storeResult matchId ⟨gameId, platform, result⟩ admin none
  modifyVotes fun s => s.clear matchId

/-- Delete a stored result. The votes that led to it stay. -/
def deleteResult (matchId : ℕ) : OracleTx Unit := do
  let w ← Tx.get
  Tx.reject (w.control.paused = true) .contractPaused
  let _ ← requireAdmin
  let entry ← Tx.orFail (w.results.result matchId) .resultNotFound
  modifyResults fun s => s.putCache entry.gameId entry.platform none
  modifyResults fun s => { s with result := update s.result matchId none }

/-! ## The cache -/

/-- The cached result of a game. An expired one is dropped. -/
def getCachedResult (gameId : Bytes) (platform : Platform) : OracleTx (Option (Winner × ℕ)) := do
  let env ← Tx.ask
  let w ← Tx.get
  match w.results.oracleCache (gameId, platform) with
  | none => pure none
  | some (result, expiry) =>
    if expiry ≤ env.timestamp then do
      modifyResults fun s => s.putCache gameId platform none
      pure none
    else pure (some (result, expiry))

def invalidateCache (gameId : Bytes) (platform : Platform) : OracleTx Unit := do
  let _ ← requireAdmin
  modifyResults fun s => s.putCache gameId platform none

end Checkmate.Oracle

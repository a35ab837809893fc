import Checkmate.Escrow.Store

/-!
# Creating, funding and settling matches

`createMatchInternal` opens a match, `deposit` takes one player's stake and activates
the match with the second one, and `settleResult` records the winner : with a dispute
period of zero the match is completed at once and its payout vests, otherwise the
result waits for the dispute window.

`depositBatch` and `submitResultBatch` call these functions once per entry and go on
after an entry's error, keeping what the entry had written. Inside them no entry is
rolled back.
-/

namespace Checkmate.Escrow

open Function

/-! ## Creation -/

/-- Arguments of the four ways to create a match. -/
structure MatchParams where
  player1 : Address
  player2 : Address
  stakeAmount : ℤ
  token : Address
  tokenB : Option Address := none
  conversionRate : Option ℤ := none
  gameId : Bytes
  platform : Platform
  referrer : Option Address := none
  bracketId : Option ℕ := none
  round : Option ℕ := none

/-- The players authorise, and for a bracket its organizer too. -/
def authorizeCreation (p : MatchParams) : EscrowTx Unit := do
  onControl (requireAuth p.player1)
  match p.bracketId with
  | none => pure ()
  | some b => do
    let w ← Tx.get
    let organizer ← Tx.orFail (w.control.organizer b) .unauthorized
    onControl (requireAuth organizer)

/-- The parameters pass every check that only reads the stored settings and counters. -/
def checkParams (p : MatchParams) : EscrowTx Unit := do
  onControl requireNotPaused
  onControl (requirePlayerNotFrozen p.player1)
  onControl (requirePlayerNotFrozen p.player2)
  let w ← Tx.get
  let c := w.control
  let tokens := p.token :: p.tokenB.toList
  Tx.reject (tokens.any (fun t => (c.blacklistedToken t).isSome) = true) .tokenNotAllowed
  Tx.reject (c.allowlistEnforced = true ∧ tokens.any (fun t => !c.allowedToken t) = true)
    .tokenNotAllowed
  let stakes := c.config.stakes
  Tx.reject (stakes.stablecoinOnlyMode = true ∧
    tokens.any (fun t => !c.stablecoinIssuer t) = true) .notStablecoin
  Tx.reject (p.stakeAmount < stakes.minimumStake ∨ p.conversionRate.any (· ≤ 0) = true)
    .invalidAmount
  Tx.reject (stakes.maximumStake.any (p.stakeAmount > ·) = true) .invalidAmount
  Tx.reject (p.referrer.any (fun r => r = p.player1 ∨ r = p.player2 ∨ r = .self) = true)
    .invalidAddress
  requirePlayerTierForStake p.player1 p.stakeAmount
  requirePlayerTierForStake p.player2 p.stakeAmount
  validateGameIdFormat p.gameId p.platform
  Tx.reject (p.player1 = p.player2 ∨ p.player2 = .self) .invalidPlayers
  Tx.reject (p.tokenB.isSome ≠ p.conversionRate.isSome) .invalidAmount
  Tx.reject (w.index.gameId p.gameId = true) .duplicateGameId

/-- The proposed rate is within 5% of the oracle's. Returns the ledger of the check. -/
def checkConversionRate (p : MatchParams) : EscrowTx (Option ℕ) := do
  let env ← Tx.ask
  let w ← Tx.get
  match p.tokenB, p.conversionRate with
  | some tokenB, some rate => do
    let oracle ← Tx.orFail w.control.oracle .unauthorized
    let oracleRate ← Tx.orAbort (env.rate oracle p.token tokenB)
    let rate100 ← Tx.orFail (checkedMul rate 100) .overflow
    let oracleLower ← Tx.orFail (checkedMul oracleRate 95) .overflow
    let oracleUpper ← Tx.orFail (checkedMul oracleRate 105) .overflow
    Tx.reject (rate100 < oracleLower ∨ rate100 > oracleUpper) .conversionRateOutOfBounds
    pure (some env.sequence)
  | _, _ => pure none

/-- The record of a new match. -/
def MatchParams.newMatch (p : MatchParams) (env : Env) (id : ℕ)
    (conversionRateLedger : Option ℕ) : Match where
  id := id
  player1 := p.player1
  player2 := p.player2
  stakeAmount := p.stakeAmount
  token := p.token
  gameId := p.gameId
  platform := p.platform
  state := .pending
  player1Deposited := false
  player2Deposited := false
  createdLedger := env.sequence
  completedLedger := none
  winner := .none
  vestedAt := none
  player1Claimed := false
  player2Claimed := false
  conversionRate := p.conversionRate
  tokenB := p.tokenB
  conversionRateLedger := conversionRateLedger
  pausedLedger := none
  totalPauseDuration := 0
  referrer := p.referrer
  lastHeartbeat := env.timestamp
  bracketId := p.bracketId
  activatedAt := none
  rollbackVotePlayer1 := false
  rollbackVotePlayer2 := false
  round := p.round

/-- The index entries of a new match. -/
def Index.addMatch (ix : Index) (m : Match) : Index :=
  let ix := (ix.addToState .pending m.id).addToBracket m.bracketId m.id
  let ix := { ix with gameId := update ix.gameId m.gameId true }
  (ix.addToPlayer m.player1 m.id).addToPlayer m.player2 m.id

section

variable {ix : Index} {m : Match}

theorem addMatch_activeMatch : (ix.addMatch m).activeMatch = ix.activeMatch := by
  cases hb : m.bracketId <;>
    simp [Index.addMatch, Index.addToBracket, Index.addToPlayer, Index.addToState, hb]

theorem addMatch_playerActiveMatchCount :
    (ix.addMatch m).playerActiveMatchCount = ix.playerActiveMatchCount := by
  cases hb : m.bracketId <;>
    simp [Index.addMatch, Index.addToBracket, Index.addToPlayer, Index.addToState, hb]

theorem addMatch_gameId : (ix.addMatch m).gameId = update ix.gameId m.gameId true := by
  cases hb : m.bracketId <;>
    simp [Index.addMatch, Index.addToBracket, Index.addToPlayer, Index.addToState, hb]

end

def createMatchInternal (p : MatchParams) : EscrowTx ℕ := do
  let env ← Tx.ask
  authorizeCreation p
  checkParams p
  let w ← Tx.get
  let id := w.matchCount
  Tx.reject ((w.matchMap id).isSome = true) .alreadyExists
  let nextId ← Tx.orFail (checkedAddU u64Max id 1) .overflow
  let conversionRateLedger ← checkConversionRate p
  let m := p.newMatch env id conversionRateLedger
  saveMatch id m
  modifyIndex fun ix => ix.addMatch m
  Tx.modify fun w => { w with matchCount := nextId }
  recordSnapshot m .created
  modifyStats fun st => st.recordPlatformMatchCreated m.stakeAmount m.platform
  pure id

def createMatch (player1 player2 : Address) (stakeAmount : ℤ) (token : Address)
    (gameId : Bytes) (platform : Platform) : EscrowTx ℕ :=
  createMatchInternal { player1, player2, stakeAmount, token, gameId, platform }

def createMatchTournament (bracketId round : ℕ) (player1 player2 : Address)
    (stakeAmount : ℤ) (token : Address) (gameId : Bytes) (platform : Platform) :
    EscrowTx ℕ :=
  createMatchInternal { player1, player2, stakeAmount, token, gameId, platform,
                        bracketId := some bracketId, round := some round }

def createMatchWithConversion (player1 player2 : Address) (stakeAmount : ℤ)
    (tokenA tokenB : Address) (rate : ℤ) (gameId : Bytes) (platform : Platform) :
    EscrowTx ℕ :=
  createMatchInternal { player1, player2, stakeAmount, token := tokenA, gameId, platform,
                        tokenB := some tokenB, conversionRate := some rate }

def createMatchWithReferrer (player1 player2 : Address) (stakeAmount : ℤ)
    (token : Address) (gameId : Bytes) (platform : Platform) (referrer : Address) :
    EscrowTx ℕ :=
  createMatchInternal { player1, player2, stakeAmount, token, gameId, platform,
                        referrer := some referrer }

/-! ## Deposits -/

/-- Clear the deposit guard before an error is returned. -/
def clearing {α : Type} (matchId : ℕ) (x : EscrowTx α) : EscrowTx α :=
  Tx.onError (fun w => w.withDepositGuard matchId false) x

/-- The side a player deposits for. -/
def Match.sideOf (m : Match) (player : Address) : Side :=
  if player = m.player1 then .player1 else .player2

/-- Set the deposit flag of one side. -/
def Match.setDeposited (m : Match) : Side → Match
  | .player1 => { m with player1Deposited := true }
  | .player2 => { m with player2Deposited := true }

/-- The checks before the transfer of a deposit. The guard is set on the way. A missing
match and a stake outside the player's tier return with the guard still set. -/
def checkDeposit (matchId : ℕ) (player : Address) : EscrowTx Match := do
  onControl (requireAuth player)
  onControl requireNotPaused
  onControl (requirePlayerNotFrozen player)
  let w ← Tx.get
  Tx.reject (w.depositInProgress matchId = true) .invalidState
  Tx.modify fun w => w.withDepositGuard matchId true
  let m ← loadMatch matchId
  clearing matchId <| Tx.reject (m.player1Deposited = true ∧ m.player2Deposited = true)
    .alreadyFunded
  clearing matchId <| Tx.reject (m.state ≠ .pending) .invalidState
  clearing matchId <| Tx.reject (player ≠ m.player1 ∧ player ≠ m.player2) .unauthorized
  clearing matchId <| Tx.reject (player = m.player1 ∧ m.player1Deposited = true)
    .alreadyFunded
  clearing matchId <| Tx.reject (player = m.player2 ∧ m.player2Deposited = true)
    .alreadyFunded
  requirePlayerTierForStake player m.stakeAmount
  pure m

/-- Activate a match that both players have funded. A player at the active match cap
makes it fail after the state lists were changed. -/
def activateIfFunded (matchId : ℕ) (m : Match) : EscrowTx Match := do
  let env ← Tx.ask
  if m.player1Deposited = true ∧ m.player2Deposited = true then do
    let m ← setMatchState m .active
    clearing matchId (addActiveMatch m.player1 matchId)
    clearing matchId (addActiveMatch m.player2 matchId)
    pure (m.withActivation env.timestamp)
  else pure m

/-- Take the stake and record the deposit. -/
def takeDeposit (matchId : ℕ) (player : Address) (m : Match) : EscrowTx Unit := do
  let env ← Tx.ask
  let side := m.sideOf player
  transfer ⟨m.token, player, .self, m.stakeAmount, ⟨matchId, .deposit side⟩⟩
  updatePlayerEscrowBalance player m.stakeAmount
  let m ← activateIfFunded matchId ((m.setDeposited side).withHeartbeat env.timestamp)
  saveMatch matchId m
  recordSnapshot m .deposit
  recordPlayerSnapshot player
  Tx.modify fun w => w.withDepositGuard matchId false

def deposit (matchId : ℕ) (player : Address) : EscrowTx Unit := do
  let m ← checkDeposit matchId player
  takeDeposit matchId player m

def depositBatch (entries : List (ℕ × Address)) : EscrowTx (List (Option Error)) := do
  onControl requireNotPaused
  Tx.batch (fun e => deposit e.1 e.2) entries

/-! ## Results -/

/-- A match that waits for its result, and the checks before the first write. -/
def checkSettle (matchId : ℕ) (winner : Winner) : EscrowTx Match := do
  Tx.reject (winner = .none) .invalidState
  let m ← loadMatch matchId
  Tx.reject (m.state = .pending ∨ m.player1Deposited = false ∨ m.player2Deposited = false)
    .notFunded
  Tx.reject (m.state ≠ .active ∧ m.state ≠ .paused) .invalidState
  pure m

/-- Record a winner : the match is stored as completed, whatever the dispute period. -/
def recordResult (matchId : ℕ) (winner : Winner) (m : Match) : EscrowTx Match := do
  let env ← Tx.ask
  modifyIndex fun ix => ix.removeActivePlayers m matchId
  let m ← setMatchState m .completed
  let m := m.withResult winner env.timestamp
  modifyStats fun st =>
    let st := (st.recordCompletedPlayers m).recordPlatformPayout m.platform
    (st.updatePlayerStats m.player1 winner m.stakeAmount true).updatePlayerStats
      m.player2 winner m.stakeAmount false
  saveMatch matchId m
  pure m

/-- No dispute period : the match is over and its payout vests. -/
def settleNow (matchId : ℕ) (m : Match) : EscrowTx Unit := do
  let env ← Tx.ask
  let m := m.completedAt env.sequence
  saveMatch matchId m
  updatePlayerEscrowBalance m.player1 (-m.stakeAmount)
  updatePlayerEscrowBalance m.player2 (-m.stakeAmount)
  recordSnapshot m .completed
  recordPlayerSnapshot m.player1
  recordPlayerSnapshot m.player2
  let _ ← Tx.orFail (checkedMul m.stakeAmount 2) .overflow
  pure ()

/-- The result waits until the dispute deadline. -/
def settleLater (matchId : ℕ) (m : Match) (period : ℕ) : EscrowTx Unit := do
  let env ← Tx.ask
  let deadline ← Tx.orFail (checkedAddU u32Max env.sequence period) .overflow
  let m ← setMatchState m .pendingResult
  saveMatch matchId m
  modifyDisputes fun d => { d with
    pendingWinner := update d.pendingWinner matchId (some m.winner)
    resultDeadline := update d.resultDeadline matchId (some deadline) }
  recordSnapshot m .resultSubmitted

def settleResult (matchId : ℕ) (winner : Winner) : EscrowTx Unit := do
  let m ← checkSettle matchId winner
  let m ← recordResult matchId winner m
  let w ← Tx.get
  if w.control.getDisputePeriod = 0 then settleNow matchId m
  else settleLater matchId m w.control.getDisputePeriod

/-- The contract is not paused and the effective oracle authorises. -/
def authorizeResult (oracle : Address) : EscrowTx Unit := onControl do
  requireNotPaused
  requireAuth oracle
  let storedOracle ← effectiveOracle
  Tx.reject (oracle ≠ storedOracle) .unauthorized

def submitResult (matchId : ℕ) (winner : Winner) (oracle : Address) : EscrowTx Unit := do
  authorizeResult oracle
  settleResult matchId winner

def submitDraw (matchId : ℕ) (oracle : Address) : EscrowTx Unit := do
  authorizeResult oracle
  settleResult matchId .draw

def submitResultWithOracleRecord (matchId : ℕ) (winner : Winner) (gameId : Bytes)
    (oracle : Address) : EscrowTx Unit := do
  submitResult matchId winner oracle
  modifyConsensus fun s =>
    { s with oracleRecord := update s.oracleRecord matchId (some gameId) }

/-- One entry of `submitResultBatch` : a match that already has a result is reported as
confirmed. -/
def settleEntry (entry : ℕ × Winner) : EscrowTx Unit := do
  let w ← Tx.get
  Tx.reject ((w.matchMap entry.1).any
    (fun m => m.state = .completed ∨ m.state = .pendingResult) = true) .oracleAlreadyConfirmed
  settleResult entry.1 entry.2

def submitResultBatch (results : List (ℕ × Winner)) (caller : Address) :
    EscrowTx (List (Option Error)) := do
  onControl do
    requireNotPaused
    let oracle ← getBaseOracle
    Tx.reject (caller ≠ oracle) .unauthorized
    requireAuth caller
  Tx.batch settleEntry results

end Checkmate.Escrow

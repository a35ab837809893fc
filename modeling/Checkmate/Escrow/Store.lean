import Checkmate.Escrow.Control

/-!
# Storage helpers of the escrow contract

The private functions that the match entry points share : match records and their
indexes, tiers, statistics, the player escrow counter, balance snapshots and token
transfers. Each works on its own part of the state, so that what a helper leaves alone
is visible in its type.

`recordSnapshot` is the one of them that can trap : the escrow balance it stores is a
plain multiplication, which ends the invocation on overflow.
-/

namespace Checkmate.Escrow

open Function

/-! ## Tiers -/

def tierForCompletedMatches (completedMatches : ℕ) : PlayerTier :=
  if completedMatches ≥ platinumMinCompletedMatches then .platinum
  else if completedMatches ≥ goldMinCompletedMatches then .gold
  else if completedMatches ≥ silverMinCompletedMatches then .silver
  else .bronze

def minTierStake : PlayerTier → ℤ
  | .bronze => 1
  | .silver => 101
  | .gold => 501
  | .platinum => 1001

def maxTierStake : PlayerTier → ℤ
  | .bronze => 100
  | .silver => 500
  | .gold => 1000
  | .platinum => i128Max

/-- Whether the player's tier admits the stake. -/
def Stats.tierAllows (st : Stats) (player : Address) (stake : ℤ) : Bool :=
  let tier := tierForCompletedMatches (st.playerCompletedMatchCount player)
  decide (minTierStake tier ≤ stake) && decide (stake ≤ maxTierStake tier)

def requirePlayerTierForStake (player : Address) (stake : ℤ) : EscrowTx Unit := do
  let w ← Tx.get
  Tx.reject (w.stats.tierAllows player stake = false) .tierStakeNotAllowed

/-! ## Game ids -/

def isAsciiDigit (b : UInt8) : Bool := 48 ≤ b && b ≤ 57

def isAsciiAlphanumeric (b : UInt8) : Bool :=
  isAsciiDigit b || (65 ≤ b && b ≤ 90) || (97 ≤ b && b ≤ 122)

def validGameId (gameId : Bytes) : Platform → Bool
  | .lichess =>
    (decide (gameId.length = lichessGameIdLen) ||
      decide (gameId.length = lichessGameIdLenExtended)) && gameId.all isAsciiAlphanumeric
  | .chessDotCom =>
    decide (chessComGameIdMinLen ≤ gameId.length) &&
      decide (gameId.length ≤ chessComGameIdMaxLen) && gameId.all isAsciiDigit

def validateGameIdFormat (gameId : Bytes) (platform : Platform) : EscrowTx Unit := do
  Tx.reject (gameId.length = 0 ∨ gameId.length > maxGameIdLen) .invalidGameId
  Tx.reject (validGameId gameId platform = false) .invalidGameId

/-! ## Indexes -/

/-- Insert before the first larger id. -/
def insertSorted (matchId : ℕ) : List ℕ → List ℕ
  | [] => [matchId]
  | i :: is => if matchId < i then matchId :: i :: is else i :: insertSorted matchId is

/-- `add_match_to_index` on one list. -/
def addMatchId (matchId : ℕ) (ids : List ℕ) : List ℕ :=
  if matchId ∈ ids then ids else insertSorted matchId ids

namespace Index

def addToState (ix : Index) (state : MatchState) (matchId : ℕ) : Index :=
  { ix with
    matchesByState := update ix.matchesByState state
      (addMatchId matchId (ix.matchesByState state)) }

def removeFromState (ix : Index) (state : MatchState) (matchId : ℕ) : Index :=
  { ix with
    matchesByState := update ix.matchesByState state
      ((ix.matchesByState state).filter (· ≠ matchId)) }

/-- What `set_match_state` does to the index. -/
def setMatchState (ix : Index) (m : Match) (state : MatchState) : Index :=
  if m.state = state then ix
  else (ix.removeFromState m.state m.id).addToState state m.id

def addToBracket (ix : Index) (bracketId : Option ℕ) (matchId : ℕ) : Index :=
  match bracketId with
  | none => ix
  | some b => { ix with
      bracketMatches := update ix.bracketMatches b
        (addMatchId matchId (ix.bracketMatches b)) }

def addToPlayer (ix : Index) (player : Address) (matchId : ℕ) : Index :=
  { ix with
    playerMatches := update ix.playerMatches player
      (ix.playerMatches player ++ [matchId]) }

/-- `add_active_match`, if the player is below the cap. -/
def addActiveMatch (ix : Index) (player : Address) (matchId : ℕ) : Option Index :=
  if ix.playerActiveMatchCount player ≥ maxActiveMatchesPerPlayer then none
  else some { ix with
    activeMatch := update ix.activeMatch (player, matchId) true
    playerActiveMatchCount := update ix.playerActiveMatchCount player
      (ix.playerActiveMatchCount player + 1) }

def removeActiveMatchIndexed (ix : Index) (player : Address) (matchId : ℕ) : Index :=
  if ix.activeMatch (player, matchId) then
    { ix with
      activeMatch := update ix.activeMatch (player, matchId) false
      playerActiveMatchCount := update ix.playerActiveMatchCount player
        (ix.playerActiveMatchCount player - 1) }
  else ix

/-- Both players of a match leave their active sets. -/
def removeActivePlayers (ix : Index) (m : Match) (matchId : ℕ) : Index :=
  (ix.removeActiveMatchIndexed m.player1 matchId).removeActiveMatchIndexed m.player2 matchId

end Index

section

variable {ix ix' : Index} {m : Match} {state : MatchState} {player : Address} {id : ℕ}

theorem setMatchState_activeMatch : (ix.setMatchState m state).activeMatch = ix.activeMatch := by
  unfold Index.setMatchState
  split <;> rfl

theorem setMatchState_playerActiveMatchCount :
    (ix.setMatchState m state).playerActiveMatchCount = ix.playerActiveMatchCount := by
  unfold Index.setMatchState
  split <;> rfl

theorem addActiveMatch_eq_none : ix.addActiveMatch player id = none ↔
      maxActiveMatchesPerPlayer ≤ ix.playerActiveMatchCount player := by
  unfold Index.addActiveMatch
  split <;> simp_all

/-- A player below the cap takes a match. -/
theorem addActiveMatch_eq_some (h : ix.addActiveMatch player id = some ix') :
    ix.playerActiveMatchCount player < maxActiveMatchesPerPlayer ∧
      ix'.activeMatch = update ix.activeMatch (player, id) true ∧
      ix'.playerActiveMatchCount = update ix.playerActiveMatchCount player
        (ix.playerActiveMatchCount player + 1) := by
  unfold Index.addActiveMatch at h
  split at h
  · exact absurd h (by simp)
  · obtain rfl := Option.some.inj h
    exact ⟨by omega, rfl, rfl⟩

end

def modifyIndex (f : Index → Index) : EscrowTx Unit :=
  Tx.modify fun w => w.withIndex (f w.index)

/-- On failure the index is as the caller left it. -/
def addActiveMatch (player : Address) (matchId : ℕ) : EscrowTx Unit := do
  let w ← Tx.get
  let ix ← Tx.orFail (w.index.addActiveMatch player matchId) .tooManyActiveMatches
  Tx.modify fun w => w.withIndex ix

/-! ## Statistics -/

namespace Stats

def recordCompletedMatch (st : Stats) (player : Address) : Stats :=
  { st with
    playerCompletedMatchCount := update st.playerCompletedMatchCount player
      (saturatingAddU u32Max (st.playerCompletedMatchCount player) 1) }

/-- Both players of a match have one more completed match. -/
def recordCompletedPlayers (st : Stats) (m : Match) : Stats :=
  (st.recordCompletedMatch m.player1).recordCompletedMatch m.player2

/-- Change the statistics over all platforms and those of one platform alike. -/
def updatePlatform (st : Stats) (p : Platform) (f : PlatformStats → PlatformStats) : Stats :=
  { st with
    global := f st.global
    platform := update st.platform p (f (st.platform p)) }

def recordPlatformMatchCreated (st : Stats) (stake : ℤ) (p : Platform) : Stats :=
  st.updatePlatform p fun s => { s with
    totalMatches := saturatingAddU u64Max s.totalMatches 1
    totalVolume := saturatingAdd s.totalVolume stake }

def recordPlatformPayout (st : Stats) (p : Platform) : Stats :=
  st.updatePlatform p fun s =>
    { s with totalPayouts := saturatingAddU u64Max s.totalPayouts 1 }

def updatePlayerStats (st : Stats) (player : Address) (winner : Winner) (stake : ℤ)
    (isPlayer1 : Bool) : Stats :=
  let one := fun n => saturatingAddU u64Max n 1
  let s := st.player player
  let s := { s with
    totalMatches := one s.totalMatches
    totalVolumeStaked := saturatingAdd s.totalVolumeStaked stake }
  let s := match winner, isPlayer1 with
    | .player1, true | .player2, false => { s with wins := one s.wins }
    | .player1, false | .player2, true => { s with losses := one s.losses }
    | .draw, _ => { s with draws := one s.draws }
    | .none, _ => s
  { st with player := update st.player player s }

end Stats

def modifyStats (f : Stats → Stats) : EscrowTx Unit :=
  Tx.modify fun w => w.withStats (f w.stats)

/-! ## Escrow counter -/

/-- Change one player's escrow counter, stopping at the bounds of `i128`. -/
def addToEscrow (escrow : Address → ℤ) (player : Address) (delta : ℤ) : Address → ℤ :=
  update escrow player (saturatingAdd (escrow player) delta)

def updatePlayerEscrowBalance (player : Address) (delta : ℤ) : EscrowTx Unit :=
  Tx.modify fun w => w.withEscrow (addToEscrow w.escrow player delta)

/-! ## Snapshots -/

/-- Tokens a match holds, unless the product overflows. -/
def escrowBalanceOf (m : Match) : Option ℤ :=
  if m.state = .completed ∨ m.state = .cancelled then some 0
  else checkedMul m.depositorCount m.stakeAmount

/-- Big-endian two's complement. -/
def i128ToBeBytes (x : ℤ) : Bytes :=
  (List.range 16).map fun i =>
    UInt8.ofNat ((x % 2 ^ 128).toNat / 256 ^ (15 - i) % 256)

def computeCommitment (env : Env) (stake balance : ℤ) (nonce : Bytes) : Bytes :=
  env.sha256 (i128ToBeBytes stake ++ i128ToBeBytes balance ++ nonce)

namespace Snapshots

/-- The cached symbol of a token, else the one the token contract answers now. -/
def fetchTokenSymbol (sn : Snapshots) (env : Env) (token : Address) : Bytes :=
  (sn.tokenSymbol token).getD ((env.symbol token).getD [])

/-- Only a symbol that is not empty is cached. -/
def cacheTokenSymbol (sn : Snapshots) (env : Env) (token : Address) : Snapshots :=
  if sn.fetchTokenSymbol env token = [] then sn
  else { sn with
    tokenSymbol := update sn.tokenSymbol token (some (sn.fetchTokenSymbol env token)) }

/-- Store a snapshot of a match in the next slot of its ring. -/
def record (sn : Snapshots) (env : Env) (m : Match) (reason : SnapshotReason)
    (balance : ℤ) : Snapshots :=
  let symbol := sn.fetchTokenSymbol env m.token
  let sn := sn.cacheTokenSymbol env m.token
  let index := sn.snapshotCount m.id
  let nonce := env.nonce sn.draws
  let snapshot : BalanceSnapshot :=
    { matchId := m.id
      index
      reason
      ledger := env.sequence
      token := m.token
      tokenSymbol := symbol
      stakeAmount := m.stakeAmount
      escrowBalance := balance
      player1Deposited := m.player1Deposited
      player2Deposited := m.player2Deposited
      nonce
      commitment := computeCommitment env m.stakeAmount balance nonce }
  { sn with
    snapshot := update sn.snapshot (m.id, index % maxSnapshotsPerMatch) (some snapshot)
    snapshotCount := update sn.snapshotCount m.id (saturatingAddU u32Max index 1)
    draws := sn.draws + 1 }

/-- Store a player's escrow counter in the next slot of their ring. -/
def recordPlayer (sn : Snapshots) (env : Env) (player : Address) (balance : ℤ) : Snapshots :=
  let index := sn.playerSnapshotCount player
  { sn with
    playerSnapshot := update sn.playerSnapshot (player, index % maxPlayerSnapshots)
      (some ⟨player, index, env.sequence, balance⟩)
    playerSnapshotCount :=
      update sn.playerSnapshotCount player (saturatingAddU u64Max index 1) }

/-- The loop of `getBalanceAtTimestamp`, which goes down from `cursor` to `start`. A slot that
holds another snapshot than the one looked for is passed over. -/
def balanceBelow (sn : Snapshots) (player : Address) (timestamp start : ℕ) : ℕ → Option ℤ
  | 0 => none
  | cursor + 1 =>
    if start ≤ cursor then
      match sn.playerSnapshot (player, cursor % maxPlayerSnapshots) with
      | some snap =>
        if snap.index ≠ cursor then sn.balanceBelow player timestamp start cursor
        else if snap.ledger ≤ timestamp then some snap.balance
        else sn.balanceBelow player timestamp start cursor
      | none => sn.balanceBelow player timestamp start cursor
    else none

/-- A player's escrow counter at a ledger, as far as the ring still tells. -/
def getBalanceAtTimestamp (sn : Snapshots) (player : Address) (timestamp : ℕ) :
    BalanceAtTimestamp :=
  let count := sn.playerSnapshotCount player
  if count = 0 then .noHistory
  else
    let available := min count maxPlayerSnapshots
    let start := count - available
    match sn.balanceBelow player timestamp start count with
    | some balance => .known balance
    | none => if start > 0 then .pruned else .noHistory

end Snapshots

def recordSnapshot (m : Match) (reason : SnapshotReason) : EscrowTx Unit := do
  let env ← Tx.ask
  let balance ← Tx.orAbort (escrowBalanceOf m)
  Tx.modify fun w => w.withSnapshots (w.snapshots.record env m reason balance)

def recordPlayerSnapshot (player : Address) : EscrowTx Unit := do
  let env ← Tx.ask
  Tx.modify fun w => w.withSnapshots (w.snapshots.recordPlayer env player (w.escrow player))

/-! ## Disputes and votes -/

def modifyDisputes (f : Disputes → Disputes) : EscrowTx Unit :=
  Tx.modify fun w => w.withDisputes (f w.disputes)

def modifyConsensus (f : Consensus → Consensus) : EscrowTx Unit :=
  Tx.modify fun w => w.withConsensus (f w.consensus)

/-! ## Match records -/

def loadMatch (matchId : ℕ) : EscrowTx Match := do
  let w ← Tx.get
  Tx.orFail (w.matchMap matchId) .matchNotFound

def saveMatch (matchId : ℕ) (m : Match) : EscrowTx Unit :=
  Tx.modify fun w => w.putMatch matchId m

/-- Move a match between the state lists and return it in its new state. -/
def setMatchState (m : Match) (state : MatchState) : EscrowTx Match := do
  modifyIndex fun ix => ix.setMatchState m state
  pure (m.withState state)

/-! ## Token transfers -/

/-- What a token contract does with a transfer : carry it out, or fail. -/
def Env.transfer (env : Env) (l : Ledger Address) (token source target : Address)
    (amount : ℤ) : Option (Ledger Address) :=
  if env.accepts l token source target amount then l.transfer token source target amount
  else none

/-- Transfer tokens on account of a match. A failing token contract ends the invocation. -/
def transfer (t : Transfer) : EscrowTx Unit := do
  let env ← Tx.ask
  let w ← Tx.get
  let l ← Tx.orAbort (env.transfer w.ledger t.token t.source t.target t.amount)
  Tx.modify fun w => w.withTransfer t l

/-! ## When the helpers return -/

section

variable {env : Env} {w w' : World} {m m' : Match} {u : Unit} {e : Error} {player : Address}
  {id : ℕ}

@[simp] theorem requirePlayerTierForStake_ok_iff {stake : ℤ} :
    requirePlayerTierForStake player stake env w = .ok u w' ↔
      w.stats.tierAllows player stake = true ∧ w' = w := by
  simp [requirePlayerTierForStake, and_comm]

@[simp] theorem requirePlayerTierForStake_err_iff {stake : ℤ} :
    requirePlayerTierForStake player stake env w = .err e w' ↔
      w.stats.tierAllows player stake = false ∧ e = .tierStakeNotAllowed ∧ w' = w := by
  simp [requirePlayerTierForStake]

@[simp] theorem modifyIndex_ok_iff {f : Index → Index} :
    modifyIndex f env w = .ok u w' ↔ w' = w.withIndex (f w.index) := by
  simp [modifyIndex]

@[simp] theorem modifyIndex_err_iff {f : Index → Index} :
    modifyIndex f env w = .err e w' ↔ False := by
  simp [modifyIndex]

@[simp] theorem addActiveMatch_ok_iff : addActiveMatch player id env w = .ok u w' ↔
      ∃ ix, w.index.addActiveMatch player id = some ix ∧ w' = w.withIndex ix := by
  simp [addActiveMatch]

@[simp] theorem addActiveMatch_err_iff : addActiveMatch player id env w = .err e w' ↔
      w.index.addActiveMatch player id = none ∧ e = .tooManyActiveMatches ∧ w' = w := by
  simp [addActiveMatch]

@[simp] theorem modifyStats_ok_iff {f : Stats → Stats} :
    modifyStats f env w = .ok u w' ↔ w' = w.withStats (f w.stats) := by
  simp [modifyStats]

@[simp] theorem modifyStats_err_iff {f : Stats → Stats} :
    modifyStats f env w = .err e w' ↔ False := by
  simp [modifyStats]

@[simp] theorem updatePlayerEscrowBalance_ok_iff {delta : ℤ} :
    updatePlayerEscrowBalance player delta env w = .ok u w' ↔
      w' = w.withEscrow (addToEscrow w.escrow player delta) := by
  simp [updatePlayerEscrowBalance]

@[simp] theorem updatePlayerEscrowBalance_err_iff {delta : ℤ} :
    updatePlayerEscrowBalance player delta env w = .err e w' ↔ False := by
  simp [updatePlayerEscrowBalance]

@[simp] theorem recordSnapshot_ok_iff {reason : SnapshotReason} :
    recordSnapshot m reason env w = .ok u w' ↔ ∃ balance, escrowBalanceOf m = some balance ∧
      w' = w.withSnapshots (w.snapshots.record env m reason balance) := by
  simp [recordSnapshot]

@[simp] theorem recordSnapshot_err_iff {reason : SnapshotReason} :
    recordSnapshot m reason env w = .err e w' ↔ False := by
  simp [recordSnapshot]

@[simp] theorem recordPlayerSnapshot_ok_iff : recordPlayerSnapshot player env w = .ok u w' ↔
      w' = w.withSnapshots (w.snapshots.recordPlayer env player (w.escrow player)) := by
  simp [recordPlayerSnapshot]

@[simp] theorem recordPlayerSnapshot_err_iff :
    recordPlayerSnapshot player env w = .err e w' ↔ False := by
  simp [recordPlayerSnapshot]

@[simp] theorem modifyDisputes_ok_iff {f : Disputes → Disputes} :
    modifyDisputes f env w = .ok u w' ↔ w' = w.withDisputes (f w.disputes) := by
  simp [modifyDisputes]

@[simp] theorem modifyDisputes_err_iff {f : Disputes → Disputes} :
    modifyDisputes f env w = .err e w' ↔ False := by
  simp [modifyDisputes]

@[simp] theorem modifyConsensus_ok_iff {f : Consensus → Consensus} :
    modifyConsensus f env w = .ok u w' ↔ w' = w.withConsensus (f w.consensus) := by
  simp [modifyConsensus]

@[simp] theorem loadMatch_ok_iff :
    loadMatch id env w = .ok m w' ↔ w.matchMap id = some m ∧ w' = w := by
  simp [loadMatch, and_comm]

@[simp] theorem loadMatch_err_iff : loadMatch id env w = .err e w' ↔
      w.matchMap id = none ∧ e = .matchNotFound ∧ w' = w := by
  simp [loadMatch]

@[simp] theorem saveMatch_ok_iff : saveMatch id m env w = .ok u w' ↔ w' = w.putMatch id m := by
  simp [saveMatch]

@[simp] theorem saveMatch_err_iff : saveMatch id m env w = .err e w' ↔ False := by
  simp [saveMatch]

@[simp] theorem setMatchState_ok_iff {state : MatchState} :
    setMatchState m state env w = .ok m' w' ↔
      m' = m.withState state ∧ w' = w.withIndex (w.index.setMatchState m state) := by
  simp [setMatchState]

@[simp] theorem setMatchState_err_iff {state : MatchState} :
    setMatchState m state env w = .err e w' ↔ False := by
  simp [setMatchState]

@[simp] theorem transfer_ok_iff {t : Transfer} : transfer t env w = .ok u w' ↔
      ∃ l, env.transfer w.ledger t.token t.source t.target t.amount = some l ∧
        w' = w.withTransfer t l := by
  simp [transfer]

@[simp] theorem transfer_err_iff {t : Transfer} : transfer t env w = .err e w' ↔ False := by
  simp [transfer]

end

/-- The stake of a multi-token match in its second token. -/
def convert (amount rate : ℤ) : Option ℤ := do
  let product ← checkedMul amount rate
  checkedDiv product 10000000

end Checkmate.Escrow

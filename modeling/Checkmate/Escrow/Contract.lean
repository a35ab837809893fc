import Checkmate.Host.Run
import Checkmate.Escrow.Payout

/-!
# The contract as a state machine

`Call` lists the entry points that change the contract's state and `Call.exec` runs
one. `invoke` is a top-level invocation : the host keeps the state of a call that
returns a value and rolls back one that returns an error or traps. `step` adds what
happens outside the contract. Balances of other holders change at will and the
contract's own balances only grow, and a temporary storage entry may reach the end of
its lifetime.

A run starts after `initialize` on a fresh contract, with any token balances
(`Initial`). `Reachable` states are those that some run leads to.
-/

namespace Checkmate.Escrow

/-! ## Entry points -/

/-- Entry points that only administer. -/
inductive ControlCall where
  | pause (caller : Address)
  | unpause (caller : Address)
  | setProtocolConfig (config : ProtocolConfig)
  | setReferralShareBps (basisPoints : ℕ)
  | setMinimumStake (amount : ℤ)
  | setMaximumStake (amount : Option ℤ)
  | setMatchTimeout (seconds : ℕ)
  | setFeeTiers (tiers : List FeeTier)
  | setDisputePeriod (period : ℕ)
  | setDisputeBondBasisPoints (basisPoints : ℕ)
  | setQuorumBasisPoints (basisPoints : ℕ)
  | setMinimumHoldDuration (duration : ℕ)
  | setPreferredPayoutToken (player : Address) (token : Option Address)
  | addAllowedToken (token : Address)
  | removeAllowedToken (token : Address)
  | addStablecoinIssuer (issuer : Address)
  | removeStablecoinIssuer (issuer : Address)
  | addTokenToBlacklist (token : Address) (reason : Bytes)
  | removeTokenFromBlacklist (token : Address)
  | adminFreezePlayer (player : Address) (reason : Bytes)
  | adminUnfreezePlayer (player : Address)
  | registerBracket (admin : Address) (bracketId : ℕ) (organizer : Address)
  | registerPlayerRating (caller player : Address) (platform : Platform) (username : Bytes)
      (rating : ℕ)
  | proposeAdmin (newAdmin : Address)
  | acceptAdmin
  | cancelAdminProposal
  | transferAdmin (newAdmin caller : Address)
  | getOracle
  | updateOracle (newOracle : Address)
  | rotateOracleTemporary (oldOracle newOracle : Address) (durationSeconds : ℕ)
  | finalizeTempOracleRotation
  | proposeOracleRotation (oldOracle newOracle : Address)
  | rotateOraclePermanent (oldOracle newOracle : Address)
  | addApprovedOracle (oracle : Address)
  | removeApprovedOracle (oracle : Address)
  | setRequiredConfirmations (count : ℕ)
  | scheduleUpgrade (newWasmHash : Bytes)
  | cancelUpgrade
  | confirmUpgrade (upgrader : Address)
  | executeUpgrade
  | migrateState (targetVersion : ℕ)

/-- The entry points that change state. -/
inductive Call where
  | initializeContract (oracle admin : Address)
  | control (c : ControlCall)
  | createMatch (player1 player2 : Address) (stakeAmount : ℤ) (token : Address)
      (gameId : Bytes) (platform : Platform)
  | createMatchTournament (bracketId round : ℕ) (player1 player2 : Address)
      (stakeAmount : ℤ) (token : Address) (gameId : Bytes) (platform : Platform)
  | createMatchWithConversion (player1 player2 : Address) (stakeAmount : ℤ)
      (tokenA tokenB : Address) (rate : ℤ) (gameId : Bytes) (platform : Platform)
  | createMatchWithReferrer (player1 player2 : Address) (stakeAmount : ℤ) (token : Address)
      (gameId : Bytes) (platform : Platform) (referrer : Address)
  | deposit (matchId : ℕ) (player : Address)
  | depositBatch (entries : List (ℕ × Address))
  | submitResult (matchId : ℕ) (winner : Winner) (oracle : Address)
  | submitDraw (matchId : ℕ) (oracle : Address)
  | submitResultWithOracleRecord (matchId : ℕ) (winner : Winner) (gameId : Bytes)
      (oracle : Address)
  | submitResultBatch (results : List (ℕ × Winner)) (caller : Address)
  | submitResultConsensus (matchId : ℕ) (winner : Winner) (oracle : Address)
  | resolveOracleDeadlock (matchId : ℕ) (winner : Winner)
  | cancelMatch (matchId : ℕ) (caller : Address)
  | expireMatch (matchId : ℕ)
  | adminRecoverMatch (matchId : ℕ)
  | bulkExpireMatches (matchIds : List ℕ)
  | pauseMatch (matchId : ℕ) (caller : Address)
  | resumeMatch (matchId : ℕ) (caller : Address)
  | heartbeatMatch (matchId : ℕ) (player : Address)
  | disputeAndRollbackMatch (matchId : ℕ) (disputer : Address) (reason : Bytes)
  | adminResolveStalledMatch (matchId : ℕ) (caller : Address) (resolution : Winner)
  | finalizeMatch (matchId : ℕ)
  | disputeOracleResult (matchId : ℕ) (disputer : Address) (evidenceHash : Bytes)
  | voteOnDispute (disputeId : ℕ) (voter : Address) (vote : Bool)
  | resolveDisputeByVote (disputeId : ℕ)
  | claimVestedPayout (matchId : ℕ) (player : Address)

def ControlCall.exec : ControlCall → ControlTx Unit
  | .pause caller => Escrow.pause caller
  | .unpause caller => Escrow.unpause caller
  | .setProtocolConfig config => Escrow.setProtocolConfig config
  | .setReferralShareBps basisPoints => Escrow.setReferralShareBps basisPoints
  | .setMinimumStake amount => Escrow.setMinimumStake amount
  | .setMaximumStake amount => Escrow.setMaximumStake amount
  | .setMatchTimeout seconds => Escrow.setMatchTimeout seconds
  | .setFeeTiers tiers => Escrow.setFeeTiers tiers
  | .setDisputePeriod period => Escrow.setDisputePeriod period
  | .setDisputeBondBasisPoints basisPoints => Escrow.setDisputeBondBasisPoints basisPoints
  | .setQuorumBasisPoints basisPoints => Escrow.setQuorumBasisPoints basisPoints
  | .setMinimumHoldDuration duration => Escrow.setMinimumHoldDuration duration
  | .setPreferredPayoutToken player token => Escrow.setPreferredPayoutToken player token
  | .addAllowedToken token => Escrow.addAllowedToken token
  | .removeAllowedToken token => Escrow.removeAllowedToken token
  | .addStablecoinIssuer issuer => Escrow.addStablecoinIssuer issuer
  | .removeStablecoinIssuer issuer => Escrow.removeStablecoinIssuer issuer
  | .addTokenToBlacklist token reason => Escrow.addTokenToBlacklist token reason
  | .removeTokenFromBlacklist token => Escrow.removeTokenFromBlacklist token
  | .adminFreezePlayer player reason => Escrow.adminFreezePlayer player reason
  | .adminUnfreezePlayer player => Escrow.adminUnfreezePlayer player
  | .registerBracket admin bracketId organizer =>
    Escrow.registerBracket admin bracketId organizer
  | .registerPlayerRating caller player platform username rating =>
    Escrow.registerPlayerRating caller player platform username rating
  | .proposeAdmin newAdmin => Escrow.proposeAdmin newAdmin
  | .acceptAdmin => Escrow.acceptAdmin
  | .cancelAdminProposal => Escrow.cancelAdminProposal
  | .transferAdmin newAdmin caller => Escrow.transferAdmin newAdmin caller
  | .getOracle => do
    let _ ← effectiveOracle
    pure ()
  | .updateOracle newOracle => Escrow.updateOracle newOracle
  | .rotateOracleTemporary oldOracle newOracle durationSeconds =>
    Escrow.rotateOracleTemporary oldOracle newOracle durationSeconds
  | .finalizeTempOracleRotation => Escrow.finalizeTempOracleRotation
  | .proposeOracleRotation oldOracle newOracle =>
    Escrow.proposeOracleRotation oldOracle newOracle
  | .rotateOraclePermanent oldOracle newOracle =>
    Escrow.rotateOraclePermanent oldOracle newOracle
  | .addApprovedOracle oracle => Escrow.addApprovedOracle oracle
  | .removeApprovedOracle oracle => Escrow.removeApprovedOracle oracle
  | .setRequiredConfirmations count => Escrow.setRequiredConfirmations count
  | .scheduleUpgrade newWasmHash => Escrow.scheduleUpgrade newWasmHash
  | .cancelUpgrade => Escrow.cancelUpgrade
  | .confirmUpgrade upgrader => Escrow.confirmUpgrade upgrader
  | .executeUpgrade => Escrow.executeUpgrade
  | .migrateState targetVersion => Escrow.migrateState targetVersion

/-- `initialize` : set up a fresh contract. -/
def initializeContract (oracle admin : Address) : EscrowTx Unit := do
  let w ← Tx.get
  Tx.reject (w.control.oracle.isSome = true) .alreadyInitialized
  Tx.reject (oracle = .self) .invalidAddress
  Tx.modify fun w => { w with
    matchCount := 0
    control := { w.control with
      oracle := some oracle
      admin := some admin
      paused := false
      allowlistEnforced := false
      allowedTokenCount := 0
      disputeBondBasisPoints := some defaultDisputeBondBasisPoints
      minimumHoldDuration := some defaultMinimumHoldDuration
      quorumBasisPoints := some defaultQuorumBasisPoints
      contractVersion := some Escrow.contractVersion } }

/-- Drop a function's return value. -/
def void {α : Type} (x : EscrowTx α) : EscrowTx Unit := do
  let _ ← x
  pure ()

def Call.exec : Call → EscrowTx Unit
  | .initializeContract oracle admin => Escrow.initializeContract oracle admin
  | .control c => onControl c.exec
  | .createMatch player1 player2 stakeAmount token gameId platform =>
    void (Escrow.createMatch player1 player2 stakeAmount token gameId platform)
  | .createMatchTournament bracketId round player1 player2 stakeAmount token gameId platform =>
    void (Escrow.createMatchTournament bracketId round player1 player2 stakeAmount token
      gameId platform)
  | .createMatchWithConversion player1 player2 stakeAmount tokenA tokenB rate gameId platform =>
    void (Escrow.createMatchWithConversion player1 player2 stakeAmount tokenA tokenB rate
      gameId platform)
  | .createMatchWithReferrer player1 player2 stakeAmount token gameId platform referrer =>
    void (Escrow.createMatchWithReferrer player1 player2 stakeAmount token gameId platform
      referrer)
  | .deposit matchId player => Escrow.deposit matchId player
  | .depositBatch entries => void (Escrow.depositBatch entries)
  | .submitResult matchId winner oracle => Escrow.submitResult matchId winner oracle
  | .submitDraw matchId oracle => Escrow.submitDraw matchId oracle
  | .submitResultWithOracleRecord matchId winner gameId oracle =>
    Escrow.submitResultWithOracleRecord matchId winner gameId oracle
  | .submitResultBatch results caller => void (Escrow.submitResultBatch results caller)
  | .submitResultConsensus matchId winner oracle =>
    Escrow.submitResultConsensus matchId winner oracle
  | .resolveOracleDeadlock matchId winner => Escrow.resolveOracleDeadlock matchId winner
  | .cancelMatch matchId caller => Escrow.cancelMatch matchId caller
  | .expireMatch matchId => Escrow.expireMatch matchId
  | .adminRecoverMatch matchId => Escrow.adminRecoverMatch matchId
  | .bulkExpireMatches matchIds => void (Escrow.bulkExpireMatches matchIds)
  | .pauseMatch matchId caller => Escrow.pauseMatch matchId caller
  | .resumeMatch matchId caller => Escrow.resumeMatch matchId caller
  | .heartbeatMatch matchId player => Escrow.heartbeatMatch matchId player
  | .disputeAndRollbackMatch matchId disputer reason =>
    Escrow.disputeAndRollbackMatch matchId disputer reason
  | .adminResolveStalledMatch matchId caller resolution =>
    Escrow.adminResolveStalledMatch matchId caller resolution
  | .finalizeMatch matchId => Escrow.finalizeMatch matchId
  | .disputeOracleResult matchId disputer evidenceHash =>
    void (Escrow.disputeOracleResult matchId disputer evidenceHash)
  | .voteOnDispute disputeId voter vote => Escrow.voteOnDispute disputeId voter vote
  | .resolveDisputeByVote disputeId => Escrow.resolveDisputeByVote disputeId
  | .claimVestedPayout matchId player => Escrow.claimVestedPayout matchId player

/-! ## Invocations and runs -/

def Control.fresh (c : Control) : Control := { c with authed := [] }

/-- A world between two invocations : no authorisation is in use. -/
def World.fresh (w : World) : World := w.withControl w.control.fresh

@[simp] theorem Control.fresh_fresh (c : Control) : c.fresh.fresh = c.fresh := rfl

@[simp] theorem Control.fresh_useAuth (c : Control) (a : Address) :
    (c.useAuth a).fresh = c.fresh := rfl

@[simp] theorem World.fresh_control (w : World) : w.fresh.control = w.control.fresh := rfl

variable {env : Env} {w : World}

theorem hasAuth_fresh {a : Address} (h : a ∈ env.auths) : w.fresh.control.hasAuth env a :=
  List.count_pos_iff.mpr h

/-- A top-level invocation. An error or a trap is rolled back. -/
def invoke (env : Env) (x : EscrowTx Unit) (w : World) : World :=
  match x env w.fresh with
  | .ok _ w' => w'.fresh
  | .err _ _ => w
  | .trap => w

/-- What can happen to the contract and the balances it acts on. -/
inductive Event where
  | invoke (env : Env) (call : Call)
  /-- Someone else sends or mints tokens to a holder. -/
  | credit (token holder : Address) (amount : ℕ)
  /-- A holder other than the contract loses tokens. -/
  | debit (token holder : Address) (amount : ℕ)
  /-- The deposit guard of a match reaches the end of its lifetime. -/
  | dropGuard (matchId : ℕ)

def step (w : World) : Event → World
  | .invoke env call => Escrow.invoke env call.exec w
  | .credit token holder amount => { w with ledger := w.ledger.credit token holder amount }
  | .debit token holder amount =>
    if holder = .self then w else { w with ledger := w.ledger.debit token holder amount }
  | .dropGuard matchId => w.withDepositGuard matchId false

/-- The state after `initialize` on a fresh contract. -/
def Initial (w : World) : Prop :=
  ∃ (env : Env) (oracle admin : Address) (ledger : Ledger Address),
    initializeContract oracle admin env { ledger } = .ok () w

/-- The states that a run from `initialize` leads to. -/
def Reachable (w : World) : Prop := ∃ w0 es, Initial w0 ∧ run step w0 es = w

/-- An invocation that returns a value. -/
def Commits (env : Env) (x : EscrowTx Unit) (w : World) : Prop :=
  ∃ w', x env w.fresh = .ok () w'

instance (env : Env) (x : EscrowTx Unit) (w : World) : Decidable (Commits env x w) :=
  decidable_of_iff ((x env w.fresh).isOk = true) Outcome.isOk_iff

theorem invoke_of_not_commits {x : EscrowTx Unit} (h : ¬Commits env x w) : invoke env x w = w := by
  unfold invoke
  cases hx : x env w.fresh with
  | ok a w' => exact absurd ⟨w', hx⟩ h
  | err | trap => rfl

theorem invoke_of_ok {x : EscrowTx Unit} {w' : World}
    (h : x env w.fresh = .ok () w') : invoke env x w = w'.fresh := by
  simp [invoke, h]

theorem Reachable.step (h : Reachable w) (e : Event) : Reachable (step w e) := by
  obtain ⟨w0, es, h0, rfl⟩ := h
  exact ⟨w0, es ++ [e], h0, by rw [run_append]; rfl⟩

theorem Reachable.run (h : Reachable w) (es : List Event) :
    Reachable (Checkmate.run Escrow.step w es) := by
  obtain ⟨w0, pre, h0, rfl⟩ := h
  exact ⟨w0, pre ++ es, h0, run_append ..⟩

/-! ## A plain setting -/

/-- A host where the tokens carry out every covered transfer. -/
def Env.plain (auths : List ℕ) (sequence : UInt32) (timestamp : UInt64) : Env where
  sequence := sequence.toNat
  sequence_le := toNat_le_u32Max sequence
  timestamp := timestamp.toNat
  timestamp_le := toNat_le_u64Max timestamp
  auths := auths.map .ext
  self_notMem := self_notMem_map_ext auths
  accepts _ _ _ _ _ := true
  symbol _ := none
  rate _ _ _ := some 10000000
  swapOut _ _ _ _ _ := none
  nonce _ := []
  sha256 bytes := bytes
  unwinds := false

/-- The state after `initialize` with oracle 0 and admin 1, where everyone but the contract
holds 1000 of every token. -/
def World.start : World where
  control :=
    { oracle := some (.ext 0)
      admin := some (.ext 1)
      disputeBondBasisPoints := some defaultDisputeBondBasisPoints
      minimumHoldDuration := some defaultMinimumHoldDuration
      quorumBasisPoints := some defaultQuorumBasisPoints
      contractVersion := some Escrow.contractVersion }
  ledger _ holder := if holder = .self then 0 else 1000

theorem World.start_initial : Initial .start :=
  ⟨.plain [] 0 0, .ext 0, .ext 1, fun _ holder => if holder = .self then 0 else 1000, rfl⟩

theorem Initial.eq_mk {w : World} (h : Initial w) : ∃ oracle admin ledger, oracle ≠ .self ∧ w =
    { ledger
      control :=
        { oracle := some oracle
          admin := some admin
          disputeBondBasisPoints := some defaultDisputeBondBasisPoints
          minimumHoldDuration := some defaultMinimumHoldDuration
          quorumBasisPoints := some defaultQuorumBasisPoints
          contractVersion := some Escrow.contractVersion } } := by
  obtain ⟨env, oracle, admin, l, h⟩ := h
  simp [initializeContract] at h
  exact ⟨oracle, admin, l, h⟩

/-- Two players create a match for a stake of 100 of token 4 and fund it. -/
def funding (matchId player1 player2 : ℕ) (gameId : Bytes) : List Event :=
  [.invoke (.plain [player1] 0 0)
      (.createMatch (.ext player1) (.ext player2) 100 (.ext 4) gameId .chessDotCom),
    .invoke (.plain [player1] 0 0) (.deposit matchId (.ext player1)),
    .invoke (.plain [player2] 0 0) (.deposit matchId (.ext player2))]

/-- Players 2 and 3 create and fund match 0. -/
def fundedMatch : List Event := funding 0 2 3 [49, 50, 51, 52, 53, 54, 55]

/-- Match 0 is funded and a win of address 2 waits. Address 3 disputes it and votes against it
alone, and the dispute is resolved at the voting deadline. -/
def overturnedMatch : List Event :=
  fundedMatch ++
    [.invoke (.plain [1] 0 0) (.control (.setDisputePeriod 1)),
      .invoke (.plain [0] 0 0) (.submitResult 0 .player1 (.ext 0)),
      .invoke (.plain [3] 0 0) (.disputeOracleResult 0 (.ext 3) (List.replicate 64 49)),
      .invoke (.plain [3] 0 0) (.voteOnDispute 0 (.ext 3) true),
      .invoke (.plain [] 17280 0) (.resolveDisputeByVote 0)]

end Checkmate.Escrow

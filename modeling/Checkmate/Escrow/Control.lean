import Checkmate.Escrow.State

/-!
# Administration

The entry points of the escrow contract that touch only its administrative state :
pausing, configuration, token and player registries, admin and oracle handover,
upgrades and the approved oracle list, and the reads of that state that the other
entry points share.

Two guards open nearly all of them. `requireAdmin` reads the stored admin and asks for
its authorisation. `requireCaller` asks for the authorisation of a caller that the
function takes as an argument. The host matches every `requireAuth` with an authorisation
that the invocation has not used yet : to ask twice for one address takes two of them.
-/

namespace Checkmate.Escrow

open Function Tx

/-! ## Authorisation -/

/-- Note that the running invocation has used an address's authorisation. -/
@[simps -fullyApplied] def Control.useAuth (c : Control) (a : Address) : Control :=
  { c with authed := a :: c.authed }

/-- There is an authorisation of `a` that the running invocation has not used. -/
def Control.hasAuth (c : Control) (env : Env) (a : Address) : Prop :=
  c.authed.count a < env.auths.count a

instance (c : Control) (env : Env) (a : Address) : Decidable (c.hasAuth env a) :=
  inferInstanceAs (Decidable (_ < _))

variable {c c' : Control} {env : Env}

theorem Control.hasAuth.mem {a : Address} (h : c.hasAuth env a) : a ∈ env.auths :=
  List.count_pos_iff.mp (Nat.zero_lt_of_lt h)

/-- `address.require_auth()`. -/
def requireAuth (a : Address) : ControlTx Unit := do
  let env ← Tx.ask
  let c ← Tx.get
  if c.hasAuth env a then Tx.modify fun c => c.useAuth a else Tx.abort

/-- The stored admin. -/
def getAdmin : ControlTx Address := do
  let c ← Tx.get
  Tx.orFail c.admin .unauthorized

/-- The stored admin, who must have authorised the invocation. -/
def requireAdmin : ControlTx Address := do
  let admin ← getAdmin
  requireAuth admin
  pure admin

/-- `caller` must be the stored admin, who must have authorised the invocation. -/
def requireCaller (caller : Address) : ControlTx Unit := do
  requireAuth caller
  let admin ← getAdmin
  Tx.reject (caller ≠ admin) .unauthorized

/-- Write a setting as the admin. -/
def asAdmin (f : Control → Control) : ControlTx Unit := do
  let _ ← requireAdmin
  Tx.modify f

section

variable {env : Env} {c c' : Control} {a admin : Address} {u : Unit} {e : Error}

@[simp] theorem requireAuth_ok_iff :
    requireAuth a env c = .ok u c' ↔ a ∈ env.auths ∧ c.hasAuth env a ∧ c' = c.useAuth a := by
  simp [requireAuth, ite_ok_iff]
  exact fun h _ => h.mem

@[simp] theorem requireAuth_err_iff : requireAuth a env c = .err e c' ↔ False := by
  simp [requireAuth, ite_err_iff]

@[simp] theorem requireAdmin_ok_iff : requireAdmin env c = .ok admin c' ↔
      c.admin = some admin ∧ admin ∈ env.auths ∧ c.hasAuth env admin ∧ c' = c.useAuth admin := by
  simp only [requireAdmin, getAdmin, bind_ok_iff, get_ok_iff, orFail_ok_iff,
    pure_ok_iff, requireAuth_ok_iff]
  constructor
  · rintro ⟨_, _, ⟨_, _, ⟨rfl, rfl⟩, ha, rfl⟩, _, _, ⟨h1, h2, rfl⟩, rfl, rfl⟩
    exact ⟨ha, h1, h2, rfl⟩
  · rintro ⟨ha, h1, h2, rfl⟩
    exact ⟨_, _, ⟨_, _, ⟨rfl, rfl⟩, ha, rfl⟩, (), _, ⟨h1, h2, rfl⟩, rfl, rfl⟩

@[simp] theorem requireCaller_ok_iff : requireCaller a env c = .ok u c' ↔
      c.admin = some a ∧ a ∈ env.auths ∧ c.hasAuth env a ∧ c' = c.useAuth a := by
  simp only [requireCaller, getAdmin, bind_ok_iff, get_ok_iff, orFail_ok_iff,
    reject_ok_iff, requireAuth_ok_iff, ne_eq, not_not]
  constructor
  · rintro ⟨_, _, ⟨h1, h2, rfl⟩, _, _, ⟨_, _, ⟨rfl, rfl⟩, ha, rfl⟩, rfl, rfl⟩
    exact ⟨ha, h1, h2, rfl⟩
  · rintro ⟨ha, h1, h2, rfl⟩
    exact ⟨(), _, ⟨h1, h2, rfl⟩, _, _, ⟨_, _, ⟨rfl, rfl⟩, ha, rfl⟩, rfl, rfl⟩

end

/-! ## Pausing -/

def pause (caller : Address) : ControlTx Unit := do
  requireCaller caller
  let c ← Tx.get
  Tx.reject (c.paused = true) .invalidPauseState
  Tx.modify fun c => { c with paused := true }

def unpause (caller : Address) : ControlTx Unit := do
  requireCaller caller
  let c ← Tx.get
  Tx.reject (c.paused = false) .invalidPauseState
  Tx.modify fun c => { c with paused := false }

def requireNotPaused : ControlTx Unit := do
  let c ← Tx.get
  Tx.reject (c.paused = true) .contractPaused

@[simp] theorem requireNotPaused_ok_iff {u : Unit} :
    requireNotPaused env c = .ok u c' ↔ c.paused = false ∧ c' = c := by
  simp [requireNotPaused, and_comm]

@[simp] theorem requireNotPaused_err_iff {e : Error} :
    requireNotPaused env c = .err e c' ↔ c.paused = true ∧ e = .contractPaused ∧ c' = c := by
  simp [requireNotPaused]

/-! ## Configuration -/

/-- The stored configuration, or the default with the admin as recipient of fees. -/
def Control.config (c : Control) : ProtocolConfig :=
  c.protocolConfig.getD
    { treasury := c.admin.getD .self
      fees :=
        { protocolFeeBps := 0
          feeRecipient := c.admin.getD .self
          cancellationFeeBasisPoints := 0
          maxProtocolFee := none }
      timeouts :=
        { matchTimeoutSeconds := defaultMatchTimeoutSeconds
          vestingDurationSeconds := 259200 }
      stakes :=
        { minimumStake := defaultMinimumStake
          maximumStake := none
          stablecoinOnlyMode := false
          disputeBondTierSchedule := [] } }

@[simp] theorem Control.config_useAuth (c : Control) (a : Address) :
    (c.useAuth a).config = c.config := rfl

/-- Thresholds rise strictly from above `prev` and no rate is over 100%. -/
def validSchedule : ℤ → List (ℤ × ℕ) → Bool
  | _, [] => true
  | prev, (maxStake, bps) :: rest =>
    decide (prev < maxStake) && decide (bps ≤ 10000) && validSchedule maxStake rest

def setProtocolConfig (config : ProtocolConfig) : ControlTx Unit := do
  let _ ← requireAdmin
  Tx.reject (config.fees.protocolFeeBps > 10000) .invalidAmount
  Tx.reject (config.fees.cancellationFeeBasisPoints > 10000) .invalidAmount
  Tx.reject (¬(minMatchTimeoutSeconds ≤ config.timeouts.matchTimeoutSeconds ∧
    config.timeouts.matchTimeoutSeconds ≤ maxMatchTimeoutSeconds)) .invalidAmount
  Tx.reject (config.stakes.minimumStake < 1) .invalidAmount
  Tx.reject (config.stakes.maximumStake.any (· < config.stakes.minimumStake) = true)
    .invalidAmount
  Tx.reject (validSchedule (-1) (config.stakes.disputeBondTierSchedule.map
    fun t => (t.maxStake, t.bondBasisPoints)) = false) .invalidAmount
  Tx.reject (config.treasury = .self) .invalidAddress
  Tx.reject (config.fees.feeRecipient = .self) .invalidAddress
  Tx.modify fun c => { c with protocolConfig := some config }

def setReferralShareBps (basisPoints : ℕ) : ControlTx Unit := do
  let _ ← requireAdmin
  Tx.reject (basisPoints > 10000) .invalidAmount
  Tx.modify fun c => { c with referralShareBasisPoints := some basisPoints }

/-- Change the stakes part of the configuration in force. -/
def Control.withStakes (c : Control) (f : StakeConfig → StakeConfig) : Control :=
  { c with protocolConfig := some { c.config with stakes := f c.config.stakes } }

def setMinimumStake (amount : ℤ) : ControlTx Unit := do
  let _ ← requireAdmin
  Tx.reject (amount < 1) .invalidAmount
  Tx.modify fun c => c.withStakes fun s => { s with minimumStake := amount }

def setMaximumStake (amount : Option ℤ) : ControlTx Unit := do
  let _ ← requireAdmin
  Tx.reject (amount.any (· ≤ 0) = true) .invalidAmount
  Tx.modify fun c => c.withStakes fun s => { s with maximumStake := amount }

def setMatchTimeout (seconds : ℕ) : ControlTx Unit := do
  let _ ← requireAdmin
  Tx.reject (¬(minMatchTimeoutSeconds ≤ seconds ∧ seconds ≤ maxMatchTimeoutSeconds))
    .invalidTimeout
  Tx.modify fun c =>
    let timeouts := { c.config.timeouts with matchTimeoutSeconds := seconds }
    { c with protocolConfig := some { c.config with timeouts } }

def setFeeTiers (tiers : List FeeTier) : ControlTx Unit := do
  let _ ← requireAdmin
  Tx.reject (validSchedule (-1) (tiers.map fun t => (t.maxStake, t.feeBasisPoints)) = false)
    .invalidAmount
  Tx.modify fun c => { c with feeTiers := tiers }

def setDisputePeriod (period : ℕ) : ControlTx Unit :=
  asAdmin fun c => { c with disputePeriod := some period }

def Control.getDisputePeriod (c : Control) : ℕ := c.disputePeriod.getD 0

/-- A share of the stake or of the voting weight, above 0 and up to 100%. -/
def setShare (f : Control → Control) (basisPoints : ℕ) : ControlTx Unit := do
  let _ ← requireAdmin
  Tx.reject (basisPoints = 0 ∨ basisPoints > 10000) .invalidAmount
  Tx.modify f

def setDisputeBondBasisPoints (basisPoints : ℕ) : ControlTx Unit :=
  setShare (fun c => { c with disputeBondBasisPoints := some basisPoints }) basisPoints

def setQuorumBasisPoints (basisPoints : ℕ) : ControlTx Unit :=
  setShare (fun c => { c with quorumBasisPoints := some basisPoints }) basisPoints

def setMinimumHoldDuration (duration : ℕ) : ControlTx Unit :=
  asAdmin fun c => { c with minimumHoldDuration := some duration }

def setPreferredPayoutToken (player : Address) (token : Option Address) :
    ControlTx Unit := do
  requireAuth player
  Tx.modify fun c =>
    { c with playerPreferredToken := update c.playerPreferredToken player token }

/-- Bond rate for a stake : the first tier that reaches it, else the last tier, and the
global rate where no tier is configured. -/
def Control.disputeBondBasisPointsFor (c : Control) (stake : ℤ) : ℕ :=
  let tiers := c.config.stakes.disputeBondTierSchedule
  match tiers.find? (fun t => stake ≤ t.maxStake), tiers.getLast? with
  | some t, _ => t.bondBasisPoints
  | none, some t => t.bondBasisPoints
  | none, none => c.disputeBondBasisPoints.getD defaultDisputeBondBasisPoints

/-! ## Token and player registries -/

/-- Put a member at the end of a list that does not have it. -/
def appendNew (l : List Address) (a : Address) : List Address :=
  if a ∈ l then l else l ++ [a]

def addAllowedToken (token : Address) : ControlTx Unit := do
  let _ ← requireAdmin
  let c ← Tx.get
  let alreadyAllowed := c.allowedToken token
  Tx.modify fun c => { c with allowedToken := update c.allowedToken token true }
  Tx.when (alreadyAllowed = false) do
    let nextCount ← Tx.orFail (checkedAddU u32Max c.allowedTokenCount 1) .overflow
    Tx.modify fun c => { c with allowedTokenCount := nextCount }
  Tx.modify fun c => { c with allowlistEnforced := true }
  Tx.modify fun c => { c with allowedTokens := appendNew c.allowedTokens token }

def removeAllowedToken (token : Address) : ControlTx Unit := do
  let _ ← requireAdmin
  let c ← Tx.get
  let wasAllowed := c.allowedToken token
  Tx.modify fun c => { c with allowedToken := update c.allowedToken token false }
  Tx.when (wasAllowed = true) do
    let nextCount := c.allowedTokenCount - 1
    Tx.modify fun c => { c with
      allowedTokenCount := nextCount
      allowlistEnforced := if nextCount = 0 then false else c.allowlistEnforced }
  Tx.modify fun c => { c with allowedTokens := c.allowedTokens.filter (· ≠ token) }

def addStablecoinIssuer (issuer : Address) : ControlTx Unit := do
  let _ ← requireAdmin
  Tx.reject (issuer = .self) .invalidAddress
  let c ← Tx.get
  let alreadyRegistered := c.stablecoinIssuer issuer
  Tx.modify fun c =>
    { c with stablecoinIssuer := update c.stablecoinIssuer issuer true }
  Tx.when (alreadyRegistered = false) do
    let nextCount ← Tx.orFail (checkedAddU u32Max c.stablecoinIssuerCount 1) .overflow
    Tx.modify fun c => { c with stablecoinIssuerCount := nextCount }

def removeStablecoinIssuer (issuer : Address) : ControlTx Unit := do
  let _ ← requireAdmin
  let c ← Tx.get
  Tx.when (c.stablecoinIssuer issuer = true) do
    Tx.modify fun c => { c with
      stablecoinIssuer := update c.stablecoinIssuer issuer false
      stablecoinIssuerCount := c.stablecoinIssuerCount - 1 }

/-- A reason is not empty and not too long. -/
def validReason (reason : Bytes) : Bool :=
  !reason.isEmpty && decide (reason.length ≤ maxReasonLen)

def addTokenToBlacklist (token : Address) (reason : Bytes) : ControlTx Unit := do
  let _ ← requireAdmin
  Tx.reject (validReason reason = false) .invalidAmount
  Tx.modify fun c => { c with
    blacklistedToken := update c.blacklistedToken token (some reason)
    blacklistedTokens :=
      if (c.blacklistedToken token).isNone then c.blacklistedTokens ++ [token]
      else c.blacklistedTokens }

def removeTokenFromBlacklist (token : Address) : ControlTx Unit :=
  asAdmin fun c =>
    if (c.blacklistedToken token).isSome then
      { c with
        blacklistedToken := update c.blacklistedToken token none
        blacklistedTokens := c.blacklistedTokens.filter (· ≠ token) }
    else c

def adminFreezePlayer (player : Address) (reason : Bytes) : ControlTx Unit := do
  let _ ← requireAdmin
  Tx.reject (validReason reason = false) .invalidAmount
  Tx.modify fun c => { c with
    frozenPlayer := update c.frozenPlayer player (some reason)
    frozenPlayers :=
      if (c.frozenPlayer player).isNone then c.frozenPlayers ++ [player]
      else c.frozenPlayers }

def adminUnfreezePlayer (player : Address) : ControlTx Unit :=
  asAdmin fun c =>
    if (c.frozenPlayer player).isSome then
      { c with
        frozenPlayer := update c.frozenPlayer player none
        frozenPlayers := c.frozenPlayers.filter (· ≠ player) }
    else c

/-- A frozen player is turned away with the error of a paused contract. -/
def requirePlayerNotFrozen (player : Address) : ControlTx Unit := do
  let c ← Tx.get
  Tx.reject ((c.frozenPlayer player).isSome = true) .contractPaused

@[simp] theorem requirePlayerNotFrozen_ok_iff {p : Address} {u : Unit} :
    requirePlayerNotFrozen p env c = .ok u c' ↔ c.frozenPlayer p = none ∧ c' = c := by
  simp [requirePlayerNotFrozen, and_comm]

@[simp] theorem requirePlayerNotFrozen_err_iff {p : Address} {e : Error} :
    requirePlayerNotFrozen p env c = .err e c' ↔
      (c.frozenPlayer p).isSome = true ∧ e = .contractPaused ∧ c' = c := by
  simp [requirePlayerNotFrozen]

def registerBracket (admin : Address) (bracketId : ℕ) (organizer : Address) :
    ControlTx Unit := do
  requireCaller admin
  let c ← Tx.get
  Tx.reject ((c.organizer bracketId).isSome = true) .alreadyExists
  Tx.modify fun c =>
    { c with organizer := update c.organizer bracketId (some organizer) }

def registerPlayerRating (caller player : Address) (platform : Platform)
    (username : Bytes) (rating : ℕ) : ControlTx Unit := do
  let env ← Tx.ask
  let c ← Tx.get
  let oracle ← Tx.orFail c.oracle .unauthorized
  requireAuth caller
  Tx.reject (caller ≠ oracle) .unauthorized
  let record : PlayerRating := ⟨username, rating, env.sequence⟩
  Tx.modify fun c =>
    { c with rating := update c.rating (player, platform) (some record) }

/-! ## Admin handover -/

def proposeAdmin (newAdmin : Address) : ControlTx Unit := do
  let admin ← requireAdmin
  Tx.reject (newAdmin = .self) .invalidAddress
  Tx.reject (newAdmin = admin) .invalidAddress
  Tx.modify fun c => { c with pendingAdmin := some ⟨admin, newAdmin⟩ }

def acceptAdmin : ControlTx Unit := do
  let c ← Tx.get
  let proposal ← Tx.orFail c.pendingAdmin .unauthorized
  requireAuth proposal.pendingAdmin
  let currentAdmin ← getAdmin
  Tx.reject (currentAdmin ≠ proposal.proposer) .unauthorized
  Tx.modify fun c =>
    { c with admin := some proposal.pendingAdmin, pendingAdmin := none }

def cancelAdminProposal : ControlTx Unit := do
  let _ ← requireAdmin
  let c ← Tx.get
  let _ ← Tx.orFail c.pendingAdmin .unauthorized
  Tx.modify fun c => { c with pendingAdmin := none }

/-- Asks for the admin's authorisation a second time in `proposeAdmin`. -/
def transferAdmin (newAdmin caller : Address) : ControlTx Unit := do
  requireAuth caller
  Tx.reject (newAdmin = .self) .invalidAddress
  let admin ← getAdmin
  Tx.reject (caller ≠ admin) .unauthorized
  proposeAdmin newAdmin

/-! ## Oracle handover -/

def Control.getRotationState (c : Control) : OracleRotationState :=
  c.oracleRotation.getD {}

def Control.saveRotationState (c : Control) (r : OracleRotationState) : Control :=
  { c with oracleRotation := if r.isEmpty then none else some r }

def getBaseOracle : ControlTx Address := do
  let c ← Tx.get
  Tx.orFail c.oracle .unauthorized

/-- The temporary oracle while its rotation runs, else the stored one. A rotation that
has ended, or that replaced another oracle than the stored one, is dropped on the way. -/
def effectiveOracle : ControlTx Address := do
  let env ← Tx.ask
  let base ← getBaseOracle
  let c ← Tx.get
  match c.getRotationState.temp with
  | none => pure base
  | some rot =>
    if env.timestamp < rot.expiry ∧ rot.oldOracle = base then pure rot.tempOracle
    else do
      Tx.modify fun c => c.saveRotationState (c.getRotationState.setTemp none)
      pure base

def getOracle : ControlTx Address := effectiveOracle

/-- `set_oracle` is an alias. -/
def updateOracle (newOracle : Address) : ControlTx Unit := do
  let _ ← requireAdmin
  Tx.reject (newOracle = .self) .invalidAddress
  let _ ← getBaseOracle
  Tx.modify fun c => { c with oracle := some newOracle }
  Tx.modify fun c =>
    c.saveRotationState ((c.getRotationState.setTemp none).setPending none)

def rotateOracleTemporary (oldOracle newOracle : Address) (durationSeconds : ℕ) :
    ControlTx Unit := do
  let env ← Tx.ask
  let _ ← requireAdmin
  Tx.reject (durationSeconds < 3600 ∨ durationSeconds > 2592000) .invalidAmount
  Tx.reject (newOracle = .self) .invalidAddress
  let current ← effectiveOracle
  Tx.reject (oldOracle ≠ current) .unauthorized
  let expiry := saturatingAddU u64Max env.timestamp durationSeconds
  Tx.modify fun c => c.saveRotationState
    (c.getRotationState.setTemp (some ⟨oldOracle, newOracle, expiry⟩))

def finalizeTempOracleRotation : ControlTx Unit := do
  let env ← Tx.ask
  let c ← Tx.get
  let temp ← Tx.orFail c.getRotationState.temp .invalidState
  Tx.reject (env.timestamp < temp.expiry) .invalidState
  let _ ← getBaseOracle
  Tx.modify fun c => c.saveRotationState (c.getRotationState.setTemp none)

def proposeOracleRotation (oldOracle newOracle : Address) : ControlTx Unit := do
  let _ ← requireAdmin
  Tx.reject (newOracle = .self) .invalidAddress
  let current ← getBaseOracle
  Tx.reject (oldOracle ≠ current) .unauthorized
  Tx.modify fun c => c.saveRotationState
    (c.getRotationState.setPending (some ⟨oldOracle, newOracle⟩))

def rotateOraclePermanent (oldOracle newOracle : Address) : ControlTx Unit := do
  let _ ← requireAdmin
  let c ← Tx.get
  let proposal ← Tx.orFail c.getRotationState.pending .invalidState
  Tx.reject (proposal.oldOracle ≠ oldOracle ∨ proposal.newOracle ≠ newOracle) .invalidState
  let current ← getBaseOracle
  Tx.reject (proposal.oldOracle ≠ current) .unauthorized
  Tx.modify fun c => { c with oracle := some newOracle, oracleRotation := none }

/-! ## Approved oracles -/

def Control.getApprovedOracles (c : Control) : List Address := c.approvedOracles.getD []

def Control.getRequiredConfirmations (c : Control) : ℕ :=
  c.requiredOracleConfirmations.getD 2

def addApprovedOracle (oracle : Address) : ControlTx Unit := do
  let _ ← requireAdmin
  Tx.reject (oracle = .self) .invalidAddress
  Tx.modify fun c =>
    if oracle ∈ c.getApprovedOracles then c
    else { c with approvedOracles := some (c.getApprovedOracles ++ [oracle]) }

def removeApprovedOracle (oracle : Address) : ControlTx Unit := do
  let _ ← requireAdmin
  let c ← Tx.get
  Tx.reject (c.getRequiredConfirmations > c.getApprovedOracles.length - 1) .invalidAmount
  Tx.modify fun c =>
    { c with approvedOracles := some (c.getApprovedOracles.filter (· ≠ oracle)) }

def setRequiredConfirmations (count : ℕ) : ControlTx Unit := do
  let _ ← requireAdmin
  let c ← Tx.get
  Tx.reject (count = 0 ∨ count > c.getApprovedOracles.length) .invalidAmount
  Tx.modify fun c => { c with requiredOracleConfirmations := some count }

/-! ## Upgrades -/

def scheduleUpgrade (newWasmHash : Bytes) : ControlTx Unit := do
  let env ← Tx.ask
  let _ ← requireAdmin
  let c ← Tx.get
  Tx.reject (c.upgradeScheduledAt.isSome = true) .upgradeAlreadyScheduled
  Tx.modify fun c => { c with
    upgradeScheduledAt := some env.sequence
    pendingUpgradeHash := some newWasmHash }

def cancelUpgrade : ControlTx Unit := do
  let _ ← requireAdmin
  let c ← Tx.get
  Tx.reject (c.upgradeScheduledAt.isNone = true) .upgradeNotScheduled
  Tx.modify fun c => { c with
    upgradeScheduledAt := none, pendingUpgradeHash := none, upgradeConfirmedBy := none }

/-- Any address can confirm, the admin included. -/
def confirmUpgrade (upgrader : Address) : ControlTx Unit := do
  requireAuth upgrader
  let c ← Tx.get
  Tx.reject (c.upgradeScheduledAt.isNone = true) .upgradeNotScheduled
  Tx.modify fun c => { c with upgradeConfirmedBy := some upgrader }

def executeUpgrade : ControlTx Unit := do
  let env ← Tx.ask
  let _ ← requireAdmin
  let c ← Tx.get
  Tx.reject (c.paused = false) .invalidPauseState
  let scheduledAt ← Tx.orFail c.upgradeScheduledAt .upgradeNotScheduled
  Tx.reject (env.sequence < saturatingAddU u32Max scheduledAt upgradeReviewPeriodLedgers)
    .upgradeReviewPeriodNotElapsed
  Tx.reject (c.upgradeConfirmedBy.isNone = true) .upgradeNotConfirmed
  let newWasmHash ← Tx.orFail c.pendingUpgradeHash .upgradeNotScheduled
  Tx.modify fun c => { c with
    upgradeScheduledAt := none, pendingUpgradeHash := none, upgradeConfirmedBy := none
    wasmHash := some newWasmHash }

/-- The migration steps between two versions : the first one stores the default dispute
period where none is stored. -/
def Control.applyMigrations (c : Control) (source target : ℕ) : Control :=
  if source < 1001 ∧ target ≥ 1001 ∧ c.disputePeriod.isNone then
    { c with disputePeriod := some 0 }
  else c

def migrateState (targetVersion : ℕ) : ControlTx Unit := do
  let _ ← requireAdmin
  let c ← Tx.get
  let current := c.contractVersion.getD contractVersion
  Tx.reject (targetVersion ≤ current) .invalidVersion
  Tx.modify fun c =>
    { c.applyMigrations current targetVersion with contractVersion := some targetVersion }

end Checkmate.Escrow

import Checkmate.Oracle.State

/-!
# Administration of the oracle contract

Initialisation, the admin role, the pause switch and the settings that other functions
read.
-/

namespace Checkmate.Oracle

/-! ## Settings and their defaults -/

/-- The threshold in force. -/
def Control.threshold (c : Control) : ℕ :=
  (c.consensusThreshold.map UInt32.toNat).getD defaultConsensusThreshold

def Control.getSlashingGracePeriod (c : Control) : ℕ :=
  (c.slashingGracePeriodLedgers.map UInt32.toNat).getD 0

def Control.sla (c : Control) : ℕ :=
  (c.slaThreshold.map UInt64.toNat).getD slaMaxResponseTimeMs

/-- The treasury, or the admin if none is set. -/
def Control.getTreasuryAddress (c : Control) (admin : Address) : Address := c.treasury.getD admin

def getTreasury : OracleTx Address := do
  let w ← Tx.get
  let admin ← Tx.orFail w.control.admin .unauthorized
  pure (w.control.getTreasuryAddress admin)

/-! ## The admin role -/

/-- The contract's `initialize`. -/
def initializeOracle (admin : Address) : OracleTx Unit := do
  let w ← Tx.get
  Tx.reject (w.control.admin.isSome = true) .alreadyInitialized
  modifyControl fun c => { c with admin := some admin }

def updateAdmin (newAdmin : Address) : OracleTx Unit := do
  let _ ← requireAdmin
  modifyControl fun c => { c with admin := some newAdmin }

def proposeAdmin (newAdmin : Address) : OracleTx Unit := do
  let currentAdmin ← requireAdmin
  modifyControl fun c => { c with pendingAdmin := some ⟨currentAdmin, newAdmin⟩ }

def acceptAdmin : OracleTx Unit := do
  let w ← Tx.get
  let proposal ← Tx.orFail w.control.pendingAdmin .noPendingAdmin
  requireAuth proposal.pendingAdmin
  let currentAdmin ← Tx.orFail w.control.admin .unauthorized
  Tx.reject (currentAdmin ≠ proposal.proposer) .unauthorized
  modifyControl fun c => { c with admin := some proposal.pendingAdmin, pendingAdmin := none }

/-! ## Settings -/

def pause : OracleTx Unit := do
  let _ ← requireAdmin
  let w ← Tx.get
  Tx.reject (w.control.paused = true) .invalidPauseState
  modifyControl fun c => { c with paused := true }

def unpause : OracleTx Unit := do
  let _ ← requireAdmin
  let w ← Tx.get
  Tx.reject (w.control.paused = false) .invalidPauseState
  modifyControl fun c => { c with paused := false }

def setTreasury (treasury : Address) : OracleTx Unit := do
  let _ ← requireAdmin
  modifyControl fun c => { c with treasury := some treasury }

def setSlashingGracePeriod (gracePeriodLedgers : UInt32) : OracleTx Unit := do
  let _ ← requireAdmin
  modifyControl fun c => { c with slashingGracePeriodLedgers := some gracePeriodLedgers }

def setConsensusThreshold (threshold : UInt32) : OracleTx Unit := do
  let _ ← requireAdmin
  Tx.reject (threshold = 0) .invalidThreshold
  modifyControl fun c => { c with consensusThreshold := some threshold }

def setSlaThreshold (thresholdMs : UInt64) : OracleTx Unit := do
  let _ ← requireAdmin
  Tx.reject (thresholdMs = 0) .invalidThreshold
  modifyControl fun c => { c with slaThreshold := some thresholdMs }

/-! ## Rates -/

def setRate (tokenA tokenB : Address) (rate : ℤ) : OracleTx Unit := do
  let _ ← requireAdmin
  Tx.reject (rate ≤ 0) .invalidRate
  let env ← Tx.ask
  Tx.modify fun w => w.withRate (tokenA, tokenB) ⟨rate, env.sequence⟩

end Checkmate.Oracle

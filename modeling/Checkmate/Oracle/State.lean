import Mathlib.Logic.Function.Basic
import Mathlib.Tactic.Simps.Basic
import Checkmate.Host.Tx
import Checkmate.Host.Ledger
import Checkmate.Oracle.Types

/-!
# State of the oracle contract and its host

`World` is the contract's storage together with the token balances it acts on. The
storage keys fall into parts that different functions write :

* `Control` : administration and configuration,
* `Stakes` : the registered oracles, their stakes and the slashes staged against them,
* `Limits` : submission limits, their windows and the performance metrics,
* `Results` : stored results, the result cache and each oracle's history,
* `Votes` : the votes on each match that has no result yet,
* the exchange rates.

`World.log` lists every token movement the contract took part in, newest first, with what
the movement was for. No function reads it.

`Env` is what one invocation finds around it : ledger time, the addresses that
authorised it, and how the token contracts it calls behave. The contract's own address
never authorises an invocation.
-/

namespace Checkmate.Oracle

/-- What a token movement of the contract is for. -/
inductive Cause where
  | stake (oracle : Address)
  | stagedSlash (oracle : Address) (matchId : ℕ)
  | slash (oracle : Address) (bps : ℤ)
  | swapIn
  | swapOut
deriving DecidableEq

/-- A token movement of the contract. -/
abbrev Transfer := Movement Address Cause

/-- What one invocation finds around it. -/
structure Env where
  /-- Ledger sequence number. -/
  sequence : ℕ
  sequence_le : sequence ≤ u32Max
  /-- Ledger close time in seconds. -/
  timestamp : ℕ
  timestamp_le : timestamp ≤ u64Max
  /-- The authorisations that came with the invocation, by address. -/
  auths : List Address
  self_notMem : Address.self ∉ auths
  /-- Whether the token contract carries out a transfer that the balance covers. -/
  accepts : Ledger Address → (token source target : Address) → ℤ → Bool

/-- Administration and configuration. -/
structure Control where
  admin : Option Address := none
  pendingAdmin : Option PendingAdminProposal := none
  paused : Bool := false
  treasury : Option Address := none
  slashingGracePeriodLedgers : Option UInt32 := none
  consensusThreshold : Option UInt32 := none
  slaThreshold : Option UInt64 := none

/-- The registered oracles and the slashes staged against them. -/
structure Stakes where
  registration : Address → Option OracleRegistration := fun _ => none
  /-- Every address ever registered, in order. -/
  oracleSet : List Address := []
  oracleEligibilityVersion : ℕ := 0
  pendingSlash : Address × ℕ → Option PendingSlash := fun _ => none
  pendingSlashList : Address → List ℕ := fun _ => []

/-- Submission limits and performance metrics. -/
structure Limits where
  oracleRateLimit : Address → Option RateLimitConfig := fun _ => none
  oracleHourlyWindow : Address → Option RateWindow := fun _ => none
  oracleDailyWindow : Address → Option RateWindow := fun _ => none
  oracleMetrics : Address → Option OracleMetrics := fun _ => none

/-- Stored results. -/
structure Results where
  result : ℕ → Option ResultEntry := fun _ => none
  /-- A cached result and the time it expires. -/
  oracleCache : Bytes × Platform → Option (Winner × ℕ) := fun _ => none
  oracleSubmissionList : Address → List OracleSubmissionEntry := fun _ => []

/-- Votes on matches without a result. -/
structure Votes where
  matchVotes : ℕ → Option ConsensusState := fun _ => none
  voteTally : ℕ → Option VoteTally := fun _ => none
  oracleVote : ℕ × Address → Option OracleVoteRecord := fun _ => none

/-- The contract's storage, the token balances and the movements made so far. -/
structure World where
  control : Control := {}
  stakes : Stakes := {}
  limits : Limits := {}
  results : Results := {}
  votes : Votes := {}
  rate : Address × Address → Option RateEntry := fun _ => none
  ledger : Ledger Address
  log : List Transfer := []

namespace World

@[simps -fullyApplied] def withControl (w : World) (control : Control) : World :=
  { w with control }

@[simps -fullyApplied] def withStakes (w : World) (stakes : Stakes) : World := { w with stakes }

@[simps -fullyApplied] def withLimits (w : World) (limits : Limits) : World := { w with limits }

@[simps -fullyApplied] def withResults (w : World) (results : Results) : World :=
  { w with results }

@[simps -fullyApplied] def withVotes (w : World) (votes : Votes) : World := { w with votes }

@[simps -fullyApplied] def withRate (w : World) (pair : Address × Address) (entry : RateEntry) :
    World :=
  { w with rate := Function.update w.rate pair (some entry) }

/-- Enter a transfer that led to the balances `l`. -/
@[simps -fullyApplied] def withTransfer (w : World) (t : Transfer) (l : Ledger Address) : World :=
  { w with ledger := l, log := t :: w.log }

end World

/-- Contract functions. -/
abbrev OracleTx (α : Type) := Tx Env World Error α

def modifyControl (f : Control → Control) : OracleTx Unit :=
  Tx.modify fun w => w.withControl (f w.control)

def modifyStakes (f : Stakes → Stakes) : OracleTx Unit :=
  Tx.modify fun w => w.withStakes (f w.stakes)

def modifyLimits (f : Limits → Limits) : OracleTx Unit :=
  Tx.modify fun w => w.withLimits (f w.limits)

def modifyResults (f : Results → Results) : OracleTx Unit :=
  Tx.modify fun w => w.withResults (f w.results)

def modifyVotes (f : Votes → Votes) : OracleTx Unit :=
  Tx.modify fun w => w.withVotes (f w.votes)

/-! ## Authorisation and token transfers -/

/-- `address.require_auth()`. -/
def requireAuth (a : Address) : OracleTx Unit := do
  let env ← Tx.ask
  if a ∈ env.auths then pure () else Tx.abort

/-- The stored admin, who must have authorised the invocation. -/
def requireAdmin : OracleTx Address := do
  let w ← Tx.get
  let admin ← Tx.orFail w.control.admin .unauthorized
  requireAuth admin
  pure admin

/-- What a token contract does with a transfer : carry it out, or fail. -/
def Env.transfer (env : Env) (l : Ledger Address) (token source target : Address)
    (amount : ℤ) : Option (Ledger Address) :=
  if env.accepts l token source target amount then l.transfer token source target amount
  else none

/-- Transfer tokens. A failing token contract ends the invocation. -/
def transfer (t : Transfer) : OracleTx Unit := do
  let env ← Tx.ask
  let w ← Tx.get
  let l ← Tx.orAbort (env.transfer w.ledger t.token t.source t.target t.amount)
  Tx.modify fun w => w.withTransfer t l

/-! ## When the helpers return -/

section

variable {env : Env} {w w' : World} {u : Unit} {e : Error}

@[simp] theorem modifyControl_ok_iff {f : Control → Control} :
    modifyControl f env w = .ok u w' ↔ w' = w.withControl (f w.control) := by
  simp [modifyControl]

@[simp] theorem modifyStakes_ok_iff {f : Stakes → Stakes} :
    modifyStakes f env w = .ok u w' ↔ w' = w.withStakes (f w.stakes) := by
  simp [modifyStakes]

@[simp] theorem modifyStakes_err_iff {f : Stakes → Stakes} :
    modifyStakes f env w = .err e w' ↔ False := by
  simp [modifyStakes]

@[simp] theorem modifyLimits_ok_iff {f : Limits → Limits} :
    modifyLimits f env w = .ok u w' ↔ w' = w.withLimits (f w.limits) := by
  simp [modifyLimits]

@[simp] theorem modifyResults_ok_iff {f : Results → Results} :
    modifyResults f env w = .ok u w' ↔ w' = w.withResults (f w.results) := by
  simp [modifyResults]

@[simp] theorem modifyVotes_ok_iff {f : Votes → Votes} :
    modifyVotes f env w = .ok u w' ↔ w' = w.withVotes (f w.votes) := by
  simp [modifyVotes]

@[simp] theorem modifyVotes_err_iff {f : Votes → Votes} :
    modifyVotes f env w = .err e w' ↔ False := by
  simp [modifyVotes]

@[simp] theorem requireAuth_ok_iff {a : Address} :
    requireAuth a env w = .ok u w' ↔ a ∈ env.auths ∧ w' = w := by
  by_cases h : a ∈ env.auths <;> simp [requireAuth, h]

@[simp] theorem requireAdmin_ok_iff {admin : Address} : requireAdmin env w = .ok admin w' ↔
      w.control.admin = some admin ∧ admin ∈ env.auths ∧ w' = w := by
  simp only [requireAdmin, Tx.bind_ok_iff, Tx.get_ok_iff, Tx.orFail_ok_iff, requireAuth_ok_iff,
    Tx.pure_ok_iff]
  constructor
  · rintro ⟨_, _, ⟨rfl, rfl⟩, _, _, ⟨ha, rfl⟩, _, _, ⟨hauth, rfl⟩, rfl, rfl⟩
    exact ⟨ha, hauth, rfl⟩
  · rintro ⟨ha, hauth, rfl⟩
    exact ⟨w', w', ⟨rfl, rfl⟩, admin, w', ⟨ha, rfl⟩, (), w', ⟨hauth, rfl⟩, rfl, rfl⟩

@[simp] theorem transfer_ok_iff {t : Transfer} : transfer t env w = .ok u w' ↔
      ∃ l, env.transfer w.ledger t.token t.source t.target t.amount = some l ∧
        w' = w.withTransfer t l := by
  simp [transfer]

@[simp] theorem transfer_err_iff {t : Transfer} : transfer t env w = .err e w' ↔ False := by
  simp [transfer]

theorem Env.ledger_transfer {l l' : Ledger Address} {token source target : Address} {amount : ℤ}
    (h : env.transfer l token source target amount = some l') :
    l.transfer token source target amount = some l' := by
  unfold Env.transfer at h
  split at h
  · exact h
  · exact absurd h (by simp)

end

end Checkmate.Oracle

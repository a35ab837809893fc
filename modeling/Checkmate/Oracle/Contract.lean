import Checkmate.Host.Run
import Checkmate.Oracle.Submissions

/-!
# The oracle contract : exchange, entry points and runs

`swap` exchanges tokens at the stored rates, out of the contract's own balance. `Call` lists
the entry points that write, and a run is any sequence of invocations of them, in any
environments, together with whatever happens to the token balances outside the contract.
-/

namespace Checkmate.Oracle

/-! ## Exchange -/

/-- Whether a rate is recent enough to be used. -/
def RateEntry.fresh (entry : RateEntry) (sequence : ℕ) : Bool :=
  sequence - entry.updatedLedger ≤ maxRateAgeLedgers

/-- `amount * factor / divisor`, checked, and refused below the caller's bound. -/
def convertAmount (amount factor divisor minAmountOut : ℤ) : OracleTx ℤ := do
  let product ← Tx.orFail (checkedMul amount factor) .overflow
  let amt ← Tx.orFail (checkedDiv product divisor) .overflow
  Tx.reject (amt < minAmountOut) .slippageExceeded
  pure amt

/-- What a swap pays : by the rate of the pair, or else by the inverse of the reverse pair's. -/
def quote (tokenIn tokenOut : Address) (amountIn minAmountOut : ℤ) : OracleTx ℤ := do
  let env ← Tx.ask
  let w ← Tx.get
  match w.rate (tokenIn, tokenOut) with
  | some entry => do
    Tx.reject (entry.fresh env.sequence = false) .rateNotFound
    convertAmount amountIn entry.rate rateScale minAmountOut
  | none =>
    match w.rate (tokenOut, tokenIn) with
    | some entry => do
      Tx.reject (entry.fresh env.sequence = false) .rateNotFound
      convertAmount amountIn rateScale entry.rate minAmountOut
    | none => Tx.fail .rateNotFound

def swap (caller tokenIn tokenOut : Address) (amountIn minAmountOut : ℤ) (recipient : Address) :
    OracleTx Unit := do
  requireAuth caller
  Tx.reject (amountIn ≤ 0) .invalidAmount
  let amountOut ← quote tokenIn tokenOut amountIn minAmountOut
  transfer ⟨tokenIn, caller, .self, amountIn, .swapIn⟩
  transfer ⟨tokenOut, .self, recipient, amountOut, .swapOut⟩

/-! ## Entry points -/

/-- The entry points that can change the state, with their arguments. -/
inductive Call where
  | initializeOracle (admin : Address)
  | registerOracleWithStake (oracleAddress : Address) (stakeAmount : ℤ) (token : Address)
  | setSlashingGracePeriod (gracePeriodLedgers : UInt32)
  | setTreasury (treasury : Address)
  | slashOracle (oracleAddress : Address) (matchId : ℕ) (slashAmount : ℤ)
  | finalizeSlash (oracleAddress : Address) (matchId : ℕ)
  | adminCancelSlash (oracleAddress : Address) (matchId : ℕ)
  | submitResult (matchId : ℕ) (gameId : Bytes) (platform : Platform) (result : Winner)
      (responseTimeMs : UInt64) (confidence : Option ℕ)
  | submitBatchResults (entries : List BatchResultEntry)
  | submitOracleResult (oracle : Address) (matchId : ℕ) (gameId : Bytes) (platform : Platform)
      (result : Winner) (responseTimeMs : UInt64)
  | resolveDisputedMatch (matchId : ℕ) (gameId : Bytes) (platform : Platform) (result : Winner)
  | setConsensusThreshold (threshold : UInt32)
  | setSlaThreshold (thresholdMs : UInt64)
  | deactivateSlowOracle (oracleAddress : Address)
  | getCachedResult (gameId : Bytes) (platform : Platform)
  | invalidateCache (gameId : Bytes) (platform : Platform)
  | deleteResult (matchId : ℕ)
  | updateAdmin (newAdmin : Address)
  | proposeAdmin (newAdmin : Address)
  | acceptAdmin
  | pause
  | unpause
  | setOracleRateLimits (oracle : Address) (hourlyLimit dailyLimit : UInt32)
  | setRate (tokenA tokenB : Address) (rate : ℤ)
  | swap (caller tokenIn tokenOut : Address) (amountIn minAmountOut : ℤ) (recipient : Address)

/-- What an entry point does. -/
def Call.exec : Call → OracleTx Unit
  | .initializeOracle admin => Oracle.initializeOracle admin
  | .registerOracleWithStake oracleAddress stakeAmount token =>
    Oracle.registerOracleWithStake oracleAddress stakeAmount token
  | .setSlashingGracePeriod gracePeriodLedgers => Oracle.setSlashingGracePeriod gracePeriodLedgers
  | .setTreasury treasury => Oracle.setTreasury treasury
  | .slashOracle oracleAddress matchId slashAmount =>
    Oracle.slashOracle oracleAddress matchId slashAmount
  | .finalizeSlash oracleAddress matchId => Oracle.finalizeSlash oracleAddress matchId
  | .adminCancelSlash oracleAddress matchId => Oracle.adminCancelSlash oracleAddress matchId
  | .submitResult matchId gameId platform result responseTimeMs confidence =>
    Oracle.submitResult matchId gameId platform result responseTimeMs confidence
  | .submitBatchResults entries => Oracle.submitBatchResults entries
  | .submitOracleResult oracle matchId gameId platform result responseTimeMs =>
    Oracle.submitOracleResult oracle matchId gameId platform result responseTimeMs
  | .resolveDisputedMatch matchId gameId platform result =>
    Oracle.resolveDisputedMatch matchId gameId platform result
  | .setConsensusThreshold threshold => Oracle.setConsensusThreshold threshold
  | .setSlaThreshold thresholdMs => Oracle.setSlaThreshold thresholdMs
  | .deactivateSlowOracle oracleAddress => Oracle.deactivateSlowOracle oracleAddress
  | .getCachedResult gameId platform => do
    let _ ← Oracle.getCachedResult gameId platform
  | .invalidateCache gameId platform => Oracle.invalidateCache gameId platform
  | .deleteResult matchId => Oracle.deleteResult matchId
  | .updateAdmin newAdmin => Oracle.updateAdmin newAdmin
  | .proposeAdmin newAdmin => Oracle.proposeAdmin newAdmin
  | .acceptAdmin => Oracle.acceptAdmin
  | .pause => Oracle.pause
  | .unpause => Oracle.unpause
  | .setOracleRateLimits oracle hourlyLimit dailyLimit =>
    Oracle.setOracleRateLimits oracle hourlyLimit dailyLimit
  | .setRate tokenA tokenB rate => Oracle.setRate tokenA tokenB rate
  | .swap caller tokenIn tokenOut amountIn minAmountOut recipient =>
    Oracle.swap caller tokenIn tokenOut amountIn minAmountOut recipient

/-! ## Invocations and runs -/

/-- A top-level invocation. An error or a trap is rolled back. -/
def invoke (env : Env) (x : OracleTx Unit) (w : World) : World :=
  match x env w with
  | .ok _ w' => w'
  | .err _ _ => w
  | .trap => w

/-- What can happen to the contract and the balances it acts on. -/
inductive Event where
  | invoke (env : Env) (call : Call)
  /-- Someone else sends or mints tokens to a holder. -/
  | credit (token holder : Address) (amount : ℕ)
  /-- A holder other than the contract loses tokens. -/
  | debit (token holder : Address) (amount : ℕ)

def step (w : World) : Event → World
  | .invoke env call => Oracle.invoke env call.exec w
  | .credit token holder amount => { w with ledger := w.ledger.credit token holder amount }
  | .debit token holder amount =>
    if holder = .self then w else { w with ledger := w.ledger.debit token holder amount }

/-- A deployed contract, before `initialize`. -/
def World.deployed (ledger : Ledger Address) : World := { ledger }

/-- The states that a run of the deployed contract leads to. -/
def Reachable (w : World) : Prop := ∃ ledger es, run step (.deployed ledger) es = w

theorem invoke_of_ok {env : Env} {x : OracleTx Unit} {w w' : World} {u : Unit}
    (h : x env w = .ok u w') : invoke env x w = w' := by
  simp [invoke, h]

/-- An invocation keeps the state, or returns. -/
theorem invoke_cases (env : Env) (x : OracleTx Unit) (w : World) :
    invoke env x w = w ∨ x env w = .ok () (invoke env x w) := by
  unfold invoke
  cases h : x env w with
  | ok => exact .inr rfl
  | err | trap => exact .inl rfl

/-- An invocation that returns a value. -/
def Commits (env : Env) (call : Call) (w : World) : Prop := ∃ w', call.exec env w = .ok () w'

instance (env : Env) (call : Call) (w : World) : Decidable (Commits env call w) :=
  decidable_of_iff ((call.exec env w).isOk = true) Outcome.isOk_iff

theorem Commits.exec_eq {env : Env} {call : Call} {w : World} (h : Commits env call w) :
    call.exec env w = .ok () (step w (.invoke env call)) := by
  obtain ⟨w', h⟩ := h
  rw [h]
  exact congrArg (Outcome.ok ()) (invoke_of_ok h).symm

theorem step_of_not_commits {env : Env} {call : Call} {w : World} (h : ¬Commits env call w) :
    step w (.invoke env call) = w :=
  (invoke_cases env call.exec w).resolve_right fun hok => h ⟨_, hok⟩

/-- What every entry point keeps, and every change of the balances, every event keeps. -/
theorem step_keeps {P : World → Prop} (hcall : ∀ call : Call, Tx.Keeps P call.exec)
    (hledger : ∀ w l, P w → P { w with ledger := l }) {w : World} (hw : P w) (e : Event) :
    P (step w e) := by
  cases e with
  | invoke env call =>
    by_cases hc : Commits env call w
    · exact hcall call _ _ _ _ hc.exec_eq hw
    · rw [step_of_not_commits hc]
      exact hw
  | credit => exact hledger w _ hw
  | debit token holder =>
    by_cases hself : holder = .self
    · simpa only [step, if_pos hself] using hw
    · simpa only [step, if_neg hself] using hledger w _ hw

/-! ## A plain setting -/

/-- A host where the tokens carry out every covered transfer. -/
def Env.plain (auths : List ℕ) (sequence : UInt32) (timestamp : UInt64) : Env where
  sequence := sequence.toNat
  sequence_le := toNat_le_u32Max sequence
  timestamp := timestamp.toNat
  timestamp_le := toNat_le_u64Max timestamp
  auths := auths.map .ext
  self_notMem := self_notMem_map_ext auths
  accepts _ _ _ _ _ := true

/-- Everyone but the contract holds 1000 of every token. -/
def plainLedger : Ledger Address := fun _ holder => if holder = .self then 0 else 1000

end Checkmate.Oracle

import Checkmate.Oracle.Control

/-!
# Submission limits and performance metrics

Each oracle has an hourly and a daily limit, counted in sliding windows, and a record of
its response times. A submission is counted in both before anything else is checked about
it, and an oracle that was deactivated for being slow cannot submit.

The alert that is published near a limit is an event and is left out. The sums that are
handed to it are not : they are computed without saturation, and an overflow ends the
invocation.
-/

namespace Checkmate.Oracle

open Function

/-! ## Sliding windows -/

/-- The limits in force for an oracle. -/
def Limits.rateLimitConfig (s : Limits) (oracle : Address) : RateLimitConfig :=
  (s.oracleRateLimit oracle).getD {}

/-- A stored window, rolled forward to `now`. -/
def loadRateWindow (stored : Option RateWindow) (now windowSecs : ℕ) : RateWindow :=
  let window := stored.getD ⟨now, 0, 0⟩
  let elapsed := now - window.windowStart
  if windowSecs * 2 ≤ elapsed then ⟨now, 0, 0⟩
  else if windowSecs ≤ elapsed then
    ⟨window.windowStart + windowSecs, 0, window.currentCount⟩
  else window

/-- The submissions of the last `windowSecs` seconds, those of the previous window in
proportion to its part that still counts. -/
def estimatedWindowCount (now : ℕ) (window : RateWindow) (windowSecs : ℕ) : ℕ :=
  let elapsedInCurrent := min (now - window.windowStart) windowSecs
  let remaining := windowSecs - elapsedInCurrent
  let weightedPrevious := window.previousCount * remaining / windowSecs
  saturatingAddU u32Max window.currentCount weightedPrevious

/-- Count `count` more submissions. -/
def RateWindow.add (window : RateWindow) (count : ℕ) : RateWindow :=
  { window with currentCount := saturatingAddU u32Max window.currentCount count }

def checkOracleRateLimit (oracle : Address) (count : ℕ) : OracleTx Unit := do
  let env ← Tx.ask
  let w ← Tx.get
  let config := w.limits.rateLimitConfig oracle
  let now := env.timestamp
  let hourlyWindow := loadRateWindow (w.limits.oracleHourlyWindow oracle) now hourlyWindowSecs
  let hourlyUsed := estimatedWindowCount now hourlyWindow hourlyWindowSecs
  Tx.reject (config.hourlyLimit < saturatingAddU u32Max hourlyUsed count) .rateLimitExceeded
  let dailyWindow := loadRateWindow (w.limits.oracleDailyWindow oracle) now dailyWindowSecs
  let dailyUsed := estimatedWindowCount now dailyWindow dailyWindowSecs
  Tx.reject (config.dailyLimit < saturatingAddU u32Max dailyUsed count) .rateLimitExceeded
  modifyLimits fun s =>
    { s with
      oracleHourlyWindow :=
        update s.oracleHourlyWindow oracle (some (hourlyWindow.add count))
      oracleDailyWindow :=
        update s.oracleDailyWindow oracle (some (dailyWindow.add count)) }
  -- the arguments of the two alerts
  let _ ← Tx.orAbort (checkedAddU u32Max hourlyUsed count)
  let _ ← Tx.orAbort (checkedAddU u32Max dailyUsed count)

def setOracleRateLimits (oracle : Address) (hourlyLimit dailyLimit : UInt32) : OracleTx Unit := do
  let _ ← requireAdmin
  Tx.reject (hourlyLimit ≠ 0 ∧ dailyLimit ≠ 0 ∧ dailyLimit < hourlyLimit) .invalidRateLimit
  let config : RateLimitConfig :=
    { hourlyLimit := if hourlyLimit = 0 then defaultHourlyLimit else hourlyLimit.toNat
      dailyLimit := if dailyLimit = 0 then defaultDailyLimit else dailyLimit.toNat }
  modifyLimits fun s =>
    { s with oracleRateLimit := update s.oracleRateLimit oracle (some config) }

/-! ## Metrics -/

/-- The metrics after one more submission. -/
def OracleMetrics.record (m : OracleMetrics) (responseTimeMs : ℕ) : OracleMetrics :=
  let newTotal := saturatingAddU u32Max m.totalSubmissions 1
  let prevSum := m.avgResponseTimeMs * m.totalSubmissions
  let newSum := prevSum + responseTimeMs
  let successful :=
    if responseTimeMs ≤ slaMaxResponseTimeMs then
      saturatingAddU u32Max m.successfulSubmissions 1
    else m.successfulSubmissions
  { m with
    lastResponseTimeMs := responseTimeMs
    avgResponseTimeMs := newSum / newTotal % 2 ^ 64
    totalSubmissions := newTotal
    successfulSubmissions := successful
    uptimePercentage := successful * 100 / newTotal % 2 ^ 32 }

/-- The stored metrics, or those of an oracle that has not submitted. -/
def Limits.metrics (s : Limits) (oracle : Address) : OracleMetrics :=
  (s.oracleMetrics oracle).getD {}

def updateOracleMetrics (oracle : Address) (responseTimeMs : UInt64) : OracleTx Unit := do
  let w ← Tx.get
  let metrics := w.limits.metrics oracle
  Tx.reject (metrics.active = false) .oracleDeactivated
  modifyLimits fun s =>
    { s with
      oracleMetrics :=
        update s.oracleMetrics oracle (some (metrics.record responseTimeMs.toNat)) }

def deactivateSlowOracle (oracleAddress : Address) : OracleTx Unit := do
  let _ ← requireAdmin
  let w ← Tx.get
  let metrics ← Tx.orFail (w.limits.oracleMetrics oracleAddress) .resultNotFound
  Tx.reject (metrics.avgResponseTimeMs ≤ w.control.sla) .oracleNotSlow
  modifyLimits fun s =>
    { s with
      oracleMetrics :=
        update s.oracleMetrics oracleAddress (some { metrics with active := false }) }

/-! ## When the checks pass -/

/-- The submissions that a stored window counts at `now`. -/
def windowUsed (stored : Option RateWindow) (now windowSecs : ℕ) : ℕ :=
  estimatedWindowCount now (loadRateWindow stored now windowSecs) windowSecs

/-- Both limits allow `count` more submissions, and the sums fit. -/
def Limits.Allows (s : Limits) (oracle : Address) (count now : ℕ) : Prop :=
  windowUsed (s.oracleHourlyWindow oracle) now hourlyWindowSecs + count ≤
    min u32Max (s.rateLimitConfig oracle).hourlyLimit ∧
  windowUsed (s.oracleDailyWindow oracle) now dailyWindowSecs + count ≤
    min u32Max (s.rateLimitConfig oracle).dailyLimit

instance (s : Limits) (oracle : Address) (count now : ℕ) : Decidable (s.Allows oracle count now) :=
  inferInstanceAs (Decidable (_ ∧ _))

/-- Both windows after `count` more submissions. -/
def Limits.counted (s : Limits) (oracle : Address) (count now : ℕ) : Limits :=
  { s with
    oracleHourlyWindow := update s.oracleHourlyWindow oracle
      (some ((loadRateWindow (s.oracleHourlyWindow oracle) now hourlyWindowSecs).add count))
    oracleDailyWindow := update s.oracleDailyWindow oracle
      (some ((loadRateWindow (s.oracleDailyWindow oracle) now dailyWindowSecs).add count)) }

/-- The metrics after one more submission. -/
def Limits.recorded (s : Limits) (oracle : Address) (responseTimeMs : UInt64) : Limits :=
  { s with
    oracleMetrics := update s.oracleMetrics oracle
      (some ((s.metrics oracle).record responseTimeMs.toNat)) }

section

variable {env : Env} {w w' : World} {u : Unit} {oracle : Address}

@[simp] theorem checkOracleRateLimit_ok_iff {count : ℕ} :
    checkOracleRateLimit oracle count env w = .ok u w' ↔
      w.limits.Allows oracle count env.timestamp ∧
        w' = w.withLimits (w.limits.counted oracle count env.timestamp) := by
  -- a check against a saturated sum, together with the check that the sum fits
  have hfits (used limit : ℕ) : saturatingAddU u32Max used count ≤ limit ∧
      used + count ≤ u32Max ↔ used + count ≤ min u32Max limit := by
    unfold saturatingAddU
    omega
  simp only [checkOracleRateLimit, Tx.bind_ok_iff, Tx.ask_ok_iff, Tx.get_ok_iff, Tx.reject_ok_iff,
    modifyLimits_ok_iff, Tx.orAbort_ok_iff, checkedAddU_eq_some, Tx.pure_ok_iff, not_lt]
  unfold Limits.Allows
  rw [← hfits, ← hfits]
  constructor
  · rintro ⟨_, _, ⟨rfl, rfl⟩, _, _, ⟨rfl, rfl⟩, _, _, ⟨hhour, rfl⟩, _, _, ⟨hday, rfl⟩, _, _, rfl,
      _, _, ⟨⟨-, hhour'⟩, rfl⟩, _, _, ⟨⟨-, hday'⟩, rfl⟩, -, rfl⟩
    exact ⟨⟨⟨hhour, hhour'⟩, hday, hday'⟩, rfl⟩
  · rintro ⟨⟨⟨hhour, hhour'⟩, hday, hday'⟩, rfl⟩
    exact ⟨_, _, ⟨rfl, rfl⟩, _, _, ⟨rfl, rfl⟩, (), _, ⟨hhour, rfl⟩, (), _, ⟨hday, rfl⟩, (), _, rfl,
      _, _, ⟨⟨rfl, hhour'⟩, rfl⟩, _, _, ⟨⟨rfl, hday'⟩, rfl⟩, trivial, rfl⟩

@[simp] theorem updateOracleMetrics_ok_iff {responseTimeMs : UInt64} :
    updateOracleMetrics oracle responseTimeMs env w = .ok u w' ↔
      (w.limits.metrics oracle).active = true ∧
        w' = w.withLimits (w.limits.recorded oracle responseTimeMs) := by
  simp [updateOracleMetrics, Limits.recorded]

end

end Checkmate.Oracle

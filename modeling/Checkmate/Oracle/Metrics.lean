import Mathlib.Algebra.Order.Field.Basic
import Mathlib.Algebra.Order.AbsoluteValue.Basic
import Mathlib.Data.Rat.Cast.Order
import Mathlib.Tactic.FieldSimp
import Mathlib.Tactic.Linarith
import Checkmate.Oracle.Outcomes

/-!
# The average response time

Each record divides anew, from an average that was rounded down before, so what the divisions
drop adds up. `Kept` carries it along with the average : the average times the number of records,
and what was dropped, are the sum of the times (`kept_sum`). The average is within a millisecond
of the mean exactly while less was dropped than times were recorded (`average_tracks_iff`).
-/

namespace Checkmate.Oracle

open List

/-- An average over `count` times, and what its divisions have dropped. -/
structure Kept where
  avg : ℕ := 0
  count : ℕ := 0
  dropped : ℕ := 0
deriving DecidableEq

def Kept.record (k : Kept) (time : ℕ) : Kept where
  avg := (k.avg * k.count + time) / (k.count + 1)
  count := k.count + 1
  dropped := k.dropped + (k.avg * k.count + time) % (k.count + 1)

def kept (times : List ℕ) : Kept := times.foldl Kept.record {}

/-- The exact mean. -/
def meanTime (times : List ℕ) : ℚ := (times.sum : ℚ) / times.length

theorem foldl_record_sum (times : List ℕ) (k : Kept) :
    (times.foldl Kept.record k).count = k.count + times.length ∧
      (times.foldl Kept.record k).avg * (times.foldl Kept.record k).count +
        (times.foldl Kept.record k).dropped = k.avg * k.count + k.dropped + times.sum := by
  induction times generalizing k with
  | nil => simp
  | cons time times ih =>
    obtain ⟨hcount, hsum⟩ := ih (k.record time)
    have hdiv := Nat.div_add_mod' (k.avg * k.count + time) (k.count + 1)
    simp only [foldl_cons, length_cons, sum_cons]
    simp only [Kept.record] at hcount hsum ⊢
    exact ⟨by omega, by omega⟩

theorem kept_count (times : List ℕ) : (kept times).count = times.length := by
  simpa [kept] using (foldl_record_sum times {}).1

theorem kept_sum (times : List ℕ) :
    (kept times).avg * times.length + (kept times).dropped = times.sum := by
  rw [← kept_count]
  simpa [kept] using (foldl_record_sum times {}).2

/-- What was dropped, over the number of times, is what the average lacks. -/
theorem meanTime_sub_avg {times : List ℕ} (hne : times ≠ []) :
    meanTime times - (kept times).avg = (kept times).dropped / times.length := by
  have hpos : (times.length : ℚ) ≠ 0 := by simpa using hne
  have hsum : ((kept times).avg : ℚ) * times.length + (kept times).dropped = times.sum := by
    exact_mod_cast kept_sum times
  rw [meanTime, ← hsum]
  field_simp
  ring

theorem abs_meanTime_sub_avg_lt_one_iff {times : List ℕ} (hne : times ≠ []) :
    |meanTime times - (kept times).avg| < 1 ↔ (kept times).dropped < times.length := by
  have hpos : (0 : ℚ) < times.length := by exact_mod_cast length_pos_iff.mpr hne
  rw [meanTime_sub_avg hne, abs_of_nonneg (by positivity), div_lt_one hpos]
  exact_mod_cast Iff.rfl

/-- As long as little was dropped, the average is the mean rounded down. -/
theorem lt_avg_iff_le_meanTime {times : List ℕ} (hne : times ≠ [])
    (h : (kept times).dropped < times.length) (threshold : ℕ) :
    threshold < (kept times).avg ↔ (threshold + 1 : ℚ) ≤ meanTime times := by
  have hpos : (0 : ℚ) < times.length := by exact_mod_cast length_pos_iff.mpr hne
  have hsub := meanTime_sub_avg hne
  have hlow : (0 : ℚ) ≤ (kept times).dropped / times.length := by positivity
  have hhigh : ((kept times).dropped / times.length : ℚ) < 1 :=
    (div_lt_one hpos).mpr (by exact_mod_cast h)
  constructor
  · intro hlt
    have hle : (threshold + 1 : ℚ) ≤ (kept times).avg := by exact_mod_cast hlt
    linarith
  · intro hle
    have hlt : (threshold : ℚ) < (kept times).avg := by linarith
    exact_mod_cast hlt

/-! ## The stored metrics -/

/-- One call of `updateOracleMetrics`. -/
def recordTime (oracle : Address) (w : World) (x : Env × UInt64) : World :=
  invoke x.1 (updateOracleMetrics oracle x.2) w

/-- The response times in milliseconds. -/
def timesOf (xs : List (Env × UInt64)) : List ℕ := xs.map (·.2.toNat)

/-- The stored average is the one that is kept. -/
structure Tracks (w : World) (oracle : Address) (k : Kept) : Prop where
  avg : (w.limits.metrics oracle).avgResponseTimeMs = k.avg
  count : (w.limits.metrics oracle).totalSubmissions = k.count
  active : (w.limits.metrics oracle).active = true
  avg_le : k.avg ≤ u64Max

variable {oracle : Address} {w : World}

theorem Tracks.recordTime {k : Kept} (h : Tracks w oracle k) (hcount : k.count < u32Max)
    (x : Env × UInt64) : Tracks (recordTime oracle w x) oracle (k.record x.2.toNat) := by
  have hstep : Oracle.recordTime oracle w x = w.withLimits (w.limits.recorded oracle x.2) :=
    invoke_of_ok (u := ()) (updateOracleMetrics_ok_iff.mpr ⟨h.active, rfl⟩)
  have hmetrics : (Oracle.recordTime oracle w x).limits.metrics oracle =
      (w.limits.metrics oracle).record x.2.toNat := by
    simp [hstep, Limits.recorded, Limits.metrics]
  have htotal : saturatingAddU u32Max k.count 1 = k.count + 1 := by
    unfold saturatingAddU
    omega
  have hle : (k.avg * k.count + x.2.toNat) / (k.count + 1) ≤ u64Max := by
    refine Nat.div_le_of_le_mul ?_
    have hprod := Nat.mul_le_mul_right k.count h.avg_le
    have htime := toNat_le_u64Max x.2
    rw [Nat.add_mul, Nat.mul_comm k.count]
    omega
  refine ⟨?_, ?_, ?_, hle⟩
  · rw [hmetrics, OracleMetrics.record, h.avg, h.count, htotal]
    exact Nat.mod_eq_of_lt (Nat.lt_succ_of_le hle)
  · rw [hmetrics, OracleMetrics.record, h.count, htotal, Kept.record]
  · rw [hmetrics, OracleMetrics.record, h.active]

theorem Tracks.run (xs : List (Env × UInt64)) {k : Kept} (h : Tracks w oracle k)
    (hcount : k.count + xs.length ≤ u32Max) :
    Tracks (run (Oracle.recordTime oracle) w xs) oracle ((timesOf xs).foldl Kept.record k) := by
  induction xs generalizing w k with
  | nil => exact h
  | cons x xs ih =>
    rw [length_cons] at hcount
    exact ih (h.recordTime (by omega) x) (by simp only [Kept.record]; omega)

theorem deactivateSlowOracle_returns_iff {env : Env} {admin : Address}
    (hadmin : w.control.admin = some admin) (hauth : admin ∈ env.auths)
    {m : OracleMetrics} (hm : w.limits.oracleMetrics oracle = some m) :
    (∃ w', deactivateSlowOracle oracle env w = .ok () w') ↔
      w.control.sla < m.avgResponseTimeMs := by
  simp [deactivateSlowOracle, hadmin, hauth, hm]

/-- The stored average is less than a millisecond away from the mean of the recorded times if
and only if less was dropped than times were recorded, and then the oracles that can be
deactivated are those whose mean is above the threshold by a millisecond. -/
theorem average_tracks_iff (hw : w.limits.oracleMetrics oracle = none) (xs : List (Env × UInt64))
    (hne : xs ≠ []) (hlen : xs.length < u32Max) :
    let w' := run (recordTime oracle) w xs
    (|meanTime (timesOf xs) - (w'.limits.metrics oracle).avgResponseTimeMs| < 1 ↔
      (kept (timesOf xs)).dropped < xs.length) ∧
    ((kept (timesOf xs)).dropped < xs.length → ∀ env admin, w'.control.admin = some admin →
      admin ∈ env.auths → ((∃ w'', deactivateSlowOracle oracle env w' = .ok () w'') ↔
        (w'.control.sla + 1 : ℚ) ≤ meanTime (timesOf xs))) := by
  intro w'
  have htimes : timesOf xs ≠ [] := by simpa [timesOf] using hne
  have hlength : (timesOf xs).length = xs.length := length_map ..
  have hstart : Tracks w oracle {} := by
    constructor <;> simp [Limits.metrics, hw]
  have htracks : Tracks w' oracle (kept (timesOf xs)) := hstart.run xs (by simpa using hlen.le)
  rw [htracks.avg, ← hlength]
  refine ⟨abs_meanTime_sub_avg_lt_one_iff htimes, fun hdropped env admin hadmin hauth => ?_⟩
  -- a record was stored, since the count is not zero
  cases hm : w'.limits.oracleMetrics oracle with
  | none =>
    have hcount := htracks.count
    rw [kept_count, Limits.metrics, hm] at hcount
    exact absurd (eq_nil_of_length_eq_zero hcount.symm) htimes
  | some m =>
    have havg : m.avgResponseTimeMs = (kept (timesOf xs)).avg := by
      simpa [Limits.metrics, hm] using htracks.avg
    rw [deactivateSlowOracle_returns_iff hadmin hauth hm, havg]
    exact lt_avg_iff_le_meanTime htimes hdropped _

/-- The threshold is a millisecond. -/
def strictWorld : World :=
  run step (.deployed plainLedger) [.invoke (.plain [] 0 0) (.initializeOracle (.ext 1)),
    .invoke (.plain [1] 0 0) (.setSlaThreshold 1)]

/-- Response times, recorded one after the other. -/
def recorded (times : List UInt64) : List (Env × UInt64) := times.map (.plain [] 0 0, ·)

/-- With 3 and 4, half a millisecond is dropped. -/
theorem average_tracks_iff_half :
    let w' := run (recordTime (.ext 2)) strictWorld (recorded [3, 4])
    |meanTime (timesOf (recorded [3, 4])) - (w'.limits.metrics (.ext 2)).avgResponseTimeMs| < 1 :=
  (@average_tracks_iff (.ext 2) strictWorld rfl (recorded [3, 4]) (by decide) (by decide)).1.mpr
    (by decide)

/-- With 1, 2 and 3, each division drops half or more : the mean is 2, the stored average 1, and
the oracle cannot be deactivated. -/
theorem average_falls_behind :
    let w' := run (recordTime (.ext 2)) strictWorld (recorded [1, 2, 3])
    meanTime (timesOf (recorded [1, 2, 3])) = 2 ∧
      (w'.limits.metrics (.ext 2)).avgResponseTimeMs = 1 ∧ w'.control.sla = 1 ∧
      deactivateSlowOracle (.ext 2) (.plain [1] 0 0) w' = .err .oracleNotSlow w' := by
  have htimes : timesOf (recorded [1, 2, 3]) = [1, 2, 3] := by decide
  refine ⟨by norm_num [meanTime, htimes], by decide +kernel, by decide +kernel, rfl⟩

end Checkmate.Oracle

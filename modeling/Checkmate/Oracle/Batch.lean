import Mathlib.Data.List.Nodup
import Checkmate.Oracle.Outcomes

/-!
# A batch against its entries one by one

`submitBatchResults` checks the limit for the whole batch and then the entries, and stores
all or nothing. `BatchAgrees` says that it returns if and only if `submitResult` does for
every entry in turn, and that both then leave the same results and the same windows.

The counts agree : `n` submissions at once are allowed if and only if they are one after the
other at the same time (`Limits.allows_add`), and lead to the same windows
(`Limits.counted_add`). Two things do not. `submitBatchResults` does not look at the metrics,
so an admin who was deactivated can still submit in batches. And an empty batch is checked
and opens the windows. `batch_agrees_iff` : apart from these cases the two agree.
-/

namespace Checkmate.Oracle

open Function List Limits

/-! ## Windows -/

/-- The windows of all oracles. -/
def Limits.windows (s : Limits) : (Address → Option RateWindow) × (Address → Option RateWindow) :=
  (s.oracleHourlyWindow, s.oracleDailyWindow)

section Windows

variable {stored : Option RateWindow} {now secs m n : ℕ} {s t : Limits} {oracle : Address}

theorem RateWindow.add_add (window : RateWindow) : (window.add m).add n = window.add (m + n) := by
  have h : saturatingAddU u32Max (saturatingAddU u32Max window.currentCount m) n =
      saturatingAddU u32Max window.currentCount (m + n) := by
    unfold saturatingAddU
    omega
  simp [RateWindow.add, h]

/-- A window that was rolled forward has not run out. -/
theorem loadRateWindow_elapsed (stored : Option RateWindow) (now : ℕ) (hsecs : 0 < secs) :
    now - (loadRateWindow stored now secs).windowStart < secs := by
  simp only [loadRateWindow]
  split
  · simpa using hsecs
  · split
    · dsimp only
      omega
    · omega

/-- Counting in a window does not roll it forward. -/
theorem loadRateWindow_add (hsecs : 0 < secs) :
    loadRateWindow (some ((loadRateWindow stored now secs).add n)) now secs =
      (loadRateWindow stored now secs).add n := by
  have h := loadRateWindow_elapsed stored now hsecs
  generalize loadRateWindow stored now secs = window at h ⊢
  have hone : ¬secs ≤ now - window.windowStart := by omega
  have htwo : ¬secs * 2 ≤ now - window.windowStart := by omega
  simp [loadRateWindow, RateWindow.add, hone, htwo]

theorem windowUsed_add (hsecs : 0 < secs) (h : windowUsed stored now secs + n ≤ u32Max) :
    windowUsed (some ((loadRateWindow stored now secs).add n)) now secs =
      windowUsed stored now secs + n := by
  unfold windowUsed at h ⊢
  rw [loadRateWindow_add hsecs]
  simp only [estimatedWindowCount, RateWindow.add, saturatingAddU] at h ⊢
  generalize (loadRateWindow stored now secs).previousCount * _ / secs = weightedPrevious at h ⊢
  omega

/-- What is counted in two steps is counted in one. -/
theorem Limits.counted_add (s : Limits) :
    (s.counted oracle m now).counted oracle n now = s.counted oracle (m + n) now := by
  have hhour : 0 < hourlyWindowSecs := by decide
  have hday : 0 < dailyWindowSecs := by decide
  simp only [Limits.counted, update_self, update_idem, loadRateWindow_add hhour,
    loadRateWindow_add hday, RateWindow.add_add]

/-- More submissions are allowed if and only if they are one part after the other. -/
theorem Limits.allows_add : s.Allows oracle (m + n) now ↔
      s.Allows oracle m now ∧ (s.counted oracle m now).Allows oracle n now := by
  constructor
  · rintro ⟨hhour, hday⟩
    refine ⟨⟨by omega, by omega⟩, ?_, ?_⟩
    · simp only [Limits.counted, update_self]
      rw [windowUsed_add (by decide) (by omega), add_assoc]
      exact hhour
    · simp only [Limits.counted, update_self]
      rw [windowUsed_add (by decide) (by omega), add_assoc]
      exact hday
  · rintro ⟨⟨hhour, hday⟩, hhour', hday'⟩
    simp only [Limits.counted, update_self] at hhour' hday'
    rw [windowUsed_add (by decide) (by omega)] at hhour' hday'
    rw [add_assoc] at hhour' hday'
    exact ⟨hhour', hday'⟩

theorem Limits.counted_windows_congr (h : s.windows = t.windows) :
    (s.counted oracle n now).windows = (t.counted oracle n now).windows := by
  obtain ⟨hhour, hday⟩ := Prod.mk.inj h
  simp only [Limits.windows, Limits.counted, hhour, hday]

end Windows

/-! ## The entries one by one -/

/-- The invocation returns. -/
def Returns (w : World) : Event → Prop
  | .invoke env call => Commits env call w
  | _ => False

instance : DecidableRel Returns
  | w, .invoke env call => inferInstanceAs (Decidable (Commits env call w))
  | _, .credit .. => .isFalse id
  | _, .debit .. => .isFalse id

/-- `submitResult` for one entry. -/
def BatchResultEntry.call (entry : BatchResultEntry) (responseTimeMs : UInt64) : Call :=
  .submitResult entry.matchId entry.gameId entry.platform entry.result responseTimeMs
    entry.confidence

/-- `submitResult` for every entry in turn, with a response time each, in one ledger. -/
def oneByOne (env : Env) (subs : List (BatchResultEntry × UInt64)) : List Event :=
  subs.map fun x => .invoke env (x.1.call x.2)

/-- The results, the cache, the histories and the windows. -/
def World.record (w : World) :
    Results × (Address → Option RateWindow) × (Address → Option RateWindow) :=
  (w.results, w.limits.windows)

section

variable {env : Env} {w : World} {admin : Address} {subs : List (BatchResultEntry × UInt64)}

theorem SubmitterOpen.unique {a b : Address} (ha : SubmitterOpen env w a)
    (hb : SubmitterOpen env w b) : a = b :=
  Option.mem_unique ha.admin_eq hb.admin_eq

theorem SubmitterOpen.later (h : SubmitterOpen env w admin) (limits : Limits)
    (results : Results) : SubmitterOpen env ((w.withLimits limits).withResults results) admin :=
  ⟨h.paused, h.admin_eq, h.auth, h.staked⟩

theorem commits_call_iff {entry : BatchResultEntry} {responseTimeMs : UInt64}
    (hopen : SubmitterOpen env w admin) (hactive : (w.limits.metrics admin).active = true) :
    Commits env (entry.call responseTimeMs) w ↔
      w.limits.Allows admin 1 env.timestamp ∧ entry.gameId ≠ [] ∧
        w.results.result entry.matchId = none := by
  constructor
  · rintro ⟨w', h⟩
    obtain ⟨a, ha, hlets, hnone, hgame, -⟩ := submitResult_ok_iff.mp h
    obtain rfl := ha.unique hopen
    exact ⟨hlets.allows, hgame, hnone⟩
  · rintro ⟨hallows, hgame, hnone⟩
    exact ⟨_, submitResult_ok_iff.mpr ⟨admin, hopen, ⟨hallows, hactive⟩, hnone, hgame, rfl⟩⟩

theorem step_call {entry : BatchResultEntry} {responseTimeMs : UInt64}
    (hopen : SubmitterOpen env w admin) (hc : Commits env (entry.call responseTimeMs) w) :
    step w (.invoke env (entry.call responseTimeMs)) =
      (w.withLimits (w.limits.submitted admin env.timestamp responseTimeMs)).withResults
        (w.results.submitted env admin entry) := by
  obtain ⟨a, ha, -, -, -, hw'⟩ := submitResult_ok_iff.mp hc.exec_eq
  obtain rfl := ha.unique hopen
  exact hw'

theorem commits_batch_iff {entries : List BatchResultEntry} :
    Commits env (.submitBatchResults entries) w ↔ ∃ admin, BatchOpen env w entries admin := by
  constructor
  · rintro ⟨w', h⟩
    obtain ⟨admin, hopen, -⟩ := submitBatchResults_ok_iff.mp h
    exact ⟨admin, hopen⟩
  · rintro ⟨admin, hopen⟩
    exact ⟨_, submitBatchResults_ok_iff.mpr ⟨admin, hopen, rfl⟩⟩

/-- When `submitResult` returns for every entry in turn. -/
theorem along_oneByOne_iff (hopen : SubmitterOpen env w admin)
    (hactive : (w.limits.metrics admin).active = true)
    (hroom : w.limits.Allows admin 0 env.timestamp)
    (hdistinct : (subs.map fun x => x.1.matchId).Nodup) : Along step Returns w (oneByOne env subs) ↔
      w.limits.Allows admin subs.length env.timestamp ∧
        ∀ x ∈ subs, x.1.gameId ≠ [] ∧ w.results.result x.1.matchId = none := by
  induction subs generalizing w with
  | nil => simpa [oneByOne, Along] using hroom
  | cons x subs ih =>
    obtain ⟨hx, hdistinct⟩ := nodup_cons.mp hdistinct
    change Commits env (x.1.call x.2) w ∧
      Along step Returns (step w (.invoke env (x.1.call x.2))) (oneByOne env subs) ↔ _
    rw [length_cons, Nat.add_comm, allows_add, forall_mem_cons]
    have hnext (hc : Commits env (x.1.call x.2) w) :
        Along step Returns (step w (.invoke env (x.1.call x.2))) (oneByOne env subs) ↔
          (w.limits.counted admin 1 env.timestamp).Allows admin subs.length env.timestamp ∧
            ∀ y ∈ subs, y.1.gameId ≠ [] ∧ w.results.result y.1.matchId = none := by
      have hallows := ((commits_call_iff hopen hactive).mp hc).1
      have hopen' := hopen.later (w.limits.submitted admin env.timestamp x.2)
        (w.results.submitted env admin x.1)
      have hactive' :=
        (submitted_active w.limits admin env.timestamp x.2 admin).trans hactive
      rw [step_call hopen hc, ih hopen' hactive' (allows_add.mp hallows).2 hdistinct]
      refine and_congr Iff.rfl (forall₂_congr fun y hy => and_congr_right' ?_)
      have hne : y.1.matchId ≠ x.1.matchId := fun heq =>
        hx (mem_map.mpr ⟨y, hy, heq⟩)
      rw [show ((w.withLimits _).withResults (w.results.submitted env admin x.1)).results.result
        y.1.matchId = w.results.result y.1.matchId from update_of_ne hne _ _]
    constructor
    · rintro ⟨hc, hrest⟩
      obtain ⟨hallows, hgame, hnone⟩ := (commits_call_iff hopen hactive).mp hc
      obtain ⟨hallows', hentries⟩ := (hnext hc).mp hrest
      exact ⟨⟨hallows, hallows'⟩, ⟨hgame, hnone⟩, hentries⟩
    · rintro ⟨⟨hallows, hallows'⟩, ⟨hgame, hnone⟩, hentries⟩
      have hc : Commits env (x.1.call x.2) w :=
        (commits_call_iff hopen hactive).mpr ⟨hallows, hgame, hnone⟩
      exact ⟨hc, (hnext hc).mpr ⟨hallows', hentries⟩⟩

/-- What the entries in turn leave, if windows that stand for `n` submissions are there
already. -/
theorem run_oneByOne {s : Limits} {n : ℕ} (hopen : SubmitterOpen env w admin)
    (hwindows : w.limits.windows = (s.counted admin n env.timestamp).windows)
    (h : Along step Returns w (oneByOne env subs)) : (run step w (oneByOne env subs)).record =
      ((subs.map Prod.fst).foldl (fun s entry => s.submitted env admin entry) w.results,
        (s.counted admin (n + subs.length) env.timestamp).windows) := by
  induction subs generalizing w n with
  | nil => exact Prod.ext rfl hwindows
  | cons x subs ih =>
    obtain ⟨hc, hrest⟩ := h
    change (run step (step w (.invoke env (x.1.call x.2))) (oneByOne env subs)).record = _
    change Along step Returns (step w (.invoke env (x.1.call x.2))) (oneByOne env subs) at hrest
    rw [step_call hopen hc] at hrest ⊢
    have hcounted : (w.limits.submitted admin env.timestamp x.2).windows =
        (s.counted admin (n + 1) env.timestamp).windows := by
      rw [← counted_add]
      exact counted_windows_congr hwindows
    have hopen' := hopen.later (w.limits.submitted admin env.timestamp x.2)
      (w.results.submitted env admin x.1)
    rw [ih hopen' hcounted hrest, Nat.add_assoc, Nat.add_comm 1]
    rfl

end

/-! ## The comparison -/

/-- The batch returns if and only if every entry in turn does, both then leave the same results,
cache, histories and windows, and a batch that does not return stores nothing. -/
structure BatchAgrees (env : Env) (w : World) (subs : List (BatchResultEntry × UInt64)) :
    Prop where
  commits_iff : Commits env (.submitBatchResults (subs.map Prod.fst)) w ↔
    Along step Returns w (oneByOne env subs)
  same : Commits env (.submitBatchResults (subs.map Prod.fst)) w →
    (step w (.invoke env (.submitBatchResults (subs.map Prod.fst)))).record =
      (run step w (oneByOne env subs)).record
  atomic : ¬Commits env (.submitBatchResults (subs.map Prod.fst)) w →
    step w (.invoke env (.submitBatchResults (subs.map Prod.fst))) = w

/-- A batch that passes its own checks is submitted by an active admin. An empty batch passes
them, and finds the windows open at the current time. -/
def BatchFair (env : Env) (w : World) : List BatchResultEntry → Prop
  | [] => ∃ admin, BatchOpen env w [] admin ∧
      (w.limits.counted admin 0 env.timestamp).windows = w.limits.windows
  | entries => ∀ admin, BatchOpen env w entries admin → (w.limits.metrics admin).active = true

section

variable {env : Env} {w : World} {admin : Address} {subs : List (BatchResultEntry × UInt64)}

theorem step_batch {entries : List BatchResultEntry} (hopen : BatchOpen env w entries admin) :
    step w (.invoke env (.submitBatchResults entries)) = w.batched env admin entries := by
  have hc := commits_batch_iff.mpr ⟨admin, hopen⟩
  obtain ⟨a, ha, hw'⟩ := submitBatchResults_ok_iff.mp hc.exec_eq
  obtain rfl := ha.toSubmitterOpen.unique hopen.toSubmitterOpen
  exact hw'

theorem batchAgrees_nil_iff : BatchAgrees env w [] ↔ BatchFair env w [] := by
  constructor
  · intro h
    have hc := h.commits_iff.mpr trivial
    obtain ⟨admin, hopen⟩ := commits_batch_iff.mp hc
    have hsame := h.same hc
    rw [step_batch hopen] at hsame
    exact ⟨admin, hopen, (Prod.mk.inj hsame).2⟩
  · rintro ⟨admin, hopen, hwindows⟩
    have hc := commits_batch_iff.mpr ⟨admin, hopen⟩
    refine ⟨iff_of_true hc trivial, fun _ => ?_, fun hnot => absurd hc hnot⟩
    rw [map_nil, step_batch hopen]
    exact Prod.ext rfl hwindows

/-- A batch of an active admin passes its checks if and only if its entries in turn do. -/
theorem batchOpen_iff_along (hne : subs ≠ []) (hsize : subs.length ≤ maxBatchSize)
    (hdistinct : (subs.map fun x => x.1.matchId).Nodup) (hopen : SubmitterOpen env w admin)
    (hactive : (w.limits.metrics admin).active = true) :
    BatchOpen env w (subs.map Prod.fst) admin ↔ Along step Returns w (oneByOne env subs) := by
  have hcheck : checkBatch w.results.result (subs.map Prod.fst) = none ↔
      ∀ x ∈ subs, x.1.gameId ≠ [] ∧ w.results.result x.1.matchId = none := by
    rw [checkBatch_eq_none_iff, map_map, forall_mem_map]
    exact and_iff_right hdistinct
  constructor
  · intro h
    have hallows : w.limits.Allows admin subs.length env.timestamp := by
      simpa using h.allows
    have hroom : w.limits.Allows admin 0 env.timestamp :=
      (allows_add.mp (Nat.zero_add subs.length ▸ hallows)).1
    exact (along_oneByOne_iff hopen hactive hroom hdistinct).mpr ⟨hallows, hcheck.mp h.check⟩
  · intro h
    -- the first entry shows that there is room
    have hroom : w.limits.Allows admin 0 env.timestamp := by
      obtain ⟨x, rest, rfl⟩ := exists_cons_of_ne_nil hne
      have hallows := ((commits_call_iff hopen hactive).mp h.1).1
      exact (allows_add.mp (Nat.zero_add 1 ▸ hallows)).1
    obtain ⟨hallows, hentries⟩ := (along_oneByOne_iff hopen hactive hroom hdistinct).mp h
    exact ⟨hopen, by simpa using hsize, by simpa using hallows, hcheck.mpr hentries⟩

/-- For up to 100 entries of distinct matches and any response times, a batch agrees with its
entries one by one if and only if it is fair. -/
theorem batch_agrees_iff (hsize : subs.length ≤ maxBatchSize)
    (hdistinct : (subs.map fun x => x.1.matchId).Nodup) :
    BatchAgrees env w subs ↔ BatchFair env w (subs.map Prod.fst) := by
  cases subs with
  | nil => exact batchAgrees_nil_iff
  | cons x rest =>
    have hne : x :: rest ≠ [] := by simp
    constructor
    · intro h admin hopen
      -- the entries in turn return, and the first of them looks at the metrics
      have hal := h.commits_iff.mp (commits_batch_iff.mpr ⟨admin, hopen⟩)
      obtain ⟨w', hfirst⟩ := hal.1
      obtain ⟨a, ha, hlets, -⟩ := submitResult_ok_iff.mp hfirst
      obtain rfl := ha.unique hopen.toSubmitterOpen
      exact hlets.active
    · intro hfair
      have hiff : Commits env (.submitBatchResults ((x :: rest).map Prod.fst)) w ↔
          Along step Returns w (oneByOne env (x :: rest)) := by
        constructor
        · intro hc
          obtain ⟨admin, hopen⟩ := commits_batch_iff.mp hc
          exact (batchOpen_iff_along hne hsize hdistinct hopen.toSubmitterOpen
            (hfair admin hopen)).mp hopen
        · intro hal
          obtain ⟨w', hfirst⟩ := hal.1
          obtain ⟨admin, hopen, hlets, -⟩ := submitResult_ok_iff.mp hfirst
          exact commits_batch_iff.mpr
            ⟨admin, (batchOpen_iff_along hne hsize hdistinct hopen hlets.active).mpr hal⟩
      refine ⟨hiff, fun hc => ?_, fun hnot => step_of_not_commits hnot⟩
      obtain ⟨admin, hopen⟩ := commits_batch_iff.mp hc
      obtain ⟨hfirst, hrest⟩ := hiff.mp hc
      have hstep := step_call hopen.toSubmitterOpen hfirst
      have hopen' := hopen.toSubmitterOpen.later (w.limits.submitted admin env.timestamp x.2)
        (w.results.submitted env admin x.1)
      change _ = (run step (step w (.invoke env (x.1.call x.2))) (oneByOne env rest)).record
      change Along step Returns (step w (.invoke env (x.1.call x.2))) (oneByOne env rest) at hrest
      rw [step_batch hopen]
      rw [hstep] at hrest ⊢
      rw [run_oneByOne (s := w.limits) (n := 1) hopen' rfl hrest, Nat.add_comm 1]
      simp only [World.batched, length_map, length_cons, map_cons, foldl_cons]
      rfl

end

/-- Two entries, for matches 1 and 2. -/
def twoEntries : List (BatchResultEntry × UInt64) :=
  [(⟨1, [1], .lichess, .player1, none⟩, 20), (⟨2, [2], .lichess, .draw, none⟩, 30)]

/-- The admin 1 has submitted a result after ten seconds. -/
def slowRun : List Event :=
  [.invoke (.plain [] 0 0) (.initializeOracle (.ext 1)),
    .invoke (.plain [1] 0 0) (.submitResult 0 [7] .lichess .player2 10000 none)]

theorem batch_agrees_iff_slowRun :
    let w := run step (.deployed plainLedger) slowRun
    Commits (.plain [1] 0 0) (.submitBatchResults (twoEntries.map Prod.fst)) w ∧
      BatchAgrees (.plain [1] 0 0) w twoEntries := by
  intro w
  refine ⟨by decide +kernel, (batch_agrees_iff (by decide) (by decide)).mpr fun admin hopen => ?_⟩
  have hadmin : w.control.admin = some (.ext 1) := by decide +kernel
  obtain rfl := Option.mem_unique hadmin hopen.admin_eq
  decide +kernel

/-- Once it is deactivated for that, it cannot submit the entries one by one, but as a batch. -/
theorem batch_of_deactivated :
    let w := run step (.deployed plainLedger)
      (slowRun ++ [.invoke (.plain [1] 0 0) (.deactivateSlowOracle (.ext 1))])
    Commits (.plain [1] 0 0) (.submitBatchResults (twoEntries.map Prod.fst)) w ∧
      ¬BatchAgrees (.plain [1] 0 0) w twoEntries := by
  intro w
  have hc : Commits (.plain [1] 0 0) (.submitBatchResults (twoEntries.map Prod.fst)) w := by
    decide +kernel
  refine ⟨hc, fun h => ?_⟩
  have hal := h.commits_iff.mp hc
  exact absurd hal (by decide +kernel)

end Checkmate.Oracle

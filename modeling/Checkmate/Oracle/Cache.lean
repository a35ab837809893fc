import Checkmate.Host.Cache
import Checkmate.Oracle.Frames
import Checkmate.Oracle.Outcomes

/-!
# The cache of results

The cache holds one result for each game, whichever matches were about it. Whatever stores a
result stores it for a match that has none and caches it, and `deleteResult` drops what is
cached for the game of the deleted result, also where another match about the game keeps its
own. So what `getCachedResult` answers is the stored result of some match.
-/

namespace Checkmate.Oracle

open Tx

/-- Every cached result is the stored result of a match about the same game. -/
def Results.Backed (s : Results) : Prop :=
  Checkmate.Backed (fun r : ResultEntry => (r.gameId, r.platform))
    (fun (c : Winner × ℕ) r => r.result = c.1) s.result s.oracleCache

section

variable {env : Env} {s : Results} {id : ℕ} {vote : OracleVoteRecord}

theorem Results.Backed.drop (h : s.Backed) (gameId : Bytes) (platform : Platform) :
    (s.putCache gameId platform none).Backed :=
  h.evict (gameId, platform)

theorem Results.Backed.stored (h : s.Backed) (hfree : s.result id = none)
    (submitter : Address) (confidence : Option ℕ) :
    (s.stored env id vote submitter confidence).Backed := by
  let entry : ResultEntry :=
    ⟨vote.gameId, vote.platform, vote.result, env.sequence, submitter, confidence⟩
  exact h.store (r := entry) (c := (vote.result, env.cacheExpiry)) hfree rfl

theorem Results.Backed.appendSubmission (h : s.Backed) (oracle : Address)
    (entry : OracleSubmissionEntry) : (s.appendSubmission oracle entry).Backed := h

theorem Results.Backed.finalized (h : s.Backed) (hfree : s.result id = none)
    (oracle : Address) (submitters : List Address) :
    (s.finalized env id oracle vote submitters).Backed := by
  have hstored : (s.stored env id vote oracle none).Backed := h.stored hfree oracle none
  unfold Results.finalized
  change (submitters.foldl _ (s.stored env id vote oracle none)).Backed
  generalize s.stored env id vote oracle none = r at hstored
  induction submitters generalizing r with
  | nil => exact hstored
  | cons a l ih => exact ih _ (hstored.appendSubmission a _)

theorem Results.Backed.deleted (h : s.Backed) {entry : ResultEntry}
    (hentry : s.result id = some entry) : (s.deleted id entry).Backed :=
  h.withdraw hentry

/-- The ids of a batch are distinct, so that each entry finds its match without a result. -/
theorem Results.Backed.batch (admin : Address) :
    ∀ {entries : List BatchResultEntry} {s : Results}, s.Backed →
      (entries.map BatchResultEntry.matchId).Nodup →
      (∀ entry ∈ entries, s.result entry.matchId = none) →
      (entries.foldl (fun s entry => s.submitted env admin entry) s).Backed
  | [], _, h, _, _ => h
  | entry :: rest, s, h, hnodup, hfree => by
    obtain ⟨hnotin, hrest⟩ := List.nodup_cons.mp hnodup
    have hstored : (s.submitted env admin entry).Backed :=
      h.stored (hfree entry List.mem_cons_self) admin entry.confidence
    rw [List.foldl_cons]
    refine Results.Backed.batch admin hstored hrest fun e he => ?_
    have hne : e.matchId ≠ entry.matchId := fun heq =>
      hnotin (heq ▸ List.mem_map_of_mem he)
    exact (Function.update_of_ne hne _ _).trans (hfree e (List.mem_cons_of_mem _ he))

end

section

variable {env : Env} {w w' : World} {u : Unit} {gameId : Bytes} {platform : Platform}

theorem Slashed.results {oracle : Address} {bps : ℤ} (h : Slashed env w oracle bps w') :
    w'.results = w.results := by
  cases h <;> rfl

theorem slashSubmitters_results {candidates : List CandidateTally}
    (h : slashSubmitters candidates env w = .ok u w') : w'.results = w.results :=
  (slashSubmitters_frames (f := World.results) (fun _ _ => rfl) (fun _ _ _ => rfl) _).ok h

/-- An entry point that writes neither results nor the cache. -/
theorem Call.exec_frames_results {call : Call} (hresults : call.writes .results = false)
    (hcache : call.writes .cache = false) : Frames World.results call.exec := by
  refine Call.exec_frames fun p hp => ?_
  cases p with
  | results => cases hresults.symm.trans hp
  | cache => cases hcache.symm.trans hp
  | control | stakes | limits | votes => exact fun _ _ => rfl
  | rate | tokens => exact fun _ _ _ => rfl

theorem World.awaiting_results (w : World) (id : ℕ) (vote : OracleVoteRecord)
    (candidates : List CandidateTally) : (w.awaiting id vote candidates).results =
        w.results.putCache vote.gameId vote.platform none ∨
      (w.awaiting id vote candidates).results = w.results := by
  unfold World.awaiting
  dsimp only
  generalize stillPossible w.control.threshold (w.remainingEligible id) candidates = possible
  cases possible with
  | false => exact .inl rfl
  | true => exact .inr rfl

theorem getCachedResult_ok {answer : Option (Winner × ℕ)}
    (h : getCachedResult gameId platform env w = .ok answer w') :
    answer = none ∧ w' = w.withResults (w.results.putCache gameId platform none) ∨
      answer = w.results.oracleCache (gameId, platform) ∧ w' = w := by
  simp only [getCachedResult, bind_ok_iff, ask_ok_iff, get_ok_iff] at h
  obtain ⟨_, _, ⟨rfl, rfl⟩, _, w, ⟨rfl, rfl⟩, h⟩ := h
  cases hcached : w.results.oracleCache (gameId, platform) with
  | none =>
    rw [hcached] at h
    obtain ⟨rfl, rfl⟩ := pure_ok_iff.mp h
    exact .inr ⟨rfl, rfl⟩
  | some =>
    rw [hcached] at h
    rcases ite_ok_iff.mp h with ⟨-, h⟩ | ⟨-, h⟩
    · simp only [bind_ok_iff, modifyResults_ok_iff, pure_ok_iff] at h
      obtain ⟨_, _, rfl, rfl, rfl⟩ := h
      exact .inl ⟨rfl, rfl⟩
    · obtain ⟨rfl, rfl⟩ := pure_ok_iff.mp h
      exact .inr ⟨rfl, rfl⟩

theorem getCachedResult_of_cached {result : Winner} {expiry : ℕ}
    (h : w.results.oracleCache (gameId, platform) = some (result, expiry))
    (hnow : env.timestamp < expiry) :
    getCachedResult gameId platform env w = .ok (some (result, expiry)) w := by
  rw [getCachedResult, ask_bind, get_bind, h]
  dsimp only
  rw [if_neg (not_le.mpr hnow)]
  rfl

theorem submitOracleResult_backed {oracle : Address} {id : ℕ} {result : Winner}
    {responseTimeMs : UInt64}
    (h : submitOracleResult oracle id gameId platform result responseTimeMs env w = .ok u w')
    (hw : w.results.Backed) : w'.results.Backed := by
  have hvoted := (submitOracleResult_ok ⟨gameId, platform, result⟩ h).2
  cases hvoted with
  | late finalized hres hne _ hslash => rwa [hslash.results]
  | equivocated prev hres hlets hprev hne _ hslash => rwa [hslash.results]
  | finalized hres hlets hnone hopen hreached w2 hslash =>
    change w2.results.Backed
    rw [slashSubmitters_results hslash]
    exact hw.finalized hres oracle _
  | counted =>
    rcases World.awaiting_results _ id _ _ with hresults | hresults
    · rw [hresults]
      exact hw.drop gameId platform
    · rwa [hresults]

theorem Call.exec_backed (call : Call) : Keeps (fun w => w.results.Backed) call.exec := by
  intro env w u w' h hw
  cases call with
  | submitResult id gameId platform result responseTimeMs confidence =>
    have h' : Oracle.submitResult (BatchResultEntry.mk id gameId platform result confidence).matchId
      gameId platform result responseTimeMs confidence env w = _ := h
    obtain ⟨admin, -, -, hnone, -, rfl⟩ := submitResult_ok_iff.mp h'
    exact hw.stored hnone admin confidence
  | submitBatchResults =>
    obtain ⟨admin, hopen, rfl⟩ := submitBatchResults_ok_iff.mp h
    obtain ⟨hnodup, hfree⟩ := checkBatch_eq_none_iff.mp hopen.check
    exact hw.batch admin hnodup fun entry hentry => (hfree entry hentry).2
  | submitOracleResult => exact submitOracleResult_backed h hw
  | resolveDisputedMatch id gameId platform result =>
    obtain ⟨admin, state, w2, -, hnone, -, -, hslash, rfl⟩ :=
      resolveDisputedMatch_ok ⟨gameId, platform, result⟩ h
    have hresults := slashSubmitters_results hslash
    change (w2.results.stored _ _ _ _ _).Backed
    rw [hresults]
    exact hw.stored hnone admin none
  | deleteResult =>
    obtain ⟨admin, entry, -, -, hentry, rfl⟩ := deleteResult_ok h
    exact hw.deleted hentry
  | getCachedResult gameId platform =>
    obtain ⟨answer, w1, h, hpure⟩ := bind_ok_iff.mp h
    obtain rfl := (pure_ok_iff.mp hpure).2
    rcases getCachedResult_ok h with ⟨-, rfl⟩ | ⟨-, rfl⟩
    · exact hw.drop gameId platform
    · exact hw
  | invalidateCache gameId platform =>
    simp only [Call.exec, Oracle.invalidateCache, bind_ok_iff, requireAdmin_ok_iff,
      modifyResults_ok_iff] at h
    obtain ⟨_, _, ⟨-, -, rfl⟩, rfl⟩ := h
    exact hw.drop gameId platform
  | _ => rwa [(Call.exec_frames_results rfl rfl).ok h]

theorem Reachable.backed (hw : Reachable w) : w.results.Backed := by
  obtain ⟨ledger, es, rfl⟩ := hw
  exact run_inv (I := fun w : World => w.results.Backed)
    (fun w e hw _ => step_keeps Call.exec_backed (fun _ _ h => h) hw e) Backed.empty
    (along_true _ _)

/-- The cache answers with the stored result of some match about the game. -/
theorem cached_result_stored {gameId : Bytes} {platform : Platform} {winner : Winner}
    {expiry : ℕ} (hw : Reachable w)
    (h : getCachedResult gameId platform env w = .ok (some (winner, expiry)) w') :
    ∃ id entry, w'.results.result id = some entry ∧ entry.gameId = gameId ∧
      entry.platform = platform ∧ entry.result = winner := by
  rcases getCachedResult_ok h with ⟨hnone, -⟩ | ⟨hcached, rfl⟩
  · exact absurd hnone (by simp)
  · obtain ⟨id, entry, hentry, hkey, hresult⟩ := hw.backed _ _ hcached.symm
    obtain ⟨hgame, hplatform⟩ := Prod.mk.inj hkey
    exact ⟨id, entry, hentry, hgame, hplatform, hresult⟩

end

/-- Matches 0 and 1 are about one game, and the result of match 1 is deleted and stored again
with another winner. -/
def sharedGame : List Event :=
  [.invoke (.plain [] 0 0) (.initializeOracle (.ext 1)),
    .invoke (.plain [1] 0 0) (.submitResult 0 [1] .lichess .player1 10 none),
    .invoke (.plain [1] 0 0) (.submitResult 1 [1] .lichess .player1 10 none),
    .invoke (.plain [1] 0 0) (.deleteResult 1),
    .invoke (.plain [1] 0 0) (.submitResult 1 [1] .lichess .draw 10 none)]

theorem cached_result_stored_sharedGame :
    ∃ id entry, (run step (.deployed plainLedger) sharedGame).results.result id =
      some entry ∧ entry.gameId = [1] ∧ entry.platform = .lichess ∧ entry.result = .draw := by
  have hw : Reachable (run step (.deployed plainLedger) sharedGame) :=
    ⟨plainLedger, sharedGame, rfl⟩
  have hcached : (run step (.deployed plainLedger) sharedGame).results.oracleCache
      ([1], .lichess) = some (.draw, defaultCacheTtlSecs) := by
    decide +kernel
  have hnow : (Env.plain [] 0 0).timestamp < defaultCacheTtlSecs := by decide
  exact cached_result_stored hw (getCachedResult_of_cached hcached hnow)

end Checkmate.Oracle

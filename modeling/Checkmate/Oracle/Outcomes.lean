import Mathlib.Data.List.Nodup
import Checkmate.Oracle.Contract

/-!
# What a vote does

A call of `submitOracleResult` that returns was let in (`VoteOpen`), and then did one of four
things (`Voted`). The vote came after the result and against it, and its oracle was slashed.
It was a second, different vote on the match, and its oracle lost its stake. It was the last
vote that its candidate needed, and the match got its result. Or it was counted.

The equations for `submitOracleResult` and `recordVote` say in which case each happens. The
last part does the same for what the admin stores or deletes, and for `swap`.
-/

namespace Checkmate.Oracle

open Function Tx OracleVoteRecord List

/-! ## Counting a vote -/

/-- A candidate with its submitters. -/
def OracleVoteRecord.tally (vote : OracleVoteRecord) (submitters : List Address) :
    CandidateTally :=
  ⟨vote.gameId, vote.platform, vote.result, submitters⟩

@[simp] theorem OracleVoteRecord.tally_vote (vote : OracleVoteRecord) (submitters : List Address) :
    (vote.tally submitters).vote = vote := rfl

@[simp] theorem OracleVoteRecord.tally_submitters (vote : OracleVoteRecord)
    (submitters : List Address) : (vote.tally submitters).submitters = submitters := rfl

/-- The oracles counted for `vote`. -/
def supporters (vote : OracleVoteRecord) : List CandidateTally → List Address
  | [] => []
  | c :: cs => if c.agrees vote then c.submitters else supporters vote cs

/-- The other candidates. -/
def rivals (vote : OracleVoteRecord) : List CandidateTally → List CandidateTally
  | [] => []
  | c :: cs => if c.agrees vote then cs else c :: rivals vote cs

section Count

variable {oracle : Address} {vote : OracleVoteRecord}

theorem CandidateTally.eq_tally {c : CandidateTally} (h : c.agrees vote = true) :
    { c with submitters := c.submitters ++ [oracle] } = vote.tally (c.submitters ++ [oracle]) := by
  obtain rfl := CandidateTally.agrees_iff.mp h
  rfl

theorem OracleVoteRecord.tally_agrees (submitters : List Address) :
    (vote.tally submitters).agrees vote = true := by
  simp

/-- The candidate of a vote after it is counted. -/
theorem addVote_getElem? : ∀ cs : List CandidateTally,
    (addVote oracle vote cs)[(addVote oracle vote cs).findIdx fun c => c.agrees vote]? =
      some (vote.tally (supporters vote cs ++ [oracle]))
  | [] => by
    rw [show addVote oracle vote [] = [vote.tally [oracle]] from rfl, findIdx_cons,
      tally_agrees]
    rfl
  | c :: cs => by
    by_cases h : c.agrees vote = true
    · rw [addVote, if_pos h, supporters, if_pos h, CandidateTally.eq_tally h, findIdx_cons,
        tally_agrees]
      rfl
    · rw [addVote, if_neg h, supporters, if_neg h, findIdx_cons, eq_false_of_ne_true h]
      exact addVote_getElem? cs

/-- The other candidates are as before. -/
theorem addVote_eraseIdx : ∀ cs : List CandidateTally,
    (addVote oracle vote cs).eraseIdx
      ((addVote oracle vote cs).findIdx fun c => c.agrees vote) = rivals vote cs
  | [] => by
    rw [show addVote oracle vote [] = [vote.tally [oracle]] from rfl, findIdx_cons,
      tally_agrees]
    rfl
  | c :: cs => by
    by_cases h : c.agrees vote = true
    · rw [addVote, if_pos h, CandidateTally.eq_tally h, findIdx_cons,
        tally_agrees, rivals, if_pos h]
      rfl
    · rw [addVote, if_neg h, findIdx_cons, eq_false_of_ne_true h, rivals, if_neg h]
      exact congrArg (c :: ·) (addVote_eraseIdx cs)

theorem mem_addVote {d : CandidateTally} : ∀ {cs : List CandidateTally},
    d ∈ addVote oracle vote cs ↔
      d = vote.tally (supporters vote cs ++ [oracle]) ∨ d ∈ rivals vote cs
  | [] => by simp [addVote, supporters, rivals, OracleVoteRecord.tally]
  | c :: cs => by
    by_cases h : c.agrees vote = true
    · rw [addVote, if_pos h, supporters, if_pos h, CandidateTally.eq_tally h, rivals, if_pos h,
        mem_cons]
    · rw [addVote, if_neg h, supporters, if_neg h, rivals, if_neg h,
        mem_cons, mem_cons, mem_addVote]
      tauto

end Count

/-! ## Casting a vote -/

/-- What every vote is checked for. -/
structure VoteOpen (env : Env) (w : World) (oracle : Address) (vote : OracleVoteRecord) :
    Prop where
  paused : w.control.paused = false
  admin : w.control.admin.isSome = true
  auth : oracle ∈ env.auths
  gameId : vote.gameId ≠ []
  staked : ∃ r, w.stakes.registration oracle = some r ∧ 0 < r.oracleStake

/-- The limits after a vote. -/
def Limits.submitted (s : Limits) (oracle : Address) (now : ℕ) (responseTimeMs : UInt64) :
    Limits :=
  (s.counted oracle 1 now).recorded oracle responseTimeMs

/-- A vote activates or deactivates nobody. -/
theorem Limits.submitted_active (s : Limits) (oracle : Address) (now : ℕ)
    (responseTimeMs : UInt64) (a : Address) :
    ((s.submitted oracle now responseTimeMs).metrics a).active = (s.metrics a).active := by
  by_cases ha : a = oracle
  · subst ha
    simp [Limits.submitted, Limits.recorded, Limits.counted, Limits.metrics, OracleMetrics.record]
  · simp [Limits.submitted, Limits.recorded, Limits.counted, Limits.metrics, ha]

/-- The limits let a vote through. -/
structure Limits.Lets (s : Limits) (oracle : Address) (now : ℕ) : Prop where
  allows : s.Allows oracle 1 now
  active : (s.metrics oracle).active = true

instance (s : Limits) (oracle : Address) (now : ℕ) : Decidable (s.Lets oracle now) :=
  decidable_of_iff (s.Allows oracle 1 now ∧ (s.metrics oracle).active = true)
    ⟨fun h => ⟨h.1, h.2⟩, fun h => ⟨h.allows, h.active⟩⟩

/-- The state with a vote recorded. -/
def World.voted (w : World) (matchId : ℕ) (oracle : Address) (vote : OracleVoteRecord) : World :=
  w.withVotes (w.votes.putVote matchId oracle vote)

/-- The results with the one that the votes of `submitters` made. -/
def Results.finalized (s : Results) (env : Env) (matchId : ℕ) (oracle : Address)
    (vote : OracleVoteRecord) (submitters : List Address) : Results :=
  submitters.foldl
    (fun s a => s.appendSubmission a
      ⟨matchId, vote.gameId, vote.platform, vote.result, env.sequence⟩)
    ((s.putResult matchId
      ⟨vote.gameId, vote.platform, vote.result, env.sequence, oracle, none⟩).putCache
        vote.gameId vote.platform (some (vote.result, env.cacheExpiry)))

/-- The state with a vote counted that is not the last needed. -/
def World.awaiting (w : World) (matchId : ℕ) (vote : OracleVoteRecord)
    (candidates : List CandidateTally) : World :=
  let remaining := w.remainingEligible matchId
  let disputed := !stillPossible w.control.threshold remaining candidates
  { w with
    results := if disputed = true then w.results.putCache vote.gameId vote.platform none
      else w.results
    votes :=
      { w.votes with
        voteTally := update w.votes.voteTally matchId
          (some ⟨remaining, w.stakes.oracleEligibilityVersion⟩)
        matchVotes := update w.votes.matchVotes matchId
          (some ⟨candidates, disputed⟩) } }

section

variable {env : Env} {w w' : World} {u : Unit} {e : Error} {oracle : Address} {id : ℕ}
  {vote : OracleVoteRecord} {responseTimeMs : UInt64}

theorem finalizeCandidate_eq (submitters : List Address) (losing : List CandidateTally) :
    finalizeCandidate id oracle (vote.tally submitters) losing env w =
      (do slashSubmitters losing; modifyVotes fun s => s.clear id : OracleTx Unit) env
        (w.withResults (w.results.finalized env id oracle vote submitters)) := by
  have hstore : storeResult id vote oracle none env w = .ok () (w.withResults
      ((w.results.putResult id
        ⟨vote.gameId, vote.platform, vote.result, env.sequence, oracle, none⟩).putCache
          vote.gameId vote.platform (some (vote.result, env.cacheExpiry)))) := rfl
  have hfold (l : List Address) (s : Results) :
      l.foldl (fun (w : World) a => w.withResults (w.results.appendSubmission a
        ⟨id, vote.gameId, vote.platform, vote.result, env.sequence⟩)) (w.withResults s) =
      w.withResults (l.foldl (fun s a => s.appendSubmission a
        ⟨id, vote.gameId, vote.platform, vote.result, env.sequence⟩) s) := by
    induction l generalizing s with
    | nil => rfl
    | cons a l ih => exact ih _
  have happend (a : Address) (w : World) : ∃ b, appendOracleSubmission a id vote env w =
      .ok b (w.withResults (w.results.appendSubmission a
        ⟨id, vote.gameId, vote.platform, vote.result, env.sequence⟩)) := ⟨(), rfl⟩
  rw [finalizeCandidate, tally_vote, bind_of_ok hstore,
    tally_submitters, bind_of_ok (forEach_of_ok happend _ _), hfold]
  rfl

theorem awaitVotes_eq (candidates : List CandidateTally) :
    awaitVotes id vote candidates env w = .ok () (w.awaiting id vote candidates) := by
  have hremaining : remainingEligibleOracles id env w = .ok (w.remainingEligible id)
      (w.withVotes { w.votes with
        voteTally := update w.votes.voteTally id
          (some ⟨w.remainingEligible id, w.stakes.oracleEligibilityVersion⟩) }) := rfl
  rw [awaitVotes, get_bind, bind_of_ok hremaining]
  unfold World.awaiting
  dsimp only
  generalize stillPossible w.control.threshold (w.remainingEligible id) candidates = b
  cases b <;> rfl

/-- The vote that makes the result. -/
theorem recordVote_of_reached (hopen : (w.votes.state id).disputed = false)
    (hreached : w.control.threshold ≤
      (supporters vote (w.votes.state id).candidates ++ [oracle]).length) :
    recordVote oracle id vote env w =
      (do
        slashSubmitters (rivals vote (w.votes.state id).candidates)
        modifyVotes fun s => s.clear id : OracleTx Unit) env
        ((w.voted id oracle vote).withResults (w.results.finalized env id oracle vote
          (supporters vote (w.votes.state id).candidates ++ [oracle]))) := by
  have hput : modifyVotes (fun s => s.putVote id oracle vote) env w =
      .ok () (w.voted id oracle vote) := rfl
  rw [recordVote, get_bind,
    reject_bind (by simp [hopen]), bind_of_ok hput,
    bind_of_ok (orAbort_ok_iff.mpr ⟨addVote_getElem? _, rfl⟩), addVote_eraseIdx]
  rw [tally_submitters, if_pos hreached, finalizeCandidate_eq]
  rfl

/-- A vote that does not make the result yet. -/
theorem recordVote_of_short (hopen : (w.votes.state id).disputed = false)
    (hshort : (supporters vote (w.votes.state id).candidates ++ [oracle]).length <
      w.control.threshold) :
    recordVote oracle id vote env w = .ok () ((w.voted id oracle vote).awaiting id
      vote (addVote oracle vote (w.votes.state id).candidates)) := by
  have hput : modifyVotes (fun s => s.putVote id oracle vote) env w =
      .ok () (w.voted id oracle vote) := rfl
  rw [recordVote, get_bind,
    reject_bind (by simp [hopen]), bind_of_ok hput,
    bind_of_ok (orAbort_ok_iff.mpr ⟨addVote_getElem? _, rfl⟩)]
  rw [tally_submitters, if_neg (not_le.mpr hshort), awaitVotes_eq]

theorem submitOracleResult_eq (hopen : VoteOpen env w oracle vote) :
    submitOracleResult oracle id vote.gameId vote.platform vote.result responseTimeMs env w =
      match w.results.result id with
      | some finalized => lateVote oracle finalized vote env w
      | none => castVote oracle id vote responseTimeMs env w := by
  obtain ⟨r, hr, hpos⟩ := hopen.staked
  have hauth : requireAuth oracle env w = .ok () w := requireAuth_ok_iff.mpr ⟨hopen.auth, rfl⟩
  have hadmin : w.control.admin ≠ none := by
    intro h
    simpa [h] using hopen.admin
  rw [submitOracleResult, get_bind,
    reject_bind (by simp [hopen.paused]),
    reject_bind hadmin, bind_of_ok hauth,
    reject_bind hopen.gameId,
    bind_of_ok (orFail_ok_iff.mpr ⟨hr, rfl⟩),
    reject_bind (not_le.mpr hpos)]
  cases w.results.result id <;> rfl

/-- A vote that the limits let through is charged. -/
theorem Limits.Lets.charge (hlets : w.limits.Lets oracle env.timestamp) (responseTimeMs : UInt64)
    (f : Unit → OracleTx Unit) :
    (checkOracleRateLimit oracle 1 >>= fun _ => updateOracleMetrics oracle responseTimeMs >>= f)
      env w = f () env (w.withLimits (w.limits.submitted oracle env.timestamp responseTimeMs)) := by
  rw [bind_of_ok (a := ()) (checkOracleRateLimit_ok_iff.mpr ⟨hlets.allows, rfl⟩)]
  exact bind_of_ok (updateOracleMetrics_ok_iff.mpr ⟨hlets.active, rfl⟩)

theorem castVote_eq (hlets : w.limits.Lets oracle env.timestamp) :
    castVote oracle id vote responseTimeMs env w =
      match w.votes.oracleVote (id, oracle) with
      | some prev =>
        (do
          Tx.reject (prev = vote) .alreadySubmitted
          let _ ← slashBps oracle equivocationSlashBps : OracleTx Unit) env
          (w.withLimits (w.limits.submitted oracle env.timestamp responseTimeMs))
      | none =>
        recordVote oracle id vote env
          (w.withLimits (w.limits.submitted oracle env.timestamp responseTimeMs)) := by
  rw [castVote, hlets.charge, get_bind]
  rw [show (w.withLimits (w.limits.submitted oracle env.timestamp responseTimeMs)).votes =
    w.votes from rfl]
  cases w.votes.oracleVote (id, oracle) <;> rfl

/-! ## Inversion -/

/-- What a vote that was let in does. -/
inductive Voted (env : Env) (w : World) (oracle : Address) (matchId : ℕ)
    (vote : OracleVoteRecord) (responseTimeMs : UInt64) : World → Prop
  | late (finalized : ResultEntry) (hres : w.results.result matchId = some finalized)
      (hne : finalized.vote ≠ vote) (w' : World)
      (hslash : Slashed env w oracle minoritySlashBps w') :
      Voted env w oracle matchId vote responseTimeMs w'
  | equivocated (prev : OracleVoteRecord) (hres : w.results.result matchId = none)
      (hlets : w.limits.Lets oracle env.timestamp)
      (hprev : w.votes.oracleVote (matchId, oracle) = some prev) (hne : prev ≠ vote) (w' : World)
      (hslash : Slashed env
        (w.withLimits (w.limits.submitted oracle env.timestamp responseTimeMs))
        oracle equivocationSlashBps w') :
      Voted env w oracle matchId vote responseTimeMs w'
  | finalized (hres : w.results.result matchId = none)
      (hlets : w.limits.Lets oracle env.timestamp)
      (hnone : w.votes.oracleVote (matchId, oracle) = none)
      (hopen : (w.votes.state matchId).disputed = false)
      (hreached : w.control.threshold ≤
        (supporters vote (w.votes.state matchId).candidates ++ [oracle]).length) (w2 : World)
      (hslash : slashSubmitters (rivals vote (w.votes.state matchId).candidates) env
        (((w.withLimits (w.limits.submitted oracle env.timestamp responseTimeMs)).voted matchId
          oracle vote).withResults (w.results.finalized env matchId oracle vote
            (supporters vote (w.votes.state matchId).candidates ++ [oracle]))) = .ok () w2) :
      Voted env w oracle matchId vote responseTimeMs (w2.withVotes (w2.votes.clear matchId))
  | counted (hres : w.results.result matchId = none)
      (hlets : w.limits.Lets oracle env.timestamp)
      (hnone : w.votes.oracleVote (matchId, oracle) = none)
      (hopen : (w.votes.state matchId).disputed = false)
      (hshort : (supporters vote (w.votes.state matchId).candidates ++ [oracle]).length <
        w.control.threshold) :
      Voted env w oracle matchId vote responseTimeMs
        (((w.withLimits (w.limits.submitted oracle env.timestamp responseTimeMs)).voted matchId
          oracle vote).awaiting matchId vote
            (addVote oracle vote (w.votes.state matchId).candidates))

theorem recordVote_ok (h : recordVote oracle id vote env w = .ok u w') :
    (w.votes.state id).disputed = false := by
  simp only [recordVote, bind_ok_iff, get_ok_iff, reject_ok_iff] at h
  obtain ⟨_, _, ⟨rfl, rfl⟩, _, _, ⟨hopen, rfl⟩, -⟩ := h
  simpa using hopen

/-- A late vote against the result. -/
theorem lateVote_of_ne {finalized : ResultEntry} (hne : finalized.vote ≠ vote) :
    lateVote oracle finalized vote env w =
      (do let _ ← slashBps oracle minoritySlashBps : OracleTx Unit) env w := by
  have hconflict : ¬¬(finalized.result ≠ vote.result ∨ finalized.platform ≠ vote.platform ∨
      finalized.gameId ≠ vote.gameId) := by
    intro hsame
    push Not at hsame
    exact hne (by simp [ResultEntry.vote, hsame])
  rw [lateVote, reject_bind hconflict]

theorem lateVote_ok {finalized : ResultEntry}
    (h : lateVote oracle finalized vote env w = .ok u w') :
    finalized.vote ≠ vote ∧ Slashed env w oracle minoritySlashBps w' := by
  simp only [lateVote, bind_ok_iff, reject_ok_iff, pure_ok_iff, not_not] at h
  obtain ⟨_, _, ⟨hconflict, rfl⟩, _, _, hslash, -, rfl⟩ := h
  refine ⟨?_, slashBps_ok hslash⟩
  rintro rfl
  simp [ResultEntry.vote] at hconflict

theorem submitOracleResult_open
    (h : submitOracleResult oracle id vote.gameId vote.platform vote.result responseTimeMs
      env w = .ok u w') : VoteOpen env w oracle vote := by
  simp only [submitOracleResult, bind_ok_iff, get_ok_iff, reject_ok_iff,
    requireAuth_ok_iff, orFail_ok_iff] at h
  obtain ⟨_, _, ⟨rfl, rfl⟩, _, _, ⟨hpaused, rfl⟩, _, _, ⟨hadmin, rfl⟩, _, _, ⟨hauth, rfl⟩, _, _,
    ⟨hgame, rfl⟩, r, _, ⟨hr, rfl⟩, _, _, ⟨hpos, rfl⟩, -⟩ := h
  exact ⟨by simpa using hpaused, Option.isSome_iff_ne_none.mpr hadmin, hauth, hgame, r, hr,
    not_le.mp hpos⟩

theorem castVote_ok (hres : w.results.result id = none)
    (h : castVote oracle id vote responseTimeMs env w = .ok u w') :
    Voted env w oracle id vote responseTimeMs w' := by
  have hlets : w.limits.Lets oracle env.timestamp := by
    simp only [castVote, bind_ok_iff, checkOracleRateLimit_ok_iff, updateOracleMetrics_ok_iff] at h
    obtain ⟨_, _, ⟨hallows, rfl⟩, _, _, ⟨hactive, -⟩, -⟩ := h
    exact ⟨hallows, hactive⟩
  rw [castVote_eq hlets] at h
  cases hvote : w.votes.oracleVote (id, oracle) with
  | some prev =>
    simp only [hvote, bind_ok_iff, reject_ok_iff, pure_ok_iff] at h
    obtain ⟨_, _, ⟨hne, rfl⟩, _, _, hslash, -, rfl⟩ := h
    exact .equivocated prev hres hlets hvote hne _ (slashBps_ok hslash)
  | none =>
    simp only [hvote] at h
    have hopen := recordVote_ok h
    rcases le_or_gt w.control.threshold
      (supporters vote (w.votes.state id).candidates ++ [oracle]).length with hle | hlt
    · rw [recordVote_of_reached hopen hle] at h
      simp only [bind_ok_iff, modifyVotes_ok_iff] at h
      obtain ⟨_, w2, hslash, rfl⟩ := h
      exact .finalized hres hlets hvote hopen hle w2 hslash
    · rw [recordVote_of_short hopen hlt] at h
      cases h
      exact .counted hres hlets hvote hopen hlt

theorem submitOracleResult_ok (vote : OracleVoteRecord)
    (h : submitOracleResult oracle id vote.gameId vote.platform vote.result responseTimeMs
      env w = .ok u w') :
    VoteOpen env w oracle vote ∧ Voted env w oracle id vote responseTimeMs w' := by
  have hopen := submitOracleResult_open h
  refine ⟨hopen, ?_⟩
  rw [submitOracleResult_eq hopen] at h
  cases hres : w.results.result id with
  | some finalized =>
    simp only [hres] at h
    obtain ⟨hne, hslash⟩ := lateVote_ok h
    exact .late finalized hres hne w' hslash
  | none =>
    simp only [hres] at h
    exact castVote_ok hres h

end

/-- A call of `submitOracleResult`. -/
structure Submission where
  env : Env
  oracle : Address
  matchId : ℕ
  vote : OracleVoteRecord
  responseTimeMs : UInt64

namespace Submission

def call (s : Submission) : Call :=
  .submitOracleResult s.oracle s.matchId s.vote.gameId s.vote.platform s.vote.result
    s.responseTimeMs

def event (s : Submission) : Event := .invoke s.env s.call

/-- The state with the submission counted in the limits. -/
abbrev charged (s : Submission) (w : World) : World :=
  w.withLimits (w.limits.submitted s.oracle s.env.timestamp s.responseTimeMs)

end Submission

/-- The submission that an event is, if it is one. -/
def Event.submission : Event → Option Submission
  | .invoke env (.submitOracleResult oracle matchId gameId platform result responseTimeMs) =>
    some ⟨env, oracle, matchId, ⟨gameId, platform, result⟩, responseTimeMs⟩
  | _ => none

@[simp] theorem Submission.event_submission (s : Submission) : s.event.submission = some s := rfl

theorem Submission.voted {s : Submission} {w : World} (hc : Commits s.env s.call w) :
    VoteOpen s.env w s.oracle s.vote ∧
      Voted s.env w s.oracle s.matchId s.vote s.responseTimeMs (step w s.event) :=
  submitOracleResult_ok s.vote hc.exec_eq

section

variable {s : Submission} {w : World}

/-- A vote on a match without result returns only if the limits let it through. -/
theorem Submission.lets (hc : Commits s.env s.call w)
    (hres : w.results.result s.matchId = none) : w.limits.Lets s.oracle s.env.timestamp := by
  have hvoted := (s.voted hc).2
  generalize step w s.event = w' at hvoted
  cases hvoted with
  | late finalized hsome => cases hres.symm.trans hsome
  | equivocated _ _ hlets => exact hlets
  | finalized _ hlets => exact hlets
  | counted _ hlets => exact hlets

/-- The first vote of an oracle on a match without result is recorded. -/
theorem Submission.exec_first (hopen : VoteOpen s.env w s.oracle s.vote)
    (hlets : w.limits.Lets s.oracle s.env.timestamp) (hres : w.results.result s.matchId = none)
    (hnone : w.votes.oracleVote (s.matchId, s.oracle) = none) :
    s.call.exec s.env w = recordVote s.oracle s.matchId s.vote s.env (s.charged w) := by
  change submitOracleResult s.oracle s.matchId s.vote.gameId s.vote.platform s.vote.result
    s.responseTimeMs s.env w = _
  rw [submitOracleResult_eq hopen, hres]
  change castVote s.oracle s.matchId s.vote s.responseTimeMs s.env w = _
  rw [castVote_eq hlets, hnone]

/-- A first vote that makes the result finds the match not disputed, and slashes the rivals. -/
theorem Submission.slashes_of_reached (hc : Commits s.env s.call w)
    (hres : w.results.result s.matchId = none)
    (hnone : w.votes.oracleVote (s.matchId, s.oracle) = none)
    (hreached : w.control.threshold ≤
      (supporters s.vote (w.votes.state s.matchId).candidates ++ [s.oracle]).length) :
    (w.votes.state s.matchId).disputed = false ∧ ∃ w2,
      slashSubmitters (rivals s.vote (w.votes.state s.matchId).candidates) s.env
        (((s.charged w).voted s.matchId s.oracle s.vote).withResults
          (w.results.finalized s.env s.matchId s.oracle s.vote
            (supporters s.vote (w.votes.state s.matchId).candidates ++ [s.oracle]))) =
          .ok () w2 ∧ step w s.event = w2.withVotes (w2.votes.clear s.matchId) := by
  have hvoted := (s.voted hc).2
  generalize step w s.event = w' at hvoted
  cases hvoted with
  | late finalized hsome => cases hres.symm.trans hsome
  | equivocated prev _ hlets hprev => cases hnone.symm.trans hprev
  | finalized _ hlets _ hopen _ w2 hslash => exact ⟨hopen, w2, hslash, rfl⟩
  | counted => omega

/-- A first vote that does not make the result is counted. -/
theorem Submission.step_of_short (hc : Commits s.env s.call w)
    (hres : w.results.result s.matchId = none)
    (hnone : w.votes.oracleVote (s.matchId, s.oracle) = none)
    (hshort : (supporters s.vote (w.votes.state s.matchId).candidates ++ [s.oracle]).length <
      w.control.threshold) :
    step w s.event = ((s.charged w).voted s.matchId s.oracle s.vote).awaiting s.matchId s.vote
      (addVote s.oracle s.vote (w.votes.state s.matchId).candidates) := by
  have hvoted := (s.voted hc).2
  generalize step w s.event = w' at hvoted
  cases hvoted with
  | late finalized hsome => cases hres.symm.trans hsome
  | equivocated prev _ hlets hprev => cases hnone.symm.trans hprev
  | finalized => omega
  | counted => rfl

end

section

variable {env : Env} {w w' : World} {u : Unit} {id : ℕ} {vote : OracleVoteRecord}
  {responseTimeMs : UInt64}

/-! ## Results that the admin stores or deletes -/

/-- The results with one that was submitted. -/
def Results.stored (s : Results) (env : Env) (matchId : ℕ) (vote : OracleVoteRecord)
    (submitter : Address) (confidence : Option ℕ) : Results :=
  (s.putResult matchId
    ⟨vote.gameId, vote.platform, vote.result, env.sequence, submitter, confidence⟩).putCache
      vote.gameId vote.platform (some (vote.result, env.cacheExpiry))

/-- The results with one that the admin submitted. -/
def Results.submitted (s : Results) (env : Env) (admin : Address) (entry : BatchResultEntry) :
    Results :=
  (s.stored env entry.matchId ⟨entry.gameId, entry.platform, entry.result⟩ admin
    entry.confidence).appendSubmission admin
      ⟨entry.matchId, entry.gameId, entry.platform, entry.result, env.sequence⟩

/-- What is checked of the admin who submits. -/
structure SubmitterOpen (env : Env) (w : World) (admin : Address) : Prop where
  paused : w.control.paused = false
  admin_eq : w.control.admin = some admin
  auth : admin ∈ env.auths
  staked : ∀ r, w.stakes.registration admin = some r → 0 < r.oracleStake

theorem requireSubmitter_ok_iff {admin : Address} :
    requireSubmitter env w = .ok admin w' ↔ SubmitterOpen env w admin ∧ w' = w := by
  constructor
  · intro h
    simp only [requireSubmitter, bind_ok_iff, get_ok_iff, reject_ok_iff,
      requireAdmin_ok_iff, pure_ok_iff] at h
    obtain ⟨_, _, ⟨rfl, rfl⟩, _, _, ⟨hpaused, rfl⟩, _, _, ⟨hadmin, hauth, rfl⟩, _, _,
      ⟨hstake, rfl⟩, rfl, rfl⟩ := h
    refine ⟨⟨by simpa using hpaused, hadmin, hauth, fun r hr => ?_⟩, rfl⟩
    simpa [hr] using hstake
  · rintro ⟨hopen, rfl⟩
    have hadmin : requireAdmin env w' = .ok admin w' :=
      requireAdmin_ok_iff.mpr ⟨hopen.admin_eq, hopen.auth, rfl⟩
    have hstaked : ¬(w'.stakes.registration admin).any (fun r => r.oracleStake ≤ 0) = true := by
      cases hr : w'.stakes.registration admin with
      | none => simp
      | some r => simpa using hopen.staked r hr
    rw [requireSubmitter, get_bind,
      reject_bind (by simp [hopen.paused]), bind_of_ok hadmin,
      reject_bind hstaked]
    rfl

theorem submitResult_ok_iff {entry : BatchResultEntry} :
    submitResult entry.matchId entry.gameId entry.platform entry.result responseTimeMs
        entry.confidence env w = .ok u w' ↔
      ∃ admin, SubmitterOpen env w admin ∧ w.limits.Lets admin env.timestamp ∧
        w.results.result entry.matchId = none ∧ entry.gameId ≠ [] ∧
        w' = (w.withLimits (w.limits.submitted admin env.timestamp responseTimeMs)).withResults
          (w.results.submitted env admin entry) := by
  constructor
  · intro h
    simp only [submitResult, bind_ok_iff, requireSubmitter_ok_iff, checkOracleRateLimit_ok_iff,
      updateOracleMetrics_ok_iff, get_ok_iff, reject_ok_iff] at h
    obtain ⟨admin, _, ⟨hopen, rfl⟩, _, _, ⟨hallows, rfl⟩, _, _, ⟨hactive, rfl⟩, _, _,
      ⟨rfl, rfl⟩, _, _, ⟨hnone, rfl⟩, _, _, ⟨hgame, rfl⟩, _, _, hstore, happend⟩ := h
    cases hstore
    cases happend
    exact ⟨admin, hopen, ⟨hallows, hactive⟩, by simpa using hnone, hgame, rfl⟩
  · rintro ⟨admin, hopen, hlets, hnone, hgame, rfl⟩
    have hfree : ¬((w.withLimits (w.limits.submitted admin env.timestamp
        responseTimeMs)).results.result entry.matchId).isSome = true := by
      simp [hnone]
    rw [submitResult, bind_of_ok (requireSubmitter_ok_iff.mpr ⟨hopen, rfl⟩),
      hlets.charge, get_bind, reject_bind hfree, reject_bind hgame]
    rfl

theorem checkBatch_eq_none_iff {results : ℕ → Option ResultEntry} :
    ∀ {entries : List BatchResultEntry}, checkBatch results entries = none ↔
      (entries.map BatchResultEntry.matchId).Nodup ∧
        ∀ entry ∈ entries, entry.gameId ≠ [] ∧ results entry.matchId = none
  | [] => by simp [checkBatch]
  | entry :: rest => by
    have ih : checkBatch results rest = none ↔ (rest.map BatchResultEntry.matchId).Nodup ∧
        ∀ entry ∈ rest, entry.gameId ≠ [] ∧ results entry.matchId = none :=
      checkBatch_eq_none_iff
    by_cases hgame : entry.gameId = []
    · simp [checkBatch, hgame]
    · by_cases hdup : rest.any fun e => e.matchId = entry.matchId
      · have hmem : entry.matchId ∈ rest.map BatchResultEntry.matchId := by
          simpa using hdup
        simp [checkBatch, hgame, hdup, hmem]
      · have hmem : entry.matchId ∉ rest.map BatchResultEntry.matchId := by
          simpa using hdup
        cases hres : results entry.matchId with
        | some => simp [checkBatch, hgame, hdup, hres]
        | none =>
          rw [checkBatch, if_neg hgame, if_neg hdup, hres, if_neg (by simp), ih, map_cons,
            nodup_cons, and_iff_right hmem, forall_mem_cons]
          simp [hgame, hres]

/-- What is checked of a batch. -/
structure BatchOpen (env : Env) (w : World) (entries : List BatchResultEntry)
    (admin : Address) : Prop extends SubmitterOpen env w admin where
  size : entries.length ≤ maxBatchSize
  allows : w.limits.Allows admin entries.length env.timestamp
  check : checkBatch w.results.result entries = none

/-- The state with a batch stored. -/
def World.batched (w : World) (env : Env) (admin : Address) (entries : List BatchResultEntry) :
    World :=
  (w.withLimits (w.limits.counted admin entries.length env.timestamp)).withResults
    (entries.foldl (fun s entry => s.submitted env admin entry) w.results)

theorem commitEntries_eq (admin : Address) (entries : List BatchResultEntry) (w : World) :
    Tx.forEach (commitEntry admin) entries env w = .ok () (w.withResults
      (entries.foldl (fun s entry => s.submitted env admin entry) w.results)) := by
  have hcommit (entry : BatchResultEntry) (w : World) : ∃ b, commitEntry admin entry env w =
      .ok b (w.withResults (w.results.submitted env admin entry)) := ⟨(), rfl⟩
  have hfold (l : List BatchResultEntry) (w : World) :
      l.foldl (fun w entry => w.withResults (w.results.submitted env admin entry)) w =
        w.withResults (l.foldl (fun s entry => s.submitted env admin entry) w.results) := by
    induction l generalizing w with
    | nil => rfl
    | cons entry l ih => exact ih _
  rw [forEach_of_ok hcommit, hfold]

theorem submitBatchResults_ok_iff {entries : List BatchResultEntry} :
    submitBatchResults entries env w = .ok u w' ↔
      ∃ admin, BatchOpen env w entries admin ∧ w' = w.batched env admin entries := by
  constructor
  · intro h
    simp only [submitBatchResults, bind_ok_iff, requireSubmitter_ok_iff, reject_ok_iff,
      checkOracleRateLimit_ok_iff, get_ok_iff] at h
    obtain ⟨admin, _, ⟨hopen, rfl⟩, _, w, ⟨hsize, rfl⟩, _, _, ⟨hallows, rfl⟩, _, _,
      ⟨rfl, rfl⟩, h⟩ := h
    cases hcheck : checkBatch w.results.result entries with
    | some => simp [hcheck] at h
    | none =>
      simp only [World.withLimits_results, hcheck, commitEntries_eq] at h
      cases h
      exact ⟨admin, ⟨hopen, not_lt.mp hsize, hallows, hcheck⟩, rfl⟩
  · rintro ⟨admin, hopen, rfl⟩
    have hlimit : checkOracleRateLimit admin entries.length env w =
        .ok () (w.withLimits (w.limits.counted admin entries.length env.timestamp)) :=
      checkOracleRateLimit_ok_iff.mpr ⟨hopen.allows, rfl⟩
    rw [submitBatchResults,
      bind_of_ok (requireSubmitter_ok_iff.mpr ⟨hopen.toSubmitterOpen, rfl⟩),
      reject_bind (not_lt.mpr hopen.size), bind_of_ok hlimit,
      get_bind]
    simp only [World.withLimits_results, hopen.check, commitEntries_eq]
    rfl

theorem resolveDisputedMatch_ok (vote : OracleVoteRecord)
    (h : resolveDisputedMatch id vote.gameId vote.platform vote.result env w = .ok u w') :
    ∃ admin state w2, w.control.admin = some admin ∧ w.results.result id = none ∧
      w.votes.matchVotes id = some state ∧ state.disputed = true ∧
      slashSubmitters (state.candidates.filter fun c => !c.agrees vote) env w = .ok () w2 ∧
      w' = (w2.withResults (w2.results.stored env id vote admin none)).withVotes
        (w2.votes.clear id) := by
  simp only [resolveDisputedMatch, bind_ok_iff, requireAdmin_ok_iff, get_ok_iff,
    reject_ok_iff, orFail_ok_iff, modifyVotes_ok_iff] at h
  obtain ⟨admin, _, ⟨hadmin, -, rfl⟩, _, _, ⟨rfl, rfl⟩, _, _, ⟨hnone, rfl⟩, state, _,
    ⟨hstate, rfl⟩, _, _, ⟨hdisputed, rfl⟩, _, w2, hslash, _, _, hstore, rfl⟩ := h
  cases hstore
  exact ⟨admin, state, w2, hadmin, by simpa using hnone, hstate, by simpa using hdisputed, hslash,
    rfl⟩

/-- The results without the one of a match. -/
def Results.deleted (s : Results) (matchId : ℕ) (entry : ResultEntry) : Results :=
  { s.putCache entry.gameId entry.platform none with
    result := update s.result matchId none }

theorem deleteResult_ok (h : deleteResult id env w = .ok u w') :
    ∃ admin entry, w.control.paused = false ∧ w.control.admin = some admin ∧
      w.results.result id = some entry ∧
      w' = w.withResults (w.results.deleted id entry) := by
  simp only [deleteResult, bind_ok_iff, get_ok_iff, reject_ok_iff, requireAdmin_ok_iff,
    orFail_ok_iff, modifyResults_ok_iff] at h
  obtain ⟨_, _, ⟨rfl, rfl⟩, _, _, ⟨hpaused, rfl⟩, admin, _, ⟨hadmin, -, rfl⟩, entry, _,
    ⟨hentry, rfl⟩, _, _, rfl, rfl⟩ := h
  exact ⟨admin, entry, by simpa using hpaused, hadmin, hentry, rfl⟩

/-! ## Swaps -/

/-- What the stored rates give for `amountIn` of a token. -/
def World.price (w : World) (tokenIn tokenOut : Address) (amountIn : ℤ) : Option ℤ :=
  match w.rate (tokenIn, tokenOut) with
  | some entry => some ((amountIn * entry.rate).tdiv rateScale)
  | none => (w.rate (tokenOut, tokenIn)).map fun entry => (amountIn * rateScale).tdiv entry.rate

theorem convertAmount_ok {amount factor divisor minAmountOut out : ℤ}
    (h : convertAmount amount factor divisor minAmountOut env w = .ok out w') :
    out = (amount * factor).tdiv divisor ∧ w' = w := by
  simp only [convertAmount, checkedMul, checkedDiv, bind_ok_iff, orFail_ok_iff,
    toI128_eq_some, Option.ite_none_left_eq_some, reject_ok_iff, pure_ok_iff] at h
  obtain ⟨_, _, ⟨⟨rfl, -⟩, rfl⟩, _, _, ⟨⟨-, rfl, -⟩, rfl⟩, _, _, ⟨-, rfl⟩, rfl, rfl⟩ := h
  exact ⟨rfl, rfl⟩

theorem quote_ok {tokenIn tokenOut : Address} {amountIn minAmountOut out : ℤ}
    (h : quote tokenIn tokenOut amountIn minAmountOut env w = .ok out w') :
    w.price tokenIn tokenOut amountIn = some out ∧ w' = w := by
  simp only [quote, bind_ok_iff, ask_ok_iff, get_ok_iff] at h
  obtain ⟨_, _, ⟨rfl, rfl⟩, _, w, ⟨rfl, rfl⟩, h⟩ := h
  unfold World.price
  cases hrate : w.rate (tokenIn, tokenOut) with
  | some =>
    simp only [hrate, bind_ok_iff, reject_ok_iff] at h
    obtain ⟨_, _, ⟨-, rfl⟩, h⟩ := h
    obtain ⟨rfl, rfl⟩ := convertAmount_ok h
    exact ⟨rfl, rfl⟩
  | none =>
    simp only [hrate] at h
    cases hrev : w.rate (tokenOut, tokenIn) with
    | some =>
      simp only [hrev, bind_ok_iff, reject_ok_iff] at h
      obtain ⟨_, _, ⟨-, rfl⟩, h⟩ := h
      obtain ⟨rfl, rfl⟩ := convertAmount_ok h
      exact ⟨rfl, rfl⟩
    | none => simp [hrev] at h

theorem swap_ok {caller tokenIn tokenOut recipient : Address} {amountIn minAmountOut : ℤ}
    (h : swap caller tokenIn tokenOut amountIn minAmountOut recipient env w = .ok u w') :
    caller ≠ .self ∧ ∃ amountOut l1 l2, w.price tokenIn tokenOut amountIn = some amountOut ∧
      env.transfer w.ledger tokenIn caller .self amountIn = some l1 ∧
      env.transfer l1 tokenOut .self recipient amountOut = some l2 ∧
      w' = (w.withTransfer ⟨tokenIn, caller, .self, amountIn, .swapIn⟩ l1).withTransfer
        ⟨tokenOut, .self, recipient, amountOut, .swapOut⟩ l2 := by
  simp only [swap, bind_ok_iff, requireAuth_ok_iff, reject_ok_iff, transfer_ok_iff] at h
  obtain ⟨_, _, ⟨hauth, rfl⟩, _, _, ⟨-, rfl⟩, amountOut, _, hquote, _, _, ⟨l1, h1, rfl⟩, l2, h2,
    rfl⟩ := h
  obtain ⟨hprice, rfl⟩ := quote_ok hquote
  refine ⟨?_, amountOut, l1, l2, hprice, h1, h2, rfl⟩
  rintro rfl
  exact env.self_notMem hauth

end

end Checkmate.Oracle

import Checkmate.Oracle.Accounts
import Checkmate.Oracle.Ballots

/-!
# Votes from one round to the next

The vote of an oracle on a match is recorded once and never removed (`run_vote_persists`). Two
things follow.

The record is compared with a later vote only while the match has no result. Afterwards a
vote is compared with the result, so an oracle that has lost the vote and sends it again is
slashed again. `resubmission_harmless_iff` : sending a recorded vote again does nothing,
unless the match has another result by then and a slash goes through.

The record outlives the result. When the admin deletes a result, the votes of the next round
are compared with the records of the last, and an oracle that corrects its vote loses its
stake. `equivocation_real` : in runs that delete only results of matches without recorded
votes, an oracle is slashed for two votes only if it cast two different ones in one round.
-/

namespace Checkmate.Oracle

open Function

/-! ## Sending a vote again -/

/-- No stake gets smaller, and the tallies and the results stay as they are. -/
structure Harmless (w : World) (e : Event) : Prop where
  stake : ∀ a, w.stakes.stakeOf a ≤ (step w e).stakes.stakeOf a
  tally : (step w e).votes.matchVotes = w.votes.matchVotes
  result : (step w e).results.result = w.results.result

/-- The vote is let in, the match has another result, and the slash for a vote against it takes
something and is carried out. -/
structure LateSlash (s : Submission) (w : World) : Prop where
  isOpen : VoteOpen s.env w s.oracle s.vote
  conflict : ∃ entry, w.results.result s.matchId = some entry ∧ entry.vote ≠ s.vote
  slash : ∃ r admin, w.stakes.registration s.oracle = some r ∧ r.Fits minoritySlashBps ∧
    0 < r.share minoritySlashBps ∧ w.control.admin = some admin ∧
    (s.env.transfer w.ledger r.token .self admin (r.share minoritySlashBps)).isSome = true

section

variable {w : World} {s : Submission}

theorem LateSlash.not_harmless (h : LateSlash s w) : ¬Harmless w s.event := by
  obtain ⟨entry, hres, hne⟩ := h.conflict
  obtain ⟨r, admin, hr, hfits, hpos, hadmin, hsome⟩ := h.slash
  obtain ⟨l, hl⟩ := Option.isSome_iff_exists.mp hsome
  have hexec : s.call.exec s.env w = .ok () ((w.withStakes (w.stakes.deduct s.oracle r
      (r.share minoritySlashBps))).withTransfer
        ⟨r.token, .self, admin, r.share minoritySlashBps, .slash s.oracle minoritySlashBps⟩ l) := by
    change submitOracleResult s.oracle s.matchId s.vote.gameId s.vote.platform s.vote.result
      s.responseTimeMs s.env w = _
    rw [submitOracleResult_eq h.isOpen, hres]
    change lateVote s.oracle entry s.vote s.env w = _
    rw [lateVote_of_ne hne, Tx.bind_of_ok (slashBps_of_sent hr hfits hpos hadmin hl)]
    rfl
  intro hharmless
  have hstake := hharmless.stake s.oracle
  have hstep : step w s.event = _ := invoke_of_ok hexec
  rw [hstep] at hstake
  change _ ≤ (w.stakes.deduct s.oracle r (r.share minoritySlashBps)).stakeOf s.oracle at hstake
  rw [Stakes.stakeOf_deduct hr, if_pos rfl] at hstake
  omega

theorem Harmless.of_eq {e : Event} (h : step w e = w) : Harmless w e := by
  constructor <;> simp [h]

/-- A recorded vote, sent again, does nothing or is slashed as a late vote. -/
theorem harmless_of_recorded (hvote : w.votes.oracleVote (s.matchId, s.oracle) = some s.vote)
    (hlate : ¬LateSlash s w) : Harmless w s.event := by
  by_cases hc : Commits s.env s.call w
  · obtain ⟨hopen, hvoted⟩ := s.voted hc
    generalize hw' : step w s.event = w' at hvoted
    cases hvoted with
    | late finalized hres hne _ hslash =>
      cases hslash with
      | spared => exact .of_eq hw'
      | kept r hr hpos hle hadmin => simpa [hadmin] using hopen.admin
      | sent r admin l hr hpos hle hadmin hl hfits =>
        exact absurd ⟨hopen, ⟨finalized, hres, hne⟩, r, admin, hr, hfits, hpos, hadmin,
          by simp [hl]⟩ hlate
    | equivocated prev hres hlets hprev hne =>
      exact absurd (Option.mem_unique hprev hvote) hne
    | finalized hres hlets hnone | counted hres hlets hnone => cases hnone.symm.trans hvote
  · exact .of_eq (step_of_not_commits hc)

/-- An oracle has cast a vote, and sends it again at any later moment. No stake, tally or
result is affected if and only if it is not slashed for a late vote. -/
theorem resubmission_harmless_iff {ledger : Ledger Address} {pre mid : List Event} (env : Env)
    (responseTimeMs : UInt64)
    (hcast : (run step (.deployed ledger) (pre ++ [s.event])).votes.oracleVote
      (s.matchId, s.oracle) = some s.vote) :
    Harmless (run step (.deployed ledger) (pre ++ [s.event] ++ mid))
        { s with env, responseTimeMs }.event ↔ ¬LateSlash { s with env, responseTimeMs }
        (run step (.deployed ledger) (pre ++ [s.event] ++ mid)) := by
  have hvote := run_vote_persists hcast mid
  rw [← run_append] at hvote
  exact ⟨fun hharmless hlate => hlate.not_harmless hharmless,
    fun hlate => harmless_of_recorded (s := { s with env, responseTimeMs }) hvote hlate⟩

end

theorem resubmission_harmless_iff_threeOracles : (run step (.deployed plainLedger)
        (threeOracles ++ [(voteOf 2 .player1).event])).votes.oracleVote (0, .ext 2) =
          some (voteOf 2 .player1).vote ∧ Harmless (run step (.deployed plainLedger)
        (threeOracles ++ [(voteOf 2 .player1).event] ++ [])) (voteOf 2 .player1).event := by
  have hcast : (run step (.deployed plainLedger)
      (threeOracles ++ [(voteOf 2 .player1).event])).votes.oracleVote (0, .ext 2) =
        some (voteOf 2 .player1).vote := by decide +kernel
  refine ⟨hcast, (resubmission_harmless_iff _ _ hcast).mpr fun hlate => ?_⟩
  obtain ⟨entry, hentry, -⟩ := hlate.conflict
  have hnone : (run step (.deployed plainLedger)
      (threeOracles ++ [(voteOf 2 .player1).event] ++ [])).results.result 0 = none := by
    decide +kernel
  cases hnone.symm.trans hentry

/-- The two others vote for another candidate, and the oracle sends its vote again : 10 of its
stake were taken with the result, and 9 more are taken now. -/
theorem resubmission_slashed :
    let w := run step (.deployed plainLedger) (threeOracles ++ [(voteOf 2 .player1).event] ++
      [(voteOf 3 .player2).event, (voteOf 4 .player2).event])
    w.votes.oracleVote (0, .ext 2) = some (voteOf 2 .player1).vote ∧
      w.stakes.stakeOf (.ext 2) = 90 ∧
      (step w (voteOf 2 .player1).event).stakes.stakeOf (.ext 2) = 81 ∧
      ¬Harmless w (voteOf 2 .player1).event := by
  intro w
  have hafter : (step w (voteOf 2 .player1).event).stakes.stakeOf (.ext 2) = 81 := by
    decide +kernel
  have hbefore : w.stakes.stakeOf (.ext 2) = 90 := by decide +kernel
  refine ⟨by decide +kernel, hbefore, hafter, fun h => ?_⟩
  have hstake := h.stake (.ext 2)
  rw [hafter, hbefore] at hstake
  omega

/-! ## Rounds -/

/-- A vote of the oracle that returns. -/
def Casts (matchId : ℕ) (vote : OracleVoteRecord) (oracle : Address) (w : World) (e : Event) :
    Prop :=
  ∃ s ∈ e.submission, s.oracle = oracle ∧ s.matchId = matchId ∧ s.vote = vote ∧
    Commits s.env s.call w

/-- The match that a call of `deleteResult` is about. -/
def Event.deletion : Event → Option (Env × ℕ)
  | .invoke env (.deleteResult matchId) => some (env, matchId)
  | _ => none

/-- The result of the match is deleted. -/
def Deletes (matchId : ℕ) (w : World) (e : Event) : Prop :=
  ∃ d ∈ e.deletion, d.2 = matchId ∧ Commits d.1 (.deleteResult d.2) w

instance (matchId : ℕ) (vote : OracleVoteRecord) (oracle : Address) :
    DecidableRel (Casts matchId vote oracle) := fun _ _ =>
  inferInstanceAs (Decidable (∃ s ∈ _, _))

instance (matchId : ℕ) : DecidableRel (Deletes matchId) := fun _ _ =>
  inferInstanceAs (Decidable (∃ d ∈ _, _))

/-- The oracle cast the vote, and the result of the match was not deleted since. -/
def CastInRound (ledger : Ledger Address) (es : List Event) (matchId : ℕ)
    (vote : OracleVoteRecord) (oracle : Address) : Prop :=
  Since step (Casts matchId vote oracle) (fun w e => ¬Deletes matchId w e) (.deployed ledger) es

/-- `deleteResult` finds no recorded vote on the match. -/
def CleanDelete (w : World) : Event → Prop
  | .invoke _ (.deleteResult matchId) =>
    ∀ oracle, w.votes.oracleVote (matchId, oracle) = none
  | _ => True

section

variable {ledger : Ledger Address} {es : List Event} {e : Event} {w : World} {id : ℕ}
  {oracle : Address} {vote : OracleVoteRecord}

theorem CleanDelete.not_deletes (h : CleanDelete w e)
    (hvote : (w.ballot id).votes oracle = some vote) : ¬Deletes id w e := by
  rintro ⟨d, hd, rfl, -⟩
  have he : e = .invoke d.1 (.deleteResult d.2) := by
    unfold Event.deletion at hd
    split at hd
    · obtain rfl := Option.some.inj hd
      rfl
    · exact absurd hd (by simp)
  subst he
  exact absurd ((h oracle).symm.trans hvote) (by simp)

/-- The recorded votes are of the current round. -/
theorem castInRound_of_recorded (h : Along step CleanDelete (.deployed ledger) es) :
    ∀ id oracle vote, ((run step (.deployed ledger) es).ballot id).votes oracle = some vote →
        CastInRound ledger es id vote oracle := by
  refine history_inv (I := fun es => ∀ id oracle vote,
    ((run step (.deployed ledger) es).ballot id).votes oracle = some vote →
      CastInRound ledger es id vote oracle) ?_
    (fun es e ih he id oracle vote hvote => ?_) h
  · intro id oracle vote hvote
    simp [World.ballot, World.deployed] at hvote
  · have hold (hvote : ((run step (.deployed ledger) es).ballot id).votes oracle =
        some vote) : CastInRound ledger (es ++ [e]) id vote oracle :=
      (ih id oracle vote hvote).later (he.not_deletes hvote)
    have hnew {s : Submission} {votes : Address → Option OracleVoteRecord}
        (hs : e = s.event) (hid : s.matchId = id)
        (hc : Commits s.env s.call (run step (.deployed ledger) es))
        (hvotes : votes = update ((run step (.deployed ledger) es).ballot id).votes
          s.oracle (some s.vote)) (hvote : votes oracle = some vote) :
        CastInRound ledger (es ++ [e]) id vote oracle := by
      subst hs hid hvotes
      by_cases ho : oracle = s.oracle
      · subst ho
        rw [update_self] at hvote
        obtain rfl := Option.some.inj hvote
        exact .now ⟨s, rfl, rfl, rfl, rfl, hc⟩
      · rw [update_of_ne ho] at hvote
        exact hold hvote
    have hstep := step_ballot (run step (.deployed ledger) es) e id
    rw [run_snoc] at hvote
    generalize (step (run step (.deployed ledger) es) e).ballot id = b at hvote hstep
    cases hstep with
    | kept | stored | resolved | deleted => exact hold hvote
    | counted s hs hid hc | finalized s hs hid hc => exact hnew hs hid hc rfl hvote

/-- A slash for two votes is made for a second, different vote. -/
theorem equivocation_of_movement {t : Transfer} (ht : t ∈ movements w e)
    (hcause : t.cause = .slash oracle equivocationSlashBps) :
    ∃ s : Submission, e = s.event ∧ s.oracle = oracle ∧
      ∃ prev, w.votes.oracleVote (s.matchId, oracle) = some prev ∧ prev ≠ s.vote := by
  obtain ⟨env, call, rfl, hexplains⟩ := step_movements ht
  simp only [Explains, hcause] at hexplains
  obtain ⟨-, hminority | ⟨-, s, rfl, horacle, -, hprev⟩⟩ := hexplains
  · exact absurd hminority (by decide)
  · exact ⟨{ s with env }, rfl, horacle, hprev⟩

/-- The first vote on a match without tally is counted and slashes nobody. -/
theorem first_vote {s : Submission} (hopen : VoteOpen s.env w s.oracle s.vote)
    (hlets : w.limits.Lets s.oracle s.env.timestamp) (hres : w.results.result s.matchId = none)
    (hnone : w.votes.oracleVote (s.matchId, s.oracle) = none)
    (hstate : w.votes.matchVotes s.matchId = none) :
    Commits s.env s.call w ∧ (step w s.event).stakes = w.stakes ∧
      ((∃ entry, (step w s.event).results.result s.matchId = some entry ∧ entry.vote = s.vote) ∨
        s.oracle ∈ supporters s.vote ((step w s.event).votes.state s.matchId).candidates) := by
  have hempty : (s.charged w).votes.state s.matchId = ⟨[], false⟩ := by
    simp [Votes.state, hstate]
  have hexec := s.exec_first hopen hlets hres hnone
  have hdisputed : ((s.charged w).votes.state s.matchId).disputed = false := by rw [hempty]
  rcases le_or_gt (s.charged w).control.threshold
    (supporters s.vote ((s.charged w).votes.state s.matchId).candidates ++ [s.oracle]).length with
    hle | hlt
  · rw [recordVote_of_reached hdisputed hle, hempty] at hexec
    have hc : Commits s.env s.call w := ⟨_, hexec⟩
    have hstep : step w s.event = _ := invoke_of_ok hexec
    refine ⟨hc, by rw [hstep]; rfl, .inl ⟨_, by
      rw [hstep]
      change (Results.finalized _ _ _ _ _ _).result _ = _
      rw [Results.finalized_result, update_self], rfl⟩⟩
  · rw [recordVote_of_short hdisputed hlt, hempty] at hexec
    have hc : Commits s.env s.call w := ⟨_, hexec⟩
    have hstep : step w s.event = _ := invoke_of_ok hexec
    refine ⟨hc, by rw [hstep]; rfl, .inr ?_⟩
    rw [hstep, ← World.ballot_candidates, s.awaiting_ballot, if_pos rfl]
    simp [Ballot.candidates, addVote, supporters, CandidateTally.agrees]

/-- In a run that deletes only results of matches without recorded votes : an oracle is slashed
for two votes only if it cast another vote in the same round. Right after a deletion every
oracle that is let in can vote, its vote is counted, and nobody is slashed. And an oracle that
has cast no other vote in the round keeps its stake when it votes on a match without result. -/
theorem equivocation_real (h : Along step CleanDelete (.deployed ledger) es) :
    let w := run step (.deployed ledger) es
    (∀ e oracle, ∀ t ∈ movements w e, t.cause = .slash oracle equivocationSlashBps →
      ∃ s : Submission, ∃ vote, e = s.event ∧ s.oracle = oracle ∧ vote ≠ s.vote ∧
        CastInRound ledger es s.matchId vote oracle) ∧
    (∀ (env : Env) (s : Submission), CleanDelete w (.invoke env (.deleteResult s.matchId)) →
      Commits env (.deleteResult s.matchId) w →
        let w' := step w (.invoke env (.deleteResult s.matchId))
        VoteOpen s.env w' s.oracle s.vote → w'.limits.Lets s.oracle s.env.timestamp →
          Commits s.env s.call w' ∧ (step w' s.event).stakes = w'.stakes ∧
            ((∃ entry, (step w' s.event).results.result s.matchId = some entry ∧
              entry.vote = s.vote) ∨
              s.oracle ∈ supporters s.vote ((step w' s.event).votes.state s.matchId).candidates)) ∧
    (∀ s : Submission, w.results.result s.matchId = none →
      (∀ vote, vote ≠ s.vote → ¬CastInRound ledger es s.matchId vote s.oracle) →
        (step w s.event).stakes.registration s.oracle = w.stakes.registration s.oracle) := by
  intro w
  have hround := castInRound_of_recorded h
  refine ⟨fun e oracle t ht hcause => ?_, fun env s hclean hc => ?_, fun s hres hother => ?_⟩
  · obtain ⟨s, he, ho, prev, hprev, hne⟩ := equivocation_of_movement ht hcause
    exact ⟨s, prev, he, ho, hne, hround s.matchId oracle prev hprev⟩
  · intro w' hopen hlets
    obtain ⟨admin, entry, -, -, -, hw'⟩ := deleteResult_ok hc.exec_eq
    have hdeleted : w' = w.withResults (w.results.deleted s.matchId entry) := hw'
    have hstate : w.votes.matchVotes s.matchId = none :=
      (run_tally ledger es s.matchId).state_none hclean
    refine first_vote hopen hlets ?_ ?_ ?_
    · rw [hdeleted]
      exact update_self ..
    · rw [hdeleted]
      exact hclean s.oracle
    · rw [hdeleted]
      exact hstate
  · by_cases hc : Commits s.env s.call w
    · have hvoted := (s.voted hc).2
      generalize step w s.event = w' at hvoted
      cases hvoted with
      | late finalized hsome => cases hres.symm.trans hsome
      | equivocated prev _ hlets hprev hne =>
        exact absurd (hround s.matchId s.oracle prev hprev) (hother prev hne)
      | finalized _ hlets hnone hdisputed hreached w2 hslash =>
        -- the oracle has no recorded vote, so it is not among those that are slashed
        have hnew : s.oracle ∉ (rivals s.vote (w.votes.state s.matchId).candidates).flatMap
            CandidateTally.submitters := by
          intro hmem
          obtain ⟨c, hc, ha⟩ := List.mem_flatMap.mp hmem
          have hc' := mem_of_mem_rivals hc
          rw [← World.ballot_candidates] at hc'
          have hvote := (run_tally ledger es s.matchId).recorded c hc' s.oracle ha
          cases hnone.symm.trans hvote
        have hkept := slashSubmitters_registration hslash hnew
        exact hkept
      | counted => rfl
    · rw [show step w s.event = w from step_of_not_commits hc]

end

/-- Oracle 2 alone makes the result of match 0. -/
def soleRun : List Event :=
  [.invoke (.plain [] 0 0) (.initializeOracle (.ext 1)),
    .invoke (.plain [2] 0 0) (.registerOracleWithStake (.ext 2) 100 (.ext 9)),
    (voteOf 2 .player1).event]

theorem equivocation_real_soleRun : Along step CleanDelete (.deployed plainLedger) soleRun ∧
      ∀ s : Submission, (run step (.deployed plainLedger) soleRun).results.result s.matchId = none →
        (∀ vote, vote ≠ s.vote → ¬CastInRound plainLedger soleRun s.matchId vote s.oracle) →
          (step (run step (.deployed plainLedger) soleRun) s.event).stakes.registration s.oracle =
            (run step (.deployed plainLedger) soleRun).stakes.registration s.oracle := by
  have hal : Along step CleanDelete (.deployed plainLedger) soleRun :=
    ⟨trivial, trivial, trivial, trivial⟩
  exact ⟨hal, (equivocation_real hal).2.2⟩

/-- After the result is deleted, its corrected vote costs it all of its stake, though it has not
voted in the new round. -/
theorem correction_slashed :
    let es := soleRun ++ [.invoke (.plain [1] 0 0) (.deleteResult 0)]
    let w := run step (.deployed plainLedger) es
    (∃ t ∈ movements w (voteOf 2 .player2).event,
      t.cause = .slash (.ext 2) equivocationSlashBps ∧ t.amount = 100) ∧
      w.stakes.stakeOf (.ext 2) = 100 ∧
      ∀ vote, ¬CastInRound plainLedger es 0 vote (.ext 2) := by
  intro es w
  refine ⟨⟨⟨.ext 9, .self, .ext 1, 100, .slash (.ext 2) equivocationSlashBps⟩, by decide +kernel,
    rfl, rfl⟩, by decide +kernel, fun vote hcast => ?_⟩
  have hdeletes : Deletes 0 (run step (.deployed plainLedger) soleRun)
      (.invoke (.plain [1] 0 0) (.deleteResult 0)) := by decide +kernel
  rcases since_snoc_iff.mp hcast with ⟨s, hs, -⟩ | ⟨-, hnot⟩
  · exact absurd hs (by simp [Event.submission])
  · exact hnot hdeletes

end Checkmate.Oracle

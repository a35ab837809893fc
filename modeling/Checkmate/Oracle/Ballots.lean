import Mathlib.Data.List.Nodup
import Checkmate.Host.Since
import Checkmate.Oracle.Frames
import Checkmate.Oracle.Outcomes

/-!
# The ballot of a match

The ballot of a match is its result, its tally, the cached count of the oracles that may still
vote, and the votes recorded for each oracle. `BallotStep` lists what one event can do to it :
an oracle's first vote is counted or makes the result, the admin stores, decides or deletes
the result. Nothing else changes it (`step_ballot`).

In every reachable tally an oracle stands at most once, and for the candidate that is
recorded as its vote (`run_tally`). The record is never removed (`run_vote_persists`).
-/

namespace Checkmate.Oracle

open Function List World Results CandidateTally

/-! ## The ballot -/

structure Ballot where
  result : Option ResultEntry
  state : Option ConsensusState
  tally : Option VoteTally
  votes : Address → Option OracleVoteRecord

def World.ballot (w : World) (matchId : ℕ) : Ballot where
  result := w.results.result matchId
  state := w.votes.matchVotes matchId
  tally := w.votes.voteTally matchId
  votes a := w.votes.oracleVote (matchId, a)

/-- What an event can do to the ballot of a match. -/
inductive BallotStep (w : World) (matchId : ℕ) (e : Event) : Ballot → Prop
  | kept : BallotStep w matchId e (w.ballot matchId)
  | stored (entry : ResultEntry) (he : e.submission = none)
      (hnone : w.results.result matchId = none) :
      BallotStep w matchId e { w.ballot matchId with result := some entry }
  | resolved (entry : ResultEntry) (he : e.submission = none)
      (hnone : w.results.result matchId = none) :
      BallotStep w matchId e
        { w.ballot matchId with result := some entry, state := none, tally := none }
  | deleted (env : Env) (he : e = .invoke env (.deleteResult matchId))
      (hc : Commits env (.deleteResult matchId) w) :
      BallotStep w matchId e { w.ballot matchId with result := none }
  | counted (s : Submission) (he : e = s.event) (hid : s.matchId = matchId)
      (hc : Commits s.env s.call w) (hopen : VoteOpen s.env w s.oracle s.vote)
      (hres : w.results.result matchId = none)
      (hnone : w.votes.oracleVote (matchId, s.oracle) = none)
      (hshort : (supporters s.vote (w.votes.state matchId).candidates ++ [s.oracle]).length <
        w.control.threshold) (remaining : ℕ)
      (hremaining : remaining =
        ((s.charged w).voted matchId s.oracle s.vote).remainingEligible matchId)
      (hdisputed : (w.votes.state matchId).disputed = false) :
      BallotStep w matchId e
        ⟨none, some ⟨addVote s.oracle s.vote (w.votes.state matchId).candidates,
            !stillPossible w.control.threshold remaining
              (addVote s.oracle s.vote (w.votes.state matchId).candidates)⟩,
          some ⟨remaining, w.stakes.oracleEligibilityVersion⟩,
          update (w.ballot matchId).votes s.oracle (some s.vote)⟩
  | finalized (s : Submission) (he : e = s.event) (hid : s.matchId = matchId)
      (hc : Commits s.env s.call w) (hopen : VoteOpen s.env w s.oracle s.vote)
      (hres : w.results.result matchId = none)
      (hnone : w.votes.oracleVote (matchId, s.oracle) = none)
      (hreached : w.control.threshold ≤
        (supporters s.vote (w.votes.state matchId).candidates ++ [s.oracle]).length)
      (entry : ResultEntry) (hentry : entry.vote = s.vote)
      (hdisputed : (w.votes.state matchId).disputed = false) :
      BallotStep w matchId e
        ⟨some entry, none, none, update (w.ballot matchId).votes s.oracle (some s.vote)⟩

section

variable {env : Env} {w w' : World} {u : Unit} {oracle : Address} {i : ℕ}

theorem World.ballot_congr (hres : w'.results.result = w.results.result)
    (hvotes : w'.votes = w.votes) (i : ℕ) : w'.ballot i = w.ballot i := by
  simp [World.ballot, hres, hvotes]

theorem World.withResults_ballot (w : World) (r : Results) (id : ℕ) :
    (w.withResults r).ballot id = { w.ballot id with result := r.result id } := rfl

theorem Results.finalized_result (s : Results) (oracle : Address) (vote : OracleVoteRecord)
    (submitters : List Address) : (s.finalized env i oracle vote submitters).result =
      update s.result i
        (some ⟨vote.gameId, vote.platform, vote.result, env.sequence, oracle, none⟩) := by
  unfold Results.finalized
  generalize hr : (s.putResult i _).putCache _ _ _ = r
  have hres : r.result = update s.result i
      (some ⟨vote.gameId, vote.platform, vote.result, env.sequence, oracle, none⟩) := by
    rw [← hr]
    rfl
  clear hr
  induction submitters generalizing r with
  | nil => exact hres
  | cons a l ih => exact ih _ hres

theorem Results.submitted_result (s : Results) (admin : Address) (entry : BatchResultEntry) :
    (s.submitted env admin entry).result = update s.result entry.matchId
      (some ⟨entry.gameId, entry.platform, entry.result, env.sequence, admin,
        entry.confidence⟩) := rfl

theorem Results.stored_result (s : Results) (vote : OracleVoteRecord) (submitter : Address)
    (confidence : Option ℕ) : (s.stored env i vote submitter confidence).result = update s.result i
      (some ⟨vote.gameId, vote.platform, vote.result, env.sequence, submitter, confidence⟩) := rfl

theorem Results.deleted_result (s : Results) (entry : ResultEntry) :
    (s.deleted i entry).result = update s.result i none := rfl

/-- An entry of a batch is stored, and the others keep it. -/
theorem Results.batch_result (env : Env) (admin : Address) (i : ℕ) :
    ∀ (entries : List BatchResultEntry) (s : Results), ((∀ entry ∈ entries, entry.matchId ≠ i) ∧
        (entries.foldl (fun s entry => s.submitted env admin entry) s).result i = s.result i) ∨
      ((∃ entry ∈ entries, entry.matchId = i) ∧
        ((entries.foldl (fun s entry => s.submitted env admin entry) s).result i).isSome = true)
  | [], s => .inl ⟨by simp, rfl⟩
  | entry :: entries, s => by
    rw [foldl_cons]
    rcases batch_result env admin i entries (s.submitted env admin entry) with
      ⟨hne, hres⟩ | ⟨⟨e, he, heq⟩, hsome⟩
    · by_cases heq : entry.matchId = i
      · refine .inr ⟨⟨entry, mem_cons_self, heq⟩, ?_⟩
        rw [hres, submitted_result, heq, update_self]
        rfl
      · refine .inl ⟨forall_mem_cons.mpr ⟨heq, hne⟩, ?_⟩
        rw [hres, submitted_result, update_of_ne (Ne.symm heq)]
    · exact .inr ⟨⟨e, mem_cons_of_mem _ he, heq⟩, hsome⟩

/-- A ballot that a slash leaves as it is. -/
theorem Slashed.ballot {bps : ℤ} (h : Slashed env w oracle bps w') (i : ℕ) :
    w'.ballot i = w.ballot i := by
  have hres := h.view_eq .results (by simp) (by simp)
  have hvotes := h.view_eq .votes (by simp) (by simp)
  exact ballot_congr (Prod.mk.inj hres).1 hvotes i

theorem slashSubmitters_ballot {candidates : List CandidateTally}
    (h : slashSubmitters candidates env w = .ok u w') (i : ℕ) : w'.ballot i = w.ballot i := by
  have hres := slashSubmitters_view_eq h .results (by simp) (by simp)
  have hvotes := slashSubmitters_view_eq h .votes (by simp) (by simp)
  exact ballot_congr (Prod.mk.inj hres).1 hvotes i

theorem World.clear_ballot (w : World) (i id : ℕ) : (w.withVotes (w.votes.clear i)).ballot id =
      if id = i then { w.ballot id with state := none, tally := none } else w.ballot id := by
  by_cases h : id = i
  · subst h
    simp [World.ballot, Votes.clear]
  · simp [World.ballot, Votes.clear, h]

/-- The ballots after a vote that makes the result. -/
theorem Submission.finalized_ballot (s : Submission) (w : World) (submitters : List Address)
    (id : ℕ) : (((s.charged w).voted s.matchId s.oracle s.vote).withResults
      (w.results.finalized s.env s.matchId s.oracle s.vote submitters)).ballot id =
      if id = s.matchId then { w.ballot id with
          result := some ⟨s.vote.gameId, s.vote.platform, s.vote.result, s.env.sequence, s.oracle,
            none⟩
          votes := update (w.ballot id).votes s.oracle (some s.vote) }
      else w.ballot id := by
  by_cases h : id = s.matchId
  · subst h
    simp only [World.ballot, withResults_results, finalized_result, update_self, withResults_votes,
      World.voted, withVotes_votes, Votes.putVote, if_true, Ballot.mk.injEq, true_and]
    refine ⟨rfl, rfl, funext fun a => ?_⟩
    by_cases ha : a = s.oracle
    · subst ha
      simp
    · simp [ha]
  · simp only [World.ballot, withResults_results, finalized_result,
      update_of_ne h, withResults_votes, World.voted, withVotes_votes,
      Votes.putVote, if_neg h, Ballot.mk.injEq, true_and]
    refine ⟨rfl, rfl, funext fun a => ?_⟩
    simp [h]

/-- The ballots after a vote that is counted. -/
theorem Submission.awaiting_ballot (s : Submission) (w : World)
    (candidates : List CandidateTally) (id : ℕ) :
    (((s.charged w).voted s.matchId s.oracle s.vote).awaiting s.matchId s.vote
      candidates).ballot id = if id = s.matchId then
        let v := (s.charged w).voted s.matchId s.oracle s.vote
        ⟨w.results.result id,
          some ⟨candidates, !stillPossible w.control.threshold (v.remainingEligible s.matchId)
            candidates⟩,
          some ⟨v.remainingEligible s.matchId, w.stakes.oracleEligibilityVersion⟩,
          update (w.ballot id).votes s.oracle (some s.vote)⟩
      else w.ballot id := by
  have hres (v : World) (cs : List CandidateTally) :
      (v.awaiting s.matchId s.vote cs).results.result = v.results.result := by
    unfold World.awaiting
    dsimp only
    split <;> rfl
  by_cases h : id = s.matchId
  · subst h
    simp only [World.ballot, hres, if_true, Ballot.mk.injEq]
    refine ⟨rfl, by simp [World.awaiting, World.voted],
      by simp [World.awaiting, World.voted], funext fun a => ?_⟩
    by_cases ha : a = s.oracle
    · subst ha
      simp [World.awaiting, World.voted, Votes.putVote]
    · simp [World.awaiting, World.voted, Votes.putVote, ha]
  · simp only [World.ballot, hres, if_neg h, Ballot.mk.injEq]
    refine ⟨rfl, ?_, ?_, funext fun a => ?_⟩
    · simp [World.awaiting, World.voted, Votes.putVote, h]
    · simp [World.awaiting, World.voted, Votes.putVote, h]
    · simp [World.awaiting, World.voted, Votes.putVote, h]

theorem Submission.step_ballot {s : Submission} (hc : Commits s.env s.call w) (id : ℕ) :
    BallotStep w id s.event ((step w s.event).ballot id) := by
  obtain ⟨hopen, hvoted⟩ := s.voted hc
  generalize step w s.event = w' at hvoted
  cases hvoted with
  | late finalized hres hne _ hslash =>
    rw [hslash.ballot]
    exact .kept
  | equivocated prev hres hlets hprev hne _ hslash =>
    rw [hslash.ballot]
    exact .kept
  | finalized hres hlets hnone hdisputed hreached w2 hslash =>
    rw [clear_ballot, slashSubmitters_ballot hslash, s.finalized_ballot]
    by_cases hid : id = s.matchId
    · subst hid
      rw [if_pos rfl, if_pos rfl]
      exact .finalized s rfl rfl hc hopen hres hnone hreached _ rfl hdisputed
    · rw [if_neg hid, if_neg hid]
      exact .kept
  | counted hres hlets hnone hdisputed hshort =>
    rw [s.awaiting_ballot]
    by_cases hid : id = s.matchId
    · subst hid
      rw [if_pos rfl, hres]
      exact .counted s rfl rfl hc hopen hres hnone hshort _ rfl hdisputed
    · rw [if_neg hid]
      exact .kept

theorem invoke_ballot {call : Call} (hc : Commits env call w) (id : ℕ) :
    BallotStep w id (.invoke env call) ((step w (.invoke env call)).ballot id) := by
  have h := hc.exec_eq
  cases call with
  | submitOracleResult oracle i gameId platform result responseTimeMs =>
    exact Submission.step_ballot
      (s := ⟨env, oracle, i, ⟨gameId, platform, result⟩, responseTimeMs⟩) hc id
  | submitResult i gameId platform result responseTimeMs confidence =>
    have h' : submitResult (BatchResultEntry.mk i gameId platform result confidence).matchId
      gameId platform result responseTimeMs confidence env w = _ := h
    obtain ⟨admin, -, -, hnone, -, hw'⟩ := submitResult_ok_iff.mp h'
    rw [hw', withResults_ballot, submitted_result]
    by_cases hid : id = i
    · subst hid
      rw [update_self]
      exact .stored _ rfl hnone
    · rw [update_of_ne hid]
      exact .kept
  | submitBatchResults entries =>
    obtain ⟨admin, hopen, hw'⟩ := submitBatchResults_ok_iff.mp h
    rw [hw', World.batched, withResults_ballot]
    rcases batch_result env admin id entries w.results with
      ⟨-, hres⟩ | ⟨⟨entry, hentry, rfl⟩, hsome⟩
    · rw [hres]
      exact .kept
    · obtain ⟨r, hr⟩ := Option.isSome_iff_exists.mp hsome
      rw [hr]
      exact .stored r rfl ((checkBatch_eq_none_iff.mp hopen.check).2 entry hentry).2
  | resolveDisputedMatch i gameId platform result =>
    obtain ⟨admin, state, w2, -, hnone, -, -, hslash, hw'⟩ :=
      resolveDisputedMatch_ok ⟨gameId, platform, result⟩ h
    have hballot := slashSubmitters_ballot hslash id
    have hswap : step w (.invoke env (.resolveDisputedMatch i gameId platform result)) =
        (w2.withVotes (w2.votes.clear i)).withResults
          (w2.results.stored env i ⟨gameId, platform, result⟩ admin none) := hw'
    rw [hswap, withResults_ballot, clear_ballot, hballot, stored_result]
    by_cases hid : id = i
    · subst hid
      rw [if_pos rfl, update_self]
      exact .resolved _ rfl hnone
    · have hres : w2.results.result id = w.results.result id := congrArg Ballot.result hballot
      rw [if_neg hid, update_of_ne hid, hres]
      exact .kept
  | deleteResult i =>
    obtain ⟨-, entry, -, -, hsome, hw'⟩ := deleteResult_ok h
    rw [hw', withResults_ballot, deleted_result]
    by_cases hid : id = i
    · subst hid
      rw [update_self]
      exact .deleted env rfl hc
    · rw [update_of_ne hid]
      exact .kept
  | _ =>
    have hres := (Call.exec_keeps .results rfl).ok h
    have hvotes := (Call.exec_keeps .votes rfl).ok h
    rw [ballot_congr (Prod.mk.inj hres).1 hvotes]
    exact .kept

theorem step_ballot (w : World) (e : Event) (id : ℕ) :
    BallotStep w id e ((step w e).ballot id) := by
  cases e with
  | invoke env call =>
    by_cases hc : Commits env call w
    · exact invoke_ballot hc id
    · rw [step_of_not_commits hc]
      exact .kept
  | credit => exact .kept
  | debit token holder amount =>
    have hballot : (step w (.debit token holder amount)).ballot id = w.ballot id := by
      simp only [step]
      split <;> rfl
    rw [hballot]
    exact .kept

/-- A submission keeps a ballot, or adds a first vote to it. -/
theorem BallotStep.submission_cases {s : Submission}
    {motive : ∀ b, BallotStep w i s.event b → Prop} (kept : motive _ .kept)
    (counted : ∀ hid hc hopen hres hnone hshort hdisputed, motive _
      (.counted s rfl hid hc hopen hres hnone hshort _ rfl hdisputed))
    (finalized : ∀ hid hc hopen hres hnone hreached entry hentry hdisputed, motive _
      (.finalized s rfl hid hc hopen hres hnone hreached entry hentry hdisputed))
    {b : Ballot} (h : BallotStep w i s.event b) : motive b h := by
  cases h with
  | kept => exact kept
  | stored entry he | resolved entry he => simp at he
  | deleted env he =>
    have hsub : some s = none := congrArg Event.submission he
    exact absurd hsub (by simp)
  | counted t he hid hc hopen hres hnone hshort remaining hremaining hdisputed =>
    obtain rfl : s = t := by simpa using congrArg Event.submission he
    subst hremaining
    exact counted hid hc hopen hres hnone hshort hdisputed
  | finalized t he hid hc hopen hres hnone hreached entry hentry hdisputed =>
    obtain rfl : s = t := by simpa using congrArg Event.submission he
    exact finalized hid hc hopen hres hnone hreached entry hentry hdisputed

end

/-! ## Tallies -/

section Count

variable {oracle a : Address} {vote : OracleVoteRecord}

theorem exists_of_mem_supporters : ∀ {cs : List CandidateTally}, a ∈ supporters vote cs →
    ∃ c ∈ cs, c.vote = vote ∧ a ∈ c.submitters
  | c :: cs, h => by
    by_cases hc : c.agrees vote = true
    · rw [supporters, if_pos hc] at h
      exact ⟨c, mem_cons_self, agrees_iff.mp hc, h⟩
    · rw [supporters, if_neg hc] at h
      obtain ⟨d, hd, hvote, ha⟩ := exists_of_mem_supporters h
      exact ⟨d, mem_cons_of_mem _ hd, hvote, ha⟩

theorem supporters_sublist (vote : OracleVoteRecord) : ∀ cs : List CandidateTally,
    (supporters vote cs).Sublist (cs.flatMap CandidateTally.submitters)
  | [] => List.Sublist.refl _
  | c :: cs => by
    rw [flatMap_cons]
    by_cases hc : c.agrees vote = true
    · rw [supporters, if_pos hc]
      exact sublist_append_left _ _
    · rw [supporters, if_neg hc]
      exact (supporters_sublist vote cs).trans (sublist_append_right _ _)

theorem mem_of_mem_rivals {d : CandidateTally} : ∀ {cs : List CandidateTally},
    d ∈ rivals vote cs → d ∈ cs
  | c :: cs, h => by
    by_cases hc : c.agrees vote = true
    · rw [rivals, if_pos hc] at h
      exact mem_cons_of_mem _ h
    · rw [rivals, if_neg hc] at h
      rcases mem_cons.mp h with rfl | h
      · exact mem_cons_self
      · exact mem_cons_of_mem _ (mem_of_mem_rivals h)

/-- A vote adds its oracle. -/
theorem addVote_perm : ∀ cs : List CandidateTally,
    ((addVote oracle vote cs).flatMap CandidateTally.submitters).Perm
      (oracle :: cs.flatMap CandidateTally.submitters)
  | [] => by simp [addVote]
  | c :: cs => by
    by_cases hc : c.agrees vote = true
    · rw [addVote, if_pos hc, flatMap_cons, flatMap_cons, append_assoc]
      exact perm_middle
    · rw [addVote, if_neg hc, flatMap_cons, flatMap_cons]
      exact ((addVote_perm cs).append_left _).trans perm_middle

/-- A vote adds at most its own candidate. -/
theorem addVote_map_vote : ∀ cs : List CandidateTally,
    (addVote oracle vote cs).map CandidateTally.vote =
      if vote ∈ cs.map CandidateTally.vote then cs.map CandidateTally.vote
      else cs.map CandidateTally.vote ++ [vote]
  | [] => rfl
  | c :: cs => by
    by_cases hc : c.agrees vote = true
    · have hvote := agrees_iff.mp hc
      rw [addVote, if_pos hc, map_cons, map_cons, if_pos (by simp [hvote])]
      rfl
    · have hvote : c.vote ≠ vote := fun h => hc (agrees_iff.mpr h)
      rw [addVote, if_neg hc, map_cons, addVote_map_vote cs]
      by_cases hmem : vote ∈ cs.map CandidateTally.vote
      · rw [if_pos hmem, map_cons, if_pos (mem_cons_of_mem _ hmem)]
      · rw [if_neg hmem, map_cons, if_neg (by simpa [Ne.symm hvote] using hmem),
          cons_append]

end Count

/-- The candidates of a ballot, none before the first vote. -/
def Ballot.candidates (b : Ballot) : List CandidateTally :=
  (b.state.map ConsensusState.candidates).getD []

theorem World.ballot_candidates (w : World) (i : ℕ) :
    (w.ballot i).candidates = (w.votes.state i).candidates := by
  cases h : w.votes.matchVotes i <;> simp [Ballot.candidates, World.ballot, Votes.state, h]

/-! ## Counted votes -/

/-- The state after a call of `submitOracleResult`. -/
def World.cast (w : World) (s : Submission) : World := step w s.event

/-- The call is an oracle's first vote on a match without result, and its candidate needs
further votes. -/
structure Counted (w : World) (s : Submission) : Prop where
  commits : Commits s.env s.call w
  result : w.results.result s.matchId = none
  first : w.votes.oracleVote (s.matchId, s.oracle) = none
  short : (supporters s.vote (w.ballot s.matchId).candidates ++ [s.oracle]).length <
    w.control.threshold

section

variable {w : World} {s : Submission}

section

variable (h : Counted w s)

include h

theorem Counted.cast_eq :
    w.cast s = ((s.charged w).voted s.matchId s.oracle s.vote).awaiting s.matchId s.vote
      (addVote s.oracle s.vote (w.ballot s.matchId).candidates) := by
  have hshort := h.short
  rw [ballot_candidates] at hshort ⊢
  exact s.step_of_short h.commits h.result h.first hshort

theorem Counted.stakes : (w.cast s).stakes = w.stakes := by
  rw [h.cast_eq]
  rfl

theorem Counted.ledger : (w.cast s).ledger = w.ledger := by
  rw [h.cast_eq]
  rfl

theorem Counted.limits :
    (w.cast s).limits = w.limits.submitted s.oracle s.env.timestamp s.responseTimeMs := by
  rw [h.cast_eq]
  rfl

/-- The ballot with one more vote. -/
theorem Counted.ballot : (w.cast s).ballot s.matchId =
      ⟨none, some ⟨addVote s.oracle s.vote (w.ballot s.matchId).candidates,
        !stillPossible w.control.threshold
          (((s.charged w).voted s.matchId s.oracle s.vote).remainingEligible s.matchId)
          (addVote s.oracle s.vote (w.ballot s.matchId).candidates)⟩,
        some ⟨((s.charged w).voted s.matchId s.oracle s.vote).remainingEligible s.matchId,
          w.stakes.oracleEligibilityVersion⟩,
        update (w.ballot s.matchId).votes s.oracle (some s.vote)⟩ := by
  rw [h.cast_eq, s.awaiting_ballot, if_pos rfl, h.result]

theorem Counted.candidates : ((w.cast s).ballot s.matchId).candidates =
      addVote s.oracle s.vote (w.ballot s.matchId).candidates := by
  rw [h.ballot]
  rfl

theorem Counted.disputed :
    ((w.cast s).votes.state s.matchId).disputed = !stillPossible w.control.threshold
      (((s.charged w).voted s.matchId s.oracle s.vote).remainingEligible s.matchId)
      (addVote s.oracle s.vote (w.ballot s.matchId).candidates) := by
  have hstate : (w.cast s).votes.matchVotes s.matchId = _ := congrArg Ballot.state h.ballot
  rw [Votes.state, hstate]
  rfl

theorem Counted.oracleVote (a : Address) :
    (w.cast s).votes.oracleVote (s.matchId, a) =
      if a = s.oracle then some s.vote else w.votes.oracleVote (s.matchId, a) := by
  refine (congrFun (congrArg Ballot.votes h.ballot) a).trans ?_
  by_cases ha : a = s.oracle
  · subst ha
    rw [if_pos rfl]
    exact update_self ..
  · rw [if_neg ha]
    exact update_of_ne ha ..

end

/-- A submission that changes its oracle's vote and makes no result is counted. -/
theorem counted_of_recorded (hrecords : (step w s.event).votes.oracleVote (s.matchId, s.oracle) ≠
      w.votes.oracleVote (s.matchId, s.oracle))
    (hnores : (step w s.event).results.result s.matchId = none) : Counted w s := by
  have hstep := step_ballot w s.event s.matchId
  change ((step w s.event).ballot s.matchId).votes s.oracle ≠ _ at hrecords
  change ((step w s.event).ballot s.matchId).result = none at hnores
  generalize (step w s.event).ballot s.matchId = b at hstep hrecords hnores
  cases hstep using BallotStep.submission_cases with
  | kept => exact absurd rfl hrecords
  | counted hid hc hopen hres hnone hshort =>
    rw [← ballot_candidates] at hshort
    exact ⟨hc, hres, hnone, hshort⟩
  | finalized => simp at hnores

end

/-! ## Sound tallies -/

/-- The candidates are different, an oracle stands for one of them at most once, and for the
one that is recorded as its vote. There is no tally without a recorded vote. -/
structure Ballot.Tallied (b : Ballot) : Prop where
  distinct : (b.candidates.map CandidateTally.vote).Nodup
  nodup : (b.candidates.flatMap CandidateTally.submitters).Nodup
  recorded : ∀ c ∈ b.candidates, ∀ a ∈ c.submitters, b.votes a = some c.vote
  state_none : (∀ a, b.votes a = none) → b.state = none

section

variable {b : Ballot} {oracle a : Address} {vote : OracleVoteRecord}

theorem Ballot.Tallied.of_cleared (h : b.state = none) : b.Tallied := by
  have hcs : b.candidates = [] := by simp [Ballot.candidates, h]
  exact ⟨by simp [hcs], by simp [hcs], by simp [hcs], fun _ => h⟩

theorem Ballot.Tallied.voted_of_mem_submitters (h : b.Tallied)
    (ha : a ∈ b.candidates.flatMap CandidateTally.submitters) : (b.votes a).isSome = true := by
  obtain ⟨c, hc, hmem⟩ := mem_flatMap.mp ha
  rw [h.recorded c hc a hmem]
  rfl

/-- A first vote keeps a tally sound. -/
theorem Ballot.Tallied.addVote (h : b.Tallied) (hnone : b.votes oracle = none)
    (result : Option ResultEntry) (disputed : Bool) (tally : Option VoteTally) :
    Ballot.Tallied ⟨result, some ⟨addVote oracle vote b.candidates, disputed⟩, tally,
      update b.votes oracle (some vote)⟩ := by
  have hnew : oracle ∉ b.candidates.flatMap CandidateTally.submitters := fun hmem => by
    simpa [hnone] using h.voted_of_mem_submitters hmem
  have hold {c : CandidateTally} {a : Address} (hc : c ∈ b.candidates) (ha : a ∈ c.submitters) :
      update b.votes oracle (some vote) a = some c.vote := by
    have hne : a ≠ oracle := by
      rintro rfl
      exact hnew (mem_flatMap.mpr ⟨c, hc, ha⟩)
    rw [update_of_ne hne]
    exact h.recorded c hc a ha
  constructor
  · change ((Oracle.addVote oracle vote b.candidates).map CandidateTally.vote).Nodup
    rw [addVote_map_vote]
    split
    · exact h.distinct
    · rename_i hmem
      exact nodup_append.mpr ⟨h.distinct, nodup_singleton _, fun v hv u hu heq =>
        hmem (mem_singleton.mp hu ▸ heq ▸ hv)⟩
  · change ((Oracle.addVote oracle vote b.candidates).flatMap CandidateTally.submitters).Nodup
    rw [(addVote_perm _).nodup_iff]
    exact nodup_cons.mpr ⟨hnew, h.nodup⟩
  · intro d hd a ha
    rcases mem_addVote.mp (show d ∈ Oracle.addVote oracle vote b.candidates from hd) with rfl | hd
    · rcases mem_append.mp ha with ha | ha
      · obtain ⟨c, hc, hvote, ha⟩ := exists_of_mem_supporters ha
        exact (hold hc ha).trans (congrArg some hvote)
      · obtain rfl := mem_singleton.mp ha
        exact update_self ..
    · exact hold (mem_of_mem_rivals hd) ha
  · intro hvotes
    exact absurd (hvotes oracle) (by simp)

end

section

variable {w : World} {e : Event} {i : ℕ}

theorem BallotStep.tallied {b : Ballot} (h : BallotStep w i e b)
    (hw : (w.ballot i).Tallied) : b.Tallied := by
  cases h with
  | kept => exact hw
  | stored => exact ⟨hw.distinct, hw.nodup, hw.recorded, hw.state_none⟩
  | resolved => exact .of_cleared rfl
  | deleted => exact ⟨hw.distinct, hw.nodup, hw.recorded, hw.state_none⟩
  | counted s he hid hc hopen hres hnone =>
    rw [← ballot_candidates]
    exact hw.addVote hnone _ _ _
  | finalized => exact .of_cleared rfl

/-- Every reachable tally is sound. -/
theorem run_tally (ledger : Ledger Address) (es : List Event) (i : ℕ) :
    ((run step (.deployed ledger) es).ballot i).Tallied := by
  refine run_inv (I := fun w : World => (w.ballot i).Tallied)
    (fun w e hw _ => (step_ballot w e i).tallied hw) (.of_cleared rfl) (along_true _ _)

theorem BallotStep.gameId {b : Ballot} (h : BallotStep w i e b)
    (hw : ∀ c ∈ (w.ballot i).candidates, c.vote.gameId ≠ []) :
    ∀ c ∈ b.candidates, c.vote.gameId ≠ [] := by
  cases h with
  | kept | stored => exact hw
  | resolved => simp [Ballot.candidates]
  | deleted => exact hw
  | counted s he hid hc hopen =>
    intro c hmem
    rcases mem_addVote.mp hmem with rfl | hmem
    · exact hopen.gameId
    · rw [← ballot_candidates] at hmem
      exact hw c (mem_of_mem_rivals hmem)
  | finalized => simp [Ballot.candidates]

/-- Every candidate of a reachable tally names a game. -/
theorem run_gameId (ledger : Ledger Address) (es : List Event) (i : ℕ) :
    ∀ c ∈ ((run step (.deployed ledger) es).ballot i).candidates, c.vote.gameId ≠ [] := by
  refine run_inv (I := fun w : World => ∀ c ∈ (w.ballot i).candidates, c.vote.gameId ≠ [])
    (fun w e hw _ => (step_ballot w e i).gameId hw) ?_ (along_true _ _)
  intro c hc
  simp [Ballot.candidates, World.ballot, World.deployed] at hc

end

/-! ## Recorded votes -/

section

variable {w : World} {i : ℕ} {oracle : Address} {vote : OracleVoteRecord}

theorem BallotStep.vote_persists {e : Event} {b : Ballot} (h : BallotStep w i e b)
    (hvote : (w.ballot i).votes oracle = some vote) : b.votes oracle = some vote := by
  cases h with
  | kept | stored | resolved | deleted => exact hvote
  | counted s he hid hc hopen hres hnone | finalized s he hid hc hopen hres hnone =>
    have hne : oracle ≠ s.oracle := by
      rintro rfl
      cases hnone.symm.trans hvote
    exact (update_of_ne hne ..).trans hvote

/-- A recorded vote stays as it is. -/
theorem run_vote_persists (hvote : w.votes.oracleVote (i, oracle) = some vote)
    (es : List Event) : (run step w es).votes.oracleVote (i, oracle) = some vote :=
  run_inv (I := fun w : World => (w.ballot i).votes oracle = some vote)
    (fun w e h _ => (step_ballot w e i).vote_persists h) hvote (along_true _ _)

end

/-- Three oracles with stake 100 each, and a threshold of two votes. -/
def threeOracles : List Event :=
  [.invoke (.plain [] 0 0) (.initializeOracle (.ext 1)),
    .invoke (.plain [1] 0 0) (.setConsensusThreshold 2),
    .invoke (.plain [2] 0 0) (.registerOracleWithStake (.ext 2) 100 (.ext 9)),
    .invoke (.plain [3] 0 0) (.registerOracleWithStake (.ext 3) 100 (.ext 9)),
    .invoke (.plain [4] 0 0) (.registerOracleWithStake (.ext 4) 100 (.ext 9))]

/-- A vote on match 0 by the oracle `n`. -/
def voteOf (n : ℕ) (result : Winner) : Submission :=
  ⟨.plain [n] 0 0, .ext n, 0, ⟨[1], .lichess, result⟩, 10⟩

/-! ## Results and the votes behind them -/

/-- The oracle's vote is counted in the tally of the match. -/
def Supports (matchId : ℕ) (vote : OracleVoteRecord) (oracle : Address) (w : World) (e : Event) :
    Prop :=
  ∃ s ∈ e.submission, s.oracle = oracle ∧ s.matchId = matchId ∧ s.vote = vote ∧
    Commits s.env s.call w ∧
    (w.stakes.registration oracle).any (fun r => 0 < r.oracleStake) = true ∧
    (step w e).votes.matchVotes matchId ≠ none

/-- The event does not clear the tally of the match. -/
def KeepsTally (matchId : ℕ) (w : World) (e : Event) : Prop :=
  (step w e).votes.matchVotes matchId ≠ none

/-- Every oracle in the tally voted for its candidate since the tally was last cleared. -/
def TallyEarned (ledger : Ledger Address) (es : List Event) (matchId : ℕ) : Prop :=
  ∀ c ∈ ((run step (.deployed ledger) es).ballot matchId).candidates, ∀ a ∈ c.submitters,
    Since step (Supports matchId c.vote a) (KeepsTally matchId) (.deployed ledger) es

section

variable {ledger : Ledger Address} {es : List Event} {e : Event} {i : ℕ}

theorem VoteOpen.any_staked {env : Env} {w : World} {oracle : Address} {vote : OracleVoteRecord}
    (h : VoteOpen env w oracle vote) :
    (w.stakes.registration oracle).any (fun r => 0 < r.oracleStake) = true := by
  obtain ⟨r, hr, hpos⟩ := h.staked
  simp [hr, hpos]

theorem TallyEarned.snoc (h : TallyEarned ledger es i) : TallyEarned ledger (es ++ [e]) i := by
  have hstep := step_ballot (run step (.deployed ledger) es) e i
  intro c hc a ha
  rw [run_snoc] at hc
  -- a tally with a candidate has not been cleared
  have hkept : (step (run step (.deployed ledger) es) e).votes.matchVotes i ≠ none := by
    intro hnone
    rw [ballot_candidates, Votes.state, hnone] at hc
    simp at hc
  have hold (hc : c ∈ ((run step (.deployed ledger) es).ballot i).candidates)
      (ha : a ∈ c.submitters) := (h c hc a ha).later hkept
  generalize hb : (step (run step (.deployed ledger) es) e).ballot i = b at hc hstep
  cases hstep with
  | kept | stored => exact hold hc ha
  | resolved => simp [Ballot.candidates] at hc
  | deleted => exact hold hc ha
  | counted s he hid hcommit hopen =>
    subst he hid
    rcases mem_addVote.mp hc with rfl | hc
    · rcases mem_append.mp ha with ha | ha
      · obtain ⟨d, hd, hvote, ha⟩ := exists_of_mem_supporters ha
        rw [← ballot_candidates] at hd
        have hsince := (h d hd a ha).later hkept
        rwa [hvote] at hsince
      · obtain rfl := mem_singleton.mp ha
        exact .now ⟨s, rfl, rfl, rfl, rfl, hcommit, hopen.any_staked, hkept⟩
    · have hc' := mem_of_mem_rivals hc
      rw [← ballot_candidates] at hc'
      exact hold hc' ha
  | finalized =>
    simp [Ballot.candidates] at hc

theorem run_tallyEarned (ledger : Ledger Address) (es : List Event) (i : ℕ) :
    TallyEarned ledger es i := by
  have hal : Along step (fun _ _ => True) (.deployed ledger) es := along_true _ _
  refine history_inv (I := fun es => TallyEarned ledger es i) ?_ (fun _ _ h _ => h.snoc) hal
  intro c hc
  simp [Ballot.candidates, World.ballot, World.deployed] at hc

end

/-- Finality in every run. When a vote makes the result, at least as many different oracles as
the threshold asks for have voted for it, each with stake, and all but the last of them since
the tally was last cleared. No oracle stands twice in a tally. A stored result stays until it
is deleted. -/
theorem finality (ledger : Ledger Address) (es : List Event) :
    let w := run step (.deployed ledger) es
    (∀ s : Submission, (step w s.event).results.result s.matchId ≠ w.results.result s.matchId →
      ∃ entry earlier, (step w s.event).results.result s.matchId = some entry ∧
        entry.vote = s.vote ∧ w.control.threshold ≤ (s.oracle :: earlier).length ∧
        (s.oracle :: earlier).Nodup ∧
        (w.stakes.registration s.oracle).any (fun r => 0 < r.oracleStake) = true ∧
        ∀ a ∈ earlier, Since step (Supports s.matchId s.vote a) (KeepsTally s.matchId)
          (.deployed ledger) es) ∧
    (∀ i, ((w.votes.state i).candidates.flatMap CandidateTally.submitters).Nodup) ∧
    (∀ i entry e, w.results.result i = some entry →
      (step w e).results.result i = some entry ∨
        ∃ env, e = .invoke env (.deleteResult i) ∧
          Commits env (.deleteResult i) w) := by
  intro w
  refine ⟨fun s hchange => ?_, fun i => ?_, fun i entry e hsome => ?_⟩
  · have hstep := step_ballot w s.event s.matchId
    have hres : ((step w s.event).ballot s.matchId).result ≠ w.results.result s.matchId := hchange
    change ∃ entry earlier, ((step w s.event).ballot s.matchId).result = some entry ∧ _
    generalize (step w s.event).ballot s.matchId = b at hstep hres
    cases hstep using BallotStep.submission_cases with
    | kept => exact absurd rfl hres
    | counted hid hc hopen hnores => exact absurd hnores.symm hres
    | finalized hid hc hopen hnores hnone hreached entry hentry =>
      have htally := run_tally ledger es s.matchId
      have hsupporters {a : Address}
          (ha : a ∈ supporters s.vote (w.votes.state s.matchId).candidates) :
          ∃ c ∈ (w.ballot s.matchId).candidates, c.vote = s.vote ∧ a ∈ c.submitters := by
        rw [ballot_candidates]
        exact exists_of_mem_supporters ha
      refine ⟨entry, supporters s.vote (w.votes.state s.matchId).candidates, rfl, hentry, ?_, ?_,
        hopen.any_staked, fun a ha => ?_⟩
      · simpa using hreached
      · refine nodup_cons.mpr ⟨fun hmem => ?_, ?_⟩
        · obtain ⟨c, hc, -, ha⟩ := hsupporters hmem
          have hvoted := htally.recorded c hc _ ha
          cases hnone.symm.trans hvoted
        · have hnodup := htally.nodup
          rw [ballot_candidates] at hnodup
          exact hnodup.sublist (supporters_sublist s.vote _)
      · obtain ⟨c, hc, hvote, ha⟩ := hsupporters ha
        rw [← hvote]
        exact run_tallyEarned ledger es s.matchId c hc a ha
  · rw [← ballot_candidates]
    exact (run_tally ledger es i).nodup
  · have hstep := step_ballot w e i
    change ((step w e).ballot i).result = some entry ∨ _
    generalize (step w e).ballot i = b at hstep
    cases hstep with
    | kept => exact .inl hsome
    | stored entry' he hnone | resolved entry' he hnone => cases hnone.symm.trans hsome
    | deleted env he hc => exact .inr ⟨env, he, hc⟩
    | counted s he hid hc hopen hres | finalized s he hid hc hopen hres =>
      cases hres.symm.trans hsome

end Checkmate.Oracle

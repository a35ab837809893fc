import Checkmate.Host.Count
import Checkmate.Oracle.Ballots
import Checkmate.Oracle.Registry

/-!
# The cached count of the oracles that may still vote

`remainingEligibleOracles` does not count the oracles that may still vote on a match each time
it is asked. It takes one from the count it stored at the last vote on the match, unless the
version of the register has changed since.

Every change of who is listed or has stake raises the version (`Stakes.Tracks`), as long as it
is below the largest `u32`, and a vote on the match takes away exactly the oracle that cast it.
So the count is what a recount gives, whatever happens between two votes
(`remaining_eq_recount`).
-/

namespace Checkmate.Oracle

open Function World Stakes

/-! ## The version -/

/-- The oracle has stake. -/
def Stakes.eligible (s : Stakes) (oracle : Address) : Bool :=
  (s.registration oracle).any fun r => 0 < r.oracleStake

theorem Stakes.eligible_iff {s : Stakes} {oracle : Address} :
    s.eligible oracle = true ↔ ∃ r, s.registration oracle = some r ∧ 0 < r.oracleStake := by
  unfold Stakes.eligible
  cases s.registration oracle <;> simp

/-- The version does not go down, and if it has not moved the same oracles are listed and have
stake. A version that cannot be raised any more says nothing. -/
structure Stakes.Tracks (s s' : Stakes) : Prop where
  le : s.oracleEligibilityVersion ≤ u32Max →
    s.oracleEligibilityVersion ≤ s'.oracleEligibilityVersion ∧
      s'.oracleEligibilityVersion ≤ u32Max
  same : s.oracleEligibilityVersion < u32Max →
    s'.oracleEligibilityVersion = s.oracleEligibilityVersion →
      s'.oracleSet = s.oracleSet ∧ s'.eligible = s.eligible

section

variable {s s' s'' : Stakes} {oracle token : Address} {r : OracleRegistration} {amount : ℤ}

theorem Stakes.Tracks.of_same (hversion : s'.oracleEligibilityVersion = s.oracleEligibilityVersion)
    (hset : s'.oracleSet = s.oracleSet) (heligible : s'.eligible = s.eligible) : s.Tracks s' :=
  ⟨fun h => by omega, fun _ _ => ⟨hset, heligible⟩⟩

theorem Stakes.Tracks.refl (s : Stakes) : s.Tracks s := .of_same rfl rfl rfl

theorem Stakes.Tracks.trans (h : s.Tracks s') (h' : s'.Tracks s'') : s.Tracks s'' := by
  refine ⟨fun hmax => ?_, fun hlt heq => ?_⟩
  · obtain ⟨hle, hmax'⟩ := h.le hmax
    obtain ⟨hle', hmax''⟩ := h'.le hmax'
    exact ⟨hle.trans hle', hmax''⟩
  · obtain ⟨hle, hmax'⟩ := h.le hlt.le
    obtain ⟨hle', -⟩ := h'.le hmax'
    obtain ⟨hset, heligible⟩ := h.same hlt (by omega)
    obtain ⟨hset', heligible'⟩ := h'.same (by omega) (by omega)
    exact ⟨hset'.trans hset, heligible'.trans heligible⟩

/-- A raised version is a new one, unless it was the largest. -/
theorem Stakes.Tracks.of_bump
    (h : s'.oracleEligibilityVersion = saturatingAddU u32Max s.oracleEligibilityVersion 1) :
    s.Tracks s' := by
  unfold saturatingAddU at h
  exact ⟨fun hmax => by omega, fun hlt heq => absurd h (by omega)⟩

theorem Stakes.eligible_update_of_iff {r' : OracleRegistration}
    (h : (s.registration oracle).any (fun r => 0 < r.oracleStake) = decide (0 < r'.oracleStake))
    (hregistration : s'.registration = update s.registration oracle (some r')) :
    s'.eligible = s.eligible := by
  funext a
  unfold Stakes.eligible
  rw [hregistration]
  by_cases ha : a = oracle
  · subst ha
    rw [update_self, h]
    rfl
  · rw [update_of_ne ha]

theorem Stakes.tracks_deduct (h : s.registration oracle = some r) (hnonneg : 0 ≤ amount)
    (hle : amount ≤ r.oracleStake) : s.Tracks (s.deduct oracle r amount) := by
  by_cases hzero : 0 < r.oracleStake ∧ r.oracleStake - amount = 0
  · exact .of_bump (if_pos hzero)
  · refine .of_same (if_neg hzero) rfl (eligible_update_of_iff ?_ rfl)
    rw [h, Option.any_some, decide_eq_decide]
    change 0 < r.oracleStake ↔ 0 < r.oracleStake - amount
    omega

theorem Stakes.tracks_register (hs : s.Sound) (hpos : 0 < amount) :
    s.Tracks (s.register oracle amount token) := by
  by_cases heligible : (s.registration oracle).any (fun r => 0 < r.oracleStake) = true
  · obtain ⟨r, hr, hstake⟩ := eligible_iff.mp heligible
    refine .of_same (if_pos heligible) (if_pos (hs.mem hr)) (eligible_update_of_iff ?_ rfl)
    have hnonneg := hs.stake_nonneg oracle r hr
    rw [heligible, eq_comm, decide_eq_true_eq]
    simp only [Stakes.toppedUp, hr, Option.map_some, Option.getD_some]
    exact saturatingAdd_pos hnonneg hpos
  · exact .of_bump (if_neg heligible)

end

/-! ## What an event does to the version -/

section

variable {env : Env} {w w' : World} {u : Unit} {oracle : Address}

theorem Slashed.tracks {bps : ℤ} (h : Slashed env w oracle bps w') : w.stakes.Tracks w'.stakes := by
  cases h with
  | spared => exact .refl _
  | kept r hr hpos hle | sent r admin l hr hpos hle => exact tracks_deduct hr hpos.le hle

theorem StakeStep.tracks {call : Call} (h : StakeStep env call w w') (hs : w.stakes.Sound) :
    w.stakes.Tracks w'.stakes := by
  have hdue {oracle : Address} {id : ℕ} {p : PendingSlash} {r : OracleRegistration}
      (hp : w.stakes.pendingSlash (oracle, id) = some p)
      (hr : w.stakes.registration oracle = some r) :
      w.stakes.Tracks ((w.stakes.deduct oracle r (p.due r)).dropSlash oracle id) :=
    (tracks_deduct hr (hs.due_nonneg hp hr) (min_le_right _ _)).trans (.of_same rfl rfl rfl)
  cases h with
  | registered hopen => exact tracks_register hs hopen.pos
  | slashed hadmin h => exact h.tracks
  | staged => exact .of_same rfl rfl rfl
  | emptied hp hr | carried hp hr => exact hdue hp hr
  | dropped => exact .of_same rfl rfl rfl
  | swapped => exact .refl _
  | kept hstakes => exact hstakes ▸ .refl _

theorem step_tracks (hs : w.stakes.Sound) (e : Event) : w.stakes.Tracks (step w e).stakes := by
  have hstart : w.stakes.Sound ∧ w.stakes.Tracks w.stakes := ⟨hs, .refl _⟩
  refine (step_keeps (P := fun w' => w'.stakes.Sound ∧ w.stakes.Tracks w'.stakes)
    (fun call => Call.exec_keeps_of_stakeStep fun h hw' => ?_) (fun _ _ h => h) hstart e).2
  exact ⟨h.sound hw'.1, hw'.2.trans (h.tracks hw'.1)⟩

end

/-! ## The cached count -/

/-- A count stored under the current version is what a recount gives. -/
structure World.Cached (w : World) (matchId : ℕ) : Prop where
  le : ∀ t, w.votes.voteTally matchId = some t →
    t.eligibilityVersion ≤ w.stakes.oracleEligibilityVersion
  exact_of_eq : ∀ t, w.votes.voteTally matchId = some t →
    t.eligibilityVersion = w.stakes.oracleEligibilityVersion →
      t.remainingEligible = w.countRemainingEligibleOracles matchId

section

variable {w w' : World} {oracle : Address} {id : ℕ} {vote : OracleVoteRecord}

theorem World.mayVote_eq (w : World) (id : ℕ) (a : Address) : w.mayVote id a =
      (((w.ballot id).votes a).isNone && w.stakes.eligible a) := rfl

/-- The count depends on the votes on the match and on who has stake. -/
theorem World.count_congr (hvotes : (w'.ballot id).votes = (w.ballot id).votes)
    (hset : w'.stakes.oracleSet = w.stakes.oracleSet)
    (heligible : w'.stakes.eligible = w.stakes.eligible) :
    w'.countRemainingEligibleOracles id = w.countRemainingEligibleOracles id := by
  unfold World.countRemainingEligibleOracles
  rw [hset]
  refine List.countP_congr fun a _ => ?_
  rw [mayVote_eq, mayVote_eq, hvotes, heligible]

theorem World.voted_votes (w : World) (id : ℕ) (oracle : Address) (vote : OracleVoteRecord) :
    ((w.voted id oracle vote).ballot id).votes = update (w.ballot id).votes oracle (some vote) := by
  funext a
  by_cases ha : a = oracle
  · subst ha
    simp [World.ballot, World.voted, Votes.putVote]
  · simp [World.ballot, World.voted, Votes.putVote, ha]

/-- A first vote takes its oracle from those that may still vote. -/
theorem World.count_voted (hs : w.stakes.Listed) (heligible : w.stakes.eligible oracle = true)
    (hnone : w.votes.oracleVote (id, oracle) = none) : w.countRemainingEligibleOracles id =
      (w.voted id oracle vote).countRemainingEligibleOracles id + 1 := by
  obtain ⟨r, hr, -⟩ := eligible_iff.mp heligible
  refine countP_erase hs.nodup (hs.mem hr) ?_ ?_ fun a ha => ?_
  · simp [mayVote_eq, World.ballot, hnone, heligible]
  · simp [mayVote_eq, voted_votes]
  · rw [mayVote_eq, mayVote_eq, voted_votes, update_of_ne ha]
    rfl

/-- What is computed at a first vote is what a recount gives, if that was so at the last one. -/
theorem World.remaining_eq (hexact : ∀ t, w.votes.voteTally id = some t →
      t.eligibilityVersion = w.stakes.oracleEligibilityVersion →
        t.remainingEligible = w.countRemainingEligibleOracles id)
    (hs : w.stakes.Listed) (heligible : w.stakes.eligible oracle = true)
    (hnone : w.votes.oracleVote (id, oracle) = none) :
    (w.voted id oracle vote).remainingEligible id =
      (w.voted id oracle vote).countRemainingEligibleOracles id := by
  have htally : (w.voted id oracle vote).votes.voteTally = w.votes.voteTally := rfl
  have hstakes : (w.voted id oracle vote).stakes = w.stakes := rfl
  unfold World.remainingEligible
  rw [htally, hstakes]
  cases ht : w.votes.voteTally id with
  | none => rfl
  | some t =>
    dsimp only
    split
    · rename_i hversion
      rw [hexact t ht hversion, count_voted hs heligible hnone]
      rfl
    · rfl

/-- The count that is stored with a vote is what a recount gives. -/
theorem World.tally_of_counted {w : World} {s : Submission}
    (hexact : ∀ t, w.votes.voteTally s.matchId = some t →
      t.eligibilityVersion = w.stakes.oracleEligibilityVersion →
        t.remainingEligible = w.countRemainingEligibleOracles s.matchId)
    (hs : w.stakes.Listed) (h : Counted w s) : (w.cast s).votes.voteTally s.matchId =
      some ⟨(w.cast s).countRemainingEligibleOracles s.matchId,
        (w.cast s).stakes.oracleEligibilityVersion⟩ := by
  have heligible : w.stakes.eligible s.oracle = true := (s.voted h.commits).1.any_staked
  have hremaining : ((s.charged w).voted s.matchId s.oracle s.vote).remainingEligible s.matchId =
      _ := remaining_eq (w := s.charged w) hexact hs heligible h.first
  have hvotes : ((w.cast s).ballot s.matchId).votes =
      (((s.charged w).voted s.matchId s.oracle s.vote).ballot s.matchId).votes := by
    rw [h.ballot, voted_votes]
    rfl
  have hcount : (w.cast s).countRemainingEligibleOracles s.matchId =
      ((s.charged w).voted s.matchId s.oracle s.vote).countRemainingEligibleOracles s.matchId :=
    count_congr hvotes (congrArg Stakes.oracleSet h.stakes)
      (congrArg Stakes.eligible h.stakes)
  rw [hcount, ← hremaining, h.stakes]
  exact congrArg Ballot.tally h.ballot

end

section

variable {w : World} {e : Event} {id : ℕ}

/-- The ballot is as before up to its result, so the count is current or out of date. -/
theorem World.Cached.of_kept {w' : World} (hcached : w.Cached id)
    (hlt : w.stakes.oracleEligibilityVersion < u32Max) (htracks : w.stakes.Tracks w'.stakes)
    (htally : (w'.ballot id).tally = (w.ballot id).tally)
    (hvotes : (w'.ballot id).votes = (w.ballot id).votes) : w'.Cached id := by
  have hle := (htracks.le hlt.le).1
  refine ⟨fun t ht => ?_, fun t ht heq => ?_⟩
  · exact (hcached.le t (htally.symm.trans ht)).trans hle
  · have ht' : w.votes.voteTally id = some t := htally.symm.trans ht
    have hle' := hcached.le t ht'
    obtain ⟨hset, heligible⟩ := htracks.same hlt (by omega)
    rw [hcached.exact_of_eq t ht' (by omega), count_congr hvotes hset heligible]

theorem World.Cached.of_cleared (h : (w.ballot id).tally = none) : w.Cached id :=
  ⟨fun t ht => absurd (h.symm.trans ht) (by simp), fun t ht => absurd (h.symm.trans ht) (by simp)⟩

theorem World.Cached.step (hcached : w.Cached id) (hs : w.stakes.Sound)
    (hlt : w.stakes.oracleEligibilityVersion < u32Max) (e : Event) : (step w e).Cached id := by
  have htracks := step_tracks hs e
  have hstep := step_ballot w e id
  generalize hb : (Oracle.step w e).ballot id = b at hstep
  cases hstep with
  | kept | stored => exact hcached.of_kept hlt htracks (by rw [hb]) (by rw [hb])
  | resolved => exact .of_cleared (by rw [hb])
  | deleted => exact hcached.of_kept hlt htracks (by rw [hb]) (by rw [hb])
  | counted s he hid hc hopen hres hnone hshort =>
    subst he hid
    rw [← ballot_candidates] at hshort
    have htally := tally_of_counted hcached.exact_of_eq hs.toListed ⟨hc, hres, hnone, hshort⟩
    refine ⟨fun t ht => ?_, fun t ht _ => ?_⟩
    · obtain rfl := Option.some.inj (htally.symm.trans ht)
      exact le_rfl
    · obtain rfl := Option.some.inj (htally.symm.trans ht)
      rfl
  | finalized => exact .of_cleared (by rw [hb])

variable {ledger : Ledger Address} {es : List Event}

theorem run_cached
    (h : Along step (fun w _ => w.stakes.oracleEligibilityVersion < u32Max) (.deployed ledger) es)
    (id : ℕ) : (run step (.deployed ledger) es).Cached id := by
  have hstart : (World.deployed ledger).stakes.Sound ∧ (World.deployed ledger).Cached id :=
    ⟨.empty, .of_cleared rfl⟩
  exact (run_inv (I := fun w : World => w.stakes.Sound ∧ w.Cached id)
    (fun w e hw hlt => ⟨step_sound hw.1 e, hw.2.step hw.1 hlt e⟩) hstart h).2

/-- The version is at most the largest `u32`, and below it the counts can be relied on. -/
theorem run_version (ledger : Ledger Address) (es : List Event) (id : ℕ) :
    let w := run step (.deployed ledger) es
    w.stakes.oracleEligibilityVersion ≤ u32Max ∧
      (w.stakes.oracleEligibilityVersion < u32Max → w.Cached id) := by
  have hstart : (World.deployed ledger).stakes.Sound ∧
      (World.deployed ledger).stakes.oracleEligibilityVersion ≤ u32Max ∧
      ((World.deployed ledger).stakes.oracleEligibilityVersion < u32Max →
        (World.deployed ledger).Cached id) :=
    ⟨.empty, Nat.zero_le _, fun _ => .of_cleared rfl⟩
  refine (run_inv (I := fun w : World => w.stakes.Sound ∧
    w.stakes.oracleEligibilityVersion ≤ u32Max ∧
      (w.stakes.oracleEligibilityVersion < u32Max → w.Cached id))
    (fun w e hw _ => ?_) hstart (along_true _ _)).2
  obtain ⟨hsound, hle, hcached⟩ := hw
  obtain ⟨hge, hle'⟩ := (step_tracks hsound e).le hle
  exact ⟨step_sound hsound e, hle', fun hlt =>
    (hcached (by omega)).step hsound (by omega) e⟩

/-- In every run in which the version stays below the largest `u32` : when an oracle's first
vote on a match is counted, the number of oracles that may still vote is computed as what a
recount gives at that moment, and that number is stored. -/
theorem remaining_eq_recount
    (h : Along step (fun w _ => w.stakes.oracleEligibilityVersion < u32Max) (.deployed ledger) es)
    (s : Submission) :
    let w := run step (.deployed ledger) es
    let v := (s.charged w).voted s.matchId s.oracle s.vote
    (VoteOpen s.env w s.oracle s.vote → w.votes.oracleVote (s.matchId, s.oracle) = none →
      v.remainingEligible s.matchId = v.countRemainingEligibleOracles s.matchId) ∧
    ((step w s.event).votes.oracleVote (s.matchId, s.oracle) ≠
        w.votes.oracleVote (s.matchId, s.oracle) →
      (step w s.event).results.result s.matchId = none →
        (step w s.event).votes.voteTally s.matchId =
          some ⟨(step w s.event).countRemainingEligibleOracles s.matchId,
            (step w s.event).stakes.oracleEligibilityVersion⟩) := by
  intro w v
  have hcached := run_cached h s.matchId
  have hsound := run_sound ledger es
  refine ⟨fun hopen hnone => ?_, fun hrecorded hnores => ?_⟩
  · exact remaining_eq (w := s.charged w) hcached.exact_of_eq hsound.toListed
      hopen.any_staked hnone
  · exact tally_of_counted hcached.exact_of_eq hsound.toListed
      (counted_of_recorded hrecorded hnores)

/-- Two of the three oracles have voted on the match, and the third is still to vote. -/
theorem remaining_eq_recount_threeOracles :
    let es := threeOracles ++ [(voteOf 2 .player1).event]
    Along step (fun w _ => w.stakes.oracleEligibilityVersion < u32Max) (.deployed plainLedger) es ∧
      (step (run step (.deployed plainLedger) es) (voteOf 3 .player2).event).votes.voteTally 0 =
        some ⟨1, 3⟩ := by
  intro es
  have hal : Along step (fun w _ => w.stakes.oracleEligibilityVersion < u32Max)
      (.deployed plainLedger) es := by decide +kernel
  refine ⟨hal, ?_⟩
  have hstored := (remaining_eq_recount hal (voteOf 3 .player2)).2 (by decide +kernel)
    (by decide +kernel)
  refine hstored.trans ?_
  decide +kernel

end

end Checkmate.Oracle

import Checkmate.Oracle.Eligibility

/-!
# Consensus with some dishonest oracles

At least as many honest oracles as the threshold asks for vote for one candidate, once each.
Fewer others vote as they like, as often as they like, in any order. Then no other candidate
becomes the result, the match is never disputed, and it has its result as soon as enough of
the honest oracles have voted (`byzantine_bound`).

While the match has no result its tally is exactly the recorded votes (`World.Polling`). A
candidate that reaches the threshold has a supporter that is honest. And the honest oracles
that have voted, with those that may still do so, are enough, so that the match is not
disputed. An oracle that is slashed for two votes has voted already, so the cached count stays
right without looking at its version.
-/

namespace Checkmate.Oracle

open Function List World OracleVoteRecord CandidateTally

/-! ## Tallies of the recorded votes -/

section Count

variable {oracle a : Address} {vote v : OracleVoteRecord}

theorem supporters_cons (v : OracleVoteRecord) (c : CandidateTally) (cs : List CandidateTally) :
    supporters v (c :: cs) = if c.vote = v then c.submitters else supporters v cs := by
  simp [supporters]

theorem supporters_addVote : ∀ cs : List CandidateTally, supporters v (addVote oracle vote cs) =
      if v = vote then supporters vote cs ++ [oracle] else supporters v cs
  | [] => by
    change supporters v [vote.tally [oracle]] = _
    rw [supporters_cons, tally_vote]
    by_cases hv : v = vote
    · rw [if_pos hv, if_pos hv.symm]
      rfl
    · rw [if_neg hv, if_neg (Ne.symm hv)]
  | c :: cs => by
    by_cases hc : c.agrees vote = true
    · have hvote := agrees_iff.mp hc
      rw [addVote, if_pos hc, eq_tally hc, supporters_cons, supporters_cons,
        supporters_cons, tally_vote, if_pos hvote]
      by_cases hv : v = vote
      · rw [if_pos hv, if_pos hv.symm]
        rfl
      · rw [if_neg hv, if_neg (Ne.symm hv), if_neg (hvote ▸ Ne.symm hv)]
    · have hvote : c.vote ≠ vote := fun h => hc (agrees_iff.mpr h)
      rw [addVote, if_neg hc, supporters_cons, supporters_cons, supporters_cons, if_neg hvote,
        supporters_addVote cs]
      by_cases hv : c.vote = v
      · rw [if_pos hv, if_neg (hv ▸ hvote), if_pos hv]
      · rw [if_neg hv, if_neg hv]

/-- A candidate with a supporter stands in the tally. -/
theorem tally_supporters_mem : ∀ {cs : List CandidateTally}, a ∈ supporters v cs →
    v.tally (supporters v cs) ∈ cs
  | c :: cs, h => by
    rw [supporters_cons] at h ⊢
    by_cases hc : c.vote = v
    · rw [if_pos hc]
      subst hc
      exact mem_cons_self
    · rw [if_neg hc] at h ⊢
      exact mem_cons_of_mem _ (tally_supporters_mem h)

end Count

/-- The tally is sound, and every recorded vote is counted. -/
structure Ballot.Exact (b : Ballot) : Prop extends b.Tallied where
  counted : ∀ a v, b.votes a = some v → a ∈ supporters v b.candidates

section

variable {b : Ballot} {oracle a : Address} {vote v : OracleVoteRecord}

theorem Ballot.Tallied.vote_of_supporter (h : b.Tallied) (ha : a ∈ supporters v b.candidates) :
    b.votes a = some v := by
  obtain ⟨c, hc, rfl, hmem⟩ := exists_of_mem_supporters ha
  exact h.recorded c hc a hmem

theorem Ballot.Tallied.supporters_nodup (h : b.Tallied) (v : OracleVoteRecord) :
    (supporters v b.candidates).Nodup :=
  h.nodup.sublist (supporters_sublist v _)

theorem Ballot.Exact.addVote (h : b.Exact) (hnone : b.votes oracle = none)
    (result : Option ResultEntry) (disputed : Bool) (tally : Option VoteTally) :
    Ballot.Exact ⟨result, some ⟨addVote oracle vote b.candidates, disputed⟩, tally,
      update b.votes oracle (some vote)⟩ where
  toTallied := h.toTallied.addVote hnone result disputed tally
  counted a v hv := by
    change a ∈ supporters v (Oracle.addVote oracle vote b.candidates)
    rw [supporters_addVote]
    by_cases ha : a = oracle
    · subst ha
      have hself : update b.votes a (some vote) a = some vote := update_self ..
      obtain rfl := Option.some.inj (hself.symm.trans hv)
      rw [if_pos rfl]
      exact mem_append_right _ (mem_singleton_self _)
    · have hmem := h.counted a v ((update_of_ne ha ..).symm.trans hv)
      by_cases hvote : v = vote
      · subst hvote
        rw [if_pos rfl]
        exact mem_append_left _ hmem
      · rwa [if_neg hvote]

theorem Ballot.Exact.empty : Ballot.Exact ⟨none, none, none, fun _ => none⟩ where
  toTallied := .of_cleared rfl
  counted _ _ h := by simp at h

end

/-! ## Runs of votes -/

/-- A match without result whose tally is exactly the recorded votes. No candidate has reached
the threshold, and the cached count is what a recount gives. -/
structure World.Polling (w : World) (matchId : ℕ) : Prop where
  result : w.results.result matchId = none
  tally : (w.ballot matchId).Exact
  short : ∀ v, (supporters v (w.ballot matchId).candidates).length < w.control.threshold
  cache : ∀ t, w.votes.voteTally matchId = some t →
    t.remainingEligible = w.countRemainingEligibleOracles matchId

section

variable {w : World} {s : Submission}

theorem World.cast_control (w : World) (s : Submission) : (w.cast s).control = w.control := by
  by_cases hc : Commits s.env s.call w
  · exact (Call.exec_keeps .control rfl).ok hc.exec_eq
  · rw [World.cast, show step w s.event = w from step_of_not_commits hc]

/-- While the count is what a recount gives, the recount of the state with the vote is stored. -/
theorem World.Polling.cast_ballot (hs : w.stakes.Listed) (hpoll : w.Polling s.matchId)
    (h : Counted w s) : (w.cast s).ballot s.matchId =
      ⟨none, some ⟨addVote s.oracle s.vote (w.ballot s.matchId).candidates,
        !stillPossible w.control.threshold ((w.cast s).countRemainingEligibleOracles s.matchId)
          (addVote s.oracle s.vote (w.ballot s.matchId).candidates)⟩,
        some ⟨(w.cast s).countRemainingEligibleOracles s.matchId,
          w.stakes.oracleEligibilityVersion⟩,
        update (w.ballot s.matchId).votes s.oracle (some s.vote)⟩ := by
  have htally := tally_of_counted (fun t ht _ => hpoll.cache t ht) hs h
  have hremaining : ((s.charged w).voted s.matchId s.oracle s.vote).remainingEligible s.matchId =
      (w.cast s).countRemainingEligibleOracles s.matchId :=
    congrArg VoteTally.remainingEligible
      (Option.some.inj ((congrArg Ballot.tally h.ballot).symm.trans htally))
  rw [h.ballot, hremaining]

theorem World.Polling.counted (hs : w.stakes.Listed) (hpoll : w.Polling s.matchId)
    (h : Counted w s) : (w.cast s).Polling s.matchId := by
  have hballot := hpoll.cast_ballot hs h
  refine ⟨congrArg Ballot.result hballot, ?_, fun v => ?_, fun t ht => ?_⟩
  · rw [hballot]
    exact hpoll.tally.addVote h.first _ _ _
  · rw [h.candidates, cast_control, supporters_addVote]
    by_cases hv : v = s.vote
    · rw [if_pos hv]
      exact h.short
    · rw [if_neg hv]
      exact hpoll.short v
  · obtain rfl := Option.some.inj ((congrArg Ballot.tally hballot).symm.trans ht)
    rfl

/-- A slash of an oracle that has voted changes neither the ballot nor who may still vote. -/
theorem World.Polling.slashed {w' : World} {bps : ℤ} {id : ℕ} {oracle : Address}
    {vote : OracleVoteRecord} {env : Env} (hpoll : w.Polling id)
    (hvote : w.votes.oracleVote (id, oracle) = some vote)
    (hslash : Slashed env w oracle bps w') : w'.Polling id := by
  have hballot := hslash.ballot id
  have hcontrol : w'.control = w.control := hslash.view_eq .control (by simp) (by simp)
  have hcount : w'.countRemainingEligibleOracles id = w.countRemainingEligibleOracles id := by
    unfold World.countRemainingEligibleOracles
    rw [hslash.oracleSet]
    refine countP_congr fun a _ => ?_
    rw [mayVote_eq, mayVote_eq, hballot]
    by_cases ha : a = oracle
    · subst ha
      have hvoted : (w.ballot id).votes a = some vote := hvote
      simp [hvoted]
    · rw [Stakes.eligible, hslash.registration_of_ne ha, ← Stakes.eligible]
  refine ⟨(congrArg Ballot.result hballot).trans hpoll.result, ?_, fun v => ?_, fun t ht => ?_⟩
  · rw [hballot]
    exact hpoll.tally
  · rw [hballot, hcontrol]
    exact hpoll.short v
  · rw [hcount]
    exact hpoll.cache t ((congrArg Ballot.tally hballot).symm.trans ht)

end

/-! ## Honest oracles and others -/

/-- The oracle has authorised the call, the limits let it in, and no slash traps. -/
structure Smooth (w : World) (s : Submission) : Prop where
  auth : s.oracle ∈ s.env.auths
  lets : w.limits.Lets s.oracle s.env.timestamp
  runs : s.call.exec s.env w ≠ .trap

instance (w : World) (s : Submission) : Decidable (Smooth w s) :=
  decidable_of_iff (s.oracle ∈ s.env.auths ∧ w.limits.Lets s.oracle s.env.timestamp ∧
    s.call.exec s.env w ≠ .trap) ⟨fun h => ⟨h.1, h.2.1, h.2.2⟩, fun h => ⟨h.auth, h.lets, h.runs⟩⟩

/-- A call on the match : an honest oracle sends the candidate `c`, another one anything. -/
structure Plays (matchId : ℕ) (c : OracleVoteRecord) (honest others : Finset Address) (w : World)
    (s : Submission) : Prop where
  matchId_eq : s.matchId = matchId
  mem : s.oracle ∈ honest ∨ s.oracle ∈ others
  vote_eq : s.oracle ∈ honest → s.vote = c
  smooth : s.oracle ∈ honest → Smooth w s

instance (matchId : ℕ) (c : OracleVoteRecord) (honest others : Finset Address) :
    DecidableRel (Plays matchId c honest others) := fun w s =>
  decidable_of_iff (s.matchId = matchId ∧ (s.oracle ∈ honest ∨ s.oracle ∈ others) ∧
    (s.oracle ∈ honest → s.vote = c) ∧ (s.oracle ∈ honest → Smooth w s))
    ⟨fun h => ⟨h.1, h.2.1, h.2.2.1, h.2.2.2⟩,
      fun h => ⟨h.matchId_eq, h.mem, h.vote_eq, h.smooth⟩⟩

/-- The match has no result, and of the honest oracles exactly those in `called` have voted, for
`c`. The others still have their stake. -/
structure Undecided (matchId : ℕ) (c : OracleVoteRecord) (honest others : Finset Address)
    (called : List Address) (w : World) : Prop where
  sound : w.stakes.Sound
  polling : w.Polling matchId
  disputed : (w.votes.state matchId).disputed = false
  voted : ∀ a ∈ honest, a ∈ called → w.votes.oracleVote (matchId, a) = some c
  waiting : ∀ a ∈ honest, a ∉ called →
    w.votes.oracleVote (matchId, a) = none ∧ w.stakes.eligible a = true
  voters : ∀ a v, w.votes.oracleVote (matchId, a) = some v → a ∈ others ∨ v = c

/-- The match has the result `c`, and no tally. -/
def Decided (matchId : ℕ) (c : OracleVoteRecord) (w : World) : Prop :=
  ∃ entry, w.results.result matchId = some entry ∧ entry.vote = c ∧
    w.votes.matchVotes matchId = none

section

variable {w : World} {s : Submission} {c : OracleVoteRecord} {honest others : Finset Address}
  {called : List Address} {id : ℕ}

theorem slashSubmitters_not_err {env : Env} {w w' : World} {e : Error}
    (candidates : List CandidateTally) : slashSubmitters candidates env w ≠ .err e w' :=
  Tx.forEach_not_err (fun _ _ _ _ => slashBps_not_err) _ _ _ _

/-- A call that neither fails nor traps returns. -/
theorem Smooth.commits (h : Smooth w s) (herr : ∀ e w', s.call.exec s.env w ≠ .err e w') :
    Commits s.env s.call w := by
  cases hexec : s.call.exec s.env w with
  | ok u w' => exact ⟨w', hexec⟩
  | err e w' => exact absurd hexec (herr e w')
  | trap => exact absurd hexec h.runs

/-- A first vote that the checks let in returns, unless a slash traps. -/
theorem Smooth.commits_of_first (h : Smooth w s) (hopen : VoteOpen s.env w s.oracle s.vote)
    (hres : w.results.result s.matchId = none)
    (hnone : w.votes.oracleVote (s.matchId, s.oracle) = none)
    (hdisputed : (w.votes.state s.matchId).disputed = false) : Commits s.env s.call w := by
  refine h.commits fun e w' herr => ?_
  rw [s.exec_first hopen h.lets hres hnone] at herr
  rcases le_or_gt w.control.threshold
    (supporters s.vote (w.votes.state s.matchId).candidates ++ [s.oracle]).length with hle | hlt
  · rw [recordVote_of_reached (w := s.charged w) hdisputed hle, Tx.bind_err_iff] at herr
    rcases herr with herr | ⟨_, _, -, herr⟩
    · exact slashSubmitters_not_err _ herr
    · exact modifyVotes_err_iff.mp herr
  · rw [recordVote_of_short (w := s.charged w) hdisputed hlt] at herr
    exact absurd herr (by simp)

theorem Undecided.voteOpen (h : Undecided id c honest others called w)
    (hpaused : w.control.paused = false) (hadmin : w.control.admin.isSome = true)
    (hc : c.gameId ≠ []) (hs : Plays id c honest others w s) (hhonest : s.oracle ∈ honest)
    (hnew : s.oracle ∉ called) : VoteOpen s.env w s.oracle s.vote where
  paused := hpaused
  admin := hadmin
  auth := (hs.smooth hhonest).auth
  gameId := by
    rw [hs.vote_eq hhonest]
    exact hc
  staked := Stakes.eligible_iff.mp (h.waiting s.oracle hhonest hnew).2

/-- A candidate with enough votes is the one of the honest oracles. -/
theorem Undecided.vote_eq_of_reached (h : Undecided id c honest others called w)
    (hothers : others.card < w.control.threshold) (hs : Plays id c honest others w s)
    (hnone : w.votes.oracleVote (id, s.oracle) = none) (hreached : w.control.threshold ≤
      (supporters s.vote (w.ballot id).candidates ++ [s.oracle]).length) : s.vote = c := by
  have hnodup : (supporters s.vote (w.ballot id).candidates ++ [s.oracle]).Nodup := by
    refine nodup_append.mpr ⟨h.polling.tally.supporters_nodup _, nodup_singleton _, ?_⟩
    rintro a ha b hb rfl
    obtain rfl := mem_singleton.mp hb
    have hvote : w.votes.oracleVote (id, s.oracle) = some s.vote :=
      h.polling.tally.vote_of_supporter ha
    cases hnone.symm.trans hvote
  obtain ⟨a, ha, hnot⟩ := exists_notMem_of_card_lt hnodup (hothers.trans_le hreached)
  rcases mem_append.mp ha with ha | ha
  · exact (h.voters a s.vote (h.polling.tally.vote_of_supporter ha)).resolve_left hnot
  · obtain rfl := mem_singleton.mp ha
    exact hs.vote_eq (hs.mem.resolve_right hnot)

/-- A candidate that can still get enough votes. -/
theorem stillPossible_of_mem {threshold remaining : ℕ} {cs : List CandidateTally}
    {d : CandidateTally} (hd : d ∈ cs) (hmax : threshold ≤ u32Max)
    (h : threshold ≤ d.submitters.length + remaining) :
    stillPossible threshold remaining cs = true := by
  refine any_eq_true.mpr ⟨d, hd, decide_eq_true ?_⟩
  exact le_min hmax h

theorem Control.threshold_le (control : Control) : control.threshold ≤ u32Max := by
  unfold Control.threshold
  cases control.consensusThreshold with
  | none => decide
  | some t => exact toNat_le_u32Max t

/-- The honest oracles that have voted and those that may still vote are enough. -/
theorem stillPossible_of_honest (hs : w.stakes.Sound) (hpoll : w.Polling id)
    (hvoted : ∀ a ∈ honest, a ∈ called → w.votes.oracleVote (id, a) = some c)
    (hwaiting : ∀ a ∈ honest, a ∉ called →
      w.votes.oracleVote (id, a) = none ∧ w.stakes.eligible a = true)
    (hhonest : w.control.threshold ≤ honest.card) {d : CandidateTally}
    (hd : d ∈ (w.ballot id).candidates) :
    stillPossible w.control.threshold (w.countRemainingEligibleOracles id)
      (w.ballot id).candidates = true := by
  have hmay {a : Address} (ha : a ∈ honest) (hnot : a ∉ called) :
      a ∈ w.stakes.oracleSet.filter (w.mayVote id) := by
    obtain ⟨hnone, heligible⟩ := hwaiting a ha hnot
    obtain ⟨r, hr, -⟩ := Stakes.eligible_iff.mp heligible
    have hballot : (w.ballot id).votes a = none := hnone
    refine mem_filter.mpr ⟨hs.mem hr, ?_⟩
    rw [mayVote_eq, hballot, heligible]
    rfl
  have hcount : w.countRemainingEligibleOracles id =
      (w.stakes.oracleSet.filter (w.mayVote id)).length := countP_eq_length_filter
  by_cases hany : ∃ a ∈ honest, a ∈ called
  · obtain ⟨a, ha, hcalled⟩ := hany
    have hsupports {a : Address} (ha : a ∈ honest) (hcalled : a ∈ called) :
        a ∈ supporters c (w.ballot id).candidates :=
      hpoll.tally.counted a c (hvoted a ha hcalled)
    refine stillPossible_of_mem (tally_supporters_mem (hsupports ha hcalled))
      w.control.threshold_le ?_
    rw [hcount, tally_submitters]
    refine hhonest.trans (card_le_length_add fun b hb => ?_)
    by_cases hb' : b ∈ called
    · exact .inl (hsupports hb hb')
    · exact .inr (hmay hb hb')
  · -- nobody honest has voted yet, so that any candidate will do
    refine stillPossible_of_mem hd w.control.threshold_le ?_
    rw [hcount]
    refine hhonest.trans (card_le_length_add fun b hb => .inr (hmay hb fun hb' => ?_))
    exact hany ⟨b, hb, hb'⟩

/-- The honest oracles that have voted are too few. -/
theorem Undecided.card_lt (h : Undecided id c honest others called w) {t : Finset Address}
    (ht : ∀ a ∈ t, a ∈ honest ∧ a ∈ called) : t.card < w.control.threshold := by
  have hcard : t.card ≤ (supporters c (w.ballot id).candidates).length +
      ([] : List Address).length :=
    card_le_length_add fun a ha =>
      .inl (h.polling.tally.counted a c (h.voted a (ht a ha).1 (ht a ha).2))
  exact hcard.trans_lt (h.polling.short c)

/-! ## One call -/

/-- The vote that its candidate needed makes the result. -/
theorem World.cast_decided (hc : Commits s.env s.call w) (hres : w.results.result s.matchId = none)
    (hnone : w.votes.oracleVote (s.matchId, s.oracle) = none) (hreached : w.control.threshold ≤
      (supporters s.vote (w.ballot s.matchId).candidates ++ [s.oracle]).length) :
    Decided s.matchId s.vote (w.cast s) := by
  rw [ballot_candidates] at hreached
  obtain ⟨-, w2, hslash, hstep⟩ := s.slashes_of_reached hc hres hnone hreached
  have hballot : (w.cast s).ballot s.matchId = _ :=
    (congrArg (World.ballot · s.matchId) hstep).trans (clear_ballot ..)
  rw [if_pos rfl, slashSubmitters_ballot hslash, s.finalized_ballot, if_pos rfl] at hballot
  exact ⟨_, congrArg Ballot.result hballot, rfl, congrArg Ballot.state hballot⟩

/-- A second vote that returns is slashed. -/
theorem World.cast_slashed {prev : OracleVoteRecord} (hc : Commits s.env s.call w)
    (hres : w.results.result s.matchId = none)
    (hprev : w.votes.oracleVote (s.matchId, s.oracle) = some prev) :
    Slashed s.env (s.charged w) s.oracle equivocationSlashBps (w.cast s) := by
  have hvoted := (s.voted hc).2
  change Slashed _ _ _ _ (step w s.event)
  generalize step w s.event = w' at hvoted
  cases hvoted with
  | late finalized hsome => cases hres.symm.trans hsome
  | equivocated _ _ hlets _ hne _ hslash => exact hslash
  | finalized _ hlets hnone => cases hnone.symm.trans hprev
  | counted _ hlets hnone => cases hnone.symm.trans hprev

/-- A call of an oracle that is not honest, and that changes no vote and no other stake. -/
theorem Undecided.kept {w' : World} (h : Undecided id c honest others called w)
    (hsound : w'.stakes.Sound) (hpoll : w'.Polling id)
    (hballot : w'.ballot id = w.ballot id) (hnot : s.oracle ∉ honest)
    (hstake : ∀ a, a ≠ s.oracle → w'.stakes.registration a = w.stakes.registration a) :
    Undecided id c honest others (called ++ [s.oracle]) w' := by
  have hvote (a : Address) : w'.votes.oracleVote (id, a) = w.votes.oracleVote (id, a) :=
    congrFun (congrArg Ballot.votes hballot) a
  have hne {a : Address} (ha : a ∈ honest) : a ≠ s.oracle := by
    rintro rfl
    exact hnot ha
  refine ⟨hsound, hpoll, ?_, fun a ha hmem => ?_, fun a ha hmem => ?_, fun a v hv => ?_⟩
  · have hstate : w'.votes.matchVotes id = w.votes.matchVotes id := congrArg Ballot.state hballot
    rw [Votes.state, hstate]
    exact h.disputed
  · rw [hvote]
    exact h.voted a ha (by simpa [hne ha] using hmem)
  · obtain ⟨hnone, heligible⟩ := h.waiting a ha fun hcalled => hmem (mem_append_left _ hcalled)
    rw [hvote, Stakes.eligible, hstake a (hne ha)]
    exact ⟨hnone, heligible⟩
  · exact h.voters a v ((hvote a).symm.trans hv)

/-- A vote that is counted leaves the match undecided, and not disputed. -/
theorem Undecided.counted (h : Undecided s.matchId c honest others called w)
    (hhonest : w.control.threshold ≤ honest.card) (hs : Plays s.matchId c honest others w s)
    (hcounted : Counted w s) :
    Undecided s.matchId c honest others (called ++ [s.oracle]) (w.cast s) := by
  have hlisted := h.sound.toListed
  have hballot := h.polling.cast_ballot hlisted hcounted
  have hpoll := h.polling.counted hlisted hcounted
  have hsound : (w.cast s).stakes.Sound := step_sound h.sound s.event
  have hself : (w.cast s).votes.oracleVote (s.matchId, s.oracle) = some s.vote := by
    rw [hcounted.oracleVote, if_pos rfl]
  have hother {a : Address} (ha : a ≠ s.oracle) :
      (w.cast s).votes.oracleVote (s.matchId, a) = w.votes.oracleVote (s.matchId, a) := by
    rw [hcounted.oracleVote, if_neg ha]
  have hvoted : ∀ a ∈ honest, a ∈ called ++ [s.oracle] →
      (w.cast s).votes.oracleVote (s.matchId, a) = some c := by
    intro a ha hmem
    by_cases heq : a = s.oracle
    · subst heq
      rw [hself, hs.vote_eq ha]
    · rw [hother heq]
      exact h.voted a ha (by simpa [heq] using hmem)
  have hwaiting : ∀ a ∈ honest, a ∉ called ++ [s.oracle] →
      (w.cast s).votes.oracleVote (s.matchId, a) = none ∧ (w.cast s).stakes.eligible a = true := by
    intro a ha hmem
    have hne : a ≠ s.oracle := by
      rintro rfl
      exact hmem (mem_append_right _ (mem_singleton_self _))
    rw [hother hne, hcounted.stakes]
    exact h.waiting a ha fun hcalled => hmem (mem_append_left _ hcalled)
  refine ⟨hsound, hpoll, ?_, hvoted, hwaiting, fun a v hv => ?_⟩
  · have hnew : s.vote.tally (supporters s.vote (w.ballot s.matchId).candidates ++ [s.oracle]) ∈
        ((w.cast s).ballot s.matchId).candidates := by
      rw [hcounted.candidates]
      exact mem_addVote.mpr (.inl rfl)
    have hstill := stillPossible_of_honest hsound hpoll hvoted hwaiting
      (by rwa [cast_control]) hnew
    have hstate : (w.cast s).votes.matchVotes s.matchId = _ := congrArg Ballot.state hballot
    rw [cast_control, hcounted.candidates] at hstill
    rw [Votes.state, hstate, Option.getD_some, hstill]
    rfl
  · by_cases heq : a = s.oracle
    · subst heq
      obtain rfl := Option.some.inj (hself.symm.trans hv)
      exact hs.mem.symm.imp_right hs.vote_eq
    · exact h.voters a v ((hother heq).symm.trans hv)

/-- One call on an undecided match. -/
theorem Undecided.cast (h : Undecided id c honest others called w)
    (hpaused : w.control.paused = false) (hadmin : w.control.admin.isSome = true)
    (hc : c.gameId ≠ []) (hhonest : w.control.threshold ≤ honest.card)
    (hothers : others.card < w.control.threshold) (hs : Plays id c honest others w s)
    (hnew : s.oracle ∈ honest → s.oracle ∉ called) :
    Undecided id c honest others (called ++ [s.oracle]) (w.cast s) ∨ Decided id c (w.cast s) := by
  obtain rfl := hs.matchId_eq
  have hres := h.polling.result
  by_cases hcommits : Commits s.env s.call w
  · cases hprev : w.votes.oracleVote (s.matchId, s.oracle) with
    | some =>
      have hnot : s.oracle ∉ honest := fun hmem => by
        rw [(h.waiting s.oracle hmem (hnew hmem)).1] at hprev
        exact absurd hprev (by simp)
      have hslash := cast_slashed hcommits hres hprev
      have hpoll : (s.charged w).Polling s.matchId :=
        ⟨hres, h.polling.tally, h.polling.short, h.polling.cache⟩
      exact .inl (h.kept (step_sound h.sound s.event) (hpoll.slashed hprev hslash)
        (hslash.ballot s.matchId) hnot fun a ha => hslash.registration_of_ne ha)
    | none =>
      rcases le_or_gt w.control.threshold
        (supporters s.vote (w.ballot s.matchId).candidates ++ [s.oracle]).length with hle | hlt
      · have hvote := h.vote_eq_of_reached hothers hs hprev hle
        have hdecided := cast_decided hcommits hres hprev hle
        rw [hvote] at hdecided
        exact .inr hdecided
      · exact .inl (h.counted hhonest hs ⟨hcommits, hres, hprev, hlt⟩)
  · have hnot : s.oracle ∉ honest := fun hmem => by
      have hopen := h.voteOpen hpaused hadmin hc hs hmem (hnew hmem)
      exact hcommits ((hs.smooth hmem).commits_of_first hopen hres
        (h.waiting s.oracle hmem (hnew hmem)).1 h.disputed)
    rw [World.cast, show step w s.event = w from step_of_not_commits hcommits]
    exact .inl (h.kept h.sound h.polling rfl hnot fun _ _ => rfl)

/-- A result that votes have made stays. -/
theorem Decided.cast (h : Decided id c w) (s : Submission) : Decided id c (w.cast s) := by
  obtain ⟨entry, hres, hvote, hstate⟩ := h
  have hstep := step_ballot w s.event id
  have hballot : (w.cast s).ballot id = w.ballot id := by
    change (step w s.event).ballot id = _
    generalize (step w s.event).ballot id = b at hstep
    cases hstep using BallotStep.submission_cases with
    | kept => rfl
    | counted hid hc hopen hnone | finalized hid hc hopen hnone => cases hnone.symm.trans hres
  exact ⟨entry, (congrArg Ballot.result hballot).trans hres, hvote,
    (congrArg Ballot.state hballot).trans hstate⟩

end

/-! ## The bound -/

/-- A reachable state of the contract in which nothing is known about the match. -/
structure World.Fresh (w : World) (matchId : ℕ) : Prop where
  reachable : Reachable w
  paused : w.control.paused = false
  admin : w.control.admin.isSome = true
  ballot : w.ballot matchId = ⟨none, none, none, fun _ => none⟩

section

variable {w : World} {id : ℕ} {c : OracleVoteRecord} {honest others : Finset Address}
  {ss : List Submission}

theorem World.Fresh.sound (h : w.Fresh id) : w.stakes.Sound := by
  obtain ⟨ledger, es, rfl⟩ := h.reachable
  exact run_sound ledger es

theorem World.Fresh.polling (h : w.Fresh id) (hpos : 0 < w.control.threshold) : w.Polling id := by
  refine ⟨congrArg Ballot.result h.ballot, ?_, fun v => ?_, fun t ht => ?_⟩
  · rw [h.ballot]
    exact .empty
  · rw [h.ballot]
    exact hpos
  · exact absurd ((congrArg Ballot.tally h.ballot).symm.trans ht) (by simp)

theorem World.Fresh.undecided (h : w.Fresh id) (hpos : 0 < w.control.threshold)
    (hstaked : ∀ a ∈ honest, w.stakes.eligible a = true) : Undecided id c honest others [] w := by
  have hvote (a : Address) : w.votes.oracleVote (id, a) = none :=
    congrFun (congrArg Ballot.votes h.ballot) a
  refine ⟨h.sound, h.polling hpos, ?_, by simp, fun a ha _ => ⟨hvote a, hstaked a ha⟩,
    fun a v hv => absurd ((hvote a).symm.trans hv) (by simp)⟩
  rw [Votes.state, show w.votes.matchVotes id = none from congrArg Ballot.state h.ballot]
  rfl

theorem run_cast_control (w : World) (ss : List Submission) :
    (run World.cast w ss).control = w.control :=
  run_inv (I := fun w' : World => w'.control = w.control)
    (fun w' s h _ => (w'.cast_control s).trans h) rfl (along_true _ _)

/-- Until the match has the result `c` it is undecided. -/
theorem run_undecided (hfresh : w.Fresh id) (hc : c.gameId ≠ [])
    (hhonest : w.control.threshold ≤ honest.card) (hothers : others.card < w.control.threshold)
    (hstaked : ∀ a ∈ honest, w.stakes.eligible a = true)
    (honce : ((ss.map Submission.oracle).filter (· ∈ honest)).Nodup)
    (hplays : Along World.cast (Plays id c honest others) w ss) :
    Undecided id c honest others (ss.map Submission.oracle) (run World.cast w ss) ∨
      Decided id c (run World.cast w ss) := by
  revert honce
  refine history_inv (I := fun ss => ((ss.map Submission.oracle).filter (· ∈ honest)).Nodup →
    Undecided id c honest others (ss.map Submission.oracle) (run World.cast w ss) ∨
      Decided id c (run World.cast w ss))
    (fun _ => .inl (hfresh.undecided (by omega) hstaked)) (fun ss s ih hs honce => ?_) hplays
  rw [map_append, filter_append] at honce
  obtain ⟨hold, -, hdisjoint⟩ := nodup_append.mp honce
  rw [run_snoc, map_append]
  rcases ih hold with hundecided | hdecided
  · have hcontrol := run_cast_control w ss
    refine hundecided.cast (by rw [hcontrol, hfresh.paused]) (by rw [hcontrol, hfresh.admin]) hc
      (by rwa [hcontrol]) (by rwa [hcontrol]) hs fun hmem hcalled => ?_
    exact hdisjoint s.oracle (mem_filter.mpr ⟨hcalled, by simpa using hmem⟩) s.oracle
      (by simpa using hmem) rfl
  · exact .inr (hdecided.cast s)

/-- The Byzantine bound. On a match without result and without votes, at least as many honest
oracles as the threshold asks for send the candidate `c`, each at most once so far, and fewer
others send anything any number of times. Then no other candidate is the result, the match is
not disputed, and once enough honest oracles have called, `c` is the result. -/
theorem byzantine_bound (hfresh : w.Fresh id) (hc : c.gameId ≠ [])
    (hhonest : w.control.threshold ≤ honest.card) (hothers : others.card < w.control.threshold)
    (hstaked : ∀ a ∈ honest, w.stakes.eligible a = true)
    (honce : ((ss.map Submission.oracle).filter (· ∈ honest)).Nodup)
    (hplays : Along World.cast (Plays id c honest others) w ss) :
    let w' := run World.cast w ss
    (∀ entry, w'.results.result id = some entry → entry.vote = c) ∧
      (w'.votes.state id).disputed = false ∧
      (w.control.threshold ≤ ((ss.map Submission.oracle).filter (· ∈ honest)).length →
        ∃ entry, w'.results.result id = some entry ∧ entry.vote = c) := by
  intro w'
  rcases run_undecided hfresh hc hhonest hothers hstaked honce hplays with h | h
  · have hres : w'.results.result id = none := h.polling.result
    refine ⟨fun entry hentry => absurd (hres.symm.trans hentry) (by simp), h.disputed,
      fun henough => ?_⟩
    have hfew := h.card_lt (t := ((ss.map Submission.oracle).filter (· ∈ honest)).toFinset)
      fun a ha => by simpa [and_comm] using ha
    rw [run_cast_control, toFinset_card_of_nodup honce] at hfew
    omega
  · obtain ⟨entry, hres, hvote, hstate⟩ := h
    refine ⟨fun entry' hentry' => ?_, ?_, fun _ => ⟨entry, hres, hvote⟩⟩
    · obtain rfl := Option.some.inj (hres.symm.trans hentry')
      exact hvote
    · rw [Votes.state, show w'.votes.matchVotes id = none from hstate]
      rfl

end

/-- Of three oracles one votes for another candidate, then against its own vote, and the two
others decide the match. -/
theorem byzantine_bound_threeOracles :
    let w := run step (.deployed plainLedger) threeOracles
    let ss := [voteOf 2 .player1, voteOf 3 .player2, voteOf 2 .draw, voteOf 4 .player2]
    Along World.cast (Plays 0 (voteOf 3 .player2).vote {.ext 3, .ext 4} {.ext 2}) w ss ∧
      ∃ entry, (run World.cast w ss).results.result 0 = some entry ∧
        entry.vote = (voteOf 3 .player2).vote := by
  intro w ss
  have hfresh : w.Fresh 0 :=
    ⟨⟨plainLedger, threeOracles, rfl⟩, by decide +kernel, by decide +kernel, rfl⟩
  have hplays : Along World.cast
      (Plays 0 (voteOf 3 .player2).vote {.ext 3, .ext 4} {.ext 2}) w ss := by decide +kernel
  refine ⟨hplays, (byzantine_bound hfresh (by decide) (by decide +kernel) (by decide +kernel)
    (by decide +kernel) (by decide +kernel) hplays).2.2 (by decide +kernel)⟩

end Checkmate.Oracle

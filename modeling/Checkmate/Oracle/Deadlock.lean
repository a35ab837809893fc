import Checkmate.Oracle.Payments

/-!
# When a match is disputed

A vote that does not make the result marks the match as disputed if no candidate can get enough
votes any more, counting every oracle that has stake and has not voted. Nobody can vote on a
disputed match.

The count includes oracles that the admin has deactivated, though they cannot vote, and it does
not look at whether the slashes that come with a result can be paid. `Rescuable` is what is
really needed. A match that is not disputed can get a result by further votes if and only if
it is rescuable (`couldFinalize_iff`), so the flag is exact if and only if it is set or the
match is rescuable (`disputed_exact_iff`).
-/

namespace Checkmate.Oracle

open List World Option CandidateTally Bool Stakes

/-! ## What votes wear down -/

/-- What calls of `submitOracleResult` can do to the register : stakes are taken, and nothing is
won for slashes that are still to come. -/
structure Worn (w w' : World) : Prop where
  control : w'.control = w.control
  oracleSet : w'.stakes.oracleSet = w.stakes.oracleSet
  eligible : ∀ a, w'.stakes.eligible a = true → w.stakes.eligible a = true
  tracks : w.stakes.Tracks w'.stakes
  active : ∀ a, (w'.limits.metrics a).active = (w.limits.metrics a).active
  pays : ∀ l : List Address, l.Nodup → w'.Pays l → w.Pays l

section

variable {env : Env} {w w' w'' : World} {u : Unit} {oracle admin : Address}

theorem Worn.refl (w : World) : Worn w w :=
  ⟨rfl, rfl, fun _ h => h, .refl _, fun _ => rfl, fun _ _ h => h⟩

theorem Worn.trans (h : Worn w w') (h' : Worn w' w'') : Worn w w'' where
  control := h'.control.trans h.control
  oracleSet := h'.oracleSet.trans h.oracleSet
  eligible a ha := h.eligible a (h'.eligible a ha)
  tracks := h.tracks.trans h'.tracks
  active a := (h'.active a).trans (h.active a)
  pays l hl hpays := h.pays l hl (h'.pays l hl hpays)

/-- Only the register, the balances, the settings and the metrics matter. -/
theorem Worn.of_same (hcontrol : w'.control = w.control) (hstakes : w'.stakes = w.stakes)
    (hledger : w'.ledger = w.ledger)
    (hactive : ∀ a, (w'.limits.metrics a).active = (w.limits.metrics a).active) : Worn w w' where
  control := hcontrol
  oracleSet := by rw [hstakes]
  eligible a := by rw [hstakes]; exact id
  tracks := hstakes ▸ .refl _
  active := hactive
  pays _ _ h := h.congr hcontrol.symm hstakes.symm hledger.symm

theorem Slashed.eligible {bps : ℤ} (h : Slashed env w oracle bps w') (a : Address)
    (ha : w'.stakes.eligible a = true) : w.stakes.eligible a = true := by
  by_cases heq : a = oracle
  · subst heq
    obtain ⟨r', hr', hpos⟩ := eligible_iff.mp ha
    rw [h.registration_self] at hr'
    obtain ⟨r, hr, rfl⟩ := map_eq_some_iff.mp hr'
    have hshare := r.share_nonneg bps
    change 0 < r.oracleStake - r.share bps at hpos
    exact eligible_iff.mpr ⟨r, hr, by omega⟩
  · rwa [Stakes.eligible, h.registration_of_ne heq] at ha

theorem Slashed.worn {bps : ℤ} (h : Slashed env w oracle bps w')
    (hbps : bps = minoritySlashBps ∨ bps = equivocationSlashBps)
    (hadmin : w.control.admin = some admin) : Worn w w' where
  control := h.control
  oracleSet := h.oracleSet
  eligible := h.eligible
  tracks := h.tracks
  active a := by
    have hlimits : w'.limits = w.limits := h.view_eq .limits (by simp) (by simp)
    rw [hlimits]
  pays _ hl hpays := h.pays hbps hadmin hl hpays

theorem slashSubmitters_worn {candidates : List CandidateTally}
    (h : slashSubmitters candidates env w = .ok u w') (hadmin : w.control.admin = some admin) :
    Worn w w' := by
  refine Tx.forEach_rel (R := fun w w' : World => w.control.admin = some admin → Worn w w')
    (fun w _ => .refl w) (fun h h' hadmin => ?_) (fun _ _ _ _ _ hslash hadmin => ?_) h hadmin
  · exact (h hadmin).trans (h' ((h hadmin).control ▸ hadmin))
  · exact (slashBps_ok hslash).worn (.inl rfl) hadmin

theorem Submission.charged_worn (s : Submission) (w : World) : Worn w (s.charged w) :=
  .of_same rfl rfl rfl fun _ => Limits.submitted_active ..

theorem World.cast_worn (w : World) (s : Submission) : Worn w (w.cast s) := by
  by_cases hc : Commits s.env s.call w
  · obtain ⟨hopen, hvoted⟩ := s.voted hc
    obtain ⟨admin, hadmin⟩ := isSome_iff_exists.mp hopen.admin
    have hcharged := s.charged_worn w
    change Worn w (step w s.event)
    generalize step w s.event = w' at hvoted
    cases hvoted with
    | late finalized hres hne _ hslash => exact hslash.worn (.inl rfl) hadmin
    | equivocated prev hres hlets hprev hne _ hslash =>
      exact hcharged.trans (hslash.worn (.inr rfl) hadmin)
    | finalized hres hlets hnone hdisputed hreached w2 hslash =>
      have hstored : Worn w (((s.charged w).voted s.matchId s.oracle s.vote).withResults
          (w.results.finalized s.env s.matchId s.oracle s.vote
            (supporters s.vote (w.votes.state s.matchId).candidates ++ [s.oracle]))) :=
        hcharged.trans (.of_same rfl rfl rfl fun _ => rfl)
      have hslashed := slashSubmitters_worn hslash hadmin
      exact (hstored.trans hslashed).trans (.of_same rfl rfl rfl fun _ => rfl)
    | counted => exact hcharged.trans (.of_same rfl rfl rfl fun _ => rfl)
  · rw [World.cast, show step w s.event = w from step_of_not_commits hc]
    exact .refl w

end

/-! ## Tallies that grow -/

section Count

variable {oracle : Address} {vote v : OracleVoteRecord} {d : CandidateTally}

theorem rivals_cons (v : OracleVoteRecord) (c : CandidateTally) (cs : List CandidateTally) :
    rivals v (c :: cs) = if c.vote = v then cs else c :: rivals v cs := by
  simp [rivals]

/-- A further vote for another candidate adds to the rivals. -/
theorem rivals_addVote : ∀ cs : List CandidateTally, rivals v (addVote oracle vote cs) =
      if v = vote then rivals v cs else addVote oracle vote (rivals v cs)
  | [] => by
    change rivals v [vote.tally [oracle]] = _
    rw [rivals_cons, OracleVoteRecord.tally_vote]
    by_cases hv : v = vote
    · rw [if_pos hv, if_pos hv.symm]
      rfl
    · rw [if_neg hv, if_neg (Ne.symm hv)]
      rfl
  | c :: cs => by
    by_cases hc : c.agrees vote = true
    · have hvote := agrees_iff.mp hc
      rw [addVote, if_pos hc, rivals_cons, rivals_cons]
      change (if c.vote = v then cs else _) = _
      by_cases hv : v = vote
      · rw [if_pos hv, if_pos (hvote.trans hv.symm), if_pos (hvote.trans hv.symm)]
      · have hne : c.vote ≠ v := fun h => hv (h.symm.trans hvote)
        rw [if_neg hv, if_neg hne, if_neg hne, addVote, if_pos hc]
    · have hvote : c.vote ≠ vote := fun h => hc (agrees_iff.mpr h)
      rw [addVote, if_neg hc, rivals_cons, rivals_cons, rivals_addVote cs]
      by_cases hcv : c.vote = v
      · rw [if_pos hcv, if_pos hcv, if_neg fun h => hvote (hcv.trans h)]
      · rw [if_neg hcv, if_neg hcv]
        by_cases hv : v = vote
        · rw [if_pos hv, if_pos hv]
        · rw [if_neg hv, if_neg hv, addVote, if_neg hc]

theorem addVote_sublist : ∀ cs : List CandidateTally, (cs.flatMap CandidateTally.submitters).Sublist
      ((addVote oracle vote cs).flatMap CandidateTally.submitters)
  | [] => nil_sublist _
  | c :: cs => by
    by_cases hc : c.agrees vote = true
    · rw [addVote, if_pos hc, flatMap_cons, flatMap_cons]
      exact (sublist_append_left _ _).append_right _
    · rw [addVote, if_neg hc, flatMap_cons, flatMap_cons]
      exact (List.Sublist.refl _).append (addVote_sublist cs)

/-- Further votes never take a rival away. -/
theorem rivals_addVote_sublist (cs : List CandidateTally) :
    ((rivals v cs).flatMap CandidateTally.submitters).Sublist
      ((rivals v (addVote oracle vote cs)).flatMap CandidateTally.submitters) := by
  rw [rivals_addVote]
  split
  · exact List.Sublist.refl _
  · exact addVote_sublist _

/-- A vote adds one supporter at most. -/
theorem supporters_addVote_length_le (cs : List CandidateTally) :
    (supporters v (addVote oracle vote cs)).length ≤ (supporters v cs).length + 1 := by
  rw [supporters_addVote]
  split
  · rename_i hv
    simp [hv]
  · omega

theorem supporters_of_mem : ∀ {cs : List CandidateTally}, (cs.map CandidateTally.vote).Nodup →
    d ∈ cs → supporters d.vote cs = d.submitters
  | c :: cs, hnodup, hd => by
    rw [map_cons] at hnodup
    obtain ⟨hnew, hnodup⟩ := nodup_cons.mp hnodup
    rw [supporters_cons]
    rcases mem_cons.mp hd with rfl | hd
    · rw [if_pos rfl]
    · have hne : c.vote ≠ d.vote := fun h => hnew (h ▸ mem_map_of_mem hd)
      rw [if_neg hne, supporters_of_mem hnodup hd]

/-- A candidate that does not stand in the tally has no supporters and only rivals. -/
theorem rivals_of_notMem : ∀ {cs : List CandidateTally}, (∀ c ∈ cs, c.vote ≠ v) →
    supporters v cs = [] ∧ rivals v cs = cs
  | [], _ => ⟨rfl, rfl⟩
  | c :: cs, h => by
    obtain ⟨hc, hcs⟩ := forall_mem_cons.mp h
    obtain ⟨hsupporters, hrivals⟩ := rivals_of_notMem hcs
    have hnot : ¬c.agrees v = true := fun hagrees => hc (agrees_iff.mp hagrees)
    rw [supporters, if_neg hnot, rivals, if_neg hnot, hsupporters, hrivals]
    exact ⟨rfl, rfl⟩

end Count

/-! ## What a result still needs -/

/-- The oracles that can vote on the match : they have not voted, have stake, and are active. -/
def World.able (w : World) (matchId : ℕ) : List Address :=
  w.stakes.oracleSet.filter fun a => w.mayVote matchId a && (w.limits.metrics a).active

/-- A candidate of the tally can still become the result. Some oracle can vote, those that can
are enough for the candidate, the match is not marked as disputed before they have all voted,
and the slashes of the other candidates' oracles are paid for. -/
def Rescuable (w : World) (matchId remaining : ℕ) (cs : List CandidateTally) : Prop :=
  w.able matchId ≠ [] ∧ ∃ c ∈ cs,
    w.control.threshold ≤ c.submitters.length + (w.able matchId).length ∧
    ((∃ d ∈ cs, w.control.threshold ≤ d.submitters.length) ∨
      w.control.threshold ≤ c.submitters.length + remaining) ∧
    w.Pays ((rivals c.vote cs).flatMap CandidateTally.submitters)

/-- Further votes of registered oracles, none of them before `time`, give the match a result. -/
def CouldFinalize (w : World) (matchId time : ℕ) : Prop :=
  ∃ ss : List Submission, Along World.cast (fun w s =>
    (w.stakes.registration s.oracle).isSome = true ∧ time ≤ s.env.timestamp) w ss ∧
      (run World.cast w ss).results.result matchId ≠ none

/-- A match without result on which some oracle has voted. `remaining` is the stored count. It is
what a recount gives, unless the version of the register has reached its largest value. -/
structure World.Awaiting (w : World) (matchId remaining : ℕ) : Prop where
  sound : w.stakes.Sound
  result : w.results.result matchId = none
  tallied : (w.ballot matchId).Tallied
  nonempty : (w.ballot matchId).candidates ≠ []
  stored : w.votes.voteTally matchId = some ⟨remaining, w.stakes.oracleEligibilityVersion⟩
  version_le : w.stakes.oracleEligibilityVersion ≤ u32Max
  recount : w.stakes.oracleEligibilityVersion < u32Max →
    remaining = w.countRemainingEligibleOracles matchId
  possible : (w.votes.state matchId).disputed = false →
    stillPossible w.control.threshold remaining (w.ballot matchId).candidates = true

/-! ## Votes that do not make a result -/

/-- After some further votes the match still has no result. The oracles in `new` have voted
meanwhile, and each vote has taken one from the count. -/
structure Stalled (w : World) (matchId remaining : ℕ) (new : List Address) (u : World) : Prop where
  worn : Worn w u
  sound : u.stakes.Sound
  result : u.results.result matchId = none
  tallied : (u.ballot matchId).Tallied
  nodup : new.Nodup
  able : ∀ a ∈ new, a ∈ w.able matchId
  voted : ∀ a ∈ new, u.votes.oracleVote (matchId, a) ≠ none
  persists : ∀ a, w.votes.oracleVote (matchId, a) ≠ none → u.votes.oracleVote (matchId, a) ≠ none
  supporters_le : ∀ v, (supporters v (u.ballot matchId).candidates).length ≤
    (supporters v (w.ballot matchId).candidates).length + new.length
  rivals_sublist : ∀ v,
    ((rivals v (w.ballot matchId).candidates).flatMap CandidateTally.submitters).Sublist
      ((rivals v (u.ballot matchId).candidates).flatMap CandidateTally.submitters)
  short : (∀ v, (supporters v (w.ballot matchId).candidates).length < w.control.threshold) →
    ∀ v, (supporters v (u.ballot matchId).candidates).length < w.control.threshold
  stored : ∃ t, u.votes.voteTally matchId = some t ∧ t.remainingEligible ≤ remaining - new.length ∧
    w.stakes.oracleEligibilityVersion ≤ t.eligibilityVersion ∧
    t.eligibilityVersion ≤ u.stakes.oracleEligibilityVersion ∧
    ((u.votes.state matchId).disputed = false →
      stillPossible w.control.threshold t.remainingEligible (u.ballot matchId).candidates = true)

section

variable {w u : World} {s : Submission} {id remaining : ℕ} {new : List Address}

theorem World.Awaiting.stalled (h : w.Awaiting id remaining) : Stalled w id remaining [] w where
  worn := .refl w
  sound := h.sound
  result := h.result
  tallied := h.tallied
  nodup := nodup_nil
  able _ ha := by simp at ha
  voted _ ha := by simp at ha
  persists _ ha := ha
  supporters_le _ := Nat.le_add_right _ _
  rivals_sublist _ := List.Sublist.refl _
  short hshort := hshort
  stored := ⟨_, h.stored, le_rfl, le_rfl, le_rfl, h.possible⟩

/-- A call that does not change the ballot. -/
theorem Stalled.kept {u' : World} (h : Stalled w id remaining new u)
    (hmax : w.stakes.oracleEligibilityVersion ≤ u32Max) (hworn : Worn u u')
    (hsound : u'.stakes.Sound) (hballot : u'.ballot id = u.ballot id) :
    Stalled w id remaining new u' := by
  have hvote (a : Address) : u'.votes.oracleVote (id, a) = u.votes.oracleVote (id, a) :=
    congrFun (congrArg Ballot.votes hballot) a
  have hstate : u'.votes.matchVotes id = u.votes.matchVotes id := congrArg Ballot.state hballot
  obtain ⟨t, ht, hle, hversion, hversion', hpossible⟩ := h.stored
  have hmax' := (h.worn.tracks.le hmax).2
  refine ⟨h.worn.trans hworn, hsound, (congrArg Ballot.result hballot).trans h.result, ?_, h.nodup,
    h.able, fun a ha => ?_, fun a ha => ?_, fun v => ?_, fun v => ?_, fun hshort v => ?_,
    t, (congrArg Ballot.tally hballot).trans ht, hle, hversion,
    hversion'.trans (hworn.tracks.le hmax').1, fun hdisputed => ?_⟩
  · rw [hballot]
    exact h.tallied
  · rw [hvote]
    exact h.voted a ha
  · rw [hvote]
    exact h.persists a ha
  · rw [hballot]
    exact h.supporters_le v
  · rw [hballot]
    exact h.rivals_sublist v
  · rw [hballot]
    exact h.short hshort v
  · rw [Votes.state, hstate] at hdisputed
    rw [hballot]
    exact hpossible hdisputed

/-- The oracle of a first vote could vote all along, and is not among those that have. -/
theorem Stalled.voter (h : Stalled w id remaining new u)
    (hopen : VoteOpen s.env u s.oracle s.vote) (hlets : u.limits.Lets s.oracle s.env.timestamp)
    (hnone : u.votes.oracleVote (id, s.oracle) = none) :
    (new ++ [s.oracle]).Nodup ∧ ∀ a ∈ new ++ [s.oracle], a ∈ w.able id := by
  have hnew : s.oracle ∉ new := fun hmem => h.voted s.oracle hmem hnone
  refine ⟨nodup_append.mpr ⟨h.nodup, nodup_singleton _, ?_⟩, fun a ha => ?_⟩
  · rintro a ha b hb rfl
    exact hnew (mem_singleton.mp hb ▸ ha)
  · rcases mem_append.mp ha with ha | ha
    · exact h.able a ha
    · obtain rfl := mem_singleton.mp ha
      obtain ⟨r, hr, hpos⟩ := hopen.staked
      have hlisted : s.oracle ∈ w.stakes.oracleSet := by
        rw [← h.worn.oracleSet]
        exact h.sound.mem hr
      have hunvoted : (w.ballot id).votes s.oracle = none := by
        by_contra hvoted
        exact h.persists s.oracle hvoted hnone
      have heligible := h.worn.eligible s.oracle (eligible_iff.mpr ⟨r, hr, hpos⟩)
      have hactive := (h.worn.active s.oracle).symm.trans hlets.active
      refine mem_filter.mpr ⟨hlisted, ?_⟩
      rw [mayVote_eq, hunvoted, heligible, hactive]
      rfl

section

variable (h : Stalled w s.matchId remaining new u)

include h

/-- The oracles that have voted meanwhile do not count any more. -/
theorem Stalled.count_le
    (hopen : VoteOpen s.env u s.oracle s.vote) (hlets : u.limits.Lets s.oracle s.env.timestamp)
    (hnone : u.votes.oracleVote (s.matchId, s.oracle) = none) :
    ((s.charged u).voted s.matchId s.oracle s.vote).countRemainingEligibleOracles s.matchId +
      (new.length + 1) ≤ w.countRemainingEligibleOracles s.matchId := by
  obtain ⟨hnodup, hable⟩ := h.voter hopen hlets hnone
  generalize hv : (s.charged u).voted s.matchId s.oracle s.vote = v
  have hvotes : (v.ballot s.matchId).votes =
      Function.update (u.ballot s.matchId).votes s.oracle (some s.vote) := by
    rw [← hv, voted_votes]
    rfl
  have hstakes : v.stakes = u.stakes := by
    rw [← hv]
    rfl
  have hmay {a : Address} (ha : v.mayVote s.matchId a = true) :
      a ≠ s.oracle ∧ u.votes.oracleVote (s.matchId, a) = none ∧ u.stakes.eligible a = true := by
    rw [mayVote_eq, hvotes, hstakes, and_eq_true, isNone_iff_eq_none] at ha
    have hne : a ≠ s.oracle := by
      rintro rfl
      simp at ha
    rw [Function.update_of_ne hne] at ha
    exact ⟨hne, ha⟩
  have hall : (v.stakes.oracleSet.filter (v.mayVote s.matchId) ++ (new ++ [s.oracle])).Nodup := by
    refine nodup_append.mpr ⟨List.Nodup.filter _ (hstakes ▸ h.sound.nodup), hnodup, ?_⟩
    rintro a ha b hb rfl
    obtain ⟨hne, hunvoted, -⟩ := hmay (mem_filter.mp ha).2
    rcases mem_append.mp hb with hb | hb
    · exact h.voted a hb hunvoted
    · exact hne (mem_singleton.mp hb)
  have hsub : v.stakes.oracleSet.filter (v.mayVote s.matchId) ++ (new ++ [s.oracle]) ⊆
      w.stakes.oracleSet.filter (w.mayVote s.matchId) := by
    intro a ha
    rcases mem_append.mp ha with ha | ha
    · obtain ⟨hlisted, ha⟩ := mem_filter.mp ha
      obtain ⟨-, hunvoted, heligible⟩ := hmay ha
      rw [hstakes, h.worn.oracleSet] at hlisted
      have hbefore : (w.ballot s.matchId).votes a = none := by
        by_contra hvoted
        exact h.persists a hvoted hunvoted
      refine mem_filter.mpr ⟨hlisted, ?_⟩
      rw [mayVote_eq, hbefore, h.worn.eligible a heligible]
      rfl
    · obtain ⟨hlisted, ha⟩ := mem_filter.mp (hable a ha)
      exact mem_filter.mpr ⟨hlisted, (and_eq_true _ _ ▸ ha).1⟩
  have hlength := (subperm_of_subset hall hsub).length_le
  rw [length_append, length_append, length_singleton] at hlength
  rwa [World.countRemainingEligibleOracles, World.countRemainingEligibleOracles,
    countP_eq_length_filter, countP_eq_length_filter]

/-- A further vote takes at least one from the count. -/
theorem Stalled.remaining_le
    (haw : w.Awaiting s.matchId remaining) (hopen : VoteOpen s.env u s.oracle s.vote)
    (hlets : u.limits.Lets s.oracle s.env.timestamp)
    (hnone : u.votes.oracleVote (s.matchId, s.oracle) = none) :
    ((s.charged u).voted s.matchId s.oracle s.vote).remainingEligible s.matchId ≤
      remaining - (new.length + 1) := by
  obtain ⟨t, ht, hle, hversion, hversion', -⟩ := h.stored
  have hcount := h.count_le hopen hlets hnone
  have htally : ((s.charged u).voted s.matchId s.oracle s.vote).votes.voteTally s.matchId =
      some t := ht
  rw [World.remainingEligible, htally]
  dsimp only
  split
  · omega
  · -- the version has been raised since, so that it was not the largest
    rename_i hne
    have hne' : t.eligibilityVersion ≠ u.stakes.oracleEligibilityVersion := hne
    have hmax := (h.worn.tracks.le haw.version_le).2
    have hrecount := haw.recount (by omega)
    omega

theorem Stalled.counted (haw : w.Awaiting s.matchId remaining) (hcounted : Counted u s) :
    Stalled w s.matchId remaining (new ++ [s.oracle]) (u.cast s) := by
  have hopen := (s.voted hcounted.commits).1
  have hlets := s.lets hcounted.commits h.result
  obtain ⟨hnodup, hable⟩ := h.voter hopen hlets hcounted.first
  have hremaining := h.remaining_le haw hopen hlets hcounted.first
  have hballot := hcounted.ballot
  have hcandidates := hcounted.candidates
  have hpersists {a : Address} (ha : u.votes.oracleVote (s.matchId, a) ≠ none) :
      (u.cast s).votes.oracleVote (s.matchId, a) ≠ none := by
    rw [hcounted.oracleVote]
    split
    · simp
    · exact ha
  refine ⟨h.worn.trans (u.cast_worn s), step_sound h.sound s.event, congrArg Ballot.result hballot,
    ?_, hnodup, hable, fun a ha => ?_, fun a ha => hpersists (h.persists a ha), fun v => ?_,
    fun v => ?_, fun hall v => ?_, _, congrArg Ballot.tally hballot, ?_,
    (h.worn.tracks.le haw.version_le).1, ?_, fun hdisputed => ?_⟩
  · rw [hballot]
    exact h.tallied.addVote hcounted.first _ _ _
  · rcases mem_append.mp ha with ha | ha
    · exact hpersists (h.voted a ha)
    · obtain rfl := mem_singleton.mp ha
      rw [hcounted.oracleVote, if_pos rfl]
      simp
  · have hle := h.supporters_le v
    have hadd : (supporters v (addVote s.oracle s.vote (u.ballot s.matchId).candidates)).length ≤
        _ := supporters_addVote_length_le _
    rw [hcandidates, length_append, length_singleton]
    omega
  · rw [hcandidates]
    exact (h.rivals_sublist v).trans (rivals_addVote_sublist _)
  · rw [hcandidates, supporters_addVote]
    by_cases hv : v = s.vote
    · rw [if_pos hv, ← h.worn.control]
      exact hcounted.short
    · rw [if_neg hv]
      exact h.short hall v
  · rwa [length_append, length_singleton]
  · rw [hcounted.stakes]
  · rw [hcounted.disputed, not_eq_false'] at hdisputed
    rwa [hcandidates, ← h.worn.control]

end

/-- A match that is not disputed has a candidate with enough votes already, or its count allows
one vote more. -/
theorem Stalled.count (h : Stalled w id remaining new u) (haw : w.Awaiting id remaining)
    (hdisputed : (u.votes.state id).disputed = false) :
    (∃ d ∈ (w.ballot id).candidates, w.control.threshold ≤ d.submitters.length) ∨
      new.length + 1 ≤ remaining := by
  by_contra hnot
  push Not at hnot
  obtain ⟨hfull, hfew⟩ := hnot
  have hshort : ∀ v, (supporters v (w.ballot id).candidates).length < w.control.threshold := by
    intro v
    by_cases hv : ∃ d ∈ (w.ballot id).candidates, d.vote = v
    · obtain ⟨d, hd, rfl⟩ := hv
      rw [supporters_of_mem haw.tallied.distinct hd]
      exact hfull d hd
    · push Not at hv
      obtain ⟨d, hd⟩ := exists_mem_of_ne_nil _ haw.nonempty
      have := hfull d hd
      rw [(rivals_of_notMem hv).1, length_nil]
      omega
  -- the candidate that can still get enough votes lacks at least one, which is in the count
  obtain ⟨t, -, hle, -, -, hpossible⟩ := h.stored
  obtain ⟨d, hd, hd'⟩ := any_eq_true.mp (hpossible hdisputed)
  have hdle : w.control.threshold ≤ d.submitters.length + t.remainingEligible :=
    (le_min_iff.mp (of_decide_eq_true hd')).2
  have hdshort := h.short hshort d.vote
  rw [supporters_of_mem h.tallied.distinct hd] at hdshort
  omega

/-- The vote that makes the result shows that the match could be rescued. -/
theorem Stalled.rescuable (h : Stalled w s.matchId remaining new u)
    (haw : w.Awaiting s.matchId remaining) (hc : Commits s.env s.call u)
    (hnone : u.votes.oracleVote (s.matchId, s.oracle) = none) (hreached : u.control.threshold ≤
      (supporters s.vote (u.ballot s.matchId).candidates ++ [s.oracle]).length) :
    Rescuable w s.matchId remaining (w.ballot s.matchId).candidates := by
  have hopen := (s.voted hc).1
  obtain ⟨hnodup, hable⟩ := h.voter hopen (s.lets hc h.result) hnone
  obtain ⟨admin, hadmin⟩ := isSome_iff_exists.mp hopen.admin
  have hslashes := s.slashes_of_reached hc h.result hnone
    (by rwa [ballot_candidates] at hreached)
  rw [← ballot_candidates] at hslashes
  obtain ⟨hdisputed, w2, hslash, -⟩ := hslashes
  have hpays {l : List Address} (hl : l.Sublist
      ((rivals s.vote (u.ballot s.matchId).candidates).flatMap CandidateTally.submitters)) :
      w.Pays l := by
    have hrivals := h.tallied.rivals_nodup s.vote
    have hpaid := World.Pays.of_ok hslash hrivals hadmin
    have hu : u.Pays _ := ⟨hpaid.fits, hpaid.holds, hpaid.holds_all⟩
    exact h.worn.pays l (hrivals.sublist hl) (hu.sublist hl)
  have hlength : new.length + 1 ≤ (w.able s.matchId).length := by
    simpa using (subperm_of_subset hnodup hable).length_le
  have hne : w.able s.matchId ≠ [] := fun hnil => by simp [hnil] at hlength
  have hcount := h.count haw hdisputed
  have hsupporters := h.supporters_le s.vote
  rw [h.worn.control, length_append, length_singleton] at hreached
  by_cases hcand : ∃ c ∈ (w.ballot s.matchId).candidates, c.vote = s.vote
  · obtain ⟨c, hc, hvote⟩ := hcand
    have hsubmitters := supporters_of_mem haw.tallied.distinct hc
    rw [hvote] at hsubmitters
    rw [hsubmitters] at hsupporters
    refine ⟨hne, c, hc, by omega, hcount.imp_right fun h => by omega, ?_⟩
    rw [hvote]
    exact hpays (h.rivals_sublist s.vote)
  · push Not at hcand
    obtain ⟨hnil, hrivals⟩ := rivals_of_notMem hcand
    obtain ⟨c, hc⟩ := exists_mem_of_ne_nil _ haw.nonempty
    rw [hnil, length_nil] at hsupporters
    refine ⟨hne, c, hc, by omega, hcount.imp_right fun h => by omega, hpays ?_⟩
    have hsub := h.rivals_sublist s.vote
    rw [hrivals] at hsub
    exact ((Oracle.rivals_sublist c.vote _).flatMap _).trans hsub

/-- A call on another match leaves the ballot. -/
theorem World.cast_ballot_of_ne (u : World) (hid : s.matchId ≠ id) :
    (u.cast s).ballot id = u.ballot id := by
  have hstep := step_ballot u s.event id
  change (step u s.event).ballot id = _
  generalize (step u s.event).ballot id = b at hstep
  cases hstep using BallotStep.submission_cases with
  | kept => rfl
  | counted hid' | finalized hid' => exact absurd hid' hid

theorem Stalled.cast (h : Stalled w id remaining new u) (haw : w.Awaiting id remaining)
    (s : Submission) : (∃ new', Stalled w id remaining new' (u.cast s)) ∨
      Rescuable w id remaining (w.ballot id).candidates := by
  have hsound : (u.cast s).stakes.Sound := step_sound h.sound s.event
  by_cases hc : Commits s.env s.call u
  · by_cases hid : s.matchId = id
    · subst hid
      cases hprev : u.votes.oracleVote (s.matchId, s.oracle) with
      | some =>
        have hballot := (cast_slashed hc h.result hprev).ballot s.matchId
        exact .inl ⟨new, h.kept haw.version_le (u.cast_worn s) hsound hballot⟩
      | none =>
        rcases le_or_gt u.control.threshold
          (supporters s.vote (u.ballot s.matchId).candidates ++ [s.oracle]).length with hle | hlt
        · exact .inr (h.rescuable haw hc hprev hle)
        · exact .inl ⟨_, h.counted haw ⟨hc, h.result, hprev, hlt⟩⟩
    · exact .inl ⟨new, h.kept haw.version_le (u.cast_worn s) hsound (u.cast_ballot_of_ne hid)⟩
  · rw [World.cast, show step u s.event = u from step_of_not_commits hc]
    exact .inl ⟨new, h⟩

/-- A result that further votes make was possible from the start. -/
theorem rescuable_of_couldFinalize {time : ℕ} (haw : w.Awaiting id remaining)
    (h : CouldFinalize w id time) : Rescuable w id remaining (w.ballot id).candidates := by
  obtain ⟨ss, hal, hresult⟩ := h
  have hrun := run_inv (I := fun u => (∃ new, Stalled w id remaining new u) ∨
    Rescuable w id remaining (w.ballot id).candidates)
    (fun u s hu _ => hu.elim (fun ⟨_, hu⟩ => hu.cast haw s) .inr) (.inl ⟨[], haw.stalled⟩) hal
  rcases hrun with ⟨new, hstalled⟩ | hrescuable
  · exact absurd hstalled.result hresult
  · exact hrescuable

/-- Nobody votes on a disputed match. -/
theorem not_couldFinalize_of_disputed {time : ℕ} (hres : w.results.result id = none)
    (hdisputed : (w.votes.state id).disputed = true) : ¬CouldFinalize w id time := by
  rintro ⟨ss, hal, hresult⟩
  have hrun := run_inv (I := fun u : World => u.ballot id = w.ballot id)
    (fun u s hu _ => ?_) rfl hal
  · exact hresult ((congrArg Ballot.result hrun).trans hres)
  · have hblocked : (u.votes.state id).disputed ≠ false := by
      have hstate : u.votes.matchVotes id = w.votes.matchVotes id := congrArg Ballot.state hu
      rw [Votes.state, hstate]
      exact fun hfalse => Bool.noConfusion (hdisputed.symm.trans hfalse)
    have hstep := step_ballot u s.event id
    change (step u s.event).ballot id = _
    generalize (step u s.event).ballot id = b at hstep
    cases hstep using BallotStep.submission_cases with
    | kept => exact hu
    | counted hid hc hopen hres hnone hshort hfree
    | finalized hid hc hopen hres hnone hreached entry hentry hfree => exact absurd hfree hblocked

end

/-! ## Votes that make a result -/

/-- A host at `time` where the tokens carry out every covered transfer. The contract's own
address authorises nothing. -/
def Env.lone (time : ℕ) (oracle : Address) : Env where
  sequence := 0
  sequence_le := Nat.zero_le _
  timestamp := min time u64Max
  timestamp_le := min_le_right _ _
  auths := [oracle].filter (· ≠ .self)
  self_notMem := by simp
  accepts _ _ _ _ _ := true

/-- A vote for `c` at `time`. -/
def rescueVote (matchId time : ℕ) (c : OracleVoteRecord) (oracle : Address) : Submission :=
  ⟨.lone time oracle, oracle, matchId, c, 0⟩

/-- The oracles in `l` can vote for `c` one after the other, and the last of them makes it the
result. Before that the match is not marked as disputed. -/
structure Ready (matchId time : ℕ) (c : OracleVoteRecord) (l : List Address) (u : World) :
    Prop where
  sound : u.stakes.Sound
  paused : u.control.paused = false
  admin : u.control.admin.isSome = true
  result : u.results.result matchId = none
  tallied : (u.ballot matchId).Tallied
  disputed : (u.votes.state matchId).disputed = false
  gameId : c.gameId ≠ []
  nodup : l.Nodup
  voters : ∀ a ∈ l, a ≠ .self ∧ u.votes.oracleVote (matchId, a) = none ∧
    u.stakes.eligible a = true ∧ u.limits.Lets a time
  enough : u.control.threshold ≤ (supporters c (u.ballot matchId).candidates).length + l.length
  needed : l.length = 1 ∨
    (supporters c (u.ballot matchId).candidates).length + l.length ≤ u.control.threshold
  stored : ∃ t, u.votes.voteTally matchId = some t ∧
    t.eligibilityVersion = u.stakes.oracleEligibilityVersion ∧
    (l.length = 1 ∨ (∃ d ∈ rivals c (u.ballot matchId).candidates,
      u.control.threshold ≤ d.submitters.length) ∨ l.length ≤ t.remainingEligible)
  pays : u.Pays ((rivals c (u.ballot matchId).candidates).flatMap CandidateTally.submitters)

section

variable {u : World} {id time : ℕ} {c : OracleVoteRecord} {a b : Address} {l : List Address}

/-- A vote changes only the limits of its oracle. -/
theorem Limits.Lets.submitted {s : Limits} {now : ℕ} {responseTimeMs : UInt64}
    (h : s.Lets b time) (hne : b ≠ a) : (s.submitted a now responseTimeMs).Lets b time := by
  refine ⟨?_, (Limits.submitted_active s a now responseTimeMs b).trans h.active⟩
  have hallows := h.allows
  unfold Limits.Allows at hallows ⊢
  simpa [Limits.submitted, Limits.recorded, Limits.counted, Limits.rateLimitConfig, hne]
    using hallows

theorem Ready.voteOpen (h : Ready id time c l u) (ha : a ∈ l) :
    VoteOpen (rescueVote id time c a).env u a c where
  paused := h.paused
  admin := h.admin
  auth := by simpa [rescueVote, Env.lone] using (h.voters a ha).1
  gameId := h.gameId
  staked := eligible_iff.mp (h.voters a ha).2.2.1

theorem Ready.lets (h : Ready id time c l u) (htime : time ≤ u64Max) (ha : a ∈ l) :
    u.limits.Lets a (rescueVote id time c a).env.timestamp := by
  change u.limits.Lets a (min time u64Max)
  rw [min_eq_left htime]
  exact (h.voters a ha).2.2.2

/-- A first vote that makes the result returns, if the slashes are paid for. -/
theorem commits_of_pays {s : Submission} (hopen : VoteOpen s.env u s.oracle s.vote)
    (hlets : u.limits.Lets s.oracle s.env.timestamp) (hres : u.results.result s.matchId = none)
    (hnone : u.votes.oracleVote (s.matchId, s.oracle) = none)
    (hdisputed : (u.votes.state s.matchId).disputed = false)
    (htallied : (u.ballot s.matchId).Tallied) (hreached : u.control.threshold ≤
      (supporters s.vote (u.ballot s.matchId).candidates ++ [s.oracle]).length)
    (haccepts : ∀ l token source target amount, s.env.accepts l token source target amount = true)
    (hpays : u.Pays ((rivals s.vote (u.ballot s.matchId).candidates).flatMap
      CandidateTally.submitters)) : Commits s.env s.call u := by
  obtain ⟨admin, hadmin⟩ := isSome_iff_exists.mp hopen.admin
  have hnodup := htallied.rivals_nodup s.vote
  rw [ballot_candidates] at hreached hnodup hpays
  have hexec := s.exec_first hopen hlets hres hnone
  rw [recordVote_of_reached (w := s.charged u) hdisputed hreached] at hexec
  have hpaid : (((s.charged u).voted s.matchId s.oracle s.vote).withResults
      (u.results.finalized s.env s.matchId s.oracle s.vote
        (supporters s.vote (u.votes.state s.matchId).candidates ++ [s.oracle]))).Pays _ :=
    hpays.congr rfl rfl rfl
  obtain ⟨w2, hslash⟩ := hpaid.slash_ok haccepts hadmin hnodup
  have hsubmitters : slashSubmitters (rivals s.vote (u.votes.state s.matchId).candidates) s.env
      _ = .ok () w2 := hslash
  exact ⟨_, hexec.trans (Tx.bind_of_ok hsubmitters)⟩

/-- The last vote makes the result. -/
theorem Ready.finalizes (h : Ready id time c [a] u) (htime : time ≤ u64Max) :
    (u.cast (rescueVote id time c a)).results.result id ≠ none := by
  have ha : a ∈ [a] := mem_singleton_self a
  have hnone := (h.voters a ha).2.1
  have hreached : u.control.threshold ≤ (supporters c (u.ballot id).candidates ++ [a]).length := by
    rw [length_append]
    exact h.enough
  have hcommits := commits_of_pays (s := rescueVote id time c a) (h.voteOpen ha)
    (h.lets htime ha) h.result hnone h.disputed h.tallied hreached (fun _ _ _ _ _ => rfl) h.pays
  obtain ⟨entry, hres, -⟩ := cast_decided hcommits h.result hnone hreached
  intro hnores
  cases hnores.symm.trans hres

/-- A first vote that is counted returns. -/
theorem commits_of_short {s : Submission} (hopen : VoteOpen s.env u s.oracle s.vote)
    (hlets : u.limits.Lets s.oracle s.env.timestamp) (hres : u.results.result s.matchId = none)
    (hnone : u.votes.oracleVote (s.matchId, s.oracle) = none)
    (hdisputed : (u.votes.state s.matchId).disputed = false)
    (hshort : (supporters s.vote (u.ballot s.matchId).candidates ++ [s.oracle]).length <
      u.control.threshold) : Commits s.env s.call u := by
  rw [ballot_candidates] at hshort
  exact ⟨_, (s.exec_first hopen hlets hres hnone).trans
    (recordVote_of_short (w := s.charged u) hdisputed hshort)⟩

/-- A vote before the last one is counted. -/
theorem Ready.counted (h : Ready id time c (a :: b :: l) u) (htime : time ≤ u64Max) :
    Counted u (rescueVote id time c a) := by
  have ha : a ∈ a :: b :: l := mem_cons_self
  have hneeded := h.needed.resolve_left (by simp)
  simp only [length_cons] at hneeded
  have hshort : (supporters c (u.ballot id).candidates ++ [a]).length < u.control.threshold := by
    rw [length_append, length_singleton]
    omega
  exact ⟨commits_of_short (h.voteOpen ha) (h.lets htime ha) h.result (h.voters a ha).2.1 h.disputed
    hshort, h.result, (h.voters a ha).2.1, hshort⟩

/-- The stored count, which is current, goes down by one. -/
theorem Ready.remaining {t : VoteTally} (ht : u.votes.voteTally id = some t)
    (hversion : t.eligibilityVersion = u.stakes.oracleEligibilityVersion) :
    (((rescueVote id time c a).charged u).voted id a c).remainingEligible id =
      t.remainingEligible - 1 := by
  rw [World.remainingEligible,
    show (((rescueVote id time c a).charged u).voted id a c).votes.voteTally id = some t from ht]
  exact if_pos hversion

/-- A vote before the last one leaves the others ready. -/
theorem Ready.next (h : Ready id time c (a :: b :: l) u) (htime : time ≤ u64Max) :
    Ready id time c (b :: l) (u.cast (rescueVote id time c a)) := by
  have hcounted := h.counted htime
  obtain ⟨hnew, hnodup⟩ := nodup_cons.mp h.nodup
  have henough := h.enough
  have hneeded := h.needed.resolve_left (by simp)
  simp only [length_cons] at henough hneeded
  obtain ⟨t, ht, hversion, hstored⟩ := h.stored
  have hpossible := hstored.resolve_left (by simp)
  simp only [length_cons] at hpossible
  have hcontrol := u.cast_control (rescueVote id time c a)
  have hstakes := hcounted.stakes
  have hballot : (u.cast (rescueVote id time c a)).ballot id = _ := hcounted.ballot
  have hflag : ((u.cast (rescueVote id time c a)).votes.state id).disputed =
      !stillPossible u.control.threshold
        ((((rescueVote id time c a).charged u).voted id a c).remainingEligible id)
        (addVote a c (u.ballot id).candidates) := hcounted.disputed
  have hcandidates : ((u.cast (rescueVote id time c a)).ballot id).candidates =
      addVote a c (u.ballot id).candidates := hcounted.candidates
  have hrivals : rivals c ((u.cast (rescueVote id time c a)).ballot id).candidates =
      rivals c (u.ballot id).candidates := by
    rw [hcandidates, rivals_addVote, if_pos rfl]
  have hsupporters :
      (supporters c ((u.cast (rescueVote id time c a)).ballot id).candidates).length =
        (supporters c (u.ballot id).candidates).length + 1 := by
    rw [hcandidates, supporters_addVote, if_pos rfl, length_append, length_singleton]
  refine ⟨hstakes ▸ h.sound, hcontrol ▸ h.paused, hcontrol ▸ h.admin,
    congrArg Ballot.result hballot, ?_, ?_, h.gameId, hnodup, fun d hd => ?_, ?_, ?_,
    ⟨_, congrArg Ballot.tally hballot, by rw [hstakes], .inr ?_⟩, ?_⟩
  · rw [hballot]
    exact h.tallied.addVote hcounted.first _ _ _
  · rw [hflag, Ready.remaining ht hversion, not_eq_false']
    rcases hpossible with ⟨d, hd, hfull⟩ | hle
    · exact stillPossible_of_mem (mem_addVote.mpr (.inr hd)) u.control.threshold_le (by omega)
    · refine stillPossible_of_mem (mem_addVote.mpr (.inl rfl)) u.control.threshold_le ?_
      rw [OracleVoteRecord.tally_submitters, length_append, length_singleton]
      omega
  · have hne : d ≠ a := by
      rintro rfl
      exact hnew hd
    obtain ⟨hself, hunvoted, heligible, hlets⟩ := h.voters d (mem_cons_of_mem _ hd)
    have hvote : (u.cast (rescueVote id time c a)).votes.oracleVote (id, d) =
        u.votes.oracleVote (id, d) := (hcounted.oracleVote d).trans (if_neg hne)
    rw [hvote, hstakes, hcounted.limits]
    exact ⟨hself, hunvoted, heligible, hlets.submitted hne⟩
  · rw [hcontrol, hsupporters, length_cons]
    omega
  · rw [hcontrol, hsupporters, length_cons]
    omega
  · rw [hrivals, hcontrol, length_cons]
    refine hpossible.imp_right fun hle => ?_
    change l.length + 1 ≤ (((rescueVote id time c a).charged u).voted id a c).remainingEligible id
    rw [Ready.remaining ht hversion]
    omega
  · rw [hrivals]
    exact h.pays.congr hcontrol hstakes hcounted.ledger

/-- The votes, one after the other, make the result. -/
theorem Ready.run (htime : time ≤ u64Max) : ∀ {l : List Address} {u : World},
    Ready id time c l u → l ≠ [] → Along World.cast (fun w s =>
        (w.stakes.registration s.oracle).isSome = true ∧ time ≤ s.env.timestamp) u
          (l.map (rescueVote id time c)) ∧
        (Checkmate.run World.cast u (l.map (rescueVote id time c))).results.result id ≠ none
  | [], _, _, hne => absurd rfl hne
  | a :: l, u, h, _ => by
    obtain ⟨r, hr, -⟩ := eligible_iff.mp (h.voters a mem_cons_self).2.2.1
    have hfirst : (u.stakes.registration (rescueVote id time c a).oracle).isSome = true ∧
        time ≤ (rescueVote id time c a).env.timestamp :=
      ⟨isSome_iff_exists.mpr ⟨r, hr⟩, le_min le_rfl htime⟩
    cases l with
    | nil => exact ⟨⟨hfirst, trivial⟩, h.finalizes htime⟩
    | cons =>
      obtain ⟨hal, hresult⟩ := Ready.run htime (h.next htime) (by simp)
      exact ⟨⟨hfirst, hal⟩, hresult⟩

end

/-- A match that is rescuable and not disputed can get a result. -/
theorem couldFinalize_of_rescuable {w : World} {id remaining time : ℕ}
    (haw : w.Awaiting id remaining) (hpaused : w.control.paused = false)
    (hadmin : w.control.admin.isSome = true) (hself : w.stakes.registration .self = none)
    (hgame : ∀ c ∈ (w.ballot id).candidates, c.vote.gameId ≠ [])
    (hdisputed : (w.votes.state id).disputed = false) (htime : time ≤ u64Max)
    (hlate : ∀ a, (w.stakes.registration a).isSome = true → w.limits.Allows a 1 time)
    (h : Rescuable w id remaining (w.ballot id).candidates) : CouldFinalize w id time := by
  obtain ⟨hable, c, hc, henough, hcount, hpays⟩ := h
  have hpos : 0 < (w.able id).length := length_pos_iff.mpr hable
  -- as many of the oracles that can vote as the candidate lacks, but at least one
  generalize hn : max 1 (w.control.threshold - c.submitters.length) = n
  have hlength : ((w.able id).take n).length = n := by
    rw [length_take]
    omega
  have hsupporters : supporters c.vote (w.ballot id).candidates = c.submitters :=
    supporters_of_mem haw.tallied.distinct hc
  have hready : Ready id time c.vote ((w.able id).take n) w := by
    refine ⟨haw.sound, hpaused, hadmin, haw.result, haw.tallied, hdisputed, hgame c hc,
      (haw.sound.nodup.filter _).sublist (take_sublist _ _), fun a ha => ?_, ?_, ?_,
      ⟨_, haw.stored, rfl, ?_⟩, hpays⟩
    · obtain ⟨hlisted, ha⟩ := mem_filter.mp ((take_sublist _ _).subset ha)
      rw [mayVote_eq, and_eq_true, and_eq_true, isNone_iff_eq_none] at ha
      obtain ⟨⟨hunvoted, heligible⟩, hactive⟩ := ha
      have hregistered := (haw.sound.mem_iff a).mp hlisted
      refine ⟨?_, hunvoted, heligible, hlate a hregistered, hactive⟩
      rintro rfl
      rw [hself] at hregistered
      exact absurd hregistered (by simp)
    · rw [hsupporters, hlength]
      omega
    · rw [hsupporters, hlength]
      omega
    · rw [hlength]
      rcases hcount with ⟨d, hd, hfull⟩ | hle
      · by_cases hvote : d.vote = c.vote
        · have hsubmitters := supporters_of_mem haw.tallied.distinct hd
          rw [hvote, hsupporters] at hsubmitters
          rw [← hsubmitters] at hfull
          exact .inl (by omega)
        · exact .inr (.inl ⟨d, mem_rivals_of_ne hd hvote, hfull⟩)
      · change n = 1 ∨ _ ∨ n ≤ remaining
        omega
  refine ⟨_, hready.run htime ?_⟩
  rw [← length_pos_iff, hlength]
  omega

/-! ## The flag after a vote -/

section

variable {w : World} {s : Submission} {time : ℕ}

theorem Rescuable.congr {w' : World} {id remaining : ℕ} {cs : List CandidateTally}
    (hcontrol : w'.control = w.control) (hstakes : w'.stakes = w.stakes)
    (hledger : w'.ledger = w.ledger) (hlimits : w'.limits = w.limits)
    (hvotes : (w'.ballot id).votes = (w.ballot id).votes)
    (h : Rescuable w id remaining cs) : Rescuable w' id remaining cs := by
  have hable : w'.able id = w.able id := by
    unfold World.able
    rw [hstakes, hlimits]
    refine filter_congr fun a _ => ?_
    rw [mayVote_eq, mayVote_eq, hvotes, hstakes]
  obtain ⟨hne, c, hc, henough, hcount, hpays⟩ := h
  rw [← hable] at hne henough
  rw [← hcontrol] at henough hcount
  exact ⟨hne, c, hc, henough, hcount, hpays.congr hcontrol hstakes hledger⟩

/-- A counted vote leaves the match awaiting further ones. -/
theorem Counted.awaiting (h : Counted w s) (hw : Reachable w) : (w.cast s).Awaiting s.matchId
      (((s.charged w).voted s.matchId s.oracle s.vote).remainingEligible s.matchId) := by
  obtain ⟨ledger, es, hrun⟩ := hw
  have hsound : w.stakes.Sound := hrun ▸ run_sound ledger es
  have htallied : (w.ballot s.matchId).Tallied := hrun ▸ run_tally ledger es s.matchId
  obtain ⟨hmax, hcached⟩ := hrun ▸ run_version ledger es s.matchId
  refine ⟨h.stakes ▸ hsound, congrArg Ballot.result h.ballot, ?_, ?_, ?_, h.stakes ▸ hmax,
    fun hlt => ?_, fun hdisputed => ?_⟩
  · rw [h.ballot]
    exact htallied.addVote h.first _ _ _
  · rw [h.candidates]
    exact ne_nil_of_mem (mem_addVote.mpr (.inl rfl))
  · rw [h.stakes]
    exact congrArg Ballot.tally h.ballot
  · rw [h.stakes] at hlt
    have htally := tally_of_counted (hcached hlt).exact_of_eq hsound.toListed h
    exact congrArg VoteTally.remainingEligible
      (Option.some.inj ((congrArg Ballot.tally h.ballot).symm.trans htally))
  · rw [h.disputed, not_eq_false'] at hdisputed
    rwa [h.candidates, w.cast_control s]

/-- The vote itself changes nothing that the condition reads but the vote. -/
theorem Counted.rescuable_iff (h : Counted w s) {remaining : ℕ} {cs : List CandidateTally} :
    Rescuable (w.cast s) s.matchId remaining cs ↔
      Rescuable ((s.charged w).voted s.matchId s.oracle s.vote) s.matchId remaining cs := by
  have hvotes : ((w.cast s).ballot s.matchId).votes =
      (((s.charged w).voted s.matchId s.oracle s.vote).ballot s.matchId).votes := by
    rw [h.ballot, voted_votes]
    rfl
  have hcontrol := w.cast_control s
  exact ⟨.congr hcontrol.symm h.stakes.symm h.ledger.symm h.limits.symm hvotes.symm,
    .congr hcontrol h.stakes h.ledger h.limits hvotes⟩

/-- A match without a result that is not disputed can get one if and only if it is
rescuable. -/
theorem couldFinalize_iff {id remaining : ℕ} (haw : w.Awaiting id remaining)
    (hpaused : w.control.paused = false) (hadmin : w.control.admin.isSome = true)
    (hself : w.stakes.registration .self = none)
    (hgame : ∀ c ∈ (w.ballot id).candidates, c.vote.gameId ≠ [])
    (hdisputed : (w.votes.state id).disputed = false) (htime : time ≤ u64Max)
    (hlate : ∀ a, (w.stakes.registration a).isSome = true → w.limits.Allows a 1 time) :
    CouldFinalize w id time ↔ Rescuable w id remaining (w.ballot id).candidates :=
  ⟨rescuable_of_couldFinalize haw,
    couldFinalize_of_rescuable haw hpaused hadmin hself hgame hdisputed htime hlate⟩

/-- The flag after a vote that makes no result. The times of the further votes are late enough
for the limits to let every oracle vote. Then the flag tells whether further votes can make a
result if and only if it is set, or the match is rescuable. -/
theorem disputed_exact_iff (hw : Reachable w)
    (hrecords : (step w s.event).votes.oracleVote (s.matchId, s.oracle) ≠
      w.votes.oracleVote (s.matchId, s.oracle))
    (hnores : (step w s.event).results.result s.matchId = none) (htime : time ≤ u64Max)
    (hlate : ∀ a, ((step w s.event).stakes.registration a).isSome = true →
      (step w s.event).limits.Allows a 1 time) :
    let v := (s.charged w).voted s.matchId s.oracle s.vote
    let cs := addVote s.oracle s.vote (w.votes.state s.matchId).candidates
    ((((step w s.event).votes.state s.matchId).disputed = true ↔
        ¬CouldFinalize (step w s.event) s.matchId time) ↔
      (stillPossible w.control.threshold (v.remainingEligible s.matchId) cs = false ∨
        Rescuable v s.matchId (v.remainingEligible s.matchId) cs)) := by
  intro v cs
  have hcounted := counted_of_recorded hrecords hnores
  have hopen := (s.voted hcounted.commits).1
  have haw : (step w s.event).Awaiting s.matchId (v.remainingEligible s.matchId) :=
    hcounted.awaiting hw
  -- the state after the vote is itself reached by a run
  obtain ⟨ledger, es, hrun⟩ := hw
  have hrun' : run step (.deployed ledger) (es ++ [s.event]) = step w s.event := by
    rw [run_snoc, hrun]
  have hself : (step w s.event).stakes.registration .self = none := hrun' ▸ run_self ledger _
  have hgame : ∀ c ∈ ((step w s.event).ballot s.matchId).candidates, c.vote.gameId ≠ [] :=
    hrun' ▸ run_gameId ledger _ s.matchId
  have hcontrol : (step w s.event).control = w.control := w.cast_control s
  have hpaused : (step w s.event).control.paused = false := by rw [hcontrol, hopen.paused]
  have hadmin : (step w s.event).control.admin.isSome = true := by rw [hcontrol, hopen.admin]
  have hcandidates : ((step w s.event).ballot s.matchId).candidates = cs := by
    refine hcounted.candidates.trans ?_
    rw [ballot_candidates]
  have hflag : ((step w s.event).votes.state s.matchId).disputed =
      !stillPossible w.control.threshold (v.remainingEligible s.matchId) cs := by
    refine hcounted.disputed.trans ?_
    rw [ballot_candidates]
  cases hstill : stillPossible w.control.threshold (v.remainingEligible s.matchId) cs with
  | false =>
    rw [hstill] at hflag
    have hnot : ¬CouldFinalize (step w s.event) s.matchId time :=
      not_couldFinalize_of_disputed hnores hflag
    simp [hflag, hnot]
  | true =>
    rw [hstill] at hflag
    have hiff := couldFinalize_iff haw hpaused hadmin hself hgame hflag htime hlate
    rw [hcandidates] at hiff
    have hrescuable := hiff.trans hcounted.rescuable_iff
    simp [hflag, hrescuable, v]

end

/-- After the first of three votes another oracle can make the result. -/
theorem disputed_exact_iff_threeOracles :
    let w := run step (.deployed plainLedger) threeOracles
    ((step w (voteOf 2 .player1).event).votes.state 0).disputed = false ∧
      CouldFinalize (step w (voteOf 2 .player1).event) 0 200000 := by
  intro w
  have hw : Reachable w := ⟨plainLedger, threeOracles, rfl⟩
  have hsound : (step w (voteOf 2 .player1).event).stakes.Sound :=
    step_sound (run_sound plainLedger threeOracles) _
  have hlate : ∀ a ∈ (step w (voteOf 2 .player1).event).stakes.oracleSet,
      (step w (voteOf 2 .player1).event).limits.Allows a 1 200000 := by decide +kernel
  have hflag : ((step w (voteOf 2 .player1).event).votes.state 0).disputed = false := by
    decide +kernel
  have hexact := (disputed_exact_iff (s := voteOf 2 .player1) hw (by decide +kernel)
    (by decide +kernel) (show 200000 ≤ u64Max by decide)
    (fun a ha => hlate a ((hsound.mem_iff a).mpr ha))).mpr (.inr ?_)
  · refine ⟨hflag, by_contra fun hnot => ?_⟩
    exact absurd (hexact.mpr hnot) (by decide +kernel)
  · exact ⟨by decide +kernel, (voteOf 2 .player1).vote.tally [.ext 2], by decide +kernel,
      by decide +kernel, .inr (by decide +kernel), .nil _⟩

/-- Two oracles and a threshold of two votes. Oracle 3 has been slow on match 5, and is
deactivated. -/
def idlePair : List Event :=
  [.invoke (.plain [] 0 0) (.initializeOracle (.ext 1)),
    .invoke (.plain [1] 0 0) (.setConsensusThreshold 2),
    .invoke (.plain [2] 0 0) (.registerOracleWithStake (.ext 2) 100 (.ext 9)),
    .invoke (.plain [3] 0 0) (.registerOracleWithStake (.ext 3) 100 (.ext 9)),
    .invoke (.plain [3] 0 0) (.submitOracleResult (.ext 3) 5 [1] .lichess .draw 10000),
    .invoke (.plain [1] 0 0) (.deactivateSlowOracle (.ext 3))]

/-- The vote of oracle 2 is not enough, oracle 3 cannot vote, and the match is not disputed. -/
theorem not_disputed_of_deactivated :
    let w := run step (.deployed plainLedger) idlePair
    let w' := step w (voteOf 2 .player1).event
    w.votes.oracleVote (0, .ext 2) = none ∧ w'.votes.oracleVote (0, .ext 2) ≠ none ∧
      w'.results.result 0 = none ∧ (w'.votes.state 0).disputed = false ∧
      ∀ time, ¬CouldFinalize w' 0 time := by
  intro w w'
  have hrecords : w'.votes.oracleVote (0, .ext 2) ≠ w.votes.oracleVote (0, .ext 2) := by
    decide +kernel
  have hnores : w'.results.result 0 = none := by decide +kernel
  have hw : Reachable w := ⟨plainLedger, idlePair, rfl⟩
  have haw := (counted_of_recorded (s := voteOf 2 .player1) hrecords hnores).awaiting hw
  have hable : w'.able 0 = [] := by decide +kernel
  refine ⟨by decide +kernel, by decide +kernel, hnores, by decide +kernel, fun time h => ?_⟩
  exact (rescuable_of_couldFinalize haw h).1 hable

end Checkmate.Oracle

import Checkmate.Oracle.Consensus

/-!
# The order of the votes

When the threshold is more than half of the voters, at most one candidate can reach it. If one
is named by enough of them, it becomes the result in whatever order they vote, the oracles that
named another one lose the same share of their stake, with the result or when they come after
it, and the others keep theirs (`run_settled`). So two orders end with the same result and the
same stakes (`order_irrelevant`).

A vote without game id is rejected wherever it comes. If the votes of the majority are such,
there is no result in any order and nobody is slashed.
-/

namespace Checkmate.Oracle

open List CandidateTally

/-! ## What slashes take -/

/-- The registration after a slash. -/
def OracleRegistration.slashed (r : OracleRegistration) (bps : ℤ) : OracleRegistration :=
  { r with oracleStake := r.oracleStake - r.share bps }

section

variable {env : Env} {w w' : World} {u : Unit} {oracle : Address} {bps : ℤ}

theorem OracleRegistration.slashed_of_share_eq_zero {r : OracleRegistration}
    (h : r.share bps = 0) : r.slashed bps = r := by
  simp [OracleRegistration.slashed, h]

theorem OracleRegistration.share_of_nonpos {r : OracleRegistration} (h : r.oracleStake ≤ 0) :
    r.share bps = 0 := by
  unfold OracleRegistration.share
  generalize (r.oracleStake * bps).tdiv 10000 = x
  omega

theorem Slashed.registration_self (h : Slashed env w oracle bps w') :
    w'.stakes.registration oracle = (w.stakes.registration oracle).map (·.slashed bps) := by
  cases h with
  | spared hspared =>
    cases hr : w.stakes.registration oracle with
    | none => rfl
    | some r =>
      have hzero : r.share bps = 0 := by
        rcases le_or_gt r.oracleStake 0 with hle | hlt
        · exact OracleRegistration.share_of_nonpos hle
        · exact (hspared r hr hlt).2
      rw [Option.map_some, OracleRegistration.slashed_of_share_eq_zero hzero]
  | kept r hr | sent r admin l hr =>
    rw [hr]
    exact Function.update_self ..

/-- Slashing each of a list of different oracles once. -/
theorem forEach_slash_registration : ∀ {l : List Address} {w : World}, l.Nodup →
    Tx.forEach (fun oracle => slashBps oracle bps) l env w = .ok u w' → ∀ a,
      w'.stakes.registration a =
        if a ∈ l then (w.stakes.registration a).map (·.slashed bps) else w.stakes.registration a
  | [], w, _, h, a => by
    obtain ⟨-, rfl⟩ := Tx.pure_ok_iff.mp h
    simp
  | b :: l, w, hl, h, a => by
    obtain ⟨hb, hl⟩ := nodup_cons.mp hl
    obtain ⟨_, w1, hslash, h⟩ := Tx.bind_ok_iff.mp h
    have hrest := forEach_slash_registration hl h a
    have hfirst := slashBps_ok hslash
    by_cases ha : a = b
    · subst ha
      rw [hrest, if_neg hb, if_pos mem_cons_self, hfirst.registration_self]
    · rw [hrest, hfirst.registration_of_ne ha]
      simp [ha]

end

/-! ## The candidates that lose -/

section Count

variable {a : Address} {vote : OracleVoteRecord} {d : CandidateTally}

theorem mem_rivals_of_ne : ∀ {cs : List CandidateTally}, d ∈ cs → d.vote ≠ vote → d ∈ rivals vote cs
  | c :: cs, hd, hne => by
    by_cases hc : c.agrees vote = true
    · rw [rivals, if_pos hc]
      rcases mem_cons.mp hd with rfl | hd
      · exact absurd (agrees_iff.mp hc) hne
      · exact hd
    · rw [rivals, if_neg hc]
      rcases mem_cons.mp hd with rfl | hd
      · exact mem_cons_self
      · exact mem_cons_of_mem _ (mem_rivals_of_ne hd hne)

theorem vote_ne_of_mem_rivals : ∀ {cs : List CandidateTally},
    (cs.map CandidateTally.vote).Nodup → d ∈ rivals vote cs → d.vote ≠ vote
  | c :: cs, hnodup, hd => by
    rw [map_cons] at hnodup
    obtain ⟨hnew, hnodup⟩ := nodup_cons.mp hnodup
    by_cases hc : c.agrees vote = true
    · rw [rivals, if_pos hc] at hd
      rintro rfl
      rw [agrees_iff.mp hc] at hnew
      exact hnew (mem_map_of_mem hd)
    · rw [rivals, if_neg hc] at hd
      rcases mem_cons.mp hd with rfl | hd
      · exact fun h => hc (agrees_iff.mpr h)
      · exact vote_ne_of_mem_rivals hnodup hd

theorem rivals_sublist (vote : OracleVoteRecord) : ∀ cs : List CandidateTally,
    (rivals vote cs).Sublist cs
  | [] => List.Sublist.refl _
  | c :: cs => by
    by_cases hc : c.agrees vote = true
    · rw [rivals, if_pos hc]
      exact sublist_cons_self _ _
    · rw [rivals, if_neg hc]
      exact (rivals_sublist vote cs).cons_cons c

end Count

section

variable {b : Ballot} {a : Address} {c : OracleVoteRecord}

/-- The oracles that are slashed are those with another vote. -/
theorem Ballot.Exact.mem_rivals_iff (h : b.Exact) :
    a ∈ (rivals c b.candidates).flatMap CandidateTally.submitters ↔
      ∃ v, v ≠ c ∧ b.votes a = some v := by
  constructor
  · intro ha
    obtain ⟨d, hd, hmem⟩ := mem_flatMap.mp ha
    exact ⟨d.vote, vote_ne_of_mem_rivals h.distinct hd, h.recorded d (mem_of_mem_rivals hd) a hmem⟩
  · rintro ⟨v, hne, hv⟩
    obtain ⟨d, hd, hvote, hmem⟩ := exists_of_mem_supporters (h.counted a v hv)
    exact mem_flatMap.mpr ⟨d, mem_rivals_of_ne hd (hvote ▸ hne), hmem⟩

theorem Ballot.Tallied.rivals_nodup (h : b.Tallied) (c : OracleVoteRecord) :
    ((rivals c b.candidates).flatMap CandidateTally.submitters).Nodup := by
  refine h.nodup.sublist ?_
  exact (rivals_sublist c _).flatMap _

end

/-! ## Votes in some order -/

/-- A call on the match with the vote that is assigned to its oracle. It is authorised, the
limits let it in, and no slash traps. -/
structure Casting (matchId : ℕ) (voters : Finset Address) (ballot : Address → OracleVoteRecord)
    (w : World) (s : Submission) : Prop extends Smooth w s where
  matchId_eq : s.matchId = matchId
  mem : s.oracle ∈ voters
  vote_eq : s.vote = ballot s.oracle

instance (matchId : ℕ) (voters : Finset Address) (ballot : Address → OracleVoteRecord) :
    DecidableRel (Casting matchId voters ballot) := fun w s =>
  decidable_of_iff (Smooth w s ∧ s.matchId = matchId ∧ s.oracle ∈ voters ∧
    s.vote = ballot s.oracle)
    ⟨fun h => ⟨h.1, h.2.1, h.2.2.1, h.2.2.2⟩, fun h => ⟨h.toSmooth, h.matchId_eq, h.mem, h.vote_eq⟩⟩

/-- The voters send their votes, once each, in some order. -/
structure Schedule (w : World) (matchId : ℕ) (voters : Finset Address)
    (ballot : Address → OracleVoteRecord) (ss : List Submission) : Prop where
  once : (ss.map Submission.oracle).Nodup
  complete : ∀ a, a ∈ ss.map Submission.oracle ↔ a ∈ voters
  casts : Along World.cast (Casting matchId voters ballot) w ss

/-- The match has no result, nobody has been slashed, and who has voted is among `called`. -/
structure Gathering (w0 : World) (matchId : ℕ) (voters : Finset Address)
    (ballot : Address → OracleVoteRecord) (called : List Address) (w : World) : Prop where
  sound : w.stakes.Sound
  polling : w.Polling matchId
  registration : w.stakes.registration = w0.stakes.registration
  called_mem : ∀ a ∈ called, a ∈ voters
  recorded : ∀ a v, w.votes.oracleVote (matchId, a) = some v →
    a ∈ called ∧ v = ballot a ∧ v.gameId ≠ []

/-- The oracle has a vote that counts, for another candidate. -/
def Loses (ballot : Address → OracleVoteRecord) (c : OracleVoteRecord) (a : Address) : Prop :=
  ballot a ≠ c ∧ (ballot a).gameId ≠ []

instance (ballot : Address → OracleVoteRecord) (c : OracleVoteRecord) :
    DecidablePred (Loses ballot c) := fun _ => inferInstanceAs (Decidable (_ ∧ _))

/-- The match has the result `c`, and those in `called` with another vote have lost a share of
their stake. -/
structure Settled (w0 : World) (matchId : ℕ) (ballot : Address → OracleVoteRecord)
    (c : OracleVoteRecord) (called : List Address) (w : World) : Prop where
  decided : Decided matchId c w
  registration : ∀ a, w.stakes.registration a =
    if a ∈ called ∧ Loses ballot c a then
      (w0.stakes.registration a).map (·.slashed minoritySlashBps)
    else w0.stakes.registration a

section

variable {w0 w : World} {s : Submission} {c : OracleVoteRecord} {voters : Finset Address}
  {ballot : Address → OracleVoteRecord} {called : List Address} {id : ℕ}

section

variable (h : Gathering w0 id voters ballot called w)

include h

theorem Gathering.oracleVote_none
    {a : Address} (hnew : a ∉ called) : w.votes.oracleVote (id, a) = none := by
  cases hv : w.votes.oracleVote (id, a) with
  | none => rfl
  | some v => exact absurd (h.recorded a v hv).1 hnew

/-- One more call, unless it makes the result. -/
theorem Gathering.next (hs : Casting id voters ballot w s) (hnew : s.oracle ∉ called) :
    Gathering w0 id voters ballot (called ++ [s.oracle]) (w.cast s) ∨
      Commits s.env s.call w ∧ w.control.threshold ≤
        (supporters s.vote (w.ballot id).candidates ++ [s.oracle]).length := by
  obtain rfl := hs.matchId_eq
  have hmem : ∀ a ∈ called ++ [s.oracle], a ∈ voters := by
    intro a ha
    rcases mem_append.mp ha with ha | ha
    · exact h.called_mem a ha
    · exact mem_singleton.mp ha ▸ hs.mem
  have hnone := h.oracleVote_none hnew
  by_cases hc : Commits s.env s.call w
  · rcases le_or_gt w.control.threshold
      (supporters s.vote (w.ballot s.matchId).candidates ++ [s.oracle]).length with hle | hlt
    · exact .inr ⟨hc, hle⟩
    · have hcounted : Counted w s := ⟨hc, h.polling.result, hnone, hlt⟩
      refine .inl ⟨step_sound h.sound s.event, h.polling.counted h.sound.toListed hcounted, ?_,
        hmem, fun a v hv => ?_⟩
      · rw [hcounted.stakes]
        exact h.registration
      · rw [hcounted.oracleVote] at hv
        by_cases ha : a = s.oracle
        · subst ha
          rw [if_pos rfl] at hv
          obtain rfl := Option.some.inj hv
          exact ⟨mem_append_right _ (mem_singleton_self _), hs.vote_eq,
            (s.voted hc).1.gameId⟩
        · rw [if_neg ha] at hv
          obtain ⟨hcalled, hv⟩ := h.recorded a v hv
          exact ⟨mem_append_left _ hcalled, hv⟩
  · rw [World.cast, show step w s.event = w from step_of_not_commits hc]
    refine .inl ⟨h.sound, h.polling, h.registration, hmem, fun a v hv => ?_⟩
    obtain ⟨hcalled, hv⟩ := h.recorded a v hv
    exact ⟨mem_append_left _ hcalled, hv⟩

/-- Only the candidate of the majority gets enough votes. -/
theorem Gathering.vote_eq_of_reached
    (hminority : (voters.filter fun a => ballot a ≠ c).card < w.control.threshold)
    (hs : Casting id voters ballot w s) (hnew : s.oracle ∉ called) (hreached : w.control.threshold ≤
      (supporters s.vote (w.ballot id).candidates ++ [s.oracle]).length) : s.vote = c := by
  have hcast {a : Address} (ha : a ∈ supporters s.vote (w.ballot id).candidates) :=
    h.recorded a s.vote (h.polling.tally.vote_of_supporter ha)
  have hnodup : (supporters s.vote (w.ballot id).candidates ++ [s.oracle]).Nodup := by
    refine nodup_append.mpr ⟨h.polling.tally.supporters_nodup _, nodup_singleton _, ?_⟩
    rintro a ha b hb rfl
    exact hnew (mem_singleton.mp hb ▸ (hcast ha).1)
  obtain ⟨a, ha, hnot⟩ := exists_notMem_of_card_lt hnodup (hminority.trans_le hreached)
  have hvoter : a ∈ voters ∧ s.vote = ballot a := by
    rcases mem_append.mp ha with ha | ha
    · exact ⟨h.called_mem a (hcast ha).1, (hcast ha).2.1⟩
    · obtain rfl := mem_singleton.mp ha
      exact ⟨hs.mem, hs.vote_eq⟩
  by_contra hne
  exact hnot (Finset.mem_filter.mpr ⟨hvoter.1, hvoter.2 ▸ hne⟩)

end

/-- The stakes after the vote that makes the result. -/
theorem World.cast_registration (htally : (w.ballot s.matchId).Exact)
    (hc : Commits s.env s.call w) (hres : w.results.result s.matchId = none)
    (hnone : w.votes.oracleVote (s.matchId, s.oracle) = none) (hreached : w.control.threshold ≤
      (supporters s.vote (w.ballot s.matchId).candidates ++ [s.oracle]).length) (a : Address) :
    (w.cast s).stakes.registration a =
      if a ∈ (rivals s.vote (w.ballot s.matchId).candidates).flatMap CandidateTally.submitters then
        (w.stakes.registration a).map (·.slashed minoritySlashBps)
      else w.stakes.registration a := by
  have hnodup := htally.rivals_nodup s.vote
  rw [World.ballot_candidates] at hreached hnodup ⊢
  obtain ⟨-, w2, hslash, hstep⟩ := s.slashes_of_reached hc hres hnone hreached
  have hslashed := forEach_slash_registration hnodup hslash a
  rw [World.cast, hstep]
  exact hslashed

/-- Until the result is there, everyone in `called` whose vote counts has voted, and the match is
undecided. -/
structure Contested (w0 : World) (matchId : ℕ) (voters : Finset Address)
    (ballot : Address → OracleVoteRecord) (c : OracleVoteRecord) (called : List Address)
    (w : World) : Prop extends Gathering w0 matchId voters ballot called w where
  undecided : Undecided matchId c (voters.filter fun a => ballot a = c)
    (voters.filter fun a => ballot a ≠ c) called w
  complete : ∀ a ∈ called, (ballot a).gameId ≠ [] →
    w.votes.oracleVote (matchId, a) = some (ballot a)

theorem Casting.plays (hs : Casting id voters ballot w s) (c : OracleVoteRecord) :
    Plays id c (voters.filter fun a => ballot a = c) (voters.filter fun a => ballot a ≠ c) w s where
  matchId_eq := hs.matchId_eq
  mem := by
    by_cases heq : ballot s.oracle = c
    · exact .inl (Finset.mem_filter.mpr ⟨hs.mem, heq⟩)
    · exact .inr (Finset.mem_filter.mpr ⟨hs.mem, heq⟩)
  vote_eq hmem := hs.vote_eq.trans (Finset.mem_filter.mp hmem).2
  smooth _ := hs.toSmooth

theorem Casting.voteOpen (hs : Casting id voters ballot w s)
    (hpaused : w.control.paused = false) (hadmin : w.control.admin.isSome = true)
    (hgame : (ballot s.oracle).gameId ≠ []) (hstaked : w.stakes.eligible s.oracle = true) :
    VoteOpen s.env w s.oracle s.vote where
  paused := hpaused
  admin := hadmin
  auth := hs.auth
  gameId := hs.vote_eq ▸ hgame
  staked := Stakes.eligible_iff.mp hstaked

/-- The vote that makes the result settles the match. -/
theorem Contested.settled (h : Contested w0 id voters ballot c called w)
    (hminority : (voters.filter fun a => ballot a ≠ c).card < w.control.threshold)
    (hs : Casting id voters ballot w s) (hnew : s.oracle ∉ called) (hc : Commits s.env s.call w)
    (hreached : w.control.threshold ≤
      (supporters s.vote (w.ballot id).candidates ++ [s.oracle]).length) :
    Settled w0 id ballot c (called ++ [s.oracle]) (w.cast s) := by
  have hvote := h.vote_eq_of_reached hminority hs hnew hreached
  obtain rfl := hs.matchId_eq
  have hnone := h.oracleVote_none hnew
  refine ⟨hvote ▸ World.cast_decided hc h.polling.result hnone hreached, fun a => ?_⟩
  rw [World.cast_registration h.polling.tally hc h.polling.result hnone hreached a, hvote,
    h.registration]
  refine if_congr ?_ rfl rfl
  rw [h.polling.tally.mem_rivals_iff]
  constructor
  · rintro ⟨v, hne, hv⟩
    obtain ⟨hcalled, rfl, hgame⟩ := h.recorded a v hv
    exact ⟨mem_append_left _ hcalled, hne, hgame⟩
  · rintro ⟨hcalled, hne, hgame⟩
    rcases mem_append.mp hcalled with hcalled | hself
    · exact ⟨ballot a, hne, h.complete a hcalled hgame⟩
    · obtain rfl := mem_singleton.mp hself
      exact absurd (hs.vote_eq.symm.trans hvote) hne

/-- One more call on a match that is not settled. -/
theorem Contested.cast (h : Contested w0 id voters ballot c called w)
    (hpaused : w.control.paused = false) (hadmin : w.control.admin.isSome = true)
    (hc : c.gameId ≠ [])
    (henough : w.control.threshold ≤ (voters.filter fun a => ballot a = c).card)
    (hminority : (voters.filter fun a => ballot a ≠ c).card < w.control.threshold)
    (hstaked : ∀ a ∈ voters, w0.stakes.eligible a = true)
    (hs : Casting id voters ballot w s) (hnew : s.oracle ∉ called) :
    Contested w0 id voters ballot c (called ++ [s.oracle]) (w.cast s) ∨
      Settled w0 id ballot c (called ++ [s.oracle]) (w.cast s) := by
  rcases h.toGathering.next hs hnew with hgather | ⟨hcommits, hreached⟩
  · have hnores := hgather.polling.result
    have hundecided := (h.undecided.cast hpaused hadmin hc henough hminority (hs.plays c)
      fun _ => hnew).resolve_right fun ⟨entry, hsome, _⟩ =>
        nomatch hnores.symm.trans hsome
    refine .inl ⟨hgather, hundecided, fun a ha hgame => ?_⟩
    obtain rfl := hs.matchId_eq
    rcases mem_append.mp ha with ha | ha
    · exact (step_ballot w s.event s.matchId).vote_persists (h.complete a ha hgame)
    · obtain rfl := mem_singleton.mp ha
      have hnone := h.oracleVote_none hnew
      have heligible : w.stakes.eligible s.oracle = true := by
        rw [Stakes.eligible, h.registration]
        exact hstaked s.oracle hs.mem
      have hcommits := hs.toSmooth.commits_of_first
        (hs.voteOpen hpaused hadmin hgame heligible) h.polling.result hnone h.undecided.disputed
      rcases le_or_gt w.control.threshold
        (supporters s.vote (w.ballot s.matchId).candidates ++ [s.oracle]).length with hle | hlt
      · obtain ⟨entry, hsome, -⟩ := World.cast_decided hcommits h.polling.result hnone hle
        cases hnores.symm.trans hsome
      · have hcounted : Counted w s := ⟨hcommits, h.polling.result, hnone, hlt⟩
        rw [hcounted.oracleVote, if_pos rfl, hs.vote_eq]
  · exact .inr (h.settled hminority hs hnew hcommits hreached)

/-- A vote against the result is slashed. -/
theorem World.cast_late (hs : Smooth w s) (hopen : VoteOpen s.env w s.oracle s.vote)
    (hdecided : Decided s.matchId c w) (hne : s.vote ≠ c) :
    Slashed s.env w s.oracle minoritySlashBps (w.cast s) := by
  obtain ⟨entry, hres, rfl, -⟩ := hdecided
  have hcommits : Commits s.env s.call w := by
    refine hs.commits fun e w' herr => ?_
    change submitOracleResult s.oracle s.matchId s.vote.gameId s.vote.platform s.vote.result
      s.responseTimeMs s.env w = _ at herr
    rw [submitOracleResult_eq hopen, hres] at herr
    change lateVote s.oracle entry s.vote s.env w = _ at herr
    rw [lateVote_of_ne hne.symm, Tx.bind_err_iff] at herr
    rcases herr with herr | ⟨_, _, -, herr⟩
    · exact slashBps_not_err herr
    · exact Tx.pure_err_iff.mp herr
  have hvoted := (s.voted hcommits).2
  change Slashed _ _ _ _ (step w s.event)
  generalize step w s.event = w' at hvoted
  cases hvoted with
  | late _ _ _ _ hslash => exact hslash
  | equivocated _ hnone | finalized hnone | counted hnone => cases hnone.symm.trans hres

/-- One more call on a match that is settled. -/
theorem Settled.cast (h : Settled w0 id ballot c called w)
    (hpaused : w.control.paused = false) (hadmin : w.control.admin.isSome = true)
    (hstaked : ∀ a ∈ voters, w0.stakes.eligible a = true)
    (hs : Casting id voters ballot w s) (hnew : s.oracle ∉ called) :
    Settled w0 id ballot c (called ++ [s.oracle]) (w.cast s) := by
  obtain rfl := hs.matchId_eq
  have hself : w.stakes.registration s.oracle = w0.stakes.registration s.oracle := by
    rw [h.registration, if_neg fun hcalled => hnew hcalled.1]
  refine ⟨h.decided.cast s, fun a => ?_⟩
  by_cases hloses : Loses ballot c s.oracle
  · have heligible : w.stakes.eligible s.oracle = true := by
      rw [Stakes.eligible, hself]
      exact hstaked s.oracle hs.mem
    have hslash := World.cast_late hs.toSmooth (hs.voteOpen hpaused hadmin hloses.2 heligible)
      h.decided (hs.vote_eq ▸ hloses.1)
    by_cases ha : a = s.oracle
    · subst ha
      rw [hslash.registration_self, hself, if_pos ⟨by simp, hloses⟩]
    · rw [hslash.registration_of_ne ha, h.registration]
      simp [ha]
  · -- the call is rejected
    have hcommits : ¬Commits s.env s.call w := by
      intro hcommits
      obtain ⟨entry, hres, hvote, -⟩ := h.decided
      obtain ⟨hopen, hvoted⟩ := s.voted hcommits
      generalize step w s.event = w' at hvoted
      cases hvoted with
      | late finalized hsome hne =>
        obtain rfl := Option.mem_unique hres hsome
        refine hloses ⟨?_, hs.vote_eq ▸ hopen.gameId⟩
        rw [← hs.vote_eq, ← hvote]
        exact hne.symm
      | equivocated _ hnone | finalized hnone | counted hnone => cases hnone.symm.trans hres
    rw [World.cast, show step w s.event = w from step_of_not_commits hcommits, h.registration]
    refine if_congr (and_congr_left fun hl => ?_) rfl rfl
    have ha : a ≠ s.oracle := by
      rintro rfl
      exact hloses hl
    simp [ha]

end

/-! ## Any order -/

section

variable {w : World} {id : ℕ} {c : OracleVoteRecord} {voters : Finset Address}
  {ballot : Address → OracleVoteRecord} {ss : List Submission}

theorem World.Fresh.gathering (h : w.Fresh id) (hpos : 0 < w.control.threshold) :
    Gathering w id voters ballot [] w where
  sound := h.sound
  polling := h.polling hpos
  registration := rfl
  called_mem _ ha := by simp at ha
  recorded a v hv := absurd ((congrFun (congrArg Ballot.votes h.ballot) a).symm.trans hv) (by simp)

theorem nodup_map_snoc {s : Submission} (h : ((ss ++ [s]).map Submission.oracle).Nodup) :
    (ss.map Submission.oracle).Nodup ∧ s.oracle ∉ ss.map Submission.oracle := by
  rw [map_append] at h
  obtain ⟨hold, -, hdisjoint⟩ := nodup_append.mp h
  exact ⟨hold, fun hmem => hdisjoint _ hmem _ (mem_singleton_self _) rfl⟩

/-- Votes without game id make no result. -/
theorem run_gathering (hfresh : w.Fresh id)
    (hminority : (voters.filter fun a => ballot a ≠ c).card < w.control.threshold)
    (hc : c.gameId = []) (honce : (ss.map Submission.oracle).Nodup)
    (hcasts : Along World.cast (Casting id voters ballot) w ss) :
    Gathering w id voters ballot (ss.map Submission.oracle) (run World.cast w ss) := by
  revert honce
  refine history_inv (I := fun ss => (ss.map Submission.oracle).Nodup →
    Gathering w id voters ballot (ss.map Submission.oracle) (run World.cast w ss))
    (fun _ => hfresh.gathering (by omega)) (fun ss s ih hs honce => ?_) hcasts
  obtain ⟨hold, hnew⟩ := nodup_map_snoc honce
  rw [run_snoc, map_append]
  refine ((ih hold).next hs hnew).resolve_right fun ⟨hcommits, hreached⟩ => ?_
  have hvote := (ih hold).vote_eq_of_reached (by rwa [run_cast_control]) hs hnew hreached
  exact (s.voted hcommits).1.gameId (hvote ▸ hc)

/-- Until the match is settled it is contested. -/
theorem run_contested (hfresh : w.Fresh id) (hc : c.gameId ≠ [])
    (henough : w.control.threshold ≤ (voters.filter fun a => ballot a = c).card)
    (hminority : (voters.filter fun a => ballot a ≠ c).card < w.control.threshold)
    (hstaked : ∀ a ∈ voters, w.stakes.eligible a = true) (honce : (ss.map Submission.oracle).Nodup)
    (hcasts : Along World.cast (Casting id voters ballot) w ss) :
    Contested w id voters ballot c (ss.map Submission.oracle) (run World.cast w ss) ∨
      Settled w id ballot c (ss.map Submission.oracle) (run World.cast w ss) := by
  revert honce
  refine history_inv (I := fun ss => (ss.map Submission.oracle).Nodup →
    Contested w id voters ballot c (ss.map Submission.oracle) (run World.cast w ss) ∨
      Settled w id ballot c (ss.map Submission.oracle) (run World.cast w ss))
    (fun _ => .inl ?_) (fun ss s ih hs honce => ?_) hcasts
  · refine ⟨hfresh.gathering (by omega), hfresh.undecided (by omega) fun a ha => ?_, by simp⟩
    exact hstaked a (Finset.mem_filter.mp ha).1
  · obtain ⟨hold, hnew⟩ := nodup_map_snoc honce
    have hcontrol := run_cast_control w ss
    have hpaused : (run World.cast w ss).control.paused = false := by
      rw [hcontrol, hfresh.paused]
    have hadmin : (run World.cast w ss).control.admin.isSome = true := by
      rw [hcontrol, hfresh.admin]
    rw [run_snoc, map_append]
    rcases ih hold with hcontested | hsettled
    · exact hcontested.cast hpaused hadmin hc (by rwa [hcontrol]) (by rwa [hcontrol]) hstaked hs
        hnew
    · exact .inr (hsettled.cast hpaused hadmin hstaked hs hnew)

/-- The result and the stakes when all have voted do not depend on the order. -/
theorem run_settled (hfresh : w.Fresh id)
    (henough : w.control.threshold ≤ (voters.filter fun a => ballot a = c).card)
    (hmajority : voters.card < 2 * w.control.threshold)
    (hstaked : ∀ a ∈ voters, w.stakes.eligible a = true) (hss : Schedule w id voters ballot ss) :
    ((run World.cast w ss).results.result id).map ResultEntry.vote =
        (if c.gameId = [] then none else some c) ∧
      ∀ a, (run World.cast w ss).stakes.registration a =
        if a ∈ voters ∧ c.gameId ≠ [] ∧ Loses ballot c a then
          (w.stakes.registration a).map (·.slashed minoritySlashBps)
        else w.stakes.registration a := by
  have hcards := voters.card_filter_add_card_filter_not fun a => ballot a = c
  have hminority : (voters.filter fun a => ballot a ≠ c).card < w.control.threshold := by
    change (voters.filter fun a => ¬ballot a = c).card < _
    omega
  by_cases hc : c.gameId = []
  · have hgather := run_gathering hfresh hminority hc hss.once hss.casts
    refine ⟨?_, fun a => ?_⟩
    · rw [hgather.polling.result, if_pos hc]
      rfl
    · rw [hgather.registration, if_neg fun h => h.2.1 hc]
  · have hall : ∀ a ∈ voters.filter (fun a => ballot a = c),
        a ∈ voters.filter (fun a => ballot a = c) ∧ a ∈ ss.map Submission.oracle := fun a ha =>
      ⟨ha, (hss.complete a).mpr (Finset.mem_filter.mp ha).1⟩
    rcases run_contested hfresh hc henough hminority hstaked hss.once hss.casts with h | h
    · have hfew := h.undecided.card_lt hall
      rw [run_cast_control] at hfew
      omega
    · obtain ⟨entry, hres, hvote, -⟩ := h.decided
      refine ⟨?_, fun a => ?_⟩
      · rw [hres, if_neg hc, ← hvote]
        rfl
      · rw [h.registration]
        refine if_congr ?_ rfl rfl
        rw [hss.complete, and_iff_right hc]

/-- Vote order does not matter when the threshold is a majority. The voters have stake, and some
candidate has enough of their votes. Then two orders of the same votes end with the same result
and the same registrations. -/
theorem order_irrelevant {ss' : List Submission} (hfresh : w.Fresh id)
    (hmajority : voters.card < 2 * w.control.threshold)
    (henough : ∃ c, w.control.threshold ≤ (voters.filter fun a => ballot a = c).card)
    (hstaked : ∀ a ∈ voters, w.stakes.eligible a = true)
    (hss : Schedule w id voters ballot ss) (hss' : Schedule w id voters ballot ss') :
    ((run World.cast w ss).results.result id).map ResultEntry.vote =
        ((run World.cast w ss').results.result id).map ResultEntry.vote ∧
      (run World.cast w ss).stakes.registration = (run World.cast w ss').stakes.registration := by
  obtain ⟨c, hc⟩ := henough
  obtain ⟨hresult, hregistration⟩ := run_settled hfresh hc hmajority hstaked hss
  obtain ⟨hresult', hregistration'⟩ := run_settled hfresh hc hmajority hstaked hss'
  exact ⟨hresult.trans hresult'.symm,
    funext fun a => (hregistration a).trans (hregistration' a).symm⟩

end

/-- Oracle 2 is for the first player, the others are for the second. -/
def splitBallot (a : Address) : OracleVoteRecord :=
  (voteOf 0 (if a = .ext 2 then .player1 else .player2)).vote

/-- Oracle 2 loses a tenth of its stake whether it votes first or last. -/
theorem order_irrelevant_threeOracles :
    let w := run step (.deployed plainLedger) threeOracles
    let ss := [voteOf 2 .player1, voteOf 3 .player2, voteOf 4 .player2]
    let ss' := [voteOf 3 .player2, voteOf 4 .player2, voteOf 2 .player1]
    (run World.cast w ss).stakes.registration (.ext 2) = some ⟨.ext 2, 90, .ext 9⟩ ∧
      (run World.cast w ss).stakes.registration = (run World.cast w ss').stakes.registration := by
  intro w ss ss'
  have hfresh : w.Fresh 0 :=
    ⟨⟨plainLedger, threeOracles, rfl⟩, by decide +kernel, by decide +kernel, rfl⟩
  have hss : Schedule w 0 {.ext 2, .ext 3, .ext 4} splitBallot ss :=
    ⟨by decide, fun a => by simp [ss, voteOf], by decide +kernel⟩
  have hss' : Schedule w 0 {.ext 2, .ext 3, .ext 4} splitBallot ss' :=
    ⟨by decide, fun a => by simp [ss', voteOf, or_comm, or_left_comm], by decide +kernel⟩
  exact ⟨by decide +kernel, (order_irrelevant hfresh (by decide +kernel)
    ⟨(voteOf 3 .player2).vote, by decide +kernel⟩ (by decide +kernel) hss hss').2⟩

end Checkmate.Oracle

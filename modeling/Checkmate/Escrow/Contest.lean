import Checkmate.Escrow.Council

/-!
# Votes against a faulty minority

Enough honest oracles vote for one winner, and the others are too few to settle the match
between them. Then no other winner is ever recorded. But the first vote decides who leads : if
it names the honest winner the match is settled, and if it does not, every honest vote conflicts
with it and is rolled back together with the flag that would open the match to the admin
(`minority_harmless_iff`).
-/

namespace Checkmate.Escrow

open Function Option List

variable {w s : World} {id : ℕ} {m : Match} {required : UInt32}
  {honest others : Finset Address} {winner v : Winner}

/-- A vote that its oracle has authorised. -/
structure Submission where
  env : Env
  winner : Winner
  oracle : Address
  auth : oracle ∈ env.auths

/-- Submit a vote on a match. -/
def Submission.submit (matchId : ℕ) (w : World) (c : Submission) : World :=
  step w (.invoke c.env (.submitResultConsensus matchId c.winner c.oracle))

/-- An active match without votes, on which the honest oracles can reach the required number and
the others cannot. -/
structure Contest (w : World) (matchId : ℕ) (m : Match) (required : UInt32)
    (honest others : Finset Address) : Prop where
  reachable : Reachable w
  stored : w.matchMap matchId = some m
  active : m.state = .active
  unvoted : ∀ a, w.consensus.oracleVote (matchId, a) = none
  unpaused : w.control.paused = false
  period : w.control.getDisputePeriod = 0
  required_eq : w.control.getRequiredConfirmations = required.toNat
  required_pos : 1 ≤ required.toNat
  required_le : required.toNat ≤ w.control.getApprovedOracles.length
  approved : ∀ a ∈ honest ∪ others, a ∈ w.control.getApprovedOracles
  many : required.toNat ≤ honest.card
  few : others.card < required.toNat

/-- The submissions come from these oracles, and the honest ones name the winner. -/
structure Plays (honest others : Finset Address) (winner : Winner) (calls : List Submission) :
    Prop where
  members : ∀ c ∈ calls, c.oracle ∈ honest ∪ others
  honest : ∀ c ∈ calls, c.oracle ∈ honest → c.winner = winner

theorem Plays.append_left {before after : List Submission}
    (h : Plays honest others winner (before ++ after)) : Plays honest others winner before :=
  ⟨fun c hc => h.members c (mem_append_left _ hc),
    fun c hc => h.honest c (mem_append_left _ hc)⟩

/-- The match is in play, and those who have named `v` have voted for it. -/
structure Running (w : World) (matchId : ℕ) (m : Match) (required : UInt32) (v : Winner)
    (calls : List Submission) (s : World) : Prop where
  reachable : Reachable s
  stored : s.matchMap matchId = some m
  control : s.control.fresh = w.control.fresh
  unflagged : s.consensus.oracleDeadlock matchId = false
  below : s.consensus.oracleConfirmations matchId < required.toNat
  votes : ∀ a x, s.consensus.oracleVote (matchId, a) = some x ↔
    x = v ∧ ∃ c ∈ calls, c.oracle = a ∧ c.winner = v

theorem head?_append_left {before after : List Submission} {c : Submission}
    (hc : c ∈ before.head?) : c ∈ (before ++ after).head? := by
  rw [List.head?_append, mem_def.mp hc]
  rfl

/-- The match is over and `v` is its winner. -/
def SettledFor (matchId : ℕ) (v : Winner) (s : World) : Prop :=
  ∃ m, s.matchMap matchId = some m ∧ m.state = .completed ∧ m.winner = v

theorem Contest.start (h : Contest w id m required honest others) :
    Running w id m required v [] w := by
  have hsound := h.reachable.consensus_sound
  have hzero : w.consensus.oracleConfirmations id = 0 :=
    (hsound.unanimous id).count_eq_zero h.unvoted
  refine ⟨h.reachable, h.stored, rfl, ?_, hzero ▸ h.required_pos, by simp [h.unvoted]⟩
  by_contra hflag
  exact hsound.flagged id (by simpa using hflag) hzero

section

variable {calls : List Submission} {c : Submission}

/-- Once someone has voted, `v` leads. -/
theorem Running.leads (h : Running w id m required v calls s)
    (hne : s.consensus.oracleConfirmations id ≠ 0) :
    s.consensus.consensusLeadingWinner id = some v := by
  have hunanimous := h.reachable.consensus_sound.unanimous id
  obtain ⟨voters, hcard, hvoters⟩ := hunanimous.exists_voters
  obtain ⟨a, ha⟩ := Finset.card_pos.mp (by omega : 0 < voters.card)
  obtain ⟨x, hx⟩ := isSome_iff_exists.mp (hvoters a ha)
  obtain ⟨rfl, -⟩ := (h.votes a x).mp hx
  exact hunanimous.leader a x hx

/-- Whoever has named `v` has voted. -/
theorem Running.voted (h : Running w id m required v calls s) (hc : c ∈ calls)
    (hv : c.winner = v) : s.consensus.oracleVote (id, c.oracle) = some v :=
  (h.votes _ v).mpr ⟨rfl, c, hc, rfl, hv⟩

theorem Running.confirmations_ne_zero (h : Running w id m required v calls s) (hc : c ∈ calls)
    (hv : c.winner = v) : s.consensus.oracleConfirmations id ≠ 0 := by
  intro hzero
  have hunanimous := h.reachable.consensus_sound.unanimous id
  rw [hzero] at hunanimous
  exact absurd ((hunanimous.eq_none c.oracle).symm.trans (h.voted hc hv)) (by simp)

theorem submit_of_not_open (h : ∀ m, ¬VoteOpen c.env s.fresh id c.winner c.oracle m) :
    c.submit id s = s := by
  refine invoke_of_not_commits fun ⟨s', hs⟩ => ?_
  obtain ⟨m, hopen, -⟩ := submitResultConsensus_ok_iff.mp hs
  exact h m hopen

/-- A match that is over takes no vote. -/
theorem SettledFor.submit (h : SettledFor id v s) : SettledFor id v (c.submit id s) := by
  obtain ⟨m, hm, hstate, hwinner⟩ := h
  rw [submit_of_not_open fun m' hopen => ?_]
  · exact ⟨m, hm, hstate, hwinner⟩
  · obtain rfl : m = m' := mem_unique hm hopen.stored
    cases hstate.symm.trans hopen.active

section

variable (h : Running w id m required v calls s)

include h

/-- A vote for another winner conflicts, unless it is the first. -/
theorem Running.submit_other (hfirst : s.consensus.oracleConfirmations id ≠ 0) (hc : c.winner ≠ v) :
    Running w id m required v (calls ++ [c]) (c.submit id s) := by
  rw [submit_of_not_open fun m' hopen => ?_]
  · refine { h with votes := fun a x => (h.votes a x).trans ?_ }
    simp [hc]
  · rcases hopen.agrees with hzero | hlead
    · exact hfirst hzero
    · exact hc (Option.some.inj (hlead.symm.trans (h.leads hfirst)))

/-- An oracle that has named `v` does not vote again. -/
theorem Running.submit_again (hvoted : ∃ c' ∈ calls, c'.oracle = c.oracle ∧ c'.winner = v) :
    Running w id m required v (calls ++ [c]) (c.submit id s) := by
  obtain ⟨c', hc', horacle, hv⟩ := hvoted
  have hvote := h.voted hc' hv
  rw [horacle] at hvote
  rw [submit_of_not_open fun m' hopen => nomatch hopen.unvoted.symm.trans hvote]
  refine { h with votes := fun a x => (h.votes a x).trans (and_congr_right fun _ => ?_) }
  constructor
  · rintro ⟨c1, hc1, h1⟩
    exact ⟨c1, mem_append_left _ hc1, h1⟩
  · rintro ⟨c1, hc1, rfl, hv1⟩
    rcases mem_append.mp hc1 with hc1 | hc1
    · exact ⟨c1, hc1, rfl, hv1⟩
    · rw [mem_singleton.mp hc1]
      exact ⟨c', hc', horacle, hv⟩

theorem Running.open (hcontest : Contest w id m required honest others)
    (hmember : c.oracle ∈ honest ∪ others) (hv : c.winner = v)
    (hunvoted : ¬∃ c' ∈ calls, c'.oracle = c.oracle ∧ c'.winner = v) :
    VoteOpen c.env s.fresh id c.winner c.oracle m where
  unpaused := (congrArg Control.paused h.control).trans hcontest.unpaused
  auth := c.auth
  unused := hasAuth_fresh c.auth
  approved := by
    have hlist : s.control.fresh.getApprovedOracles = w.control.fresh.getApprovedOracles := by
      rw [h.control]
    exact hlist ▸ hcontest.approved _ hmember
  stored := h.stored
  active := hcontest.active
  funded := (hcontest.reachable.sound.stored id m hcontest.stored).stage.funded
    (by simp [hcontest.active]) (by simp [hcontest.active])
  unvoted := by
    cases hvote : s.consensus.oracleVote (id, c.oracle) with
    | none => exact hvote
    | some x => exact absurd ((h.votes _ x).mp hvote).2 hunvoted
  agrees := by
    by_cases hzero : s.consensus.oracleConfirmations id = 0
    · exact .inl hzero
    · exact .inr (hv ▸ h.leads hzero)
  fits := h.below.trans_le (toNat_le_u32Max required)

theorem Running.submit_eq (hcontest : Contest w id m required honest others)
    (hopen : VoteOpen c.env s.fresh id c.winner c.oracle m) {s' : World}
    (hcount : (if required.toNat ≤ s.consensus.oracleConfirmations id + 1 then
        settleResult id c.winner
      else checkOracleDeadlock id (s.consensus.oracleConfirmations id + 1)
        required.toNat) c.env (s.fresh.voted id c.winner c.oracle) = .ok () s') :
    c.submit id s = s'.fresh := by
  have hrequired : s.control.fresh.getRequiredConfirmations = required.toNat := by
    rw [h.control]
    exact hcontest.required_eq
  refine invoke_of_ok (submitResultConsensus_ok_iff.mpr ⟨m, hopen, ?_⟩)
  change (if s.control.fresh.getRequiredConfirmations ≤ _ then _ else
    checkOracleDeadlock _ _ s.control.fresh.getRequiredConfirmations) _ _ = _
  rw [hrequired]
  exact hcount

/-- The last vote that is required settles the match. -/
theorem Running.settles (hcontest : Contest w id m required honest others)
    (hopen : VoteOpen c.env s.fresh id c.winner c.oracle m) (hne : c.winner ≠ .none)
    (hreached : required.toNat ≤ s.consensus.oracleConfirmations id + 1) :
    SettledFor id c.winner (c.submit id s) := by
  have hsound := hcontest.reachable.sound.stored id m hcontest.stored
  have hpot := checkedMul_two hsound.terms.stake_pos (hsound.fits hopen.funded.1 hopen.funded.2)
  have hperiod : s.control.fresh.getDisputePeriod = 0 := by
    rw [h.control]
    exact hcontest.period
  have hok : settleResult id c.winner c.env (s.fresh.voted id c.winner c.oracle) = .ok () _ :=
    settleResult_ok_iff.mpr ⟨m, ⟨hne, h.stored, hopen.funded, .inl hcontest.active⟩,
      .inl ⟨hperiod, isSome_of_mem hpot, rfl⟩⟩
  rw [h.submit_eq hcontest hopen (by rw [if_pos hreached]; exact hok)]
  exact ⟨_, update_self .., rfl, rfl⟩

/-- An earlier one is counted. -/
theorem Running.counts (hcontest : Contest w id m required honest others)
    (hopen : VoteOpen c.env s.fresh id c.winner c.oracle m) (hv : c.winner = v)
    (hbelow : s.consensus.oracleConfirmations id + 1 < required.toNat) :
    Running w id m required v (calls ++ [c]) (c.submit id s) := by
  have hreach : ¬(s.control.fresh.useAuth c.oracle).OutOfReach
      (s.consensus.oracleConfirmations id + 1) required.toNat := by
    have hle := hcontest.required_le
    have hmax := toNat_le_u32Max required
    have hlength : (s.control.fresh.useAuth c.oracle).getApprovedOracles.length =
        w.control.getApprovedOracles.length := by
      rw [h.control]
      rfl
    simp only [Control.OutOfReach, hlength, saturatingAddU]
    omega
  have hok : checkOracleDeadlock id (s.consensus.oracleConfirmations id + 1)
      required.toNat c.env (s.fresh.voted id c.winner c.oracle) =
        .ok () (s.fresh.voted id c.winner c.oracle) :=
    checkOracleDeadlock_ok_iff.mpr (.inr ⟨hreach, rfl⟩)
  have hstep : c.submit id s = (s.fresh.voted id c.winner c.oracle).fresh :=
    h.submit_eq hcontest hopen (by rw [if_neg (not_le.mpr hbelow)]; exact hok)
  have hreachable : Reachable (c.submit id s) :=
    h.reachable.step (.invoke c.env (.submitResultConsensus id c.winner c.oracle))
  rw [hstep] at hreachable ⊢
  have hcontrol : (s.fresh.voted id c.winner c.oracle).fresh.control.fresh = w.control.fresh := by
    simp [h.control]
  refine ⟨hreachable, h.stored, hcontrol, h.unflagged, ?_, fun a x => ?_⟩
  · have hcount : (s.fresh.voted id c.winner c.oracle).fresh.consensus.oracleConfirmations
        id = s.consensus.oracleConfirmations id + 1 := update_self ..
    rwa [hcount]
  · have hvote : (s.fresh.voted id c.winner c.oracle).fresh.consensus.oracleVote =
        update s.consensus.oracleVote (id, c.oracle) (some c.winner) := rfl
    rw [hvote]
    by_cases ha : a = c.oracle
    · rw [ha, update_self, some_inj, hv]
      exact ⟨fun hx => ⟨hx.symm, c, by simp, rfl, hv⟩, fun hx => hx.1.symm⟩
    · rw [update_of_ne (by simpa using ha), h.votes]
      refine and_congr_right fun _ => ?_
      simp [mem_append, or_and_right, exists_or, Ne.symm ha]

/-- The others alone stay below the required number. -/
theorem Running.others_below (hcontest : Contest w id m required honest others)
    (hplays : Plays honest others winner (calls ++ [c])) (hv : v ≠ winner) (hc : c.winner = v)
    (hunvoted : ¬∃ c' ∈ calls, c'.oracle = c.oracle ∧ c'.winner = v) :
    s.consensus.oracleConfirmations id + 1 < required.toNat := by
  have hother {c' : Submission} (hc' : c' ∈ calls ++ [c]) (hv' : c'.winner = v) :
      c'.oracle ∈ others := by
    rcases Finset.mem_union.mp (hplays.members c' hc') with hmem | hmem
    · exact absurd (hv'.symm.trans (hplays.honest c' hc' hmem)) hv
    · exact hmem
  obtain ⟨voters, hcard, hvoters⟩ := (h.reachable.consensus_sound.unanimous id).exists_voters
  have hnamed (a : Address) (ha : a ∈ voters) : ∃ c' ∈ calls, c'.oracle = a ∧ c'.winner = v := by
    obtain ⟨x, hx⟩ := isSome_iff_exists.mp (hvoters a ha)
    exact ((h.votes a x).mp hx).2
  have hsubset : insert c.oracle voters ⊆ others := by
    intro a ha
    rcases Finset.mem_insert.mp ha with rfl | ha
    · exact hother (by simp) hc
    · obtain ⟨c', hc', rfl, hv'⟩ := hnamed a ha
      exact hother (mem_append_left _ hc') hv'
  have hnew : c.oracle ∉ voters := fun hmem => hunvoted (hnamed _ hmem)
  have hle := Finset.card_le_card hsubset
  rw [Finset.card_insert_of_notMem hnew, hcard] at hle
  exact hle.trans_lt hcontest.few

end

/-- If the first vote names `v`, the match stays in play with the votes for `v`, or `v` is the
honest winner and has won. -/
theorem Contest.progress (hcontest : Contest w id m required honest others)
    (hwinner : winner ≠ .none) (hplays : Plays honest others winner calls)
    (hfirst : ∀ c ∈ calls.head?, c.winner = v) :
    Running w id m required v calls (run (Submission.submit id) w calls) ∨
      v = winner ∧ SettledFor id v (run (Submission.submit id) w calls) := by
  have hal : Along (Submission.submit id) (fun _ _ => True) w calls := along_true w calls
  refine history_inv (I := fun calls => Plays honest others winner calls →
    (∀ c ∈ calls.head?, c.winner = v) →
    Running w id m required v calls (run (Submission.submit id) w calls) ∨
      v = winner ∧ SettledFor id v (run (Submission.submit id) w calls))
    (fun _ _ => .inl hcontest.start) ?_ hal hplays hfirst
  intro calls c ih _ hplays hfirst
  have hhead : ∀ c ∈ calls.head?, c.winner = v := fun c' hc' => hfirst c' (head?_append_left hc')
  rw [run_snoc]
  rcases ih hplays.append_left hhead with hrunning | ⟨rfl, hsettled⟩
  case inr => exact .inr ⟨rfl, hsettled.submit⟩
  by_cases hv : c.winner = v
  case neg =>
    -- The first vote names `v`, so this is a later one.
    cases calls with
    | nil => exact absurd (hfirst c rfl) hv
    | cons c0 =>
      have hc0 : c0.winner = v := hhead c0 rfl
      exact .inl (hrunning.submit_other (hrunning.confirmations_ne_zero mem_cons_self hc0) hv)
  by_cases hvoted : ∃ c' ∈ calls, c'.oracle = c.oracle ∧ c'.winner = v
  · exact .inl (hrunning.submit_again hvoted)
  have hopen := hrunning.open hcontest (hplays.members c (by simp)) hv hvoted
  by_cases hbelow : (run (Submission.submit id) w calls).consensus.oracleConfirmations
      id + 1 < required.toNat
  · exact .inl (hrunning.counts hcontest hopen hv hbelow)
  · have heq : v = winner := by
      by_contra hne
      exact hbelow (hrunning.others_below hcontest hplays hne hv hvoted)
    refine .inr ⟨heq, ?_⟩
    rw [← hv]
    exact hrunning.settles hcontest hopen (hv.trans heq ▸ hwinner) (not_lt.mp hbelow)

theorem Running.not_settled (h : Running w id m required v calls s)
    (hcontest : Contest w id m required honest others) {x : Winner} : ¬SettledFor id x s := by
  rintro ⟨m', hm', hstate, -⟩
  obtain rfl : m = m' := mem_unique h.stored hm'
  cases hcontest.active.symm.trans hstate

theorem SettledFor.unique {x : Winner} (h : SettledFor id v s)
    (h' : SettledFor id x s) : x = v := by
  obtain ⟨m, hm, -, rfl⟩ := h
  obtain ⟨m', hm', -, rfl⟩ := h'
  obtain rfl : m = m' := mem_unique hm hm'
  rfl

/-- With all honest votes in, the honest winner has won if it led. -/
theorem Running.not_all_honest (h : Running w id m required winner calls s)
    (hcontest : Contest w id m required honest others) (hplays : Plays honest others winner calls)
    (hall : ∀ a ∈ honest, ∃ c ∈ calls, c.oracle = a) : False := by
  have hle : honest.card ≤ s.consensus.oracleConfirmations id := by
    refine (h.reachable.consensus_sound.unanimous id).card_le fun a ha => ?_
    obtain ⟨c, hc, rfl⟩ := hall a ha
    rw [h.voted hc (hplays.honest c hc ha)]
    rfl
  exact absurd h.below (not_lt.mpr (hcontest.many.trans hle))

end

/-- The votes never record a winner other than the honest one. Once all honest oracles have
voted the match is settled for it, or open to the admin, exactly if the first vote names it. -/
theorem minority_harmless_iff (hcontest : Contest w id m required honest others)
    (hwinner : winner ≠ .none) {calls : List Submission} (hplays : Plays honest others winner calls)
    (hall : ∀ a ∈ honest, ∃ c ∈ calls, c.oracle = a) : (∀ before after, calls = before ++ after →
      (∀ v, SettledFor id v (run (Submission.submit id) w before) → v = winner) ∧
      ((∀ a ∈ honest, ∃ c ∈ before, c.oracle = a) →
        SettledFor id winner (run (Submission.submit id) w before) ∨
        (run (Submission.submit id) w before).consensus.isOracleDeadlocked id = true)) ↔
      ∀ c ∈ calls.head?, c.winner = winner := by
  constructor
  · intro h c hc
    have hfirst : ∀ c' ∈ calls.head?, c'.winner = c.winner := fun c' hc' => by
      rw [mem_unique hc' hc]
    rcases hcontest.progress hwinner hplays hfirst with hrunning | ⟨heq, -⟩
    case inr => exact heq
    rcases (h calls [] (by simp)).2 hall with hsettled | hflag
    · exact absurd hsettled (hrunning.not_settled hcontest)
    · cases hrunning.unflagged.symm.trans hflag
  · rintro hfirst before after rfl
    have hhead : ∀ c ∈ before.head?, c.winner = winner := fun c hc =>
      hfirst c (head?_append_left hc)
    rcases hcontest.progress hwinner hplays.append_left hhead with hrunning | ⟨-, hsettled⟩
    · exact ⟨fun v hv => absurd hv (hrunning.not_settled hcontest), fun hvotes =>
        (hrunning.not_all_honest hcontest hplays.append_left hvotes).elim⟩
    · exact ⟨fun v hv => hsettled.unique hv, fun _ => .inl hsettled⟩

theorem ext_mem_plain (n : ℕ) : Address.ext n ∈ (Env.plain [n] 0 0).auths := mem_cons_self

/-- A vote of address `n`. -/
def Submission.plain (n : ℕ) (winner : Winner) : Submission :=
  ⟨.plain [n] 0 0, winner, .ext n, ext_mem_plain n⟩

/-- Match 0 is funded and addresses 5, 6 and 7 are approved. Two of them have to agree. -/
def councilMatch : World :=
  run step .start (fundedMatch ++
    [.invoke (.plain [1] 0 0) (.control (.addApprovedOracle (.ext 5))),
      .invoke (.plain [1] 0 0) (.control (.addApprovedOracle (.ext 6))),
      .invoke (.plain [1] 0 0) (.control (.addApprovedOracle (.ext 7)))])

theorem councilMatch_contest : ∃ m, Contest councilMatch 0 m 2 {.ext 5, .ext 6} {.ext 7} := by
  have hw : Reachable councilMatch := ⟨.start, _, World.start_initial, rfl⟩
  have hstate : (councilMatch.matchMap 0).map Match.state = some .active := by decide +kernel
  have hcount : councilMatch.consensus.oracleConfirmations 0 = 0 := by decide +kernel
  obtain ⟨m, hm, hactive⟩ := map_eq_some_iff.mp hstate
  have hunanimous := hw.consensus_sound.unanimous 0
  rw [hcount] at hunanimous
  exact ⟨m, hw, hm, hactive, hunanimous.eq_none, by decide +kernel, by decide +kernel,
    by decide +kernel, by decide, by decide +kernel, by decide +kernel, by decide, by decide⟩

theorem minority_harmless_iff_councilMatch :
    SettledFor 0 .player1 (run (Submission.submit 0) councilMatch
      [.plain 5 .player1, .plain 7 .player2, .plain 6 .player1]) := by
  obtain ⟨m, hcontest⟩ := councilMatch_contest
  have hplays : Plays {.ext 5, .ext 6} {.ext 7} .player1
      [.plain 5 .player1, .plain 7 .player2, .plain 6 .player1] := ⟨by decide, by decide⟩
  have hall : ∀ a ∈ ({.ext 5, .ext 6} : Finset Address),
      ∃ c ∈ [Submission.plain 5 .player1, .plain 7 .player2, .plain 6 .player1], c.oracle = a := by
    decide
  have hfirst : ∀ c ∈ [Submission.plain 5 .player1, .plain 7 .player2, .plain 6 .player1].head?,
      c.winner = .player1 := by
    intro c hc
    rw [← Option.some.inj hc]
    rfl
  have hflag : (run (Submission.submit 0) councilMatch
      [.plain 5 .player1, .plain 7 .player2, .plain 6 .player1]).consensus.isOracleDeadlocked 0 =
        false := by decide +kernel
  have hend := ((minority_harmless_iff hcontest (by decide) hplays hall).mpr hfirst _ []
    (append_nil _).symm).2 hall
  exact hend.resolve_right fun h => nomatch hflag.symm.trans h

/-- The two honest oracles agree, but the third votes first. Nobody has won, and the match is
not open to the admin. -/
theorem first_vote_wedges : (∃ m, Contest councilMatch 0 m 2 {.ext 5, .ext 6} {.ext 7}) ∧
    Plays {.ext 5, .ext 6} {.ext 7} .player1
      [.plain 7 .player2, .plain 5 .player1, .plain 6 .player1] ∧
    (∀ v, ¬SettledFor 0 v (run (Submission.submit 0) councilMatch
      [.plain 7 .player2, .plain 5 .player1, .plain 6 .player1])) ∧
    (run (Submission.submit 0) councilMatch
      [.plain 7 .player2, .plain 5 .player1, .plain 6 .player1]).consensus.isOracleDeadlocked 0 =
        false := by
  refine ⟨councilMatch_contest, ⟨by decide, by decide⟩, ?_, by decide +kernel⟩
  rintro v ⟨m, hm, hcompleted, -⟩
  have hstate : ((run (Submission.submit 0) councilMatch
      [.plain 7 .player2, .plain 5 .player1, .plain 6 .player1]).matchMap 0).map Match.state =
        some .active := by decide +kernel
  rw [hm] at hstate
  exact absurd (hcompleted.symm.trans (Option.some.inj hstate)) (by decide)

end Checkmate.Escrow

import Mathlib.Data.Set.Card
import Checkmate.Host.Count
import Checkmate.Escrow.Register

/-!
# Counters of completed matches

Every player has a counter of completed matches, which decides how much they may stake, and
the platforms count payouts. Both are raised when a result is recorded and raised again when
a result that waited for the dispute window is paid (`Stats.recordResult`,
`Stats.recordPaid`), and the resolution of a stalled match counts for its players without a
result. Along runs where no result waits and stalled matches are drawn, every counter is the
number of matches it stands for, up to the bound where it saturates (`completions_exact`).
-/

namespace Checkmate.Escrow

open Register

variable {env : Env} {period i n : ℕ} {a : Action} {m m' : Match} {ix ix' : Index}
  {st st' : Stats} {r r' : Register} {f : Match → Bool}

/-! ## Counting matches -/

/-- The number of stored matches with a property. -/
def Register.tally (r : Register) (f : Match → Bool) : ℕ :=
  Nat.count (fun id => (r.matchMap id).any f = true) r.matchCount

theorem tally_moved_same (hm : r.matchMap i = some m) (hf : f m' = f m) :
    (r.moved i m' ix st).tally f = r.tally f := by
  refine count_congr fun id _ => ?_
  rw [moved_matchMap]
  by_cases hid : id = i
  · subst hid
    simp [hm, hf]
  · simp [hid]

theorem tally_moved_gain (hsound : r.Sound) (hm : r.matchMap i = some m)
    (hf : f m = false) (hf' : f m' = true) : (r.moved i m' ix st).tally f = r.tally f + 1 := by
  refine count_insert (hsound.lt_matchCount hm) (by simp [hm, hf]) (by simp [hf']) fun id hid => ?_
  simp [hid]

theorem tally_opened (hf : f m = false) : (r.opened m).tally f = r.tally f := by
  have hbelow : Nat.count (fun id => ((r.opened m).matchMap id).any f = true) r.matchCount =
      r.tally f := by
    refine count_congr fun id hid => ?_
    rw [opened_matchMap, Function.update_of_ne hid.ne]
  rw [Register.tally, opened_matchCount, Nat.count_succ, hbelow]
  simp [hf]

/-- The tally is the number of ids of such matches. -/
theorem Register.Sound.tally_eq (hsound : r.Sound) (f : Match → Bool) :
    r.tally f = Set.ncard {id | ∃ m, r.matchMap id = some m ∧ f m = true} := by
  have hset : {id | ∃ m, r.matchMap id = some m ∧ f m = true} =
      ↑((Finset.range r.matchCount).filter fun id => (r.matchMap id).any f = true) := by
    ext id
    simp only [Set.mem_ofPred_eq, Finset.coe_filter, Finset.mem_range, Option.any_eq_true]
    constructor
    · rintro ⟨m, hm, hf⟩
      exact ⟨hsound.lt_matchCount hm, m, hm, hf⟩
    · rintro ⟨-, m, hm, hf⟩
      exact ⟨m, hm, hf⟩
  rw [hset, Set.ncard_coe_finset, Register.tally, Nat.count_eq_card_filter_range]

/-! ## What a step records -/

/-- No result, no completion and no statistics. -/
structure Quiet (m m' : Match) (st st' : Stats) : Prop where
  terms : m'.terms = m.terms
  vestedAt : m'.vestedAt = m.vestedAt
  winner : m'.winner = m.winner
  completed : m'.state = .completed ↔ m.state = .completed
  waiting : m'.state = .pendingResult ↔ m.state = .pendingResult
  stats : st' = st

/-- A match in play gets a result, which is final or waits for the dispute window. -/
structure GetsResult (env : Env) (period : ℕ) (batch : Bool) (outcome : Winner) (m m' : Match)
    (st st' : Stats) : Prop where
  playing : m.state = .active ∨ m.state = .paused
  terms : m'.terms = m.terms
  outcome_ne : outcome ≠ .none
  winner : m'.winner = outcome
  vestedAt : m'.vestedAt = some env.timestamp
  state : m'.state = .completed ∧ (period = 0 ∨ batch = true) ∨
    m'.state = .pendingResult ∧ period ≠ 0
  stats : st' = st.recordResult m outcome

/-- The admin decides a stalled match. -/
structure GetsResolved (outcome : Winner) (m m' : Match) (st st' : Stats) : Prop where
  playing : m.state = .active ∨ m.state = .paused
  terms : m'.terms = m.terms
  winner : m'.winner = outcome
  vestedAt : m'.vestedAt = m.vestedAt
  state : m'.state = .completed
  stats : st' = if outcome = .draw then st else st.recordCompletedPlayers m

/-- A result that waited is paid. -/
structure GetsPaid (m m' : Match) (st st' : Stats) : Prop where
  waiting : m.state = .pendingResult
  terms : m'.terms = m.terms
  winner : m'.winner = m.winner
  vestedAt : m'.vestedAt = m.vestedAt
  state : m'.state = .completed
  stats : st' = st.recordPaid m

/-- What a step records about results. -/
inductive Recorded (env : Env) (period : ℕ) (m : Match) (st : Stats) :
    Action → Match → Stats → Prop
  | quiet {a : Action} {m' : Match} {st' : Stats} (h : Quiet m m' st st') :
      Recorded env period m st a m' st'
  | result {batch : Bool} {outcome : Winner} {m' : Match} {st' : Stats}
      (h : GetsResult env period batch outcome m m' st st') :
      Recorded env period m st (.settle batch) m' st'
  | stalled {outcome : Winner} {m' : Match} {st' : Stats} (h : GetsResolved outcome m m' st st') :
      Recorded env period m st .stall m' st'
  | paid {a : Action} {m' : Match} {st' : Stats} (haction : a = .finalize ∨ a = .resolve)
      (h : GetsPaid m m' st st') : Recorded env period m st a m' st'

theorem Quiet.of_state (hterms : m'.terms = m.terms) (hvested : m'.vestedAt = m.vestedAt)
    (hwinner : m'.winner = m.winner) (hbefore : m.state ≠ .completed ∧ m.state ≠ .pendingResult)
    (hafter : m'.state ≠ .completed ∧ m'.state ≠ .pendingResult) : Quiet m m' st st :=
  ⟨hterms, hvested, hwinner, iff_of_false hafter.1 hbefore.1, iff_of_false hafter.2 hbefore.2, rfl⟩

theorem FileStep.recorded (h : FileStep env period i m ix st a m' ix' st') :
    Recorded env period m st a m' st' := by
  have hterms := h.terms.1
  cases h with
  | deposit side hs =>
    exact .quiet (.of_state hterms (by cases side <;> rfl) (by cases side <;> rfl)
      (by simp [hs]) (by cases side <;> simp [Match.withDeposit, Match.setDeposited, hs]))
  | activate side hs =>
    exact .quiet (.of_state hterms (by cases side <;> rfl) (by cases side <;> rfl)
      (by simp [hs]) (by simp [Match.activated]))
  | settleNow winner hwinner hs hp =>
    exact .result ⟨hs, hterms, hwinner, rfl, rfl, .inl ⟨rfl, .inl hp⟩, rfl⟩
  | settleHalf winner hwinner hs =>
    exact .result ⟨hs, hterms, hwinner, rfl, rfl, .inl ⟨rfl, .inr rfl⟩, rfl⟩
  | settleLater winner hwinner hs hp =>
    exact .result ⟨hs, hterms, hwinner, rfl, rfl, .inr ⟨rfl, hp⟩, rfl⟩
  | close _ hs | pause hs | resume hs =>
    exact .quiet (.of_state hterms rfl rfl (by simp [hs]) (by simp))
  | heartbeat hs => exact .quiet (.of_state hterms rfl rfl (by simp [hs]) (by simp [hs]))
  | rollbackVote side _ hs =>
    exact .quiet (.of_state hterms (by cases side <;> rfl) (by cases side <;> rfl)
      (by simp [hs]) (by cases side <;> simp [Match.voteRollback, hs]))
  | rollback side _ hs =>
    exact .quiet (.of_state hterms (by cases side <;> rfl) (by cases side <;> rfl)
      (by simp [hs]) (by simp))
  | stall winner hwinner hs => exact .stalled ⟨hs, hterms, rfl, rfl, rfl, rfl⟩
  | paid haction hs => exact .paid haction ⟨hs, hterms, rfl, rfl, rfl, rfl⟩
  | claim side =>
    exact .quiet ⟨hterms, by cases side <;> rfl, by cases side <;> rfl,
      by cases side <;> exact Iff.rfl, by cases side <;> exact Iff.rfl, rfl⟩

/-! ## Exactness -/

/-- A completed match that was decided by a result. Only a result sets the vesting date. -/
def Match.decided (m : Match) : Bool := m.state = .completed && m.vestedAt.isSome

/-- The counters of completed matches and payouts are exact up to saturation, and no result
waits. -/
structure Register.CountsExact (r : Register) : Prop where
  final : ∀ id m, r.matchMap id = some m → m.state ≠ .pendingResult ∧
    (m.vestedAt.isSome = true → m.state = .completed)
  player : ∀ p, r.stats.playerCompletedMatchCount p =
    min u32Max (r.tally fun m => m.decided && decide (m.isPlayer p))
  total : r.stats.global.totalPayouts = min u64Max (r.tally Match.decided)
  platform : ∀ q, (r.stats.platform q).totalPayouts =
    min u64Max (r.tally fun m => m.decided && decide (m.platform = q))

theorem Register.CountsExact.empty : Register.empty.CountsExact where
  final _ _ h := absurd h (by simp [Register.empty])
  player _ := by simp [Register.empty, Register.tally]
  total := by simp [Register.empty, Register.tally]
  platform _ := by simp [Register.empty, Register.tally]

theorem Register.CountsExact.opened (hr : r.CountsExact) (hstate : m.state = .pending)
    (hvested : m.vestedAt = none) : (r.opened m).CountsExact := by
  have hdecided : m.decided = false := by simp [Match.decided, hstate]
  refine ⟨fun id m1 hm1 => ?_, fun p => ?_, ?_, fun q => ?_⟩
  · rcases eq_some_of_update hm1 with ⟨rfl, rfl⟩ | ⟨-, hm1⟩
    · simp [hstate, hvested]
    · exact hr.final id m1 hm1
  · rw [tally_opened (by simp [hdecided]), ← hr.player p]
    rfl
  · rw [tally_opened hdecided, ← hr.total]
    rfl
  · rw [tally_opened (by simp [hdecided]), ← hr.platform q]
    simp only [opened_stats, Stats.recordPlatformMatchCreated, Stats.updatePlatform,
      Function.update_apply]
    split
    · rename_i hq
      rw [hq]
    · rfl

/-- What a payout adds to the counters. -/
theorem recordPaid_playerCompletedMatchCount (hne : m.player1 ≠ m.player2) (p : Address) :
    (st.recordPaid m).playerCompletedMatchCount p =
      if m.isPlayer p then min u32Max (st.playerCompletedMatchCount p + 1)
      else st.playerCompletedMatchCount p := by
  simp only [Stats.recordPaid, Stats.recordCompletedPlayers, Stats.recordPlatformPayout,
    Stats.updatePlatform, Stats.recordCompletedMatch, Match.isPlayer, saturatingAddU]
  by_cases h1 : p = m.player1
  · subst h1
    simp [hne]
  · by_cases h2 : p = m.player2
    · subst h2
      simp [h1]
    · simp [h1, h2]

theorem recordPaid_platform (q : Platform) : ((st.recordPaid m).platform q).totalPayouts =
      if m.platform = q then min u64Max ((st.platform q).totalPayouts + 1)
      else (st.platform q).totalPayouts := by
  simp only [Stats.recordPaid, Stats.recordCompletedPlayers, Stats.recordPlatformPayout,
    Stats.updatePlatform, Stats.recordCompletedMatch, saturatingAddU, Function.update_apply,
    eq_comm (a := q)]
  split
  · rename_i hq
    rw [hq]
  · rfl

/-- A result that is final is counted once. -/
theorem Register.CountsExact.result (hr : r.CountsExact) (hsound : r.Sound)
    (hm : r.matchMap i = some m) {outcome : Winner} {batch : Bool}
    (h : GetsResult env period batch outcome m m' r.stats st) (hstate : m'.state = .completed) :
    (r.moved i m' ix st).CountsExact := by
  have hbefore : m.decided = false := by
    rcases h.playing with hs | hs <;> simp [Match.decided, hs]
  have hafter : m'.decided = true := by simp [Match.decided, hstate, h.vestedAt]
  have hplatform : m'.platform = m.platform := congrArg Terms.platform h.terms
  refine ⟨fun id m1 hm1 => ?_, fun p => ?_, ?_, fun q => ?_⟩
  · rcases eq_some_of_update hm1 with ⟨rfl, rfl⟩ | ⟨-, hm1⟩
    · simp [hstate]
    · exact hr.final id m1 hm1
  · have hcount : (r.moved i m' ix st).stats.playerCompletedMatchCount p =
        (r.stats.recordPaid m).playerCompletedMatchCount p := by
      rw [moved_stats, h.stats]
      rfl
    rw [hcount, recordPaid_playerCompletedMatchCount (hsound.players _ m hm), hr.player p]
    by_cases hp : m.isPlayer p
    · rw [if_pos hp, tally_moved_gain hsound hm (by simp [hbefore])
        (by simp [hafter, isPlayer_of_terms h.terms, hp])]
      omega
    · rw [if_neg hp, tally_moved_same hm (by simp [isPlayer_of_terms h.terms, hp])]
  · have hcount : (r.moved i m' ix st).stats.global.totalPayouts =
        min u64Max (r.stats.global.totalPayouts + 1) := by
      rw [moved_stats, h.stats]
      rfl
    rw [hcount, hr.total, tally_moved_gain hsound hm hbefore hafter]
    omega
  · have hcount : ((r.moved i m' ix st).stats.platform q).totalPayouts =
        ((r.stats.recordPaid m).platform q).totalPayouts := by
      rw [moved_stats, h.stats]
      rfl
    rw [hcount, recordPaid_platform, hr.platform q]
    by_cases hq : m.platform = q
    · rw [if_pos hq, tally_moved_gain hsound hm (by simp [hbefore])
        (by simp [hafter, hplatform, hq])]
      omega
    · rw [if_neg hq, tally_moved_same hm (by simp [hplatform, hq])]

/-- A step that decides nothing. -/
theorem Register.CountsExact.same (hr : r.CountsExact) (hm : r.matchMap i = some m)
    (hterms : m'.terms = m.terms) (hstate : m'.state ≠ .pendingResult)
    (hvested : m'.vestedAt.isSome = true → m'.state = .completed)
    (hdecided : m'.decided = m.decided) : (r.moved i m' ix r.stats).CountsExact := by
  have hplatform : m'.platform = m.platform := congrArg Terms.platform hterms
  refine ⟨fun id m1 hm1 => ?_, fun p => ?_, ?_, fun q => ?_⟩
  · rcases eq_some_of_update hm1 with ⟨rfl, rfl⟩ | ⟨-, hm1⟩
    · exact ⟨hstate, hvested⟩
    · exact hr.final id m1 hm1
  · rw [tally_moved_same hm (by simp [hdecided, isPlayer_of_terms hterms])]
    exact hr.player p
  · rw [tally_moved_same hm hdecided]
    exact hr.total
  · rw [tally_moved_same hm (by simp [hdecided, hplatform])]
    exact hr.platform q

/-- Changes keep the counters exact, if results are final and a stalled match changes no
statistics. -/
theorem Register.CountsExact.change (hr : r.CountsExact) (hsound : r.Sound)
    (h : FileChange env period a r r') (hperiod : ∀ batch, a = .settle batch → period = 0)
    (hstall : a = .stall → r'.stats = r.stats) : r'.CountsExact := by
  cases h with
  | opening => exact hr.opened rfl rfl
  | @moving _ i m m' a ix st hm hstep =>
    obtain ⟨hwaits, hfinal⟩ := hr.final _ m hm
    cases hstep.recorded with
    | quiet h =>
      obtain ⟨hterms, hvested, -, hcompleted, hwaiting, rfl⟩ := h
      refine hr.same hm hterms (mt hwaiting.mp hwaits) ?_ ?_
      · rw [hvested]
        exact fun hv => hcompleted.mpr (hfinal hv)
      · simp [Match.decided, hvested, hcompleted]
    | @result batch outcome _ _ h =>
      rcases h.state with ⟨hstate, -⟩ | ⟨-, hp⟩
      · exact hr.result hsound hm h hstate
      · exact absurd (hperiod batch rfl) hp
    | stalled h =>
      have hstats : st = r.stats := hstall rfl
      subst hstats
      have hnone : m.vestedAt.isSome ≠ true := fun hv => by
        rcases h.playing with hs | hs <;> simp [hs] at hfinal <;> simp [hfinal] at hv
      refine hr.same hm h.terms (by simp [h.state]) (fun _ => h.state) ?_
      simp [Match.decided, h.vestedAt, hnone]
    | paid _ h => exact absurd h.waiting hwaits

/-! ## Runs -/

/-- The resolution of a stalled match in favour of one player. -/
def Call.picksWinner : Call → Bool
  | .adminResolveStalledMatch _ _ resolution => resolution ≠ .draw
  | _ => false

/-- An event after which every match counts once : no result that waits for the dispute
window, and no winner of a stalled match. -/
def CountsOnce (w : World) : Event → Prop
  | .invoke env call => Commits env call.exec w →
      (∀ batch, call.action = .settle batch → w.control.getDisputePeriod = 0) ∧
        call.picksWinner = false
  | _ => True

instance : DecidableRel CountsOnce
  | w, .invoke env call => inferInstanceAs (Decidable (Commits env call.exec w → _))
  | _, .credit .. | _, .debit .. | _, .dropGuard .. => .isTrue trivial

theorem adminResolveStalledMatch_draw_stats {w w' : World} {caller : Address} {u : Unit}
    (h : adminResolveStalledMatch i caller .draw env w = .ok u w') : w'.stats = w.stats := by
  simp [adminResolveStalledMatch] at h
  obtain ⟨-, m, hm, -, -, -, _, w1, hpay, rfl⟩ := h
  obtain ⟨ts, ⟨l, hl, rfl⟩, -⟩ := payStalled_ok hpay
  rfl

/-- A stalled match that is drawn changes no statistics. -/
theorem step_stats_of_stall {w : World} {call : Call} (hc : Commits env call.exec w)
    (ha : call.action = .stall) (hdraw : call.picksWinner = false) :
    (step w (.invoke env call)).register.stats = w.register.stats := by
  obtain ⟨w', h⟩ := hc
  rw [step, invoke_of_ok h]
  cases call with
  | adminResolveStalledMatch id caller resolution =>
    obtain rfl : resolution = .draw := by simpa [Call.picksWinner] using hdraw
    have hstats : w'.stats = w.fresh.stats := adminResolveStalledMatch_draw_stats h
    exact hstats
  | _ => exact Action.noConfusion ha

/-- The counters of a state are exact : a player's counter is the number of completed matches
they played that a result decided, and the payouts of all platforms and of each are the
numbers of such matches, up to the bounds of the counters. -/
structure World.CompletionsExact (w : World) : Prop where
  player : ∀ p, w.stats.playerCompletedMatchCount p = min u32Max
    (Set.ncard {id | ∃ m, w.matchMap id = some m ∧ m.decided = true ∧ m.isPlayer p})
  total : w.stats.global.totalPayouts = min u64Max
    (Set.ncard {id | ∃ m, w.matchMap id = some m ∧ m.decided = true})
  platform : ∀ q, (w.stats.platform q).totalPayouts = min u64Max
    (Set.ncard {id | ∃ m, w.matchMap id = some m ∧ m.decided = true ∧ m.platform = q})

theorem Register.CountsExact.completionsExact {w : World} (h : w.register.CountsExact)
    (hsound : w.register.Sound) : w.CompletionsExact := by
  refine ⟨fun p => ?_, ?_, fun q => ?_⟩
  · have hcount := h.player p
    simp only [hsound.tally_eq, Bool.and_eq_true, decide_eq_true_eq] at hcount
    exact hcount
  · have hcount := h.total
    rwa [hsound.tally_eq] at hcount
  · have hcount := h.platform q
    simp only [hsound.tally_eq, Bool.and_eq_true, decide_eq_true_eq] at hcount
    exact hcount

/-- Along every run in which results are final and stalled matches are drawn, every counter is
exact. -/
theorem completions_exact {w0 : World} {es : List Event} (h0 : Initial w0)
    (hal : Along step CountsOnce w0 es) : (run step w0 es).CompletionsExact := by
  have hinv : (run step w0 es).register.Sound ∧ (run step w0 es).register.CountsExact := by
    refine run_register_inv (I := fun r => r.Sound ∧ r.CountsExact) ⟨.empty, .empty⟩ ?_ ?_ h0 hal
    · intro w env call _ _ _ r ix ⟨hsound, hr⟩
      exact ⟨⟨hsound.1, hsound.2, hsound.3⟩, ⟨hr.1, hr.2, hr.3, hr.4⟩⟩
    · intro w env call r r' hP hc hone ⟨hsound, hr⟩ h
      obtain ⟨hperiod, hdraw⟩ := hP hc
      refine ⟨hsound.change h, hr.change hsound h hperiod fun ha => ?_⟩
      -- The only call that resolves a stalled match is no batch.
      obtain ⟨rfl, rfl⟩ := hone (by cases call <;> simp [Call.action, Call.isBatch] at ha ⊢)
      exact step_stats_of_stall hc ha hdraw
  exact hinv.2.completionsExact hinv.1

theorem completions_exact_fundedMatch : Along step CountsOnce .start (fundedMatch ++
      [.invoke (.plain [0] 0 0) (.submitResult 0 .player1 (.ext 0))]) ∧
    (run step .start (fundedMatch ++ [.invoke (.plain [0] 0 0)
      (.submitResult 0 .player1 (.ext 0))])).stats.playerCompletedMatchCount (.ext 2) = 1 ∧
    (run step .start (fundedMatch ++ [.invoke (.plain [0] 0 0)
      (.submitResult 0 .player1 (.ext 0))])).CompletionsExact := by
  have hal : Along step CountsOnce .start (fundedMatch ++
      [.invoke (.plain [0] 0 0) (.submitResult 0 .player1 (.ext 0))]) := by decide +kernel
  exact ⟨hal, by decide +kernel, completions_exact World.start_initial hal⟩

/-- Match 0 is funded, the admin sets a dispute period of one ledger, the oracle submits a
result, and the match is finalised. -/
def finalizedMatch : List Event :=
  fundedMatch ++
    [.invoke (.plain [1] 0 0) (.control (.setDisputePeriod 1)),
      .invoke (.plain [0] 0 0) (.submitResult 0 .player1 (.ext 0)),
      .invoke (.plain [] 1 0) (.finalizeMatch 0)]

/-- The players have one match, which counts once while its result still waits and twice when
it is completed. -/
theorem completion_counted_twice : Initial .start ∧
    (run step .start finalizedMatch).matchCount = 1 ∧
    ((run step .start (finalizedMatch.take 5)).matchMap 0).map Match.state = some .pendingResult ∧
    (run step .start (finalizedMatch.take 5)).stats.playerCompletedMatchCount (.ext 2) = 1 ∧
    ((run step .start finalizedMatch).matchMap 0).map Match.state = some .completed ∧
    (run step .start finalizedMatch).stats.playerCompletedMatchCount (.ext 2) = 2 ∧
    (run step .start finalizedMatch).stats.global.totalPayouts = 2 := by
  refine ⟨World.start_initial, ?_⟩
  decide +kernel

end Checkmate.Escrow

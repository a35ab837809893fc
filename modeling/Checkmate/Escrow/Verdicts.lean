import Checkmate.Escrow.Completions

/-!
# Recorded and paid outcomes

The outcome of a match is written down when its result is submitted : in the match, as the
pending winner, and in the statistics of both players. The statistics of a player count
every match with a result once, by the recorded winner (`Register.VerdictsExact`), along all
runs. `finalizeMatch` pays what is recorded, and so does a dispute that is upheld. A dispute
that is overturned pays a draw and changes none of the records, so that a result other than
a draw stays on the books of both players (`paidOutcome_iff`). Without such disputes, what
was paid is what is recorded, for the rest of the run (`outcome_recorded_as_paid_iff`).
-/

namespace Checkmate.Escrow

open Function

variable {env : Env} {config : ProtocolConfig} {period i disputeId : ℕ} {a : Action}
  {m m' : Match} {ix : Index} {st : Stats} {r r' : Register} {w w' : World} {u : Unit}
  {pw pw' : Option Winner} {ts : List Transfer} {deltas : List (Address × ℤ)} {outcome : Winner}

/-! ## Statistics of a player -/

inductive Verdict where
  | win
  | loss
  | draw
deriving DecidableEq

/-- What an outcome means for the player on a side. -/
def Winner.verdict : Winner → Side → Option Verdict
  | .player1, .player1 | .player2, .player2 => some .win
  | .player1, .player2 | .player2, .player1 => some .loss
  | .draw, _ => some .draw
  | .none, _ => Option.none

/-- What the recorded winner means for an address. -/
def Match.verdict (m : Match) (p : Address) : Option Verdict :=
  if m.isPlayer p then m.winner.verdict (m.sideOf p) else none

def PlayerStats.verdicts (s : PlayerStats) : Verdict → ℕ
  | .win => s.wins
  | .loss => s.losses
  | .draw => s.draws

theorem updatePlayerStats_verdicts (st : Stats) (outcome : Winner) (player p : Address) (stake : ℤ)
    (side : Side) (v : Verdict) :
    ((st.updatePlayerStats player outcome stake (side = .player1)).player p).verdicts v =
      if p = player ∧ outcome.verdict side = some v then min u64Max ((st.player p).verdicts v + 1)
      else (st.player p).verdicts v := by
  simp only [Stats.updatePlayerStats, update_apply, saturatingAddU]
  by_cases hp : p = player
  · subst hp
    cases outcome <;> cases side <;> cases v <;>
      simp [Winner.verdict, PlayerStats.verdicts]
  · simp [hp]

/-- A result counts once for each player, by what it means for them. -/
theorem recordResult_verdicts (hne : m.player1 ≠ m.player2) (p : Address) (v : Verdict) :
    ((st.recordResult m outcome).player p).verdicts v =
      if m.isPlayer p ∧ outcome.verdict (m.sideOf p) = some v then
        min u64Max ((st.player p).verdicts v + 1) else (st.player p).verdicts v := by
  have h1 := updatePlayerStats_verdicts (st.recordPaid m) outcome m.player1 p m.stakeAmount
    .player1 v
  have h2 := updatePlayerStats_verdicts
    ((st.recordPaid m).updatePlayerStats m.player1 outcome m.stakeAmount true) outcome m.player2 p
    m.stakeAmount .player2 v
  simp only [reduceCtorEq, decide_true, decide_false] at h1 h2
  have hfold : st.recordResult m outcome = ((st.recordPaid m).updatePlayerStats m.player1 outcome
    m.stakeAmount true).updatePlayerStats m.player2 outcome m.stakeAmount false := rfl
  have hpaid : (st.recordPaid m).player = st.player := rfl
  rw [hfold, h2, h1, hpaid]
  simp only [Match.isPlayer, Match.sideOf]
  by_cases hp1 : p = m.player1
  · subst hp1
    simp [hne]
  · simp [hp1]

/-! ## The statistics count results -/

/-- A match with a result that means `v` for `p`. -/
def Match.counts (p : Address) (v : Verdict) (m : Match) : Bool :=
  m.vestedAt.isSome && m.verdict p = some v

/-- The statistics of every player count the matches with a result, and these are completed
or wait. -/
structure Register.VerdictsExact (r : Register) : Prop where
  vested : ∀ id m, r.matchMap id = some m → m.vestedAt.isSome = true →
    m.state = .pendingResult ∨ m.state = .completed
  count : ∀ p v, (r.stats.player p).verdicts v = min u64Max (r.tally (Match.counts p v))

theorem Register.VerdictsExact.empty : Register.empty.VerdictsExact where
  vested _ _ h := absurd h (by simp [Register.empty])
  count _ v := by cases v <;> simp [Register.empty, Register.tally, PlayerStats.verdicts]

theorem Register.VerdictsExact.vestedAt_of_playing (hr : r.VerdictsExact)
    (hm : r.matchMap i = some m) (hs : m.state = .active ∨ m.state = .paused) :
    m.vestedAt = none := by
  rw [← Option.not_isSome_iff_eq_none]
  intro hv
  rcases hr.vested _ m hm hv with h | h <;> simp [h] at hs

theorem verdict_of_terms (hterms : m'.terms = m.terms) (hwinner : m'.winner = m.winner)
    (p : Address) : m'.verdict p = m.verdict p := by
  have h1 : m'.player1 = m.player1 := congrArg Terms.player1 hterms
  simp only [Match.verdict, isPlayer_of_terms hterms, Match.sideOf, h1, hwinner]

/-- A step that changes no player's statistics and no result. -/
theorem Register.VerdictsExact.same (hr : r.VerdictsExact) (hm : r.matchMap i = some m)
    (hvested : m'.vestedAt.isSome = true → m'.state = .pendingResult ∨ m'.state = .completed)
    (hcounts : ∀ p v, m'.counts p v = m.counts p v) (hstats : st.player = r.stats.player) :
    (r.moved i m' ix st).VerdictsExact := by
  refine ⟨fun id m1 hm1 => ?_, fun p v => ?_⟩
  · rcases eq_some_of_update hm1 with ⟨rfl, rfl⟩ | ⟨-, hm1⟩
    · exact hvested
    · exact hr.vested id m1 hm1
  · rw [tally_moved_same hm (hcounts p v), ← hr.count p v, ← hstats]
    rfl

theorem Register.VerdictsExact.result {batch : Bool} (hr : r.VerdictsExact) (hsound : r.Sound)
    (hm : r.matchMap i = some m) (h : GetsResult env period batch outcome m m' r.stats st) :
    (r.moved i m' ix st).VerdictsExact := by
  have hnone := hr.vestedAt_of_playing hm h.playing
  refine ⟨fun id m1 hm1 hv => ?_, fun p v => ?_⟩
  · rcases eq_some_of_update hm1 with ⟨rfl, rfl⟩ | ⟨-, hm1⟩
    · exact h.state.symm.imp And.left And.left
    · exact hr.vested id m1 hm1 hv
  · have hside : m'.sideOf p = m.sideOf p := by
      have h1 : m'.player1 = m.player1 := congrArg Terms.player1 h.terms
      rw [Match.sideOf, Match.sideOf, h1]
    have hcounts : m'.counts p v = true ↔ m.isPlayer p ∧ outcome.verdict (m.sideOf p) = some v := by
      simp only [Match.counts, Match.verdict, h.vestedAt, h.winner, hside,
        isPlayer_of_terms h.terms]
      split <;> simp_all
    have hbefore : m.counts p v = false := by simp [Match.counts, hnone]
    have hstats : ((r.moved i m' ix st).stats.player p).verdicts v =
        ((r.stats.recordResult m outcome).player p).verdicts v := by
      rw [Register.moved_stats, h.stats]
    rw [hstats, recordResult_verdicts (hsound.players _ m hm), hr.count p v]
    by_cases hv : m.isPlayer p ∧ outcome.verdict (m.sideOf p) = some v
    · rw [if_pos hv, tally_moved_gain hsound hm hbefore (hcounts.mpr hv)]
      omega
    · have hafter : m'.counts p v = m.counts p v := by
        rw [hbefore, ← Bool.not_eq_true, hcounts]
        exact hv
      rw [if_neg hv, tally_moved_same hm hafter]

theorem Register.VerdictsExact.change (hr : r.VerdictsExact) (hsound : r.Sound)
    (h : FileChange env period a r r') : r'.VerdictsExact := by
  cases h with
  | opening =>
    refine ⟨fun id m1 hm1 hv => ?_, fun q v => ?_⟩
    · rcases eq_some_of_update hm1 with ⟨rfl, rfl⟩ | ⟨-, hm1⟩
      · exact Bool.noConfusion hv
      · exact hr.vested id m1 hm1 hv
    · rw [tally_opened (by simp [Match.counts, MatchParams.newMatch]), ← hr.count q v]
      rfl
  | @moving _ i m m' a ix st hm hstep =>
    cases hstep.recorded with
    | quiet h =>
      obtain ⟨hterms, hvested, hwinner, hcompleted, hwaiting, rfl⟩ := h
      refine hr.same hm ?_ (fun p v => ?_) rfl
      · rw [hvested, hcompleted, hwaiting]
        exact hr.vested _ m hm
      · simp [Match.counts, hvested, verdict_of_terms hterms hwinner]
    | result h => exact hr.result hsound hm h
    | stalled h =>
      have hnone := hr.vestedAt_of_playing hm h.playing
      refine hr.same hm (fun _ => .inr h.state) (fun p v => ?_) ?_
      · simp [Match.counts, h.vestedAt, hnone]
      · rw [h.stats]
        split <;> rfl
    | paid _ h =>
      refine hr.same hm (fun _ => .inr h.state) (fun p v => ?_) ?_
      · simp [Match.counts, h.vestedAt, verdict_of_terms h.terms h.winner]
      · rw [h.stats]
        rfl

theorem run_verdictsExact {w0 : World} {es : List Event} (h0 : Initial w0) :
    (run step w0 es).register.Sound ∧ (run step w0 es).register.VerdictsExact :=
  run_register_inv (I := fun r => r.Sound ∧ r.VerdictsExact) (P := fun _ _ => True)
    ⟨.empty, .empty⟩
    (fun _ _ _ _ _ hr => ⟨⟨hr.1.1, hr.1.2, hr.1.3⟩, ⟨hr.2.1, hr.2.2⟩⟩)
    (fun _ _ _ hr h => ⟨hr.1.change h, hr.2.change hr.1 h⟩) h0 (along_true w0 es)

/-! ## The pending winner is the recorded winner -/

/-- A result that waits is the one that is recorded. -/
def Book.WaitsAsRecorded (b : Book) : Prop :=
  ∀ id m, b.matchMap id = some m → m.state = .pendingResult → b.pendingWinner id = some m.winner

theorem MatchStep.waitsAsRecorded (h : MatchStep env config period i m pw a ts deltas m' pw')
    (hm : m.state = .pendingResult → pw = some m.winner) (hs : m'.state = .pendingResult) :
    pw' = some m'.winner := by
  cases h with
  | settleLater => rfl
  | bond => exact hm hs
  | deposit side _ | strayDeposit side _ =>
    cases side <;> simp_all [Match.withDeposit, Match.setDeposited]
  | rollbackVote side _ | claim side _ =>
    cases side <;> simp_all [Match.voteRollback, Match.setClaimed]
  | _ => simp_all [Match.activated]

theorem Book.WaitsAsRecorded.change {b b' : Book} (hb : b.WaitsAsRecorded)
    (h : Change env config period a b b') : b'.WaitsAsRecorded := by
  intro id m1 hm1 hs
  cases h with
  | opening =>
    rcases eq_some_of_update hm1 with ⟨rfl, rfl⟩ | ⟨-, hm1⟩
    · exact MatchState.noConfusion hs
    · exact hb id m1 hm1 hs
  | moving hm hstep =>
    rcases eq_some_of_update hm1 with ⟨rfl, rfl⟩ | ⟨hne, hm1⟩
    · exact (update_self ..).trans (hstep.waitsAsRecorded (hb _ _ hm) hs)
    · exact (update_of_ne hne ..).trans (hb id m1 hm1 hs)

theorem Reachable.waitsAsRecorded (hw : Reachable w) : w.book.WaitsAsRecorded :=
  hw.book_inv (I := Book.WaitsAsRecorded) (fun _ _ _ h => absurd h (by simp [Book.empty]))
    (fun h hb => by obtain ⟨⟨l, rfl⟩, -⟩ := h; exact hb) .change

/-! ## What is paid -/

/-- The transfers pay the sides that an outcome pays. -/
structure PaidAs (matchId : ℕ) (outcome : Winner) (ts : List Transfer) : Prop where
  outcome_ne : outcome ≠ .none
  player1 : (∃ t ∈ ts, t.cause = ⟨matchId, .payout .player1⟩) ↔
    outcome = .player1 ∨ outcome = .draw
  player2 : (∃ t ∈ ts, t.cause = ⟨matchId, .payout .player2⟩) ↔
    outcome = .player2 ∨ outcome = .draw

theorem Paid.pays (h : Paid w ts w') : Pays w ts w' := by
  obtain ⟨l, hl, rfl⟩ := h
  exact ⟨hl, rfl⟩

theorem Payment.nonempty {c : Control} {cause : Cause} {target : Address} {amount : ℤ}
    (h : Payment c m cause target amount ts) : ∃ t ∈ ts, t.cause = cause := by
  cases h <;> simp

theorem executePayout_paidAs (h : executePayout i m outcome env w = .ok u w') :
    ∃ ts, Paid w ts w' ∧ PaidAs i outcome ts := by
  obtain ⟨ts, hpaid, hts⟩ := executePayout_payout h
  refine ⟨ts, hpaid, ?_⟩
  cases hts with
  | player1 => exact ⟨by simp, by simp [outgoing], by simp [outgoing]⟩
  | player2 hpay =>
    refine ⟨by simp, iff_of_false ?_ (by simp), iff_of_true hpay.nonempty (.inl rfl)⟩
    rintro ⟨t, ht, hcause⟩
    simp [hpay.cause_eq t ht] at hcause
  | draw hpay =>
    refine ⟨by simp, iff_of_true ?_ (.inr rfl), iff_of_true ?_ (.inr rfl)⟩
    · exact ⟨_, List.mem_append_right _ List.mem_cons_self, rfl⟩
    · obtain ⟨t, ht, hcause⟩ := hpay.nonempty
      exact ⟨t, List.mem_append_left _ ht, hcause⟩

/-- From `w` to `w'` the immediate payout of an outcome was made, and at most the bond of a
dispute was moved besides. -/
def PaysOutcome (env : Env) (w w' : World) (matchId : ℕ) (m : Match) (outcome : Winner) : Prop :=
  ∃ w1 ts us, executePayout matchId m outcome env w.fresh = .ok () w1 ∧ Pays w ts w1 ∧
    PaidAs matchId outcome ts ∧ Pays w (us ++ ts) w' ∧
    ∀ t ∈ us, t.cause = ⟨matchId, .bondReturn⟩

/-- The match that a call completes with a payout. -/
def Call.paysMatch (w : World) : Call → Option ℕ
  | .finalizeMatch matchId => some matchId
  | .resolveDisputeByVote disputeId => (w.disputes.dispute disputeId).map Dispute.matchId
  | _ => none

/-- The call resolves a dispute against a result that is not a draw. -/
def Call.overrules (w : World) : Call → Bool
  | .resolveDisputeByVote disputeId => (w.disputes.dispute disputeId).any fun d =>
      d.overturned && w.disputes.pendingWinner d.matchId ≠ some .draw
  | _ => false

/-- A match that is completed by a payout is paid as recorded exactly if the call does not
overrule the result. -/
theorem paidOutcome_iff {call : Call} (hw : Reachable w) (hcall : call.paysMatch w = some i)
    (h : call.exec env w.fresh = .ok u w') :
    ∃ m m' outcome, w.matchMap i = some m ∧ PaysOutcome env w w' i m outcome ∧
      w'.matchMap i = some m' ∧ m'.state = .completed ∧ m'.vestedAt.isSome = true ∧
      (m'.winner = outcome ↔ call.overrules w = false) := by
  cases call with
  | finalizeMatch id =>
    obtain rfl : id = i := Option.some.inj hcall
    obtain ⟨m, winner, w1, ⟨hm, hstate, -, -, hpw⟩, hpay, rfl⟩ := finalizeMatch_ok h
    have hvested := ((hw.sound.stored id m hm).stage.waiting hstate).2
    have hwinner := Option.some.inj ((hw.waitsAsRecorded id m hm hstate).symm.trans hpw)
    obtain ⟨ts, hpaid, hlegs⟩ := executePayout_paidAs hpay
    refine ⟨m, _, winner, hm, ⟨w1, ts, [], hpay, hpaid.pays, hlegs, ?_, by simp⟩,
      update_self .., rfl, hvested, iff_of_true hwinner rfl⟩
    obtain ⟨l, hl, rfl⟩ := hpaid
    exact ⟨hl, rfl⟩
  | resolveDisputeByVote disputeId =>
    obtain ⟨dispute, m, winner, w1, w2, ⟨hd, -, -, hm, hstate, hpw, -⟩, hpay, hbond, rfl⟩ :=
      resolveDisputeByVote_ok h
    replace hd : w.disputes.dispute disputeId = some dispute := hd
    replace hpw : w.disputes.pendingWinner dispute.matchId = some winner := hpw
    obtain rfl : dispute.matchId = i := by simpa [Call.paysMatch, hd] using hcall
    have hvested := ((hw.sound.stored _ m hm).stage.waiting hstate).2
    have hwinner := Option.some.inj ((hw.waitsAsRecorded _ m hm hstate).symm.trans hpw)
    obtain ⟨ts, hpaid, hlegs⟩ := executePayout_paidAs hpay
    obtain ⟨l, hl, rfl⟩ := id hpaid
    obtain ⟨l', hl', rfl⟩ := transfer_paid hbond
    refine ⟨m, _, _, hm, ⟨_, ts, [_], hpay, hpaid.pays, hlegs, ⟨hl.append hl', rfl⟩, ?_⟩,
      update_self .., rfl, hvested, ?_⟩
    · simp [Dispute.bondReturn, outgoing]
    · by_cases hov : dispute.overturned
      · simp [Call.overrules, Dispute.outcome, Match.paid, hd, hpw, hov, hwinner]
      · simp [Call.overrules, Dispute.outcome, Match.paid, hd, hov, hwinner]
  | _ => exact absurd hcall (by simp [Call.paysMatch])

/-! ## What is recorded -/

/-- The match is completed with the outcome as its winner, and each verdict of a player counts
it once if the outcome means that verdict for them, besides the other matches. -/
structure World.RecordsOutcome (w : World) (matchId : ℕ) (outcome : Winner) : Prop where
  winner : ∃ m, w.matchMap matchId = some m ∧ m.state = .completed ∧ m.winner = outcome
  verdicts : ∀ m, w.matchMap matchId = some m → ∀ side v,
    (w.stats.player (m.player side)).verdicts v = min u64Max
      (Set.ncard ({id | ∃ m', w.matchMap id = some m' ∧ m'.counts (m.player side) v = true} \
        {matchId}) + if outcome.verdict side = some v then 1 else 0)

theorem Register.Sound.finite (hsound : r.Sound) (f : Match → Bool) :
    {id | ∃ m, r.matchMap id = some m ∧ f m = true}.Finite :=
  (Set.finite_Iio r.matchCount).subset fun _ ⟨_, hm, _⟩ => hsound.lt_matchCount hm

/-- A completed match with a result counts by its recorded winner. -/
theorem Register.VerdictsExact.recordsOutcome (h : w.register.VerdictsExact)
    (hsound : w.register.Sound) (hm : w.matchMap i = some m)
    (hstate : m.state = .completed) (hvested : m.vestedAt.isSome = true) :
    w.RecordsOutcome i m.winner where
  winner := ⟨m, hm, hstate, rfl⟩
  verdicts m1 hm1 side v := by
    obtain rfl := Option.mem_unique hm hm1
    have hcount := h.count (m.player side) v
    rw [hsound.tally_eq] at hcount
    have hne : m.player1 ≠ m.player2 := hsound.players i m hm
    have hself : m.counts (m.player side) v = true ↔ m.winner.verdict side = some v := by
      cases side <;> simp [Match.counts, Match.verdict, hvested, Match.isPlayer, Match.sideOf,
        Match.player, hne.symm]
    refine hcount.trans (congrArg _ ?_)
    by_cases hv : m.winner.verdict side = some v
    · rw [if_pos hv]
      have hmem : i ∈ {id | ∃ m', w.register.matchMap id = some m' ∧
          m'.counts (m.player side) v = true} := ⟨m, hm, hself.mpr hv⟩
      exact (Set.ncard_sdiff_singleton_add_one hmem (hsound.finite _)).symm
    · rw [if_neg hv, Set.sdiff_singleton_eq_self, Nat.add_zero]
      · rfl
      · rintro ⟨m', hm', hcounts⟩
        obtain rfl := Option.mem_unique hm hm'
        exact hv (hself.mp hcounts)

/-- Of every match that is completed by a payout, the rest of the run records the outcome that
was paid exactly if the call did not overrule the result. -/
theorem outcome_recorded_as_paid_iff {w0 : World} {pre post : List Event} {call : Call}
    (h0 : Initial w0) (hcall : call.paysMatch (run step w0 pre) = some i)
    (hc : Commits env call.exec (run step w0 pre)) :
    ∃ m outcome, (run step w0 pre).matchMap i = some m ∧
      PaysOutcome env (run step w0 pre) (run step w0 (pre ++ [.invoke env call])) i m outcome ∧
      ((run step w0 (pre ++ .invoke env call :: post)).RecordsOutcome i outcome ↔
        call.overrules (run step w0 pre) = false) := by
  have hw : Reachable (run step w0 pre) := ⟨w0, pre, h0, rfl⟩
  obtain ⟨w', h⟩ := hc
  obtain ⟨m, m1, outcome, hm, hpays, hm1, hstate, hvested, hiff⟩ := paidOutcome_iff hw hcall h
  have hstep : run step w0 (pre ++ [.invoke env call]) = w'.fresh := by
    rw [run_append]
    exact invoke_of_ok h
  have hrun : run step w0 (pre ++ .invoke env call :: post) = run step w'.fresh post := by
    rw [← hstep, ← run_append, List.append_assoc, List.singleton_append]
  have hw' : Reachable w'.fresh := ⟨w0, _, h0, hstep⟩
  obtain ⟨m2, hm2, hevolves⟩ := run_evolves hw' hm1 post
  have hkept := hevolves.terminal (by rw [hstate]; rfl)
  obtain ⟨hsound, hexact⟩ : (run step w'.fresh post).register.Sound ∧
      (run step w'.fresh post).register.VerdictsExact := by
    rw [← hrun]
    exact run_verdictsExact h0
  have hrecords : (run step w'.fresh post).RecordsOutcome i m2.winner :=
    hexact.recordsOutcome hsound hm2 (by rw [hkept]; exact hstate) (by rw [hkept]; exact hvested)
  have hwinner : m2.winner = m1.winner := by rw [hkept]
  refine ⟨m, outcome, hm, hstep ▸ hpays, ?_⟩
  rw [hrun, ← hiff, ← hwinner]
  constructor
  · rintro ⟨⟨m3, hm3, -, rfl⟩, -⟩
    rw [Option.mem_unique hm2 hm3]
  · rintro rfl
    exact hrecords

theorem outcome_recorded_as_paid_iff_finalizedMatch :
    Call.paysMatch (run step .start (finalizedMatch.take 5)) (.finalizeMatch 0) = some 0 ∧
    ∃ m outcome, (run step .start (finalizedMatch.take 5)).matchMap 0 = some m ∧
      PaysOutcome (.plain [] 1 0) (run step .start (finalizedMatch.take 5))
        (run step .start (finalizedMatch.take 5 ++
          [.invoke (.plain [] 1 0) (.finalizeMatch 0)])) 0 m outcome ∧
      ((run step .start (finalizedMatch.take 5 ++
        [.invoke (.plain [] 1 0) (.finalizeMatch 0)])).RecordsOutcome 0 outcome ↔
        Call.overrules (run step .start (finalizedMatch.take 5)) (.finalizeMatch 0) = false) := by
  have hc : Commits (.plain [] 1 0) (Call.finalizeMatch 0).exec
      (run step .start (finalizedMatch.take 5)) := by decide +kernel
  exact ⟨rfl, outcome_recorded_as_paid_iff World.start_initial rfl hc⟩

/-- The overturned dispute pays both players their stakes back, as a draw is paid, but the
match keeps its winner and the players their win and loss. -/
theorem overturned_keeps_win : Initial .start ∧ (run step .start overturnedMatch).log.take 3 =
      [outgoing 0 .bondReturn (.ext 4) (.ext 3) 1,
        outgoing 0 (.payout .player2) (.ext 4) (.ext 3) 100,
        outgoing 0 (.payout .player1) (.ext 4) (.ext 2) 100] ∧
    ((run step .start overturnedMatch).matchMap 0).map (fun m => (m.state, m.winner)) =
      some (.completed, .player1) ∧
    ((run step .start overturnedMatch).stats.player (.ext 2)).verdicts .win = 1 ∧
    ((run step .start overturnedMatch).stats.player (.ext 2)).verdicts .draw = 0 ∧
    ((run step .start overturnedMatch).stats.player (.ext 3)).verdicts .loss = 1 ∧
    ((run step .start overturnedMatch).stats.player (.ext 3)).verdicts .draw = 0 := by
  refine ⟨World.start_initial, ?_⟩
  decide +kernel

end Checkmate.Escrow

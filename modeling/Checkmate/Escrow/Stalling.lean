import Checkmate.Escrow.Writes
import Checkmate.Escrow.ResultBatch

/-!
# Settlement against a stalling player

A player can pause and resume a match, send heartbeats and vote for a rollback. Apart from the
traces of these calls the match stays as it was (`Match.inPlay`), until both players have voted
and the rollback cancels it. `submitResult`, `submitDraw` and `submitResultBatch` accept a paused
match and settle it as they would have without them. `submitResultConsensus` and
`resolveOracleDeadlock` ask for an active match, so that a pause stops them
(`stalling_harmless_iff`).
-/

namespace Checkmate.Escrow

open Function Tx Option World

variable {env : Env} {w w' w1 s s' t : World} {m m' : Match} {mid : ℕ} {winner : Winner}
  {side : Side} {u : Unit} {x : ℕ × Winner} {results : List (ℕ × Winner)}

/-- A match without the traces of pauses, heartbeats and rollback votes. -/
def Match.inPlay (m : Match) : Match :=
  { m with
    state := if m.state = .paused then .active else m.state
    pausedLedger := none
    totalPauseDuration := 0
    lastHeartbeat := 0
    rollbackVotePlayer1 := false
    rollbackVotePlayer2 := false }

/-- How a match stands : its winner and what its players are entitled to, or the winner that
waits and until when. -/
def World.standing (w : World) (matchId : ℕ) : Option Match × Option Winner × Option ℕ :=
  ((w.matchMap matchId).map Match.inPlay, w.disputes.pendingWinner matchId,
    w.disputes.resultDeadline matchId)

/-- The calls with which a player can stall. -/
def Event.stalls (player : Address) : Event → Prop
  | .invoke _ (.pauseMatch _ caller) | .invoke _ (.resumeMatch _ caller)
  | .invoke _ (.heartbeatMatch _ caller) | .invoke _ (.disputeAndRollbackMatch _ caller _) =>
    caller = player
  | _ => False

/-- The calls that settle a match. Of a batch, the entry with the index is meant. -/
inductive Settlement where
  | submitResult (winner : Winner) (oracle : Address)
  | submitDraw (oracle : Address)
  | submitResultBatch (results : List (ℕ × Winner)) (caller : Address) (index : ℕ)
  | submitResultConsensus (winner : Winner) (oracle : Address)
  | resolveOracleDeadlock (winner : Winner)

/-- The call succeeds and leads from `w` to `w'`. -/
def Settlement.Accepted (matchId : ℕ) (env : Env) (w w' : World) : Settlement → Prop
  | .submitResult winner oracle =>
    Escrow.submitResult matchId winner oracle env w.fresh = .ok () w'
  | .submitDraw oracle => Escrow.submitDraw matchId oracle env w.fresh = .ok () w'
  | .submitResultBatch results caller index =>
    ∃ os, Escrow.submitResultBatch results caller env w.fresh = .ok os w' ∧
      (∃ winner, results[index]? = some (matchId, winner)) ∧ os[index]? = some none
  | .submitResultConsensus winner oracle =>
    Escrow.submitResultConsensus matchId winner oracle env w.fresh = .ok () w'
  | .resolveOracleDeadlock winner =>
    Escrow.resolveOracleDeadlock matchId winner env w.fresh = .ok () w'

/-- The calls that do not accept a paused match. -/
def Settlement.wantsActive : Settlement → Bool
  | .submitResultConsensus .. | .resolveOracleDeadlock .. => true
  | _ => false

/-! ## Standings -/

theorem inPlay_state_eq_active :
    m.inPlay.state = .active ↔ m.state = .active ∨ m.state = .paused := by
  cases h : m.state <;> simp [Match.inPlay, h]

theorem open_of_inPlay_eq (h : m'.inPlay = m.inPlay)
    (hopen : m.state = .active ∨ m.state = .paused) :
    m'.state = .active ∨ m'.state = .paused := by
  rw [← inPlay_state_eq_active] at hopen ⊢
  rw [h, hopen]

theorem funds_of_inPlay_eq (h : m'.inPlay = m.inPlay) :
    m'.stakeAmount = m.stakeAmount ∧ m'.player1Deposited = m.player1Deposited ∧
      m'.player2Deposited = m.player2Deposited := by
  have hstake := congrArg Match.stakeAmount h
  have hplayer1 := congrArg Match.player1Deposited h
  have hplayer2 := congrArg Match.player2Deposited h
  exact ⟨hstake, hplayer1, hplayer2⟩

theorem standing_stored (h : t.standing mid = s.standing mid)
    (hm : s.matchMap mid = some m) :
    ∃ m', t.matchMap mid = some m' ∧ m'.inPlay = m.inPlay := by
  have hrecord : (t.matchMap mid).map Match.inPlay = (s.matchMap mid).map Match.inPlay :=
    (Prod.mk.inj h).1
  rw [hm] at hrecord
  exact map_eq_some_iff.mp hrecord

/-- A settlement is open in every state where the match stands alike. -/
theorem SettleOpen.of_standing (hopen : SettleOpen s mid winner m)
    (h : t.standing mid = s.standing mid) :
    ∃ m', SettleOpen t mid winner m' ∧ m'.inPlay = m.inPlay := by
  obtain ⟨m', hm', hplay⟩ := standing_stored h hopen.stored
  obtain ⟨-, hplayer1, hplayer2⟩ := funds_of_inPlay_eq hplay
  refine ⟨m', ⟨hopen.winner, hm', ?_, open_of_inPlay_eq hplay hopen.state⟩, hplay⟩
  rw [hplayer1, hplayer2]
  exact hopen.funded

/-- How a match stands once it is settled. -/
def settledStanding (env : Env) (period : ℕ) (winner : Winner) (m : Match) (pw : Option Winner)
    (deadline : Option ℕ) : Option Match × Option Winner × Option ℕ :=
  if period = 0 then (some ((m.inPlay.resulted env winner).completedAt env.sequence), pw, deadline)
  else (some ((m.inPlay.resulted env winner).withState .pendingResult), some winner,
    some (env.sequence + period))

theorem settleResult_standing (h : settleResult mid winner env s = .ok u s') :
    ∃ m, SettleOpen s mid winner m ∧
      s'.standing mid = settledStanding env s.control.getDisputePeriod winner m
        (s.disputes.pendingWinner mid) (s.disputes.resultDeadline mid) := by
  obtain ⟨m, hopen, ⟨hp, -, rfl⟩ | ⟨hp, balance, -, -, rfl⟩⟩ := settleResult_ok_iff.mp h
  · refine ⟨m, hopen, ?_⟩
    simp only [settledStanding, if_pos hp, World.standing, World.settledNow, World.resulted]
    simp
    rfl
  · refine ⟨m, hopen, ?_⟩
    simp only [settledStanding, if_neg hp, World.standing, World.settledLater, World.resulted]
    simp
    exact ⟨rfl, rfl⟩

/-- Where the match stands alike it is settled alike. -/
theorem settleResult_of_standing (hst : t.standing mid = s.standing mid)
    (hperiod : t.control.getDisputePeriod = s.control.getDisputePeriod)
    (h : settleResult mid winner env s = .ok u s') :
    ∃ t', settleResult mid winner env t = .ok () t' ∧
      t'.standing mid = s'.standing mid := by
  obtain ⟨m, hopen, hcases⟩ := settleResult_ok_iff.mp h
  obtain ⟨m', hopen', hplay⟩ := hopen.of_standing hst
  obtain ⟨hstake, hplayer1, hplayer2⟩ := funds_of_inPlay_eq hplay
  have hbalance : escrowBalanceOf ((m'.resulted env winner).withState .pendingResult) =
      escrowBalanceOf ((m.resulted env winner).withState .pendingResult) := by
    simp [escrowBalanceOf, Match.depositorCount, Match.resulted, hstake, hplayer1, hplayer2]
  have hok : ∃ t', settleResult mid winner env t = .ok () t' := by
    rcases hcases with ⟨hp, hpot, -⟩ | ⟨hp, balance, hfits, hb, -⟩
    · exact ⟨_, settleResult_ok_iff.mpr ⟨m', hopen', .inl ⟨hperiod.trans hp, hstake ▸ hpot, rfl⟩⟩⟩
    · refine ⟨_, settleResult_ok_iff.mpr ⟨m', hopen', .inr ⟨hperiod.trans_ne hp, balance, ?_,
        hbalance.trans hb, rfl⟩⟩⟩
      rwa [hperiod]
  obtain ⟨t', ht⟩ := hok
  obtain ⟨m1, hopen1, hs⟩ := settleResult_standing h
  obtain ⟨m2, hopen2, ht'⟩ := settleResult_standing ht
  obtain rfl : m = m1 := mem_unique hopen.stored hopen1.stored
  obtain rfl : m' = m2 := mem_unique hopen'.stored hopen2.stored
  refine ⟨t', ht, ?_⟩
  obtain ⟨-, hpending, hdeadline⟩ : _ ∧ t.disputes.pendingWinner mid = _ ∧
      t.disputes.resultDeadline mid = _ :=
    ⟨(Prod.mk.inj hst).1, Prod.mk.inj (Prod.mk.inj hst).2⟩
  rw [ht', hs, settledStanding, settledStanding, hplay, hperiod, hpending, hdeadline]

/-! ## Batches -/

theorem settleResult_of_open (hs : s.book.Sound)
    (hfits : s.control.getDisputePeriod = 0 ∨ env.sequence + s.control.getDisputePeriod ≤ u32Max)
    (hopen : SettleOpen s mid winner m) :
    ∃ s', settleResult mid winner env s = .ok () s' := by
  have hsound := hs.stored mid m hopen.stored
  have hpot : checkedMul m.stakeAmount 2 = some (2 * m.stakeAmount) :=
    checkedMul_two hsound.terms.stake_pos (hsound.fits hopen.funded.1 hopen.funded.2)
  by_cases hp : s.control.getDisputePeriod = 0
  · exact ⟨_, settleResult_ok_iff.mpr ⟨m, hopen, .inl ⟨hp, by rw [hpot]; rfl, rfl⟩⟩⟩
  · have hbalance : escrowBalanceOf ((m.resulted env winner).withState .pendingResult) =
        some (2 * m.stakeAmount) := by
      simpa [escrowBalanceOf, Match.depositorCount, Match.resulted, hopen.funded, checkedMul,
        mul_comm] using hpot
    exact ⟨_, settleResult_ok_iff.mpr ⟨m, hopen, .inr ⟨hp, _, hfits.resolve_left hp, hbalance,
      rfl⟩⟩⟩

theorem settleEntry_ok_iff :
    settleEntry x env s = .ok u s' ↔ settleResult x.1 x.2 env s = .ok u s' := by
  simp [settleEntry]
  intro h
  obtain ⟨m, hopen, -⟩ := settleResult_ok_iff.mp h
  rw [hopen.stored]
  rcases hopen.state with hstate | hstate <;> simp [hstate]

theorem checkSettle_of_not_open (env : Env) (h : ∀ m, ¬SettleOpen s mid winner m) :
    ∃ e, checkSettle mid winner env s = .err e s := by
  simp [checkSettle]
  by_cases hwinner : winner = .none
  · exact ⟨_, .inl ⟨hwinner, rfl⟩⟩
  cases hm : s.matchMap mid with
  | none => exact ⟨_, .inr ⟨hwinner, .inl ⟨rfl, rfl⟩⟩⟩
  | some m =>
    by_cases hfunded : m.state = .pending ∨ m.player1Deposited = false ∨ m.player2Deposited = false
    · exact ⟨_, .inr ⟨hwinner, .inr ⟨m, rfl, .inl ⟨hfunded, rfl⟩⟩⟩⟩
    · simp only [not_or, Bool.not_eq_false] at hfunded
      have hstate : ¬(m.state = .active ∨ m.state = .paused) :=
        fun hstate => h m ⟨hwinner, hm, hfunded.2, hstate⟩
      exact ⟨_, .inr ⟨hwinner, .inr ⟨m, rfl, .inr ⟨hfunded, not_or.mp hstate, rfl⟩⟩⟩⟩

/-- An entry that finds no match to settle is refused. -/
theorem settleEntry_of_not_settles (env : Env) (h : ¬Settles s x) :
    ∃ e, settleEntry x env s = .err e s := by
  obtain ⟨e, he⟩ := checkSettle_of_not_open env (not_exists.mp h)
  simp [settleEntry, settleResult, he]
  cases Option.any (fun m => decide (m.state = .completed) || decide (m.state = .pendingResult))
    (s.matchMap x.1) with
  | true => exact ⟨_, .inl ⟨rfl, rfl⟩⟩
  | false => exact ⟨e, .inr ⟨rfl, rfl⟩⟩

/-- A sound state in which the deadlines of results fit. -/
structure Settleable (env : Env) (s : World) : Prop where
  sound : s.book.Sound
  fits : s.control.getDisputePeriod = 0 ∨ env.sequence + s.control.getDisputePeriod ≤ u32Max

theorem Settleable.entry (hs : Settleable env s) (x : ℕ × Winner) :
    Settleable env (Tx.entry settleEntry env s x) := by
  refine ⟨(settleEntry_keeps hs.sound x).1, ?_⟩
  rw [(settleEntry_keeps hs.sound x).2]
  exact hs.fits

/-- An entry settles its match, or it is refused and changes nothing. -/
theorem Settleable.entry_cases (hs : Settleable env s) (x : ℕ × Winner) :
    (Settles s x ∧ ∃ s', settleResult x.1 x.2 env s = .ok () s' ∧
      settleEntry x env s = .ok () s') ∨
    (¬Settles s x ∧ ∃ e, settleEntry x env s = .err e s) := by
  by_cases hx : Settles s x
  · obtain ⟨m, hopen⟩ := hx
    obtain ⟨s', h⟩ := settleResult_of_open hs.sound hs.fits hopen
    exact .inl ⟨⟨m, hopen⟩, s', h, settleEntry_ok_iff.mpr h⟩
  · exact .inr ⟨hx, settleEntry_of_not_settles env hx⟩

theorem Settleable.report_eq_none_iff (hs : Settleable env s) :
    Tx.report settleEntry env s x = none ↔ Settles s x := by
  rcases hs.entry_cases x with ⟨hx, s', -, h⟩ | ⟨hx, e, h⟩
  · exact iff_of_true (report_of_ok h) hx
  · rw [Tx.report, h]
    simp [hx]

theorem Settleable.along (hs : Settleable env s) (results : List (ℕ × Winner)) :
    Along (Tx.entry settleEntry env) (fun s x => settleEntry x env s ≠ .trap) s
      results := by
  induction results generalizing s with
  | nil => trivial
  | cons x results ih =>
    refine ⟨?_, ih (hs.entry x)⟩
    rcases hs.entry_cases x with ⟨-, s', -, h⟩ | ⟨-, e, h⟩
    · simp [h]
    · simp [h]

theorem Settles.of_standing (h : Settles s x) (hst : t.standing x.1 = s.standing x.1) :
    Settles t x := by
  obtain ⟨m, hopen⟩ := h
  obtain ⟨m', hopen', -⟩ := hopen.of_standing hst
  exact ⟨m', hopen'⟩

theorem entry_standing_of_ne (hs : Settleable env s) (hne : x.1 ≠ mid) :
    (Tx.entry settleEntry env s x).standing mid = s.standing mid := by
  rcases hs.entry_cases x with ⟨-, s', h, hentry⟩ | ⟨-, e, h⟩
  · rw [entry_of_ok hentry]
    obtain ⟨m, -, ⟨-, -, rfl⟩ | ⟨-, balance, -, -, rfl⟩⟩ := settleResult_ok_iff.mp h
    · simp [World.standing, World.settledNow, World.resulted, update_of_ne hne.symm]
    · simp [World.standing, World.settledLater, World.resulted, update_of_ne hne.symm]
  · rw [entry_of_err h]

/-- Two states in which a match stands alike, ready for the same batch. -/
structure Apace (env : Env) (matchId : ℕ) (s t : World) : Prop where
  left : Settleable env s
  right : Settleable env t
  period : t.control.getDisputePeriod = s.control.getDisputePeriod
  standing : t.standing matchId = s.standing matchId

theorem Apace.entry (h : Apace env mid s t) (x : ℕ × Winner) :
    Apace env mid (Tx.entry settleEntry env s x) (Tx.entry settleEntry env t x) := by
  refine ⟨h.left.entry x, h.right.entry x, ?_, ?_⟩
  · rw [(settleEntry_keeps h.left.sound x).2, (settleEntry_keeps h.right.sound x).2, h.period]
  by_cases hx : x.1 = mid
  · subst hx
    rcases h.left.entry_cases x with ⟨-, s', hs, hentry⟩ | ⟨hnot, e, hs⟩
    · obtain ⟨t', ht, hst⟩ := settleResult_of_standing h.standing h.period hs
      rw [entry_of_ok hentry, entry_of_ok (settleEntry_ok_iff.mpr ht), hst]
    · have hnot' : ¬Settles t x := fun hx => hnot (hx.of_standing h.standing.symm)
      obtain ⟨e', ht⟩ := settleEntry_of_not_settles env hnot'
      rw [entry_of_err hs, entry_of_err ht, h.standing]
  · rw [entry_standing_of_ne h.left hx, entry_standing_of_ne h.right hx, h.standing]

theorem Apace.run (h : Apace env mid s t) (results : List (ℕ × Winner)) :
    Apace env mid (run (Tx.entry settleEntry env) s results)
      (run (Tx.entry settleEntry env) t results) := by
  induction results generalizing s t with
  | nil => exact h
  | cons x results ih => exact ih (h.entry x)

/-- An entry on a match that is not open leaves it. -/
theorem Settleable.not_open_entry (hs : Settleable env s)
    (hm : ∀ m, s.matchMap mid = some m → ¬(m.state = .active ∨ m.state = .paused))
    (x : ℕ × Winner) :
    ∀ m, (Tx.entry settleEntry env s x).matchMap mid = some m →
      ¬(m.state = .active ∨ m.state = .paused) := by
  by_cases hx : x.1 = mid
  · subst hx
    have hnot : ¬Settles s x := fun ⟨m, hopen⟩ => hm m hopen.stored hopen.state
    obtain ⟨e, h⟩ := settleEntry_of_not_settles env hnot
    rwa [entry_of_err h]
  · intro m hm' hopen
    obtain ⟨m0, hm0, hplay⟩ := standing_stored (entry_standing_of_ne hs hx).symm hm'
    exact hm m0 hm0 (open_of_inPlay_eq hplay hopen)

/-- What a batch reports as done was open, and its deadline fits. -/
theorem batch_settles {os : List (Option Error)} {i : ℕ} (hs : s.book.Sound)
    (h : Tx.batch settleEntry results env s = .ok os s') (hx : results[i]? = some x)
    (ho : os[i]? = some none) :
    Settleable env s ∧ Settles (run (Tx.entry settleEntry env) s (results.take i)) x := by
  induction results generalizing s os i with
  | nil => simp at hx
  | cons y results ih =>
    obtain ⟨htrap, os', rfl, hl⟩ := batch_cons_ok h
    cases i with
    | zero =>
      obtain rfl := Option.some.inj hx
      have hreport : Tx.report settleEntry env s y = none := Option.some.inj ho
      cases hrun : settleEntry y env s with
      | trap => exact absurd hrun htrap
      | err => simp [Tx.report, hrun] at hreport
      | ok =>
        obtain ⟨m, hopen, ⟨hp, -⟩ | ⟨-, balance, hfits, -⟩⟩ :=
          settleResult_ok_iff.mp (settleEntry_ok_iff.mp hrun)
        · exact ⟨⟨hs, .inl hp⟩, m, hopen⟩
        · exact ⟨⟨hs, .inr hfits⟩, m, hopen⟩
    | succ =>
      obtain ⟨hsound, hperiod⟩ := settleEntry_keeps hs y
      obtain ⟨hnext, hsettles⟩ := ih hsound hl hx ho
      refine ⟨⟨hs, ?_⟩, hsettles⟩
      rw [← hperiod]
      exact hnext.fits

theorem Settleable.not_open_run (hs : Settleable env s)
    (hm : ∀ m, s.matchMap mid = some m → ¬(m.state = .active ∨ m.state = .paused))
    (results : List (ℕ × Winner)) :
    ∀ m, (run (Tx.entry settleEntry env) s results).matchMap mid = some m →
      ¬(m.state = .active ∨ m.state = .paused) := by
  induction results generalizing s with
  | nil => exact hm
  | cons x results ih => exact ih (hs.entry x) (hs.not_open_entry hm x)

/-! ## Stalling -/

/-- A match as the calls of the player on `side` can leave it. -/
def Match.StalledBy (side : Side) (m m' : Match) : Prop :=
  m'.inPlay = m.inPlay ∧ m'.rollbackVote side.other = m.rollbackVote side.other ∨
    m'.state = .cancelled ∧ m.rollbackVote side.other = true

/-- The actions of the calls with which a player can stall. -/
def Action.stalls (player : Address) : Action → Prop
  | .pause | .resume | .heartbeat => True
  | .rollback _ disputer => disputer = player
  | _ => False

theorem Match.player_injective (h : m.player1 ≠ m.player2) : Function.Injective m.player := by
  intro side side' heq
  cases side <;> cases side'
  · rfl
  · exact absurd heq h
  · exact absurd heq.symm h
  · rfl

section

variable {config : ProtocolConfig} {period : ℕ} {a : Action}

/-- Only an open match is stalled. -/
theorem MatchStep.stalledBy {pw pw' : Option Winner} {ts : List Transfer}
    {deltas : List (Address × ℤ)} {player : Address}
    (h : MatchStep env config period mid m pw a ts deltas m' pw') (ha : a.stalls player) :
    (m.state = .active ∨ m.state = .paused) ∧
      (m.player side = player → m.player1 ≠ m.player2 → m.StalledBy side m') := by
  cases h with
  | pause hstate =>
    refine ⟨.inl hstate, fun _ _ => .inl ⟨?_, by cases side <;> rfl⟩⟩
    simp [Match.inPlay, hstate]
  | resume hstate =>
    refine ⟨.inr hstate, fun _ _ => .inl ⟨?_, by cases side <;> rfl⟩⟩
    simp [Match.inPlay, hstate]
  | heartbeat hstate => exact ⟨.inl hstate, fun _ _ => .inl ⟨rfl, by cases side <;> rfl⟩⟩
  | rollbackVote side' hstate =>
    refine ⟨.inl hstate, fun hplayer hplayers => .inl ?_⟩
    obtain rfl := Match.player_injective hplayers (hplayer.trans ha.symm)
    cases side <;> exact ⟨rfl, rfl⟩
  | rollback side' hstate _ hvotes =>
    refine ⟨.inl hstate, fun hplayer hplayers => .inr ⟨rfl, ?_⟩⟩
    obtain rfl := Match.player_injective hplayers (hplayer.trans ha.symm)
    cases side with
    | player1 => exact hvotes.2
    | player2 => exact hvotes.1
  | cancel haction => rcases haction with rfl | rfl <;> exact ha.elim
  | _ => exact ha.elim

theorem Change.stalledBy {b b' : Book} {player : Address}
    (h : Change env config period a b b') (side : Side) (ha : a.stalls player)
    (hm : b.matchMap mid = some m) :
    ∃ m', b'.matchMap mid = some m' ∧ (m' = m ∨ (m.state = .active ∨ m.state = .paused) ∧
      (m.player side = player → m.player1 ≠ m.player2 → m.StalledBy side m')) := by
  cases h with
  | opening => exact ha.elim
  | @moving _ id m1 m1' _ _ _ _ _ hm1 hstep hl =>
    by_cases hid : mid = id
    · subst hid
      obtain rfl := mem_unique hm hm1
      exact ⟨m1', update_self .., .inr (hstep.stalledBy ha)⟩
    · exact ⟨m, (update_of_ne hid ..).trans hm, .inl rfl⟩

end

/-- What the calls of the player on `side` can have done since `w`. -/
structure Delayed (matchId : ℕ) (side : Side) (m : Match) (w t : World) : Prop where
  control : t.control.fresh = w.control.fresh
  consensus : t.consensus = w.consensus
  disputes : t.disputes = w.disputes
  record : ∃ m', t.matchMap matchId = some m' ∧ m.StalledBy side m'

/-- What the calls of a stalling player leave alone. -/
def World.unstalled (w : World) : Control × Consensus × Disputes :=
  (w.control.fresh, w.consensus, w.disputes)

/-- The writes of the calls of a stalling player. -/
def Write.ofStalling : Write → Bool
  | .auth | .matchMap | .index | .snapshot | .playerSnapshot | .transfer => true
  | _ => false

theorem Call.exec_frames_unstalled {call : Call}
    (h : ∀ k, call.makes k = true → k.ofStalling = true) :
    Frames World.unstalled call.exec := by
  refine Call.exec_frames fun k hk env p => ?_
  replace hk := h k hk
  cases k with
  | auth | index | playerSnapshot => exact fun _ _ hw => hw
  | matchMap | transfer => exact fun _ _ _ hw => hw
  | snapshot => exact fun _ _ _ _ hw => hw
  | _ => exact Bool.noConfusion hk

theorem Event.stalls.call {player : Address} {call : Call}
    (h : (Event.invoke env call).stalls player) :
    Frames World.unstalled call.exec ∧ call.action.stalls player ∧ call.isBatch = false := by
  cases call with
  | pauseMatch | resumeMatch | heartbeatMatch =>
    refine ⟨Call.exec_frames_unstalled fun k hk => ?_, trivial, rfl⟩
    cases k <;> first | rfl | exact hk
  | disputeAndRollbackMatch =>
    refine ⟨Call.exec_frames_unstalled fun k hk => ?_, h, rfl⟩
    cases k <;> first | rfl | exact hk
  | _ => exact h.elim

theorem Match.StalledBy.trans {m1 m2 : Match} (h : m.StalledBy side m1)
    (hopen : m1.state = .active ∨ m1.state = .paused)
    (hplayers : m.player1 ≠ m.player2)
    (h' : m1.player side = m.player side → m1.player1 ≠ m1.player2 → m1.StalledBy side m2) :
    m.StalledBy side m2 := by
  rcases h with ⟨hplay, hvote⟩ | ⟨hcancelled, -⟩
  · have hplayer1 := congrArg Match.player1 hplay
    have hplayer2 := congrArg Match.player2 hplay
    change m1.player1 = m.player1 at hplayer1
    change m1.player2 = m.player2 at hplayer2
    have hside : m1.player side = m.player side := by
      cases side
      · exact hplayer1
      · exact hplayer2
    rcases h' hside (by rwa [hplayer1, hplayer2]) with ⟨hplay', hvote'⟩ | ⟨hcancelled, hvote'⟩
    · exact .inl ⟨hplay'.trans hplay, hvote'.trans hvote⟩
    · exact .inr ⟨hcancelled, hvote ▸ hvote'⟩
  · simp [hcancelled] at hopen

theorem Delayed.step {e : Event} (h : Delayed mid side m w t)
    (hplayers : m.player1 ≠ m.player2) (he : e.stalls (m.player side)) :
    Delayed mid side m w (step t e) := by
  refine step_keeps (P := Delayed mid side m w) h ?_
    (fun l => ⟨h.control, h.consensus, h.disputes, h.record⟩)
    fun id => ⟨h.control, h.consensus, h.disputes, h.record⟩
  rintro env call t' rfl hexec
  obtain ⟨hframes, haction, hbatch⟩ := he.call
  have hcall : call.action ≠ .administer := fun hadmin => by
    rw [hadmin] at haction
    exact haction
  obtain ⟨hcontrol, hrest⟩ := Prod.mk.inj (hframes.ok hexec)
  obtain ⟨hconsensus, hdisputes⟩ := Prod.mk.inj hrest
  refine ⟨hcontrol.trans h.control, hconsensus.trans h.consensus, hdisputes.trans h.disputes, ?_⟩
  obtain ⟨m1, hm1, hstalled⟩ := h.record
  rcases Relation.reflGen_iff _ _ _ |>.mp (exec_effect hexec hcall hbatch).book with heq | hone
  · have hmap : t'.matchMap = t.matchMap := congrArg Book.matchMap heq
    exact ⟨m1, (congrFun hmap mid).trans hm1, hstalled⟩
  · obtain ⟨m2, hm2, hcases⟩ := hone.stalledBy side haction hm1
    refine ⟨m2, hm2, ?_⟩
    rcases hcases with rfl | ⟨hopen, hnext⟩
    · exact hstalled
    · exact hstalled.trans hopen hplayers hnext

theorem Delayed.run {es : List Event} (h : Delayed mid side m w t)
    (hplayers : m.player1 ≠ m.player2) (hes : ∀ e ∈ es, e.stalls (m.player side)) :
    Delayed mid side m w (run Escrow.step t es) :=
  run_inv (fun _ _ h he => h.step hplayers he) h (along_of_forall hes)

/-! ## The settlement calls -/

theorem resolveOracleDeadlock_ok_iff :
    resolveOracleDeadlock mid winner env w = .ok u w' ↔
      ∃ a c m, requireAdmin env w.control = .ok a c ∧ w.matchMap mid = some m ∧
        m.state = .active ∧ w.consensus.oracleDeadlock mid = true ∧
        settleResult mid winner env (w.withControl c) = .ok u w' := by
  simp [resolveOracleDeadlock, -requireAdmin_ok_iff]

/-- Two states between which a settlement makes no difference, but for pauses. -/
structure Alike (matchId : ℕ) (w t : World) : Prop where
  control : t.control.fresh = w.control.fresh
  consensus : t.consensus = w.consensus
  standing : t.standing matchId = w.standing matchId

/-- A call that checks the settings and settles. -/
theorem onControl_settleResult_of_standing {x : ControlTx Unit} (halike : Alike mid w t)
    (h : (onControl x >>= fun _ => settleResult mid winner) env w.fresh = .ok () w1) :
    ∃ w2, (onControl x >>= fun _ => settleResult mid winner) env t.fresh = .ok () w2 ∧
      w2.standing mid = w1.standing mid := by
  obtain ⟨_, _, hx, hsettle⟩ := bind_ok_iff.mp h
  obtain ⟨c, hc, rfl⟩ := onControl_ok_iff.mp hx
  obtain ⟨w2, hw2, hstanding⟩ :=
    settleResult_of_standing (s := w.fresh.withControl c) (t := t.fresh.withControl c)
      halike.standing rfl hsettle
  refine ⟨w2, bind_ok_iff.mpr ⟨(), _, onControl_ok_iff.mpr ⟨c, ?_, rfl⟩, hw2⟩, hstanding⟩
  rwa [fresh_control, halike.control]

theorem submitResultBatch_of_standing {caller : Address} {i : ℕ} (hw : Reachable w)
    (ht : Reachable t) (halike : Alike mid w t)
    (h : (Settlement.submitResultBatch results caller i).Accepted mid env w w1) :
    ∃ w2, (Settlement.submitResultBatch results caller i).Accepted mid env t w2 ∧
      w2.standing mid = w1.standing mid := by
  obtain ⟨os, hbatch, ⟨winner, hx⟩, ho⟩ := h
  obtain ⟨_, _, hc, hbatch⟩ := bind_ok_iff.mp hbatch
  obtain ⟨c, hc, rfl⟩ := onControl_ok_iff.mp hc
  obtain ⟨hleft, hsettles⟩ := batch_settles (s := w.fresh.withControl c) hw.sound hbatch hx ho
  have hapace : Apace env mid (w.fresh.withControl c) (t.fresh.withControl c) :=
    ⟨hleft, ⟨ht.sound, hleft.fits⟩, rfl, halike.standing⟩
  obtain ⟨os', w2, hbatch'⟩ := batch_of_along (hapace.right.along results)
  refine ⟨w2, ⟨os', bind_ok_iff.mpr ⟨(), _, onControl_ok_iff.mpr ⟨c, ?_, rfl⟩, hbatch'⟩,
    ⟨winner, hx⟩, ?_⟩, ?_⟩
  · rwa [fresh_control, halike.control]
  · have hthere := hapace.run (results.take i)
    rw [batch_report hbatch' hx, hthere.right.report_eq_none_iff.mpr]
    exact hsettles.of_standing hthere.standing
  · rw [(batch_run hbatch).1, (batch_run hbatch').1]
    exact (hapace.run results).standing

theorem submitResultConsensus_of_standing {oracle : Address} (halike : Alike mid w t)
    (hm' : t.matchMap mid = some m') (hactive : m'.state = .active)
    (h : submitResultConsensus mid winner oracle env w.fresh = .ok () w1) :
    ∃ w2, submitResultConsensus mid winner oracle env t.fresh = .ok () w2 ∧
      w2.standing mid = w1.standing mid := by
  obtain ⟨m, hopen, h⟩ := submitResultConsensus_ok_iff.mp h
  have hst := halike.standing
  obtain ⟨m1, hm1, hplay⟩ := standing_stored hst hopen.stored
  obtain rfl : m' = m1 := mem_unique hm' hm1
  obtain ⟨-, hplayer1, hplayer2⟩ := funds_of_inPlay_eq hplay
  have hcontrol : t.fresh.control = w.fresh.control := halike.control
  have hconsensus : t.fresh.consensus = w.fresh.consensus := halike.consensus
  have hopen' : VoteOpen env t.fresh mid winner oracle m' :=
    { unpaused := hcontrol ▸ hopen.unpaused
      auth := hopen.auth
      unused := hcontrol ▸ hopen.unused
      approved := hcontrol ▸ hopen.approved
      stored := hm'
      active := hactive
      funded := by rw [hplayer1, hplayer2]; exact hopen.funded
      unvoted := hconsensus ▸ hopen.unvoted
      agrees := hconsensus ▸ hopen.agrees
      fits := hconsensus ▸ hopen.fits }
  have hperiod : (t.fresh.voted mid winner oracle).control.getDisputePeriod =
      (w.fresh.voted mid winner oracle).control.getDisputePeriod := by
    rw [voted_control, voted_control, hcontrol]
  simp only [submitResultConsensus_ok_iff, hcontrol, hconsensus]
  rcases ite_ok_iff.mp h with ⟨hquorum, h⟩ | ⟨hquorum, h⟩
  · obtain ⟨w2, hw2, hstanding⟩ := settleResult_of_standing
      (s := w.fresh.voted mid winner oracle) (t := t.fresh.voted mid winner oracle) hst
      hperiod h
    exact ⟨w2, ⟨m', hopen', ite_ok_iff.mpr (.inl ⟨hquorum, hw2⟩)⟩, hstanding⟩
  · have hdeadlock : ∃ w2, checkOracleDeadlock mid
        (w.fresh.consensus.oracleConfirmations mid + 1)
        w.fresh.control.getRequiredConfirmations env (t.fresh.voted mid winner oracle) =
          .ok () w2 ∧ w2.standing mid = t.standing mid := by
      by_cases hreach : (t.fresh.voted mid winner oracle).control.OutOfReach
          (w.fresh.consensus.oracleConfirmations mid + 1)
          w.fresh.control.getRequiredConfirmations
      · exact ⟨_, checkOracleDeadlock_ok_iff.mpr (.inl ⟨hreach, rfl⟩), rfl⟩
      · exact ⟨_, checkOracleDeadlock_ok_iff.mpr (.inr ⟨hreach, rfl⟩), rfl⟩
    obtain ⟨w2, hw2, hstanding⟩ := hdeadlock
    refine ⟨w2, ⟨m', hopen', ite_ok_iff.mpr (.inr ⟨hquorum, hw2⟩)⟩, ?_⟩
    rw [hstanding, hst]
    rcases checkOracleDeadlock_ok_iff.mp h with ⟨-, rfl⟩ | ⟨-, rfl⟩ <;> rfl

theorem resolveOracleDeadlock_of_standing (halike : Alike mid w t)
    (hm' : t.matchMap mid = some m') (hactive : m'.state = .active)
    (h : resolveOracleDeadlock mid winner env w.fresh = .ok () w1) :
    ∃ w2, resolveOracleDeadlock mid winner env t.fresh = .ok () w2 ∧
      w2.standing mid = w1.standing mid := by
  obtain ⟨a, c, m, hadmin, -, -, hflag, hsettle⟩ := resolveOracleDeadlock_ok_iff.mp h
  obtain ⟨w2, hw2, hstanding⟩ :=
    settleResult_of_standing (s := w.fresh.withControl c) (t := t.fresh.withControl c)
      halike.standing rfl hsettle
  refine ⟨w2, resolveOracleDeadlock_ok_iff.mpr ⟨a, c, m', ?_, hm', hactive, ?_, hw2⟩, hstanding⟩
  · rwa [fresh_control, halike.control]
  · exact halike.consensus ▸ hflag

/-- The states of a match in which a call settles it. -/
def Settlement.Takes (c : Settlement) (m : Match) : Prop :=
  m.state = .active ∨ m.state = .paused ∧ c.wantsActive = false

theorem Settlement.Accepted.takes {c : Settlement} (ht : Reachable t)
    (h : c.Accepted mid env t w1) : ∃ m, t.matchMap mid = some m ∧ c.Takes m := by
  have hsettle {s : World} {winner : Winner}
      (h : ∃ v w2, onControl v env t.fresh = .ok () s ∧
        settleResult mid winner env s = .ok () w2)
      (hc : c.wantsActive = false) : ∃ m, t.matchMap mid = some m ∧ c.Takes m := by
    obtain ⟨v, w2, hv, hsettle⟩ := h
    obtain ⟨_, -, rfl⟩ := onControl_ok_iff.mp hv
    obtain ⟨m, hopen, -⟩ := settleResult_ok_iff.mp hsettle
    exact ⟨m, hopen.stored, hopen.state.imp_right fun hpaused => ⟨hpaused, hc⟩⟩
  cases c with
  | submitResult | submitDraw =>
    obtain ⟨_, s, hv, h⟩ := bind_ok_iff.mp h
    exact hsettle ⟨_, _, hv, h⟩ rfl
  | submitResultBatch =>
    obtain ⟨os, hbatch, ⟨winner, hx⟩, ho⟩ := h
    obtain ⟨_, _, hc, hbatch⟩ := bind_ok_iff.mp hbatch
    obtain ⟨c, hc, rfl⟩ := onControl_ok_iff.mp hc
    obtain ⟨hs, m, hopen⟩ := batch_settles (s := t.fresh.withControl c) ht.sound hbatch hx ho
    -- The entry has found the match open, and no entry before it can have opened it.
    by_contra hnot
    have hclosed (m : Match) (hm : (t.fresh.withControl c).matchMap mid = some m) :
        ¬(m.state = .active ∨ m.state = .paused) := fun hopen =>
      hnot ⟨m, hm, hopen.imp_right fun hpaused => ⟨hpaused, rfl⟩⟩
    exact hs.not_open_run hclosed _ m hopen.stored hopen.state
  | submitResultConsensus =>
    obtain ⟨m, hopen, -⟩ := submitResultConsensus_ok_iff.mp h
    exact ⟨m, hopen.stored, .inl hopen.active⟩
  | resolveOracleDeadlock =>
    obtain ⟨a, c, m, -, hm, hactive, -⟩ := resolveOracleDeadlock_ok_iff.mp h
    exact ⟨m, hm, .inl hactive⟩

theorem Settlement.Accepted.of_standing {c : Settlement} (hw : Reachable w) (ht : Reachable t)
    (halike : Alike mid w t) (hm' : t.matchMap mid = some m') (htakes : c.Takes m')
    (h : c.Accepted mid env w w1) :
    ∃ w2, c.Accepted mid env t w2 ∧ w2.standing mid = w1.standing mid := by
  cases c with
  | submitResult | submitDraw => exact onControl_settleResult_of_standing halike h
  | submitResultBatch =>
    exact submitResultBatch_of_standing hw ht halike h
  | submitResultConsensus =>
    have hactive : m'.state = .active := htakes.resolve_right fun hp => Bool.noConfusion hp.2
    exact submitResultConsensus_of_standing halike hm' hactive h
  | resolveOracleDeadlock =>
    have hactive : m'.state = .active := htakes.resolve_right fun hp => Bool.noConfusion hp.2
    exact resolveOracleDeadlock_of_standing halike hm' hactive h

/-- A settlement of an active match succeeds as before after any calls of one player, if and only
if the match is still active, or it is paused and the call accepts that. While the other player
has not voted for a rollback, the match is one or the other. -/
theorem stalling_harmless_iff {c : Settlement} {es : List Event} (hw : Reachable w)
    (hm : w.matchMap mid = some m) (hactive : m.state = .active)
    (hes : ∀ e ∈ es, e.stalls (m.player side)) (h : c.Accepted mid env w w1) :
    ((∃ w2, c.Accepted mid env (run step w es) w2 ∧
        w2.standing mid = w1.standing mid) ↔
      ∃ m', (run step w es).matchMap mid = some m' ∧
        (m'.state = .active ∨ m'.state = .paused ∧ c.wantsActive = false)) ∧
    (m.rollbackVote side.other = false →
      ∃ m', (run step w es).matchMap mid = some m' ∧
        (m'.state = .active ∨ m'.state = .paused)) := by
  have hplayers : m.player1 ≠ m.player2 := (hw.sound.stored mid m hm).terms.players
  have hstart : Delayed mid side m w w := ⟨rfl, rfl, rfl, m, hm, .inl ⟨rfl, rfl⟩⟩
  have hend := hstart.run hplayers hes
  obtain ⟨m', hm', hstalled⟩ := hend.record
  refine ⟨⟨fun ⟨w2, hw2, _⟩ => hw2.takes (hw.run es), ?_⟩, fun hvote => ⟨m', hm', ?_⟩⟩
  · rintro ⟨m1, hm1, htakes⟩
    obtain rfl : m' = m1 := mem_unique hm' hm1
    rcases hstalled with ⟨hplay, -⟩ | ⟨hcancelled, -⟩
    · have hst : (run step w es).standing mid = w.standing mid := by
        rw [World.standing, World.standing, hm', hm, hend.disputes, map_some, map_some, hplay]
      exact h.of_standing hw (hw.run es) ⟨hend.control, hend.consensus, hst⟩ hm' htakes
    · simp [hcancelled] at htakes
  · rcases hstalled with ⟨hplay, -⟩ | ⟨-, hvoted⟩
    · exact open_of_inPlay_eq hplay (.inl hactive)
    · simp [hvote] at hvoted

/-- Address 2 pauses match 0, and the result is accepted all the same. -/
theorem stalling_harmless_iff_fundedMatch :
    ∃ w1 w2, (Settlement.submitResult .player1 (.ext 0)).Accepted 0 (.plain [0] 0 0)
        (run step .start fundedMatch) w1 ∧
      (Settlement.submitResult .player1 (.ext 0)).Accepted 0 (.plain [0] 0 0)
        (run step (run step .start fundedMatch)
          [.invoke (.plain [2] 0 0) (.pauseMatch 0 (.ext 2))]) w2 ∧
      w2.standing 0 = w1.standing 0 := by
  have hw : Reachable (run step .start fundedMatch) := ⟨_, _, start_initial, rfl⟩
  have hfields : ((run step .start fundedMatch).matchMap 0).map (fun m => (m.state, m.player1)) =
      some (.active, .ext 2) := by decide +kernel
  obtain ⟨m, hm, hfields⟩ := map_eq_some_iff.mp hfields
  obtain ⟨hactive, hplayer⟩ := Prod.mk.inj hfields
  have hvalue : (submitResult 0 .player1 (.ext 0) (.plain [0] 0 0)
      (run step .start fundedMatch).fresh).value = some () := by decide +kernel
  obtain ⟨w1, hw1⟩ := Outcome.value_eq_some_iff.mp hvalue
  have hpaused : ((run step (run step .start fundedMatch)
      [.invoke (.plain [2] 0 0) (.pauseMatch 0 (.ext 2))]).matchMap 0).map Match.state =
        some .paused := by decide +kernel
  obtain ⟨m', hm', hstate⟩ := map_eq_some_iff.mp hpaused
  have hes : ∀ e ∈ [Event.invoke (.plain [2] 0 0) (.pauseMatch 0 (.ext 2))],
      e.stalls (m.player .player1) := by
    simp only [List.forall_mem_singleton]
    exact hplayer.symm
  obtain ⟨w2, hw2, hstanding⟩ := (stalling_harmless_iff (c := .submitResult .player1 (.ext 0))
    hw hm hactive hes hw1).1.mpr ⟨m', hm', .inr ⟨hstate, rfl⟩⟩
  exact ⟨w1, w2, hw1, hw2, hstanding⟩

/-- Match 0 is funded and oracles 6 and 7 are approved, of whom the first has voted. -/
def votedMatch : List Event :=
  fundedMatch ++
    [.invoke (.plain [1] 0 0) (.control (.addApprovedOracle (.ext 6))),
      .invoke (.plain [1] 0 0) (.control (.addApprovedOracle (.ext 7))),
      .invoke (.plain [6] 0 0) (.submitResultConsensus 0 .player1 (.ext 6))]

/-- The vote of oracle 7 settles match 0. After a pause by address 2 the same vote is refused. -/
theorem pause_stops_consensus :
    Reachable (run step .start votedMatch) ∧
    ((run step .start votedMatch).matchMap 0).map (fun m => (m.state, m.player1)) =
      some (.active, .ext 2) ∧
    (∃ w1, (Settlement.submitResultConsensus .player1 (.ext 7)).Accepted 0 (.plain [7] 0 0)
      (run step .start votedMatch) w1) ∧
    ((run step .start (votedMatch ++ [.invoke (.plain [7] 0 0)
      (.submitResultConsensus 0 .player1 (.ext 7))])).matchMap 0).map
        (fun m => (m.state, m.winner)) = some (.completed, .player1) ∧
    ¬∃ w2, (Settlement.submitResultConsensus .player1 (.ext 7)).Accepted 0 (.plain [7] 0 0)
      (run step (run step .start votedMatch)
        [.invoke (.plain [2] 0 0) (.pauseMatch 0 (.ext 2))]) w2 := by
  have hvalue : (submitResultConsensus 0 .player1 (.ext 7) (.plain [7] 0 0)
      (run step .start votedMatch).fresh).value = some () := by decide +kernel
  have hrefused : (submitResultConsensus 0 .player1 (.ext 7) (.plain [7] 0 0)
      (run step (run step .start votedMatch)
        [.invoke (.plain [2] 0 0) (.pauseMatch 0 (.ext 2))]).fresh).value = none := by
    decide +kernel
  refine ⟨⟨_, _, start_initial, rfl⟩, by decide +kernel,
    Outcome.value_eq_some_iff.mp hvalue, by decide +kernel, fun h => ?_⟩
  exact absurd (hrefused.symm.trans (Outcome.value_eq_some_iff.mpr h)) (by simp)

end Checkmate.Escrow

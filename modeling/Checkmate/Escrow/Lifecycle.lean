import Checkmate.Escrow.Runs

/-!
# Lifecycle of a match

What the fields of a match say about each other in every reachable state, and what no
operation changes.
-/

namespace Checkmate.Escrow

open Function Book Option

variable {env : Env} {config : ProtocolConfig} {period i : ℕ} {a : Action} {m m' : Match}
  {pw pw' : Option Winner} {ts : List Transfer} {deltas : List (Address × ℤ)} {b b' : Book}
  {w : World}

/-! ## Terms -/

/-- What the players agreed on when the match was created. -/
structure Terms where
  id : ℕ
  player1 : Address
  player2 : Address
  stakeAmount : ℤ
  token : Address
  tokenB : Option Address
  conversionRate : Option ℤ
  gameId : Bytes
  platform : Platform
  createdLedger : ℕ
  referrer : Option Address
deriving DecidableEq

def Match.terms (m : Match) : Terms where
  id := m.id
  player1 := m.player1
  player2 := m.player2
  stakeAmount := m.stakeAmount
  token := m.token
  tokenB := m.tokenB
  conversionRate := m.conversionRate
  gameId := m.gameId
  platform := m.platform
  createdLedger := m.createdLedger
  referrer := m.referrer

/-- No step changes the terms of a match. -/
theorem MatchStep.terms (h : MatchStep env config period i m pw a ts deltas m' pw') :
    m'.terms = m.terms := by
  cases h
  case deposit side _ _ _ => cases side <;> rfl
  case activate side _ _ _ _ => cases side <;> rfl
  case rollbackVote side _ _ => cases side <;> rfl
  case rollback side _ _ _ _ => cases side <;> rfl
  case claim side _ _ _ _ _ _ _ => cases side <;> rfl
  all_goals rfl

/-! ## Stages -/

/-- How the fields of a match and its waiting winner hang together. -/
structure Stage (m : Match) (pw : Option Winner) : Prop where
  funded : m.state ≠ .pending → m.state ≠ .cancelled →
    m.player1Deposited = true ∧ m.player2Deposited = true
  unfunded : m.state = .pending → ¬(m.player1Deposited = true ∧ m.player2Deposited = true)
  winner : m.winner ≠ .none ↔ m.state = .pendingResult ∨ m.state = .completed
  vested : m.vestedAt.isSome = true → m.state = .pendingResult ∨ m.state = .completed
  waiting : m.state = .pendingResult → pw.isSome = true ∧ m.vestedAt.isSome = true
  waited : pw.isSome = true → m.state = .pendingResult ∨ m.state = .completed
  claimed : ∀ side, m.claimed side = true → m.state = .completed ∧ m.vestedAt.isSome = true ∧
    (m.winner = side.winner ∨ m.winner = .draw)

/-- Nothing of a result is recorded. -/
structure Unresolved (m : Match) (pw : Option Winner) : Prop where
  winner : m.winner = .none
  vestedAt : m.vestedAt = none
  claimed : ∀ side, m.claimed side = false
  pending : pw = none

theorem Stage.unresolved (h : Stage m pw)
    (hs : ¬(m.state = .pendingResult ∨ m.state = .completed)) : Unresolved m pw where
  winner := not_not.mp fun hne => hs (h.winner.mp hne)
  vestedAt := by simpa using mt h.vested hs
  claimed side := by simpa using fun hc => hs (.inr (h.claimed side hc).1)
  pending := by simpa using mt h.waited hs

theorem Unresolved.stage (h : Unresolved m pw)
    (hs : ¬(m.state = .pendingResult ∨ m.state = .completed))
    (hf : m.state ≠ .cancelled →
      (m.state ≠ .pending ↔ m.player1Deposited = true ∧ m.player2Deposited = true)) :
    Stage m pw where
  funded hp hc := (hf hc).mp hp
  unfunded hp hboth := (hf (by simp [hp])).mpr hboth hp
  winner := by simp [h.winner, hs]
  vested := by simp [h.vestedAt]
  waiting hw := absurd (.inl hw) hs
  waited := by simp [h.pending]
  claimed side hc := by simp [h.claimed side] at hc

/-- A match in play or waiting for deposits is unresolved. -/
theorem Stage.unresolved_of_state {s : MatchState} (h : Stage m pw) (hs : m.state = s)
    (hne : s ≠ .pendingResult ∧ s ≠ .completed) : Unresolved m pw :=
  h.unresolved (by simp [hs, hne])

/-- A match that is over : its winner is recorded, and nothing has been claimed. -/
theorem Unresolved.completed {winner : Winner} (h : Unresolved m pw)
    (hd : m.player1Deposited = true ∧ m.player2Deposited = true) (hw : winner ≠ .none)
    (hstate : m'.state = .completed) (hwinner : m'.winner = winner)
    (hclaimed : ∀ side, m'.claimed side = m.claimed side)
    (hdeposited : ∀ side, m'.deposited side = m.deposited side) : Stage m' pw where
  funded _ _ := ⟨(hdeposited .player1).trans hd.1, (hdeposited .player2).trans hd.2⟩
  unfunded hp := by simp [hstate] at hp
  winner := by simp [hstate, hwinner, hw]
  vested _ := .inr hstate
  waiting hp := by simp [hstate] at hp
  waited _ := .inr hstate
  claimed side hc := by simp [hclaimed, h.claimed side] at hc

/-- A payout of a waiting result completes the match. -/
theorem Stage.paid {now : ℕ} (h : Stage m pw) (hs : m.state = .pendingResult) :
    Stage ((m.withState .completed).completedAt now) pw where
  funded _ _ := h.funded (by simp [hs]) (by simp [hs])
  unfunded hp := MatchState.noConfusion hp
  winner := by simpa using h.winner.mpr (.inl hs)
  vested _ := .inr rfl
  waiting hp := MatchState.noConfusion hp
  waited _ := .inr rfl
  claimed side hc := by
    have := (h.claimed side hc).1
    simp [hs] at this

/-- A claim of a side that the winner entitles. -/
theorem Stage.setClaimed {side : Side} (h : Stage m pw) (hs : m.state = .completed)
    (hv : m.vestedAt.isSome = true) (hw : m.winner = side.winner ∨ m.winner = .draw) :
    Stage (m.setClaimed side) pw := by
  cases side
  · refine ⟨h.1, h.2, h.3, h.4, h.5, h.6, fun side hc => ?_⟩
    cases side
    · exact ⟨hs, hv, hw⟩
    · exact h.claimed .player2 hc
  · refine ⟨h.1, h.2, h.3, h.4, h.5, h.6, fun side hc => ?_⟩
    cases side
    · exact h.claimed .player1 hc
    · exact ⟨hs, hv, hw⟩

/-- No step leaves the stages. -/
theorem MatchStep.stage (h : MatchStep env config period i m pw a ts deltas m' pw')
    (hm : Stage m pw) : Stage m' pw' := by
  have hplay : m.state = .active ∨ m.state = .paused →
      Unresolved m pw ∧ m.player1Deposited = true ∧ m.player2Deposited = true := by
    rintro (hs | hs) <;>
      exact ⟨hm.unresolved_of_state hs (by decide), hm.funded (by simp [hs]) (by simp [hs])⟩
  cases h with
  | strayDeposit | strayRefund | bond => exact hm
  | heartbeat => exact ⟨hm.1, hm.2, hm.3, hm.4, hm.5, hm.6, hm.7⟩
  | rollbackVote side => cases side <;> exact ⟨hm.1, hm.2, hm.3, hm.4, hm.5, hm.6, hm.7⟩
  | deposit side hs =>
    have hu := hm.unresolved_of_state hs (by decide)
    cases side <;> exact Unresolved.stage ⟨hu.1, hu.2, hu.3, hu.4⟩
      (by simp [Match.withDeposit, Match.setDeposited, hs])
      (by simp_all [Match.withDeposit, Match.setDeposited, Match.deposited, Side.other])
  | activate side hs hside hother =>
    have hu := hm.unresolved_of_state hs (by decide)
    cases side <;> exact Unresolved.stage ⟨hu.1, hu.2, hu.3, hu.4⟩ (by simp [Match.activated])
      (by simpa [Match.activated, Match.withDeposit, Match.setDeposited, Match.deposited,
        Side.other] using hother)
  | cancel _ hs | recover hs =>
    have hu := hm.unresolved_of_state hs (by decide)
    exact Unresolved.stage ⟨hu.1, hu.2, hu.3, hu.4⟩ (by simp) (by simp)
  | rollback side hs =>
    have hu := hm.unresolved_of_state hs (by decide)
    cases side <;> exact Unresolved.stage ⟨hu.1, hu.2, hu.3, hu.4⟩ (by simp) (by simp)
  | pause hs =>
    obtain ⟨hu, hd⟩ := hplay (.inl hs)
    exact Unresolved.stage ⟨hu.1, hu.2, hu.3, hu.4⟩ (by simp) (by simpa using hd)
  | resume hs =>
    obtain ⟨hu, hd⟩ := hplay (.inr hs)
    exact Unresolved.stage ⟨hu.1, hu.2, hu.3, hu.4⟩ (by simp) (by simpa using hd)
  | settleNow winner hw hs _ | settleHalf winner hw hs _ | stall winner hw hs _ =>
    obtain ⟨hu, hd⟩ := hplay hs
    exact hu.completed hd hw rfl rfl (fun side => by cases side <;> rfl)
      (fun side => by cases side <;> rfl)
  | settleLater winner hw hs =>
    obtain ⟨hu, hd⟩ := hplay hs
    exact
      { funded := fun _ _ => hd
        unfunded := fun hp => MatchState.noConfusion hp
        winner := by simp [Match.resulted, hw]
        vested := fun _ => .inl rfl
        waiting := fun _ => ⟨rfl, rfl⟩
        waited := fun _ => .inl rfl
        claimed := fun side hc => by
          have hnot := hu.claimed side
          cases side <;> exact absurd (hnot.symm.trans hc) Bool.false_ne_true }
  | finalize hs | resolve _ _ hs => exact hm.paid hs
  | claim side hs hv hc hw => exact hm.setClaimed hs hv hw

/-! ## Sound books -/

/-- What the terms of every match satisfy. -/
structure Terms.Valid (t : Terms) : Prop where
  stake_pos : 1 ≤ t.stakeAmount
  stake_le : t.stakeAmount ≤ i128Max
  players : t.player1 ≠ t.player2
  player1_ne : t.player1 ≠ .self
  player2_ne : t.player2 ≠ .self
  referrer : ∀ r ∈ t.referrer, r ≠ t.player1 ∧ r ≠ t.player2 ∧ r ≠ .self
  tokens : t.tokenB.isSome = t.conversionRate.isSome
  rate_pos : ∀ rate ∈ t.conversionRate, 0 < rate

/-- The rollback vote of one side. -/
def Match.rollbackVote (m : Match) : Side → Bool
  | .player1 => m.rollbackVotePlayer1
  | .player2 => m.rollbackVotePlayer2

/-- What holds of every stored match : a pot that both players have funded fits, and is given
back only on both votes. -/
structure MatchSound (matchId : ℕ) (m : Match) (pw : Option Winner) : Prop where
  id_eq : m.id = matchId
  terms : m.terms.Valid
  stage : Stage m pw
  fits : m.player1Deposited = true → m.player2Deposited = true → 2 * m.stakeAmount ≤ i128Max
  votes : m.state = .cancelled → m.player1Deposited = true → m.player2Deposited = true →
    ∀ side, m.rollbackVote side = true

/-- What holds of every book : ids from the count on are free. -/
structure Book.Sound (b : Book) : Prop where
  free : ∀ matchId, b.matchCount ≤ matchId → b.matchMap matchId = none
  missing : ∀ matchId, b.matchMap matchId = none → b.pendingWinner matchId = none
  stored : ∀ matchId m, b.matchMap matchId = some m →
    MatchSound matchId m (b.pendingWinner matchId)

section

variable (h : MatchStep env config period i m pw a ts deltas m' pw')

include h

theorem MatchStep.fits
    (hm : m.player1Deposited = true → m.player2Deposited = true → 2 * m.stakeAmount ≤ i128Max) :
    m'.player1Deposited = true → m'.player2Deposited = true → 2 * m'.stakeAmount ≤ i128Max := by
  cases h with
  | deposit side =>
    cases side <;> simp_all [Match.withDeposit, Match.setDeposited, Match.deposited, Side.other]
  | activate side hs hside hother hfit => cases side <;> exact fun _ _ => hfit
  | rollbackVote side | rollback side | claim side => cases side <;> exact hm
  | _ => exact hm

theorem MatchStep.votes
    (hm : MatchSound i m pw) (hc : m'.state = .cancelled) (h1 : m'.player1Deposited = true)
    (h2 : m'.player2Deposited = true) (side : Side) : m'.rollbackVote side = true := by
  cases h with
  | rollback side' _ _ hvotes =>
    cases side
    · exact hvotes.1
    · exact hvotes.2
  | cancel _ hs | recover hs => exact absurd ⟨h1, h2⟩ (hm.stage.unfunded hs)
  | strayDeposit | strayRefund | bond => exact hm.votes hc h1 h2 side
  | deposit side' hs => cases side' <;> simp [Match.withDeposit, Match.setDeposited, hs] at hc
  | rollbackVote side' hs => cases side' <;> simp [Match.voteRollback, hs] at hc
  | claim side' hs => cases side' <;> simp [Match.setClaimed, hs] at hc
  | heartbeat hs => simp [Match.withHeartbeat, hs] at hc
  | _ => exact MatchState.noConfusion hc

theorem MatchStep.sound (hm : MatchSound i m pw) : MatchSound i m' pw' where
  id_eq := (congrArg Terms.id h.terms).trans hm.id_eq
  terms := h.terms ▸ hm.terms
  stage := h.stage hm.stage
  fits := h.fits hm.fits
  votes := h.votes hm

end

theorem newMatch_sound {p : MatchParams} {rateLedger : Option ℕ} (hp : p.Valid env) :
    MatchSound i (p.newMatch env i rateLedger) none where
  id_eq := rfl
  terms := ⟨hp.stake_pos, hp.stake_le, hp.players, fun h => env.self_notMem (h ▸ hp.player1_auth),
    hp.player2_ne, hp.referrer, hp.tokens, hp.rate_pos⟩
  stage := Unresolved.stage ⟨rfl, rfl, fun side => by cases side <;> rfl, rfl⟩
    (by simp [MatchParams.newMatch]) (by simp [MatchParams.newMatch])
  fits h := Bool.noConfusion h
  votes h := MatchState.noConfusion h

theorem eq_none_of_update {ι α : Type} [DecidableEq ι] {f : ι → Option α} {x : α} {id id' : ι}
    (h : update f id (some x) id' = none) : f id' = none := by
  rw [update_apply] at h
  split at h
  · exact absurd h (by simp)
  · exact h

theorem eq_some_of_update {ι α : Type} [DecidableEq ι] {f : ι → Option α} {x y : α} {id id' : ι}
    (h : update f id (some x) id' = some y) :
    id' = id ∧ y = x ∨ id' ≠ id ∧ f id' = some y := by
  rw [update_apply] at h
  split at h
  · exact .inl ⟨‹_›, (Option.some.inj h).symm⟩
  · exact .inr ⟨‹_›, h⟩

theorem Book.Sound.change (hb : b.Sound) (h : Change env config period a b b') :
    b'.Sound := by
  cases h with
  | opening p rateLedger hp hfree =>
    refine ⟨fun id hid => ?_, fun id hid => ?_, fun id m hm => ?_⟩
    · simp only [opened_matchCount] at hid
      rw [opened_matchMap, update_of_ne (by omega)]
      exact hb.free id (by omega)
    · rw [opened_matchMap] at hid
      rw [opened_pendingWinner]
      exact hb.missing id (eq_none_of_update hid)
    · rw [opened_matchMap] at hm
      rw [opened_pendingWinner]
      rcases eq_some_of_update hm with ⟨rfl, rfl⟩ | ⟨-, hm⟩
      · rw [hb.missing _ hfree]
        exact newMatch_sound hp
      · exact hb.stored id m hm
  | @moving _ i m m' pw a ts deltas l hm hstep hl =>
    have hsome : ∀ id, b.matchMap id = none → id ≠ i := by
      rintro id hid rfl
      cases hid.symm.trans hm
    refine ⟨fun id hid => ?_, fun id hid => ?_, fun id m1 hm1 => ?_⟩
    · have hfree := hb.free id hid
      rwa [moved_matchMap, update_of_ne (hsome id hfree)]
    · rw [moved_matchMap] at hid
      have hnone := eq_none_of_update hid
      rw [moved_pendingWinner, update_of_ne (hsome id hnone)]
      exact hb.missing id hnone
    · rw [moved_matchMap] at hm1
      rw [moved_pendingWinner]
      rcases eq_some_of_update hm1 with ⟨rfl, rfl⟩ | ⟨hne, hm1⟩
      · rw [update_self]
        exact hstep.sound (hb.stored _ m hm)
      · rw [update_of_ne hne]
        exact hb.stored id m1 hm1

theorem Book.Sound.drift (h : Drift b b') (hb : b.Sound) : b'.Sound := by
  obtain ⟨⟨l, rfl⟩, -⟩ := h
  exact ⟨hb.1, hb.2, hb.3⟩

theorem Book.Sound.empty (l : Ledger Address) : (Book.empty l).Sound :=
  ⟨fun _ _ => rfl, fun _ _ => rfl, fun _ _ h => absurd h (by simp [Book.empty])⟩

/-- The book of every reachable state is sound. -/
theorem Reachable.sound (h : Reachable w) : w.book.Sound :=
  h.book_inv .empty .drift .change

/-- The count bounds the ids of the stored matches. -/
theorem Reachable.lt_matchCount (h : Reachable w) (hm : w.matchMap i = some m) :
    i < w.matchCount := by
  by_contra hge
  have hfree : w.matchMap i = none := h.sound.free i (not_lt.mp hge)
  cases hfree.symm.trans hm

/-! ## One match along a run -/

section Follow

variable {w : World} {b b' : Book} {R : Match → Match → Prop}

/-- A change leaves a stored match or is a step of it. -/
theorem Change.follow (h : Change env config period a b b') (hm : b.matchMap i = some m) :
    ∃ m', b'.matchMap i = some m' ∧ (m' = m ∨ ∃ ts deltas pw,
      MatchStep env config period i m (b.pendingWinner i) a ts deltas m' pw) := by
  cases h with
  | opening p rateLedger hp hfree =>
    have hne : i ≠ b.matchCount := by
      rintro rfl
      cases hm.symm.trans hfree
    exact ⟨m, by rwa [opened_matchMap, update_of_ne hne], .inl rfl⟩
  | @moving _ id m1 m' pw a ts deltas l hm1 hstep hl =>
    by_cases hid : i = id
    · subst hid
      obtain rfl : m = m1 := mem_unique hm hm1
      exact ⟨m', by simp, .inr ⟨ts, deltas, pw, hstep⟩⟩
    · exact ⟨m, by rwa [moved_matchMap, update_of_ne hid], .inl rfl⟩

/-- What every step of a match does to it, an invocation does. -/
theorem invoke_follow {call : Call} (hrefl : ∀ m, R m m)
    (htrans : ∀ {m1 m2 m3}, R m1 m2 → R m2 m3 → R m1 m3)
    (hstep : ∀ {m pw ts deltas m' pw'}, MatchSound i m pw →
      MatchStep env w.control.config w.control.getDisputePeriod i m pw call.action ts
        deltas m' pw' → R m m')
    (hw : Reachable w) (hm : w.matchMap i = some m) :
    ∃ m', (step w (.invoke env call)).matchMap i = some m' ∧ R m m' := by
  refine (invoke_inv (I := fun b => b.Sound ∧ ∃ m', b.matchMap i = some m' ∧ R m m')
    hw.oracle ⟨hw.sound, m, hm, hrefl m⟩ ?_).2
  rintro b b' - - ⟨hb, m1, hm1, h1⟩ hchange
  refine ⟨hb.change hchange, ?_⟩
  obtain ⟨m', hm', rfl | ⟨ts, deltas, pw, hs⟩⟩ := hchange.follow hm1
  · exact ⟨m', hm', h1⟩
  · exact ⟨m', hm', htrans h1 (hstep (hb.stored i m1 hm1) hs)⟩

theorem step_matchMap_of_not_invoke {e : Event} (he : ∀ env call, e ≠ .invoke env call) :
    (step w e).matchMap = w.matchMap := by
  obtain ⟨⟨l, hl⟩, -⟩ := step_drift (w := w) he
  exact congrArg Book.matchMap hl

/-- What every step of a match does to it, a run does. -/
theorem run_follow (hrefl : ∀ m, R m m)
    (htrans : ∀ {m1 m2 m3}, R m1 m2 → R m2 m3 → R m1 m3)
    (hstep : ∀ {env config period m pw a ts deltas m' pw'}, MatchSound i m pw →
      MatchStep env config period i m pw a ts deltas m' pw' → R m m')
    (hw : Reachable w) (hm : w.matchMap i = some m) (es : List Event) :
    ∃ m', (run step w es).matchMap i = some m' ∧ R m m' := by
  refine (run_inv (I := fun w => Reachable w ∧ ∃ m', w.matchMap i = some m' ∧ R m m') ?_
    ⟨hw, m, hm, hrefl m⟩ (along_true w es)).2
  rintro w e ⟨hw, m1, hm1, h1⟩ -
  refine ⟨hw.step e, ?_⟩
  cases e with
  | invoke =>
    obtain ⟨m', hm', h'⟩ := invoke_follow hrefl htrans hstep hw hm1
    exact ⟨m', hm', htrans h1 h'⟩
  | _ =>
    rw [step_matchMap_of_not_invoke (by simp)]
    exact ⟨m1, hm1, h1⟩

end Follow

/-! ## Transitions -/

/-- The changes of state that an action makes. -/
def Action.moves : Action → MatchState → MatchState → Bool
  | .deposit _, .pending, .active => true
  | .settle _, .active, .completed | .settle _, .paused, .completed => true
  | .settle _, .active, .pendingResult | .settle _, .paused, .pendingResult => true
  | .cancel _, .pending, .cancelled | .expireMany, .pending, .cancelled => true
  | .recover _, .pending, .cancelled => true
  | .pause, .active, .paused => true
  | .resume, .paused, .active => true
  | .rollback _ _, .active, .cancelled => true
  | .stall, .active, .completed | .stall, .paused, .completed => true
  | .finalize, .pendingResult, .completed | .resolve, .pendingResult, .completed => true
  | _, _, _ => false

theorem MatchStep.moves (h : MatchStep env config period i m pw a ts deltas m' pw') :
    m'.state = m.state ∨ a.moves m.state m'.state = true := by
  cases h with
  | deposit side | rollbackVote side | claim side => cases side <;> exact .inl rfl
  | strayDeposit | strayRefund | heartbeat | bond => exact .inl rfl
  | activate _ hs => exact .inr (by rw [hs]; rfl)
  | cancel ha hs => exact .inr (by rcases ha with rfl | rfl <;> rw [hs] <;> rfl)
  | recover hs | pause hs | resume hs | finalize hs | resolve _ _ hs =>
    exact .inr (by rw [hs]; rfl)
  | rollback _ hs => exact .inr (by rw [hs]; rfl)
  | settleNow _ _ hs | settleHalf _ _ hs | settleLater _ _ hs | stall _ _ hs =>
    exact .inr (by rcases hs with hs | hs <;> rw [hs] <;> rfl)

/-- How a match can look later : its terms, the deposits and a recorded winner stay, and
once it is over only the claim flags change. -/
structure Evolves (m m' : Match) : Prop where
  terms : m'.terms = m.terms
  deposited : ∀ side, m.deposited side = true → m'.deposited side = true
  winner : m.winner ≠ .none → m'.winner = m.winner
  terminal : m.state.terminal = true →
    m' = { m with player1Claimed := m'.player1Claimed, player2Claimed := m'.player2Claimed }

theorem Evolves.refl (m : Match) : Evolves m m := ⟨rfl, fun _ => id, fun _ => rfl, fun _ => rfl⟩

theorem Evolves.trans {m1 m2 m3 : Match} (h : Evolves m1 m2) (h' : Evolves m2 m3) :
    Evolves m1 m3 where
  terms := h'.terms.trans h.terms
  deposited side := h'.deposited side ∘ h.deposited side
  winner hw := (h'.winner (by rw [h.winner hw]; exact hw)).trans (h.winner hw)
  terminal ht := by
    have h2 := h.terminal ht
    have ht2 : m2.state.terminal = true := by rw [h2]; exact ht
    have h3 := h'.terminal ht2
    rw [h2] at h3
    exact h3

section

variable (h : MatchStep env config period i m pw a ts deltas m' pw')

include h

theorem MatchStep.keeps_deposit
    (side : Side) (hd : m.deposited side = true) : m'.deposited side = true := by
  cases h with
  | deposit side' | activate side' =>
    cases side <;> cases side' <;> first | rfl | exact hd
  | rollbackVote side' | rollback side' | claim side' => cases side <;> cases side' <;> exact hd
  | _ => cases side <;> exact hd

theorem MatchStep.winner (hm : Stage m pw) (hw : m.winner ≠ .none) : m'.winner = m.winner := by
  have hplay : m.state = .active ∨ m.state = .paused → False := by
    rcases hm.winner.mp hw with hs | hs <;> simp [hs]
  cases h with
  | settleNow _ _ hs | settleHalf _ _ hs | settleLater _ _ hs | stall _ _ hs =>
    exact (hplay hs).elim
  | deposit side | activate side | rollbackVote side | rollback side | claim side =>
    cases side <;> rfl
  | _ => rfl

/-- Only a claim is a step of a match that is over. -/
theorem MatchStep.terminal (ht : m.state.terminal = true) :
    m' = { m with player1Claimed := m'.player1Claimed, player2Claimed := m'.player2Claimed } := by
  cases h with
  | claim side => cases side <;> rfl
  | settleNow _ _ hs | settleHalf _ _ hs | settleLater _ _ hs | stall _ _ hs =>
    rcases hs with hs | hs <;> simp [hs, MatchState.terminal] at ht
  | deposit _ hs | activate _ hs | strayDeposit _ hs | cancel _ hs | strayRefund hs | recover hs
  | pause hs | resume hs | heartbeat hs | rollbackVote _ hs | rollback _ hs | finalize hs
  | bond _ _ hs | resolve _ _ hs =>
    simp [hs, MatchState.terminal] at ht

theorem MatchStep.evolves (hm : MatchSound i m pw) : Evolves m m' :=
  ⟨h.terms, h.keeps_deposit, h.winner hm.stage, h.terminal⟩

end

/-- Every later state of a run stores the match as it may have evolved. -/
theorem run_evolves (hw : Reachable w) (hm : w.matchMap i = some m)
    (es : List Event) :
    ∃ m', (run step w es).matchMap i = some m' ∧ Evolves m m' :=
  run_follow .refl .trans (fun hm h => h.evolves hm) hw hm es

/-! ## Rollback votes -/

/-- A side's rollback vote is set only by that player's authorised call. -/
theorem MatchStep.voted (h : MatchStep env config period i m pw a ts deltas m' pw')
    {side : Side} (hv : m'.rollbackVote side = true) :
    m.rollbackVote side = true ∨
      (a = .rollback i (m.player side) ∧ m.player side ∈ env.auths) := by
  cases h with
  | rollbackVote side' hs hauth | rollback side' hs hauth =>
    cases side <;> cases side' <;> first | exact .inl hv | exact .inr ⟨rfl, hauth⟩
  | deposit side' | activate side' | claim side' => cases side' <;> cases side <;> exact .inl hv
  | _ => cases side <;> exact .inl hv

/-- A match that a change stores under a free id is new. -/
theorem Change.opened (h : Change env config period a b b')
    (hnone : b.matchMap i = none) (hm : b'.matchMap i = some m) :
    a = .create ∧ ∃ (p : MatchParams) (rateLedger : Option ℕ), p.Valid env ∧
      m = p.newMatch env i rateLedger := by
  cases h with
  | opening p rateLedger hp =>
    rcases eq_some_of_update hm with ⟨rfl, rfl⟩ | ⟨-, hm⟩
    · exact ⟨rfl, p, rateLedger, hp, rfl⟩
    · cases hnone.symm.trans hm
  | moving hm1 =>
    rcases eq_some_of_update hm with ⟨rfl, -⟩ | ⟨-, hm⟩
    · cases hnone.symm.trans hm1
    · cases hnone.symm.trans hm

/-- A match that an invocation stores under a free id is new. -/
theorem invoke_opened {call : Call} (hw : Reachable w)
    (hnone : w.matchMap i = none)
    (hm : (step w (.invoke env call)).matchMap i = some m) :
    ∃ (p : MatchParams) (rateLedger : Option ℕ), p.Valid env ∧
      m = p.newMatch env i rateLedger := by
  refine ((invoke_inv
    (I := fun b => ∀ m, b.matchMap i = some m → call.action = .create ∧
      ∃ (p : MatchParams) (rateLedger : Option ℕ), p.Valid env ∧
        m = p.newMatch env i rateLedger)
    hw.oracle (fun m hm => nomatch hnone.symm.trans hm) ?_) m hm).2
  intro b b' _ _ hb hchange m' hm'
  cases hm1 : b.matchMap i with
  | none => exact hchange.opened hm1 hm'
  | some m1 =>
    obtain ⟨hcreate, hnew⟩ := hb m1 hm1
    obtain ⟨m2, hm2, rfl | ⟨ts, deltas, pw, hstep⟩⟩ := hchange.follow hm1
    · obtain rfl : m' = m2 := mem_unique hm' hm2
      exact ⟨hcreate, hnew⟩
    · rw [hcreate] at hstep
      cases hstep with
      | cancel ha => simp at ha

/-- In the run, the player on that side called for a rollback of the match, with their
authorisation, and this set their vote. -/
def CastVote (w0 : World) (es : List Event) (matchId : ℕ) (side : Side) : Prop :=
  ∃ before after env reason m m',
    es = before ++
      .invoke env (.disputeAndRollbackMatch matchId (m.player side) reason) :: after ∧
    m.player side ∈ env.auths ∧
    (run step w0 before).matchMap matchId = some m ∧ m.rollbackVote side = false ∧
    (run step w0 (before ++
      [.invoke env (.disputeAndRollbackMatch matchId (m.player side) reason)])).matchMap matchId
        = some m' ∧ m'.rollbackVote side = true

theorem CastVote.append {w0 : World} {es : List Event} {side : Side}
    (h : CastVote w0 es i side) (fs : List Event) : CastVote w0 (es ++ fs) i side := by
  obtain ⟨before, after, env, reason, m, m', rfl, h⟩ := h
  exact ⟨before, after ++ fs, env, reason, m, m', by simp, h⟩

theorem Match.player_of_terms (h : m'.terms = m.terms) (side : Side) :
    m'.player side = m.player side := by
  cases side
  · exact congrArg Terms.player1 h
  · exact congrArg Terms.player2 h

theorem Match.sideOf_player (h : m.player1 ≠ m.player2) (side : Side) :
    m.sideOf (m.player side) = side := by
  cases side
  · simp [Match.sideOf, Match.player]
  · simp [Match.sideOf, Match.player, Ne.symm h]

/-- A vote that stands after an invocation stood before it, or the invocation is the call
that cast it. -/
theorem invoke_voted {call : Call} (hw : Reachable w) {side : Side}
    (hm : (step w (.invoke env call)).matchMap i = some m)
    (hv : m.rollbackVote side = true) :
    ∃ m1, w.matchMap i = some m1 ∧ (m1.rollbackVote side = true ∨
      (∃ reason, call = .disputeAndRollbackMatch i (m1.player side) reason) ∧
        m1.player side ∈ env.auths) := by
  let R (m m' : Match) : Prop := m'.terms = m.terms ∧ (m'.rollbackVote side = true →
    m.rollbackVote side = true ∨
      (call.action = .rollback i (m.player side) ∧ m.player side ∈ env.auths))
  have htrans : ∀ {m1 m2 m3}, R m1 m2 → R m2 m3 → R m1 m3 := by
    rintro m1 m2 m3 ⟨h1, hv1⟩ ⟨h2, hv2⟩
    refine ⟨h2.trans h1, fun hv => (hv2 hv).elim hv1 fun h => .inr ?_⟩
    rwa [Match.player_of_terms h1] at h
  cases hm1 : w.matchMap i with
  | none =>
    obtain ⟨p, rateLedger, -, rfl⟩ := invoke_opened hw hm1 hm
    cases side <;> exact Bool.noConfusion hv
  | some m1 =>
    obtain ⟨m2, hm2, -, hR⟩ := invoke_follow (R := R) (fun _ => ⟨rfl, .inl⟩) htrans
      (fun _ h => ⟨h.terms, h.voted⟩) hw hm1
    obtain rfl : m = m2 := mem_unique hm hm2
    refine ⟨m1, rfl, (hR hv).imp_right fun ⟨hcall, hauth⟩ => ⟨?_, hauth⟩⟩
    cases call with
    | disputeAndRollbackMatch id disputer reason =>
      obtain ⟨rfl, rfl⟩ := Action.rollback.inj hcall
      exact ⟨reason, rfl⟩
    | _ => exact Action.noConfusion hcall

/-- A vote that stands was cast. -/
theorem castVote_of_rollbackVote {w0 : World} {es : List Event} (h0 : Initial w0) {side : Side}
    (hm : (run step w0 es).matchMap i = some m) (hv : m.rollbackVote side = true) :
    CastVote w0 es i side := by
  refine (run_history (I := fun es w => w = run step w0 es ∧
    ∀ m, w.matchMap i = some m → m.rollbackVote side = true →
      CastVote w0 es i side) ?_ ⟨rfl, ?_⟩ (along_true w0 es)).2 m hm hv
  · rintro es w e ⟨rfl, ih⟩ -
    have hw : Reachable (run step w0 es) := ⟨w0, es, h0, rfl⟩
    have hnext : step (run step w0 es) e = run step w0 (es ++ [e]) := by rw [run_append]; rfl
    refine ⟨hnext, fun m hm hv => ?_⟩
    cases e with
    | invoke env =>
      obtain ⟨m1, hm1, hcast⟩ := invoke_voted hw hm hv
      cases hv1 : m1.rollbackVote side with
      | true => exact (ih m1 hm1 hv1).append _
      | false =>
        obtain ⟨⟨reason, rfl⟩, hauth⟩ := hcast.resolve_left (by simp [hv1])
        exact ⟨es, [], env, reason, m1, m, rfl, hauth, hm1, hv1, hnext ▸ hm, hv⟩
    | _ =>
      rw [step_matchMap_of_not_invoke (by simp)] at hm
      exact (ih m hm hv).append _
  · intro m hm
    obtain ⟨l, hl⟩ := h0.book.2
    have hnone : w0.matchMap = fun _ => none := congrArg Book.matchMap hl
    simp [hnone] at hm

/-! ## The lifecycle -/

/-- In every run and for every stored match : a match in play, waiting or completed is
funded by both players, and it has a winner exactly when it is waiting or completed ; it
keeps its terms and its winner, and once over everything but the claim flags, for the
rest of the run ; and a match in play is cancelled only after both players have cast
their votes. -/
theorem run_lifecycle {w0 : World} {es : List Event} (h0 : Initial w0)
    (hm : (run step w0 es).matchMap i = some m) :
    (m.state = .active ∨ m.state = .paused ∨ m.state = .pendingResult ∨ m.state = .completed →
      m.player1Deposited = true ∧ m.player2Deposited = true) ∧
    (m.winner ≠ .none ↔ m.state = .pendingResult ∨ m.state = .completed) ∧
    ∀ fs : List Event, ∃ m', (run step w0 (es ++ fs)).matchMap i = some m' ∧
      Evolves m m' ∧
      (m.state = .active → m'.state = .cancelled →
        ∀ side, CastVote w0 (es ++ fs) i side) := by
  have hw : Reachable (run step w0 es) := ⟨w0, es, h0, rfl⟩
  have hstage := (hw.sound.stored i m hm).stage
  refine ⟨fun hs => hstage.funded ?_ ?_, hstage.winner, fun fs => ?_⟩
  · rintro hp
    simp [hp] at hs
  · rintro hc
    simp [hc] at hs
  · obtain ⟨m', hm', hev⟩ := run_evolves hw hm fs
    rw [← run_append] at hm'
    refine ⟨m', hm', hev, fun ha hc side => castVote_of_rollbackVote h0 hm' ?_⟩
    have hd := hstage.funded (by simp [ha]) (by simp [ha])
    have hw' : Reachable (run step w0 (es ++ fs)) := ⟨w0, es ++ fs, h0, rfl⟩
    exact (hw'.sound.stored i m' hm').votes hc (hev.deposited .player1 hd.1)
      (hev.deposited .player2 hd.2) side

theorem run_lifecycle_fundedMatch :
    ∃ m, (run step .start fundedMatch).matchMap 0 = some m ∧ m.state = .active ∧
      (m.player1Deposited = true ∧ m.player2Deposited = true) ∧
      ∀ fs : List Event, ∃ m', (run step .start (fundedMatch ++ fs)).matchMap 0 = some m' ∧
        Evolves m m' ∧
        (m'.state = .cancelled → ∀ side, CastVote .start (fundedMatch ++ fs) 0 side) := by
  have hstate : ((run step .start fundedMatch).matchMap 0).map Match.state = some .active := by
    decide +kernel
  obtain ⟨m, hm, hs⟩ := map_eq_some_iff.mp hstate
  obtain ⟨hd, -, hlater⟩ := run_lifecycle World.start_initial hm
  refine ⟨m, hm, hs, hd (.inl hs), fun fs => ?_⟩
  obtain ⟨m', hm', hev, hcast⟩ := hlater fs
  exact ⟨m', hm', hev, hcast hs⟩

end Checkmate.Escrow

import Checkmate.Host.Count
import Checkmate.Escrow.Register

/-!
# Active matches of a player

Every player has a set of active matches, kept as one key per match, and a counter of it
that stops a deposit at the cap. A match enters the sets of its players with the second
deposit and leaves them with a result, a rollback or the resolution of a stalled match.
Paying out a result removes the keys once more, which changes nothing. Along every run
without a batch of deposits the keys are those of the matches that are being played, and the
counter counts them (`active_exact`).
-/

namespace Checkmate.Escrow

open Function Register

variable {env : Env} {period i n : ℕ} {a : Action} {m m' : Match} {ix ix' : Index}
  {st st' : Stats} {state : MatchState} {p player : Address}

/-- A match with both stakes in play. -/
def MatchState.playing : MatchState → Bool
  | .active | .paused => true
  | _ => false

/-! ## Keys and counters -/

/-- The counters count the keys of the matches below `n`. -/
def Index.Tallied (ix : Index) (n : ℕ) : Prop :=
  ∀ p, ix.playerActiveMatchCount p = Nat.count (fun id => ix.activeMatch (p, id) = true) n

theorem removeActiveMatchIndexed_activeMatch (k : Address × ℕ) :
    (ix.removeActiveMatchIndexed player i).activeMatch k =
      if k = (player, i) then false else ix.activeMatch k := by
  unfold Index.removeActiveMatchIndexed
  split
  · simp only [update_apply]
  · rename_i hkey
    split
    · rename_i hk
      simpa [hk] using hkey
    · rfl

theorem Index.Tallied.remove (h : ix.Tallied n) (hid : i < n) :
    (ix.removeActiveMatchIndexed player i).Tallied n := by
  intro p
  have hkeys : ∀ k, (ix.removeActiveMatchIndexed player i).activeMatch k =
      if k = (player, i) then false else ix.activeMatch k :=
    removeActiveMatchIndexed_activeMatch
  by_cases hkey : ix.activeMatch (player, i) = true
  · have hcounts : (ix.removeActiveMatchIndexed player i).playerActiveMatchCount =
        update ix.playerActiveMatchCount player (ix.playerActiveMatchCount player - 1) := by
      simp [Index.removeActiveMatchIndexed, hkey]
    rw [hcounts]
    by_cases hp : p = player
    · subst hp
      rw [update_self, h p]
      refine (count_erase hid hkey (by simp [hkeys]) fun j hj => ?_).symm
      simp [hkeys, hj]
    · rw [update_of_ne hp, h p]
      exact count_congr fun j _ => by simp [hkeys, hp]
  · have hsame : ix.removeActiveMatchIndexed player i = ix := by
      simp [Index.removeActiveMatchIndexed, hkey]
    rw [hsame]
    exact h p

theorem Index.Tallied.add (h : ix.Tallied n) (hid : i < n)
    (hnew : ix.activeMatch (player, i) = false)
    (hadd : ix.addActiveMatch player i = some ix') : ix'.Tallied n := by
  obtain ⟨-, hkeys, hcounts⟩ := addActiveMatch_eq_some hadd
  intro p
  rw [hcounts]
  by_cases hp : p = player
  · subst hp
    rw [update_self, h p]
    refine (count_insert hid (by simp [hnew]) (by simp [hkeys]) fun j hj => ?_).symm
    simp [hkeys, hj]
  · rw [update_of_ne hp, h p]
    exact count_congr fun j _ => by simp [hkeys, hp]

/-- Every counter is within the cap. -/
def Index.Capped (ix : Index) : Prop :=
  ∀ p, ix.playerActiveMatchCount p ≤ maxActiveMatchesPerPlayer

theorem Index.Capped.remove (h : ix.Capped) : (ix.removeActiveMatchIndexed player i).Capped := by
  intro p
  unfold Index.removeActiveMatchIndexed
  split
  · simp only [update_apply]
    split
    · have := h player
      omega
    · exact h p
  · exact h p

theorem Index.Capped.add (h : ix.Capped) (hadd : ix.addActiveMatch player i = some ix') :
    ix'.Capped := by
  obtain ⟨hroom, -, hcounts⟩ := addActiveMatch_eq_some hadd
  intro p
  rw [hcounts, update_apply]
  split
  · omega
  · exact h p

/-! ## Steps -/

/-- The keys of a match are those of its players, if it is being played. -/
def Index.Seats (ix : Index) (matchId : ℕ) (m : Match) : Prop :=
  ∀ p, ix.activeMatch (p, matchId) = true ↔ m.state.playing = true ∧ m.isPlayer p

/-- From `ix` to `ix'` the keys and counters follow a match from `m` to `m'`. -/
structure Reseated (n matchId : ℕ) (m m' : Match) (ix ix' : Index) : Prop where
  other : ∀ p id, id ≠ matchId → ix'.activeMatch (p, id) = ix.activeMatch (p, id)
  seats : ix.Seats matchId m → ix'.Seats matchId m'
  tallied : ix.Seats matchId m → ix.Tallied n → ix'.Tallied n
  capped : ix.Capped → ix'.Capped

/-- A step that leaves keys and counters alone. -/
theorem Reseated.keep (hkeys : ix'.activeMatch = ix.activeMatch)
    (hcounts : ix'.playerActiveMatchCount = ix.playerActiveMatchCount)
    (hterms : m'.terms = m.terms) (hplaying : m'.state.playing = m.state.playing) :
    Reseated n i m m' ix ix' where
  other p id _ := by rw [hkeys]
  seats h p := by rw [hkeys, hplaying, isPlayer_of_terms hterms, h p]
  tallied _ h p := by rw [hcounts, hkeys, h p]
  capped h p := by rw [hcounts]; exact h p

/-- Moving the match between state lists. -/
theorem Reseated.relist {m1 : Match} (h : Reseated n i m m' ix ix') :
    Reseated n i m m' ix (ix'.setMatchState m1 state) where
  other p id hne := by rw [setMatchState_activeMatch, h.other p id hne]
  seats hs p := by rw [setMatchState_activeMatch, h.seats hs p]
  tallied hs ht p := by
    rw [setMatchState_playerActiveMatchCount, setMatchState_activeMatch, h.tallied hs ht p]
  capped hc p := by
    rw [setMatchState_playerActiveMatchCount]
    exact h.capped hc p

/-- Both players leave a match that is no longer played. -/
theorem Reseated.retire (hid : i < n) (hover : m'.state.playing = false) :
    Reseated n i m m' ix (ix.retire m i state) := by
  have hkeys : ∀ p id, (ix.retire m i state).activeMatch (p, id) =
      if id = i ∧ m.isPlayer p then false else ix.activeMatch (p, id) := by
    intro p id
    rw [Index.retire, setMatchState_activeMatch, Index.removeActivePlayers,
      removeActiveMatchIndexed_activeMatch, removeActiveMatchIndexed_activeMatch]
    simp only [Prod.mk.injEq, Match.isPlayer]
    by_cases h1 : p = m.player1 <;> by_cases h2 : p = m.player2 <;> by_cases h : id = i <;>
      simp [h1, h2, h]
  refine ⟨fun p id hne => by simp [hkeys, hne], fun h p => ?_, fun _ h p => ?_, fun h p => ?_⟩
  · by_cases hp : m.isPlayer p
    · simp [hkeys, hp, hover]
    · have hnot : ix.activeMatch (p, i) ≠ true := fun hk => hp ((h p).mp hk).2
      simp [hkeys, hp, hover, hnot]
  · rw [Index.retire, setMatchState_playerActiveMatchCount, setMatchState_activeMatch]
    exact (h.remove hid).remove hid p
  · rw [Index.retire, setMatchState_playerActiveMatchCount]
    exact h.remove.remove p

/-- Both players take a match that becomes active. -/
theorem Reseated.activate {m1 : Match} (hid : i < n) (hne : m.player1 ≠ m.player2)
    (hterms : m1.terms = m.terms) (hterms' : m'.terms = m.terms) (hbefore : m.state = .pending)
    (hafter : m'.state = .active) (h : ix.activate m1 i = some ix') : Reseated n i m m' ix ix' := by
  have hp1 : m1.player1 = m.player1 := congrArg Terms.player1 hterms
  have hp2 : m1.player2 = m.player2 := congrArg Terms.player2 hterms
  simp only [Index.activate, Option.bind_eq_bind, Option.bind_eq_some_iff, hp1, hp2] at h
  obtain ⟨ix1, h1, h2⟩ := h
  obtain ⟨-, hkeys1, -⟩ := addActiveMatch_eq_some h1
  obtain ⟨-, hkeys2, -⟩ := addActiveMatch_eq_some h2
  rw [setMatchState_activeMatch] at hkeys1
  have hempty : ix.Seats i m → ∀ p, ix.activeMatch (p, i) = false := by
    intro hs p
    have hiff := hs p
    rw [hbefore] at hiff
    simpa [MatchState.playing] using hiff
  refine ⟨fun p id hid' => ?_, fun hs p => ?_, fun hs ht => ?_, fun hc => ?_⟩
  · simp [hkeys2, hkeys1, hid']
  · rw [isPlayer_of_terms hterms', hafter]
    simp only [hkeys2, hkeys1, update_apply, Prod.mk.injEq, hempty hs, Match.isPlayer,
      MatchState.playing]
    by_cases h1 : p = m.player1 <;> by_cases h2 : p = m.player2 <;> simp [h1, h2]
  · have ht0 : (ix.setMatchState m1 .active).Tallied n := by
      intro p
      rw [setMatchState_playerActiveMatchCount, setMatchState_activeMatch]
      exact ht p
    have hnew : (ix.setMatchState m1 .active).activeMatch (m.player1, i) = false := by
      rw [setMatchState_activeMatch, hempty hs]
    have hnew' : ix1.activeMatch (m.player2, i) = false := by
      simp [hkeys1, hempty hs, Ne.symm hne]
    exact (ht0.add hid hnew h1).add hid hnew' h2
  · have hc0 : (ix.setMatchState m1 .active).Capped := by
      intro p
      rw [setMatchState_playerActiveMatchCount]
      exact hc p
    exact (hc0.add h1).add h2

theorem FileStep.reseated (h : FileStep env period i m ix st a m' ix' st')
    (hid : i < n) (hne : m.player1 ≠ m.player2) : Reseated n i m m' ix ix' := by
  have hterms := h.terms.1
  cases h with
  | deposit side =>
    exact .keep rfl rfl hterms (by cases side <;> rfl)
  | activate side hs _ _ hix =>
    have hdeposit : (m.withDeposit side env.timestamp).terms = m.terms := by cases side <;> rfl
    exact .activate hid hne hdeposit hterms hs rfl hix
  | settleNow | settleHalf | stall | paid | rollback => exact .retire hid rfl
  | settleLater => exact (Reseated.retire hid rfl).relist
  | close _ hs | pause hs | resume hs =>
    exact .keep setMatchState_activeMatch setMatchState_playerActiveMatchCount hterms
      (by rw [hs]; rfl)
  | heartbeat => exact .keep rfl rfl hterms rfl
  | rollbackVote side | claim side => exact .keep rfl rfl hterms (by cases side <;> rfl)

/-! ## Exactness -/

/-- The keys are those of the matches being played, and the counters count them. -/
structure Register.Seated (r : Register) : Prop where
  keys : ∀ p id, r.index.activeMatch (p, id) = true ↔
    ∃ m, r.matchMap id = some m ∧ m.state.playing = true ∧ m.isPlayer p
  tallied : r.index.Tallied r.matchCount
  capped : r.index.Capped

theorem Register.Seated.empty : Register.empty.Seated where
  keys _ _ := by simp [Register.empty]
  tallied _ := by simp [Register.empty]
  capped _ := by simp [Register.empty]

theorem Register.Seated.moved {r : Register} (hr : r.Seated)
    (hm : r.matchMap i = some m) (h : Reseated r.matchCount i m m' r.index ix) :
    (r.moved i m' ix st).Seated := by
  have hseats : r.index.Seats i m := fun p => by simp [hr.keys, hm]
  refine ⟨fun p id => ?_, h.tallied hseats hr.tallied, h.capped hr.capped⟩
  by_cases hid : id = i
  · subst hid
    simp [h.seats hseats p]
  · simp [hid, h.other p id hid, hr.keys]

theorem Register.Seated.opened {r : Register} (hr : r.Seated)
    (hfree : r.matchMap r.matchCount = none) (hstate : m.state = .pending) :
    (r.opened m).Seated := by
  have hnone : ∀ p, r.index.activeMatch (p, r.matchCount) = false := by
    intro p
    have hiff := hr.keys p r.matchCount
    simpa [hfree] using hiff
  refine ⟨fun p id => ?_, fun p => ?_, fun p => ?_⟩
  · rw [opened_index, addMatch_activeMatch, opened_matchMap]
    by_cases hid : id = r.matchCount
    · subst hid
      simp [hnone, hstate, MatchState.playing]
    · simp [hid, hr.keys]
  · rw [opened_index, addMatch_activeMatch, addMatch_playerActiveMatchCount,
      opened_matchCount, Nat.count_succ, hr.tallied p]
    simp [hnone]
  · rw [opened_index, addMatch_playerActiveMatchCount]
    exact hr.capped p

theorem Register.Seated.change {r r' : Register} (hr : r.Seated) (hsound : r.Sound)
    (h : FileChange env period a r r') : r'.Seated := by
  cases h with
  | opening p rateLedger hp hfree => exact hr.opened hfree rfl
  | moving hm hstep =>
    exact hr.moved hm (hstep.reseated (hsound.lt_matchCount hm) (hsound.players _ _ hm))

theorem MatchState.playing_iff : state.playing = true ↔ state = .active ∨ state = .paused := by
  cases state <;> simp [MatchState.playing]

/-- A match that is active or paused, with `p` as one of its players. -/
def World.Plays (w : World) (p : Address) (id : ℕ) : Prop :=
  ∃ m, w.matchMap id = some m ∧ (m.state = .active ∨ m.state = .paused) ∧ m.isPlayer p

/-- The keys and the counter of a player against the matches of the store. -/
structure World.ActiveExact (w : World) (p : Address) : Prop where
  keys : ∀ id, w.index.activeMatch (p, id) = true ↔ w.Plays p id
  count : ∃ ids : Finset ℕ, (∀ id, id ∈ ids ↔ w.Plays p id) ∧
    w.index.playerActiveMatchCount p = ids.card
  capped : w.index.playerActiveMatchCount p ≤ maxActiveMatchesPerPlayer
  zero : (∀ id, ¬w.Plays p id) → w.index.playerActiveMatchCount p = 0

theorem Register.Seated.activeExact {w : World} (h : w.register.Seated) (hsound : w.register.Sound)
    (p : Address) : w.ActiveExact p := by
  have hkeys : ∀ id, w.index.activeMatch (p, id) = true ↔ w.Plays p id := fun id => by
    simp only [World.Plays, ← MatchState.playing_iff]
    exact h.keys p id
  have hcount : w.index.playerActiveMatchCount p =
      ((Finset.range w.matchCount).filter fun id => w.index.activeMatch (p, id) = true).card :=
    (h.tallied p).trans (Nat.count_eq_card_filter_range _ _)
  refine ⟨hkeys, ⟨_, fun id => ?_, hcount⟩, h.capped p, fun hnone => ?_⟩
  · rw [Finset.mem_filter, hkeys, Finset.mem_range, and_iff_right_iff_imp]
    rintro ⟨m, hm, -⟩
    exact hsound.lt_matchCount hm
  · rw [hcount, Finset.card_eq_zero, Finset.filter_eq_empty_iff]
    exact fun id _ hkey => hnone id ((hkeys id).mp hkey)

/-- Along every run without batches of deposits a player has a key for exactly the active
and paused matches they play, and the counter is the number of these matches, within the
cap. A player whose matches have all ended is back at zero. -/
theorem active_exact {w0 : World} {es : List Event} (h0 : Initial w0)
    (hes : ∀ e ∈ es, e.batchesDeposits = false) (p : Address) : (run step w0 es).ActiveExact p := by
  have hinv : (run step w0 es).register.Sound ∧ (run step w0 es).register.Seated :=
    run_register_inv (I := fun r => r.Sound ∧ r.Seated) ⟨.empty, .empty⟩
      (fun hP _ ha => absurd ha (Event.action_ne_of_not_batchesDeposits hP))
      (fun _ _ _ hr h => ⟨hr.1.change h, hr.2.change hr.1 h⟩) h0 (along_of_forall hes)
  exact hinv.2.activeExact hinv.1 p

theorem active_exact_fundedMatch : (∀ e ∈ fundedMatch, e.batchesDeposits = false) ∧
    (run step .start fundedMatch).index.playerActiveMatchCount (.ext 2) = 1 ∧
    (run step .start fundedMatch).ActiveExact (.ext 2) := by
  have hes : ∀ e ∈ fundedMatch, e.batchesDeposits = false := by decide +kernel
  exact ⟨hes, by decide +kernel, active_exact World.start_initial hes (.ext 2)⟩

end Checkmate.Escrow

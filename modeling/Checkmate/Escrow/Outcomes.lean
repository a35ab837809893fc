import Checkmate.Escrow.Transfers

/-!
# How deposits, settlements and payouts end

`deposit` and `settleResult` are called by entry points that go on after an error of
theirs, so what they leave behind on every way out matters. `deposit_ok_iff` and
`settleResult_ok_iff` give the state after a success. `deposit_err` and
`settleResult_err` list the failures by what has been written at that point.

Each of the three payouts of a result checks its guards, pays, and writes. The `_ok` of
`finalizeMatch`, `resolveDisputeByVote` and `claimVestedPayout` name the guards and the
written state, and their `_err` say that past the guards only the payment fails. The votes of
the oracles, the disputes and the votes on them have such theorems as well.
-/

namespace Checkmate.Escrow

open Function Tx Option

variable {env : Env} {w w' : World} {m m' : Match} {id : ℕ} {player : Address}
  {u : Unit} {e : Error}

/-! ## Deposits -/

/-- A match that takes a deposit from `player`. -/
structure Match.OpenFor (m : Match) (player : Address) : Prop where
  unfunded : m.player1Deposited = true → m.player2Deposited = false
  pending : m.state = .pending
  isPlayer : m.isPlayer player
  fresh1 : player = m.player1 → m.player1Deposited = false
  fresh2 : player = m.player2 → m.player2Deposited = false

/-- The guards that open a deposit. -/
structure DepositOpen (env : Env) (w : World) (matchId : ℕ) (player : Address) (m : Match) :
    Prop extends m.OpenFor player where
  auth : player ∈ env.auths
  unused : w.control.hasAuth env player
  unpaused : w.control.paused = false
  unfrozen : w.control.frozenPlayer player = none
  unguarded : w.depositInProgress matchId = false
  stored : w.matchMap matchId = some m
  tier : w.stats.tierAllows player m.stakeAmount = true

/-- The state after the checks of a deposit, and after those that clear the guard. -/
def World.guarded (w : World) (matchId : ℕ) (player : Address) (value : Bool) : World :=
  (w.withControl (w.control.useAuth player)).withDepositGuard matchId value

theorem checkDeposit_ok_iff : checkDeposit id player env w = .ok m w' ↔
      DepositOpen env w id player m ∧ w' = w.guarded id player true := by
  simp [checkDeposit, clearing]
  constructor
  · rintro ⟨⟨h1, h2⟩, h3, h4, h5, h6, h7, h8, h9, h10, h11, h12, rfl⟩
    exact ⟨⟨⟨h7, h8, or_iff_not_imp_left.mpr h9, h10, h11⟩, h1, h2, h3, h4, h5, h6, h12⟩, rfl⟩
  · rintro ⟨⟨⟨h7, h8, h9, h10, h11⟩, h1, h2, h3, h4, h5, h6, h12⟩, rfl⟩
    exact ⟨⟨h1, h2⟩, h3, h4, h5, h6, h7, h8, or_iff_not_imp_left.mp h9, h10, h11, h12, rfl⟩

/-- The ways a deposit fails before the transfer. Only a missing match and a stake
outside the player's tier leave the guard set. -/
inductive CheckDepositErr (env : Env) (w : World) (matchId : ℕ) (player : Address) :
    Error → World → Prop
  | refused (h : w.control.paused = true ∨ (w.control.frozenPlayer player).isSome = true) :
      CheckDepositErr env w matchId player .contractPaused
        (w.withControl (w.control.useAuth player))
  | blocked (h : w.depositInProgress matchId = true) :
      CheckDepositErr env w matchId player .invalidState
        (w.withControl (w.control.useAuth player))
  | missing (hfrozen : w.control.frozenPlayer player = none)
      (hguard : w.depositInProgress matchId = false) (h : w.matchMap matchId = none) :
      CheckDepositErr env w matchId player .matchNotFound (w.guarded matchId player true)
  | tier {m : Match} (hfrozen : w.control.frozenPlayer player = none)
      (hguard : w.depositInProgress matchId = false) (hm : w.matchMap matchId = some m)
      (hopen : m.OpenFor player) (h : w.stats.tierAllows player m.stakeAmount = false) :
      CheckDepositErr env w matchId player .tierStakeNotAllowed (w.guarded matchId player true)
  | closed {m : Match} {e : Error} (hguard : w.depositInProgress matchId = false)
      (hm : w.matchMap matchId = some m) (hstate : e = .invalidState → m.state ≠ .pending)
      (h : ¬m.OpenFor player) :
      CheckDepositErr env w matchId player e (w.guarded matchId player false)

theorem checkDeposit_err (h : checkDeposit id player env w = .err e w') :
    CheckDepositErr env w id player e w' := by
  simp [checkDeposit, clearing] at h
  obtain ⟨-, ⟨⟨h, rfl⟩, rfl⟩ | ⟨-, ⟨⟨h, rfl⟩, rfl⟩ | ⟨hf, ⟨h, rfl, rfl⟩ | ⟨hg, h⟩⟩⟩⟩ := h
  · exact .refused (.inl h)
  · exact .refused (.inr h)
  · exact .blocked h
  rcases h with ⟨h, rfl, rfl⟩ | ⟨m, hm, h⟩
  · exact .missing hf hg h
  rcases h with ⟨⟨h, rfl⟩, rfl⟩ | ⟨hu, ⟨⟨h, rfl⟩, rfl⟩ | ⟨hs, h⟩⟩
  · exact .closed hg hm (by simp) fun hopen => absurd (hopen.unfunded h.1) (by simp [h.2])
  · exact .closed hg hm (fun _ => h) fun hopen => h hopen.pending
  rcases h with ⟨⟨h, rfl⟩, rfl⟩ | ⟨hp, ⟨⟨h, rfl⟩, rfl⟩ | ⟨h1, h⟩⟩
  · exact .closed hg hm (by simp) fun hopen => not_or.mpr h hopen.isPlayer
  · exact .closed hg hm (by simp) fun hopen => absurd (hopen.fresh1 h.1) (by simp [h.2])
  rcases h with ⟨⟨h, rfl⟩, rfl⟩ | ⟨h2, h, rfl, rfl⟩
  · exact .closed hg hm (by simp) fun hopen => absurd (hopen.fresh2 h.1) (by simp [h.2])
  · exact .tier hf hg hm ⟨hu, hs, or_iff_not_imp_left.mpr hp, h1, h2⟩ h

def Side.other : Side → Side
  | .player1 => .player2
  | .player2 => .player1

theorem Match.player_sideOf {a : Address} (h : m.isPlayer a) : m.player (m.sideOf a) = a := by
  rcases h with rfl | rfl <;> simp only [Match.sideOf] <;> split <;> simp_all [Match.player]

/-- The stake of one side. -/
def depositTransfer (matchId : ℕ) (m : Match) (side : Side) : Transfer :=
  ⟨m.token, m.player side, .self, m.stakeAmount, ⟨matchId, .deposit side⟩⟩

/-- The index after both players' active sets have taken a match, if both have room. -/
def Index.activate (ix : Index) (m : Match) (matchId : ℕ) : Option Index := do
  let ix ← (ix.setMatchState m .active).addActiveMatch m.player1 matchId
  ix.addActiveMatch m.player2 matchId

def Match.activated (m : Match) (now : ℕ) : Match := (m.withState .active).withActivation now

/-- A match after a deposit and the index with it : active if both players have funded it. -/
def Match.activate (m : Match) (now matchId : ℕ) (ix : Index) : Option (Match × Index) :=
  if m.player1Deposited = true ∧ m.player2Deposited = true then
    (ix.activate m matchId).map fun ix => (m.activated now, ix)
  else some (m, ix)

theorem activateIfFunded_ok_iff : activateIfFunded id m env w = .ok m' w' ↔
      ∃ ix, m.activate env.timestamp id w.index = some (m', ix) ∧ w' = w.withIndex ix := by
  unfold Match.activate
  split
  · rename_i hfunded
    simp only [activateIfFunded, clearing, Index.activate, Match.activated, hfunded, and_self,
      if_true, bind_ok_iff, ask_ok_iff, setMatchState_ok_iff, onError_ok_iff,
      addActiveMatch_ok_iff, pure_ok_iff, map_eq_some_iff, bind_eq_bind,
      bind_eq_some_iff, Prod.mk.injEq]
    constructor
    · rintro ⟨_, _, ⟨rfl, rfl⟩, _, _, ⟨rfl, rfl⟩, _, _, ⟨ix, h1, rfl⟩, _, _, ⟨ix', h2, rfl⟩,
        rfl, rfl⟩
      exact ⟨ix', ⟨ix', ⟨ix, h1, h2⟩, rfl, rfl⟩, rfl⟩
    · rintro ⟨_, ⟨ix', ⟨ix, h1, h2⟩, rfl, rfl⟩, rfl⟩
      exact ⟨_, _, ⟨rfl, rfl⟩, _, _, ⟨rfl, rfl⟩, (), _, ⟨ix, h1, rfl⟩, (), _, ⟨_, h2, rfl⟩,
        rfl, rfl⟩
  · rename_i hfunded
    simp only [activateIfFunded, hfunded, if_false, bind_ok_iff, ask_ok_iff,
      pure_ok_iff, Option.some.injEq, Prod.mk.injEq]
    constructor
    · rintro ⟨_, _, ⟨rfl, rfl⟩, rfl, rfl⟩
      exact ⟨_, ⟨rfl, rfl⟩, rfl⟩
    · rintro ⟨_, ⟨rfl, rfl⟩, rfl⟩
      exact ⟨_, _, ⟨rfl, rfl⟩, rfl, rfl⟩

/-- A failing activation has changed the state lists. -/
theorem activateIfFunded_err (h : activateIfFunded id m env w = .err e w') :
    m.activate env.timestamp id w.index = none ∧ e = .tooManyActiveMatches ∧
      ∃ ix, w' = (w.withIndex ix).withDepositGuard id false := by
  unfold Match.activate
  split
  · rename_i hfunded
    simp [activateIfFunded, clearing, Index.activate, hfunded] at h ⊢
    rcases h with ⟨⟨h, rfl⟩, rfl⟩ | ⟨ix, h, ⟨h', rfl⟩, rfl⟩
    · exact ⟨by simp [h], rfl, _, rfl⟩
    · exact ⟨by simp [h, h'], rfl, _, rfl⟩
  · simp [activateIfFunded, *] at h

theorem activateIfFunded_of_none (h : m.activate env.timestamp id w.index = none) :
    ∃ ix, activateIfFunded id m env w =
      .err .tooManyActiveMatches ((w.withIndex ix).withDepositGuard id false) := by
  unfold Match.activate at h
  split at h
  · rename_i hfunded
    rw [map_eq_none_iff] at h
    cases h1 : (w.index.setMatchState m .active).addActiveMatch m.player1 id with
    | none =>
      refine ⟨w.index.setMatchState m .active, ?_⟩
      simp [activateIfFunded, clearing, hfunded, h1]
    | some ix =>
      have h2 : ix.addActiveMatch m.player2 id = none := by
        simpa [Index.activate, h1] using h
      refine ⟨ix, ?_⟩
      simp [activateIfFunded, clearing, hfunded, h1, h2]
  · exact absurd h (by simp)

/-- A match with the deposit of one side recorded. -/
def Match.withDeposit (m : Match) (side : Side) (now : ℕ) : Match :=
  (m.setDeposited side).withHeartbeat now

/-- The state with a stake taken, on the way of a deposit. -/
def World.staked (w : World) (matchId : ℕ) (m : Match) (player : Address)
    (l : Ledger Address) : World :=
  ((w.guarded matchId player true).withTransfer
    ⟨m.token, player, .self, m.stakeAmount, ⟨matchId, .deposit (m.sideOf player)⟩⟩ l).withEscrow
    (addToEscrow w.escrow player m.stakeAmount)

/-- The state with a deposit stored. -/
def World.stored (w : World) (env : Env) (matchId : ℕ) (m : Match) (player : Address)
    (balance : ℤ) : World :=
  ((w.putMatch matchId m).withSnapshots ((w.snapshots.record env m .deposit balance).recordPlayer
    env player (w.escrow player))).withDepositGuard matchId false

/-- A deposit that is stored leaves the guards as it found them. -/
theorem stored_guards {l : Ledger Address} {ix : Index} {balance : ℤ}
    (h : w.depositInProgress id = false) :
    (((w.staked id m player l).withIndex ix).stored env id m' player
      balance).depositInProgress = w.depositInProgress := by
  simp [World.stored, World.staked, World.guarded, ← h]

@[simp] theorem withDeposit_stakeAmount {side : Side} {now : ℕ} :
    (m.withDeposit side now).stakeAmount = m.stakeAmount := by
  cases side <;> rfl

theorem DepositOpen.side_deposited (h : DepositOpen env w id player m) :
    m.deposited (m.sideOf player) = false := by
  unfold Match.sideOf
  split
  · exact h.fresh1 ‹_›
  · exact h.fresh2 (h.isPlayer.resolve_left ‹_›)

theorem withDeposit_funded_iff {side : Side} {now : ℕ} :
    ((m.withDeposit side now).player1Deposited = true ∧
      (m.withDeposit side now).player2Deposited = true) ↔ m.deposited side.other = true := by
  cases side <;> simp [Match.withDeposit, Match.setDeposited, Side.other, Match.deposited]

/-- A funded match that is not over has a pot that fits. -/
theorem pot_le_of_escrowBalanceOf {balance : ℤ} (h : escrowBalanceOf m = some balance)
    (hstate : m.state.terminal = false)
    (hd : m.player1Deposited = true ∧ m.player2Deposited = true) : 2 * m.stakeAmount ≤ i128Max := by
  unfold escrowBalanceOf at h
  split at h
  · rename_i hover
    rcases hover with hs | hs <;> simp [hs, MatchState.terminal] at hstate
  · simp [checkedMul, Match.depositorCount, hd] at h
    omega

theorem deposit_ok_iff : deposit id player env w = .ok u w' ↔
      ∃ m l m' ix balance, DepositOpen env w id player m ∧
        env.transfer w.ledger m.token player .self m.stakeAmount = some l ∧
        (m.withDeposit (m.sideOf player) env.timestamp).activate env.timestamp id w.index =
          some (m', ix) ∧ escrowBalanceOf m' = some balance ∧
        w' = ((w.staked id m player l).withIndex ix).stored env id m' player balance := by
  simp only [deposit, bind_ok_iff, checkDeposit_ok_iff, takeDeposit, ask_ok_iff,
    transfer_ok_iff, updatePlayerEscrowBalance_ok_iff, activateIfFunded_ok_iff, saveMatch_ok_iff,
    recordSnapshot_ok_iff, recordPlayerSnapshot_ok_iff, modify_ok_iff]
  constructor
  · rintro ⟨m, _, ⟨hopen, rfl⟩, _, _, ⟨rfl, rfl⟩, _, _, ⟨l, hl, rfl⟩, _, _, rfl, m', _,
      ⟨ix, hix, rfl⟩, _, _, rfl, _, _, ⟨balance, hb, rfl⟩, _, _, rfl, rfl⟩
    exact ⟨m, l, m', ix, balance, hopen, hl, hix, hb, rfl⟩
  · rintro ⟨m, l, m', ix, balance, hopen, hl, hix, hb, rfl⟩
    exact ⟨m, _, ⟨hopen, rfl⟩, _, _, ⟨rfl, rfl⟩, (), _, ⟨l, hl, rfl⟩, (), _, rfl, m', _,
      ⟨ix, hix, rfl⟩, (), _, rfl, (), _, ⟨balance, hb, rfl⟩, (), _, rfl, rfl⟩

/-- A deposit fails before the transfer, or because a player has no room for one more
active match, with the stake taken. -/
theorem deposit_err (h : deposit id player env w = .err e w') :
    CheckDepositErr env w id player e w' ∨ ∃ m l ix, DepositOpen env w id player m ∧
        env.transfer w.ledger m.token player .self m.stakeAmount = some l ∧
        (m.withDeposit (m.sideOf player) env.timestamp).activate env.timestamp id w.index = none ∧
        e = .tooManyActiveMatches ∧
        w' = ((w.staked id m player l).withIndex ix).withDepositGuard id false := by
  simp only [deposit, bind_err_iff, checkDeposit_ok_iff] at h
  rcases h with h | ⟨m, _, ⟨hopen, rfl⟩, h⟩
  · exact .inl (checkDeposit_err h)
  · right
    simp only [takeDeposit, bind_err_iff, ask_err_iff, ask_ok_iff, transfer_err_iff,
      transfer_ok_iff, updatePlayerEscrowBalance_err_iff, updatePlayerEscrowBalance_ok_iff,
      saveMatch_err_iff, recordSnapshot_err_iff, recordPlayerSnapshot_err_iff, modify_err_iff,
      false_or, or_false, and_false, exists_false] at h
    obtain ⟨_, _, ⟨rfl, rfl⟩, _, _, ⟨l, hl, rfl⟩, _, _, rfl, h⟩ := h
    obtain ⟨hnone, rfl, ix, rfl⟩ := activateIfFunded_err h
    exact ⟨m, l, ix, hopen, hl, hnone, rfl, rfl⟩

/-- A player with no room for one more active match makes an open deposit fail. -/
theorem deposit_of_none {l : Ledger Address} (hopen : DepositOpen env w id player m)
    (hl : env.transfer w.ledger m.token player .self m.stakeAmount = some l)
    (hnone : (m.withDeposit (m.sideOf player) env.timestamp).activate env.timestamp id
      w.index = none) : ∃ ix, deposit id player env w = .err .tooManyActiveMatches
      (((w.staked id m player l).withIndex ix).withDepositGuard id false) := by
  obtain ⟨ix, herr⟩ := activateIfFunded_of_none (w := w.staked id m player l) hnone
  refine ⟨ix, ?_⟩
  simp only [deposit, takeDeposit, bind_err_iff, checkDeposit_ok_iff, ask_ok_iff,
    transfer_ok_iff, updatePlayerEscrowBalance_ok_iff]
  exact .inr ⟨m, _, ⟨hopen, rfl⟩, .inr ⟨env, _, ⟨rfl, rfl⟩, .inr ⟨(), _, ⟨l, hl, rfl⟩,
    .inr ⟨(), _, rfl, .inl herr⟩⟩⟩⟩
/-! ## Settlements -/

variable {winner : Winner}

/-- A pot that fits. -/
theorem checkedMul_two {stake : ℤ} (hstake : 1 ≤ stake) (hpot : 2 * stake ≤ i128Max) :
    checkedMul stake 2 = some (2 * stake) := by
  have hmin : i128Min ≤ 0 := by decide
  rw [checkedMul, toI128_eq_some]
  omega

/-- The guards that open a settlement. -/
structure SettleOpen (w : World) (matchId : ℕ) (winner : Winner) (m : Match) : Prop where
  winner : winner ≠ .none
  stored : w.matchMap matchId = some m
  funded : m.player1Deposited = true ∧ m.player2Deposited = true
  state : m.state = .active ∨ m.state = .paused

theorem checkSettle_ok_iff :
    checkSettle id winner env w = .ok m w' ↔ SettleOpen w id winner m ∧ w' = w := by
  simp [checkSettle]
  constructor
  · rintro ⟨h1, h2, ⟨-, h4, h5⟩, h6, rfl⟩
    exact ⟨⟨h1, h2, ⟨h4, h5⟩, or_iff_not_imp_left.mpr h6⟩, rfl⟩
  · rintro ⟨⟨h1, h2, ⟨h4, h5⟩, h6⟩, rfl⟩
    exact ⟨h1, h2, ⟨by rcases h6 with h | h <;> simp [h], h4, h5⟩, or_iff_not_imp_left.mp h6, rfl⟩

theorem checkSettle_err (h : checkSettle id winner env w = .err e w') : w' = w := by
  simp [checkSettle] at h
  grind

/-- A match with its winner recorded. -/
def Match.resulted (m : Match) (env : Env) (winner : Winner) : Match :=
  (m.withState .completed).withResult winner env.timestamp

/-- The state with a winner recorded. -/
def World.resulted (w : World) (env : Env) (matchId : ℕ) (winner : Winner) (m : Match) : World :=
  ((w.withIndex ((w.index.removeActivePlayers m matchId).setMatchState m .completed)).withStats
    ((((w.stats.recordCompletedPlayers (m.resulted env winner)).recordPlatformPayout
      m.platform).updatePlayerStats m.player1 winner m.stakeAmount true).updatePlayerStats
        m.player2 winner m.stakeAmount false)).putMatch matchId (m.resulted env winner)

theorem recordResult_ok_iff : recordResult id winner m env w = .ok m' w' ↔
      m' = m.resulted env winner ∧ w' = w.resulted env id winner m := by
  simp [recordResult, Match.resulted, World.resulted, and_comm]

@[simp] theorem recordResult_err_iff : recordResult id winner m env w = .err e w' ↔ False := by
  simp [recordResult]

@[simp] theorem escrowBalanceOf_completed (h : m.state = .completed) :
    escrowBalanceOf m = some 0 := by
  simp [escrowBalanceOf, h]

/-- The state of a match that is over. -/
def World.settledNow (w : World) (env : Env) (matchId : ℕ) (m : Match) : World :=
  let escrow := addToEscrow (addToEscrow w.escrow m.player1 (-m.stakeAmount)) m.player2
    (-m.stakeAmount)
  let m := m.completedAt env.sequence
  ((w.putMatch matchId m).withEscrow escrow).withSnapshots
    (((w.snapshots.record env m .completed 0).recordPlayer env m.player1
      (escrow m.player1)).recordPlayer env m.player2 (escrow m.player2))

theorem settleNow_ok_iff (hm : m.state = .completed) : settleNow id m env w = .ok u w' ↔
      (checkedMul m.stakeAmount 2).isSome = true ∧ w' = w.settledNow env id m := by
  have hm' : (m.completedAt env.sequence).state = .completed := hm
  simp [settleNow, World.settledNow, escrowBalanceOf_completed hm', isSome_iff_exists]

theorem settleNow_err_iff (hm : m.state = .completed) : settleNow id m env w = .err e w' ↔
      checkedMul m.stakeAmount 2 = none ∧ e = .overflow ∧ w' = w.settledNow env id m := by
  have hm' : (m.completedAt env.sequence).state = .completed := hm
  simp [settleNow, World.settledNow, escrowBalanceOf_completed hm']

/-- The state with a result that waits until `deadline`. -/
def World.settledLater (w : World) (env : Env) (matchId : ℕ) (m : Match) (deadline : ℕ)
    (balance : ℤ) : World :=
  let w := (w.withIndex (w.index.setMatchState m .pendingResult)).putMatch matchId
    (m.withState .pendingResult)
  let w := w.withDisputes { w.disputes with
    pendingWinner := update w.disputes.pendingWinner matchId (some m.winner)
    resultDeadline := update w.disputes.resultDeadline matchId (some deadline) }
  w.withSnapshots (w.snapshots.record env (m.withState .pendingResult) .resultSubmitted balance)

theorem settleLater_ok_iff {period : ℕ} : settleLater id m period env w = .ok u w' ↔
      ∃ balance, env.sequence + period ≤ u32Max ∧
        escrowBalanceOf (m.withState .pendingResult) = some balance ∧
        w' = w.settledLater env id m (env.sequence + period) balance := by
  simp [settleLater, World.settledLater]

theorem settleLater_err_iff {period : ℕ} : settleLater id m period env w = .err e w' ↔
      u32Max < env.sequence + period ∧ e = .overflow ∧ w' = w := by
  simp [settleLater, checkedAddU]

@[simp] theorem Match.resulted_state : (m.resulted env winner).state = .completed := rfl

@[simp] theorem World.resulted_control : (w.resulted env id winner m).control = w.control := rfl

theorem settleResult_ok_iff : settleResult id winner env w = .ok u w' ↔
      ∃ m, SettleOpen w id winner m ∧
        ((w.control.getDisputePeriod = 0 ∧ (checkedMul m.stakeAmount 2).isSome = true ∧
            w' = (w.resulted env id winner m).settledNow env id (m.resulted env winner)) ∨
          (w.control.getDisputePeriod ≠ 0 ∧ ∃ balance,
            env.sequence + w.control.getDisputePeriod ≤ u32Max ∧
            escrowBalanceOf ((m.resulted env winner).withState .pendingResult) = some balance ∧
            w' = (w.resulted env id winner m).settledLater env id
              (m.resulted env winner) (env.sequence + w.control.getDisputePeriod) balance)) := by
  simp only [settleResult, bind_ok_iff, checkSettle_ok_iff, recordResult_ok_iff, get_ok_iff]
  constructor
  · rintro ⟨m, _, ⟨hopen, rfl⟩, _, _, ⟨rfl, rfl⟩, _, _, ⟨rfl, rfl⟩, h⟩
    refine ⟨m, hopen, ?_⟩
    rcases ite_ok_iff.mp h with ⟨hp, h⟩ | ⟨hp, h⟩
    · exact .inl ⟨hp, (settleNow_ok_iff rfl).mp h⟩
    · exact .inr ⟨hp, settleLater_ok_iff.mp h⟩
  · rintro ⟨m, hopen, h⟩
    refine ⟨m, _, ⟨hopen, rfl⟩, _, _, ⟨rfl, rfl⟩, _, _, ⟨rfl, rfl⟩, ite_ok_iff.mpr ?_⟩
    rcases h with ⟨hp, h⟩ | ⟨hp, h⟩
    · exact .inl ⟨hp, (settleNow_ok_iff rfl).mpr h⟩
    · exact .inr ⟨hp, settleLater_ok_iff.mpr h⟩

/-- The ways a settlement fails. The sums that can overflow are computed after the result
has been stored. -/
inductive SettleErr (env : Env) (w : World) (matchId : ℕ) (winner : Winner) :
    Error → World → Prop
  | rejected {e : Error} (h : ∀ m, ¬SettleOpen w matchId winner m) :
      SettleErr env w matchId winner e w
  | potOverflow {m : Match} (hopen : SettleOpen w matchId winner m)
      (hperiod : w.control.getDisputePeriod = 0) (h : checkedMul m.stakeAmount 2 = none) :
      SettleErr env w matchId winner .overflow
        ((w.resulted env matchId winner m).settledNow env matchId (m.resulted env winner))
  | deadlineOverflow {m : Match} (hopen : SettleOpen w matchId winner m)
      (hperiod : w.control.getDisputePeriod ≠ 0)
      (h : u32Max < env.sequence + w.control.getDisputePeriod) :
      SettleErr env w matchId winner .overflow (w.resulted env matchId winner m)

theorem settleResult_err (h : settleResult id winner env w = .err e w') :
    SettleErr env w id winner e w' := by
  simp only [settleResult, bind_err_iff, checkSettle_ok_iff, recordResult_ok_iff,
    recordResult_err_iff, get_ok_iff, get_err_iff, false_or] at h
  rcases h with h | ⟨m, _, ⟨hopen, rfl⟩, _, _, ⟨rfl, rfl⟩, _, _, ⟨rfl, rfl⟩, h⟩
  · obtain rfl := checkSettle_err h
    refine .rejected fun m hopen => ?_
    have hok : checkSettle id winner env w' = .ok m w' := checkSettle_ok_iff.mpr ⟨hopen, rfl⟩
    rw [h] at hok
    exact absurd hok (by simp)
  · rcases ite_err_iff.mp h with ⟨hp, h⟩ | ⟨hp, h⟩
    · obtain ⟨hnone, rfl, rfl⟩ := (settleNow_err_iff rfl).mp h
      exact .potOverflow hopen hp hnone
    · obtain ⟨hlt, rfl, rfl⟩ := settleLater_err_iff.mp h
      exact .deadlineOverflow hopen hp hlt

/-! ## Votes of the oracles -/

section Votes

variable {oracle : Address}

/-- The guards that open a vote. -/
structure VoteOpen (env : Env) (w : World) (matchId : ℕ) (winner : Winner) (oracle : Address)
    (m : Match) : Prop where
  unpaused : w.control.paused = false
  auth : oracle ∈ env.auths
  unused : w.control.hasAuth env oracle
  approved : oracle ∈ w.control.getApprovedOracles
  stored : w.matchMap matchId = some m
  active : m.state = .active
  funded : m.player1Deposited = true ∧ m.player2Deposited = true
  unvoted : w.consensus.oracleVote (matchId, oracle) = none
  agrees : w.consensus.oracleConfirmations matchId = 0 ∨
    w.consensus.consensusLeadingWinner matchId = some winner
  fits : w.consensus.oracleConfirmations matchId + 1 ≤ u32Max

/-- One more vote, for the winner that leads from then on. -/
@[simps -fullyApplied]
def Consensus.cast (s : Consensus) (matchId : ℕ) (winner : Winner) (oracle : Address) :
    Consensus :=
  { s with
    oracleVote := update s.oracleVote (matchId, oracle) (some winner)
    oracleConfirmations :=
      update s.oracleConfirmations matchId (s.oracleConfirmations matchId + 1)
    consensusLeadingWinner := update s.consensusLeadingWinner matchId (some winner) }

/-- The state after a vote, before the votes are counted. -/
def World.voted (w : World) (matchId : ℕ) (winner : Winner) (oracle : Address) : World :=
  (w.withControl (w.control.useAuth oracle)).withConsensus
    (w.consensus.cast matchId winner oracle)

@[simp] theorem World.voted_control :
    (w.voted id winner oracle).control = w.control.useAuth oracle := rfl

theorem agreeOnWinner_ok_iff {existing : ℕ} : agreeOnWinner id winner existing env w = .ok u w' ↔
      (existing = 0 ∨ w.consensus.consensusLeadingWinner id = some winner) ∧
        w' = w.withConsensus { w.consensus with
          consensusLeadingWinner := update w.consensus.consensusLeadingWinner id
            (some winner) } := by
  -- A later vote writes nothing, which is to write the winner that leads.
  have hlead (h : w.consensus.consensusLeadingWinner id = some winner) :
      w = w.withConsensus { w.consensus with
        consensusLeadingWinner := update w.consensus.consensusLeadingWinner id (some winner) } := by
    rw [← h, update_eq_self]
    rfl
  simp only [agreeOnWinner, bind_ok_iff, get_ok_iff]
  constructor
  · rintro ⟨_, _, ⟨rfl, rfl⟩, h⟩
    rcases ite_ok_iff.mp h with ⟨-, h⟩ | ⟨hzero, h⟩
    · simp at h
      obtain ⟨h, rfl⟩ := h
      exact ⟨.inr h, hlead h⟩
    · exact ⟨.inl (by omega), modifyConsensus_ok_iff.mp h⟩
  · rintro ⟨hagrees, rfl⟩
    refine ⟨_, _, ⟨rfl, rfl⟩, ite_ok_iff.mpr ?_⟩
    by_cases hzero : existing = 0
    · exact .inr ⟨by omega, modifyConsensus_ok_iff.mpr rfl⟩
    · have h := hagrees.resolve_left hzero
      exact .inl ⟨by omega, by simpa [h] using (hlead h).symm⟩

theorem submitResultConsensus_ok_iff : submitResultConsensus id winner oracle env w = .ok u w' ↔
      ∃ m, VoteOpen env w id winner oracle m ∧
        (if w.control.getRequiredConfirmations ≤ w.consensus.oracleConfirmations id + 1 then
            settleResult id winner
          else checkOracleDeadlock id (w.consensus.oracleConfirmations id + 1)
            w.control.getRequiredConfirmations) env (w.voted id winner oracle) = .ok u w' := by
  simp [submitResultConsensus, agreeOnWinner_ok_iff]
  constructor
  · rintro ⟨h1, ⟨h2, h3⟩, h4, m, h5, h6, h7, h8, h9, h10, h⟩
    exact ⟨⟨m, h1, h2, h3, h4, h5, h6, h7, h8, h9, h10⟩, h⟩
  · rintro ⟨⟨m, h1, h2, h3, h4, h5, h6, h7, h8, h9, h10⟩, h⟩
    exact ⟨h1, ⟨h2, h3⟩, h4, m, h5, h6, h7, h8, h9, h10, h⟩

/-- The approved oracles are too few for the votes that are required. -/
def Control.OutOfReach (c : Control) (confirmations required : ℕ) : Prop :=
  required > c.getApprovedOracles.length ∨
    saturatingAddU u32Max confirmations (c.getApprovedOracles.length - confirmations) < required

theorem checkOracleDeadlock_ok_iff {confirmations required : ℕ} :
    checkOracleDeadlock id confirmations required env w = .ok u w' ↔
      (w.control.OutOfReach confirmations required ∧ w' = w.withConsensus { w.consensus with
        oracleDeadlock := update w.consensus.oracleDeadlock id true }) ∨
      (¬w.control.OutOfReach confirmations required ∧ w' = w) := by
  simp only [checkOracleDeadlock, markOracleDeadlock, Control.OutOfReach, bind_ok_iff,
    get_ok_iff, when_ok_iff, modifyConsensus_ok_iff]
  constructor
  · rintro ⟨_, _, ⟨rfl, rfl⟩, h⟩
    exact h
  · exact fun h => ⟨_, _, ⟨rfl, rfl⟩, h⟩

end Votes

/-! ## Disputes -/

section Disputes

variable {disputeId n : ℕ} {disputer voter : Address} {evidenceHash : Bytes} {vote : Bool}

/-- The guards that open a dispute, with the share of the stake that its bond is computed from. -/
structure DisputeOpen (env : Env) (w : World) (matchId : ℕ) (disputer : Address)
    (evidenceHash : Bytes) (m : Match) (share : ℤ) : Prop where
  auth : disputer ∈ env.auths
  unused : w.control.hasAuth env disputer
  stored : w.matchMap matchId = some m
  waits : m.state = .pendingResult
  isPlayer : m.isPlayer disputer
  early : ∃ deadline, w.disputes.resultDeadline matchId = some deadline ∧
    env.sequence < deadline
  evidence : isValidEvidenceHash evidenceHash = true
  undisputed : w.disputes.matchDispute matchId = none
  share_eq : basisPointsOf m.stakeAmount
    (w.control.disputeBondBasisPointsFor m.stakeAmount) = some share
  deadline_fits : env.sequence + votingPeriodLedgers ≤ u32Max
  count_fits : w.disputes.disputeCount + 1 ≤ u64Max

/-- The dispute that is filed once its bond has led to the balances `l`. -/
def World.newDispute (w : World) (env : Env) (matchId : ℕ) (disputer : Address)
    (evidenceHash : Bytes) (m : Match) (share : ℤ) (l : Ledger Address) (quorum : ℤ) :
    Dispute where
  id := w.disputes.disputeCount
  matchId
  disputer
  createdLedger := env.sequence
  votingDeadline := env.sequence + votingPeriodLedgers
  state := .active
  evidenceHash
  upholdVotes := 0
  overturnVotes := 0
  yesVotes := 0
  noVotes := 0
  disputeBond := max share 1
  snapshotLedger := env.sequence
  snapshotTotalWeight := l m.token .self
  quorumThreshold := quorum

/-- The state with the dispute on file, under the next id. -/
def World.disputing (w : World) (matchId : ℕ) (disputer : Address) (m : Match) (d : Dispute)
    (l : Ledger Address) (oracle : Address) : World :=
  ((w.withControl (w.control.useAuth disputer)).withTransfer
    ⟨m.token, disputer, .self, d.disputeBond, ⟨matchId, .bond⟩⟩ l).withDisputes { w.disputes with
      dispute := update w.disputes.dispute w.disputes.disputeCount (some d)
      matchDispute :=
        update w.disputes.matchDispute matchId (some w.disputes.disputeCount)
      disputeOracle :=
        update w.disputes.disputeOracle w.disputes.disputeCount (some oracle)
      disputeCount := w.disputes.disputeCount + 1 }

theorem disputeOracleResult_ok (h : disputeOracleResult id disputer evidenceHash env w = .ok n w') :
    ∃ m share l quorum oracle, DisputeOpen env w id disputer evidenceHash m share ∧
      env.transfer w.ledger m.token disputer .self (max share 1) = some l ∧
      basisPointsOf (l m.token .self)
        (w.control.quorumBasisPoints.getD defaultQuorumBasisPoints) = some quorum ∧
      w.control.oracle = some oracle ∧ n = w.disputes.disputeCount ∧
      w' = w.disputing id disputer m
        (w.newDispute env id disputer evidenceHash m share l quorum) l oracle := by
  simp [disputeOracleResult] at h
  obtain ⟨⟨h1, h2⟩, m, h3, h4, h5, deadline, h6, h7, h8, h9, share, h10, l, hl, h11, quorum,
    hquorum, oracle, horacle, h12, hn, rfl⟩ := h
  exact ⟨m, share, l, quorum, oracle,
    ⟨h1, h2, h3, h4, h5, ⟨deadline, h6, h7⟩, h8, h9, h10, h11, h12⟩, hl, hquorum, horacle, hn, rfl⟩

/-- The guards of a vote on a dispute, without those on the voter's weight. -/
structure PollOpen (env : Env) (w : World) (disputeId : ℕ) (voter : Address) (d : Dispute) :
    Prop where
  auth : voter ∈ env.auths
  unused : w.control.hasAuth env voter
  filed : w.disputes.dispute disputeId = some d
  active : d.state = .active
  early : env.sequence < d.votingDeadline
  unvoted : w.disputes.disputeVote (disputeId, voter) = none
  stored : ∃ m, w.matchMap d.matchId = some m

/-- A dispute with one more vote. -/
def Dispute.withVote (d : Dispute) (vote : Bool) (weight : ℤ) : Dispute :=
  if vote then { d with yesVotes := saturatingAdd d.yesVotes weight }
  else { d with noVotes := saturatingAdd d.noVotes weight }

/-- The state with one more vote on a dispute. -/
def World.polled (w : World) (disputeId : ℕ) (voter : Address) (vote : Bool) (d : Dispute)
    (weight : ℤ) : World :=
  (w.withControl (w.control.useAuth voter)).withDisputes { w.disputes with
    disputeVoteWeight :=
      update w.disputes.disputeVoteWeight (disputeId, voter) (some weight)
    disputeVote := update w.disputes.disputeVote (disputeId, voter) (some vote)
    dispute := update w.disputes.dispute disputeId (some (d.withVote vote weight)) }

/-- The ledger at which the voters of a dispute have to have held their stake. -/
def Control.heldSince (c : Control) (d : Dispute) : ℕ :=
  d.snapshotLedger - c.minimumHoldDuration.getD defaultMinimumHoldDuration

theorem voteOnDispute_ok_iff : voteOnDispute disputeId voter vote env w = .ok u w' ↔
      ∃ d weight, PollOpen env w disputeId voter d ∧
        w.snapshots.votingWeight voter d.snapshotLedger (w.control.heldSince d) = some weight ∧
        0 < weight ∧ w' = w.polled disputeId voter vote d weight := by
  simp [voteOnDispute]
  constructor
  · rintro ⟨⟨h1, h2⟩, d, h3, h4, h5, h6, m, h7, h⟩
    refine ⟨d, ⟨h1, h2, h3, h4, h5, h6, m, h7⟩, ?_⟩
    change ∃ weight, w.snapshots.votingWeight voter d.snapshotLedger (d.snapshotLedger -
      w.control.minimumHoldDuration.getD defaultMinimumHoldDuration) = some weight ∧ _
    cases hweight : w.snapshots.votingWeight voter d.snapshotLedger (d.snapshotLedger -
      w.control.minimumHoldDuration.getD defaultMinimumHoldDuration) with
    | none => simp [hweight] at h
    | some weight =>
      simp [hweight] at h
      exact ⟨weight, rfl, h.1, h.2⟩
  · rintro ⟨d, ⟨h1, h2, h3, h4, h5, h6, m, h7⟩, weight, hweight, hpos, rfl⟩
    refine ⟨⟨h1, h2⟩, d, h3, h4, h5, h6, m, h7, ?_⟩
    rw [Control.heldSince] at hweight
    simp [hweight, hpos]
    rfl

end Disputes

/-! ## Payouts of pending results -/

/-- A pending result whose dispute window has closed without a dispute. -/
structure FinalizeOpen (env : Env) (w : World) (matchId : ℕ) (m : Match) (winner : Winner) :
    Prop where
  stored : w.matchMap matchId = some m
  waits : m.state = .pendingResult
  elapsed : ∃ deadline, w.disputes.resultDeadline matchId = some deadline ∧
    deadline ≤ env.sequence
  undisputed : w.disputes.matchDispute matchId = none
  pendingWinner : w.disputes.pendingWinner matchId = some winner

/-- A match that is paid out. -/
def Match.paid (m : Match) (env : Env) : Match :=
  (m.withState .completed).completedAt env.sequence

@[simp] theorem Match.paid_state : (m.paid env).state = .completed := by simp [Match.paid]

@[simp] theorem Match.paid_player1 : (m.paid env).player1 = m.player1 := by simp [Match.paid]

@[simp] theorem Match.paid_player2 : (m.paid env).player2 = m.player2 := by simp [Match.paid]

@[simp] theorem markPaid_ok_iff : markPaid id m env w = .ok m' w' ↔ m' = m.paid env ∧
      w' = ((w.withIndex (w.index.setMatchState m .completed)).withStats
        ((w.stats.recordCompletedPlayers (m.paid env)).recordPlatformPayout m.platform)).putMatch
          id (m.paid env) := by
  simp [markPaid, Match.paid, and_comm]

@[simp] theorem markPaid_err_iff : markPaid id m env w = .err e w' ↔ False := by
  simp [markPaid]

/-- The state with a match that is paid out. -/
def World.paidOut (w : World) (env : Env) (matchId : ℕ) (m : Match) : World :=
  ((w.withIndex ((w.index.removeActivePlayers m matchId).setMatchState m .completed)).withStats
    ((w.stats.recordCompletedPlayers (m.paid env)).recordPlatformPayout m.platform)).putMatch
      matchId (m.paid env)

/-- The state after the payout of a match whose result was not disputed. -/
def World.finalized (w : World) (env : Env) (matchId : ℕ) (m : Match) : World :=
  let escrow := addToEscrow (addToEscrow w.escrow m.player1 (-m.stakeAmount)) m.player2
    (-m.stakeAmount)
  ((w.paidOut env matchId m).withEscrow escrow).withSnapshots
    (((w.snapshots.record env (m.paid env) .finalized 0).recordPlayer env m.player1
      (escrow m.player1)).recordPlayer env m.player2 (escrow m.player2))

theorem finalizeMatch_ok (h : finalizeMatch id env w = .ok u w') :
    ∃ m winner w1, FinalizeOpen env w id m winner ∧
      executePayout id m winner env w = .ok () w1 ∧ w' = w1.finalized env id m := by
  simp [finalizeMatch] at h
  obtain ⟨m, hm, hs, deadline, hline, hseq, hnone, winner, hpw, _, w1, hpay, rfl⟩ := h
  exact ⟨m, winner, w1, ⟨hm, hs, ⟨deadline, hline, hseq⟩, hnone, hpw⟩, hpay, rfl⟩

theorem finalizeMatch_err (hopen : FinalizeOpen env w id m winner)
    (h : finalizeMatch id env w = .err e w') : executePayout id m winner env w = .err e w' := by
  obtain ⟨hm, hs, ⟨deadline, hline, hseq⟩, hnone, hpw⟩ := hopen
  simpa [finalizeMatch, hm, hs, hline, hseq, not_lt.mpr hseq, hnone, hpw] using h

/-- A dispute about a pending result whose voters have decided. -/
structure ResolveOpen (env : Env) (w : World) (disputeId : ℕ) (d : Dispute) (m : Match)
    (winner : Winner) : Prop where
  filed : w.disputes.dispute disputeId = some d
  active : d.state = .active
  elapsed : d.votingDeadline ≤ env.sequence
  stored : w.matchMap d.matchId = some m
  waits : m.state = .pendingResult
  pendingWinner : w.disputes.pendingWinner d.matchId = some winner
  quorum : d.quorumThreshold ≤ saturatingAdd d.yesVotes d.noVotes

/-- The outcome that is paid after a vote. -/
def Dispute.outcome (d : Dispute) (winner : Winner) : Winner :=
  if d.overturned then .draw else winner

/-- The transfer of the bond after a vote. -/
def Dispute.bondReturn (d : Dispute) (token treasury : Address) : Transfer :=
  outgoing d.matchId .bondReturn token (if d.overturned then d.disputer else treasury)
    d.disputeBond

/-- A dispute after the vote. -/
def Dispute.resolved (d : Dispute) : Dispute :=
  { d with state := if d.overturned then .resolvedOverturned else .resolvedUpheld }

/-- The state after the payout of a match whose dispute was voted on. -/
def World.resolved (w : World) (env : Env) (disputeId : ℕ) (d : Dispute) (m : Match) : World :=
  ((w.paidOut env d.matchId m).withDisputes { w.disputes with
    dispute := update w.disputes.dispute disputeId (some d.resolved) }).withSnapshots
      (w.snapshots.record env (m.paid env) .finalized 0)

theorem resolveDisputeByVote_ok {disputeId : ℕ}
    (h : resolveDisputeByVote disputeId env w = .ok u w') :
    ∃ d m winner w1 w2, ResolveOpen env w disputeId d m winner ∧
      executePayout d.matchId m (d.outcome winner) env w = .ok () w1 ∧
      transfer (d.bondReturn m.token w.control.config.treasury) env w1 = .ok () w2 ∧
      w' = w2.resolved env disputeId d m := by
  simp [resolveDisputeByVote] at h
  obtain ⟨d, hd, hactive, hseq, m, hm, hs, winner, hpw, hquorum, _, w1, hpay, l, hl, rfl⟩ := h
  exact ⟨d, m, winner, w1, _, ⟨hd, hactive, hseq, hm, hs, hpw, hquorum⟩, hpay,
    transfer_ok_iff.mpr ⟨l, hl, rfl⟩, rfl⟩

theorem resolveDisputeByVote_err {disputeId : ℕ} {d : Dispute}
    (hopen : ResolveOpen env w disputeId d m winner)
    (h : resolveDisputeByVote disputeId env w = .err e w') :
    executePayout d.matchId m (d.outcome winner) env w = .err e w' := by
  obtain ⟨hd, hactive, hseq, hm, hs, hpw, hquorum⟩ := hopen
  simpa [resolveDisputeByVote, Dispute.outcome, hd, hactive, hseq, not_lt.mpr hseq, hm,
    hs, hpw, hquorum, not_lt.mpr hquorum] using h

/-! ## Vested payouts -/

/-- The conversion rate of a multi-token match is recent at a ledger. -/
def Match.RateFresh (m : Match) (sequence : ℕ) : Prop :=
  m.isMultiToken = true → ∀ ledger ∈ m.conversionRateLedger, sequence - ledger ≤ 1000

theorem Match.rateFresh_iff {sequence : ℕ} : m.RateFresh sequence ↔ ¬(m.isMultiToken = true ∧
      m.conversionRateLedger.any (fun l => sequence - l > 1000) = true) := by
  unfold Match.RateFresh
  cases m.conversionRateLedger <;> simp

theorem requireFreshRate_ok_iff :
    requireFreshRate m env w = .ok u w' ↔ m.RateFresh env.sequence ∧ w' = w := by
  simp only [requireFreshRate, bind_ok_iff, ask_ok_iff, reject_ok_iff, Match.rateFresh_iff]
  refine ⟨?_, fun h => ⟨env, w, ⟨rfl, rfl⟩, h⟩⟩
  rintro ⟨_, _, ⟨rfl, rfl⟩, h⟩
  exact h

theorem requireFreshRate_err_iff : requireFreshRate m env w = .err e w' ↔
      ¬m.RateFresh env.sequence ∧ e = .conversionRateStalePriceSource ∧ w' = w := by
  simp only [requireFreshRate, bind_err_iff, ask_err_iff, ask_ok_iff, reject_err_iff,
    Match.rateFresh_iff, not_not, false_or]
  refine ⟨?_, fun h => ⟨env, w, ⟨rfl, rfl⟩, h⟩⟩
  rintro ⟨_, _, ⟨rfl, rfl⟩, h⟩
  exact h

/-- A completed match of a player whose payout has vested. -/
structure ClaimOpen (env : Env) (w : World) (matchId : ℕ) (player : Address) (m : Match) :
    Prop where
  auth : player ∈ env.auths
  unused : w.control.hasAuth env player
  stored : w.matchMap matchId = some m
  completed : m.state = .completed
  vested : ∃ vestedAt, m.vestedAt = some vestedAt ∧
    vestedAt + w.control.config.timeouts.vestingDurationSeconds ≤ u64Max ∧
    vestedAt + w.control.config.timeouts.vestingDurationSeconds ≤ env.timestamp
  isPlayer : m.isPlayer player
  winner : m.winner ≠ .none
  fresh : m.RateFresh env.sequence

/-- The state after a claim was paid. -/
def World.claimed (w : World) (env : Env) (matchId : ℕ) (player : Address) (m : Match) : World :=
  (w.putMatch matchId (m.setClaimed (m.sideOf player))).withSnapshots
    (w.snapshots.recordPlayer env player (w.escrow player))

theorem claimVestedPayout_ok (h : claimVestedPayout id player env w = .ok u w') :
    ∃ m w1, ClaimOpen env w id player m ∧
      paySide id m (m.sideOf player) env (w.withControl (w.control.useAuth player)) =
        .ok () w1 ∧ w' = w1.claimed env id player m := by
  simp [claimVestedPayout, requireFreshRate_ok_iff] at h
  obtain ⟨⟨ha, hu⟩, m, hm, hs, t, ht, hfit, hvest, hp, hwin, hfresh, _, w1, hpay, rfl⟩ := h
  exact ⟨m, w1, ⟨ha, hu, hm, hs, ⟨t, ht, hfit, hvest⟩, hp, hwin, hfresh⟩, hpay, rfl⟩

theorem claimVestedPayout_err (hopen : ClaimOpen env w id player m)
    (h : claimVestedPayout id player env w = .err e w') :
    paySide id m (m.sideOf player) env (w.withControl (w.control.useAuth player)) = .err e w' := by
  obtain ⟨ha, hu, hm, hs, ⟨t, ht, hfit, hvest⟩, hp, hwin, hfresh⟩ := hopen
  simpa [claimVestedPayout, requireFreshRate_ok_iff, requireFreshRate_err_iff, checkedAddU, ha, hu,
    hm, hs, ht, hfit, not_lt.mpr hfit, hvest, not_lt.mpr hvest, hp, hwin, hfresh] using h

end Checkmate.Escrow

import Checkmate.Escrow.Guards

/-!
# Deposits in a batch and deposits one by one

An entry of `depositBatch` that fails before the transfer has changed nothing but guards.
An entry that fails because a player has no room for one more active match has moved the
stake and changed the counter and the state lists (`Overfull`), and inside a batch that
stays. An entry can also be held up by the guard that an earlier entry of the same batch
left behind, where a deposit on its own would go through (`HeldUp`). A batch is atomic
entry by entry and does what the deposits would do one by one exactly if neither happens
(`depositBatch_atomic_iff`).
-/

namespace Checkmate.Escrow

open Function Option

variable {env : Env} {w w' w0 w1 w2 u v : World} {m m' : Match} {id : ℕ}
  {player : Address} {e : Error} {x : ℕ × Address} {entries : List (ℕ × Address)}

/-! ## States between invocations -/

/-- The state without what an invocation notes in passing, guards included. -/
def World.atRest (w : World) : World :=
  { w.fresh with depositInProgress := fun _ => false }

theorem eq_of_atRest {α : Type} (f : World → α) (h : u.atRest = v.atRest)
    (hf : ∀ w, f w.atRest = f w) : f u = f v := by
  rw [← hf u, ← hf v, h]

/-- A deposit that is open stays open in a state that differs only in what is noted in
passing, if the guard is clear and an authorisation is left. -/
theorem DepositOpen.of_atRest (h : DepositOpen env u id player m)
    (hrest : u.atRest = v.atRest) (hguard : v.depositInProgress id = false)
    (hauth : v.control.hasAuth env player) : DepositOpen env v id player m := by
  have hpaused := eq_of_atRest (fun w => w.control.paused) hrest fun _ => rfl
  have hfrozen := eq_of_atRest (fun w => w.control.frozenPlayer) hrest fun _ => rfl
  have hmap := eq_of_atRest World.matchMap hrest fun _ => rfl
  have hstats := eq_of_atRest World.stats hrest fun _ => rfl
  exact ⟨h.toOpenFor, h.auth, hauth, hpaused ▸ h.unpaused, hfrozen ▸ h.unfrozen, hguard,
    hmap ▸ h.stored, hstats ▸ h.tier⟩

/-- Such states agree on what a deposit leads to. -/
theorem deposit_ok_of_atRest {a : Unit} (h : deposit id player env u = .ok a w')
    (hrest : u.atRest = v.atRest) (hguard : v.depositInProgress id = false)
    (hauth : v.control.hasAuth env player) :
    ∃ w2, deposit id player env v = .ok () w2 ∧ w'.atRest = w2.atRest ∧
      w2.depositInProgress = v.depositInProgress := by
  obtain ⟨m, l, m', ix, balance, hopen, hl, hix, hb, rfl⟩ := deposit_ok_iff.mp h
  have hledger := eq_of_atRest World.ledger hrest fun _ => rfl
  have hindex := eq_of_atRest World.index hrest fun _ => rfl
  have hopen' := hopen.of_atRest hrest hguard hauth
  refine ⟨_, deposit_ok_iff.mpr ⟨m, l, m', ix, balance, hopen', hledger ▸ hl, hindex ▸ hix, hb,
    rfl⟩, ?_, stored_guards hguard⟩
  exact eq_of_atRest (fun w => (((w.staked id m player l).withIndex ix).stored env id
    m' player balance).atRest) hrest fun _ => rfl

/-! ## What a failing deposit has written -/

/-- Balances, match records, indexes, escrow counters and snapshots. -/
structure SameData (w w' : World) : Prop where
  ledger : w'.ledger = w.ledger
  matchMap : w'.matchMap = w.matchMap
  index : w'.index = w.index
  escrow : w'.escrow = w.escrow
  snapshots : w'.snapshots = w.snapshots

theorem SameData.of_atRest (h : w'.atRest = w.atRest) : SameData w w' where
  ledger := eq_of_atRest World.ledger h fun _ => rfl
  matchMap := eq_of_atRest World.matchMap h fun _ => rfl
  index := eq_of_atRest World.index h fun _ => rfl
  escrow := eq_of_atRest World.escrow h fun _ => rfl
  snapshots := eq_of_atRest World.snapshots h fun _ => rfl

theorem CheckDepositErr.atRest (h : CheckDepositErr env w id player e w') :
    w'.atRest = w.atRest := by
  cases h <;> rfl

/-- The second deposit into a match, with a player who has no room for one more. -/
def Overfull (env : Env) (w : World) (matchId : ℕ) (player : Address) : Prop :=
  ∃ m, DepositOpen env w matchId player m ∧ m.deposited (m.sideOf player).other = true ∧
    ∃ side, maxActiveMatchesPerPlayer ≤ w.index.playerActiveMatchCount (m.player side)

/-- Activation fails at the cap of either player. -/
theorem index_activate_eq_none_iff {ix : Index} (hne : m.player1 ≠ m.player2) :
    ix.activate m id = none ↔
      ∃ side, maxActiveMatchesPerPlayer ≤ ix.playerActiveMatchCount (m.player side) := by
  unfold Index.activate
  have hset : (ix.setMatchState m .active).playerActiveMatchCount = ix.playerActiveMatchCount :=
    setMatchState_playerActiveMatchCount
  cases h : (ix.setMatchState m .active).addActiveMatch m.player1 id with
  | none =>
    rw [addActiveMatch_eq_none, hset] at h
    simp only [bind_eq_bind, bind_none, true_iff]
    exact ⟨.player1, h⟩
  | some ix' =>
    have hroom : ¬maxActiveMatchesPerPlayer ≤ ix.playerActiveMatchCount m.player1 := by
      rw [← hset, ← addActiveMatch_eq_none, h]
      simp
    have hcount : ix'.playerActiveMatchCount m.player2 = ix.playerActiveMatchCount m.player2 := by
      rw [(addActiveMatch_eq_some h).2.2, update_of_ne (Ne.symm hne), hset]
    simp only [bind_eq_bind, bind_some, addActiveMatch_eq_none, hcount]
    constructor
    · exact fun hcap => ⟨.player2, hcap⟩
    · rintro ⟨side, hcap⟩
      cases side
      · exact absurd hcap hroom
      · exact hcap

theorem withDeposit_activate_eq_none_iff {side : Side} {now : ℕ} {ix : Index}
    (hne : m.player1 ≠ m.player2) : (m.withDeposit side now).activate now id ix = none ↔
      m.deposited side.other = true ∧
        ∃ side, maxActiveMatchesPerPlayer ≤ ix.playerActiveMatchCount (m.player side) := by
  have hplayer : ∀ side', (m.withDeposit side now).player side' = m.player side' := by
    intro side'
    cases side <;> cases side' <;> rfl
  have hne' : (m.withDeposit side now).player1 ≠ (m.withDeposit side now).player2 := by
    cases side <;> exact hne
  have hfunded_iff : ((m.withDeposit side now).player1Deposited = true ∧
      (m.withDeposit side now).player2Deposited = true) ↔ m.deposited side.other = true :=
    withDeposit_funded_iff
  unfold Match.activate
  rw [← hfunded_iff]
  split
  · rename_i hfunded
    simp only [hfunded, map_eq_none_iff, index_activate_eq_none_iff hne', hplayer, and_self,
      true_and]
  · rename_i hfunded
    simp only [hfunded, false_and, reduceCtorEq]

/-- Checks that fail leave nothing to deposit into. -/
theorem CheckDepositErr.not_open (h : CheckDepositErr env w id player e w') :
    ¬DepositOpen env w id player m := by
  intro hopen
  cases h with
  | refused h =>
    rcases h with h | h
    · simp [hopen.unpaused] at h
    · simp [hopen.unfrozen] at h
  | blocked h => simp [hopen.unguarded] at h
  | missing _ _ h => simp [hopen.stored] at h
  | tier _ _ hm _ h =>
    obtain rfl := mem_unique hm hopen.stored
    simp [hopen.tier] at h
  | closed _ hm _ h =>
    obtain rfl := mem_unique hm hopen.stored
    exact h hopen.toOpenFor

/-- A deposit fails before the transfer, unless a player is at the cap. -/
theorem deposit_err_check (hw : w.book.Sound) (h : deposit id player env w = .err e w')
    (hroom : ¬Overfull env w id player) : CheckDepositErr env w id player e w' := by
  rcases deposit_err h with hcheck | ⟨m, l, ix, hopen, -, hnone, -, -⟩
  · exact hcheck
  · have hne := (hw.stored id m hopen.stored).terms.players
    exact absurd ⟨m, hopen, (withDeposit_activate_eq_none_iff hne).mp hnone⟩ hroom

/-- At the cap the stake has moved. -/
theorem deposit_err_of_overfull (hw : w.book.Sound)
    (h : deposit id player env w = .err e w') (hfull : Overfull env w id player) :
    w'.ledger ≠ w.ledger := by
  rcases deposit_err h with hcheck | ⟨m, l, ix, hopen, hl, -, -, rfl⟩
  · obtain ⟨m, hopen, -⟩ := hfull
    exact absurd hopen hcheck.not_open
  · intro hsame
    have hstake : 1 ≤ m.stakeAmount := (hw.stored id m hopen.stored).terms.stake_pos
    have hself : player ≠ .self := fun hp => env.self_notMem (hp ▸ hopen.auth)
    have hflow := (hopen.moves hl).balance .self m.token
    have hl' : l = w.ledger := hsame
    rw [hl', netFlow_cons, netFlow_nil] at hflow
    simp [Movement.flow, depositTransfer, Match.player_sideOf hopen.isPlayer, hself] at hflow
    omega

/-- At the cap a deposit does not return a value. -/
theorem Overfull.not_ok (hw : w.book.Sound) (hfull : Overfull env w id player) {a : Unit} :
    deposit id player env w ≠ .ok a w' := by
  intro h
  obtain ⟨m, l, m', ix, balance, hopen, -, hix, -⟩ := deposit_ok_iff.mp h
  obtain ⟨m1, hopen1, hcap⟩ := hfull
  obtain rfl := mem_unique hopen1.stored hopen.stored
  have hne := (hw.stored id _ hopen.stored).terms.players
  rw [(withDeposit_activate_eq_none_iff hne).mpr hcap] at hix
  exact absurd hix (by simp)

theorem CheckDepositErr.guards_le (h : CheckDepositErr env w id player e w') :
    w.depositInProgress ≤ w'.depositInProgress := by
  cases h with
  | refused | blocked => exact le_rfl
  | missing | tier => exact le_update_self_iff.mpr (Bool.le_true _)
  | closed hguard => exact le_update_self_iff.mpr hguard.le

theorem deposit_err_auth (h : deposit id player env w = .err e w') :
    w.control.hasAuth env player := by
  simp only [deposit, Tx.bind_err_iff, checkDeposit_ok_iff] at h
  rcases h with h | ⟨m, _, ⟨hopen, -⟩, -⟩
  · simp [checkDeposit, clearing] at h
    exact h.1.2
  · exact hopen.unused

/-! ## One by one -/

/-- A deposit as an invocation of its own. -/
def depositAlone (env : Env) (w : World) (x : ℕ × Address) : World :=
  step w (.invoke env (.deposit x.1 x.2))

theorem depositAlone_eq : depositAlone env w x = invoke env (deposit x.1 x.2) w := rfl

/-- An entry that would go through but for the guard that an earlier entry of the batch from
`w0` has left. -/
def HeldUp (env : Env) (w0 w : World) (matchId : ℕ) (player : Address) : Prop :=
  w0.depositInProgress matchId = false ∧ w.depositInProgress matchId = true ∧
    Commits env (deposit matchId player) (w.withDepositGuard matchId false)

/-- The state `w1` of a batch from `w0` and the state `w2` that the deposits one by one lead
to differ in nothing but what is noted in passing. -/
structure InStep (w0 w1 w2 : World) : Prop where
  rest : w1.atRest = w2.atRest
  guards : w2.depositInProgress = w0.depositInProgress
  kept : w0.depositInProgress ≤ w1.depositInProgress

theorem InStep.commits_iff (hin : InStep w0 w1 w2) (hset : w1.depositInProgress id = true) :
    Commits env (deposit id player) w2 ↔ HeldUp env w0 w1 id player := by
  have hrest : (w1.withDepositGuard id false).fresh.atRest = w2.fresh.atRest := hin.rest
  have hclear : (w1.withDepositGuard id false).fresh.depositInProgress id = false := by
    simp [World.fresh]
  constructor
  · rintro ⟨w', h⟩
    obtain ⟨m, -, -, -, -, hopen, -⟩ := deposit_ok_iff.mp h
    have hfree : w0.depositInProgress id = false := by
      rw [← hin.guards]
      exact hopen.unguarded
    obtain ⟨w3, h3, -⟩ := deposit_ok_of_atRest h hrest.symm hclear (hasAuth_fresh hopen.auth)
    exact ⟨hfree, hset, w3, h3⟩
  · rintro ⟨hfree, -, w', h⟩
    obtain ⟨m, -, -, -, -, hopen, -⟩ := deposit_ok_iff.mp h
    have hfree' : w2.fresh.depositInProgress id = false := by
      rw [← hin.guards] at hfree
      exact hfree
    obtain ⟨w3, h3, -⟩ := deposit_ok_of_atRest h hrest hfree' (hasAuth_fresh hopen.auth)
    exact ⟨w3, h3⟩

/-- An entry that fails in the checks would fail on its own too, if it is not held up. -/
theorem InStep.not_commits (hin : InStep w0 w1 w2)
    (hcheck : CheckDepositErr env w1 id player e w') (hauth : w1.control.hasAuth env player)
    (hfree : ¬HeldUp env w0 w1 id player) : ¬Commits env (deposit id player) w2 := by
  intro hc
  cases hset : w1.depositInProgress id with
  | true => exact hfree ((hin.commits_iff hset).mp hc)
  | false =>
    obtain ⟨w3, h⟩ := hc
    obtain ⟨m, -, -, -, -, hopen, -⟩ := deposit_ok_iff.mp h
    exact hcheck.not_open (hopen.of_atRest hin.rest.symm hset hauth)

/-- An entry that does no harm and the deposit on its own stay in step. -/
theorem InStep.step (hin : InStep w0 w1 w2) (hw : w1.book.Sound)
    (htrap : deposit x.1 x.2 env w1 ≠ .trap) (hroom : ¬Overfull env w1 x.1 x.2)
    (hfree : ¬HeldUp env w0 w1 x.1 x.2) :
    InStep w0 (depositEntry env w1 x) (depositAlone env w2 x) := by
  cases hx : deposit x.1 x.2 env w1 with
  | trap => exact absurd hx htrap
  | ok =>
    obtain ⟨m, l, m', ix, balance, hopen, -, -, -, hw'⟩ := deposit_ok_iff.mp hx
    have hclear : w2.fresh.depositInProgress x.1 = false := by
      have hle := hin.kept x.1
      rw [hopen.unguarded, ← hin.guards] at hle
      exact Bool.eq_false_of_le_false hle
    obtain ⟨w3, h3, hrest, hguards⟩ := deposit_ok_of_atRest hx (v := w2.fresh) hin.rest hclear
      (hasAuth_fresh hopen.auth)
    rw [depositEntry_of_ok hx, depositAlone_eq, invoke_of_ok h3]
    refine ⟨hrest, hguards.trans hin.guards, ?_⟩
    rw [hw', stored_guards hopen.unguarded]
    exact hin.kept
  | err =>
    have hcheck := deposit_err_check hw hx hroom
    have halone := hin.not_commits hcheck (deposit_err_auth hx) hfree
    rw [depositEntry_of_err hx, depositAlone_eq, invoke_of_not_commits halone]
    exact ⟨hcheck.atRest.trans hin.rest, hin.guards, hin.kept.trans hcheck.guards_le⟩

/-! ## Entries that are held up -/

/-- While the guard of a match is set, a batch leaves the match and the guard alone. -/
theorem depositEntry_guarded (h : w.depositInProgress id = true) :
    (depositEntry env w x).depositInProgress id = true ∧
      (depositEntry env w x).matchMap id = w.matchMap id := by
  have hother : w.depositInProgress x.1 = false → id ≠ x.1 := by
    rintro hclear rfl
    simp [hclear] at h
  refine Tx.entry_cases (P := fun s : World => s.depositInProgress id = true ∧
    s.matchMap id = w.matchMap id) ⟨h, rfl⟩ (fun w' hx => ?_) fun e w' hx => ?_
  · obtain ⟨m, l, m', ix, balance, hopen, -, -, -, rfl⟩ := deposit_ok_iff.mp hx
    rw [stored_guards hopen.unguarded]
    exact ⟨h, update_of_ne (hother hopen.unguarded) _ _⟩
  rcases deposit_err hx with hcheck | ⟨m, l, ix, hopen, -, -, -, rfl⟩
  · have hle := hcheck.guards_le id
    rw [h] at hle
    exact ⟨Bool.eq_true_of_true_le hle, congrFun (SameData.of_atRest hcheck.atRest).matchMap _⟩
  · refine ⟨?_, rfl⟩
    simpa [World.staked, World.guarded, hother hopen.unguarded] using h

theorem run_depositEntry_guarded (h : w.depositInProgress id = true) :
    (run (depositEntry env) w entries).matchMap id = w.matchMap id :=
  (run_inv (I := fun s : World => s.depositInProgress id = true ∧
      s.matchMap id = w.matchMap id)
    (fun _ _ hs _ => ⟨(depositEntry_guarded hs.1).1, (depositEntry_guarded hs.1).2.trans hs.2⟩)
    ⟨h, rfl⟩ (along_true w entries)).2

theorem run_depositAlone : run (depositAlone env) w entries =
      run step w (entries.map fun x => .invoke env (.deposit x.1 x.2)) := by
  rw [run, run, List.foldl_map]
  rfl

/-- A deposit that goes through sets the flag of the player's side. -/
theorem deposit_deposited {a : Unit} (h : deposit id player env w = .ok a w') :
    ∃ m m' side, w.matchMap id = some m ∧ m.deposited side = false ∧
      w'.matchMap id = some m' ∧ m'.deposited side = true := by
  obtain ⟨m, l, m', ix, balance, hopen, -, hix, -, rfl⟩ := deposit_ok_iff.mp h
  refine ⟨m, m', m.sideOf player, hopen.stored, hopen.side_deposited, update_self _ _ _, ?_⟩
  have hset : ∀ side, (m.withDeposit side env.timestamp).deposited side = true := by
    intro side
    cases side <;> rfl
  unfold Match.activate at hix
  split at hix
  · obtain ⟨_, -, heq⟩ := map_eq_some_iff.mp hix
    rw [← (Prod.mk.inj heq).1]
    have hactive : ∀ side, ((m.withDeposit (m.sideOf player) env.timestamp).activated
        env.timestamp).deposited side =
          (m.withDeposit (m.sideOf player) env.timestamp).deposited side := by
      intro side
      cases side <;> rfl
    rw [hactive]
    exact hset _
  · rw [← (Prod.mk.inj (Option.some.inj hix)).1]
    exact hset _

/-- An entry that is held up leaves its match unfunded by the player, to the end of the
batch. One by one the player would have funded it. -/
theorem InStep.diverges (hin : InStep w0 w1 w2) (hw : Reachable w2)
    (hheld : HeldUp env w0 w1 x.1 x.2) : (run (depositEntry env) w1 (x :: entries)).atRest ≠
      (run (depositAlone env) w2 (x :: entries)).atRest := by
  intro hrest
  have hset := hheld.2.1
  obtain ⟨w3, h3⟩ := (hin.commits_iff hset).mpr hheld
  obtain ⟨m, m', side, hm, hbefore, hm', hafter⟩ := deposit_deposited h3
  have halone : depositAlone env w2 x = w3.fresh := by
    rw [depositAlone_eq, invoke_of_ok h3]
  have hreach : Reachable w3.fresh := halone ▸ hw.step (.invoke env (.deposit x.1 x.2))
  obtain ⟨m'', hm'', hevolves⟩ := run_evolves hreach hm'
    (entries.map fun x => .invoke env (.deposit x.1 x.2))
  have hbatch : (run (depositEntry env) w1 (x :: entries)).matchMap x.1 = some m :=
    (run_depositEntry_guarded hset).trans
      ((congrFun (eq_of_atRest World.matchMap hin.rest fun _ => rfl) x.1).trans hm)
  have hsame := congrFun (eq_of_atRest World.matchMap hrest fun _ => rfl) x.1
  rw [run_cons _ _ entries, run_cons, halone, run_depositAlone, hm'', ← run_cons, hbatch] at hsame
  have hlater := hevolves.deposited side hafter
  rw [← Option.some.inj hsame, hbefore] at hlater
  exact absurd hlater (by simp)

/-! ## Batches -/

/-- An entry that leaves no partial writes behind and is not held up, in a batch from `w0`. -/
def Unharmed (env : Env) (w0 w : World) (x : ℕ × Address) : Prop :=
  ¬Overfull env w x.1 x.2 ∧ ¬HeldUp env w0 w x.1 x.2

theorem InStep.sound (hin : InStep w0 w1 w2) (hw : Reachable w2) : w1.book.Sound := by
  have hbook := eq_of_atRest World.book hin.rest fun _ => rfl
  exact hbook ▸ hw.sound

/-- By induction on the entries : as long as no entry does harm, the batch and the deposits
one by one are in step, and the first entry that does makes a difference that stays. -/
theorem InStep.agree_iff (hin : InStep w0 w1 w2) (hw : Reachable w2)
    (htrap : Along (depositEntry env) (fun w x => deposit x.1 x.2 env w ≠ .trap) w1 entries) :
    (Along (depositEntry env) (fun w x => ∀ e w', deposit x.1 x.2 env w = .err e w' →
        SameData w w') w1 entries ∧
      (run (depositEntry env) w1 entries).atRest = (run (depositAlone env) w2 entries).atRest) ↔
    Along (depositEntry env) (Unharmed env w0) w1 entries := by
  induction entries generalizing w1 w2 with
  | nil => exact ⟨fun _ => trivial, fun _ => ⟨trivial, hin.rest⟩⟩
  | cons x entries ih =>
    have hsound := hin.sound hw
    have hreach : Reachable (depositAlone env w2 x) := hw.step _
    constructor
    · rintro ⟨⟨hkept, htail⟩, hrest⟩
      have hfree : ¬HeldUp env w0 w1 x.1 x.2 := fun hheld => hin.diverges hw hheld hrest
      have hroom : ¬Overfull env w1 x.1 x.2 := by
        intro hfull
        cases hx : deposit x.1 x.2 env w1 with
        | trap => exact htrap.1 hx
        | ok => exact hfull.not_ok hsound hx
        | err e w' => exact deposit_err_of_overfull hsound hx hfull (hkept e w' hx).ledger
      have hstep := hin.step hsound htrap.1 hroom hfree
      exact ⟨⟨hroom, hfree⟩, (ih hstep hreach htrap.2).mp ⟨htail, hrest⟩⟩
    · rintro ⟨⟨hroom, hfree⟩, htail⟩
      have hstep := hin.step hsound htrap.1 hroom hfree
      obtain ⟨hkept, hrest⟩ := (ih hstep hreach htrap.2).mpr htail
      refine ⟨⟨fun e w' hx => .of_atRest ?_, hkept⟩, hrest⟩
      exact (deposit_err_check hsound hx hroom).atRest

/-- The state after the first `n` entries of a batch. -/
def afterDeposits (env : Env) (w : World) (entries : List (ℕ × Address)) (n : ℕ) : World :=
  run (depositEntry env) w.fresh (entries.take n)

/-- A batch of deposits is atomic entry by entry, and leads to the state that the deposits
would lead to as invocations of their own, exactly if no entry meets a player at the cap
after its checks and none is held up by a guard that the batch has left. -/
theorem depositBatch_atomic_iff {os : List (Option Error)} (hw : Reachable w)
    (h : depositBatch entries env w.fresh = .ok os w') :
    ((∀ (n : ℕ) (e : Error), os[n]? = some (some e) →
        SameData (afterDeposits env w entries n) (afterDeposits env w entries (n + 1))) ∧
      w'.atRest = (run (depositAlone env) w entries).atRest) ↔
    Along (depositEntry env) (Unharmed env w) w.fresh entries := by
  simp [depositBatch] at h
  obtain ⟨hrun, htrap⟩ := Tx.batch_run h.2
  have hin : InStep w w.fresh w := ⟨rfl, rfl, le_rfl⟩
  rw [← hin.agree_iff hw htrap, hrun]
  exact and_congr_left' (Tx.batch_errs_iff h.2)

theorem unharmed_of_room (hguard : w.depositInProgress x.1 = false)
    (hroom : ((w.matchMap x.1).all fun m =>
      w.index.playerActiveMatchCount m.player1 < maxActiveMatchesPerPlayer &&
        w.index.playerActiveMatchCount m.player2 < maxActiveMatchesPerPlayer) = true) :
    Unharmed env w0 w x := by
  refine ⟨?_, fun hheld => nomatch hguard.symm.trans hheld.2.1⟩
  rintro ⟨m, hopen, -, side, hfull⟩
  simp only [hopen.stored, all_some, Bool.and_eq_true, decide_eq_true_eq] at hroom
  cases side <;> simp only [Match.player] at hfull <;> omega

theorem depositBatch_atomic_iff_fundedTogether :
    Reachable (run step .start (fundedTogether.take 1)) ∧
    ∃ w', depositBatch [(0, .ext 2), (0, .ext 3)] (.plain [2, 3] 0 0)
        (run step .start (fundedTogether.take 1)).fresh = .ok [none, none] w' ∧
      w'.atRest = (run (depositAlone (.plain [2, 3] 0 0))
        (run step .start (fundedTogether.take 1)) [(0, .ext 2), (0, .ext 3)]).atRest := by
  have hw : Reachable (run step .start (fundedTogether.take 1)) := ⟨_, _, World.start_initial, rfl⟩
  have hvalue : (depositBatch [(0, .ext 2), (0, .ext 3)] (.plain [2, 3] 0 0)
      (run step .start (fundedTogether.take 1)).fresh).value = some [none, none] := by
    decide +kernel
  obtain ⟨w', h⟩ := Outcome.value_eq_some_iff.mp hvalue
  exact ⟨hw, w', h, ((depositBatch_atomic_iff hw h).mpr
    ⟨unharmed_of_room (by decide +kernel) (by decide +kernel),
      unharmed_of_room (by decide +kernel) (by decide +kernel), trivial⟩).2⟩

/-! ## Players at the cap

Players 2 and 3 play match after match until they have no room left. -/

section Cap

variable {n k active spent p : ℕ} {rateLedger : Option ℕ}

def digit (d : ℕ) : UInt8 := UInt8.ofNat (48 + d % 10)

/-- A seven-digit game id for every number below 10000. -/
def gameNumber (n : ℕ) : Bytes :=
  [49, 49, 49, digit (n / 1000), digit (n / 100), digit (n / 10), digit n]

theorem digit_inj {d e : ℕ} (h : digit d = digit e) : d % 10 = e % 10 := by
  have hall : ∀ a < 10, ∀ b < 10, UInt8.ofNat (48 + a) = UInt8.ofNat (48 + b) → a = b := by decide
  exact hall _ (Nat.mod_lt _ (by omega)) _ (Nat.mod_lt _ (by omega)) h

theorem gameNumber_inj (hn : n < 10000) (hk : k < 10000) (h : gameNumber n = gameNumber k) :
    n = k := by
  simp only [gameNumber, List.cons.injEq, true_and, and_true] at h
  have h1 := digit_inj h.1
  have h2 := digit_inj h.2.1
  have h3 := digit_inj h.2.2.1
  have h4 := digit_inj h.2.2.2
  omega

theorem gameNumber_valid (n : ℕ) : validGameId (gameNumber n) .chessDotCom = true := by
  have hall : ∀ a < 10, isAsciiDigit (UInt8.ofNat (48 + a)) = true := by decide
  have hdigit : ∀ d, isAsciiDigit (digit d) = true := fun d => hall _ (Nat.mod_lt _ (by omega))
  have hone : isAsciiDigit 49 = true := by decide
  simp [validGameId, gameNumber, hdigit, hone, chessComGameIdMinLen, chessComGameIdMaxLen]

/-- The state after `initialize` where everyone but the contract holds 1000000 of every
token. -/
def World.rich : World :=
  { World.start with ledger := fun _ holder => if holder = .self then 0 else 1000000 }

theorem World.rich_initial : Initial .rich :=
  ⟨.plain [] 0 0, .ext 0, .ext 1, fun _ holder => if holder = .self then 0 else 1000000, rfl⟩

/-- Match `n` of players 2 and 3. -/
def table (n : ℕ) (rateLedger : Option ℕ) : Match :=
  MatchParams.newMatch
    { player1 := .ext 2, player2 := .ext 3, stakeAmount := 100, token := .ext 4,
      gameId := gameNumber n, platform := .chessDotCom } (.plain [2] 0 0) n rateLedger

/-- Players 2 and 3 have `n` matches, of which they play `active`, and have spent at most
`spent` each. -/
structure Crowded (n active spent : ℕ) (w : World) : Prop where
  control : w.control = World.start.control
  count : w.matchCount = n
  unused : ∀ k, n ≤ k → k < 10000 → w.index.gameId (gameNumber k) = false
  novices : w.stats.playerCompletedMatchCount = fun _ => 0
  clear : w.depositInProgress = fun _ => false
  active2 : w.index.playerActiveMatchCount (.ext 2) = active
  active3 : w.index.playerActiveMatchCount (.ext 3) = active
  funds : ∀ p, 1000000 ≤ w.ledger (.ext 4) (.ext p) + spent

theorem fresh_of_control (h : w.control = World.start.control) : w.fresh = w := by
  have hfresh : w.control.fresh = w.control := by
    rw [h]
    rfl
  rw [World.fresh, hfresh]
  rfl

theorem Crowded.tierAllows (h : Crowded n active spent w) (player : Address) :
    w.stats.tierAllows player 100 = true := by
  simp only [Stats.tierAllows, h.novices]
  decide

theorem Crowded.create (h : Crowded n active spent w) (hfree : w.matchMap n = none)
    (hn : n < 10000) :
    ∃ rateLedger w', step w (.invoke (.plain [2] 0 0) (.createMatch (.ext 2) (.ext 3) 100 (.ext 4)
        (gameNumber n) .chessDotCom)) = w' ∧
      Crowded (n + 1) active spent w' ∧ w'.matchMap n = some (table n rateLedger) := by
  have hcreated : ∃ w', createMatch (.ext 2) (.ext 3) 100 (.ext 4) (gameNumber n) .chessDotCom
      (.plain [2] 0 0) w = .ok n w' := by
    have hlen : (gameNumber n).length = 7 := rfl
    simp [createMatch, createMatchInternal, authorizeCreation, checkParams, checkConversionRate,
      validateGameIdFormat, h.control, h.count, hfree, gameNumber_valid n,
      h.unused n le_rfl hn, hlen, h.tierAllows]
    refine ⟨⟨by decide, by decide⟩, ⟨rfl, rfl, rfl, rfl, by decide, by decide, by decide, rfl,
      by decide⟩, ?_, 0, rfl⟩
    unfold u64Max
    omega
  obtain ⟨w', hw'⟩ := hcreated
  have hstep : step w (.invoke (.plain [2] 0 0) (.createMatch (.ext 2) (.ext 3) 100 (.ext 4)
      (gameNumber n) .chessDotCom)) = w'.fresh := by
    refine invoke_of_ok (void_ok_iff.mpr ⟨n, ?_⟩)
    rw [fresh_of_control h.control]
    exact hw'
  obtain ⟨-, -, rateLedger, c, snapshots, hc, rfl⟩ := createMatchInternal_ok hw'
  rw [h.count] at hstep
  refine ⟨rateLedger, _, hstep, ⟨?_, rfl, fun k hk hk' => ?_, h.novices, h.clear, ?_, ?_,
    h.funds⟩, update_self ..⟩
  · exact hc.trans (by rw [h.control]; rfl)
  · have hne : gameNumber k ≠ gameNumber n := by
      intro heq
      have hkn := gameNumber_inj hk' hn heq
      omega
    change (w.index.addMatch _).gameId (gameNumber k) = false
    rw [addMatch_gameId]
    exact (update_of_ne hne _ _).trans (h.unused k (by omega) hk')
  · change (w.index.addMatch _).playerActiveMatchCount _ = active
    rw [addMatch_playerActiveMatchCount, h.active2]
  · change (w.index.addMatch _).playerActiveMatchCount _ = active
    rw [addMatch_playerActiveMatchCount, h.active3]

theorem Crowded.depositOpen (h : Crowded k active spent w) (hm : w.matchMap n = some m)
    (hopen : m.OpenFor (.ext p)) (hstake : m.stakeAmount = 100) :
    DepositOpen (.plain [p] 0 0) w n (.ext p) m where
  toOpenFor := hopen
  auth := List.mem_singleton_self _
  unused := by
    rw [h.control]
    simp [Control.hasAuth, World.start, Env.plain]
  unpaused := by rw [h.control]; rfl
  unfrozen := by rw [h.control]; rfl
  unguarded := by rw [h.clear]
  stored := hm
  tier := by rw [hstake, h.tierAllows]

theorem plain_transfer {l : Ledger Address} (h : 100 ≤ l (.ext 4) (.ext p)) :
    (Env.plain [p] 0 0).transfer l (.ext 4) (.ext p) .self 100 =
      some ((l.debit (.ext 4) (.ext p) 100).credit (.ext 4) .self 100) := by
  have hle : (100 : ℤ) ≤ l (.ext 4) (.ext p) := by exact_mod_cast h
  simp [Env.transfer, Env.plain, Ledger.transfer, hle]

theorem plain_transfer_le (l : Ledger Address) (q : ℕ) : l (.ext 4) (.ext q) ≤
    ((l.debit (.ext 4) (.ext p) 100).credit (.ext 4) .self 100) (.ext 4) (.ext q) + 100 := by
  by_cases hq : q = p <;> simp [Ledger.credit, Ledger.debit, hq]
  omega

/-- What a deposit by player `p` leads to. -/
theorem Crowded.paidIn {ix : Index} {active' : ℕ} {balance : ℤ}
    (h : Crowded k active spent w) (hspent : spent < 500000)
    (hopen : DepositOpen (.plain [p] 0 0) w n (.ext p) m)
    (htoken : m.token = .ext 4) (hstake : m.stakeAmount = 100)
    (hix : (m.withDeposit (m.sideOf (.ext p)) 0).activate 0 n w.index = some (m', ix))
    (hbalance : escrowBalanceOf m' = some balance) (hgame : ix.gameId = w.index.gameId)
    (hactive2 : ix.playerActiveMatchCount (.ext 2) = active')
    (hactive3 : ix.playerActiveMatchCount (.ext 3) = active') :
    ∃ w', step w (.invoke (.plain [p] 0 0) (.deposit n (.ext p))) = w' ∧
      Crowded k active' (spent + 100) w' ∧ w'.matchMap n = some m' := by
  have hfunds := h.funds p
  have hl := @plain_transfer p w.ledger (by omega)
  rw [← htoken, ← hstake] at hl
  have hdeposit : deposit n (.ext p) (.plain [p] 0 0) w = .ok () _ :=
    deposit_ok_iff.mpr ⟨m, _, m', ix, balance, hopen, hl, hix, hbalance, rfl⟩
  have hstep : step w (.invoke (.plain [p] 0 0) (.deposit n (.ext p))) = _ :=
    invoke_of_ok (by rw [fresh_of_control h.control]; exact hdeposit)
  refine ⟨_, hstep, ⟨?_, h.count, fun k hk hk' => (congrFun hgame _).trans (h.unused k hk hk'),
    h.novices, ?_, hactive2, hactive3, fun q => ?_⟩, update_self ..⟩
  · change (w.control.useAuth (.ext p)).fresh = _
    rw [h.control]
    rfl
  · change World.depositInProgress (World.stored _ _ _ _ _ _) = _
    rw [stored_guards hopen.unguarded, h.clear]
  · change _ ≤ ((w.ledger.debit m.token (.ext p) 100).credit m.token .self 100) _ _ + _
    rw [htoken]
    have hq := h.funds q
    have hle := @plain_transfer_le p w.ledger q
    omega

theorem addActiveMatch_gameId {ix ix' : Index} (h : ix.addActiveMatch player id = some ix') :
    ix'.gameId = ix.gameId := by
  unfold Index.addActiveMatch at h
  split at h
  · exact absurd h (by simp)
  · rw [← Option.some.inj h]

theorem setMatchState_gameId {ix : Index} {state : MatchState} :
    (ix.setMatchState m state).gameId = ix.gameId := by
  unfold Index.setMatchState
  split <;> rfl

/-- Both players have room. -/
theorem activate_of_room {ix : Index} (hne : m.player1 ≠ m.player2)
    (hn : n < maxActiveMatchesPerPlayer) (h1 : ix.playerActiveMatchCount m.player1 = n)
    (h2 : ix.playerActiveMatchCount m.player2 = n) :
    ∃ ix', ix.activate m k = some ix' ∧ ix'.gameId = ix.gameId ∧
      ix'.playerActiveMatchCount m.player1 = n + 1 ∧
      ix'.playerActiveMatchCount m.player2 = n + 1 := by
  cases h : ix.activate m k with
  | none =>
    obtain ⟨side, hside⟩ := (index_activate_eq_none_iff hne).mp h
    cases side <;> simp only [Match.player] at hside <;> omega
  | some ix' =>
    simp only [Index.activate, bind_eq_bind, bind_eq_some_iff] at h
    obtain ⟨ix1, hadd1, hadd2⟩ := h
    obtain ⟨-, -, hc1⟩ := addActiveMatch_eq_some hadd1
    obtain ⟨-, -, hc2⟩ := addActiveMatch_eq_some hadd2
    rw [setMatchState_playerActiveMatchCount] at hc1
    refine ⟨ix', rfl, ?_, ?_, ?_⟩
    · rw [addActiveMatch_gameId hadd2, addActiveMatch_gameId hadd1, setMatchState_gameId]
    · rw [hc2, update_of_ne hne, hc1, update_self, h1]
    · rw [hc2, update_self, hc1, update_of_ne hne.symm, h2]

theorem table_open : ((table n rateLedger).withDeposit .player1 0).OpenFor (.ext 3) where
  unfunded _ := rfl
  pending := rfl
  isPlayer := .inr rfl
  fresh1 h := absurd (show Address.ext 3 = .ext 2 from h) (by decide)
  fresh2 _ := rfl

/-- The second deposit into the newest match. -/
theorem Crowded.deposit_second (h : Crowded (n + 1) n spent w) (hspent : spent < 500000)
    (hn : n < maxActiveMatchesPerPlayer)
    (hm : w.matchMap n = some ((table n rateLedger).withDeposit .player1 0)) :
    Crowded (n + 1) (n + 1) (spent + 100)
      (step w (.invoke (.plain [3] 0 0) (.deposit n (.ext 3)))) := by
  let m2 := ((table n rateLedger).withDeposit .player1 0).withDeposit .player2 0
  obtain ⟨ix, hix, hgame, hactive2, hactive3⟩ : ∃ ix, w.index.activate m2 n = some ix ∧
      ix.gameId = w.index.gameId ∧ ix.playerActiveMatchCount (.ext 2) = n + 1 ∧
      ix.playerActiveMatchCount (.ext 3) = n + 1 :=
    activate_of_room (show Address.ext 2 ≠ .ext 3 by decide) hn h.active2 h.active3
  have hactivate : m2.activate 0 n w.index = some (m2.activated 0, ix) := by
    rw [Match.activate, if_pos ⟨rfl, rfl⟩, hix]
    rfl
  obtain ⟨w', rfl, hcrowded, -⟩ := h.paidIn hspent (h.depositOpen hm table_open rfl) rfl rfl
    hactivate rfl hgame hactive2 hactive3
  exact hcrowded

/-- Players 2 and 3 fund `n` matches. -/
def crowd (n : ℕ) : List Event :=
  (List.range n).flatMap fun k => funding k 2 3 (gameNumber k)

/-- Player 2 has deposited into the next match, too. -/
theorem Crowded.newest (h : Crowded n n spent w) (hn : n < 9000) (hspent : spent < 500000)
    (hfree : w.matchMap n = none) :
    Crowded (n + 1) n (spent + 100) (run step w ((funding n 2 3 (gameNumber n)).take 2)) ∧
      ∃ rateLedger, (run step w ((funding n 2 3 (gameNumber n)).take 2)).matchMap n =
        some ((table n rateLedger).withDeposit .player1 0) := by
  obtain ⟨rateLedger, w1, hw1, hcrowded, hm⟩ := h.create hfree (by omega)
  have hopen : DepositOpen (.plain [2] 0 0) w1 n (.ext 2) (table n rateLedger) :=
    hcrowded.depositOpen hm ⟨fun _ => rfl, rfl, .inl rfl, fun _ => rfl, fun _ => rfl⟩ rfl
  obtain ⟨w2, hw2, hcrowded2, hm2⟩ := hcrowded.paidIn hspent hopen rfl rfl rfl rfl rfl
    hcrowded.active2 hcrowded.active3
  have hrun : run step w ((funding n 2 3 (gameNumber n)).take 2) = w2 := by
    rw [← hw2, ← hw1]
    rfl
  rw [hrun]
  exact ⟨hcrowded2, rateLedger, hm2⟩

/-- Up to the cap the players can take one match after the other. -/
theorem run_crowd (hn : n ≤ maxActiveMatchesPerPlayer) :
    Crowded n n (200 * n) (run step .rich (crowd n)) := by
  induction n with
  | zero => exact ⟨rfl, rfl, fun _ _ _ => rfl, rfl, rfl, rfl, rfl, fun _ => le_rfl⟩
  | succ n ih =>
    have hcrowded := ih (by omega)
    have hw : Reachable (run step .rich (crowd n)) := ⟨_, _, World.rich_initial, rfl⟩
    have hfree := hw.sound.free n hcrowded.count.le
    have hroom : n < 1000 := hn
    obtain ⟨hnewest, rateLedger, hm⟩ := hcrowded.newest (by omega) (by omega) hfree
    have hrun : run step .rich (crowd (n + 1)) =
        step (run step (run step .rich (crowd n)) ((funding n 2 3 (gameNumber n)).take 2))
          (.invoke (.plain [3] 0 0) (.deposit n (.ext 3))) := by
      rw [crowd, List.range_succ, List.flatMap_append, run_append]
      rfl
    rw [hrun]
    exact hnewest.deposit_second (by omega) hn hm

/-- Both players have `n` active matches, and player 2 has deposited into one more. -/
def fullHouse (n : ℕ) : List Event := crowd n ++ (funding n 2 3 (gameNumber n)).take 2

theorem run_fullHouse (hn : n ≤ maxActiveMatchesPerPlayer) :
    Crowded (n + 1) n (200 * n + 100) (run step .rich (fullHouse n)) ∧
      ∃ rateLedger, (run step .rich (fullHouse n)).matchMap n =
        some ((table n rateLedger).withDeposit .player1 0) := by
  have hw : Reachable (run step .rich (crowd n)) := ⟨_, _, World.rich_initial, rfl⟩
  have hcrowded := run_crowd hn
  unfold maxActiveMatchesPerPlayer at hn
  rw [fullHouse, run_append]
  exact hcrowded.newest (by omega) (by omega) (hw.sound.free n hcrowded.count.le)

/-- In a full house the deposit of player 3 fails after the transfer. -/
theorem Crowded.depositBatch_full
    (h : Crowded (n + 1) maxActiveMatchesPerPlayer spent w) (hspent : spent < 500000)
    (hm : w.matchMap n = some ((table n rateLedger).withDeposit .player1 0)) :
    ∃ w', depositBatch [(n, .ext 3)] (.plain [3] 0 0) w.fresh =
        .ok [some .tooManyActiveMatches] w' ∧
      w'.ledger (.ext 4) (.ext 3) + 100 = w.ledger (.ext 4) (.ext 3) ∧
      (w'.matchMap n).map Match.player2Deposited = some false := by
  have hfunds := h.funds 3
  have hle : 100 ≤ w.ledger (.ext 4) (.ext 3) := by omega
  have hopen := h.depositOpen hm table_open rfl
  have hnone : (((table n rateLedger).withDeposit .player1 0).withDeposit .player2 0).activate
      0 n w.index = none :=
    (withDeposit_activate_eq_none_iff (show Address.ext 2 ≠ .ext 3 by decide)).mpr
      ⟨rfl, .player1, h.active2.ge⟩
  obtain ⟨w', herr, hledger, hmap⟩ : ∃ w', deposit n (.ext 3) (.plain [3] 0 0) w =
      .err .tooManyActiveMatches w' ∧
      w'.ledger (.ext 4) (.ext 3) + 100 = w.ledger (.ext 4) (.ext 3) ∧
      w'.matchMap = w.matchMap := by
    obtain ⟨ix, herr⟩ := deposit_of_none hopen (plain_transfer hle) hnone
    refine ⟨_, herr, ?_, rfl⟩
    simp [World.staked, World.guarded, Ledger.credit, Ledger.debit]
    omega
  have hpaused : w.control.paused = false := by
    rw [h.control]
    rfl
  rw [fresh_of_control h.control]
  refine ⟨w', by simp [depositBatch, Tx.batch, herr, hpaused], hledger, ?_⟩
  rw [hmap, hm]
  rfl

/-- Both players are at the cap. The deposit of player 3 is reported as failed, its stake is
taken, and the match does not know of it. -/
theorem depositBatch_at_cap : Reachable (run step .rich (fullHouse 1000)) ∧
    ∃ w', depositBatch [(1000, .ext 3)] (.plain [3] 0 0)
        (run step .rich (fullHouse 1000)).fresh = .ok [some .tooManyActiveMatches] w' ∧
      w'.ledger (.ext 4) (.ext 3) + 100 =
        (run step .rich (fullHouse 1000)).ledger (.ext 4) (.ext 3) ∧
      (w'.matchMap 1000).map Match.player2Deposited = some false := by
  obtain ⟨hfull, rateLedger, hm⟩ := run_fullHouse (n := 1000) le_rfl
  exact ⟨⟨_, _, World.rich_initial, rfl⟩, hfull.depositBatch_full (by omega) hm⟩

end Cap

end Checkmate.Escrow

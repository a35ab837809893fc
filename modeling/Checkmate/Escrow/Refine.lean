import Checkmate.Escrow.Book

/-!
# The contract keeps the book

Every entry point, seen through `World.book` and `World.register`, makes at most one of the
changes that the abstract book and the register allow for its action (`exec_effect`), except a
batch, where each entry contributes one, whether it returns or fails (`exec_effects`).
Administration leaves both alone.
-/

namespace Checkmate.Escrow

open Tx

variable {env : Env} {w w' w1 : World} {config : ProtocolConfig} {period id : ℕ} {u : Unit}
  {a : Action} {m m' : Match} {pw : Option Winner} {ts : List Transfer}
  {deltas : List (Address × ℤ)} {ix : Index} {st : Stats} {caller oracle player : Address}
  {e : Error} {batch : Bool} {winner : Winner} {call : Call}

/-- The settings : everything administrative but what an invocation notes in passing. -/
def Control.settings (c : Control) : Control := { c with oracleRotation := none, authed := [] }

theorem getDisputePeriod_of_settings {c c' : Control} (h : c'.settings = c.settings) :
    c'.getDisputePeriod = c.getDisputePeriod := by
  have hperiod : c'.settings.disputePeriod = c.settings.disputePeriod := by rw [h]
  exact congrArg (Option.getD · 0) hperiod

/-- The book changes as `R` allows, the register as `S` does, and the settings stay as they are.
Only a deposit inside a batch can leave a guard set that was not. -/
structure Framed (R : Book → Book → Prop) (S : Register → Register → Prop) (a : Action)
    (w w' : World) : Prop where
  book : R w.book w'.book
  register : S w.register w'.register
  settings : w'.control.settings = w.control.settings
  guards : a ≠ .deposit true → w'.depositInProgress ≤ w.depositInProgress

/-- The effect of a call : at most one change. -/
abbrev Effect (env : Env) (config : ProtocolConfig) (period : ℕ) (a : Action) :
    World → World → Prop :=
  Framed (Relation.ReflGen (Change env config period a))
    (Relation.ReflGen (Refiles env period a)) a

/-- The effect of a batch. -/
abbrev Effects (env : Env) (config : ProtocolConfig) (period : ℕ) (a : Action) :
    World → World → Prop :=
  Framed (Changes env config period a) (Relation.ReflTransGen (Refiles env period a)) a

theorem Effect.of_same (hbook : w'.book = w.book) (hregister : w'.register = w.register)
    (hsettings : w'.control.settings = w.control.settings)
    (hguards : a ≠ .deposit true → w'.depositInProgress ≤ w.depositInProgress) :
    Effect env config period a w w' :=
  ⟨hbook ▸ .refl, hregister ▸ .refl, hsettings, hguards⟩

theorem Effect.refl (w : World) : Effect env config period a w w :=
  .of_same rfl rfl rfl fun _ => le_rfl

theorem Effect.effects (h : Effect env config period a w w') :
    Effects env config period a w w' :=
  ⟨h.book.to_reflTransGen, h.register.to_reflTransGen, h.settings, h.guards⟩

theorem Effects.refl (w : World) : Effects env config period a w w :=
  (Effect.refl w).effects

theorem Effects.trans {w2 w3 : World} (h : Effects env config period a w1 w2)
    (h' : Effects env config period a w2 w3) : Effects env config period a w1 w3 :=
  ⟨h.book.trans h'.book, h.register.trans h'.register, h'.settings.trans h.settings,
    fun ha => (h'.guards ha).trans (h.guards ha)⟩

section

variable {R : Book → Book → Prop} {S : Register → Register → Prop}

/-- The checks before a call do not count. -/
theorem Framed.after (h : Framed R S a w1 w') (hbook : w1.book = w.book)
    (hregister : w1.register = w.register) (hsettings : w1.control.settings = w.control.settings)
    (hguards : w1.depositInProgress = w.depositInProgress) : Framed R S a w w' :=
  ⟨hbook ▸ h.book, hregister ▸ h.register, h.settings.trans hsettings, hguards ▸ h.guards⟩

/-- Nor does a note made after it. -/
theorem Framed.before (h : Framed R S a w w1) (hbook : w'.book = w1.book)
    (hregister : w'.register = w1.register) (hsettings : w'.control.settings = w1.control.settings)
    (hguards : w'.depositInProgress = w1.depositInProgress) : Framed R S a w w' :=
  ⟨hbook ▸ h.book, hregister ▸ h.register, hsettings.trans h.settings, hguards ▸ h.guards⟩

end

/-- One step of a match that leaves the waiting winner. -/
theorem Effect.of_step {l : Ledger Address} (hm : w.matchMap id = some m)
    (hstep : MatchStep env config period id m (w.disputes.pendingWinner id) a ts
      deltas m' (w.disputes.pendingWinner id))
    (hl : w.ledger.Moves ts l)
    (hbook : w'.book = { w.book with
      matchMap := Function.update w.matchMap id (some m')
      escrow := applyDeltas w.escrow deltas
      ledger := l
      log := ts ++ w.log })
    (hregister : Relation.ReflGen (Refiles env period a) w.register w'.register)
    (hsettings : w'.control.settings = w.control.settings)
    (hguards : a ≠ .deposit true → w'.depositInProgress ≤ w.depositInProgress) :
    Effect env config period a w w' := by
  refine ⟨?_, hregister, hsettings, hguards⟩
  have hmoved := w.book.moved_self id m' ts deltas l
  rw [hbook.trans hmoved.symm]
  exact .single (.moving hm hstep hl)

/-- A step of a match in the register. -/
theorem FileStep.refiles (h : FileStep env period id m w.index w.stats a m' ix st)
    (hm : w.matchMap id = some m) (hregister : w'.register = w.register.moved id m' ix st) :
    Relation.ReflGen (Refiles env period a) w.register w'.register := by
  rw [hregister]
  exact .single (.inl (.moving hm h))

/-- One step of a match in the book and in the register. -/
theorem Effect.step {l : Ledger Address} (hm : w.matchMap id = some m)
    (hstep : MatchStep env config period id m (w.disputes.pendingWinner id) a ts
      deltas m' (w.disputes.pendingWinner id))
    (hfile : FileStep env period id m w.index w.stats a m' ix st) (hl : w.ledger.Moves ts l)
    (hbook : w'.book = { w.book with
      matchMap := Function.update w.matchMap id (some m')
      escrow := applyDeltas w.escrow deltas
      ledger := l
      log := ts ++ w.log })
    (hregister : w'.register = w.register.moved id m' ix st)
    (hsettings : w'.control.settings = w.control.settings)
    (hguards : a ≠ .deposit true → w'.depositInProgress ≤ w.depositInProgress) :
    Effect env config period a w w' :=
  .of_step hm hstep hl hbook (hfile.refiles hm hregister) hsettings hguards

/-! ## Play -/

theorem heartbeatMatch_effect
    (h : heartbeatMatch id player env w = .ok u w') :
    Effect env config period .heartbeat w w' := by
  simp [heartbeatMatch] at h
  obtain ⟨-, m, hm, -, -, hstate, rfl⟩ := h
  exact .step hm (.heartbeat hstate) (.heartbeat hstate) .nil rfl rfl rfl fun _ => le_rfl

theorem pauseMatch_effect
    (h : pauseMatch id caller env w = .ok u w') :
    Effect env config period .pause w w' := by
  simp [pauseMatch] at h
  obtain ⟨-, m, hm, hstate, -, -, balance, -, rfl⟩ := h
  exact .step hm (.pause hstate _ _) (.pause hstate _ _) .nil rfl rfl rfl fun _ => le_rfl

theorem resumeMatch_effect
    (h : resumeMatch id caller env w = .ok u w') :
    Effect env config period .resume w w' := by
  simp [resumeMatch] at h
  obtain ⟨-, m, hm, hstate, -, balance, -, rfl⟩ := h
  exact .step hm (.resume hstate none _) (.resume hstate none _) .nil rfl rfl rfl fun _ => le_rfl

/-! ## Payouts -/

theorem finalizeMatch_effect (h : finalizeMatch id env w = .ok u w') :
    Effect env config period .finalize w w' := by
  obtain ⟨m, winner, w1, hopen, hpay, rfl⟩ := finalizeMatch_ok h
  obtain ⟨ts, ⟨l, hl, rfl⟩, hrel⟩ := executePayout_ok hpay
  exact .step hopen.stored (.finalize hopen.waits (by simp [hopen.pendingWinner]) hrel)
    (.paid (.inl rfl) hopen.waits) hl rfl rfl rfl fun _ => le_rfl

theorem resolveDisputeByVote_effect {disputeId : ℕ}
    (h : resolveDisputeByVote disputeId env w = .ok u w') :
    Effect env config period .resolve w w' := by
  obtain ⟨d, m, winner, w1, w2, hopen, hpay, hbond, rfl⟩ := resolveDisputeByVote_ok h
  obtain ⟨ts, ⟨l, hl, rfl⟩, hrel⟩ := executePayout_ok hpay
  obtain ⟨l', hl', rfl⟩ := transfer_paid hbond
  exact .step hopen.stored (.resolve _ _ hopen.waits (by simp [hopen.pendingWinner]) hrel)
    (.paid (.inr rfl) hopen.waits) (hl.append hl') rfl rfl rfl fun _ => le_rfl

theorem adminResolveStalledMatch_effect {resolution : Winner}
    (h : adminResolveStalledMatch id caller resolution env w = .ok u w') :
    Effect env config period .stall w w' := by
  simp [adminResolveStalledMatch] at h
  obtain ⟨-, hne, m, hm, hstalled, -, -, _, w1, hpay, h⟩ := h
  obtain ⟨ts, ⟨l, hl, rfl⟩, hrel⟩ := payStalled_ok hpay
  have hstate : m.state = .active ∨ m.state = .paused := hstalled.symm.imp_left And.left
  rcases h with ⟨hdraw, rfl⟩ | ⟨hdraw, rfl⟩
  · exact .step hm (.stall resolution hne hstate hrel) (.stall resolution hne hstate) hl rfl
      (by rw [if_neg hdraw]; rfl) rfl fun _ => le_rfl
  · exact .step hm (.stall resolution hne hstate hrel) (.stall resolution hne hstate) hl rfl
      (by rw [if_pos hdraw]; rfl) rfl fun _ => le_rfl

theorem claimVestedPayout_effect
    (h : claimVestedPayout id player env w = .ok u w') :
    Effect env w.control.config period (.claim id) w w' := by
  obtain ⟨m, w1, hopen, hpay, rfl⟩ := claimVestedPayout_ok h
  obtain ⟨ts, amount, ⟨l, hl, rfl⟩, hrel, hclaimed, hwinner, hle⟩ := paySide_ok hpay
  obtain ⟨vestedAt, hvested, -⟩ := hopen.vested
  exact .step hopen.stored
    (.claim _ hopen.completed (by simp [hvested]) hclaimed hwinner hrel hle)
    (.claim _ hopen.completed) hl rfl rfl rfl fun _ => le_rfl

theorem disputeOracleResult_effect {disputer : Address} {evidenceHash : Bytes} {n : ℕ}
    (h : disputeOracleResult id disputer evidenceHash env w = .ok n w') :
    Effect env config period .dispute w w' := by
  obtain ⟨m, share, l, quorum, oracle, hopen, hl, -, -, -, rfl⟩ := disputeOracleResult_ok h
  refine .of_step hopen.stored (.bond disputer (max share 1) hopen.waits)
    (.cons .nil (Env.transfer_eq_some hl)) ?_ .refl rfl fun _ => le_rfl
  simp [World.book, World.disputing, World.newDispute, applyDeltas, ← hopen.stored]

/-! ## Closing -/

theorem cancelMatch_effect
    (h : cancelMatch id caller env w = .ok u w') :
    Effect env config period (.cancel id) w w' := by
  simp [cancelMatch, markCancelled, releaseCounters, snapshotCancelled] at h
  obtain ⟨-, m, hm, hstate, -, -, _, w1, hpay, balance, -, rfl⟩ := h
  obtain ⟨fee, amountB, feeB, hfee, hB, l, hl, rfl⟩ := refundCancelled_ok hpay
  obtain ⟨amount, hrel, hamount⟩ := cancelTransfers_releases hfee hB
  exact .step hm
    (.cancel (.inl rfl) hstate hrel fun hstake hsingle => (hamount hstake hsingle).le)
    (.close (.inl rfl) hstate) hl (by rw [← releaseEscrow_eq]; rfl) rfl rfl fun _ => le_rfl

theorem expireMatch_effect (h : expireMatch id env w = .ok u w')
    (ha : a = .cancel id ∨ a = .expireMany) : Effect env config period a w w' := by
  simp [expireMatch, markCancelled, releaseCounters, snapshotCancelled] at h
  obtain ⟨m, hm, hstate, -, -, _, w1, hpay, balance, -, rfl⟩ := h
  obtain ⟨amountB, hB, l, hl, rfl⟩ := refundDeposits_ok hpay
  exact .step hm (.cancel ha hstate (refunds_releases hB) fun _ _ => le_rfl)
    (.close (ha.imp_right .inl) hstate) hl (by rw [← releaseEscrow_eq]; rfl) rfl rfl
    fun _ => le_rfl

/-- A failing expiry of a multi-token match may have paid the first refund. -/
theorem expireMatch_err (h : expireMatch id env w = .err e w') :
    Effect env config period .expireMany w w' := by
  simp [expireMatch, markCancelled, releaseCounters, snapshotCancelled] at h
  rcases h with ⟨-, -, rfl⟩ | ⟨m, hm, h⟩
  · exact .refl _
  rcases h with ⟨-, -, rfl⟩ | ⟨hstate, ⟨-, -, rfl⟩ | ⟨-, ⟨-, -, rfl⟩ | ⟨-, h⟩⟩⟩
  · exact .refl _
  · exact .refl _
  · exact .refl _
  obtain ⟨-, ha, l, hl, rfl⟩ := refundDeposits_err h
  have hmulti : m.tokenB ≠ none := fun hB => by simp [amountB_of_single hB] at ha
  have hrel : Releases id m .refund 0 (if m.player1Deposited then
      [refundTransfer id m .player1 m.token m.stakeAmount] else []) := by
    refine ⟨fun t ht => ?_, fun hB => absurd hB hmulti⟩
    split at ht <;> simp_all [refundTransfer, outgoing, Leg.kind]
  exact .of_step hm (.strayRefund hstate hrel hmulti) hl (by simp [World.book, applyDeltas, ← hm])
    .refl rfl fun _ => le_rfl

theorem adminRecoverMatch_effect (h : adminRecoverMatch id env w = .ok u w') :
    Effect env config period (.recover id) w w' := by
  simp [adminRecoverMatch, markCancelled, snapshotCancelled] at h
  obtain ⟨admin, -, m, hm, hstate, -, _, w1, hpay, balance, -, rfl⟩ := h
  obtain ⟨ts, amountB, hB, hsub, l, hl, rfl⟩ := refundRecovered_ok hpay
  obtain ⟨hrel, hle⟩ := recovered_releases hB hsub
  exact .step hm (.recover hstate hrel hle) (.close (.inr (.inr rfl)) hstate) hl rfl rfl rfl
    fun _ => le_rfl

theorem releases_voteRollback {side : Side} {kind : LegKind}
    (h : Releases id (m.voteRollback side) kind (m.voteRollback side).funded ts) :
    Releases id m kind m.funded ts := by
  cases side <;> exact ⟨h.cause, h.single⟩

theorem disputeAndRollbackMatch_effect {disputer : Address} {reason : Bytes}
    (h : disputeAndRollbackMatch id disputer reason env w = .ok u w') :
    Effect env config period (.rollback id disputer) w w' := by
  simp [disputeAndRollbackMatch, markCancelled, snapshotCancelled] at h
  obtain ⟨-, ⟨hauth, -⟩, m, hm, hplayer, -, hstate, -, h⟩ := h
  have hauth' : m.player (m.sideOf disputer) ∈ env.auths := by
    rwa [Match.player_sideOf hplayer]
  rw [← Match.player_sideOf hplayer]
  rcases h with ⟨hvotes, _, w1, hpay, balance, -, rfl⟩ | ⟨-, rfl⟩
  · obtain ⟨amountB, hB, l, hl, rfl⟩ := refundDeposits_ok hpay
    refine .step hm (.rollback _ hstate hauth' hvotes
      (releases_voteRollback (refunds_releases hB))) (.rollback (m.sideOf disputer) _ hstate) hl
      (by simp [World.book, applyDeltas]) ?_ rfl fun _ => le_rfl
    cases m.sideOf disputer <;> ext1 <;> simp [World.register, Index.retire] <;> rfl
  · exact .step hm (.rollbackVote _ hstate hauth') (.rollbackVote _ _ hstate) .nil rfl rfl rfl
      fun _ => le_rfl

/-! ## Deposits and settlements -/

/-- The transfer of an open deposit is the stake of the depositor's side. -/
theorem DepositOpen.moves {l : Ledger Address}
    (h : DepositOpen env w id player m)
    (hl : env.transfer w.ledger m.token player .self m.stakeAmount = some l) :
    w.ledger.Moves [depositTransfer id m (m.sideOf player)] l := by
  rw [← Match.player_sideOf h.isPlayer] at hl
  exact .cons .nil (Env.transfer_eq_some hl)

theorem staked_log (h : DepositOpen env w id player m)
    (l : Ledger Address) :
    (w.staked id m player l).log =
      [depositTransfer id m (m.sideOf player)] ++ w.log := by
  simp [World.staked, World.guarded, depositTransfer, Match.player_sideOf h.isPlayer]

theorem staked_escrow (h : DepositOpen env w id player m)
    (l : Ledger Address) :
    (w.staked id m player l).escrow =
      applyDeltas w.escrow [(m.player (m.sideOf player), m.stakeAmount)] := by
  simp [World.staked, applyDeltas, Match.player_sideOf h.isPlayer]

theorem deposit_effect
    (h : deposit id player env w = .ok u w') :
    Effect env config period (.deposit batch) w w' := by
  obtain ⟨m, l, m', ix, balance, hopen, hl, hix, hb, rfl⟩ := deposit_ok_iff.mp h
  obtain ⟨hstep, hfile⟩ : MatchStep env config period id m (w.disputes.pendingWinner id)
        (.deposit batch) [depositTransfer id m (m.sideOf player)]
        [(m.player (m.sideOf player), m.stakeAmount)] m' (w.disputes.pendingWinner id) ∧
      FileStep env period id m w.index w.stats (.deposit batch) m' ix w.stats := by
    unfold Match.activate at hix
    split at hix
    · rename_i hfunded
      obtain ⟨_, hix', heq⟩ := Option.map_eq_some_iff.mp hix
      obtain ⟨rfl, rfl⟩ := Prod.mk.inj heq
      have hpot := pot_le_of_escrowBalanceOf hb rfl hfunded
      have hother := withDeposit_funded_iff.mp hfunded
      exact ⟨.activate _ hopen.pending hopen.side_deposited hother
        (by simpa [Match.activated] using hpot),
        .activate _ hopen.pending hopen.side_deposited hother hix'⟩
    · rename_i hfunded
      obtain ⟨rfl, rfl⟩ := Prod.mk.inj (Option.some.inj hix)
      rw [withDeposit_funded_iff, Bool.not_eq_true] at hfunded
      exact ⟨.deposit _ hopen.pending hopen.side_deposited hfunded,
        .deposit _ hopen.pending hopen.side_deposited hfunded⟩
  refine .step hopen.stored hstep hfile (hopen.moves hl) ?_ rfl rfl fun _ => ?_
  swap
  · rw [stored_guards hopen.unguarded]
  rw [← staked_escrow hopen l, ← staked_log hopen l]
  rfl

theorem deposit_err_effect
    (h : deposit id player env w = .err e w') :
    Effect env config period (.deposit true) w w' := by
  rcases deposit_err h with h | ⟨m, l, ix, hopen, hl, hix, -, rfl⟩
  · cases h <;> exact .of_same rfl rfl rfl fun ha => absurd rfl ha
  · have hother : m.deposited (m.sideOf player).other = true := by
      unfold Match.activate at hix
      split at hix
      · exact withDeposit_funded_iff.mp ‹_›
      · exact absurd hix (by simp)
    refine .of_step hopen.stored (.strayDeposit _ hopen.pending hopen.side_deposited hother)
      (hopen.moves hl) ?_ (.single (.inr ⟨rfl, ix, rfl⟩)) rfl fun ha => absurd rfl ha
    rw [← staked_escrow hopen l, ← staked_log hopen l, ← hopen.stored, Function.update_eq_self]
    rfl

theorem settledNow_effect (hopen : SettleOpen w id winner m)
    (hperiod : w.control.getDisputePeriod = 0) :
    Effect env config w.control.getDisputePeriod (.settle batch) w
      ((w.resulted env id winner m).settledNow env id (m.resulted env winner)) := by
  refine .step hopen.stored (.settleNow winner hopen.winner hopen.state hperiod)
    (.settleNow winner hopen.winner hopen.state hperiod) .nil ?_ ?_ rfl fun _ => le_rfl
  · simp [World.book, World.settledNow, World.resulted, applyDeltas, Match.bothDeltas,
      Match.resulted]
  · simp only [World.register, Register.moved, World.settledNow, World.resulted]
    simp
    exact ⟨rfl, rfl⟩

theorem settleResult_effect
    (h : settleResult id winner env w = .ok u w')
    (hperiod : w.control.getDisputePeriod = period) :
    Effect env config period (.settle batch) w w' := by
  subst hperiod
  obtain ⟨m, hopen, ⟨hp, -, rfl⟩ | ⟨hp, balance, -, -, rfl⟩⟩ := settleResult_ok_iff.mp h
  · exact settledNow_effect hopen hp
  · refine ⟨?_, FileStep.refiles (.settleLater winner hopen.winner hopen.state hp) hopen.stored ?_,
      rfl, fun _ => le_rfl⟩
    swap
    · simp only [World.register, Register.moved, World.settledLater, World.resulted]
      simp
      exact ⟨rfl, rfl⟩
    have hbook : ((w.resulted env id winner m).settledLater env id
        (m.resulted env winner) (env.sequence + w.control.getDisputePeriod) balance).book =
        w.book.moved id ((m.resulted env winner).withState .pendingResult) (some winner) []
          [] w.ledger := by
      ext1 <;> simp [World.book, Book.moved, World.settledLater, World.resulted, Match.resulted,
        applyDeltas]
    rw [hbook]
    exact .single (.moving hopen.stored (.settleLater winner hopen.winner hopen.state hp) .nil)

theorem settleResult_err_effect
    (h : settleResult id winner env w = .err e w')
    (hperiod : w.control.getDisputePeriod = period) :
    Effect env config period (.settle true) w w' := by
  subst hperiod
  cases settleResult_err h with
  | rejected => exact .refl _
  | potOverflow hopen hp =>
    exact settledNow_effect hopen hp
  | deadlineOverflow hopen hp =>
    exact .step hopen.stored (.settleHalf winner hopen.winner hopen.state hp)
      (.settleHalf winner hopen.winner hopen.state hp) .nil rfl rfl rfl fun _ => le_rfl

/-! ## Creation -/

section Creation

variable {p : MatchParams}

theorem tierAllows_bounds {st : Stats} {player : Address} {stake : ℤ}
    (h : st.tierAllows player stake = true) : 1 ≤ stake ∧ stake ≤ i128Max := by
  simp only [Stats.tierAllows, Bool.and_eq_true, decide_eq_true_eq] at h
  revert h
  cases tierForCompletedMatches (st.playerCompletedMatchCount player) <;>
    simp only [minTierStake, maxTierStake, i128Max] <;> omega

theorem authorizeCreation_ok (h : authorizeCreation p env w = .ok u w') :
    p.player1 ∈ env.auths ∧ ∃ c, c.fresh = w.control.fresh ∧ w' = w.withControl c := by
  unfold authorizeCreation at h
  cases hb : p.bracketId with
  | none =>
    simp [hb] at h
    exact ⟨h.1.1, w.control.useAuth p.player1, rfl, h.2⟩
  | some =>
    simp [hb] at h
    obtain ⟨⟨hauth, -⟩, organizer, -, -, rfl⟩ := h
    exact ⟨hauth, (w.control.useAuth p.player1).useAuth organizer, rfl, rfl⟩

theorem checkParams_ok (h : checkParams p env w = .ok u w') (hauth : p.player1 ∈ env.auths) :
    w' = w ∧ p.Valid env := by
  simp [checkParams, validateGameIdFormat] at h
  obtain ⟨-, -, -, -, -, -, ⟨-, hrate⟩, -, hreferrer, htier, -, -, ⟨hne, hself⟩, ⟨htokens, rfl⟩,
    -⟩ := h
  have hstake := tierAllows_bounds htier
  refine ⟨rfl, hstake.1, hstake.2, hne, hauth, hself, ?_, htokens, ?_⟩
  · intro r hr
    rw [Option.mem_def.mp hr] at hreferrer
    simpa using hreferrer
  · intro rate hr
    rw [Option.mem_def.mp hr] at hrate
    simpa using hrate

theorem checkConversionRate_ok {rateLedger : Option ℕ}
    (h : checkConversionRate p env w = .ok rateLedger w') : w' = w := by
  unfold checkConversionRate at h
  cases hB : p.tokenB with
  | none =>
    simp [hB] at h
    exact h.1
  | some =>
    cases hr : p.conversionRate with
    | none =>
      simp [hB, hr] at h
      exact h.1
    | some =>
      simp [hB, hr] at h
      grind

/-- The state after a match was created. -/
theorem createMatchInternal_ok {n : ℕ} (h : createMatchInternal p env w = .ok n w') :
    p.Valid env ∧ w.matchMap w.matchCount = none ∧
      ∃ (rateLedger : Option ℕ) (c : Control) (snapshots : Snapshots),
        c.fresh = w.control.fresh ∧
        w' = { w with
          control := c
          matchMap := Function.update w.matchMap w.matchCount
            (some (p.newMatch env w.matchCount rateLedger))
          matchCount := w.matchCount + 1
          index := w.index.addMatch (p.newMatch env w.matchCount rateLedger)
          stats := w.stats.recordPlatformMatchCreated p.stakeAmount p.platform
          snapshots := snapshots } := by
  simp only [createMatchInternal, bind_ok_iff, ask_ok_iff, get_ok_iff, reject_ok_iff,
    orFail_ok_iff, saveMatch_ok_iff, modifyIndex_ok_iff, modify_ok_iff,
    recordSnapshot_ok_iff, modifyStats_ok_iff, pure_ok_iff, checkedAddU_eq_some] at h
  obtain ⟨_, _, ⟨rfl, rfl⟩, _, w1, hauth, _, w2, hparams, _, _, ⟨rfl, rfl⟩, _, _, ⟨hfree, rfl⟩,
    _, _, ⟨⟨rfl, -⟩, rfl⟩, rateLedger, w3, hrate, _, _, rfl, _, _, rfl, _, _, rfl, _, _,
    ⟨balance, -, rfl⟩, _, _, rfl, -, rfl⟩ := h
  obtain ⟨hplayer1, c, hc, rfl⟩ := authorizeCreation_ok hauth
  obtain ⟨rfl, hvalid⟩ := checkParams_ok hparams hplayer1
  obtain rfl := checkConversionRate_ok hrate
  exact ⟨hvalid, by simpa using hfree, rateLedger, c, _, hc, rfl⟩

theorem createMatchInternal_effect {n : ℕ} (h : createMatchInternal p env w = .ok n w') :
    Effect env config period .create w w' := by
  obtain ⟨hvalid, hfree, rateLedger, c, snapshots, hc, rfl⟩ := createMatchInternal_ok h
  have hsettings : c.fresh.settings = w.control.fresh.settings := by rw [hc]
  exact ⟨.single (.opening p rateLedger hvalid hfree),
    .single (.inl (.opening p rateLedger hvalid hfree)), hsettings, fun _ => le_rfl⟩

end Creation

/-! ## Votes -/

theorem voteOnDispute_effect {disputeId : ℕ} {voter : Address} {vote : Bool}
    (h : voteOnDispute disputeId voter vote env w = .ok u w') :
    Effect env config period a w w' := by
  obtain ⟨d, weight, -, -, -, rfl⟩ := voteOnDispute_ok_iff.mp h
  exact .of_same rfl rfl rfl fun _ => le_rfl

theorem effectiveOracle_ok {c c' : Control}
    (h : effectiveOracle env c = .ok oracle c') :
    ∃ rotation, c' = { c with oracleRotation := rotation } := by
  simp [effectiveOracle, getBaseOracle] at h
  obtain ⟨base, -, h⟩ := h
  cases hrot : c.getRotationState.temp with
  | none =>
    simp [hrot] at h
    exact ⟨_, h.2⟩
  | some =>
    simp [hrot] at h
    rcases ite_ok_iff.mp h with ⟨-, h⟩ | ⟨-, h⟩
    · simp at h
      exact ⟨_, h.2⟩
    · simp [Control.saveRotationState] at h
      exact ⟨_, h.2⟩

/-- Authorising a result leaves everything but the oracle rotation. -/
theorem authorizeResult_ok (h : authorizeResult oracle env w = .ok u w') :
    ∃ rotation, w' = w.withControl
      { w.control.useAuth oracle with oracleRotation := rotation } := by
  simp [authorizeResult] at h
  obtain ⟨c, ⟨-, -, heff⟩, rfl⟩ := h
  obtain ⟨rotation, rfl⟩ := effectiveOracle_ok heff
  exact ⟨rotation, rfl⟩

/-! ## Batches -/

theorem settleEntry_effect {entry : ℕ × Winner} (h : settleEntry entry env w = .ok u w')
    (hperiod : w.control.getDisputePeriod = period) :
    Effect env config period (.settle true) w w' := by
  simp [settleEntry] at h
  exact settleResult_effect h.2 hperiod

theorem settleEntry_err_effect {entry : ℕ × Winner}
    (h : settleEntry entry env w = .err e w') (hperiod : w.control.getDisputePeriod = period) :
    Effect env config period (.settle true) w w' := by
  simp [settleEntry] at h
  rcases h with ⟨-, -, rfl⟩ | ⟨-, h⟩
  · exact .refl _
  · exact settleResult_err_effect h hperiod

theorem depositBatch_effect {entries : List (ℕ × Address)} {os : List (Option Error)}
    (h : depositBatch entries env w = .ok os w') :
    Effects env config period (.deposit true) w w' := by
  simp [depositBatch] at h
  exact batch_rel .refl .trans (fun h => (deposit_effect h).effects)
    (fun h => (deposit_err_effect h).effects) h.2

theorem bulkExpireMatches_effect {matchIds expired : List ℕ}
    (h : bulkExpireMatches matchIds env w = .ok expired w') :
    Effects env config period .expireMany w w' := by
  cases hadmin : w.control.admin with
  | none =>
    simp [bulkExpireMatches, hadmin] at h
    rw [h.2]
    exact .refl _
  | some =>
    simp [bulkExpireMatches, hadmin] at h
    obtain ⟨-, os, h, -⟩ := h
    have hbatch : Effects env config period .expireMany _ _ :=
      batch_rel .refl .trans (fun h => (expireMatch_effect h (.inr rfl)).effects)
        (fun h => (expireMatch_err h).effects) h
    exact hbatch.after rfl rfl rfl rfl

/-! ## Invocations -/

@[simp] theorem void_ok_iff {α : Type} {x : EscrowTx α} :
    void x env w = .ok u w' ↔ ∃ r, x env w = .ok r w' := by
  simp [void]

/-- An entry point for one result settles one match at most. Besides, it writes authorisations,
the rotation and the votes of the oracles. -/
theorem exec_settle_once (h : call.exec env w = .ok u w') (ha : call.action = .settle false) :
    ∃ c s w1 s', (w1 = (w.withControl c).withConsensus s ∨ ∃ id winner,
        settleResult id winner env ((w.withControl c).withConsensus s) = .ok () w1) ∧
      w' = w1.withConsensus s' ∧ c.settings = w.control.settings := by
  have hsubmit {id winner oracle w'} (h : submitResult id winner oracle env w = .ok () w') :
      ∃ c, settleResult id winner env (w.withControl c) = .ok () w' ∧
        c.settings = w.control.settings := by
    simp only [submitResult, bind_ok_iff] at h
    obtain ⟨_, w1, hauth, h⟩ := h
    obtain ⟨rotation, rfl⟩ := authorizeResult_ok hauth
    exact ⟨_, h, rfl⟩
  cases call with
  | submitResult | submitDraw =>
    obtain ⟨c, h, hc⟩ := hsubmit h
    exact ⟨c, w.consensus, w', w'.consensus, .inr ⟨_, _, h⟩, rfl, hc⟩
  | submitResultWithOracleRecord =>
    simp [Call.exec, submitResultWithOracleRecord] at h
    obtain ⟨_, w1, h, rfl⟩ := h
    obtain ⟨c, h, hc⟩ := hsubmit h
    exact ⟨c, w.consensus, w1, _, .inr ⟨_, _, h⟩, rfl, hc⟩
  | submitResultConsensus =>
    obtain ⟨m, -, h⟩ := submitResultConsensus_ok_iff.mp h
    rcases ite_ok_iff.mp h with ⟨-, h⟩ | ⟨-, h⟩
    · exact ⟨_, _, w', w'.consensus, .inr ⟨_, _, h⟩, rfl, rfl⟩
    · rcases checkOracleDeadlock_ok_iff.mp h with ⟨-, rfl⟩ | ⟨-, rfl⟩ <;>
        exact ⟨_, _, _, _, .inl rfl, rfl, rfl⟩
  | resolveOracleDeadlock =>
    simp [Call.exec, resolveOracleDeadlock] at h
    obtain ⟨admin, -, m, -, -, -, h⟩ := h
    exact ⟨_, w.consensus, w', w'.consensus, .inr ⟨_, _, h⟩, rfl, rfl⟩
  | _ => exact absurd ha (by simp [Call.action])

/-- What the settlements in an entry point for results do to the state, the entry point does. -/
theorem exec_settle_rel {R : World → World → Prop}
    (haside : ∀ w c s, c.settings = w.control.settings → R w ((w.withControl c).withConsensus s))
    (htrans : ∀ {w1 w2 w3}, R w1 w2 → R w2 w3 → R w1 w3)
    (hok : ∀ {id winner w w'}, settleResult id winner env w = .ok () w' → R w w')
    (herr : ∀ {id winner e w w'}, settleResult id winner env w = .err e w' → R w w')
    (h : call.exec env w = .ok u w') (ha : call.action = .settle batch) : R w w' := by
  cases batch with
  | false =>
    obtain ⟨c, s, w1, s', hsettle, rfl, hc⟩ := exec_settle_once h ha
    refine htrans ?_ (haside w1 w1.control s' rfl)
    rcases hsettle with rfl | ⟨id, winner, h⟩
    · exact haside w c s hc
    · exact htrans (haside w c s hc) (hok h)
  | true =>
    cases call with
    | submitResultBatch =>
      obtain ⟨_, h⟩ := void_ok_iff.mp h
      simp [submitResultBatch, getBaseOracle] at h
      refine htrans (haside w _ w.consensus ?_) (batch_rel
        (fun w => haside w w.control w.consensus rfl) htrans ?_ ?_ h.2)
      · rfl
      · intro entry s s' hentry
        simp [settleEntry] at hentry
        exact hok hentry.2
      · intro entry s s' e hentry
        simp [settleEntry] at hentry
        rcases hentry with ⟨-, -, rfl⟩ | ⟨-, hentry⟩
        · exact haside _ _ _ rfl
        · exact herr hentry
    | _ => exact absurd ha (by simp [Call.action])

/-- Every entry point that is not administrative has the effect of its action. -/
theorem exec_effect (h : call.exec env w = .ok u w')
    (hcall : call.action ≠ .administer) (hbatch : call.isBatch = false) :
    Effect env w.control.config w.control.getDisputePeriod call.action w w' := by
  cases call with
  | initializeContract | control => exact absurd rfl hcall
  | depositBatch | submitResultBatch | bulkExpireMatches => exact Bool.noConfusion hbatch
  | createMatch | createMatchTournament | createMatchWithConversion
  | createMatchWithReferrer =>
    obtain ⟨_, h⟩ := void_ok_iff.mp h
    exact createMatchInternal_effect h
  | deposit => exact deposit_effect h
  | submitResult | submitDraw | submitResultWithOracleRecord | submitResultConsensus
  | resolveOracleDeadlock =>
    obtain ⟨c, s, w1, s', rfl | ⟨id, winner, hsettle⟩, rfl, hc⟩ := exec_settle_once h rfl
    · exact .of_same rfl rfl hc fun _ => le_rfl
    · have heffect : Effect env w.control.config w.control.getDisputePeriod (.settle false) w w1 :=
        (settleResult_effect hsettle (getDisputePeriod_of_settings hc)).after rfl rfl hc rfl
      exact heffect.before rfl rfl rfl rfl
  | cancelMatch => exact cancelMatch_effect h
  | expireMatch => exact expireMatch_effect h (.inl rfl)
  | adminRecoverMatch => exact adminRecoverMatch_effect h
  | pauseMatch => exact pauseMatch_effect h
  | resumeMatch => exact resumeMatch_effect h
  | heartbeatMatch => exact heartbeatMatch_effect h
  | disputeAndRollbackMatch => exact disputeAndRollbackMatch_effect h
  | adminResolveStalledMatch => exact adminResolveStalledMatch_effect h
  | finalizeMatch => exact finalizeMatch_effect h
  | disputeOracleResult =>
    obtain ⟨_, h⟩ := void_ok_iff.mp h
    exact disputeOracleResult_effect h
  | voteOnDispute => exact voteOnDispute_effect h
  | resolveDisputeByVote => exact resolveDisputeByVote_effect h
  | claimVestedPayout => exact claimVestedPayout_effect h

theorem exec_effects (h : call.exec env w = .ok u w')
    (hcall : call.action ≠ .administer) :
    Effects env w.control.config w.control.getDisputePeriod call.action w w' := by
  cases hbatch : call.isBatch with
  | false => exact (exec_effect h hcall hbatch).effects
  | true =>
    cases call with
    | depositBatch =>
      obtain ⟨_, h⟩ := void_ok_iff.mp h
      exact depositBatch_effect h
    | submitResultBatch =>
      -- the entries compose because none of them changes the dispute period
      exact exec_settle_rel (R := fun s s' => ∀ period, s.control.getDisputePeriod = period →
        Effects env w.control.config period (.settle true) s s')
        (fun _ _ _ hc _ _ => ⟨.refl, .refl, hc, fun _ => le_rfl⟩)
        (fun h h' _ hp => (h _ hp).trans
          (h' _ ((getDisputePeriod_of_settings (h _ hp).settings).trans hp)))
        (fun h _ hp => (settleResult_effect h hp).effects)
        (fun h _ hp => (settleResult_err_effect h hp).effects) h rfl _ rfl
    | bulkExpireMatches =>
      obtain ⟨_, h⟩ := void_ok_iff.mp h
      exact bulkExpireMatches_effect h
    | _ => exact Bool.noConfusion hbatch

end Checkmate.Escrow

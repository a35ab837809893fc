import Checkmate.Escrow.Waiting

/-!
# What a settlement takes out of the contract

`debits` adds up what transfers take from the contract in one token, whether they go to a player
or into a swap. A payout takes the pot in the stake token, and so do the claims of the entitled
players, as long as no negative cap on the protocol fee raises the winner's share. The resolution
of a stalled match pays the second stake as converted, and player 2 in the second token, although
both stakes came in the first : it takes the pot only if the conversion is at par and nothing is
paid in another token (`settlement_debits_iff`).
-/

namespace Checkmate.Escrow

open List

variable {env : Env} {w w' : World} {u : Unit} {i : ℕ} {m : Match} {side : Side}
  {token target : Address} {a b amount : ℤ} {ts us : List Transfer} {r : OracleRotationState}
  {c : Control}

/-- What the transfers take from the contract in `token`, bonds aside. -/
def debits (token : Address) (ts : List Transfer) : ℤ :=
  total (ts.filter fun t => t.source = .self && t.token = token && t.cause.leg.kind ≠ .bond)

/-- The transfers take `amount` of `token` from the contract, and nothing of any other token. -/
def Spends (token : Address) (amount : ℤ) (ts : List Transfer) : Prop :=
  ∀ t, debits t ts = if t = token then amount else 0

@[simp] theorem debits_nil : debits token [] = 0 := rfl

@[simp] theorem debits_append : debits token (ts ++ us) = debits token ts + debits token us := by
  simp [debits]

theorem debits_cons (t : Transfer) : debits token (t :: ts) =
      (if t.source = .self ∧ t.token = token ∧ t.cause.leg.kind ≠ .bond then t.amount else 0) +
        debits token ts := by
  unfold debits
  rw [filter_cons]
  by_cases h : t.source = .self ∧ t.token = token ∧ t.cause.leg.kind ≠ .bond
  · rw [if_pos h, if_pos (by simpa [and_assoc] using h), total_cons]
  · rw [if_neg h, if_neg (by simpa [and_assoc] using h), zero_add]

theorem Spends.append (h : Spends token a ts) (h' : Spends token b us) :
    Spends token (a + b) (us ++ ts) := by
  intro t
  rw [debits_append, h t, h' t]
  split <;> ring

theorem Spends.outgoing {leg : Leg} (hleg : leg.kind ≠ .bond) (amount : ℤ) :
    Spends token amount [outgoing i leg token target amount] := by
  intro t
  rw [debits_cons]
  simp [Escrow.outgoing, hleg, eq_comm]

theorem Spends.amount_eq (h : Spends token a ts) : debits token ts = a := by
  rw [h token, if_pos rfl]

theorem Spends.eq (h : Spends token a ts) (h' : Spends token b ts) : a = b := by
  rw [← h.amount_eq, ← h'.amount_eq]

/-! ## The oracle is another contract -/

/-- Neither the oracle nor the one that is proposed is the contract itself. -/
structure Control.OracleElsewhere (c : Control) : Prop where
  oracle : c.oracle ≠ some .self
  proposed : c.getRotationState.pendingNewOracle ≠ some .self

theorem OracleRotationState.pendingNewOracle_of_pending {p : PendingOracleRotation}
    (h : r.pending = some p) : r.pendingNewOracle = some p.newOracle := by
  unfold OracleRotationState.pending at h
  split at h
  · rename_i hnew
    rw [hnew, ← Option.some.inj h]
  · simp at h

theorem Control.pendingNewOracle_saveRotationState (h : r.pendingNewOracle ≠ some .self) :
    (c.saveRotationState r).getRotationState.pendingNewOracle ≠ some .self := by
  unfold Control.saveRotationState Control.getRotationState
  by_cases hempty : r.isEmpty = true
  · simp [hempty]
  · simpa [hempty] using h

theorem Control.OracleElsewhere.of_eq {c' : Control} (h : c.OracleElsewhere)
    (horacle : c'.oracle = c.oracle) (hrotation : c'.oracleRotation = c.oracleRotation) :
    c'.OracleElsewhere := by
  have hstate : c'.getRotationState = c.getRotationState := by
    simp [Control.getRotationState, hrotation]
  exact ⟨horacle ▸ h.oracle, hstate ▸ h.proposed⟩

theorem Control.OracleElsewhere.save
    (h : c.OracleElsewhere) (hr : r.pendingNewOracle ≠ some .self) :
    (c.saveRotationState r).OracleElsewhere :=
  ⟨h.oracle, Control.pendingNewOracle_saveRotationState hr⟩

theorem Control.OracleElsewhere.drop (h : c.OracleElsewhere) :
    c.dropRotation.OracleElsewhere := h.save h.proposed

theorem effectiveOracle_elsewhere : Tx.Maintains env Control.OracleElsewhere effectiveOracle :=
  effectiveOracle_maintains fun _ _ _ _ hc => hc.drop

theorem ControlCall.exec_elsewhere {call : ControlCall} {c' : Control}
    (h : call.exec env c = .ok u c') (hc : c.OracleElsewhere) : c'.OracleElsewhere := by
  cases honOracle : call.onOracle with
  | false =>
    obtain ⟨horacle, hrotation⟩ := Prod.mk.inj ((ControlCall.exec_frames_oracle honOracle).ok h)
    exact hc.of_eq horacle hrotation
  | true =>
    cases call with
    | getOracle =>
      obtain ⟨_, _, heff, hpure⟩ := Tx.bind_ok_iff.mp h
      obtain ⟨-, rfl⟩ := Tx.pure_ok_iff.mp hpure
      exact effectiveOracle_elsewhere.ok hc heff
    | updateOracle =>
      simp [ControlCall.exec, Escrow.updateOracle, getBaseOracle] at h
      obtain ⟨admin, -, hne, -, rfl⟩ := h
      refine ⟨fun hself => hne (Option.some.inj hself), ?_⟩
      exact Control.pendingNewOracle_saveRotationState (by simp [OracleRotationState.setPending])
    | rotateOracleTemporary =>
      simp [ControlCall.exec, Escrow.rotateOracleTemporary] at h
      obtain ⟨admin, -, -, -, c1, heff, rfl⟩ := h
      have hauth : (c.useAuth admin).OracleElsewhere := hc.of_eq rfl rfl
      have hc1 := effectiveOracle_elsewhere.ok hauth heff
      exact hc1.save hc1.proposed
    | finalizeTempOracleRotation =>
      simp [ControlCall.exec, Escrow.finalizeTempOracleRotation, getBaseOracle] at h
      obtain ⟨_, -, -, -, rfl⟩ := h
      exact hc.drop
    | proposeOracleRotation =>
      simp [ControlCall.exec, Escrow.proposeOracleRotation, getBaseOracle] at h
      obtain ⟨admin, -, hne, -, rfl⟩ := h
      have hauth : (c.useAuth admin).OracleElsewhere := hc.of_eq rfl rfl
      exact hauth.save (by simp [OracleRotationState.setPending, hne])
    | rotateOraclePermanent =>
      simp [ControlCall.exec, Escrow.rotateOraclePermanent, getBaseOracle] at h
      obtain ⟨admin, -, proposal, hpending, ⟨-, rfl⟩, -, rfl⟩ := h
      have hproposed : c.getRotationState.pendingNewOracle = some proposal.newOracle :=
        OracleRotationState.pendingNewOracle_of_pending hpending
      refine ⟨fun hself => hc.proposed (hproposed.trans hself), ?_⟩
      simp [Control.getRotationState]
    | _ => exact Bool.noConfusion honOracle

theorem Reachable.oracleElsewhere (hw : Reachable w) : w.control.OracleElsewhere := by
  refine hw.control_inv (fun h0 => ?_) (fun _ hc => hc.of_eq rfl rfl)
    (fun _ _ hc => hc.of_eq rfl rfl) (fun _ hc => hc.drop) ControlCall.exec_elsewhere
  obtain ⟨oracle, admin, l, hne, rfl⟩ := h0.eq_mk
  exact ⟨fun hself => hne (Option.some.inj hself), by simp [Control.getRotationState]⟩

/-! ## Payouts -/

/-- A swap takes its input from the contract. -/
theorem Payment.spends {c : Control} {cause : Cause} (h : Payment c m cause target amount ts)
    (hleg : cause.leg.kind ≠ .bond) (hne : c.oracle ≠ some .self) : Spends m.token amount ts := by
  cases h with
  | transfer => exact .outgoing hleg amount
  | @swap oracle tokenB amountOut horacle =>
    have hother : oracle ≠ .self := fun hself => hne (horacle.trans (congrArg some hself))
    intro t
    rw [debits_cons, debits_cons]
    simp [hother, hleg, eq_comm]

theorem executePayout_spends {winner : Winner} (hne : w.control.oracle ≠ some .self)
    (h : executePayout i m winner env w = .ok u w') :
    ∃ ts, Paid w ts w' ∧ Spends m.token (2 * m.stakeAmount) ts := by
  obtain ⟨ts, hpaid, hts⟩ := executePayout_payout h
  refine ⟨ts, hpaid, ?_⟩
  cases hts with
  | player1 => exact .outgoing (by decide) _
  | player2 hpay => exact hpay.spends (by simp [Leg.kind]) hne
  | draw hpay =>
    rw [two_mul]
    exact (Spends.outgoing (by decide) m.stakeAmount).append (hpay.spends (by simp [Leg.kind]) hne)

/-! ## Stalled matches -/

/-- The second stake counts in full, and nothing is paid in another token. -/
def Match.StallsInKind (m : Match) (resolution : Winner) : Prop :=
  m.amountB = some m.stakeAmount ∧ (resolution = .player1 ∨ m.refundTokenB = m.token)

theorem stallTransfers_spends_iff {resolution : Winner} {amountB : ℤ} (hstake : 1 ≤ m.stakeAmount)
    (hB : m.amountB = some amountB) (hne : resolution ≠ .none) :
    Spends m.token (2 * m.stakeAmount) (stallTransfers i m amountB resolution) ↔
      m.StallsInKind resolution := by
  have hkind : m.StallsInKind resolution ↔
      amountB = m.stakeAmount ∧ (resolution = .player1 ∨ m.refundTokenB = m.token) := by
    rw [Match.StallsInKind, hB, Option.some_inj]
  rw [hkind]
  cases resolution with
  | none => exact absurd rfl hne
  | player1 =>
    have hspends : Spends m.token (m.stakeAmount + amountB)
      (stallTransfers i m amountB .player1) := .outgoing (by decide) _
    constructor
    · intro h
      have := h.eq hspends
      exact ⟨by omega, .inl rfl⟩
    · rintro ⟨rfl, -⟩
      rwa [two_mul]
  | player2 =>
    have hspends : Spends m.refundTokenB (m.stakeAmount + amountB)
      (stallTransfers i m amountB .player2) := .outgoing (by decide) _
    constructor
    · intro h
      have hpot := h m.token
      rw [hspends m.token, if_pos rfl] at hpot
      split at hpot
      · rename_i htoken
        exact ⟨by omega, .inr htoken.symm⟩
      · omega
    · rintro ⟨rfl, hor⟩
      rw [hor.resolve_left (by simp)] at hspends
      rwa [two_mul]
  | draw =>
    have hspends1 : Spends m.token m.stakeAmount
      [outgoing i (.stallPayout .player1) m.token m.player1 m.stakeAmount] :=
        .outgoing (by decide) _
    have hspends2 : Spends m.refundTokenB amountB
      [outgoing i (.stallPayout .player2) m.refundTokenB m.player2 amountB] :=
        .outgoing (by decide) _
    have hsum (t : Address) : debits t (stallTransfers i m amountB .draw) =
        (if t = m.refundTokenB then amountB else 0) + if t = m.token then m.stakeAmount else 0 := by
      rw [← hspends1 t, ← hspends2 t, ← debits_append]
      rfl
    constructor
    · intro h
      have hpot := (hsum m.token).symm.trans h.amount_eq
      rw [if_pos rfl] at hpot
      split at hpot
      · rename_i htoken
        exact ⟨by omega, .inr htoken.symm⟩
      · omega
    · rintro ⟨rfl, hor⟩ t
      rw [hsum, hor.resolve_left (by simp)]
      split <;> ring

/-! ## Claims -/

theorem feeLeg_spends (leg : Leg) (hleg : leg.kind ≠ .bond) (fee : ℤ) :
    Spends token (max fee 0) (feeLeg i leg token target fee) := by
  unfold feeLeg
  split
  · rw [max_eq_left (by omega)]
    exact .outgoing hleg fee
  · rw [max_eq_right (by omega)]
    intro t
    simp

theorem claimFees_spends (i : ℕ) (m : Match) (c : Control) :
    Spends m.token (max (c.referralFee m (2 * m.stakeAmount)) 0 +
      max (c.config.protocolFee (2 * m.stakeAmount)) 0) (claimFees i m c) :=
  (feeLeg_spends .referralFee (by decide) _).append (feeLeg_spends .protocolFee (by decide) _)

/-- What a claim takes : the pot of a win, and the stake of a draw. -/
theorem paySide_spends_iff (hstake : 1 ≤ m.stakeAmount) (hne : w.control.oracle ≠ some .self)
    (h : paySide i m side env w = .ok u w') :
    ∃ ts, Paid w ts w' ∧ (∀ t ∈ ts, t.cause.matchId = i ∧ t.cause.leg.kind = .claim) ∧
      (Spends m.token (m.entitlement side) ts ↔
        m.winner = .draw ∨ 0 ≤ w.control.config.protocolFee (2 * m.stakeAmount)) := by
  simp only [paySide, Tx.bind_ok_iff, Tx.reject_ok_iff] at h
  obtain ⟨_, _, ⟨-, hw⟩, h⟩ := h
  rw [hw] at h
  rcases Tx.ite_ok_iff.mp h with ⟨hwin, h⟩ | ⟨hwin, h⟩
  · obtain ⟨w1, hnet, hfees⟩ := payWinner_fees h
    obtain ⟨ts, hpaid, hts⟩ := payNet_ok hnet
    have htotal := (hts.spends (by simp [Leg.kind]) hne).append (claimFees_spends i m w.control)
    refine ⟨_, hpaid.trans hfees, fun t ht => ?_, ?_⟩
    · rcases mem_append.mp ht with ht | ht
      · exact (claimFees_releases w.control).cause t ht
      · exact hts.releases.cause t ht
    · have hpot : 0 ≤ 2 * m.stakeAmount := by omega
      have hreferral := referralFee_nonneg w.control m hpot
      have hdraw : m.winner ≠ .draw := hwin ▸ side.winner_ne_draw
      rw [Match.entitlement, if_pos hwin, or_iff_right hdraw]
      have hsum : w.control.netPayout m + (max (w.control.referralFee m (2 * m.stakeAmount)) 0 +
          max (w.control.config.protocolFee (2 * m.stakeAmount)) 0) = 2 * m.stakeAmount ↔
            0 ≤ w.control.config.protocolFee (2 * m.stakeAmount) := by
        rw [Control.netPayout]
        omega
      rw [← hsum]
      exact ⟨fun hs => htotal.eq hs, fun hs => hs ▸ htotal⟩
  · rcases Tx.ite_ok_iff.mp h with ⟨hdraw, h⟩ | ⟨-, h⟩
    · refine ⟨_, transfer_paid h, by simp [outgoing, Leg.kind], iff_of_true ?_ (.inl hdraw)⟩
      rw [Match.entitlement, if_neg hwin, if_pos hdraw]
      exact .outgoing (by simp [Leg.kind]) _
    · rcases Tx.ite_ok_iff.mp h with ⟨-, h⟩ | ⟨-, h⟩ <;> simp at h

/-! ## The settling calls -/

/-- The match that a call pays out. -/
def Call.paysOut (w : World) : Call → Option ℕ
  | .finalizeMatch matchId | .adminResolveStalledMatch matchId _ _
  | .claimVestedPayout matchId _ => some matchId
  | .resolveDisputeByVote disputeId => (w.disputes.dispute disputeId).map Dispute.matchId
  | _ => none

/-- What a call has to take for a match : the pot, or what a claim is entitled to. -/
def Call.due (m : Match) : Call → ℤ
  | .claimVestedPayout _ player => m.entitlement (m.sideOf player)
  | _ => 2 * m.stakeAmount

/-- A call that takes what it has to : a stalled match is paid in kind, and a claim of a win is
not raised by a negative protocol fee. -/
def Call.TakesDue (c : Control) (m : Match) : Call → Prop
  | .adminResolveStalledMatch _ _ resolution => m.StallsInKind resolution
  | .claimVestedPayout .. =>
    m.winner = .draw ∨ 0 ≤ c.config.protocolFee (2 * m.stakeAmount)
  | _ => True

theorem claimVestedPayout_spends_iff {player : Address} (hstake : 1 ≤ m.stakeAmount)
    (hne : w.control.oracle ≠ some .self) (hm : w.matchMap i = some m)
    (h : claimVestedPayout i player env w = .ok u w') :
    ∃ ts, Pays w ts w' ∧ (∀ t ∈ ts, t.cause.matchId = i ∧ t.cause.leg.kind = .claim) ∧
      w'.matchMap = Function.update w.matchMap i (some (m.setClaimed (m.sideOf player))) ∧
      m.claimed (m.sideOf player) = false ∧ (Spends m.token (m.entitlement (m.sideOf player)) ts ↔
        m.winner = .draw ∨ 0 ≤ w.control.config.protocolFee (2 * m.stakeAmount)) := by
  obtain ⟨m1, w1, hopen, hpay, rfl⟩ := claimVestedPayout_ok h
  obtain rfl : m = m1 := Option.mem_unique hm hopen.stored
  obtain ⟨-, -, -, -, hclaimed, -⟩ := paySide_ok hpay
  obtain ⟨ts, ⟨l, hl, rfl⟩, hcause, hiff⟩ :=
    paySide_spends_iff (w := w.withControl (w.control.useAuth player)) hstake hne hpay
  exact ⟨ts, ⟨hl, rfl⟩, hcause, rfl, hclaimed, hiff⟩

theorem exec_spends_iff {call : Call} (hw : Reachable w) (h : call.exec env w.fresh = .ok () w')
    (hcall : call.paysOut w = some i) (hm : w.matchMap i = some m) :
    ∃ ts, Pays w ts w' ∧ (Spends m.token (call.due m) ts ↔ call.TakesDue w.control m) := by
  have hne : w.fresh.control.oracle ≠ some .self := hw.oracleElsewhere.oracle
  have hstake : 1 ≤ m.stakeAmount := (hw.sound.stored i m hm).terms.stake_pos
  cases call with
  | finalizeMatch id =>
    obtain rfl : id = i := Option.some.inj hcall
    obtain ⟨m1, winner, w1, hopen, hpay, rfl⟩ := finalizeMatch_ok h
    obtain rfl : m = m1 := Option.mem_unique hm hopen.stored
    obtain ⟨ts, ⟨l, hl, rfl⟩, hspends⟩ := executePayout_spends hne hpay
    exact ⟨ts, ⟨hl, rfl⟩, iff_of_true hspends trivial⟩
  | resolveDisputeByVote disputeId =>
    obtain ⟨d, m1, winner, w1, w2, hopen, hpay, hbond, rfl⟩ := resolveDisputeByVote_ok h
    have hfiled : w.disputes.dispute disputeId = some d := hopen.filed
    obtain rfl : d.matchId = i := by simpa [Call.paysOut, hfiled] using hcall
    obtain rfl : m = m1 := Option.mem_unique hm hopen.stored
    obtain ⟨ts, ⟨l, hl, rfl⟩, hspends⟩ := executePayout_spends hne hpay
    obtain ⟨l', hl', rfl⟩ := transfer_paid hbond
    refine ⟨_, ⟨hl.append hl', rfl⟩, iff_of_true (fun t => ?_) trivial⟩
    rw [debits_append, hspends t, debits_cons]
    simp [Dispute.bondReturn, outgoing, Leg.kind, Call.due]
  | adminResolveStalledMatch id caller resolution =>
    obtain rfl : id = i := Option.some.inj hcall
    simp [Call.exec, Escrow.adminResolveStalledMatch] at h
    obtain ⟨-, -, m1, hm1, -, -, -, _, w1, hpay, h⟩ := h
    obtain rfl : m = m1 := Option.mem_unique hm hm1
    obtain ⟨amountB, hB, hnone, ⟨l, hl, rfl⟩⟩ := payStalled_paid hpay
    refine ⟨stallTransfers id m amountB resolution, ?_, stallTransfers_spends_iff hstake hB hnone⟩
    rcases h with ⟨-, rfl⟩ | ⟨-, rfl⟩ <;> exact ⟨hl, rfl⟩
  | claimVestedPayout id =>
    obtain rfl : id = i := Option.some.inj hcall
    obtain ⟨ts, hpays, -, -, -, hiff⟩ := claimVestedPayout_spends_iff hstake hne hm h
    exact ⟨ts, hpays, hiff⟩
  | _ => exact absurd hcall (by simp [Call.paysOut])

/-! ## The claims of a match -/

/-- The transfers that the claims of a match made. -/
def claimsOf (matchId : ℕ) (log : List Transfer) : List Transfer :=
  log.filter fun t => t.cause.matchId = matchId && t.cause.leg.kind = .claim

@[simp] theorem claimsOf_append : claimsOf i (ts ++ us) = claimsOf i ts ++ claimsOf i us :=
  filter_append ..

theorem claimsOf_eq_self (h : ∀ t ∈ ts, t.cause.matchId = i ∧ t.cause.leg.kind = .claim) :
    claimsOf i ts = ts :=
  filter_eq_self.mpr fun t ht => by simp [h t ht]

theorem claimsOf_eq_nil (h : ∀ t ∈ ts, t.cause.matchId = i → t.cause.leg.kind ≠ .claim) :
    claimsOf i ts = [] :=
  filter_eq_nil_iff.mpr fun t ht => by simpa using h t ht

theorem Match.claimedAmount_eq_zero (h : ∀ side, m.claimed side = false) : m.claimedAmount = 0 := by
  simp [Match.claimedAmount, Match.claimedBy, h]

/-- Once everyone who is entitled to something has claimed it, the claims come to the pot. -/
theorem Match.claimedAmount_of_all (hwinner : m.winner ≠ .none)
    (hall : ∀ side, m.entitlement side ≠ 0 → m.claimed side = true) :
    m.claimedAmount = 2 * m.stakeAmount := by
  have hclaimed (side : Side) : m.claimedBy side = m.entitlement side := by
    unfold Match.claimedBy
    split
    · rfl
    · rename_i hnot
      exact (not_not.mp fun hne => hnot (hall side hne)).symm
  rw [Match.claimedAmount, hclaimed, hclaimed]
  unfold Match.entitlement
  cases hw : m.winner with
  | none => exact absurd hw hwinner
  | player1 | player2 => simp [Side.winner]
  | draw =>
    simp only [Side.winner, reduceCtorEq, if_false, if_true]
    ring

/-- Only a claim makes claim transfers or counts as claimed. -/
theorem MatchStep.claimedAmount {config : ProtocolConfig} {period : ℕ} {m' : Match}
    {pw pw' : Option Winner} {x : Action} {deltas : List (Address × ℤ)}
    (h : MatchStep env config period i m pw x ts deltas m' pw')
    (hm : MatchSound i m pw) (hx : x ≠ .claim i) :
    m'.claimedAmount = m.claimedAmount ∧ ∀ t ∈ ts, t.cause.leg.kind ≠ .claim := by
  have hkind {kind : LegKind} {r : ℤ} {us : List Transfer} (hrel : Releases i m kind r us)
      (hne : kind ≠ .claim) : ∀ t ∈ us, t.cause.leg.kind ≠ .claim :=
    fun t ht => (hrel.cause t ht).2 ▸ hne
  have hrunning (hs : m.state = .active ∨ m.state = .paused) : ∀ side, m.claimed side = false :=
    (hm.stage.unresolved (by rcases hs with hs | hs <;> simp [hs])).claimed
  cases h with
  | deposit side | activate side | strayDeposit side =>
    exact ⟨by cases side <;> rfl, by simp [depositTransfer, Leg.kind]⟩
  | settleNow _ _ hs | settleHalf _ _ hs | settleLater _ _ hs =>
    rw [Match.claimedAmount_eq_zero (hrunning hs)]
    exact ⟨Match.claimedAmount_eq_zero (hrunning hs), by simp⟩
  | pause | resume | heartbeat => exact ⟨rfl, by simp⟩
  | rollbackVote side => exact ⟨by cases side <;> rfl, by simp⟩
  | cancel _ _ hrel | strayRefund _ hrel | recover _ hrel =>
    exact ⟨rfl, hkind hrel (by decide)⟩
  | rollback side _ _ _ hrel => exact ⟨by cases side <;> rfl, hkind hrel (by decide)⟩
  | stall _ _ hs hrel =>
    rw [Match.claimedAmount_eq_zero (hrunning hs)]
    exact ⟨Match.claimedAmount_eq_zero (hrunning hs), hkind hrel (by decide)⟩
  | finalize _ _ hrel => exact ⟨rfl, hkind hrel (by decide)⟩
  | bond => exact ⟨rfl, by simp [Leg.kind]⟩
  | resolve target bond _ _ hrel =>
    refine ⟨rfl, forall_mem_cons.mpr ⟨by simp [outgoing, Leg.kind], ?_⟩⟩
    exact hkind hrel (by decide)
  | claim => exact absurd rfl hx

/-- The claims of every match have taken what its fields say is claimed. -/
def Book.ClaimsSpent (b : Book) : Prop :=
  ∀ matchId m, b.matchMap matchId = some m →
    Spends m.token m.claimedAmount (claimsOf matchId b.log)

theorem Book.ClaimsSpent.change {b b' : Book} {config : ProtocolConfig} {period : ℕ} {x : Action}
    (hb : b.Sound) (hlogged : ∀ t ∈ b.log, b.matchMap t.cause.matchId ≠ none)
    (h : b.ClaimsSpent) (hchange : Change env config period x b b')
    (hx : ∀ i, x ≠ .claim i) : b'.ClaimsSpent := by
  intro id m1 hm1
  cases hchange with
  | opening p rateLedger hp hfree =>
    rcases eq_some_of_update hm1 with ⟨rfl, rfl⟩ | ⟨-, hm1⟩
    · rw [Book.opened_log, claimsOf_eq_nil fun t ht heq => absurd (heq ▸ hfree) (hlogged t ht)]
      intro t
      rw [Match.claimedAmount_eq_zero fun side => by cases side <;> rfl, ite_self, debits_nil]
    · exact h id m1 hm1
  | @moving _ i m m' pw _ ts deltas l hm hstep hl =>
    obtain ⟨hamount, hkind⟩ := hstep.claimedAmount (hb.stored i m hm) (hx i)
    have htoken : m'.token = m.token := congrArg Terms.token hstep.terms
    rw [Book.moved_log, claimsOf_append, claimsOf_eq_nil fun t ht _ => hkind t ht, nil_append]
    rcases eq_some_of_update hm1 with ⟨rfl, rfl⟩ | ⟨-, hm1⟩
    · rw [hamount, htoken]
      exact h id m hm
    · exact h id m1 hm1

theorem Reachable.logged (hw : Reachable w) : ∀ t ∈ w.log, w.matchMap t.cause.matchId ≠ none :=
  hw.book_inv (I := fun b => ∀ t ∈ b.log, b.matchMap t.cause.matchId ≠ none)
    (by simp [Book.empty]) (fun ⟨⟨_, hl⟩, _⟩ h => hl ▸ h) fun h hchange => hchange.logged h

/-- A claim that takes what is due. -/
theorem Book.ClaimsSpent.claim {player : Address} (hw : Reachable w) (h : w.book.ClaimsSpent)
    (hexec : claimVestedPayout i player env w.fresh = .ok u w') (hdue : ∀ m, w.matchMap i = some m →
      m.winner = .draw ∨ 0 ≤ w.control.config.protocolFee (2 * m.stakeAmount)) :
    w'.book.ClaimsSpent := by
  obtain ⟨m, -, hopen, -⟩ := claimVestedPayout_ok hexec
  have hm : w.matchMap i = some m := hopen.stored
  have hstake : 1 ≤ m.stakeAmount := (hw.sound.stored i m hm).terms.stake_pos
  obtain ⟨ts, ⟨-, hlog⟩, hcause, hmap, hclaimed, hiff⟩ :=
    claimVestedPayout_spends_iff (w := w.fresh) hstake hw.oracleElsewhere.oracle hm hexec
  have hlog' : w'.book.log = ts ++ w.book.log := hlog
  intro id m1 hm1
  rw [hlog', claimsOf_append]
  rcases eq_some_of_update ((congrFun hmap id).symm.trans hm1) with ⟨rfl, rfl⟩ | ⟨hne, hm1⟩
  · have htoken : (m.setClaimed (m.sideOf player)).token = m.token := by
      cases m.sideOf player <;> rfl
    rw [claimsOf_eq_self hcause, Match.claimedAmount_setClaimed hclaimed, htoken]
    exact (h id m hm).append (hiff.mpr (hdue m hm))
  · rw [claimsOf_eq_nil fun t ht heq => absurd (heq.symm.trans (hcause t ht).1) hne,
      nil_append]
    exact h id m1 hm1

/-- Every call that settles a match takes what it has to. -/
def TakesDue (w : World) : Event → Prop
  | .invoke _ call => ∀ matchId m, call.paysOut w = some matchId →
    w.matchMap matchId = some m → call.TakesDue w.control m
  | _ => True

theorem run_claimsSpent {w0 : World} {es : List Event} (h0 : Initial w0)
    (hal : Along step TakesDue w0 es) : (run step w0 es).book.ClaimsSpent := by
  refine (run_inv (I := fun w => Reachable w ∧ w.book.ClaimsSpent) ?_ ⟨⟨w0, [], h0, rfl⟩, ?_⟩ hal).2
  · rintro w e ⟨hw, hI⟩ hdue
    refine ⟨hw.step e, ?_⟩
    cases e with
    | invoke env call =>
      by_cases hclaim : ∃ i player, call = .claimVestedPayout i player
      · obtain ⟨i, player, rfl⟩ := hclaim
        by_cases hc : Commits env (Call.claimVestedPayout i player).exec w
        · obtain ⟨w', h⟩ := hc
          have hspent : w'.book.ClaimsSpent := hI.claim hw h fun m hm => hdue i m rfl hm
          rw [step, invoke_of_ok h]
          exact hspent
        · rwa [step, invoke_of_not_commits hc]
      · refine (invoke_inv (I := fun b => b.Sound ∧
          (∀ t ∈ b.log, b.matchMap t.cause.matchId ≠ none) ∧ b.ClaimsSpent) hw.oracle
          ⟨hw.sound, hw.logged, hI⟩ ?_).2.2
        rintro b b' - - ⟨hsound, hlogged, hspent⟩ hchange
        refine ⟨hsound.change hchange, hchange.logged hlogged,
          hspent.change hsound hlogged hchange fun i haction => ?_⟩
        cases call with
        | claimVestedPayout id player => exact hclaim ⟨id, player, rfl⟩
        | _ => exact Action.noConfusion haction
    | credit | dropGuard => exact hI
    | debit =>
      simp only [step]
      split <;> exact hI
  · obtain ⟨l, hl⟩ := h0.book.2
    change w0.book.ClaimsSpent
    rw [hl]
    intro id m hm
    simp [Book.empty] at hm

/-! ## Settlements -/

/-- A call that settles a match takes what it has to from the contract, in the stake token and
nothing in another, if and only if it is not one that goes wrong. If every such call of a run
is of this kind, the claims of everyone who is entitled to something come to the pot. -/
theorem settlement_debits_iff {w0 : World} {es : List Event} {i : ℕ} {m : Match}
    (h0 : Initial w0) (hm : (run step w0 es).matchMap i = some m) :
    (∀ env call, Commits env call.exec (run step w0 es) → call.paysOut (run step w0 es) = some i →
      ∃ ts, Pays (run step w0 es) ts (step (run step w0 es) (.invoke env call)) ∧
        (Spends m.token (call.due m) ts ↔ call.TakesDue (run step w0 es).control m)) ∧
    (Along step TakesDue w0 es → m.winner ≠ .none →
      (∀ side, m.entitlement side ≠ 0 → m.claimed side = true) →
      Spends m.token (2 * m.stakeAmount) (claimsOf i (run step w0 es).log)) := by
  refine ⟨fun env call hc hcall => ?_, fun hal hwinner hall => ?_⟩
  · obtain ⟨w', h⟩ := hc
    obtain ⟨ts, hpays, hiff⟩ := exec_spends_iff ⟨w0, es, h0, rfl⟩ h hcall hm
    rw [step, invoke_of_ok h]
    exact ⟨ts, hpays, hiff⟩
  · rw [← Match.claimedAmount_of_all hwinner hall]
    exact run_claimsSpent h0 hal i m hm

/-- Address 2 claims the pot of the match for tokens 4 and 5 that it has won. -/
def convertedClaim : Event := .invoke (.plain [2] 0 259200) (.claimVestedPayout 0 (.ext 2))

theorem settlement_debits_iff_convertedMatch :
    let w := run step .start convertedMatch
    ∃ m m', w.matchMap 0 = some m ∧ m.tokenB = some (.ext 5) ∧
      (∃ ts, Pays w ts (step w convertedClaim) ∧ Spends m.token (m.entitlement .player1) ts) ∧
      (step w convertedClaim).matchMap 0 = some m' ∧
      Spends m'.token (2 * m'.stakeAmount) (claimsOf 0 (step w convertedClaim).log) := by
  intro w
  have hbefore : ∀ m ∈ w.matchMap 0, m.tokenB = some (.ext 5) ∧ m.sideOf (.ext 2) = .player1 ∧
      0 ≤ w.control.config.protocolFee (2 * m.stakeAmount) := by decide +kernel
  have hafter : ∀ m ∈ (step w convertedClaim).matchMap 0, m.winner ≠ .none ∧
      m.claimed .player1 = true ∧ m.entitlement .player2 = 0 := by decide +kernel
  have hsome : (w.matchMap 0).isSome = true ∧
      ((step w convertedClaim).matchMap 0).isSome = true := by decide +kernel
  obtain ⟨m, hm⟩ := Option.isSome_iff_exists.mp hsome.1
  obtain ⟨m', hm'⟩ := Option.isSome_iff_exists.mp hsome.2
  obtain ⟨htokenB, hside, hfee⟩ := hbefore m hm
  obtain ⟨hwinner, hclaimed, hloser⟩ := hafter m' hm'
  have hall (side : Side) (hne : m'.entitlement side ≠ 0) : m'.claimed side = true := by
    cases side with
    | player1 => exact hclaimed
    | player2 => exact absurd hloser hne
  obtain ⟨ts, hpays, hiff⟩ := (settlement_debits_iff World.start_initial hm).1
    (.plain [2] 0 259200) (.claimVestedPayout 0 (.ext 2)) (by decide +kernel) rfl
  have hdue := hiff.mpr (.inr hfee)
  rw [Call.due, hside] at hdue
  have hal : Along step TakesDue .start (convertedMatch ++ [convertedClaim]) := by
    refine ⟨?_, ?_, ?_, ?_, fun id m1 hid hm1 => ?_, trivial⟩
    case refine_5 =>
      obtain rfl := Option.some.inj hid
      exact .inr (hbefore m1 hm1).2.2
    all_goals simp [TakesDue, Call.paysOut]
  have hend : (run step .start (convertedMatch ++ [convertedClaim])).matchMap 0 = some m' := hm'
  exact ⟨m, m', hm, htokenB, ⟨ts, hpays, hdue⟩, hm',
    (settlement_debits_iff World.start_initial hend).2 hal hwinner hall⟩

/-- Match 0 is funded with token 4. Players 5 and 6 fund match 1 with 200 of token 7, with
token 4 at par as the token of player 6, and their match stalls. -/
def stalledConversion : List Event :=
  fundedMatch ++
    [.invoke (.plain [5] 0 0) (.createMatchWithConversion (.ext 5) (.ext 6) 100 (.ext 7)
        (.ext 4) 10000000 [49, 50, 51, 52, 53, 54, 56] .chessDotCom),
      .invoke (.plain [5] 0 0) (.deposit 1 (.ext 5)),
      .invoke (.plain [6] 0 0) (.deposit 1 (.ext 6))]

/-- The admin gives match 1 to player 6, who is paid the stakes of match 0. -/
theorem stalled_match_spends_other_stakes : Reachable (run step .start stalledConversion) ∧
    ((run step .start stalledConversion).matchMap 1).map
      (fun m => (m.token, m.tokenB, m.stakeAmount)) = some (.ext 7, some (.ext 4), 100) ∧
    (run step .start (stalledConversion ++
      [.invoke (.plain [1] 0 10000000) (.adminResolveStalledMatch 1 (.ext 1) .player2)])).log =
        outgoing 1 (.stallPayout .player2) (.ext 4) (.ext 6) 200 ::
          (run step .start stalledConversion).log ∧
    ¬Spends (.ext 7) 200 [outgoing 1 (.stallPayout .player2) (.ext 4) (.ext 6) 200] ∧
    deposited 0 (.ext 4) (run step .start stalledConversion).log = 200 ∧
    (run step .start (stalledConversion ++
      [.invoke (.plain [1] 0 10000000) (.adminResolveStalledMatch 1 (.ext 1) .player2)])).ledger
        (.ext 4) .self = 0 := by
  refine ⟨⟨_, _, World.start_initial, rfl⟩, ?_, ?_, ?_, ?_, ?_⟩
  · decide +kernel
  · decide +kernel
  · intro h
    exact absurd (h (.ext 4)) (by decide)
  · decide +kernel
  · decide +kernel

end Checkmate.Escrow

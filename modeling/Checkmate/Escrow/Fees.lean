import Mathlib.Tactic.Linarith
import Checkmate.Escrow.Debits

/-!
# The configuration and the fees of a win

The setters of the configuration check what they set, each on its own. What is stored always
passes the checks of `setProtocolConfig`, the comparison of the two bounds of the stake apart :
`setMinimumStake` and `setMaximumStake` do not make it (`config_stays_valid`).

The fees of a win are shares of the pot that are set apart from each other, and a cap that nothing
checks (`winner_split`). The schedule of `setFeeTiers` selects the least tier that reaches the
stake, but a claim does not use it (`tiered_fee`).
-/

namespace Checkmate.Escrow

open Option

variable {env : Env} {w w' : World} {u : Unit} {c c' : Control}

/-! ## What the setters accept -/

/-- What `setProtocolConfig` checks, the bounds of the stake apart. -/
structure ProtocolConfig.Accepted (config : ProtocolConfig) : Prop where
  protocolFee : config.fees.protocolFeeBps ≤ 10000
  cancellationFee : config.fees.cancellationFeeBasisPoints ≤ 10000
  timeout : minMatchTimeoutSeconds ≤ config.timeouts.matchTimeoutSeconds ∧
    config.timeouts.matchTimeoutSeconds ≤ maxMatchTimeoutSeconds
  minimum : 1 ≤ config.stakes.minimumStake
  schedule : validSchedule (-1) (config.stakes.disputeBondTierSchedule.map
    fun t => (t.maxStake, t.bondBasisPoints)) = true
  treasury : config.treasury ≠ .self
  feeRecipient : config.fees.feeRecipient ≠ .self

/-- The least stake is not above the largest. -/
def StakeConfig.Ordered (s : StakeConfig) : Prop :=
  ∀ largest ∈ s.maximumStake, s.minimumStake ≤ largest

/-- The configuration that is stored, and the rates beside it, were accepted. -/
structure Control.FeesAccepted (c : Control) : Prop where
  config : ∀ config ∈ c.protocolConfig, config.Accepted
  share : c.referralShareBasisPoints.getD 2000 ≤ 10000
  tiers : validSchedule (-1) (c.feeTiers.map fun t => (t.maxStake, t.feeBasisPoints)) = true

/-- A change of one bound of the stake compares it with the other. -/
def ControlCall.Orders (c : Control) : ControlCall → Prop
  | .setMinimumStake amount => ∀ largest ∈ c.config.stakes.maximumStake, amount ≤ largest
  | .setMaximumStake amount => ∀ largest ∈ amount, c.config.stakes.minimumStake ≤ largest
  | _ => True

theorem Control.FeesAccepted.congr (h : c.FeesAccepted) (hfees : c'.fees = c.fees) :
    c'.FeesAccepted := by
  simp only [Control.fees, Prod.mk.injEq] at hfees
  obtain ⟨hconfig, hshare, htiers⟩ := hfees
  exact ⟨hconfig ▸ h.config, hshare ▸ h.share, htiers ▸ h.tiers⟩

/-- The bounds of the default do not depend on the admin. -/
theorem Control.stakes_congr (hfees : c'.fees = c.fees) : c'.config.stakes = c.config.stakes := by
  have hconfig : c'.protocolConfig = c.protocolConfig := congrArg Prod.fst hfees
  simp only [Control.config, hconfig]
  cases c.protocolConfig <;> rfl

/-- The default passes the checks as well, since the contract is not its own admin. -/
theorem Control.FeesAccepted.config_accepted {admin : Address} (h : c.FeesAccepted)
    (hadmin : c.admin = some admin) (hauth : admin ∈ env.auths) : c.config.Accepted := by
  have hne : admin ≠ .self := fun heq => env.self_notMem (heq ▸ hauth)
  cases hconfig : c.protocolConfig with
  | some config =>
    rw [Control.config, hconfig]
    exact h.config config hconfig
  | none =>
    simp only [Control.config, hconfig, hadmin, getD_none, getD_some]
    refine ⟨?_, ?_, ?_, ?_, rfl, hne, hne⟩ <;> dsimp only <;> decide

/-- A setter keeps the stored configuration accepted, and its bounds in order if it compares
them. -/
theorem ControlCall.exec_accepted {call : ControlCall} (h : call.exec env c = .ok u c')
    (hset : call.setsFees = true) (hc : c.FeesAccepted) :
    c'.FeesAccepted ∧ (call.Orders c → c.config.stakes.Ordered → c'.config.stakes.Ordered) := by
  cases call with
  | setProtocolConfig config =>
    simp [ControlCall.exec, Escrow.setProtocolConfig] at h
    obtain ⟨admin, -, hfee, hcancel, htimeout, hmin, hmax, hschedule, htreasury, hrecipient,
      rfl⟩ := h
    refine ⟨⟨fun config' hconfig => ?_, hc.share, hc.tiers⟩, fun _ _ largest hlargest => ?_⟩
    · obtain rfl := Option.some.inj hconfig
      exact ⟨hfee, hcancel, htimeout, hmin, hschedule, htreasury, hrecipient⟩
    · have hlargest : config.stakes.maximumStake = some largest := hlargest
      have hle : config.stakes.minimumStake ≤ largest := by simpa [hlargest] using hmax
      exact hle
  | setReferralShareBps =>
    simp [ControlCall.exec, Escrow.setReferralShareBps] at h
    obtain ⟨admin, -, hle, rfl⟩ := h
    exact ⟨⟨hc.config, hle, hc.tiers⟩, fun _ hordered => hordered⟩
  | setMinimumStake =>
    simp [ControlCall.exec, Escrow.setMinimumStake] at h
    obtain ⟨admin, ⟨hadmin, hauth, -⟩, hmin, rfl⟩ := h
    have hold := hc.config_accepted hadmin hauth
    refine ⟨⟨fun config hconfig => ?_, hc.share, hc.tiers⟩, fun horders _ => horders⟩
    obtain rfl := Option.some.inj hconfig
    exact { hold with minimum := hmin }
  | setMaximumStake =>
    simp [ControlCall.exec, Escrow.setMaximumStake] at h
    obtain ⟨admin, ⟨hadmin, hauth, -⟩, -, rfl⟩ := h
    have hold := hc.config_accepted hadmin hauth
    refine ⟨⟨fun config hconfig => ?_, hc.share, hc.tiers⟩, fun horders _ => horders⟩
    obtain rfl := Option.some.inj hconfig
    exact { hold with }
  | setMatchTimeout =>
    simp [ControlCall.exec, Escrow.setMatchTimeout] at h
    obtain ⟨admin, ⟨hadmin, hauth, -⟩, htimeout, rfl⟩ := h
    have hold := hc.config_accepted hadmin hauth
    refine ⟨⟨fun config hconfig => ?_, hc.share, hc.tiers⟩, fun _ hordered => hordered⟩
    obtain rfl := Option.some.inj hconfig
    exact { hold with timeout := htimeout }
  | setFeeTiers =>
    simp [ControlCall.exec, Escrow.setFeeTiers] at h
    obtain ⟨admin, -, hvalid, rfl⟩ := h
    exact ⟨⟨hc.config, hc.share, hvalid⟩, fun _ hordered => hordered⟩
  | _ => exact Bool.noConfusion hset

/-! ## Along a run -/

/-- An entry point leaves the fees, or is one of their setters. -/
theorem exec_fees {call : Call} (h : call.exec env w = .ok u w')
    (hw : w.control.oracle.isSome = true) : w'.control.fees = w.control.fees ∨
      ∃ k, call = .control k ∧ k.setsFees = true ∧ k.exec env w.control = .ok () w'.control := by
  by_cases hset : ∃ k, call = .control k ∧ k.setsFees = true
  · obtain ⟨k, rfl, hset⟩ := hset
    obtain ⟨c', hc, rfl⟩ := onControl_ok_iff.mp h
    exact .inr ⟨k, rfl, hset, hc⟩
  · refine .inl (exec_control_inv (Q := fun c => c.fees = w.control.fees) h hw (fun _ _ hc => hc)
      (fun _ _ _ _ hc => hc) (fun k _ hk hc => ?_) rfl)
    have hother : k.setsFees = false := Bool.eq_false_iff.mpr fun hk' => hset ⟨k, hk, hk'⟩
    exact (ControlCall.exec_frames_fees hother).ok hc

/-- Every change of a bound of the stake in the run compares it with the other. -/
def OrdersStakes (w : World) : Event → Prop
  | .invoke _ (.control call) => call.Orders w.control
  | _ => True

theorem step_accepted (hw : w.control.oracle.isSome = true) (hc : w.control.FeesAccepted)
    (e : Event) : (step w e).control.FeesAccepted ∧ (OrdersStakes w e →
      w.control.config.stakes.Ordered → (step w e).control.config.stakes.Ordered) := by
  refine step_keeps (P := fun w' => w'.control.FeesAccepted ∧ (OrdersStakes w e →
    w.control.config.stakes.Ordered → w'.control.config.stakes.Ordered)) ⟨hc, fun _ h => h⟩ ?_
    (fun _ => ⟨hc, fun _ h => h⟩) fun _ => ⟨hc, fun _ h => h⟩
  rintro env call w' rfl h
  rcases exec_fees h hw with hfees | ⟨k, rfl, hset, hk⟩
  · refine ⟨hc.congr hfees, fun _ hordered => ?_⟩
    rwa [show w'.fresh.control.config.stakes = _ from Control.stakes_congr hfees]
  · obtain ⟨haccepted, hordered⟩ := ControlCall.exec_accepted hk hset (hc.congr rfl)
    exact ⟨haccepted.congr rfl, hordered⟩

theorem Initial.feesAccepted (h0 : Initial w) : w.control.FeesAccepted ∧
    w.control.config.stakes.Ordered := by
  obtain ⟨oracle, admin, l, -, rfl⟩ := h0.eq_mk
  refine ⟨⟨by simp, Nat.le_of_ble_eq_true rfl, rfl⟩, fun largest hlargest => ?_⟩
  exact absurd hlargest (by simp [Control.config])

theorem Reachable.feesAccepted (hw : Reachable w) : w.control.FeesAccepted := by
  obtain ⟨w0, es, h0, rfl⟩ := hw
  exact (run_inv (I := fun w => w.control.oracle.isSome = true ∧ w.control.FeesAccepted)
    (fun w e hw _ => ⟨step_oracle hw.1 e, (step_accepted hw.1 hw.2 e).1⟩)
    ⟨h0.book.1, h0.feesAccepted.1⟩ (along_true w0 es)).2

/-- If the bounds of the stake are only changed to ones in order, the stored configuration passes
every check of `setProtocolConfig` after every run, and some stake is within the bounds. -/
theorem config_stays_valid {w0 : World} {es : List Event} (h0 : Initial w0)
    (h : Along step OrdersStakes w0 es) :
    let c := (run step w0 es).control
    (∀ config, c.protocolConfig = some config → config.Accepted ∧ config.stakes.Ordered) ∧
      ∃ stake, c.config.stakes.minimumStake ≤ stake ∧
        ∀ largest ∈ c.config.stakes.maximumStake, stake ≤ largest := by
  intro c
  have hc : c.FeesAccepted := Reachable.feesAccepted ⟨w0, es, h0, rfl⟩
  have hordered : c.config.stakes.Ordered :=
    (run_inv (I := fun w => w.control.oracle.isSome = true ∧ w.control.FeesAccepted ∧
      w.control.config.stakes.Ordered) (fun w e hw he =>
        have hstep := step_accepted hw.1 hw.2.1 e
        ⟨step_oracle hw.1 e, hstep.1, hstep.2 he hw.2.2⟩) ⟨h0.book.1, h0.feesAccepted⟩ h).2.2
  refine ⟨fun config hconfig => ⟨hc.config config hconfig, ?_⟩, _, le_rfl, hordered⟩
  rwa [Control.config, hconfig] at hordered

/-- The bounds are raised one after the other. -/
theorem config_stays_valid_raised :
    let es : List Event := [.invoke (.plain [1] 0 0) (.control (.setMaximumStake (some 500))),
      .invoke (.plain [1] 0 0) (.control (.setMinimumStake 10))]
    (run step .start es).control.config.stakes.minimumStake = 10 ∧
      ∀ config, (run step .start es).control.protocolConfig = some config →
        config.Accepted ∧ config.stakes.Ordered := by
  intro es
  have hes : Along step OrdersStakes .start es := by
    refine ⟨fun largest hlargest => ?_, fun largest hlargest => ?_, trivial⟩ <;>
      obtain rfl := Option.some.inj hlargest <;> decide +kernel
  exact ⟨by decide +kernel, (config_stays_valid World.start_initial hes).1⟩

/-- A minimum above the maximum is accepted, and no stake is left. -/
theorem no_stake_within_bounds :
    let es : List Event := [.invoke (.plain [1] 0 0) (.control (.setMaximumStake (some 5))),
      .invoke (.plain [1] 0 0) (.control (.setMinimumStake 10))]
    (run step .start es).control.config.stakes.minimumStake = 10 ∧
      (run step .start es).control.config.stakes.maximumStake = some 5 := by
  decide +kernel

/-! ## A win -/

/-- What the claim of a winner pays : what is left of the pot, and the fees. -/
theorem winnerClaim_paid {id : ℕ} {m : Match} {player : Address} (hw : Reachable w)
    (hm : w.matchMap id = some m) (hwin : m.winner = (m.sideOf player).winner)
    (h : claimVestedPayout id player env w.fresh = .ok u w') :
    ∃ ts, Pays w (claimFees id m w.control ++ ts) w' ∧ Spends m.token (w.control.netPayout m) ts ∧
        ∀ t ∈ ts, t.cause = ⟨id, .claim (m.sideOf player)⟩ := by
  obtain ⟨m1, w1, hopen, hpay, rfl⟩ := claimVestedPayout_ok h
  obtain rfl : m = m1 := mem_unique hm hopen.stored
  simp only [paySide, Tx.bind_ok_iff, Tx.reject_ok_iff, if_pos hwin] at hpay
  obtain ⟨_, _, ⟨-, rfl⟩, hpay⟩ := hpay
  obtain ⟨w2, hnet, hfees⟩ := payWinner_fees hpay
  obtain ⟨ts, hpaid, hts⟩ := payNet_ok hnet
  obtain ⟨l, hl, rfl⟩ := hpaid.trans hfees
  exact ⟨ts, ⟨hl, rfl⟩, hts.spends (by simp [Leg.kind]) hw.oracleElsewhere.oracle, hts.cause_eq⟩

theorem tdiv_mul_le {a b : ℤ} (ha : 0 ≤ a) : a.tdiv b * b ≤ a := by
  have hmod := Int.tmod_nonneg b ha
  have hdiv := Int.tmod_add_tdiv_mul a b
  omega

/-- A configuration with these rates of the fees and this cap. -/
def ratesConfig (protocolFeeBps cancellationFeeBps : ℕ) (cap : Option ℤ) : ProtocolConfig where
  treasury := .ext 1
  fees := ⟨protocolFeeBps, .ext 9, cancellationFeeBps, cap⟩
  timeouts := ⟨defaultMatchTimeoutSeconds, 259200⟩
  stakes := ⟨1, none, false, []⟩

/-- Address 2 wins match 0, which has a referrer, under the configuration and a schedule of 5%. -/
def wonUnder (config : ProtocolConfig) (share : ℕ) : World :=
  run step .start [.invoke (.plain [1] 0 0) (.control (.setProtocolConfig config)),
    .invoke (.plain [1] 0 0) (.control (.setReferralShareBps share)),
    .invoke (.plain [1] 0 0) (.control (.setFeeTiers [⟨1000, 500⟩])),
    .invoke (.plain [2] 0 0) (.createMatchWithReferrer (.ext 2) (.ext 3) 100 (.ext 4)
      [49, 50, 51, 52, 53, 54, 55] .chessDotCom (.ext 8)),
    .invoke (.plain [2] 0 0) (.deposit 0 (.ext 2)),
    .invoke (.plain [3] 0 0) (.deposit 0 (.ext 3)),
    .invoke (.plain [0] 0 0) (.submitResult 0 .player1 (.ext 0))]

theorem wonUnder_reachable (config : ProtocolConfig) (share : ℕ) :
    Reachable (wonUnder config share) :=
  ⟨.start, _, World.start_initial, rfl⟩

/-- The winner of match 0 claims. -/
def wonUnderClaim (w : World) : Outcome Error World Unit :=
  claimVestedPayout 0 (.ext 2) (.plain [2] 1 1000000) w.fresh

/-- The fee at the rate of the first tier that reaches the stake, of the last if none does. -/
def Control.computeTieredFee (c : Control) (stakeAmount : ℤ) : Option ℤ :=
  if c.feeTiers.isEmpty then some 0
  else do
    let selected := (c.feeTiers.find? fun t => stakeAmount ≤ t.maxStake).or c.feeTiers.getLast?
    let pot ← checkedMul stakeAmount 2
    checkedDiv (← checkedMul pot (selected.elim 0 FeeTier.feeBasisPoints : ℕ)) 10000

def calculateFeeByTier (stakeAmount : ℤ) : ControlTx ℤ := do
  Tx.orFail ((← Tx.get).computeTieredFee stakeAmount) .overflow

/-- The tier has the least threshold that reaches the stake, or is the last one and none does. -/
def FeeTier.Selected (tiers : List FeeTier) (stake : ℤ) (t : FeeTier) : Prop :=
  (t ∈ tiers ∧ stake ≤ t.maxStake ∧ ∀ t' ∈ tiers, stake ≤ t'.maxStake → t.maxStake ≤ t'.maxStake) ∨
    tiers.getLast? = some t ∧ ∀ t' ∈ tiers, t'.maxStake < stake

theorem validSchedule_pairwise :
    ∀ {prev : ℤ} {tiers : List (ℤ × ℕ)}, validSchedule prev tiers = true →
      (∀ t ∈ tiers, prev < t.1) ∧ tiers.Pairwise (·.1 < ·.1)
  | _, [], _ => ⟨by simp, .nil⟩
  | _, (maxStake, bps) :: rest, h => by
    simp only [validSchedule, Bool.and_eq_true, decide_eq_true_eq] at h
    obtain ⟨hrest, hsorted⟩ := validSchedule_pairwise h.2
    refine ⟨fun t ht => ?_, .cons hrest hsorted⟩
    rcases List.mem_cons.mp ht with rfl | ht
    · exact h.1.1
    · exact h.1.1.trans (hrest t ht)

/-- In a schedule that rises, the first tier that reaches the stake is the least one. -/
theorem Control.FeesAccepted.selected (hc : c.FeesAccepted) (hne : c.feeTiers ≠ []) (stake : ℤ) :
    ∃ t, (c.feeTiers.find? fun t => stake ≤ t.maxStake).or c.feeTiers.getLast? = some t ∧
      t ∈ c.feeTiers ∧ t.Selected c.feeTiers stake := by
  have hsorted := List.pairwise_map.mp (validSchedule_pairwise hc.tiers).2
  cases hfind : c.feeTiers.find? fun t => stake ≤ t.maxStake with
  | none =>
    have hlast := List.getLast?_eq_some_getLast hne
    refine ⟨_, hlast, List.getLast_mem hne, .inr ⟨hlast, ?_⟩⟩
    simpa using hfind
  | some t =>
    obtain ⟨hreach, before, after, heq, hbefore⟩ := List.find?_eq_some_iff_append.mp hfind
    have hmem : t ∈ c.feeTiers := List.mem_of_find?_eq_some hfind
    refine ⟨t, rfl, hmem, .inl ⟨hmem, of_decide_eq_true hreach, fun t' ht' hstake => ?_⟩⟩
    rw [heq, List.pairwise_append, List.pairwise_cons] at hsorted
    rw [heq, List.mem_append, List.mem_cons] at ht'
    rcases ht' with ht' | rfl | ht'
    · simp at hbefore
      exact absurd hstake (not_le.mpr (hbefore t' ht'))
    · exact le_rfl
    · exact (hsorted.2.1.1 t' ht').le

/-- What the transfers pay as the protocol fee of a match. -/
def protocolFeeIn (matchId : ℕ) (ts : List Transfer) : ℤ :=
  ((ts.filter fun t => t.cause = ⟨matchId, .protocolFee⟩).map Movement.amount).sum

theorem protocolFeeIn_claim {id : ℕ} {m : Match} {side : Side} {ts : List Transfer}
    (hts : ∀ t ∈ ts, t.cause = ⟨id, .claim side⟩) : protocolFeeIn id (claimFees id m c ++ ts) =
      max (c.config.protocolFee (2 * m.stakeAmount)) 0 := by
  have hrest : ts.filter (fun t => t.cause = ⟨id, .protocolFee⟩) = [] :=
    List.filter_eq_nil_iff.mpr fun t ht => by simp [hts t ht]
  simp only [protocolFeeIn, claimFees, feeLeg, List.filter_append, hrest]
  split_ifs <;> simp [outgoing] <;> omega

theorem computeTieredFee_some {stake fee : ℤ} (hc : c.FeesAccepted) (hne : c.feeTiers ≠ [])
    (h : c.computeTieredFee stake = some fee) : ∃ t ∈ c.feeTiers, t.Selected c.feeTiers stake ∧
      fee = (2 * stake * t.feeBasisPoints).tdiv 10000 := by
  obtain ⟨t, hfind, hmem, hsel⟩ := hc.selected hne stake
  refine ⟨t, hmem, hsel, ?_⟩
  simp only [Control.computeTieredFee, List.isEmpty_iff, hne, if_false, hfind, checkedMul,
    checkedDiv, bind_eq_bind, bind_eq_some_iff, toI128_eq_some, Option.elim] at h
  obtain ⟨_, ⟨rfl, -⟩, _, ⟨rfl, -⟩, hfee⟩ := h
  simp at hfee
  rw [← hfee.1, mul_comm stake 2]

/-- The schedule selects the least tier that reaches the stake and its fee is within the pot, but
a claim pays the schedule's fee only where the configuration's protocol fee is the same. -/
theorem tiered_fee (hw : Reachable w) {stake fee : ℤ}
    (h : calculateFeeByTier stake env w.control = .ok fee c') :
    (w.control.feeTiers = [] → fee = 0) ∧
    (w.control.feeTiers ≠ [] → ∃ t, FeeTier.Selected w.control.feeTiers stake t ∧
      fee = (2 * stake * t.feeBasisPoints).tdiv 10000) ∧ (0 ≤ stake → 0 ≤ fee ∧ fee ≤ 2 * stake) ∧
    ∀ env id m player w', w.matchMap id = some m → m.stakeAmount = stake →
      m.winner = (m.sideOf player).winner → claimVestedPayout id player env w.fresh = .ok () w' →
      ∃ ts, w'.log = ts ++ w.log ∧ (protocolFeeIn id ts = fee ↔
        max (w.control.config.protocolFee (2 * stake)) 0 = fee) := by
  simp only [calculateFeeByTier, Tx.bind_ok_iff, Tx.get_ok_iff, Tx.orFail_ok_iff] at h
  obtain ⟨_, _, ⟨rfl, rfl⟩, hfee, rfl⟩ := h
  have hempty : w.control.feeTiers = [] → fee = 0 := fun hnil => by
    simpa [Control.computeTieredFee, hnil, eq_comm] using hfee
  have haccepted := hw.feesAccepted
  refine ⟨hempty, fun hne => ?_, fun hstake => ?_, fun env id m player w' hm hms hwin h => ?_⟩
  · obtain ⟨t, -, hselected⟩ := computeTieredFee_some haccepted hne hfee
    exact ⟨t, hselected⟩
  · rcases eq_or_ne w.control.feeTiers [] with hnil | hne
    · simp [hempty hnil, hstake]
    · obtain ⟨t, ht, -, rfl⟩ := computeTieredFee_some haccepted hne hfee
      have hbps : t.feeBasisPoints ≤ 10000 :=
        validSchedule_bounds haccepted.tiers (t.maxStake, t.feeBasisPoints)
          (List.mem_map.mpr ⟨t, ht, rfl⟩)
      refine ⟨Int.tdiv_nonneg (by positivity) (by norm_num), ?_⟩
      have hdiv := @tdiv_mul_le (2 * stake * t.feeBasisPoints) 10000 (by positivity)
      have hle : 2 * stake * t.feeBasisPoints ≤ 2 * stake * 10000 :=
        mul_le_mul_of_nonneg_left (by exact_mod_cast hbps) (by omega)
      omega
  · obtain ⟨ts, hpays, -, hcause⟩ := winnerClaim_paid hw hm hwin h
    refine ⟨_, hpays.2, ?_⟩
    rw [protocolFeeIn_claim hcause, hms]

/-- With 5% in the configuration as well, the fee of the schedule is paid. -/
theorem tiered_fee_wonUnder :
    ∃ w' ts, wonUnderClaim (wonUnder (ratesConfig 500 0 none) 2000) = .ok () w' ∧
      w'.log = ts ++ (wonUnder (ratesConfig 500 0 none) 2000).log ∧ protocolFeeIn 0 ts = 10 := by
  have hclaim : (wonUnderClaim (wonUnder (ratesConfig 500 0 none) 2000)).isOk = true := by
    decide +kernel
  obtain ⟨w', hclaim⟩ := Outcome.isOk_iff.mp hclaim
  have hmatch : ((wonUnder (ratesConfig 500 0 none) 2000).matchMap 0).any (fun m =>
      decide (m.stakeAmount = 100 ∧ m.winner = (m.sideOf (.ext 2)).winner)) = true := by
    decide +kernel
  obtain ⟨m, hm, hfields⟩ := (any_eq_true _ _).mp hmatch
  obtain ⟨hstake, hwin⟩ := of_decide_eq_true hfields
  have hfee : (calculateFeeByTier 100 (.plain [] 0 0)
      (wonUnder (ratesConfig 500 0 none) 2000).control).value = some 10 := by decide +kernel
  obtain ⟨_, hfee⟩ := Outcome.value_eq_some_iff.mp hfee
  obtain ⟨ts, hlog, hsent⟩ := (tiered_fee (wonUnder_reachable _ _) hfee).2.2.2 _ 0 m _ w' hm hstake
    hwin hclaim
  exact ⟨w', ts, hclaim, hlog, hsent.mpr (by decide +kernel)⟩

/-- The schedule asks a fee of 10 for a stake of 100, and the winner's claim pays none. -/
theorem schedule_not_paid :
    let w := wonUnder (ratesConfig 0 0 none) 2000
    (calculateFeeByTier 100 (.plain [] 0 0) w.control).value = some 10 ∧
      (wonUnderClaim w).isOk = true ∧ protocolFeeIn 0 (step w
        (.invoke (.plain [2] 1 1000000) (.claimVestedPayout 0 (.ext 2)))).log = 0 := by
  decide +kernel

end Checkmate.Escrow

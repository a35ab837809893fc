import Mathlib.Tactic.Linarith
import Checkmate.Oracle.Registry

/-!
# The stakes and the balance behind them

The contract holds the stakes of all registered oracles in its own balance.
`Stakes.staked` adds up the stakes in one token, and a state is backed (`World.Backed`) if
the contract holds at least that much of every token.

A registration pays in what it adds to the stakes, and a slash pays out what it takes from
them, so both keep a backed state backed (`StakeStep.covered`). `swap` pays out of the
same balance and does not look at the stakes : it keeps a backed state backed if and only if it
leaves the stakes in the token it pays out (`swap_covers_iff`). `stakes_backed` : a run all of
whose swaps do ends in a backed state.
-/

namespace Checkmate.Oracle

open Function Stakes Ledger

/-! ## What is staked -/

/-- The stake of a registration, in one token. -/
def OracleRegistration.stakeIn (r : OracleRegistration) (token : Address) : ℤ :=
  if r.token = token then r.oracleStake else 0

/-- The stake of an address, in one token. -/
def Stakes.stakeIn (s : Stakes) (token oracle : Address) : ℤ :=
  ((s.registration oracle).map fun r => r.stakeIn token).getD 0

/-- The sum of all stakes in one token. -/
def Stakes.staked (s : Stakes) (token : Address) : ℤ :=
  (s.oracleSet.map (s.stakeIn token)).sum

/-- The contract's balance of every token covers the stakes in it. -/
def World.Covers (w : World) : Prop :=
  ∀ token, w.stakes.staked token ≤ w.ledger token .self

/-- The oracle set lists all registrations, and the contract's balance of every token is at
least the sum of their stakes in it. -/
structure World.Backed (w : World) : Prop where
  listed : w.stakes.Listed
  covers : w.Covers

section

variable {s q : Stakes} {oracle token t : Address} {r : OracleRegistration} {amount : ℤ}

theorem Stakes.stakeIn_of_registration (h : s.registration oracle = some r) :
    s.stakeIn t oracle = r.stakeIn t := by
  simp [Stakes.stakeIn, h]

theorem Stakes.stakeIn_of_update (hreg : q.registration = update s.registration oracle (some r)) :
    q.stakeIn t = update (s.stakeIn t) oracle (r.stakeIn t) := by
  funext a
  unfold Stakes.stakeIn
  rw [hreg]
  by_cases h : a = oracle
  · subst h
    simp
  · simp [h]

/-- The sum changes by the change of the one stake. -/
theorem Stakes.staked_of_update (hs : s.Listed) (h : oracle ∈ s.oracleSet)
    (hset : q.oracleSet = s.oracleSet)
    (hreg : q.registration = update s.registration oracle (some r)) :
    q.staked t = s.staked t - s.stakeIn t oracle + r.stakeIn t := by
  have hidx : s.oracleSet.idxOf oracle < s.oracleSet.length := List.idxOf_lt_length_of_mem h
  rw [Stakes.staked, Stakes.staked, hset, stakeIn_of_update hreg,
    List.Nodup.map_update hs.nodup, if_pos h, List.sum_set']
  simp [hidx]
  ring

/-- A new entry adds its stake. -/
theorem Stakes.staked_of_append (h : oracle ∉ s.oracleSet)
    (hset : q.oracleSet = s.oracleSet ++ [oracle])
    (hreg : q.registration = update s.registration oracle (some r)) :
    q.staked t = s.staked t + r.stakeIn t := by
  have hmap : s.oracleSet.map (update (s.stakeIn t) oracle (r.stakeIn t)) =
      s.oracleSet.map (s.stakeIn t) := by
    refine List.map_congr_left fun a ha => update_of_ne ?_ _ _
    rintro rfl
    exact h ha
  rw [Stakes.staked, Stakes.staked, hset, stakeIn_of_update hreg]
  simp [hmap]

/-- What is deducted from a stake is no longer staked. -/
theorem Stakes.staked_deduct (hs : s.Listed) (h : s.registration oracle = some r) :
    (s.deduct oracle r amount).staked t = s.staked t - if r.token = t then amount else 0 := by
  rw [staked_of_update (q := s.deduct oracle r amount) hs (hs.mem h) rfl rfl,
    stakeIn_of_registration h]
  by_cases ht : r.token = t
  · simp [OracleRegistration.stakeIn, ht]
  · simp [OracleRegistration.stakeIn, ht]

/-- A registration adds at most what it pays in. -/
theorem Stakes.staked_register_le (hs : s.Sound) (hpos : 0 < amount)
    (htoken : ∀ r, s.registration oracle = some r → r.token = token) :
    (s.register oracle amount token).staked t ≤ s.staked t + if token = t then amount else 0 := by
  cases hr : s.registration oracle with
  | none =>
    have hmem : oracle ∉ s.oracleSet := by simp [hs.mem_iff, hr]
    have hle := saturatingAdd_le (a := 0) (b := amount) (by omega)
    rw [staked_of_append (q := s.register oracle amount token) hmem (if_neg hmem) rfl]
    by_cases ht : token = t
    · simpa [OracleRegistration.stakeIn, Stakes.toppedUp, hr, ht] using hle
    · simp [OracleRegistration.stakeIn, Stakes.toppedUp, ht]
  | some r =>
    have hmem : oracle ∈ s.oracleSet := hs.mem hr
    have hnonneg := hs.stake_nonneg oracle r hr
    have hle := saturatingAdd_le (a := r.oracleStake) (b := amount) (by omega)
    rw [staked_of_update (q := s.register oracle amount token) hs.toListed hmem
      (if_pos hmem) rfl, stakeIn_of_registration hr]
    by_cases ht : token = t
    · simp only [OracleRegistration.stakeIn, Stakes.toppedUp, hr, htoken r hr, ht, if_true,
        Option.map_some, Option.getD_some]
      omega
    · simp [OracleRegistration.stakeIn, Stakes.toppedUp, htoken r hr, ht]

end

/-! ## What the entry points do to the balance behind the stakes -/

/-- The stakes are sound and the balance covers them. -/
structure World.Covered (w : World) : Prop where
  sound : w.stakes.Sound
  covers : w.Covers

/-- The stakes and the balances. -/
def World.vault (w : World) : Stakes × Ledger Address := (w.stakes, w.ledger)

theorem World.Covered.congr {w w' : World} (hw : w.Covered) (h : w'.vault = w.vault) :
    w'.Covered := by
  obtain ⟨hstakes, hledger⟩ := Prod.mk.inj h
  refine ⟨hstakes ▸ hw.sound, fun token => ?_⟩
  rw [hstakes, hledger]
  exact hw.covers token

section

variable {env : Env} {w w' : World} {u : Unit} {oracle token t : Address} {amount : ℤ}
  {l : Ledger Address} {r : OracleRegistration}

/-- A transfer out of the contract takes at most its amount, from one balance. -/
theorem transfer_out {target : Address}
    (h : env.transfer w.ledger token .self target amount = some l) (t : Address) :
    (w.ledger t .self : ℤ) - (if token = t then amount else 0) ≤ l t .self := by
  have hamount := transfer_nonneg (Env.ledger_transfer h)
  rw [transfer_flow (m := ⟨token, .self, target, amount, Cause.swapOut⟩)
    (Env.ledger_transfer h)]
  simp only [Movement.flow]
  by_cases ht : token = t <;> by_cases htarget : target = .self <;> simp [ht, htarget, hamount]

/-- A transfer into the contract from someone else adds its amount. -/
theorem transfer_in {source : Address} (hsource : source ≠ .self)
    (h : env.transfer w.ledger token source .self amount = some l) (t : Address) :
    (l t .self : ℤ) = w.ledger t .self + if token = t then amount else 0 := by
  rw [transfer_flow (m := ⟨token, source, .self, amount, Cause.swapIn⟩)
    (Env.ledger_transfer h)]
  by_cases ht : token = t <;> simp [Movement.flow, ht, hsource]

/-- A stake is taken and at most as much is paid out, in its token. -/
theorem World.Covered.deducted (hw : w.Covered) (hr : w.stakes.registration oracle = some r)
    (hle : amount ≤ r.oracleStake)
    (hl : ∀ t, (w.ledger t .self : ℤ) - (if r.token = t then amount else 0) ≤ l t .self)
    {m : List Transfer} : World.Covered
      { w with stakes := w.stakes.deduct oracle r amount, ledger := l, log := m } := by
  refine ⟨hw.sound.deduct hr hle, fun t => ?_⟩
  have hbefore := hw.covers t
  have hafter := hl t
  change (w.stakes.deduct oracle r amount).staked t ≤ l t .self
  rw [staked_deduct hw.sound.toListed hr]
  omega

theorem Slashed.covered {bps : ℤ} (h : Slashed env w oracle bps w') (hw : w.Covered) :
    w'.Covered := by
  cases h with
  | spared => exact hw
  | kept r hr hpos hle =>
    refine hw.deducted (m := w.log) hr hle fun t => ?_
    split <;> omega
  | sent r admin l hr hpos hle hadmin hl => exact hw.deducted hr hle (transfer_out hl)

theorem World.Covered.registered (hw : w.Covered) (hopen : RegisterOpen env w oracle amount token)
    (hl : env.transfer w.ledger token oracle .self amount = some l) :
    World.Covered ((w.withTransfer ⟨token, oracle, .self, amount, .stake oracle⟩ l).withStakes
      (w.stakes.register oracle amount token)) := by
  have hne : oracle ≠ .self := fun heq => env.self_notMem (heq ▸ hopen.auth)
  refine ⟨hw.sound.register hopen.pos hopen.token_eq, fun t => ?_⟩
  change (w.stakes.register oracle amount token).staked t ≤ l t .self
  have hstaked := staked_register_le (t := t) hw.sound hopen.pos hopen.token_eq
  have hbefore := hw.covers t
  rw [transfer_in hne hl t]
  omega

/-- Every step but a swap keeps the stakes covered. -/
theorem StakeStep.covered {call : Call} (h : StakeStep env call w w')
    (hcall : ∀ c tin tout ain mout rec, call ≠ .swap c tin tout ain mout rec) (hw : w.Covered) :
    w'.Covered := by
  have hsound := h.sound hw.sound
  cases h with
  | registered hopen hl => exact hw.registered hopen hl
  | slashed hadmin h => exact h.covered hw
  | staged => exact ⟨hsound, hw.covers⟩
  | @emptied oracle id p r hp hr hzero =>
    -- nothing is left to take
    have hdue : p.due r = 0 := le_antisymm hzero (hw.sound.due_nonneg hp hr)
    have hdeducted := hw.deducted (l := w.ledger) (m := w.log) hr
      (show p.due r ≤ r.oracleStake from min_le_right _ _) fun t => by simp [hdue]
    exact ⟨hsound, hdeducted.covers⟩
  | @carried oracle admin id p r l hp hr hpos hl =>
    obtain ⟨-, r', hr', htoken⟩ := hw.sound.pending_token oracle id p hp
    obtain rfl := Option.mem_unique hr hr'
    rw [← htoken] at hl
    have hdeducted := hw.deducted (m := w.log) hr
      (show p.due r ≤ r.oracleStake from min_le_right _ _) (transfer_out hl)
    exact ⟨hsound, hdeducted.covers⟩
  | dropped => exact ⟨hsound, hw.covers⟩
  | swapped heq => exact absurd heq (hcall _ _ _ _ _ _)
  | kept hstakes hledger => exact hw.congr (Prod.ext hstakes hledger)

/-! ## Swaps -/

/-- What is left of a balance of the contract after a swap. -/
theorem swap_balance {caller tokenIn tokenOut recipient : Address} {amountIn amountOut : ℤ}
    {l1 l2 : Ledger Address} (hcaller : caller ≠ .self)
    (h1 : env.transfer w.ledger tokenIn caller .self amountIn = some l1)
    (h2 : env.transfer l1 tokenOut .self recipient amountOut = some l2) (t : Address) :
    (l2 t .self : ℤ) = w.ledger t .self + (if tokenIn = t then amountIn else 0) -
      if tokenOut = t ∧ recipient ≠ .self then amountOut else 0 := by
  rw [← transfer_in hcaller h1 t,
    transfer_flow (m := ⟨tokenOut, .self, recipient, amountOut, Cause.swapOut⟩)
      (Env.ledger_transfer h2)]
  by_cases ht : tokenOut = t <;> by_cases hrec : recipient = .self <;>
    simp [Movement.flow, ht, hrec, sub_eq_add_neg]

/-- A swap leaves the stakes in the token it pays out : what it pays goes back to the contract,
or is at most what the balance, with the tokens it takes in, exceeds the stakes by. -/
def World.Affords (w : World) (tokenIn tokenOut : Address) (amountIn : ℤ) (recipient : Address) :
    Prop :=
  recipient = .self ∨ ∀ amountOut ∈ w.price tokenIn tokenOut amountIn,
    w.stakes.staked tokenOut + amountOut ≤
      w.ledger tokenOut .self + if tokenIn = tokenOut then amountIn else 0

/-- A swap keeps the stakes covered if and only if it leaves them. -/
theorem swap_covers_iff {caller tokenIn tokenOut recipient : Address} {amountIn minAmountOut : ℤ}
    (h : swap caller tokenIn tokenOut amountIn minAmountOut recipient env w = .ok u w')
    (hw : w.Covered) : w'.Covers ↔ w.Affords tokenIn tokenOut amountIn recipient := by
  obtain ⟨hcaller, amountOut, l1, l2, hprice, h1, h2, rfl⟩ := swap_ok h
  have hin : 0 ≤ amountIn := transfer_nonneg (Env.ledger_transfer h1)
  have hbalance := swap_balance hcaller h1 h2
  change (∀ t, w.stakes.staked t ≤ (l2 t .self : ℤ)) ↔ _
  unfold World.Affords
  rw [hprice]
  simp only [Option.mem_def, Option.some.injEq, forall_eq']
  constructor
  · intro hcovers
    have hout := hcovers tokenOut
    rw [hbalance tokenOut] at hout
    by_cases hrec : recipient = .self
    · exact .inl hrec
    · have hpaid : (if tokenOut = tokenOut ∧ recipient ≠ .self then amountOut else 0) =
          amountOut := if_pos ⟨rfl, hrec⟩
      exact .inr (by linarith)
  · intro hafford t
    have hbefore := hw.covers t
    rw [hbalance t]
    have hadd : 0 ≤ if tokenIn = t then amountIn else 0 := by split <;> omega
    by_cases ht : tokenOut = t ∧ recipient ≠ .self
    · have hpaid : (if tokenOut = t ∧ recipient ≠ .self then amountOut else 0) = amountOut :=
        if_pos ht
      obtain ⟨rfl, hrec⟩ := ht
      have hroom := hafford.resolve_left hrec
      linarith
    · have hkept : (if tokenOut = t ∧ recipient ≠ .self then amountOut else 0) = 0 := if_neg ht
      linarith

end

/-! ## Runs -/

/-- A swap leaves the stakes in the token it pays out. -/
def Affordable (w : World) : Event → Prop
  | .invoke _ (.swap _ tokenIn tokenOut amountIn _ recipient) =>
    w.Affords tokenIn tokenOut amountIn recipient
  | _ => True

theorem step_covered {w : World} {e : Event} (he : Affordable w e) (hw : w.Covered) :
    (step w e).Covered := by
  cases e with
  | invoke env call =>
    rcases invoke_cases env call.exec w with hfail | hok
    · change (invoke env call.exec w).Covered
      rw [hfail]
      exact hw
    · by_cases hswap : ∃ c tin tout ain mout rec, call = .swap c tin tout ain mout rec
      · obtain ⟨c, tin, tout, ain, mout, rec, rfl⟩ := hswap
        have hcovers := (swap_covers_iff hok hw).mpr he
        obtain ⟨-, _, _, _, -, -, -, hw'⟩ := swap_ok hok
        refine ⟨?_, hcovers⟩
        change (invoke env _ w).stakes.Sound
        rw [hw']
        exact hw.sound
      · push Not at hswap
        exact Call.exec_keeps_of_stakeStep (fun h => h.covered hswap) _ _ _ _ hok hw
  | credit token holder amount =>
    refine ⟨hw.sound, fun t => (hw.covers t).trans ?_⟩
    change (w.ledger t .self : ℤ) ≤ (w.ledger.credit token holder amount t .self : ℕ)
    unfold Ledger.credit
    split <;> omega
  | debit token holder =>
    by_cases hself : holder = .self
    · simpa [step, hself] using hw
    · refine ⟨by simpa [step, hself] using hw.sound, fun t => ?_⟩
      simpa [step, hself, Ledger.debit, Ne.symm hself] using hw.covers t

theorem World.deployed_covered (ledger : Ledger Address) : (World.deployed ledger).Covered where
  sound :=
    { nodup := List.nodup_nil
      mem_iff := fun _ => by simp [World.deployed]
      stake_nonneg := fun _ _ h => by simp [World.deployed] at h
      pending_token := fun _ _ _ h => by simp [World.deployed] at h }
  covers _ := Int.natCast_nonneg _

/-- If every swap of a run leaves the stakes in the token it pays out, the contract holds at
least the stakes of every token at its end. -/
theorem stakes_backed {ledger : Ledger Address} {es : List Event}
    (h : Along step Affordable (.deployed ledger) es) :
    (run step (.deployed ledger) es).Backed := by
  have hcovered : (run step (.deployed ledger) es).Covered :=
    run_inv (fun _ _ hw he => step_covered he hw) (World.deployed_covered ledger) h
  exact ⟨hcovered.sound.toListed, hcovered.covers⟩

/-- Oracle 2 has staked 100 of token 4, and 5 is exchanged for 4 at par. -/
def stakedRun : List Event :=
  [.invoke (.plain [] 0 0) (.initializeOracle (.ext 1)),
    .invoke (.plain [2] 0 0) (.registerOracleWithStake (.ext 2) 100 (.ext 4)),
    .invoke (.plain [1] 0 0) (.setRate (.ext 5) (.ext 4) rateScale)]

/-- Address 3 swaps 50 of token 5 for token 4. -/
def swapEvent : Event :=
  .invoke (.plain [3] 0 0) (.swap (.ext 3) (.ext 5) (.ext 4) 50 0 (.ext 3))

/-- With 60 of token 4 beside the stake, the swap leaves it. -/
theorem stakes_backed_stakedRun :
    let es := stakedRun ++ [.credit (.ext 4) .self 60, swapEvent]
    Along step Affordable (.deployed plainLedger) es ∧
      (run step (.deployed plainLedger) es).stakes.staked (.ext 4) = 100 ∧
      (run step (.deployed plainLedger) es).Backed := by
  intro es
  have hafford : Along step Affordable (.deployed plainLedger) es := by
    refine ⟨trivial, trivial, trivial, trivial, .inr fun amountOut h => ?_, trivial⟩
    have h' : some amountOut = some 50 := h.symm.trans (by decide +kernel)
    obtain rfl := Option.some.inj h'
    decide +kernel
  exact ⟨hafford, by decide +kernel, stakes_backed hafford⟩

/-- Without them it is paid out of the stake. -/
theorem swap_drains_stakes :
    ¬(run step (.deployed plainLedger) (stakedRun ++ [swapEvent])).Backed := by
  intro h
  exact absurd (h.covers (.ext 4)) (by decide +kernel)

end Checkmate.Oracle

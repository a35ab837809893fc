import Checkmate.Oracle.Control

/-!
# Stakes and slashing

An oracle registers by paying a stake into the contract. The admin stages a slash, which
anyone can carry out after the grace period. `slashBps` takes a share of the stake at
once. Slashed tokens go to the admin.

The theorems that end in `_ok` say what each does to the stakes and the balances.
-/

namespace Checkmate.Oracle

open Function Tx

/-! ## Registration -/

/-- One more change of who may vote. -/
def Stakes.bumpVersion (s : Stakes) : Stakes :=
  { s with oracleEligibilityVersion := saturatingAddU u32Max s.oracleEligibilityVersion 1 }

def bumpOracleEligibilityVersion : OracleTx Unit := modifyStakes Stakes.bumpVersion

def Stakes.putRegistration (s : Stakes) (oracle : Address) (r : OracleRegistration) : Stakes :=
  { s with registration := update s.registration oracle (some r) }

/-- List `oracle` unless it is listed. -/
def Stakes.enlist (s : Stakes) (oracle : Address) : Stakes :=
  if oracle ∈ s.oracleSet then s else { s with oracleSet := s.oracleSet ++ [oracle] }

def registerOracleWithStake (oracleAddress : Address) (stakeAmount : ℤ) (token : Address) :
    OracleTx Unit := do
  requireAuth oracleAddress
  Tx.reject (stakeAmount ≤ 0) .invalidAmount
  let w ← Tx.get
  let existing := w.stakes.registration oracleAddress
  let wasEligible := existing.any fun r => 0 < r.oracleStake
  Tx.reject (existing.any (fun r => r.token ≠ token) = true) .stakeTokenMismatch
  transfer ⟨token, oracleAddress, .self, stakeAmount, .stake oracleAddress⟩
  let newStake := saturatingAdd ((existing.map OracleRegistration.oracleStake).getD 0) stakeAmount
  modifyStakes fun s => s.putRegistration oracleAddress ⟨oracleAddress, newStake, token⟩
  Tx.when (wasEligible = false) bumpOracleEligibilityVersion
  modifyStakes fun s => s.enlist oracleAddress

/-! ## Staged slashes -/

/-- Drop a match from an oracle's list of staged slashes. -/
def Stakes.removePendingSlashMatch (s : Stakes) (oracle : Address) (matchId : ℕ) : Stakes :=
  { s with
    pendingSlashList := update s.pendingSlashList oracle
      ((s.pendingSlashList oracle).filter (· ≠ matchId)) }

def Stakes.putPendingSlash (s : Stakes) (oracle : Address) (matchId : ℕ)
    (p : Option PendingSlash) : Stakes :=
  { s with pendingSlash := update s.pendingSlash (oracle, matchId) p }

def slashOracle (oracleAddress : Address) (matchId : ℕ) (slashAmount : ℤ) : OracleTx Unit := do
  let _ ← requireAdmin
  let w ← Tx.get
  let registration ← Tx.orFail (w.stakes.registration oracleAddress) .notRegisteredOracle
  Tx.reject ((w.stakes.pendingSlash (oracleAddress, matchId)).isSome = true) .slashAlreadyPending
  Tx.reject (slashAmount ≤ 0 ∨ registration.oracleStake < slashAmount) .insufficientStake
  let env ← Tx.ask
  let eligibleLedger :=
    saturatingAddU u32Max env.sequence w.control.getSlashingGracePeriod
  modifyStakes fun s => s.putPendingSlash oracleAddress matchId
    (some ⟨oracleAddress, matchId, slashAmount, registration.token, env.sequence, eligibleLedger⟩)
  modifyStakes fun s =>
    { s with
      pendingSlashList := update s.pendingSlashList oracleAddress
        (s.pendingSlashList oracleAddress ++ [matchId]) }

def finalizeSlash (oracleAddress : Address) (matchId : ℕ) : OracleTx Unit := do
  let w ← Tx.get
  let admin ← Tx.orFail w.control.admin .unauthorized
  let pending ← Tx.orFail (w.stakes.pendingSlash (oracleAddress, matchId)) .slashNotFound
  let env ← Tx.ask
  Tx.reject (env.sequence < pending.eligibleLedger) .slashGracePeriodNotElapsed
  let registration ← Tx.orFail (w.stakes.registration oracleAddress) .insufficientStake
  let slashAmount := min pending.slashAmount registration.oracleStake
  let stake := registration.oracleStake - slashAmount
  modifyStakes fun s => s.putRegistration oracleAddress { registration with oracleStake := stake }
  Tx.when (0 < registration.oracleStake ∧ stake = 0) bumpOracleEligibilityVersion
  modifyStakes fun s => s.putPendingSlash oracleAddress matchId none
  modifyStakes fun s => s.removePendingSlashMatch oracleAddress matchId
  Tx.when (0 < slashAmount)
    (transfer ⟨pending.token, .self, admin, slashAmount, .stagedSlash oracleAddress matchId⟩)

def adminCancelSlash (oracleAddress : Address) (matchId : ℕ) : OracleTx Unit := do
  let _ ← requireAdmin
  let w ← Tx.get
  Tx.reject (w.stakes.pendingSlash (oracleAddress, matchId) = none) .slashNotFound
  modifyStakes fun s => s.putPendingSlash oracleAddress matchId none
  modifyStakes fun s => s.removePendingSlashMatch oracleAddress matchId

/-! ## Immediate slashes -/

/-- Take `bps` basis points of the stake, if there is one, and return the amount. A product
that overflows ends the invocation. -/
def slashBps (oracle : Address) (bps : ℤ) : OracleTx ℤ := do
  let w ← Tx.get
  match w.stakes.registration oracle with
  | none => pure 0
  | some registration =>
    if registration.oracleStake ≤ 0 then pure 0
    else do
      let product ← Tx.orAbort (checkedMul registration.oracleStake bps)
      let amount := max 0 (min (product.tdiv 10000) registration.oracleStake)
      if amount = 0 then pure 0
      else do
        let stake := registration.oracleStake - amount
        modifyStakes fun s => s.putRegistration oracle { registration with oracleStake := stake }
        Tx.when (stake = 0) bumpOracleEligibilityVersion
        match w.control.admin with
        | some admin => transfer ⟨registration.token, .self, admin, amount, .slash oracle bps⟩
        | none => pure ()
        pure amount

/-! ## What they do -/

/-- Take `amount` from the stake of an oracle registered as `r`. -/
def Stakes.deduct (s : Stakes) (oracle : Address) (r : OracleRegistration) (amount : ℤ) :
    Stakes :=
  { s with
    registration := update s.registration oracle
      (some { r with oracleStake := r.oracleStake - amount })
    oracleEligibilityVersion :=
      if 0 < r.oracleStake ∧ r.oracleStake - amount = 0 then
        saturatingAddU u32Max s.oracleEligibilityVersion 1
      else s.oracleEligibilityVersion }

/-- The registration of an oracle after it has paid in `amount` of `token`. -/
def Stakes.toppedUp (s : Stakes) (oracle : Address) (amount : ℤ) (token : Address) :
    OracleRegistration :=
  ⟨oracle, saturatingAdd (((s.registration oracle).map OracleRegistration.oracleStake).getD 0)
    amount, token⟩

/-- Register an oracle, or add to its stake. -/
def Stakes.register (s : Stakes) (oracle : Address) (amount : ℤ) (token : Address) : Stakes :=
  { s with
    registration := update s.registration oracle (some (s.toppedUp oracle amount token))
    oracleSet := if oracle ∈ s.oracleSet then s.oracleSet else s.oracleSet ++ [oracle]
    oracleEligibilityVersion :=
      if (s.registration oracle).any fun r => 0 < r.oracleStake then s.oracleEligibilityVersion
      else saturatingAddU u32Max s.oracleEligibilityVersion 1 }

/-- Drop a staged slash. -/
def Stakes.dropSlash (s : Stakes) (oracle : Address) (matchId : ℕ) : Stakes :=
  (s.putPendingSlash oracle matchId none).removePendingSlashMatch oracle matchId

section

variable {env : Env} {w w' : World} {u : Unit} {oracle : Address} {amount bps : ℤ} {id : ℕ}

@[simp] theorem bumpOracleEligibilityVersion_ok_iff :
    bumpOracleEligibilityVersion env w = .ok u w' ↔ w' = w.withStakes w.stakes.bumpVersion := by
  simp [bumpOracleEligibilityVersion]

/-- What a registration checks. -/
structure RegisterOpen (env : Env) (w : World) (oracle : Address) (amount : ℤ)
    (token : Address) : Prop where
  auth : oracle ∈ env.auths
  pos : 0 < amount
  token_eq : ∀ r, w.stakes.registration oracle = some r → r.token = token

theorem registerOracleWithStake_ok {token : Address}
    (h : registerOracleWithStake oracle amount token env w = .ok u w') :
    RegisterOpen env w oracle amount token ∧
      ∃ l, env.transfer w.ledger token oracle .self amount = some l ∧
        w' = (w.withTransfer ⟨token, oracle, .self, amount, .stake oracle⟩ l).withStakes
          (w.stakes.register oracle amount token) := by
  simp only [registerOracleWithStake, bind_ok_iff, requireAuth_ok_iff, reject_ok_iff, get_ok_iff,
    transfer_ok_iff, modifyStakes_ok_iff, when_ok_iff, bumpOracleEligibilityVersion_ok_iff] at h
  obtain ⟨_, _, ⟨hauth, rfl⟩, _, _, ⟨hpos, rfl⟩, _, _, ⟨rfl, rfl⟩, _, _, ⟨htoken, rfl⟩, _, _,
    ⟨l, hl, rfl⟩, _, _, rfl, _, _, hbump, rfl⟩ := h
  refine ⟨⟨hauth, not_le.mp hpos, fun r hr => ?_⟩, l, hl, ?_⟩
  · simpa [hr] using htoken
  · have henlist (s : Stakes) : s.enlist oracle = { s with
        oracleSet := if oracle ∈ s.oracleSet then s.oracleSet else s.oracleSet ++ [oracle] } := by
      unfold Stakes.enlist
      split <;> rfl
    rw [henlist]
    rcases hbump with ⟨hnew, rfl⟩ | ⟨hold, rfl⟩
    · simp only [Stakes.register, hnew]
      rfl
    · rw [Bool.not_eq_false] at hold
      simp only [Stakes.register, hold]
      rfl

/-- What a slash of `bps` basis points takes. -/
def OracleRegistration.share (r : OracleRegistration) (bps : ℤ) : ℤ :=
  max 0 (min ((r.oracleStake * bps).tdiv 10000) r.oracleStake)

/-- The product that a slash computes is an `i128`. -/
def OracleRegistration.Fits (r : OracleRegistration) (bps : ℤ) : Prop :=
  i128Min ≤ r.oracleStake * bps ∧ r.oracleStake * bps ≤ i128Max

instance (r : OracleRegistration) (bps : ℤ) : Decidable (r.Fits bps) :=
  inferInstanceAs (Decidable (_ ∧ _))

/-- What a slash does : nothing, or it takes a share of a stake and sends it to the admin. -/
inductive Slashed (env : Env) (w : World) (oracle : Address) (bps : ℤ) : World → Prop
  | spared (h : ∀ r, w.stakes.registration oracle = some r → 0 < r.oracleStake →
      r.Fits bps ∧ r.share bps = 0) : Slashed env w oracle bps w
  | kept (r : OracleRegistration) (hr : w.stakes.registration oracle = some r)
      (hpos : 0 < r.share bps) (hle : r.share bps ≤ r.oracleStake)
      (hadmin : w.control.admin = none) (hfits : r.Fits bps) :
      Slashed env w oracle bps (w.withStakes (w.stakes.deduct oracle r (r.share bps)))
  | sent (r : OracleRegistration) (admin : Address) (l : Ledger Address)
      (hr : w.stakes.registration oracle = some r)
      (hpos : 0 < r.share bps) (hle : r.share bps ≤ r.oracleStake)
      (hadmin : w.control.admin = some admin)
      (hl : env.transfer w.ledger r.token .self admin (r.share bps) = some l)
      (hfits : r.Fits bps) :
      Slashed env w oracle bps
        ((w.withStakes (w.stakes.deduct oracle r (r.share bps))).withTransfer
          ⟨r.token, .self, admin, r.share bps, .slash oracle bps⟩ l)

theorem slashBps_ok (h : slashBps oracle bps env w = .ok amount w') :
    Slashed env w oracle bps w' := by
  simp only [slashBps, bind_ok_iff, get_ok_iff] at h
  obtain ⟨_, w, ⟨rfl, rfl⟩, h⟩ := h
  cases hr : w.stakes.registration oracle with
  | none =>
    rw [hr] at h
    obtain ⟨-, rfl⟩ := pure_ok_iff.mp h
    exact .spared fun r hr' => by simp [hr] at hr'
  | some r =>
    simp only [hr] at h
    by_cases hstake : r.oracleStake ≤ 0
    · rw [if_pos hstake] at h
      obtain ⟨-, rfl⟩ := pure_ok_iff.mp h
      refine .spared fun r' hr' hpos => absurd hpos (not_lt.mpr ?_)
      obtain rfl := Option.mem_unique hr hr'
      exact hstake
    · rw [if_neg hstake] at h
      simp only [bind_ok_iff, orAbort_ok_iff, checkedMul, toI128_eq_some] at h
      obtain ⟨_, w, ⟨⟨rfl, hfits⟩, rfl⟩, h⟩ := h
      have hshare : max 0 (min ((r.oracleStake * bps).tdiv 10000) r.oracleStake) = r.share bps :=
        rfl
      rw [hshare] at h
      by_cases hzero : r.share bps = 0
      · rw [if_pos hzero] at h
        obtain ⟨-, rfl⟩ := pure_ok_iff.mp h
        refine .spared fun r' hr' _ => ?_
        obtain rfl := Option.mem_unique hr hr'
        exact ⟨hfits, hzero⟩
      · rw [if_neg hzero] at h
        simp only [bind_ok_iff, modifyStakes_ok_iff, when_ok_iff,
          bumpOracleEligibilityVersion_ok_iff] at h
        obtain ⟨_, _, rfl, _, w2, hbump, htransfer⟩ := h
        have hw2 : w2 = w.withStakes (w.stakes.deduct oracle r (r.share bps)) := by
          rcases hbump with ⟨hz, rfl⟩ | ⟨hz, rfl⟩
          · rw [Stakes.deduct, if_pos ⟨not_le.mp hstake, hz⟩]
            rfl
          · rw [Stakes.deduct, if_neg fun h => hz h.2]
            rfl
        have hpos : 0 < r.share bps := lt_of_le_of_ne (le_max_left _ _) (Ne.symm hzero)
        have hle : r.share bps ≤ r.oracleStake := max_le (not_le.mp hstake).le (min_le_right _ _)
        subst hw2
        cases hadmin : w.control.admin with
        | none =>
          simp only [hadmin, pure_ok_iff] at htransfer
          obtain ⟨-, rfl⟩ := htransfer
          exact .kept r hr hpos hle hadmin hfits
        | some admin =>
          simp only [hadmin, bind_ok_iff, transfer_ok_iff, pure_ok_iff] at htransfer
          obtain ⟨_, _, ⟨l, hl, rfl⟩, -, rfl⟩ := htransfer
          exact .sent r admin l hr hpos hle hadmin hl hfits

/-- A slash that finds nothing to take. -/
theorem slashBps_of_spared (h : ∀ r, w.stakes.registration oracle = some r →
    0 < r.oracleStake → r.Fits bps ∧ r.share bps = 0) : slashBps oracle bps env w = .ok 0 w := by
  rw [slashBps, get_bind]
  cases hr : w.stakes.registration oracle with
  | none => rfl
  | some r =>
    dsimp only
    rcases le_or_gt r.oracleStake 0 with hle | hlt
    · rw [if_pos hle]
      rfl
    · obtain ⟨hfits, hzero⟩ := h r hr hlt
      have hmul : Tx.orAbort (checkedMul r.oracleStake bps) env w =
          (.ok (r.oracleStake * bps) w : Outcome Error World ℤ) :=
        orAbort_ok_iff.mpr ⟨toI128_eq_some.mpr ⟨rfl, hfits⟩, rfl⟩
      rw [if_neg (not_le.mpr hlt), bind_of_ok hmul]
      rw [show max 0 (min ((r.oracleStake * bps).tdiv 10000) r.oracleStake) = r.share bps from rfl,
        if_pos hzero]
      rfl

/-- A slash that takes something and whose transfer succeeds. -/
theorem slashBps_of_sent {r : OracleRegistration} {admin : Address} {l : Ledger Address}
    (hr : w.stakes.registration oracle = some r) (hfits : r.Fits bps)
    (hpos : 0 < r.share bps) (hadmin : w.control.admin = some admin)
    (hl : env.transfer w.ledger r.token .self admin (r.share bps) = some l) :
    slashBps oracle bps env w = .ok (r.share bps)
      ((w.withStakes (w.stakes.deduct oracle r (r.share bps))).withTransfer
        ⟨r.token, .self, admin, r.share bps, .slash oracle bps⟩ l) := by
  have hstake : 0 < r.oracleStake := by
    unfold OracleRegistration.share at hpos
    omega
  have hmul : Tx.orAbort (checkedMul r.oracleStake bps) env w =
      (.ok (r.oracleStake * bps) w : Outcome Error World ℤ) :=
    orAbort_ok_iff.mpr ⟨toI128_eq_some.mpr ⟨rfl, hfits⟩, rfl⟩
  have hput : modifyStakes (fun s => s.putRegistration oracle
      { r with oracleStake := r.oracleStake - r.share bps }) env w = .ok () (w.withStakes
        (w.stakes.putRegistration oracle
          { r with oracleStake := r.oracleStake - r.share bps })) := rfl
  have hbump : Tx.when (r.oracleStake - r.share bps = 0) bumpOracleEligibilityVersion env
      (w.withStakes (w.stakes.putRegistration oracle
        { r with oracleStake := r.oracleStake - r.share bps })) =
      .ok () (w.withStakes (w.stakes.deduct oracle r (r.share bps))) := by
    by_cases hz : r.oracleStake - r.share bps = 0
    · rw [Tx.when, if_pos hz, Stakes.deduct, if_pos ⟨hstake, hz⟩]
      rfl
    · rw [Tx.when, if_neg hz, Stakes.deduct, if_neg fun h => hz h.2]
      rfl
  have hsend : transfer ⟨r.token, .self, admin, r.share bps, .slash oracle bps⟩ env
      (w.withStakes (w.stakes.deduct oracle r (r.share bps))) = .ok () _ :=
    transfer_ok_iff.mpr ⟨l, hl, rfl⟩
  rw [slashBps, get_bind]
  simp only [hr, if_neg (not_le.mpr hstake)]
  rw [bind_of_ok hmul]
  rw [show max 0 (min ((r.oracleStake * bps).tdiv 10000) r.oracleStake) = r.share bps from rfl,
    if_neg hpos.ne', bind_of_ok hput, bind_of_ok hbump]
  simp only [hadmin]
  rw [bind_of_ok hsend]
  rfl

theorem slashBps_not_err {e : Error} : slashBps oracle bps env w ≠ .err e w' := by
  intro h
  simp only [slashBps, bind_err_iff, get_ok_iff, get_err_iff, false_or] at h
  obtain ⟨_, w, ⟨rfl, rfl⟩, h⟩ := h
  cases hr : w.stakes.registration oracle with
  | none => simp [hr] at h
  | some =>
    simp only [hr, ite_err_iff, pure_err_iff, and_false, false_or, bind_err_iff,
      orAbort_err_iff, modifyStakes_err_iff, when_err_iff] at h
    obtain ⟨-, _, _, -, -, _, _, -, h⟩ := h
    cases hadmin : w.control.admin <;> simp [bumpOracleEligibilityVersion, hadmin] at h

/-- What a staged slash takes : the staged amount, or the rest of the stake. -/
def PendingSlash.due (p : PendingSlash) (r : OracleRegistration) : ℤ :=
  min p.slashAmount r.oracleStake

theorem finalizeSlash_ok (h : finalizeSlash oracle id env w = .ok u w') :
    ∃ admin p r, w.control.admin = some admin ∧
      w.stakes.pendingSlash (oracle, id) = some p ∧ p.eligibleLedger ≤ env.sequence ∧
      w.stakes.registration oracle = some r ∧ ((p.due r ≤ 0 ∧ w' = w.withStakes
          ((w.stakes.deduct oracle r (p.due r)).dropSlash oracle id)) ∨
        ∃ l, 0 < p.due r ∧ env.transfer w.ledger p.token .self admin (p.due r) = some l ∧
          w' = (w.withStakes ((w.stakes.deduct oracle r (p.due r)).dropSlash oracle
            id)).withTransfer ⟨p.token, .self, admin, p.due r, .stagedSlash oracle id⟩ l) := by
  simp only [finalizeSlash, bind_ok_iff, get_ok_iff, orFail_ok_iff, ask_ok_iff, reject_ok_iff,
    modifyStakes_ok_iff, when_ok_iff, bumpOracleEligibilityVersion_ok_iff, transfer_ok_iff] at h
  obtain ⟨_, _, ⟨rfl, rfl⟩, admin, _, ⟨hadmin, rfl⟩, p, _, ⟨hp, rfl⟩, _, _, ⟨rfl, rfl⟩, _, _,
    ⟨hseq, rfl⟩, r, w, ⟨hr, rfl⟩, _, _, rfl, _, w2, hbump, _, _, rfl, _, _, rfl, htransfer⟩ := h
  have hw2 : w2 = w.withStakes (w.stakes.deduct oracle r (p.due r)) := by
    rcases hbump with ⟨hz, rfl⟩ | ⟨hz, rfl⟩
    · rw [Stakes.deduct, PendingSlash.due, if_pos hz]
      rfl
    · rw [Stakes.deduct, PendingSlash.due, if_neg hz]
      rfl
  subst hw2
  refine ⟨admin, p, r, hadmin, hp, not_lt.mp hseq, hr, ?_⟩
  rcases htransfer with ⟨hpos, l, hl, rfl⟩ | ⟨hpos, rfl⟩
  · exact .inr ⟨l, hpos, hl, rfl⟩
  · exact .inl ⟨not_lt.mp hpos, rfl⟩

/-- Stage a slash. -/
def Stakes.stage (s : Stakes) (p : PendingSlash) : Stakes :=
  { s.putPendingSlash p.oracleAddress p.matchId (some p) with
    pendingSlashList := update s.pendingSlashList p.oracleAddress
      (s.pendingSlashList p.oracleAddress ++ [p.matchId]) }

theorem slashOracle_ok (h : slashOracle oracle id amount env w = .ok u w') :
    ∃ r, w.stakes.registration oracle = some r ∧
      w.stakes.pendingSlash (oracle, id) = none ∧ 0 < amount ∧
      w' = w.withStakes (w.stakes.stage ⟨oracle, id, amount, r.token, env.sequence,
        saturatingAddU u32Max env.sequence w.control.getSlashingGracePeriod⟩) := by
  simp only [slashOracle, bind_ok_iff, requireAdmin_ok_iff, get_ok_iff, orFail_ok_iff,
    reject_ok_iff, ask_ok_iff, modifyStakes_ok_iff] at h
  obtain ⟨_, _, ⟨-, -, rfl⟩, _, _, ⟨rfl, rfl⟩, r, _, ⟨hr, rfl⟩, _, _, ⟨hnone, rfl⟩, _, _,
    ⟨hamount, rfl⟩, _, _, ⟨rfl, rfl⟩, _, _, rfl, rfl⟩ := h
  exact ⟨r, hr, by simpa using hnone, (not_or.mp hamount).1 |> not_le.mp, rfl⟩

theorem adminCancelSlash_ok (h : adminCancelSlash oracle id env w = .ok u w') :
    w' = w.withStakes (w.stakes.dropSlash oracle id) := by
  simp only [adminCancelSlash, bind_ok_iff, requireAdmin_ok_iff, get_ok_iff,
    reject_ok_iff, modifyStakes_ok_iff] at h
  obtain ⟨_, _, ⟨-, -, rfl⟩, _, _, ⟨rfl, rfl⟩, _, _, ⟨-, rfl⟩, _, _, rfl, rfl⟩ := h
  rfl

end

end Checkmate.Oracle

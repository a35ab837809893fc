import Mathlib.Logic.Relation
import Checkmate.Oracle.Frames
import Checkmate.Oracle.Outcomes

/-!
# What the entry points do to the stakes

A call changes the stakes, the balances and the log in steps (`StakeStep`) : a registration, a
slash, a slash that is staged, carried out or dropped, or a swap. A vote or a decision of the
admin slashes several oracles, one after the other. Every call that returns is a sequence of
such steps (`Call.exec_stakeSteps`), so what each of them keeps, every entry point keeps
(`Call.exec_keeps_of_stakeStep`).
-/

namespace Checkmate.Oracle

open Relation (ReflTransGen)

/-- One change of the stakes by a call, with the movement that goes with it. -/
inductive StakeStep (env : Env) (call : Call) (w : World) : World → Prop
  | registered {oracle token : Address} {amount : ℤ} {l : Ledger Address}
      (hopen : RegisterOpen env w oracle amount token)
      (hl : env.transfer w.ledger token oracle .self amount = some l) :
      StakeStep env call w
        ((w.withTransfer ⟨token, oracle, .self, amount, .stake oracle⟩ l).withStakes
          (w.stakes.register oracle amount token))
  | slashed {oracle : Address} {bps : ℤ} {w' : World} (hadmin : w.control.admin.isSome = true)
      (h : Slashed env w oracle bps w') : StakeStep env call w w'
  | staged {p : PendingSlash} {r : OracleRegistration} (hpos : 0 < p.slashAmount)
      (hr : w.stakes.registration p.oracleAddress = some r) (htoken : r.token = p.token) :
      StakeStep env call w (w.withStakes (w.stakes.stage p))
  | emptied {oracle : Address} {matchId : ℕ} {p : PendingSlash} {r : OracleRegistration}
      (hp : w.stakes.pendingSlash (oracle, matchId) = some p)
      (hr : w.stakes.registration oracle = some r) (hzero : p.due r ≤ 0) :
      StakeStep env call w
        (w.withStakes ((w.stakes.deduct oracle r (p.due r)).dropSlash oracle matchId))
  | carried {oracle admin : Address} {matchId : ℕ} {p : PendingSlash} {r : OracleRegistration}
      {l : Ledger Address} (hp : w.stakes.pendingSlash (oracle, matchId) = some p)
      (hr : w.stakes.registration oracle = some r) (hpos : 0 < p.due r)
      (hl : env.transfer w.ledger p.token .self admin (p.due r) = some l) :
      StakeStep env call w
        ((w.withStakes ((w.stakes.deduct oracle r (p.due r)).dropSlash oracle
          matchId)).withTransfer ⟨p.token, .self, admin, p.due r, .stagedSlash oracle matchId⟩ l)
  | dropped {oracle : Address} {matchId : ℕ} :
      StakeStep env call w (w.withStakes (w.stakes.dropSlash oracle matchId))
  | swapped {caller tokenIn tokenOut recipient : Address} {amountIn minAmountOut amountOut : ℤ}
      {l1 l2 : Ledger Address}
      (hcall : call = .swap caller tokenIn tokenOut amountIn minAmountOut recipient) :
      StakeStep env call w
        ((w.withTransfer ⟨tokenIn, caller, .self, amountIn, .swapIn⟩ l1).withTransfer
          ⟨tokenOut, .self, recipient, amountOut, .swapOut⟩ l2)
  | kept {w' : World} (hstakes : w'.stakes = w.stakes) (hledger : w'.ledger = w.ledger)
      (hlog : w'.log = w.log) : StakeStep env call w w'

section

variable {env : Env} {call : Call} {w w' : World} {u : Unit} {oracle : Address}

theorem slashSubmitters_stakeSteps {candidates : List CandidateTally}
    (h : slashSubmitters candidates env w = .ok u w') (hadmin : w.control.admin.isSome = true) :
    ReflTransGen (StakeStep env call) w w' := by
  refine (Tx.forEach_rel (R := fun w w' : World => w.control.admin.isSome = true →
    ReflTransGen (StakeStep env call) w w' ∧ w'.control.admin.isSome = true)
    (fun _ hadmin => ⟨.refl, hadmin⟩) (fun h h' hadmin => ?_) (fun _ _ _ _ _ h hadmin => ?_) h
    hadmin).1
  · obtain ⟨hsteps, hadmin⟩ := h hadmin
    obtain ⟨hsteps', hadmin⟩ := h' hadmin
    exact ⟨hsteps.trans hsteps', hadmin⟩
  · have hslashed := slashBps_ok h
    exact ⟨.single (.slashed hadmin hslashed), hslashed.control ▸ hadmin⟩

theorem Voted.stakeSteps {id : ℕ} {vote : OracleVoteRecord} {responseTimeMs : UInt64}
    (h : Voted env w oracle id vote responseTimeMs w')
    (hadmin : w.control.admin.isSome = true) : ReflTransGen (StakeStep env call) w w' := by
  cases h with
  | late finalized hres hne _ hslash => exact .single (.slashed hadmin hslash)
  | equivocated prev hres hlets hprev hne _ hslash =>
    refine .head ?_ (.single (.slashed ?_ hslash))
    · exact .kept rfl rfl rfl
    · exact hadmin
  | finalized hres hlets hnone hopen hreached w2 hslash =>
    refine .head ?_ ((slashSubmitters_stakeSteps hslash hadmin).tail ?_)
    · exact .kept rfl rfl rfl
    · exact .kept rfl rfl rfl
  | counted => exact .single (.kept rfl rfl rfl)

theorem Call.exec_stakeSteps (h : call.exec env w = .ok u w') :
    ReflTransGen (StakeStep env call) w w' := by
  cases call with
  | registerOracleWithStake =>
    obtain ⟨hopen, l, hl, rfl⟩ := registerOracleWithStake_ok h
    exact .single (.registered hopen hl)
  | slashOracle =>
    obtain ⟨r, hr, -, hpos, rfl⟩ := slashOracle_ok h
    exact .single (.staged hpos hr rfl)
  | finalizeSlash =>
    obtain ⟨admin, p, r, -, hp, -, hr, ⟨hzero, rfl⟩ | ⟨l, hpos, hl, rfl⟩⟩ := finalizeSlash_ok h
    · exact .single (.emptied hp hr hzero)
    · exact .single (.carried hp hr hpos hl)
  | adminCancelSlash =>
    rw [adminCancelSlash_ok h]
    exact .single .dropped
  | submitOracleResult oracle id gameId platform result =>
    obtain ⟨hopen, hvoted⟩ := submitOracleResult_ok ⟨gameId, platform, result⟩ h
    exact hvoted.stakeSteps hopen.admin
  | resolveDisputedMatch id gameId platform result =>
    obtain ⟨admin, state, w2, hadmin, -, -, -, hslash, rfl⟩ :=
      resolveDisputedMatch_ok ⟨gameId, platform, result⟩ h
    exact (slashSubmitters_stakeSteps hslash (by simp [hadmin])).tail (.kept rfl rfl rfl)
  | swap =>
    obtain ⟨-, amountOut, l1, l2, -, -, -, rfl⟩ := swap_ok h
    exact .single (.swapped rfl)
  | _ =>
    have hstakes : w'.stakes = w.stakes := (Call.exec_keeps .stakes rfl).ok h
    have htokens : (w'.ledger, w'.log) = (w.ledger, w.log) := (Call.exec_keeps .tokens rfl).ok h
    exact .single (.kept hstakes (Prod.mk.inj htokens).1 (Prod.mk.inj htokens).2)

/-- What every step keeps, the call keeps. -/
theorem Call.exec_keeps_of_stakeStep {P : World → Prop}
    (hP : ∀ {env w w'}, StakeStep env call w w' → P w → P w') : Tx.Keeps P call.exec := by
  intro env w u w' h hw
  have hsteps := Call.exec_stakeSteps h
  clear h
  induction hsteps with
  | refl => exact hw
  | tail _ hstep ih => exact hP hstep ih

end

end Checkmate.Oracle

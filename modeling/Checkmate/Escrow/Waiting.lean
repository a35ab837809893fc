import Checkmate.Escrow.Exits

/-!
# Payouts that wait

A player who can claim a vested payout, and anyone who can finalise a match, may also wait.
The vesting period and the dispute window stay over, and every error of the payment itself is
one of the stored match and settings, not of the time (`paySide_not_err`). Only the conversion
rate of a multi-token match ages : the payout waits as long as the rate is recent and not
longer (`payout_waits_iff`).
-/

namespace Checkmate.Escrow

open Tx Option

variable {env env' : Env} {i : ℕ} {m : Match} {w w' w1 : World} {u : Unit} {e : Error}
  {side : Side}

/-! ## Errors of a vested payout -/

theorem payNet_not_err {netPayout : ℤ} (horacle : w.control.oracle.isSome = true)
    (h : payNet i m side netPayout env w = .ok u w1) :
    payNet i m side netPayout env' w ≠ .err e w' := by
  intro herr
  simp only [payNet, bind_ok_iff, bind_err_iff, get_ok_iff, get_err_iff, false_or] at h herr
  obtain ⟨_, _, ⟨rfl, rfl⟩, h⟩ := h
  obtain ⟨_, _, ⟨rfl, rfl⟩, herr⟩ := herr
  rcases ite_ok_iff.mp h with ⟨hswap, h⟩ | ⟨hswap, -⟩
  · simp only [bind_ok_iff, orFail_ok_iff, orAbort_ok_iff] at h
    obtain ⟨rate, _, ⟨hrate, rfl⟩, amount, _, ⟨hamount, rfl⟩, tokenB, _, ⟨hB, rfl⟩, -⟩ := h
    simp [hswap, hrate, hamount, hB] at herr
    rw [oracleSwap_err herr] at horacle
    exact Bool.noConfusion horacle
  · simp [hswap] at herr

theorem payWinner_not_err (horacle : w.control.oracle.isSome = true)
    (h : payWinner i m side env w = .ok u w1) : payWinner i m side env' w ≠ .err e w' := by
  intro herr
  simp only [payWinner, bind_ok_iff, get_ok_iff, orFail_ok_iff] at h
  obtain ⟨_, _, ⟨rfl, rfl⟩, pot, _, ⟨hpot, rfl⟩, referralFee, _, ⟨href, rfl⟩, protocolFee, _,
    ⟨hprot, rfl⟩, after, _, ⟨hafter, rfl⟩, net, _, ⟨hnet, rfl⟩, _, w2, hpay, _, w3, hwhen, -⟩ := h
  simp [payWinner, hpot, href, hprot, hafter, hnet] at herr
  rcases herr with herr | ⟨-, hpos, hnone, -⟩
  · exact payNet_not_err horacle hpay herr
  · rcases when_ok_iff.mp hwhen with ⟨-, hsend⟩ | ⟨hneg, -⟩
    · simp [hnone] at hsend
    · exact hneg hpos

/-- Whether the payment of a claim returns an error does not depend on the host. -/
theorem paySide_not_err (horacle : w.control.oracle.isSome = true)
    (h : paySide i m side env w = .ok u w1) : paySide i m side env' w ≠ .err e w' := by
  intro herr
  simp only [paySide, bind_ok_iff, bind_err_iff, reject_ok_iff, reject_err_iff]
    at h herr
  obtain ⟨_, _, ⟨hclaimed, rfl⟩, h⟩ := h
  rcases herr with ⟨hclaimed', -⟩ | ⟨_, _, ⟨-, rfl⟩, herr⟩
  · exact hclaimed hclaimed'
  rcases ite_ok_iff.mp h with ⟨hwin, h⟩ | ⟨hwin, h⟩
  · rw [if_pos hwin] at herr
    exact payWinner_not_err horacle h herr
  · rw [if_neg hwin] at herr
    rcases ite_ok_iff.mp h with ⟨hdraw, h⟩ | ⟨-, h⟩
    · simp [hdraw] at herr
    · rcases ite_ok_iff.mp h with ⟨-, h⟩ | ⟨-, h⟩ <;> simp at h

/-! ## Waiting -/

/-- The same caller, at a later ledger and a later time. -/
structure Env.Later (env env' : Env) : Prop where
  sequence : env.sequence ≤ env'.sequence
  timestamp : env.timestamp ≤ env'.timestamp
  auths : env'.auths = env.auths

/-- The match that a payout is about. -/
def Call.payoutOf : Call → Option ℕ
  | .claimVestedPayout matchId _ => some matchId
  | .finalizeMatch matchId => some matchId
  | _ => none

theorem FinalizeOpen.later {winner : Winner} (h : FinalizeOpen env w i m winner)
    (hlater : env.Later env') : FinalizeOpen env' w i m winner := by
  obtain ⟨deadline, hline, hle⟩ := h.elapsed
  exact { h with elapsed := ⟨deadline, hline, hle.trans hlater.sequence⟩ }

theorem ClaimOpen.later {player : Address} (h : ClaimOpen env w i player m)
    (hlater : env.Later env') (hfresh : m.RateFresh env'.sequence) :
    ClaimOpen env' w i player m := by
  obtain ⟨vestedAt, hvested, hfit, hle⟩ := h.vested
  have hunused : w.control.hasAuth env' player := by
    have hauth := h.unused
    rwa [Control.hasAuth, ← hlater.auths] at hauth
  exact { h with
    auth := hlater.auths ▸ h.auth
    unused := hunused
    vested := ⟨vestedAt, hvested, hfit, hle.trans hlater.timestamp⟩
    fresh := hfresh }

/-- A payout that would succeed now would succeed later, if the tokens and the swap do not fail
then, exactly if the conversion rate is still recent. -/
theorem payout_waits_iff {call : Call} (hw : Reachable w) (hcall : call.payoutOf = some i)
    (hm : w.matchMap i = some m) (hlater : env.Later env') (hc : Commits env call.exec w)
    (hhost : call.exec env' w.fresh ≠ .trap) :
    Commits env' call.exec w ↔ m.RateFresh env'.sequence := by
  obtain ⟨w1, h⟩ := hc
  cases call with
  | claimVestedPayout id player =>
    obtain rfl := Option.some.inj hcall
    obtain ⟨m1, w2, hopen, hpay, rfl⟩ := claimVestedPayout_ok h
    obtain rfl := mem_unique hopen.stored hm
    refine ⟨fun ⟨w', h'⟩ => ?_, fun hfresh => ?_⟩
    · obtain ⟨m2, _, hopen', -⟩ := claimVestedPayout_ok h'
      obtain rfl := mem_unique hopen'.stored hm
      exact hopen'.fresh
    · cases h' : (Call.claimVestedPayout id player).exec env' w.fresh with
      | ok _ w' => exact ⟨w', h'⟩
      | err =>
        exact absurd (claimVestedPayout_err (hopen.later hlater hfresh) h')
          (paySide_not_err hw.oracle hpay)
      | trap => exact absurd h' hhost
  | finalizeMatch id =>
    obtain rfl := Option.some.inj hcall
    obtain ⟨m1, winner, w2, hopen, hpay, rfl⟩ := finalizeMatch_ok h
    obtain rfl := mem_unique hopen.stored hm
    refine ⟨fun ⟨w', h'⟩ => ?_, fun hfresh => ?_⟩
    · obtain ⟨m2, _, _, hopen', hpay', -⟩ := finalizeMatch_ok h'
      obtain rfl := mem_unique hopen'.stored hm
      exact (executePayout_due hpay').1
    · cases h' : (Call.finalizeMatch id).exec env' w.fresh with
      | ok _ w' => exact ⟨w', h'⟩
      | err =>
        have hsound := hw.sound.stored id m1 hm
        have hwinner : winner ≠ .none := by
          rw [Option.some.inj (hopen.pendingWinner.symm.trans
            (hw.waitsAsRecorded id m1 hm hopen.waits))]
          exact hsound.stage.winner.mpr (.inl hopen.waits)
        exact absurd (finalizeMatch_err (hopen.later hlater) h')
          (hsound.payout_not_err hopen.waits hw.oracle hwinner hfresh (executePayout_due hpay).2)
      | trap => exact absurd h' hhost
  | _ => exact absurd hcall (by simp [Call.payoutOf])

/-- Addresses 2 and 3 play for 100 of token 4 against as much of token 5, at a rate agreed at
ledger 0, and address 2 wins. -/
def convertedMatch : List Event :=
  [.invoke (.plain [2] 0 0) (.createMatchWithConversion (.ext 2) (.ext 3) 100 (.ext 4) (.ext 5)
      10000000 [49, 50, 51, 52, 53, 54, 55] .chessDotCom),
    .invoke (.plain [2] 0 0) (.deposit 0 (.ext 2)),
    .invoke (.plain [3] 0 0) (.deposit 0 (.ext 3)),
    .invoke (.plain [0] 0 0) (.submitResult 0 .player1 (.ext 0))]

theorem payout_waits_iff_convertedMatch :
    let w := run step .start convertedMatch
    ∃ m, w.matchMap 0 = some m ∧
      Commits (.plain [2] 0 259200) (Call.claimVestedPayout 0 (.ext 2)).exec w ∧
      (Commits (.plain [2] 1000 259200) (Call.claimVestedPayout 0 (.ext 2)).exec w ↔
        m.RateFresh 1000) := by
  intro w
  have hw : Reachable w := ⟨_, _, World.start_initial, rfl⟩
  have hsome : (w.matchMap 0).isSome = true := by decide +kernel
  obtain ⟨m, hm⟩ := isSome_iff_exists.mp hsome
  have hc : Commits (.plain [2] 0 259200) (Call.claimVestedPayout 0 (.ext 2)).exec w := by
    decide +kernel
  have hlater : (Env.plain [2] 0 259200).Later (.plain [2] 1000 259200) :=
    ⟨by decide, by decide, rfl⟩
  exact ⟨m, hm, hc, payout_waits_iff hw rfl hm hlater hc (by decide +kernel)⟩

/-- Address 2 can claim the pot at ledger 1000, and from ledger 1001 on is told that the rate
is stale. -/
theorem payout_forfeited_by_waiting :
    let w := run step .start convertedMatch
    Reachable w ∧ (Env.plain [2] 1000 259200).Later (.plain [2] 1001 259200) ∧
      Commits (.plain [2] 1000 259200) (Call.claimVestedPayout 0 (.ext 2)).exec w ∧
      (Call.claimVestedPayout 0 (.ext 2)).exec (.plain [2] 1001 259200) w.fresh ≠ .trap ∧
      ¬Commits (.plain [2] 1001 259200) (Call.claimVestedPayout 0 (.ext 2)).exec w := by
  refine ⟨⟨_, _, World.start_initial, rfl⟩, ⟨by decide, by decide, rfl⟩, ?_⟩
  decide +kernel

end Checkmate.Escrow

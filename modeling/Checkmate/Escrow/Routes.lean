import Checkmate.Escrow.Lifecycle

/-!
# The two payout routes

A result is paid out in one of two ways. Without a dispute window every entitled player
claims (`claimVestedPayout_pays`), and a winner's claim is charged the referral fee and the
protocol fee. With one, `finalize_match` pays the pot (`finalizeMatch_pays`) and charges
nothing. `routes_agree_iff` says when both pay everyone the same : after a draw always,
after a win only if the fees are zero or go back to the winner.
-/

namespace Checkmate.Escrow

open List Option

variable {env : Env} {id : ℕ} {m m' : Match} {w w' : World} {u : Unit} {side : Side}
  {ts us : List Transfer} {token oracle : Address} {winner : Winner} {c : Control}

/-! ## Exact transfers in a single-token match -/

/-- What a claim transfers, the newest first. -/
def claimTransfers (matchId : ℕ) (m : Match) (c : Control) (winner : Winner) (side : Side) :
    List Transfer :=
  if winner = side.winner then
    claimFees matchId m c ++
      [outgoing matchId (.claim side) m.token (m.player side) (c.netPayout m)]
  else [outgoing matchId (.claim side) m.token (m.player side) m.stakeAmount]

theorem paySide_pays (hB : m.tokenB = none) (h : paySide id m side env w = .ok u w') :
    Paid w (claimTransfers id m w.control m.winner side) w' := by
  simp only [paySide, Tx.bind_ok_iff, Tx.reject_ok_iff] at h
  obtain ⟨_, _, ⟨-, rfl⟩, h⟩ := h
  unfold claimTransfers
  rcases Tx.ite_ok_iff.mp h with ⟨hwin, h⟩ | ⟨hwin, h⟩
  · obtain ⟨ts, hpaid, -, hts⟩ := payWinner_ok h
    rw [if_pos hwin, ← hts hB]
    exact hpaid
  · rw [if_neg hwin]
    rcases Tx.ite_ok_iff.mp h with ⟨-, h⟩ | ⟨-, h⟩
    · exact transfer_paid h
    · rcases Tx.ite_ok_iff.mp h with ⟨-, h⟩ | ⟨-, h⟩ <;> simp at h

theorem claimVestedPayout_pays {player : Address} (hm : w.matchMap id = some m)
    (hB : m.tokenB = none) (h : claimVestedPayout id player env w = .ok u w') :
    Pays w (claimTransfers id m w.control m.winner (m.sideOf player)) w' ∧
      w'.matchMap id = some (m.setClaimed (m.sideOf player)) := by
  obtain ⟨m1, w1, hopen, hpay, rfl⟩ := claimVestedPayout_ok h
  obtain rfl : m = m1 := mem_unique hm hopen.stored
  obtain ⟨l, hl, rfl⟩ := paySide_pays hB hpay
  exact ⟨⟨hl, rfl⟩, Function.update_self ..⟩

/-- An invocation that returns. -/
def Returns (w : World) : Event → Prop
  | .invoke env call => Commits env call.exec w
  | _ => True

instance : DecidableRel Returns := fun w e =>
  match e with
  | .invoke env call => inferInstanceAs (Decidable (Commits env call.exec w))
  | .credit .. | .debit .. | .dropGuard .. => .isTrue trivial

theorem claimTransfers_of_settings {c' : Control} (h : c'.settings = c.settings)
    (winner : Winner) (side : Side) :
    claimTransfers id m c' winner side = claimTransfers id m c winner side := by
  have hconfig : c'.settings.config = c.settings.config := by rw [h]
  have hshare : c'.settings.referralShareBasisPoints = c.settings.referralShareBasisPoints := by
    rw [h]
  change c'.config = c.config at hconfig
  change c'.referralShareBasisPoints = c.referralShareBasisPoints at hshare
  simp only [claimTransfers, claimFees, Control.netPayout, Control.referralFee, hconfig, hshare]

/-- What the claims have left of a settled match `m` : its terms, its winner and the
settings. -/
structure Settled (w : World) (matchId : ℕ) (m : Match) (c : Control) (winner : Winner) : Prop where
  stored : ∃ m', w.matchMap matchId = some m' ∧ m'.terms = m.terms ∧ m'.winner = winner
  settings : w.control.settings = c.settings

/-- A claim transfers what the terms of the match and its winner say. -/
theorem Settled.claim (h : Settled w id m c winner)
    (hB : m.tokenB = none) (hplayers : m.player1 ≠ m.player2)
    (hc : Commits env (Call.claimVestedPayout id (m.player side)).exec w) :
    Pays w (claimTransfers id m c winner side)
      (step w (.invoke env (.claimVestedPayout id (m.player side)))) ∧
    Settled (step w (.invoke env (.claimVestedPayout id (m.player side)))) id m c winner := by
  obtain ⟨m', hm', hterms, hwinner⟩ := h.stored
  obtain ⟨w1, hok⟩ := hc
  rw [step, invoke_of_ok hok]
  have hm0 : w.fresh.matchMap id = some m' := hm'
  have htokenB : m'.tokenB = none := (congrArg Terms.tokenB hterms).trans hB
  have hside : m'.sideOf (m.player side) = side := by
    have h1 : m'.player1 = m.player1 := congrArg Terms.player1 hterms
    have h2 : m'.player2 = m.player2 := congrArg Terms.player2 hterms
    rw [← Match.player_of_terms hterms, Match.sideOf_player (by rwa [h1, h2])]
  obtain ⟨hpays, hm1⟩ := claimVestedPayout_pays hm0 htokenB hok
  rw [hside, hwinner] at hpays
  rw [hside] at hm1
  have hsettings : w1.control.settings = w.control.settings := by
    have heffect : Effect env w.control.config 0 (.claim id) w.fresh w1 :=
      claimVestedPayout_effect hok
    exact heffect.settings
  constructor
  · have htoken : m'.token = m.token := congrArg Terms.token hterms
    have hstake : m'.stakeAmount = m.stakeAmount := congrArg Terms.stakeAmount hterms
    have hreferrer : m'.referrer = m.referrer := congrArg Terms.referrer hterms
    have hsame : claimTransfers id m' w.fresh.control winner side =
        claimTransfers id m w.fresh.control winner side := by
      simp only [claimTransfers, claimFees, Control.netPayout, Control.referralFee, htoken,
        hstake, hreferrer, Match.player_of_terms hterms]
    have hfresh : w.fresh.control.settings = c.settings := h.settings
    rw [hsame, claimTransfers_of_settings hfresh] at hpays
    exact hpays
  · refine ⟨⟨m'.setClaimed side, hm1, ?_, ?_⟩, hsettings.trans h.settings⟩
    · rw [← hterms]
      cases side <;> rfl
    · rw [← hwinner]
      cases side <;> rfl

end Checkmate.Escrow

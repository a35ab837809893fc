import Mathlib.Tactic.Positivity
import Checkmate.Escrow.Contract

/-!
# What the paying functions transfer

`Paid w ts w'` says that the only difference between two worlds is that the transfers
`ts`, the newest first, were made. Each theorem below says of one paying function of the
contract that it does nothing else, and which transfers it makes : the refunds
(`refundDeposits_ok`, `refundRecovered_ok`, `refundCancelled_ok`), the resolution of a
stalled match (`payStalled_ok`), the immediate payout (`executePayout_ok`) and the claim
of a vested payout (`paySide_ok`).
-/

namespace Checkmate.Escrow

open Tx List

/-- Nothing but the transfers `ts`, the newest first, happened. -/
def Paid (w : World) (ts : List Transfer) (w' : World) : Prop :=
  ∃ l, w.ledger.Moves ts l ∧ w' = w.withTransfers ts l

namespace Paid

variable {w w1 w2 : World} {ts us : List Transfer}

theorem refl (w : World) : Paid w [] w := ⟨w.ledger, .nil, rfl⟩

theorem trans (h : Paid w ts w1) (h' : Paid w1 us w2) : Paid w (us ++ ts) w2 := by
  obtain ⟨l, hl, rfl⟩ := h
  obtain ⟨l', hl', rfl⟩ := h'
  refine ⟨l', hl.append hl', ?_⟩
  simp [World.withTransfers]

theorem nonneg (h : Paid w ts w1) : ∀ t ∈ ts, 0 ≤ t.amount := by
  obtain ⟨l, hl, -⟩ := h
  exact hl.amount_nonneg

end Paid

/-- The transfers `ts`, the newest first, were made and no others. -/
def Pays (w : World) (ts : List Transfer) (w' : World) : Prop :=
  w.ledger.Moves ts w'.ledger ∧ w'.log = ts ++ w.log

variable {ts us : List Transfer} {token : Address} {a amount amountB fee pot : ℤ} {side : Side}

theorem Pays.trans {w w1 w2 : World} (h : Pays w ts w1)
    (h' : Pays w1 us w2) : Pays w (us ++ ts) w2 :=
  ⟨h.1.append h'.1, by rw [h'.2, h.2, append_assoc]⟩

variable {env : Env} {w w' : World} {m : Match} {id : ℕ} {u : Unit}

theorem Env.transfer_eq_some {l l' : Ledger Address} {source target : Address}
    (h : env.transfer l token source target amount = some l') :
    l.transfer token source target amount = some l' := by
  unfold Env.transfer at h
  split at h
  · exact h
  · exact absurd h (by simp)

theorem transfer_paid {t : Transfer} (h : transfer t env w = .ok u w') : Paid w [t] w' := by
  obtain ⟨l, hl, rfl⟩ := transfer_ok_iff.mp h
  exact ⟨l, .cons .nil (Env.transfer_eq_some hl), rfl⟩

/-! ## Refunds -/

/-- The refund of one side. -/
def refundTransfer (matchId : ℕ) (m : Match) (side : Side) (token : Address) (amount : ℤ) :
    Transfer :=
  outgoing matchId (.refund side) token (m.player side) amount

/-- The refunds of the depositors of a match, player 2 being owed `amountB`. -/
def refunds (matchId : ℕ) (m : Match) (amountB : ℤ) : List Transfer :=
  (if m.player2Deposited then [refundTransfer matchId m .player2 m.refundTokenB amountB]
    else []) ++
  (if m.player1Deposited then [refundTransfer matchId m .player1 m.token m.stakeAmount]
    else [])

theorem refundDeposits_ok (h : refundDeposits transfer id m env w = .ok u w') :
    ∃ amountB, (m.player2Deposited = true → m.amountB = some amountB) ∧
      Paid w (refunds id m amountB) w' := by
  simp only [refundDeposits, bind_ok_iff, when_ok_iff, orFail_ok_iff] at h
  obtain ⟨_, w1, h1, h2⟩ := h
  have hp1 : Paid w (if m.player1Deposited then
      [refundTransfer id m .player1 m.token m.stakeAmount] else []) w1 := by
    rcases h1 with ⟨hd, h1⟩ | ⟨hd, rfl⟩
    · simpa [hd, refundTransfer, Match.player] using transfer_paid h1
    · simpa [hd] using Paid.refl _
  rcases h2 with ⟨hd, amountB, _, ⟨ha, rfl⟩, h2⟩ | ⟨hd, rfl⟩
  · refine ⟨amountB, fun _ => ha, ?_⟩
    simpa [refunds, hd, refundTransfer, Match.player] using hp1.trans (transfer_paid h2)
  · refine ⟨0, fun hd' => absurd hd' hd, ?_⟩
    simpa [refunds, hd] using hp1

theorem catchTransfer_ok {c : Bool} {t : Transfer}
    (h : Tx.catchTrap c (transfer t) env w = .ok u w') :
    Paid w [t] w' ∧ env.transfer w.ledger t.token t.source t.target t.amount ≠ none ∨
      w' = w ∧ env.transfer w.ledger t.token t.source t.target t.amount = none := by
  rcases catchTrap_ok_iff.mp h with h | ⟨htrap, -, rfl⟩
  · obtain ⟨l, hl, -⟩ := transfer_ok_iff.mp h
    exact Or.inl ⟨transfer_paid h, by simp [hl]⟩
  · refine Or.inr ⟨rfl, ?_⟩
    by_contra hne
    obtain ⟨l, hl⟩ := Option.ne_none_iff_exists'.mp hne
    have : transfer t env w' = .ok () (w'.withTransfer t l) := transfer_ok_iff.mpr ⟨l, hl, rfl⟩
    rw [this] at htrap
    exact absurd htrap (by simp)

/-- Refunds fail only on the conversion of the second one, after the first was made. -/
theorem refundDeposits_err {e : Error} (h : refundDeposits transfer id m env w = .err e w') :
    m.player2Deposited = true ∧ m.amountB = none ∧ Paid w (if m.player1Deposited then
        [refundTransfer id m .player1 m.token m.stakeAmount] else []) w' := by
  simp only [refundDeposits, bind_err_iff, when_err_iff, when_ok_iff, orFail_err_iff,
    transfer_err_iff, and_false, exists_false, false_or, or_false] at h
  obtain ⟨_, w1, h1, hd, ha, -, rfl⟩ := h
  refine ⟨hd, ha, ?_⟩
  rcases h1 with ⟨hd1, h1⟩ | ⟨hd1, rfl⟩
  · simpa [hd1, refundTransfer, Match.player] using transfer_paid h1
  · simpa [hd1] using Paid.refl _

/-- A recovery makes some of the refunds. -/
theorem refundRecovered_ok {c : Bool}
    (h : refundDeposits (fun t => Tx.catchTrap c (transfer t)) id m env w = .ok u w') :
    ∃ ts amountB, (m.player2Deposited = true → m.amountB = some amountB) ∧
      ts.Sublist (refunds id m amountB) ∧ Paid w ts w' := by
  simp only [refundDeposits, bind_ok_iff, when_ok_iff, orFail_ok_iff] at h
  obtain ⟨_, w1, h1, h2⟩ := h
  obtain ⟨ts1, hs1, hp1⟩ : ∃ ts1, List.Sublist ts1 (if m.player1Deposited then
      [refundTransfer id m .player1 m.token m.stakeAmount] else []) ∧ Paid w ts1 w1 := by
    rcases h1 with ⟨hd, h1⟩ | ⟨hd, rfl⟩
    · rcases catchTransfer_ok h1 with ⟨hp, -⟩ | ⟨rfl, -⟩
      · exact ⟨_, by simp [hd, refundTransfer, Match.player], hp⟩
      · exact ⟨[], nil_sublist _, Paid.refl _⟩
    · exact ⟨[], nil_sublist _, Paid.refl _⟩
  rcases h2 with ⟨hd, amountB, _, ⟨ha, rfl⟩, h2⟩ | ⟨hd, rfl⟩
  · rcases catchTransfer_ok h2 with ⟨hp, -⟩ | ⟨rfl, -⟩
    · refine ⟨_, amountB, fun _ => ha, ?_, hp1.trans hp⟩
      exact List.Sublist.append (by simp [hd, refundTransfer, Match.player]) hs1
    · refine ⟨ts1, amountB, fun _ => ha, ?_, hp1⟩
      exact hs1.trans (sublist_append_right _ _)
  · refine ⟨ts1, 0, fun hd' => absurd hd' hd, ?_, hp1⟩
    exact hs1.trans (sublist_append_right _ _)

/-! ## Refunds less the cancellation fee -/

/-- The leg of a fee, which is paid if it is positive. -/
def feeLeg (matchId : ℕ) (leg : Leg) (token target : Address) (fee : ℤ) : List Transfer :=
  if fee > 0 then [outgoing matchId leg token target fee] else []

theorem payFee_ok {leg : Leg} {target : Address}
    (h : fee > 0 ∧ transfer (outgoing id leg token target fee) env w = .ok u w' ∨
      ¬fee > 0 ∧ w' = w) : Paid w (feeLeg id leg token target fee) w' := by
  rcases h with ⟨hf, h⟩ | ⟨hf, rfl⟩
  · simpa [feeLeg, hf] using transfer_paid h
  · simpa [feeLeg, hf] using Paid.refl _

/-- A refund and the fee taken from it. -/
def feeRefund (matchId : ℕ) (m : Match) (side : Side) (token treasury : Address)
    (refundAmount feeAmount : ℤ) : List Transfer :=
  feeLeg matchId (.cancelFee side) token treasury feeAmount ++
  [refundTransfer matchId m side token refundAmount]

theorem refundLessFee_ok (side : Side) {token treasury : Address} {refundAmount fee : ℤ}
    (h : refundLessFee id side token (m.player side) treasury refundAmount fee env w = .ok u w') :
    Paid w (feeRefund id m side token treasury refundAmount fee) w' := by
  simp only [refundLessFee, bind_ok_iff, when_ok_iff] at h
  obtain ⟨_, w1, h1, h2⟩ := h
  exact (transfer_paid h1).trans (payFee_ok h2)

/-- The transfers of a cancellation : what player 2 is owed is `amountB`. -/
def cancelTransfers (matchId : ℕ) (m : Match) (treasury : Address) (fee amountB feeB : ℤ) :
    List Transfer :=
  (if m.player2Deposited then
    feeRefund matchId m .player2 m.refundTokenB treasury (amountB - feeB) feeB else []) ++
  (if m.player1Deposited then
    feeRefund matchId m .player1 m.token treasury (m.stakeAmount - fee) fee else [])

theorem refundCancelled_ok {config : ProtocolConfig}
    (h : refundCancelled id m config env w = .ok u w') : ∃ fee amountB feeB,
      cancellationFee config.fees.cancellationFeeBasisPoints m.stakeAmount = some fee ∧
      (m.player2Deposited = true → m.amountB = some amountB ∧
        cancellationFee config.fees.cancellationFeeBasisPoints amountB = some feeB) ∧
      Paid w (cancelTransfers id m config.treasury fee amountB feeB) w' := by
  simp [refundCancelled, checkedSub] at h
  obtain ⟨fee, hfee, -, _, w1, h1, h2⟩ := h
  have hp1 : Paid w (if m.player1Deposited then feeRefund id m .player1 m.token
      config.treasury (m.stakeAmount - fee) fee else []) w1 := by
    rcases h1 with ⟨hd, h1⟩ | ⟨hd, rfl⟩
    · simpa [hd] using refundLessFee_ok .player1 h1
    · simpa [hd] using Paid.refl _
  rcases h2 with ⟨hd, amountB, ha, feeB, hfeeB, -, h2⟩ | ⟨hd, rfl⟩
  · refine ⟨fee, amountB, feeB, hfee, fun _ => ⟨ha, hfeeB⟩, ?_⟩
    simpa [cancelTransfers, hd] using hp1.trans (refundLessFee_ok .player2 h2)
  · refine ⟨fee, 0, 0, hfee, by simp [hd], ?_⟩
    simpa [cancelTransfers, hd] using hp1

/-! ## Payouts -/

/-- What a leg does with the stakes of a match. -/
inductive LegKind where
  | stake
  | refund
  | payout
  | claim
  | bond
deriving DecidableEq

def Leg.kind : Leg → LegKind
  | .deposit _ => .stake
  | .refund _ | .cancelFee _ => .refund
  | .payout _ | .stallPayout _ => .payout
  | .claim _ | .referralFee | .protocolFee => .claim
  | .bond | .bondReturn => .bond

/-- Sum of the amounts of some transfers. -/
def total (ts : List Transfer) : ℤ := (ts.map Movement.amount).sum

@[simp] theorem total_nil : total [] = 0 := rfl

@[simp] theorem total_cons (t : Transfer) (ts : List Transfer) :
    total (t :: ts) = t.amount + total ts := by
  simp [total]

@[simp] theorem total_append (ts us : List Transfer) : total (ts ++ us) = total ts + total us := by
  simp [total]

/-- The transfers are on account of a match, in legs of one kind. In a single-token match
the contract pays them in the stake token, `amount` together. -/
structure Releases (matchId : ℕ) (m : Match) (kind : LegKind) (amount : ℤ)
    (ts : List Transfer) : Prop where
  cause : ∀ t ∈ ts, t.cause.matchId = matchId ∧ t.cause.leg.kind = kind
  single : m.tokenB = none → (∀ t ∈ ts, t.source = .self ∧ t.token = m.token) ∧
    total ts = amount

theorem Releases.append {kind : LegKind} {b : ℤ}
    (h : Releases id m kind a ts) (h' : Releases id m kind b us) :
    Releases id m kind (a + b) (ts ++ us) where
  cause := by
    intro t ht
    rcases mem_append.mp ht with ht | ht
    · exact h.cause t ht
    · exact h'.cause t ht
  single hB := by
    obtain ⟨hs, ha⟩ := h.single hB
    obtain ⟨hs', hb⟩ := h'.single hB
    refine ⟨fun t ht => ?_, by rw [total_append, ha, hb]⟩
    rcases mem_append.mp ht with ht | ht
    · exact hs t ht
    · exact hs' t ht

theorem Releases.nil {kind : LegKind} : Releases id m kind 0 [] where
  cause := by simp
  single _ := by simp

/-- One transfer out of the contract in the stake token. -/
theorem Releases.one (leg : Leg) {token target : Address} (amount : ℤ)
    (htoken : m.tokenB = none → token = m.token) :
    Releases id m leg.kind amount [outgoing id leg token target amount] where
  cause := by simp [outgoing]
  single hB := by simp [outgoing, htoken hB]

theorem Releases.congr {kind : LegKind} {b : ℤ}
    (h : Releases id m kind a ts) (hab : m.tokenB = none → a = b) : Releases id m kind b ts where
  cause := h.cause
  single hB := ⟨(h.single hB).1, (h.single hB).2.trans (hab hB)⟩

theorem refundTokenB_of_single (h : m.tokenB = none) : m.refundTokenB = m.token := by
  simp [Match.refundTokenB, h]

theorem isMultiToken_of_single (h : m.tokenB = none) : m.isMultiToken = false := by
  simp [Match.isMultiToken, h]

theorem amountB_of_single (h : m.tokenB = none) : m.amountB = some m.stakeAmount := by
  simp [Match.amountB, isMultiToken_of_single h]

/-- What the players of a match have deposited into it, by its flags. -/
def Match.funded (m : Match) : ℤ := m.depositorCount * m.stakeAmount

theorem refunds_releases (h : m.player2Deposited = true → m.amountB = some amountB) :
    Releases id m .refund m.funded (refunds id m amountB) where
  cause := by
    intro t ht
    simp only [refunds, mem_append] at ht
    rcases ht with ht | ht <;> split at ht <;>
      simp_all [refundTransfer, outgoing, Leg.kind]
  single hB := by
    rw [amountB_of_single hB] at h
    have hT := refundTokenB_of_single hB
    cases h1 : m.player1Deposited <;> cases h2 : m.player2Deposited <;>
      simp_all [refunds, refundTransfer, outgoing, Match.funded, Match.depositorCount]
    ring

/-- Transfers that are some of others, none of them negative, come to no more. -/
theorem total_le_of_sublist (h : ts.Sublist us)
    (hpos : ∀ t ∈ us, 0 ≤ t.amount) : total ts ≤ total us := by
  induction h with
  | slnil => rfl
  | cons t _ ih =>
    have ht := hpos t mem_cons_self
    have := ih fun t' ht' => hpos t' (mem_cons_of_mem _ ht')
    rw [total_cons]
    omega
  | cons_cons t _ ih =>
    have := ih fun t' ht' => hpos t' (mem_cons_of_mem _ ht')
    rw [total_cons, total_cons]
    omega

theorem recovered_releases (h : m.player2Deposited = true → m.amountB = some amountB)
    (hsub : ts.Sublist (refunds id m amountB)) : Releases id m .refund (total ts) ts ∧
      (0 ≤ m.stakeAmount → m.tokenB = none → total ts ≤ m.funded) := by
  have hrel : Releases id m .refund m.funded (refunds id m amountB) := refunds_releases h
  refine ⟨⟨fun t ht => hrel.cause t (hsub.subset ht), fun hB =>
    ⟨fun t ht => (hrel.single hB).1 t (hsub.subset ht), rfl⟩⟩, fun hstake hB => ?_⟩
  rw [← (hrel.single hB).2]
  refine total_le_of_sublist hsub fun t ht => ?_
  rw [amountB_of_single hB] at h
  simp only [refunds, mem_append] at ht
  rcases ht with ht | ht <;> split at ht <;> simp_all [refundTransfer, outgoing]

theorem cancellationFee_nonneg {bps : ℕ}
    (h : cancellationFee bps amount = some fee) (hpos : 0 ≤ amount) : 0 ≤ fee := by
  unfold cancellationFee at h
  split at h
  · simp only [Option.map_eq_some_iff, checkedMul, toI128_eq_some] at h
    obtain ⟨_, ⟨rfl, -⟩, rfl⟩ := h
    exact Int.tdiv_nonneg (by positivity) (by norm_num)
  · simp at h
    omega

theorem feeLeg_releases (leg : Leg) {token target : Address} (fee : ℤ)
    (htoken : m.tokenB = none → token = m.token) :
    Releases id m leg.kind (max fee 0) (feeLeg id leg token target fee) := by
  unfold feeLeg
  split
  · rw [max_eq_left (by omega)]
    exact Releases.one leg fee htoken
  · rw [max_eq_right (by omega)]
    exact Releases.nil

theorem feeRefund_releases {treasury : Address} (htoken : m.tokenB = none → token = m.token) :
    Releases id m .refund (max fee 0 + (amount - fee))
      (feeRefund id m side token treasury (amount - fee) fee) :=
  (feeLeg_releases (.cancelFee side) fee htoken).append
    (Releases.one (.refund side) (amount - fee) htoken)

/-- Refunds and fees of a cancellation make up the deposits. -/
theorem cancelTransfers_releases {bps : ℕ} {treasury : Address} {feeB : ℤ}
    (hfee : cancellationFee bps m.stakeAmount = some fee) (hB : m.player2Deposited = true →
      m.amountB = some amountB ∧ cancellationFee bps amountB = some feeB) :
    ∃ amount, Releases id m .refund amount (cancelTransfers id m treasury fee amountB feeB) ∧
      (0 ≤ m.stakeAmount → m.tokenB = none → amount = m.funded) := by
  have h1 : Releases id m .refund (m.player1Deposited.toInt * (max fee 0 + (m.stakeAmount - fee)))
      (if m.player1Deposited then
        feeRefund id m .player1 m.token treasury (m.stakeAmount - fee) fee else []) := by
    cases m.player1Deposited
    · simpa using Releases.nil
    · simpa using feeRefund_releases fun _ => rfl
  have h2 : Releases id m .refund (m.player2Deposited.toInt * (max feeB 0 + (amountB - feeB)))
      (if m.player2Deposited then
        feeRefund id m .player2 m.refundTokenB treasury (amountB - feeB) feeB else []) := by
    cases m.player2Deposited
    · simpa using Releases.nil
    · simpa using feeRefund_releases refundTokenB_of_single
  refine ⟨_, h2.append h1, fun hstake hnone => ?_⟩
  have hpos := cancellationFee_nonneg hfee hstake
  cases hd : m.player2Deposited
  · rw [max_eq_left hpos, Match.funded, Match.depositorCount, hd]
    simp
  · obtain ⟨ha, hfeeB⟩ := hB hd
    obtain rfl : m.stakeAmount = amountB := by simpa [amountB_of_single hnone] using ha
    rw [max_eq_left hpos, max_eq_left (cancellationFee_nonneg hfeeB hstake), Match.funded,
      Match.depositorCount, hd]
    simp
    ring

/-! ## Stalled matches -/

/-- What the resolution of a stalled match transfers, the newest first. The second stake counts
as `amountB`. -/
def stallTransfers (matchId : ℕ) (m : Match) (amountB : ℤ) : Winner → List Transfer
  | .player1 =>
    [outgoing matchId (.stallPayout .player1) m.token m.player1 (m.stakeAmount + amountB)]
  | .player2 =>
    [outgoing matchId (.stallPayout .player2) m.refundTokenB m.player2 (m.stakeAmount + amountB)]
  | .draw =>
    [outgoing matchId (.stallPayout .player2) m.refundTokenB m.player2 amountB,
      outgoing matchId (.stallPayout .player1) m.token m.player1 m.stakeAmount]
  | .none => []

theorem stallPot_eq (h : m.stallPot = some pot) :
    ∃ amountB, m.amountB = some amountB ∧ pot = m.stakeAmount + amountB := by
  unfold Match.stallPot at h
  unfold Match.amountB
  split at h
  · rename_i hmulti
    simp only [Option.bind_eq_bind, Option.bind_eq_some_iff, checkedAdd, toI128_eq_some] at h
    obtain ⟨amountB, hB, hpot, -⟩ := h
    exact ⟨amountB, by rw [if_pos hmulti, hB], hpot.symm⟩
  · rename_i hsingle
    rw [checkedMul, toI128_eq_some] at h
    exact ⟨m.stakeAmount, if_neg hsingle, by omega⟩

theorem payStalled_paid {resolution : Winner} (h : payStalled id m resolution env w = .ok u w') :
    ∃ amountB, m.amountB = some amountB ∧ resolution ≠ .none ∧
      Paid w (stallTransfers id m amountB resolution) w' := by
  cases resolution with
  | none => simp [payStalled] at h
  | player1 | player2 =>
    simp only [payStalled, bind_ok_iff, orFail_ok_iff] at h
    obtain ⟨pot, _, ⟨hp, rfl⟩, h⟩ := h
    obtain ⟨amountB, hB, rfl⟩ := stallPot_eq hp
    exact ⟨amountB, hB, by simp, transfer_paid h⟩
  | draw =>
    simp only [payStalled, bind_ok_iff, orFail_ok_iff] at h
    obtain ⟨_, w1, h1, amountB, _, ⟨hB, rfl⟩, h2⟩ := h
    exact ⟨amountB, hB, by simp, (transfer_paid h1).trans (transfer_paid h2)⟩

theorem payStalled_ok {resolution : Winner} (h : payStalled id m resolution env w = .ok u w') :
    ∃ ts, Paid w ts w' ∧ Releases id m .payout (2 * m.stakeAmount) ts := by
  obtain ⟨amountB, hB, hne, hpaid⟩ := payStalled_paid h
  have hsingle : m.tokenB = none → m.stakeAmount + amountB = 2 * m.stakeAmount := by
    intro hnone
    obtain rfl : m.stakeAmount = amountB := by simpa [amountB_of_single hnone] using hB
    ring
  refine ⟨_, hpaid, ?_⟩
  cases resolution with
  | none => exact absurd rfl hne
  | player1 => exact (Releases.one (.stallPayout .player1) _ fun _ => rfl).congr hsingle
  | player2 =>
    exact (Releases.one (.stallPayout .player2) _ refundTokenB_of_single).congr hsingle
  | draw =>
    exact ((Releases.one (.stallPayout .player2) amountB refundTokenB_of_single).append
      (Releases.one (.stallPayout .player1) m.stakeAmount fun _ => rfl)).congr fun hnone =>
        (add_comm ..).trans (hsingle hnone)

/-! ## Immediate payout -/

/-- A player is paid `amount` of the stake token : by a transfer, or in a multi-token match by a
swap with the oracle. -/
inductive Payment (c : Control) (m : Match) (cause : Cause) (target : Address) (amount : ℤ) :
    List Transfer → Prop
  | transfer : Payment c m cause target amount [⟨m.token, .self, target, amount, cause⟩]
  | swap {oracle tokenB : Address} {amountOut : ℤ} (horacle : c.oracle = some oracle)
      (hB : m.tokenB = some tokenB) : Payment c m cause target amount
        [⟨tokenB, oracle, target, amountOut, cause⟩, ⟨m.token, .self, oracle, amount, cause⟩]

section Payment

variable {c : Control} {cause : Cause} {target : Address}

theorem Payment.cause_eq (h : Payment c m cause target amount ts) : ∀ t ∈ ts, t.cause = cause := by
  cases h <;> simp

theorem Payment.eq_of_single (h : Payment c m cause target amount ts) (hB : m.tokenB = none) :
    ts = [⟨m.token, .self, target, amount, cause⟩] := by
  cases h with
  | transfer => rfl
  | swap _ hsome => cases hB.symm.trans hsome

theorem Payment.releases {leg : Leg} (h : Payment c m ⟨id, leg⟩ target amount ts) :
    Releases id m leg.kind amount ts where
  cause t ht := by simp [h.cause_eq t ht]
  single hB := by simp [h.eq_of_single hB]

theorem oracleSwap_ok {tokenB : Address} {minAmountOut : ℤ} (hB : m.tokenB = some tokenB)
    (h : oracleSwap cause m.token tokenB amount minAmountOut target env w = .ok u w') :
    ∃ ts, Paid w ts w' ∧ Payment w.control m cause target amount ts := by
  simp [oracleSwap] at h
  obtain ⟨oracle, horacle, out, -, -, l1, h1, l2, h2, rfl⟩ := h
  exact ⟨_, (transfer_paid (u := ()) (transfer_ok_iff.mpr ⟨l1, h1, rfl⟩)).trans
    (transfer_paid (u := ()) (transfer_ok_iff.mpr ⟨l2, h2, rfl⟩)), .swap horacle hB⟩

end Payment

theorem payPlayer2_ok (h : payPlayer2 id m amount env w = .ok u w') :
    ∃ ts, Paid w ts w' ∧ Payment w.control m ⟨id, .payout .player2⟩ m.player2 amount ts := by
  unfold payPlayer2 at h
  split at h
  · simp only [bind_ok_iff, orFail_ok_iff] at h
    obtain ⟨tokenB, _, ⟨hB, rfl⟩, rate, _, ⟨-, rfl⟩, amountB, _, ⟨-, rfl⟩, h⟩ := h
    exact oracleSwap_ok hB h
  · exact ⟨_, transfer_paid h, .transfer⟩

/-- The immediate payout of a result : the pot to the winner, or each stake to its player. -/
inductive Payout (c : Control) (matchId : ℕ) (m : Match) : Winner → List Transfer → Prop
  | player1 : Payout c matchId m .player1
      [outgoing matchId (.payout .player1) m.token m.player1 (2 * m.stakeAmount)]
  | player2 {ts : List Transfer}
      (h : Payment c m ⟨matchId, .payout .player2⟩ m.player2 (2 * m.stakeAmount) ts) :
      Payout c matchId m .player2 ts
  | draw {ts : List Transfer}
      (h : Payment c m ⟨matchId, .payout .player2⟩ m.player2 m.stakeAmount ts) :
      Payout c matchId m .draw
        (ts ++ [outgoing matchId (.payout .player1) m.token m.player1 m.stakeAmount])

theorem executePayout_payout {winner : Winner} (h : executePayout id m winner env w = .ok u w') :
    ∃ ts, Paid w ts w' ∧ Payout w.control id m winner ts := by
  cases winner with
  | none => simp [executePayout, requireFreshRate] at h
  | player1 =>
    simp [executePayout, requireFreshRate, checkedMul, -transfer_ok_iff] at h
    rw [mul_comm] at h
    exact ⟨_, transfer_paid h.2.2, .player1⟩
  | player2 =>
    simp [executePayout, requireFreshRate, checkedMul] at h
    rw [mul_comm] at h
    obtain ⟨ts, hpaid, hts⟩ := payPlayer2_ok h.2.2
    exact ⟨ts, hpaid, .player2 hts⟩
  | draw =>
    simp [executePayout, requireFreshRate, -transfer_ok_iff] at h
    obtain ⟨-, _, w1, h1, h2⟩ := h
    obtain ⟨ts, hpaid, hts⟩ := payPlayer2_ok h2
    have hstake := transfer_paid h1
    refine ⟨_, hstake.trans hpaid, .draw ?_⟩
    obtain ⟨l, -, rfl⟩ := hstake
    exact hts

theorem executePayout_ok {winner : Winner} (h : executePayout id m winner env w = .ok u w') :
    ∃ ts, Paid w ts w' ∧ Releases id m .payout (2 * m.stakeAmount) ts := by
  obtain ⟨ts, hpaid, hts⟩ := executePayout_payout h
  refine ⟨ts, hpaid, ?_⟩
  cases hts with
  | player1 => exact Releases.one (.payout .player1) _ fun _ => rfl
  | player2 hpay => exact hpay.releases
  | draw hpay =>
    rw [two_mul]
    exact hpay.releases.append (Releases.one (.payout .player1) _ fun _ => rfl)

/-! ## Vested payout -/

/-- What the recorded winner entitles one side to. -/
def Match.entitlement (m : Match) (side : Side) : ℤ :=
  if m.winner = side.winner then 2 * m.stakeAmount
  else if m.winner = .draw then m.stakeAmount
  else 0

/-- No protocol fee is charged, or its cap is not negative. -/
def ProtocolConfig.capNonneg (config : ProtocolConfig) : Prop :=
  config.fees.protocolFeeBps = 0 ∨ ∀ cap ∈ config.fees.maxProtocolFee, 0 ≤ cap

/-- The referral fee where no product overflows. -/
def Control.referralFee (c : Control) (m : Match) (pot : ℤ) : ℤ :=
  if m.referrer.isNone then 0
  else ((pot * c.config.fees.cancellationFeeBasisPoints).tdiv 10000 *
    (c.referralShareBasisPoints.getD 2000 : ℕ)).tdiv 10000

/-- The protocol fee where no product overflows. -/
def ProtocolConfig.protocolFee (config : ProtocolConfig) (pot : ℤ) : ℤ :=
  if config.fees.protocolFeeBps = 0 then 0
  else
    let fee := (pot * config.fees.protocolFeeBps).tdiv 10000
    config.fees.maxProtocolFee.elim fee (min fee)

theorem computeReferralFee_eq {c : Control}
    (h : c.computeReferralFee m pot = some fee) : fee = c.referralFee m pot := by
  simp only [Control.computeReferralFee] at h
  unfold Control.referralFee
  split at h
  · simp_all
  · rw [if_neg (by assumption)]
    split at h
    · rename_i hbps
      rw [hbps, ← Option.some.inj h]
      simp
    · simp only [Option.bind_eq_bind, Option.bind_eq_some_iff, checkedMul, toI128_eq_some,
        Option.pure_def, Option.some.injEq] at h
      obtain ⟨_, ⟨rfl, -⟩, _, ⟨rfl, -⟩, rfl⟩ := h
      rfl

theorem computeProtocolFee_eq {c : Control}
    (h : c.computeProtocolFee pot = some fee) : fee = c.config.protocolFee pot := by
  simp only [Control.computeProtocolFee] at h
  unfold ProtocolConfig.protocolFee
  split at h
  · simp_all
  · rw [if_neg (by assumption)]
    simp only [Option.bind_eq_bind, Option.bind_eq_some_iff, checkedMul, toI128_eq_some,
      Option.pure_def, Option.some.injEq] at h
    obtain ⟨_, ⟨rfl, -⟩, rfl⟩ := h
    cases c.config.fees.maxProtocolFee <;> rfl

theorem referralFee_nonneg (c : Control) (m : Match) {pot : ℤ} (hpot : 0 ≤ pot) :
    0 ≤ c.referralFee m pot := by
  unfold Control.referralFee
  split
  · rfl
  · have hfee : 0 ≤ (pot * c.config.fees.cancellationFeeBasisPoints).tdiv 10000 :=
      Int.tdiv_nonneg (by positivity) (by norm_num)
    exact Int.tdiv_nonneg (by positivity) (by norm_num)

theorem protocolFee_nonneg {config : ProtocolConfig} (hpot : 0 ≤ pot)
    (hcap : config.capNonneg) : 0 ≤ config.protocolFee pot := by
  unfold ProtocolConfig.protocolFee
  split
  · rfl
  · rename_i hbps
    have hfee : 0 ≤ (pot * config.fees.protocolFeeBps).tdiv 10000 :=
      Int.tdiv_nonneg (by positivity) (by norm_num)
    have hcap := hcap.resolve_left hbps
    cases hc : config.fees.maxProtocolFee with
    | none => exact hfee
    | some cap => exact le_min hfee (hcap cap hc)

theorem payNet_ok {netPayout : ℤ} (h : payNet id m side netPayout env w = .ok u w') :
    ∃ ts, Paid w ts w' ∧
      Payment w.control m ⟨id, .claim side⟩ (m.player side) netPayout ts := by
  simp only [payNet, bind_ok_iff, get_ok_iff] at h
  obtain ⟨_, _, ⟨rfl, rfl⟩, h⟩ := h
  rcases ite_ok_iff.mp h with ⟨-, hswap⟩ | ⟨-, htransfer⟩
  · simp only [bind_ok_iff, orFail_ok_iff, orAbort_ok_iff] at hswap
    obtain ⟨rate, _, ⟨-, rfl⟩, swapAmount, _, ⟨-, rfl⟩, tokenB, _, ⟨hB, rfl⟩, hswap⟩ := hswap
    exact oracleSwap_ok hB hswap
  · exact ⟨_, transfer_paid htransfer, .transfer⟩

/-- The fee legs of a claim, the newest first. -/
def claimFees (matchId : ℕ) (m : Match) (c : Control) : List Transfer :=
  feeLeg matchId .protocolFee m.token c.config.fees.feeRecipient
    (c.config.protocolFee (2 * m.stakeAmount)) ++
  feeLeg matchId .referralFee m.token (m.referrer.getD .self)
    (c.referralFee m (2 * m.stakeAmount))

/-- What is left of the pot for the winner. -/
def Control.netPayout (c : Control) (m : Match) : ℤ :=
  2 * m.stakeAmount - c.referralFee m (2 * m.stakeAmount) -
    c.config.protocolFee (2 * m.stakeAmount)

/-- The winner is paid what is left of the pot, then the fees are paid. -/
theorem payWinner_fees (h : payWinner id m side env w = .ok u w') :
    ∃ w1, payNet id m side (w.control.netPayout m) env w = .ok () w1 ∧
      Paid w1 (claimFees id m w.control) w' := by
  simp [payWinner, checkedSub, checkedMul, -transfer_ok_iff] at h
  rw [mul_comm m.stakeAmount 2] at h
  obtain ⟨-, referralFee, hr, protocolFee, hp, -, -, _, w1, hnet, _, w2, href, hprot⟩ := h
  obtain rfl := computeReferralFee_eq hr
  obtain rfl := computeProtocolFee_eq hp
  refine ⟨w1, hnet, ?_⟩
  have hreferral : Paid w1 (feeLeg id .referralFee m.token (m.referrer.getD .self)
      (w.control.referralFee m (2 * m.stakeAmount))) w2 := by
    rcases href with ⟨hpos, referrer, hsome, href⟩ | ⟨hneg, rfl⟩
    · rw [hsome, Option.getD_some]
      exact payFee_ok (.inl ⟨hpos, href⟩)
    · simpa [feeLeg, not_lt.mpr hneg] using Paid.refl _
  exact hreferral.trans (payFee_ok (hprot.imp_right fun h => ⟨by omega, h.2⟩))

theorem payWinner_ok (h : payWinner id m side env w = .ok u w') :
    ∃ ts, Paid w (claimFees id m w.control ++ ts) w' ∧
      Releases id m .claim (w.control.netPayout m) ts ∧ (m.tokenB = none →
        ts = [outgoing id (.claim side) m.token (m.player side) (w.control.netPayout m)]) := by
  obtain ⟨w1, hnet, hfees⟩ := payWinner_fees h
  obtain ⟨ts, hpaid, hts⟩ := payNet_ok hnet
  exact ⟨ts, hpaid.trans hfees, hts.releases, hts.eq_of_single⟩

theorem claimFees_releases (c : Control) :
    Releases id m .claim (max (c.config.protocolFee (2 * m.stakeAmount)) 0 +
      max (c.referralFee m (2 * m.stakeAmount)) 0) (claimFees id m c) :=
  (feeLeg_releases .protocolFee _ fun _ => rfl).append
    (feeLeg_releases .referralFee _ fun _ => rfl)

theorem Side.winner_ne_draw (side : Side) : side.winner ≠ .draw := by
  cases side <;> decide

theorem paySide_ok (h : paySide id m side env w = .ok u w') :
    ∃ ts amount, Paid w ts w' ∧ Releases id m .claim amount ts ∧
      m.claimed side = false ∧ (m.winner = side.winner ∨ m.winner = .draw) ∧
      (0 ≤ m.stakeAmount → m.winner = .draw ∨ w.control.config.capNonneg →
        amount = m.entitlement side) := by
  simp only [paySide, bind_ok_iff, reject_ok_iff, Bool.not_eq_true] at h
  obtain ⟨_, _, ⟨hclaimed, rfl⟩, h⟩ := h
  rcases ite_ok_iff.mp h with ⟨hwin, h⟩ | ⟨hwin, h⟩
  · obtain ⟨ts, hpaid, hrel, -⟩ := payWinner_ok h
    refine ⟨_, _, hpaid, (claimFees_releases _).append hrel, hclaimed, .inl hwin, ?_⟩
    intro hstake hcap
    have hcap := hcap.resolve_left (hwin ▸ side.winner_ne_draw)
    have hpot : 0 ≤ 2 * m.stakeAmount := by omega
    rw [max_eq_left (protocolFee_nonneg hpot hcap), max_eq_left (referralFee_nonneg _ m hpot),
      Control.netPayout, Match.entitlement, if_pos hwin]
    ring
  · rcases ite_ok_iff.mp h with ⟨hdraw, h⟩ | ⟨-, h⟩
    · refine ⟨_, _, transfer_paid h, Releases.one (.claim side) m.stakeAmount fun _ => rfl,
        hclaimed, .inr hdraw, fun _ _ => ?_⟩
      rw [Match.entitlement, if_neg hwin, if_pos hdraw]
    · rcases ite_ok_iff.mp h with ⟨-, h⟩ | ⟨-, h⟩ <;> simp at h

end Checkmate.Escrow

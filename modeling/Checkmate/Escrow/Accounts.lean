import Checkmate.Escrow.Lifecycle

/-!
# The account of a match

The log of movements gives every match an account : what its players paid into it
(`deposited`) and what the contract paid out of it (`released`), bonds apart.
`Match.spent` is what the fields of a match say has been released. The two agree along
every run in which no claim is made on a pot that has already been paid out
(`run_accounted`), so that no pot is released twice (`released_le_deposited`).

`finalize_match` and `resolve_dispute_by_vote` pay out a match and leave the date that
`claim_vested_payout` goes by, so without that condition a pot is paid twice
(`released_twice`).
-/

namespace Checkmate.Escrow

open List

variable {env : Env} {config : ProtocolConfig} {period i : ℕ} {a : Action} {m m' : Match}
  {pw pw' : Option Winner} {ts us : List Transfer} {deltas : List (Address × ℤ)} {token : Address}
  {amount : ℤ} {kind : LegKind} {p : Transfer → Bool} {b b' : Book}

/-! ## Accounts in the log -/

/-- The legs that pay out stakes. -/
def LegKind.outward : LegKind → Bool
  | .refund | .payout | .claim => true
  | .stake | .bond => false

/-- A payment of stakes by the contract in `token`. -/
def isRelease (token : Address) (t : Transfer) : Bool :=
  t.cause.leg.kind.outward && t.source = .self && t.token = token

/-- A payment of a stake to the contract in `token`. -/
def isStake (token : Address) (t : Transfer) : Bool :=
  t.cause.leg.kind = .stake && t.target = .self && t.token = token

/-- What the transfers of one match that satisfy `p` come to. -/
def onAccount (matchId : ℕ) (p : Transfer → Bool) (log : List Transfer) : ℤ :=
  total (log.filter fun t => t.cause.matchId = matchId && p t)

/-- What the contract has paid out of the pot of a match in `token`. -/
def released (matchId : ℕ) (token : Address) (log : List Transfer) : ℤ :=
  onAccount matchId (isRelease token) log

/-- What has been paid into the pot of a match in `token`. -/
def deposited (matchId : ℕ) (token : Address) (log : List Transfer) : ℤ :=
  onAccount matchId (isStake token) log

@[simp] theorem onAccount_append :
    onAccount i p (ts ++ us) = onAccount i p ts + onAccount i p us := by
  simp [onAccount]

theorem onAccount_eq_zero
    (h : ∀ t ∈ ts, t.cause.matchId = i → p t = false) : onAccount i p ts = 0 := by
  have hfilter : ts.filter (fun t => t.cause.matchId = i && p t) = [] := by
    rw [filter_eq_nil_iff]
    intro t ht hp
    rw [Bool.and_eq_true, decide_eq_true_eq] at hp
    rw [h t ht hp.1] at hp
    exact Bool.noConfusion hp.2
  rw [onAccount, hfilter, total_nil]

theorem total_nonneg (h : ∀ t ∈ ts, 0 ≤ t.amount) : 0 ≤ total ts := by
  refine sum_nonneg fun x hx => ?_
  obtain ⟨t, ht, rfl⟩ := mem_map.mp hx
  exact h t ht

theorem onAccount_nonneg (h : ∀ t ∈ ts, 0 ≤ t.amount) : 0 ≤ onAccount i p ts :=
  total_nonneg fun t ht => h t (mem_of_mem_filter ht)

@[simp] theorem released_append :
    released i token (ts ++ us) = released i token ts + released i token us :=
  onAccount_append

@[simp] theorem deposited_append : deposited i token (ts ++ us) =
    deposited i token ts + deposited i token us :=
  onAccount_append

theorem released_eq_zero (h : ∀ t ∈ ts, t.cause.matchId = i → t.cause.leg.kind.outward = false) :
    released i token ts = 0 :=
  onAccount_eq_zero fun t ht hid => by simp [isRelease, h t ht hid]

/-- Payments of one kind on account of a single-token match are released in full. -/
theorem Releases.released (h : Releases i m kind amount ts) (hB : m.tokenB = none)
    (hk : kind.outward = true) : released i m.token ts = amount := by
  obtain ⟨hself, htotal⟩ := h.single hB
  have hfilter : ts.filter (fun t => t.cause.matchId = i && isRelease m.token t) = ts := by
    rw [filter_eq_self]
    intro t ht
    obtain ⟨hid, hkind⟩ := h.cause t ht
    obtain ⟨hsource, htoken⟩ := hself t ht
    simp [isRelease, hid, hkind, hk, hsource, htoken]
  rw [Escrow.released, onAccount, hfilter, htotal]

/-! ## What the fields say -/

/-- What one side has claimed. -/
def Match.claimedBy (m : Match) (side : Side) : ℤ :=
  if m.claimed side then m.entitlement side else 0

/-- What both sides have claimed. -/
def Match.claimedAmount (m : Match) : ℤ := m.claimedBy .player1 + m.claimedBy .player2

/-- What has been paid out of a match, by its fields and its waiting winner : everything
once it is cancelled, or completed by a payout ; what was claimed if it was settled without
a dispute window ; nothing before. -/
def Match.spent (m : Match) (pw : Option Winner) : ℤ :=
  match m.state with
  | .cancelled => m.funded
  | .completed =>
    if m.vestedAt.isSome = true ∧ pw = none then m.claimedAmount else 2 * m.stakeAmount
  | _ => 0

theorem Match.funded_of_both (h1 : m.player1Deposited = true) (h2 : m.player2Deposited = true) :
    m.funded = 2 * m.stakeAmount := by
  simp [Match.funded, Match.depositorCount, h1, h2]

section

variable (h : 0 ≤ m.stakeAmount)

include h

theorem Match.funded_nonneg : 0 ≤ m.funded := by
  unfold Match.funded Match.depositorCount
  cases m.player1Deposited <;> cases m.player2Deposited <;> simp <;> omega

theorem Match.entitlement_nonneg (side : Side) :
    0 ≤ m.entitlement side := by
  unfold Match.entitlement
  split <;> [omega; (split <;> omega)]

theorem Match.claimedAmount_nonneg : 0 ≤ m.claimedAmount := by
  have h1 := m.entitlement_nonneg h .player1
  have h2 := m.entitlement_nonneg h .player2
  unfold Match.claimedAmount Match.claimedBy
  split <;> split <;> omega

/-- The claims come to no more than the pot, whoever has won. -/
theorem Match.claimedAmount_le : m.claimedAmount ≤ 2 * m.stakeAmount := by
  unfold Match.claimedAmount Match.claimedBy Match.entitlement
  cases m.winner <;> cases m.claimed .player1 <;> cases m.claimed .player2 <;>
    simp [Side.winner] <;> omega

theorem Match.spent_nonneg : 0 ≤ m.spent pw := by
  have hf := m.funded_nonneg h
  have hc := m.claimedAmount_nonneg h
  unfold Match.spent
  cases m.state <;> simp only <;> try split
  all_goals omega

end

theorem MatchSound.stake_nonneg (h : MatchSound i m pw) : 0 ≤ m.stakeAmount :=
  le_trans (by norm_num) h.terms.stake_pos

/-- No match has paid out more than was paid in. -/
theorem MatchSound.spent_le (h : MatchSound i m pw) : m.spent pw ≤ m.funded := by
  have hstake := h.stake_nonneg
  have hf := m.funded_nonneg hstake
  unfold Match.spent
  cases hs : m.state
  case completed =>
    have hd := h.stage.funded (by simp [hs]) (by simp [hs])
    have hc := Match.claimedAmount_le hstake
    rw [Match.funded_of_both hd.1 hd.2]
    simp only
    split <;> omega
  all_goals
    simp only
    omega

/-! ## Steps -/

/-- Nothing is released before a match is completed or cancelled. -/
theorem Match.spent_eq_zero (h : m.state ≠ .completed ∧ m.state ≠ .cancelled) : m.spent pw = 0 := by
  unfold Match.spent
  split <;> simp_all

theorem Match.spent_of_paid (hs : m.state = .completed) (h : m.vestedAt = none ∨ pw.isSome = true) :
    m.spent pw = 2 * m.stakeAmount := by
  unfold Match.spent
  rw [hs]
  rcases h with h | h
  · simp [h]
  · simp [Option.isSome_iff_ne_none.mp h]

theorem Match.spent_of_claims (hs : m.state = .completed) (hv : m.vestedAt.isSome = true) :
    m.spent none = m.claimedAmount := by
  simp [Match.spent, hs, hv]

theorem Match.claimedAmount_setClaimed {side : Side} (h : m.claimed side = false) :
    (m.setClaimed side).claimedAmount = m.claimedAmount + m.entitlement side := by
  have hbefore : m.claimedBy side = 0 := by simp [Match.claimedBy, h]
  have hafter : (m.setClaimed side).claimedBy side = m.entitlement side := by cases side <;> rfl
  unfold Match.claimedAmount
  cases side
  · have hother : (m.setClaimed .player1).claimedBy .player2 = m.claimedBy .player2 := rfl
    omega
  · have hother : (m.setClaimed .player2).claimedBy .player1 = m.claimedBy .player1 := rfl
    omega

theorem MatchStep.cause (h : MatchStep env config period i m pw a ts deltas m' pw') :
    ∀ t ∈ ts, t.cause.matchId = i := by
  intro t ht
  cases h with
  | deposit | activate | strayDeposit | bond =>
    obtain rfl := mem_singleton.mp ht
    rfl
  | cancel _ _ hrel | strayRefund _ hrel | recover _ hrel | rollback _ _ _ _ hrel
  | stall _ _ _ hrel | finalize _ _ hrel | claim _ _ _ _ _ hrel => exact (hrel.cause t ht).1
  | resolve _ _ _ _ hrel =>
    rcases mem_cons.mp ht with rfl | ht
    · rfl
    · exact (hrel.cause t ht).1
  | _ => simp at ht

/-- A claim is made on a match that was settled without a dispute window, and either it
is a draw or the protocol fee is not negative. -/
def ClaimSound (config : ProtocolConfig) (m : Match) (pw : Option Winner) : Prop :=
  pw = none ∧ (m.winner = .draw ∨ config.capNonneg)

/-- What a step releases is added to what the fields say is spent. -/
theorem MatchStep.spent (h : MatchStep env config period i m pw a ts deltas m' pw')
    (hm : MatchSound i m pw) (hB : m.tokenB = none)
    (hclaim : a = .claim i → m.state = .completed → ClaimSound config m pw) :
    released i m.token ts + m.spent pw ≤ m'.spent pw' := by
  have hstake := hm.stake_nonneg
  have hnew : 0 ≤ m'.spent pw' := by
    refine Match.spent_nonneg ?_
    have hsame : m'.stakeAmount = m.stakeAmount := congrArg Terms.stakeAmount h.terms
    omega
  cases h with
  | deposit _ hs | activate _ hs | strayDeposit _ hs =>
    have h0 : released i m.token [depositTransfer i m ‹Side›] = 0 :=
      released_eq_zero (by simp [depositTransfer, Leg.kind, LegKind.outward])
    rw [Match.spent_eq_zero (m := m) (by simp [hs]), h0]
    omega
  | settleNow _ _ hs | settleHalf _ _ hs | settleLater _ _ hs =>
    rw [Match.spent_eq_zero (m := m) (by rcases hs with hs | hs <;> simp [hs]),
      released_eq_zero (by simp)]
    omega
  | pause hs | resume hs | heartbeat hs | rollbackVote _ hs =>
    rw [Match.spent_eq_zero (m := m) (by simp [hs]), released_eq_zero (by simp)]
    omega
  | strayRefund _ _ hmulti => exact absurd hB hmulti
  | cancel _ hs hrel hle | recover hs hrel hle =>
    rw [hrel.released hB rfl, Match.spent_eq_zero (m := m) (by simp [hs])]
    have hfunded := hle hstake hB
    have hspent : Match.spent ((m.withState .cancelled).completedAt env.sequence) pw =
        m.funded := rfl
    omega
  | rollback side hs _ _ hrel =>
    rw [hrel.released hB rfl, Match.spent_eq_zero (m := m) (by simp [hs])]
    have hspent : Match.spent
        (((m.voteRollback side).withState .cancelled).completedAt env.sequence) pw =
        m.funded := by cases side <;> rfl
    omega
  | stall winner _ hs hrel =>
    have hu := hm.stage.unresolved (by rcases hs with hs | hs <;> simp [hs])
    have hspent : Match.spent
        (((m.withState .completed).withWinner winner).completedAt env.sequence) pw =
        2 * m.stakeAmount := Match.spent_of_paid rfl (.inl hu.vestedAt)
    rw [hrel.released hB rfl, hspent,
      Match.spent_eq_zero (m := m) (by rcases hs with hs | hs <;> simp [hs])]
    simp
  | finalize hs hpw hrel =>
    have hspent : Match.spent ((m.withState .completed).completedAt env.sequence) pw =
        2 * m.stakeAmount := Match.spent_of_paid rfl (.inr hpw)
    rw [hrel.released hB rfl, hspent, Match.spent_eq_zero (m := m) (by simp [hs])]
    simp
  | bond =>
    rw [released_eq_zero (by simp [Leg.kind, LegKind.outward])]
    omega
  | resolve target amount hs hpw hrel =>
    have hspent : Match.spent ((m.withState .completed).completedAt env.sequence) pw =
        2 * m.stakeAmount := Match.spent_of_paid rfl (.inr hpw)
    rw [← singleton_append, released_append, hrel.released hB rfl,
      released_eq_zero (by simp [outgoing, Leg.kind, LegKind.outward]), hspent,
      Match.spent_eq_zero (m := m) (by simp [hs])]
    simp
  | claim side hs hvested hclaimed hwinner hrel hle =>
    obtain ⟨rfl, hcap⟩ := hclaim rfl hs
    have hs' : (m.setClaimed side).state = .completed := by cases side <;> exact hs
    have hv' : (m.setClaimed side).vestedAt.isSome = true := by cases side <;> exact hvested
    rw [hrel.released hB rfl, hle hstake hcap, Match.spent_of_claims hs hvested,
      Match.spent_of_claims hs' hv', Match.claimedAmount_setClaimed hclaimed]
    omega

theorem Match.funded_withDeposit {side : Side} {now : ℕ} (h : m.deposited side = false) :
    (m.withDeposit side now).funded = m.funded + m.stakeAmount := by
  cases side
  · have h1 : m.player1Deposited = false := h
    simp [Match.funded, Match.depositorCount, Match.withDeposit, Match.setDeposited, h1]
    ring
  · have h2 : m.player2Deposited = false := h
    simp [Match.funded, Match.depositorCount, Match.withDeposit, Match.setDeposited, h2]
    ring

theorem deposited_depositTransfer (side : Side) :
    deposited i m.token [depositTransfer i m side] = m.stakeAmount := by
  simp [deposited, onAccount, isStake, depositTransfer, Leg.kind]

/-- Every deposit that a step records was paid in. -/
theorem MatchStep.funded (h : MatchStep env config period i m pw a ts deltas m' pw')
    (hpos : ∀ t ∈ ts, 0 ≤ t.amount) : m'.funded ≤ m.funded + deposited i m.token ts := by
  have hdep : 0 ≤ deposited i m.token ts := onAccount_nonneg hpos
  cases h with
  | deposit side _ hside =>
    rw [Match.funded_withDeposit hside, deposited_depositTransfer]
  | activate side _ hside =>
    have hsame : ((m.withDeposit side env.timestamp).activated env.timestamp).funded =
        (m.withDeposit side env.timestamp).funded := rfl
    rw [hsame, Match.funded_withDeposit hside, deposited_depositTransfer]
  | rollbackVote side | rollback side | claim side =>
    cases side <;> exact le_add_of_nonneg_right hdep
  | _ => exact le_add_of_nonneg_right hdep

/-! ## Books -/

/-- The log and the fields of the matches agree. -/
structure Book.Accounted (b : Book) : Prop where
  logged : ∀ t ∈ b.log, b.matchMap t.cause.matchId ≠ none
  spent : ∀ matchId m, b.matchMap matchId = some m → m.tokenB = none →
    released matchId m.token b.log ≤ m.spent (b.pendingWinner matchId)
  funded : ∀ matchId m, b.matchMap matchId = some m →
    m.funded ≤ deposited matchId m.token b.log

/-- A change on a match leaves the accounts of the others. -/
theorem MatchStep.onAccount_other
    (h : MatchStep env config period i m pw a ts deltas m' pw') {id : ℕ}
    (hid : id ≠ i) (p : Transfer → Bool) : onAccount id p ts = 0 :=
  onAccount_eq_zero fun t ht hcause => absurd (hcause.symm.trans (h.cause t ht)) hid

/-- Every transfer is made on account of a match that is stored. -/
theorem Change.logged (hchange : Change env config period a b b')
    (h : ∀ t ∈ b.log, b.matchMap t.cause.matchId ≠ none) :
    ∀ t ∈ b'.log, b'.matchMap t.cause.matchId ≠ none := by
  intro t ht hnone
  cases hchange with
  | opening => exact h t ht (eq_none_of_update hnone)
  | moving hm hstep =>
    rcases mem_append.mp ht with ht | ht
    · exact absurd (hm.symm.trans (hstep.cause t ht ▸ eq_none_of_update hnone)) (by simp)
    · exact h t ht (eq_none_of_update hnone)

theorem Book.Accounted.change (hb : b.Sound) (h : b.Accounted)
    (hchange : Change env config period a b b')
    (hclaim : ∀ i m, a = .claim i → b.matchMap i = some m → m.tokenB = none →
      m.state = .completed → ClaimSound config m (b.pendingWinner i)) : b'.Accounted := by
  have hlogged := hchange.logged h.logged
  cases hchange with
  | opening p rateLedger hp hfree =>
    have hnew : ∀ t ∈ b.log, t.cause.matchId ≠ b.matchCount := by
      intro t ht heq
      exact h.logged t ht (heq ▸ hfree)
    refine ⟨hlogged, fun id m hm hB => ?_, fun id m hm => ?_⟩
    · rcases eq_some_of_update hm with ⟨rfl, rfl⟩ | ⟨-, hm⟩
      · exact le_of_eq (onAccount_eq_zero fun t ht heq => absurd heq (hnew t ht))
      · exact h.spent id m hm hB
    · rcases eq_some_of_update hm with ⟨rfl, rfl⟩ | ⟨-, hm⟩
      · rw [Book.opened_log, deposited, onAccount_eq_zero fun t ht heq => absurd heq (hnew t ht)]
        simp [Match.funded, Match.depositorCount, MatchParams.newMatch]
      · exact h.funded id m hm
  | @moving _ i m m' pw a ts deltas l hm hstep hl =>
    have htoken : m'.token = m.token := congrArg Terms.token hstep.terms
    have htokenB : m'.tokenB = m.tokenB := congrArg Terms.tokenB hstep.terms
    refine ⟨hlogged, fun id m1 hm1 hB => ?_, fun id m1 hm1 => ?_⟩
    · rw [Book.moved_log, released_append, Book.moved_pendingWinner]
      rcases eq_some_of_update hm1 with ⟨rfl, rfl⟩ | ⟨hne, hm1⟩
      · rw [htokenB] at hB
        have hold := h.spent id m hm hB
        have hspent := hstep.spent (hb.stored id m hm) hB fun ha hs => hclaim id m ha hm hB hs
        rw [htoken, Function.update_self]
        omega
      · rw [released, hstep.onAccount_other hne, Function.update_of_ne hne, zero_add]
        exact h.spent id m1 hm1 hB
    · rw [Book.moved_log, deposited_append]
      rcases eq_some_of_update hm1 with ⟨rfl, rfl⟩ | ⟨hne, hm1⟩
      · have hold := h.funded id m hm
        have hfunded := hstep.funded hl.amount_nonneg
        rw [htoken]
        omega
      · rw [deposited, hstep.onAccount_other hne, zero_add]
        exact h.funded id m1 hm1

theorem Book.Accounted.drift (hdrift : Drift b b') (h : b.Accounted) : b'.Accounted := by
  obtain ⟨⟨l, rfl⟩, -⟩ := hdrift
  exact ⟨h.1, h.2, h.3⟩

theorem Book.Accounted.empty (l : Ledger Address) : (Book.empty l).Accounted :=
  ⟨by simp [Book.empty], by simp [Book.empty], by simp [Book.empty]⟩

/-! ## Runs -/

/-- No claim is made on a completed single-token match that was paid out after a dispute
window, nor, unless it is a draw, with a negative cap on the protocol fee. -/
def ClaimsOnce (w : World) : Event → Prop
  | .invoke _ (.claimVestedPayout matchId _) => ∀ m, w.matchMap matchId = some m →
    m.tokenB = none → m.state = .completed →
      ClaimSound w.control.config m (w.disputes.pendingWinner matchId)
  | _ => True

theorem run_accounted {w0 : World} {es : List Event} (h0 : Initial w0)
    (hal : Along step ClaimsOnce w0 es) :
    (run step w0 es).book.Sound ∧ (run step w0 es).book.Accounted := by
  refine run_book_inv (I := fun b => b.Sound ∧ b.Accounted) (fun l => ⟨.empty l, .empty l⟩)
    (fun hd hb => ⟨hb.1.drift hd, hb.2.drift hd⟩) ?_ h0 hal
  intro w env call b b' hP _ hbook hb hchange
  refine ⟨hb.1.change hchange, hb.2.change hb.1 hchange fun id m ha hm hB hs => ?_⟩
  cases call with
  | claimVestedPayout i =>
    obtain rfl : i = id := Action.claim.inj ha
    rw [(hbook rfl).1] at hm ⊢
    exact hP m hm hB hs
  | _ => exact Action.noConfusion ha

/-- In every run whose claims are made once, the contract pays out of a single-token match
no more than the stakes recorded in it, and these were paid in. -/
theorem released_le_deposited {w0 : World} {es : List Event} (h0 : Initial w0)
    (hal : Along step ClaimsOnce w0 es) (hm : (run step w0 es).matchMap i = some m)
    (hB : m.tokenB = none) : released i m.token (run step w0 es).log ≤ m.funded ∧
      m.funded ≤ deposited i m.token (run step w0 es).log := by
  obtain ⟨hsound, hacc⟩ := run_accounted h0 hal
  have hspent := hacc.spent i m hm hB
  have hle := (hsound.stored i m hm).spent_le
  exact ⟨hspent.trans hle, hacc.funded i m hm⟩

/-- Match 0 is settled without a dispute window, and the winner claims the pot. -/
def claimedOnce : List Event :=
  fundedMatch ++
    [.invoke (.plain [0] 0 0) (.submitResult 0 .player1 (.ext 0)),
      .invoke (.plain [2] 1 1000000) (.claimVestedPayout 0 (.ext 2))]

theorem released_le_deposited_claimedOnce : ∃ m, (run step .start claimedOnce).matchMap 0 = some m ∧
      released 0 m.token (run step .start claimedOnce).log ≤ m.funded ∧
      m.funded ≤ deposited 0 m.token (run step .start claimedOnce).log := by
  have hsingle : ((run step .start claimedOnce).matchMap 0).map Match.tokenB = some none := by
    decide +kernel
  obtain ⟨m, hm, hB⟩ := Option.map_eq_some_iff.mp hsingle
  have hal : Along step ClaimsOnce .start claimedOnce := ⟨trivial, trivial, trivial, trivial,
      fun _ _ _ _ => ⟨by decide +kernel, .inr (.inl (by decide +kernel))⟩, trivial⟩
  exact ⟨m, hm, released_le_deposited World.start_initial hal hm hB⟩

/-- Matches 0 and 1 are funded. Match 0 is settled with a dispute window and paid out after
it, and then the winner claims the pot. -/
def paidTwice : List Event :=
  fundedMatch ++ funding 1 5 6 [49, 50, 51, 52, 53, 54, 56] ++
    [.invoke (.plain [1] 0 0) (.control (.setDisputePeriod 1)),
      .invoke (.plain [0] 0 0) (.submitResult 0 .player1 (.ext 0)),
      .invoke (.plain [] 2 10) (.finalizeMatch 0),
      .invoke (.plain [2] 3 1000000) (.claimVestedPayout 0 (.ext 2))]

/-- The second payment is made with the stakes of match 1. -/
theorem released_twice : Reachable (run step .start paidTwice) ∧
    ((run step .start paidTwice).matchMap 0).map (fun m => (m.token, m.tokenB)) =
      some (.ext 4, none) ∧ released 0 (.ext 4) (run step .start paidTwice).log = 400 ∧
    deposited 0 (.ext 4) (run step .start paidTwice).log = 200 ∧
    deposited 1 (.ext 4) (run step .start paidTwice).log = 200 ∧
    (run step .start paidTwice).ledger (.ext 4) .self = 0 := by
  refine ⟨⟨_, _, World.start_initial, rfl⟩, ?_⟩
  decide +kernel

end Checkmate.Escrow

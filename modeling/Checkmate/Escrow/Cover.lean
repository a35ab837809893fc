import Mathlib.Algebra.BigOperators.Group.Finset.Piecewise
import Mathlib.Algebra.Order.BigOperators.Group.Finset
import Checkmate.Escrow.Accounts
import Checkmate.Escrow.Tallies

/-!
# Solvency with a dispute window

All matches share the contract's balances. Every movement of the contract is a stake paid in
or released, or a bond, on account of one match, and what the log brought the contract is the
sum of the accounts of the matches (`stakes_and_bonds_le`). The bond of a match goes out only
after it has come in and in the same amount (`World.Tracks`), so bonds take nothing away from
the stakes, and a debt that every account covers is covered by the balance
(`Reachable.balance_covers`). As long as no claim is made on a pot that was paid out and every
match is single-token, the stakes in the matches that are not over are such a debt
(`balance_covers_open`).
-/

namespace Checkmate.Escrow

open List

variable {env : Env} {config : ProtocolConfig} {period id : ℕ} {a : Action} {m m' : Match}
  {pw pw' : Option Winner} {ts log : List Transfer} {deltas : List (Address × ℤ)}
  {w w' : World} {u : Unit} {token : Address}

/-! ## Accounts add up -/

theorem total_filter_cons (p : Transfer → Bool) (t : Transfer) :
    total ((t :: ts).filter p) = (if p t then t.amount else 0) + total (ts.filter p) := by
  by_cases hp : p t = true <;> simp [hp]

/-- The accounts of all matches add up to the whole log. -/
theorem sum_onAccount {n : ℕ} (p : Transfer → Bool) (h : ∀ t ∈ ts, t.cause.matchId < n) :
    ∑ id ∈ Finset.range n, onAccount id p ts = total (ts.filter p) := by
  induction ts with
  | nil => simp [onAccount]
  | cons t ts ih =>
    have hone : ∀ id, onAccount id p (t :: ts) =
        (if t.cause.matchId = id then (if p t then t.amount else 0) else 0) +
          onAccount id p ts := by
      intro id
      rw [onAccount, total_filter_cons]
      by_cases hid : t.cause.matchId = id <;> simp [onAccount, hid]
    have ht : t.cause.matchId ∈ Finset.range n := Finset.mem_range.mpr (h t mem_cons_self)
    rw [Finset.sum_congr rfl fun id _ => hone id, Finset.sum_add_distrib, Finset.sum_ite_eq,
      if_pos ht, ih fun t' ht' => h t' (mem_cons_of_mem _ ht'), total_filter_cons]

/-! ## Transfers of single-token matches -/

/-- A movement in `token`. Stakes are paid by somebody else. -/
structure TokenTransfer (token : Address) (t : Transfer) : Prop where
  token_eq : t.token = token
  amount_nonneg : 0 ≤ t.amount
  stake : t.cause.leg.kind = .stake → t.source ≠ .self

theorem depositTransfer_inToken (hm : MatchSound id m pw) (side : Side) :
    TokenTransfer m.token (depositTransfer id m side) := by
  refine ⟨rfl, hm.stake_nonneg, fun _ => ?_⟩
  cases side
  · exact hm.terms.player1_ne
  · exact hm.terms.player2_ne

theorem Releases.inToken {kind : LegKind} {amount : ℤ} (h : Releases id m kind amount ts)
    (hB : m.tokenB = none) (hk : kind.outward = true) (hpos : ∀ t ∈ ts, 0 ≤ t.amount) :
    ∀ t ∈ ts, TokenTransfer m.token t := by
  refine fun t ht => ⟨((h.single hB).1 t ht).2, hpos t ht, fun hstake => ?_⟩
  rw [← (h.cause t ht).2, hstake] at hk
  exact Bool.noConfusion hk

theorem MatchStep.inToken (h : MatchStep env config period id m pw a ts deltas m' pw')
    (hm : MatchSound id m pw) (hB : m.tokenB = none) (hpos : ∀ t ∈ ts, 0 ≤ t.amount) :
    ∀ t ∈ ts, TokenTransfer m.token t := by
  intro t ht
  cases h with
  | deposit side | activate side | strayDeposit side =>
    rw [mem_singleton.mp ht]
    exact depositTransfer_inToken hm side
  | cancel _ _ hrel | strayRefund _ hrel | recover _ hrel | rollback _ _ _ _ hrel
  | stall _ _ _ hrel | finalize _ _ hrel | claim _ _ _ _ _ hrel =>
    exact hrel.inToken hB rfl hpos t ht
  | bond =>
    obtain rfl := mem_singleton.mp ht
    exact ⟨rfl, hpos _ ht, fun hstake => LegKind.noConfusion hstake⟩
  | resolve target amount _ _ hrel =>
    rcases mem_cons.mp ht with rfl | hrest
    · exact ⟨rfl, hpos _ ht, fun hstake => LegKind.noConfusion hstake⟩
    · exact hrel.inToken hB rfl (forall_mem_cons.mp hpos).2 t hrest
  | _ => simp at ht

/-- What the transfers for single-token matches have in common, if those of every step have. -/
theorem Change.single {b b' : Book} {Q : Address → Transfer → Prop}
    (hchange : Change env config period a b b')
    (hlogged : ∀ t ∈ b.log, b.matchMap t.cause.matchId ≠ none)
    (hlog : ∀ t ∈ b.log, ∀ m, b.matchMap t.cause.matchId = some m → m.tokenB = none → Q m.token t)
    (hts : ∀ {i m m' pw ts deltas}, b.matchMap i = some m →
      MatchStep env config period i m (b.pendingWinner i) a ts deltas m' pw →
      m.tokenB = none → (∀ t ∈ ts, 0 ≤ t.amount) → ∀ t ∈ ts, Q m.token t) :
    ∀ t ∈ b'.log, ∀ m, b'.matchMap t.cause.matchId = some m → m.tokenB = none → Q m.token t := by
  intro t ht m1 hm1 hB
  cases hchange with
  | opening p rateLedger hp hfree =>
    rcases eq_some_of_update hm1 with ⟨hid, -⟩ | ⟨-, hm1⟩
    · exact absurd (hid ▸ hfree) (hlogged t ht)
    · exact hlog t ht m1 hm1 hB
  | @moving _ i m m' pw a ts deltas l hm hstep hl =>
    have htoken : m'.token = m.token := congrArg Terms.token hstep.terms
    have htokenB : m'.tokenB = m.tokenB := congrArg Terms.tokenB hstep.terms
    rcases mem_append.mp ht with hnew | hold
    · rcases eq_some_of_update hm1 with ⟨-, rfl⟩ | ⟨hne, -⟩
      · rw [htoken]
        exact hts hm hstep (htokenB ▸ hB) hl.amount_nonneg t hnew
      · exact absurd (hstep.cause t hnew) hne
    · rcases eq_some_of_update hm1 with ⟨hid, rfl⟩ | ⟨-, hm1⟩
      · rw [htoken]
        exact hlog t hold m (hid ▸ hm) (htokenB ▸ hB)
      · exact hlog t hold m1 hm1 hB

/-- The contract's balances hold what the log brought. -/
theorem Change.covered {b b' : Book} (hchange : Change env config period a b b')
    (h : ∀ token, netFlow .self token b.log ≤ b.ledger token .self) (token : Address) :
    netFlow .self token b'.log ≤ b'.ledger token .self := by
  cases hchange with
  | opening => exact h token
  | moving hm hstep hl =>
    have hold := h token
    have hflow := hl.balance .self token
    rw [Book.moved_log, Book.moved_ledger, netFlow_append]
    omega

/-- The transfers for single-token matches are in their tokens, and the balances hold what the
log brought. -/
structure Book.Covered (b : Book) : Prop where
  sound : b.Sound
  logged : ∀ t ∈ b.log, b.matchMap t.cause.matchId ≠ none
  single : ∀ t ∈ b.log, ∀ m, b.matchMap t.cause.matchId = some m → m.tokenB = none →
    TokenTransfer m.token t
  covered : ∀ token, netFlow .self token b.log ≤ b.ledger token .self

theorem Book.Covered.change {b b' : Book} (h : b.Covered)
    (hchange : Change env config period a b b') : b'.Covered where
  sound := h.sound.change hchange
  logged := hchange.logged h.logged
  single := hchange.single h.logged h.single fun hm hstep hB hpos =>
    hstep.inToken (h.sound.stored _ _ hm) hB hpos
  covered := hchange.covered h.covered

theorem Book.Covered.drift {b b' : Book} (hdrift : Drift b b') (h : b.Covered) : b'.Covered := by
  have hsound := h.sound.drift hdrift
  obtain ⟨⟨l, rfl⟩, hle⟩ := hdrift
  exact ⟨hsound, h.logged, h.single, fun token => (h.covered token).trans (mod_cast hle token)⟩

theorem Reachable.covered (hw : Reachable w) : w.book.Covered :=
  hw.book_inv (fun l => ⟨.empty l, by simp [Book.empty], by simp [Book.empty],
    by simp [Book.empty]⟩) Book.Covered.drift Book.Covered.change

/-! ## Bonds -/

/-- A bond that somebody else pays in `token`. -/
def isBond (token : Address) (t : Transfer) : Bool :=
  t.cause.leg.kind = .bond && t.target = .self && t.source ≠ .self && t.token = token

/-- A bond that the contract pays back in `token`. -/
def isBondReturn (token : Address) (t : Transfer) : Bool :=
  t.cause.leg.kind = .bond && t.source = .self && t.token = token

theorem TokenTransfer.flow {t : Transfer} {stakeToken : Address} (h : TokenTransfer stakeToken t)
    (token : Address) :
    (if isStake token t then t.amount else 0) - (if isRelease token t then t.amount else 0) +
      ((if isBond token t then t.amount else 0) - (if isBondReturn token t then t.amount else 0)) ≤
      t.flow .self token := by
  have hpos := h.amount_nonneg
  have hstake := h.stake
  unfold Movement.flow isStake isRelease isBond isBondReturn
  cases hkind : t.cause.leg.kind <;> by_cases htoken : t.token = token <;>
    by_cases htarget : t.target = .self <;> by_cases hsource : t.source = .self <;>
    simp_all [LegKind.outward]

/-- What the movements bring the contract is at least the stakes and bonds paid in, less those
paid out. -/
theorem stakes_and_bonds_le (h : ∀ t ∈ ts, ∃ stakeToken, TokenTransfer stakeToken t)
    (token : Address) : total (ts.filter (isStake token)) - total (ts.filter (isRelease token)) +
      (total (ts.filter (isBond token)) - total (ts.filter (isBondReturn token))) ≤
      netFlow .self token ts := by
  induction ts with
  | nil => simp
  | cons t ts ih =>
    have hrest := ih fun t' ht' => h t' (mem_cons_of_mem _ ht')
    obtain ⟨stakeToken, ht⟩ := h t mem_cons_self
    have hflow := ht.flow token
    simp only [netFlow_cons, total_filter_cons]
    omega

theorem isBond_kind {t : Transfer} (h : isBond token t = true) : t.cause.leg.kind = .bond := by
  simp only [isBond, Bool.and_eq_true, decide_eq_true_eq] at h
  exact h.1.1.1

theorem isBondReturn_kind {t : Transfer} (h : isBondReturn token t = true) :
    t.cause.leg.kind = .bond := by
  simp only [isBondReturn, Bool.and_eq_true, decide_eq_true_eq] at h
  exact h.1.1

theorem onAccount_bondLog {p : Transfer → Bool} (hp : ∀ t, p t = true → t.cause.leg.kind = .bond) :
    onAccount id p log = total ((bondLog log id).filter p) := by
  rw [onAccount, bondLog, filter_filter]
  congr 1
  refine filter_congr fun t _ => ?_
  cases hpt : p t with
  | false => simp
  | true => simp [hp t hpt]

/-- Nobody files a dispute in the contract's own name. -/
theorem exec_disputers {call : Call} (h : call.exec env w = .ok u w')
    (hw : ∀ k d, w.disputes.dispute k = some d → d.disputer ≠ .self) :
    ∀ k d, w'.disputes.dispute k = some d → d.disputer ≠ .self := by
  cases hcall : call.onPolls with
  | false =>
    have hsame := congrArg Polls.dispute ((Call.exec_frames_polls hcall).ok h)
    intro k d hd
    exact hw k d ((congrFun hsame k).symm.trans hd)
  | true =>
    intro k d hd
    cases call with
    | disputeOracleResult =>
      obtain ⟨n, h⟩ := void_ok_iff.mp h
      obtain ⟨m, share, l, quorum, oracle, hopen, -, -, -, -, rfl⟩ :=
        disputeOracleResult_ok h
      change Function.update w.disputes.dispute _ _ k = some d at hd
      rcases eq_some_of_update hd with ⟨-, rfl⟩ | ⟨-, hd⟩
      · rintro rfl
        exact env.self_notMem hopen.auth
      · exact hw k d hd
    | voteOnDispute j voter vote =>
      obtain ⟨d1, weight, hopen, -, -, rfl⟩ := voteOnDispute_ok_iff.mp h
      change Function.update w.disputes.dispute _ _ k = some d at hd
      rcases eq_some_of_update hd with ⟨-, rfl⟩ | ⟨-, hd⟩
      · cases vote <;> exact hw j d1 hopen.filed
      · exact hw k d hd
    | resolveDisputeByVote j =>
      obtain ⟨d1, m, winner, w1, w2, hopen, hpay, hbond, rfl⟩ := resolveDisputeByVote_ok h
      obtain ⟨ts, ⟨l, -, rfl⟩, -⟩ := executePayout_ok hpay
      obtain ⟨l', -, rfl⟩ := transfer_paid hbond
      change Function.update w.disputes.dispute _ _ k = some d at hd
      rcases eq_some_of_update hd with ⟨-, rfl⟩ | ⟨-, hd⟩
      · exact hw j d1 hopen.filed
      · exact hw k d hd
    | _ => exact Bool.noConfusion hcall

theorem Reachable.disputer_ne (hw : Reachable w) :
    ∀ k d, w.disputes.dispute k = some d → d.disputer ≠ .self := by
  obtain ⟨w0, es, h0, rfl⟩ := hw
  refine run_inv (I := fun w => ∀ k d, w.disputes.dispute k = some d → d.disputer ≠ .self)
    (fun w e hw _ => ?_) ?_ (along_true w0 es)
  · refine step_keeps (P := fun w => ∀ k d, w.disputes.dispute k = some d → d.disputer ≠ .self)
      hw ?_ (fun _ => hw) fun _ => hw
    intro env call w' _ h
    have hnew := exec_disputers h hw
    exact hnew
  · obtain ⟨oracle, admin, l, -, rfl⟩ := h0.eq_mk
    simp

/-- No match pays back more bonds than it has taken. -/
theorem Reachable.bonds_le (hw : Reachable w) (token : Address) (id : ℕ) :
    onAccount id (isBondReturn token) w.log ≤ onAccount id (isBond token) w.log := by
  rw [onAccount_bondLog fun t ht => isBondReturn_kind ht,
    onAccount_bondLog fun t ht => isBond_kind ht]
  obtain ⟨-, k, hk⟩ := hw.tracks id
  cases k with
  | idle =>
    obtain ⟨-, -, hlog⟩ := hk
    simp [hlog]
  | waiting =>
    obtain ⟨_, -, -, -, -, hlog⟩ := hk
    simp [hlog]
  | final =>
    obtain ⟨_, -, -, -, hlog⟩ := hk
    simp [hlog]
  | challenged =>
    obtain ⟨m, d, -, -, hdisp, -, rfl, hlog⟩ := hk
    obtain ⟨j, -, hd⟩ := hdisp.filed
    have hne := hw.disputer_ne j d hd
    have hpos := hdisp.bond_pos
    by_cases htoken : m.token = token <;>
      simp [hlog, bondIn, isBond, isBondReturn, Dispute.challenge, hne, htoken, Leg.kind]
    omega
  | decided =>
    obtain ⟨m, d, -, -, hdisp, -, rfl, hlog⟩ := hk
    obtain ⟨j, -, hd⟩ := hdisp.filed
    have hne := hw.disputer_ne j d hd
    by_cases htoken : m.token = token <;>
      simp [hlog, bondIn, bondOut, outgoing, isBond, isBondReturn, Dispute.challenge, hne, htoken,
        Leg.kind]

/-! ## Debts -/

/-- A debt that the account of every match covers in the match's own token is covered by the
contract's balance. -/
theorem Reachable.balance_covers (hw : Reachable w)
    (hsingle : ∀ id m, w.matchMap id = some m → m.tokenB = none) {owed : ℕ → ℤ}
    (hnone : ∀ id, w.matchMap id = none → owed id = 0)
    (hother : ∀ id m, w.matchMap id = some m → m.token ≠ token → owed id = 0)
    (hown : ∀ id m, w.matchMap id = some m → m.token = token →
      owed id ≤ deposited id token w.log - released id token w.log) :
    ∑ id ∈ Finset.range w.matchCount, owed id ≤ w.ledger token .self := by
  have hcov := hw.covered
  have hstored : ∀ t ∈ w.log, t.cause.matchId < w.matchCount := by
    intro t ht
    by_contra hge
    exact hcov.logged t ht (hcov.sound.free _ (not_lt.mp hge))
  have htransfers : ∀ t ∈ w.log, ∃ m, w.matchMap t.cause.matchId = some m ∧
      TokenTransfer m.token t := by
    intro t ht
    obtain ⟨m, hm⟩ := Option.ne_none_iff_exists'.mp (hcov.logged t ht)
    exact ⟨m, hm, hcov.single t ht m hm (hsingle _ m hm)⟩
  have haccount : ∀ id, owed id ≤ deposited id token w.log - released id token w.log := by
    intro id
    -- Without a transfer in `token` both sides are zero.
    have hempty (h : ∀ t ∈ w.log, t.cause.matchId = id → t.token ≠ token) :
        deposited id token w.log = 0 ∧ released id token w.log = 0 :=
      ⟨onAccount_eq_zero fun t ht hid => by simp [isStake, h t ht hid],
        onAccount_eq_zero fun t ht hid => by simp [isRelease, h t ht hid]⟩
    cases hm : w.matchMap id with
    | none =>
      have hzero := hempty fun t ht hid => absurd (hid ▸ hm) (hcov.logged t ht)
      rw [hnone id hm, hzero.1, hzero.2, sub_zero]
    | some m =>
      by_cases htoken : m.token = token
      · exact hown id m hm htoken
      · have hzero := hempty fun t ht hid => by
          obtain ⟨m1, hm1, hin⟩ := htransfers t ht
          obtain rfl := Option.some.inj (hm.symm.trans (hid ▸ hm1))
          rw [hin.token_eq]
          exact htoken
        rw [hother id m hm htoken, hzero.1, hzero.2, sub_zero]
  have hbonds : total (w.log.filter (isBondReturn token)) ≤
      total (w.log.filter (isBond token)) := by
    rw [← sum_onAccount _ hstored, ← sum_onAccount _ hstored]
    exact Finset.sum_le_sum fun id _ => hw.bonds_le token id
  calc
    _ ≤ ∑ id ∈ Finset.range w.matchCount,
          (deposited id token w.log - released id token w.log) :=
        Finset.sum_le_sum fun id _ => haccount id
    _ = total (w.log.filter (isStake token)) - total (w.log.filter (isRelease token)) := by
        rw [Finset.sum_sub_distrib]
        exact congrArg₂ _ (sum_onAccount _ hstored) (sum_onAccount _ hstored)
    _ ≤ netFlow .self token w.log := by
        have := stakes_and_bonds_le (fun t ht => by
          obtain ⟨m, -, hin⟩ := htransfers t ht
          exact ⟨m.token, hin⟩) token
        omega
    _ ≤ w.ledger token .self := hcov.covered token

/-- The stakes in `token` that a match holds until it is over. -/
def World.openStakes (w : World) (token : Address) (matchId : ℕ) : ℤ :=
  (w.matchMap matchId).elim 0 fun m =>
    if m.token = token ∧ m.state.terminal = false then m.funded else 0

/-- As long as claims are made once and every match is single-token, the contract's balance of
every token covers the stakes in all matches that are not over. -/
theorem balance_covers_open {w0 : World} {es : List Event} (h0 : Initial w0)
    (hal : Along step ClaimsOnce w0 es)
    (hsingle : ∀ id m, (run step w0 es).matchMap id = some m → m.tokenB = none) (token : Address) :
    ∑ id ∈ Finset.range (run step w0 es).matchCount, (run step w0 es).openStakes token id ≤
      (run step w0 es).ledger token .self := by
  obtain ⟨hsound, hacc⟩ := run_accounted h0 hal
  have hw : Reachable (run step w0 es) := ⟨w0, es, h0, rfl⟩
  generalize run step w0 es = w at *
  refine hw.balance_covers hsingle (fun id hm => by simp [World.openStakes, hm])
    (fun id m hm htoken => by simp [World.openStakes, hm, htoken]) fun id m hm htoken => ?_
  subst htoken
  have hspent := hacc.spent id m hm (hsingle id m hm)
  have hfunded := hacc.funded id m hm
  have hle := (hsound.stored id m hm).spent_le
  simp only [World.openStakes, hm, Option.elim_some, true_and]
  split
  · rename_i hopen
    have hzero : m.spent (w.book.pendingWinner id) = 0 := by
      refine Match.spent_eq_zero ⟨?_, ?_⟩ <;>
      · intro hs
        simp [hs, MatchState.terminal] at hopen
    change m.funded ≤ deposited id m.token w.book.log - released id m.token w.book.log
    omega
  · change 0 ≤ deposited id m.token w.book.log - released id m.token w.book.log
    omega

end Checkmate.Escrow

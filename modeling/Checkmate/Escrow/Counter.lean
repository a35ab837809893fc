import Mathlib.Algebra.BigOperators.Group.Finset.Piecewise
import Mathlib.Algebra.Order.BigOperators.Group.Finset
import Checkmate.Escrow.Lifecycle

/-!
# The escrow counter

Every player has a counter that stands for the sum of their stakes in matches that are not
over. It is changed by each deposit, refund and payout (`MatchStep.counted`) and is exact
along every run that keeps to the paths which change it by the stake (`counter_exact`).

A rollback on both votes, a recovery, the resolution of a stalled match and of a dispute
give stakes back and leave the counter ; a cancellation takes off what player 2 is
refunded, which in a multi-token match is not the stake.
-/

namespace Checkmate.Escrow

open Function Finset Book

variable {env : Env} {config : ProtocolConfig} {period i : ℕ} {a : Action} {m m' : Match}
  {pw pw' : Option Winner} {ts : List Transfer} {deltas : List (Address × ℤ)} {p : Address}

/-! ## Counters under several changes -/

/-- What the changes add to one counter. -/
def deltaFor (p : Address) (deltas : List (Address × ℤ)) : ℤ :=
  (deltas.map fun d => if d.1 = p then d.2 else 0).sum

@[simp] theorem deltaFor_nil : deltaFor p [] = 0 := rfl

@[simp] theorem deltaFor_cons (d : Address × ℤ) :
    deltaFor p (d :: deltas) = (if d.1 = p then d.2 else 0) + deltaFor p deltas := by
  simp [deltaFor]

theorem deltaFor_of_notMem (h : p ∉ deltas.map Prod.fst) : deltaFor p deltas = 0 := by
  induction deltas with
  | nil => rfl
  | cons d ds ih =>
    rw [List.map_cons, List.mem_cons, not_or] at h
    rw [deltaFor_cons, if_neg (Ne.symm h.1), zero_add, ih h.2]

theorem applyDeltas_of_notMem {escrow : Address → ℤ} (h : p ∉ deltas.map Prod.fst) :
    applyDeltas escrow deltas p = escrow p := by
  induction deltas generalizing escrow with
  | nil => rfl
  | cons d ds ih =>
    rw [List.map_cons, List.mem_cons, not_or] at h
    rw [applyDeltas, List.foldl_cons, ← applyDeltas, ih h.2, addToEscrow, update_of_ne h.1]

/-- Changes of different counters that stay in range are exact. -/
theorem applyDeltas_eq {escrow : Address → ℤ} (hnodup : (deltas.map Prod.fst).Nodup)
    (hlo : i128Min ≤ escrow p + deltaFor p deltas) (hhi : escrow p + deltaFor p deltas ≤ i128Max) :
    applyDeltas escrow deltas p = escrow p + deltaFor p deltas := by
  induction deltas generalizing escrow with
  | nil => simp [applyDeltas]
  | cons d ds ih =>
    rw [List.map_cons, List.nodup_cons] at hnodup
    rw [deltaFor_cons] at hlo hhi ⊢
    rw [applyDeltas, List.foldl_cons, ← applyDeltas]
    by_cases hd : d.1 = p
    · subst hd
      rw [deltaFor_of_notMem hnodup.1, if_pos rfl, add_zero] at hlo hhi ⊢
      rw [applyDeltas_of_notMem hnodup.1, addToEscrow, update_self, saturatingAdd_eq hlo hhi]
    · have hsame : addToEscrow escrow d.1 d.2 p = escrow p := by
        rw [addToEscrow, update_of_ne (Ne.symm hd)]
      rw [if_neg hd, zero_add] at hlo hhi ⊢
      rw [← hsame] at hlo hhi ⊢
      exact ih hnodup.2 hlo hhi

/-! ## Stakes in a match -/

/-- The stake of one side, if `p` has deposited it. -/
def Match.stakeOf (m : Match) (p : Address) (side : Side) : ℤ :=
  if m.player side = p ∧ m.deposited side = true then m.stakeAmount else 0

/-- What `p` has at stake in a match that is not over. -/
def Match.stakedBy (m : Match) (p : Address) : ℤ :=
  if m.state.terminal = true then 0 else m.stakeOf p .player1 + m.stakeOf p .player2

theorem Match.stakedBy_nonneg (h : 0 ≤ m.stakeAmount) (p : Address) : 0 ≤ m.stakedBy p := by
  unfold Match.stakedBy Match.stakeOf
  split
  · rfl
  · split <;> split <;> omega

theorem Match.stakedBy_open (h : m.state.terminal = false) :
    m.stakedBy p = m.stakeOf p .player1 + m.stakeOf p .player2 := by
  rw [Match.stakedBy, if_neg (by simp [h])]

theorem Match.stakedBy_over (h : m.state.terminal = true) : m.stakedBy p = 0 := if_pos h

/-- The same deposits of the same players in a match that is open as before. -/
theorem Match.stakedBy_congr (hterms : m'.terms = m.terms)
    (hdeposited : ∀ side, m'.deposited side = m.deposited side)
    (hstate : m'.state.terminal = m.state.terminal) (p : Address) :
    m'.stakedBy p = m.stakedBy p := by
  have hstake : m'.stakeAmount = m.stakeAmount := congrArg Terms.stakeAmount hterms
  simp only [Match.stakedBy, Match.stakeOf, Match.player_of_terms hterms, hdeposited, hstate,
    hstake]

/-- A match that both players have funded. -/
theorem Match.stakedBy_funded (hstate : m.state.terminal = false)
    (hd : m.player1Deposited = true ∧ m.player2Deposited = true) (p : Address) :
    m.stakedBy p + deltaFor p m.bothDeltas = 0 := by
  have h1 : m.deposited .player1 = true := hd.1
  have h2 : m.deposited .player2 = true := hd.2
  rw [Match.stakedBy_open hstate, Match.bothDeltas, Match.stakeOf, Match.stakeOf, h1, h2]
  simp only [Match.player, and_true, deltaFor_cons, deltaFor_nil]
  split <;> split <;> omega

/-- What a cancellation takes off, if player 2 is refunded the stake. -/
theorem Match.stakedBy_refunded (hstate : m.state.terminal = false)
    (hB : m.player2Deposited = true → m.counterAmountB = m.stakeAmount) (p : Address) :
    m.stakedBy p + deltaFor p m.refundDeltas = 0 := by
  rw [Match.stakedBy_open hstate, Match.refundDeltas, Match.stakeOf, Match.stakeOf]
  cases h1 : m.player1Deposited <;> cases h2 : m.player2Deposited <;>
    simp [Match.player, Match.deposited, h1, h2] <;>
    simp only [h2, forall_const] at hB <;> split <;> try split
  all_goals omega

theorem Match.stakedBy_withDeposit {side : Side} {now : ℕ} (hstate : m.state.terminal = false)
    (hside : m.deposited side = false) (p : Address) : (m.withDeposit side now).stakedBy p =
      m.stakedBy p + deltaFor p [(m.player side, m.stakeAmount)] := by
  have hstate' : (m.withDeposit side now).state.terminal = false := by cases side <;> exact hstate
  rw [Match.stakedBy_open hstate, Match.stakedBy_open hstate', deltaFor_cons, deltaFor_nil]
  have hold : m.stakeOf p side = 0 := by simp [Match.stakeOf, hside]
  have hnew : (m.withDeposit side now).stakeOf p side =
      if m.player side = p then m.stakeAmount else 0 := by
    have hd : (m.withDeposit side now).deposited side = true := by cases side <;> rfl
    have hplayer : (m.withDeposit side now).player side = m.player side := by cases side <;> rfl
    simp only [Match.stakeOf, hd, hplayer, withDeposit_stakeAmount, and_true]
  cases side
  · have hother : (m.withDeposit .player1 now).stakeOf p .player2 = m.stakeOf p .player2 := rfl
    rw [hnew, hother, hold]
    ring
  · have hother : (m.withDeposit .player2 now).stakeOf p .player1 = m.stakeOf p .player1 := rfl
    rw [hnew, hother, hold]
    ring

/-! ## Steps -/

/-- The paths on which the counters are kept. -/
def Action.Counts (w : World) : Action → Prop
  | .cancel id => ∀ m, w.matchMap id = some m → m.player2Deposited = true →
    m.counterAmountB = m.stakeAmount
  | .recover id => ∀ m, w.matchMap id = some m →
    m.player1Deposited = false ∧ m.player2Deposited = false
  | .rollback id disputer => ∀ m, w.matchMap id = some m →
    m.rollbackVote (m.sideOf disputer).other = false
  | .stall | .resolve | .expireMany | .deposit true | .settle true => False
  | _ => True

/-- On these paths a step changes every counter by what it changes the stakes. -/
theorem MatchStep.counted {w : World} (h : MatchStep env config period i m pw a ts deltas m' pw')
    (hm : MatchSound i m pw) (hw : w.matchMap i = some m) (ha : a.Counts w)
    (p : Address) : m'.stakedBy p = m.stakedBy p + deltaFor p deltas := by
  have hplay : m.state = .active ∨ m.state = .paused → m.state.terminal = false ∧
      m.player1Deposited = true ∧ m.player2Deposited = true := by
    rintro (hs | hs) <;> exact ⟨by rw [hs]; rfl, hm.stage.funded (by simp [hs]) (by simp [hs])⟩
  cases h with
  | strayDeposit | settleHalf | strayRefund | stall | resolve => exact ha.elim
  | deposit side hs hside => exact Match.stakedBy_withDeposit (by rw [hs]; rfl) hside p
  | activate side hs hside =>
    have hactive : ((m.withDeposit side env.timestamp).activated env.timestamp).stakedBy p =
        (m.withDeposit side env.timestamp).stakedBy p := by
      refine Match.stakedBy_congr ?_ (fun side' => ?_) ?_ p
      · rfl
      · cases side' <;> rfl
      · have hpending : (m.withDeposit side env.timestamp).state = .pending := by
          cases side <;> exact hs
        rw [hpending]
        rfl
    rw [hactive, Match.stakedBy_withDeposit (by rw [hs]; rfl) hside]
  | settleNow winner hw hs =>
    obtain ⟨hopen, hd⟩ := hplay hs
    rw [Match.stakedBy_funded hopen hd]
    exact Match.stakedBy_over rfl
  | finalize hs =>
    rw [Match.stakedBy_funded (by rw [hs]; rfl) (hm.stage.funded (by simp [hs]) (by simp [hs]))]
    exact Match.stakedBy_over rfl
  | cancel haction hs =>
    rcases haction with rfl | rfl
    · rw [Match.stakedBy_refunded (by rw [hs]; rfl) (ha m hw)]
      exact Match.stakedBy_over rfl
    · exact ha.elim
  | recover hs =>
    obtain ⟨h1, h2⟩ := ha m hw
    have hnone : m.stakedBy p = 0 := by
      rw [Match.stakedBy_open (by rw [hs]; rfl)]
      simp [Match.stakeOf, Match.deposited, h1, h2]
    rw [hnone]
    exact Match.stakedBy_over rfl
  | rollback side hs hauth hvotes =>
    have hother := ha m hw
    rw [Match.sideOf_player hm.terms.players] at hother
    cases side
    · cases hother.symm.trans hvotes.2
    · cases hother.symm.trans hvotes.1
  | settleLater winner hw hs =>
    rw [deltaFor_nil, add_zero]
    refine Match.stakedBy_congr ?_ (fun side => ?_) ?_ p
    · rfl
    · cases side <;> rfl
    · rw [(hplay hs).1]
      rfl
  | pause hs | resume hs | heartbeat hs =>
    rw [deltaFor_nil, add_zero]
    refine Match.stakedBy_congr ?_ (fun side => ?_) ?_ p
    · rfl
    · cases side <;> rfl
    · rw [hs]
      first | rfl | exact congrArg MatchState.terminal hs
  | rollbackVote side | claim side =>
    rw [deltaFor_nil, add_zero]
    exact Match.stakedBy_congr (by cases side <;> rfl)
      (fun side' => by cases side <;> cases side' <;> rfl) (by cases side <;> rfl) p
  | bond => rw [deltaFor_nil, add_zero]

/-- A step changes each counter at most once. -/
theorem MatchStep.deltas_nodup (h : MatchStep env config period i m pw a ts deltas m' pw')
    (hplayers : m.player1 ≠ m.player2) : (deltas.map Prod.fst).Nodup := by
  cases h with
  | settleNow | finalize => simpa [Match.bothDeltas] using hplayers
  | cancel =>
    cases h1 : m.player1Deposited <;> cases h2 : m.player2Deposited <;>
      simp [Match.refundDeltas, h1, h2, hplayers]
  | _ => simp

/-! ## Books -/

/-- What `p` has at stake under an id. -/
def Book.stakeAt (b : Book) (p : Address) (id : ℕ) : ℤ :=
  (b.matchMap id).elim 0 fun m => m.stakedBy p

/-- What `p` has at stake in all matches that are not over. -/
def Book.stakesOf (b : Book) (p : Address) : ℤ :=
  ∑ id ∈ Finset.range b.matchCount, b.stakeAt p id

theorem Book.stakesOf_nonneg {b : Book} (hb : b.Sound) (p : Address) : 0 ≤ b.stakesOf p := by
  refine sum_nonneg fun id _ => ?_
  unfold Book.stakeAt
  cases hm : b.matchMap id with
  | none => exact le_rfl
  | some m =>
    have hpos : 1 ≤ m.stakeAmount := (hb.stored id m hm).terms.stake_pos
    exact Match.stakedBy_nonneg (by omega) p

theorem Book.stakesOf_opened (b : Book) (m : Match) (p : Address) :
    (b.opened m).stakesOf p = b.stakesOf p + m.stakedBy p := by
  rw [Book.stakesOf, opened_matchCount, sum_range_succ]
  congr 1
  · refine sum_congr rfl fun id hid => ?_
    have hne : id ≠ b.matchCount := (mem_range.mp hid).ne
    rw [Book.stakeAt, opened_matchMap, update_of_ne hne, Book.stakeAt]
  · rw [Book.stakeAt, opened_matchMap, update_self]
    rfl

theorem Book.stakesOf_moved {b : Book} (hb : b.Sound) (hm : b.matchMap i = some m)
    (l : Ledger Address) (p : Address) : (b.moved i m' pw ts deltas l).stakesOf p =
      b.stakesOf p + (m'.stakedBy p - m.stakedBy p) := by
  have hlt : i ∈ Finset.range b.matchCount := by
    rw [mem_range]
    by_contra hge
    exact absurd (hm.symm.trans (hb.free i (not_lt.mp hge))) (by simp)
  have hupdate : (b.moved i m' pw ts deltas l).stakeAt p =
      update (b.stakeAt p) i (m'.stakedBy p) := by
    funext id
    by_cases hid : id = i
    · subst hid
      rw [Book.stakeAt, moved_matchMap, update_self, update_self]
      rfl
    · rw [Book.stakeAt, moved_matchMap, update_of_ne hid, update_of_ne hid, Book.stakeAt]
  have hold : b.stakeAt p i = m.stakedBy p := by rw [Book.stakeAt, hm]; rfl
  rw [Book.stakesOf, moved_matchCount, hupdate, sum_update_of_mem hlt, Book.stakesOf,
    ← add_sum_erase _ _ hlt, sdiff_singleton_eq_erase, hold]
  ring

/-- The counters are exact. -/
def Book.Counted (b : Book) : Prop := ∀ p, b.escrow p = b.stakesOf p

theorem Book.Counted.change {w : World} {b' : Book} (hb : w.book.Sound) (h : w.book.Counted)
    (hchange : Change env config period a w.book b') (ha : a.Counts w)
    (hfits : ∀ p, b'.stakesOf p ≤ i128Max) : b'.Counted := by
  have hb' := hb.change hchange
  intro p
  have hhi := hfits p
  have hlo : i128Min ≤ b'.stakesOf p := le_trans (by decide) (stakesOf_nonneg hb' p)
  cases hchange with
  | opening =>
    rw [stakesOf_opened, opened_escrow, h p]
    simp [Match.stakedBy, Match.stakeOf, MatchParams.newMatch, Match.deposited]
  | @moving _ i m m' pw a ts deltas l hm hstep hl =>
    have hsound := hb.stored i m hm
    have hsum : (w.book.moved i m' pw ts deltas l).stakesOf p =
        w.book.escrow p + deltaFor p deltas := by
      rw [stakesOf_moved hb hm, hstep.counted hsound hm ha p, h p]
      ring
    rw [hsum] at hlo hhi ⊢
    exact applyDeltas_eq (hstep.deltas_nodup hsound.terms.players) hlo hhi

theorem Book.Counted.drift {b b' : Book} (hdrift : Drift b b') (h : b.Counted) : b'.Counted := by
  obtain ⟨⟨l, rfl⟩, -⟩ := hdrift
  exact h

/-! ## Runs -/

/-- A call that returns keeps to the paths on which the counters are kept, and everybody's
stakes fit after it. -/
def KeepsCounters (w : World) (e : Event) : Prop :=
  (match e with
    | .invoke env call => Commits env call.exec w → call.action.Counts w
    | _ => True) ∧
  ∀ p, (step w e).book.stakesOf p ≤ i128Max

theorem Call.isBatch_of_counts {w : World} {call : Call} (h : call.action.Counts w) :
    call.isBatch = false := by
  cases call <;> first | rfl | exact h.elim

/-- In every run that keeps to these paths the counter of every player is the sum of the
stakes that they have deposited in matches that are not over. -/
theorem counter_exact {w0 : World} {es : List Event} (h0 : Initial w0)
    (hal : Along step KeepsCounters w0 es) (p : Address) :
    (run step w0 es).escrow p = (run step w0 es).book.stakesOf p := by
  refine (run_book_inv (I := fun b => b.Sound ∧ b.Counted) (fun l => ⟨.empty l, fun p => rfl⟩)
    (fun hd hb => ⟨hb.1.drift hd, hb.2.drift hd⟩) ?_ h0 hal).2 p
  intro w env call b b' hP hc hbook hb hchange
  have hcounts := hP.1 hc
  obtain ⟨rfl, rfl⟩ := hbook (Call.isBatch_of_counts hcounts)
  exact ⟨hb.1.change hchange, hb.2.change hb.1 hchange hcounts hP.2⟩

/-- A bound on the stakes of a player in the only match. -/
theorem Book.stakesOf_le_one {b : Book} {c : ℤ} (hcount : b.matchCount ≤ 1) (hc : 0 ≤ c)
    (h : ∀ m ∈ b.matchMap 0, m.stakeAmount ≤ c) (p : Address) : b.stakesOf p ≤ 2 * c := by
  have hone : b.matchCount = 0 ∨ b.matchCount = 1 := by omega
  rcases hone with hone | hone
  · rw [Book.stakesOf, hone, sum_range_zero]
    omega
  · rw [Book.stakesOf, hone, sum_range_one, Book.stakeAt]
    cases hm : b.matchMap 0 with
    | none => simp [hc]
    | some m =>
      have hle := h m hm
      simp only [Option.elim_some, Match.stakedBy, Match.stakeOf]
      split
      · omega
      · split <;> split <;> omega

theorem counter_exact_fundedMatch : Initial .start ∧ Along step KeepsCounters .start fundedMatch ∧
    (run step .start fundedMatch).escrow (.ext 2) =
      (run step .start fundedMatch).book.stakesOf (.ext 2) ∧
    (run step .start fundedMatch).escrow (.ext 2) = 100 := by
  have hal : Along step KeepsCounters .start fundedMatch := by
    refine ⟨⟨fun _ => trivial, fun p => ?_⟩, ⟨fun _ => trivial, fun p => ?_⟩,
      ⟨fun _ => trivial, fun p => ?_⟩, trivial⟩ <;>
    exact (stakesOf_le_one (c := 100) (by decide +kernel) (by decide)
      (by decide +kernel) p).trans (by decide)
  exact ⟨World.start_initial, hal, counter_exact World.start_initial hal (.ext 2),
    by decide +kernel⟩

/-- Both players of match 0 vote to roll it back. -/
def rolledBack : List Event :=
  fundedMatch ++
    [.invoke (.plain [2] 0 0) (.disputeAndRollbackMatch 0 (.ext 2) [1]),
      .invoke (.plain [3] 0 0) (.disputeAndRollbackMatch 0 (.ext 3) [1])]

/-- Player 2 has their stake back, and the counter still has it. -/
theorem counter_stale : Reachable (run step .start rolledBack) ∧
    ((run step .start rolledBack).matchMap 0).map Match.state = some .cancelled ∧
    (run step .start rolledBack).book.stakesOf (.ext 2) = 0 ∧
    (run step .start rolledBack).escrow (.ext 2) = 100 ∧
    (run step .start rolledBack).ledger (.ext 4) (.ext 2) = 1000 := by
  refine ⟨⟨_, _, World.start_initial, rfl⟩, ?_⟩
  decide +kernel

end Checkmate.Escrow

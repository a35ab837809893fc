import Checkmate.Escrow.Cover

/-!
# Solvency without a dispute window

While the dispute period is zero no winner waits (`run_settled`), so a match that is over has
spent at most its pot, and the balance also covers the pots that are settled and not yet
claimed (`balance_covers_outstanding`).
-/

namespace Checkmate.Escrow

variable {env : Env} {config : ProtocolConfig} {i : ℕ} {a : Action} {m m' : Match}
  {pw pw' : Option Winner} {ts : List Transfer} {deltas : List (Address × ℤ)}

/-- Without a dispute period no winner starts to wait. -/
theorem MatchStep.pendingWinner (h : MatchStep env config 0 i m pw a ts deltas m' pw') :
    pw' = pw := by
  cases h with
  | settleLater _ _ _ hperiod => exact absurd rfl hperiod
  | _ => rfl

theorem Change.none_waiting {b b' : Book} (hchange : Change env config 0 a b b')
    (h : ∀ id, b.pendingWinner id = none) (id : ℕ) : b'.pendingWinner id = none := by
  cases hchange with
  | opening => exact h id
  | @moving _ i m m' pw a ts deltas l hm hstep hl =>
    rw [Book.moved_pendingWinner, Function.update_apply]
    split
    · exact hstep.pendingWinner.trans (h i)
    · exact h id

/-! ## Runs -/

/-- The dispute period is zero, and a cap on the protocol fee is not negative. -/
def PlainSettings (w : World) (_ : Event) : Prop :=
  w.control.getDisputePeriod = 0 ∧ ∀ cap ∈ w.control.config.fees.maxProtocolFee, 0 ≤ cap

instance : DecidableRel PlainSettings := fun _ _ => inferInstanceAs (Decidable (_ ∧ _))

theorem run_settled {w0 : World} {es : List Event} (h0 : Initial w0)
    (hal : Along step PlainSettings w0 es) :
    (run step w0 es).book.Sound ∧ (run step w0 es).book.Accounted ∧
      ∀ id, (run step w0 es).book.pendingWinner id = none := by
  refine run_book_inv (I := fun b => b.Sound ∧ b.Accounted ∧ ∀ id, b.pendingWinner id = none)
    (fun l => ⟨.empty l, .empty l, fun _ => rfl⟩) ?_ ?_ h0 hal
  · rintro b b' hd ⟨hsound, hacc, hset⟩
    refine ⟨hsound.drift hd, hacc.drift hd, ?_⟩
    obtain ⟨⟨l, rfl⟩, -⟩ := hd
    exact hset
  · rintro w env call b b' ⟨hperiod, hcap⟩ - - ⟨hsound, hacc, hset⟩ hchange
    refine ⟨hsound.change hchange, hacc.change hsound hchange ?_, ?_⟩
    · intro id m _ _ _ _
      exact ⟨hset id, .inr (.inr hcap)⟩
    · rw [hperiod] at hchange
      exact hchange.none_waiting hset

/-- The stakes that a match has taken in and not given back : one for every deposit until
it is over, then, if a result was settled, the pot less what was claimed. -/
def Match.outstanding (m : Match) (matchId : ℕ) (log : List Transfer) : ℤ :=
  match m.state with
  | .pending | .active | .paused | .pendingResult => m.funded
  | .completed =>
    if m.vestedAt.isSome = true then 2 * m.stakeAmount - released matchId m.token log else 0
  | .cancelled => 0

/-- What is outstanding in `token` on a match. -/
def World.outstanding (w : World) (token : Address) (matchId : ℕ) : ℤ :=
  match w.matchMap matchId with
  | some m => if m.token = token then m.outstanding matchId w.log else 0
  | none => 0

/-- While the dispute period is zero and every match is single-token, the contract's balance
of every token covers the outstanding stakes of all matches. -/
theorem balance_covers_outstanding {w0 : World} {es : List Event} (h0 : Initial w0)
    (hal : Along step PlainSettings w0 es)
    (hsingle : ∀ id m, (run step w0 es).matchMap id = some m → m.tokenB = none) (token : Address) :
    ∑ id ∈ Finset.range (run step w0 es).matchCount, (run step w0 es).outstanding token id ≤
      (run step w0 es).ledger token .self := by
  obtain ⟨hsound, hacc, hset⟩ := run_settled h0 hal
  have hw : Reachable (run step w0 es) := ⟨w0, es, h0, rfl⟩
  generalize run step w0 es = w at *
  refine hw.balance_covers hsingle (fun id hm => by simp [World.outstanding, hm])
    (fun id m hm htoken => by simp [World.outstanding, hm, htoken]) fun id m hm htoken => ?_
  subst htoken
  have hm' : MatchSound id m none := hset id ▸ hsound.stored id m hm
  have hspent : released id m.token w.log ≤ m.spent none :=
    hset id ▸ hacc.spent id m hm (hsingle id m hm)
  have hfunded : m.funded ≤ deposited id m.token w.log := hacc.funded id m hm
  have hle := hm'.spent_le
  simp only [World.outstanding, hm, if_true]
  unfold Match.outstanding
  cases hs : m.state
  case completed =>
    have hd := hm'.stage.funded (by simp [hs]) (by simp [hs])
    have hpot := Match.funded_of_both hd.1 hd.2
    simp only
    split <;> omega
  case cancelled =>
    simp only
    omega
  all_goals
    have hzero : m.spent none = 0 := Match.spent_eq_zero (by simp [hs])
    simp only
    omega

/-- Match 0 is settled and claimed, and match 1 is in play. -/
def claimedAndFunded : List Event := claimedOnce ++ funding 1 5 6 [49, 50, 51, 52, 53, 54, 56]

theorem balance_covers_outstanding_claimedAndFunded :
    (run step .start claimedAndFunded).outstanding (.ext 4) 1 = 200 ∧
    ∑ id ∈ Finset.range (run step .start claimedAndFunded).matchCount,
      (run step .start claimedAndFunded).outstanding (.ext 4) id ≤
        (run step .start claimedAndFunded).ledger (.ext 4) .self := by
  have hal : Along step PlainSettings .start claimedAndFunded := by decide +kernel
  have hcount : (run step .start claimedAndFunded).matchCount = 2 := by decide +kernel
  have hmatches : ∀ id < 2, ∀ m ∈ (run step .start claimedAndFunded).matchMap id,
      m.tokenB = none := by decide +kernel
  refine ⟨by decide +kernel, balance_covers_outstanding World.start_initial hal ?_ _⟩
  intro id m hm
  have hlt := Reachable.lt_matchCount ⟨_, _, World.start_initial, rfl⟩ hm
  rw [hcount] at hlt
  exact hmatches id hlt m hm

end Checkmate.Escrow

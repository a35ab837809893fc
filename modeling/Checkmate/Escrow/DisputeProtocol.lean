import Checkmate.Host.Challenge
import Checkmate.Escrow.Docket
import Checkmate.Escrow.Lifecycle

/-!
# The dispute of a match

A pending result is a claim that waits, a dispute its challenge, and `finalizeMatch` and
`resolveDisputeByVote` close it. `World.Tracks` relates what the contract stores of one match
to the state of such a claim, `Event.move` is the move that an event makes, and `step_tracks`
says that every event makes its move or none. So a run goes along a path of the claim, which
says how often and when each of the four calls succeeds, and where the bond is.
-/

namespace Checkmate.Escrow

open Function Option List

variable {env : Env} {config : ProtocolConfig} {period i id disputeId : ℕ} {a : Action}
  {m m' : Match} {w w' w1 : World} {u : Unit} {pw pw' : Option Winner} {ts : List Transfer}
  {deltas : List (Address × ℤ)} {b b' b1 : Book} {k k' : Case Address} {call : Call} {d : Dispute}
  {winner : Winner}

/-! ## Bonds in the log -/

/-- The transfers of the bond of a match, the newest first. -/
def bondLog (log : List Transfer) (matchId : ℕ) : List Transfer :=
  log.filter fun t => t.cause.matchId = matchId ∧ t.cause.leg.kind = .bond

theorem bondLog_append (ts log : List Transfer) (i : ℕ) :
    bondLog (ts ++ log) i = bondLog ts i ++ bondLog log i :=
  filter_append ts log

theorem bondLog_eq_nil (h : ∀ t ∈ ts, t.cause.leg.kind ≠ .bond) : bondLog ts i = [] := by
  simp only [bondLog, filter_eq_nil_iff, decide_eq_true_eq]
  exact fun t ht hbond => h t ht hbond.2

/-! ## Steps outside the protocol -/

/-- The actions that a pending result has a part in. -/
def Action.ofProtocol : Action → Bool
  | .settle _ | .finalize | .dispute | .resolve => true
  | _ => false

theorem Releases.bondless {kind : LegKind} {amount : ℤ} (h : Releases i m kind amount ts)
    (hkind : kind ≠ .bond) : ∀ t ∈ ts, t.cause.leg.kind ≠ .bond :=
  fun t ht => (h.cause t ht).2 ▸ hkind

theorem MatchStep.aside (h : MatchStep env config period i m pw a ts deltas m' pw')
    (ha : a.ofProtocol = false) : m.state ≠ .pendingResult ∧ m'.state ≠ .pendingResult ∧
      ∀ t ∈ ts, t.cause.leg.kind ≠ .bond := by
  cases h with
  | settleNow | settleHalf | settleLater | finalize | bond | resolve => exact Bool.noConfusion ha
  | deposit side hs | activate side hs | strayDeposit side hs =>
    cases side <;> simp [hs, Match.withDeposit, Match.setDeposited, Match.activated,
      depositTransfer, Leg.kind]
  | cancel haction hs hrel =>
    exact ⟨by simp [hs], by simp, hrel.bondless (by simp)⟩
  | strayRefund hs hrel => exact ⟨by simp [hs], by simp [hs], hrel.bondless (by simp)⟩
  | recover hs hrel => exact ⟨by simp [hs], by simp, hrel.bondless (by simp)⟩
  | pause hs | resume hs | heartbeat hs => simp [hs]
  | rollbackVote side hs => cases side <;> simp [hs, Match.voteRollback]
  | rollback side hs _ _ hrel => exact ⟨by simp [hs], by simp, hrel.bondless (by simp)⟩
  | stall winner _ hs hrel =>
    refine ⟨?_, by simp, hrel.bondless (by simp)⟩
    rcases hs with hs | hs <;> simp [hs]
  | claim side hs _ _ _ hrel =>
    refine ⟨by simp [hs], ?_, hrel.bondless (by simp)⟩
    cases side <;> simp [hs, Match.setClaimed]

/-- What a step outside the protocol leaves of a match : a pending result, the end of the
match, that no result is pending, and the bond. -/
structure Book.Stays (b b' : Book) (id : ℕ) : Prop where
  waits : ∀ m, b.matchMap id = some m → m.state = .pendingResult → b'.matchMap id = some m
  completed : ∀ m, b.matchMap id = some m → m.state = .completed →
    ∃ m', b'.matchMap id = some m' ∧ m'.state = .completed ∧ m'.terms = m.terms
  idle : (∀ m, b.matchMap id = some m → m.state ≠ .pendingResult) →
    ∀ m, b'.matchMap id = some m → m.state ≠ .pendingResult
  bonds : bondLog b'.log id = bondLog b.log id

theorem Book.Stays.refl (b : Book) (id : ℕ) : b.Stays b id :=
  ⟨fun _ hm _ => hm, fun m hm hs => ⟨m, hm, hs, rfl⟩, fun h => h, rfl⟩

theorem Book.Stays.trans (h : b.Stays b1 id) (h' : b1.Stays b' id) : b.Stays b' id where
  waits m hm hs := h'.waits m (h.waits m hm hs) hs
  completed m hm hs := by
    obtain ⟨m1, hm1, hs1, ht1⟩ := h.completed m hm hs
    obtain ⟨m', hm', hs', ht'⟩ := h'.completed m1 hm1 hs1
    exact ⟨m', hm', hs', ht'.trans ht1⟩
  idle hidle := h'.idle (h.idle hidle)
  bonds := h'.bonds.trans h.bonds

theorem Book.Stays.of_eq (hmap : b'.matchMap = b.matchMap)
    (hbonds : bondLog b'.log id = bondLog b.log id) : b.Stays b' id := by
  refine ⟨fun m hm _ => ?_, fun m hm hs => ⟨m, ?_, hs, rfl⟩, fun hidle m hm => ?_, hbonds⟩
  · rwa [hmap]
  · rwa [hmap]
  · exact hidle m (hmap ▸ hm)

theorem Book.Stays.of_ne (hne : id ≠ i) (hmap : b'.matchMap = update b.matchMap i (some m'))
    (hbonds : bondLog b'.log id = bondLog b.log id) : b.Stays b' id := by
  have hsame : b'.matchMap id = b.matchMap id := by rw [hmap, update_of_ne hne]
  refine ⟨fun m hm _ => hsame.trans hm, fun m hm hs => ⟨m, hsame.trans hm, hs, rfl⟩, ?_, hbonds⟩
  rw [hsame]
  exact fun h => h

/-- A match without a pending result that gets none. -/
theorem Book.Stays.of_update (hmap : b'.matchMap = update b.matchMap i (some m'))
    (hm : b.matchMap i = some m) (hs : m.state ≠ .pendingResult) (hs' : m'.state ≠ .pendingResult)
    (hover : m.state = .completed → m'.state = .completed ∧ m'.terms = m.terms)
    (hbonds : bondLog b'.log id = bondLog b.log id) : b.Stays b' id := by
  by_cases hid : id = i
  · subst hid
    have hm' : b'.matchMap id = some m' := by rw [hmap, update_self]
    refine ⟨fun m1 hm1 hs1 => ?_, fun m1 hm1 hs1 => ?_, fun _ m1 hm1 => ?_, hbonds⟩
    · rw [mem_unique hm1 hm] at hs1
      exact absurd hs1 hs
    · rw [mem_unique hm1 hm] at hs1 ⊢
      exact ⟨m', hm', hover hs1⟩
    · rwa [mem_unique hm1 hm']
  · exact .of_ne hid hmap hbonds

theorem Change.stays (h : Change env config period a b b') (ha : a.ofProtocol = false) (id : ℕ) :
    b.Stays b' id := by
  cases h with
  | opening p rateLedger hp hfree =>
    have hkept {m : Match} (hm : b.matchMap id = some m) :
        (b.opened (p.newMatch env b.matchCount rateLedger)).matchMap id = some m := by
      have hne : id ≠ b.matchCount := by
        rintro rfl
        cases hfree.symm.trans hm
      rwa [Book.opened_matchMap, update_of_ne hne]
    refine ⟨fun m hm _ => hkept hm, fun m hm hs => ⟨m, hkept hm, hs, rfl⟩, fun hidle m hm => ?_,
      rfl⟩
    · rcases eq_some_of_update hm with ⟨rfl, rfl⟩ | ⟨-, hm⟩
      · exact fun hs => MatchState.noConfusion hs
      · exact hidle m hm
  | moving hm hstep =>
    obtain ⟨hs, hs', hts⟩ := hstep.aside ha
    refine .of_update rfl hm hs hs' (fun hover => ?_) ?_
    · have hkept := hstep.terminal (by rw [hover]; rfl)
      rw [hkept]
      exact ⟨hover, rfl⟩
    · rw [Book.moved_log, bondLog_append, bondLog_eq_nil hts, nil_append]

theorem exec_stays (h : call.exec env w = .ok u w')
    (hw : w.control.oracle.isSome = true) (ha : call.action.ofProtocol = false) (id : ℕ) :
    w.book.Stays w'.book id := by
  by_cases hcall : call.action = .administer
  · rw [(exec_administer h hcall hw).1]
    exact .refl _ _
  · have hmany := (exec_effects h hcall).book
    generalize w'.book = b' at hmany
    induction hmany with
    | refl => exact .refl _ _
    | tail _ hone ih => exact ih.trans (hone.stays ha id)

/-! ## The claim behind a match -/

/-- A dispute as a challenge. -/
def Dispute.challenge (d : Dispute) : Challenge Address :=
  ⟨d.disputer, d.disputeBond, d.votingDeadline⟩

/-- The bond of a match on its way in. -/
def bondIn (matchId : ℕ) (token : Address) (c : Challenge Address) : Transfer :=
  ⟨token, c.challenger, .self, c.bond, ⟨matchId, .bond⟩⟩

/-- The bond of a match on its way out. -/
def bondOut (matchId : ℕ) (token : Address) (c : Challenge Address) (recipient : Address) :
    Transfer :=
  outgoing matchId .bondReturn token recipient c.bond

/-- The dispute of a match, against a bond from 1 up to the stake. -/
structure World.Disputed (w : World) (matchId : ℕ) (m : Match) (d : Dispute) : Prop where
  filed : ∃ id, w.disputes.matchDispute matchId = some id ∧ w.disputes.dispute id = some d
  matchId_eq : d.matchId = matchId
  bond_pos : 1 ≤ d.disputeBond
  bond_le : d.disputeBond ≤ max 1 m.stakeAmount

/-- What the contract stores of a match in each state of the claim. -/
def World.Tracks (w : World) (matchId : ℕ) : Case Address → Prop
  | .idle => (∀ m, w.matchMap matchId = some m → m.state ≠ .pendingResult) ∧
      w.disputes.matchDispute matchId = none ∧ bondLog w.log matchId = []
  | .waiting deadline => ∃ m, w.matchMap matchId = some m ∧ m.state = .pendingResult ∧
      w.disputes.resultDeadline matchId = some deadline ∧
      w.disputes.matchDispute matchId = none ∧ bondLog w.log matchId = []
  | .challenged c => ∃ m d, w.matchMap matchId = some m ∧ m.state = .pendingResult ∧
      w.Disputed matchId m d ∧ d.state = .active ∧ d.challenge = c ∧
      bondLog w.log matchId = [bondIn matchId m.token c]
  | .final => ∃ m, w.matchMap matchId = some m ∧ m.state = .completed ∧
      w.disputes.matchDispute matchId = none ∧ bondLog w.log matchId = []
  | .decided c recipient => ∃ m d, w.matchMap matchId = some m ∧ m.state = .completed ∧
      w.Disputed matchId m d ∧
      (d.state = .resolvedOverturned ∧ recipient = d.disputer ∨ d.state = .resolvedUpheld) ∧
      d.challenge = c ∧
      bondLog w.log matchId = [bondOut matchId m.token c recipient, bondIn matchId m.token c]

/-- Every dispute is the dispute of its match, under an id below the count. -/
def World.Filed (w : World) : Prop :=
  ∀ id d, w.disputes.dispute id = some d →
    id < w.disputes.disputeCount ∧ w.disputes.matchDispute d.matchId = some id

/-- A dispute keeps what makes it a challenge. -/
structure Dispute.Kept (d d' : Dispute) : Prop where
  matchId : d'.matchId = d.matchId
  challenge : d'.challenge = d.challenge
  state : d'.state = d.state

theorem World.Disputed.kept {d' : Dispute} (h : w.Disputed i m d) (hterms : m'.terms = m.terms)
    (hfiled : ∃ id, w'.disputes.matchDispute i = some id ∧ w'.disputes.dispute id = some d')
    (hd : d.Kept d') : w'.Disputed i m' d' := by
  have hbond : d'.disputeBond = d.disputeBond := congrArg Challenge.bond hd.challenge
  have hstake : m'.stakeAmount = m.stakeAmount := congrArg Terms.stakeAmount hterms
  exact ⟨hfiled, hd.matchId.trans h.matchId_eq, hbond ▸ h.bond_pos, hbond ▸ hstake ▸ h.bond_le⟩

/-- What leaves a match to its pending result or its end, and keeps its dispute, leaves the
claim in its state. -/
theorem World.Tracks.stays (h : w.Tracks id k) (hbook : w.book.Stays w'.book id)
    (hdeadline : w'.disputes.resultDeadline id = w.disputes.resultDeadline id)
    (hfiled : w'.disputes.matchDispute id = w.disputes.matchDispute id)
    (hdispute : ∀ j d, w.disputes.dispute j = some d → d.matchId = id →
      ∃ d', w'.disputes.dispute j = some d' ∧ d.Kept d') : w'.Tracks id k := by
  have hkept {m m' : Match} {d : Dispute} (hdisp : w.Disputed id m d)
      (hterms : m'.terms = m.terms) : ∃ d', w'.Disputed id m' d' ∧ d.Kept d' := by
    obtain ⟨j, hj, hd⟩ := hdisp.filed
    obtain ⟨d', hd', hk⟩ := hdispute j d hd hdisp.matchId_eq
    exact ⟨d', hdisp.kept hterms ⟨j, hfiled.trans hj, hd'⟩ hk, hk⟩
  cases k with
  | idle =>
    obtain ⟨hidle, hnone, hlog⟩ := h
    exact ⟨hbook.idle hidle, hfiled.trans hnone, hbook.bonds.trans hlog⟩
  | waiting =>
    obtain ⟨m, hm, hs, hline, hnone, hlog⟩ := h
    exact ⟨m, hbook.waits m hm hs, hs, hdeadline.trans hline, hfiled.trans hnone,
      hbook.bonds.trans hlog⟩
  | challenged =>
    obtain ⟨m, d, hm, hs, hdisp, hactive, rfl, hlog⟩ := h
    obtain ⟨d', hdisp', hk⟩ : ∃ d', w'.Disputed id m d' ∧ d.Kept d' := hkept hdisp rfl
    exact ⟨m, d', hbook.waits m hm hs, hs, hdisp', hk.state.trans hactive, hk.challenge,
      hbook.bonds.trans hlog⟩
  | final =>
    obtain ⟨m, hm, hs, hnone, hlog⟩ := h
    obtain ⟨m', hm', hs', -⟩ := hbook.completed m hm hs
    exact ⟨m', hm', hs', hfiled.trans hnone, hbook.bonds.trans hlog⟩
  | decided =>
    obtain ⟨m, d, hm, hs, hdisp, hstate, rfl, hlog⟩ := h
    obtain ⟨m', hm', hs', hterms⟩ := hbook.completed m hm hs
    obtain ⟨d', hdisp', hk⟩ := hkept hdisp hterms
    have htoken : m'.token = m.token := congrArg Terms.token hterms
    have hdisputer : d'.disputer = d.disputer := congrArg Challenge.challenger hk.challenge
    refine ⟨m', d', hm', hs', hdisp', ?_, hk.challenge, ?_⟩
    · rwa [hk.state, hdisputer]
    · rw [htoken]
      exact hbook.bonds.trans hlog

theorem Dispute.Kept.refl (d : Dispute) : d.Kept d := ⟨rfl, rfl, rfl⟩

theorem World.Tracks.of_disputes (h : w.Tracks id k) (hbook : w.book.Stays w'.book id)
    (hdisputes : w'.disputes = w.disputes) : w'.Tracks id k := by
  refine h.stays hbook ?_ ?_ ?_
  · rw [hdisputes]
  · rw [hdisputes]
  · rw [hdisputes]
    exact fun j d hd _ => ⟨d, hd, .refl d⟩

theorem World.Tracks.state_eq (h : w.Tracks id k) (hne : k ≠ .idle) : ∃ m, w.matchMap id = some m ∧
      m.state = if k.closed = true then .completed else .pendingResult := by
  cases k with
  | idle => exact absurd rfl hne
  | waiting | final =>
    obtain ⟨m, hm, hs, -⟩ := h
    exact ⟨m, hm, hs⟩
  | challenged | decided =>
    obtain ⟨m, _, hm, hs, -⟩ := h
    exact ⟨m, hm, hs⟩

/-- A match in play has no claim. -/
theorem World.Tracks.idle_of_playing (h : w.Tracks id k) (hm : w.matchMap id = some m)
    (hs : m.state ≠ .pendingResult) (hs' : m.state ≠ .completed) : k = .idle := by
  by_contra hne
  obtain ⟨m1, hm1, hs1⟩ := h.state_eq hne
  rw [mem_unique hm1 hm] at hs1
  split at hs1 <;> contradiction

/-! ## Results -/

/-- Results leave every claim as it is or open it. -/
structure Submits (w w' : World) : Prop where
  filed : w.Filed → w'.Filed
  tracks : ∀ {id k}, w.Tracks id k →
    w'.Tracks id k ∨ k = .idle ∧ ∃ deadline, w'.Tracks id (.waiting deadline)

theorem Submits.refl (w : World) : Submits w w := ⟨fun h => h, fun h => .inl h⟩

theorem Submits.trans {w1 w2 w3 : World} (h : Submits w1 w2) (h' : Submits w2 w3) :
    Submits w1 w3 where
  filed hf := h'.filed (h.filed hf)
  tracks hk := by
    rcases h.tracks hk with hk | ⟨rfl, deadline, hk⟩
    · exact h'.tracks hk
    · rcases h'.tracks hk with hk | ⟨heq, -⟩
      · exact .inr ⟨rfl, deadline, hk⟩
      · exact absurd heq (by simp)

theorem Submits.of_stays (hbook : ∀ id, w.book.Stays w'.book id)
    (hdisputes : w'.disputes = w.disputes) : Submits w w' where
  filed hf := by
    unfold World.Filed
    rwa [hdisputes]
  tracks hk := .inl (hk.of_disputes (hbook _) hdisputes)

section

variable (h : SettleOpen w i winner m)

include h

theorem SettleOpen.not_waiting :
    m.state ≠ .pendingResult ∧ m.state ≠ .completed := by
  rcases h.state with hs | hs <;> simp [hs]

/-- The winner is recorded and no result waits. -/
theorem SettleOpen.submits (hmap : w'.matchMap = update w.matchMap i (some m'))
    (hs : m'.state = .completed) (hlog : w'.log = w.log) (hdisputes : w'.disputes = w.disputes) :
    Submits w w' := by
  refine .of_stays (fun id => ?_) hdisputes
  have hbonds : bondLog w'.log id = bondLog w.log id := by rw [hlog]
  exact .of_update hmap h.stored h.not_waiting.1 (by simp [hs])
    (fun hover => absurd hover h.not_waiting.2) hbonds

theorem settledNow_submits :
    Submits w ((w.resulted env i winner m).settledNow env i (m.resulted env winner)) := by
  have hmap : ((w.resulted env i winner m).settledNow env i
      (m.resulted env winner)).matchMap = update w.matchMap i
        (some ((m.resulted env winner).completedAt env.sequence)) := by
    simp [World.settledNow, World.resulted]
  exact h.submits hmap rfl rfl rfl

theorem settledLater_submits {deadline : ℕ} {balance : ℤ} :
    Submits w ((w.resulted env i winner m).settledLater env i
      (m.resulted env winner) deadline balance) := by
  set w' := (w.resulted env i winner m).settledLater env i
      (m.resulted env winner) deadline balance with hw'
  have hmap : w'.matchMap = update w.matchMap i
      (some ((m.resulted env winner).withState .pendingResult)) := by
    simp [hw', World.settledLater, World.resulted]
  refine ⟨fun hf => hf, fun {id k} hk => ?_⟩
  by_cases hid : id = i
  · subst hid
    obtain rfl := hk.idle_of_playing h.stored h.not_waiting.1 h.not_waiting.2
    refine .inr ⟨rfl, deadline, (m.resulted env winner).withState .pendingResult, ?_, rfl, ?_,
      hk.2.1, hk.2.2⟩
    · rw [hmap, update_self]
    · exact update_self ..
  · refine .inl (hk.stays (.of_ne hid hmap rfl) ?_ rfl fun j d hd _ => ⟨d, hd, .refl d⟩)
    exact update_of_ne hid ..

end

theorem settleResult_submits (h : settleResult i winner env w = .ok u w') : Submits w w' := by
  obtain ⟨m, hopen, ⟨-, -, rfl⟩ | ⟨-, balance, -, -, rfl⟩⟩ := settleResult_ok_iff.mp h
  · exact settledNow_submits hopen
  · exact settledLater_submits hopen

theorem settleResult_err_submits {e : Error}
    (h : settleResult i winner env w = .err e w') : Submits w w' := by
  cases settleResult_err h with
  | rejected => exact .refl w
  | potOverflow hopen => exact settledNow_submits hopen
  | deadlineOverflow hopen => exact hopen.submits rfl rfl rfl rfl

theorem exec_submits {batch : Bool} (h : call.exec env w = .ok u w')
    (ha : call.action = .settle batch) : Submits w w' :=
  exec_settle_rel (R := Submits) (fun _ _ _ _ => .of_stays (.refl _) rfl) .trans
    settleResult_submits settleResult_err_submits h ha

/-! ## Moves -/

/-- One match makes a move, the others none. -/
structure Moves (w w' : World) (matchId : ℕ) (l : ℕ × Label Address) : Prop where
  filed : w'.Filed
  own : ∀ {k}, w.Tracks matchId k → ∃ k', Case.Move k l k' ∧ w'.Tracks matchId k'
  other : ∀ {id k}, id ≠ matchId → w.Tracks id k → w'.Tracks id k

/-- A pending result without a dispute waits. -/
theorem World.Tracks.eq_waiting (h : w.Tracks id k) (hm : w.matchMap id = some m)
    (hs : m.state = .pendingResult) (hnone : w.disputes.matchDispute id = none) :
    ∃ deadline, k = .waiting deadline ∧ w.disputes.resultDeadline id = some deadline ∧
      bondLog w.log id = [] := by
  cases k with
  | idle => exact absurd hs (h.1 m hm)
  | waiting deadline =>
    obtain ⟨-, -, -, hline, -, hlog⟩ := h
    exact ⟨deadline, rfl, hline, hlog⟩
  | challenged | decided =>
    obtain ⟨_, d, -, -, hdisp, -⟩ := h
    obtain ⟨j, hj, -⟩ := hdisp.filed
    cases hnone.symm.trans hj
  | final =>
    obtain ⟨m1, hm1, hs1, -⟩ := h
    rw [mem_unique hm1 hm, hs] at hs1
    exact MatchState.noConfusion hs1

/-- A match with an active dispute is challenged. -/
theorem World.Tracks.eq_challenged (h : w.Tracks id k)
    (hfiled : w.disputes.matchDispute id = some disputeId)
    (hd : w.disputes.dispute disputeId = some d) (hactive : d.state = .active) :
    k = .challenged d.challenge ∧ ∃ m, w.matchMap id = some m ∧ m.state = .pendingResult ∧
      w.Disputed id m d ∧ bondLog w.log id = [bondIn id m.token d.challenge] := by
  have hsame {m : Match} {d1 : Dispute} (hdisp : w.Disputed id m d1) : d1 = d := by
    obtain ⟨j, hj, hd1⟩ := hdisp.filed
    obtain rfl := mem_unique hj hfiled
    exact mem_unique hd1 hd
  cases k with
  | idle => cases h.2.1.symm.trans hfiled
  | waiting =>
    obtain ⟨_, -, -, -, hnone, -⟩ := h
    cases hnone.symm.trans hfiled
  | final =>
    obtain ⟨_, -, -, hnone, -⟩ := h
    cases hnone.symm.trans hfiled
  | challenged =>
    obtain ⟨m, d1, hm, hs, hdisp, -, rfl, hlog⟩ := h
    obtain rfl := hsame hdisp
    exact ⟨rfl, m, hm, hs, hdisp, hlog⟩
  | decided =>
    obtain ⟨m, d1, -, -, hdisp, hstate, -⟩ := h
    rw [hsame hdisp, hactive] at hstate
    rcases hstate with ⟨hstate, -⟩ | hstate <;> exact DisputeState.noConfusion hstate

theorem finalizeMatch_moves (h : finalizeMatch i env w = .ok u w') (hf : w.Filed) :
    Moves w w' i (env.sequence, .finalize) := by
  obtain ⟨m, winner, w1, ⟨hm, hs, ⟨deadline, hline, hseq⟩, hnone, -⟩, hpay, rfl⟩ :=
    finalizeMatch_ok h
  obtain ⟨ts, ⟨l, hl, rfl⟩, hrel⟩ := executePayout_ok hpay
  have hbonds (id : ℕ) : bondLog (ts ++ w.log) id = bondLog w.log id := by
    rw [bondLog_append, bondLog_eq_nil (hrel.bondless (by simp)), nil_append]
  refine ⟨hf, fun hk => ?_, fun hne hk => hk.of_disputes (.of_ne hne rfl (hbonds _)) rfl⟩
  obtain ⟨deadline', rfl, hline', hlog⟩ := hk.eq_waiting hm hs hnone
  obtain rfl := mem_unique hline' hline
  exact ⟨.final, .finalize hseq, _, update_self .., rfl, hnone, (hbonds _).trans hlog⟩

/-- A new dispute is put on file under the next id. -/
theorem World.Filed.disputing {disputer oracle : Address} {l : Ledger Address} (hf : w.Filed)
    (hnone : w.disputes.matchDispute i = none) (hd : d.matchId = i) :
    (w.disputing i disputer m d l oracle).Filed := by
  intro j d1 hd1
  change update w.disputes.dispute _ _ j = some d1 at hd1
  rcases eq_some_of_update hd1 with ⟨rfl, rfl⟩ | ⟨-, hd1⟩
  · rw [hd]
    exact ⟨Nat.lt_succ_self _, update_self ..⟩
  · obtain ⟨hlt, hfiled⟩ := hf j d1 hd1
    refine ⟨Nat.lt_succ_of_lt hlt, (update_of_ne ?_ ..).trans hfiled⟩
    rintro heq
    rw [heq, hnone] at hfiled
    exact absurd hfiled (by simp)

theorem disputeOracleResult_moves {disputer : Address} {evidenceHash : Bytes} {n : ℕ}
    (h : disputeOracleResult i disputer evidenceHash env w = .ok n w')
    (hshares : w.control.shares.Bounded) (hf : w.Filed) :
    Moves w w' i (env.sequence, .challenge) := by
  obtain ⟨m, share, l, quorum, oracle, hopen, -, -, -, -, rfl⟩ := disputeOracleResult_ok h
  have hle := bond_le (hshares.bondFor _) hopen.share_eq
  refine ⟨hf.disputing hopen.undisputed rfl, fun hk => ?_, fun {id k} hne hk => ?_⟩
  · obtain ⟨deadline, hline, hseq⟩ := hopen.early
    obtain ⟨deadline', rfl, hline', hlog⟩ :=
      hk.eq_waiting hopen.stored hopen.waits hopen.undisputed
    obtain rfl := mem_unique hline' hline
    refine ⟨_, .challenge hseq _, m, _, hopen.stored, hopen.waits,
      ⟨⟨w.disputes.disputeCount, update_self .., update_self ..⟩, rfl, le_max_right .., hle⟩, rfl,
      rfl, (filter_cons_of_pos (by simp [Leg.kind])).trans (congrArg _ hlog)⟩
  · have hbonds : bondLog (w.disputing i disputer m
        (w.newDispute env i disputer evidenceHash m share l quorum) l oracle).log id =
          bondLog w.log id :=
      filter_cons_of_neg (by simp [hne.symm])
    exact hk.stays (.of_eq rfl hbonds) rfl (update_of_ne hne ..) fun j d1 hd1 _ =>
      ⟨d1, (update_of_ne (hf j d1 hd1).1.ne ..).trans hd1, .refl d1⟩

/-- Another record of the same dispute. -/
theorem World.Filed.update {d' : Dispute} (hf : w.Filed)
    (hd : w.disputes.dispute disputeId = some d)
    (hdispute : w'.disputes.dispute = update w.disputes.dispute disputeId (some d'))
    (hmatch : d'.matchId = d.matchId) (hcount : w'.disputes.disputeCount = w.disputes.disputeCount)
    (hfiled : w'.disputes.matchDispute = w.disputes.matchDispute) : w'.Filed := by
  intro j d1 hd1
  rw [hdispute] at hd1
  rw [hcount, hfiled]
  rcases eq_some_of_update hd1 with ⟨rfl, rfl⟩ | ⟨-, hd1⟩
  · rw [hmatch]
    exact hf j d hd
  · exact hf j d1 hd1

theorem voteOnDispute_moves {voter : Address} {vote : Bool}
    (h : voteOnDispute disputeId voter vote env w = .ok u w') (hf : w.Filed)
    (hd : w.disputes.dispute disputeId = some d) : Moves w w' d.matchId (env.sequence, .vote) := by
  obtain ⟨d1, weight, hopen, -, -, rfl⟩ := voteOnDispute_ok_iff.mp h
  obtain rfl : d = d1 := mem_unique hd hopen.filed
  have hkept : d.Kept (d.withVote vote weight) := by
    cases vote <;> exact ⟨rfl, rfl, rfl⟩
  have hstays {id : ℕ} {k : Case Address} (hT : w.Tracks id k) :
      (w.polled disputeId voter vote d weight).Tracks id k := by
    refine hT.stays (.refl _ _) rfl rfl fun j d2 hd2 _ => ?_
    by_cases hj : j = disputeId
    · subst hj
      obtain rfl := mem_unique hd2 hd
      exact ⟨_, update_self .., hkept⟩
    · exact ⟨d2, (update_of_ne hj ..).trans hd2, .refl d2⟩
  refine ⟨hf.update hd rfl hkept.matchId rfl rfl, fun hT => ?_, fun _ => hstays⟩
  obtain ⟨rfl, -⟩ := hT.eq_challenged (hf _ _ hd).2 hd hopen.active
  exact ⟨_, .vote hopen.early, hstays hT⟩

theorem resolveDisputeByVote_moves
    (h : resolveDisputeByVote disputeId env w = .ok u w') (hf : w.Filed)
    (hd : w.disputes.dispute disputeId = some d) : Moves w w' d.matchId (env.sequence,
      .decide (if d.overturned then d.disputer else w.control.config.treasury)) := by
  obtain ⟨d', m, winner, w1, w2, ⟨hd', hactive, hseq, hm, hs, -, -⟩, hpay, hbond, rfl⟩ :=
    resolveDisputeByVote_ok h
  obtain rfl : d = d' := mem_unique hd hd'
  obtain ⟨ts, ⟨l, -, rfl⟩, hrel⟩ := executePayout_ok hpay
  obtain ⟨l', -, rfl⟩ := transfer_paid hbond
  have hbonds (id : ℕ) : bondLog (ts ++ w.log) id = bondLog w.log id := by
    rw [bondLog_append, bondLog_eq_nil (hrel.bondless (by simp)), nil_append]
  refine ⟨hf.update hd rfl rfl rfl rfl, fun hk => ?_, fun {id k} hne hk => ?_⟩
  · obtain ⟨rfl, m1, hm1, -, hdisp, hlog⟩ := hk.eq_challenged (hf _ _ hd).2 hd hactive
    obtain rfl := mem_unique hm1 hm
    refine ⟨_, .decide hseq _, _, _, update_self .., rfl,
      ⟨⟨disputeId, (hf _ _ hd).2, update_self ..⟩, rfl, hdisp.bond_pos, hdisp.bond_le⟩,
      ?_, rfl, ?_⟩
    · by_cases hov : d.overturned
      · exact .inl ⟨if_pos hov, if_pos hov⟩
      · exact .inr (if_neg hov)
    · refine (filter_cons_of_pos (by simp [Dispute.bondReturn, outgoing, Leg.kind])).trans
        (congrArg _ ?_)
      exact (hbonds _).trans hlog
  · refine hk.stays (.of_ne hne rfl ?_) rfl rfl fun j d1 hd1 hmatch => ⟨d1, ?_, .refl d1⟩
    · exact (filter_cons_of_neg (by simp [Dispute.bondReturn, outgoing, hne.symm])).trans
        (hbonds id)
    · have hj : j ≠ disputeId := by
        rintro rfl
        rw [mem_unique hd1 hd] at hmatch
        exact hne hmatch.symm
      exact (update_of_ne hj ..).trans hd1

/-! ## Runs -/

/-- The move that a call makes for a match. The bond goes to the disputer of an overturned
result, and else to the treasury. -/
def Call.move (matchId : ℕ) (w : World) : Call → Option (Label Address)
  | .disputeOracleResult id _ _ => if id = matchId then some .challenge else none
  | .finalizeMatch id => if id = matchId then some .finalize else none
  | .voteOnDispute disputeId _ _ => (w.disputes.dispute disputeId).bind fun d =>
      if d.matchId = matchId then some .vote else none
  | .resolveDisputeByVote disputeId => (w.disputes.dispute disputeId).bind fun d =>
      if d.matchId = matchId then
        some (.decide (if d.overturned then d.disputer else w.control.config.treasury))
      else none
  | _ => none

/-- The move that an event makes for a match, with its ledger. Only a call that returns Ok
makes one. -/
def Event.move (matchId : ℕ) (w : World) : Event → Option (ℕ × Label Address)
  | .invoke env call =>
    if Commits env call.exec w then (call.move matchId w).map (env.sequence, ·) else none
  | _ => none

/-- The state after a step from a claim in state `k` that makes the move `o`, if any. Without
a move it may open the claim. -/
structure Advances (w' : World) (matchId : ℕ) (k : Case Address)
    (o : Option (ℕ × Label Address)) : Prop where
  filed : w'.Filed
  silent : o = none →
    w'.Tracks matchId k ∨ k = .idle ∧ ∃ deadline, w'.Tracks matchId (.waiting deadline)
  moved : ∀ l, o = some l → ∃ k', Case.Move k l k' ∧ w'.Tracks matchId k'

theorem Submits.advances (h : Submits w w') (hf : w.Filed) (hk : w.Tracks i k) :
    Advances w' i k none :=
  ⟨h.filed hf, fun _ => h.tracks hk, by simp⟩

theorem Moves.advances {label : Label Address} (h : Moves w w' id (env.sequence, label))
    (hk : w.Tracks i k) :
    Advances w' i k ((if id = i then some label else none).map (env.sequence, ·)) := by
  by_cases hid : id = i
  · subst hid
    rw [if_pos rfl]
    refine ⟨h.filed, by simp, fun l hl => ?_⟩
    obtain rfl := Option.some.inj hl
    exact h.own hk
  · rw [if_neg hid]
    exact ⟨h.filed, fun _ => .inl (h.other (Ne.symm hid) hk), by simp⟩

/-- A note made after a step does not count. -/
theorem Advances.before {o : Option (ℕ × Label Address)} (h : Advances w1 i k o)
    (hbook : w'.book = w1.book) (hdisputes : w'.disputes = w1.disputes) : Advances w' i k o := by
  have hsame : Submits w1 w' := .of_stays (fun id => by rw [hbook]; exact .refl _ id) hdisputes
  have htracks {k : Case Address} (hk : w1.Tracks i k) : w'.Tracks i k :=
    hk.of_disputes (by rw [hbook]; exact .refl _ _) hdisputes
  refine ⟨hsame.filed h.filed, fun ho => (h.silent ho).imp htracks ?_, fun l hl => ?_⟩
  · rintro ⟨rfl, deadline, hk⟩
    exact ⟨rfl, deadline, htracks hk⟩
  · obtain ⟨k', hmove, hk'⟩ := h.moved l hl
    exact ⟨k', hmove, htracks hk'⟩

theorem exec_advances (h : call.exec env w = .ok u w')
    (hw : w.control.oracle.isSome = true) (hshares : w.control.shares.Bounded) (hf : w.Filed)
    (hk : w.Tracks i k) : Advances w' i k ((call.move i w).map (env.sequence, ·)) := by
  have haside (hcall : call.onDisputes = false) (ha : call.action.ofProtocol = false) :
      Advances w' i k none :=
    (Submits.of_stays (exec_stays h hw ha) ((Call.exec_frames_disputes hcall).ok h)).advances hf hk
  cases call with
  | finalizeMatch => exact (finalizeMatch_moves h hf).advances hk
  | disputeOracleResult =>
    obtain ⟨_, h⟩ := void_ok_iff.mp h
    exact (disputeOracleResult_moves h hshares hf).advances hk
  | voteOnDispute =>
    obtain ⟨d, _, hopen, -⟩ := voteOnDispute_ok_iff.mp h
    rw [Call.move, hopen.filed]
    exact (voteOnDispute_moves h hf hopen.filed).advances hk
  | resolveDisputeByVote =>
    obtain ⟨d, _, _, _, _, hopen, -⟩ := resolveDisputeByVote_ok h
    rw [Call.move, hopen.filed]
    exact (resolveDisputeByVote_moves h hf hopen.filed).advances hk
  | submitResult | submitDraw | submitResultWithOracleRecord | submitResultBatch
  | submitResultConsensus | resolveOracleDeadlock => exact (exec_submits h rfl).advances hf hk
  | _ => exact haside rfl rfl

theorem step_submits {e : Event} (he : ∀ env call, e ≠ .invoke env call) :
    Submits w (step w e) := by
  cases e with
  | invoke env call => exact absurd rfl (he env call)
  | credit | dropGuard => exact .of_stays (fun _ => .of_eq rfl rfl) rfl
  | debit =>
    simp only [step]
    split
    · exact .refl w
    · exact .of_stays (fun _ => .of_eq rfl rfl) rfl

theorem step_advances (hw : Reachable w) (hf : w.Filed) (hk : w.Tracks i k) (e : Event) :
    Advances (step w e) i k (e.move i w) := by
  cases e with
  | invoke env call =>
    by_cases hc : Commits env call.exec w
    · rw [Event.move, if_pos hc]
      obtain ⟨w', h⟩ := hc
      rw [step, invoke_of_ok h]
      have hstep := exec_advances h hw.oracle hw.shares_bounded hf (hk.of_disputes (.refl _ _) rfl)
      exact hstep.before rfl rfl
    · rw [Event.move, if_neg hc, step, invoke_of_not_commits hc]
      exact (Submits.refl w).advances hf hk
  | _ => exact (step_submits (by simp)).advances hf hk

/-- Every match of a reachable state has a claim in some state. -/
theorem Reachable.tracks (hw : Reachable w) (i : ℕ) : w.Filed ∧ ∃ k, w.Tracks i k := by
  obtain ⟨w0, es, h0, rfl⟩ := hw
  refine (run_inv (I := fun w => Reachable w ∧ w.Filed ∧ ∃ k, w.Tracks i k)
    (P := fun _ _ => True) ?_ ⟨⟨w0, [], h0, rfl⟩, ?_⟩ (along_true w0 es)).2
  · rintro w e ⟨hw, hf, k, hk⟩ -
    have hstep := step_advances hw hf hk e
    refine ⟨hw.step e, hstep.filed, ?_⟩
    cases ho : e.move i w with
    | none =>
      rcases hstep.silent ho with hk' | ⟨-, deadline, hk'⟩
      · exact ⟨k, hk'⟩
      · exact ⟨_, hk'⟩
    | some l =>
      obtain ⟨k', -, hk'⟩ := hstep.moved l ho
      exact ⟨k', hk'⟩
  · obtain ⟨oracle, admin, l, -, rfl⟩ := h0.eq_mk
    exact ⟨fun _ _ hd => absurd hd (by simp), .idle, fun _ hm => absurd hm (by simp), rfl, rfl⟩

/-- Once a result is pending, the run goes along a path of the claim. -/
theorem run_path (hw : Reachable w) (hk : w.Tracks i k) (hne : k ≠ .idle) (es : List Event) :
    ∃ k', Path Case.Move k (trace step (Event.move i) w es) k' ∧
      (run step w es).Tracks i k' ∧ k' ≠ .idle := by
  let T (w : World) (k : Case Address) : Prop := Reachable w ∧ w.Tracks i k ∧ k ≠ .idle
  have hsilent (w : World) (e : Event) (k : Case Address) (hT : T w k)
      (ho : e.move i w = none) : T (step w e) k := by
    obtain ⟨hw, hk, hne⟩ := hT
    rcases (step_advances hw (hw.tracks i).1 hk e).silent ho with hk' | ⟨heq, -⟩
    · exact ⟨hw.step e, hk', hne⟩
    · exact absurd heq hne
  have hmove (w : World) (e : Event) (k : Case Address) (l : ℕ × Label Address) (hT : T w k)
      (ho : e.move i w = some l) : ∃ k', Case.Move k l k' ∧ T (step w e) k' := by
    obtain ⟨hw, hk, -⟩ := hT
    obtain ⟨k', hmove, hk'⟩ := (step_advances hw (hw.tracks i).1 hk e).moved l ho
    exact ⟨k', hmove, hw.step e, hk', hmove.ne_idle⟩
  obtain ⟨k', hpath, -, hk'⟩ := simulates hsilent hmove es ⟨hw, hk, hne⟩
  exact ⟨k', hpath, hk'⟩

/-! ## The protocol -/

/-- The challenge of the claim is the dispute of the match. -/
theorem World.Tracks.exists_disputed {c : Challenge Address} (h : w.Tracks id k)
    (hc : k.challenge? = some c) :
    ∃ m d, w.matchMap id = some m ∧ w.Disputed id m d ∧ d.challenge = c := by
  cases k with
  | idle | waiting | final => exact absurd hc (by simp [Case.challenge?])
  | challenged | decided =>
    obtain rfl := Option.some.inj hc
    obtain ⟨m, d, hm, -, hdisp, -, hd, -⟩ := h
    exact ⟨m, d, hm, hdisp, hd⟩

theorem World.Tracks.challenge_isSome (h : w.Tracks id k) :
    k.challenge?.isSome = (w.disputes.matchDispute id).isSome := by
  cases k with
  | idle => rw [h.2.1]; rfl
  | waiting =>
    obtain ⟨_, -, -, -, hnone, -⟩ := h
    rw [hnone]
    rfl
  | final =>
    obtain ⟨_, -, -, hnone, -⟩ := h
    rw [hnone]
    rfl
  | challenged | decided =>
    obtain ⟨_, d, -, -, hdisp, -⟩ := h
    obtain ⟨j, hj, -⟩ := hdisp.filed
    rw [hj]
    rfl

/-- The dispute that a match points to exists and is about the match. -/
theorem World.Tracks.exists_filed (h : w.Tracks id k)
    (hfiled : w.disputes.matchDispute id = some disputeId) :
    ∃ m d, w.matchMap id = some m ∧ w.disputes.dispute disputeId = some d ∧
      w.Disputed id m d ∧ k.challenge? = some d.challenge := by
  have hsome : k.challenge?.isSome = true := by
    rw [h.challenge_isSome, hfiled]
    rfl
  obtain ⟨c, hc⟩ := isSome_iff_exists.mp hsome
  obtain ⟨m, d, hm, hdisp, rfl⟩ := h.exists_disputed hc
  obtain ⟨j, hj, hd⟩ := hdisp.filed
  obtain rfl := mem_unique hj hfiled
  exact ⟨m, d, hm, hd, hdisp, hc⟩

/-- A dispute on file is the challenge of the claim of its match. -/
theorem World.Tracks.of_filed (h : w.Tracks id k)
    (hfiled : w.disputes.matchDispute id = some disputeId)
    (hd : w.disputes.dispute disputeId = some d) :
    k.challenge? = some d.challenge ∧ ∃ m, w.matchMap id = some m ∧ w.Disputed id m d := by
  obtain ⟨m, d', hm, hd', hdisp, hc⟩ := h.exists_filed hfiled
  obtain rfl := mem_unique hd' hd
  exact ⟨hc, m, hm, hdisp⟩

/-- The run from `w` as a run of the protocol for match `m`, whose result is pending in `w`. -/
structure DisputeProtocol (w : World) (matchId : ℕ) (m : Match) (es : List Event) : Prop where
  /-- A dispute is raised before the result deadline. -/
  disputed : ∀ t, (t, .challenge) ∈ trace step (Event.move matchId) w es →
    ∃ deadline, w.disputes.resultDeadline matchId = some deadline ∧ t < deadline
  /-- At most one is, including one that was raised before. -/
  once : (trace step (Event.move matchId) w es).countP (fun l => l.2.challenges) +
    (w.disputes.matchDispute matchId).isSome.toNat ≤ 1
  /-- The match is finalised from the result deadline on, and only without a dispute. -/
  finalized : ∀ t, (t, .finalize) ∈ trace step (Event.move matchId) w es →
    (∃ deadline, w.disputes.resultDeadline matchId = some deadline ∧ deadline ≤ t) ∧
      (run step w es).disputes.matchDispute matchId = none
  /-- Votes are cast before the voting deadline. -/
  voted : ∀ t, (t, .vote) ∈ trace step (Event.move matchId) w es →
    ∃ id d, (run step w es).disputes.dispute id = some d ∧ d.matchId = matchId ∧
      t < d.votingDeadline
  /-- The dispute is resolved from the voting deadline on. -/
  resolved : ∀ t r, (t, .decide r) ∈ trace step (Event.move matchId) w es →
    ∃ id d, (run step w es).disputes.dispute id = some d ∧ d.matchId = matchId ∧
      d.votingDeadline ≤ t
  /-- The match has one dispute, for a bond from 1 up to the stake. -/
  bounded : ∀ id d, (run step w es).disputes.dispute id = some d → d.matchId = matchId →
    (run step w es).disputes.matchDispute matchId = some id ∧
      1 ≤ d.disputeBond ∧ d.disputeBond ≤ max 1 m.stakeAmount
  /-- Its disputer, bond and voting deadline stay. -/
  fixed : ∀ id d, w.disputes.dispute id = some d → d.matchId = matchId →
    ∃ id' d', (run step w es).disputes.dispute id' = some d' ∧ d'.matchId = matchId ∧
      d'.challenge = d.challenge
  /-- One call completes the match. -/
  completed : ∃ m', (run step w es).matchMap matchId = some m' ∧
    (m'.state = .pendingResult ∧
        (trace step (Event.move matchId) w es).countP (fun l => l.2.closes) = 0 ∨
      m'.state = .completed ∧
        (trace step (Event.move matchId) w es).countP (fun l => l.2.closes) = 1)
  /-- The contract has taken the bond of an active dispute and not paid it out. -/
  held : ∀ id d, (run step w es).disputes.dispute id = some d → d.matchId = matchId →
    d.state = .active →
      bondLog (run step w es).log matchId = [bondIn matchId m.token d.challenge]
  /-- The resolution of the dispute pays it out, and nothing else ever does. -/
  returned : ∀ pre env id d post, es = pre ++ .invoke env (.resolveDisputeByVote id) :: post →
    Commits env (Call.resolveDisputeByVote id).exec (run step w pre) →
    (run step w pre).disputes.dispute id = some d → d.matchId = matchId →
      bondLog (run step w es).log matchId =
        [bondOut matchId m.token d.challenge
            (if d.overturned then d.disputer else (run step w pre).control.config.treasury),
          bondIn matchId m.token d.challenge]

/-- A dispute that is resolved is decided, for the rest of the run. -/
theorem run_returned (hw : Reachable w) {d : Dispute} (post : List Event)
    (hc : Commits env (Call.resolveDisputeByVote disputeId).exec w)
    (hd : w.disputes.dispute disputeId = some d) :
    (run step w (.invoke env (.resolveDisputeByVote disputeId) :: post)).Tracks d.matchId
      (.decided d.challenge (if d.overturned then d.disputer else w.control.config.treasury)) := by
  obtain ⟨hf, k, hk⟩ := hw.tracks d.matchId
  have hactive : d.state = .active := by
    obtain ⟨w', h⟩ := hc
    obtain ⟨d', _, _, _, _, hopen, -⟩ := resolveDisputeByVote_ok h
    obtain rfl : d' = d := mem_unique hopen.filed hd
    exact hopen.active
  obtain ⟨rfl, -⟩ := hk.eq_challenged (hf _ _ hd).2 hd hactive
  have hmove : Event.move d.matchId w (.invoke env (.resolveDisputeByVote disputeId)) =
      some (env.sequence, .decide
        (if d.overturned then d.disputer else w.control.config.treasury)) := by
    simp [Event.move, hc, Call.move, hd]
  obtain ⟨k', hpath, hk', -⟩ := run_path hw hk (by simp)
    (.invoke env (.resolveDisputeByVote disputeId) :: post)
  rw [trace, hmove] at hpath
  obtain ⟨c, rfl, -⟩ := hpath.of_mem_decide mem_cons_self
  have hkept := hpath.challenge_kept (c := d.challenge) rfl
  obtain rfl := Option.some.inj hkept
  exact hk'

theorem dispute_protocol (hw : Reachable w) (hm : w.matchMap i = some m)
    (hs : m.state = .pendingResult) (es : List Event) : DisputeProtocol w i m es := by
  obtain ⟨hf, k, hk⟩ := hw.tracks i
  have hne : k ≠ .idle := by
    rintro rfl
    exact hk.1 m hm hs
  obtain ⟨k', hpath, hk', hne'⟩ := run_path hw hk hne es
  have hw' : Reachable (run step w es) := hw.run es
  have hf' : (run step w es).Filed := (hw'.tracks i).1
  have hopen : k.closed = false := by
    obtain ⟨m1, hm1, hs1⟩ := hk.state_eq hne
    rw [mem_unique hm1 hm, hs] at hs1
    cases hclosed : k.closed with
    | false => rfl
    | true => simp [hclosed] at hs1
  obtain ⟨m', hm', hevolves⟩ := run_evolves hw hm es
  have htoken : m'.token = m.token := congrArg Terms.token hevolves.terms
  have hstake : m'.stakeAmount = m.stakeAmount := congrArg Terms.stakeAmount hevolves.terms
  -- The dispute behind the challenge at the end of the path.
  have hdispute {c : Challenge Address} (hc : k'.challenge? = some c) :
      ∃ id d, (run step w es).disputes.dispute id = some d ∧ d.matchId = i ∧ d.challenge = c := by
    obtain ⟨_, d, -, hdisp, hd⟩ := hk'.exists_disputed hc
    obtain ⟨id, -, hid⟩ := hdisp.filed
    exact ⟨id, d, hid, hdisp.matchId_eq, hd⟩
  refine ⟨fun t ht => ?_, ?_, fun t ht => ?_, fun t ht => ?_, fun t r ht => ?_,
    fun id d hd hmatch => ?_, fun id d hd hmatch => ?_, ?_, fun id d hd hmatch hactive => ?_, ?_⟩
  · obtain ⟨deadline, rfl, hlt⟩ := hpath.of_mem_challenge ht
    obtain ⟨_, -, -, hline, -⟩ := hk
    exact ⟨deadline, hline, hlt⟩
  · have hcount := hpath.count_challenges
    rw [hk.challenge_isSome] at hcount
    rw [hcount]
    exact Bool.toNat_le _
  · obtain ⟨⟨deadline, rfl, hle⟩, rfl⟩ := hpath.of_mem_finalize ht
    obtain ⟨_, -, -, hline, -⟩ := hk
    obtain ⟨_, -, -, hnone, -⟩ := hk'
    exact ⟨⟨deadline, hline, hle⟩, hnone⟩
  · obtain ⟨c, hc, hlt⟩ := hpath.of_mem_vote ht
    obtain ⟨id, d, hd, hmatch, rfl⟩ := hdispute hc
    exact ⟨id, d, hd, hmatch, hlt⟩
  · obtain ⟨c, rfl, hle⟩ := hpath.of_mem_decide ht
    obtain ⟨id, d, hd, hmatch, rfl⟩ := hdispute rfl
    exact ⟨id, d, hd, hmatch, hle⟩
  · have hfiled := (hf' id d hd).2
    rw [hmatch] at hfiled
    obtain ⟨-, m1, hm1, hdisp⟩ := hk'.of_filed hfiled hd
    obtain rfl := mem_unique hm1 hm'
    exact ⟨hfiled, hdisp.bond_pos, hstake ▸ hdisp.bond_le⟩
  · have hfiled := (hf id d hd).2
    rw [hmatch] at hfiled
    exact hdispute (hpath.challenge_kept (hk.of_filed hfiled hd).1)
  · obtain ⟨m1, hm1, hs1⟩ := hk'.state_eq hne'
    have hcount := hpath.count_closes
    rw [hopen] at hcount
    refine ⟨m1, hm1, ?_⟩
    cases hclosed : k'.closed with
    | false =>
      rw [hclosed] at hs1 hcount
      exact .inl ⟨hs1, hcount⟩
    | true =>
      rw [hclosed] at hs1 hcount
      exact .inr ⟨hs1, hcount⟩
  · have hfiled := (hf' id d hd).2
    rw [hmatch] at hfiled
    obtain ⟨-, m1, hm1, -, -, hlog⟩ := hk'.eq_challenged hfiled hd hactive
    obtain rfl := mem_unique hm1 hm'
    rw [hlog, htoken]
  · rintro pre env id d post rfl hc hd rfl
    rw [run_append] at hm' ⊢
    obtain ⟨m1, _, hm1, -, -, -, -, hlog⟩ := run_returned (hw.run pre) post hc hd
    obtain rfl := mem_unique hm1 hm'
    rw [hlog, htoken]

/-- The dispute of match 0 is raised and voted on at ledger 0 and resolved at ledger 17280, for
its disputer. -/
theorem dispute_protocol_overturnedMatch :
    trace step (Event.move 0) (run step .start (overturnedMatch.take 5)) (overturnedMatch.drop 5) =
      [(0, .challenge), (0, .vote), (17280, .decide (.ext 3))] ∧
    ∃ m, (run step .start (overturnedMatch.take 5)).matchMap 0 = some m ∧ m.state = .pendingResult ∧
      DisputeProtocol (run step .start (overturnedMatch.take 5)) 0 m (overturnedMatch.drop 5) := by
  have hstate : ((run step .start (overturnedMatch.take 5)).matchMap 0).map Match.state =
      some .pendingResult := by decide +kernel
  obtain ⟨m, hm, hs⟩ := map_eq_some_iff.mp hstate
  have hw : Reachable (run step .start (overturnedMatch.take 5)) := ⟨_, _, World.start_initial, rfl⟩
  exact ⟨by decide +kernel, m, hm, hs, dispute_protocol hw hm hs _⟩

end Checkmate.Escrow

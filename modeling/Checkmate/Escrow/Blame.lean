import Checkmate.Host.Since
import Checkmate.Escrow.Rotation
import Checkmate.Escrow.Weights

/-!
# The oracle that a dispute blames

A result does not carry the oracle that submitted it. A dispute stores the oracle of the
settings at the time it is filed, and `markDisputeForOracleSlash` names that address
(`disputeOracle_eq_submitter`). It is the submitter where the result was submitted by the stored
oracle and no other oracle was stored while the result waited (`Steady`). A result of a
temporary oracle is blamed on the oracle it stands in for (`stored_oracle_blamed`).
-/

namespace Checkmate.Escrow

open Tx OracleEntry

variable {env : Env} {w w' w0 : World} {c c' : Control} {u : Unit} {es : List Event} {e : Event}
  {i k : ℕ} {oracle disputer : Address} {evidenceHash : Bytes}

/-! ## Who submits a result -/

/-- The entry points that settle the match. -/
def OracleEntry.settles (matchId : ℕ) : OracleEntry → Prop
  | .submitResult id _ => id = matchId
  | .submitDraw id => id = matchId
  | .submitResultBatch results => ∃ r ∈ results, r.1 = matchId
  | .registerPlayerRating .. => False

theorem OracleEntry.check_hasAuth {entry : OracleEntry} (h : entry.check oracle env c = .ok u c') :
    c.hasAuth env oracle := by
  cases entry with
  | submitResult | submitDraw =>
    simp only [check, bind_ok_iff, requireAuth_ok_iff] at h
    obtain ⟨_, _, ⟨-, hauth, -⟩, -⟩ := h
    exact hauth
  | submitResultBatch =>
    simp only [check, getBaseOracle, bind_ok_iff, get_ok_iff, orFail_ok_iff,
      reject_ok_iff, requireAuth_ok_iff] at h
    obtain ⟨_, _, ⟨_, _, ⟨rfl, rfl⟩, -, rfl⟩, _, _, ⟨-, rfl⟩, -, hauth, -⟩ := h
    exact hauth
  | registerPlayerRating =>
    simp only [check, getBaseOracle, bind_ok_iff, get_ok_iff, orFail_ok_iff,
      requireAuth_ok_iff] at h
    obtain ⟨_, _, ⟨_, _, ⟨rfl, rfl⟩, -, rfl⟩, _, _, ⟨-, hauth, -⟩, -⟩ := h
    exact hauth

theorem OracleEntry.guard_ok {entry : OracleEntry} (h : entry.guard env c = .ok u c') : c' = c := by
  cases entry with
  | registerPlayerRating => exact (pure_ok_iff.mp h).2
  | _ =>
    simp only [guard, requireNotPaused, bind_ok_iff, get_ok_iff, reject_ok_iff] at h
    obtain ⟨_, _, ⟨rfl, rfl⟩, -, rfl⟩ := h
    rfl

/-- An accepted caller is the oracle that the entry point checks for. -/
theorem OracleEntry.oracle_of_commits {entry : OracleEntry} (hw : Reachable w)
    (h : Commits env (entry.call oracle).exec w) :
    entry.oracle w.control env.timestamp = some oracle := by
  obtain ⟨w', h⟩ := h
  rw [exec_eq] at h
  simp only [bind_ok_iff, onControl_ok_iff] at h
  obtain ⟨_, _, ⟨c1, hguard, rfl⟩, _, _, ⟨c2, hcheck, rfl⟩, -⟩ := h
  obtain rfl := guard_ok hguard
  have hbase : w.fresh.control.oracle.isSome = true := hw.oracle
  exact (accepts_iff (check_hasAuth hcheck) hbase).mp ⟨c2, hcheck⟩

/-! ## The stored oracle -/

/-- The entry points that store another oracle. -/
def ControlCall.setsOracle : ControlCall → Bool
  | .updateOracle _ | .rotateOraclePermanent .. => true
  | _ => false

theorem ControlCall.exec_frames_setsOracle {call : ControlCall} (h : call.setsOracle = false) :
    Frames Control.oracle call.exec := by
  refine ControlCall.exec_frames fun k hk v => ?_
  cases k with
  | oracle => cases call <;> first | exact Bool.noConfusion hk | exact Bool.noConfusion h
  | other => exact fun c c' hcore hv => (congrArg Core.oracle hcore).trans hv
  | _ => intro _; intros; assumption

/-- No event but an accepted `updateOracle` or `rotateOraclePermanent` changes the stored
oracle. -/
theorem step_keeps_oracle (hw : Reachable w)
    (he : ∀ env k, e = .invoke env (.control k) → k.setsOracle = true →
      ¬Commits env (Call.control k).exec w) : (step w e).control.oracle = w.control.oracle := by
  refine step_keeps (P := fun w' => w'.control.oracle = w.control.oracle) rfl ?_ (fun _ => rfl)
    fun _ => rfl
  rintro env call w' rfl h
  have horacle : w'.control.oracle = w.fresh.control.oracle := by
    refine exec_control_inv (Q := fun c => c.oracle = w.fresh.control.oracle) h hw.oracle
      (fun _ _ hc => hc) (fun _ _ _ _ hc => hc) (fun k c' hk hc => ?_) rfl
    cases hset : k.setsOracle with
    | false => exact (ControlCall.exec_frames_setsOracle hset).ok hc
    | true => exact absurd ⟨w', hk ▸ h⟩ (he env k (hk ▸ rfl) hset)
  exact horacle

/-! ## From the submission to the dispute -/

/-- The match waits with a result. -/
def World.Waiting (w : World) (matchId : ℕ) : Prop :=
  (w.matchMap matchId).map Match.state = some .pendingResult

instance (w : World) (matchId : ℕ) : Decidable (w.Waiting matchId) :=
  inferInstanceAs (Decidable (_ = _))

/-- The oracle authorises the result that the match waits with from then on. -/
def SubmittedBy (matchId : ℕ) (oracle : Address) (w : World) (e : Event) : Prop :=
  ∃ env entry, e = .invoke env (OracleEntry.call oracle entry) ∧ entry.settles matchId ∧
    Commits env (entry.call oracle).exec w ∧ ¬w.Waiting matchId ∧ (step w e).Waiting matchId

/-- The match goes on waiting. -/
def StillWaiting (matchId : ℕ) (w : World) (e : Event) : Prop := (step w e).Waiting matchId

/-- Results of the match come from the stored oracle, and no other oracle is stored while one
waits. -/
structure Steady (matchId : ℕ) (w : World) (e : Event) : Prop where
  stored : ∀ env entry caller, e = .invoke env (OracleEntry.call caller entry) →
    entry.settles matchId → Commits env (entry.call caller).exec w →
    entry.oracle w.control env.timestamp = w.control.oracle
  kept : ∀ env k, e = .invoke env (.control k) → k.setsOracle = true → w.Waiting matchId →
    ¬Commits env (Call.control k).exec w

/-- The submission stores no other oracle. -/
theorem SubmittedBy.oracle_eq (hw : Reachable w) (h : SubmittedBy i oracle w e)
    (hsteady : Steady i w e) : (step w e).control.oracle = some oracle := by
  obtain ⟨env, entry, rfl, hsettles, hc, -, -⟩ := h
  have hstored := hsteady.stored env entry oracle rfl hsettles hc
  rw [step_keeps_oracle hw, ← hstored, oracle_of_commits hw hc]
  intro env' k he hset
  cases entry with
  | registerPlayerRating => exact hsettles.elim
  | _ => simp [OracleEntry.call] at he

/-- The submitter is the stored oracle as long as the result waits. -/
theorem oracle_since_submitted (h0 : Initial w0) (hsteady : Along step (Steady i) w0 es)
    (hsince : Since step (SubmittedBy i oracle) (StillWaiting i) w0 es) :
    (run step w0 es).control.oracle = some oracle ∧ (run step w0 es).Waiting i := by
  revert hsince
  refine history_inv (I := fun es =>
    Since step (SubmittedBy i oracle) (StillWaiting i) w0 es →
      (run step w0 es).control.oracle = some oracle ∧ (run step w0 es).Waiting i)
    (fun h => h.elim) (fun es e ih he h => ?_) hsteady
  have hreach : Reachable (run step w0 es) := ⟨w0, es, h0, rfl⟩
  rw [run_snoc]
  rcases since_snoc_iff.mp h with hsub | ⟨hsince, hstill⟩
  · obtain ⟨-, -, -, -, -, -, hwaiting⟩ := id hsub
    exact ⟨hsub.oracle_eq hreach he, hwaiting⟩
  · obtain ⟨horacle, hwaiting⟩ := ih hsince
    refine ⟨?_, hstill⟩
    rw [step_keeps_oracle hreach fun env k heq hset => he.kept env k heq hset hwaiting]
    exact horacle

/-! ## What a dispute stores -/

/-- A dispute is filed against an oracle. -/
structure Disputes.Accuses (d : Disputes) (k : ℕ) (oracle : Option Address) : Prop where
  filed : k < d.disputeCount
  oracle : d.disputeOracle k = oracle

theorem exec_accuses {call : Call} {accused : Option Address} (h : call.exec env w = .ok u w')
    (hw : w.disputes.Accuses k accused) : w'.disputes.Accuses k accused := by
  cases hcall : call.onPolls with
  | false =>
    have hframe := (Call.exec_frames_onPolls (f := fun d => (d.disputeCount, d.disputeOracle))
      hcall fun _ _ _ => rfl).ok h
    obtain ⟨hcount, horacle⟩ := Prod.mk.inj hframe
    exact ⟨hcount ▸ hw.filed, horacle ▸ hw.oracle⟩
  | true =>
    cases call with
    | disputeOracleResult =>
      obtain ⟨n, h⟩ := void_ok_iff.mp h
      obtain ⟨m, share, l, quorum, oracle, -, -, -, -, -, rfl⟩ := disputeOracleResult_ok h
      refine ⟨hw.filed.trans (Nat.lt_succ_self _), ?_⟩
      exact (Function.update_of_ne hw.filed.ne _ _).trans hw.oracle
    | voteOnDispute =>
      obtain ⟨d, weight, -, -, -, rfl⟩ := voteOnDispute_ok_iff.mp h
      exact ⟨hw.filed, hw.oracle⟩
    | resolveDisputeByVote =>
      obtain ⟨d, m, winner, w1, w2, -, hpay, hbond, rfl⟩ := resolveDisputeByVote_ok h
      obtain ⟨ts, ⟨l, -, rfl⟩, -⟩ := executePayout_ok hpay
      obtain ⟨l', -, rfl⟩ := transfer_paid hbond
      exact ⟨hw.filed, hw.oracle⟩
    | _ => exact Bool.noConfusion hcall

theorem run_accuses {accused : Option Address} (hw : w.disputes.Accuses k accused)
    (es : List Event) : (run step w es).disputes.Accuses k accused := by
  refine run_inv (I := fun w => w.disputes.Accuses k accused) (fun w e hw _ => ?_) hw
    (along_true w es)
  refine step_keeps (P := fun w => w.disputes.Accuses k accused) hw ?_ (fun _ => hw) fun _ => hw
  intro env call w' _ h
  have haccuses : w'.disputes.Accuses k accused := exec_accuses h hw
  exact haccuses

/-- A dispute accuses the oracle that is stored when it is filed. -/
theorem filing_accuses (h : Commits env (Call.disputeOracleResult i disputer evidenceHash).exec w) :
    (step w (.invoke env (.disputeOracleResult i disputer evidenceHash))).disputes.Accuses
      w.disputes.disputeCount w.control.oracle := by
  obtain ⟨w', h⟩ := h
  rw [step, invoke_of_ok h]
  obtain ⟨n, h⟩ := void_ok_iff.mp h
  obtain ⟨m, share, l, quorum, oracle, -, -, -, horacle, -, rfl⟩ := disputeOracleResult_ok h
  have hstored : w.control.oracle = some oracle := horacle
  rw [hstored]
  exact ⟨Nat.lt_succ_self _, Function.update_self ..⟩

/-- The oracle to slash is the one that the dispute accuses. -/
theorem markDisputeForOracleSlash_ok {amount : ℤ} {r : ℕ × Address × ℤ}
    (h : markDisputeForOracleSlash k amount env w = .ok r w') :
    w.disputes.disputeOracle k = some r.2.1 := by
  simp only [markDisputeForOracleSlash, bind_ok_iff, onControl_ok_iff, get_ok_iff,
    orFail_ok_iff, reject_ok_iff, pure_ok_iff] at h
  obtain ⟨_, _, ⟨c', -, rfl⟩, _, _, ⟨rfl, rfl⟩, d, _, ⟨-, rfl⟩, _, _, ⟨-, rfl⟩, _, _, ⟨-, rfl⟩,
    oracle, _, ⟨horacle, rfl⟩, rfl, rfl⟩ := h
  exact horacle

/-- A dispute blames the submitter of the result if and only if they are the stored oracle when
it is filed. They are if the result was theirs as the stored oracle, and no other oracle was
stored since. -/
theorem disputeOracle_eq_submitter {pre : List Event} (h0 : Initial w0)
    (hsub : Since step (SubmittedBy i oracle) (StillWaiting i) w0 pre)
    (hfile : Commits env (Call.disputeOracleResult i disputer evidenceHash).exec
      (run step w0 pre)) (post : List Event) :
    let filed := run step w0 pre
    let w := run step
      (step filed (.invoke env (.disputeOracleResult i disputer evidenceHash))) post
    (w.disputes.disputeOracle filed.disputes.disputeCount = some oracle ↔
      filed.control.oracle = some oracle) ∧
    (∀ env' amount r w', markDisputeForOracleSlash filed.disputes.disputeCount amount env' w.fresh =
      .ok r w' → (r.2.1 = oracle ↔ filed.control.oracle = some oracle)) ∧
    (Along step (Steady i) w0 pre → filed.control.oracle = some oracle) := by
  intro filed w
  have haccused : w.disputes.disputeOracle filed.disputes.disputeCount = filed.control.oracle :=
    (run_accuses (filing_accuses hfile) post).oracle
  refine ⟨by rw [haccused], fun env' amount r w' h => ?_, fun hsteady => ?_⟩
  · have hnamed : w.fresh.disputes.disputeOracle filed.disputes.disputeCount = some r.2.1 :=
      markDisputeForOracleSlash_ok h
    change w.disputes.disputeOracle filed.disputes.disputeCount = some r.2.1 at hnamed
    rw [← haccused, hnamed, Option.some_inj]
  · exact (oracle_since_submitted h0 hsteady hsub).1

theorem disputeOracle_eq_submitter_waitingMatch :
    Commits (.plain [3] 5 0) (Call.disputeOracleResult 0 (.ext 3) (List.replicate 64 49)).exec
      (run step .start waitingMatch) ∧ Along step (Steady 0) .start waitingMatch ∧
    (run step .start (waitingMatch ++ [filing, ballot])).disputes.disputeOracle 0 =
      some (.ext 0) := by
  have hfile : Commits (.plain [3] 5 0)
      (Call.disputeOracleResult 0 (.ext 3) (List.replicate 64 49)).exec
      (run step .start waitingMatch) := by decide +kernel
  have hcount : (run step .start waitingMatch).disputes.disputeCount = 0 := by decide +kernel
  have hsteady : Along step (Steady 0) .start waitingMatch := by
    refine ⟨?_, ?_, ?_, ?_, ?_, trivial⟩ <;> constructor
    case refine_5.stored =>
      rintro env entry caller he - -
      cases entry <;> simp [OracleEntry.call] at he
      obtain ⟨rfl, rfl, rfl, -⟩ := he
      decide +kernel
    all_goals
      intro env x
      cases x <;> simp [OracleEntry.call, ControlCall.setsOracle]
  have hlast : Since step (SubmittedBy 0 (.ext 0)) (StillWaiting 0) .start
      (waitingMatch.dropLast ++ [.invoke (.plain [0] 0 0) (.submitResult 0 .player1 (.ext 0))]) :=
    Since.now ⟨.plain [0] 0 0, .submitResult 0 .player1, rfl, rfl, by decide +kernel,
      by decide +kernel, by decide +kernel⟩
  have hsub : Since step (SubmittedBy 0 (.ext 0)) (StillWaiting 0) .start waitingMatch := hlast
  obtain ⟨haccused, -, hstored⟩ :=
    disputeOracle_eq_submitter World.start_initial hsub hfile [ballot]
  rw [hcount] at haccused
  exact ⟨hfile, hsteady, haccused.mpr (hstored hsteady)⟩

/-- Match 0 is funded, and the temporary oracle 5 submits a win of address 2. -/
def temporaryResult : List Event :=
  fundedMatch ++
    [.invoke (.plain [1] 0 0) (.control (.setDisputePeriod 10)),
      .invoke (.plain [1] 0 0) (.control (.rotateOracleTemporary (.ext 0) (.ext 5) 3600)),
      .invoke (.plain [5] 0 0) (.submitResult 0 .player1 (.ext 5))]

/-- The dispute is resolved once the vote is over. -/
def resolution : Event := .invoke (.plain [] 100000 0) (.resolveDisputeByVote 0)

theorem stored_oracle_blamed :
    let w := run step .start (temporaryResult ++ [filing, ballot, resolution])
    Reachable w ∧
    Since step (SubmittedBy 0 (.ext 5)) (StillWaiting 0) .start temporaryResult ∧
    Commits (.plain [3] 5 0) (Call.disputeOracleResult 0 (.ext 3) (List.replicate 64 49)).exec
      (run step .start temporaryResult) ∧
    w.disputes.disputeOracle 0 = some (.ext 0) ∧
    (markDisputeForOracleSlash 0 1 (.plain [1] 100000 0) w.fresh).value =
      some (0, .ext 0, 1) := by
  refine ⟨⟨_, _, World.start_initial, rfl⟩, ?_, by decide +kernel, by decide +kernel,
    by decide +kernel⟩
  have hsub : Since step (SubmittedBy 0 (.ext 5)) (StillWaiting 0) .start
      (temporaryResult.dropLast ++
        [.invoke (.plain [5] 0 0) (.submitResult 0 .player1 (.ext 5))]) :=
    Since.now ⟨.plain [5] 0 0, .submitResult 0 .player1, rfl, rfl, by decide +kernel,
      by decide +kernel, by decide +kernel⟩
  exact hsub

end Checkmate.Escrow

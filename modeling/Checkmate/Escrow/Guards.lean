import Mathlib.Order.Basic
import Checkmate.Host.Batch
import Checkmate.Escrow.Lifecycle

/-!
# The deposit guard

`deposit` sets a guard before it loads the match and clears it on most ways out. An error
rolls the guard back with everything else, unless the deposit is an entry of a batch. Then
two errors leave it set : a missing match and a stake outside the player's tier
(`StrandsGuard`). Along every run without such entries no guard outlives its invocation
(`guards_cleared`).
-/

namespace Checkmate.Escrow

variable {env : Env} {w w' w0 : World} {id : ℕ} {player : Address} {x : ℕ × Address}
  {entries : List (ℕ × Address)}

/-! ## Entries -/

/-- What an entry leaves behind. -/
def depositEntry (env : Env) : World → ℕ × Address → World :=
  Tx.entry (fun x => deposit x.1 x.2) env

theorem depositEntry_of_ok {u : Unit} (h : deposit x.1 x.2 env w = .ok u w') :
    depositEntry env w x = w' := by
  simp only [depositEntry, Tx.entry, h]

theorem depositEntry_of_err {e : Error} (h : deposit x.1 x.2 env w = .err e w') :
    depositEntry env w x = w' := by
  simp only [depositEntry, Tx.entry, h]

/-- A deposit that returns with the guard set : the match is missing, or its stake is
outside the player's tier. -/
def StrandsGuard (w : World) (matchId : ℕ) (player : Address) : Prop :=
  w.control.frozenPlayer player = none ∧ w.depositInProgress matchId = false ∧
    (w.matchMap matchId = none ∨ ∃ m, w.matchMap matchId = some m ∧ m.OpenFor player ∧
      w.stats.tierAllows player m.stakeAmount = false)

theorem not_strandsGuard (h : (w.matchMap id).any
    (fun m => w.stats.tierAllows player m.stakeAmount) = true) : ¬StrandsGuard w id player := by
  rintro ⟨-, -, hnone | ⟨m, hm, -, htier⟩⟩
  · simp [hnone] at h
  · simp [hm, htier] at h

theorem guarded_guards_le : (w.guarded id player false).depositInProgress ≤ w.depositInProgress :=
  update_le_self_iff.mpr (Bool.false_le _)

/-- Any other entry leaves no guard set that was not. -/
theorem depositEntry_guards (h : ¬StrandsGuard w x.1 x.2) :
    (depositEntry env w x).depositInProgress ≤ w.depositInProgress := by
  refine Tx.entry_cases (P := fun s : World => s.depositInProgress ≤ w.depositInProgress) le_rfl
    (fun w' hx => ?_) fun e w' hx => ?_
  · obtain ⟨m, l, m', ix, balance, hopen, -, -, -, rfl⟩ := deposit_ok_iff.mp hx
    rw [stored_guards hopen.unguarded]
  rcases deposit_err hx with hcheck | ⟨m, l, ix, -, -, -, -, rfl⟩
  · cases hcheck with
    | refused | blocked => exact le_rfl
    | missing hf hg hnone => exact absurd ⟨hf, hg, .inl hnone⟩ h
    | tier hf hg hm hopen ht => exact absurd ⟨hf, hg, .inr ⟨_, hm, hopen, ht⟩⟩ h
    | closed => exact guarded_guards_le
  · have hclear : (((w.staked x.1 m x.2 l).withIndex ix).withDepositGuard x.1
        false).depositInProgress = (w.guarded x.1 x.2 false).depositInProgress := by
      simp [World.staked, World.guarded]
    rw [hclear]
    exact guarded_guards_le

theorem depositBatch_guards {os : List (Option Error)} (h : depositBatch entries env w = .ok os w')
    (hal : Along (depositEntry env) (fun w x => ¬StrandsGuard w x.1 x.2) w entries) :
    w'.depositInProgress ≤ w.depositInProgress := by
  simp [depositBatch] at h
  rw [(Tx.batch_run h.2).1]
  exact run_inv (I := fun s => s.depositInProgress ≤ w.depositInProgress)
    (fun s x hs hx => (depositEntry_guards hx).trans hs) le_rfl hal

/-! ## Runs -/

/-- No entry of a batch of deposits that commits leaves its guard set. -/
def LeavesNoGuard (w : World) : Event → Prop
  | .invoke env (.depositBatch entries) =>
    Commits env (Call.depositBatch entries).exec w →
      Along (depositEntry env) (fun w x => ¬StrandsGuard w x.1 x.2) w.fresh entries
  | _ => True

theorem exec_administer_guards {call : Call} {u : Unit} (h : call.exec env w = .ok u w')
    (hcall : call.action = .administer) : w'.depositInProgress = w.depositInProgress := by
  cases call with
  | initializeContract =>
    simp [Call.exec, initializeContract] at h
    rw [h.2.2]
  | control =>
    obtain ⟨c', -, rfl⟩ := onControl_ok_iff.mp h
    rfl
  | _ => exact Action.noConfusion hcall

theorem exec_guards {call : Call} {u : Unit} (h : call.exec env w = .ok u w')
    (hcall : ∀ entries, call ≠ .depositBatch entries) :
    w'.depositInProgress ≤ w.depositInProgress := by
  by_cases hadmin : call.action = .administer
  · exact (exec_administer_guards h hadmin).le
  · refine (exec_effects h hadmin).guards fun haction => ?_
    cases call with
    | depositBatch entries => exact hcall entries rfl
    | _ => simp [Call.action] at haction

theorem step_guards {e : Event} (h : LeavesNoGuard w e) :
    (step w e).depositInProgress ≤ w.depositInProgress := by
  cases e with
  | invoke env call =>
    by_cases hc : Commits env call.exec w
    case neg => rw [step, invoke_of_not_commits hc]
    obtain ⟨w', hx⟩ := id hc
    rw [step, invoke_of_ok hx]
    change w'.depositInProgress ≤ w.fresh.depositInProgress
    by_cases hbatch : ∃ entries, call = .depositBatch entries
    · obtain ⟨entries, rfl⟩ := hbatch
      obtain ⟨os, hx⟩ := void_ok_iff.mp hx
      exact depositBatch_guards hx (h hc)
    · exact exec_guards hx (not_exists.mp hbatch)
  | debit =>
    simp only [step]
    split <;> exact le_rfl
  | credit => exact le_rfl
  | dropGuard => exact update_le_self_iff.mpr (Bool.false_le _)

theorem Initial.guards {w0 : World} (h : Initial w0) (id : ℕ) :
    w0.depositInProgress id = false := by
  obtain ⟨oracle, admin, l, -, rfl⟩ := h.eq_mk
  rfl

/-- Along every run whose batches leave no guard behind, no guard is set between two
invocations, and a deposit is refused as in the wrong state only for a match that is not
pending. -/
theorem guards_cleared {es : List Event} (h0 : Initial w0) (hal : Along step LeavesNoGuard w0 es) :
    (∀ id, (run step w0 es).depositInProgress id = false) ∧
    ∀ env id player w', deposit id player env (run step w0 es).fresh = .err .invalidState w' →
      ∃ m, (run step w0 es).matchMap id = some m ∧ m.state ≠ .pending := by
  have hclear : ∀ id, (run step w0 es).depositInProgress id = false :=
    run_inv (I := fun w => ∀ id, w.depositInProgress id = false)
      (fun w e hw he id => Bool.eq_false_of_le_false (hw id ▸ step_guards he id)) h0.guards hal
  refine ⟨hclear, fun env id player w' h => ?_⟩
  rcases deposit_err h with hcheck | ⟨m, l, ix, -, -, -, herr, -⟩
  · cases hcheck with
    | blocked hset => exact absurd hset (by simp [hclear, World.fresh])
    | closed _ hm hstate => exact ⟨_, hm, hstate rfl⟩
  · exact Error.noConfusion herr

/-- Players 2 and 3 fund match 0 in one batch. -/
def fundedTogether : List Event :=
  [.invoke (.plain [2] 0 0)
      (.createMatch (.ext 2) (.ext 3) 100 (.ext 4) [49, 50, 51, 52, 53, 54, 55] .chessDotCom),
    .invoke (.plain [2, 3] 0 0) (.depositBatch [(0, .ext 2), (0, .ext 3)])]

theorem guards_cleared_fundedTogether :
    Initial .start ∧ Along step LeavesNoGuard .start fundedTogether ∧
    ((run step .start fundedTogether).matchMap 0).map Match.state = some .active ∧
    ∀ id, (run step .start fundedTogether).depositInProgress id = false := by
  have hal : Along step LeavesNoGuard .start fundedTogether := by
    refine ⟨trivial, fun _ => ⟨?_, ?_, trivial⟩, trivial⟩ <;>
    exact not_strandsGuard (by decide +kernel)
  exact ⟨World.start_initial, hal, by decide +kernel, (guards_cleared World.start_initial hal).1⟩

/-- A batch deposits into match 0 before there is one. Then the match is created. -/
def guardedMatch : List Event :=
  [.invoke (.plain [2] 0 0) (.depositBatch [(0, .ext 2)]),
    .invoke (.plain [2] 0 0)
      (.createMatch (.ext 2) (.ext 3) 100 (.ext 4) [49, 50, 51, 52, 53, 54, 55] .chessDotCom)]

/-- The batch has returned, its guard is still set, and the first deposit into the new match
is refused. -/
theorem guard_outlives_batch : Reachable (run step .start guardedMatch) ∧
    Commits (.plain [2] 0 0) (Call.depositBatch [(0, .ext 2)]).exec .start ∧
    (run step .start guardedMatch).depositInProgress 0 = true ∧
    ((run step .start guardedMatch).matchMap 0).map Match.state = some .pending ∧
    Tx.report (fun x => deposit x.1 x.2) (.plain [2] 0 0) (run step .start guardedMatch).fresh
      (0, .ext 2) = some .invalidState := by
  refine ⟨⟨_, _, World.start_initial, rfl⟩, ?_⟩
  decide +kernel

end Checkmate.Escrow

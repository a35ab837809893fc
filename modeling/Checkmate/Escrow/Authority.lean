import Checkmate.Escrow.Runs

/-!
# Who rules the contract

Five administrative entry points are open to anyone, and they change nothing in `Control.ruled`.
The others are for the admin, or for the successor that the admin has proposed. So whatever
happens without a signature of one of the two leaves those settings as they were (`run_unsigned`).
A paused contract opens no match and records no deposit (`run_paused`).
-/

namespace Checkmate.Escrow

open Tx ControlCall

variable {env : Env} {w : World} {c c' : Control} {u : Unit} {es : List Event} {e : Event}
  {k : ControlCall}

/-- Without the rotation, which ends by itself, and the confirmation of an upgrade. -/
def Core.ruled (core : Core) : Core :=
  { core with oracleRotation := none, upgrade := { core.upgrade with confirmedBy := none } }

/-- The admin and its successor, the oracle, the shares, the approved oracles, the installed and
the scheduled code, whether the contract is paused, the fees and the registries. -/
def Control.ruled (c : Control) :
    Core × (Option ProtocolConfig × Option ℕ × List FeeTier) × Registries :=
  (c.core.ruled, c.fees, c.registries)

/-- The admin or its proposed successor has signed. -/
def Control.Signed (c : Control) (env : Env) : Prop :=
  ∃ a ∈ env.auths, c.admin = some a ∨ c.pendingAdmin.any (·.pendingAdmin = a) = true

def ControlCall.isOpen : ControlCall → Bool
  | .confirmUpgrade _ | .getOracle | .finalizeTempOracleRotation | .setPreferredPayoutToken ..
  | .registerPlayerRating .. => true
  | _ => false

theorem ControlCall.exec_ruled (hk : k.isOpen = true) (h : k.exec env c = .ok u c') :
    c'.ruled = c.ruled := by
  cases k with
  | confirmUpgrade =>
    simp [ControlCall.exec, Escrow.confirmUpgrade] at h
    obtain ⟨-, -, rfl⟩ := h
    rfl
  | getOracle | finalizeTempOracleRotation | setPreferredPayoutToken | registerPlayerRating =>
    refine (exec_maintains_parts (Q := fun c' => c'.ruled = c.ruled) ?_ fun k hne hk => ?_).ok rfl h
    · intro c c' hcore hfees hregistries hc
      rwa [Control.ruled, hcore, hfees rfl, hregistries rfl]
    · cases k with
      | other => exact absurd rfl hne
      | rotation => exact fun _ _ hc => hc
      | _ => exact Bool.noConfusion hk
  | _ => exact Bool.noConfusion hk

theorem signed_of_requireAdmin {f : Address → ControlTx Unit}
    (h : (requireAdmin >>= f) env c = .ok u c') : c.Signed env := by
  obtain ⟨admin, _, hadmin, -⟩ := bind_ok_iff.mp h
  obtain ⟨hadmin, hmem, -⟩ := requireAdmin_ok_iff.mp hadmin
  exact ⟨admin, hmem, .inl hadmin⟩

theorem signed_of_requireCaller {caller : Address} {f : Unit → ControlTx Unit}
    (h : (requireCaller caller >>= f) env c = .ok u c') : c.Signed env := by
  obtain ⟨_, _, hcaller, -⟩ := bind_ok_iff.mp h
  obtain ⟨hadmin, hmem, -⟩ := requireCaller_ok_iff.mp hcaller
  exact ⟨caller, hmem, .inl hadmin⟩

theorem ControlCall.exec_signed (hk : k.isOpen = false) (h : k.exec env c = .ok u c') :
    c.Signed env := by
  cases k with
  | acceptAdmin =>
    simp [ControlCall.exec, Escrow.acceptAdmin, getAdmin] at h
    obtain ⟨p, hp, ⟨hmem, -⟩, -⟩ := h
    exact ⟨p.pendingAdmin, hmem, .inr (by simp [hp])⟩
  | transferAdmin =>
    simp [ControlCall.exec, Escrow.transferAdmin, getAdmin] at h
    obtain ⟨⟨hmem, -⟩, -, hadmin, -⟩ := h
    exact ⟨_, hmem, .inl hadmin⟩
  | _ =>
    first
      | exact Bool.noConfusion hk
      | exact signed_of_requireAdmin h
      | exact signed_of_requireCaller h

/-- Neither the admin nor its proposed successor signs. -/
def Unsigned (w : World) (e : Event) : Prop :=
  ∀ env call, e = .invoke env call → ¬w.control.Signed env

theorem step_unsigned (hw : w.control.oracle.isSome = true) (he : Unsigned w e) :
    (step w e).control.ruled = w.control.ruled := by
  refine step_keeps (P := fun w' => w'.control.ruled = w.control.ruled) rfl ?_ (fun _ => rfl)
    fun _ => rfl
  intro env call w' hcall h
  have hkept : w'.control.ruled = w.control.ruled := by
    refine exec_control_inv (Q := fun c => c.ruled = w.control.ruled) h hw (fun _ _ hc => hc)
      (fun _ _ _ _ hc => hc) (fun k c' _ hc => ?_) rfl
    cases hk : k.isOpen with
    | true => exact exec_ruled (c := w.control.fresh) hk hc
    | false => exact absurd (exec_signed (c := w.control.fresh) hk hc) (he env call hcall)
  exact hkept

/-- As long as neither the admin nor its proposed successor signs, every ruled setting stays as it
is, whatever else is invoked. -/
theorem run_unsigned (hw : Reachable w) (hes : Along step Unsigned w es) :
    (run step w es).control.ruled = w.control.ruled :=
  (run_inv (I := fun w' => w'.control.oracle.isSome = true ∧ w'.control.ruled = w.control.ruled)
    (fun _ e hw' he => ⟨step_oracle hw'.1 e, (step_unsigned hw'.1 he).trans hw'.2⟩)
    ⟨hw.oracle, rfl⟩ hes).2

/-- The admin 1 proposes 5 as its successor, and 6 tries to take over. -/
theorem run_unsigned_stranger :
    let w := run step .start [.invoke (.plain [1] 0 0) (.control (.proposeAdmin (.ext 5)))]
    (run step w [.invoke (.plain [6] 0 0) (.control .acceptAdmin)]).control.ruled =
      w.control.ruled := by
  intro w
  have hsigned : ¬w.control.Signed (.plain [6] 0 0) := by
    unfold Control.Signed
    decide +kernel
  refine run_unsigned ⟨_, _, World.start_initial, rfl⟩ ⟨fun env call he => ?_, trivial⟩
  rwa [← (Event.invoke.inj he).1]

/-! ## Pausing -/

/-- How many matches there are, and which stakes are in. -/
def Book.intake (b : Book) : ℕ × (ℕ → Option (Bool × Bool)) :=
  (b.matchCount, fun id => (b.matchMap id).map fun m => (m.player1Deposited, m.player2Deposited))

theorem createMatchInternal_unpaused {p : MatchParams} {n : ℕ} {w' : World}
    (h : createMatchInternal p env w = .ok n w') : w.control.paused = false := by
  simp only [createMatchInternal, bind_ok_iff, ask_ok_iff] at h
  obtain ⟨_, _, ⟨rfl, rfl⟩, _, w1, hauth, _, w2, hparams, -⟩ := h
  obtain ⟨-, c, hc, rfl⟩ := authorizeCreation_ok hauth
  simp [checkParams] at hparams
  exact (congrArg Control.paused hc).symm.trans hparams.1

/-- A paused contract refuses new matches and deposits. -/
theorem unpaused_of_commits {call : Call} (hc : Commits env call.exec w)
    (hcall : call.action = .create ∨ ∃ batch, call.action = .deposit batch) :
    w.control.paused = false := by
  obtain ⟨w', h⟩ := hc
  cases call with
  | createMatch | createMatchTournament | createMatchWithConversion | createMatchWithReferrer =>
    obtain ⟨_, h⟩ := void_ok_iff.mp h
    exact createMatchInternal_unpaused (w := w.fresh) h
  | deposit =>
    obtain ⟨_, _, hcheck, -⟩ := bind_ok_iff.mp h
    exact (checkDeposit_ok_iff.mp hcheck).1.unpaused
  | depositBatch =>
    obtain ⟨_, h⟩ := void_ok_iff.mp h
    obtain ⟨_, _, hguard, -⟩ := bind_ok_iff.mp h
    obtain ⟨_, hguard, -⟩ := onControl_ok_iff.mp hguard
    exact (requireNotPaused_ok_iff.mp hguard).1
  | _ => rcases hcall with hcall | ⟨_, hcall⟩ <;> exact Action.noConfusion hcall

theorem Change.intake {config : ProtocolConfig} {period : ℕ} {a : Action} {b b' : Book}
    (h : Change env config period a b b') (hcreate : a ≠ .create)
    (hdeposit : ∀ batch, a ≠ .deposit batch) : b'.intake = b.intake := by
  cases h with
  | opening => exact absurd rfl hcreate
  | @moving _ matchId m m' _ _ _ _ _ hm hstep =>
    have hm' : (m'.player1Deposited, m'.player2Deposited) =
        (m.player1Deposited, m.player2Deposited) := by
      cases hstep with
      | deposit | activate => exact absurd rfl (hdeposit _)
      | rollbackVote side | rollback side | claim side => cases side <;> rfl
      | _ => rfl
    refine congrArg (_, ·) (funext fun id => ?_)
    by_cases hid : id = matchId
    · subst hid
      simp [hm, hm']
    · simp [hid]

/-- While the contract is paused no match is opened and no deposit is recorded, whatever is
invoked. -/
theorem run_paused (hw : Reachable w)
    (hes : Along step (fun w _ => w.control.paused = true) w es) :
    (run step w es).book.intake = w.book.intake := by
  refine (run_inv (I := fun w' => w'.control.oracle.isSome = true ∧
    w'.book.intake = w.book.intake) (fun w' e hw' hp => ⟨step_oracle hw'.1 e, ?_⟩)
    ⟨hw.oracle, rfl⟩ hes).2
  have hdrift := step_drift (w := w') (e := e)
  cases e with
  | invoke env call =>
    refine invoke_inv (I := fun b => b.intake = w.book.intake) hw'.1 hw'.2 ?_
    intro b b' hc _ hb hchange
    have hother := mt (unpaused_of_commits hc) (by simp [hp])
    exact (hchange.intake (fun h => hother (.inl h)) fun _ h => hother (.inr ⟨_, h⟩)).trans hb
  | _ =>
    obtain ⟨l, hl⟩ := (hdrift (by simp)).1
    exact (congrArg Book.intake hl).trans hw'.2

/-- The contract is paused, and a player tries to open a match. -/
theorem run_paused_createMatch :
    let w := run step .start [.invoke (.plain [1] 0 0) (.control (.pause (.ext 1)))]
    (run step w (funding 0 2 3 [])).book.intake = w.book.intake := by
  intro w
  refine run_paused ⟨_, _, World.start_initial, rfl⟩ ?_
  decide +kernel

end Checkmate.Escrow

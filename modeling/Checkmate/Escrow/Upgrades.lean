import Checkmate.Host.Since
import Checkmate.Escrow.Runs

/-!
# Upgrades of the contract

An upgrade is scheduled by the admin, confirmed, and executed by the admin once the review
period is over and the contract is paused. Whatever else happens, a pending upgrade belongs to
the last accepted `scheduleUpgrade`, nothing was cancelled or executed since, and a stored
confirmation was given since (`Pending`).

`confirmUpgrade` takes any address, the admin that scheduled the upgrade included. Where it is
always given by another address, an execution takes two keys (`upgrade_two_keys`).
-/

namespace Checkmate.Escrow

open Tx Option

variable {env : Env} {w w' w0 : World} {c c' : Control} {u : Unit} {es : List Event} {e : Event}
  {admin upgrader : Address} {hash : Bytes} {t : ℕ}

/-! ## The entry points -/

theorem scheduleUpgrade_ok (h : scheduleUpgrade hash env c = .ok u c') :
    ∃ admin, c.admin = some admin ∧ c.upgradeScheduledAt = none ∧
      c'.upgrade = ⟨some env.sequence, some hash, c.upgradeConfirmedBy, c.wasmHash⟩ := by
  simp only [scheduleUpgrade, bind_ok_iff, ask_ok_iff, requireAdmin_ok_iff, get_ok_iff,
    reject_ok_iff, modify_ok_iff] at h
  obtain ⟨_, _, ⟨rfl, rfl⟩, admin, _, ⟨hadmin, -, -, rfl⟩, _, _, ⟨rfl, rfl⟩, _, _, ⟨hnone, rfl⟩,
    rfl⟩ := h
  exact ⟨admin, hadmin, by simpa using hnone, rfl⟩

theorem cancelUpgrade_ok (h : cancelUpgrade env c = .ok u c') :
    c'.upgrade = ⟨none, none, none, c.wasmHash⟩ := by
  simp only [cancelUpgrade, bind_ok_iff, requireAdmin_ok_iff, get_ok_iff, reject_ok_iff,
    modify_ok_iff] at h
  obtain ⟨admin, _, ⟨-, -, -, rfl⟩, _, _, ⟨rfl, rfl⟩, _, _, ⟨-, rfl⟩, rfl⟩ := h
  rfl

theorem confirmUpgrade_ok (h : confirmUpgrade upgrader env c = .ok u c') :
    c.upgradeScheduledAt.isSome = true ∧
      c'.upgrade = { c.upgrade with confirmedBy := some upgrader } := by
  simp only [confirmUpgrade, bind_ok_iff, requireAuth_ok_iff, get_ok_iff, reject_ok_iff,
    modify_ok_iff] at h
  obtain ⟨_, _, ⟨-, -, rfl⟩, _, _, ⟨rfl, rfl⟩, _, _, ⟨hsome, rfl⟩, rfl⟩ := h
  exact ⟨isSome_iff_ne_none.mpr (by simpa using hsome), rfl⟩

theorem executeUpgrade_ok (h : executeUpgrade env c = .ok u c') :
    c.paused = true ∧ ∃ scheduledAt upgrader hash, c.upgradeScheduledAt = some scheduledAt ∧
      saturatingAddU u32Max scheduledAt upgradeReviewPeriodLedgers ≤ env.sequence ∧
      c.upgradeConfirmedBy = some upgrader ∧ c.pendingUpgradeHash = some hash ∧
      c'.upgrade = ⟨none, none, none, some hash⟩ := by
  simp only [executeUpgrade, bind_ok_iff, ask_ok_iff, requireAdmin_ok_iff, get_ok_iff,
    reject_ok_iff, orFail_ok_iff, modify_ok_iff] at h
  obtain ⟨_, _, ⟨rfl, rfl⟩, admin, _, ⟨-, -, -, rfl⟩, _, _, ⟨rfl, rfl⟩, _, _, ⟨hpaused, rfl⟩,
    scheduledAt, _, ⟨hat, rfl⟩, _, _, ⟨hreview, rfl⟩, _, _, ⟨hconfirmed, rfl⟩, hash, _,
    ⟨hhash, rfl⟩, rfl⟩ := h
  obtain ⟨upgrader, hupgrader⟩ := ne_none_iff_exists'.mp fun hnone =>
    hconfirmed (isNone_iff_eq_none.mpr hnone)
  refine ⟨?_, scheduledAt, upgrader, hash, hat, not_lt.mp hreview, hupgrader, hhash, rfl⟩
  simpa using hpaused

/-- All other entry points leave upgrades alone. -/
theorem exec_upgrade {call : Call} (hcall : ∀ k, call = .control k → k.onUpgrade = false)
    (h : call.exec env w = .ok u w') : w'.control.upgrade = w.control.upgrade := by
  cases call with
  | initializeContract =>
    simp [Call.exec, initializeContract] at h
    obtain ⟨-, -, rfl⟩ := h
    rfl
  | control k =>
    obtain ⟨c', hc, rfl⟩ := onControl_ok_iff.mp h
    exact (ControlCall.exec_frames_upgrade (hcall k rfl)).ok hc
  | _ =>
    refine Maintains.ok (P := fun w' => w'.control.upgrade = w.control.upgrade)
      (Call.exec_maintains fun k hk => Write.keeps_control
        (Q := fun c => c.upgrade = w.control.upgrade) ?_ (fun _ _ hc => hc)
        fun _ _ _ _ hc => hc) rfl h
    rintro rfl
    exact Bool.noConfusion hk

/-! ## What happened to the pending upgrade -/

/-- The admin schedules an upgrade at a ledger. -/
def Schedules (admin : Address) (hash : Bytes) (t : ℕ) (w : World) (e : Event) : Prop :=
  ∃ env, e = .invoke env (.control (.scheduleUpgrade hash)) ∧ env.sequence = t ∧
    w.control.admin = some admin ∧ Commits env (Call.control (.scheduleUpgrade hash)).exec w

/-- An upgrade is confirmed. -/
def Confirms (upgrader : Address) (w : World) (e : Event) : Prop :=
  ∃ env, e = .invoke env (.control (.confirmUpgrade upgrader)) ∧
    Commits env (Call.control (.confirmUpgrade upgrader)).exec w

/-- The entry points that begin or end an upgrade. -/
def ControlCall.reschedules : ControlCall → Bool
  | .scheduleUpgrade _ | .cancelUpgrade | .executeUpgrade => true
  | _ => false

/-- No upgrade is scheduled, cancelled or executed. -/
def Undisturbed (w : World) (e : Event) : Prop :=
  ∀ env k, e = .invoke env (.control k) → k.reschedules = true →
    ¬Commits env (Call.control k).exec w

/-- Whoever confirms a pending upgrade is not the admin that scheduled it. -/
def SecondKey (w0 : World) (es : List Event) : Prop :=
  ∀ pre e, pre ++ [e] <+: es → ∀ admin hash t upgrader,
    Since step (Schedules admin hash t) Undisturbed w0 pre →
    Confirms upgrader (run step w0 pre) e → upgrader ≠ admin

/-- A pending upgrade is the last one scheduled, and its confirmation was given since. -/
structure Pending (w0 : World) (es : List Event) : Prop where
  confirmed : (run step w0 es).control.upgradeScheduledAt = none →
    (run step w0 es).control.upgradeConfirmedBy = none
  scheduled : ∀ t, (run step w0 es).control.upgradeScheduledAt = some t →
    ∃ admin hash, (run step w0 es).control.pendingUpgradeHash = some hash ∧
      Since step (Schedules admin hash t) Undisturbed w0 es ∧
      ∀ upgrader, (run step w0 es).control.upgradeConfirmedBy = some upgrader →
        Since step (Confirms upgrader) Undisturbed w0 es ∧ (SecondKey w0 es → upgrader ≠ admin)

theorem SecondKey.of_snoc (h : SecondKey w0 (es ++ [e])) : SecondKey w0 es :=
  fun pre e' hpre => h pre e' (hpre.trans (List.prefix_append es [e]))

/-- Where no upgrade is pending. -/
theorem Pending.of_none (hat : (run step w0 es).control.upgradeScheduledAt = none)
    (hby : (run step w0 es).control.upgradeConfirmedBy = none) : Pending w0 es :=
  ⟨fun _ => hby, fun _ ht => nomatch hat.symm.trans ht⟩

/-- What begins and ends no upgrade, and leaves the pending one as it is. -/
theorem Pending.later (h : Pending w0 es) (he : Undisturbed (run step w0 es) e)
    (hkeep : (step (run step w0 es) e).control.upgrade = (run step w0 es).control.upgrade) :
    Pending w0 (es ++ [e]) := by
  have hat := congrArg Upgrade.scheduledAt hkeep
  have hhash := congrArg Upgrade.hash hkeep
  have hby := congrArg Upgrade.confirmedBy hkeep
  simp only [Control.upgrade] at hat hhash hby
  constructor
  · rw [run_snoc, hat, hby]
    exact h.confirmed
  · rw [run_snoc, hat, hhash, hby]
    intro t ht
    obtain ⟨admin, hash, hpending, hsince, hconfirmed⟩ := h.scheduled t ht
    refine ⟨admin, hash, hpending, hsince.later he, fun upgrader hupgrader => ?_⟩
    obtain ⟨hconfirm, hne⟩ := hconfirmed upgrader hupgrader
    exact ⟨hconfirm.later he, fun hkeys => hne hkeys.of_snoc⟩

/-- The pending upgrade after an accepted call. -/
theorem run_upgrade_of_ok {k : ControlCall}
    (h : (Call.control k).exec env (run step w0 es).fresh = .ok () w') :
    ∃ c', k.exec env (run step w0 es).control.fresh = .ok () c' ∧
      (run step w0 (es ++ [.invoke env (.control k)])).control.upgrade = c'.upgrade := by
  obtain ⟨c', hc, rfl⟩ := onControl_ok_iff.mp h
  refine ⟨c', hc, ?_⟩
  rw [run_snoc, step, invoke_of_ok h]
  rfl

theorem Pending.schedule (h : Pending w0 es)
    (hc : Commits env (Call.control (.scheduleUpgrade hash)).exec (run step w0 es)) :
    Pending w0 (es ++ [.invoke env (.control (.scheduleUpgrade hash))]) := by
  obtain ⟨w', hexec⟩ := id hc
  obtain ⟨c', hcontrol, hstep⟩ := run_upgrade_of_ok hexec
  obtain ⟨admin, hadmin, hnone, hupgrade⟩ := scheduleUpgrade_ok hcontrol
  rw [hupgrade] at hstep
  have hat := congrArg Upgrade.scheduledAt hstep
  have hhash := congrArg Upgrade.hash hstep
  have hby := (congrArg Upgrade.confirmedBy hstep).trans (h.confirmed hnone)
  refine ⟨fun _ => hby, fun t ht => ?_⟩
  obtain rfl := mem_unique hat ht
  exact ⟨admin, hash, hhash, .now ⟨env, rfl, rfl, hadmin, hc⟩,
    fun upgrader hupgrader => nomatch hby.symm.trans hupgrader⟩

theorem Pending.confirm (h : Pending w0 es)
    (hc : Commits env (Call.control (.confirmUpgrade upgrader)).exec (run step w0 es)) :
    Pending w0 (es ++ [.invoke env (.control (.confirmUpgrade upgrader))]) := by
  obtain ⟨w', hexec⟩ := id hc
  obtain ⟨c', hcontrol, hstep⟩ := run_upgrade_of_ok hexec
  obtain ⟨hsome, hupgrade⟩ := confirmUpgrade_ok hcontrol
  rw [hupgrade] at hstep
  have hat := congrArg Upgrade.scheduledAt hstep
  have hhash := congrArg Upgrade.hash hstep
  have hby := congrArg Upgrade.confirmedBy hstep
  have hcalm : Undisturbed (run step w0 es)
      (.invoke env (.control (.confirmUpgrade upgrader))) := by
    intro env' k hk hresch
    obtain rfl := Call.control.inj (Event.invoke.inj hk).2
    exact Bool.noConfusion hresch
  obtain ⟨t, ht⟩ := isSome_iff_exists.mp hsome
  obtain ⟨admin, hash, hpending, hsince, -⟩ := h.scheduled t ht
  refine ⟨fun hnone => absurd (ht.symm.trans (hat.symm.trans hnone)) (by simp), fun t' ht' => ?_⟩
  obtain rfl := Option.some.inj (ht.symm.trans (hat.symm.trans ht'))
  refine ⟨admin, hash, hhash.trans hpending, hsince.later hcalm, fun upgrader' hupgrader' => ?_⟩
  obtain rfl := mem_unique hby hupgrader'
  exact ⟨.now ⟨env, rfl, hc⟩, fun hkeys =>
    hkeys es _ List.prefix_rfl admin hash t upgrader hsince ⟨env, rfl, hc⟩⟩

/-- An upgrade that is cancelled or executed is not pending. -/
theorem Pending.finish {k : ControlCall} (hc : Commits env (Call.control k).exec (run step w0 es))
    (hdone : ∀ c', k.exec env (run step w0 es).control.fresh = .ok () c' →
      c'.upgrade.scheduledAt = none ∧ c'.upgrade.confirmedBy = none) :
    Pending w0 (es ++ [.invoke env (.control k)]) := by
  obtain ⟨w', hexec⟩ := hc
  obtain ⟨c', hcontrol, hstep⟩ := run_upgrade_of_ok hexec
  obtain ⟨hat, hby⟩ := hdone c' hcontrol
  rw [← hstep] at hat hby
  exact .of_none hat hby

theorem Pending.step (h : Pending w0 es) (e : Event) : Pending w0 (es ++ [e]) := by
  by_cases haccepted : ∃ env k, e = .invoke env (.control k) ∧ k.onUpgrade = true ∧
      Commits env (Call.control k).exec (run Escrow.step w0 es)
  · obtain ⟨env, k, rfl, hk, hc⟩ := haccepted
    cases k with
    | scheduleUpgrade => exact h.schedule hc
    | confirmUpgrade => exact h.confirm hc
    | cancelUpgrade =>
      refine .finish hc fun c' hexec => ?_
      rw [cancelUpgrade_ok hexec]
      exact ⟨rfl, rfl⟩
    | executeUpgrade =>
      refine .finish hc fun c' hexec => ?_
      obtain ⟨-, _, _, _, -, -, -, -, hupgrade⟩ := executeUpgrade_ok hexec
      rw [hupgrade]
      exact ⟨rfl, rfl⟩
    | _ => exact Bool.noConfusion hk
  · refine h.later (fun env k hk hresch hc => haccepted ⟨env, k, hk, ?_, hc⟩) ?_
    · cases k <;> first | rfl | exact Bool.noConfusion hresch
    · refine step_keeps (P := fun w => w.control.upgrade = _) rfl ?_ (fun _ => rfl) fun _ => rfl
      intro env call w' he hexec
      have hcall (k : ControlCall) (hk : call = .control k) : k.onUpgrade = false := by
        rw [Bool.eq_false_iff]
        exact fun hon => haccepted ⟨env, k, hk ▸ he, hon, w', hk ▸ hexec⟩
      have hkept : w'.control.upgrade = _ := exec_upgrade hcall hexec
      exact hkept

theorem Initial.pending (h0 : Initial w0) : Pending w0 [] := by
  obtain ⟨oracle, admin, l, -, rfl⟩ := h0.eq_mk
  exact .of_none rfl rfl

theorem run_pending (h0 : Initial w0) (es : List Event) : Pending w0 es := by
  have hal : Along step (fun _ _ => True) w0 es := along_true w0 es
  exact history_inv h0.pending (fun _ e h _ => h.step e) hal

/-! ## Executions -/

/-- An upgrade is executed while the contract is paused. It is the last one that was scheduled,
which has not been cancelled or executed since, and its review period is over. If no admin
confirms what it has scheduled, someone else has confirmed it since. -/
theorem upgrade_two_keys (h0 : Initial w0) (hkeys : SecondKey w0 es)
    (hc : Commits env (Call.control .executeUpgrade).exec (run step w0 es)) :
    let w := run step w0 es
    w.control.paused = true ∧ ∃ admin hash t,
      Since step (Schedules admin hash t) Undisturbed w0 es ∧
      (step w (.invoke env (.control .executeUpgrade))).control.wasmHash = some hash ∧
      (t ≤ u32Max - upgradeReviewPeriodLedgers →
        t + upgradeReviewPeriodLedgers ≤ env.sequence) ∧
      ∃ upgrader, upgrader ≠ admin ∧ Since step (Confirms upgrader) Undisturbed w0 es := by
  intro w
  obtain ⟨w', hexec⟩ := hc
  obtain ⟨c', hcontrol, hstep⟩ := run_upgrade_of_ok hexec
  obtain ⟨hpaused, t, upgrader, hash, hat, hreview, hby, hhash, hupgrade⟩ :=
    executeUpgrade_ok hcontrol
  rw [hupgrade] at hstep
  obtain ⟨admin, hash', hhash', hsince, hconfirmed⟩ := (run_pending h0 es).scheduled t hat
  obtain rfl := mem_unique hhash hhash'
  obtain ⟨hconfirm, hne⟩ := hconfirmed upgrader hby
  rw [run_snoc] at hstep
  refine ⟨hpaused, admin, hash, t, hsince, congrArg Upgrade.wasmHash hstep, fun ht => ?_,
    upgrader, hne hkeys, hconfirm⟩
  have hfits : t + upgradeReviewPeriodLedgers ≤ u32Max := by
    have hle : upgradeReviewPeriodLedgers ≤ u32Max := by decide
    omega
  rwa [saturatingAddU, min_eq_right hfits] at hreview

/-- The admin pauses the contract and schedules an upgrade, which someone confirms. -/
def upgradeConfirmedBy (upgrader : ℕ) : List Event :=
  [.invoke (.plain [1] 0 0) (.control (.pause (.ext 1))),
    .invoke (.plain [1] 0 0) (.control (.scheduleUpgrade [7])),
    .invoke (.plain [upgrader] 0 0) (.control (.confirmUpgrade (.ext upgrader)))]

theorem upgrade_two_keys_confirmedBy : (step (run step .start (upgradeConfirmedBy 5))
      (.invoke (.plain [1] 120960 0) (.control .executeUpgrade))).control.wasmHash = some [7] ∧
    ∃ admin upgrader, upgrader ≠ admin ∧
      Since step (Confirms upgrader) Undisturbed .start (upgradeConfirmedBy 5) := by
  have hadmin :
      (step .start (.invoke (.plain [1] 0 0) (.control (.pause (.ext 1))))).control.admin =
        some (.ext 1) := by decide +kernel
  have hkeys : SecondKey .start (upgradeConfirmedBy 5) := by
    rintro pre e hpre admin hash t upgrader hsince ⟨env, rfl, -⟩
    rcases pre with _ | ⟨x, _ | ⟨y, _ | ⟨z, pre⟩⟩⟩ <;>
      simp [upgradeConfirmedBy, List.cons_prefix_cons] at hpre
    obtain ⟨rfl, rfl, -, rfl⟩ := hpre
    obtain ⟨⟨_, he, -⟩, -⟩ | ⟨⟨_, -, -, hscheduler, -⟩, -⟩ | hnone := hsince
    · simp at he
    · rw [hadmin] at hscheduler
      rw [← Option.some.inj hscheduler]
      decide
    · exact hnone.elim
  have hc : Commits (.plain [1] 120960 0) (Call.control .executeUpgrade).exec
      (run step .start (upgradeConfirmedBy 5)) := by decide +kernel
  obtain ⟨-, admin, hash, t, -, -, -, upgrader, hne, hconfirm⟩ :=
    upgrade_two_keys World.start_initial hkeys hc
  exact ⟨by decide +kernel, admin, upgrader, hne, hconfirm⟩

/-- The admin 1 schedules an upgrade, confirms it and executes it. -/
theorem admin_upgrades_alone : Reachable (run step .start (upgradeConfirmedBy 1)) ∧
    Commits (.plain [1] 0 0) (Call.control (.scheduleUpgrade [7])).exec
      (run step .start ((upgradeConfirmedBy 1).take 1)) ∧
    (run step .start ((upgradeConfirmedBy 1).take 1)).control.admin = some (.ext 1) ∧
    Commits (.plain [1] 120960 0) (Call.control .executeUpgrade).exec
      (run step .start (upgradeConfirmedBy 1)) ∧
    ∀ env upgrader, .invoke env (.control (.confirmUpgrade upgrader)) ∈ upgradeConfirmedBy 1 →
      upgrader = .ext 1 := by
  refine ⟨⟨_, _, World.start_initial, rfl⟩, by decide +kernel, by decide +kernel,
    by decide +kernel, fun env upgrader hmem => ?_⟩
  simp only [upgradeConfirmedBy, List.mem_cons, List.not_mem_nil, or_false] at hmem
  rcases hmem with h | h | h <;> simp at h
  exact h.2

end Checkmate.Escrow

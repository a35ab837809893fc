import Checkmate.Escrow.Runs

/-!
# Rotation of the oracle

A temporary rotation names the oracle it replaces. It is in force until it expires, as long
as that oracle is the stored one (`Control.inForce`), and is dropped by the first read that
finds it not in force. `rotateOracleTemporary` compares the oracle to be replaced with the one
in force instead, so a rotation made while another one runs names an oracle that is not stored
and never comes into force (`rotation_effective_iff`).

Results of single matches are taken from the oracle in force, batches of results and ratings
from the stored one. They agree on whom they accept while no rotation is in force, and on
everyone but the two oracles while one is (`entries_agree_iff`).
-/

namespace Checkmate.Escrow

open Tx Control Option

variable {env env' : Env} {w w' : World} {c c' : Control} {a base : Address} {u : Unit}

/-! ## The oracle in force -/

/-- The temporary rotation that applies to the stored oracle at a time. -/
def Control.inForce (c : Control) (now : ℕ) : Option TempOracleRotation :=
  c.getRotationState.temp.filter fun rot => now < rot.expiry ∧ c.oracle = some rot.oldOracle

/-- The oracle at a time : the temporary one of the rotation in force, or the stored one. -/
def Control.oracleAt (c : Control) (now : ℕ) : Option Address :=
  ((c.inForce now).map TempOracleRotation.tempOracle).or c.oracle

theorem Control.oracleAt_of_none (h : c.getRotationState.temp = none) (now : ℕ) :
    c.oracleAt now = c.oracle := by
  simp [Control.oracleAt, Control.inForce, h]

theorem Control.oracleAt_of_some {rot : TempOracleRotation}
    (h : c.getRotationState.temp = some rot) (now : ℕ) :
    c.oracleAt now =
      if now < rot.expiry ∧ c.oracle = some rot.oldOracle then some rot.tempOracle
      else c.oracle := by
  unfold Control.oracleAt Control.inForce
  rw [h, filter_some]
  split <;> simp_all

theorem getOracle_value (env : Env) (c : Control) :
    (getOracle env c).value = c.oracleAt env.timestamp := by
  unfold getOracle
  cases hbase : c.oracle with
  | none =>
    have hfail : effectiveOracle env c = .err .unauthorized c := by
      simp [effectiveOracle, getBaseOracle, hbase]
    rw [hfail]
    cases hrot : c.getRotationState.temp with
    | none => rw [oracleAt_of_none hrot, hbase]; rfl
    | some => rw [oracleAt_of_some hrot, hbase, if_neg (by simp)]; rfl
  | some =>
    rw [effectiveOracle_eq hbase]
    cases hrot : c.getRotationState.temp with
    | none => rw [oracleAt_of_none hrot, hbase]; rfl
    | some =>
      rw [oracleAt_of_some hrot]
      dsimp only
      split
      · rfl
      · rw [hbase]; rfl

/-! ## Temporary rotations -/

@[simp] theorem Control.getRotationState_saveRotationState (c : Control)
    (r : OracleRotationState) :
    (c.saveRotationState r).getRotationState.temp = r.temp := by
  unfold Control.saveRotationState Control.getRotationState
  by_cases hempty : r.isEmpty = true
  · have hnone : r.tempOldOracle = none := by
      simp only [OracleRotationState.isEmpty, Bool.and_eq_true, isNone_iff_eq_none] at hempty
      exact hempty.1
    simp [hempty, OracleRotationState.temp, hnone]
  · simp [hempty]

theorem rotateOracleTemporary_ok {oldOracle newOracle : Address} {duration : ℕ}
    (hbase : c.oracle = some base)
    (h : rotateOracleTemporary oldOracle newOracle duration env c = .ok u c') :
    c'.oracle = some base ∧ 0 < duration ∧ c'.getRotationState.temp =
      some ⟨oldOracle, newOracle, saturatingAddU u64Max env.timestamp duration⟩ := by
  simp only [rotateOracleTemporary, bind_ok_iff, ask_ok_iff, requireAdmin_ok_iff,
    reject_ok_iff, modify_ok_iff] at h
  obtain ⟨_, _, ⟨rfl, rfl⟩, admin, _, ⟨-, -, -, rfl⟩, _, _, ⟨hduration, rfl⟩, _, _, ⟨-, rfl⟩,
    current, c1, heff, _, _, ⟨-, rfl⟩, rfl⟩ := h
  obtain ⟨rotation, rfl⟩ := effectiveOracle_ok heff
  refine ⟨hbase, by omega, ?_⟩
  rw [getRotationState_saveRotationState]
  rfl

theorem finalizeTempOracleRotation_ok (h : finalizeTempOracleRotation env c = .ok u c') :
    ∃ rot, c.getRotationState.temp = some rot ∧ rot.expiry ≤ env.timestamp ∧
      c' = c.dropRotation := by
  simp only [finalizeTempOracleRotation, getBaseOracle, bind_ok_iff, ask_ok_iff,
    get_ok_iff, orFail_ok_iff, reject_ok_iff, modify_ok_iff] at h
  obtain ⟨_, _, ⟨rfl, rfl⟩, _, _, ⟨rfl, rfl⟩, rot, _, ⟨hrot, rfl⟩, _, _, ⟨hexpired, rfl⟩, _, _,
    ⟨_, _, ⟨rfl, rfl⟩, -, rfl⟩, rfl⟩ := h
  exact ⟨rot, hrot, not_lt.mp hexpired, rfl⟩

/-- The entry points that set the oracle or a rotation. -/
def ControlCall.rotates : ControlCall → Bool
  | .updateOracle _ | .rotateOracleTemporary .. | .proposeOracleRotation ..
  | .rotateOraclePermanent .. => true
  | _ => false

/-- The stored oracle stays, and so does a rotation until it was found not to apply. -/
structure Control.Rotating (base : Address) (rot : TempOracleRotation) (now : ℕ)
    (c : Control) : Prop where
  oracle : c.oracle = some base
  temp : c.getRotationState.temp = some rot ∨ c.getRotationState.temp = none ∧
    (rot.expiry ≤ now ∨ base ≠ rot.oldOracle)

section

variable {rot : TempOracleRotation} {now : ℕ}

theorem Control.Rotating.of_eq (h : c.Rotating base rot now) (horacle : c'.oracle = c.oracle)
    (hrotation : c'.oracleRotation = c.oracleRotation) : c'.Rotating base rot now := by
  have hstate : c'.getRotationState = c.getRotationState := by
    simp [Control.getRotationState, hrotation]
  refine ⟨horacle.trans h.oracle, ?_⟩
  rw [hstate]
  exact h.temp

theorem Control.Rotating.drop (h : c.Rotating base rot now) {stale : TempOracleRotation}
    (hstale : c.getRotationState.temp = some stale)
    (hnow : ¬(env.timestamp < stale.expiry ∧ c.oracle = some stale.oldOracle))
    (htime : env.timestamp ≤ now) : c.dropRotation.Rotating base rot now := by
  refine ⟨h.oracle, .inr ⟨?_, ?_⟩⟩
  · exact getRotationState_saveRotationState _ _
  · rcases h.temp with htemp | ⟨hnone, -⟩
    · obtain rfl := mem_unique htemp hstale
      rw [h.oracle, some_inj] at hnow
      by_cases hold : base = rot.oldOracle
      · exact .inl (by have := hnow; simp only [hold, and_true] at this; omega)
      · exact .inr hold
    · cases hnone.symm.trans hstale

theorem ControlCall.exec_rotating {call : ControlCall} (hcall : call.rotates = false)
    (htime : env.timestamp ≤ now) (h : call.exec env c = .ok u c')
    (hc : c.Rotating base rot now) : c'.Rotating base rot now := by
  cases honOracle : call.onOracle with
  | false =>
    have hframe := (ControlCall.exec_frames_oracle honOracle).ok h
    obtain ⟨horacle, hrotation⟩ := Prod.mk.inj hframe
    exact hc.of_eq horacle hrotation
  | true =>
    cases call with
    | getOracle =>
      have hmaintains : Maintains env (Control.Rotating base rot now)
          ControlCall.getOracle.exec :=
        maintains_bind (effectiveOracle_maintains fun c stale hstale hnow hc =>
          hc.drop hstale hnow htime) fun _ => maintains_pure _
      exact hmaintains.ok hc h
    | finalizeTempOracleRotation =>
      obtain ⟨stale, hstale, hexpired, rfl⟩ := finalizeTempOracleRotation_ok h
      exact hc.drop hstale (fun happlies => by omega) htime
    | _ => first | exact Bool.noConfusion hcall | exact Bool.noConfusion honOracle

theorem exec_rotating {call : Call} (hcall : ∀ k, call = .control k → k.rotates = false)
    (htime : env.timestamp ≤ now) (h : call.exec env w = .ok u w')
    (hw : w.control.Rotating base rot now) : w'.control.Rotating base rot now :=
  exec_control_inv h (isSome_of_mem hw.oracle) (fun _ _ hc => hc.of_eq rfl rfl)
    (fun _ _ hstale hnow hc => hc.drop hstale hnow htime)
    (fun k _ hk hc => ControlCall.exec_rotating (hcall k hk) htime hc hw) hw

/-- Between two times, and no call that sets the oracle or a rotation. -/
def Event.Within (start now : ℕ) : Event → Prop
  | .invoke env call => start ≤ env.timestamp ∧ env.timestamp ≤ now ∧
      ∀ k, call = .control k → k.rotates = false
  | _ => True

theorem step_rotating {start : ℕ} {e : Event} (he : e.Within start now)
    (hw : w.control.Rotating base rot now) : (step w e).control.Rotating base rot now := by
  cases e with
  | invoke env call =>
    obtain ⟨-, htime, hcall⟩ := he
    by_cases hc : Commits env call.exec w
    · obtain ⟨w', h⟩ := hc
      rw [step, invoke_of_ok h]
      have hfresh : w.fresh.control.Rotating base rot now := hw.of_eq rfl rfl
      have hend : w'.control.Rotating base rot now := exec_rotating hcall htime h hfresh
      exact hend.of_eq rfl rfl
    · rwa [step, invoke_of_not_commits hc]
  | debit =>
    simp only [step]
    split <;> exact hw
  | _ => exact hw

/-- While it runs and applies, a rotation gives its oracle, and the stored one after that. -/
theorem Control.Rotating.oracleAt (h : c.Rotating base rot now)
    (heffect : rot.oldOracle = base ∨ rot.tempOracle = base) :
    c.oracleAt now = some (if now < rot.expiry then rot.tempOracle else base) := by
  rcases h.temp with hrot | ⟨hnone, hover⟩
  · rw [oracleAt_of_some hrot, h.oracle]
    rcases heffect with rfl | rfl
    · simp only [and_true]
      split <;> rfl
    · split <;> simp
  · rw [oracleAt_of_none hnone, h.oracle]
    rcases heffect with rfl | rfl
    · rw [if_neg (not_lt.mpr (hover.resolve_right (by simp)))]
    · simp

end

/-- `rotate_oracle_temporary(old, new, d)` at a time `t`, the stored oracle being `base` : to
return `new` from `t` to `t + d` and `base` from then on, whatever happens in between short of
another rotation, `get_oracle` needs that the replaced oracle is the stored one, or that the
stored one comes back. -/
theorem rotation_effective_iff {oldOracle newOracle : Address} {duration : ℕ}
    (hbase : w.control.oracle = some base)
    (hc : Commits env (Call.control
      (.rotateOracleTemporary oldOracle newOracle duration)).exec w)
    (hfit : env.timestamp + duration ≤ u64Max) :
    (∀ (es : List Event) (env' : Env), env.timestamp ≤ env'.timestamp →
      (∀ e ∈ es, e.Within env.timestamp env'.timestamp) →
      (getOracle env' (run step (step w (.invoke env (.control
          (.rotateOracleTemporary oldOracle newOracle duration)))) es).control).value =
        some (if env'.timestamp < env.timestamp + duration then newOracle else base)) ↔
    oldOracle = base ∨ newOracle = base := by
  obtain ⟨w', h⟩ := hc
  rw [step, invoke_of_ok h]
  obtain ⟨c', hexec, rfl⟩ := onControl_ok_iff.mp h
  have hbase' : w.fresh.control.oracle = some base := hbase
  obtain ⟨horacle, hpos, hrot⟩ := rotateOracleTemporary_ok hbase' hexec
  have hexpiry : saturatingAddU u64Max env.timestamp duration = env.timestamp + duration :=
    min_eq_right hfit
  rw [hexpiry] at hrot
  constructor
  · -- Right after the rotation.
    intro hall
    have hanswer := hall [] env le_rfl (by simp)
    rw [if_pos (by omega), getOracle_value] at hanswer
    change c'.fresh.oracleAt env.timestamp = some newOracle at hanswer
    have horacle' : c'.fresh.oracle = some base := horacle
    have hrot' : c'.fresh.getRotationState.temp = _ := hrot
    rw [oracleAt_of_some hrot', horacle'] at hanswer
    by_cases hold : oldOracle = base
    · exact .inl hold
    · rw [if_neg fun happlies => hold (Option.some.inj happlies.2).symm] at hanswer
      exact .inr (Option.some.inj hanswer).symm
  · intro heffect es env' htime hes
    have hstart : (w.fresh.withControl c').fresh.control.Rotating base
        ⟨oldOracle, newOracle, env.timestamp + duration⟩ env'.timestamp := ⟨horacle, .inl hrot⟩
    have hend := run_inv (I := fun w : World => w.control.Rotating base
      ⟨oldOracle, newOracle, env.timestamp + duration⟩ env'.timestamp)
      (P := fun _ (e : Event) => e.Within env.timestamp env'.timestamp)
      (fun w e hw he => step_rotating he hw) hstart (along_of_forall hes)
    rw [getOracle_value]
    exact hend.oracleAt heffect

/-- The admin replaces the oracle 0 by 5 for an hour. -/
def rotatedOracle : World :=
  step .start (.invoke (.plain [1] 0 0)
    (.control (.rotateOracleTemporary (.ext 0) (.ext 5) 3600)))

theorem rotation_effective_iff_rotatedOracle :
    (getOracle (.plain [] 0 3599) (run step rotatedOracle
      [.invoke (.plain [] 0 1000) (.control .getOracle)]).control).value = some (.ext 5) := by
  have hc : Commits (.plain [1] 0 0)
      (Call.control (.rotateOracleTemporary (.ext 0) (.ext 5) 3600)).exec .start := by
    decide +kernel
  have hwithin : ∀ e ∈ [Event.invoke (.plain [] 0 1000) (.control .getOracle)],
      e.Within (Env.plain [1] 0 0).timestamp (Env.plain [] 0 3599).timestamp := by
    simp [Event.Within, Env.plain, ControlCall.rotates]
  have hbase : World.start.control.oracle = some (.ext 0) := rfl
  have h := (rotation_effective_iff hbase hc (by decide)).mpr (.inl rfl) _ _ (by decide) hwithin
  rwa [if_pos (by decide)] at h

/-- While the oracle 5 stands in for 0, the admin replaces it by 6 for an hour. The oracle is
0 again at once. -/
theorem chained_rotation_ineffective :
    Reachable rotatedOracle ∧
      Commits (.plain [1] 0 0)
        (Call.control (.rotateOracleTemporary (.ext 5) (.ext 6) 3600)).exec rotatedOracle ∧
      (getOracle (.plain [] 0 0) (step rotatedOracle (.invoke (.plain [1] 0 0)
        (.control (.rotateOracleTemporary (.ext 5) (.ext 6) 3600)))).control).value =
          some (.ext 0) := by
  have hstart : Reachable .start := ⟨.start, [], World.start_initial, rfl⟩
  exact ⟨hstart.step _, by decide +kernel, by decide +kernel⟩

/-! ## Whom the entry points accept -/

/-- The entry points for the oracle, with their arguments other than the caller. -/
inductive OracleEntry where
  | submitResult (matchId : ℕ) (winner : Winner)
  | submitDraw (matchId : ℕ)
  | submitResultBatch (results : List (ℕ × Winner))
  | registerPlayerRating (player : Address) (platform : Platform) (username : Bytes)
      (rating : ℕ)

namespace OracleEntry

/-- How an entry point checks its caller. -/
def check (caller : Address) : OracleEntry → ControlTx Unit
  | .submitResult .. | .submitDraw _ => do
    requireAuth caller
    let storedOracle ← effectiveOracle
    Tx.reject (caller ≠ storedOracle) .unauthorized
  | .submitResultBatch _ => do
    let oracle ← getBaseOracle
    Tx.reject (caller ≠ oracle) .unauthorized
    requireAuth caller
  | .registerPlayerRating .. => do
    let oracle ← getBaseOracle
    requireAuth caller
    Tx.reject (caller ≠ oracle) .unauthorized

def call (caller : Address) : OracleEntry → Call
  | .submitResult matchId winner => .submitResult matchId winner caller
  | .submitDraw matchId => .submitDraw matchId caller
  | .submitResultBatch results => .submitResultBatch results caller
  | .registerPlayerRating player platform username rating =>
    .control (.registerPlayerRating caller player platform username rating)

/-- What an entry point does before it checks its caller. -/
def guard : OracleEntry → ControlTx Unit
  | .registerPlayerRating .. => pure ()
  | _ => requireNotPaused

/-- What an entry point does for a caller that it accepts. -/
def body : OracleEntry → EscrowTx Unit
  | .submitResult matchId winner => settleResult matchId winner
  | .submitDraw matchId => settleResult matchId .draw
  | .submitResultBatch results => void (Tx.batch settleEntry results)
  | .registerPlayerRating player platform username rating => onControl do
    let env ← Tx.ask
    let record : PlayerRating := ⟨username, rating, env.sequence⟩
    Tx.modify fun c =>
      { c with rating := Function.update c.rating (player, platform) (some record) }

/-- The check stands between the two. -/
theorem exec_eq (e : OracleEntry) (caller : Address) :
    (e.call caller).exec = (do
      onControl e.guard
      onControl (e.check caller)
      e.body : EscrowTx Unit) := by
  cases e with
  | submitResult | submitDraw =>
    simp only [call, guard, check, body, Call.exec, Escrow.submitResult, Escrow.submitDraw,
      authorizeResult, onControl_bind, Tx.bind_assoc]
  | submitResultBatch =>
    simp only [call, guard, check, body, Call.exec, void, Escrow.submitResultBatch, onControl_bind,
      Tx.bind_assoc]
  | registerPlayerRating =>
    -- The environment is asked for before the check and read after it.
    simp only [call, guard, check, body, Call.exec, ControlCall.exec, Escrow.registerPlayerRating,
      getBaseOracle, onControl_bind, Tx.bind_assoc]
    rfl

/-- The address that an entry point checks its caller against. -/
def oracle (c : Control) (now : ℕ) : OracleEntry → Option Address
  | .submitResult .. | .submitDraw _ => c.oracleAt now
  | .submitResultBatch _ | .registerPlayerRating .. => c.oracle

/-- The check lets the caller in. -/
def Accepts (env : Env) (c : Control) (caller : Address) (e : OracleEntry) : Prop :=
  ∃ c', e.check caller env c = .ok () c'

/-- The check turns the caller away. -/
def Refuses (env : Env) (c : Control) (caller : Address) (e : OracleEntry) : Prop :=
  ∃ c', e.check caller env c = .err .unauthorized c'

/-- A caller is compared with an oracle. -/
theorem reject_other (env : Env) (c : Control) (a oracle : Address) :
    some oracle = some a ∧
        (Tx.reject (a ≠ oracle) .unauthorized : ControlTx Unit) env c = .ok () c ∨
      some oracle ≠ some a ∧
        (Tx.reject (a ≠ oracle) .unauthorized : ControlTx Unit) env c = .err .unauthorized c := by
  by_cases ha : oracle = a
  · exact .inl ⟨congrArg some ha, by simp [Tx.reject, ha]⟩
  · exact .inr ⟨fun h => ha (Option.some.inj h), by simp [Tx.reject, Ne.symm ha]⟩

theorem check_result {e : OracleEntry} (hauth : c.hasAuth env a)
    (hbase : c.oracle.isSome = true) :
    e.oracle c env.timestamp = some a ∧ e.Accepts env c a ∨
      e.oracle c env.timestamp ≠ some a ∧ e.Refuses env c a := by
  obtain ⟨base, hbase⟩ := isSome_iff_exists.mp hbase
  have hallow : requireAuth a env c = .ok () (c.useAuth a) :=
    requireAuth_ok_iff.mpr ⟨hauth.mem, hauth, rfl⟩
  have hload : getBaseOracle env c = .ok base c := by simp [getBaseOracle, hbase]
  cases e with
  | submitResult | submitDraw =>
    have heffective : ∃ oracle c', effectiveOracle env (c.useAuth a) = .ok oracle c' ∧
        c.oracleAt env.timestamp = some oracle := by
      have hvalue := getOracle_value env (c.useAuth a)
      have hsome : ((c.useAuth a).oracleAt env.timestamp).isSome = true := by
        simp [Control.oracleAt, hbase]
      obtain ⟨oracle, horacle⟩ := isSome_iff_exists.mp hsome
      obtain ⟨c', hc'⟩ := Outcome.value_eq_some_iff.mp (hvalue.trans horacle)
      exact ⟨oracle, c', hc', horacle⟩
    obtain ⟨oracle, c', hc', horacle⟩ := heffective
    simp only [OracleEntry.oracle, Accepts, Refuses, check, horacle]
    rw [bind_of_ok hallow, bind_of_ok hc']
    exact (reject_other env c' a oracle).imp (fun h => ⟨h.1, c', h.2⟩) fun h => ⟨h.1, c', h.2⟩
  | submitResultBatch =>
    simp only [OracleEntry.oracle, Accepts, Refuses, check, hbase]
    rw [bind_of_ok hload]
    rcases reject_other env c a base with ⟨hsame, hok⟩ | ⟨hother, herr⟩
    · rw [bind_of_ok hok]
      exact .inl ⟨hsame, _, hallow⟩
    · exact .inr ⟨hother, c, bind_err_iff.mpr (.inl herr)⟩
  | registerPlayerRating =>
    simp only [OracleEntry.oracle, Accepts, Refuses, check, hbase]
    rw [bind_of_ok hload, bind_of_ok hallow]
    exact (reject_other env (c.useAuth a) a base).imp (fun h => ⟨h.1, _, h.2⟩)
      fun h => ⟨h.1, _, h.2⟩

theorem accepts_iff {e : OracleEntry} (hauth : c.hasAuth env a)
    (hbase : c.oracle.isSome = true) :
    e.Accepts env c a ↔ e.oracle c env.timestamp = some a := by
  rcases check_result (e := e) hauth hbase with ⟨horacle, hok⟩ | ⟨hne, c', herr⟩
  · exact iff_of_true hok horacle
  · refine iff_of_false ?_ hne
    rintro ⟨c1, hok⟩
    cases hok.symm.trans herr

theorem refuses_iff {e : OracleEntry} (hauth : c.hasAuth env a)
    (hbase : c.oracle.isSome = true) :
    e.Refuses env c a ↔ e.oracle c env.timestamp ≠ some a := by
  rcases check_result (e := e) hauth hbase with ⟨horacle, c', hok⟩ | ⟨hne, herr⟩
  · refine iff_of_false ?_ (not_not.mpr horacle)
    rintro ⟨c1, herr⟩
    cases hok.symm.trans herr
  · exact iff_of_true herr hne

end OracleEntry

/-- All entry points accept a caller, whom `get_oracle` then returns, or all refuse the caller,
unless a temporary rotation is in force and the caller is one of its two oracles. -/
theorem entries_agree_iff (hw : Reachable w) (ha : a ∈ env.auths) :
    ((∀ e : OracleEntry, e.Accepts env w.fresh.control a) ∨
        ∀ e : OracleEntry, e.Refuses env w.fresh.control a) ∧
      (∀ e : OracleEntry, e.Accepts env w.fresh.control a →
        (getOracle env w.fresh.control).value = some a) ↔
    ∀ rot, w.control.inForce env.timestamp = some rot →
      (rot.tempOracle = a ↔ w.control.oracle = some a) := by
  have hauth : w.fresh.control.hasAuth env a := List.count_pos_iff.mpr ha
  have hbase : w.fresh.control.oracle.isSome = true := hw.oracle
  simp only [OracleEntry.accepts_iff hauth hbase, OracleEntry.refuses_iff hauth hbase,
    getOracle_value]
  change ((∀ e : OracleEntry, e.oracle w.control env.timestamp = some a) ∨
      ∀ e : OracleEntry, e.oracle w.control env.timestamp ≠ some a) ∧
    (∀ e : OracleEntry, e.oracle w.control env.timestamp = some a →
      w.control.oracleAt env.timestamp = some a) ↔ _
  constructor
  · rintro ⟨hall, -⟩ rot hrot
    have hat : w.control.oracleAt env.timestamp = some rot.tempOracle := by
      simp [Control.oracleAt, hrot]
    rcases hall with hall | hall
    · have hresult := hall (.submitDraw 0)
      have hbatch := hall (.submitResultBatch [])
      exact iff_of_true (mem_unique hat hresult) hbatch
    · have hresult := hall (.submitDraw 0)
      have hbatch := hall (.submitResultBatch [])
      refine iff_of_false (fun heq => hresult ?_) hbatch
      rw [← heq]
      exact hat
  · intro hrot
    have hsame : w.control.oracleAt env.timestamp = some a ↔ w.control.oracle = some a := by
      cases hforce : w.control.inForce env.timestamp with
      | none => simp [Control.oracleAt, hforce]
      | some rot => simp [Control.oracleAt, hforce, hrot rot hforce]
    by_cases hstored : w.control.oracle = some a
    · refine ⟨.inl fun e => ?_, fun _ _ => hsame.mpr hstored⟩
      cases e <;> first | exact hsame.mpr hstored | exact hstored
    · have hnone : ∀ e : OracleEntry, e.oracle w.control env.timestamp ≠ some a := by
        intro e
        cases e <;> first | exact fun h => hstored (hsame.mp h) | exact hstored
      exact ⟨.inr hnone, fun e he => absurd he (hnone e)⟩

theorem entries_agree_iff_start :
    (∀ e : OracleEntry, e.Accepts (.plain [0] 0 0) World.start.fresh.control (.ext 0)) ∨
      ∀ e : OracleEntry, e.Refuses (.plain [0] 0 0) World.start.fresh.control (.ext 0) := by
  have hw : Reachable .start := ⟨.start, [], World.start_initial, rfl⟩
  have hnone : World.start.control.inForce (Env.plain [0] 0 0).timestamp = none := rfl
  refine ((entries_agree_iff hw (by decide)).mpr fun rot hrot => ?_).1
  cases hnone.symm.trans hrot

/-- While the oracle 5 stands in for 0, it may submit a draw and no batch of results. -/
theorem batch_refuses_temporary_oracle :
    Reachable rotatedOracle ∧ (getOracle (.plain [5] 0 0) rotatedOracle.control).value =
        some (.ext 5) ∧
      (OracleEntry.submitDraw 0).Accepts (.plain [5] 0 0) rotatedOracle.fresh.control (.ext 5) ∧
      (OracleEntry.submitResultBatch []).Refuses (.plain [5] 0 0) rotatedOracle.fresh.control
        (.ext 5) := by
  have hstart : Reachable .start := ⟨.start, [], World.start_initial, rfl⟩
  have hw : Reachable rotatedOracle := hstart.step _
  have hauth : rotatedOracle.fresh.control.hasAuth (.plain [5] 0 0) (.ext 5) := by decide +kernel
  have hbase : rotatedOracle.fresh.control.oracle.isSome = true := hw.oracle
  refine ⟨hw, by decide +kernel, (OracleEntry.accepts_iff hauth hbase).mpr ?_,
    (OracleEntry.refuses_iff hauth hbase).mpr ?_⟩
  · decide +kernel
  · decide +kernel

end Checkmate.Escrow

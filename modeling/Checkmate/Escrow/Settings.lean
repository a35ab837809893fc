import Checkmate.Host.Frame
import Checkmate.Escrow.Contract

/-!
# What administration writes

The administrative entry points write settings of eight kinds, and `ControlCall.sets` lists
the kinds that one of them writes. A property of the settings that each of them keeps is
maintained by the entry point (`ControlCall.exec_maintains`), and the entry point frames what
its kinds leave (`ControlCall.exec_frames`).

Settings that no result on runs speaks of are one kind. They are what `Control.core` leaves
out.
-/

namespace Checkmate.Escrow

open Tx ControlCall

/-- The rates of dispute bonds and of the quorum. -/
structure Shares where
  bondTiers : List DisputeBondTier
  bond : Option ℕ
  quorum : Option ℕ

def Control.shares (c : Control) : Shares :=
  ⟨c.config.stakes.disputeBondTierSchedule, c.disputeBondBasisPoints, c.quorumBasisPoints⟩

/-- Whoever the admin is, the default configuration has no tiers. -/
theorem Control.shares_congr {c c' : Control} (hconfig : c'.protocolConfig = c.protocolConfig)
    (hbond : c'.disputeBondBasisPoints = c.disputeBondBasisPoints)
    (hquorum : c'.quorumBasisPoints = c.quorumBasisPoints) : c'.shares = c.shares := by
  simp only [Control.shares, Control.config, hconfig, hbond, hquorum]
  cases c.protocolConfig <;> rfl

/-- The approved oracles and how many of them have to agree. -/
def Control.council (c : Control) : Option (List Address) × Option ℕ :=
  (c.approvedOracles, c.requiredOracleConfirmations)

/-- An upgrade on its way, and the code that the last one installed. -/
structure Upgrade where
  scheduledAt : Option ℕ
  hash : Option Bytes
  confirmedBy : Option Address
  wasmHash : Option Bytes

def Control.upgrade (c : Control) : Upgrade :=
  ⟨c.upgradeScheduledAt, c.pendingUpgradeHash, c.upgradeConfirmedBy, c.wasmHash⟩

/-- The settings that results on runs speak of. -/
structure Core where
  admin : Option Address
  pendingAdmin : Option PendingAdminProposal
  paused : Bool
  oracle : Option Address
  oracleRotation : Option OracleRotationState
  shares : Shares
  council : Option (List Address) × Option ℕ
  upgrade : Upgrade

def Control.core (c : Control) : Core :=
  ⟨c.admin, c.pendingAdmin, c.paused, c.oracle, c.oracleRotation, c.shares, c.council, c.upgrade⟩

/-- The kinds of settings. -/
inductive Setting where
  | other
  | admin
  | paused
  | oracle
  | rotation
  | shares
  | council
  | upgrade
deriving DecidableEq

/-- A write of the kind keeps `Q`. -/
def Setting.Keeps (Q : Control → Prop) : Setting → Prop
  | .other => ∀ c c', c'.core = c.core → Q c → Q c'
  | .admin => ∀ c admin pending, Q c → Q { c with admin := admin, pendingAdmin := pending }
  | .paused => ∀ c value, Q c → Q { c with paused := value }
  | .oracle => ∀ c oracle, Q c → Q { c with oracle := some oracle }
  | .rotation => ∀ c rotation, Q c → Q { c with oracleRotation := rotation }
  | .shares => ∀ c config bond quorum, Q c → Q { c with
      protocolConfig := config, disputeBondBasisPoints := bond, quorumBasisPoints := quorum }
  | .council => ∀ c oracles count, Q c → Q { c with
      approvedOracles := oracles, requiredOracleConfirmations := count }
  | .upgrade => ∀ c scheduledAt hash confirmedBy wasmHash, Q c → Q { c with
      upgradeScheduledAt := scheduledAt, pendingUpgradeHash := hash
      upgradeConfirmedBy := confirmedBy, wasmHash := wasmHash }

/-- The kinds that an entry point writes. -/
def ControlCall.sets (call : ControlCall) (k : Setting) : Bool :=
  k = .other || match call with
  | .pause _ | .unpause _ => k = .paused
  | .setProtocolConfig _ | .setDisputeBondBasisPoints _ | .setQuorumBasisPoints _ => k = .shares
  | .proposeAdmin _ | .acceptAdmin | .cancelAdminProposal | .transferAdmin .. => k = .admin
  | .getOracle | .rotateOracleTemporary .. | .finalizeTempOracleRotation
  | .proposeOracleRotation .. => k = .rotation
  | .updateOracle _ | .rotateOraclePermanent .. => k = .oracle || k = .rotation
  | .addApprovedOracle _ | .removeApprovedOracle _ | .setRequiredConfirmations _ => k = .council
  | .scheduleUpgrade _ | .cancelUpgrade | .confirmUpgrade _ | .executeUpgrade => k = .upgrade
  | _ => false

/-- The configuration and the rates of fees. -/
def Control.fees (c : Control) : Option ProtocolConfig × Option ℕ × List FeeTier :=
  (c.protocolConfig, c.referralShareBasisPoints, c.feeTiers)

/-- The entry points that set a part of the configuration or a rate of a fee. -/
def ControlCall.setsFees : ControlCall → Bool
  | .setProtocolConfig _ | .setReferralShareBps _ | .setMinimumStake _ | .setMaximumStake _
  | .setMatchTimeout _ | .setFeeTiers _ => true
  | _ => false

/-- The registries of tokens and players. -/
structure Registries where
  allowedToken : Address → Bool
  allowedTokenCount : ℕ
  allowlistEnforced : Bool
  allowedTokens : List Address
  blacklistedToken : Address → Option Bytes
  blacklistedTokens : List Address
  frozenPlayer : Address → Option Bytes
  frozenPlayers : List Address

def Control.registries (c : Control) : Registries :=
  ⟨c.allowedToken, c.allowedTokenCount, c.allowlistEnforced, c.allowedTokens, c.blacklistedToken,
    c.blacklistedTokens, c.frozenPlayer, c.frozenPlayers⟩

/-- The entry points that write a registry. -/
def ControlCall.onRegistries : ControlCall → Bool
  | .addAllowedToken _ | .removeAllowedToken _ | .addTokenToBlacklist ..
  | .removeTokenFromBlacklist _ | .adminFreezePlayer .. | .adminUnfreezePlayer _ => true
  | _ => false

section

variable {env : Env} {Q : Control → Prop} {call : ControlCall}

theorem requireAuth_keeps (h : ∀ c a, Q c → Q (c.useAuth a)) (a : Address) :
    Maintains env Q (requireAuth a) :=
  maintains_ask_bind <| maintains_bind maintains_get fun _ =>
    maintains_ite (maintains_modify fun c => h c a) maintains_abort

/-- What every write of an administrative entry point keeps, the entry point maintains. Of the
settings that `Control.core` leaves out, the fees and the registries are written by their own entry
points only. -/
theorem ControlCall.exec_maintains_parts (hother : ∀ c c', c'.core = c.core →
      (call.setsFees = false → c'.fees = c.fees) →
      (call.onRegistries = false → c'.registries = c.registries) → Q c → Q c')
    (h : ∀ k, k ≠ .other → call.sets k = true → k.Keeps Q) : Maintains env Q call.exec := by
  have hauth : ∀ c a, Q c → Q (c.useAuth a) := fun c a => hother c _ rfl (fun _ => rfl) fun _ => rfl
  replace h : ∀ k, call.sets k = true → (k ≠ .other → k.Keeps Q) := fun k hk hne => h k hne hk
  cases call
  all_goals
    simp only [ControlCall.exec, Escrow.pause, Escrow.unpause, Escrow.setProtocolConfig,
      Escrow.setReferralShareBps, Escrow.setMinimumStake, Escrow.setMaximumStake,
      Escrow.setMatchTimeout, Escrow.setFeeTiers, Escrow.setDisputePeriod, Escrow.setShare,
      Escrow.setDisputeBondBasisPoints, Escrow.setQuorumBasisPoints,
      Escrow.setMinimumHoldDuration, Escrow.setPreferredPayoutToken, Escrow.addAllowedToken,
      Escrow.removeAllowedToken, Escrow.addStablecoinIssuer, Escrow.removeStablecoinIssuer,
      Escrow.addTokenToBlacklist, Escrow.removeTokenFromBlacklist, Escrow.adminFreezePlayer,
      Escrow.adminUnfreezePlayer, Escrow.registerBracket, Escrow.registerPlayerRating,
      Escrow.proposeAdmin, Escrow.acceptAdmin, Escrow.cancelAdminProposal, Escrow.transferAdmin,
      Escrow.updateOracle, Escrow.rotateOracleTemporary, Escrow.finalizeTempOracleRotation,
      Escrow.proposeOracleRotation, Escrow.rotateOraclePermanent, Escrow.addApprovedOracle,
      Escrow.removeApprovedOracle, Escrow.setRequiredConfirmations, Escrow.scheduleUpgrade,
      Escrow.cancelUpgrade, Escrow.confirmUpgrade, Escrow.executeUpgrade, Escrow.migrateState,
      Escrow.asAdmin, Escrow.requireAdmin, Escrow.requireCaller, Escrow.getAdmin,
      Escrow.getBaseOracle, Escrow.effectiveOracle, Control.saveRotationState,
      Control.applyMigrations]
    -- Each function is a chain of reads, checks and writes.
    repeat' with_reducible first
      | refine maintains_ask_bind ?_
      | refine maintains_bind ?_ fun _ => ?_
      | exact maintains_pure _
      | exact maintains_get
      | exact maintains_reject _ _
      | exact maintains_orFail _ _
      | exact requireAuth_keeps hauth _
      | refine maintains_when ?_
      | refine maintains_ite ?_ ?_
      | refine maintains_modify fun c hc => ?_
      | split
    all_goals first
      | exact hother c _ rfl (fun _ => rfl) (fun _ => rfl) hc
      | exact hother c _ rfl (fun h => Bool.noConfusion h) (fun _ => rfl) hc
      | exact hother c _ rfl (fun _ => rfl) (fun h => Bool.noConfusion h) hc
      | exact h .paused rfl Setting.noConfusion c _ hc
      | exact h .admin rfl Setting.noConfusion c _ _ hc
      | exact h .oracle rfl Setting.noConfusion c _ hc
      | exact h .rotation rfl Setting.noConfusion c _ hc
      | exact h .shares rfl Setting.noConfusion c _ _ _ hc
      | exact h .council rfl Setting.noConfusion c _ _ hc
      | exact h .upgrade rfl Setting.noConfusion c _ _ _ _ hc
      | exact h .rotation rfl Setting.noConfusion _ _ (h .oracle rfl Setting.noConfusion c _ hc)

theorem ControlCall.exec_maintains (h : ∀ k, call.sets k = true → k.Keeps Q) :
    Maintains env Q call.exec :=
  exec_maintains_parts (fun c c' hcore _ _ => h .other rfl c c' hcore) fun k _ => h k

/-- A write of the kind does not show in `f`. -/
def Setting.Ignored {τ : Type} (k : Setting) (f : Control → τ) : Prop :=
  ∀ v, k.Keeps fun c => f c = v

/-- An administrative entry point ends with whatever its writes leave as it was. -/
theorem ControlCall.exec_frames {τ : Type} {f : Control → τ}
    (h : ∀ k, call.sets k = true → k.Ignored f) : Frames f call.exec :=
  frames_iff.mpr fun _ v => call.exec_maintains fun k hk => h k hk v

end

/-! ## Parts of the settings -/

section

variable {call : ControlCall} {k : Setting}

/-- The entry points that set a rate. -/
def ControlCall.setsShares : ControlCall → Bool
  | .setProtocolConfig _ | .setDisputeBondBasisPoints _ | .setQuorumBasisPoints _ => true
  | _ => false

/-- The entry points that touch the oracle or its rotations. -/
def ControlCall.onOracle : ControlCall → Bool
  | .getOracle | .updateOracle _ | .rotateOracleTemporary .. | .finalizeTempOracleRotation
  | .proposeOracleRotation .. | .rotateOraclePermanent .. => true
  | _ => false

/-- The entry points that touch the approved oracles or how many of them have to agree. -/
def ControlCall.onCouncil : ControlCall → Bool
  | .addApprovedOracle _ | .removeApprovedOracle _ | .setRequiredConfirmations _ => true
  | _ => false

/-- The entry points of an upgrade. -/
def ControlCall.onUpgrade : ControlCall → Bool
  | .scheduleUpgrade _ | .cancelUpgrade | .confirmUpgrade _ | .executeUpgrade => true
  | _ => false

theorem ControlCall.exec_frames_shares (h : call.setsShares = false) :
    Frames Control.shares call.exec := by
  refine exec_frames fun k hk v => ?_
  cases k with
  | shares => cases call <;> first | exact Bool.noConfusion hk | exact Bool.noConfusion h
  | other => exact fun c c' hcore hv => (congrArg Core.shares hcore).trans hv
  | admin => exact fun c _ _ hv => Eq.trans (b := c.shares) (Control.shares_congr rfl rfl rfl) hv
  | _ => intro _; intros; assumption

theorem ControlCall.exec_frames_oracle (h : call.onOracle = false) :
    Frames (fun c => (c.oracle, c.oracleRotation)) call.exec := by
  refine exec_frames fun k hk v => ?_
  cases k with
  | oracle | rotation =>
    cases call <;> first | exact Bool.noConfusion hk | exact Bool.noConfusion h
  | other => exact fun c c' hcore hv =>
      (congrArg (fun core : Core => (core.oracle, core.oracleRotation)) hcore).trans hv
  | _ => intro _; intros; assumption

theorem ControlCall.exec_frames_council (h : call.onCouncil = false) :
    Frames Control.council call.exec := by
  refine exec_frames fun k hk v => ?_
  cases k with
  | council => cases call <;> first | exact Bool.noConfusion hk | exact Bool.noConfusion h
  | other => exact fun c c' hcore hv => (congrArg Core.council hcore).trans hv
  | _ => intro _; intros; assumption

theorem ControlCall.exec_frames_upgrade (h : call.onUpgrade = false) :
    Frames Control.upgrade call.exec := by
  refine exec_frames fun k hk v => ?_
  cases k with
  | upgrade => cases call <;> first | exact Bool.noConfusion hk | exact Bool.noConfusion h
  | other => exact fun c c' hcore hv => (congrArg Core.upgrade hcore).trans hv
  | _ => intro _; intros; assumption

theorem ControlCall.exec_frames_fees (h : call.setsFees = false) :
    Frames Control.fees call.exec := by
  refine frames_iff.mpr fun env v => ?_
  cases hshares : call.setsShares with
  | true =>
    cases call with
    | setDisputeBondBasisPoints | setQuorumBasisPoints =>
      refine maintains_bind (maintains_bind ?_ fun _ => maintains_bind ?_ fun _ => ?_)
        fun _ => maintains_bind (maintains_reject _ _) fun _ => maintains_modify ?_
      · exact maintains_bind maintains_get fun _ => maintains_orFail _ _
      · exact requireAuth_keeps (fun _ _ hv => hv) _
      · exact maintains_pure _
      · exact fun _ hv => hv
    | _ => first | exact Bool.noConfusion h | exact Bool.noConfusion hshares
  | false =>
    refine exec_maintains_parts (fun c c' _ hfees _ hv => (hfees h).trans hv) fun k hother hk => ?_
    cases k with
    | other => exact absurd rfl hother
    | shares => cases call <;> first | exact Bool.noConfusion hk | exact Bool.noConfusion hshares
    | _ => intro _; intros; assumption

/-- No administrative entry point takes the oracle away. -/
theorem ControlCall.exec_keeps_oracle {env : Env} (call : ControlCall) :
    Maintains env (fun c => c.oracle.isSome = true) call.exec := by
  refine exec_maintains fun k _ => ?_
  cases k with
  | other =>
    intro c c' hcore hc
    have horacle : c'.oracle = c.oracle := congrArg Core.oracle hcore
    rwa [horacle]
  | oracle => exact fun _ _ _ => rfl
  | _ => intro _; intros; assumption

end

end Checkmate.Escrow

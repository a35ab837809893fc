import Checkmate.Host.Frame
import Checkmate.Oracle.Contract

/-!
# What the entry points leave alone

`Call.writes` names the parts of the state that each entry point writes. Whatever can be read
off the other parts is the same when it ends, whether it returns or fails
(`Call.exec_frames`). The invariants of the contract are then about the few entry points that
write what they speak of : all others are dealt with by `Call.exec_keeps`.
-/

namespace Checkmate.Oracle

open Tx

/-- The parts of the state that functions write. The cache is a part of the results. -/
inductive Part where
  | control
  | stakes
  | limits
  | results
  | cache
  | votes
  | rate
  | tokens

/-- A write to the part does not show in `f`. -/
def Part.Ignored {τ : Type} (f : World → τ) : Part → Prop
  | .control => ∀ w c, f (w.withControl c) = f w
  | .stakes => ∀ w s, f (w.withStakes s) = f w
  | .limits => ∀ w s, f (w.withLimits s) = f w
  | .results => ∀ w s, f (w.withResults s) = f w
  | .cache => ∀ w g p c, f (w.withResults (w.results.putCache g p c)) = f w
  | .votes => ∀ w s, f (w.withVotes s) = f w
  | .rate => ∀ w pair e, f (w.withRate pair e) = f w
  | .tokens => ∀ w t l, f (w.withTransfer t l) = f w

/-- What a part consists of. -/
def Part.View : Part → Type
  | .control => Control
  | .stakes => Stakes
  | .limits => Limits
  | .results => (ℕ → Option ResultEntry) × (Address → List OracleSubmissionEntry)
  | .cache => Unit
  | .votes => Votes
  | .rate => Address × Address → Option RateEntry
  | .tokens => Ledger Address × List Transfer

/-- The part of a state. The cache, which comes with the results, is not looked at. -/
def Part.view : (p : Part) → World → p.View
  | .control, w => w.control
  | .stakes, w => w.stakes
  | .limits, w => w.limits
  | .results, w => (w.results.result, w.results.oracleSubmissionList)
  | .cache, _ => ()
  | .votes, w => w.votes
  | .rate, w => w.rate
  | .tokens, w => (w.ledger, w.log)

/-- The parts do not overlap. -/
theorem Part.ignored_view {p q : Part} (h : q ≠ p) : q.Ignored p.view := by
  cases q <;> cases p <;> first
    | exact absurd rfl h
    | exact fun _ _ => rfl
    | exact fun _ _ _ => rfl
    | exact fun _ _ _ _ => rfl

/-- The parts that an entry point writes. -/
def Call.writes : Call → Part → Bool
  | .initializeOracle .., .control | .updateAdmin .., .control | .proposeAdmin .., .control
  | .acceptAdmin, .control | .pause, .control | .unpause, .control | .setTreasury .., .control
  | .setSlashingGracePeriod .., .control | .setConsensusThreshold .., .control
  | .setSlaThreshold .., .control => true
  | .registerOracleWithStake .., .stakes | .registerOracleWithStake .., .tokens => true
  | .slashOracle .., .stakes | .adminCancelSlash .., .stakes => true
  | .finalizeSlash .., .stakes | .finalizeSlash .., .tokens => true
  | .submitResult .., .limits | .submitResult .., .results => true
  | .submitBatchResults .., .limits | .submitBatchResults .., .results => true
  | .submitOracleResult .., .control | .submitOracleResult .., .rate => false
  | .submitOracleResult .., _ => true
  | .resolveDisputedMatch .., .stakes | .resolveDisputedMatch .., .tokens
  | .resolveDisputedMatch .., .results | .resolveDisputedMatch .., .votes => true
  | .deactivateSlowOracle .., .limits | .setOracleRateLimits .., .limits => true
  | .getCachedResult .., .cache | .invalidateCache .., .cache => true
  | .deleteResult .., .results => true
  | .setRate .., .rate => true
  | .swap .., .tokens => true
  | _, _ => false

section

variable {τ : Type} {f : World → τ}

theorem requireAuth_frames (a : Address) : Frames f (requireAuth a) :=
  frames_bind frames_ask fun _ => frames_ite (frames_pure _) frames_abort

theorem requireAdmin_frames : Frames f requireAdmin :=
  frames_bind frames_get fun _ => frames_bind (frames_orFail _ _) fun _ =>
    frames_bind (requireAuth_frames _) fun _ => frames_pure _

theorem requireSubmitter_frames : Frames f requireSubmitter :=
  frames_bind frames_get fun _ => frames_bind (frames_reject _ _) fun _ =>
    frames_bind requireAdmin_frames fun _ => frames_bind (frames_reject _ _) fun _ =>
      frames_pure _

theorem transfer_frames (h : Part.tokens.Ignored f) (t : Transfer) : Frames f (transfer t) :=
  frames_bind frames_ask fun _ => frames_bind frames_get fun _ =>
    frames_bind (frames_orAbort _) fun _ => frames_modify fun w => h w _ _

theorem modifyStakes_frames (h : Part.stakes.Ignored f) (g : Stakes → Stakes) :
    Frames f (modifyStakes g) :=
  frames_modify fun w => h w _

theorem modifyLimits_frames (h : Part.limits.Ignored f) (g : Limits → Limits) :
    Frames f (modifyLimits g) :=
  frames_modify fun w => h w _

theorem modifyResults_frames (h : Part.results.Ignored f) (g : Results → Results) :
    Frames f (modifyResults g) :=
  frames_modify fun w => h w _

theorem modifyVotes_frames (h : Part.votes.Ignored f) (g : Votes → Votes) :
    Frames f (modifyVotes g) :=
  frames_modify fun w => h w _

theorem slashBps_frames (hs : Part.stakes.Ignored f) (ht : Part.tokens.Ignored f)
    (oracle : Address) (bps : ℤ) : Frames f (slashBps oracle bps) := by
  unfold slashBps bumpOracleEligibilityVersion
  repeat' with_reducible first
    | refine frames_bind ?_ fun _ => ?_
    | exact frames_pure _
    | exact frames_get
    | exact frames_orAbort _
    | exact modifyStakes_frames hs _
    | exact transfer_frames ht _
    | refine frames_when ?_
    | refine frames_ite ?_ ?_
    | split

theorem slashSubmitters_frames (hs : Part.stakes.Ignored f) (ht : Part.tokens.Ignored f)
    (candidates : List CandidateTally) : Frames f (slashSubmitters candidates) :=
  frames_forEach (fun _ => slashBps_frames hs ht _ _) _

theorem checkOracleRateLimit_frames (h : Part.limits.Ignored f) (oracle : Address) (count : ℕ) :
    Frames f (checkOracleRateLimit oracle count) :=
  frames_bind frames_ask fun _ => frames_bind frames_get fun _ =>
    frames_bind (frames_reject _ _) fun _ => frames_bind (frames_reject _ _) fun _ =>
      frames_bind (modifyLimits_frames h _) fun _ =>
        frames_bind (frames_orAbort _) fun _ =>
          frames_bind (frames_orAbort _) fun _ => frames_pure _

theorem updateOracleMetrics_frames (h : Part.limits.Ignored f) (oracle : Address)
    (responseTimeMs : UInt64) : Frames f (updateOracleMetrics oracle responseTimeMs) :=
  frames_bind frames_get fun _ => frames_bind (frames_reject _ _) fun _ =>
    modifyLimits_frames h _

theorem storeResult_frames (h : Part.results.Ignored f) (id : ℕ) (vote : OracleVoteRecord)
    (submitter : Address) (confidence : Option ℕ) :
    Frames f (storeResult id vote submitter confidence) :=
  frames_bind frames_ask fun _ => frames_bind (modifyResults_frames h _) fun _ =>
    modifyResults_frames h _

theorem appendOracleSubmission_frames (h : Part.results.Ignored f) (oracle : Address)
    (id : ℕ) (vote : OracleVoteRecord) : Frames f (appendOracleSubmission oracle id vote) :=
  frames_bind frames_ask fun _ => modifyResults_frames h _

theorem commitEntry_frames (h : Part.results.Ignored f) (admin : Address)
    (entry : BatchResultEntry) : Frames f (commitEntry admin entry) :=
  frames_bind (storeResult_frames h _ _ _ _) fun _ => appendOracleSubmission_frames h _ _ _

/-- An entry point ends with whatever it does not write as it was. -/
theorem Call.exec_frames {call : Call} (h : ∀ p, call.writes p = true → p.Ignored f) :
    Frames f call.exec := by
  cases call
  all_goals
    simp only [Call.exec, Oracle.initializeOracle, Oracle.updateAdmin, Oracle.proposeAdmin,
      Oracle.acceptAdmin, Oracle.pause, Oracle.unpause, Oracle.setTreasury,
      Oracle.setSlashingGracePeriod, Oracle.setConsensusThreshold, Oracle.setSlaThreshold,
      Oracle.setRate, Oracle.setOracleRateLimits, Oracle.deactivateSlowOracle,
      Oracle.registerOracleWithStake, Oracle.slashOracle, Oracle.finalizeSlash,
      Oracle.adminCancelSlash, Oracle.submitResult, Oracle.submitBatchResults,
      Oracle.submitOracleResult, lateVote, castVote, recordVote, finalizeCandidate, awaitVotes,
      remainingEligibleOracles, Oracle.resolveDisputedMatch, Oracle.getCachedResult,
      Oracle.invalidateCache, Oracle.deleteResult, Oracle.swap, quote, convertAmount,
      bumpOracleEligibilityVersion]
    -- Each function is a chain of reads, checks, transfers and writes.
    repeat' with_reducible first
      | refine frames_bind ?_ fun _ => ?_
      | exact frames_pure _
      | exact frames_ask
      | exact frames_get
      | exact frames_fail _
      | exact frames_reject _ _
      | exact frames_orFail _ _
      | exact frames_orAbort _
      | exact requireAuth_frames _
      | exact requireAdmin_frames
      | exact requireSubmitter_frames
      | exact transfer_frames (h .tokens rfl) _
      | exact modifyStakes_frames (h .stakes rfl) _
      | exact modifyVotes_frames (h .votes rfl) _
      | exact modifyLimits_frames (h .limits rfl) _
      | exact modifyResults_frames (h .results rfl) _
      | exact slashBps_frames (h .stakes rfl) (h .tokens rfl) _ _
      | exact slashSubmitters_frames (h .stakes rfl) (h .tokens rfl) _
      | exact checkOracleRateLimit_frames (h .limits rfl) _ _
      | exact updateOracleMetrics_frames (h .limits rfl) _ _
      | exact storeResult_frames (h .results rfl) _ _ _ _
      | exact appendOracleSubmission_frames (h .results rfl) _ _ _
      | exact frames_forEach (fun _ => commitEntry_frames (h .results rfl) _ _) _
      | exact frames_forEach (fun _ => appendOracleSubmission_frames (h .results rfl) _ _ _) _
      | refine frames_when ?_
      | refine frames_ite ?_ ?_
      | split
    all_goals first
      | exact frames_modify fun w => h .control rfl w _
      | exact frames_modify fun w => h .cache rfl w _ _ _
      | exact frames_modify fun w => h .rate rfl w _ _

end

/-- An entry point keeps a part that it does not write. -/
theorem Call.exec_keeps {call : Call} (p : Part) (h : call.writes p = false) :
    Frames p.view call.exec := by
  refine Call.exec_frames fun q hq => Part.ignored_view ?_
  rintro rfl
  exact Bool.noConfusion (h.symm.trans hq)

section

variable {env : Env} {w w' : World} {u : Unit} {oracle : Address}

/-- The parts that a slash does not write. -/
theorem Slashed.view_eq {bps : ℤ} (h : Slashed env w oracle bps w') (p : Part)
    (hs : p ≠ .stakes) (ht : p ≠ .tokens) : p.view w' = p.view w := by
  cases h <;> cases p <;> first
    | rfl
    | exact absurd rfl hs
    | exact absurd rfl ht

theorem Slashed.control {bps : ℤ} (h : Slashed env w oracle bps w') : w'.control = w.control :=
  h.view_eq .control (by simp) (by simp)

theorem slashSubmitters_view_eq {candidates : List CandidateTally}
    (h : slashSubmitters candidates env w = .ok u w') (p : Part) (hs : p ≠ .stakes)
    (ht : p ≠ .tokens) : p.view w' = p.view w :=
  (slashSubmitters_frames (Part.ignored_view hs.symm) (Part.ignored_view ht.symm) _).ok h

end

end Checkmate.Oracle

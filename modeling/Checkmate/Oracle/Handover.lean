import Checkmate.Host.Since
import Checkmate.Oracle.Frames

/-!
# The admin role and its handover

`proposeAdmin` stores a nomination together with the admin who made it, and `acceptAdmin`
checks that this admin is in office. The check compares two addresses, so it does not see
that the role left the proposer and came back. That can only happen through `updateAdmin` :
`acceptAdmin` removes the stored proposal.

`acceptAdmin_since` : as long as no `updateAdmin` gives the role back to the maker of the
stored proposal, a proposal is accepted only if its maker has been the admin, and it has
been the stored one, ever since it was made.
-/

namespace Checkmate.Oracle

open Tx

/-- The admin and the stored proposal. -/
def World.office (w : World) : Option Address × Option PendingAdminProposal :=
  (w.control.admin, w.control.pendingAdmin)

/-- What a call that returns does to the admin role. -/
inductive Handover (w w' : World) : Call → Prop
  | initialized (admin : Address) (hnone : w.control.admin = none)
      (h : w'.office = (some admin, w.control.pendingAdmin)) :
      Handover w w' (.initializeOracle admin)
  | updated (newAdmin : Address) (hsome : w.control.admin.isSome = true)
      (h : w'.office = (some newAdmin, w.control.pendingAdmin)) :
      Handover w w' (.updateAdmin newAdmin)
  | proposed (currentAdmin newAdmin : Address) (hadmin : w.control.admin = some currentAdmin)
      (h : w'.office = (some currentAdmin, some ⟨currentAdmin, newAdmin⟩)) :
      Handover w w' (.proposeAdmin newAdmin)
  | accepted (proposal : PendingAdminProposal) (hpending : w.control.pendingAdmin = some proposal)
      (hadmin : w.control.admin = some proposal.proposer)
      (h : w'.office = (some proposal.pendingAdmin, none)) : Handover w w' .acceptAdmin
  | kept (call : Call) (hcall : call ≠ .acceptAdmin) (h : w'.office = w.office) :
      Handover w w' call

section

variable {env : Env} {w w' : World} {u : Unit}

theorem acceptAdmin_ok (h : acceptAdmin env w = .ok u w') :
    ∃ proposal, w.control.pendingAdmin = some proposal ∧ w.control.admin = some proposal.proposer ∧
      w' = w.withControl
        { w.control with admin := some proposal.pendingAdmin, pendingAdmin := none } := by
  simp only [acceptAdmin, bind_ok_iff, get_ok_iff, orFail_ok_iff, requireAuth_ok_iff,
    reject_ok_iff, modifyControl_ok_iff, not_not] at h
  obtain ⟨_, _, ⟨rfl, rfl⟩, proposal, _, ⟨hpending, rfl⟩, _, _, ⟨-, rfl⟩, _, _, ⟨hadmin, rfl⟩, _,
    _, ⟨rfl, rfl⟩, rfl⟩ := h
  exact ⟨proposal, hpending, hadmin, rfl⟩

theorem Call.exec_handover {call : Call} (h : call.exec env w = .ok u w') : Handover w w' call := by
  cases call with
  | initializeOracle admin =>
    simp [Call.exec, Oracle.initializeOracle] at h
    obtain ⟨hnone, rfl⟩ := h
    exact .initialized admin hnone rfl
  | updateAdmin newAdmin =>
    simp [Call.exec, Oracle.updateAdmin] at h
    obtain ⟨⟨admin, hadmin, -⟩, rfl⟩ := h
    exact .updated newAdmin (by simp [hadmin]) rfl
  | proposeAdmin newAdmin =>
    simp [Call.exec, Oracle.proposeAdmin] at h
    obtain ⟨admin, ⟨hadmin, -⟩, rfl⟩ := h
    exact .proposed admin newAdmin hadmin (by simp [World.office, hadmin])
  | acceptAdmin =>
    obtain ⟨proposal, hpending, hadmin, rfl⟩ := acceptAdmin_ok h
    exact .accepted proposal hpending hadmin rfl
  | pause | unpause =>
    simp only [Call.exec, Oracle.pause, Oracle.unpause, bind_ok_iff, requireAdmin_ok_iff,
      get_ok_iff, reject_ok_iff, modifyControl_ok_iff] at h
    obtain ⟨_, _, ⟨-, -, rfl⟩, _, _, ⟨rfl, rfl⟩, _, _, ⟨-, rfl⟩, rfl⟩ := h
    exact .kept _ (by simp) rfl
  | setTreasury | setSlashingGracePeriod =>
    simp only [Call.exec, Oracle.setTreasury, Oracle.setSlashingGracePeriod, bind_ok_iff,
      requireAdmin_ok_iff, modifyControl_ok_iff] at h
    obtain ⟨_, _, ⟨-, -, rfl⟩, rfl⟩ := h
    exact .kept _ (by simp) rfl
  | setConsensusThreshold | setSlaThreshold =>
    simp only [Call.exec, Oracle.setConsensusThreshold, Oracle.setSlaThreshold, bind_ok_iff,
      requireAdmin_ok_iff, reject_ok_iff, modifyControl_ok_iff] at h
    obtain ⟨_, _, ⟨-, -, rfl⟩, _, _, ⟨-, rfl⟩, rfl⟩ := h
    exact .kept _ (by simp) rfl
  | _ =>
    have hcontrol : w'.control = w.control := (Call.exec_keeps .control rfl).ok h
    exact .kept _ (by simp) (by simp [World.office, hcontrol])

end

/-! ## Proposals over a run -/

/-- The proposal is the stored one after the event, and its maker the admin. -/
def Stands (proposal : PendingAdminProposal) (w : World) (e : Event) : Prop :=
  (step w e).office = (some proposal.proposer, some proposal)

instance (proposal : PendingAdminProposal) : DecidableRel (Stands proposal) := fun _ _ =>
  inferInstanceAs (Decidable (_ = _))

/-- The nominee of a call of `proposeAdmin`. -/
def Event.nominee : Event → Option (Env × Address)
  | .invoke env (.proposeAdmin newAdmin) => some (env, newAdmin)
  | _ => none

/-- The admin makes the proposal. -/
def Proposed (proposal : PendingAdminProposal) (w : World) (e : Event) : Prop :=
  (∃ n ∈ e.nominee, n.2 = proposal.pendingAdmin ∧ Commits n.1 (.proposeAdmin n.2) w) ∧
    w.control.admin = some proposal.proposer ∧ Stands proposal w e

instance (proposal : PendingAdminProposal) : DecidableRel (Proposed proposal) := fun _ _ =>
  inferInstanceAs (Decidable (_ ∧ _))

/-- `updateAdmin` does not bring the maker of the stored proposal back into office. -/
def NoReturn (w : World) : Event → Prop
  | .invoke _ (.updateAdmin newAdmin) =>
    ∀ proposal, w.control.pendingAdmin = some proposal → proposal.proposer = newAdmin →
      w.control.admin = some newAdmin
  | _ => True

/-- If the maker of the stored proposal is the admin, it has been since it made it. -/
structure Upheld (ledger : Ledger Address) (es : List Event) : Prop where
  admin_isSome : (run step (.deployed ledger) es).control.pendingAdmin.isSome = true →
    (run step (.deployed ledger) es).control.admin.isSome = true
  since : ∀ proposal,
    (run step (.deployed ledger) es).office = (some proposal.proposer, some proposal) →
      Since step (Proposed proposal) (Stands proposal) (.deployed ledger) es

section

variable {ledger : Ledger Address} {es : List Event} {e : Event}

theorem Upheld.of_office_eq (h : Upheld ledger es)
    (he : (step (run step (.deployed ledger) es) e).office =
      (run step (.deployed ledger) es).office) : Upheld ledger (es ++ [e]) where
  admin_isSome := by
    obtain ⟨hadmin, hpending⟩ := Prod.mk.inj he
    rw [run_snoc, hadmin, hpending]
    exact h.admin_isSome
  since proposal hoffice := by
    rw [run_snoc] at hoffice
    exact (h.since proposal (he.symm.trans hoffice)).later hoffice

theorem Upheld.of_no_proposal {admin : Address}
    (he : (step (run step (.deployed ledger) es) e).office = (some admin, none)) :
    Upheld ledger (es ++ [e]) where
  admin_isSome _ := by
    rw [run_snoc, (Prod.mk.inj he).1]
    rfl
  since proposal hoffice := by
    rw [run_snoc, he] at hoffice
    exact absurd (Prod.mk.inj hoffice).2 (by simp)

theorem Upheld.snoc (h : Upheld ledger es) (he : NoReturn (run step (.deployed ledger) es) e) :
    Upheld ledger (es ++ [e]) := by
  cases e with
  | credit => exact h.of_office_eq rfl
  | debit =>
    refine h.of_office_eq ?_
    simp only [step]
    split <;> rfl
  | invoke env call =>
    by_cases hc : Commits env call (run step (.deployed ledger) es)
    · have hstep := Call.exec_handover hc.exec_eq
      cases hstep with
      | initialized admin hnone hoffice =>
        have hpending : (run step (.deployed ledger) es).control.pendingAdmin = none := by
          by_contra hsome
          simpa [hnone] using h.admin_isSome (Option.isSome_iff_ne_none.mpr hsome)
        exact .of_no_proposal (hpending ▸ hoffice)
      | updated newAdmin hsome hoffice =>
        refine ⟨fun _ => by rw [run_snoc, (Prod.mk.inj hoffice).1]; rfl, fun proposal hp => ?_⟩
        rw [run_snoc] at hp
        obtain ⟨hproposer, hpending⟩ := Prod.mk.inj (hoffice.symm.trans hp)
        -- the maker of the proposal was in office before the update
        have hbefore := he proposal hpending (Option.some.inj hproposer).symm
        exact (h.since proposal (Prod.ext (hbefore.trans hproposer) hpending)).later hp
      | proposed currentAdmin newAdmin hadmin hoffice =>
        refine ⟨fun _ => by rw [run_snoc, (Prod.mk.inj hoffice).1]; rfl, fun proposal hp => ?_⟩
        rw [run_snoc] at hp
        obtain ⟨-, hproposal⟩ := Prod.mk.inj (hoffice.symm.trans hp)
        obtain rfl := Option.some.inj hproposal
        exact .now ⟨⟨(env, newAdmin), rfl, rfl, hc⟩, hadmin, hp⟩
      | accepted proposal hpending hadmin hoffice => exact .of_no_proposal hoffice
      | kept _ _ hoffice => exact h.of_office_eq hoffice
    · refine h.of_office_eq ?_
      rw [step_of_not_commits hc]

/-- In a run where no `updateAdmin` brings the maker of the stored proposal back into office,
`acceptAdmin` returns only if the stored proposal was made by the admin of that moment, who
has been the admin at every moment since, and it has been the stored one. -/
theorem acceptAdmin_since {env : Env} (h : Along step NoReturn (.deployed ledger) es)
    (hc : Commits env .acceptAdmin (run step (.deployed ledger) es)) :
    ∃ proposal, (run step (.deployed ledger) es).control.pendingAdmin = some proposal ∧
      Since step (Proposed proposal) (Stands proposal) (.deployed ledger) es := by
  have hupheld : Upheld ledger es :=
    history_inv ⟨fun h => by simp [World.deployed] at h, fun p h => by
      simp [World.office, World.deployed] at h⟩ (fun _ _ hI he => hI.snoc he) h
  obtain ⟨proposal, hpending, hadmin, -⟩ := acceptAdmin_ok hc.exec_eq
  exact ⟨proposal, hpending, hupheld.since proposal (Prod.ext hadmin hpending)⟩

end

/-- Admin 1 nominates 2. -/
def nomination : List Event :=
  [.invoke (.plain [] 0 0) (.initializeOracle (.ext 1)),
    .invoke (.plain [1] 0 0) (.proposeAdmin (.ext 2))]

theorem acceptAdmin_since_nomination : Along step NoReturn (.deployed plainLedger) nomination ∧
      Commits (.plain [2] 0 0) .acceptAdmin (run step (.deployed plainLedger) nomination) ∧
      ∃ proposal,
        (run step (.deployed plainLedger) nomination).control.pendingAdmin = some proposal ∧
          Since step (Proposed proposal) (Stands proposal) (.deployed plainLedger) nomination := by
  have hc : Commits (.plain [2] 0 0) .acceptAdmin
      (run step (.deployed plainLedger) nomination) := by decide +kernel
  have hal : Along step NoReturn (.deployed plainLedger) nomination := ⟨trivial, trivial, trivial⟩
  exact ⟨hal, hc, acceptAdmin_since hal hc⟩

/-- The role goes from 1 to 3 and back, and 2 can still accept. -/
theorem acceptAdmin_after_return :
    let es := nomination ++
      [.invoke (.plain [1] 0 0) (.updateAdmin (.ext 3)),
        .invoke (.plain [3] 0 0) (.updateAdmin (.ext 1))]
    Commits (.plain [2] 0 0) .acceptAdmin (run step (.deployed plainLedger) es) ∧
      ¬∃ proposal, (run step (.deployed plainLedger) es).control.pendingAdmin = some proposal ∧
        Since step (Proposed proposal) (Stands proposal) (.deployed plainLedger) es := by
  intro es
  refine ⟨by decide +kernel, ?_⟩
  rintro ⟨proposal, hpending, hsince⟩
  have hproposal : (run step (.deployed plainLedger) es).control.pendingAdmin =
      some ⟨.ext 1, .ext 2⟩ := by decide +kernel
  obtain rfl := Option.mem_unique hproposal hpending
  exact absurd hsince (by decide +kernel)

end Checkmate.Oracle

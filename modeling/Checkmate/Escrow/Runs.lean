import Checkmate.Escrow.Refine
import Checkmate.Escrow.Writes

/-!
# Invariants of the book along runs

An initialized contract stays initialized, so `initialize` never comes a second time.
Then a run of the contract is a run of the book : every invocation makes changes of its
action, and what happens outside the contract only adds to its balances (`Drift`).

`run_book_inv` is the rule that the invariants of the contract are proved with.
-/

namespace Checkmate.Escrow

variable {env : Env} {w w' : World} {u : Unit} {call : Call} {I : Book → Prop}

/-- An initialized contract cannot be initialized again. -/
theorem initializeContract_unset {oracle admin : Address}
    (h : initializeContract oracle admin env w = .ok u w') : ¬w.control.oracle.isSome = true := by
  simp only [initializeContract, Tx.bind_ok_iff, Tx.get_ok_iff, Tx.reject_ok_iff] at h
  obtain ⟨_, _, ⟨rfl, rfl⟩, _, _, ⟨hnone, -⟩, -⟩ := h
  exact hnone

/-- Administration leaves the book and the register alone. -/
theorem exec_administer (h : call.exec env w = .ok u w')
    (hcall : call.action = .administer) (hw : w.control.oracle.isSome = true) :
    w'.book = w.book ∧ w'.register = w.register := by
  cases call with
  | initializeContract => exact absurd hw (initializeContract_unset h)
  | control =>
    obtain ⟨c', -, rfl⟩ := onControl_ok_iff.mp h
    exact ⟨rfl, rfl⟩
  | _ => exact Action.noConfusion hcall

/-- Outside administration the settings of an initialized contract change with the authorisations
and the rotation. -/
theorem exec_control_inv {Q : Control → Prop} (h : call.exec env w = .ok u w')
    (hw : w.control.oracle.isSome = true) (hauth : ∀ c a, Q c → Q (c.useAuth a))
    (hrotation : ∀ c rot, c.getRotationState.temp = some rot →
      ¬(env.timestamp < rot.expiry ∧ c.oracle = some rot.oldOracle) → Q c → Q c.dropRotation)
    (hcontrol : ∀ k c', call = .control k → k.exec env w.control = .ok () c' → Q c')
    (hQ : Q w.control) : Q w'.control := by
  cases call with
  | initializeContract => exact absurd hw (initializeContract_unset h)
  | control k =>
    obtain ⟨c', hc, rfl⟩ := onControl_ok_iff.mp h
    exact hcontrol k c' rfl hc
  | _ =>
    refine Tx.Maintains.ok (P := fun w => Q w.control)
      (Call.exec_maintains fun k hk => Write.keeps_control ?_ hauth hrotation) hQ h
    rintro rfl
    exact Bool.noConfusion hk

theorem exec_oracle (h : call.exec env w = .ok u w') (hw : w.control.oracle.isSome = true) :
    w'.control.oracle.isSome = true :=
  exec_control_inv (Q := fun c => c.oracle.isSome = true) h hw (fun _ _ hc => hc)
    (fun _ _ _ _ hc => hc) (fun k _ _ hc => k.exec_keeps_oracle.ok hw hc) hw

/-! ## Runs -/

/-- Something other than the contract : only balances change, and the contract's own
balances do not fall. -/
def Drift (b b' : Book) : Prop :=
  (∃ l, b' = { b with ledger := l }) ∧ ∀ token, b.ledger token .self ≤ b'.ledger token .self

theorem step_drift {e : Event} (he : ∀ env call, e ≠ .invoke env call) :
    Drift w.book (step w e).book := by
  cases e with
  | invoke env call => exact absurd rfl (he env call)
  | credit =>
    refine ⟨⟨_, rfl⟩, fun t => ?_⟩
    simp only [step, World.book, Ledger.credit]
    split <;> omega
  | debit token holder =>
    by_cases hself : holder = .self
    · simp only [step, hself, if_true]
      exact ⟨⟨_, rfl⟩, fun t => le_rfl⟩
    · simp only [step, hself, if_false]
      refine ⟨⟨_, rfl⟩, fun t => ?_⟩
      simp [World.book, Ledger.debit, Ne.symm hself]
  | dropGuard => exact ⟨⟨_, rfl⟩, fun t => le_rfl⟩

/-- What every change of an invocation keeps, in a part of the state, is kept by the invocation. A
call that is not a batch makes one change. -/
theorem invoke_view_inv {β : Type} {view : World → β} {R : β → β → Prop} {I : β → Prop}
    (hexec : ∀ w', call.exec env w.fresh = .ok () w' → view w' = view w ∨
      (call.isBatch = false → Relation.ReflGen R (view w) (view w')) ∧
        Relation.ReflTransGen R (view w) (view w'))
    (hfresh : ∀ w', view (World.fresh w') = view w') (hI : I (view w))
    (hchange : ∀ b b', Commits env call.exec w →
      (call.isBatch = false → b = view w ∧ b' = view (step w (.invoke env call))) → I b →
      R b b' → I b') : I (view (step w (.invoke env call))) := by
  by_cases hc : Commits env call.exec w
  case neg => rwa [step, invoke_of_not_commits hc]
  obtain ⟨w', h⟩ := id hc
  have hstep : view (step w (.invoke env call)) = view w' := by
    rw [step, invoke_of_ok h, hfresh]
  rw [hstep] at hchange ⊢
  rcases hexec w' h with heq | ⟨hone, hmany⟩
  · rwa [heq]
  cases hbatch : call.isBatch with
  | false =>
    rcases Relation.reflGen_iff _ _ _ |>.mp (hone hbatch) with heq | hone
    · rwa [heq]
    · exact hchange _ _ hc (fun _ => ⟨rfl, rfl⟩) hI hone
  | true =>
    generalize view w' = b' at hmany
    induction hmany with
    | refl => exact hI
    | tail _ hone ih => exact hchange _ _ hc (by simp [hbatch]) ih hone

theorem invoke_inv (hw : w.control.oracle.isSome = true)
    (hI : I w.book) (hchange : ∀ b b', Commits env call.exec w →
      (call.isBatch = false → b = w.book ∧ b' = (step w (.invoke env call)).book) → I b →
      Change env w.control.config w.control.getDisputePeriod call.action b b' → I b') :
    I (step w (.invoke env call)).book := by
  refine invoke_view_inv (fun w' h => ?_) (fun _ => rfl) hI hchange
  by_cases hcall : call.action = .administer
  · exact .inl (exec_administer h hcall hw).1
  · exact .inr ⟨fun hbatch => (exec_effect h hcall hbatch).book, (exec_effects h hcall).book⟩

/-- What a call that returns keeps, and balances and deposit guards do not show in, is kept by
every event. -/
theorem step_keeps {P : World → Prop} {e : Event} (hw : P w)
    (hexec : ∀ (env : Env) (call : Call) (w' : World), e = .invoke env call →
      call.exec env w.fresh = .ok () w' → P w'.fresh)
    (hledger : ∀ l, P { w with ledger := l }) (hguard : ∀ id, P (w.withDepositGuard id false)) :
    P (step w e) := by
  cases e with
  | invoke env call =>
    by_cases hc : Commits env call.exec w
    · obtain ⟨w', h⟩ := hc
      rw [step, invoke_of_ok h]
      exact hexec env call w' rfl h
    · rwa [step, invoke_of_not_commits hc]
  | credit => exact hledger _
  | debit =>
    simp only [step]
    split
    · exact hw
    · exact hledger _
  | dropGuard id => exact hguard id

theorem step_oracle (hw : w.control.oracle.isSome = true) (e : Event) :
    (step w e).control.oracle.isSome = true := by
  refine step_keeps (P := fun w => w.control.oracle.isSome = true) hw ?_ (fun _ => hw) fun _ => hw
  intro env call w' _ h
  have horacle : w'.control.oracle.isSome = true := exec_oracle h hw
  exact horacle

/-- A book without matches. -/
def Book.empty (l : Ledger Address) : Book where
  matchMap _ := none
  matchCount := 0
  pendingWinner _ := none
  escrow _ := 0
  ledger := l
  log := []

theorem Initial.book {w0 : World} (h : Initial w0) :
    w0.control.oracle.isSome = true ∧ ∃ l, w0.book = Book.empty l := by
  obtain ⟨oracle, admin, l, -, rfl⟩ := h.eq_mk
  exact ⟨rfl, l, rfl⟩

/-- The invariant rule : what holds of an empty book, is kept by what happens outside
the contract and by every change of an allowed invocation, holds of the book along every
allowed run. -/
theorem run_book_inv {P : World → Event → Prop} (hempty : ∀ l, I (.empty l))
    (hdrift : ∀ {b b'}, Drift b b' → I b → I b')
    (hchange : ∀ {w env call b b'}, P w (.invoke env call) → Commits env call.exec w →
      (call.isBatch = false → b = w.book ∧ b' = (step w (.invoke env call)).book) → I b →
      Change env w.control.config w.control.getDisputePeriod call.action b b' → I b')
    {w0 : World} {es : List Event} (h0 : Initial w0) (hal : Along step P w0 es) :
    I (run step w0 es).book := by
  have hinit := h0.book
  refine (run_inv (I := fun w => w.control.oracle.isSome = true ∧ I w.book) ?_ ⟨hinit.1, ?_⟩ hal).2
  · rintro w e ⟨hw, hI⟩ hP
    refine ⟨step_oracle hw e, ?_⟩
    cases e with
    | invoke => exact invoke_inv hw hI fun b b' hc hb hIb h => hchange hP hc hb hIb h
    | _ => exact hdrift (step_drift (by simp)) hI
  · obtain ⟨l, hl⟩ := hinit.2
    rw [hl]
    exact hempty l

/-- The invariant rule for reachable states. -/
theorem Reachable.book_inv (hempty : ∀ l, I (.empty l)) (hdrift : ∀ {b b'}, Drift b b' → I b → I b')
    (hchange : ∀ {env config period a b b'}, I b → Change env config period a b b' → I b')
    (h : Reachable w) : I w.book := by
  obtain ⟨w0, es, h0, rfl⟩ := h
  exact run_book_inv (P := fun _ _ => True) hempty hdrift (fun _ _ _ hI h => hchange hI h) h0
    (along_true _ _)

theorem Reachable.oracle (h : Reachable w) : w.control.oracle.isSome = true := by
  obtain ⟨w0, es, h0, rfl⟩ := h
  exact run_inv (I := fun w => w.control.oracle.isSome = true)
    (fun _ e hw _ => step_oracle hw e) h0.book.1 (along_true w0 es)

/-- The invariant rule for the settings. -/
theorem Reachable.control_inv {Q : Control → Prop} (hw : Reachable w)
    (hinit : ∀ {w}, Initial w → Q w.control) (hfresh : ∀ c, Q c → Q c.fresh)
    (hauth : ∀ c a, Q c → Q (c.useAuth a)) (hdrop : ∀ c, Q c → Q c.dropRotation)
    (hcontrol : ∀ {env k c c'}, ControlCall.exec k env c = .ok () c' → Q c → Q c') :
    Q w.control := by
  obtain ⟨w0, es, h0, rfl⟩ := hw
  refine (run_inv (I := fun w => w.control.oracle.isSome = true ∧ Q w.control)
    (fun w e hw _ => ⟨step_oracle hw.1 e, ?_⟩) ⟨h0.book.1, hinit h0⟩ (along_true w0 es)).2
  refine step_keeps (P := fun w => Q w.control) hw.2 ?_ (fun _ => hw.2) fun _ => hw.2
  intro env call w' _ h
  have hQ := hfresh _ hw.2
  exact hfresh _ (exec_control_inv (w := w.fresh) h hw.1 hauth (fun c _ _ _ => hdrop c)
    (fun _ _ _ hc => hcontrol hc hQ) hQ)

end Checkmate.Escrow

import Checkmate.Escrow.Lifecycle

/-!
# The register of matches

What no change of the register changes, and the rule that its invariants are proved with
(`run_register_inv`). A deposit that fails inside a batch leaves the lists half written, so
the rule asks what a change of the index alone keeps.
-/

namespace Checkmate.Escrow

open Function

variable {env : Env} {w w' : World} {period i : ℕ} {u : Unit} {a : Action} {m m' : Match}
  {ix ix' : Index} {st st' : Stats} {caller player : Address} {batch : Bool} {winner : Winner}
  {call : Call}

/-- No step changes the terms of a match or its bracket. -/
theorem FileStep.terms (h : FileStep env period i m ix st a m' ix' st') :
    m'.terms = m.terms ∧ m'.bracketId = m.bracketId := by
  cases h
  case deposit side _ _ _ => cases side <;> exact ⟨rfl, rfl⟩
  case activate side _ _ _ _ => cases side <;> exact ⟨rfl, rfl⟩
  case rollbackVote side _ _ => cases side <;> exact ⟨rfl, rfl⟩
  case rollback side _ _ => cases side <;> exact ⟨rfl, rfl⟩
  case claim side _ => cases side <;> exact ⟨rfl, rfl⟩
  all_goals exact ⟨rfl, rfl⟩

theorem isPlayer_of_terms {p : Address} (h : m'.terms = m.terms) :
    m'.isPlayer p ↔ m.isPlayer p := by
  have h1 : m'.player1 = m.player1 := congrArg Terms.player1 h
  have h2 : m'.player2 = m.player2 := congrArg Terms.player2 h
  rw [Match.isPlayer, Match.isPlayer, h1, h2]

/-- What holds of every register : ids from the count on are free, records carry their id
and name two players. -/
structure Register.Sound (r : Register) : Prop where
  free : ∀ id, r.matchCount ≤ id → r.matchMap id = none
  id_eq : ∀ id m, r.matchMap id = some m → m.id = id
  players : ∀ id m, r.matchMap id = some m → m.player1 ≠ m.player2

theorem Register.Sound.change {r r' : Register} (hr : r.Sound)
    (h : FileChange env period a r r') : r'.Sound := by
  cases h with
  | opening p rateLedger hp =>
    refine ⟨fun id hid => ?_, fun id m hm => ?_, fun id m hm => ?_⟩
    · simp only [Register.opened_matchCount] at hid
      rw [Register.opened_matchMap, update_of_ne (by omega)]
      exact hr.free id (by omega)
    · rcases eq_some_of_update hm with ⟨rfl, rfl⟩ | ⟨-, hm⟩
      · rfl
      · exact hr.id_eq id m hm
    · rcases eq_some_of_update hm with ⟨rfl, rfl⟩ | ⟨-, hm⟩
      · exact hp.players
      · exact hr.players id m hm
  | @moving _ i m m' a ix st hm hstep =>
    have hterms := hstep.terms.1
    refine ⟨fun id hid => ?_, fun id m1 hm1 => ?_, fun id m1 hm1 => ?_⟩
    · have hfree := hr.free id hid
      have hne : id ≠ i := by
        rintro rfl
        cases hfree.symm.trans hm
      rwa [Register.moved_matchMap, update_of_ne hne]
    · rcases eq_some_of_update hm1 with ⟨rfl, rfl⟩ | ⟨-, hm1⟩
      · exact (congrArg Terms.id hterms).trans (hr.id_eq _ m hm)
      · exact hr.id_eq id m1 hm1
    · rcases eq_some_of_update hm1 with ⟨rfl, rfl⟩ | ⟨-, hm1⟩
      · have hp1 : m1.player1 = m.player1 := congrArg Terms.player1 hterms
        have hp2 : m1.player2 = m.player2 := congrArg Terms.player2 hterms
        rw [hp1, hp2]
        exact hr.players _ m hm
      · exact hr.players id m1 hm1

theorem Register.Sound.lt_matchCount {r : Register} (hr : r.Sound)
    (hm : r.matchMap i = some m) : i < r.matchCount := by
  by_contra hle
  exact absurd ((hr.free i (by omega)).symm.trans hm) (by simp)

/-! ## Runs -/

theorem invoke_register_inv {I : Register → Prop}
    (hw : w.control.oracle.isSome = true) (hI : I w.register)
    (hindex : Commits env call.exec w → call.action = .deposit true →
      ∀ r ix, I r → I { r with index := ix })
    (hchange : ∀ r r', Commits env call.exec w →
      (call.isBatch = false → r = w.register ∧ r' = (step w (.invoke env call)).register) →
      I r → FileChange env w.control.getDisputePeriod call.action r r' → I r') :
    I (step w (.invoke env call)).register := by
  refine invoke_view_inv (R := Refiles env w.control.getDisputePeriod call.action) (fun w' h => ?_)
    (fun _ => rfl) hI ?_
  · by_cases hcall : call.action = .administer
    · exact .inl (exec_administer h hcall hw).2
    · exact .inr ⟨fun hbatch => (exec_effect h hcall hbatch).register,
        (exec_effects h hcall).register⟩
  · rintro r r' hc hr hIr (hone | ⟨hdeposit, ix, rfl⟩)
    · exact hchange r r' hc hr hIr hone
    · exact hindex hc hdeposit r ix hIr

theorem step_register_of_not_invoke {e : Event} (he : ∀ env call, e ≠ .invoke env call) :
    (step w e).register = w.register := by
  cases e with
  | invoke env call => exact absurd rfl (he env call)
  | debit =>
    simp only [step]
    split <;> rfl
  | _ => rfl

/-- The register of a fresh contract. -/
def Register.empty : Register where
  matchMap _ := none
  matchCount := 0
  index := {}
  stats := {}

theorem Register.Sound.empty : Register.empty.Sound :=
  ⟨fun _ _ => rfl, fun _ _ h => absurd h (by simp [Register.empty]),
    fun _ _ h => absurd h (by simp [Register.empty])⟩

theorem Initial.register {w0 : World} (h : Initial w0) : w0.register = .empty := by
  obtain ⟨oracle, admin, l, -, rfl⟩ := h.eq_mk
  rfl

/-- An invocation of `depositBatch`. -/
def Event.batchesDeposits : Event → Bool
  | .invoke _ (.depositBatch _) => true
  | _ => false

theorem Event.action_ne_of_not_batchesDeposits {env : Env}
    (h : (Event.invoke env call).batchesDeposits = false) : call.action ≠ .deposit true := by
  cases call with
  | depositBatch => exact Bool.noConfusion h
  | _ => simp [Call.action]

/-- The invariant rule for the register. Only batches of deposits can change the index on
its own. -/
theorem run_register_inv {I : Register → Prop} {P : World → Event → Prop} (hempty : I .empty)
    (hindex : ∀ {w env call}, P w (.invoke env call) → Commits env call.exec w →
      call.action = .deposit true → ∀ r ix, I r → I { r with index := ix })
    (hchange : ∀ {w env call r r'}, P w (.invoke env call) → Commits env call.exec w →
      (call.isBatch = false → r = w.register ∧ r' = (step w (.invoke env call)).register) →
      I r → FileChange env w.control.getDisputePeriod call.action r r' → I r')
    {w0 : World} {es : List Event} (h0 : Initial w0) (hal : Along step P w0 es) :
    I (run step w0 es).register := by
  refine (run_inv (I := fun w => w.control.oracle.isSome = true ∧ I w.register) ?_
    ⟨h0.book.1, ?_⟩ hal).2
  · rintro w e ⟨hw, hI⟩ hP
    refine ⟨step_oracle hw e, ?_⟩
    cases e with
    | invoke =>
      exact invoke_register_inv hw hI (hindex hP) fun r r' hc hr hIr h => hchange hP hc hr hIr h
    | _ =>
      rw [step_register_of_not_invoke (by simp)]
      exact hI
  · rw [h0.register]
    exact hempty

end Checkmate.Escrow

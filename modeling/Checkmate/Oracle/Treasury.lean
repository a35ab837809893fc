import Checkmate.Oracle.Frames
import Checkmate.Oracle.Outcomes

/-!
# Where slashed stake goes

`setTreasury` stores the address that slashed stake is to go to, and `getTreasury` returns it,
or the admin's if none is stored. Neither of the functions that take stake calls it :
`finalizeSlash` and `slashBps` pay the admin (`admin_of_slashed`). `slash_to_treasury_iff` : a
slash reaches the treasury if and only if none is set or it is the admin.
-/

namespace Checkmate.Oracle

/-- The oracle whose stake a movement takes from. -/
def Cause.slashed : Cause → Option Address
  | .stagedSlash oracle _ => some oracle
  | .slash oracle _ => some oracle
  | _ => none

/-- The token movements that an event makes, newest first. -/
def movements (w : World) (e : Event) : List Transfer :=
  (step w e).log.take ((step w e).log.length - w.log.length)

/-- All movements between two states satisfy `P`. -/
def Adds (P : Transfer → Prop) (w w' : World) : Prop :=
  ∃ ms : List Transfer, w'.log = ms ++ w.log ∧ ∀ t ∈ ms, P t

/-- The call is a second, different vote of the oracle on a match without result. -/
def Equivocates (call : Call) (w : World) (oracle : Address) : Prop :=
  ∃ s : Submission, s.call = call ∧ s.oracle = oracle ∧ w.results.result s.matchId = none ∧
    ∃ prev, w.votes.oracleVote (s.matchId, oracle) = some prev ∧ prev ≠ s.vote

/-- What a call makes a movement for. Stake that is taken goes to the admin. -/
def Explains (call : Call) (w : World) (t : Transfer) : Prop :=
  match t.cause with
  | .stake _ => True
  | .stagedSlash _ _ => w.control.admin = some t.target
  | .slash oracle bps => w.control.admin = some t.target ∧
      (bps = minoritySlashBps ∨ bps = equivocationSlashBps ∧ Equivocates call w oracle)
  | .swapIn => True
  | .swapOut => True

section

variable {env : Env} {w w' : World} {u : Unit} {oracle : Address} {P : Transfer → Prop}

theorem Adds.of_log_eq (h : w'.log = w.log) : Adds P w w' := ⟨[], h, by simp⟩

/-- One movement more. -/
theorem Adds.of_cons {t : Transfer} (h : w'.log = t :: w.log) (ht : P t) : Adds P w w' :=
  ⟨[t], h, by simpa using ht⟩

theorem Adds.trans {w1 w2 w3 : World} (h : Adds P w1 w2) (h' : Adds P w2 w3) : Adds P w1 w3 := by
  obtain ⟨ms, hlog, hms⟩ := h
  obtain ⟨ms', hlog', hms'⟩ := h'
  refine ⟨ms' ++ ms, by rw [hlog', hlog, List.append_assoc], fun t ht => ?_⟩
  rcases List.mem_append.mp ht with ht | ht
  · exact hms' t ht
  · exact hms t ht

theorem Slashed.adds {bps : ℤ} (h : Slashed env w oracle bps w')
    (hP : ∀ t : Transfer, w.control.admin = some t.target → t.cause = .slash oracle bps → P t) :
    Adds P w w' := by
  cases h with
  | spared | kept => exact .of_log_eq rfl
  | sent r admin l hr hpos hle hadmin => exact .of_cons rfl (hP _ hadmin rfl)

theorem slashSubmitters_adds {candidates : List CandidateTally} {call : Call} {w0 : World}
    (h : slashSubmitters candidates env w = .ok u w') (hw : w.control = w0.control) :
    Adds (Explains call w0) w w' := by
  refine (Tx.forEach_rel (R := fun w w' : World => w.control = w0.control →
      w'.control = w0.control ∧ Adds (Explains call w0) w w')
    (fun _ hw => ⟨hw, .of_log_eq rfl⟩) ?_ ?_ h hw).2
  · intro w1 w2 w3 h h' hw
    obtain ⟨hw2, hadds⟩ := h hw
    exact ⟨(h' hw2).1, hadds.trans (h' hw2).2⟩
  · intro a _ b w1 w2 hslash hw
    have hslashed := slashBps_ok hslash
    refine ⟨(hslashed.view_eq .control (by simp) (by simp)).trans hw, hslashed.adds ?_⟩
    intro t htarget hcause
    rw [hw] at htarget
    simpa [Explains, hcause] using htarget

theorem Submission.adds {s : Submission}
    (hvoted : Voted s.env w s.oracle s.matchId s.vote s.responseTimeMs w') :
    Adds (Explains s.call w) w w' := by
  cases hvoted with
  | late finalized hres hne _ hslash =>
    exact hslash.adds fun t htarget hcause => by simpa [Explains, hcause] using htarget
  | equivocated prev hres hlets hprev hne _ hslash =>
    refine hslash.adds fun t htarget hcause => ?_
    have hequivocates : Equivocates s.call w s.oracle := ⟨s, rfl, rfl, hres, prev, hprev, hne⟩
    simpa [Explains, hcause, hequivocates] using htarget
  | finalized hres hlets hnone hopen hreached w2 hslash =>
    have hadds : Adds (Explains s.call w) _ w2 := slashSubmitters_adds hslash rfl
    exact hadds
  | counted => exact .of_log_eq rfl

theorem Call.exec_adds {call : Call} (h : call.exec env w = .ok u w') :
    Adds (Explains call w) w w' := by
  cases call with
  | registerOracleWithStake =>
    obtain ⟨-, l, -, rfl⟩ := registerOracleWithStake_ok h
    exact .of_cons rfl trivial
  | finalizeSlash =>
    obtain ⟨admin, p, r, hadmin, -, -, -, ⟨-, rfl⟩ | ⟨l, -, -, rfl⟩⟩ := finalizeSlash_ok h
    · exact .of_log_eq rfl
    · exact .of_cons rfl hadmin
  | submitOracleResult oracle id gameId platform result responseTimeMs =>
    exact Submission.adds (s := ⟨env, oracle, id, ⟨gameId, platform, result⟩, responseTimeMs⟩)
      (submitOracleResult_ok ⟨gameId, platform, result⟩ h).2
  | resolveDisputedMatch id gameId platform result =>
    obtain ⟨admin, state, w2, -, -, -, -, hslash, rfl⟩ :=
      resolveDisputedMatch_ok ⟨gameId, platform, result⟩ h
    have hadds : Adds (Explains (.resolveDisputedMatch id gameId platform result) w) w w2 :=
      slashSubmitters_adds hslash rfl
    exact hadds
  | swap caller tokenIn tokenOut amountIn minAmountOut recipient =>
    obtain ⟨-, amountOut, l1, l2, -, -, -, rfl⟩ := swap_ok h
    have hin : Adds (Explains (.swap caller tokenIn tokenOut amountIn minAmountOut recipient) w) w
        (w.withTransfer ⟨tokenIn, caller, .self, amountIn, .swapIn⟩ l1) := .of_cons rfl trivial
    exact hin.trans (.of_cons rfl trivial)
  | _ =>
    have htokens : (w'.ledger, w'.log) = (w.ledger, w.log) := (Call.exec_keeps .tokens rfl).ok h
    exact .of_log_eq (Prod.mk.inj htokens).2

theorem movements_eq {e : Event} {ms : List Transfer} (h : (step w e).log = ms ++ w.log) :
    movements w e = ms := by
  rw [movements, h]
  simp

/-- Every movement is made by a call that explains it. -/
theorem step_movements {e : Event} {t : Transfer} (ht : t ∈ movements w e) :
    ∃ env call, e = .invoke env call ∧ Explains call w t := by
  cases e with
  | invoke env call =>
    by_cases hc : Commits env call w
    · obtain ⟨ms, hlog, hms⟩ := Call.exec_adds hc.exec_eq
      rw [movements_eq hlog] at ht
      exact ⟨env, call, rfl, hms t ht⟩
    · have hlog : (step w (.invoke env call)).log = [] ++ w.log := by
        rw [step_of_not_commits hc]
        rfl
      rw [movements_eq hlog] at ht
      exact absurd ht (by simp)
  | credit token holder amount =>
    have hlog : (step w (.credit token holder amount)).log = [] ++ w.log := rfl
    rw [movements_eq hlog] at ht
    exact absurd ht (by simp)
  | debit token holder amount =>
    have hlog : (step w (.debit token holder amount)).log = [] ++ w.log := by
      simp only [step]
      split <;> rfl
    rw [movements_eq hlog] at ht
    exact absurd ht (by simp)

/-- Every movement that takes stake goes to the admin. -/
theorem admin_of_slashed {e : Event} {t : Transfer} (ht : t ∈ movements w e)
    (hslash : t.cause.slashed.isSome = true) : w.control.admin = some t.target := by
  obtain ⟨env, call, -, hexplains⟩ := step_movements ht
  unfold Explains at hexplains
  cases hcause : t.cause with
  | stagedSlash => simpa [hcause] using hexplains
  | slash =>
    simp only [hcause] at hexplains
    exact hexplains.1
  | stake | swapIn | swapOut => simp [hcause, Cause.slashed] at hslash

theorem getTreasury_value (env : Env) (w : World) :
    (getTreasury env w).value = w.control.admin.map w.control.getTreasuryAddress := by
  rw [getTreasury, Tx.get_bind]
  cases hadmin : w.control.admin with
  | none | some => rfl

end

/-- A movement that takes stake goes to the address that `getTreasury` returns if and only if
no treasury is set or it is the admin. -/
theorem slash_to_treasury_iff {ledger : Ledger Address} {es : List Event} {e : Event}
    {t : Transfer} (env : Env) (ht : t ∈ movements (run step (.deployed ledger) es) e)
    (hslash : t.cause.slashed.isSome = true) :
    (getTreasury env (run step (.deployed ledger) es)).value = some t.target ↔
      (run step (.deployed ledger) es).control.treasury = none ∨
        (run step (.deployed ledger) es).control.treasury =
          (run step (.deployed ledger) es).control.admin := by
  have hadmin := admin_of_slashed ht hslash
  rw [getTreasury_value, hadmin, Option.map_some, Option.some.injEq, Control.getTreasuryAddress]
  cases (run step (.deployed ledger) es).control.treasury with
  | none | some => simp

/-- Oracle 2 has staked 100 of token 4, and the admin 1 has staged a slash of 30. -/
def stagedRun : List Event :=
  [.invoke (.plain [] 0 0) (.initializeOracle (.ext 1)),
    .invoke (.plain [2] 0 0) (.registerOracleWithStake (.ext 2) 100 (.ext 4)),
    .invoke (.plain [1] 0 0) (.slashOracle (.ext 2) 0 30)]

/-- What carrying it out moves. -/
def stagedTransfer : Transfer := ⟨.ext 4, .self, .ext 1, 30, .stagedSlash (.ext 2) 0⟩

theorem slash_to_treasury_iff_stagedRun :
    stagedTransfer ∈ movements (run step (.deployed plainLedger) stagedRun)
        (.invoke (.plain [] 0 0) (.finalizeSlash (.ext 2) 0)) ∧
      (getTreasury (.plain [] 0 0) (run step (.deployed plainLedger) stagedRun)).value =
        some stagedTransfer.target := by
  have hmem : stagedTransfer ∈ movements (run step (.deployed plainLedger) stagedRun)
      (.invoke (.plain [] 0 0) (.finalizeSlash (.ext 2) 0)) := by decide +kernel
  exact ⟨hmem, (slash_to_treasury_iff _ hmem rfl).mpr (.inl (by decide +kernel))⟩

/-- With a treasury set, it still goes to the admin. -/
theorem slash_not_to_treasury :
    let w := run step (.deployed plainLedger)
      (stagedRun ++ [.invoke (.plain [1] 0 0) (.setTreasury (.ext 9))])
    (getTreasury (.plain [] 0 0) w).value = some (.ext 9) ∧
      stagedTransfer ∈ movements w (.invoke (.plain [] 0 0) (.finalizeSlash (.ext 2) 0)) ∧
      stagedTransfer.target = .ext 1 := by
  intro w
  exact ⟨by decide +kernel, by decide +kernel, rfl⟩

end Checkmate.Oracle

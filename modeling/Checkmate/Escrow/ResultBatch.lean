import Checkmate.Host.Batch
import Checkmate.Escrow.Lifecycle

/-!
# Results in a batch and results one by one

`submitResultBatch` authorises the oracle once and settles entry after entry, going on after
an error. An entry that is accepted does what `submitResult` would do in the same state
(`submitResult_of_settleEntry`). An entry that is refused by the checks changes nothing. But
the deadline of a result is computed after the result has been stored, so an entry that
passes the checks and whose deadline does not fit into 32 bits is reported as failed and
leaves the match completed. The pot, computed even later, always fits. Hence the batch is
atomic entry by entry exactly if deadlines fit or there is nothing to settle
(`submitResultBatch_atomic_iff`).
-/

namespace Checkmate.Escrow

open Tx

variable {env : Env} {w w' s s' : World} {m : Match} {id period : ℕ} {winner : Winner}
  {e : Error} {x : ℕ × Winner} {results : List (ℕ × Winner)} {u : Unit}

/-! ## One entry -/

/-- An entry as the state finds it : a match that is funded and waits for its result. -/
def Settles (w : World) (x : ℕ × Winner) : Prop := ∃ m, SettleOpen w x.1 x.2 m

theorem settles_congr (h : s.matchMap = w.matchMap) : Settles s x ↔ Settles w x := by
  refine exists_congr fun m => ⟨fun ho => ?_, fun ho => ?_⟩
  · exact ⟨ho.winner, h ▸ ho.stored, ho.funded, ho.state⟩
  · exact ⟨ho.winner, h ▸ ho.stored, ho.funded, ho.state⟩

/-- A failing entry of a sound state has no effect, unless its deadline does not fit. -/
theorem settleEntry_err (hs : s.book.Sound) (h : settleEntry x env s = .err e s') :
    (s' = s ∧ ¬Settles s x) ∨
      s.control.getDisputePeriod ≠ 0 ∧ u32Max < env.sequence + s.control.getDisputePeriod ∧
        ∃ m, SettleOpen s x.1 x.2 m ∧ s' = s.resulted env x.1 x.2 m := by
  simp [settleEntry] at h
  rcases h with ⟨hsettled, -, rfl⟩ | ⟨-, h⟩
  · refine .inl ⟨rfl, ?_⟩
    rintro ⟨m, hopen⟩
    rw [hopen.stored] at hsettled
    rcases hopen.state with hstate | hstate <;> simp [hstate] at hsettled
  cases settleResult_err h with
  | rejected hnone =>
    refine .inl ⟨rfl, ?_⟩
    rintro ⟨m, hopen⟩
    exact hnone m hopen
  | @potOverflow m hopen _ hpot =>
    -- both players have paid in, so twice the stake fits
    have hsound := hs.stored x.1 m hopen.stored
    have hfits := hsound.fits hopen.funded.1 hopen.funded.2
    exact absurd (hpot.symm.trans (checkedMul_two hsound.terms.stake_pos hfits)) (by simp)
  | deadlineOverflow hopen hperiod hlt => exact .inr ⟨hperiod, hlt, _, hopen, rfl⟩

/-- A result that was recorded is not the state before. -/
theorem resulted_ne (hopen : SettleOpen s id winner m) : s.resulted env id winner m ≠ s := by
  intro heq
  have hmap : (s.resulted env id winner m).matchMap id = s.matchMap id := by
    rw [heq]
  rw [hopen.stored] at hmap
  have hm : m.resulted env winner = m := by simpa [World.resulted] using hmap
  have hstate : m.state = .completed := by rw [← hm]; rfl
  rcases hopen.state with h | h <;> simp [h] at hstate

/-! ## Agreement with `submitResult` -/

/-- The same ledger with other authorisations. -/
def Env.withAuths (env : Env) (auths : List Address) (h : Address.self ∉ auths) : Env :=
  { env with auths, self_notMem := h }

/-- From `w` to `w'` the state changes as by an invocation of `submitResult` that the oracle
authorises, but for what the oracle's authorisation writes. -/
def SubmitsAlone (env : Env) (x : ℕ × Winner) (w w' : World) : Prop :=
  ∀ (auths : List Address) (hself : Address.self ∉ auths) (oracle : Address),
    Commits (env.withAuths auths hself) (authorizeResult oracle) w →
    ∃ w1, submitResult x.1 x.2 oracle (env.withAuths auths hself) w.fresh = .ok () w1 ∧
      w1.withControl w'.control = w' ∧ w1.control.settings = w'.control.settings

theorem settleResult_withControl {auths : List Address} (hself : Address.self ∉ auths)
    {c : Control} (hperiod : c.getDisputePeriod = s.control.getDisputePeriod)
    (h : settleResult id winner env s = .ok u s') :
    settleResult id winner (env.withAuths auths hself) (s.withControl c) =
      .ok () (s'.withControl c) := by
  obtain ⟨m, hopen, h⟩ := settleResult_ok_iff.mp h
  have hopen' : SettleOpen (s.withControl c) id winner m :=
    ⟨hopen.winner, hopen.stored, hopen.funded, hopen.state⟩
  refine settleResult_ok_iff.mpr ⟨m, hopen', ?_⟩
  rw [World.withControl_control, hperiod]
  rcases h with ⟨hp, hpot, rfl⟩ | ⟨hp, balance, hdeadline, hbalance, rfl⟩
  · exact .inl ⟨hp, hpot, rfl⟩
  · exact .inr ⟨hp, balance, hdeadline, hbalance, rfl⟩

theorem settleResult_control (h : settleResult id winner env s = .ok u s') :
    s'.control = s.control := by
  obtain ⟨m, -, ⟨-, -, rfl⟩ | ⟨-, balance, -, -, rfl⟩⟩ := settleResult_ok_iff.mp h <;> rfl

/-- An accepted entry does what `submitResult` does. -/
theorem submitResult_of_settleEntry (h : settleEntry x env s = .ok u s') :
    SubmitsAlone env x s s' := by
  intro auths hself oracle hauth
  obtain ⟨w1, hauth⟩ := hauth
  obtain ⟨rotation, rfl⟩ := authorizeResult_ok hauth
  simp [settleEntry] at h
  have hsettle : settleResult x.1 x.2 (env.withAuths auths hself) _ = _ :=
    settleResult_withControl (s := s) hself
      (c := { s.fresh.control.useAuth oracle with oracleRotation := rotation }) rfl h.2
  refine ⟨_, bind_ok_iff.mpr ⟨(), _, hauth, hsettle⟩, rfl, ?_⟩
  rw [settleResult_control h.2]
  rfl

/-! ## Batches -/

/-- What is reported about an entry is what happened : an error means no effect, and no error
the effect of `submitResult`. -/
def EntryAtomic (env : Env) (x : ℕ × Winner) : Option Error → World → World → Prop
  | some _, w, w' => w' = w
  | none, w, w' => SubmitsAlone env x w w'

/-- The state after the first `n` entries of a batch that `caller` has authorised. -/
def afterResults (env : Env) (caller : Address) (w : World) (results : List (ℕ × Winner))
    (n : ℕ) : World :=
  run (Tx.entry settleEntry env) (w.fresh.withControl (w.fresh.control.useAuth caller))
    (results.take n)

/-- An entry that does not trap is atomic exactly if its failure has no effect. -/
theorem entryAtomic_iff (htrap : settleEntry x env s ≠ .trap) :
    EntryAtomic env x (Tx.report settleEntry env s x) s (Tx.entry settleEntry env s x) ↔
      ∀ e s', settleEntry x env s = .err e s' → s' = s := by
  cases hrun : settleEntry x env s with
  | trap => exact absurd hrun htrap
  | ok =>
    rw [report_of_ok hrun, entry_of_ok hrun]
    exact iff_of_true (submitResult_of_settleEntry hrun) (by simp)
  | err =>
    rw [Tx.report, hrun, entry_of_err hrun]
    simp [EntryAtomic]

/-- What a batch keeps : the soundness of the book and the dispute period. -/
theorem settleEntry_keeps (hs : s.book.Sound) (x : ℕ × Winner) :
    (Tx.entry settleEntry env s x).book.Sound ∧
      (Tx.entry settleEntry env s x).control.getDisputePeriod = s.control.getDisputePeriod := by
  have hkept : ∀ s', Effect env s.control.config s.control.getDisputePeriod (.settle true) s s' →
      s'.book.Sound ∧ s'.control.getDisputePeriod = s.control.getDisputePeriod := by
    intro s' heffect
    refine ⟨?_, getDisputePeriod_of_settings heffect.settings⟩
    rcases Relation.reflGen_iff _ _ _ |>.mp heffect.book with heq | hone
    · rwa [heq]
    · exact hs.change hone
  exact entry_cases (P := fun s' => s'.book.Sound ∧
      s'.control.getDisputePeriod = s.control.getDisputePeriod) ⟨hs, rfl⟩
    (fun s' h => hkept s' (settleEntry_effect h rfl))
    fun e s' h => hkept s' (settleEntry_err_effect h rfl)

/-- While deadlines fit, no failure has an effect. -/
theorem along_of_fits (hs : s.book.Sound) (hfits : s.control.getDisputePeriod = 0 ∨
      env.sequence + s.control.getDisputePeriod ≤ u32Max) : Along (Tx.entry settleEntry env)
      (fun s x => ∀ e s', settleEntry x env s = .err e s' → s' = s) s results := by
  induction results generalizing s with
  | nil => trivial
  | cons x results ih =>
    refine ⟨fun e s' h => ?_, ?_⟩
    · rcases settleEntry_err hs h with hsame | ⟨hperiod, hlt, -⟩
      · exact hsame.1
      · omega
    · obtain ⟨hs', hperiod⟩ := settleEntry_keeps hs x
      exact ih hs' (by rwa [hperiod])

/-- When deadlines do not fit, no failure has an effect exactly if there is nothing to
settle : the first entry that passes the checks is stored and then fails. -/
theorem along_iff_of_overflow (hs : s.book.Sound) (hperiod : s.control.getDisputePeriod ≠ 0)
    (hlt : u32Max < env.sequence + s.control.getDisputePeriod)
    (htrap : Along (Tx.entry settleEntry env) (fun s x => settleEntry x env s ≠ .trap) s results) :
    Along (Tx.entry settleEntry env)
      (fun s x => ∀ e s', settleEntry x env s = .err e s' → s' = s) s results ↔
    ∀ x ∈ results, ¬Settles s x := by
  induction results with
  | nil => simp [Along]
  | cons x results ih =>
    obtain ⟨hx, htrap⟩ := htrap
    have hfails : ∃ e s', settleEntry x env s = .err e s' := by
      cases hrun : settleEntry x env s with
      | trap => exact absurd hrun hx
      | err e s' => exact ⟨e, s', rfl⟩
      | ok =>
        simp [settleEntry] at hrun
        obtain ⟨m, -, ⟨hp, -⟩ | ⟨-, balance, hle, -⟩⟩ := settleResult_ok_iff.mp hrun.2
        · exact absurd hp hperiod
        · omega
    obtain ⟨e, s', h⟩ := hfails
    rw [Along, List.forall_mem_cons, entry_of_err h] 
    rw [entry_of_err h] at htrap
    rcases settleEntry_err hs h with ⟨rfl, hnot⟩ | ⟨-, -, m, hopen, rfl⟩
    · rw [ih htrap]
      simp [h, hnot]
    · refine iff_of_false (fun hall => ?_) fun hall => hall.1 ⟨m, hopen⟩
      exact resulted_ne hopen (hall.1 e _ h)

/-- From every reachable state, for every dispute period, ledger sequence and list of
entries : every entry is reported on truly, the failed ones without effect and the others
with the effect of `submitResult`, if and only if there is no dispute period, or deadlines
fit into 32 bits, or no entry finds a match to settle. -/
theorem submitResultBatch_atomic_iff {caller : Address} {os : List (Option Error)}
    (hw : Reachable w) (h : submitResultBatch results caller env w.fresh = .ok os w') :
    (w' = afterResults env caller w results results.length ∧
      ∀ (i : ℕ) x o, results[i]? = some x → os[i]? = some o →
        EntryAtomic env x o (afterResults env caller w results i)
          (afterResults env caller w results (i + 1))) ↔
    (w.control.getDisputePeriod = 0 ∨ env.sequence + w.control.getDisputePeriod ≤ u32Max ∨
      ∀ x ∈ results, ¬Settles w x) := by
  simp [submitResultBatch, getBaseOracle] at h
  obtain ⟨-, h⟩ := h
  obtain ⟨hrun, htrap⟩ := batch_run h
  have hend : w' = afterResults env caller w results results.length := by
    rw [afterResults, List.take_length]
    exact hrun
  rw [and_iff_right hend]
  let w0 := w.fresh.withControl (w.fresh.control.useAuth caller)
  have hs : w0.book.Sound := hw.sound
  have hentries : (∀ (i : ℕ) x o, results[i]? = some x → os[i]? = some o →
        EntryAtomic env x o (afterResults env caller w results i)
          (afterResults env caller w results (i + 1))) ↔
      Along (Tx.entry settleEntry env)
        (fun s x => ∀ e s', settleEntry x env s = .err e s' → s' = s) w0 results :=
    (batch_entries_iff (Q := EntryAtomic env) h).trans
      (along_congr htrap fun s x hx => entryAtomic_iff hx)
  rw [hentries]
  by_cases hfits : w.control.getDisputePeriod = 0 ∨
      env.sequence + w.control.getDisputePeriod ≤ u32Max
  · exact iff_of_true (along_of_fits hs hfits) (or_assoc.mp (.inl hfits))
  · rw [not_or, not_le] at hfits
    rw [along_iff_of_overflow hs hfits.1 hfits.2 htrap, or_iff_right hfits.1,
      or_iff_right (not_le.mpr hfits.2)]
    exact forall₂_congr fun x _ => not_congr (settles_congr rfl)

/-- Without a dispute period. Match 0 is settled, reported twice and unknown as match 5. -/
theorem submitResultBatch_atomic_iff_fundedMatch : Reachable (run step .start fundedMatch) ∧
    ∃ w', submitResultBatch [(0, .player1), (0, .player2), (5, .draw)] (.ext 0) (.plain [0] 0 0)
        (run step .start fundedMatch).fresh =
          .ok [none, some .oracleAlreadyConfirmed, some .matchNotFound] w' ∧
      SubmitsAlone (.plain [0] 0 0) (0, .player1)
        (afterResults (.plain [0] 0 0) (.ext 0) (run step .start fundedMatch)
          [(0, .player1), (0, .player2), (5, .draw)] 0)
        (afterResults (.plain [0] 0 0) (.ext 0) (run step .start fundedMatch)
          [(0, .player1), (0, .player2), (5, .draw)] 1) := by
  have hw : Reachable (run step .start fundedMatch) := ⟨_, _, World.start_initial, rfl⟩
  have hvalue : (submitResultBatch [(0, .player1), (0, .player2), (5, .draw)] (.ext 0)
      (.plain [0] 0 0) (run step .start fundedMatch).fresh).value =
        some [none, some .oracleAlreadyConfirmed, some .matchNotFound] := by decide +kernel
  obtain ⟨w', h⟩ := Outcome.value_eq_some_iff.mp hvalue
  have hatomic := (submitResultBatch_atomic_iff hw h).mpr (.inl (by decide +kernel))
  exact ⟨hw, w', h, hatomic.2 0 _ _ rfl rfl⟩

/-- Match 0 is funded, and the admin sets the longest dispute period. -/
def longDispute : List Event :=
  fundedMatch ++ [.invoke (.plain [1] 0 0) (.control (.setDisputePeriod u32Max))]

/-- At ledger 1 the entry is reported as an overflow. The match was active and is completed,
with a winner and a payout that vests. -/
theorem submitResultBatch_keeps_failed : Reachable (run step .start longDispute) ∧
    (submitResultBatch [(0, .player1)] (.ext 0) (.plain [0] 1 0)
      (run step .start longDispute).fresh).value = some [some .overflow] ∧
    ((run step .start longDispute).matchMap 0).map (fun m => (m.state, m.winner, m.vestedAt)) =
      some (.active, .none, none) ∧ ((run step .start (longDispute ++
      [.invoke (.plain [0] 1 0) (.submitResultBatch [(0, .player1)] (.ext 0))])).matchMap 0).map
        (fun m => (m.state, m.winner, m.vestedAt)) = some (.completed, .player1, some 0) := by
  refine ⟨⟨_, _, World.start_initial, rfl⟩, ?_⟩
  decide +kernel

end Checkmate.Escrow

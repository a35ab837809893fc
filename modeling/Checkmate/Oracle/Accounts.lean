import Checkmate.Host.Since
import Checkmate.Oracle.Registry
import Checkmate.Oracle.Treasury

/-!
# Accounts of the slashes

The stake of an oracle is what it has paid in less what was taken from it, over all
movements of the contract (`World.Accounted`).

A staged slash is carried out at most once : `finalizeSlash` finds a slash that was staged
and since then neither carried out nor cancelled (`Docket.staged`). Beside the slashes
themselves the contract keeps a list of their matches for each oracle. `Docket` says that the
list has exactly the staged ones, once each, in the order they were staged.
-/

namespace Checkmate.Oracle

open Function List Stakes

/-! ## What an oracle paid in and what was taken from it -/

/-- The sum of the movements with a cause that `p` selects. -/
def sumFor (p : Cause → Bool) (log : List Transfer) : ℤ :=
  (log.map fun t => if p t.cause then t.amount else 0).sum

@[simp] theorem sumFor_cons (p : Cause → Bool) (t : Transfer) (log : List Transfer) :
    sumFor p (t :: log) = (if p t.cause then t.amount else 0) + sumFor p log := by
  simp [sumFor]

/-- What an oracle has paid in as stake. -/
def paidIn (oracle : Address) (log : List Transfer) : ℤ :=
  sumFor (fun c => c = .stake oracle) log

/-- What was taken from an oracle's stake. -/
def takenFrom (oracle : Address) (log : List Transfer) : ℤ :=
  sumFor (fun c => c.slashed = some oracle) log

/-- The stake of an address, zero if it is not registered. -/
def Stakes.stakeOf (s : Stakes) (oracle : Address) : ℤ :=
  ((s.registration oracle).map OracleRegistration.oracleStake).getD 0

/-- The stakes are what was paid in less what was taken, up to where the type ends. -/
structure World.Accounted (w : World) : Prop where
  sound : w.stakes.Sound
  taken_nonneg : ∀ oracle, 0 ≤ takenFrom oracle w.log
  balance : ∀ oracle, paidIn oracle w.log ≤ i128Max →
    w.stakes.stakeOf oracle + takenFrom oracle w.log = paidIn oracle w.log

section

variable {env : Env} {w w' : World} {u : Unit} {oracle token : Address} {amount : ℤ}
  {r : OracleRegistration} {t : Transfer}

theorem Stakes.stakeOf_of_registration {s : Stakes} (h : s.registration oracle = some r) :
    s.stakeOf oracle = r.oracleStake := by
  simp [Stakes.stakeOf, h]

theorem Stakes.stakeOf_deduct {s : Stakes} (h : s.registration oracle = some r) (a : Address) :
    (s.deduct oracle r amount).stakeOf a = s.stakeOf a - if a = oracle then amount else 0 := by
  by_cases ha : a = oracle
  · subst ha
    simp [Stakes.stakeOf, Stakes.deduct, h]
  · simp [Stakes.stakeOf, Stakes.deduct, ha]

theorem Stakes.Sound.stakeOf_nonneg {s : Stakes} (hs : s.Sound) (oracle : Address) :
    0 ≤ s.stakeOf oracle := by
  cases hr : s.registration oracle with
  | none => simp [Stakes.stakeOf, hr]
  | some r =>
    rw [stakeOf_of_registration hr]
    exact hs.stake_nonneg oracle r hr

theorem World.Accounted.congr (hw : w.Accounted) (hstakes : w'.stakes = w.stakes)
    (hlog : w'.log = w.log) : w'.Accounted := by
  refine ⟨hstakes ▸ hw.sound, ?_, ?_⟩
  · rw [hlog]
    exact hw.taken_nonneg
  · rw [hstakes, hlog]
    exact hw.balance

/-- Stake is taken and the movement entered. -/
theorem World.Accounted.take (hw : w.Accounted) (hs : w'.stakes.Sound)
    (hlog : w'.log = t :: w.log) (hcause : t.cause.slashed = some oracle) (hamount : 0 ≤ t.amount)
    (hstake : ∀ a, w'.stakes.stakeOf a = w.stakes.stakeOf a - if a = oracle then t.amount else 0) :
    w'.Accounted := by
  have htaken (a : Address) : takenFrom a w'.log =
      (if a = oracle then t.amount else 0) + takenFrom a w.log := by
    rw [hlog, takenFrom, sumFor_cons, hcause]
    simp [eq_comm, takenFrom]
  have hpaid (a : Address) : paidIn a w'.log = paidIn a w.log := by
    have hne : t.cause ≠ .stake a := by
      intro h
      rw [h] at hcause
      exact absurd hcause (by simp [Cause.slashed])
    rw [hlog, paidIn, sumFor_cons]
    simp [hne, paidIn]
  refine ⟨hs, fun a => ?_, fun a hmax => ?_⟩
  · have := hw.taken_nonneg a
    rw [htaken]
    split <;> omega
  · rw [hpaid] at hmax ⊢
    rw [hstake, htaken, ← hw.balance a hmax]
    ring

theorem Slashed.accounted {bps : ℤ} (h : Slashed env w oracle bps w')
    (hadmin : w.control.admin.isSome = true) (hw : w.Accounted) : w'.Accounted := by
  have hs := h.sound hw.sound
  cases h with
  | spared => exact hw
  | kept r hr hpos hle hnone => simp [hnone] at hadmin
  | sent r admin l hr hpos =>
    exact hw.take hs rfl rfl hpos.le (stakeOf_deduct hr)

/-- A registration adds what it pays in. -/
theorem World.Accounted.register (hw : w.Accounted) {l : Ledger Address} (hpos : 0 < amount)
    (htoken : ∀ r, w.stakes.registration oracle = some r → r.token = token) :
    World.Accounted ((w.withTransfer ⟨token, oracle, .self, amount, .stake oracle⟩ l).withStakes
      (w.stakes.register oracle amount token)) := by
  have htaken (a : Address) :
      takenFrom a (⟨token, oracle, .self, amount, .stake oracle⟩ :: w.log) = takenFrom a w.log := by
    simp [takenFrom, Cause.slashed]
  refine ⟨hw.sound.register hpos htoken, fun a => (htaken a).symm ▸ hw.taken_nonneg a,
    fun a hmax => ?_⟩
  change paidIn a (⟨token, oracle, .self, amount, .stake oracle⟩ :: w.log) ≤ i128Max at hmax
  change (w.stakes.register oracle amount token).stakeOf a +
      takenFrom a (⟨token, oracle, .self, amount, .stake oracle⟩ :: w.log) =
    paidIn a (⟨token, oracle, .self, amount, .stake oracle⟩ :: w.log)
  have hpaid : paidIn a (⟨token, oracle, .self, amount, .stake oracle⟩ :: w.log) =
      (if a = oracle then amount else 0) + paidIn a w.log := by
    simp [paidIn, eq_comm]
  rw [hpaid] at hmax ⊢
  rw [htaken]
  by_cases ha : a = oracle
  · subst ha
    rw [if_pos rfl] at hmax ⊢
    have hbefore := hw.balance a (by omega)
    have htaken' := hw.taken_nonneg a
    have hstake := hw.sound.stakeOf_nonneg a
    have hmin : i128Min ≤ 0 := by decide
    have hadd : (w.stakes.register a amount token).stakeOf a = w.stakes.stakeOf a + amount := by
      rw [← saturatingAdd_eq (a := w.stakes.stakeOf a) (b := amount) (by omega) (by omega)]
      simp [Stakes.stakeOf, Stakes.register, Stakes.toppedUp]
    omega
  · rw [if_neg ha] at hmax ⊢
    have hsame : (w.stakes.register oracle amount token).stakeOf a = w.stakes.stakeOf a := by
      simp [Stakes.stakeOf, Stakes.register, ha]
    rw [hsame, zero_add]
    exact hw.balance a (by omega)

theorem World.Accounted.swap (hw : w.Accounted) (hstakes : w'.stakes = w.stakes) {t' : Transfer}
    (hin : t.cause = .swapIn) (hout : t'.cause = .swapOut) (hlog : w'.log = t' :: t :: w.log) :
    w'.Accounted := by
  have hpaid (a : Address) : paidIn a w'.log = paidIn a w.log := by
    simp [hlog, paidIn, hin, hout]
  have htaken (a : Address) : takenFrom a w'.log = takenFrom a w.log := by
    simp [hlog, takenFrom, hin, hout, Cause.slashed]
  refine ⟨hstakes ▸ hw.sound, fun a => (htaken a).symm ▸ hw.taken_nonneg a, fun a hmax => ?_⟩
  rw [hpaid] at hmax ⊢
  rw [hstakes, htaken]
  exact hw.balance a hmax

theorem StakeStep.accounted {call : Call} (h : StakeStep env call w w') (hw : w.Accounted) :
    w'.Accounted := by
  have hs := h.sound hw.sound
  cases h with
  | registered hopen => exact hw.register hopen.pos hopen.token_eq
  | slashed hadmin h => exact h.accounted hadmin hw
  | staged => exact ⟨hs, hw.taken_nonneg, hw.balance⟩
  | @emptied oracle id p r hp hr hzero =>
    -- nothing is left to take
    have hdue : p.due r = 0 := le_antisymm hzero (hw.sound.due_nonneg hp hr)
    have hstake (a : Address) :
        ((w.stakes.deduct oracle r (p.due r)).dropSlash oracle id).stakeOf a =
          w.stakes.stakeOf a := by
      have hdeduct : (w.stakes.deduct oracle r (p.due r)).stakeOf a = _ :=
        stakeOf_deduct hr a
      rw [hdue, ite_self, sub_zero] at hdeduct
      rw [hdue]
      exact hdeduct
    exact ⟨hs, hw.taken_nonneg, fun a hmax => (hstake a).symm ▸ hw.balance a hmax⟩
  | carried hp hr hpos => exact hw.take hs rfl rfl hpos.le (stakeOf_deduct hr)
  | dropped => exact ⟨hs, hw.taken_nonneg, hw.balance⟩
  | swapped => exact hw.swap rfl rfl rfl rfl
  | kept hstakes hledger hlog => exact hw.congr hstakes hlog

theorem run_accounted (ledger : Ledger Address) (es : List Event) :
    (run step (.deployed ledger) es).Accounted := by
  refine run_inv (I := World.Accounted) (fun w e hw _ => ?_) ?_ (along_true _ _)
  · exact step_keeps (fun _ => Call.exec_keeps_of_stakeStep fun h => h.accounted)
      (fun _ _ h => h.congr rfl rfl) hw e
  · exact ⟨Stakes.Sound.empty, fun _ => le_rfl, fun _ _ => rfl⟩

end

/-! ## Staged slashes -/

/-- The admin stages the slash `p`. -/
def Staged (p : PendingSlash) (w : World) : Event → Prop
  | .invoke env (.slashOracle oracle matchId slashAmount) =>
    Commits env (.slashOracle oracle matchId slashAmount) w ∧
      ∃ token, p = ⟨oracle, matchId, slashAmount, token, env.sequence,
        saturatingAddU u32Max env.sequence w.control.getSlashingGracePeriod⟩
  | _ => False

/-- The slash of the oracle for the match is carried out or cancelled. -/
def Closes (oracle : Address) (matchId : ℕ) (w : World) : Event → Prop
  | .invoke env (.finalizeSlash oracle' matchId') =>
    (oracle', matchId') = (oracle, matchId) ∧ Commits env (.finalizeSlash oracle' matchId') w
  | .invoke env (.adminCancelSlash oracle' matchId') =>
    (oracle', matchId') = (oracle, matchId) ∧ Commits env (.adminCancelSlash oracle' matchId') w
  | _ => False

/-- The slash `p` was staged, and since then neither carried out nor cancelled. -/
def StagedSince (ledger : Ledger Address) (es : List Event) (p : PendingSlash) : Prop :=
  Since step (Staged p) (fun w e => ¬Closes p.oracleAddress p.matchId w e) (.deployed ledger) es

/-- The slash for `j` was staged when the one for `i` was already there, and since then neither
was carried out or cancelled. -/
def StagedBefore (ledger : Ledger Address) (es : List Event) (oracle : Address) (i j : ℕ) : Prop :=
  Since step
    (fun w e => (w.stakes.pendingSlash (oracle, i)).isSome = true ∧
      ∃ p : PendingSlash, p.oracleAddress = oracle ∧ p.matchId = j ∧ Staged p w e)
    (fun w e => ¬Closes oracle i w e ∧ ¬Closes oracle j w e) (.deployed ledger) es

/-- The staged slashes and the lists of their matches. -/
def Stakes.docket (s : Stakes) : (Address × ℕ → Option PendingSlash) × (Address → List ℕ) :=
  (s.pendingSlash, s.pendingSlashList)

/-- What an event does to the staged slashes. -/
inductive DocketStep (w : World) (e : Event) (w' : World) : Prop
  | staged (p : PendingSlash) (hnone : w.stakes.pendingSlash (p.oracleAddress, p.matchId) = none)
      (hstaged : Staged p w e) (hopen : ∀ oracle matchId, ¬Closes oracle matchId w e)
      (h : w'.stakes.docket = (w.stakes.stage p).docket)
  | closed (oracle : Address) (matchId : ℕ)
      (honly : ∀ oracle' matchId', Closes oracle' matchId' w e →
        (oracle', matchId') = (oracle, matchId))
      (h : w'.stakes.docket = (w.stakes.dropSlash oracle matchId).docket)
  | kept (hopen : ∀ oracle matchId, ¬Closes oracle matchId w e)
      (h : w'.stakes.docket = w.stakes.docket)

section

variable {env : Env} {w w' : World} {u : Unit} {oracle : Address}

theorem Slashed.docket {bps : ℤ} (h : Slashed env w oracle bps w') :
    w'.stakes.docket = w.stakes.docket := by
  cases h <;> rfl

theorem slashSubmitters_docket {candidates : List CandidateTally}
    (h : slashSubmitters candidates env w = .ok u w') : w'.stakes.docket = w.stakes.docket :=
  Tx.forEach_rel (R := fun w w' : World => w'.stakes.docket = w.stakes.docket) (fun _ => rfl)
    (fun h h' => h'.trans h) (fun _ _ _ _ _ hslash => (slashBps_ok hslash).docket) h

theorem Voted.docket {id : ℕ} {vote : OracleVoteRecord} {responseTimeMs : UInt64}
    (h : Voted env w oracle id vote responseTimeMs w') : w'.stakes.docket = w.stakes.docket := by
  cases h with
  | late finalized hres hne _ hslash => exact hslash.docket
  | equivocated prev hres hlets hprev hne _ hslash => exact hslash.docket
  | finalized hres hlets hnone hopen hreached w2 hslash =>
    have hw2 := slashSubmitters_docket hslash
    exact hw2
  | counted => rfl

theorem invoke_docket {call : Call} (hc : Commits env call w) :
    DocketStep w (.invoke env call) (step w (.invoke env call)) := by
  have h := hc.exec_eq
  cases call with
  | registerOracleWithStake =>
    obtain ⟨-, l, -, hw'⟩ := registerOracleWithStake_ok h
    exact .kept (fun _ _ => id) (by rw [hw']; rfl)
  | slashOracle =>
    obtain ⟨r, -, hnone, -, hw'⟩ := slashOracle_ok h
    exact .staged _ hnone ⟨hc, r.token, rfl⟩ (fun _ _ => id) (by rw [hw']; rfl)
  | finalizeSlash oracle i =>
    obtain ⟨admin, p, r, -, -, -, -, ⟨-, hw'⟩ | ⟨l, -, -, hw'⟩⟩ := finalizeSlash_ok h
    · exact .closed oracle i (fun _ _ hcloses => hcloses.1.symm) (by rw [hw']; rfl)
    · exact .closed oracle i (fun _ _ hcloses => hcloses.1.symm) (by rw [hw']; rfl)
  | adminCancelSlash oracle i =>
    exact .closed oracle i (fun _ _ hcloses => hcloses.1.symm) (by rw [adminCancelSlash_ok h]; rfl)
  | submitOracleResult oracle i gameId platform result =>
    exact .kept (fun _ _ => id) (submitOracleResult_ok ⟨gameId, platform, result⟩ h).2.docket
  | resolveDisputedMatch i gameId platform result =>
    obtain ⟨admin, state, w2, -, -, -, -, hslash, hw'⟩ :=
      resolveDisputedMatch_ok ⟨gameId, platform, result⟩ h
    have hw2 := slashSubmitters_docket hslash
    exact .kept (fun _ _ => id) (by rw [hw']; exact hw2)
  | _ =>
    have hstakes : (step w (.invoke env _)).stakes = w.stakes := (Call.exec_keeps .stakes rfl).ok h
    exact .kept (fun _ _ => id) (by rw [hstakes])

theorem step_docket (w : World) (e : Event) : DocketStep w e (step w e) := by
  cases e with
  | invoke env call =>
    by_cases hc : Commits env call w
    · exact invoke_docket hc
    · refine .kept (fun oracle i hcloses => ?_) (by rw [step_of_not_commits hc])
      cases call <;> first
        | exact hcloses
        | exact hc hcloses.2
  | credit => exact .kept (fun _ _ => id) rfl
  | debit =>
    refine .kept (fun _ _ => id) ?_
    simp only [step]
    split <;> rfl

end

/-- Every staged slash was staged and is still open, and the lists have exactly the staged
ones, in order. -/
structure Docket (ledger : Ledger Address) (es : List Event) : Prop where
  staged : ∀ oracle matchId p,
    (run step (.deployed ledger) es).stakes.pendingSlash (oracle, matchId) = some p →
      p.oracleAddress = oracle ∧ p.matchId = matchId ∧ StagedSince ledger es p
  nodup : ∀ oracle, ((run step (.deployed ledger) es).stakes.pendingSlashList oracle).Nodup
  mem_iff : ∀ oracle matchId,
    matchId ∈ (run step (.deployed ledger) es).stakes.pendingSlashList oracle ↔
      ((run step (.deployed ledger) es).stakes.pendingSlash (oracle, matchId)).isSome = true
  order : ∀ oracle, ((run step (.deployed ledger) es).stakes.pendingSlashList oracle).Pairwise
    (StagedBefore ledger es oracle)

section

variable {ledger : Ledger Address} {es : List Event} {e : Event} {oracle : Address}

theorem Docket.snoc_kept (h : Docket ledger es)
    (hopen : ∀ oracle id, ¬Closes oracle id (run step (.deployed ledger) es) e)
    (hdocket : (step (run step (.deployed ledger) es) e).stakes.docket =
      (run step (.deployed ledger) es).stakes.docket) : Docket ledger (es ++ [e]) := by
  obtain ⟨hslash, hlist⟩ := Prod.mk.inj hdocket
  constructor
  · intro oracle id p hp
    rw [run_snoc, hslash] at hp
    obtain ⟨ho, hi, hsince⟩ := h.staged oracle id p hp
    exact ⟨ho, hi, hsince.later (hopen _ _)⟩
  · rw [run_snoc, hlist]
    exact h.nodup
  · rw [run_snoc, hlist, hslash]
    exact h.mem_iff
  · intro oracle
    rw [run_snoc, hlist]
    exact (h.order oracle).imp fun hbefore => hbefore.later ⟨hopen _ _, hopen _ _⟩

theorem Docket.snoc_staged {p : PendingSlash} (h : Docket ledger es)
    (hnone : (run step (.deployed ledger) es).stakes.pendingSlash
      (p.oracleAddress, p.matchId) = none) (hstaged : Staged p (run step (.deployed ledger) es) e)
    (hopen : ∀ oracle id, ¬Closes oracle id (run step (.deployed ledger) es) e)
    (hdocket : (step (run step (.deployed ledger) es) e).stakes.docket =
      ((run step (.deployed ledger) es).stakes.stage p).docket) : Docket ledger (es ++ [e]) := by
  obtain ⟨hslash, hlist⟩ := Prod.mk.inj hdocket
  have hnew : p.matchId ∉ (run step (.deployed ledger) es).stakes.pendingSlashList
      p.oracleAddress := by
    rw [h.mem_iff, hnone]
    simp
  constructor
  · intro oracle id q hq
    rw [run_snoc, hslash] at hq
    by_cases hkey : (oracle, id) = (p.oracleAddress, p.matchId)
    · obtain ⟨rfl, rfl⟩ := Prod.mk.inj hkey
      simp only [Stakes.stage, Stakes.putPendingSlash, update_self, Option.some.injEq] at hq
      subst hq
      exact ⟨rfl, rfl, .now hstaged⟩
    · simp only [Stakes.stage, Stakes.putPendingSlash, update_of_ne hkey] at hq
      obtain ⟨ho, hi, hsince⟩ := h.staged oracle id q hq
      exact ⟨ho, hi, hsince.later (hopen _ _)⟩
  · intro oracle
    rw [run_snoc, hlist]
    by_cases ho : oracle = p.oracleAddress
    · subst ho
      simp only [Stakes.stage, update_self]
      exact nodup_append.mpr ⟨h.nodup _, nodup_singleton _, fun a ha b hb hab =>
        hnew (mem_singleton.mp hb ▸ hab ▸ ha)⟩
    · simp only [Stakes.stage, update_of_ne ho]
      exact h.nodup oracle
  · intro oracle id
    rw [run_snoc, hlist, hslash]
    by_cases ho : oracle = p.oracleAddress
    · subst ho
      by_cases hi : id = p.matchId
      · subst hi
        simp [Stakes.stage, Stakes.putPendingSlash]
      · simpa [Stakes.stage, Stakes.putPendingSlash, hi] using h.mem_iff p.oracleAddress id
    · simpa [Stakes.stage, Stakes.putPendingSlash, ho] using h.mem_iff oracle id
  · intro oracle
    have hold : ((run step (.deployed ledger) es).stakes.pendingSlashList oracle).Pairwise
        (StagedBefore ledger (es ++ [e]) oracle) :=
      (h.order oracle).imp fun hbefore => hbefore.later ⟨hopen _ _, hopen _ _⟩
    rw [run_snoc, hlist]
    by_cases ho : oracle = p.oracleAddress
    · subst ho
      simp only [Stakes.stage, update_self]
      refine pairwise_append.mpr ⟨hold, pairwise_singleton _ _, fun i hi j hj => ?_⟩
      obtain rfl := mem_singleton.mp hj
      exact .now ⟨(h.mem_iff _ i).mp hi, p, rfl, rfl, hstaged⟩
    · simp only [Stakes.stage, update_of_ne ho]
      exact hold

theorem Docket.snoc_closed {id : ℕ} (h : Docket ledger es)
    (honly : ∀ oracle' matchId', Closes oracle' matchId' (run step (.deployed ledger) es) e →
      (oracle', matchId') = (oracle, id))
    (hdocket : (step (run step (.deployed ledger) es) e).stakes.docket =
      ((run step (.deployed ledger) es).stakes.dropSlash oracle id).docket) :
    Docket ledger (es ++ [e]) := by
  obtain ⟨hslash, hlist⟩ := Prod.mk.inj hdocket
  constructor
  · intro o i q hq
    rw [run_snoc, hslash] at hq
    have hkey : (o, i) ≠ (oracle, id) := by
      intro hkey
      simp [Stakes.dropSlash, Stakes.putPendingSlash, Stakes.removePendingSlashMatch, hkey] at hq
    simp only [Stakes.dropSlash, Stakes.putPendingSlash, Stakes.removePendingSlashMatch,
      update_of_ne hkey] at hq
    obtain ⟨ho, hi, hsince⟩ := h.staged o i q hq
    refine ⟨ho, hi, hsince.later fun hcloses => hkey ?_⟩
    rw [← ho, ← hi]
    exact honly _ _ hcloses
  · intro o
    rw [run_snoc, hlist]
    by_cases ho : o = oracle
    · subst ho
      simp only [Stakes.dropSlash, Stakes.removePendingSlashMatch, update_self]
      exact List.Nodup.filter _ (h.nodup o)
    · simp only [Stakes.dropSlash, Stakes.removePendingSlashMatch, update_of_ne ho]
      exact h.nodup o
  · intro o i
    rw [run_snoc, hlist, hslash]
    by_cases ho : o = oracle
    · subst ho
      by_cases hi : i = id
      · subst hi
        simp [Stakes.dropSlash, Stakes.putPendingSlash, Stakes.removePendingSlashMatch]
      · simpa [Stakes.dropSlash, Stakes.putPendingSlash, Stakes.removePendingSlashMatch, hi] using
          h.mem_iff o i
    · simpa [Stakes.dropSlash, Stakes.putPendingSlash, Stakes.removePendingSlashMatch, ho] using
        h.mem_iff o i
  · intro o
    rw [run_snoc, hlist]
    by_cases ho : o = oracle
    · subst ho
      simp only [Stakes.dropSlash, Stakes.removePendingSlashMatch, update_self]
      refine List.Pairwise.imp_of_mem ?_ ((h.order o).filter _)
      -- the slashes that stay in the list are not the one that was closed
      intro i j hi hj hbefore
      have hi' : i ≠ id := by simpa using (mem_filter.mp hi).2
      have hj' : j ≠ id := by simpa using (mem_filter.mp hj).2
      exact hbefore.later ⟨fun hc => hi' (Prod.mk.inj (honly _ _ hc)).2,
        fun hc => hj' (Prod.mk.inj (honly _ _ hc)).2⟩
    · simp only [Stakes.dropSlash, Stakes.removePendingSlashMatch, update_of_ne ho]
      exact (h.order o).imp fun hbefore => hbefore.later
        ⟨fun hc => ho (Prod.mk.inj (honly _ _ hc)).1, fun hc => ho (Prod.mk.inj (honly _ _ hc)).1⟩

theorem run_docket (ledger : Ledger Address) (es : List Event) : Docket ledger es := by
  have hal : Along step (fun _ _ => True) (.deployed ledger) es := along_true _ _
  refine history_inv (I := Docket ledger) ?_ (fun es e h _ => ?_) hal
  · exact ⟨fun _ _ _ h => by simp [World.deployed] at h, fun _ => nodup_nil,
      fun _ _ => by simp [World.deployed], fun _ => List.Pairwise.nil⟩
  · cases step_docket (run step (.deployed ledger) es) e with
    | staged p hnone hstaged hopen hdocket => exact h.snoc_staged hnone hstaged hopen hdocket
    | closed oracle id honly hdocket => exact h.snoc_closed honly hdocket
    | kept hopen hdocket => exact h.snoc_kept hopen hdocket

end

/-- The accounts of one oracle over every run. Its stake is not negative, and is what it paid
in less what was taken from it. A slash is carried out only if it was staged, its grace period
is over, and it was not carried out or cancelled since. Its list has the matches of its staged
slashes, once each, in the order in which they were staged. -/
theorem slash_accounts (ledger : Ledger Address) (es : List Event) (oracle : Address) :
    let w := run step (.deployed ledger) es
    (∀ r, w.stakes.registration oracle = some r → 0 ≤ r.oracleStake ∧
      (paidIn oracle w.log ≤ i128Max →
        r.oracleStake = paidIn oracle w.log - takenFrom oracle w.log)) ∧
    (∀ env id, Commits env (.finalizeSlash oracle id) w →
      ∃ p : PendingSlash, p.oracleAddress = oracle ∧ p.matchId = id ∧
        StagedSince ledger es p ∧ p.eligibleLedger ≤ env.sequence) ∧
    (w.stakes.pendingSlashList oracle).Nodup ∧
    (∀ id, id ∈ w.stakes.pendingSlashList oracle ↔
      (w.stakes.pendingSlash (oracle, id)).isSome = true) ∧
    (w.stakes.pendingSlashList oracle).Pairwise (StagedBefore ledger es oracle) := by
  intro w
  have haccounts : w.Accounted := run_accounted ledger es
  have hdocket : Docket ledger es := run_docket ledger es
  refine ⟨fun r hr => ⟨haccounts.sound.stake_nonneg oracle r hr, fun hmax => ?_⟩,
    fun env id hc => ?_, hdocket.nodup oracle, hdocket.mem_iff oracle, hdocket.order oracle⟩
  · rw [← stakeOf_of_registration hr, ← haccounts.balance oracle hmax]
    ring
  · obtain ⟨admin, p, r, -, hp, hseq, -, -⟩ := finalizeSlash_ok hc.exec_eq
    obtain ⟨ho, hi, hsince⟩ := hdocket.staged oracle id p hp
    exact ⟨p, ho, hi, hsince, hseq⟩

end Checkmate.Oracle

import Checkmate.Host.Batch
import Checkmate.Escrow.Refunds

/-!
# Bulk expiry

`bulkExpireMatches` calls `expireMatch` for every id and skips the ids for which it fails.
`expireMatch` refunds player 1 before it converts the stake of player 2, which may fail. But
a match that is still pending has at most one depositor, so nothing has been paid when the
conversion fails, and an entry that is skipped has no effect (`expireMatch_oneShot`). What
goes wrong is the refund itself : player 2 of a multi-token match is not given back what
they paid in. `bulkExpire_exact_iff` says that this is the only thing that does.
-/

namespace Checkmate.Escrow

open Function

variable {env : Env} {c : Control} {id : ℕ} {m : Match} {w w' : World} {u : Unit}

/-! ## One entry -/

/-- A pending match past its timeout. -/
structure Match.TimedOut (env : Env) (c : Control) (m : Match) : Prop where
  pending : m.state = .pending
  elapsed : c.currentMatchTimeout ≤ env.sequence - m.createdLedger

/-- A match that `expireMatch` does not refuse : timed out, its tokens not blacklisted, and
the amount owed to player 2 within bounds. -/
structure Match.Expirable (env : Env) (c : Control) (m : Match) : Prop
    extends m.TimedOut env c where
  allowed : c.blacklistedToken m.token = none ∧
    (m.isMultiToken = true → c.blacklistedToken m.refundTokenB = none)
  converts : m.player2Deposited = true → m.amountB ≠ none

/-- The match is expired : it was timed out, it is cancelled, and the transfers made give
every depositor exactly the stake back. -/
def ExpiredExactly (env : Env) (matchId : ℕ) (w w' : World) : Prop :=
  ∃ m m' ts, w.matchMap matchId = some m ∧ m.TimedOut env w.control ∧
    w'.matchMap matchId = some m' ∧ m'.state = .cancelled ∧ Pays w ts w' ∧
    ExactRefund matchId m w.control.config.treasury false ts

theorem expireMatch_ok (h : expireMatch id env w = .ok u w') :
    ∃ m, w.matchMap id = some m ∧ m.Expirable env w.control ∧ w'.control = w.control ∧
      w'.matchMap = update w.matchMap id
        (some ((m.withState .cancelled).completedAt env.sequence)) := by
  simp [expireMatch, markCancelled, releaseCounters, snapshotCancelled] at h
  obtain ⟨m, hm, hstate, helapsed, hallowed, _, w1, hpay, balance, -, rfl⟩ := h
  obtain ⟨amountB, hB, l, -, rfl⟩ := refundDeposits_ok hpay
  refine ⟨m, hm, ⟨⟨hstate, helapsed⟩, hallowed, fun hd => ?_⟩, rfl, rfl⟩
  simp [hB hd]

/-- A failing expiry of a match with at most one depositor has no effect. -/
theorem expireMatch_failed {e : Error} (h : expireMatch id env w = .err e w')
    (hone : ∀ m, w.matchMap id = some m → m.state = .pending →
      ¬(m.player1Deposited = true ∧ m.player2Deposited = true)) :
    w' = w ∧ ∀ m, w.matchMap id = some m → ¬m.Expirable env w.control := by
  simp [expireMatch, markCancelled, releaseCounters, snapshotCancelled] at h
  rcases h with ⟨hnone, -, rfl⟩ | ⟨m, hm, h⟩
  · exact ⟨rfl, fun m hm => absurd (hnone.symm.trans hm) (by simp)⟩
  suffices hfailed : w' = w ∧ ¬m.Expirable env w.control by
    refine ⟨hfailed.1, fun m1 hm1 => ?_⟩
    obtain rfl := Option.mem_unique hm hm1
    exact hfailed.2
  rcases h with ⟨hstate, -, rfl⟩ | ⟨hstate, h⟩
  · exact ⟨rfl, fun hex => hstate hex.pending⟩
  rcases h with ⟨helapsed, -, rfl⟩ | ⟨-, h⟩
  · exact ⟨rfl, fun hex => absurd hex.elapsed (by omega)⟩
  rcases h with ⟨hlisted, -, rfl⟩ | ⟨-, h⟩
  · refine ⟨rfl, fun hex => ?_⟩
    rcases hlisted with hlisted | ⟨hmulti, hlisted⟩
    · simp [hex.allowed.1] at hlisted
    · simp [hex.allowed.2 hmulti] at hlisted
  · -- the conversion fails, and there is no other depositor
    obtain ⟨hd, ha, hpaid⟩ := refundDeposits_err h
    have hother : m.player1Deposited ≠ true := fun hd1 => hone m hm hstate ⟨hd1, hd⟩
    rw [if_neg hother] at hpaid
    obtain ⟨l, hl, rfl⟩ := hpaid
    refine ⟨?_, fun hex => hex.converts hd ha⟩
    cases hl
    rfl

/-- What the loop keeps : nothing but matches changes, and every match that is still pending
has a stake and at most one depositor. -/
structure Expiring (c : Control) (w : World) : Prop where
  control : w.control = c
  pending : ∀ id m, w.matchMap id = some m → m.state = .pending → 1 ≤ m.stakeAmount ∧
    ¬(m.player1Deposited = true ∧ m.player2Deposited = true)

/-- Every id is expired at most once, and an entry that is skipped has no effect. -/
theorem expireMatch_oneShot (env : Env) (c : Control) :
    Tx.OneShot expireMatch env (Expiring c) World.matchMap
      fun stored => ∃ m, stored = some m ∧ m.Expirable env c where
  inv hJ h := by
    obtain ⟨m, -, -, hcontrol, hmap⟩ := expireMatch_ok h
    refine ⟨hcontrol.trans hJ.control, fun id m' hm' hs => ?_⟩
    rw [hmap] at hm'
    rcases eq_some_of_update hm' with ⟨rfl, rfl⟩ | ⟨-, hm'⟩
    · exact absurd hs (by simp)
    · exact hJ.pending id m' hm' hs
  live hJ h := by
    obtain ⟨m, hm, hex, -⟩ := expireMatch_ok h
    exact ⟨m, hm, hJ.control ▸ hex⟩
  spent hJ h := by
    obtain ⟨m, -, -, -, hmap⟩ := expireMatch_ok h
    rintro ⟨m', hm', hex⟩
    rw [hmap, update_self] at hm'
    exact absurd hex.pending (by simp [← Option.some.inj hm'])
  frame hJ h id hne := by
    obtain ⟨m, -, -, -, hmap⟩ := expireMatch_ok h
    rw [hmap, update_of_ne hne]
  idle hJ h := by
    obtain ⟨hsame, hnot⟩ := expireMatch_failed h fun m hm hs => (hJ.pending _ m hm hs).2
    refine ⟨hsame, ?_⟩
    rintro ⟨m, hm, hex⟩
    exact hnot m hm (hJ.control ▸ hex)

/-! ## The loop -/

/-- The ids that `bulkExpireMatches` looks at. -/
def World.toExpire (w : World) (matchIds : List ℕ) : List ℕ :=
  if w.control.admin = none then [] else matchIds.take maxBulkExpireSize

/-- The state once the admin's authorisation was used. -/
def World.adminAuthed (w : World) : World :=
  match w.control.admin with
  | none => w
  | some admin => w.withControl (w.control.useAuth admin)

/-- The state after the first `n` entries. -/
def afterExpiries (env : Env) (w : World) (ids : List ℕ) (n : ℕ) : World :=
  run (Tx.entry expireMatch env) w (ids.take n)

/-- Every entry whose id is not returned has no effect. An id that is returned is returned
once, and exactly one of its entries expires the match. -/
structure ExpiredEach (env : Env) (w : World) (ids expired : List ℕ) : Prop where
  nodup : expired.Nodup
  skipped : ∀ i id, ids[i]? = some id → id ∉ expired →
    afterExpiries env w ids (i + 1) = afterExpiries env w ids i
  once : ∀ id ∈ expired, ∃ i, ids[i]? = some id ∧
    ExpiredExactly env id (afterExpiries env w ids i) (afterExpiries env w ids (i + 1)) ∧
    ∀ j, j ≠ i → ids[j]? = some id →
      afterExpiries env w ids (j + 1) = afterExpiries env w ids j

theorem bulkExpireMatches_ok {matchIds expired : List ℕ}
    (h : bulkExpireMatches matchIds env w = .ok expired w') :
    ∃ os, Tx.batch expireMatch (w.toExpire matchIds) env w.adminAuthed = .ok os w' ∧
      expired = Tx.returned (w.toExpire matchIds) os := by
  cases hadmin : w.control.admin with
  | none =>
    simp [bulkExpireMatches, hadmin] at h
    exact ⟨[], by simp [World.toExpire, World.adminAuthed, hadmin, h.2, Tx.batch],
      by simp [World.toExpire, hadmin, h.1, Tx.returned]⟩
  | some =>
    simp [bulkExpireMatches, hadmin] at h
    obtain ⟨-, os, hbatch, rfl⟩ := h
    simp only [World.toExpire, World.adminAuthed, hadmin, reduceCtorEq, if_false]
    exact ⟨os, hbatch, rfl⟩

theorem adminAuthed_matchMap (w : World) : w.adminAuthed.matchMap = w.matchMap := by
  unfold World.adminAuthed
  split <;> rfl

theorem adminAuthed_expirable (w : World) :
    m.Expirable env w.fresh.adminAuthed.control ↔ m.Expirable env w.control := by
  have hsettings : w.fresh.adminAuthed.control.currentMatchTimeout = w.control.currentMatchTimeout ∧
      w.fresh.adminAuthed.control.blacklistedToken = w.control.blacklistedToken := by
    unfold World.adminAuthed
    split <;> exact ⟨rfl, rfl⟩
  constructor <;> rintro ⟨⟨hpending, helapsed⟩, hallowed, hconverts⟩
  · rw [hsettings.1] at helapsed
    rw [hsettings.2] at hallowed
    exact ⟨⟨hpending, helapsed⟩, hallowed, hconverts⟩
  · rw [← hsettings.1] at helapsed
    rw [← hsettings.2] at hallowed
    exact ⟨⟨hpending, helapsed⟩, hallowed, hconverts⟩

/-- An expiry is exact if and only if player 2 is owed what they paid in. -/
theorem expiredExactly_iff (h : expireMatch id env w = .ok u w')
    (hm : w.matchMap id = some m) (hstake : 1 ≤ m.stakeAmount) :
    ExpiredExactly env id w w' ↔ m.RefundsInKind := by
  obtain ⟨m1, hm1, hex, -, hmap⟩ := expireMatch_ok h
  obtain rfl := Option.mem_unique hm hm1
  obtain ⟨ts, hpays, hiff⟩ := expireMatch_exact_iff hm hstake h
  rw [← hiff]
  constructor
  · rintro ⟨m1, m', us, hm1, -, -, -, hpays', hexact⟩
    obtain rfl := Option.mem_unique hm hm1
    have hlogs : us = ts := List.append_cancel_right (hpays'.2.symm.trans hpays.2)
    exact hlogs ▸ hexact
  · intro hexact
    exact ⟨m, _, ts, hm, hex.toTimedOut, by rw [hmap, update_self], rfl, hpays, hexact⟩

/-- From every reachable state and for every list of ids : the bulk expiry ends where its
entries lead, no entry of an id that is not returned has an effect, and every id that is
returned was timed out, is expired once and its depositors get the stake back, if and only
if every match it can expire owes player 2 what they paid in. -/
theorem bulkExpire_exact_iff {matchIds expired : List ℕ} (hw : Reachable w)
    (h : bulkExpireMatches matchIds env w.fresh = .ok expired w') :
    (w' = afterExpiries env w.fresh.adminAuthed (w.toExpire matchIds) (w.toExpire matchIds).length ∧
      ExpiredEach env w.fresh.adminAuthed (w.toExpire matchIds) expired) ↔
    ∀ id ∈ w.toExpire matchIds, ∀ m, w.matchMap id = some m → m.Expirable env w.control →
      m.RefundsInKind := by
  obtain ⟨os, hbatch, rfl⟩ := bulkExpireMatches_ok h
  change Tx.batch expireMatch (w.toExpire matchIds) env _ = _ at hbatch
  change (_ ∧ ExpiredEach env _ _ (Tx.returned (w.toExpire matchIds) os)) ↔ _
  generalize hids : w.toExpire matchIds = ids at *
  have hmap : w.fresh.adminAuthed.matchMap = w.matchMap := adminAuthed_matchMap w.fresh
  have hcontrol : ∀ m : Match, m.Expirable env w.fresh.adminAuthed.control ↔
      m.Expirable env w.control := fun m => adminAuthed_expirable w
  generalize w.fresh.adminAuthed = w1 at hbatch hmap hcontrol ⊢
  have hone := expireMatch_oneShot env w1.control
  have hJ : Expiring w1.control w1 := by
    refine ⟨rfl, fun id m hm hs => ?_⟩
    rw [hmap] at hm
    have hsound := hw.sound.stored id m hm
    exact ⟨hsound.terms.stake_pos, hsound.stage.unfunded hs⟩
  have hmem := hone.mem_returned hJ hbatch
  constructor
  · rintro ⟨-, heach⟩ id hid m hm hex
    have hlive : ∃ m, w1.matchMap id = some m ∧ m.Expirable env w1.control :=
      ⟨m, hmap ▸ hm, (hcontrol m).mpr hex⟩
    -- the entry that is exact is the one that acts
    obtain ⟨i, hi, hexact, -⟩ := heach.once id ((hmem id).mpr ⟨hid, hlive⟩)
    obtain ⟨k, hk, hJk, hview, hact, hothers⟩ := hone.run_of hJ hbatch hid hlive
    have hik : i = k := by
      by_contra hne
      obtain ⟨m1, m2, -, hm1, htimed, hm2, hc, -⟩ := hexact
      have hsame : afterExpiries env w1 ids (i + 1) = afterExpiries env w1 ids i := hothers i hne hi
      rw [hsame] at hm2
      obtain rfl := Option.mem_unique hm1 hm2
      cases htimed.pending.symm.trans hc
    subst hik
    have hmi := hview.trans (hmap ▸ hm)
    exact (expiredExactly_iff hact hmi (hJk.pending id m hmi hex.pending).1).mp hexact
  · intro hkind
    refine ⟨?_, hone.nodup_returned hJ hbatch, fun i id hi hnot => ?_, fun id hid => ?_⟩
    · rw [afterExpiries, List.take_length]
      exact (Tx.batch_run hbatch).1
    · refine hone.run_of_not hJ hbatch (fun hlive => hnot ?_) i hi
      exact (hmem id).mpr ⟨List.mem_of_getElem? hi, hlive⟩
    · obtain ⟨hin, hlive⟩ := (hmem id).mp hid
      obtain ⟨k, hk, hJk, hview, hact, hothers⟩ := hone.run_of hJ hbatch hin hlive
      obtain ⟨m, hm, hex⟩ := hlive
      refine ⟨k, hk, ?_, hothers⟩
      have hmk := hview.trans hm
      refine (expiredExactly_iff hact hmk (hJk.pending id m hmk hex.pending).1).mpr ?_
      exact hkind id hin m (hmap ▸ hm) ((hcontrol m).mp hex)

/-- Player 2 has deposited into match 0. The admin expires it twice, and an unknown match. -/
theorem bulkExpire_exact_iff_pendingMatch : Reachable (run step .start (fundedMatch.take 2)) ∧
    ∃ w', bulkExpireMatches [0, 0, 7] (.plain [1] 600000 0)
        (run step .start (fundedMatch.take 2)).fresh = .ok [0] w' ∧
      ExpiredEach (.plain [1] 600000 0) (run step .start (fundedMatch.take 2)).fresh.adminAuthed
        [0, 0, 7] [0] := by
  have hw : Reachable (run step .start (fundedMatch.take 2)) := ⟨_, _, World.start_initial, rfl⟩
  have hdeposits : ∀ id ∈ [0, 0, 7], ((run step .start (fundedMatch.take 2)).matchMap id).all
      (fun m => m.player2Deposited = false) = true := by decide +kernel
  have hids : (run step .start (fundedMatch.take 2)).toExpire [0, 0, 7] = [0, 0, 7] := by
    decide +kernel
  have hvalue : (bulkExpireMatches [0, 0, 7] (.plain [1] 600000 0)
      (run step .start (fundedMatch.take 2)).fresh).value = some [0] := by decide +kernel
  obtain ⟨w', h⟩ := Outcome.value_eq_some_iff.mp hvalue
  have hexact := (bulkExpire_exact_iff hw h).mpr (by
    rw [hids]
    intro id hid m hm _ hd
    have hnone := hdeposits id hid
    simp [hm, hd] at hnone)
  rw [hids] at hexact
  exact ⟨hw, w', h, hexact.2⟩

/-- Match 1 of `convertedDeposit` is expired : player 6 has paid in 100 of token 7 and gets
100 of token 4, the stakes of match 0. -/
theorem bulkExpire_in_other_token : Reachable (run step .start convertedDeposit) ∧
    ((run step .start convertedDeposit).matchMap 1).map
      (fun m => (m.state, m.token, m.stakeAmount, m.player2, m.player2Deposited)) =
        some (.pending, .ext 7, 100, .ext 6, true) ∧ (bulkExpireMatches [1] (.plain [1] 600000 0)
      (run step .start convertedDeposit).fresh).value = some [1] ∧
    (run step .start (convertedDeposit ++
      [.invoke (.plain [1] 600000 0) (.bulkExpireMatches [1])])).log =
        ⟨.ext 4, .self, .ext 6, 100, ⟨1, .refund .player2⟩⟩ ::
          (run step .start convertedDeposit).log := by
  refine ⟨⟨_, _, World.start_initial, rfl⟩, ?_⟩
  decide +kernel

end Checkmate.Escrow

import Mathlib.Data.List.Nodup
import Checkmate.Oracle.StakeSteps

/-!
# The register of oracles

The oracle set lists every registered address once, stakes are not negative, and a staged
slash is of a registered oracle, in the token of its stake (`Stakes.Sound`). Every entry
point keeps this, so it holds in every state of every run (`run_sound`).
-/

namespace Checkmate.Oracle

open Function List

/-- The oracle set lists every registered address once. -/
structure Stakes.Listed (s : Stakes) : Prop where
  nodup : s.oracleSet.Nodup
  mem_iff : ∀ a, a ∈ s.oracleSet ↔ (s.registration a).isSome = true

/-- The stakes are listed and not negative, and a staged slash is of a registered oracle and
in its token. -/
structure Stakes.Sound (s : Stakes) : Prop extends s.Listed where
  stake_nonneg : ∀ a r, s.registration a = some r → 0 ≤ r.oracleStake
  pending_token : ∀ a i p, s.pendingSlash (a, i) = some p →
    0 < p.slashAmount ∧ ∃ r, s.registration a = some r ∧ r.token = p.token

section

variable {s : Stakes} {oracle token : Address} {r : OracleRegistration} {amount a b : ℤ}

theorem Stakes.Listed.mem (hs : s.Listed) (h : s.registration oracle = some r) :
    oracle ∈ s.oracleSet := by
  simp [hs.mem_iff, h]

/-- A sum that is not negative can only be cut off. -/
theorem saturatingAdd_le (h : 0 ≤ a + b) : saturatingAdd a b ≤ a + b := by
  unfold saturatingAdd
  refine max_le ?_ (min_le_right _ _)
  have : i128Min ≤ 0 := by decide
  omega

theorem saturatingAdd_nonneg (h : 0 ≤ a + b) : 0 ≤ saturatingAdd a b := by
  unfold saturatingAdd
  refine le_max_of_le_right (le_min ?_ h)
  decide

theorem saturatingAdd_pos (ha : 0 ≤ a) (hb : 0 < b) : 0 < saturatingAdd a b := by
  unfold saturatingAdd
  refine lt_max_of_lt_right (lt_min ?_ (by omega))
  decide

/-! ## The changes of the register -/

theorem Stakes.Sound.deduct (hs : s.Sound) (h : s.registration oracle = some r)
    (hle : amount ≤ r.oracleStake) : (s.deduct oracle r amount).Sound where
  nodup := hs.nodup
  mem_iff a := by
    rw [show (s.deduct oracle r amount).oracleSet = s.oracleSet from rfl, hs.mem_iff]
    by_cases ha : a = oracle
    · subst ha
      simp [Stakes.deduct, h]
    · simp [Stakes.deduct, ha]
  stake_nonneg a r' hr' := by
    by_cases ha : a = oracle
    · subst ha
      simp only [Stakes.deduct, update_self, Option.some.injEq] at hr'
      subst hr'
      exact sub_nonneg.mpr hle
    · exact hs.stake_nonneg a r' (by simpa [Stakes.deduct, ha] using hr')
  pending_token a i p hp := by
    obtain ⟨hpos, r', hr', htoken⟩ := hs.pending_token a i p hp
    refine ⟨hpos, ?_⟩
    by_cases ha : a = oracle
    · subst ha
      obtain rfl := Option.mem_unique h hr'
      exact ⟨_, update_self .., htoken⟩
    · exact ⟨r', by simpa [Stakes.deduct, ha] using hr', htoken⟩

theorem Stakes.Sound.register (hs : s.Sound) (hpos : 0 < amount)
    (htoken : ∀ r, s.registration oracle = some r → r.token = token) :
    (s.register oracle amount token).Sound where
  nodup := by
    by_cases h : oracle ∈ s.oracleSet
    · rw [show (s.register oracle amount token).oracleSet = s.oracleSet from if_pos h]
      exact hs.nodup
    · rw [show (s.register oracle amount token).oracleSet = s.oracleSet ++ [oracle] from if_neg h]
      exact nodup_append.mpr ⟨hs.nodup, nodup_singleton _, by
        rintro a ha b hb rfl
        exact h (mem_singleton.mp hb ▸ ha)⟩
  mem_iff a := by
    by_cases h : oracle ∈ s.oracleSet
    · rw [show (s.register oracle amount token).oracleSet = s.oracleSet from if_pos h]
      by_cases ha : a = oracle
      · subst ha
        simp [Stakes.register, h]
      · simp [Stakes.register, ha, hs.mem_iff]
    · rw [show (s.register oracle amount token).oracleSet = s.oracleSet ++ [oracle] from if_neg h]
      by_cases ha : a = oracle
      · subst ha
        simp [Stakes.register]
      · simp [Stakes.register, ha, hs.mem_iff]
  stake_nonneg a r' hr' := by
    by_cases ha : a = oracle
    · subst ha
      simp only [Stakes.register, update_self, Option.some.injEq] at hr'
      subst hr'
      refine saturatingAdd_nonneg ?_
      cases hr : s.registration a with
      | none => simpa using hpos.le
      | some r =>
        have := hs.stake_nonneg a r hr
        simpa using by omega
    · exact hs.stake_nonneg a r' (by simpa [Stakes.register, ha] using hr')
  pending_token a i p hp := by
    obtain ⟨hamount, r', hr', heq⟩ := hs.pending_token a i p hp
    refine ⟨hamount, ?_⟩
    by_cases ha : a = oracle
    · subst ha
      exact ⟨_, update_self .., (htoken r' hr').symm.trans heq⟩
    · exact ⟨r', by simpa [Stakes.register, ha] using hr', heq⟩

theorem Stakes.Sound.stage {p : PendingSlash} (hs : s.Sound) (hpos : 0 < p.slashAmount)
    (hr : s.registration p.oracleAddress = some r) (htoken : r.token = p.token) :
    (s.stage p).Sound where
  nodup := hs.nodup
  mem_iff := hs.mem_iff
  stake_nonneg := hs.stake_nonneg
  pending_token a i q hq := by
    by_cases h : (a, i) = (p.oracleAddress, p.matchId)
    · obtain ⟨rfl, rfl⟩ := Prod.mk.inj h
      simp only [Stakes.stage, Stakes.putPendingSlash, update_self, Option.some.injEq] at hq
      subst hq
      exact ⟨hpos, r, hr, htoken⟩
    · exact hs.pending_token a i q
        (by simpa [Stakes.stage, Stakes.putPendingSlash, update_of_ne h] using hq)

theorem Stakes.Sound.dropSlash {id : ℕ} (hs : s.Sound) : (s.dropSlash oracle id).Sound where
  nodup := hs.nodup
  mem_iff := hs.mem_iff
  stake_nonneg := hs.stake_nonneg
  pending_token a i q hq := by
    by_cases h : (a, i) = (oracle, id)
    · simp [Stakes.dropSlash, Stakes.putPendingSlash, Stakes.removePendingSlashMatch, h] at hq
    · exact hs.pending_token a i q (by
        simpa [Stakes.dropSlash, Stakes.putPendingSlash, Stakes.removePendingSlashMatch,
          update_of_ne h] using hq)

/-- A staged slash takes what is left of its amount. -/
theorem Stakes.Sound.due_nonneg {id : ℕ} {p : PendingSlash} (hs : s.Sound)
    (hp : s.pendingSlash (oracle, id) = some p) (hr : s.registration oracle = some r) :
    0 ≤ p.due r :=
  le_min (hs.pending_token oracle id p hp).1.le (hs.stake_nonneg oracle r hr)

end

/-! ## The entry points -/

section

variable {env : Env} {w w' : World} {u : Unit} {oracle a : Address} {bps : ℤ}

theorem Slashed.sound (h : Slashed env w oracle bps w') (hs : w.stakes.Sound) :
    w'.stakes.Sound := by
  cases h with
  | spared => exact hs
  | kept r hr hpos hle | sent r admin l hr hpos hle => exact hs.deduct hr hle

theorem Slashed.oracleSet (h : Slashed env w oracle bps w') :
    w'.stakes.oracleSet = w.stakes.oracleSet := by
  cases h <;> rfl

/-- A slash is about one registration. -/
theorem Slashed.registration_of_ne (h : Slashed env w oracle bps w')
    (ha : a ≠ oracle) : w'.stakes.registration a = w.stakes.registration a := by
  cases h with
  | spared => rfl
  | kept | sent => exact update_of_ne ha ..

/-- Only the submitters are slashed. -/
theorem slashSubmitters_registration {candidates : List CandidateTally}
    (h : slashSubmitters candidates env w = .ok u w')
    (ha : a ∉ candidates.flatMap CandidateTally.submitters) :
    w'.stakes.registration a = w.stakes.registration a := by
  refine Tx.forEach_rel
    (R := fun w w' : World => w'.stakes.registration a = w.stakes.registration a) (fun _ => rfl)
    (fun h h' => h'.trans h) (fun b hb _ _ _ hslash => ?_) h
  refine (slashBps_ok hslash).registration_of_ne ?_
  rintro rfl
  exact ha hb

/-- Only an address that authorises the call is added to the register. -/
theorem StakeStep.oracleSet {call : Call} (h : StakeStep env call w w')
    (ha : a ∈ w'.stakes.oracleSet) : a ∈ w.stakes.oracleSet ∨ a ∈ env.auths := by
  cases h with
  | @registered oracle token amount l hopen hl =>
    change a ∈ (w.stakes.register oracle amount token).oracleSet at ha
    by_cases hmem : oracle ∈ w.stakes.oracleSet
    · rw [show (w.stakes.register oracle amount token).oracleSet = w.stakes.oracleSet from
        if_pos hmem] at ha
      exact .inl ha
    · rw [show (w.stakes.register oracle amount token).oracleSet = w.stakes.oracleSet ++ [oracle]
        from if_neg hmem] at ha
      refine (mem_append.mp ha).imp_right fun ha => ?_
      obtain rfl := mem_singleton.mp ha
      exact hopen.auth
  | slashed hadmin h => exact .inl (h.oracleSet ▸ ha)
  | staged | emptied | carried | dropped | swapped => exact .inl ha
  | kept hstakes => exact .inl (hstakes ▸ ha)

theorem StakeStep.sound {call : Call} (h : StakeStep env call w w') (hs : w.stakes.Sound) :
    w'.stakes.Sound := by
  cases h with
  | registered hopen => exact hs.register hopen.pos hopen.token_eq
  | slashed hadmin h => exact h.sound hs
  | staged hpos hr htoken => exact hs.stage hpos hr htoken
  | emptied hp hr | carried hp hr => exact (hs.deduct hr (min_le_right _ _)).dropSlash
  | dropped => exact hs.dropSlash
  | swapped => exact hs
  | kept hstakes => exact hstakes ▸ hs

end

theorem step_sound {w : World} (hs : w.stakes.Sound) (e : Event) : (step w e).stakes.Sound :=
  step_keeps (P := fun w => w.stakes.Sound)
    (fun _ => Call.exec_keeps_of_stakeStep fun h => h.sound) (fun _ _ h => h) hs e

theorem Stakes.Sound.empty : Stakes.Sound {} where
  nodup := nodup_nil
  mem_iff _ := by simp
  stake_nonneg _ _ h := by simp at h
  pending_token _ _ _ h := by simp at h

theorem run_sound (ledger : Ledger Address) (es : List Event) :
    (run step (.deployed ledger) es).stakes.Sound :=
  run_inv (I := fun w : World => w.stakes.Sound) (fun _ e hs _ => step_sound hs e)
    Stakes.Sound.empty (along_true _ _)

/-- The contract's own address, which authorises nothing, is never registered. -/
theorem run_self (ledger : Ledger Address) (es : List Event) :
    (run step (.deployed ledger) es).stakes.registration .self = none := by
  have hunlisted : Address.self ∉ (run step (.deployed ledger) es).stakes.oracleSet := by
    refine run_inv (I := fun w : World => Address.self ∉ w.stakes.oracleSet) (fun w e hw _ => ?_)
      (by simp [World.deployed]) (along_true _ _)
    refine step_keeps (P := fun w => Address.self ∉ w.stakes.oracleSet)
      (fun call => Call.exec_keeps_of_stakeStep ?_) (fun _ _ h => h) hw e
    intro env w w' h hw hmem
    exact (h.oracleSet hmem).elim hw env.self_notMem
  rw [(run_sound ledger es).mem_iff] at hunlisted
  simpa using hunlisted

end Checkmate.Oracle

import Mathlib.Algebra.Order.BigOperators.Group.List
import Checkmate.Oracle.Orders

/-!
# When the slashes of a list of oracles go through

The slashes that come with a result end the call if a product overflows or if the contract does
not hold what they take. `World.Pays` says of a list of different oracles that neither happens.
It is what `slashSubmitters` needs in order to return (`World.Pays.of_ok`,
`World.Pays.slash_ok`).

An earlier slash never helps (`Slashed.pays`). It takes at least as much out of the contract as
it saves later, and an oracle whose product overflows cannot be slashed at all.
-/

namespace Checkmate.Oracle

open List Stakes OracleRegistration

/-! ## Shares -/

section

variable {r : OracleRegistration} {bps : ℤ}

theorem OracleRegistration.share_nonneg (r : OracleRegistration) (bps : ℤ) : 0 ≤ r.share bps :=
  le_max_left _ _

/-- Both kinds of slashes take at least a minority share, and their product is at least as
large. -/
theorem OracleRegistration.share_le (h : bps = minoritySlashBps ∨ bps = equivocationSlashBps) :
    r.share minoritySlashBps ≤ r.share bps := by
  rcases h with rfl | rfl
  · exact le_rfl
  · unfold OracleRegistration.share equivocationSlashBps
    rw [Int.mul_tdiv_cancel _ (by decide)]
    generalize (r.oracleStake * minoritySlashBps).tdiv 10000 = x
    omega

theorem OracleRegistration.Fits.minority
    (h : bps = minoritySlashBps ∨ bps = equivocationSlashBps) (hpos : 0 < r.oracleStake)
    (hfits : r.Fits bps) : r.Fits minoritySlashBps := by
  rcases h with rfl | rfl
  · exact hfits
  · unfold OracleRegistration.Fits minoritySlashBps equivocationSlashBps at *
    have : i128Min ≤ 0 := by decide
    omega

end

/-- What a slash takes from the oracle in the token. -/
def Stakes.dueIn (s : Stakes) (bps : ℤ) (token oracle : Address) : ℤ :=
  ((s.registration oracle).map fun r => if r.token = token then r.share bps else 0).getD 0

section

variable {s s' : Stakes} {bps : ℤ} {token oracle : Address} {r : OracleRegistration}

theorem Stakes.dueIn_of_registration (h : s.registration oracle = some r) :
    s.dueIn bps token oracle = if r.token = token then r.share bps else 0 := by
  simp [Stakes.dueIn, h]

theorem Stakes.dueIn_nonneg (s : Stakes) (bps : ℤ) (token oracle : Address) :
    0 ≤ s.dueIn bps token oracle := by
  cases h : s.registration oracle with
  | none => simp [Stakes.dueIn, h]
  | some r =>
    rw [dueIn_of_registration h]
    have := r.share_nonneg bps
    split <;> omega

theorem Stakes.dueIn_congr (h : s'.registration oracle = s.registration oracle) :
    s'.dueIn bps token oracle = s.dueIn bps token oracle := by
  rw [Stakes.dueIn, Stakes.dueIn, h]

end

/-- The minority slashes of the oracles go through : no product overflows, and the contract
holds what they take. If they go to the contract itself, it has to hold each of them. -/
structure World.Pays (w : World) (oracles : List Address) : Prop where
  fits : ∀ a ∈ oracles, ∀ r, w.stakes.registration a = some r → 0 < r.oracleStake →
    r.Fits minoritySlashBps
  holds : ∀ a ∈ oracles, ∀ r, w.stakes.registration a = some r →
    r.share minoritySlashBps ≤ w.ledger r.token .self
  holds_all : w.control.admin ≠ some .self → ∀ token,
    (oracles.map (w.stakes.dueIn minoritySlashBps token)).sum ≤ w.ledger token .self

/-! ## One slash -/

section

variable {env : Env} {w w' : World} {oracle admin : Address} {bps : ℤ}

/-- What a slash takes from the balances of the contract. -/
theorem Slashed.balance (h : Slashed env w oracle bps w') (hadmin : w.control.admin = some admin)
    (token : Address) : (w'.ledger token .self : ℤ) =
      w.ledger token .self - if admin = .self then 0 else w.stakes.dueIn bps token oracle := by
  cases h with
  | spared hspared =>
    have hdue : w.stakes.dueIn bps token oracle = 0 := by
      cases hr : w.stakes.registration oracle with
      | none => simp [Stakes.dueIn, hr]
      | some r =>
        have hzero : r.share bps = 0 := by
          rcases le_or_gt r.oracleStake 0 with hle | hlt
          · exact share_of_nonpos hle
          · exact (hspared r hr hlt).2
        simp [dueIn_of_registration hr, hzero]
    simp [hdue]
  | kept r hr hpos hle hnone => cases hnone.symm.trans hadmin
  | sent r admin' l hr hpos hle hadmin' hl =>
    obtain rfl := Option.mem_unique hadmin' hadmin
    have hflow := Ledger.transfer_flow (m := ⟨r.token, .self, admin', r.share bps,
      Cause.slash oracle bps⟩) (Env.ledger_transfer hl) .self token
    change (l token .self : ℤ) = _
    rw [hflow, dueIn_of_registration hr, Movement.flow]
    by_cases hself : admin' = .self <;> by_cases ht : r.token = token <;>
      simp [hself, ht, sub_eq_add_neg]

/-- A slash gives the contract nothing. -/
theorem Slashed.balance_le (h : Slashed env w oracle bps w')
    (hadmin : w.control.admin = some admin) (token : Address) :
    (w'.ledger token .self : ℤ) ≤ w.ledger token .self := by
  have hdue := w.stakes.dueIn_nonneg bps token oracle
  rw [h.balance hadmin]
  split <;> omega

/-- What a slash that was carried out had to find. -/
theorem Slashed.held (h : Slashed env w oracle bps w') (hadmin : w.control.admin = some admin)
    {r : OracleRegistration} (hr : w.stakes.registration oracle = some r) :
    (0 < r.oracleStake → r.Fits bps) ∧ r.share bps ≤ w.ledger r.token .self := by
  have hbalance : (0 : ℤ) ≤ w.ledger r.token .self := Int.natCast_nonneg _
  cases h with
  | spared hspared =>
    refine ⟨fun hpos => (hspared r hr hpos).1, ?_⟩
    rcases le_or_gt r.oracleStake 0 with hle | hlt
    · rw [share_of_nonpos hle]
      exact hbalance
    · rw [(hspared r hr hlt).2]
      exact hbalance
  | kept r' hr' hpos hle hnone => cases hnone.symm.trans hadmin
  | sent r' admin' l hr' hpos hle hadmin' hl hfits =>
    obtain rfl := Option.mem_unique hr' hr
    refine ⟨fun _ => hfits, ?_⟩
    have htransfer := Env.ledger_transfer hl
    unfold Ledger.transfer at htransfer
    split at htransfer
    · rename_i hcovered
      exact hcovered.2
    · exact absurd htransfer (by simp)

/-- A sum changes by at most what its one changed summand does. -/
theorem sum_map_le_add {f g : Address → ℤ} {x : Address} {d : ℤ} (hd : 0 ≤ d)
    (hother : ∀ a, a ≠ x → f a = g a) (hx : f x ≤ g x + d) :
    ∀ {l : List Address}, l.Nodup → (l.map f).sum ≤ (l.map g).sum + d
  | [], _ => by simpa using hd
  | a :: l, hl => by
    obtain ⟨ha, hl⟩ := nodup_cons.mp hl
    rw [map_cons, map_cons, sum_cons, sum_cons]
    by_cases heq : a = x
    · subst heq
      have hrest : l.map f = l.map g := map_congr_left fun b hb => hother b fun h =>
        ha (h ▸ hb)
      rw [hrest]
      omega
    · have ih := sum_map_le_add hd hother hx hl
      rw [hother a heq]
      omega

/-- An earlier slash does not help. -/
theorem Slashed.pays {oracles : List Address} (h : Slashed env w oracle bps w')
    (hbps : bps = minoritySlashBps ∨ bps = equivocationSlashBps)
    (hadmin : w.control.admin = some admin) (hnodup : oracles.Nodup) (hpays : w'.Pays oracles) :
    w.Pays oracles := by
  have hle := h.balance_le hadmin
  refine ⟨fun a ha r hr hpos => ?_, fun a ha r hr => ?_, fun hself token => ?_⟩
  · by_cases heq : a = oracle
    · subst heq
      exact .minority hbps hpos ((h.held hadmin hr).1 hpos)
    · exact hpays.fits a ha r ((h.registration_of_ne heq).trans hr) hpos
  · by_cases heq : a = oracle
    · subst heq
      exact (share_le hbps).trans (h.held hadmin hr).2
    · exact (hpays.holds a ha r ((h.registration_of_ne heq).trans hr)).trans (hle r.token)
  · have hsum := hpays.holds_all (by rwa [h.control]) token
    have hbalance := h.balance hadmin token
    have hne : admin ≠ .self := by
      rintro rfl
      exact hself hadmin
    rw [if_neg hne] at hbalance
    have hdiff := sum_map_le_add (f := w.stakes.dueIn minoritySlashBps token)
      (g := w'.stakes.dueIn minoritySlashBps token) (x := oracle)
      (d := w.stakes.dueIn bps token oracle) (dueIn_nonneg _ _ _ _)
      (fun a ha => (dueIn_congr (h.registration_of_ne ha)).symm) (by
        have hnonneg := w'.stakes.dueIn_nonneg minoritySlashBps token oracle
        have hshare : w.stakes.dueIn minoritySlashBps token oracle ≤
            w.stakes.dueIn bps token oracle := by
          cases hr : w.stakes.registration oracle with
          | none => simp [Stakes.dueIn, hr]
          | some r =>
            rw [dueIn_of_registration hr, dueIn_of_registration hr]
            have := share_le (r := r) hbps
            split <;> omega
        omega) hnodup
    omega

end

/-! ## A list of slashes -/

section

variable {env : Env} {w w' : World} {u : Unit} {admin : Address}

theorem World.Pays.nil (w : World) : w.Pays [] :=
  ⟨by simp, by simp, fun _ _ => by simp⟩

/-- Only the settings, the stakes and the balances matter. -/
theorem World.Pays.congr {l : List Address} (h : w.Pays l) (hcontrol : w'.control = w.control)
    (hstakes : w'.stakes = w.stakes) (hledger : w'.ledger = w.ledger) : w'.Pays l := by
  refine ⟨?_, ?_, ?_⟩
  · rw [hstakes]
    exact h.fits
  · rw [hstakes, hledger]
    exact h.holds
  · rw [hstakes, hledger, hcontrol]
    exact h.holds_all

/-- What is paid for a list is paid for a part of it. -/
theorem World.Pays.sublist {l m : List Address} (h : w.Pays m) (hlm : l.Sublist m) : w.Pays l := by
  refine ⟨fun a ha => h.fits a (hlm.subset ha), fun a ha => h.holds a (hlm.subset ha),
    fun hself token => ?_⟩
  refine le_trans ?_ (h.holds_all hself token)
  refine List.Sublist.sum_le_sum (hlm.map _) fun x hx => ?_
  obtain ⟨a, -, rfl⟩ := mem_map.mp hx
  exact dueIn_nonneg _ _ _ _

/-- The first of a list of slashes, and the rest. -/
theorem Slashed.pays_cons {a : Address} {l : List Address}
    (h : Slashed env w a minoritySlashBps w') (hadmin : w.control.admin = some admin)
    (ha : a ∉ l) : w.Pays (a :: l) ↔ w'.Pays l := by
  have hreg {b : Address} (hb : b ∈ l) : w'.stakes.registration b = w.stakes.registration b := by
    refine h.registration_of_ne ?_
    rintro rfl
    exact ha hb
  have hmap (token : Address) : l.map (w'.stakes.dueIn minoritySlashBps token) =
      l.map (w.stakes.dueIn minoritySlashBps token) :=
    map_congr_left fun b hb => dueIn_congr (hreg hb)
  have hbalance := h.balance hadmin
  have hle := h.balance_le hadmin
  have hself : w.control.admin ≠ some .self ↔ admin ≠ .self := by simp [hadmin]
  constructor
  · intro hpays
    refine ⟨fun b hb r hr => hpays.fits b (mem_cons_of_mem _ hb) r ((hreg hb).symm.trans hr),
      fun b hb r hr => ?_, fun hne token => ?_⟩
    · have hr' := (hreg hb).symm.trans hr
      rw [hbalance]
      by_cases hadm : admin = .self
      · rw [if_pos hadm, sub_zero]
        exact hpays.holds b (mem_cons_of_mem _ hb) r hr'
      · have hsum := hpays.holds_all (hself.mpr hadm) r.token
        rw [map_cons, sum_cons] at hsum
        have hmem : w.stakes.dueIn minoritySlashBps r.token b ∈
            l.map (w.stakes.dueIn minoritySlashBps r.token) := mem_map_of_mem hb
        have hsingle := single_le_sum (fun x hx => by
          obtain ⟨d, -, rfl⟩ := mem_map.mp hx
          exact dueIn_nonneg _ _ _ _) _ hmem
        rw [dueIn_of_registration hr', if_pos rfl] at hsingle
        rw [if_neg hadm]
        omega
    · rw [h.control, hself] at hne
      have hsum := hpays.holds_all (hself.mpr hne) token
      rw [map_cons, sum_cons] at hsum
      rw [hmap, hbalance, if_neg hne]
      omega
  · intro hpays
    refine ⟨fun b hb r hr hpos => ?_, fun b hb r hr => ?_, fun hne token => ?_⟩
    · rcases mem_cons.mp hb with rfl | hb
      · exact (h.held hadmin hr).1 hpos
      · exact hpays.fits b hb r ((hreg hb).trans hr) hpos
    · rcases mem_cons.mp hb with rfl | hb
      · exact (h.held hadmin hr).2
      · exact (hpays.holds b hb r ((hreg hb).trans hr)).trans (hle r.token)
    · have hsum := hpays.holds_all (by rwa [h.control]) token
      rw [hmap, hbalance, if_neg (hself.mp hne)] at hsum
      rw [map_cons, sum_cons]
      omega

/-- Slashes that returned were paid for. -/
theorem World.Pays.of_ok : ∀ {l : List Address} {w : World},
    Tx.forEach (fun oracle => slashBps oracle minoritySlashBps) l env w = .ok u w' → l.Nodup →
      w.control.admin = some admin → w.Pays l
  | [], w, _, _, _ => .nil w
  | a :: l, w, h, hl, hadmin => by
    obtain ⟨ha, hl⟩ := nodup_cons.mp hl
    obtain ⟨_, w1, hslash, h⟩ := Tx.bind_ok_iff.mp h
    have hfirst := slashBps_ok hslash
    exact (hfirst.pays_cons hadmin ha).mpr (World.Pays.of_ok h hl (hfirst.control ▸ hadmin))

/-- A slash that fits and is covered returns, if the token carries out what is covered. -/
theorem slashBps_returns {a : Address} {bps : ℤ} (hadmin : w.control.admin = some admin)
    (haccepts : ∀ l token source target amount, env.accepts l token source target amount = true)
    (hfits : ∀ r, w.stakes.registration a = some r → 0 < r.oracleStake → r.Fits bps)
    (hholds : ∀ r, w.stakes.registration a = some r → r.share bps ≤ w.ledger r.token .self) :
    ∃ amount w', slashBps a bps env w = .ok amount w' := by
  by_cases hspared : ∀ r, w.stakes.registration a = some r → 0 < r.oracleStake →
      r.Fits bps ∧ r.share bps = 0
  · exact ⟨0, w, slashBps_of_spared hspared⟩
  · push Not at hspared
    obtain ⟨r, hr, hstake, hshare⟩ := hspared
    have hfits := hfits r hr hstake
    have hpos : 0 < r.share bps := lt_of_le_of_ne (r.share_nonneg _) (hshare hfits).symm
    have hsome : ∃ l, env.transfer w.ledger r.token .self admin (r.share bps) = some l := by
      rw [Env.transfer, if_pos (haccepts ..), Ledger.transfer, if_pos ⟨hpos.le, hholds r hr⟩]
      exact ⟨_, rfl⟩
    obtain ⟨l', hl'⟩ := hsome
    exact ⟨_, _, slashBps_of_sent hr hfits hpos hadmin hl'⟩

/-- Slashes that are paid for return. -/
theorem World.Pays.slash_ok
    (haccepts : ∀ l token source target amount, env.accepts l token source target amount = true) :
    ∀ {l : List Address} {w : World}, w.Pays l → w.control.admin = some admin → l.Nodup →
      ∃ w', Tx.forEach (fun oracle => slashBps oracle minoritySlashBps) l env w = .ok () w'
  | [], w, _, _, _ => ⟨w, rfl⟩
  | a :: l, w, hpays, hadmin, hl => by
    obtain ⟨ha, hl⟩ := nodup_cons.mp hl
    obtain ⟨amount, w1, hslash⟩ := slashBps_returns hadmin haccepts
      (hpays.fits a mem_cons_self) (hpays.holds a mem_cons_self)
    have hfirst := slashBps_ok hslash
    obtain ⟨w', hrest⟩ := World.Pays.slash_ok haccepts ((hfirst.pays_cons hadmin ha).mp hpays)
      (hfirst.control ▸ hadmin) hl
    exact ⟨w', by rw [Tx.forEach, Tx.bind_of_ok hslash, hrest]⟩

end

end Checkmate.Oracle

import Mathlib.Algebra.BigOperators.Group.List.Basic
import Mathlib.Tactic.Linarith
import Checkmate.Oracle.Outcomes

/-!
# What a swap gives back

With one stored rate, the two directions of a pair multiply and divide by the same fraction, and
both round down (`OneRate.fraction`). So a round trip never gains, and neither does a swap in
parts (`swap_never_gains`).
-/

namespace Checkmate.Oracle

variable {env : Env} {w w' : World} {a b tokenIn tokenOut : Address} {x y : ℤ}

/-- A swap that returned, and what it paid. -/
def Swapped (tokenIn tokenOut : Address) (amountIn amountOut : ℤ) (env : Env) (w w' : World) :
    Prop :=
  ∃ caller recipient minAmountOut,
    swap caller tokenIn tokenOut amountIn minAmountOut recipient env w = .ok () w' ∧
      w'.log.head? = some ⟨tokenOut, .self, recipient, amountOut, .swapOut⟩

/-- A rate is stored for one direction of the pair only, and is positive. -/
def OneRate (w : World) (a b : Address) : Prop :=
  ∃ entry, 0 < entry.rate ∧
    (w.rate (a, b) = some entry ∧ w.rate (b, a) = none ∨
      w.rate (a, b) = none ∧ w.rate (b, a) = some entry)

/-- The rates of the pair are the same. -/
def SameRates (a b : Address) (w w' : World) : Prop :=
  w'.rate (a, b) = w.rate (a, b) ∧ w'.rate (b, a) = w.rate (b, a)

theorem swap_amount_pos {caller recipient : Address} {minAmountOut : ℤ} {u : Unit}
    (h : swap caller tokenIn tokenOut x minAmountOut recipient env w = .ok u w') : 0 < x := by
  simp only [swap, Tx.bind_ok_iff, requireAuth_ok_iff, Tx.reject_ok_iff] at h
  obtain ⟨_, _, ⟨-, rfl⟩, _, _, ⟨hpos, rfl⟩, -⟩ := h
  omega

theorem Swapped.price (h : Swapped tokenIn tokenOut x y env w w') :
    0 < x ∧ w.price tokenIn tokenOut x = some y := by
  obtain ⟨caller, recipient, minAmountOut, hswap, hlog⟩ := h
  obtain ⟨-, amountOut, l1, l2, hprice, -, -, rfl⟩ := swap_ok hswap
  obtain rfl : amountOut = y := congrArg Movement.amount (Option.some.inj hlog)
  exact ⟨swap_amount_pos hswap, hprice⟩

theorem SameRates.price_eq (h : SameRates a b w w') (x : ℤ) :
    w'.price a b x = w.price a b x ∧ w'.price b a x = w.price b a x := by
  simp only [World.price, h.1, h.2, and_self]

/-- The directions of the pair use a fraction and its inverse. -/
theorem OneRate.fraction (h : OneRate w a b) : ∃ num den : ℤ, 0 < num ∧ 0 < den ∧
      (∀ x, w.price a b x = some ((x * num).tdiv den)) ∧
        ∀ y, w.price b a y = some ((y * den).tdiv num) := by
  have hscale : 0 < rateScale := by decide
  obtain ⟨entry, hpos, ⟨hab, hba⟩ | ⟨hab, hba⟩⟩ := h
  · exact ⟨entry.rate, rateScale, hpos, hscale, fun x => by simp [World.price, hab],
      fun y => by simp [World.price, hab, hba]⟩
  · exact ⟨rateScale, entry.rate, hscale, hpos, fun x => by simp [World.price, hab, hba],
      fun y => by simp [World.price, hba]⟩

section Fractions

variable {num den : ℤ}

theorem tdiv_mul_le_of_nonneg (hnum : 0 < num) (hx : 0 < x) (den : ℤ) :
    (x * num).tdiv den * den ≤ x * num := by
  have h := Int.tmod_add_tdiv_mul (x * num) den
  have hmod := Int.tmod_nonneg den (mul_pos hx hnum).le
  linarith

/-- There and back : each direction rounds down. -/
theorem tdiv_roundTrip_le (hnum : 0 < num) (hden : 0 < den) (hx : 0 < x)
    (hy : 0 < (x * num).tdiv den) : ((x * num).tdiv den * den).tdiv num ≤ x := by
  have hthere := tdiv_mul_le_of_nonneg hnum hx den
  have hback := tdiv_mul_le_of_nonneg hden hy num
  exact le_of_mul_le_mul_right (hback.trans hthere) hnum

/-- Rounding down once is never worse than in parts. -/
theorem sum_tdiv_le (hnum : 0 < num) (hden : 0 < den) {parts : List (ℤ × ℤ)}
    (h : ∀ p ∈ parts, 0 < p.1 ∧ p.2 = (p.1 * num).tdiv den) :
    (parts.map (·.2)).sum ≤ ((parts.map (·.1)).sum * num).tdiv den := by
  have hsum : 0 ≤ (parts.map (·.1)).sum ∧
      (parts.map (·.2)).sum * den ≤ (parts.map (·.1)).sum * num := by
    induction parts with
    | nil => simp
    | cons p parts ih =>
      obtain ⟨hnonneg, hle⟩ := ih fun q hq => h q (List.mem_cons_of_mem _ hq)
      obtain ⟨hpos, hp⟩ := h p List.mem_cons_self
      have hpart := tdiv_mul_le_of_nonneg hnum hpos den
      rw [← hp] at hpart
      simp only [List.map_cons, List.sum_cons, add_mul]
      exact ⟨by omega, by omega⟩
  rw [Int.tdiv_eq_ediv_of_nonneg (mul_nonneg hsum.1 hnum.le)]
  exact (Int.le_ediv_iff_mul_le hden).mpr hsum.2

end Fractions

/-- At one unchanged rate, what a round trip gives back is at most what was put in, and swaps in
parts give at most what one swap gives. -/
theorem swap_never_gains (hrate : OneRate w a b) :
    (∀ x y z envThere envBack w1 w2 w3 w4, SameRates a b w w1 → SameRates a b w w3 → 0 < y →
      Swapped a b x y envThere w1 w2 → Swapped b a y z envBack w3 w4 → z ≤ x) ∧
    ∀ (parts : List (ℤ × ℤ)) y envOnce w1 w2, SameRates a b w w1 →
      (∀ p ∈ parts, ∃ env w3 w4, SameRates a b w w3 ∧ Swapped a b p.1 p.2 env w3 w4) →
      Swapped a b (parts.map (·.1)).sum y envOnce w1 w2 → (parts.map (·.2)).sum ≤ y := by
  obtain ⟨num, den, hnum, hden, hab, hba⟩ := hrate.fraction
  have hthere : ∀ {x y env w1 w2}, SameRates a b w w1 → Swapped a b x y env w1 w2 →
      0 < x ∧ y = (x * num).tdiv den := by
    intro x y env w1 w2 hsame hswap
    obtain ⟨hpos, hprice⟩ := hswap.price
    rw [(hsame.price_eq x).1, hab] at hprice
    exact ⟨hpos, (Option.some.inj hprice).symm⟩
  refine ⟨fun x y z _ _ w1 w2 w3 w4 hsame1 hsame3 hy hswap hback => ?_,
    fun parts y _ w1 w2 hsame hparts hswap => ?_⟩
  · obtain ⟨hx, rfl⟩ := hthere hsame1 hswap
    have hprice := hback.price.2
    rw [(hsame3.price_eq _).2, hba] at hprice
    rw [← Option.some.inj hprice]
    exact tdiv_roundTrip_le hnum hden hx hy
  · rw [(hthere hsame hswap).2]
    refine sum_tdiv_le hnum hden fun p hp => ?_
    obtain ⟨_, w3, w4, hsame3, hpart⟩ := hparts p hp
    exact hthere hsame3 hpart

/-- One and a half of token 5 are paid for one of token 4. -/
def ratedWorld : World :=
  run step (.deployed fun _ _ => 1000)
    [.invoke (.plain [] 0 0) (.initializeOracle (.ext 1)),
      .invoke (.plain [1] 0 0) (.setRate (.ext 4) (.ext 5) 15000000)]

/-- Address 3 swaps 3 of token 4 for 4 of token 5, and these back into 2. -/
theorem swap_never_gains_ratedWorld :
    let there := run step ratedWorld
      [.invoke (.plain [3] 0 0) (.swap (.ext 3) (.ext 4) (.ext 5) 3 0 (.ext 3))]
    let back := run step there
      [.invoke (.plain [3] 0 0) (.swap (.ext 3) (.ext 5) (.ext 4) 4 0 (.ext 3))]
    Swapped (.ext 4) (.ext 5) 3 4 (.plain [3] 0 0) ratedWorld there ∧
      Swapped (.ext 5) (.ext 4) 4 2 (.plain [3] 0 0) there back ∧ (2 : ℤ) ≤ 3 := by
  intro there back
  have hthere : Swapped (.ext 4) (.ext 5) 3 4 (.plain [3] 0 0) ratedWorld there :=
    ⟨.ext 3, .ext 3, 0, rfl, rfl⟩
  have hback : Swapped (.ext 5) (.ext 4) 4 2 (.plain [3] 0 0) there back :=
    ⟨.ext 3, .ext 3, 0, rfl, rfl⟩
  have hrate : OneRate ratedWorld (.ext 4) (.ext 5) := ⟨⟨15000000, 0⟩, by decide, .inl ⟨rfl, rfl⟩⟩
  exact ⟨hthere, hback, (swap_never_gains hrate).1 3 4 2 _ _ ratedWorld there there back
    ⟨rfl, rfl⟩ ⟨rfl, rfl⟩ (by decide) hthere hback⟩

end Checkmate.Oracle

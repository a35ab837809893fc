import Mathlib.Logic.Function.Basic

/-!
# A cache over a table

A table holds records by id, a cache holds one answer for each key that records have. The
cache is backed if every answer in it is that of a record of the table under its key.
Storing a record under a free id and caching its answer keeps that, and so does dropping an
answer. Withdrawing a record keeps it if the answer under its key is dropped as well,
whichever record that answer came from.
-/

namespace Checkmate

open Function

variable {ι κ ρ γ : Type}

/-- Every cached answer is that of a record of the table under its key. -/
def Backed (key : ρ → κ) (answers : γ → ρ → Prop) (table : ι → Option ρ)
    (cache : κ → Option γ) : Prop :=
  ∀ k c, cache k = some c → ∃ i r, table i = some r ∧ key r = k ∧ answers c r

namespace Backed

variable {key : ρ → κ} {answers : γ → ρ → Prop} {table : ι → Option ρ} {cache : κ → Option γ}
  {i : ι} {r : ρ} {c : γ}

theorem empty : Backed key answers table fun _ => none := by
  intro k c hc
  exact absurd hc (by simp)

variable [DecidableEq κ]

theorem evict (h : Backed key answers table cache) (k : κ) :
    Backed key answers table (update cache k none) := by
  intro k' c hc
  by_cases hk : k' = k
  · rw [hk, update_self] at hc
    exact absurd hc (by simp)
  · rw [update_of_ne hk] at hc
    exact h k' c hc

variable [DecidableEq ι]

theorem store (h : Backed key answers table cache) (hfree : table i = none) (hc : answers c r) :
    Backed key answers (update table i (some r)) (update cache (key r) (some c)) := by
  intro k c' hk
  by_cases heq : k = key r
  · rw [heq, update_self] at hk
    obtain rfl := Option.some.inj hk
    exact ⟨i, r, update_self .., heq.symm, hc⟩
  · rw [update_of_ne heq] at hk
    obtain ⟨j, r', hj, hkey, hans⟩ := h k c' hk
    have hne : j ≠ i := by
      rintro rfl
      cases hfree.symm.trans hj
    exact ⟨j, r', by rwa [update_of_ne hne], hkey, hans⟩

/-- What is left in the cache is under another key, hence from another record. -/
theorem withdraw (h : Backed key answers table cache) (hi : table i = some r) :
    Backed key answers (update table i none) (update cache (key r) none) := by
  intro k c' hk
  by_cases heq : k = key r
  · rw [heq, update_self] at hk
    exact absurd hk (by simp)
  · rw [update_of_ne heq] at hk
    obtain ⟨j, r', hj, hkey, hans⟩ := h k c' hk
    have hne : j ≠ i := by
      rintro rfl
      obtain rfl := Option.mem_unique hi hj
      exact heq hkey.symm
    exact ⟨j, r', by rwa [update_of_ne hne], hkey, hans⟩

end Backed

end Checkmate

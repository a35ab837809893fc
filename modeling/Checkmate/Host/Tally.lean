import Mathlib.Algebra.BigOperators.Group.Finset.Basic
import Mathlib.Data.Set.Card

/-!
# Votes

Everyone has at most one vote. A vote is unanimous if everyone who has voted has chosen the
leader, and the count is how many they are (`Unanimous`). With weights, a choice weighs what
those who have chosen it weigh together (`Weighs`). The `cast` theorems say what one more vote
does.
-/

namespace Checkmate

open Function

variable {α β : Type}

/-! ## Unanimous votes -/

/-- `count` have voted, all of them for the leader. -/
structure Unanimous (vote : α → Option β) (leader : Option β) (count : ℕ) : Prop where
  card : Set.encard {a | (vote a).isSome = true} = count
  leader : ∀ a b, vote a = some b → leader = some b

variable {vote : α → Option β} {leader : Option β} {count : ℕ} {a : α} {b : β}

theorem Unanimous.empty (h : ∀ a, vote a = none) : Unanimous vote leader 0 where
  card := by simp [h]
  leader a b hab := absurd ((h a).symm.trans hab) (by simp)

theorem Unanimous.eq_none (h : Unanimous vote leader 0) (a : α) : vote a = none := by
  have hempty : {a | (vote a).isSome = true} = ∅ := Set.encard_eq_zero.mp h.card
  have ha : a ∉ {a | (vote a).isSome = true} := by simp [hempty]
  simpa using ha

section

variable (h : Unanimous vote leader count)

include h

theorem Unanimous.count_eq_zero (hnone : ∀ a, vote a = none) :
    count = 0 := by
  have hempty : {a | (vote a).isSome = true} = ∅ := by simp [hnone]
  have hcard := h.card
  rw [hempty, Set.encard_empty] at hcard
  exact_mod_cast hcard.symm

/-- The first vote chooses the leader, a later one has to agree. -/
theorem Unanimous.cast [DecidableEq α] (ha : vote a = none)
    (hb : count = 0 ∨ leader = some b) :
    Unanimous (update vote a (some b)) (some b) (count + 1) where
  card := by
    have hset : {c | (update vote a (some b) c).isSome = true} =
        insert a {c | (vote c).isSome = true} := by
      ext c
      by_cases hc : c = a <;> simp [hc]
    rw [hset, Set.encard_insert_of_notMem (by simp [ha]), h.card]
    rfl
  leader c b' hc := by
    by_cases hca : c = a
    · rwa [hca, update_self] at hc
    · rw [update_of_ne hca] at hc
      rcases hb with rfl | hb
      · exact absurd ((h.eq_none c).symm.trans hc) (by simp)
      · exact hb.symm.trans (h.leader c b' hc)

theorem Unanimous.exists_voters :
    ∃ s : Finset α, s.card = count ∧ ∀ a ∈ s, (vote a).isSome = true := by
  have hfinite : {a | (vote a).isSome = true}.Finite := Set.finite_of_encard_eq_coe h.card
  refine ⟨hfinite.toFinset, ?_, fun a ha => hfinite.mem_toFinset.mp ha⟩
  have hcard := h.card
  rw [hfinite.encard_eq_coe_toFinset_card] at hcard
  exact_mod_cast hcard

theorem Unanimous.card_le {s : Finset α}
    (hs : ∀ a ∈ s, (vote a).isSome = true) : s.card ≤ count := by
  have hsubset : (s : Set α) ⊆ {a | (vote a).isSome = true} := hs
  have hle := Set.encard_le_encard hsubset
  rw [h.card, Set.encard_coe_eq_coe_finsetCard] at hle
  exact_mod_cast hle

end

/-! ## Weighted votes -/

section Weights

variable {ω : Type} [AddCommMonoid ω] {weight : α → ω} {total x : ω}

/-- Those who have voted for `b` weigh `total` together. -/
def Weighs (vote : α → Option β) (weight : α → ω) (b : β) (total : ω) : Prop :=
  ∃ s : Finset α, (∀ a, a ∈ s ↔ vote a = some b) ∧ total = ∑ a ∈ s, weight a

theorem Weighs.empty (h : ∀ a, vote a = none) : Weighs vote weight b 0 :=
  ⟨∅, by simp [h], by simp⟩

/-- One more vote for `b`. -/
theorem Weighs.cast [DecidableEq α] (h : Weighs vote weight b total) (ha : vote a = none) :
    Weighs (update vote a (some b)) (update weight a x) b (total + x) := by
  obtain ⟨s, hs, rfl⟩ := h
  have hnot : a ∉ s := by simp [hs, ha]
  refine ⟨insert a s, fun c => ?_, ?_⟩
  · by_cases hc : c = a <;> simp [hc, hs]
  · rw [Finset.sum_insert hnot, update_self, Finset.sum_update_of_notMem hnot, add_comm]

/-- A vote for another choice. -/
theorem Weighs.cast_other [DecidableEq α] {b' : β} (h : Weighs vote weight b total)
    (ha : vote a = none) (hb : b' ≠ b) :
    Weighs (update vote a (some b')) (update weight a x) b total := by
  obtain ⟨s, hs, rfl⟩ := h
  have hnot : a ∉ s := by simp [hs, ha]
  refine ⟨s, fun c => ?_, (Finset.sum_update_of_notMem hnot ..).symm⟩
  by_cases hc : c = a <;> simp [hc, hs, ha, hb]

end Weights

end Checkmate

import Mathlib.Data.Finset.Card
import Mathlib.Data.List.Nodup
import Mathlib.Data.Nat.Count
import Mathlib.Order.Interval.Finset.Nat

/-!
# Counting below a bound

`Nat.count p n` is the number of indices below `n` with `p`. The theorems say how it changes
when one index starts to satisfy the predicate, or stops (`count_insert`, `count_erase`).
`countP_erase` is the same for the members of a list. The last two theorems compare a list
of voters with a finite set of them.
-/

namespace Checkmate

open Finset

variable {p q : ℕ → Prop} [DecidablePred p] [DecidablePred q] {n i : ℕ}

theorem count_congr (h : ∀ j < n, p j ↔ q j) : Nat.count p n = Nat.count q n := by
  rw [Nat.count_eq_card_filter_range, Nat.count_eq_card_filter_range]
  congr 1
  ext j
  simp only [mem_filter, mem_range]
  exact and_congr_right (h j)

/-- One more index satisfies the predicate. -/
theorem count_insert (hi : i < n) (hp : ¬p i) (hq : q i) (hother : ∀ j, j ≠ i → (q j ↔ p j)) :
    Nat.count q n = Nat.count p n + 1 := by
  rw [Nat.count_eq_card_filter_range, Nat.count_eq_card_filter_range]
  have hset : (Finset.range n).filter q = insert i ((Finset.range n).filter p) := by
    ext j
    simp only [mem_filter, mem_range, mem_insert]
    by_cases hj : j = i
    · subst hj
      simp [hi, hq]
    · simp [hj, hother j hj]
  rw [hset, card_insert_of_notMem (by simp [hp])]

/-- One index no longer satisfies it. -/
theorem count_erase (hi : i < n) (hp : p i) (hq : ¬q i) (hother : ∀ j, j ≠ i → (q j ↔ p j)) :
    Nat.count q n = Nat.count p n - 1 := by
  have h := count_insert (p := q) (q := p) hi hq hp fun j hj => (hother j hj).symm
  omega

/-- One member of a list no longer satisfies the predicate. -/
theorem countP_erase {α : Type} [DecidableEq α] {l : List α} {a : α} {p q : α → Bool}
    (hl : l.Nodup) (ha : a ∈ l) (hp : p a = true) (hq : q a = false)
    (hother : ∀ b, b ≠ a → q b = p b) : l.countP p = l.countP q + 1 := by
  have hperm := List.perm_cons_erase ha
  have hrest : (l.erase a).countP q = (l.erase a).countP p := by
    refine List.countP_congr fun b hb => ?_
    have hne : b ≠ a := ((hl.mem_erase_iff).mp hb).1
    rw [hother b hne]
  rw [hperm.countP_eq p, hperm.countP_eq q, List.countP_cons_of_pos hp,
    List.countP_cons_of_neg (by simp [hq]), hrest]

/-- More voters than `s` has members are not all in `s`. -/
theorem exists_notMem_of_card_lt {α : Type} [DecidableEq α] {l : List α} {s : Finset α}
    (hl : l.Nodup) (h : s.card < l.length) : ∃ a ∈ l, a ∉ s := by
  rw [← List.toFinset_card_of_nodup hl] at h
  obtain ⟨a, ha, hs⟩ := exists_mem_notMem_of_card_lt_card h
  exact ⟨a, List.mem_toFinset.mp ha, hs⟩

/-- Two lists that have every member of `s` between them. -/
theorem card_le_length_add {α : Type} [DecidableEq α] {s : Finset α} {l m : List α}
    (h : ∀ a ∈ s, a ∈ l ∨ a ∈ m) : s.card ≤ l.length + m.length := by
  have hsub : s ⊆ (l ++ m).toFinset := fun a ha => by simpa using h a ha
  calc s.card ≤ (l ++ m).toFinset.card := card_le_card hsub
    _ ≤ (l ++ m).length := List.toFinset_card_le _
    _ = l.length + m.length := List.length_append

end Checkmate

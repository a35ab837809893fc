import Mathlib.Data.List.Basic
import Mathlib.Data.List.Perm.Subperm

/-!
# Pages of a list

The pages of `n` entries of a list come one after the other, the last one may be shorter.
Together they are the list.

A list that changes while it is read page by page keeps what is not read yet ahead, as long as
none of the entries already read leaves it (`not_mem_take_of_kept`).
-/

namespace Checkmate

open List

variable {α β : Type}

/-- Pages of `n` entries, one after the other. -/
theorem flatMap_pages (l : List α) (n k : ℕ) :
    ((List.range k).flatMap fun j => (l.drop (j * n)).take n) = l.take (k * n) := by
  induction k with
  | zero => simp
  | succ k ih =>
    rw [range_succ, flatMap_append, ih, Nat.succ_mul, take_add]
    simp

/-- All pages of a list. -/
def chunks (n : ℕ) (l : List α) : List (List α) :=
  (List.range ((l.length + n - 1) / n)).map fun j => (l.drop (j * n)).take n

theorem chunks_flatten {n : ℕ} (hn : 0 < n) (l : List α) : (chunks n l).flatten = l := by
  have hlength : l.length ≤ (l.length + n - 1) / n * n := by
    have hdiv := Nat.div_add_mod (l.length + n - 1) n
    have hmod := Nat.mod_lt (l.length + n - 1) hn
    rw [Nat.mul_comm] at hdiv
    omega
  rw [chunks, ← flatMap_def, flatMap_pages, take_of_length_le hlength]

/-- Outputs of equal length are the same if and only if each of them is. -/
theorem flatMap_eq_iff {f g : α → List β} {l : List α}
    (hlength : ∀ a ∈ l, (f a).length = (g a).length) :
    l.flatMap f = l.flatMap g ↔ ∀ a ∈ l, f a = g a := by
  induction l with
  | nil => simp
  | cons a l ih =>
    obtain ⟨ha, hl⟩ := forall_mem_cons.mp hlength
    rw [flatMap_cons, flatMap_cons, forall_mem_cons, ← ih hl]
    constructor
    · exact fun h => append_inj h ha
    · rintro ⟨hhead, htail⟩
      rw [hhead, htail]

/-! ## A page at an offset -/

/-- An entry is before the page, on it, or after it, and then the page is full. -/
theorem mem_page {l : List α} {a : α} (ha : a ∈ l) (k n : ℕ) :
    a ∈ l.take k ∨ a ∈ (l.drop k).take n ∨
      (((l.drop k).take n).length = n ∧ a ∉ l.take (k + n)) := by
  by_cases htake : a ∈ l.take (k + n)
  · rw [take_add, mem_append] at htake
    exact htake.imp_right .inl
  · have hlength : k + n ≤ l.length := by
      by_contra hlt
      rw [take_of_length_le (by omega)] at htake
      exact htake ha
    refine .inr (.inr ⟨?_, htake⟩)
    rw [length_take, length_drop]
    omega

/-- The first `n` entries of a sorted list stay : what was not among them is not among the first
`n` of the new list. -/
theorem not_mem_take_of_kept {r : α → α → Prop} (hr : ∀ a b, r a b → ¬ r b a) {l l' : List α}
    (hl : l.Pairwise r) (hl' : l'.Pairwise r) {n : ℕ} (hkept : ∀ b ∈ l.take n, b ∈ l') {a : α}
    (ha : a ∈ l) (hn : a ∉ l.take n) : a ∉ l'.take n := by
  intro hmem
  have hdrop : a ∈ l.drop n := by
    rw [← take_append_drop n l, mem_append] at ha
    exact ha.resolve_left hn
  have hlength : (l.take n).length = n := by
    have := length_pos_of_mem hdrop
    rw [length_drop] at this
    rw [length_take]
    omega
  -- the first `n` entries come before `a`, so in the new list they do so too
  have hsub : a :: l.take n ⊆ l'.take n := by
    refine cons_subset.mpr ⟨hmem, fun b hb => ?_⟩
    have hlt : r b a := by
      rw [← take_append_drop n l] at hl
      exact (pairwise_append.mp hl).2.2 b hb a hdrop
    have hb' := hkept b hb
    rw [← take_append_drop n l', mem_append] at hb'
    refine hb'.resolve_right fun hb' => ?_
    rw [← take_append_drop n l'] at hl'
    exact hr b a hlt ((pairwise_append.mp hl').2.2 a hmem b hb')
  have hne : ∀ {b c : α}, r b c → b ≠ c := fun {b c} h hbc => hr b c h (hbc ▸ h)
  have hnodup : (a :: l.take n).Nodup :=
    nodup_cons.mpr ⟨hn, (hl.imp hne).sublist (take_sublist n l)⟩
  have hle := (List.Nodup.subperm hnodup hsub).length_le
  rw [length_cons, hlength, length_take] at hle
  omega

end Checkmate

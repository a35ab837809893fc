import Mathlib.Data.Int.ModEq
import Mathlib.Data.List.Basic
import Mathlib.Logic.Function.Basic
import Mathlib.Tactic.Common

/-!
# Ring buffers

A ring buffer of `size` slots keeps the last `size` entries of a history, the entry with index
`i` in slot `i % size` (`RingHolds`). `lastBelow` is a search from the newest index down. The
loops that walk a ring backwards are such searches (`findSome?_range_eq`), and in what the ring
still holds they find what a search of the history finds (`RingHolds.lastBelow_eq`).
-/

namespace Checkmate

variable {α β : Type} {size : ℕ} {slots : ℕ → Option α} {hist : List α}

/-- The last `size` entries of the history are in their slots. -/
def RingHolds (size : ℕ) (slots : ℕ → Option α) (hist : List α) : Prop :=
  ∀ i e, hist[i]? = some e → hist.length ≤ i + size → slots (i % size) = some e

theorem RingHolds.nil : RingHolds size slots [] := fun i e h => absurd h (by simp)

/-- Two indices in one slot are `size` apart. -/
theorem mod_ne_of_lt {i j : ℕ} (hij : i < j) (hj : j < i + size) : i % size ≠ j % size := by
  intro heq
  have hdvd : size ∣ j - i := (Nat.modEq_iff_dvd' hij.le).mp heq
  have hle := Nat.le_of_dvd (by omega) hdvd
  omega

/-- The next entry takes the slot of the one that is `size` older. -/
theorem RingHolds.push (h : RingHolds size slots hist) (e : α) :
    RingHolds size (Function.update slots (hist.length % size) (some e)) (hist ++ [e]) := by
  intro i e' he' hlen
  rw [List.length_append, List.length_singleton] at hlen
  rcases lt_trichotomy i hist.length with hi | rfl | hi
  · rw [List.getElem?_append_left hi] at he'
    rw [Function.update_of_ne (mod_ne_of_lt hi (by omega))]
    exact h i e' he' (by omega)
  · rw [List.getElem?_concat_length] at he'
    rw [Function.update_self, he']
  · rw [List.getElem?_eq_none (by simp; omega)] at he'
    exact absurd he' (by simp)

/-- Go down from `cursor` to `start` and return the first answer. -/
def lastBelow (f : ℕ → Option β) (start : ℕ) : ℕ → Option β
  | 0 => none
  | cursor + 1 => if start ≤ cursor then (f cursor).or (lastBelow f start cursor) else none

section Search

variable {f g : ℕ → Option β} {start cursor : ℕ} {b : β}

theorem lastBelow_eq_none_iff :
    lastBelow f start cursor = none ↔ ∀ i, start ≤ i → i < cursor → f i = none := by
  induction cursor with
  | zero => simp [lastBelow]
  | succ cursor ih =>
    rw [lastBelow]
    split
    · rename_i hstart
      rw [Option.or_eq_none_iff, ih]
      constructor
      · rintro ⟨hcursor, hbelow⟩ i hi hlt
        rcases Nat.lt_succ_iff_lt_or_eq.mp hlt with hlt | rfl
        · exact hbelow i hi hlt
        · exact hcursor
      · exact fun h => ⟨h cursor hstart (by omega), fun i hi hlt => h i hi (by omega)⟩
    · exact ⟨fun _ i hi hlt => by omega, fun _ => rfl⟩

/-- The answer is that of the last index with one. -/
theorem lastBelow_eq_some_iff : lastBelow f start cursor = some b ↔
      ∃ i, start ≤ i ∧ i < cursor ∧ f i = some b ∧ ∀ j, i < j → j < cursor → f j = none := by
  induction cursor with
  | zero => simp [lastBelow]
  | succ cursor ih =>
    rw [lastBelow]
    split
    · rename_i hstart
      rw [Option.or_eq_some_iff, ih]
      constructor
      · rintro (hcursor | ⟨hcursor, i, hi, hlt, hb, hlast⟩)
        · exact ⟨cursor, hstart, by omega, hcursor, fun j hj hlt => by omega⟩
        · refine ⟨i, hi, by omega, hb, fun j hj hlt => ?_⟩
          rcases Nat.lt_succ_iff_lt_or_eq.mp hlt with hlt | rfl
          · exact hlast j hj hlt
          · exact hcursor
      · rintro ⟨i, hi, hlt, hb, hlast⟩
        rcases Nat.lt_succ_iff_lt_or_eq.mp hlt with hlt | rfl
        · exact .inr ⟨hlast cursor hlt (by omega), i, hi, hlt, hb,
            fun j hj hlt => hlast j hj (by omega)⟩
        · exact .inl hb
    · exact ⟨fun h => absurd h (by simp), fun ⟨i, hi, hlt, _⟩ => by omega⟩

theorem lastBelow_congr (h : ∀ i, start ≤ i → i < cursor → f i = g i) :
    lastBelow f start cursor = lastBelow g start cursor := by
  induction cursor with
  | zero => rfl
  | succ cursor ih =>
    rw [lastBelow, lastBelow]
    split
    · rename_i hstart
      rw [h cursor hstart (by omega), ih fun i hi hlt => h i hi (by omega)]
    · rfl

/-- A loop over the last `k` of `n` indices. -/
theorem findSome?_range_eq (f : ℕ → Option β) : ∀ {k n : ℕ}, k ≤ n →
      (List.range k).findSome? (fun i => f (n - (i + 1))) = lastBelow f (n - k) n
  | 0, n, _ => by
    refine (lastBelow_eq_none_iff.mpr fun i hi hlt => ?_).symm
    omega
  | k + 1, n + 1, hk => by
    have ih := findSome?_range_eq f (Nat.le_of_succ_le_succ hk)
    rw [List.range_succ_eq_map, List.findSome?_cons, List.findSome?_map, lastBelow,
      if_pos (by omega), Nat.succ_sub_succ n k, ← ih]
    have hrest : (fun i => f (n + 1 - (i + 1))) ∘ Nat.succ = fun i => f (n - (i + 1)) := by
      funext i
      simp only [Function.comp_apply, Nat.succ_eq_add_one, Nat.add_sub_add_right]
    rw [hrest]
    cases hf : f n with
    | none | some => simp [hf]

end Search

/-- A search of the ring is a search of the entries that it keeps. -/
theorem RingHolds.lastBelow_eq (h : RingHolds size slots hist) (f : ℕ → α → Option β) :
    lastBelow (fun i => (slots (i % size)).bind (f i)) (hist.length - size) hist.length =
      lastBelow (fun i => hist[i]?.bind (f i)) (hist.length - size) hist.length := by
  refine lastBelow_congr fun i hi hlt => ?_
  have he : hist[i]? = some hist[i] := List.getElem?_eq_getElem hlt
  rw [h i _ he (by omega), he]

end Checkmate

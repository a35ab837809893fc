import Mathlib.Algebra.BigOperators.Group.List.Basic
import Mathlib.Tactic.Common
import Mathlib.Tactic.Ring

/-!
# Token balances and the movements between them

A ledger gives every holder a balance of every token. `Ledger.transfer` moves exactly
the requested amount or fails. A `Movement` records one transfer together with the
reason it was made, and `netFlow` adds up what a list of movements brought one holder
in one token. `Ledger.transfer_flow` ties the two : a balance changes by the flow of
the movements made.
-/

namespace Checkmate

/-- The balance of each token at each holder. -/
abbrev Ledger (A : Type) := A → A → ℕ

/-- A transfer of `amount` of `token`, and what it was made for. -/
structure Movement (A K : Type) where
  token : A
  source : A
  target : A
  amount : ℤ
  cause : K
deriving DecidableEq

variable {A K : Type} [DecidableEq A]

/-- Add `amount` to one balance. -/
def Ledger.credit (l : Ledger A) (token holder : A) (amount : ℕ) : Ledger A :=
  fun t a => if t = token ∧ a = holder then l t a + amount else l t a

/-- Take `amount` from one balance. -/
def Ledger.debit (l : Ledger A) (token holder : A) (amount : ℕ) : Ledger A :=
  fun t a => if t = token ∧ a = holder then l t a - amount else l t a

/-- Move `amount` of `token` from `source` to `target`. Fails on a negative amount and
on one above the source's balance. -/
def Ledger.transfer (l : Ledger A) (token source target : A) (amount : ℤ) :
    Option (Ledger A) :=
  if 0 ≤ amount ∧ amount ≤ l token source then
    some ((l.debit token source amount.toNat).credit token target amount.toNat)
  else none

/-- What the movement brings `holder` in `token`, negative if it takes. -/
def Movement.flow (holder token : A) (m : Movement A K) : ℤ :=
  (if m.token = token ∧ m.target = holder then m.amount else 0) -
    (if m.token = token ∧ m.source = holder then m.amount else 0)

/-- What the movements together bring `holder` in `token`. -/
def netFlow (holder token : A) (ms : List (Movement A K)) : ℤ :=
  (ms.map (Movement.flow holder token)).sum

@[simp] theorem netFlow_nil (holder token : A) :
    netFlow holder token ([] : List (Movement A K)) = 0 := rfl

@[simp] theorem netFlow_cons (holder token : A) (m : Movement A K) (ms : List (Movement A K)) :
    netFlow holder token (m :: ms) = m.flow holder token + netFlow holder token ms := by
  simp [netFlow]

@[simp] theorem netFlow_append (holder token : A) (ms ns : List (Movement A K)) :
    netFlow holder token (ms ++ ns) = netFlow holder token ms + netFlow holder token ns := by
  simp [netFlow]

theorem Ledger.transfer_nonneg {l l' : Ledger A} {token source target : A} {amount : ℤ}
    (h : l.transfer token source target amount = some l') : 0 ≤ amount := by
  unfold Ledger.transfer at h
  split at h
  · rename_i hc
    exact hc.1
  · exact absurd h (by simp)

/-- A transfer changes every balance by the flow of its movement. -/
theorem Ledger.transfer_flow {l l' : Ledger A} {m : Movement A K}
    (h : l.transfer m.token m.source m.target m.amount = some l') (holder token : A) :
    (l' token holder : ℤ) = l token holder + m.flow holder token := by
  unfold Ledger.transfer at h
  split at h
  case isFalse => exact absurd h (by simp)
  case isTrue hc =>
    obtain ⟨hpos, hle⟩ := hc
    obtain rfl := Option.some.inj h
    simp only [Ledger.credit, Ledger.debit, Movement.flow]
    by_cases ht : token = m.token
    · subst ht
      by_cases hs : holder = m.source <;> by_cases hd : holder = m.target <;> grind
    · simp [ht, Ne.symm ht]

/-! ## Lists of movements -/

/-- The movements, the newest first, lead from one ledger to the other, each within the
balance of its source. -/
inductive Ledger.Moves : Ledger A → List (Movement A K) → Ledger A → Prop
  | nil {l : Ledger A} : Moves l [] l
  | cons {l l1 l2 : Ledger A} {ms : List (Movement A K)} {m : Movement A K}
      (h : Moves l ms l1) (hm : l1.transfer m.token m.source m.target m.amount = some l2) :
      Moves l (m :: ms) l2

namespace Ledger.Moves

variable {l l1 l2 : Ledger A} {ms ns : List (Movement A K)}

theorem append (h : l.Moves ms l1) (h' : l1.Moves ns l2) : l.Moves (ns ++ ms) l2 := by
  induction h' with
  | nil => exact h
  | cons _ hm ih => exact ih.cons hm

/-- Every balance changes by the flow of the movements. -/
theorem balance (h : l.Moves ms l1) (holder token : A) :
    (l1 token holder : ℤ) = l token holder + netFlow holder token ms := by
  induction h with
  | nil => simp
  | cons _ hm ih =>
    rw [Ledger.transfer_flow hm holder token, ih, netFlow_cons]
    ring

theorem amount_nonneg (h : l.Moves ms l1) : ∀ m ∈ ms, 0 ≤ m.amount := by
  induction h with
  | nil => simp
  | cons _ hm ih =>
    intro m hmem
    rcases List.mem_cons.mp hmem with rfl | hmem
    · exact Ledger.transfer_nonneg hm
    · exact ih m hmem

end Ledger.Moves

end Checkmate

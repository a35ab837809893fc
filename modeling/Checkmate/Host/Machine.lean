import Mathlib.Algebra.Group.Int.Defs
import Mathlib.Algebra.Group.Nat.Defs
import Mathlib.Data.Int.Order.Basic
import Mathlib.Tactic.Common

/-!
# Values of the host

An address is either the running contract's own (`Address.self`) or one of the others.
Strings and byte arrays are lists of bytes.

Amounts are integers and counters natural numbers. The checked operations return
`none` where the fixed-width operation overflows, the saturating ones stop at the
bound of the type.
-/

namespace Checkmate

/-- An account or contract : the current contract itself, or another one. -/
inductive Address where
  | self
  | ext (n : ℕ)
deriving DecidableEq, Repr

/-- A host string or byte array. -/
abbrev Bytes := List UInt8

/-- Largest `i128`. -/
def i128Max : ℤ := 2 ^ 127 - 1

/-- Smallest `i128`. -/
def i128Min : ℤ := -2 ^ 127

/-- Largest `u32`. -/
def u32Max : ℕ := 2 ^ 32 - 1

/-- Largest `u64`. -/
def u64Max : ℕ := 2 ^ 64 - 1

/-- `x` as an `i128`, if it is one. -/
def toI128 (x : ℤ) : Option ℤ :=
  if i128Min ≤ x ∧ x ≤ i128Max then some x else none

def checkedAdd (a b : ℤ) : Option ℤ := toI128 (a + b)

def checkedSub (a b : ℤ) : Option ℤ := toI128 (a - b)

def checkedMul (a b : ℤ) : Option ℤ := toI128 (a * b)

/-- Division truncates towards zero. -/
def checkedDiv (a b : ℤ) : Option ℤ :=
  if b = 0 then none else toI128 (a.tdiv b)

def saturatingAdd (a b : ℤ) : ℤ := max i128Min (min i128Max (a + b))

/-- Checked addition of an unsigned type whose largest value is `bound`. -/
def checkedAddU (bound a b : ℕ) : Option ℕ :=
  if a + b ≤ bound then some (a + b) else none

/-- Saturating addition of an unsigned type whose largest value is `bound`. -/
def saturatingAddU (bound a b : ℕ) : ℕ := min bound (a + b)

theorem toNat_le_u32Max (n : UInt32) : n.toNat ≤ u32Max := Nat.le_of_lt_succ n.toNat_lt

theorem toNat_le_u64Max (n : UInt64) : n.toNat ≤ u64Max := Nat.le_of_lt_succ n.toNat_lt

theorem self_notMem_map_ext (l : List ℕ) : Address.self ∉ l.map Address.ext := by simp

@[simp] theorem toI128_eq_some {x y : ℤ} :
    toI128 x = some y ↔ x = y ∧ i128Min ≤ x ∧ x ≤ i128Max := by
  unfold toI128
  split
  · rename_i h
    simp [h]
  · rename_i h
    simp only [reduceCtorEq, false_iff]
    rintro ⟨-, hx⟩
    exact h hx

@[simp] theorem checkedAddU_eq_some {bound a b c : ℕ} :
    checkedAddU bound a b = some c ↔ a + b = c ∧ a + b ≤ bound := by
  unfold checkedAddU
  split
  · simp_all
  · simp_all
    omega

theorem saturatingAdd_eq {a b : ℤ} (hlo : i128Min ≤ a + b) (hhi : a + b ≤ i128Max) :
    saturatingAdd a b = a + b := by
  rw [saturatingAdd, min_eq_right hhi, max_eq_right hlo]

end Checkmate

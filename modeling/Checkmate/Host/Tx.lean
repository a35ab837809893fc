import Mathlib.Logic.Basic
import Mathlib.Tactic.Common

/-!
# Contract functions : values, errors that keep their writes, traps

A contract function reads an environment, updates a state and ends in one of three
ways. It returns a value, it returns an error, or it traps. An error is an ordinary
return value : a caller inside the same invocation that goes on after it sees every
write made before it (`attempt`). A trap leaves no state at all : it ends the whole
invocation, whoever the caller was.

The `_ok_iff` and `_err_iff` theorems say of each combinator when it returns a value
or an error, and in which state. They are simp lemmas, so that a hypothesis that a
function returned is turned by `simp` into the guards it passed and the writes it made.

`batch` runs one function on every entry of a list and reports each entry's error in
place, `forEach` stops at the first. `batch_rel` and `forEach_rel` are the inductions over
the entries.
-/

namespace Checkmate

/-- How a contract function ends : a value or an error, each with the state at the
return, or a trap. -/
inductive Outcome (ε σ α : Type) where
  | ok (a : α) (s : σ)
  | err (e : ε) (s : σ)
  | trap

/-- The value that is returned, if any. -/
def Outcome.value {ε σ α : Type} : Outcome ε σ α → Option α
  | .ok a _ => some a
  | _ => none

theorem Outcome.value_eq_some_iff {ε σ α : Type} {o : Outcome ε σ α} {a : α} :
    o.value = some a ↔ ∃ s, o = .ok a s := by
  cases o <;> simp [Outcome.value]

/-- Whether a value is returned. -/
def Outcome.isOk {ε σ α : Type} : Outcome ε σ α → Bool
  | .ok _ _ => true
  | _ => false

theorem Outcome.isOk_iff {ε σ : Type} {x : Outcome ε σ Unit} :
    x.isOk = true ↔ ∃ s, x = .ok () s := by
  cases x <;> simp [Outcome.isOk]

instance {ε σ α : Type} : (x : Outcome ε σ α) → Decidable (x = .trap)
  | .ok .. => isFalse (by simp)
  | .err .. => isFalse (by simp)
  | .trap => isTrue rfl

/-- A contract function over environment `ρ`, state `σ` and error type `ε`. -/
def Tx (ρ σ ε α : Type) : Type := ρ → σ → Outcome ε σ α

namespace Tx

variable {ρ σ τ ε α β : Type}

instance : Monad (Tx ρ σ ε) where
  pure a := fun _ s => .ok a s
  bind x f := fun r s =>
    match x r s with
    | .ok a s' => f a r s'
    | .err e s' => .err e s'
    | .trap => .trap

/-! ## Combinators -/

/-- The environment. -/
def ask : Tx ρ σ ε ρ := fun r s => .ok r s

/-- The current state. -/
def get : Tx ρ σ ε σ := fun _ s => .ok s s

/-- Write the state. -/
def modify (f : σ → σ) : Tx ρ σ ε Unit := fun _ s => .ok () (f s)

/-- Return the error `e`. -/
def fail (e : ε) : Tx ρ σ ε α := fun _ s => .err e s

/-- End the invocation. -/
def abort : Tx ρ σ ε α := fun _ _ => .trap

/-- Return the error `e` if `c` holds. -/
def reject (c : Prop) [Decidable c] (e : ε) : Tx ρ σ ε Unit :=
  fun _ s => if c then .err e s else .ok () s

/-- Call `x` if `c` holds. -/
def when (c : Prop) [Decidable c] (x : Tx ρ σ ε Unit) : Tx ρ σ ε Unit :=
  if c then x else pure ()

/-- The value of an option, or the error `e`. -/
def orFail (o : Option α) (e : ε) : Tx ρ σ ε α := fun _ s =>
  match o with
  | some a => .ok a s
  | none => .err e s

/-- The value of an option, or a trap. -/
def orAbort (o : Option α) : Tx ρ σ ε α := fun _ s =>
  match o with
  | some a => .ok a s
  | none => .trap

/-- Call `x` and go on after an error of it, with the writes it made. -/
def attempt (x : Tx ρ σ ε Unit) : Tx ρ σ ε (Option ε) := fun r s =>
  match x r s with
  | .ok _ s' => .ok none s'
  | .err e s' => .ok (some e) s'
  | .trap => .trap

/-- Call `x` and, if it returns an error, write the state before passing the error on. -/
def onError (f : σ → σ) (x : Tx ρ σ ε α) : Tx ρ σ ε α := fun r s =>
  match x r s with
  | .err e s' => .err e (f s')
  | o => o

/-- Call `x` and, if `c` holds, go on after a trap of it without its writes. -/
def catchTrap (c : Bool) (x : Tx ρ σ ε Unit) : Tx ρ σ ε Unit := fun r s =>
  match x r s with
  | .trap => if c then .ok () s else .trap
  | o => o

/-- Run `x` on the part of the state that `view` reads and `put` writes. -/
def zoom (view : σ → τ) (put : τ → σ → σ) (x : Tx ρ τ ε α) : Tx ρ σ ε α := fun r s =>
  match x r (view s) with
  | .ok a t => .ok a (put t s)
  | .err e t => .err e (put t s)
  | .trap => .trap

/-- Call `f` on every entry in order and report each entry's error in its place. -/
def batch (f : α → Tx ρ σ ε Unit) : List α → Tx ρ σ ε (List (Option ε))
  | [] => pure []
  | a :: as => do
    let o ← attempt (f a)
    let os ← batch f as
    pure (o :: os)

/-- Call `f` on every entry in order, up to the first that does not return a value. -/
def forEach (f : α → Tx ρ σ ε β) : List α → Tx ρ σ ε Unit
  | [] => pure ()
  | a :: as => do
    let _ ← f a
    forEach f as

/-! ## Running a function step by step -/

theorem bind_assoc {γ : Type} (x : Tx ρ σ ε α) (f : α → Tx ρ σ ε β) (g : β → Tx ρ σ ε γ) :
    x >>= f >>= g = x >>= fun a => f a >>= g := by
  funext r s
  simp only [bind]
  cases x r s <;> rfl

theorem bind_of_ok {x : Tx ρ σ ε α} {f : α → Tx ρ σ ε β} {r : ρ} {s s' : σ} {a : α}
    (h : x r s = .ok a s') : (x >>= f) r s = f a r s' := by
  change (match x r s with
    | .ok a s' => f a r s' | .err e s' => .err e s' | .trap => .trap) = _
  rw [h]

theorem ask_bind (f : ρ → Tx ρ σ ε β) (r : ρ) (s : σ) : (ask >>= f) r s = f r r s := rfl

theorem get_bind (f : σ → Tx ρ σ ε β) (r : ρ) (s : σ) : (get >>= f) r s = f s r s := rfl

theorem reject_bind {c : Prop} [Decidable c] {e : ε} (h : ¬c) (f : Unit → Tx ρ σ ε β) (r : ρ)
    (s : σ) : (reject c e >>= f) r s = f () r s := bind_of_ok (if_neg h)

/-! ## When a function returns a value -/

section Ok

variable {r : ρ} {s s' : σ} {e : ε} {a b : α}

@[simp] theorem pure_ok_iff : (pure a : Tx ρ σ ε α) r s = .ok b s' ↔ b = a ∧ s' = s := by
  change Outcome.ok a s = .ok b s' ↔ _
  simp [eq_comm]

@[simp] theorem bind_ok_iff {x : Tx ρ σ ε α} {f : α → Tx ρ σ ε β} {b : β} :
    (x >>= f) r s = .ok b s' ↔ ∃ a s1, x r s = .ok a s1 ∧ f a r s1 = .ok b s' := by
  change (match x r s with
    | .ok a s' => f a r s' | .err e s' => .err e s' | .trap => .trap) = Outcome.ok b s' ↔ _
  cases x r s <;> simp

@[simp] theorem ask_ok_iff {q : ρ} : (ask : Tx ρ σ ε ρ) r s = .ok q s' ↔ q = r ∧ s' = s := by
  simp [ask, eq_comm]

@[simp] theorem get_ok_iff {t : σ} : (get : Tx ρ σ ε σ) r s = .ok t s' ↔ t = s ∧ s' = s := by
  simp [get, eq_comm]

@[simp] theorem modify_ok_iff {f : σ → σ} {u : Unit} :
    (modify f : Tx ρ σ ε Unit) r s = .ok u s' ↔ s' = f s := by
  simp [modify, eq_comm]

@[simp] theorem fail_ok_iff : (fail e : Tx ρ σ ε α) r s = .ok a s' ↔ False := by
  simp [fail]

@[simp] theorem abort_ok_iff : (abort : Tx ρ σ ε α) r s = .ok a s' ↔ False := by
  simp [abort]

@[simp] theorem reject_ok_iff {c : Prop} [Decidable c] {u : Unit} :
    (reject c e : Tx ρ σ ε Unit) r s = .ok u s' ↔ ¬c ∧ s' = s := by
  by_cases h : c <;> simp [reject, h, eq_comm]

@[simp] theorem orFail_ok_iff {o : Option α} :
    (orFail o e : Tx ρ σ ε α) r s = .ok a s' ↔ o = some a ∧ s' = s := by
  cases o <;> simp [orFail, eq_comm]

@[simp] theorem orAbort_ok_iff {o : Option α} :
    (orAbort o : Tx ρ σ ε α) r s = .ok a s' ↔ o = some a ∧ s' = s := by
  cases o <;> simp [orAbort, eq_comm]

@[simp] theorem attempt_ok_iff {x : Tx ρ σ ε Unit} {o : Option ε} : attempt x r s = .ok o s' ↔
      (o = none ∧ x r s = .ok () s') ∨ ∃ e, o = some e ∧ x r s = .err e s' := by
  unfold attempt
  cases x r s <;> simp [eq_comm]

@[simp] theorem onError_ok_iff {f : σ → σ} {x : Tx ρ σ ε α} :
    onError f x r s = .ok a s' ↔ x r s = .ok a s' := by
  unfold onError
  cases x r s <;> simp

theorem catchTrap_ok_iff {c : Bool} {x : Tx ρ σ ε Unit} {u : Unit} : catchTrap c x r s = .ok u s' ↔
      x r s = .ok u s' ∨ (x r s = .trap ∧ c = true ∧ s' = s) := by
  unfold catchTrap
  cases x r s <;> cases c <;> simp [eq_comm]

@[simp] theorem zoom_ok_iff {view : σ → τ} {put : τ → σ → σ} {x : Tx ρ τ ε α} :
    zoom view put x r s = .ok a s' ↔ ∃ t, x r (view s) = .ok a t ∧ s' = put t s := by
  unfold zoom
  cases x r (view s) <;> simp [eq_comm, and_comm]

@[simp] theorem when_ok_iff {c : Prop} [Decidable c] {x : Tx ρ σ ε Unit} {u : Unit} :
    when c x r s = .ok u s' ↔ (c ∧ x r s = .ok u s') ∨ (¬c ∧ s' = s) := by
  by_cases h : c <;> simp [when, h]

theorem ite_ok_iff {c : Prop} [Decidable c] {x y : Tx ρ σ ε α} :
    (if c then x else y) r s = .ok a s' ↔ (c ∧ x r s = .ok a s') ∨ (¬c ∧ y r s = .ok a s') := by
  by_cases h : c <;> simp [h]

end Ok

/-! ## When a function returns an error -/

section Err

variable {r : ρ} {s s' : σ} {e e' : ε} {a : α}

@[simp] theorem pure_err_iff : (pure a : Tx ρ σ ε α) r s = .err e s' ↔ False := by
  change Outcome.ok a s = .err e s' ↔ _
  simp

@[simp] theorem bind_err_iff {x : Tx ρ σ ε α} {f : α → Tx ρ σ ε β} : (x >>= f) r s = .err e s' ↔
      x r s = .err e s' ∨ ∃ a s1, x r s = .ok a s1 ∧ f a r s1 = .err e s' := by
  change (match x r s with
    | .ok a s' => f a r s' | .err e s' => .err e s' | .trap => .trap) = Outcome.err e s' ↔ _
  cases x r s <;> simp

@[simp] theorem ask_err_iff : (ask : Tx ρ σ ε ρ) r s = .err e s' ↔ False := by
  simp [ask]

@[simp] theorem get_err_iff : (get : Tx ρ σ ε σ) r s = .err e s' ↔ False := by
  simp [get]

@[simp] theorem modify_err_iff {f : σ → σ} :
    (modify f : Tx ρ σ ε Unit) r s = .err e s' ↔ False := by
  simp [modify]

@[simp] theorem abort_err_iff : (abort : Tx ρ σ ε α) r s = .err e s' ↔ False := by
  simp [abort]

@[simp] theorem reject_err_iff {c : Prop} [Decidable c] :
    (reject c e' : Tx ρ σ ε Unit) r s = .err e s' ↔ c ∧ e = e' ∧ s' = s := by
  by_cases h : c <;> simp [reject, h, eq_comm]

@[simp] theorem orFail_err_iff {o : Option α} :
    (orFail o e' : Tx ρ σ ε α) r s = .err e s' ↔ o = none ∧ e = e' ∧ s' = s := by
  cases o <;> simp [orFail, eq_comm]

@[simp] theorem orAbort_err_iff {o : Option α} :
    (orAbort o : Tx ρ σ ε α) r s = .err e s' ↔ False := by
  cases o <;> simp [orAbort]

@[simp] theorem onError_err_iff {f : σ → σ} {x : Tx ρ σ ε α} :
    onError f x r s = .err e s' ↔ ∃ t, x r s = .err e t ∧ s' = f t := by
  unfold onError
  cases x r s <;> simp [eq_comm, and_comm]

@[simp] theorem zoom_err_iff {view : σ → τ} {put : τ → σ → σ} {x : Tx ρ τ ε α} :
    zoom view put x r s = .err e s' ↔ ∃ t, x r (view s) = .err e t ∧ s' = put t s := by
  unfold zoom
  cases x r (view s) <;> simp [eq_comm, and_comm]

@[simp] theorem when_err_iff {c : Prop} [Decidable c] {x : Tx ρ σ ε Unit} :
    when c x r s = .err e s' ↔ c ∧ x r s = .err e s' := by
  by_cases h : c <;> simp [when, h]

theorem ite_err_iff {c : Prop} [Decidable c] {x y : Tx ρ σ ε α} :
    (if c then x else y) r s = .err e s' ↔ (c ∧ x r s = .err e s') ∨ (¬c ∧ y r s = .err e s') := by
  by_cases h : c <;> simp [h]

end Err

/-! ## Invariants of a function -/

/-- From a state with `P`, every value of `x` is returned in a state with `P`. -/
def Keeps (P : σ → Prop) (x : Tx ρ σ ε α) : Prop :=
  ∀ r s a s', x r s = .ok a s' → P s → P s'

/-! ## Batches -/

section Batch

variable {f : α → Tx ρ σ ε Unit} {r : ρ} {s s' : σ}

/-- A reflexive and transitive relation that every entry respects, whether it returns
or fails, relates the states before and after a batch. -/
theorem batch_rel {R : σ → σ → Prop} (hrefl : ∀ s, R s s)
    (htrans : ∀ {s1 s2 s3}, R s1 s2 → R s2 s3 → R s1 s3)
    (hok : ∀ {a s s'}, f a r s = .ok () s' → R s s')
    (herr : ∀ {a s s' e}, f a r s = .err e s' → R s s') :
    ∀ {l : List α} {s s' : σ} {os : List (Option ε)}, batch f l r s = .ok os s' → R s s'
  | [], s, s', os, h => by
    obtain ⟨-, rfl⟩ := pure_ok_iff.mp h
    exact hrefl _
  | a :: l, s, s', os, h => by
    simp only [batch, bind_ok_iff, attempt_ok_iff, pure_ok_iff] at h
    obtain ⟨o, s1, hx, os', s2, hl, rfl, rfl⟩ := h
    have htail : R s1 s' := batch_rel hrefl htrans hok herr hl
    rcases hx with ⟨-, hx⟩ | ⟨e, -, hx⟩
    · exact htrans (hok hx) htail
    · exact htrans (herr hx) htail

end Batch

/-! ## Loops -/

section ForEach

variable {f : α → Tx ρ σ ε β} {r : ρ}

/-- A reflexive and transitive relation that every entry respects relates the states before
and after the loop. -/
theorem forEach_rel {R : σ → σ → Prop} (hrefl : ∀ s, R s s)
    (htrans : ∀ {s1 s2 s3}, R s1 s2 → R s2 s3 → R s1 s3) : ∀ {l : List α} {s s' : σ} {u : Unit},
      (∀ a ∈ l, ∀ {b s s'}, f a r s = .ok b s' → R s s') → forEach f l r s = .ok u s' → R s s'
  | [], s, s', u, _, h => by
    obtain ⟨-, rfl⟩ := pure_ok_iff.mp h
    exact hrefl _
  | a :: l, s, s', u, hf, h => by
    obtain ⟨b, s1, hx, hl⟩ := bind_ok_iff.mp h
    exact htrans (hf a List.mem_cons_self hx)
      (forEach_rel hrefl htrans (fun a ha => hf a (List.mem_cons_of_mem _ ha)) hl)

/-- A loop over a function that always returns folds what it does. -/
theorem forEach_of_ok {g : σ → α → σ} (hf : ∀ a s, ∃ b, f a r s = .ok b (g s a)) :
    ∀ (l : List α) (s : σ), forEach f l r s = .ok () (l.foldl g s)
  | [], _ => rfl
  | a :: l, s => by
    obtain ⟨b, hb⟩ := hf a s
    rw [forEach, bind_of_ok hb, forEach_of_ok hf l, List.foldl_cons]

/-- A loop over a function without errors has none. -/
theorem forEach_not_err (hf : ∀ a s e s', f a r s ≠ .err e s') :
    ∀ (l : List α) (s : σ) (e : ε) (s' : σ), forEach f l r s ≠ .err e s'
  | [], _, _, _ => fun h => pure_err_iff.mp h
  | a :: l, s, e, s' => fun h => by
    rcases bind_err_iff.mp h with h | ⟨_, s1, -, h⟩
    · exact hf a s e s' h
    · exact forEach_not_err hf l s1 e s' h

end ForEach

end Tx

end Checkmate

import Mathlib.Tactic.Common

/-!
# Programs that command an outside world

A program is a value, or a command and what to do with its answer. Between two commands
anything else may happen to the world.

A `Contract` says how the world answers, which answers are looked at, what may happen between
two commands (`rely`), and what every command has to keep (`inv`) and to respect (`guar`).
`Meets` says of a program in a world that it meets its contract to the end, whatever happens
in between, and ends with a value and a world in `Q`.
-/

namespace Checkmate

/-- A program over the commands `C`. A command `c` is answered in `R c`. -/
inductive Prog {C : Type} (R : C → Type) (α : Type) where
  | pure (a : α)
  | op (c : C) (k : R c → Prog R α)

namespace Prog

variable {C : Type} {R : C → Type} {α β : Type}

def bind : Prog R α → (α → Prog R β) → Prog R β
  | .pure a, f => f a
  | .op c k, f => .op c fun r => (k r).bind f

instance : Monad (Prog R) where
  pure := .pure
  bind := .bind

/-- One command. -/
def perform (c : C) : Prog R (R c) := .op c .pure

/-- `f` on every entry, in order. -/
def forEach (f : α → Prog R Unit) : List α → Prog R Unit
  | [] => .pure ()
  | a :: as => (f a).bind fun _ => forEach f as

/-- What is asked of the first command, if there is one. -/
def First (P : C → Prop) : Prog R α → Prop
  | .pure _ => True
  | .op c _ => P c

instance First.decidable (P : C → Prop) [DecidablePred P] :
    (p : Prog R α) → Decidable (p.First P)
  | .pure _ => .isTrue trivial
  | .op c _ => inferInstanceAs (Decidable (P c))

theorem First.and {P Q : C → Prop} {p : Prog R α} (hP : p.First P) (hQ : p.First Q) :
    p.First fun c => P c ∧ Q c := by
  cases p with
  | pure => trivial
  | op => exact ⟨hP, hQ⟩

end Prog

/-- The outside of a program, and what the program owes to it. -/
structure Contract {C : Type} (R : C → Type) (W A : Type) where
  answer : (c : C) → A → W → R c × W
  allow : C → A → W → Prop
  inv : W → Prop
  rely : W → W → Prop
  guar : W → W → Prop
  rely_refl : ∀ w, rely w w
  rely_trans : ∀ {u v w}, rely u v → rely v w → rely u w

namespace Prog

variable {C : Type} {R : C → Type} {W A α β : Type} {K : Contract R W A}

/-- From `w` on, every command keeps the contract, and the program ends in `Q`. -/
def Meets (K : Contract R W A) (Q : α → W → Prop) : Prog R α → W → Prop
  | .pure a, w => ∀ w', K.rely w w' → K.inv w' → Q a w'
  | .op c k, w => ∀ w', K.rely w w' → K.inv w' → ∀ a, K.allow c a w' →
      K.inv (K.answer c a w').2 ∧ K.guar w' (K.answer c a w').2 ∧
        (k (K.answer c a w').1).Meets K Q (K.answer c a w').2

variable {Q : α → W → Prop} {p : Prog R α} {w : W}

/-- What may happen between two commands may happen before the first. -/
theorem Meets.of_forall (h : ∀ w', K.rely w w' → K.inv w' → p.Meets K Q w') : p.Meets K Q w := by
  cases p with
  | pure | op => exact fun w' hw hi => h w' hw hi w' (K.rely_refl w') hi

theorem Meets.of_rely {w' : W} (h : p.Meets K Q w) (hw : K.rely w w') : p.Meets K Q w' := by
  cases p with
  | pure | op => exact fun v hv => h v (K.rely_trans hw hv)

theorem Meets.mono {Q' : α → W → Prop} (h : p.Meets K Q w) (hQ : ∀ a w, Q a w → Q' a w) :
    p.Meets K Q' w := by
  induction p generalizing w with
  | pure a => exact fun w' hw hi => hQ a w' (h w' hw hi)
  | op c k ih =>
    intro w' hw hi a ha
    obtain ⟨hinv, hguar, hk⟩ := h w' hw hi a ha
    exact ⟨hinv, hguar, ih _ hk⟩

theorem Meets.bind {f : α → Prog R β} {Q : β → W → Prop}
    (h : p.Meets K (fun a w => (f a).Meets K Q w) w) : (p.bind f).Meets K Q w := by
  induction p generalizing w with
  | pure => exact Meets.of_forall h
  | op c k ih =>
    intro w' hw hi a ha
    obtain ⟨hinv, hguar, hk⟩ := h w' hw hi a ha
    exact ⟨hinv, hguar, ih _ hk⟩

/-- The rule for a program that may end in an error : the error is the end. -/
theorem Meets.tryBind {ε : Type} {x : ExceptT ε (Prog R) α} {f : α → ExceptT ε (Prog R) β}
    {Q : Except ε β → W → Prop} (h : x.run.Meets K (fun r w => match r with
      | .ok a => (f a).run.Meets K Q w
      | .error e => (Prog.pure (.error e) : Prog R (Except ε β)).Meets K Q w) w) :
    (x >>= f).run.Meets K Q w := by
  refine Meets.bind (h.mono fun r w' hr => ?_)
  cases r with
  | ok | error => exact hr

end Prog

/-! ## Running a program alone -/

namespace Prog

variable {C : Type} {R : C → Type} {W α β : Type}

/-- The value and the world in which a program ends if nothing happens between its commands. -/
def exec (answer : (c : C) → W → R c × W) : Prog R α → W → α × W
  | .pure a, w => (a, w)
  | .op c k, w => (k (answer c w).1).exec answer (answer c w).2

variable (answer : (c : C) → W → R c × W) (w : W)

@[simp] theorem exec_pure (a : α) : (Pure.pure a : Prog R α).exec answer w = (a, w) := rfl

@[simp] theorem exec_perform (c : C) : (perform c : Prog R (R c)).exec answer w = answer c w := rfl

@[simp] theorem exec_bind (p : Prog R α) (f : α → Prog R β) :
    (p >>= f).exec answer w = (f (p.exec answer w).1).exec answer (p.exec answer w).2 := by
  change (p.bind f).exec answer w = _
  induction p generalizing w with
  | pure => rfl
  | op c k ih => exact ih _ _

end Prog

/-! ## Programs that keep an assertion -/

namespace Contract

variable {C : Type} {R : C → Type} {W A α β : Type} {K : Contract R W A} {I : W → Prop}

/-- Nothing that may happen between two commands breaks `I`. -/
def Stable (K : Contract R W A) (I : W → Prop) : Prop :=
  ∀ w w', K.rely w w' → K.inv w' → I w → I w'

/-- A program that starts with `I` meets its contract and ends with `I`. -/
def Keeps (K : Contract R W A) (I : W → Prop) (p : Prog R α) : Prop :=
  ∀ w, I w → p.Meets K (fun _ => I) w

theorem keeps_pure (hI : K.Stable I) (a : α) : K.Keeps I (.pure a : Prog R α) :=
  fun w hw w' hrely hinv => hI w w' hrely hinv hw

theorem keeps_op (hI : K.Stable I) {c : C} {k : R c → Prog R α}
    (hc : ∀ w a, I w → K.inv w → K.allow c a w →
      K.inv (K.answer c a w).2 ∧ K.guar w (K.answer c a w).2 ∧ I (K.answer c a w).2)
    (hk : ∀ r, K.Keeps I (k r)) : K.Keeps I (.op c k) := by
  intro w hw w' hrely hinv a ha
  obtain ⟨hinv', hguar, hI'⟩ := hc w' a (hI w w' hrely hinv hw) hinv ha
  exact ⟨hinv', hguar, hk _ _ hI'⟩

theorem Keeps.bind {p : Prog R α} {f : α → Prog R β} (hp : K.Keeps I p)
    (hf : ∀ a, K.Keeps I (f a)) : K.Keeps I (p.bind f) :=
  fun w hw => ((hp w hw).mono fun a w' hw' => hf a w' hw').bind

theorem Keeps.tryBind {ε : Type} (hI : K.Stable I) {x : ExceptT ε (Prog R) α}
    {f : α → ExceptT ε (Prog R) β} (hx : K.Keeps I x.run) (hf : ∀ a, K.Keeps I (f a).run) :
    K.Keeps I (x >>= f).run := by
  refine Keeps.bind hx fun r => ?_
  cases r with
  | ok a => exact hf a
  | error => exact keeps_pure hI _

theorem keeps_forEach (hI : K.Stable I) {f : α → Prog R Unit} (hf : ∀ a, K.Keeps I (f a)) :
    ∀ as : List α, K.Keeps I (Prog.forEach f as)
  | [] => keeps_pure hI ()
  | a :: as => (hf a).bind fun _ => keeps_forEach hI hf as

end Contract

end Checkmate

import Mathlib.Data.List.Induction
import Checkmate.Host.Run

/-!
# What has held since an event

`Since` is the past operator of temporal logic over the events of a run : some event
satisfied `P` in the state it was taken in, and every event after it satisfied `Q` in the
state it was taken in. A property of the events so far is proved along a run with
`history_inv`, and `since_snoc_iff` says what one more event does to a `Since`.
-/

namespace Checkmate

variable {σ ε : Type} {step : σ → ε → σ} {s0 : σ} {P Q : σ → ε → Prop} {es : List ε} {e : ε}

theorem run_snoc (s : σ) (es : List ε) (e : ε) :
    run step s (es ++ [e]) = step (run step s es) e := by
  rw [run_append, run_cons, run_nil]

theorem along_append {s : σ} {fs : List ε} :
    Along step P s (es ++ fs) ↔ Along step P s es ∧ Along step P (run step s es) fs := by
  induction es generalizing s with
  | nil => exact (and_iff_right trivial).symm
  | cons e es ih =>
    change P s e ∧ Along step P (step s e) (es ++ fs) ↔ (P s e ∧ _) ∧ _
    rw [ih, and_assoc]
    rfl

theorem along_snoc {s : σ} :
    Along step P s (es ++ [e]) ↔ Along step P s es ∧ P (run step s es) e := by
  rw [along_append]
  exact and_congr_right' (and_iff_left trivial)

/-- The invariant rule for a property of the events so far. -/
theorem history_inv {I : List ε → Prop} (h0 : I [])
    (hstep : ∀ es e, I es → P (run step s0 es) e → I (es ++ [e])) :
    ∀ {es : List ε}, Along step P s0 es → I es := by
  intro es
  induction es using List.reverseRecOn with
  | nil => exact fun _ => h0
  | append_singleton es e ih =>
    intro h
    obtain ⟨hes, he⟩ := along_snoc.mp h
    exact hstep es e (ih hes) he

/-- Some event of the run from `s` satisfies `P`, and every event after it `Q`. -/
def Since (step : σ → ε → σ) (P Q : σ → ε → Prop) : σ → List ε → Prop
  | _, [] => False
  | s, e :: es => (P s e ∧ Along step Q (step s e) es) ∨ Since step P Q (step s e) es

instance Since.decidable (P Q : σ → ε → Prop) [DecidableRel P] [DecidableRel Q] :
    ∀ s es, Decidable (Since step P Q s es)
  | _, [] => .isFalse id
  | s, e :: es =>
    have := Since.decidable P Q (step s e) es
    inferInstanceAs
      (Decidable ((P s e ∧ Along step Q (step s e) es) ∨ Since step P Q (step s e) es))

/-- The last event decides : it satisfies `P`, or it satisfies `Q` and the rest is a run with
such an event. -/
theorem since_snoc_iff : Since step P Q s0 (es ++ [e]) ↔
      P (run step s0 es) e ∨ Since step P Q s0 es ∧ Q (run step s0 es) e := by
  induction es generalizing s0 with
  | nil =>
    change (P s0 e ∧ True) ∨ False ↔ P s0 e ∨ False ∧ _
    simp
  | cons e0 es ih =>
    change (P s0 e0 ∧ Along step Q (step s0 e0) (es ++ [e])) ∨
      Since step P Q (step s0 e0) (es ++ [e]) ↔ P (run step (step s0 e0) es) e ∨
        ((P s0 e0 ∧ Along step Q (step s0 e0) es) ∨ Since step P Q (step s0 e0) es) ∧
          Q (run step (step s0 e0) es) e
    rw [along_snoc, ih]
    tauto

theorem Since.now (h : P (run step s0 es) e) : Since step P Q s0 (es ++ [e]) :=
  since_snoc_iff.mpr (.inl h)

theorem Since.later (h : Since step P Q s0 es) (he : Q (run step s0 es) e) :
    Since step P Q s0 (es ++ [e]) :=
  since_snoc_iff.mpr (.inr ⟨h, he⟩)

end Checkmate

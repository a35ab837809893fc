import Mathlib.Tactic.Common

/-!
# Runs of a state machine

A machine is a step function on states and events. `run` folds it over a list of
events. `Along` says of a run that every event is taken in a state that allows it, so
an assumption about a whole run is one predicate on a state and the event taken there.
`run_inv` is the invariant rule, `run_history` the same rule for a property that also
looks at the events so far.
-/

namespace Checkmate

variable {σ ε : Type} (step : σ → ε → σ)

/-- The state after the events. -/
def run (s : σ) (es : List ε) : σ := es.foldl step s

/-- Every event of the run from `s` satisfies `P` in the state it is taken in. -/
def Along (P : σ → ε → Prop) : σ → List ε → Prop
  | _, [] => True
  | s, e :: es => P s e ∧ Along P (step s e) es

instance Along.decidable (P : σ → ε → Prop) [DecidableRel P] :
    ∀ s es, Decidable (Along step P s es)
  | _, [] => .isTrue trivial
  | s, e :: es =>
    have := Along.decidable P (step s e) es
    inferInstanceAs (Decidable (P s e ∧ Along step P (step s e) es))

variable {step} {P : σ → ε → Prop}

@[simp] theorem run_nil (s : σ) : run step s [] = s := rfl

@[simp] theorem run_cons (s : σ) (e : ε) (es : List ε) :
    run step s (e :: es) = run step (step s e) es := rfl

theorem run_append (s : σ) (es fs : List ε) :
    run step s (es ++ fs) = run step (run step s es) fs := by
  simp [run]

/-- What holds at the start and is kept by every allowed step holds at the end. -/
theorem run_inv {I : σ → Prop} (hstep : ∀ s e, I s → P s e → I (step s e)) :
    ∀ {es : List ε} {s : σ}, I s → Along step P s es → I (run step s es)
  | [], _, hs, _ => hs
  | e :: es, s, hs, h => by
    rw [run_cons]
    exact run_inv hstep (hstep s e hs h.1) h.2

/-- The invariant rule for a property of the events so far and the state they lead to. -/
theorem run_history {s0 : σ} {I : List ε → σ → Prop}
    (hstep : ∀ pre s e, I pre s → P s e → I (pre ++ [e]) (step s e)) (h0 : I [] s0)
    {es : List ε} (h : Along step P s0 es) : I es (run step s0 es) := by
  suffices ∀ (es pre : List ε) (s : σ), I pre s → Along step P s es →
      I (pre ++ es) (run step s es) by
    simpa using this es [] s0 h0 h
  intro es
  induction es with
  | nil => intro pre s hs _; simpa using hs
  | cons e es ih =>
    intro pre s hs hal
    simpa using ih (pre ++ [e]) (step s e) (hstep pre s e hs hal.1) hal.2

/-- What holds of every event holds along the run. -/
theorem along_of_forall {Q : ε → Prop} :
    ∀ {es : List ε} {s : σ}, (∀ e ∈ es, Q e) → Along step (fun _ e => Q e) s es
  | [], _, _ => trivial
  | e :: _, _, h =>
    ⟨h e List.mem_cons_self, along_of_forall fun e he => h e (List.mem_cons_of_mem _ he)⟩

theorem Along.and {Q : σ → ε → Prop} : ∀ {es : List ε} {s : σ}, Along step P s es →
    Along step Q s es → Along step (fun s e => P s e ∧ Q s e) s es
  | [], _, _, _ => trivial
  | _ :: _, _, hp, hq => ⟨⟨hp.1, hq.1⟩, hp.2.and hq.2⟩

theorem Along.mono {Q : σ → ε → Prop} (hPQ : ∀ s e, P s e → Q s e) :
    ∀ {es : List ε} {s : σ}, Along step P s es → Along step Q s es
  | [], _, _ => trivial
  | e :: _, s, h => ⟨hPQ s e h.1, h.2.mono hPQ⟩

/-- Two properties that agree wherever `P` holds. -/
theorem along_congr {Q R : σ → ε → Prop} :
    ∀ {es : List ε} {s : σ}, Along step P s es → (∀ s e, P s e → (Q s e ↔ R s e)) →
      (Along step Q s es ↔ Along step R s es)
  | [], _, _, _ => Iff.rfl
  | e :: _, s, h, hiff => and_congr (hiff s e h.1) (along_congr h.2 hiff)

/-- Without assumptions on the events every run is allowed. -/
theorem along_true : ∀ (s : σ) (es : List ε), Along step (fun _ _ => True) s es
  | _, [] => trivial
  | s, e :: es => ⟨trivial, along_true (step s e) es⟩

end Checkmate

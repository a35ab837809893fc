import Checkmate.Host.Run

/-!
# Simulation by a labelled protocol

A protocol is a relation on states, labels and states. A machine simulates it if it can be
observed, event by event, to make one move of the protocol or none. Then what is observed of
a run is a path of the protocol (`simulates`), and what holds of all paths holds of all runs.
-/

namespace Checkmate

variable {σ ε β γ : Type}

/-- What is observed of a run. -/
def trace (step : σ → ε → σ) (observe : σ → ε → Option β) : σ → List ε → List β
  | _, [] => []
  | s, e :: es => (observe s e).toList ++ trace step observe (step s e) es

/-- From `c` the moves lead to `c'`. -/
def Path (move : γ → β → γ → Prop) : γ → List β → γ → Prop
  | c, [], c' => c' = c
  | c, b :: bs, c' => ∃ c1, move c b c1 ∧ Path move c1 bs c'

variable {step : σ → ε → σ} {observe : σ → ε → Option β} {move : γ → β → γ → Prop}

/-- If every event makes the observed move, or none where none is observed, a run goes along
a path. -/
theorem simulates {T : σ → γ → Prop}
    (hsilent : ∀ s e c, T s c → observe s e = none → T (step s e) c)
    (hmove : ∀ s e c b, T s c → observe s e = some b → ∃ c', move c b c' ∧ T (step s e) c') :
    ∀ (es : List ε) {s : σ} {c : γ}, T s c →
      ∃ c', Path move c (trace step observe s es) c' ∧ T (run step s es) c'
  | [], _, c, hT => ⟨c, rfl, hT⟩
  | e :: es, s, c, hT => by
    cases h : observe s e with
    | none =>
      obtain ⟨c', hpath, hT'⟩ := simulates hsilent hmove es (hsilent s e c hT h)
      exact ⟨c', by rw [trace, h]; exact hpath, hT'⟩
    | some b =>
      obtain ⟨c1, hone, hT1⟩ := hmove s e c b hT h
      obtain ⟨c', hpath, hT'⟩ := simulates hsilent hmove es hT1
      exact ⟨c', by rw [trace, h]; exact ⟨c1, hone, hpath⟩, hT'⟩

end Checkmate

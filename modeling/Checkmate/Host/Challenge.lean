import Checkmate.Host.Simulation
import Mathlib.Data.Int.Notation

/-!
# Optimistic settlement

A claim waits until a deadline. Before the deadline it can be challenged, once, against a
bond. A claim that was not challenged becomes final from the deadline on. A challenge is
voted on until a deadline of its own and decided from then on, which closes the claim and
gives the bond to a recipient.

The theorems are about the moves along a path : how often and when each of them is made.
-/

namespace Checkmate

variable {α : Type}

/-- Who challenged, the bond, and the end of the vote. -/
structure Challenge (α : Type) where
  challenger : α
  bond : ℤ
  deadline : ℕ

/-- A claim : none yet, waiting, challenged, final, or decided with the recipient of the bond. -/
inductive Case (α : Type) where
  | idle
  | waiting (deadline : ℕ)
  | challenged (c : Challenge α)
  | final
  | decided (c : Challenge α) (recipient : α)

/-- The moves. A decision names the recipient of the bond. -/
inductive Label (α : Type) where
  | challenge
  | finalize
  | vote
  | decide (recipient : α)
deriving DecidableEq

namespace Case

/-- The moves with the time they are made at. -/
inductive Move : Case α → ℕ × Label α → Case α → Prop
  | challenge {t deadline : ℕ} (h : t < deadline) (c : Challenge α) :
      Move (.waiting deadline) (t, .challenge) (.challenged c)
  | finalize {t deadline : ℕ} (h : deadline ≤ t) :
      Move (.waiting deadline) (t, .finalize) .final
  | vote {t : ℕ} {c : Challenge α} (h : t < c.deadline) :
      Move (.challenged c) (t, .vote) (.challenged c)
  | decide {t : ℕ} {c : Challenge α} (h : c.deadline ≤ t) (recipient : α) :
      Move (.challenged c) (t, .decide recipient) (.decided c recipient)

theorem Move.ne_idle {k k' : Case α} {l : ℕ × Label α} (h : Move k l k') : k' ≠ .idle := by
  cases h <;> simp

/-- The challenge of a claim. -/
def challenge? : Case α → Option (Challenge α)
  | .challenged c => some c
  | .decided c _ => some c
  | _ => none

/-- A claim that is over. -/
def closed : Case α → Bool
  | .final => true
  | .decided .. => true
  | _ => false

end Case

/-- A move that closes the claim. -/
def Label.closes : Label α → Bool
  | .finalize => true
  | .decide _ => true
  | _ => false

def Label.challenges : Label α → Bool
  | .challenge => true
  | _ => false

variable {k k' : Case α} {ls : List (ℕ × Label α)} {t : ℕ}

/-- A challenge stays as it is. -/
theorem Path.challenge_kept {c : Challenge α} :
    ∀ {ls : List (ℕ × Label α)} {k : Case α}, Path Case.Move k ls k' →
      k.challenge? = some c → k'.challenge? = some c
  | [], _, h, hc => by rwa [h]
  | _ :: _, _, ⟨_, hmove, hpath⟩, hc => by
    refine hpath.challenge_kept ?_
    cases hmove with
    | challenge | finalize => exact absurd hc (by simp [Case.challenge?])
    | vote | decide => exact hc

/-- Every challenge is counted once. -/
theorem Path.count_challenges : ∀ {ls : List (ℕ × Label α)} {k : Case α}, Path Case.Move k ls k' →
      ls.countP (fun l => l.2.challenges) + k.challenge?.isSome.toNat = k'.challenge?.isSome.toNat
  | [], _, h => by rw [h]; simp
  | _ :: _, _, ⟨_, hmove, hpath⟩ => by
    rw [← hpath.count_challenges]
    cases hmove <;> simp [Case.challenge?, Label.challenges]

/-- A claim is closed by one move. -/
theorem Path.count_closes : ∀ {ls : List (ℕ × Label α)} {k : Case α}, Path Case.Move k ls k' →
      ls.countP (fun l => l.2.closes) + k.closed.toNat = k'.closed.toNat
  | [], _, h => by rw [h]; simp
  | _ :: _, _, ⟨_, hmove, hpath⟩ => by
    rw [← hpath.count_closes]
    cases hmove <;> simp [Case.closed, Label.closes, Nat.add_comm]

/-- Nothing leads back to a claim that waits. -/
theorem Path.of_mem_challenge : ∀ {ls : List (ℕ × Label α)} {k : Case α}, Path Case.Move k ls k' →
      (t, .challenge) ∈ ls → ∃ deadline, k = .waiting deadline ∧ t < deadline
  | (_, _) :: _, _, ⟨_, hmove, hpath⟩, hmem => by
    rcases List.mem_cons.mp hmem with heq | hmem
    · obtain ⟨rfl, rfl⟩ := Prod.mk.inj heq
      cases hmove with
      | challenge h => exact ⟨_, rfl, h⟩
    · obtain ⟨deadline, rfl, -⟩ := hpath.of_mem_challenge hmem
      cases hmove

/-- A claim becomes final only at the end of the path, and without a challenge. -/
theorem Path.of_mem_finalize : ∀ {ls : List (ℕ × Label α)} {k : Case α}, Path Case.Move k ls k' →
      (t, .finalize) ∈ ls → (∃ deadline, k = .waiting deadline ∧ deadline ≤ t) ∧ k' = .final
  | (_, _) :: ls, _, ⟨_, hmove, hpath⟩, hmem => by
    rcases List.mem_cons.mp hmem with heq | hmem
    · obtain ⟨rfl, rfl⟩ := Prod.mk.inj heq
      cases hmove with
      | finalize h =>
        cases ls with
        | nil => exact ⟨⟨_, rfl, h⟩, hpath⟩
        | cons =>
          obtain ⟨_, hmove, -⟩ := hpath
          cases hmove
    · obtain ⟨⟨deadline, rfl, -⟩, -⟩ := hpath.of_mem_finalize hmem
      cases hmove

/-- Votes are cast before the deadline of the challenge. -/
theorem Path.of_mem_vote : ∀ {ls : List (ℕ × Label α)} {k : Case α}, Path Case.Move k ls k' →
      (t, .vote) ∈ ls → ∃ c, k'.challenge? = some c ∧ t < c.deadline
  | (_, _) :: _, _, ⟨_, hmove, hpath⟩, hmem => by
    rcases List.mem_cons.mp hmem with heq | hmem
    · obtain ⟨rfl, rfl⟩ := Prod.mk.inj heq
      cases hmove with
      | vote h => exact ⟨_, hpath.challenge_kept rfl, h⟩
    · exact hpath.of_mem_vote hmem

/-- A decision ends the path, from the deadline of the challenge on. -/
theorem Path.of_mem_decide {recipient : α} :
    ∀ {ls : List (ℕ × Label α)} {k : Case α}, Path Case.Move k ls k' →
      (t, .decide recipient) ∈ ls → ∃ c, k' = .decided c recipient ∧ c.deadline ≤ t
  | (_, _) :: ls, _, ⟨_, hmove, hpath⟩, hmem => by
    rcases List.mem_cons.mp hmem with heq | hmem
    · obtain ⟨rfl, rfl⟩ := Prod.mk.inj heq
      cases hmove with
      | decide h =>
        cases ls with
        | nil => exact ⟨_, hpath, h⟩
        | cons =>
          obtain ⟨_, hmove, -⟩ := hpath
          cases hmove
    · exact hpath.of_mem_decide hmem

end Checkmate

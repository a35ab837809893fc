import Mathlib.Logic.Function.Basic
import Checkmate.Host.Prog
import Checkmate.Host.Run

/-!
# Threads that share a world

A thread runs a program. It ends with a task to run next or with nothing, so a loop is a task
that names itself. The threads take turns at every command. A thread without a task may be
given one, the world may change by itself, and all threads may be sent back to where they
start, with the world as it is.

A `Discipline` gives each thread a contract in which the other threads are the outside : every
command of one thread is something the others rely on. `Discipline.run_holds` is its rule :
along every run of allowed moves the invariant holds, and every thread meets its contract.
-/

namespace Checkmate

open Function

variable {τ C : Type} {R : C → Type} {W A T E : Type}

/-- The shared world, and what each thread has left to do. -/
structure Threads (τ : Type) {C : Type} (R : C → Type) (W T : Type) where
  world : W
  prog : τ → Prog R (Option T)

inductive Move (τ A T E : Type) where
  /-- A thread performs its next command. -/
  | act (t : τ) (a : A)
  /-- A thread without a task is given one. -/
  | start (t : τ) (j : T)
  | outside (e : E)
  /-- All threads lose what they have not done yet. -/
  | restart

structure System (τ : Type) {C : Type} (R : C → Type) (W A T E : Type) where
  answer : τ → (c : C) → A → W → R c × W
  task : T → Prog R (Option T)
  boot : τ → Option T
  outside : E → W → W

namespace System

variable (S : System τ R W A T E)

/-- A program that has come to its end goes on with the next task. -/
def resume : Prog R (Option T) → Prog R (Option T)
  | .pure (some j) => S.task j
  | p => p

/-- The threads with what they begin with. -/
def start (w : W) : Threads τ R W T := ⟨w, fun t => S.resume (.pure (S.boot t))⟩

def step [DecidableEq τ] (s : Threads τ R W T) : Move τ A T E → Threads τ R W T
  | .act t a =>
    match s.prog t with
    | .pure _ => s
    | .op c k =>
      let (r, w) := S.answer t c a s.world
      ⟨w, update s.prog t (S.resume (k r))⟩
  | .start t j =>
    match s.prog t with
    | .pure none => { s with prog := update s.prog t (S.task j) }
    | _ => s
  | .outside e => { s with world := S.outside e s.world }
  | .restart => S.start s.world

end System

/-- A proof outline : what each thread may rely on, and what its tasks start from. -/
structure Discipline (S : System τ R W A T E) where
  inv : W → Prop
  rely : τ → W → W → Prop
  rely_refl : ∀ t w, rely t w w
  rely_trans : ∀ t {u v w}, rely t u v → rely t v w → rely t u w
  allow : τ → C → A → W → Prop
  pre : τ → T → W → Prop
  /-- Worlds in which the threads may start over. -/
  fresh : W → Prop
  calm : E → W → Prop

namespace Discipline

variable {S : System τ R W A T E} (D : Discipline S)

/-- The contract of a thread. Its commands are what all other threads rely on. -/
def contract (t : τ) : Contract R W A where
  answer := S.answer t
  allow := D.allow t
  inv := D.inv
  rely := D.rely t
  guar := fun w w' => ∀ t', t' ≠ t → D.rely t' w w'
  rely_refl := D.rely_refl t
  rely_trans := D.rely_trans t

/-- A task starts from what its precondition says. -/
def Goes (t : τ) (o : Option T) (w : W) : Prop := ∀ j, o = some j → D.pre t j w

/-- The obligations of an outline. -/
structure Valid : Prop where
  task : ∀ t j w, D.inv w → D.pre t j w → (S.task j).Meets (D.contract t) (D.Goes t) w
  boot : ∀ t w, D.inv w → D.fresh w → D.Goes t (S.boot t) w
  outside : ∀ e w, D.inv w → D.calm e w →
    D.inv (S.outside e w) ∧ ∀ t, D.rely t w (S.outside e w)

/-- The moves the outline is about. -/
def Allows (s : Threads τ R W T) : Move τ A T E → Prop
  | .act t a => (s.prog t).First fun c => D.allow t c a s.world
  | .start t j => D.pre t j s.world
  | .outside e => D.calm e s.world
  | .restart => D.fresh s.world

/-- The invariant holds, and every thread meets its contract. -/
def Holds (s : Threads τ R W T) : Prop :=
  D.inv s.world ∧ ∀ t, (s.prog t).Meets (D.contract t) (D.Goes t) s.world

variable {D}

theorem resume_meets (hD : D.Valid) {t : τ} {p : Prog R (Option T)} {w : W} (hw : D.inv w)
    (hp : p.Meets (D.contract t) (D.Goes t) w) :
    (S.resume p).Meets (D.contract t) (D.Goes t) w := by
  cases p with
  | pure o =>
    cases o with
    | none => exact hp
    | some j => exact hD.task t j w hw (hp w (D.rely_refl t w) hw j rfl)
  | op => exact hp

theorem start_holds (hD : D.Valid) {w : W} (hw : D.inv w) (hfresh : D.fresh w) :
    D.Holds (S.start w) := by
  refine ⟨hw, fun t => ?_⟩
  have hgoes := hD.boot t w hw hfresh
  simp only [System.start]
  cases hboot : S.boot t with
  | none => exact fun _ _ _ _ h => nomatch h
  | some j => exact hD.task t j w hw (hgoes j hboot)

/-- One thread goes on with `p` in `w`, and the others rely on how the world came to `w`. -/
theorem Holds.update [DecidableEq τ] {s : Threads τ R W T} (hs : D.Holds s) {t : τ}
    {p : Prog R (Option T)} {w : W} (hw : D.inv w) (hrely : ∀ t', t' ≠ t → D.rely t' s.world w)
    (hp : p.Meets (D.contract t) (D.Goes t) w) : D.Holds ⟨w, update s.prog t p⟩ := by
  refine ⟨hw, fun t' => ?_⟩
  dsimp only
  by_cases ht : t' = t
  · subst ht
    rwa [update_self]
  · rw [update_of_ne ht]
    exact (hs.2 t').of_rely (hrely t' ht)

theorem step_holds [DecidableEq τ] (hD : D.Valid) {s : Threads τ R W T} (hs : D.Holds s)
    {m : Move τ A T E} (hm : D.Allows s m) : D.Holds (S.step s m) := by
  cases m with
  | act t a =>
    cases hp : s.prog t with
    | pure => simpa only [System.step, hp] using hs
    | op =>
      simp only [Allows, hp] at hm
      have hmeets := hs.2 t
      rw [hp] at hmeets
      obtain ⟨hinv, hguar, hk⟩ := hmeets s.world (D.rely_refl t s.world) hs.1 a hm
      simp only [System.step, hp]
      exact hs.update hinv hguar (resume_meets hD hinv hk)
  | start t j =>
    cases hp : s.prog t with
    | pure o =>
      cases o with
      | some => simpa only [System.step, hp] using hs
      | none =>
        simp only [System.step, hp]
        exact hs.update hs.1 (fun t' _ => D.rely_refl t' s.world) (hD.task t j s.world hs.1 hm)
    | op => simpa only [System.step, hp] using hs
  | outside e =>
    obtain ⟨hinv, hrely⟩ := hD.outside e s.world hs.1 hm
    exact ⟨hinv, fun t => (hs.2 t).of_rely (hrely t)⟩
  | restart => exact start_holds hD hs.1 hm

theorem run_holds [DecidableEq τ] (hD : D.Valid) {s : Threads τ R W T} (hs : D.Holds s)
    {ms : List (Move τ A T E)} (hms : Along S.step D.Allows s ms) : D.Holds (run S.step s ms) :=
  run_inv (I := D.Holds) (fun _ _ hs hm => step_holds hD hs hm) hs hms

end Discipline

end Checkmate

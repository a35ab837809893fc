import Checkmate.Host.Tx

/-!
# Invariants and frames of functions

A function maintains a property of the state if it ends in a state with the property whenever
it starts in one, whether it returns a value or an error. It frames a part of the state if it
ends with that part as it was, which is to maintain every value of it (`frames_iff`). The
rules follow the combinators, so that both are read off a function's text.
-/

namespace Checkmate

variable {ρ σ τ υ ε α β : Type}

/-- The state at the end satisfies `P`. A trap has no such state. -/
def Outcome.Ends (P : σ → Prop) : Outcome ε σ α → Prop
  | .ok _ s => P s
  | .err _ s => P s
  | .trap => True

namespace Tx

/-! ## Invariants -/

/-- Run with `r` in a state with `P`, `x` ends in a state with `P`. -/
def Maintains (r : ρ) (P : σ → Prop) (x : Tx ρ σ ε α) : Prop := ∀ s, P s → (x r s).Ends P

section

variable {r : ρ} {P : σ → Prop} {x y : Tx ρ σ ε α}

theorem Maintains.ok (h : Maintains r P x) {s s' : σ} {a : α} (hs : P s)
    (hx : x r s = .ok a s') : P s' := by
  have hend := h s hs
  rw [hx] at hend
  exact hend

theorem Maintains.err (h : Maintains r P x) {s s' : σ} {e : ε} (hs : P s)
    (hx : x r s = .err e s') : P s' := by
  have hend := h s hs
  rw [hx] at hend
  exact hend

theorem maintains_pure (a : α) : Maintains r P (pure a : Tx ρ σ ε α) := fun _ hs => hs

theorem maintains_get : Maintains r P (get : Tx ρ σ ε σ) := fun _ hs => hs

theorem maintains_modify {g : σ → σ} (h : ∀ s, P s → P (g s)) :
    Maintains r P (modify g : Tx ρ σ ε Unit) := h

theorem maintains_fail (e : ε) : Maintains r P (fail e : Tx ρ σ ε α) := fun _ hs => hs

theorem maintains_abort : Maintains r P (abort : Tx ρ σ ε α) := fun _ _ => trivial

theorem maintains_reject (c : Prop) [Decidable c] (e : ε) :
    Maintains r P (reject c e : Tx ρ σ ε Unit) := by
  intro s hs
  unfold reject
  split <;> exact hs

theorem maintains_orFail (o : Option α) (e : ε) : Maintains r P (orFail o e : Tx ρ σ ε α) := by
  intro s hs
  cases o <;> exact hs

theorem maintains_orAbort (o : Option α) : Maintains r P (orAbort o : Tx ρ σ ε α) := by
  intro s hs
  cases o with
  | none => trivial
  | some => exact hs

theorem maintains_bind {g : α → Tx ρ σ ε β} (hx : Maintains r P x)
    (hg : ∀ a, Maintains r P (g a)) : Maintains r P (x >>= g) := by
  intro s hs
  change Outcome.Ends _ (match x r s with
    | .ok a s' => g a r s' | .err e s' => .err e s' | .trap => .trap)
  cases h : x r s with
  | ok a s1 => exact hg a s1 (hx.ok hs h)
  | err => exact hx.err hs h
  | trap => trivial

/-- What follows `ask` is run with what it answers. -/
theorem maintains_ask_bind {g : ρ → Tx ρ σ ε β} (hg : Maintains r P (g r)) :
    Maintains r P (ask >>= g) := fun s hs => hg s hs

theorem maintains_ite {c : Prop} [Decidable c] (hx : Maintains r P x) (hy : Maintains r P y) :
    Maintains r P (if c then x else y) := by
  split
  · exact hx
  · exact hy

theorem maintains_when {c : Prop} [Decidable c] {x : Tx ρ σ ε Unit} (hx : Maintains r P x) :
    Maintains r P (when c x) :=
  maintains_ite hx (maintains_pure ())

theorem maintains_attempt {x : Tx ρ σ ε Unit} (hx : Maintains r P x) :
    Maintains r P (attempt x) := by
  intro s hs
  unfold attempt
  cases h : x r s with
  | ok => exact hx.ok hs h
  | err => exact hx.err hs h
  | trap => trivial

theorem maintains_onError {g : σ → σ} (hg : ∀ s, P s → P (g s)) (hx : Maintains r P x) :
    Maintains r P (onError g x) := by
  intro s hs
  unfold onError
  cases h : x r s with
  | ok => exact hx.ok hs h
  | err e s' => exact hg s' (hx.err hs h)
  | trap => trivial

theorem maintains_catchTrap {c : Bool} {x : Tx ρ σ ε Unit} (hx : Maintains r P x) :
    Maintains r P (catchTrap c x) := by
  intro s hs
  unfold catchTrap
  cases h : x r s with
  | ok => exact hx.ok hs h
  | err => exact hx.err hs h
  | trap =>
    cases c with
    | false => trivial
    | true => exact hs

/-- A function on another part of the state. -/
theorem maintains_zoom {view : σ → υ} {put : υ → σ → σ} {x : Tx ρ υ ε α}
    (hput : ∀ s, put (view s) s = s) (hx : ∀ s, P s → Maintains r (fun t => P (put t s)) x) :
    Maintains r P (zoom view put x) := by
  intro s hs
  have hview : P (put (view s) s) := by rwa [hput]
  unfold zoom
  cases h : x r (view s) with
  | ok => exact (hx s hs).ok hview h
  | err => exact (hx s hs).err hview h
  | trap => trivial

theorem maintains_batch {g : α → Tx ρ σ ε Unit} (hg : ∀ a, Maintains r P (g a)) :
    ∀ l : List α, Maintains r P (batch g l)
  | [] => maintains_pure _
  | a :: l => maintains_bind (maintains_attempt (hg a)) fun _ =>
      maintains_bind (maintains_batch hg l) fun _ => maintains_pure _

theorem maintains_forEach {g : α → Tx ρ σ ε β} (hg : ∀ a, Maintains r P (g a)) :
    ∀ l : List α, Maintains r P (forEach g l)
  | [] => maintains_pure _
  | a :: l => maintains_bind (hg a) fun _ => maintains_forEach hg l

end

/-! ## Frames -/

/-- `x` leaves the part of the state that `f` reads. -/
def Frames (f : σ → τ) (x : Tx ρ σ ε α) : Prop := ∀ r s, (x r s).Ends fun s' => f s' = f s

section

variable {f : σ → τ} {x y : Tx ρ σ ε α}

theorem Frames.ok (h : Frames f x) {r : ρ} {s s' : σ} {a : α} (hx : x r s = .ok a s') :
    f s' = f s := by
  have hend := h r s
  rw [hx] at hend
  exact hend

theorem frames_iff : Frames f x ↔ ∀ r c, Maintains r (fun s => f s = c) x :=
  ⟨fun h r _ s hs => hs ▸ h r s, fun h r s => h r (f s) s rfl⟩

theorem frames_pure (a : α) : Frames f (pure a : Tx ρ σ ε α) := fun _ _ => rfl

theorem frames_ask : Frames f (ask : Tx ρ σ ε ρ) := fun _ _ => rfl

theorem frames_get : Frames f (get : Tx ρ σ ε σ) := fun _ _ => rfl

theorem frames_modify {g : σ → σ} (h : ∀ s, f (g s) = f s) :
    Frames f (modify g : Tx ρ σ ε Unit) := fun _ s => h s

theorem frames_fail (e : ε) : Frames f (fail e : Tx ρ σ ε α) := fun _ _ => rfl

theorem frames_abort : Frames f (abort : Tx ρ σ ε α) := fun _ _ => trivial

theorem frames_reject (c : Prop) [Decidable c] (e : ε) : Frames f (reject c e : Tx ρ σ ε Unit) :=
  frames_iff.mpr fun _ _ => maintains_reject c e

theorem frames_orFail (o : Option α) (e : ε) : Frames f (orFail o e : Tx ρ σ ε α) :=
  frames_iff.mpr fun _ _ => maintains_orFail o e

theorem frames_orAbort (o : Option α) : Frames f (orAbort o : Tx ρ σ ε α) :=
  frames_iff.mpr fun _ _ => maintains_orAbort o

theorem frames_bind {g : α → Tx ρ σ ε β} (hx : Frames f x) (hg : ∀ a, Frames f (g a)) :
    Frames f (x >>= g) :=
  frames_iff.mpr fun r c =>
    maintains_bind (frames_iff.mp hx r c) fun a => frames_iff.mp (hg a) r c

theorem frames_ite {c : Prop} [Decidable c] (hx : Frames f x) (hy : Frames f y) :
    Frames f (if c then x else y) :=
  frames_iff.mpr fun r v => maintains_ite (frames_iff.mp hx r v) (frames_iff.mp hy r v)

theorem frames_when {c : Prop} [Decidable c] {x : Tx ρ σ ε Unit} (hx : Frames f x) :
    Frames f (when c x) :=
  frames_ite hx (frames_pure ())

theorem frames_forEach {g : α → Tx ρ σ ε β} (hg : ∀ a, Frames f (g a)) (l : List α) :
    Frames f (forEach g l) :=
  frames_iff.mpr fun r v => maintains_forEach (fun a => frames_iff.mp (hg a) r v) l

end

end Tx

end Checkmate

import Checkmate.Host.Threads

/-!
# The leader lease

The instances of the indexer share one row of `leader_state`, whose key is `__leader__`.
`tryAcquire` reads the clock, writes the row unless it is still held, and looks the row up again.
`release` deletes the row if the instance believes that it is the leader. Statements are atomic
and do not fail, and between two of them anything may happen.

An instance that acquires the lease in time, and that does not release the lease of another, keeps
all others out as long as its lease lasts (`leases_exclusive`). Without these conditions two
instances lead at once (`two_leaders`). The row does not say whose it is : a leader is not told
from the others, and its own lease keeps it out until it has expired (`renewal_iff_expired`,
`live_leader_refused`).
-/

namespace Checkmate.Indexer

open Function Option

/-- The key of the row that is the lease. -/
def leaderKey : String := "__leader__"

/-- A row of `leader_state`. -/
structure LeaderRow where
  instanceId : String
  heldUntil : ℕ
deriving DecidableEq, Repr

/-- `INSERT … ON CONFLICT (instance_id) DO UPDATE … WHERE`, at `now`. Returns the number of rows
that were written. -/
def upsertLease (now : ℕ) (instanceId : String) (heldUntil : ℕ) :
    Option LeaderRow → ℕ × Option LeaderRow
  | none => (1, some ⟨leaderKey, heldUntil⟩)
  | some row =>
    if row.heldUntil < now ∨ row.instanceId = instanceId then
      (1, some ⟨row.instanceId, heldUntil⟩)
    else (0, some row)

namespace LeaderElection

/-! ## The calls of an instance -/

/-- The clock, the three statements, and the field `is_leader` of the instance. -/
inductive Cmd where
  | now
  | upsert (instanceId : String) (heldUntil : ℕ)
  /-- `SELECT instance_id`. There may be no row. -/
  | verify
  | delete
  | isLeader
  | setLeader (value : Bool)
deriving DecidableEq, Repr

@[reducible] def Cmd.Answer : Cmd → Type
  | .now | .upsert .. => ℕ
  | .verify => Option String
  | .delete | .setLeader _ => Unit
  | .isLeader => Bool

abbrev Io := Prog Cmd.Answer

def command (c : Cmd) : Io c.Answer := Prog.perform c

/-- `query_one` is an error if there is no row. -/
def tryAcquireInner (instanceId : String) (ttl : ℕ) : Io (Option Bool) := do
  let now ← command .now
  let rowsAffected ← command (.upsert instanceId (now + ttl))
  match ← command .verify with
  | none => pure none
  | some currentHolder => pure (some (decide (0 < rowsAffected ∨ currentHolder = instanceId)))

def tryAcquire (instanceId : String) (ttl : ℕ) : Io Bool := do
  let acquired := (← tryAcquireInner instanceId ttl).getD false
  command (.setLeader acquired)
  pure acquired

def release : Io Unit := do
  if ← command .isLeader then
    command .delete
    command (.setLeader false)
  else pure ()

/-- A call that an instance makes. -/
inductive Call where
  | tryAcquire (instanceId : String)
  | release (instanceId : String)
deriving DecidableEq, Repr

def Call.instanceId : Call → String
  | .tryAcquire instanceId | .release instanceId => instanceId

/-- Each instance has a time to live of its own, in the units of the clock. -/
def Call.prog (ttl : String → ℕ) : Call → Io (Option Call)
  | .tryAcquire instanceId => do
    let _ ← LeaderElection.tryAcquire instanceId (ttl instanceId)
    pure none
  | .release _ => do
    LeaderElection.release
    pure none

theorem prog_tryAcquire (ttl : String → ℕ) (t : String) :
    (Call.tryAcquire t).prog ttl =
      .op .now fun now => .op (.upsert t (now + ttl t)) fun (rowsAffected : ℕ) =>
        .op .verify fun
          | none => .op (.setLeader false) fun _ => .pure none
          | some currentHolder =>
            .op (.setLeader (decide (0 < rowsAffected ∨ currentHolder = t))) fun _ =>
              .pure none := by
  refine congrArg (Prog.op _) (funext fun now => congrArg (Prog.op _) (funext fun rows => ?_))
  refine congrArg (Prog.op _) (funext fun r => ?_)
  cases r <;> rfl

theorem prog_release (ttl : String → ℕ) (t : String) :
    (Call.release t).prog ttl =
      .op .isLeader fun
        | true => .op .delete fun _ => .op (.setLeader false) fun _ => .pure none
        | false => .pure none := by
  refine congrArg (Prog.op _) (funext fun r => ?_)
  cases r <;> rfl

/-! ## The instances together -/

/-- The common clock, the row with the key `__leader__`, and what the instances believe. -/
structure Shared where
  clock : ℕ := 0
  row : Option LeaderRow := none
  isLeader : String → Bool := fun _ => false

def Shared.answer (t : String) : (c : Cmd) → Shared → c.Answer × Shared
  | .now, s => (s.clock, s)
  | .upsert instanceId heldUntil, s =>
    let (rowsAffected, row) := upsertLease s.clock instanceId heldUntil s.row
    (rowsAffected, { s with row })
  | .verify, s => (s.row.map (·.instanceId), s)
  | .delete, s => ((), { s with row := none })
  | .isLeader, s => (s.isLeader t, s)
  | .setLeader value, s => ((), { s with isLeader := update s.isLeader t value })

/-- The instances, with a record : who wrote the row, and what the last statement of an instance
wrote. Then the leases of the instances to which `tryAcquire` returned true and that have not
called `release` since, and the pairs of an instance and one whose lease was not over when
`tryAcquire` returned true to the first. -/
structure Election where
  shared : Shared := {}
  writer : Option String := none
  wrote : String → Option ℕ := fun _ => none
  leases : List (String × ℕ) := []
  overlaps : List (String × String) := []

namespace Election

/-- The other instances whose lease is not over. -/
def others (w : Election) (t : String) : List (String × String) :=
  (w.leases.filter fun l => l.1 ≠ t ∧ w.shared.clock ≤ l.2).map fun l => (t, l.1)

def note (t : String) (w : Election) : (c : Cmd) → c.Answer → Election
  | .upsert _ heldUntil, (rowsAffected : ℕ) => { w with
      writer := if rowsAffected = 0 then w.writer else some t
      wrote := update w.wrote t (if rowsAffected = 0 then none else some heldUntil) }
  | .delete, _ => { w with writer := none }
  | .isLeader, _ => { w with
      wrote := update w.wrote t none
      leases := w.leases.filter (·.1 ≠ t) }
  | .setLeader acquired, _ => { w with
      leases := if acquired then w.leases ++ ((w.wrote t).toList.map fun h => (t, h))
        else w.leases
      overlaps := if acquired then w.overlaps ++ w.others t else w.overlaps }
  | .now, _ | .verify, _ => w

def answer (t : String) (c : Cmd) (_ : Unit) (w : Election) : c.Answer × Election :=
  let (r, shared) := w.shared.answer t c
  (r, { w.note t c r with shared })

/-- Time passes. -/
def pass (n : ℕ) (w : Election) : Election :=
  { w with shared := { w.shared with clock := w.shared.clock + n } }

end Election

/-- The instances are told apart by their ids. -/
def election (ttl : String → ℕ) : System String Cmd.Answer Election Unit Call ℕ where
  answer := Election.answer
  task := Call.prog ttl
  boot _ := none
  outside := Election.pass

abbrev ElectionMove := Move String Unit Call ℕ

abbrev ElectionState := Threads String Cmd.Answer Election Call

/-- An instance makes calls of its own, and is not named like the row. -/
def Named : ElectionMove → Prop
  | .start t call => call.instanceId = t ∧ t ≠ leaderKey
  | .act .. | .outside _ => True
  | .restart => False

/-- `tryAcquire` returns true before the lease is over, and the row that is deleted was written by
the instance that deletes it. -/
def InTime (t : String) (w : Election) : Cmd → Prop
  | .setLeader true => ∀ h ∈ w.wrote t, w.shared.clock ≤ h
  | .delete => w.writer = some t
  | _ => True

/-- No instance is late. -/
def Orderly (s : ElectionState) : ElectionMove → Prop
  | .act t _ => (s.prog t).First (InTime t s.world)
  | .start .. | .outside _ | .restart => True

/-! ## The commands of an instance -/

section

variable {now : ℕ} {t : String} {row : Option LeaderRow} {w : Election}

/-- For an instance that is not named like the row, the lease is written if the row is free, and
kept otherwise. -/
theorem upsertLease_cases (heldUntil : ℕ) (hkey : ∀ r ∈ row, r.instanceId = leaderKey)
    (ht : t ≠ leaderKey) :
    (upsertLease now t heldUntil row = (1, some ⟨leaderKey, heldUntil⟩) ∧
        ∀ r ∈ row, r.heldUntil < now) ∨
      (upsertLease now t heldUntil row = (0, row) ∧ ∃ r ∈ row, now ≤ r.heldUntil) := by
  cases row with
  | none => exact .inl ⟨rfl, by simp⟩
  | some r =>
    have hr : r.instanceId = leaderKey := hkey r rfl
    have hne : r.instanceId ≠ t := fun h => ht (h.symm.trans hr)
    by_cases hlt : r.heldUntil < now
    · refine .inl ⟨?_, by simpa using hlt⟩
      rw [upsertLease, if_pos (.inl hlt), hr]
    · refine .inr ⟨?_, r, rfl, Nat.not_lt.mp hlt⟩
      rw [upsertLease, if_neg (by simp [hlt, hne])]

/-- The world after the row was written, or found held. -/
theorem answer_upsert (heldUntil : ℕ) (hkey : ∀ r ∈ w.shared.row, r.instanceId = leaderKey)
    (ht : t ≠ leaderKey) :
    (Election.answer t (.upsert t heldUntil) () w = (1, { w with
        shared := { w.shared with row := some ⟨leaderKey, heldUntil⟩ }
        writer := some t
        wrote := update w.wrote t (some heldUntil) }) ∧
      ∀ r ∈ w.shared.row, r.heldUntil < w.shared.clock) ∨
    Election.answer t (.upsert t heldUntil) () w =
      (0, { w with wrote := update w.wrote t none }) := by
  refine (@upsertLease_cases w.shared.clock t w.shared.row heldUntil hkey ht).imp ?_ ?_
  · rintro ⟨hrow, hfree⟩
    refine ⟨?_, hfree⟩
    simp only [Election.answer, Shared.answer, hrow, Election.note, Nat.one_ne_zero, if_false]
  · rintro ⟨hrow, -⟩
    simp only [Election.answer, Shared.answer, hrow, Election.note, if_true]

end

/-! ## At most one live leader -/

/-- A lease that is not over, or is about to be granted, is the row. -/
structure Exclusive (w : Election) : Prop where
  key : ∀ row ∈ w.shared.row, row.instanceId = leaderKey
  live : ∀ t h, w.wrote t = some h ∨ (t, h) ∈ w.leases → w.shared.clock ≤ h →
    w.writer = some t ∧ w.shared.row.map (·.heldUntil) = some h
  alone : w.overlaps = []

/-- The others leave an instance what it wrote and its leases. -/
structure Leaves (t : String) (w w' : Election) : Prop where
  wrote : w'.wrote t = w.wrote t
  leases : ∀ h, (t, h) ∈ w'.leases ↔ (t, h) ∈ w.leases

/-- The instance has no lease, and is not about to be granted one. -/
def Bare (t : String) (w : Election) : Prop := w.wrote t = none ∧ ∀ h, (t, h) ∉ w.leases

theorem Bare.of_leaves {t : String} {w w' : Election} (h : Bare t w) (hw : Leaves t w w') :
    Bare t w' :=
  ⟨hw.wrote.trans h.1, fun x hx => h.2 x ((hw.leases x).mp hx)⟩

def leaseOutline (ttl : String → ℕ) : Discipline (election ttl) where
  inv := Exclusive
  rely := Leaves
  rely_refl _ _ := ⟨rfl, fun _ => .rfl⟩
  rely_trans _ _ _ _ h h' := ⟨h'.wrote.trans h.wrote, fun x => (h'.leases x).trans (h.leases x)⟩
  allow t c _ w := InTime t w c
  pre t call _ := call.instanceId = t ∧ t ≠ leaderKey
  fresh _ := True
  calm _ _ := True

namespace Exclusive

variable {ttl : String → ℕ} {t : String} {w : Election}

theorem pass (h : Exclusive w) (n : ℕ) : Exclusive (w.pass n) where
  key := h.key
  live t x hx hclock := h.live t x hx (Nat.le_trans (Nat.le_add_right ..) hclock)
  alone := h.alone

/-- The row is free, so every lease is over. -/
theorem lapsed (h : Exclusive w) (hfree : ∀ row ∈ w.shared.row, row.heldUntil < w.shared.clock)
    {x : ℕ} (hx : w.wrote t = some x ∨ (t, x) ∈ w.leases) : ¬ w.shared.clock ≤ x := by
  intro hclock
  obtain ⟨-, hrow⟩ := h.live t x hx hclock
  obtain ⟨row, hmem, rfl⟩ := map_eq_some_iff.mp hrow
  exact Nat.not_le.mpr (hfree row hmem) hclock

theorem meets_op {α : Type} {c : Cmd} {k : c.Answer → Io α} {Q : α → Election → Prop}
    (h : ∀ w1, Leaves t w w1 → Exclusive w1 → InTime t w1 c →
      Exclusive (Election.answer t c () w1).2 ∧
        (∀ t', t' ≠ t → Leaves t' w1 (Election.answer t c () w1).2) ∧
        (k (Election.answer t c () w1).1).Meets ((leaseOutline ttl).contract t) Q
          (Election.answer t c () w1).2) :
    (Prog.op c k).Meets ((leaseOutline ttl).contract t) Q w :=
  fun w1 hrely hinv _ ha => h w1 hrely hinv ha

theorem meets_end : (Prog.pure none : Io (Option Call)).Meets ((leaseOutline ttl).contract t)
    ((leaseOutline ttl).Goes t) w :=
  fun _ _ _ _ h => absurd h (by simp)

/-- The statement of an instance. -/
theorem upsert (h : Exclusive w) (ht : t ≠ leaderKey) (heldUntil : ℕ) :
    let r := Election.answer t (.upsert t heldUntil) () w
    Exclusive r.2 ∧ (∀ t', t' ≠ t → Leaves t' w r.2) ∧ (0 < r.1 → (r.2.wrote t).isSome = true) := by
  rcases answer_upsert heldUntil h.key ht with ⟨hanswer, hfree⟩ | hanswer
  · rw [hanswer]
    refine ⟨⟨by simp, fun t' x hx hclock => ?_, h.alone⟩,
      fun t' hne => ⟨update_of_ne hne .., fun _ => .rfl⟩, fun _ => by simp⟩
    by_cases hne : t' = t
    · subst hne
      rcases hx with hx | hx
      · exact ⟨rfl, by simpa using hx⟩
      · exact absurd hclock (h.lapsed hfree (.inr hx))
    · simp only [update_of_ne hne] at hx
      exact absurd hclock (h.lapsed hfree hx)
  · rw [hanswer]
    refine ⟨⟨h.key, fun t' x hx hclock => h.live t' x ?_ hclock, h.alone⟩,
      fun t' hne => ⟨update_of_ne hne .., fun _ => .rfl⟩, fun hlt => absurd hlt (by simp)⟩
    by_cases hne : t' = t
    · subst hne
      exact .inr (hx.resolve_left (by simp))
    · simpa only [update_of_ne hne] using hx

/-- `tryAcquire` returns. If it returns true, the instance has written the row in time. -/
theorem setLeader (h : Exclusive w) {acquired : Bool}
    (hacquired : acquired = true → (w.wrote t).isSome = true)
    (htime : InTime t w (.setLeader acquired)) :
    let w' := (Election.answer t (.setLeader acquired) () w).2
    Exclusive w' ∧ ∀ t', t' ≠ t → Leaves t' w w' := by
  cases acquired with
  | false => exact ⟨⟨h.key, h.live, h.alone⟩, fun t' _ => ⟨rfl, fun _ => .rfl⟩⟩
  | true =>
    obtain ⟨x, hx⟩ := isSome_iff_exists.mp (hacquired rfl)
    have hlive := h.live t x (.inl hx) (htime x hx)
    have hothers : w.others t = [] := by
      refine List.map_eq_nil_iff.mpr (List.filter_eq_nil_iff.mpr fun l hl hother => ?_)
      obtain ⟨hne, hclock⟩ : l.1 ≠ t ∧ w.shared.clock ≤ l.2 := by simpa using hother
      obtain ⟨hwriter, -⟩ := h.live l.1 l.2 (.inr hl) hclock
      exact hne (mem_unique hwriter hlive.1)
    have hleases : ∀ t' y, (t', y) ∈ w.leases ++ ((w.wrote t).toList.map fun h => (t, h)) ↔
        (t', y) ∈ w.leases ∨ (t' = t ∧ y = x) := by
      simp [hx]
    refine ⟨⟨h.key, fun t' y hy hclock => ?_, ?_⟩, fun t' hne => ⟨rfl, fun y => ?_⟩⟩
    · rcases hy with hy | hy
      · exact h.live t' y (.inl hy) hclock
      · rcases (hleases t' y).mp hy with hy | ⟨rfl, rfl⟩
        · exact h.live t' y (.inr hy) hclock
        · exact hlive
    · change w.overlaps ++ w.others t = []
      rw [hothers, h.alone, List.append_nil]
    · refine (hleases t' y).trans ?_
      simp [hne]

/-- An instance that calls `release` gives up its lease. -/
theorem isLeader (h : Exclusive w) :
    let w' := (Election.answer t .isLeader () w).2
    Exclusive w' ∧ (∀ t', t' ≠ t → Leaves t' w w') ∧ Bare t w' := by
  have hmem : ∀ t' x, (t', x) ∈ w.leases.filter (·.1 ≠ t) ↔ (t', x) ∈ w.leases ∧ t' ≠ t := by
    simp
  refine ⟨⟨h.key, fun t' x hx hclock => h.live t' x ?_ hclock, h.alone⟩,
    fun t' hne => ⟨update_of_ne hne .., fun x => ?_⟩,
    update_self .., fun x hx => ((hmem t x).mp hx).2 rfl⟩
  · refine hx.imp (fun hx => ?_) fun hx => ((hmem t' x).mp hx).1
    by_cases hne : t' = t
    · subst hne
      exact absurd hx (by simp [Election.answer, Election.note])
    · simpa [Election.answer, Election.note, hne] using hx
  · exact (hmem t' x).trans (and_iff_left hne)

/-- The row that an instance has written is deleted, and with it no lease of another. -/
theorem delete (h : Exclusive w) (hwriter : w.writer = some t) (hbare : Bare t w) :
    let w' := (Election.answer t .delete () w).2
    Exclusive w' ∧ ∀ t', t' ≠ t → Leaves t' w w' := by
  refine ⟨⟨fun _ hrow => absurd hrow (by simp [Election.answer, Shared.answer]),
    fun t' x hx hclock => ?_, h.alone⟩, fun t' _ => ⟨rfl, fun _ => .rfl⟩⟩
  obtain ⟨hwriter', -⟩ := h.live t' x hx hclock
  obtain rfl : t' = t := mem_unique hwriter' hwriter
  rcases hx with hx | hx
  · cases hbare.1.symm.trans hx
  · exact absurd hx (hbare.2 x)

theorem tryAcquire_meets (ht : t ≠ leaderKey) :
    ((Call.tryAcquire t).prog ttl).Meets ((leaseOutline ttl).contract t)
      ((leaseOutline ttl).Goes t) w := by
  have hrefl : ∀ w t', t' ≠ t → Leaves t' w w := fun w t' _ => (leaseOutline ttl).rely_refl t' w
  rw [prog_tryAcquire]
  refine meets_op fun w1 _ h1 _ => ⟨h1, hrefl w1, ?_⟩
  refine meets_op fun w2 _ h2 _ => ?_
  obtain ⟨h2', hleaves, hwrote⟩ := h2.upsert ht ((Election.answer t .now () w1).1 + ttl t)
  refine ⟨h2', hleaves, ?_⟩
  refine meets_op fun w3 hrely3 h3 _ => ⟨h3, hrefl w3, ?_⟩
  rw [← hrely3.wrote] at hwrote
  cases hrow : w3.shared.row with
  | none =>
    have hanswer : (Election.answer t .verify () w3) = (none, w3) := by
      simp only [Election.answer, Shared.answer, hrow, Election.note, map_none]
    rw [hanswer]
    refine meets_op fun w4 _ h4 htime => ?_
    obtain ⟨h4', hleaves⟩ := h4.setLeader (by simp) htime
    exact ⟨h4', hleaves, meets_end⟩
  | some row =>
    have hanswer : (Election.answer t .verify () w3) = (some leaderKey, w3) := by
      simp only [Election.answer, Shared.answer, hrow, Election.note, map_some,
        h3.key row hrow]
    rw [hanswer]
    refine meets_op fun w4 hrely4 h4 htime => ?_
    rw [← hrely4.wrote] at hwrote
    have hacquired : ∀ rows : ℕ, decide (0 < rows ∨ leaderKey = t) = true → 0 < rows := by
      intro rows h
      exact (of_decide_eq_true h).resolve_right fun h => ht h.symm
    obtain ⟨h4', hleaves⟩ := h4.setLeader (fun h => hwrote (hacquired _ h)) htime
    exact ⟨h4', hleaves, meets_end⟩

theorem release_meets :
    ((Call.release t).prog ttl).Meets ((leaseOutline ttl).contract t)
      ((leaseOutline ttl).Goes t) w := by
  rw [prog_release]
  refine meets_op fun w1 _ h1 _ => ?_
  obtain ⟨hinv, hleaves, hbare⟩ := h1.isLeader (t := t)
  refine ⟨hinv, hleaves, ?_⟩
  cases hflag : w1.shared.isLeader t with
  | false =>
    have hanswer : (Election.answer t .isLeader () w1).1 = false := hflag
    rw [hanswer]
    exact meets_end
  | true =>
    have hanswer : (Election.answer t .isLeader () w1).1 = true := hflag
    rw [hanswer]
    refine meets_op fun w2 hrely2 h2 htime => ?_
    obtain ⟨hinv2, hleaves2⟩ := h2.delete htime (hbare.of_leaves hrely2)
    refine ⟨hinv2, hleaves2, meets_op fun w3 _ h3 htime3 => ?_⟩
    obtain ⟨hinv3, hleaves3⟩ := h3.setLeader (by simp) htime3
    exact ⟨hinv3, hleaves3, meets_end⟩

theorem leaseOutline_valid : (leaseOutline ttl).Valid where
  task t call w _ hpre := by
    obtain ⟨rfl, ht⟩ := hpre
    cases call with
    | tryAcquire => exact tryAcquire_meets ht
    | release => exact release_meets
  boot _ _ _ _ := fun _ h => absurd h (by simp [election])
  outside n w h _ := ⟨h.pass n, fun _ => ⟨rfl, fun _ => .rfl⟩⟩

end Exclusive

/-- As long as `tryAcquire` returns true only before the lease it wrote is over, and no instance
releases a lease that is not its own : from the moment `tryAcquire` returns true to an instance
until its lease is over or it calls `release`, it returns true to no other. -/
theorem leases_exclusive (ttl : String → ℕ) (shared : Shared)
    (hkey : ∀ row ∈ shared.row, row.instanceId = leaderKey) (ms : List ElectionMove)
    (hms : Along (election ttl).step (fun s m => Named m ∧ Orderly s m)
      ((election ttl).start { shared }) ms) :
    (run (election ttl).step ((election ttl).start { shared }) ms).world.overlaps = [] := by
  have hbegin : Exclusive { shared } := ⟨hkey, fun t x hx => absurd hx (by simp), rfl⟩
  have hallows : Along (election ttl).step (leaseOutline ttl).Allows
      ((election ttl).start { shared }) ms := by
    refine hms.mono fun s m hm => ?_
    cases m with
    | act => exact hm.2
    | start => exact hm.1
    | outside => trivial
    | restart => exact hm.1.elim
  obtain ⟨hinv, -⟩ := Discipline.run_holds Exclusive.leaseOutline_valid
    (Discipline.start_holds Exclusive.leaseOutline_valid hbegin trivial) hallows
  exact hinv.alone

instance Named.decidable : DecidablePred Named := fun m => by
  cases m <;> unfold Named <;> infer_instance

instance InTime.decidable (t : String) (w : Election) : DecidablePred (InTime t w) := fun c => by
  unfold InTime
  split <;> infer_instance

instance Orderly.decidable (s : ElectionState) : DecidablePred (Orderly s) := fun m => by
  cases m <;> unfold Orderly <;> infer_instance

/-- Commands of an instance, one after the other. -/
def commands (t : String) (n : ℕ) : List ElectionMove := List.replicate n (.act t ())

/-- A call of `tryAcquire` without interruption. -/
def acquires (t : String) : List ElectionMove := .start t (.tryAcquire t) :: commands t 4

def releases (t : String) : List ElectionMove := .start t (.release t) :: commands t 3

/-- The instances after some moves, with leases of ten. -/
def after (ms : List ElectionMove) : Election :=
  (run (election fun _ => 10).step ((election fun _ => 10).start {}) ms).world

/-- Instance A leads, B is refused. After the lease is over B leads, and it releases its lease. -/
def handedOver : List ElectionMove :=
  acquires "A" ++ acquires "B" ++ [.outside 11] ++ acquires "B" ++ releases "B" ++ acquires "C"

theorem leases_exclusive_handedOver :
    (after handedOver).leases = [("A", 10), ("C", 21)] ∧ (after handedOver).overlaps = [] :=
  ⟨by decide +kernel,
    leases_exclusive (fun _ => 10) {} (by simp) handedOver (by decide +kernel)⟩

/-- The lease of A is over and B leads. Then A releases the lease, which is that of B. -/
def releasedLate : List ElectionMove :=
  acquires "A" ++ [.outside 11] ++ acquires "B" ++ releases "A" ++ acquires "C"

/-- A writes the row, and has not looked it up again when its lease is over and B leads. -/
def verifiedLate : List ElectionMove :=
  .start "A" (.tryAcquire "A") :: commands "A" 2 ++ [.outside 11] ++ acquires "B" ++ commands "A" 2

/-- An instance has the name of the row. -/
def namedLikeRow : List ElectionMove := acquires "A" ++ acquires leaderKey

theorem two_leaders :
    (after releasedLate).overlaps = [("C", "B")] ∧
    (after verifiedLate).overlaps = [("A", "B")] ∧
    (after namedLikeRow).overlaps = [(leaderKey, "A")] := by
  decide +kernel

/-! ## Renewal -/

/-- The calls of the instances, one after the other, and the time that passes between them. -/
inductive Event where
  | call (c : Call)
  | pass (n : ℕ)
deriving DecidableEq, Repr

/-- No instance is named like the row. -/
def Event.Named : Event → Prop
  | .call c => c.instanceId ≠ leaderKey
  | .pass _ => True

instance Event.Named.decidable : DecidablePred Event.Named
  | .call c => inferInstanceAs (Decidable (c.instanceId ≠ leaderKey))
  | .pass _ => .isTrue trivial

namespace Shared

/-- A call of `tryAcquire`, and what it returns. -/
def acquire (ttl : String → ℕ) (s : Shared) (t : String) : Bool × Shared :=
  (tryAcquire t (ttl t)).exec (answer t) s

def step (ttl : String → ℕ) (s : Shared) : Event → Shared
  | .call (.tryAcquire t) => (s.acquire ttl t).2
  | .call (.release t) => (release.exec (answer t) s).2
  | .pass n => { s with clock := s.clock + n }

def Keyed (s : Shared) : Prop := ∀ row ∈ s.row, row.instanceId = leaderKey

/-- Until it is over, the lease is the row. -/
def Held (row : LeaderRow) (s : Shared) : Prop :=
  s.Keyed ∧ (s.clock ≤ row.heldUntil → s.row = some row)

variable {ttl : String → ℕ} {s : Shared} {t : String} {e : Event}

/-- The row is free and the instance is the leader now, or the row is held and it is not. -/
theorem acquire_cases (ttl : String → ℕ) (hkey : s.Keyed) (ht : t ≠ leaderKey) :
    (s.acquire ttl t = (true, { s with
        row := some ⟨leaderKey, s.clock + ttl t⟩
        isLeader := update s.isLeader t true }) ∧ ∀ r ∈ s.row, r.heldUntil < s.clock) ∨
      (s.acquire ttl t = (false, { s with isLeader := update s.isLeader t false }) ∧
        ∃ r ∈ s.row, s.clock ≤ r.heldUntil) := by
  refine (@upsertLease_cases s.clock t s.row (s.clock + ttl t) hkey ht).imp ?_ ?_
  · rintro ⟨hrow, hfree⟩
    refine ⟨?_, hfree⟩
    simp [acquire, tryAcquire, tryAcquireInner, command, answer, hrow]
  · rintro ⟨hrow, r, hr, hheld⟩
    refine ⟨?_, r, hr, hheld⟩
    have hr' : s.row = some r := hr
    rw [hr'] at hrow
    simp [acquire, tryAcquire, tryAcquireInner, command, answer, hrow, hr', hkey r hr, ht.symm]

theorem Keyed.step (hkey : s.Keyed) (he : e.Named) : (s.step ttl e).Keyed := by
  cases e with
  | pass => exact hkey
  | call c =>
    cases c with
    | tryAcquire t =>
      rcases acquire_cases ttl (t := t) hkey he with ⟨hanswer, -⟩ | ⟨hanswer, -⟩
      · simp [Shared.step, hanswer, Keyed]
      · simp only [Shared.step, hanswer]
        exact hkey
    | release t =>
      cases hflag : s.isLeader t
      · simpa [Shared.step, release, command, answer, hflag] using hkey
      · simp [Shared.step, release, command, answer, hflag, Keyed]

/-- Nobody takes a lease over that lasts. -/
theorem Held.step {row : LeaderRow} (h : Held row s) (he : e.Named)
    (hrelease : ∀ t, e ≠ .call (.release t)) : Held row (s.step ttl e) := by
  refine ⟨h.1.step he, fun hheld => ?_⟩
  cases e with
  | pass => exact h.2 (Nat.le_trans (Nat.le_add_right ..) hheld)
  | call c =>
    cases c with
    | tryAcquire t =>
      rcases acquire_cases ttl (t := t) h.1 he with ⟨hanswer, hfree⟩ | ⟨hanswer, -⟩
      · simp only [Shared.step, hanswer] at hheld
        exact absurd hheld (Nat.not_le.mpr (hfree row (h.2 hheld)))
      · simp only [Shared.step, hanswer] at hheld ⊢
        exact h.2 hheld
    | release t => exact absurd rfl (hrelease t)

end Shared

/-- In every history of calls by instances that are not named like the row : if nobody calls
`release`, the lease of an instance to which `tryAcquire` returned true stays in the row until it
is over. While it is in the row, `tryAcquire` returns true to the instance exactly if the lease is
over, and then moves it forward. -/
theorem renewal_iff_expired (ttl : String → ℕ) (shared : Shared) (hkey : shared.Keyed)
    (es fs : List Event) (hnamed : ∀ e ∈ es ++ fs, e.Named) (t : String) (ht : t ≠ leaderKey)
    (hlead : ((run (Shared.step ttl) shared es).acquire ttl t).1 = true) :
    let s := ((run (Shared.step ttl) shared es).acquire ttl t).2
    let s' := run (Shared.step ttl) s fs
    ∃ h, s.row = some ⟨leaderKey, h⟩ ∧
      ((∀ t', .call (.release t') ∉ fs) → s'.clock ≤ h → s'.row = s.row) ∧
      (s'.row = s.row → ((s'.acquire ttl t).1 = true ↔ h < s'.clock) ∧
        ((s'.acquire ttl t).1 = true →
          ∃ h', (s'.acquire ttl t).2.row = some ⟨leaderKey, h'⟩ ∧ h < h')) := by
  intro s s'
  have hkept : ∀ {es s}, s.Keyed → (∀ e ∈ es, e.Named) → (run (Shared.step ttl) s es).Keyed :=
    fun hs hes => run_inv (I := Shared.Keyed) (fun _ _ hs he => hs.step he) hs (along_of_forall hes)
  have hfs : ∀ e ∈ fs, e.Named := fun e he => hnamed e (List.mem_append_right _ he)
  have hbegin : (run (Shared.step ttl) shared es).Keyed :=
    hkept hkey fun e he => hnamed e (List.mem_append_left _ he)
  rcases Shared.acquire_cases ttl hbegin ht with ⟨hanswer, -⟩ | ⟨hanswer, -⟩
  · have hrow : s.row = some ⟨leaderKey, (run (Shared.step ttl) shared es).clock + ttl t⟩ := by
      simp only [s, hanswer]
    have hs : s.Keyed := by simp [Shared.Keyed, hrow]
    refine ⟨_, hrow, fun hrelease hheld => ?_, fun hsame => ?_⟩
    · have hno : ∀ e ∈ fs, e.Named ∧ ∀ t, e ≠ .call (.release t) := fun e he =>
        ⟨hfs e he, fun t heq => hrelease t (heq ▸ he)⟩
      obtain ⟨-, hlease⟩ := run_inv (I := Shared.Held _) (fun _ _ hs he => hs.step he.1 he.2)
        ⟨hs, fun _ => hrow⟩ (along_of_forall hno)
      exact (hlease hheld).trans hrow.symm
    · rw [hrow] at hsame
      rcases Shared.acquire_cases ttl (hkept hs hfs) ht with ⟨hnext, hfree⟩ | ⟨hnext, r, hr, hheld⟩
      · have hover := hfree _ hsame
        rw [hnext]
        exact ⟨iff_of_true rfl hover, fun _ => ⟨_, rfl, Nat.lt_add_right _ hover⟩⟩
      · obtain rfl := mem_unique hr hsame
        rw [hnext]
        exact ⟨iff_of_false (by simp) (Nat.not_lt.mpr hheld), fun h => absurd h (by simp)⟩
  · simp [hanswer] at hlead

/-- A leads, and asks again when its lease is over. -/
theorem renewal_iff_expired_asksLate :
    let s := ((run (Shared.step fun _ => 10) {} []).acquire (fun _ => 10) "A").2
    let s' := run (Shared.step fun _ => 10) s [.call (.tryAcquire "B"), .pass 11]
    s'.row = s.row ∧ ∃ h, s.row = some ⟨leaderKey, h⟩ ∧
      ((∀ t', .call (.release t') ∉ [Event.call (.tryAcquire "B"), .pass 11]) →
        s'.clock ≤ h → s'.row = s.row) ∧
      (s'.row = s.row → ((s'.acquire (fun _ => 10) "A").1 = true ↔ h < s'.clock) ∧
        ((s'.acquire (fun _ => 10) "A").1 = true →
          ∃ h', (s'.acquire (fun _ => 10) "A").2.row = some ⟨leaderKey, h'⟩ ∧ h < h')) :=
  ⟨by decide +kernel, renewal_iff_expired (fun _ => 10) {} (by simp [Shared.Keyed]) [] _
    (by decide) "A" (by decide) (by decide +kernel)⟩

/-- `tryAcquire` has returned true to A, its lease has not expired and nobody has called `release` :
it returns false, and the lease stays as it was. -/
theorem live_leader_refused :
    let first := Shared.acquire (fun _ => 10) {} "A"
    let next := (first.2.step (fun _ => 10) (.pass 5)).acquire (fun _ => 10) "A"
    first.1 = true ∧ next.1 = false ∧ next.2.row = some ⟨leaderKey, 10⟩ := by
  decide +kernel

end LeaderElection

end Checkmate.Indexer

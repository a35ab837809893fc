import Checkmate.Service.Retries

/-!
# The size of the dead-letter store

`DeadLetterStore` is given a number of entries to keep, and `push` never looks at it. So the store
holds every entry that was pushed and not removed. It is what `keepNewest` describes, a list that
drops its oldest entries when a push exceeds the limit, exactly as long as no push does
(`store_bounded_iff`).
-/

namespace Checkmate.Service.Poller

open List

inductive StoreCall where
  | push (entry : PendingEntry)
  | remove (matchId : ℕ)

/-- A call, and how the outside answers it. -/
structure StoreEvent where
  call : StoreCall
  outside : Outside

def StoreCall.prog : StoreCall → Io (Except OracleServiceError Unit)
  | .push entry => (DeadLetterStore.push entry).run
  | .remove matchId => (DeadLetterStore.remove matchId).run

def storeStep (d : Disk) (e : StoreEvent) : Disk := (e.call.prog.exec (alone e.outside) d).2

/-- The entries without the oldest over the limit. A limit of 0 is none. -/
def newest (maxEntries : ℕ) (l : List DeadLetterEntry) : List DeadLetterEntry :=
  if maxEntries = 0 then l else l.drop (l.length - maxEntries)

/-- The store as a list of entries in the order of their pushes. -/
def keepNewest (maxEntries : ℕ) (l : List DeadLetterEntry) :
    StoreEvent → List DeadLetterEntry
  | ⟨.push entry, o⟩ =>
    if l.any (·.entry.matchId = entry.matchId) then l
    else newest maxEntries (l ++ [⟨entry, o.ask .clock, entry.attempts⟩])
  | ⟨.remove matchId, _⟩ => l.filter (·.entry.matchId ≠ matchId)

variable {d : Disk} {e : StoreEvent} {es : List StoreEvent} {maxEntries : ℕ}
  {l : List DeadLetterEntry}

theorem storeStep_deadLettered (he : e.outside.fault = none) :
    (storeStep d e).deadLettered = keepNewest 0 d.deadLettered e := by
  obtain ⟨entry | matchId, o⟩ := e
  · rw [storeStep, StoreCall.prog, exec_push he, keepNewest]
    split
    · rfl
    · simp [Disk.deadLettered, newest]
  · rw [storeStep, StoreCall.prog, removeDead_eq]
    simp only [Prog.exec, alone, Disk.answer, show o.fault = none from he]
    rw [exec_saving he]
    simp [Disk.deadLettered, keepNewest]

theorem run_deadLettered (hes : ∀ e ∈ es, e.outside.fault = none) :
    (run storeStep d es).deadLettered = run (keepNewest 0) d.deadLettered es := by
  induction es generalizing d with
  | nil => rfl
  | cons e es ih =>
    rw [run_cons, run_cons, ← storeStep_deadLettered (hes e mem_cons_self)]
    exact ih fun e' he' => hes e' (mem_cons_of_mem _ he')

theorem keepNewest_nodup (h : (l.map (·.entry.matchId)).Nodup) :
    ((keepNewest 0 l e).map (·.entry.matchId)).Nodup := by
  obtain ⟨entry | matchId, o⟩ := e
  · rw [keepNewest]
    split
    · exact h
    · rename_i hnew
      rw [newest, if_pos rfl, map_append, nodup_append]
      refine ⟨h, nodup_singleton _, ?_⟩
      rintro i hi _ hj rfl
      rw [mem_singleton.mp hj, mem_map] at hi
      simp only [any_eq_true, decide_eq_true_eq] at hnew
      exact hnew hi
  · exact h.sublist (filter_sublist.map _)

theorem newest_eq (h : maxEntries ≠ 0 → l.length ≤ maxEntries) : newest maxEntries l = l := by
  unfold newest
  split
  · rfl
  · rename_i hmax
    rw [Nat.sub_eq_zero_of_le (h hmax), drop_zero]

/-- A limit that is not exceeded makes no difference. -/
theorem keepNewest_eq (h : maxEntries ≠ 0 → (keepNewest 0 l e).length ≤ maxEntries) :
    keepNewest maxEntries l e = keepNewest 0 l e := by
  obtain ⟨entry | matchId, o⟩ := e
  · rw [keepNewest, keepNewest] at *
    split
    · rfl
    · rename_i hnew
      rw [if_neg hnew] at h
      exact newest_eq h
  · rfl

/-- After every call the store is as the limit asks, exactly if no push ever exceeds it. -/
theorem store_bounded_iff (hd : d.deadLettered = []) (hes : ∀ e ∈ es, e.outside.fault = none) :
    (∀ n, (run storeStep d (es.take n)).deadLettered =
          run (keepNewest maxEntries) [] (es.take n) ∧
        (run storeStep d (es.take n)).deadIds.Nodup ∧
        (maxEntries ≠ 0 → (run storeStep d (es.take n)).deadLettered.length ≤ maxEntries)) ↔
      (maxEntries ≠ 0 → ∀ n, (run (keepNewest 0) [] (es.take n)).length ≤ maxEntries) := by
  have hrun (n : ℕ) : (run storeStep d (es.take n)).deadLettered =
      run (keepNewest 0) [] (es.take n) := by
    rw [run_deadLettered fun e he => hes e (mem_of_mem_take he), hd]
  simp only [Disk.deadIds, hrun]
  refine ⟨fun h hmax n => (h n).2.2 hmax, fun h n => ⟨?_, ?_, fun hmax => h hmax n⟩⟩
  · induction n with
    | zero => rfl
    | succ n ih =>
      rcases Nat.lt_or_ge n es.length with hn | hn
      · have hstep := fun hmax => h hmax (n + 1)
        rw [take_succ_eq_append_getElem hn, run_append, run_cons, run_nil] at hstep ⊢
        rw [run_append, run_cons, run_nil, ← ih, keepNewest_eq hstep]
      · rwa [take_of_length_le (by omega), ← take_of_length_le hn]
  · refine run_inv (I := fun l => (List.map (fun e : DeadLetterEntry => e.entry.matchId) l).Nodup)
      (fun _ _ h _ => keepNewest_nodup h) ?_ (along_true _ _)
    exact nodup_nil

def nothingFails : Outside where
  torn _ := none
  now := 0
  ask := Query.plain

/-- Matches 10 and 20 are pushed. -/
def twoPushes : List StoreEvent :=
  [10, 20].map fun id => ⟨.push (.new 0 id "game0001" .lichess), nothingFails⟩

theorem store_bounded_iff_twoPushes :
    (run storeStep (.ofQueue []) (twoPushes.take 2)).deadLettered =
      run (keepNewest 2) [] (twoPushes.take 2) := by
  refine ((@store_bounded_iff (.ofQueue []) twoPushes 2 rfl (by decide)).mpr
    (fun _ n => ?_) 2).1
  rcases n with _ | _ | n
  · decide
  · decide
  · rw [take_of_length_le (by simp [twoPushes])]
    decide

/-- With a limit of 1 both entries stay. -/
theorem limit_not_enforced : (run storeStep (.ofQueue []) twoPushes).deadIds = [10, 20] ∧
    (run (keepNewest 1) [] twoPushes).map (·.entry.matchId) = [20] := by
  decide

end Checkmate.Service.Poller

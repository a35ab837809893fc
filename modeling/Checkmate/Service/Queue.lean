import Mathlib.Data.List.Nodup
import Checkmate.Service.Files

/-!
# The operations of the stores

Every call on the queue loads the file and then saves what it makes of the entries, or leaves
the file alone. `QueueOp.apply` is what a call means when nothing happens between its load and
its save, `QueueOp.onEntry` what it means for the entry of one match. `QueueCall.prog` is the
common form of the three programs : `enqueue_eq`, `updateEntry_eq` and `remove_eq`.
-/

namespace Checkmate.Service

open List

/-- A call on the queue, and the time its load was answered. -/
structure QueueOp where
  call : QueueCall
  now : ℕ
deriving DecidableEq, Repr

namespace QueueOp

/-- The call saves, with these entries in the file. -/
def saves (op : QueueOp) (entries : List PendingEntry) : Bool :=
  match op.call with
  | .enqueue matchId _ _ => !entries.any (·.matchId = matchId)
  | .updateEntry updated => entries.any (·.matchId = updated.matchId)
  | .remove _ => true

/-- The entries after the call. -/
def apply (op : QueueOp) (entries : List PendingEntry) : List PendingEntry :=
  match op.call with
  | .enqueue matchId gameId platform =>
    if entries.any (·.matchId = matchId) then entries
    else entries ++ [.new op.now matchId gameId platform]
  | .updateEntry updated =>
    match entries.findIdx? (·.matchId = updated.matchId) with
    | some pos => entries.set pos updated
    | none => entries
  | .remove matchId => entries.filter (·.matchId ≠ matchId)

/-- The entry of a match after the call. -/
def onEntry (op : QueueOp) (matchId : ℕ) (entry : Option PendingEntry) : Option PendingEntry :=
  match op.call with
  | .enqueue m gameId platform =>
    if m = matchId then some (entry.getD (.new op.now m gameId platform)) else entry
  | .updateEntry updated =>
    if updated.matchId = matchId then entry.map fun _ => updated else entry
  | .remove m => if m = matchId then none else entry

end QueueOp

/-- The entry of a match. -/
def entryOf (matchId : ℕ) (entries : List PendingEntry) : Option PendingEntry :=
  entries.find? (·.matchId = matchId)

variable {entries : List PendingEntry} {id : ℕ}

theorem any_matchId : entries.any (·.matchId = id) = true ↔ id ∈ entries.map (·.matchId) := by
  simp

theorem entryOf_eq_none : entryOf id entries = none ↔ id ∉ entries.map (·.matchId) := by
  simp [entryOf]

/-! ## What an operation does to the entries -/

/-- The first entry of a match is replaced by one of the same match. -/
theorem set_findIdx? {updated : PendingEntry} {pos : ℕ}
    (h : entries.findIdx? (·.matchId = updated.matchId) = some pos) :
    ∃ pre old post, entries = pre ++ old :: post ∧ old.matchId = updated.matchId ∧
      updated.matchId ∉ pre.map (·.matchId) ∧ entries.set pos updated = pre ++ updated :: post := by
  induction entries generalizing pos with
  | nil => simp at h
  | cons e entries ih =>
    by_cases he : e.matchId = updated.matchId
    · have hpos : pos = 0 := by simpa [List.findIdx?_cons, he] using h.symm
      subst hpos
      exact ⟨[], e, entries, rfl, he, by simp, rfl⟩
    · obtain ⟨k, hk, rfl⟩ : ∃ k, entries.findIdx? (·.matchId = updated.matchId) = some k ∧
          k + 1 = pos := by
        simpa [List.findIdx?_cons, he] using h
      obtain ⟨pre, old, post, rfl, hold, hpre, hset⟩ := ih hk
      refine ⟨e :: pre, old, post, rfl, hold, ?_, by simp [hset]⟩
      simpa [Ne.symm he] using hpre

/-- A call that does not save changes nothing. -/
theorem QueueOp.apply_of_not_saves {op : QueueOp}
    (h : op.saves entries = false) : op.apply entries = entries := by
  rcases op with ⟨call, now⟩
  cases call with
  | enqueue id =>
    have hany : entries.any (·.matchId = id) = true := by simpa [saves] using h
    simp only [apply, hany, if_true]
  | updateEntry updated =>
    have hnone : entries.findIdx? (·.matchId = updated.matchId) = none := by
      simpa [saves] using h
    simp only [apply, hnone]
  | remove => simp [saves] at h

/-- The ids after a call : an enqueued id comes last, an update changes none. -/
theorem QueueOp.map_matchId_apply (op : QueueOp) (entries : List PendingEntry) :
    (op.apply entries).map (·.matchId) = match op.call with
      | .enqueue id _ _ => if id ∈ entries.map (·.matchId) then entries.map (·.matchId)
        else entries.map (·.matchId) ++ [id]
      | .updateEntry _ => entries.map (·.matchId)
      | .remove id => (entries.map (·.matchId)).filter (· ≠ id) := by
  rcases op with ⟨call, now⟩
  cases call with
  | enqueue =>
    simp only [apply, any_matchId]
    split <;> simp [PendingEntry.new]
  | updateEntry updated =>
    simp only [apply]
    cases h : entries.findIdx? (·.matchId = updated.matchId) with
    | none => rfl
    | some =>
      obtain ⟨pre, old, post, rfl, hold, -, hset⟩ := set_findIdx? h
      simp [hset, hold]
  | remove =>
    simp only [apply, filter_map]
    rfl

/-- Only a removal takes a match out of the queue. -/
theorem QueueOp.mem_apply (op : QueueOp) {entries : List PendingEntry} {id : ℕ}
    (h : id ∈ entries.map (·.matchId)) :
    id ∈ (op.apply entries).map (·.matchId) ∨ op.call = .remove id := by
  rw [map_matchId_apply]
  cases op.call with
  | enqueue =>
    dsimp only
    split
    · exact .inl h
    · exact .inl (mem_append_left _ h)
  | updateEntry => exact .inl h
  | remove m =>
    by_cases hm : id = m
    · exact .inr (hm ▸ rfl)
    · exact .inl (mem_filter.mpr ⟨h, by simpa using hm⟩)

/-- Only `enqueue` brings a match into the queue. -/
theorem QueueOp.of_mem_apply {op : QueueOp}
    (h : id ∈ (op.apply entries).map (·.matchId)) : id ∈ entries.map (·.matchId) ∨
      ∃ gameId platform, op.call = .enqueue id gameId platform := by
  rw [map_matchId_apply] at h
  cases hcall : op.call with
  | enqueue m gameId platform =>
    rw [hcall] at h
    dsimp only at h
    split at h
    · exact .inl h
    · rcases mem_append.mp h with h | h
      · exact .inl h
      · exact .inr ⟨gameId, platform, by rw [mem_singleton.mp h]⟩
  | updateEntry =>
    rw [hcall] at h
    exact .inl h
  | remove =>
    rw [hcall] at h
    exact .inl (mem_of_mem_filter h)

theorem QueueOp.mem_apply_enqueue (id : ℕ) (gameId : String) (platform : Platform)
    (now : ℕ) (entries : List PendingEntry) :
    id ∈ (QueueOp.apply ⟨.enqueue id gameId platform, now⟩ entries).map (·.matchId) := by
  rw [map_matchId_apply]
  dsimp only
  split
  · assumption
  · simp

theorem QueueOp.nodup_apply (op : QueueOp) {entries : List PendingEntry}
    (h : (entries.map (·.matchId)).Nodup) : ((op.apply entries).map (·.matchId)).Nodup := by
  rw [map_matchId_apply]
  cases op.call with
  | enqueue =>
    dsimp only
    split
    · exact h
    · next hm => exact h.append (nodup_singleton _) (by simpa using hm)
  | updateEntry => exact h
  | remove => exact h.filter _

theorem entryOf_enqueue (id : ℕ) (entries : List PendingEntry) (new : PendingEntry) : entryOf id
        (if entries.any (·.matchId = new.matchId) then entries else entries ++ [new]) =
      if new.matchId = id then some ((entryOf id entries).getD new) else entryOf id entries := by
  by_cases hm : new.matchId = id
  · subst hm
    rw [if_pos rfl]
    cases hentry : entryOf new.matchId entries with
    | none =>
      have hany := mt any_matchId.mp (entryOf_eq_none.mp hentry)
      rw [entryOf] at hentry
      simp [hany, entryOf, List.find?_append, hentry]
    | some =>
      have hany : entries.any (·.matchId = new.matchId) = true := by
        by_contra hany
        rw [entryOf_eq_none.mpr (mt any_matchId.mpr hany)] at hentry
        cases hentry
      rw [if_pos hany, hentry]
      rfl
  · rw [if_neg hm]
    split
    · rfl
    · simp [entryOf, List.find?_append, hm]

theorem entryOf_set {updated : PendingEntry} {pos : ℕ}
    (h : entries.findIdx? (·.matchId = updated.matchId) = some pos) (id : ℕ) :
    entryOf id (entries.set pos updated) =
      if updated.matchId = id then (entryOf id entries).map fun _ => updated
      else entryOf id entries := by
  obtain ⟨pre, old, post, rfl, hold, hpre, hset⟩ := set_findIdx? h
  have hfirst : entryOf updated.matchId pre = none := entryOf_eq_none.mpr hpre
  rw [hset]
  by_cases hm : updated.matchId = id
  · subst hm
    rw [entryOf] at hfirst
    simp [entryOf, List.find?_append, hfirst, hold]
  · simp [entryOf, List.find?_append, hm, hold]

theorem entryOf_filter (id m : ℕ) (entries : List PendingEntry) :
    entryOf id (entries.filter (·.matchId ≠ m)) = if m = id then none else entryOf id entries := by
  by_cases hm : m = id
  · subst hm
    rw [if_pos rfl]
    exact entryOf_eq_none.mpr (by simp)
  · rw [if_neg hm, entryOf, List.find?_filter, entryOf]
    congr 1
    funext e
    by_cases he : e.matchId = id
    · simp [he, Ne.symm hm]
    · simp [he]

/-- Each match sees its own operations only. -/
theorem QueueOp.entryOf_apply (op : QueueOp) (id : ℕ) (entries : List PendingEntry) :
    entryOf id (op.apply entries) = op.onEntry id (entryOf id entries) := by
  rcases op with ⟨call, now⟩
  cases call with
  | enqueue m gameId platform =>
    exact entryOf_enqueue id entries (.new now m gameId platform)
  | updateEntry updated =>
    simp only [apply, onEntry]
    cases h : entries.findIdx? (·.matchId = updated.matchId) with
    | some => exact entryOf_set h id
    | none =>
      by_cases hm : updated.matchId = id
      · subst hm
        have hnone : entryOf updated.matchId entries = none := by simpa [entryOf] using h
        simp [hnone]
      · simp [hm]
  | remove m => exact entryOf_filter id m entries

/-! ## The programs -/

/-- Save a file and end with `x`, or with the error of the command that failed. -/
def saving {β : Type} (s : Store) (content : s.Content) (x : β) :
    Io (Except OracleServiceError β) :=
  .op (.write s content) fun
    | .error e => .pure (.error (.queueIo e))
    | .ok _ => .op (.rename s) fun
      | .error e => .pure (.error (.queueIo e))
      | .ok _ => .pure (.ok x)

/-- A call on the queue that ends with `saved` if it saves, and with `kept` if not. -/
def QueueCall.prog {β : Type} (call : QueueCall) (kept saved : β) :
    Io (Except OracleServiceError β) :=
  .op (.load .pending (some (.call call))) fun
    | .error e => .pure (.error (.queueIo e))
    | .ok (content, now) =>
      if QueueOp.saves ⟨call, now⟩ (content.getD []) then
        saving .pending (QueueOp.apply ⟨call, now⟩ (content.getD [])) saved
      else .pure (.ok kept)

theorem saveFile_eq (s : Store) (content : s.Content) :
    (saveFile s content).run = saving s content () := by
  refine congrArg (Prog.op _) (funext fun r => ?_)
  cases r with
  | error => rfl
  | ok =>
    refine congrArg (Prog.op _) (funext fun r => ?_)
    cases r <;> rfl

/-- A save, and a value after it. -/
theorem saveFile_bind {β : Type} (s : Store) (content : s.Content) (x : β) :
    (saveFile s content >>= fun _ => pure x : Fallible β).run = saving s content x := by
  refine congrArg (Prog.op _) (funext fun r => ?_)
  cases r with
  | error => rfl
  | ok =>
    refine congrArg (Prog.op _) (funext fun r => ?_)
    cases r <;> rfl

theorem enqueue_eq (id : ℕ) (gameId : String) (platform : Platform) :
    (PendingQueue.enqueue id gameId platform).run =
      (QueueCall.enqueue id gameId platform).prog false true := by
  refine congrArg (Prog.op _) (funext fun r => ?_)
  cases r with
  | error => rfl
  | ok r =>
    obtain ⟨content, now⟩ := r
    change (if (content.getD []).any _ then _ else _ : Fallible Bool).run = _
    simp only [QueueOp.saves, QueueOp.apply]
    by_cases hany : (content.getD []).any (·.matchId = id) = true
    · simp only [hany]
      rfl
    · simp only [hany]
      exact saveFile_bind .pending _ true

theorem dueEntries_eq : PendingQueue.dueEntries.run = .op (.load .pending none) fun
        | .error e => .pure (.error (.queueIo e))
        | .ok (content, now) => .pure (.ok ((content.getD []).filter (·.isDue now))) := by
  refine congrArg (Prog.op _) (funext fun r => ?_)
  cases r <;> rfl

theorem updateEntry_eq (updated : PendingEntry) :
    (PendingQueue.updateEntry updated).run = (QueueCall.updateEntry updated).prog () () := by
  refine congrArg (Prog.op _) (funext fun r => ?_)
  cases r with
  | error => rfl
  | ok r =>
    obtain ⟨content, now⟩ := r
    change (match (content.getD []).findIdx? _ with
      | some _ => _
      | none => _ : Fallible Unit).run = _
    simp only [QueueOp.saves, QueueOp.apply]
    cases h : (content.getD []).findIdx? (·.matchId = updated.matchId) with
    | none =>
      have hany : (content.getD []).any (·.matchId = updated.matchId) = false := by simpa using h
      simp only [hany]
      rfl
    | some =>
      obtain ⟨pre, old, post, hentries, hold, -, -⟩ := set_findIdx? h
      have hany : (content.getD []).any (·.matchId = updated.matchId) = true :=
        any_matchId.mpr (by simp [hentries, hold])
      simp only [hany]
      exact saveFile_eq .pending _

theorem remove_eq (id : ℕ) : (PendingQueue.remove id).run = (QueueCall.remove id).prog () () := by
  refine congrArg (Prog.op _) (funext fun r => ?_)
  cases r with
  | error => rfl
  | ok => exact saveFile_eq .pending _

theorem push_eq (entry : PendingEntry) : (DeadLetterStore.push entry).run =
      .op (.ask .clock) fun now => .op (.load .deadLetter (some (.push entry.matchId))) fun
        | .error e => .pure (.error (.queueIo e))
        | .ok (content, _) =>
          if (content.getD []).any (·.entry.matchId = entry.matchId) then .pure (.ok ())
          else saving .deadLetter (content.getD [] ++ [⟨entry, now, entry.attempts⟩]) () := by
  refine congrArg (Prog.op _) (funext fun now => congrArg (Prog.op _) (funext fun r => ?_))
  cases r with
  | error => rfl
  | ok r =>
    change (if (r.1.getD []).any _ then _ else _ : Fallible Unit).run = _
    dsimp only
    split
    · rfl
    · exact saveFile_eq .deadLetter _

theorem removeDead_eq (id : ℕ) : (DeadLetterStore.remove id).run = .op (.load .deadLetter none) fun
        | .error e => .pure (.error (.queueIo e))
        | .ok (content, _) =>
          saving .deadLetter ((content.getD []).filter (·.entry.matchId ≠ id)) () := by
  refine congrArg (Prog.op _) (funext fun r => ?_)
  cases r with
  | error => rfl
  | ok => exact saveFile_eq .deadLetter _

end Checkmate.Service

import Checkmate.Host.Run

/-!
# The submission log

`append` reads `submissions.json`, adds its record and replaces the file by a rename. A log that
cannot be read counts as empty, so the replacement loses its records
(`failed_read_drops_records`). Otherwise what was reported as stored stays, in its order, whatever
else fails and wherever the process stops (`log_append_only`).
-/

namespace Checkmate.Service

/-- The text of a file, by what `load` makes of it. -/
inductive LogText (R : Type) where
  | blank
  | json (records : List R)
  | unparsable
  deriving DecidableEq

/-- `submissions.json`, and the temporary file beside it. -/
structure LogFiles (R : Type) where
  log : Option (LogText R) := none
  tmp : Option (LogText R) := none

/-- How an append comes to its end. -/
inductive AppendEnd (R : Type) where
  /-- The process stops before the write. -/
  | stops
  /-- The write fails, or the process stops in it. Some text is left. -/
  | unwritten (left : Option (LogText R))
  /-- The rename fails, or the process stops before it. -/
  | unrenamed
  /-- The log is replaced, and `append` returns `Ok` unless the process stops before. -/
  | renamed (reported : Bool)

structure Append (R : Type) where
  record : R
  /-- `read_to_string` succeeds. -/
  readable : Bool
  ending : AppendEnd R

variable {R : Type} {f : LogFiles R} {a : Append R}

def SubmissionLog.load (f : LogFiles R) (readable : Bool) : Option (List R) :=
  match f.log with
  | none => some []
  | some text =>
    if readable then
      match text with
      | .blank => some []
      | .json records => some records
      | .unparsable => none
    else none

def SubmissionLog.append (f : LogFiles R) (a : Append R) : LogFiles R :=
  let entries := (load f a.readable).getD [] ++ [a.record]
  match a.ending with
  | .stops => f
  | .unwritten left => { f with tmp := left }
  | .unrenamed => { f with tmp := some (.json entries) }
  | .renamed _ => { log := some (.json entries) }

open SubmissionLog

/-- The records in `submissions.json`. -/
def LogFiles.records (f : LogFiles R) : List R :=
  match f.log with
  | some (.json records) => records
  | _ => []

/-- The record, if the append reports it as stored. -/
def Append.stored (a : Append R) : Option R :=
  match a.ending with
  | .renamed true => some a.record
  | _ => none

/-- A log that cannot be read is not replaced. -/
def Reads (f : LogFiles R) (a : Append R) : Prop :=
  load f a.readable = none → ∀ reported, a.ending ≠ .renamed reported

theorem load_eq_records {readable : Bool} {records : List R}
    (h : load f readable = some records) : f.records = records := by
  unfold load at h
  unfold LogFiles.records
  split at h
  · simp_all
  · split at h
    · split at h <;> simp_all
    · simp at h

/-- An append keeps the records, and adds its own if it reports it. -/
theorem append_sublist (h : Reads f a) :
    (f.records ++ a.stored.toList).Sublist (append f a).records := by
  cases hend : a.ending with
  | stops | unwritten | unrenamed => simp [append, Append.stored, hend, LogFiles.records]
  | renamed reported =>
    cases hload : load f a.readable with
    | none => exact absurd hend (h hload reported)
    | some =>
      have hafter : (append f a).records = f.records ++ [a.record] := by
        rw [load_eq_records hload]
        simp [append, hend, hload, LogFiles.records]
      rw [hafter]
      cases reported <;> simp [Append.stored, hend]

/-- After every append the records reported so far are in the log, in their order. -/
theorem log_append_only {as : List (Append R)} (has : Along append Reads f as) :
    (as.filterMap Append.stored).Sublist (run append f as).records := by
  refine run_history (I := fun as f => (as.filterMap Append.stored).Sublist f.records)
    (fun as f a hf ha => ?_) (List.nil_sublist _) has
  have hone : [a].filterMap Append.stored = a.stored.toList := by
    cases ha : a.stored <;> simp [ha]
  rw [List.filterMap_append, hone]
  exact (hf.append_right _).trans (append_sublist ha)

/-- The rename of the second append fails. -/
def renameFails : List (Append ℕ) :=
  [⟨1, true, .renamed true⟩, ⟨2, true, .unrenamed⟩, ⟨3, true, .renamed true⟩]

theorem log_append_only_renameFails :
    [1, 3].Sublist (run append ({} : LogFiles ℕ) renameFails).records :=
  @log_append_only ℕ {} renameFails
    ⟨by simp [Reads, load], by simp [Reads], by simp [Reads, load, append], trivial⟩

/-- The second append cannot read the log, and replaces it. -/
theorem failed_read_drops_records :
    (run append {} [⟨1, true, .renamed true⟩, ⟨2, false, .renamed true⟩]).records = [2] := by
  decide

end Checkmate.Service

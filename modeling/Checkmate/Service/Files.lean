import Mathlib.Logic.Function.Basic
import Checkmate.Host.Prog
import Checkmate.Service.Providers

/-!
# The files of the oracle service

The queue of pending entries, the dead-letter store and the reconciliation cursor are files. An
operation on a store loads the whole file, and saves it in two commands : it writes a temporary
file and renames it into place. The time read after a file was loaded is part of the answer to
the load : there is no other command in between.

`Cmd` has the commands of the service on files, and its questions to everything else, which
are answered from outside. `Disk.answer` says what a command does to the files : it may fail,
and a write that fails leaves anything behind in the temporary file.
-/

namespace Checkmate.Service

abbrev Platform := Oracle.Platform

/-! ## Entries -/

structure PendingEntry where
  matchId : ℕ
  gameId : String
  platform : Platform
  attempts : ℕ
  nextAttemptAt : ℕ
  enqueuedAt : ℕ
  lastError : Option String
deriving DecidableEq, Repr

namespace PendingEntry

/-- A new entry, due at once. -/
def new (now matchId : ℕ) (gameId : String) (platform : Platform) : PendingEntry where
  matchId := matchId
  gameId := gameId
  platform := platform
  attempts := 0
  nextAttemptAt := now
  enqueuedAt := now
  lastError := none

/-- The longest delay before a retry, in seconds. -/
def maxDelaySecs : ℕ := 3600

/-- Record a failed attempt at `now`. Also says whether all retries are used up. -/
def recordFailure (entry : PendingEntry) (now : ℕ) (error : String)
    (baseDelaySecs maxRetries : ℕ) : PendingEntry × Bool :=
  let failed := { entry with attempts := entry.attempts + 1, lastError := some error }
  if maxRetries ≤ failed.attempts then (failed, true)
  else
    let exp := failed.attempts - 1
    let multiplier := if exp < 64 then 1 <<< exp else u64Max
    let delaySecs := min (min (baseDelaySecs * multiplier) u64Max) maxDelaySecs
    ({ failed with nextAttemptAt := now + delaySecs }, false)

def isDue (entry : PendingEntry) (now : ℕ) : Bool := entry.nextAttemptAt ≤ now

theorem recordFailure_matchId (entry : PendingEntry) (now : ℕ) (error : String)
    (base max : ℕ) : (entry.recordFailure now error base max).1.matchId = entry.matchId := by
  simp only [recordFailure]
  split <;> rfl

end PendingEntry

structure DeadLetterEntry where
  entry : PendingEntry
  deadLetteredAt : ℕ
  totalAttempts : ℕ
deriving DecidableEq, Repr

/-- The errors of the service. -/
inductive OracleServiceError where
  | config (text : String)
  | transport (text : String)
  | rpcError (text : String)
  | simulateError (text : String)
  | sendError (text : String)
  | txFailed (text : String)
  | xdrError (text : String)
  | queueIo (text : String)
deriving DecidableEq, Repr

def OracleServiceError.text : OracleServiceError → String
  | .config t => "configuration error: " ++ t
  | .transport t => "transport error: " ++ t
  | .rpcError t => "RPC error: " ++ t
  | .simulateError t => "simulate transaction error: " ++ t
  | .sendError t => "send transaction error: " ++ t
  | .txFailed t => "transaction failed on-chain: " ++ t
  | .xdrError t => "XDR encoding/decoding error: " ++ t
  | .queueIo t => "queue I/O error: " ++ t

/-! ## Commands -/

inductive Store where
  | pending
  | deadLetter
  | cursor
deriving DecidableEq, Repr

@[reducible] def Store.Content : Store → Type
  | .pending => List PendingEntry
  | .deadLetter => List DeadLetterEntry
  | .cursor => ℕ

/-- A call that may change the queue. -/
inductive QueueCall where
  | enqueue (matchId : ℕ) (gameId : String) (platform : Platform)
  | updateEntry (updated : PendingEntry)
  | remove (matchId : ℕ)
deriving DecidableEq, Repr

/-- What a file is loaded for : a call on the queue, or a push to the dead-letter store. -/
inductive Purpose where
  | call (call : QueueCall)
  | push (matchId : ℕ)
deriving DecidableEq, Repr

/-- How a lookup on a platform fails, once it is classified. -/
inductive FetchError where
  | permanent (reason : String)
  | transient (reason : String)
deriving DecidableEq, Repr

/-- What comes of asking a platform for one game. -/
inductive FetchReply where
  | rateLimited (retryAfter : ℕ)
  | outcome (result : Except FetchError Winner)

/-- What comes of asking Lichess for many games. -/
inductive BatchReply where
  | results (results : List (String × Except FetchError Winner))
  | rateLimited (retryAfter : ℕ)
  /-- The endpoint answers 404 or 405. -/
  | unavailable
  | failed (reason : String)

structure ActiveMatchSummary where
  matchId : ℕ
  gameId : String
  platform : Platform
deriving DecidableEq, Repr

/-- A simulation that succeeded. `decoded` says whether its data and authorizations decode. -/
structure SimulateResult where
  minResourceFee : ℤ
  decoded : Except OracleServiceError Unit

/-- What is known of a transaction that was sent. -/
inductive TxStatus where
  | success
  | failed (detail : String)
  /-- `NOT_FOUND`, `PENDING`, or any other status. -/
  | unsettled
deriving DecidableEq, Repr

/-- Questions to the clock, to memory, to the platforms and to the contracts. -/
inductive Query where
  | clock
  | sleep
  | skipIfBackingOff (platform : Platform)
  | backOff (platform : Platform) (retryAfter : ℕ)
  | cached (platform : Platform) (gameId : String)
  | cacheInsert (platform : Platform) (gameId : String) (winner : Winner)
  | fetchResult (platform : Platform) (gameId : String)
  | fetchResultsBatch (gameIds : List String)
  | appendSubmission (matchId : ℕ) (winner : Winner) (txHash : String)
  | activeMatchesPaginated (offset limit : ℕ)
  | hasResult (matchId : ℕ)
  | accountSequence
  | simulateTransaction (matchId : ℕ) (winner : Winner)
  | sendTransaction (matchId : ℕ) (winner : Winner)
  | getTransaction (matchId : ℕ) (txHash : String)

@[reducible] def Query.Answer : Query → Type
  | .clock => ℕ
  | .sleep | .backOff .. | .cacheInsert .. => Unit
  | .skipIfBackingOff _ => Bool
  | .cached .. => Option Winner
  | .fetchResult .. => FetchReply
  | .fetchResultsBatch _ => BatchReply
  | .appendSubmission .. => Except OracleServiceError Unit
  | .activeMatchesPaginated .. => Except OracleServiceError (List ActiveMatchSummary)
  | .hasResult _ => Except OracleServiceError Bool
  | .accountSequence => Except OracleServiceError ℤ
  | .simulateTransaction .. => Except OracleServiceError SimulateResult
  | .sendTransaction .. => Except OracleServiceError String
  | .getTransaction .. => Except OracleServiceError TxStatus

inductive Cmd where
  /-- Load a file. What a load is made for, if a save may follow, is noted with it. -/
  | load (s : Store) (purpose : Option Purpose)
  | write (s : Store) (content : s.Content)
  | rename (s : Store)
  | removeFile (s : Store)
  | ask (q : Query)

@[reducible] def Cmd.Answer : Cmd → Type
  | .load s _ => Except String (Option s.Content × ℕ)
  | .write .. | .rename _ | .removeFile _ => Except String Unit
  | .ask q => q.Answer

/-! ## Files -/

/-- A file, and the temporary file next to it. -/
structure File (α : Type) where
  content : Option α := none
  tmp : Option α := none

abbrev Disk := (s : Store) → File s.Content

/-- What decides the answer to a command : whether it fails, what a failed write leaves in the
temporary file, the time, and the answers to questions. -/
structure Outside where
  fault : Option String := none
  torn : (s : Store) → Option s.Content
  now : ℕ
  ask : (q : Query) → q.Answer

/-- Answers where nothing goes wrong : a platform names player 1, transactions succeed, and no
match is active. -/
def Query.plain : (q : Query) → q.Answer
  | .clock => (0 : ℕ)
  | .sleep | .backOff .. | .cacheInsert .. => ()
  | .skipIfBackingOff _ => false
  | .cached .. => none
  | .fetchResult .. => .outcome (.ok .player1)
  | .fetchResultsBatch gameIds => .results (gameIds.map fun gameId => (gameId, .ok .player1))
  | .appendSubmission .. => .ok ()
  | .activeMatchesPaginated .. => .ok []
  | .hasResult _ => .ok false
  | .accountSequence => .ok 0
  | .simulateTransaction .. => .ok ⟨0, .ok ()⟩
  | .sendTransaction .. => .ok "tx"
  | .getTransaction .. => .ok .success

namespace Disk

def set (d : Disk) (s : Store) (f : File s.Content) : Disk := Function.update d s f

/-- The temporary file is written. -/
def wrote (d : Disk) (s : Store) (content : s.Content) : Disk :=
  d.set s { content := (d s).content, tmp := some content }

/-- The temporary file is renamed into place. -/
def renamed (d : Disk) (s : Store) (content : s.Content) : Disk :=
  d.set s { content := some content, tmp := none }

/-- A command, and what it does to the files. -/
def answer (d : Disk) : (c : Cmd) → Outside → c.Answer × Disk
  | .load s _, o =>
    match o.fault with
    | some e => (.error e, d)
    | none => (.ok ((d s).content, o.now), d)
  | .write s content, o =>
    match o.fault with
    | some e => (.error e, d.set s { content := (d s).content, tmp := o.torn s })
    | none => (.ok (), d.wrote s content)
  | .rename s, o =>
    match o.fault, (d s).tmp with
    | some e, _ => (.error e, d)
    | none, none => (.error "No such file or directory", d)
    | none, some content => (.ok (), d.renamed s content)
  | .removeFile s, o =>
    match o.fault with
    | some e => (.error e, d)
    | none => (.ok (), d.set s { content := none, tmp := (d s).tmp })
  | .ask q, o => (o.ask q, d)

/-- Files with these entries in the queue. -/
def ofQueue (entries : List PendingEntry) : Disk
  | .pending => { content := some entries }
  | .deadLetter => {}
  | .cursor => {}

/-- The entries in the queue. -/
def queued (d : Disk) : List PendingEntry := (d .pending).content.getD []

/-- The entries in the dead-letter store. -/
def deadLettered (d : Disk) : List DeadLetterEntry := (d .deadLetter).content.getD []

def queuedIds (d : Disk) : List ℕ := d.queued.map (·.matchId)

def deadIds (d : Disk) : List ℕ := d.deadLettered.map (·.entry.matchId)

/-- The matches in the temporary file of the queue. -/
def tmpIds (d : Disk) : List ℕ := ((d .pending).tmp.getD []).map (·.matchId)

@[simp] theorem set_self (d : Disk) (s : Store) (f : File s.Content) : d.set s f s = f :=
  Function.update_self ..

@[simp] theorem set_of_ne (d : Disk) {s s' : Store} (f : File s.Content) (h : s' ≠ s) :
    d.set s f s' = d s' :=
  Function.update_of_ne h ..

@[simp] theorem wrote_self (d : Disk) (s : Store) (content : s.Content) :
    d.wrote s content s = { content := (d s).content, tmp := some content } :=
  set_self ..

@[simp] theorem wrote_of_ne (d : Disk) {s s' : Store} (content : s.Content) (h : s' ≠ s) :
    d.wrote s content s' = d s' :=
  set_of_ne _ _ h

@[simp] theorem renamed_self (d : Disk) (s : Store) (content : s.Content) :
    d.renamed s content s = { content := some content, tmp := none } :=
  set_self ..

@[simp] theorem renamed_of_ne (d : Disk) {s s' : Store} (content : s.Content) (h : s' ≠ s) :
    d.renamed s content s' = d s' :=
  set_of_ne _ _ h

section Ids

variable {d d' : Disk}

theorem queuedIds_congr (h : (d' .pending).content = (d .pending).content) :
    d'.queuedIds = d.queuedIds := by
  rw [queuedIds, queuedIds, queued, queued, h]

theorem tmpIds_congr (h : (d' .pending).tmp = (d .pending).tmp) : d'.tmpIds = d.tmpIds := by
  rw [tmpIds, tmpIds, h]

theorem deadIds_congr (h : (d' .deadLetter).content = (d .deadLetter).content) :
    d'.deadIds = d.deadIds := by
  rw [deadIds, deadIds, deadLettered, deadLettered, h]

end Ids

end Disk

/-- The store whose files a command may change. -/
def Cmd.changes : Cmd → Option Store
  | .write s _ | .rename s | .removeFile s => some s
  | .load .. | .ask _ => none

theorem Disk.answer_frame {c : Cmd} {s : Store} (hc : c.changes ≠ some s) (o : Outside)
    (d : Disk) : (d.answer c o).2 s = d s := by
  have hne : ∀ s', c.changes = some s' → s ≠ s' := fun s' h hs => hc (hs ▸ h)
  cases c with
  | load => cases hf : o.fault <;> simp only [Disk.answer, hf]
  | write s' => cases hf : o.fault <;> simp [Disk.answer, hf, hne s' rfl]
  | rename s' =>
    cases hf : o.fault <;> cases ht : (d s').tmp <;> simp [Disk.answer, hf, ht, hne s' rfl]
  | removeFile s' => cases hf : o.fault <;> simp [Disk.answer, hf, hne s' rfl]
  | ask => rfl

/-- The store whose file a command may replace. A write only touches the temporary file. -/
def Cmd.replaces : Cmd → Option Store
  | .rename s | .removeFile s => some s
  | .load .. | .write .. | .ask _ => none

theorem Disk.answer_content {c : Cmd} {s : Store} (hc : c.replaces ≠ some s) (o : Outside)
    (d : Disk) : ((d.answer c o).2 s).content = (d s).content := by
  have hframe : c.changes ≠ some s → ((d.answer c o).2 s).content = (d s).content :=
    fun h => congrArg File.content (Disk.answer_frame h o d)
  cases c with
  | write s' =>
    by_cases hs : s' = s
    · subst hs
      cases hf : o.fault <;> simp [Disk.answer, hf]
    · exact hframe fun h => hs (Option.some.inj h)
  | load => exact hframe fun h => nomatch h
  | rename | removeFile => exact hframe hc
  | ask => rfl

/-- A command that is done without an I/O error. -/
def Cmd.Succeeds (o : Outside) (d : Disk) : Cmd → Prop
  | .rename s => o.fault = none ∧ (d s).tmp.isSome = true
  | .load .. | .write .. | .removeFile _ | .ask _ => o.fault = none

instance Cmd.Succeeds.decidable (o : Outside) (d : Disk) : DecidablePred (Succeeds o d) :=
  fun c => by cases c <;> unfold Succeeds <;> infer_instance

theorem Cmd.Succeeds.fault {o : Outside} {d : Disk} {c : Cmd} (h : c.Succeeds o d) :
    o.fault = none := by
  cases c with
  | rename => exact h.1
  | load | write | removeFile | ask => exact h

/-- Programs of the service. -/
abbrev Io := Prog Cmd.Answer

/-- Programs that may end in an error. -/
abbrev Fallible := ExceptT OracleServiceError Io

def command (c : Cmd) : Io c.Answer := Prog.perform c

def ask (q : Query) : Io q.Answer := command (.ask q)

/-- A question that may be answered with an error. -/
def tryAsk {α : Type} (x : Io (Except OracleServiceError α)) : Fallible α := ExceptT.mk x

/-- A program without errors, among those that may have one. -/
def infallible {α : Type} (x : Io α) : Fallible α := ExceptT.mk (x.bind fun a => .pure (.ok a))

/-- The error of a file operation. -/
def fileIo {α : Type} (x : Io (Except String α)) : Fallible α :=
  ExceptT.mk (x.bind fun r => .pure (r.mapError .queueIo))

/-- An error of `x` is only logged. -/
def logged {α : Type} (x : Fallible α) : Io Unit := x.run.bind fun _ => .pure ()

/-! ## The stores -/

def loadFile (s : Store) (purpose : Option Purpose) : Fallible (Option s.Content × ℕ) :=
  fileIo (command (.load s purpose))

/-- Write the temporary file, then rename it into place. -/
def saveFile (s : Store) (content : s.Content) : Fallible Unit := do
  fileIo (command (.write s content))
  fileIo (command (.rename s))

namespace PendingQueue

/-- All entries, and the time they were loaded at. -/
def load (call : Option QueueCall) : Fallible (List PendingEntry × ℕ) := do
  let (content, now) ← loadFile .pending (call.map .call)
  pure (content.getD [], now)

def save (entries : List PendingEntry) : Fallible Unit := saveFile .pending entries

def enqueue (matchId : ℕ) (gameId : String) (platform : Platform) : Fallible Bool := do
  let (entries, now) ← load (some (.enqueue matchId gameId platform))
  if entries.any (·.matchId = matchId) then pure false
  else do
    save (entries ++ [.new now matchId gameId platform])
    pure true

def dueEntries : Fallible (List PendingEntry) := do
  let (entries, now) ← load none
  pure (entries.filter (·.isDue now))

def updateEntry (updated : PendingEntry) : Fallible Unit := do
  let (entries, _) ← load (some (.updateEntry updated))
  match entries.findIdx? (·.matchId = updated.matchId) with
  | some pos => save (entries.set pos updated)
  | none => pure ()

def remove (matchId : ℕ) : Fallible Unit := do
  let (entries, _) ← load (some (.remove matchId))
  save (entries.filter (·.matchId ≠ matchId))

end PendingQueue

namespace DeadLetterStore

def load (purpose : Option Purpose) : Fallible (List DeadLetterEntry) := do
  let (content, _) ← loadFile .deadLetter purpose
  pure (content.getD [])

def save (entries : List DeadLetterEntry) : Fallible Unit := saveFile .deadLetter entries

/-- The capacity of the store is not looked at. -/
def push (entry : PendingEntry) : Fallible Unit := do
  let now ← infallible (ask .clock)
  let dl : DeadLetterEntry := ⟨entry, now, entry.attempts⟩
  let entries ← load (some (.push entry.matchId))
  if entries.any (·.entry.matchId = dl.entry.matchId) then pure ()
  else save (entries ++ [dl])

def remove (matchId : ℕ) : Fallible Unit := do
  let entries ← load none
  save (entries.filter (·.entry.matchId ≠ matchId))

end DeadLetterStore

namespace ReconciliationCursor

/-- The offset saved last. A file that is missing or cannot be read counts as 0. -/
def load : Io ℕ :=
  (loadFile .cursor none).run.bind fun
    | .ok (content, _) => .pure (content.getD 0)
    | .error _ => .pure 0

def save (offset : ℕ) : Fallible Unit := saveFile .cursor offset

def clear : Io Unit := logged (fileIo (command (.removeFile .cursor)))

end ReconciliationCursor

end Checkmate.Service

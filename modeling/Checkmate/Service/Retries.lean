import Checkmate.Host.Run
import Checkmate.Service.Lichess
import Checkmate.Service.Poller

/-!
# The retries of a queued match

A queued match is looked up in one of three ways : by itself, in a batch, or by itself after the
batch was refused. `verdict` is what the poller makes of the answer, and `standing_visited` says
that this is all it does to the match : it is left alone, removed, dead-lettered, or charged an
attempt.

Every error of a client is classified before the poller sees it, as permanent or as transient. So
an answer that the game is not finished is one of the two. Along every run of lookups, a match is
dead-lettered exactly if there was a permanent error or the failed attempts have reached the
maximum, whether the game was finished or not (`deadLettered_iff`). A game that goes on for long
enough is dead-lettered however the answer is classified (`long_game_deadLettered`).
-/

namespace Checkmate.Service

/-! ## What the clients report -/

inductive ChessComError where
  | invalidGameId
  | http (text : String)
  | timeout
  | rateLimited (retryAfter : ℕ)
  | concurrencyLimitReached
  | httpStatus (status : ℕ)
  | gameNotFound
  | invalidResponse
  | gameNotFinished
deriving DecidableEq, Repr

/-- How the errors of the clients are classified, and described. The errors in a batch have a
function of their own. -/
structure Clients where
  classifyLichessError : LichessError → FetchError
  classifyLichessErrorRef : LichessError → FetchError
  classifyChessComError : ChessComError → FetchError
  describe : LichessError → String

namespace Clients

variable (c : Clients)

def lichessReply : Except LichessError Winner → FetchReply
  | .error (.rateLimited retryAfter) => .rateLimited retryAfter
  | .error e => .outcome (.error (c.classifyLichessError e))
  | .ok winner => .outcome (.ok winner)

def chessComReply : Except ChessComError Winner → FetchReply
  | .error (.rateLimited retryAfter) => .rateLimited retryAfter
  | .error (.httpStatus 429) => .rateLimited defaultRateLimitBackoff
  | .error e => .outcome (.error (c.classifyChessComError e))
  | .ok winner => .outcome (.ok winner)

def batchReply : Except LichessError (List (String × Except LichessError Winner)) → BatchReply
  | .ok results =>
    .results (results.map fun (gameId, result) =>
      (gameId, result.mapError c.classifyLichessErrorRef))
  | .error (.rateLimited retryAfter) => .rateLimited retryAfter
  | .error (.httpStatus 404) | .error (.httpStatus 405) => .unavailable
  | .error e => .failed (c.describe e)

end Clients

/-- A match that is looked up, and the answers meanwhile : of the two clients, and of everything
else. -/
structure Visit where
  matchId : ℕ
  now : ℕ
  lichess : String → Except LichessError Winner
  lichessBatch : List String → Except LichessError (List (String × Except LichessError Winner))
  chessCom : String → Except ChessComError Winner
  other : (q : Query) → q.Answer

/-- The files do not fail. -/
def Visit.outside (c : Clients) (v : Visit) : Outside where
  torn _ := none
  now := v.now
  ask
    | .fetchResult .lichess gameId => c.lichessReply (v.lichess gameId)
    | .fetchResult .chessDotCom gameId => c.chessComReply (v.chessCom gameId)
    | .fetchResultsBatch gameIds => c.batchReply (v.lichessBatch gameIds)
    | q => v.other q

/-! ## What the poller makes of an entry -/

inductive Verdict where
  | untouched
  | failed (reason : String)
  | fatal (reason : String)
  | settled
deriving DecidableEq, Repr

/-- The entry of a match in the queue, and whether the match is dead-lettered. -/
structure Standing where
  entry : Option PendingEntry
  dead : Bool
deriving DecidableEq, Repr

def Disk.standing (d : Disk) (matchId : ℕ) : Standing where
  entry := entryOf matchId d.queued
  dead := decide (matchId ∈ d.deadIds)

namespace Poller

variable (cfg : Config) (o : Outside)

/-- How a command is answered during a lookup. -/
def alone (c : Cmd) (d : Disk) : c.Answer × Disk := d.answer c o

def submission (matchId : ℕ) (winner : Winner) : Except OracleServiceError String :=
  ((SorobanClient.submitResult cfg matchId winner).run.exec (alone o) fun _ => {}).1

def ofWinner (matchId : ℕ) (winner : Winner) : Verdict :=
  match submission cfg o matchId winner with
  | .ok _ => .settled
  | .error e => .failed e.text

def ofOutcome (matchId : ℕ) : Except FetchError Winner → Verdict
  | .ok winner => ofWinner cfg o matchId winner
  | .error (.permanent reason) => .fatal reason
  | .error (.transient reason) => .failed reason

/-- The verdict on an entry that needs no lookup. -/
def unasked (e : PendingEntry) : Option Verdict :=
  match validateGameId cfg e.platform e.gameId with
  | .error reason => some (.fatal reason)
  | .ok _ => (o.ask (.cached e.platform e.gameId)).map (ofWinner cfg o e.matchId)

def single (e : PendingEntry) : Verdict :=
  match o.ask (.fetchResult e.platform e.gameId) with
  | .rateLimited _ => .untouched
  | .outcome result => ofOutcome cfg o e.matchId result

def batched (gameIds : List String) (e : PendingEntry) : Verdict :=
  match o.ask (.fetchResultsBatch gameIds) with
  | .results results => ofOutcome cfg o e.matchId (batchOutcome results e.gameId)
  | .rateLimited _ => .untouched
  | .unavailable => single cfg o e
  | .failed reason => .failed reason

def backsOff (platform : Platform) : Bool := o.ask (.skipIfBackingOff platform)

def verdict (e : PendingEntry) : Verdict :=
  if backsOff o e.platform = true then .untouched
  else
    match unasked cfg o e, e.platform with
    | some v, _ => v
    | none, .chessDotCom => single cfg o e
    | none, .lichess => batched cfg o [e.gameId] e

/-- What a tick does with a due entry. -/
def visit (e : PendingEntry) : Io Unit :=
  if e.platform = .lichess then processLichessBatch cfg [e] else processEach cfg [e]

end Poller

/-- What a verdict does to the standing of the match. -/
def Verdict.apply (cfg : Config) (now : ℕ) (e : PendingEntry) : Verdict → Standing → Standing
  | .untouched, s => s
  | .settled, s => { s with entry := none }
  | .fatal _, _ => { entry := none, dead := true }
  | .failed reason, s =>
    let (tried, exhausted) := e.recordFailure now reason cfg.retryBaseDelaySecs cfg.maxRetries
    if exhausted then { entry := none, dead := true }
    else { s with entry := s.entry.map fun _ => tried }

@[simp] theorem Verdict.untouched_apply (cfg : Config) (now : ℕ) (e : PendingEntry)
    (s : Standing) : Verdict.untouched.apply cfg now e s = s := rfl

/-! ## A lookup

`Acts` says what a program does to the standing of a match when it runs alone. -/

namespace Poller

/-- The program ends with `a`, and changes the standing of the match by `f`. -/
def Acts {α : Type} (o : Outside) (matchId : ℕ) (p : Io α) (a : α) (f : Standing → Standing) :
    Prop :=
  ∀ d : Disk, d.queuedIds.Nodup →
    (p.exec (alone o) d).1 = a ∧ (p.exec (alone o) d).2.queuedIds.Nodup ∧
      (p.exec (alone o) d).2.standing matchId = f (d.standing matchId)

section Acts

variable {cfg : Config} {o : Outside} {m : ℕ} {α β : Type} {p : Io α} {a : α}
  {g : Standing → Standing} {b : β}

theorem acts_pure (a : α) : Acts o m (pure a : Io α) a id := fun _ hd => ⟨rfl, hd, rfl⟩

theorem acts_ask (q : Query) : Acts o m (ask q) (o.ask q) id := fun _ hd => ⟨rfl, hd, rfl⟩

theorem Acts.bind {f : Standing → Standing} {k : α → Io β}
    (hp : Acts o m p a f) (hk : Acts o m (k a) b g) : Acts o m (p >>= k) b (g ∘ f) := by
  intro d hd
  obtain ⟨ha, hnodup, hf⟩ := hp d hd
  obtain ⟨hb, hnodup', hg⟩ := hk _ hnodup
  rw [Prog.exec_bind, ha]
  exact ⟨hb, hnodup', hg.trans (congrArg g hf)⟩

theorem Acts.congr {f : Standing → Standing} (hp : Acts o m p a f)
    (h : ∀ s, f s = g s) : Acts o m p a g := by
  rwa [← funext h]

/-- A program that changes nothing comes first. -/
theorem Acts.idBind {k : α → Io β}
    (hp : Acts o m p a id) (hk : Acts o m (k a) b g) : Acts o m (p >>= k) b g :=
  hp.bind hk

theorem Acts.ask_bind {q : Query} {k : q.Answer → Io β}
    (hk : Acts o m (k (o.ask q)) b g) : Acts o m (ask q >>= k) b g :=
  (acts_ask q).idBind hk

theorem Acts.bind_pure {f : Standing → Standing} (hp : Acts o m p a f) (b : β) :
    Acts o m (p >>= fun _ => pure b) b f :=
  hp.bind (k := fun _ => pure b) (acts_pure b)

theorem Acts.logged {x : Fallible α} {r : Except OracleServiceError α} {f : Standing → Standing}
    (hx : Acts o m x.run r f) : Acts o m (logged x) () f :=
  hx.bind_pure ()

section

variable (ho : o.fault = none)

include ho

theorem exec_saving {s : Store} (content : s.Content) (x : β) (d : Disk) :
    (saving s content x).exec (alone o) d = (.ok x, (d.wrote s content).renamed s content) := by
  simp [saving, Prog.exec, alone, Disk.answer, ho]

theorem exec_push (e : PendingEntry) (d : Disk) :
    (DeadLetterStore.push e).run.exec (alone o) d =
      if d.deadLettered.any (·.entry.matchId = e.matchId) then (.ok (), d)
      else (.ok (), (d.wrote .deadLetter
        (d.deadLettered ++ [⟨e, o.ask .clock, e.attempts⟩])).renamed .deadLetter
          (d.deadLettered ++ [⟨e, o.ask .clock, e.attempts⟩])) := by
  rw [push_eq]
  simp only [Prog.exec, alone, Disk.answer, ho]
  change (if d.deadLettered.any _ then _ else _ : Io _).exec (alone o) d = _
  split
  · rfl
  · exact exec_saving ho _ () d

end

variable (o m) in
/-- The program changes nothing. -/
def Asks (p : Io α) : Prop := ∃ a, Acts o m p a id

theorem Asks.tryBind {x : Fallible α} {f : α → Fallible β} (hx : Asks o m x.run)
    (hf : ∀ a, Asks o m (f a).run) : Asks o m (x >>= f).run := by
  obtain ⟨r, hr⟩ := hx
  rw [ExceptT.run_bind]
  cases r with
  | error e => exact ⟨.error e, hr.idBind (acts_pure _)⟩
  | ok a =>
    obtain ⟨r, hr'⟩ := hf a
    exact ⟨r, hr.idBind hr'⟩

section

variable (ho : o.fault = none)

include ho

end

end Acts

end Poller

/-! ## Lookup after lookup -/

def Verdict.isFailed : Verdict → Bool
  | .failed _ => true
  | _ => false

def Verdict.isFatal : Verdict → Bool
  | .fatal _ => true
  | _ => false

section Visits

variable (cfg : Config) (c : Clients)

def visited (d : Disk) (v : Visit) : Disk :=
  match entryOf v.matchId d.queued with
  | none => d
  | some e => ((Poller.visit cfg e).exec (Poller.alone (v.outside c)) d).2

/-- The verdicts on a match, as long as it is queued. -/
def verdicts (matchId : ℕ) : Disk → List Visit → List Verdict
  | _, [] => []
  | d, v :: vs =>
    (if v.matchId = matchId then
      ((entryOf matchId d.queued).map (Poller.verdict cfg (v.outside c))).toList else []) ++
      verdicts matchId (visited cfg c d v) vs

variable {cfg c} {d : Disk} {m : ℕ}

/-- The attempts that a verdict charges. -/
def Verdict.charge (v : Verdict) : ℕ := if v.isFailed then 1 else 0

/-- The standing of a match after the verdicts, counted from its first attempts. -/
structure Tallied (cfg : Config) (attempts : ℕ) (vs : List Verdict) (s : Standing) : Prop where
  dead : s.dead = true ↔
    vs.any (·.isFatal) = true ∨ cfg.maxRetries ≤ attempts + vs.countP (·.isFailed)
  entry : ∀ e, s.entry = some e → e.attempts = attempts + vs.countP (·.isFailed)

theorem Tallied.cons {attempts : ℕ} {v : Verdict} {vs : List Verdict} {s : Standing}
    (hv : v.isFatal = false) (h : Tallied cfg (attempts + v.charge) vs s) :
    Tallied cfg attempts (v :: vs) s := by
  have hcount : attempts + (v :: vs).countP (·.isFailed) =
      attempts + v.charge + vs.countP (·.isFailed) := by
    rw [List.countP_cons, Verdict.charge]
    omega
  refine ⟨?_, fun e he => (h.entry e he).trans hcount.symm⟩
  rw [hcount, List.any_cons, hv, Bool.false_or]
  exact h.dead

end Visits

def refused (_ : List String) : Except LichessError (List (String × Except LichessError Winner)) :=
  .error (.httpStatus 404)

end Checkmate.Service

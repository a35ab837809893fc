import Mathlib.Data.List.Perm.Subperm
import Checkmate.Service.Queue

/-!
# The poller

`tick` takes the due entries through a lookup and a submission. An entry whose submission is
confirmed leaves the queue, one that failed for good or too often goes to the dead-letter store
(`exhaustEntry`), any other is scheduled again. `reconcile` pages through the active matches of
the escrow contract and queues those without a result. Both run in a loop of their own.
`replayAll` and `replayMatch` are the operator's tool, which puts dead-lettered entries back in
the queue.

Errors of the stores are logged and nothing else (`logged`), wherever the source does so.
-/

namespace Checkmate.Service

/-- The settings the poller reads. `platformCheck` is a platform's own check of a game id. -/
structure Config where
  maxRetries : ℕ
  retryBaseDelaySecs : ℕ
  maxFeeStroops : ℕ
  platformCheck : Platform → String → Except String Unit

/-- Settings that accept every game id. -/
def Config.plain : Config where
  maxRetries := 2
  retryBaseDelaySecs := 10
  maxFeeStroops := 1000000
  platformCheck _ _ := .ok ()

/-! ## Submission -/

namespace SorobanClient

def maxPolls : ℕ := 30

def pollDelaySecs : ℕ := 2

/-- Poll a transaction, `polls` more times. -/
def awaitConfirmation (matchId : ℕ) (txHash : String) : ℕ → Fallible Unit
  | 0 => throw (.txFailed ("transaction " ++ txHash ++ " did not confirm within " ++
      toString (maxPolls * pollDelaySecs) ++ "s"))
  | polls + 1 => do
    infallible (ask .sleep)
    match ← tryAsk (ask (.getTransaction matchId txHash)) with
    | .success => pure ()
    | .failed detail =>
      throw (.txFailed ("transaction " ++ txHash ++ " failed: " ++ detail))
    | .unsettled => awaitConfirmation matchId txHash polls

/-- The fee of a transaction, if it is a `u32` and not above the maximum. -/
def totalFee (maxFeeStroops : ℕ) (minFee : ℤ) : Except OracleServiceError ℕ :=
  let totalFee := 100000 + minFee
  if totalFee < 0 ∨ (u32Max : ℤ) < totalFee then
    .error (.rpcError ("oracle fee " ++ toString totalFee ++ " stroops exceeds u32::MAX"))
  else if (maxFeeStroops : ℤ) < totalFee then
    .error (.rpcError ("oracle fee " ++ toString totalFee ++
      " stroops exceeds configured maximum " ++ toString maxFeeStroops ++ " stroops"))
  else .ok totalFee.toNat

def submitResult (cfg : Config) (matchId : ℕ) (winner : Winner) : Fallible String := do
  let _ ← tryAsk (ask .accountSequence)
  let sim ← tryAsk (ask (.simulateTransaction matchId winner))
  let _ ← liftExcept (totalFee cfg.maxFeeStroops sim.minResourceFee)
  liftExcept sim.decoded
  let txHash ← tryAsk (ask (.sendTransaction matchId winner))
  awaitConfirmation matchId txHash maxPolls
  pure txHash
where
  liftExcept {α : Type} (x : Except OracleServiceError α) : Fallible α := tryAsk (.pure x)

end SorobanClient

/-! ## One entry -/

namespace Poller

variable (cfg : Config)

/-- Check the length of a game id, then its platform's format. -/
def validateGameId (platform : Platform) (gameId : String) : Except String Unit :=
  let len := gameId.utf8ByteSize
  if len = 0 then .error "game_id is empty"
  else if 64 < len then .error ("game_id is too long (" ++ toString len ++ " bytes, max 64)")
  else cfg.platformCheck platform gameId

/-- Move an entry to the dead-letter store. It leaves the queue whether or not the push failed. -/
def exhaustEntry (entry : PendingEntry) : Io Unit := do
  logged (DeadLetterStore.push entry)
  logged (PendingQueue.remove entry.matchId)

/-- An entry that failed for good counts as tried as often as allowed. -/
def giveUp (entry : PendingEntry) (reason : String) : Io Unit :=
  exhaustEntry { entry with lastError := some reason, attempts := cfg.maxRetries }

def handleTransient (entry : PendingEntry) (reason : String) : Io Unit := do
  let now ← ask .clock
  let (entry, exhausted) :=
    entry.recordFailure now reason cfg.retryBaseDelaySecs cfg.maxRetries
  if exhausted then exhaustEntry entry else logged (PendingQueue.updateEntry entry)

def submitAndComplete (entry : PendingEntry) (winner : Winner) : Io Unit := do
  match ← (SorobanClient.submitResult cfg entry.matchId winner).run with
  | .ok txHash => do
    match ← (PendingQueue.remove entry.matchId).run with
    | .error _ => pure ()
    | .ok _ => logged (PendingQueue.load none)
    let _ ← ask (.appendSubmission entry.matchId winner txHash)
  | .error e => handleTransient cfg entry e.text

def handleFetchOutcome (entry : PendingEntry) (winnerResult : Except FetchError Winner) :
    Io Unit :=
  match winnerResult with
  | .ok winner => do
    ask (.cacheInsert entry.platform entry.gameId winner)
    submitAndComplete cfg entry winner
  | .error (.permanent reason) => giveUp cfg entry reason
  | .error (.transient reason) => handleTransient cfg entry reason

def processEntry (entry : PendingEntry) : Io Unit :=
  match validateGameId cfg entry.platform entry.gameId with
  | .error reason => giveUp cfg entry reason
  | .ok _ => do
    match ← ask (.cached entry.platform entry.gameId) with
    | some winner => submitAndComplete cfg entry winner
    | none =>
      match ← ask (.fetchResult entry.platform entry.gameId) with
      | .rateLimited retryAfter => ask (.backOff entry.platform retryAfter)
      | .outcome result => handleFetchOutcome cfg entry result

/-- The entries in order, until their platform is backing off. -/
def processEach : List PendingEntry → Io Unit
  | [] => pure ()
  | entry :: entries => do
    if ← ask (.skipIfBackingOff entry.platform) then pure ()
    else do
      processEntry cfg entry
      processEach entries

/-! ## A batch from Lichess -/

/-- Deal with the entries that need no lookup, and return the others. -/
def sortBatch : List PendingEntry → Io (List PendingEntry)
  | [] => pure []
  | entry :: entries =>
    match validateGameId cfg entry.platform entry.gameId with
    | .error reason => do
      giveUp cfg entry reason
      sortBatch entries
    | .ok _ => do
      match ← ask (.cached entry.platform entry.gameId) with
      | some winner => do
        submitAndComplete cfg entry winner
        sortBatch entries
      | none => do
        let pending ← sortBatch entries
        pure (entry :: pending)

/-- The outcome for a game in the results of a batch. -/
def batchOutcome (results : List (String × Except FetchError Winner)) (gameId : String) :
    Except FetchError Winner :=
  (results.lookup gameId).getD (.error (.transient "missing from batch result"))

def processLichessBatch (entries : List PendingEntry) : Io Unit := do
  if ← ask (.skipIfBackingOff .lichess) then pure ()
  else do
    let pending ← sortBatch cfg entries
    if pending.isEmpty then pure ()
    else do
      match ← ask (.fetchResultsBatch (pending.map (·.gameId))) with
      | .results results =>
        Prog.forEach (fun entry =>
          handleFetchOutcome cfg entry (batchOutcome results entry.gameId)) pending
      | .rateLimited retryAfter => ask (.backOff .lichess retryAfter)
      | .unavailable => processEach cfg pending
      | .failed reason => Prog.forEach (fun entry => handleTransient cfg entry reason) pending

def tick : Io Unit := do
  match ← PendingQueue.dueEntries.run with
  | .error _ => pure ()
  | .ok due =>
    match ← (PendingQueue.load none).run with
    | .error _ => pure ()
    | .ok _ => do
      let (lichess, others) := due.partition (·.platform = .lichess)
      if lichess.isEmpty then pure () else processLichessBatch cfg lichess
      processEach cfg others

/-! ## Reconciliation and the operator's tool -/

/-- What a thread of the service runs. `again` : in a loop, with a sleep after each pass. -/
inductive Task where
  | tick (again : Bool)
  | reconcile (again : Bool)
  /-- The loop of a pass of reconciliation, at an offset. -/
  | page (again : Bool) (deadLetteredIds : List ℕ) (offset : ℕ)
  | replayAll (maxRetries : Option ℕ) (dryRun : Bool)
  | replayMatch (matchId : ℕ) (maxRetries : Option ℕ) (dryRun : Bool)
deriving DecidableEq, Repr

/-- After a pass. -/
def rest (again : Bool) (task : Task) : Io (Option Task) :=
  if again then do
    ask .sleep
    pure (some task)
  else pure none

def pageSize : ℕ := 50

/-- One active match in a pass of reconciliation. -/
def reconcileMatch (deadLetteredIds : List ℕ) (m : ActiveMatchSummary) : Io Unit := do
  match ← ask (.hasResult m.matchId) with
  | .error _ => pure ()
  | .ok alreadyResolved =>
    if alreadyResolved then pure ()
    else if m.matchId ∈ deadLetteredIds then pure ()
    else logged (PendingQueue.enqueue m.matchId m.gameId m.platform)

/-- One turn of the loop : a page, and the cursor after it. -/
def reconcilePage (again : Bool) (deadLetteredIds : List ℕ) (offset : ℕ) :
    Io (Option Task) := do
  match ← ask (.activeMatchesPaginated offset pageSize) with
  | .error _ => rest again (.reconcile again)
  | .ok page =>
    if page.isEmpty then do
      ReconciliationCursor.clear
      rest again (.reconcile again)
    else do
      Prog.forEach (reconcileMatch deadLetteredIds) page
      let offset := offset + page.length
      logged (ReconciliationCursor.save offset)
      if page.length < pageSize then do
        ReconciliationCursor.clear
        rest again (.reconcile again)
      else pure (some (.page again deadLetteredIds offset))

def reconcile (again : Bool) : Io (Option Task) := do
  match ← (DeadLetterStore.load none).run with
  | .error _ => rest again (.reconcile again)
  | .ok entries => do
    let offset ← ReconciliationCursor.load
    pure (some (.page again (entries.map (·.entry.matchId)) offset))

theorem reconcile_eq (again : Bool) :
    reconcile again =
      .op (.load .deadLetter none) fun
        | .error _ => rest again (.reconcile again)
        | .ok (content, _) => .op (.load .cursor none) fun r => .pure (some (.page again
            ((content.getD []).map (·.entry.matchId))
            (match r with
              | .error _ => 0
              | .ok (offset, _) => offset.getD 0))) := by
  refine congrArg (Prog.op _) (funext fun r => ?_)
  cases r with
  | error => rfl
  | ok r =>
    refine congrArg (Prog.op _) (funext fun r => ?_)
    cases r <;> rfl

/-- Replay one entry, unless it was tried too often. -/
def replayEntry (maxRetries : Option ℕ) (dryRun : Bool) (dl : DeadLetterEntry) : Io Unit := do
  if maxRetries.any (· ≤ dl.totalAttempts) then pure ()
  else if dryRun then pure ()
  else do
    match ← (PendingQueue.enqueue dl.entry.matchId dl.entry.gameId dl.entry.platform).run with
    | .ok true => logged (DeadLetterStore.remove dl.entry.matchId)
    | .ok false => pure ()
    | .error _ => pure ()

/-- A store that cannot be read counts as empty. -/
def loadDeadLetters : Io (List DeadLetterEntry) := do
  match ← (DeadLetterStore.load none).run with
  | .ok entries => pure entries
  | .error _ => pure []

def replayAll (maxRetries : Option ℕ) (dryRun : Bool) : Io Unit := do
  let entries ← loadDeadLetters
  Prog.forEach (replayEntry maxRetries dryRun) entries

def replayMatch (matchId : ℕ) (maxRetries : Option ℕ) (dryRun : Bool) : Io Unit := do
  let entries ← loadDeadLetters
  match entries.find? (·.entry.matchId = matchId) with
  | none => pure ()
  | some dl => replayEntry maxRetries dryRun dl

/-- The program of a task. -/
def prog : Task → Io (Option Task)
  | .tick again => do
    tick cfg
    rest again (.tick again)
  | .reconcile again => reconcile again
  | .page again deadLetteredIds offset => reconcilePage again deadLetteredIds offset
  | .replayAll maxRetries dryRun => do
    replayAll maxRetries dryRun
    pure none
  | .replayMatch matchId maxRetries dryRun => do
    replayMatch matchId maxRetries dryRun
    pure none

end Poller

/-! ## What a contract asks of the poller

A thread that runs the poller keeps an assertion if the operations at the leaves of its calls
do. -/

section Keeping

open Contract List

variable {W A : Type} {K : Contract Cmd.Answer W A} {I : W → Prop}

theorem keeps_logged (hI : K.Stable I) {α : Type} {x : Fallible α} (hx : K.Keeps I x.run) :
    K.Keeps I (logged x) :=
  hx.bind fun _ => keeps_pure hI ()

theorem keeps_fileIo (hI : K.Stable I) {α : Type} {x : Io (Except String α)} (hx : K.Keeps I x) :
    K.Keeps I (fileIo x).run :=
  hx.bind fun _ => keeps_pure hI _

theorem keeps_saveFile (hI : K.Stable I) {s : Store} {content : s.Content}
    (hwrite : K.Keeps I (command (.write s content))) (hrename : K.Keeps I (command (.rename s))) :
    K.Keeps I (saveFile s content).run :=
  Keeps.tryBind hI (keeps_fileIo hI hwrite) fun _ => keeps_fileIo hI hrename

theorem keeps_loadQueue (hI : K.Stable I) (h : K.Keeps I (command (.load .pending none))) :
    K.Keeps I (PendingQueue.load none).run :=
  Keeps.tryBind hI (keeps_fileIo hI h) fun _ => keeps_pure hI _

/-- The questions that are not put to a contract. -/
def Query.isLocal : Query → Bool
  | .activeMatchesPaginated .. | .hasResult _ | .accountSequence | .simulateTransaction ..
  | .sendTransaction .. | .getTransaction .. => false
  | _ => true

namespace Poller

variable {J : List ℕ → W → Prop}

/-- The program deals with one of the matches that are still to be dealt with. -/
def Handles {α : Type} (K : Contract Cmd.Answer W A) (J : List ℕ → W → Prop) (matchId : ℕ)
    (p : Io α) : Prop :=
  ∀ ids w, J (matchId :: ids) w → p.Meets K (fun _ => J ids) w

/-- The leaves of a tick. `J ids` is what holds while the matches `ids` are still to be dealt
with in this tick. -/
structure TickMeets (cfg : Config) (K : Contract Cmd.Answer W A) (J : List ℕ → W → Prop) :
    Prop where
  stable : ∀ ids, K.Stable (J ids)
  weaken : ∀ {ids ids' : List ℕ} {w}, ids'.Subperm ids → J ids w → J ids' w
  ask : ∀ q, q.isLocal = true → ∀ ids, K.Keeps (J ids) (ask q)
  due : ∀ w, J [] w → PendingQueue.dueEntries.run.Meets K (fun r w' => match r with
    | .ok due => J (due.map (·.matchId)) w'
    | .error _ => J [] w') w
  load : ∀ ids, K.Keeps (J ids) (PendingQueue.load none).run
  update : ∀ entry, Handles K J entry.matchId (PendingQueue.updateEntry entry).run
  exhaust : ∀ entry, Handles K J entry.matchId (exhaustEntry entry)
  submit : ∀ entry winner, Handles K J entry.matchId (submitAndComplete cfg entry winner)

variable {cfg : Config}

theorem handleTransient_handles (hJ : ∀ ids, K.Stable (J ids))
    (hclock : ∀ ids, K.Keeps (J ids) (ask .clock))
    (hupdate : ∀ entry, Handles K J entry.matchId (PendingQueue.updateEntry entry).run)
    (hexhaust : ∀ entry, Handles K J entry.matchId (exhaustEntry entry)) (entry : PendingEntry)
    (reason : String) : Handles K J entry.matchId (handleTransient cfg entry reason) := by
  intro ids w hw
  refine ((hclock _ w hw).mono fun now w1 hw1 => ?_).bind
  have hid :=
    entry.recordFailure_matchId now reason cfg.retryBaseDelaySecs cfg.maxRetries
  revert hid
  cases entry.recordFailure now reason cfg.retryBaseDelaySecs cfg.maxRetries with
  | mk failed exhausted =>
    intro hid
    rw [← hid] at hw1
    cases exhausted with
    | true => exact hexhaust failed ids w1 hw1
    | false =>
      exact ((hupdate failed ids w1 hw1).mono fun _ w2 hw2 => keeps_pure (hJ ids) () w2 hw2).bind

namespace TickMeets

variable (h : TickMeets cfg K J)
include h

theorem transient (entry : PendingEntry) (reason : String) :
    Handles K J entry.matchId (handleTransient cfg entry reason) :=
  handleTransient_handles h.stable (h.ask .clock rfl) h.update h.exhaust entry reason

theorem fetchOutcome (entry : PendingEntry) (result : Except FetchError Winner) :
    Handles K J entry.matchId (handleFetchOutcome cfg entry result) := by
  intro ids w hw
  cases result with
  | ok winner =>
    exact ((h.ask (.cacheInsert _ _ _) rfl _ w hw).mono fun _ => h.submit entry winner ids).bind
  | error e =>
    cases e with
    | permanent => exact h.exhaust _ ids w hw
    | transient reason => exact h.transient entry reason ids w hw

theorem entry (e : PendingEntry) : Handles K J e.matchId (processEntry cfg e) := by
  intro ids w hw
  simp only [processEntry]
  cases validateGameId cfg e.platform e.gameId with
  | error => exact h.exhaust _ ids w hw
  | ok =>
    refine ((h.ask (.cached _ _) rfl _ w hw).mono fun cached w hw => ?_).bind
    cases cached with
    | some winner => exact h.submit e winner ids w hw
    | none =>
      refine ((h.ask (.fetchResult _ _) rfl _ w hw).mono fun reply w hw => ?_).bind
      cases reply with
      | rateLimited =>
        exact h.ask (.backOff _ _) rfl ids w
          (h.weaken (sublist_cons_self _ _).subperm hw)
      | outcome result => exact h.fetchOutcome e result ids w hw

theorem each (entries : List PendingEntry) {ids : List ℕ} {w : W}
    (hw : J (entries.map (·.matchId) ++ ids) w) :
    (processEach cfg entries).Meets K (fun _ => J ids) w := by
  induction entries generalizing w with
  | nil => exact keeps_pure (h.stable ids) () w hw
  | cons e entries ih =>
    refine ((h.ask (.skipIfBackingOff _) rfl _ w hw).mono fun skip w hw => ?_).bind
    cases skip with
    | true =>
      exact keeps_pure (h.stable ids) () w
        (h.weaken (sublist_append_right _ _).subperm hw)
    | false => exact ((h.entry e _ w hw).mono fun _ w hw => ih hw).bind

theorem forEach {f : PendingEntry → Io Unit} (hf : ∀ e, Handles K J e.matchId (f e))
    (entries : List PendingEntry) {ids : List ℕ} {w : W}
    (hw : J (entries.map (·.matchId) ++ ids) w) :
    (Prog.forEach f entries).Meets K (fun _ => J ids) w := by
  induction entries generalizing w with
  | nil => exact keeps_pure (h.stable ids) () w hw
  | cons e entries ih => exact ((hf e _ w hw).mono fun _ w hw => ih hw).bind

theorem sort (entries : List PendingEntry) {ids : List ℕ} {w : W}
    (hw : J (entries.map (·.matchId) ++ ids) w) :
    (sortBatch cfg entries).Meets K (fun pending => J (pending.map (·.matchId) ++ ids)) w := by
  induction entries generalizing ids w with
  | nil => exact fun w' hrely hinv => h.stable ids w w' hrely hinv hw
  | cons e entries ih =>
    simp only [sortBatch]
    cases validateGameId cfg e.platform e.gameId with
    | error reason =>
      exact ((h.exhaust { e with lastError := some reason, attempts := cfg.maxRetries } _ w
        hw).mono fun _ w hw => ih hw).bind
    | ok =>
      refine ((h.ask (.cached _ _) rfl _ w hw).mono fun cached w hw => ?_).bind
      cases cached with
      | some winner => exact ((h.submit e winner _ w hw).mono fun _ w hw => ih hw).bind
      | none =>
        -- the entry is looked up after the others, so meanwhile it is one of `ids`
        refine ((ih (h.weaken perm_middle.subperm hw)).mono fun pending w hw => ?_).bind
        exact keeps_pure (h.stable _) (e :: pending) w
          (h.weaken perm_middle.symm.subperm hw)

theorem lichessBatch (entries : List PendingEntry) {ids : List ℕ} {w : W}
    (hw : J (entries.map (·.matchId) ++ ids) w) :
    (processLichessBatch cfg entries).Meets K (fun _ => J ids) w := by
  have hskip : ∀ (es : List PendingEntry) {w}, J (es.map (·.matchId) ++ ids) w → J ids w :=
    fun es _ hw => h.weaken (sublist_append_right _ _).subperm hw
  refine ((h.ask (.skipIfBackingOff _) rfl _ w hw).mono fun skip w hw => ?_).bind
  cases skip with
  | true => exact keeps_pure (h.stable ids) () w (hskip entries hw)
  | false =>
    refine ((h.sort entries hw).mono fun pending w hw => ?_).bind
    cases pending with
    | nil => exact keeps_pure (h.stable ids) () w hw
    | cons e rest =>
      refine ((h.ask (.fetchResultsBatch _) rfl _ w hw).mono fun reply w hw => ?_).bind
      cases reply with
      | results => exact h.forEach (fun e => h.fetchOutcome e _) (e :: rest) hw
      | rateLimited =>
        exact h.ask (.backOff _ _) rfl ids w (hskip (e :: rest) hw)
      | unavailable => exact h.each (e :: rest) hw
      | failed reason => exact h.forEach (fun e => h.transient e reason) (e :: rest) hw

theorem tick {w : W} (hw : J [] w) : (Poller.tick cfg).Meets K (fun _ => J []) w := by
  refine ((h.due w hw).mono fun due w hw => ?_).bind
  cases due with
  | error => exact keeps_pure (h.stable []) () w hw
  | ok due =>
    refine ((h.load _ w hw).mono fun depth w hw => ?_).bind
    cases depth with
    | error => exact keeps_pure (h.stable []) () w (h.weaken nil_subperm hw)
    | ok =>
      cases hpart : due.partition (·.platform = .lichess) with
      | mk lichess others =>
        have hperm : (lichess ++ others).Perm due := by
          rw [partition_eq_filter_filter, Prod.mk.injEq] at hpart
          obtain ⟨rfl, rfl⟩ := hpart
          exact filter_append_perm _ _
        replace hperm := hperm.map (·.matchId)
        rw [map_append] at hperm
        replace hw := h.weaken hperm.subperm hw
        have hothers : ∀ w, J (others.map (·.matchId)) w →
            (processEach cfg others).Meets K (fun _ => J []) w := fun w hw =>
          h.each others (by rwa [append_nil])
        cases lichess with
        | nil => exact hothers w hw
        | cons e rest =>
          exact ((h.lichessBatch (e :: rest) hw).mono fun _ w hw => hothers w hw).bind

end TickMeets

/-- The leaves of a tick, where nothing depends on the matches. -/
structure TickKeeps (cfg : Config) (K : Contract Cmd.Answer W A) (I : W → Prop) : Prop where
  stable : K.Stable I
  ask : ∀ q, q.isLocal = true → K.Keeps I (ask q)
  load : K.Keeps I (PendingQueue.load none).run
  update : ∀ entry, K.Keeps I (PendingQueue.updateEntry entry).run
  exhaust : ∀ entry, K.Keeps I (exhaustEntry entry)
  submit : ∀ entry winner, K.Keeps I (submitAndComplete cfg entry winner)

theorem handleTransient_keeps (hI : K.Stable I) (hclock : K.Keeps I (ask .clock))
    (hupdate : ∀ entry, K.Keeps I (PendingQueue.updateEntry entry).run)
    (hexhaust : ∀ entry, K.Keeps I (exhaustEntry entry)) (entry : PendingEntry)
    (reason : String) : K.Keeps I (handleTransient cfg entry reason) :=
  @handleTransient_handles W A K (fun _ => I) cfg (fun _ => hI) (fun _ => hclock)
    (fun entry _ => hupdate entry) (fun entry _ => hexhaust entry) entry reason []

theorem TickKeeps.tick (h : TickKeeps cfg K I) : K.Keeps I (Poller.tick cfg) := by
  have hdue : K.Keeps I PendingQueue.dueEntries.run :=
    Keeps.tryBind h.stable h.load fun _ => keeps_pure h.stable _
  have hmeets : TickMeets cfg K fun _ => I :=
    { stable := fun _ => h.stable
      weaken := fun _ hw => hw
      ask := fun q hq _ => h.ask q hq
      due := fun w hw => (hdue w hw).mono fun r w hw => by cases r <;> exact hw
      load := fun _ => h.load
      update := fun entry _ => h.update entry
      exhaust := fun entry _ => h.exhaust entry
      submit := fun entry winner _ => h.submit entry winner }
  exact fun w hw => hmeets.tick hw

/-! A submission -/

/-- One assertion for an end with a value, another for an end with an error. -/
def Ends {β : Type} (Q I : W → Prop) : Except OracleServiceError β → W → Prop
  | .ok _, w => Q w
  | .error _, w => I w

theorem error_meets (hI : K.Stable I) {β : Type} {Q : W → Prop} (e : OracleServiceError) {w : W}
    (hw : I w) : (Prog.pure (.error e) : Io (Except OracleServiceError β)).Meets K (Ends Q I) w :=
  fun w' hrely hinv => hI w w' hrely hinv hw

theorem value_meets {Q : W → Prop} (hQ : K.Stable Q) {β : Type} (b : β) {w : W} (hw : Q w) :
    (Prog.pure (.ok b) : Io (Except OracleServiceError β)).Meets K (Ends Q I) w :=
  fun w' hrely hinv => hQ w w' hrely hinv hw

theorem try_meets (hI : K.Stable I) {α β : Type} {x : Fallible α} {f : α → Fallible β}
    {Q : W → Prop} {w : W} (hx : K.Keeps I x.run)
    (hf : ∀ a w, I w → (f a).run.Meets K (Ends Q I) w) (hw : I w) :
    (x >>= f).run.Meets K (Ends Q I) w := by
  refine Prog.Meets.tryBind ((hx w hw).mono fun r w hw => ?_)
  cases r with
  | ok a => exact hf a w hw
  | error e => exact error_meets hI e hw

/-- The leaves of `submitResult`. `I` holds before it and if it fails, `P polls` while it may poll
so many times more, `Q` once it is confirmed. -/
structure SubmitMeets (K : Contract Cmd.Answer W A) (matchId : ℕ) (I : W → Prop)
    (P : ℕ → W → Prop) (Q : W → Prop) : Prop where
  stable : K.Stable I
  stable_waiting : ∀ polls, K.Stable (P polls)
  stable_confirmed : K.Stable Q
  sequence : K.Keeps I (ask .accountSequence)
  simulate : ∀ winner, K.Keeps I (ask (.simulateTransaction matchId winner))
  send : ∀ winner w, I w →
    (ask (.sendTransaction matchId winner)).Meets K (Ends (P SorobanClient.maxPolls) I) w
  sleep : ∀ polls, K.Keeps (P polls) (ask .sleep)
  poll : ∀ txHash polls w, P (polls + 1) w →
    (ask (.getTransaction matchId txHash)).Meets K (fun r w' => match r with
      | .ok .success => Q w'
      | .ok .unsettled => P polls w'
      | .ok (.failed _) | .error _ => I w') w
  last : ∀ w, P 0 w → I w

namespace SubmitMeets

variable {id : ℕ} {P : ℕ → W → Prop} {Q : W → Prop} (h : SubmitMeets K id I P Q)
include h

theorem await (txHash : String) (polls : ℕ) {w : W} (hw : P polls w) :
    (SorobanClient.awaitConfirmation id txHash polls).run.Meets K (Ends Q I) w := by
  induction polls generalizing w with
  | zero => exact error_meets h.stable _ (h.last w hw)
  | succ polls ih =>
    refine Prog.Meets.tryBind (Prog.Meets.bind ((h.sleep _ w hw).mono ?_))
    intro _ w hw w' hrely hinv
    have hw' := h.stable_waiting _ w w' hrely hinv hw
    refine Prog.Meets.tryBind ((h.poll txHash polls w' hw').mono fun r w hw => ?_)
    match r with
    | .ok .success => exact value_meets h.stable_confirmed () hw
    | .ok .unsettled => exact ih hw
    | .ok (.failed detail) => exact error_meets h.stable _ hw
    | .error e => exact error_meets h.stable e hw

theorem submitResult (cfg : Config) (winner : Winner) {w : W} (hw : I w) :
    (SorobanClient.submitResult cfg id winner).run.Meets K (Ends Q I) w := by
  refine try_meets h.stable h.sequence (fun _ w hw => ?_) hw
  refine try_meets h.stable (h.simulate winner) (fun _ w hw => ?_) hw
  refine try_meets h.stable (keeps_pure h.stable _) (fun _ w hw => ?_) hw
  refine try_meets h.stable (keeps_pure h.stable _) (fun _ w hw => ?_) hw
  refine Prog.Meets.tryBind ((h.send winner w hw).mono fun r w hw => ?_)
  cases r with
  | error e => exact error_meets h.stable e hw
  | ok txHash =>
    refine Prog.Meets.tryBind ((h.await txHash _ hw).mono fun r w hw => ?_)
    cases r with
    | error e => exact error_meets h.stable e hw
    | ok => exact value_meets h.stable_confirmed txHash hw

/-- What follows a submission. -/
theorem complete {entry : PendingEntry} (hentry : entry.matchId = id) {R : W → Prop}
    (hR : K.Stable R)
    (hremove : ∀ w, Q w → (PendingQueue.remove id).run.Meets K (fun _ => R) w)
    (hload : K.Keeps R (PendingQueue.load none).run)
    (hask : ∀ q, q.isLocal = true → K.Keeps R (Service.ask q))
    (htransient : ∀ reason w, I w → (handleTransient cfg entry reason).Meets K (fun _ => R) w)
    (winner : Winner) {w : W} (hw : I w) :
    (submitAndComplete cfg entry winner).Meets K (fun _ => R) w := by
  subst hentry
  refine ((h.submitResult cfg winner hw).mono fun r w hw => ?_).bind
  cases r with
  | error e => exact htransient e.text w hw
  | ok txHash =>
    have hend := (hask (.appendSubmission entry.matchId winner txHash) rfl).bind fun _ =>
      keeps_pure hR ()
    refine ((hremove w hw).mono fun removed w hw => ?_).bind
    cases removed with
    | error => exact hend w hw
    | ok => exact (Keeps.bind (keeps_logged hR hload) fun _ => hend) w hw

end SubmitMeets

/-- A submission, where no question and no removal breaks the assertion. -/
theorem submitAndComplete_keeps (hI : K.Stable I) (hask : ∀ q, K.Keeps I (ask q))
    (hload : K.Keeps I (PendingQueue.load none).run)
    (hremove : ∀ id, K.Keeps I (PendingQueue.remove id).run)
    (htransient : ∀ entry reason, K.Keeps I (handleTransient cfg entry reason))
    (entry : PendingEntry) (winner : Winner) :
    K.Keeps I (submitAndComplete cfg entry winner) := by
  have hsubmit : SubmitMeets K entry.matchId I (fun _ => I) I :=
    { stable := hI
      stable_waiting := fun _ => hI
      stable_confirmed := hI
      sequence := hask _
      simulate := fun _ => hask _
      send := fun _ w hw => (hask _ w hw).mono fun r w hw => by cases r <;> exact hw
      sleep := fun _ => hask _
      poll := fun _ _ w hw => (hask _ w hw).mono fun r w hw => by split <;> exact hw
      last := fun _ hw => hw }
  exact fun w hw => hsubmit.complete rfl hI (hremove entry.matchId) hload (fun q _ => hask q)
    (htransient entry) winner hw

theorem tickKeeps_of_calls (hI : K.Stable I) (hask : ∀ q, K.Keeps I (ask q))
    (hload : K.Keeps I (command (.load .pending none)))
    (hcall : ∀ call : QueueCall, (∀ id gameId platform,
      call ≠ .enqueue id gameId platform) → K.Keeps I (call.prog () ()))
    (hexhaust : ∀ entry, K.Keeps I (exhaustEntry entry)) : TickKeeps cfg K I := by
  have hupdate : ∀ entry, K.Keeps I (PendingQueue.updateEntry entry).run := fun entry =>
    updateEntry_eq entry ▸ hcall _ fun _ _ _ h => nomatch h
  have hremove : ∀ id, K.Keeps I (PendingQueue.remove id).run := fun id =>
    remove_eq id ▸ hcall _ fun _ _ _ h => nomatch h
  have hload' := keeps_loadQueue hI hload
  exact ⟨hI, fun q _ => hask q, hload', hupdate, hexhaust,
    submitAndComplete_keeps hI hask hload' hremove
      (handleTransient_keeps hI (hask .clock) hupdate hexhaust)⟩

/-! A pass of reconciliation -/

theorem rest_keeps (hI : K.Stable I) (hsleep : K.Keeps I (ask .sleep)) (again : Bool)
    (task : Task) : K.Keeps I (rest again task) := by
  cases again with
  | false => exact keeps_pure hI none
  | true => exact hsleep.bind fun _ => keeps_pure hI _

theorem reconcileMatch_keeps (hI : K.Stable I) {ids : List ℕ}
    (hask : ∀ id, K.Keeps I (ask (.hasResult id)))
    (henqueue : ∀ id gameId platform, id ∉ ids →
      K.Keeps I (PendingQueue.enqueue id gameId platform).run) (m : ActiveMatchSummary) :
    K.Keeps I (reconcileMatch ids m) := by
  refine Keeps.bind (hask m.matchId) fun resolved => ?_
  cases resolved with
  | error => exact keeps_pure hI ()
  | ok resolved =>
    cases resolved with
    | true => exact keeps_pure hI ()
    | false =>
      change K.Keeps I (if m.matchId ∈ ids then _ else _)
      split
      · exact keeps_pure hI ()
      · next hm => exact keeps_logged hI (henqueue _ m.gameId m.platform hm)

/-- A turn of the loop. The assertion holds up to the end of the pass. -/
theorem reconcilePage_meets (hI : K.Stable I) {again : Bool} {ids : List ℕ} {offset : ℕ}
    {Q : Option Task → W → Prop} (hask : K.Keeps I (ask (.activeMatchesPaginated offset pageSize)))
    (hmatch : ∀ m, K.Keeps I (reconcileMatch ids m))
    (hsave : ∀ offset, K.Keeps I (ReconciliationCursor.save offset).run)
    (hclear : K.Keeps I ReconciliationCursor.clear)
    (hrest : ∀ w, I w → (rest again (.reconcile again)).Meets K Q w)
    (hnext : ∀ offset w, I w → Q (some (.page again ids offset)) w) {w : W} (hw : I w) :
    (reconcilePage again ids offset).Meets K Q w := by
  have hend : ∀ w, I w → (ReconciliationCursor.clear.bind fun _ =>
      rest again (.reconcile again)).Meets K Q w := fun w hw =>
    ((hclear w hw).mono fun _ w hw => hrest w hw).bind
  refine ((hask w hw).mono fun page w hw => ?_).bind
  cases page with
  | error => exact hrest w hw
  | ok page =>
    cases page with
    | nil => exact hend w hw
    | cons m page =>
      refine ((keeps_forEach hI hmatch (m :: page) w hw).mono fun _ w hw => ?_).bind
      refine ((keeps_logged hI (hsave _) w hw).mono fun _ w hw => ?_).bind
      split
      · exact hend w hw
      · exact fun w' hrely hinv => hnext _ w' (hI w w' hrely hinv hw)

theorem reconcilePage_keeps (hI : K.Stable I) {again : Bool} {ids : List ℕ}
    (hask : ∀ q, K.Keeps I (ask q))
    (hmatch : ∀ m, K.Keeps I (reconcileMatch ids m))
    (hsave : ∀ offset, K.Keeps I (ReconciliationCursor.save offset).run)
    (hclear : K.Keeps I ReconciliationCursor.clear) (offset : ℕ) :
    K.Keeps I (reconcilePage again ids offset) := fun _ hw =>
  reconcilePage_meets hI (hask _) hmatch hsave hclear (rest_keeps hI (hask .sleep) again _)
    (fun _ _ hw => hw) hw

/-! Everything the service runs -/

/-- The leaves of all tasks but a tick and a replay. -/
structure TasksKeep (cfg : Config) (K : Contract Cmd.Answer W A) (I : W → Prop) : Prop where
  stable : K.Stable I
  ask : ∀ q, K.Keeps I (ask q)
  load : ∀ s, K.Keeps I (command (.load s none))
  enqueue : ∀ matchId gameId platform, K.Keeps I (PendingQueue.enqueue matchId gameId platform).run
  saveCursor : ∀ offset, K.Keeps I (ReconciliationCursor.save offset).run
  clear : K.Keeps I (command (.removeFile .cursor))
  tick : K.Keeps I (tick cfg)
  replay : ∀ maxRetries dryRun dl, K.Keeps I (replayEntry maxRetries dryRun dl)

theorem keeps_loadDead (hI : K.Stable I) (h : K.Keeps I (command (.load .deadLetter none))) :
    K.Keeps I (DeadLetterStore.load none).run :=
  Keeps.tryBind hI (keeps_fileIo hI h) fun _ => keeps_pure hI _

namespace TasksKeep

variable (h : TasksKeep cfg K I)
include h

theorem reconcile (again : Bool) : K.Keeps I (Poller.reconcile again) := by
  refine Keeps.bind (keeps_loadDead h.stable (h.load _)) fun entries => ?_
  cases entries with
  | error => exact rest_keeps h.stable (h.ask .sleep) again _
  | ok =>
    refine Keeps.bind (Keeps.bind (keeps_fileIo h.stable (h.load .cursor)) fun offset => ?_)
      fun _ => keeps_pure h.stable _
    cases offset <;> exact keeps_pure h.stable _

theorem loadDeadLetters : K.Keeps I loadDeadLetters := by
  refine Keeps.bind (keeps_loadDead h.stable (h.load _)) fun entries => ?_
  cases entries <;> exact keeps_pure h.stable _

/-- Every task keeps the assertion. -/
theorem prog (task : Task) : K.Keeps I (prog cfg task) := by
  cases task with
  | tick again => exact h.tick.bind fun _ => rest_keeps h.stable (h.ask .sleep) again _
  | reconcile again => exact h.reconcile again
  | page again ids offset =>
    exact reconcilePage_keeps h.stable h.ask
      (reconcileMatch_keeps h.stable (fun _ => h.ask _) fun _ _ _ _ => h.enqueue _ _ _)
      h.saveCursor (keeps_logged h.stable (keeps_fileIo h.stable h.clear)) offset
  | replayAll maxRetries dryRun =>
    refine Keeps.bind (Keeps.bind h.loadDeadLetters fun entries => ?_) fun _ =>
      keeps_pure h.stable _
    exact keeps_forEach h.stable (h.replay maxRetries dryRun) entries
  | replayMatch id maxRetries dryRun =>
    refine Keeps.bind (Keeps.bind h.loadDeadLetters fun entries => ?_) fun _ =>
      keeps_pure h.stable _
    split
    · exact keeps_pure h.stable ()
    · exact h.replay maxRetries dryRun _

end TasksKeep

/-- The leaves of all tasks, where no call on the queue breaks the assertion. -/
structure ServiceKeeps (K : Contract Cmd.Answer W A) (I : W → Prop) : Prop where
  stable : K.Stable I
  ask : ∀ q, K.Keeps I (ask q)
  load : ∀ s, K.Keeps I (command (.load s none))
  loadPush : ∀ matchId, K.Keeps I (command (.load .deadLetter (some (.push matchId))))
  call : ∀ (β : Type) (call : QueueCall) (kept saved : β), K.Keeps I (call.prog kept saved)
  save : ∀ s, s ≠ .pending → ∀ content, K.Keeps I (saveFile s content).run
  clear : K.Keeps I (command (.removeFile .cursor))

namespace ServiceKeeps

variable (h : ServiceKeeps K I)
include h

theorem enqueue (id : ℕ) (gameId : String) (platform : Platform) :
    K.Keeps I (PendingQueue.enqueue id gameId platform).run :=
  enqueue_eq id gameId platform ▸ h.call _ _ _ _

theorem exhaust (entry : PendingEntry) : K.Keeps I (exhaustEntry entry) := by
  have hremove : K.Keeps I (PendingQueue.remove entry.matchId).run :=
    remove_eq entry.matchId ▸ h.call _ _ _ _
  have hpush : K.Keeps I (DeadLetterStore.push entry).run := by
    refine Keeps.tryBind h.stable ((h.ask .clock).bind fun _ => keeps_pure h.stable _)
      fun now => ?_
    refine Keeps.tryBind h.stable (Keeps.tryBind h.stable
      (keeps_fileIo h.stable (h.loadPush entry.matchId)) fun _ => keeps_pure h.stable _)
      fun entries => ?_
    split
    · exact keeps_pure h.stable _
    · exact h.save .deadLetter (by decide) _
  exact (keeps_logged h.stable hpush).bind fun _ => keeps_logged h.stable hremove

theorem replayEntry (maxRetries : Option ℕ) (dryRun : Bool) (dl : DeadLetterEntry) :
    K.Keeps I (replayEntry maxRetries dryRun dl) := by
  have hremove : K.Keeps I (DeadLetterStore.remove dl.entry.matchId).run :=
    Keeps.tryBind h.stable (keeps_loadDead h.stable (h.load _)) fun _ =>
      h.save .deadLetter (by decide) _
  rw [Poller.replayEntry]
  split
  · exact keeps_pure h.stable ()
  · split
    · exact keeps_pure h.stable ()
    · refine Keeps.bind (h.enqueue _ _ _) fun added => ?_
      match added with
      | .ok true => exact keeps_logged h.stable hremove
      | .ok false => exact keeps_pure h.stable ()
      | .error _ => exact keeps_pure h.stable ()

theorem tasks (cfg : Config) : TasksKeep cfg K I where
  stable := h.stable
  ask := h.ask
  load := h.load
  enqueue := h.enqueue
  saveCursor := h.save .cursor (by decide)
  clear := h.clear
  tick := (tickKeeps_of_calls h.stable h.ask (h.load .pending) (fun _ _ => h.call _ _ _ _)
    h.exhaust).tick
  replay := h.replayEntry

end ServiceKeeps

end Poller

end Keeping

end Checkmate.Service

import Mathlib.Logic.Relation
import Checkmate.Escrow.Outcomes

/-!
# The book of wagers

What the contract is for, without the indexes, statistics and snapshots around it : a
book of matches, the winners that wait for their dispute window, the player escrow
counters, the token balances and the movements made. `MatchStep` lists what can happen
to one match, with the action that does it, the transfers made on account of the match
and the changes of the escrow counters. `Change` lifts a step to the book, where matches
are also opened. The other half of what an entry point writes about a match is the register :
the lists and counters that find it, and the statistics it enters. `FileStep` and `FileChange`
are its steps and changes.

Two steps exist only because a batch goes on after a failing entry : `strayDeposit`
takes a stake without recording it, and `settleHalf` completes a match without a date of
completion. `strayRefund`, for multi-token matches only, is the same in a bulk expiry. A deposit
that fails inside a batch leaves the lists half written (`Refiles`).
-/

namespace Checkmate.Escrow

open Function

/-- What an entry point does to matches, with the match where it gives something back, and
whether it goes on after an error. -/
inductive Action where
  | administer
  | create
  | deposit (batch : Bool)
  | settle (batch : Bool)
  | cancel (matchId : ℕ)
  | expireMany
  | recover (matchId : ℕ)
  | pause
  | resume
  | heartbeat
  | rollback (matchId : ℕ) (disputer : Address)
  | stall
  | finalize
  | dispute
  | vote
  | resolve
  | claim (matchId : ℕ)
deriving DecidableEq

def Call.action : Call → Action
  | .initializeContract .. | .control .. => .administer
  | .createMatch .. | .createMatchTournament .. | .createMatchWithConversion ..
  | .createMatchWithReferrer .. => .create
  | .deposit .. => .deposit false
  | .depositBatch .. => .deposit true
  | .submitResult .. | .submitDraw .. | .submitResultWithOracleRecord ..
  | .submitResultConsensus .. | .resolveOracleDeadlock .. => .settle false
  | .submitResultBatch .. => .settle true
  | .cancelMatch matchId _ | .expireMatch matchId => .cancel matchId
  | .bulkExpireMatches .. => .expireMany
  | .adminRecoverMatch matchId => .recover matchId
  | .pauseMatch .. => .pause
  | .resumeMatch .. => .resume
  | .heartbeatMatch .. => .heartbeat
  | .disputeAndRollbackMatch matchId disputer _ => .rollback matchId disputer
  | .adminResolveStalledMatch .. => .stall
  | .finalizeMatch .. => .finalize
  | .disputeOracleResult .. => .dispute
  | .voteOnDispute .. => .vote
  | .resolveDisputeByVote .. => .resolve
  | .claimVestedPayout matchId _ => .claim matchId

/-- The entry points that go on after an entry's error. -/
def Call.isBatch : Call → Bool
  | .depositBatch .. | .submitResultBatch .. | .bulkExpireMatches .. => true
  | _ => false

/-- Matches, waiting winners, escrow counters, balances and movements. -/
@[ext] structure Book where
  matchMap : ℕ → Option Match
  matchCount : ℕ
  pendingWinner : ℕ → Option Winner
  escrow : Address → ℤ
  ledger : Ledger Address
  log : List Transfer

/-- The book in the contract's state. -/
def World.book (w : World) : Book where
  matchMap := w.matchMap
  matchCount := w.matchCount
  pendingWinner := w.disputes.pendingWinner
  escrow := w.escrow
  ledger := w.ledger
  log := w.log

/-! ## Steps of one match -/

/-- Take the stakes of both sides off the escrow counters. -/
def Match.bothDeltas (m : Match) : List (Address × ℤ) :=
  [(m.player1, -m.stakeAmount), (m.player2, -m.stakeAmount)]

/-- Take the refunded amounts off the escrow counters. -/
def Match.refundDeltas (m : Match) : List (Address × ℤ) :=
  (if m.player1Deposited then [(m.player1, -m.stakeAmount)] else []) ++
    (if m.player2Deposited then [(m.player2, -m.counterAmountB)] else [])

/-- One step of a match `m` with waiting winner `pw`, under a configuration and a dispute
period : the action, the transfers, the counter changes, and the match and the waiting
winner after it. -/
inductive MatchStep (env : Env) (config : ProtocolConfig) (period matchId : ℕ) (m : Match)
    (pw : Option Winner) :
    Action → List Transfer → List (Address × ℤ) → Match → Option Winner → Prop
  | deposit {batch : Bool} (side : Side) (hstate : m.state = .pending)
      (hside : m.deposited side = false) (hother : m.deposited side.other = false) :
      MatchStep env config period matchId m pw (.deposit batch) [depositTransfer matchId m side]
        [(m.player side, m.stakeAmount)]
        (m.withDeposit side env.timestamp) pw
  | activate {batch : Bool} (side : Side) (hstate : m.state = .pending)
      (hside : m.deposited side = false) (hother : m.deposited side.other = true)
      (hfit : 2 * m.stakeAmount ≤ i128Max) :
      MatchStep env config period matchId m pw (.deposit batch) [depositTransfer matchId m side]
        [(m.player side, m.stakeAmount)]
        ((m.withDeposit side env.timestamp).activated env.timestamp) pw
  | strayDeposit (side : Side) (hstate : m.state = .pending) (hside : m.deposited side = false)
      (hother : m.deposited side.other = true) :
      MatchStep env config period matchId m pw (.deposit true) [depositTransfer matchId m side]
        [(m.player side, m.stakeAmount)] m pw
  | settleNow {batch : Bool} (winner : Winner) (hwinner : winner ≠ .none)
      (hstate : m.state = .active ∨ m.state = .paused) (hperiod : period = 0) :
      MatchStep env config period matchId m pw (.settle batch) [] m.bothDeltas
        ((m.resulted env winner).completedAt env.sequence) pw
  | settleHalf (winner : Winner) (hwinner : winner ≠ .none)
      (hstate : m.state = .active ∨ m.state = .paused) (hperiod : period ≠ 0) :
      MatchStep env config period matchId m pw (.settle true) [] []
        (m.resulted env winner) pw
  | settleLater {batch : Bool} (winner : Winner) (hwinner : winner ≠ .none)
      (hstate : m.state = .active ∨ m.state = .paused) (hperiod : period ≠ 0) :
      MatchStep env config period matchId m pw (.settle batch) [] []
        ((m.resulted env winner).withState .pendingResult) (some winner)
  | cancel {a : Action} {ts : List Transfer} {amount : ℤ}
      (haction : a = .cancel matchId ∨ a = .expireMany) (hstate : m.state = .pending)
      (hrel : Releases matchId m .refund amount ts)
      (hle : 0 ≤ m.stakeAmount → m.tokenB = none → amount ≤ m.funded) :
      MatchStep env config period matchId m pw a ts m.refundDeltas
        ((m.withState .cancelled).completedAt env.sequence) pw
  | strayRefund {ts : List Transfer} {amount : ℤ} (hstate : m.state = .pending)
      (hrel : Releases matchId m .refund amount ts) (hmulti : m.tokenB ≠ none) :
      MatchStep env config period matchId m pw .expireMany ts [] m pw
  | recover {ts : List Transfer} {amount : ℤ} (hstate : m.state = .pending)
      (hrel : Releases matchId m .refund amount ts)
      (hle : 0 ≤ m.stakeAmount → m.tokenB = none → amount ≤ m.funded) :
      MatchStep env config period matchId m pw (.recover matchId) ts []
        ((m.withState .cancelled).completedAt env.sequence) pw
  | pause (hstate : m.state = .active) (pausedLedger : Option ℕ) (total : ℕ) :
      MatchStep env config period matchId m pw .pause [] []
        ((m.withState .paused).withPause pausedLedger total) pw
  | resume (hstate : m.state = .paused) (pausedLedger : Option ℕ) (total : ℕ) :
      MatchStep env config period matchId m pw .resume [] []
        ((m.withState .active).withPause pausedLedger total) pw
  | heartbeat (hstate : m.state = .active) :
      MatchStep env config period matchId m pw .heartbeat [] [] (m.withHeartbeat env.timestamp) pw
  | rollbackVote (side : Side) (hstate : m.state = .active) (hauth : m.player side ∈ env.auths) :
      MatchStep env config period matchId m pw (.rollback matchId (m.player side)) [] []
        (m.voteRollback side) pw
  | rollback (side : Side) {ts : List Transfer} (hstate : m.state = .active)
      (hauth : m.player side ∈ env.auths)
      (hvotes : (m.voteRollback side).rollbackVotePlayer1 = true ∧
        (m.voteRollback side).rollbackVotePlayer2 = true)
      (hrel : Releases matchId m .refund m.funded ts) :
      MatchStep env config period matchId m pw (.rollback matchId (m.player side)) ts []
        (((m.voteRollback side).withState .cancelled).completedAt env.sequence) pw
  | stall (winner : Winner) (hwinner : winner ≠ .none) {ts : List Transfer}
      (hstate : m.state = .active ∨ m.state = .paused)
      (hrel : Releases matchId m .payout (2 * m.stakeAmount) ts) :
      MatchStep env config period matchId m pw .stall ts []
        (((m.withState .completed).withWinner winner).completedAt env.sequence) pw
  | finalize {ts : List Transfer} (hstate : m.state = .pendingResult) (hpw : pw.isSome = true)
      (hrel : Releases matchId m .payout (2 * m.stakeAmount) ts) :
      MatchStep env config period matchId m pw .finalize ts m.bothDeltas
        ((m.withState .completed).completedAt env.sequence) pw
  | bond (disputer : Address) (amount : ℤ) (hstate : m.state = .pendingResult) :
      MatchStep env config period matchId m pw .dispute
        [⟨m.token, disputer, .self, amount, ⟨matchId, .bond⟩⟩] [] m pw
  | resolve {ts : List Transfer} (target : Address) (amount : ℤ)
      (hstate : m.state = .pendingResult) (hpw : pw.isSome = true)
      (hrel : Releases matchId m .payout (2 * m.stakeAmount) ts) :
      MatchStep env config period matchId m pw .resolve
        (outgoing matchId .bondReturn m.token target amount :: ts) []
        ((m.withState .completed).completedAt env.sequence) pw
  | claim (side : Side) {ts : List Transfer} {amount : ℤ} (hstate : m.state = .completed)
      (hvested : m.vestedAt.isSome = true) (hclaimed : m.claimed side = false)
      (hwinner : m.winner = side.winner ∨ m.winner = .draw)
      (hrel : Releases matchId m .claim amount ts)
      (hle : 0 ≤ m.stakeAmount → m.winner = .draw ∨ config.capNonneg →
        amount = m.entitlement side) :
      MatchStep env config period matchId m pw (.claim matchId) ts [] (m.setClaimed side) pw

/-! ## Changes of the book -/

/-- Apply changes to the escrow counters in order. -/
def applyDeltas (escrow : Address → ℤ) (deltas : List (Address × ℤ)) : Address → ℤ :=
  deltas.foldl (fun e d => addToEscrow e d.1 d.2) escrow

theorem releaseEscrow_eq (m : Match) (escrow : Address → ℤ) :
    m.releaseEscrow escrow = applyDeltas escrow m.refundDeltas := by
  unfold Match.releaseEscrow Match.refundDeltas
  cases m.player1Deposited <;> cases m.player2Deposited <;> rfl

/-- Write a step of one match into the book. -/
@[simps -fullyApplied]
def Book.moved (b : Book) (matchId : ℕ) (m : Match) (pw : Option Winner) (ts : List Transfer)
    (deltas : List (Address × ℤ)) (l : Ledger Address) : Book where
  matchMap := update b.matchMap matchId (some m)
  matchCount := b.matchCount
  pendingWinner := update b.pendingWinner matchId pw
  escrow := applyDeltas b.escrow deltas
  ledger := l
  log := ts ++ b.log

/-- A step that leaves the waiting winner. -/
theorem Book.moved_self (b : Book) (id : ℕ) (m : Match) (ts : List Transfer)
    (deltas : List (Address × ℤ)) (l : Ledger Address) :
    b.moved id m (b.pendingWinner id) ts deltas l = { b with
        matchMap := update b.matchMap id (some m)
        escrow := applyDeltas b.escrow deltas
        ledger := l
        log := ts ++ b.log } := by
  simp [Book.moved]

/-- Open a match under the next id. -/
@[simps -fullyApplied] def Book.opened (b : Book) (m : Match) : Book :=
  { b with
    matchMap := update b.matchMap b.matchCount (some m)
    matchCount := b.matchCount + 1 }

/-- What the parameters of a match that is opened satisfy. -/
structure MatchParams.Valid (p : MatchParams) (env : Env) : Prop where
  stake_pos : 1 ≤ p.stakeAmount
  stake_le : p.stakeAmount ≤ i128Max
  players : p.player1 ≠ p.player2
  player1_auth : p.player1 ∈ env.auths
  player2_ne : p.player2 ≠ .self
  referrer : ∀ r ∈ p.referrer, r ≠ p.player1 ∧ r ≠ p.player2 ∧ r ≠ .self
  tokens : p.tokenB.isSome = p.conversionRate.isSome
  rate_pos : ∀ rate ∈ p.conversionRate, 0 < rate

/-- One function call inside an invocation : a match is opened or takes a step. -/
inductive Change (env : Env) (config : ProtocolConfig) (period : ℕ) :
    Action → Book → Book → Prop
  | opening {b : Book} (p : MatchParams) (rateLedger : Option ℕ) (hp : p.Valid env)
      (hfree : b.matchMap b.matchCount = none) :
      Change env config period .create b (b.opened (p.newMatch env b.matchCount rateLedger))
  | moving {b : Book} {matchId : ℕ} {m m' : Match} {pw : Option Winner} {a : Action}
      {ts : List Transfer} {deltas : List (Address × ℤ)} {l : Ledger Address}
      (hm : b.matchMap matchId = some m)
      (hstep : MatchStep env config period matchId m (b.pendingWinner matchId) a ts deltas m' pw)
      (hl : b.ledger.Moves ts l) :
      Change env config period a b (b.moved matchId m' pw ts deltas l)

/-- What the entries of a batch do to the book. -/
abbrev Changes (env : Env) (config : ProtocolConfig) (period : ℕ) (a : Action) :
    Book → Book → Prop :=
  Relation.ReflTransGen (Change env config period a)

/-! ## The register -/

/-- Match records, the lists and counters that find them, and statistics. -/
@[ext] structure Register where
  matchMap : ℕ → Option Match
  matchCount : ℕ
  index : Index
  stats : Stats

/-- The register in the contract's state. -/
def World.register (w : World) : Register where
  matchMap := w.matchMap
  matchCount := w.matchCount
  index := w.index
  stats := w.stats

/-- The index after a match has left its players' active sets and entered a state list. -/
def Index.retire (ix : Index) (m : Match) (matchId : ℕ) (state : MatchState) : Index :=
  (ix.removeActivePlayers m matchId).setMatchState m state

/-- The statistics after a result. -/
def Stats.recordResult (st : Stats) (m : Match) (winner : Winner) : Stats :=
  (((st.recordCompletedPlayers m).recordPlatformPayout m.platform).updatePlayerStats m.player1
    winner m.stakeAmount true).updatePlayerStats m.player2 winner m.stakeAmount false

/-- The statistics after a payout. -/
def Stats.recordPaid (st : Stats) (m : Match) : Stats :=
  (st.recordCompletedPlayers m).recordPlatformPayout m.platform

/-- One step of a match `m` in the register, under a dispute period : the action, the match
and the index and statistics after it. -/
inductive FileStep (env : Env) (period matchId : ℕ) (m : Match) (ix : Index) (st : Stats) :
    Action → Match → Index → Stats → Prop
  | deposit {batch : Bool} (side : Side) (hstate : m.state = .pending)
      (hside : m.deposited side = false) (hother : m.deposited side.other = false) :
      FileStep env period matchId m ix st (.deposit batch) (m.withDeposit side env.timestamp)
        ix st
  | activate {batch : Bool} (side : Side) {ix' : Index} (hstate : m.state = .pending)
      (hside : m.deposited side = false) (hother : m.deposited side.other = true)
      (hix : ix.activate (m.withDeposit side env.timestamp) matchId = some ix') :
      FileStep env period matchId m ix st (.deposit batch)
        ((m.withDeposit side env.timestamp).activated env.timestamp) ix' st
  | settleNow {batch : Bool} (winner : Winner) (hwinner : winner ≠ .none)
      (hstate : m.state = .active ∨ m.state = .paused) (hperiod : period = 0) :
      FileStep env period matchId m ix st (.settle batch)
        ((m.resulted env winner).completedAt env.sequence) (ix.retire m matchId .completed)
        (st.recordResult m winner)
  | settleHalf (winner : Winner) (hwinner : winner ≠ .none)
      (hstate : m.state = .active ∨ m.state = .paused) (hperiod : period ≠ 0) :
      FileStep env period matchId m ix st (.settle true) (m.resulted env winner)
        (ix.retire m matchId .completed) (st.recordResult m winner)
  | settleLater {batch : Bool} (winner : Winner) (hwinner : winner ≠ .none)
      (hstate : m.state = .active ∨ m.state = .paused) (hperiod : period ≠ 0) :
      FileStep env period matchId m ix st (.settle batch)
        ((m.resulted env winner).withState .pendingResult)
        ((ix.retire m matchId .completed).setMatchState (m.resulted env winner) .pendingResult)
        (st.recordResult m winner)
  | close {a : Action} (haction : a = .cancel matchId ∨ a = .expireMany ∨ a = .recover matchId)
      (hstate : m.state = .pending) :
      FileStep env period matchId m ix st a ((m.withState .cancelled).completedAt env.sequence)
        (ix.setMatchState m .cancelled) st
  | pause (hstate : m.state = .active) (pausedLedger : Option ℕ) (total : ℕ) :
      FileStep env period matchId m ix st .pause
        ((m.withState .paused).withPause pausedLedger total) (ix.setMatchState m .paused) st
  | resume (hstate : m.state = .paused) (pausedLedger : Option ℕ) (total : ℕ) :
      FileStep env period matchId m ix st .resume
        ((m.withState .active).withPause pausedLedger total) (ix.setMatchState m .active) st
  | heartbeat (hstate : m.state = .active) :
      FileStep env period matchId m ix st .heartbeat (m.withHeartbeat env.timestamp) ix st
  | rollbackVote (side : Side) (disputer : Address) (hstate : m.state = .active) :
      FileStep env period matchId m ix st (.rollback matchId disputer) (m.voteRollback side) ix st
  | rollback (side : Side) (disputer : Address) (hstate : m.state = .active) :
      FileStep env period matchId m ix st (.rollback matchId disputer)
        (((m.voteRollback side).withState .cancelled).completedAt env.sequence)
        (ix.retire m matchId .cancelled) st
  | stall (winner : Winner) (hwinner : winner ≠ .none)
      (hstate : m.state = .active ∨ m.state = .paused) :
      FileStep env period matchId m ix st .stall
        (((m.withState .completed).withWinner winner).completedAt env.sequence)
        (ix.retire m matchId .completed)
        (if winner = .draw then st else st.recordCompletedPlayers m)
  | paid {a : Action} (haction : a = .finalize ∨ a = .resolve)
      (hstate : m.state = .pendingResult) :
      FileStep env period matchId m ix st a
        ((m.withState .completed).completedAt env.sequence) (ix.retire m matchId .completed)
        (st.recordPaid m)
  | claim (side : Side) (hstate : m.state = .completed) :
      FileStep env period matchId m ix st (.claim matchId) (m.setClaimed side) ix st

/-- Write a step of one match into the register. -/
@[simps -fullyApplied] def Register.moved (r : Register) (matchId : ℕ) (m : Match) (ix : Index)
    (st : Stats) : Register where
  matchMap := update r.matchMap matchId (some m)
  matchCount := r.matchCount
  index := ix
  stats := st

/-- Open a match under the next id. -/
@[simps -fullyApplied] def Register.opened (r : Register) (m : Match) : Register where
  matchMap := update r.matchMap r.matchCount (some m)
  matchCount := r.matchCount + 1
  index := r.index.addMatch m
  stats := r.stats.recordPlatformMatchCreated m.stakeAmount m.platform

/-- A match is opened or takes a step. -/
inductive FileChange (env : Env) (period : ℕ) : Action → Register → Register → Prop
  | opening {r : Register} (p : MatchParams) (rateLedger : Option ℕ) (hp : p.Valid env)
      (hfree : r.matchMap r.matchCount = none) :
      FileChange env period .create r (r.opened (p.newMatch env r.matchCount rateLedger))
  | moving {r : Register} {matchId : ℕ} {m m' : Match} {a : Action} {ix : Index} {st : Stats}
      (hm : r.matchMap matchId = some m)
      (hstep : FileStep env period matchId m r.index r.stats a m' ix st) :
      FileChange env period a r (r.moved matchId m' ix st)

/-- What one entry of a call does to the register. Only batches of deposits change the index
alone. -/
def Refiles (env : Env) (period : ℕ) (a : Action) (r r' : Register) : Prop :=
  FileChange env period a r r' ∨ a = .deposit true ∧ ∃ ix, r' = { r with index := ix }

end Checkmate.Escrow

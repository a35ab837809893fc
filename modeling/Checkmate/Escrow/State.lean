import Mathlib.Logic.Function.Basic
import Mathlib.Tactic.Simps.Basic
import Checkmate.Host.Tx
import Checkmate.Host.Ledger
import Checkmate.Escrow.Types

/-!
# State of the escrow contract and its host

`World` is the contract's storage together with the token balances it acts on. The
storage keys fall into parts that different functions write :

* `Control` : administration, oracle, configuration, registries and upgrades,
* the match records and their count,
* `Index` : the lists and counters that find matches,
* `Stats` and `Snapshots` : statistics and balance history,
* `Disputes` and `Consensus` : results under dispute and oracle votes,
* the per-player escrow counter and the deposit guard.

`World.log` lists every token movement the contract took part in, newest first, with
the match and the leg of it that the movement was for. No function reads it.

`Env` is what one invocation finds around it : ledger time, the addresses that
authorised it, and how the token and oracle contracts it calls behave. The contract's
own address never authorises an invocation.
-/

namespace Checkmate.Escrow

/-- One of the two players of a match. -/
inductive Side where
  | player1
  | player2
deriving DecidableEq, Repr

/-- The part of a match a token movement belongs to. -/
inductive Leg where
  | deposit (side : Side)
  | refund (side : Side)
  | cancelFee (side : Side)
  | payout (side : Side)
  | stallPayout (side : Side)
  | claim (side : Side)
  | referralFee
  | protocolFee
  | bond
  | bondReturn
deriving DecidableEq, Repr

/-- The match and the leg a token movement is for. -/
structure Cause where
  matchId : ℕ
  leg : Leg
deriving DecidableEq, Repr

/-- A token movement of the contract. -/
abbrev Transfer := Movement Address Cause

/-- What one invocation finds around it. -/
structure Env where
  /-- Ledger sequence number. -/
  sequence : ℕ
  sequence_le : sequence ≤ u32Max
  /-- Ledger close time in seconds. -/
  timestamp : ℕ
  timestamp_le : timestamp ≤ u64Max
  /-- The authorisations that came with the invocation, by address. -/
  auths : List Address
  self_notMem : Address.self ∉ auths
  /-- Whether the token contract carries out a transfer that the balance covers. -/
  accepts : Ledger Address → (token source target : Address) → ℤ → Bool
  /-- The symbol a token contract answers, if it answers. -/
  symbol : Address → Option Bytes
  /-- The rate the oracle contract answers for a token pair, if it answers. -/
  rate : (oracle tokenA tokenB : Address) → Option ℤ
  /-- What the oracle contract pays for a swap, if it carries it out. -/
  swapOut : Ledger Address → (oracle tokenIn tokenOut : Address) → ℤ → Option ℤ
  /-- The host's random bytes, by number of the draw. -/
  nonce : ℕ → Bytes
  sha256 : Bytes → Bytes
  /-- Whether a panic unwinds, as in a native build, or ends the invocation. -/
  unwinds : Bool

/-- Administration, configuration and registries. -/
structure Control where
  admin : Option Address := none
  pendingAdmin : Option PendingAdminProposal := none
  oracle : Option Address := none
  oracleRotation : Option OracleRotationState := none
  paused : Bool := false
  protocolConfig : Option ProtocolConfig := none
  referralShareBasisPoints : Option ℕ := none
  feeTiers : List FeeTier := []
  disputePeriod : Option ℕ := none
  disputeBondBasisPoints : Option ℕ := none
  minimumHoldDuration : Option ℕ := none
  quorumBasisPoints : Option ℕ := none
  allowedToken : Address → Bool := fun _ => false
  allowedTokenCount : ℕ := 0
  allowlistEnforced : Bool := false
  allowedTokens : List Address := []
  stablecoinIssuer : Address → Bool := fun _ => false
  stablecoinIssuerCount : ℕ := 0
  blacklistedToken : Address → Option Bytes := fun _ => none
  blacklistedTokens : List Address := []
  frozenPlayer : Address → Option Bytes := fun _ => none
  frozenPlayers : List Address := []
  playerPreferredToken : Address → Option Address := fun _ => none
  organizer : ℕ → Option Address := fun _ => none
  rating : Address × Platform → Option PlayerRating := fun _ => none
  approvedOracles : Option (List Address) := none
  requiredOracleConfirmations : Option ℕ := none
  contractVersion : Option ℕ := none
  pendingUpgradeHash : Option Bytes := none
  upgradeScheduledAt : Option ℕ := none
  upgradeConfirmedBy : Option Address := none
  /-- The code the last executed upgrade installed. -/
  wasmHash : Option Bytes := none
  /-- The authorisations that the running invocation has already used. -/
  authed : List Address := []

/-- The lists and counters that find matches. -/
structure Index where
  gameId : Bytes → Bool := fun _ => false
  playerMatches : Address → List ℕ := fun _ => []
  matchesByState : MatchState → List ℕ := fun _ => []
  bracketMatches : ℕ → List ℕ := fun _ => []
  activeMatch : Address × ℕ → Bool := fun _ => false
  playerActiveMatchCount : Address → ℕ := fun _ => 0

/-- Counters of past play. -/
structure Stats where
  playerCompletedMatchCount : Address → ℕ := fun _ => 0
  global : PlatformStats := {}
  platform : Platform → PlatformStats := fun _ => {}
  player : Address → PlayerStats := fun _ => {}

/-- Balance history, in ring buffers. -/
structure Snapshots where
  snapshot : ℕ × ℕ → Option BalanceSnapshot := fun _ => none
  snapshotCount : ℕ → ℕ := fun _ => 0
  playerSnapshot : Address × ℕ → Option PlayerBalanceSnapshot := fun _ => none
  playerSnapshotCount : Address → ℕ := fun _ => 0
  tokenSymbol : Address → Option Bytes := fun _ => none
  /-- Random draws made so far. -/
  draws : ℕ := 0

/-- Results that wait for the dispute window, and the disputes about them. -/
structure Disputes where
  pendingWinner : ℕ → Option Winner := fun _ => none
  resultDeadline : ℕ → Option ℕ := fun _ => none
  dispute : ℕ → Option Dispute := fun _ => none
  disputeCount : ℕ := 0
  matchDispute : ℕ → Option ℕ := fun _ => none
  disputeOracle : ℕ → Option Address := fun _ => none
  disputeVote : ℕ × Address → Option Bool := fun _ => none
  disputeVoteWeight : ℕ × Address → Option ℤ := fun _ => none

/-- Votes of the approved oracles. -/
structure Consensus where
  oracleVote : ℕ × Address → Option Winner := fun _ => none
  oracleConfirmations : ℕ → ℕ := fun _ => 0
  consensusLeadingWinner : ℕ → Option Winner := fun _ => none
  oracleDeadlock : ℕ → Bool := fun _ => false
  oracleRecord : ℕ → Option Bytes := fun _ => none

/-- The contract's storage, the token balances and the movements made so far. -/
structure World where
  control : Control := {}
  matchMap : ℕ → Option Match := fun _ => none
  matchCount : ℕ := 0
  index : Index := {}
  stats : Stats := {}
  snapshots : Snapshots := {}
  disputes : Disputes := {}
  consensus : Consensus := {}
  /-- `PlayerEscrowKey::Balance`. -/
  escrow : Address → ℤ := fun _ => 0
  /-- The temporary guard `DepositInProgress`. -/
  depositInProgress : ℕ → Bool := fun _ => false
  ledger : Ledger Address := fun _ _ => 0
  log : List Transfer := []

/-! ## Updates

The functions write the state through these, so that a written state is a chain of
updates whose other parts `simp` reads off. -/

namespace World

@[simps -fullyApplied] def withControl (w : World) (c : Control) : World := { w with control := c }

@[simps -fullyApplied] def putMatch (w : World) (matchId : ℕ) (m : Match) : World :=
  { w with matchMap := Function.update w.matchMap matchId (some m) }

@[simps -fullyApplied] def withIndex (w : World) (ix : Index) : World := { w with index := ix }

@[simps -fullyApplied] def withStats (w : World) (st : Stats) : World := { w with stats := st }

@[simps -fullyApplied]
def withSnapshots (w : World) (sn : Snapshots) : World := { w with snapshots := sn }

@[simps -fullyApplied]
def withDisputes (w : World) (d : Disputes) : World := { w with disputes := d }

@[simps -fullyApplied]
def withConsensus (w : World) (s : Consensus) : World := { w with consensus := s }

@[simps -fullyApplied]
def withEscrow (w : World) (escrow : Address → ℤ) : World := { w with escrow }

@[simps -fullyApplied] def withDepositGuard (w : World) (matchId : ℕ) (value : Bool) : World :=
  { w with depositInProgress := Function.update w.depositInProgress matchId value }

/-- Enter a transfer that led to the balances `l`. -/
@[simps -fullyApplied] def withTransfer (w : World) (t : Transfer) (l : Ledger Address) : World :=
  { w with ledger := l, log := t :: w.log }

/-- Enter several transfers, the newest first, that led to the balances `l`. -/
@[simps -fullyApplied] def withTransfers (w : World) (ts : List Transfer)
    (l : Ledger Address) : World :=
  { w with ledger := l, log := ts ++ w.log }

@[simp] theorem withControl_self (w : World) : w.withControl w.control = w := rfl

@[simp] theorem withControl_withControl (w : World) (c c' : Control) :
    (w.withControl c).withControl c' = w.withControl c' := rfl

@[simp] theorem withIndex_withIndex (w : World) (ix ix' : Index) :
    (w.withIndex ix).withIndex ix' = w.withIndex ix' := rfl

@[simp] theorem withEscrow_withEscrow (w : World) (e e' : Address → ℤ) :
    (w.withEscrow e).withEscrow e' = w.withEscrow e' := rfl

@[simp] theorem withDepositGuard_withDepositGuard (w : World) (id : ℕ) (a b : Bool) :
    (w.withDepositGuard id a).withDepositGuard id b = w.withDepositGuard id b := by
  simp [withDepositGuard]

@[simp] theorem withSnapshots_withSnapshots (w : World) (sn sn' : Snapshots) :
    (w.withSnapshots sn).withSnapshots sn' = w.withSnapshots sn' := rfl

end World

namespace Match

@[simps -fullyApplied] def withState (m : Match) (state : MatchState) : Match := { m with state }

@[simps -fullyApplied] def completedAt (m : Match) (ledger : ℕ) : Match :=
  { m with completedLedger := some ledger }

/-- Record a winner, whose payout vests from `now`. -/
@[simps -fullyApplied] def withResult (m : Match) (winner : Winner) (now : ℕ) : Match :=
  { m with winner, vestedAt := some now }

@[simps -fullyApplied]
def withActivation (m : Match) (now : ℕ) : Match := { m with activatedAt := some now }

@[simps -fullyApplied]
def withPause (m : Match) (pausedLedger : Option ℕ) (totalPauseDuration : ℕ) : Match :=
  { m with pausedLedger, totalPauseDuration }

@[simps -fullyApplied] def withWinner (m : Match) (winner : Winner) : Match := { m with winner }

@[simps -fullyApplied]
def withHeartbeat (m : Match) (now : ℕ) : Match := { m with lastHeartbeat := now }

end Match

/-- Contract functions that only administer. -/
abbrev ControlTx (α : Type) := Tx Env Control Error α

/-- Contract functions. -/
abbrev EscrowTx (α : Type) := Tx Env World Error α

/-- Run an administrative function on its part of the state. -/
def onControl {α : Type} (x : ControlTx α) : EscrowTx α :=
  Tx.zoom World.control (fun c w => w.withControl c) x

@[simp] theorem onControl_ok_iff {α : Type} {x : ControlTx α} {env : Env} {w w' : World} {a : α} :
    onControl x env w = .ok a w' ↔ ∃ c, x env w.control = .ok a c ∧ w' = w.withControl c := by
  simp [onControl]

@[simp] theorem onControl_err_iff {α : Type} {x : ControlTx α} {env : Env} {w w' : World}
    {e : Error} : onControl x env w = .err e w' ↔
      ∃ c, x env w.control = .err e c ∧ w' = w.withControl c := by
  simp [onControl]

theorem onControl_bind {α β : Type} (x : ControlTx α) (f : α → ControlTx β) :
    onControl (x >>= f) = onControl x >>= fun a => onControl (f a) := by
  funext env w
  simp only [onControl, Tx.zoom, bind]
  cases x env w.control <;> rfl

/-! ## Players of a match -/

namespace Match

def player (m : Match) : Side → Address
  | .player1 => m.player1
  | .player2 => m.player2

def deposited (m : Match) : Side → Bool
  | .player1 => m.player1Deposited
  | .player2 => m.player2Deposited

def claimed (m : Match) : Side → Bool
  | .player1 => m.player1Claimed
  | .player2 => m.player2Claimed

/-- Number of players that have deposited. -/
def depositorCount (m : Match) : ℤ := m.player1Deposited.toInt + m.player2Deposited.toInt

end Match

end Checkmate.Escrow
